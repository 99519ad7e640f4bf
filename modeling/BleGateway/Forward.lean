import BleGateway.Encoders
import BleGateway.MsgDef

/-!
# The forwarder (`src/UartCmdRxThread.c`, lines 345–572)

`Forward_MSG_Queue_Thread` takes a message from its queue and relays the payload to connections.
The thread is a machine with a program counter (`ForwardPc`) that stops at every point where it
touches something shared: a queue, the UART, the connection table.

* `next`: what the thread does from a state. `receive` and `onRsp` continue it after a receive.
* `Retry`: the source has the retry loop three times, twice inside a loop over the connections. The
  copies differ in what they do with the answer `0x16` (`retryStep`); the loops differ in the
  connections that they visit (`Visits`).

Messages and delays do not change what the thread does, so `printf`, `usleep` and `sleep` are left
out.
-/

namespace Ble

/-- `Conn_Device_List[idz].status == 1`. -/
def Connections.IsConnected (w : Connections) (idz : Nat) : Prop :=
  ∃ h : idz < 6, w.connDeviceList[idz].status = 1

instance (w : Connections) (idz : Nat) : Decidable (w.IsConnected idz) :=
  inferInstanceAs (Decidable (∃ _ : idz < 6, _))

/-- The two loops over the connections: for data from the cloud and for data of a peer. -/
inductive ConnLoop where
  | cloud
  | peer
  deriving DecidableEq, Repr

/-- The three copies of the retry loop. -/
inductive Retry where
  | inLoop (l : ConnLoop)
  | ping
  deriving DecidableEq, Repr

/-- Where the thread stands. `idz` is the connection of the loop, `retryNeeded` its counter. -/
inductive ForwardPc where
  /-- Before `sys_mq_recv(Forward_Msg_Queue_Id, …)`. -/
  | recv
  /-- Before `BLE_Mode_Change.Slave_Count > 0`, in front of a loop over the connections. -/
  | slaveTest (l : ConnLoop)
  /-- Before the test `idz < MAX_NUM_PERIPHERALS` of that loop. -/
  | loop (l : ConnLoop) (idz : Nat)
  /-- Before `Notify_data(buffer, size, idz)` in a retry loop. -/
  | notify (copy : Retry) (idz : Nat) (retryNeeded : UInt8)
  /-- Before `sys_mq_recv(WRITE_RSP_ID, …)` in a retry loop. -/
  | answer (copy : Retry) (idz : Nat) (retryNeeded : UInt8)
  /-- Before `Notify_data(buffer, size, 0)` in the peer branch. -/
  | peerNotify
  /-- Before `GATT_WRITE_VALUE(buffer, size, 0)` in the peer branch. -/
  | peerWrite
  deriving DecidableEq, Repr

/-- The locals of `Forward_MSG_Queue_Thread`. -/
structure Forward where
  pc : ForwardPc
  buffer : CArray UInt8 100
  size : UInt16
  connHandleId : UInt8
  bufferRx : CArray UInt8 100
  deriving DecidableEq

/-- What the thread does next. -/
inductive ForwardNext where
  /-- A step of its own. -/
  | internal (f : Forward)
  /-- A command written to the UART. -/
  | write (pac : Fill UInt8) (f : Forward)
  /-- A receive from the message queue into `buffer`. -/
  | recvMsg
  /-- A receive from the answer queue into `buffer_Rx`. -/
  | recvRsp

/-- The counter after an answer with this status byte. The cloud copy has its `retry_needed++` for
`0x16` commented out. -/
def retryStep (copy : Retry) (retryNeeded : UInt8) (status : UInt8) : UInt8 :=
  if status = 0x00 then retryCount
  else if status = 0x16 then (if copy = .inLoop .cloud then retryNeeded else retryNeeded + 1)
  else if status = 0x14 then retryCount
  else if status = 0x04 then 0
  else retryNeeded

namespace Forward

/-- The thread before its first message. -/
def start : Forward where
  pc := .recv
  buffer := Vector.replicate 100 0
  size := 0
  connHandleId := 0
  bufferRx := Vector.replicate 100 0

/-- The connections that a loop visits: the connected ones, in the peer loop without the
sender. -/
def Visits (f : Forward) (w : Connections) (l : ConnLoop) (idz : Nat) : Prop :=
  w.IsConnected idz ∧ (l = .peer → idz ≠ f.connHandleId.toNat)

instance (f : Forward) (w : Connections) (l : ConnLoop) (idz : Nat) :
    Decidable (f.Visits w l idz) := inferInstanceAs (Decidable (_ ∧ _))

/-- Where a retry loop leads to. -/
def afterRetry (f : Forward) (copy : Retry) (idz : Nat) : Forward :=
  match copy with
  | .inLoop l => { f with pc := .loop l (idz + 1) }
  | .ping => { f with pc := .recv }

/-- One step of the thread with the table `w`. -/
def next (f : Forward) (w : Connections) : ForwardNext :=
  match f.pc with
  | .recv => .recvMsg
  | .slaveTest l =>
    if 0 < w.slaveCount then .internal { f with pc := .loop l 0 }
    else .internal { f with pc := .recv }
  | .loop l idz =>
    if idz < maxNumPeripherals then
      if f.Visits w l idz then .internal { f with pc := .notify (.inLoop l) idz 0 }
      else .internal { f with pc := .loop l (idz + 1) }
    else .internal { f with pc := .recv }
  | .notify copy idz retryNeeded =>
    .write (notifyData f.buffer f.size.toNat idz) { f with pc := .answer copy idz retryNeeded }
  | .answer .. => .recvRsp
  | .peerNotify => .write (notifyData f.buffer f.size.toNat 0) { f with pc := .peerWrite }
  | .peerWrite =>
    .write (gattWriteValue f.buffer f.size.toNat 0) { f with pc := .slaveTest .peer }

/-- Lines 375–477: the branch for the message in `buffer`. -/
def branch (f : Forward) : Forward :=
  let f := { f with connHandleId := f.buffer.byte 0 }
  let direction := f.buffer.byte 1
  if f.connHandleId = 0xFF then { f with pc := .slaveTest .cloud }
  else if f.connHandleId = 0xEE then { f with pc := .notify .ping direction.toNat 0 }
  else if direction = 0x01 then { f with pc := .peerNotify }
  else { f with pc := .recv }

/-- The message `m` received into `buffer`. -/
def receive (f : Forward) (m : Message) : Option Forward := do
  let (buffer, size) ← sysMqRecv f.buffer m
  return branch { f with buffer, size }

/-- A retry loop with the answer in `buffer_Rx`. -/
def onRsp (f : Forward) (bufferRx : CArray UInt8 100) : Forward :=
  let f := { f with bufferRx }
  match f.pc with
  | .answer copy idz retryNeeded =>
    let retryNeeded := retryStep copy retryNeeded (bufferRx.byte 5)
    if retryNeeded < retryCount then { f with pc := .notify copy idz retryNeeded }
    else f.afterRetry copy idz
  | _ => f

/-- The answer `m` received into `buffer_Rx`. -/
def receiveRsp (f : Forward) (m : Message) : Option Forward := do
  let (bufferRx, _) ← sysMqRecv f.bufferRx m
  return f.onRsp bufferRx

/-! ## Receives -/

/-- Every record fits into `buffer`. -/
theorem receive_spec (f : Forward) (m : Message) :
    ∃ buffer, CArray.Starts buffer m.bytes ∧
      f.receive m = some (branch { f with buffer, size := m.length }) := by
  obtain ⟨buffer, hr, hs⟩ := sysMqRecv_of_le f.buffer m (Nat.le_refl 100)
  exact ⟨buffer, hs, by simp [receive, hr]⟩

/-- Every record fits into `buffer_Rx`. -/
theorem receiveRsp_spec (f : Forward) (m : Message) :
    ∃ bufferRx, CArray.Starts bufferRx m.bytes ∧ f.receiveRsp m = some (f.onRsp bufferRx) := by
  obtain ⟨bufferRx, hr, hs⟩ := sysMqRecv_of_le f.bufferRx m (Nat.le_refl 100)
  exact ⟨bufferRx, hs, by simp [receiveRsp, hr]⟩

/-- A message of a peer with direction 1. -/
theorem branch_peer {f : Forward} (h0 : f.buffer.byte 0 ≠ 0xFF) (h0' : f.buffer.byte 0 ≠ 0xEE)
    (h1 : f.buffer.byte 1 = 0x01) :
    branch f = { f with connHandleId := f.buffer.byte 0, pc := .peerNotify } := by
  simp only [branch, h0, h0', h1, if_false, if_true]

theorem branch_cloud {f : Forward} (h0 : f.buffer.byte 0 = 0xFF) :
    branch f = { f with connHandleId := 0xFF, pc := .slaveTest .cloud } := by
  simp only [branch, h0, if_true]

end Forward

end Ble
