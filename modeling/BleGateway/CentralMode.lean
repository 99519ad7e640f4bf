import BleGateway.Lib.Mealy
import BleGateway.MsgDef

/-!
# The central-mode thread (`src/CentralModeThread.c`)

`CentralModeThread` scans for a device, cancels the scan, requests a link and bonds. One iteration
of its loop is a `step`: the switch on `CentralState` calls one handler, and a handler writes a
command or receives a message into the global `buffer`, or both.

* `CentralInput`: what the environment decides in an iteration: the message that a receive finds,
  the result of `BLECOMWrite`, the connection table.
* `CentralEvent`: what an iteration does, in order.
* `Exit`: how a handler ends. Several fall off their end without a `return`; what the caller then
  reads for a result is an input too (`noReturn`).
* `ble_status` is a handler's result cut to a `uint8_t`, so its comparison with -1 in
  `STATE_CENTRAL_DEVICE_SCAN_DATA` never holds.
-/

namespace Ble

/-- The states with a case in the switch. -/
inductive CentralState where
  | init
  | deviceScanReq
  | deviceScanData
  | deviceScanCancel
  | deviceScanCancelRsp
  | deviceEstablishLinkReq
  | deviceEstablishLinkRsp
  | enableNotification
  deriving DecidableEq, Repr

/-- The globals of the thread. `bonding` is set when `bond()` is entered, which never returns. -/
structure CentralMode where
  centralState : CentralState
  buffer : CArray UInt8 256
  scannedMacBuff : CArray UInt8 7
  connHandle : UInt16
  bonding : Bool
  deriving DecidableEq

/-- A message that fits into `buffer`. -/
structure Received where
  bytes : List UInt8
  fits : bytes.length ≤ 256

/-- What the environment decides in an iteration. `received` is `none` if `msgrcv` fails, `written`
the result of `BLECOMWrite`. `noReturn` is what the caller reads for the result of a handler that
ends without a `return`; `none` stands for the handler's local `status`. -/
structure CentralInput where
  received : Option Received
  written : Int
  connDeviceList : ConnDeviceList
  noReturn : Option Int

/-- How a handler ends. -/
inductive Exit where
  /-- `return` with a definite value. -/
  | returned (v : Int)
  /-- The end of the function, with this value in `status`, or `return` of what such a call gave. -/
  | noValue (status : Int)
  deriving DecidableEq, Repr

/-- What the caller reads for its result. -/
def Exit.read (noReturn : Option Int) : Exit → Int
  | .returned v => v
  | .noValue status => noReturn.getD status

def Exit.Definite (e : Exit) : Prop := ∃ v, e = .returned v

@[simp] theorem Exit.read_returned (noReturn : Option Int) (v : Int) :
    (Exit.returned v).read noReturn = v := rfl

@[simp] theorem Exit.definite_returned (v : Int) : (Exit.returned v).Definite := ⟨v, rfl⟩

@[simp] theorem Exit.not_definite_noValue (status : Int) : ¬ (Exit.noValue status).Definite := by
  rintro ⟨v, hv⟩
  cases hv

/-- A definite verdict does not depend on what stands where there is none. -/
theorem Exit.definite_iff (e : Exit) : e.Definite ↔ ∀ v₁ v₂, e.read v₁ = e.read v₂ := by
  cases e with
  | returned v => exact iff_of_true (Exit.definite_returned v) fun _ _ => rfl
  | noValue status =>
    refine iff_of_false (Exit.not_definite_noValue status) fun h => ?_
    have : (0 : Int) = 1 := h (some 0) (some 1)
    omega

/-- The handlers that receive. -/
inductive Handler where
  | deviceScanRsp
  | deviceScanData
  | deviceScanCancelRsp
  | deviceEstablishLinkRsp
  deriving DecidableEq, Repr

/-- What an iteration does. -/
inductive CentralEvent where
  /-- `BLECOMWrite(pac, idx)`; `complete` if it returned `idx`. -/
  | write (pac : Fill UInt8) (complete : Bool)
  /-- `sys_mq_recv(tCommandRespQId, buffer, &size)` in `handler`, and what it left in `buffer`. -/
  | receive (handler : Handler) (buffer : CArray UInt8 256)
  /-- `bond()` is entered. -/
  | bond
  deriving DecidableEq

/-! ## Receiving -/

/-- `sys_mq_recv(tCommandRespQId, buffer, &size)`. -/
def sysMqRecvBuffer (buffer : CArray UInt8 256) : Option Received → CArray UInt8 256
  | none => buffer
  | some r => CArray.memcpy buffer r.bytes r.fits

/-- A record of a queue is such a message. -/
def Message.received (m : Message) : Received := ⟨m.bytes, Nat.le_trans m.fits (by decide)⟩

theorem sysMqRecv_received (buffer : CArray UInt8 256) (m : Message) :
    sysMqRecv buffer m = some (sysMqRecvBuffer buffer (some m.received), m.length) :=
  dif_pos (Nat.le_trans m.fits (by decide))

/-- `buffer[0] == 0x04 && buffer[1] == 0xFF && MAKE16OFXY(buffer[4], buffer[3]) == event`. -/
def IsEvent (buffer : CArray UInt8 256) (event : Nat) : Prop :=
  (buffer.byte 0 = 0x04 ∧ buffer.byte 1 = 0xFF) ∧
    make16OfXY (buffer.byte 4) (buffer.byte 3) = event

instance (buffer : CArray UInt8 256) (event : Nat) : Decidable (IsEvent buffer event) :=
  inferInstanceAs (Decidable (_ ∧ _))

/-- `for(i=0;i<6;i++,j--) Scanned_MAC_Buff[i]=buffer[j];`. -/
def copyMac (buffer : CArray UInt8 256) (j : Nat) (mac : CArray UInt8 7) : CArray UInt8 7 :=
  CArray.memcpy mac ((List.range 6).map fun i => buffer.byte (j - i)) (by simp)

/-! ## The handlers -/

/-- `Device_Scan_Rsp`, behind its receive. It has no `return` at all. -/
def deviceScanRsp (buffer : CArray UInt8 256) : Exit :=
  if IsEvent buffer vsCommandStatus then
    if make16OfXY (buffer.byte 7) (buffer.byte 6) = vsGapDeviceDiscoveryRequest then
      if buffer.byte 5 = 0x00 then .noValue 0 else .noValue (-1)
    else .noValue (-1)
  else .noValue (-1)

/-- The command of `Device_Scan_Req`. -/
def deviceScanReqPac : Fill UInt8 where
  cap := 10
  stored := [pktCommand, lsbyteOf16Bit vsGapDeviceDiscoveryRequest,
    msbyteOf16Bit vsGapDeviceDiscoveryRequest, 0x03, 0x03, 0x01, 0x00]

/-- The command of `Device_Scan_Cancel_Req`. -/
def deviceScanCancelReqPac : Fill UInt8 where
  cap := 10
  stored := [pktCommand, lsbyteOf16Bit vsGapDeviceDiscoveryCancel,
    msbyteOf16Bit vsGapDeviceDiscoveryCancel, 0x00]

/-- The command of `Device_Establish_Link_Req`. It has 13 bytes, three more than `pac`. -/
def deviceEstablishLinkReqPac (mac : CArray UInt8 7) : Fill UInt8 where
  cap := 10
  stored := [pktCommand, lsbyteOf16Bit vsGapEstablishLinkRequest,
    msbyteOf16Bit vsGapEstablishLinkRequest, 0x09, 0x00, 0x00, 0x01,
    mac.byte 5, mac.byte 4, mac.byte 3, mac.byte 2, mac.byte 1, mac.byte 0]

/-- The command of `Enable_Notification`. -/
def enableNotificationPac (connHandle : UInt16) : Fill UInt8 where
  cap := 10
  stored := [pktCommand, lsbyteOf16Bit gattWritecharvalue, msbyteOf16Bit gattWritecharvalue, 0x06,
    lsbyteOf16Bit connHandle.toNat, msbyteOf16Bit connHandle.toNat, 0x00, 0x01, 0x01, 0x00]

theorem deviceEstablishLinkReqPac_not_inBounds (mac : CArray UInt8 7) :
    ¬ (deviceEstablishLinkReqPac mac).InBounds := by
  simp [Fill.InBounds, deviceEstablishLinkReqPac]

/-- The advertisement of the device that is looked for: flags `02 01`, and `9E CA DC 24` from byte
21 on. -/
def Matches (buffer : CArray UInt8 256) : Prop :=
  make16OfXY (buffer.byte 16) (buffer.byte 17) = 0x0201 ∧
    make16OfXY (buffer.byte 21) (buffer.byte 22) = 0x9ECA ∧
    make16OfXY (buffer.byte 23) (buffer.byte 24) = 0xDC24

instance (buffer : CArray UInt8 256) : Decidable (Matches buffer) :=
  inferInstanceAs (Decidable (_ ∧ _))

/-- `Device_Scan_Data`: its end and `Scanned_MAC_Buff`. -/
def deviceScanData (buffer : CArray UInt8 256) (mac : CArray UInt8 7) : Exit × CArray UInt8 7 :=
  if IsEvent buffer vsGapDeviceInformation then
    if Matches buffer then (.returned 2, copyMac buffer 13 mac) else (.noValue (-1), mac)
  else if IsEvent buffer vsGapDeviceDiscovery then (.noValue 1, mac)
  else (.noValue (-1), mac)

/-- `Device_Scan_Cancel_Rsp`. It returns its `status`. -/
def deviceScanCancelRsp (buffer : CArray UInt8 256) : Int :=
  if IsEvent buffer vsGapDeviceDiscovery then if buffer.byte 5 = 0x30 then 0 else -1
  else -1

/-- `Device_Establish_Link_Rsp`: its end, `Scanned_MAC_Buff` and `Conn_Handle`. -/
def deviceEstablishLinkRsp (buffer : CArray UInt8 256) (mac : CArray UInt8 7)
    (connHandle : UInt16) : Exit × CArray UInt8 7 × UInt16 :=
  if buffer.byte 0 = 0x04 ∧ buffer.byte 1 = 0xFF then
    if make16OfXY (buffer.byte 4) (buffer.byte 3) = vsGapLinkEstablished then
      (.returned 0, copyMac buffer 12 mac,
        UInt16.ofNat (make16OfXY (buffer.byte 14) (buffer.byte 13)))
    else if make16OfXY (buffer.byte 4) (buffer.byte 3) = 0x0606 then
      if buffer.byte 8 = 0x3E then (.returned 2, mac, connHandle)
      else (.noValue (-1), mac, connHandle)
    else if make16OfXY (buffer.byte 7) (buffer.byte 6) = 0xFE08 then (.returned 3, mac, connHandle)
    else (.noValue (-1), mac, connHandle)
  else (.returned 5, mac, connHandle)

/-! ## The loop -/

namespace CentralMode

/-- The thread before its loop. -/
def start (buffer : CArray UInt8 256) (mac : CArray UInt8 7) (connHandle : UInt16) :
    CentralMode where
  centralState := .init
  buffer
  scannedMacBuff := mac
  connHandle
  bonding := false

/-- `BLECOMWrite(pac, idx) == idx`. -/
def complete (pac : Fill UInt8) (i : CentralInput) : Bool := i.written = pac.stored.length

/-- A handler that only writes: `status` is 0 if the write was complete, else -1. -/
def writeStatus (pac : Fill UInt8) (i : CentralInput) : Int := if complete pac i then 0 else -1

/-- `Device_conn_count`. -/
def deviceConnCount (list : ConnDeviceList) : Nat := (list.toList.take 4).countP (·.status = 1)

/-- `Device_Scan_Req`: its end, the state after it, and what it did. What it returns after a full
write is what it reads for the result of `Device_Scan_Rsp`. -/
def deviceScanReq (s : CentralMode) (i : CentralInput) : Exit × CentralMode × List CentralEvent :=
  if deviceConnCount i.connDeviceList < 4 then
    if complete deviceScanReqPac i then
      let buffer := sysMqRecvBuffer s.buffer i.received
      (deviceScanRsp buffer, { s with buffer },
        [.write deviceScanReqPac true, .receive .deviceScanRsp buffer])
    else (.returned (-1), s, [.write deviceScanReqPac false])
  else (.noValue (-1), s, [])

/-- The next state after `Device_Scan_Data`. -/
def afterScanData (bleStatus : UInt8) : CentralState :=
  if bleStatus = 0 then .deviceScanData
  else if bleStatus = 1 then .deviceScanReq
  else if bleStatus = 2 then .deviceScanCancel
  else if (bleStatus.toNat : Int) = -1 then .deviceScanReq
  else .deviceScanData

/-- One iteration of the loop. -/
def step (s : CentralMode) (i : CentralInput) : CentralMode × List CentralEvent :=
  if s.bonding then (s, [])
  else
    match s.centralState with
    | .init => ({ s with centralState := .deviceScanReq }, [])
    | .deviceScanReq =>
      let (exit, s, events) := deviceScanReq s i
      let bleStatus := UInt8.ofInt (exit.read i.noReturn)
      ({ s with centralState := if bleStatus = 0 then .deviceScanData else .init }, events)
    | .deviceScanData =>
      let buffer := sysMqRecvBuffer s.buffer i.received
      let (exit, scannedMacBuff) := deviceScanData buffer s.scannedMacBuff
      let bleStatus := UInt8.ofInt (exit.read i.noReturn)
      ({ s with buffer, scannedMacBuff, centralState := afterScanData bleStatus },
        [.receive .deviceScanData buffer])
    | .deviceScanCancel =>
      let bleStatus := UInt8.ofInt (writeStatus deviceScanCancelReqPac i)
      ({ s with centralState := if bleStatus = 0 then .deviceScanCancelRsp else .deviceScanCancel },
        [.write deviceScanCancelReqPac (complete deviceScanCancelReqPac i)])
    | .deviceScanCancelRsp =>
      let buffer := sysMqRecvBuffer s.buffer i.received
      let bleStatus := UInt8.ofInt (deviceScanCancelRsp buffer)
      ({ s with
          buffer
          centralState := if bleStatus = 0 then .deviceEstablishLinkReq else .deviceScanCancelRsp },
        [.receive .deviceScanCancelRsp buffer])
    | .deviceEstablishLinkReq =>
      let pac := deviceEstablishLinkReqPac s.scannedMacBuff
      let bleStatus := UInt8.ofInt (writeStatus pac i)
      ({ s with
          centralState := if bleStatus = 0 then .deviceEstablishLinkRsp
            else .deviceEstablishLinkReq },
        [.write pac (complete pac i)])
    | .deviceEstablishLinkRsp =>
      let buffer := sysMqRecvBuffer s.buffer i.received
      let (exit, scannedMacBuff, connHandle) :=
        deviceEstablishLinkRsp buffer s.scannedMacBuff s.connHandle
      let bleStatus := UInt8.ofInt (exit.read i.noReturn)
      let s := { s with buffer, scannedMacBuff, connHandle }
      if bleStatus = 0 then
        ({ s with bonding := true }, [.receive .deviceEstablishLinkRsp buffer, .bond])
      else (s, [.receive .deviceEstablishLinkRsp buffer])
    | .enableNotification =>
      let pac := enableNotificationPac s.connHandle
      (s, [.write pac (complete pac i)])

/-- The thread as a machine. -/
def machine : Mealy CentralMode CentralInput (List CentralEvent) := ⟨step⟩

@[simp] theorem machine_step (s : CentralMode) (i : CentralInput) :
    machine.step s i = step s i := rfl

/-- Everything a run did, in order. -/
def trace (s : CentralMode) (is : List CentralInput) : List CentralEvent :=
  (machine.outputs s is).flatten

end CentralMode

end Ble
