import BleGateway.Framer
import BleGateway.MsgDef

/-!
# The dispatch chain (`src/UartCmdRxThread.c`, lines 118–286)

A completed packet goes through one long `if … else if` chain. `dispatch` is that chain; its result
lists what it does, in order (`Action`). Branches that only print do nothing.

Every branch with an action tests `rx_packet[0] == BLE_EVT_PKT && rx_packet[1] == 0xFF` first.
`dispatch_eq` states the chain as: nothing for other packets, nothing for the opcodes `0xFC06` and
`0xFC21`, and else one action list per event code (`byEvent`). The lemmas `byEvent_*` give each.
-/

namespace Ble

/-- The queue ids among the locals of `UartCmdRxThread` that a branch posts to. -/
inductive QueueVar where
  | commandRespQId
  | writeRspId
  | pingPktRspId
  | pipe0Id
  | pipe1Id
  | pipe2Id
  | pipe3Id
  deriving DecidableEq, Repr

/-- What a branch does. -/
inductive Action where
  /-- `sys_mq_send(q, rx_packet, index)`. -/
  | sysMqSend (q : QueueVar)
  /-- `Conn_Device_List[Conn_Handle].status = 0`. -/
  | clearStatus (connHandle : Nat)
  /-- `Upadate_Disconnection(Conn_Handle)`. -/
  | upadateDisconnection
  /-- `data_ack((int) idz)`. -/
  | dataAck (idz : UInt8)
  deriving DecidableEq, Repr

/-! ## The sub-chains -/

/-- Lines 167–205: the command-status event, by the opcode it answers. -/
def commandStatus (opcode : Nat) : List Action :=
  if opcode = gattDelservice then []
  else if opcode = 0xFD9B then [.sysMqSend .writeRspId]
  else if opcode = vsAttWriteResponse then []
  else if opcode = 0xFD92 then [.sysMqSend .writeRspId]
  else if opcode = 0xFDB6 then []
  else if opcode = 0xFE30 then []
  else if opcode = 0xFDFC ∨ opcode = 0xFDFE then []
  else if opcode = 0xFE06 ∨ opcode = 0xFE07 then []
  else if opcode = 0xFE06 ∨ opcode = 0xFE08 then [.sysMqSend .commandRespQId]
  else [.sysMqSend .commandRespQId]

/-- Lines 247–254 and 271–278: the queue of the connection named by `rx_packet[6]`. -/
def toPipe (b6 : UInt8) : List Action :=
  if b6 = 0x00 then [.sysMqSend .pipe0Id]
  else if b6 = 0x01 then [.sysMqSend .pipe1Id]
  else if b6 = 0x02 then [.sysMqSend .pipe2Id]
  else if b6 = 0x03 then [.sysMqSend .pipe3Id]
  else []

/-- Lines 231–238: the link-terminated event. -/
def linkTerminated (connHandle : Nat) (b8 : UInt8) : List Action :=
  [.clearStatus connHandle] ++ (if b8 = 0x3E then [.sysMqSend .commandRespQId] else []) ++
    [.upadateDisconnection]

/-- Lines 258–279: where a write request is posted. -/
def writeRequestQueue (p : CArray UInt8 2048) : List Action :=
  if p.byte 13 = 0x30 ∧ p.byte 14 = 0x31 then [.sysMqSend .commandRespQId]
  else if p.byte 11 = 0x05 ∨ p.byte 11 = 0x09 then [.sysMqSend .commandRespQId]
  else if p.byte 13 = 0x50 ∧ p.byte 14 = 0x42 ∧ p.byte 31 = 0x50 ∧ p.byte 32 = 0x45 then
    [.sysMqSend .pingPktRspId]
  else if make16OfXY (p.byte 12) (p.byte 11) = 0x0003 then toPipe (p.byte 6)
  else []

/-- The actions are one post, or none. -/
def AtMostOnePost (as : List Action) : Prop := as = [] ∨ ∃ q, as = [.sysMqSend q]

theorem atMostOnePost_nil : AtMostOnePost [] := .inl rfl

theorem atMostOnePost_sysMqSend (q : QueueVar) : AtMostOnePost [.sysMqSend q] := .inr ⟨q, rfl⟩

/-- What a status event leads to: one post to one of two queues, or none. -/
inductive StatusPost : List Action → Prop where
  | none : StatusPost []
  | write : StatusPost [.sysMqSend .writeRspId]
  | command : StatusPost [.sysMqSend .commandRespQId]

theorem statusPost_commandStatus (opcode : Nat) : StatusPost (commandStatus opcode) := by
  unfold commandStatus
  refine iteInduction (fun _ => .none) fun _ => ?_
  refine iteInduction (fun _ => .write) fun _ => ?_
  refine iteInduction (fun _ => .none) fun _ => ?_
  refine iteInduction (fun _ => .write) fun _ => ?_
  refine iteInduction (fun _ => .none) fun _ => ?_
  refine iteInduction (fun _ => .none) fun _ => ?_
  refine iteInduction (fun _ => .none) fun _ => ?_
  refine iteInduction (fun _ => .none) fun _ => ?_
  exact iteInduction (fun _ => .command) fun _ => .command

theorem atMostOnePost_commandStatus (opcode : Nat) : AtMostOnePost (commandStatus opcode) := by
  have hpost := statusPost_commandStatus opcode
  generalize commandStatus opcode = as at hpost
  cases hpost with
  | none => exact atMostOnePost_nil
  | write => exact atMostOnePost_sysMqSend _
  | command => exact atMostOnePost_sysMqSend _

theorem atMostOnePost_toPipe (b6 : UInt8) : AtMostOnePost (toPipe b6) := by
  unfold toPipe
  repeat' split
  all_goals first | exact atMostOnePost_nil | exact atMostOnePost_sysMqSend _

theorem atMostOnePost_writeRequestQueue (p : CArray UInt8 2048) :
    AtMostOnePost (writeRequestQueue p) := by
  unfold writeRequestQueue
  repeat' split
  all_goals first
    | exact atMostOnePost_toPipe _ | exact atMostOnePost_nil | exact atMostOnePost_sysMqSend _

/-! ## The chain -/

/-- `MAKE16OFXY(rx_packet[4], rx_packet[3])`. -/
def eventCode (p : CArray UInt8 2048) : Nat := make16OfXY (p.byte 4) (p.byte 3)

/-- `MAKE16OFXY(rx_packet[7], rx_packet[6])`. -/
def opcode (p : CArray UInt8 2048) : Nat := make16OfXY (p.byte 7) (p.byte 6)

/-- `rx_packet[0] == BLE_EVT_PKT && rx_packet[1] == 0xFF`. -/
abbrev VendorEvent (p : CArray UInt8 2048) : Prop := p.byte 0 = bleEvtPkt ∧ p.byte 1 = 0xFF

/-- Lines 118–286. -/
def dispatch (p : CArray UInt8 2048) : List Action :=
  let evt := p.byte 0 = bleEvtPkt
  let vs := VendorEvent p
  let event := eventCode p
  if evt ∧ p.byte 1 = 0x10 then []
  else if vs ∧ opcode p = 0xFC06 then []
  else if vs ∧ opcode p = 0xFC21 then []
  else if vs ∧ event = 0x0604 then []
  else if evt ∧ p.byte 1 = 0x0E then []
  -- The second test for the Command Complete event is never reached.
  else if evt ∧ p.byte 1 = 0x0E then [.sysMqSend .commandRespQId]
  else if vs ∧ event = vsGapLinkParameterUpdate then []
  else if vs ∧ event = eventVsAttReadByTypeRequest then [.sysMqSend .commandRespQId]
  else if vs ∧ event = eventVsAttReadByGroupTypeRequest then [.sysMqSend .commandRespQId]
  else if vs ∧ event = eventVsAttReadRequest then [.sysMqSend .commandRespQId]
  else if vs ∧ event = eventVsAttExchangeMtuRequest then [.sysMqSend .commandRespQId]
  else if vs ∧ event = vsGapAdvertDataUpdateDone then []
  else if vs ∧ event = vsGapMakeDiscoverableDone then []
  else if vs ∧ event = vsCommandStatus then commandStatus (opcode p)
  else if vs ∧ event = vsGapDeviceInformation then [.sysMqSend .commandRespQId]
  else if vs ∧ event = vsGapLinkEstablished then [.sysMqSend .commandRespQId]
  else if vs ∧ event = vsGapDeviceDiscovery then [.sysMqSend .commandRespQId]
  else if vs ∧ event = vsTiAttReadByTypeResponse then [.sysMqSend .commandRespQId]
  else if vs ∧ event = vsAttWriteResponseEvent then []
  else if vs ∧ event = vsGapLinkTerminated then linkTerminated (opcode p) (p.byte 8)
  else if vs ∧ event = eventVsAttHandleValueNotification then toPipe (p.byte 6)
  else if vs ∧ (event = eventVsAttWriteRequest ∨ event = eventVsAttPrepareWriteRequest) then
    writeRequestQueue p ++ [.dataAck (p.byte 6)]
  else []

/-! ## By event code -/

/-- The events that go to the command-response queue whatever they hold. -/
def commandRespEvents : List Nat :=
  [eventVsAttReadByTypeRequest, eventVsAttReadByGroupTypeRequest, eventVsAttReadRequest,
    eventVsAttExchangeMtuRequest, vsGapDeviceInformation, vsGapLinkEstablished,
    vsGapDeviceDiscovery, vsTiAttReadByTypeResponse]

/-- The two write-request events. -/
def writeRequestEvents : List Nat := [eventVsAttWriteRequest, eventVsAttPrepareWriteRequest]

/-- The opcodes that end the chain before the event code is looked at. -/
def maskedOpcodes : List Nat := [0xFC06, 0xFC21]

/-- What the chain does for a vendor-specific event. -/
def byEvent (event : Nat) (p : CArray UInt8 2048) : List Action :=
  if event ∈ commandRespEvents then [.sysMqSend .commandRespQId]
  else if event = vsCommandStatus then commandStatus (opcode p)
  else if event = vsGapLinkTerminated then linkTerminated (opcode p) (p.byte 8)
  else if event = eventVsAttHandleValueNotification then toPipe (p.byte 6)
  else if event ∈ writeRequestEvents then writeRequestQueue p ++ [.dataAck (p.byte 6)]
  else []

private theorem ite_eq_of {α : Type} {c : Prop} [Decidable c] {a b r : α} (hp : c → a = r)
    (hn : ¬ c → b = r) : (if c then a else b) = r := by
  by_cases h : c
  · rw [if_pos h, hp h]
  · rw [if_neg h, hn h]

/-- The chain in four steps. -/
theorem dispatch_eq (p : CArray UInt8 2048) :
    dispatch p =
      if VendorEvent p then
        if opcode p ∈ maskedOpcodes then [] else byEvent (eventCode p) p
      else [] := by
  unfold dispatch
  by_cases h : VendorEvent p
  · simp only [VendorEvent, h.1, h.2, maskedOpcodes, List.mem_cons, List.not_mem_nil, or_false,
      true_and]
    by_cases hm : opcode p = 0xFC06 ∨ opcode p = 0xFC21
    · rcases hm with hm | hm <;> simp [hm]
    · rw [not_or] at hm
      simp only [hm.1, hm.2, or_self, ↓reduceIte, show ¬ (0xFF : UInt8) = 0x10 by decide,
        show ¬ (0xFF : UInt8) = 0x0E by decide]
      generalize eventCode p = e
      -- One case for each test of the chain, in its order.
      iterate 16 refine ite_eq_of (fun he => by rw [he]; rfl) fun _ => ?_
      refine ite_eq_of (fun he => by rcases he with he | he <;> rw [he] <;> rfl) fun _ => ?_
      simp only [byEvent, commandRespEvents, writeRequestEvents, List.mem_cons, List.not_mem_nil,
        or_false, *, or_self, ↓reduceIte]
  · simp [h]

theorem dispatch_of_not_vendor {p : CArray UInt8 2048} (h : ¬ VendorEvent p) :
    dispatch p = [] := by
  rw [dispatch_eq, if_neg h]

theorem dispatch_of_masked {p : CArray UInt8 2048} (h : opcode p ∈ maskedOpcodes) :
    dispatch p = [] := by
  rw [dispatch_eq, if_pos h]
  exact ite_self _

theorem dispatch_of_vendor {p : CArray UInt8 2048} (h : VendorEvent p)
    (hm : opcode p ∉ maskedOpcodes) : dispatch p = byEvent (eventCode p) p := by
  rw [dispatch_eq, if_pos h, if_neg hm]

/-- The events with an action. -/
def actingEvents : List Nat :=
  commandRespEvents ++ [vsCommandStatus, vsGapLinkTerminated, eventVsAttHandleValueNotification] ++
    writeRequestEvents

theorem byEvent_commandResp {e : Nat} (h : e ∈ commandRespEvents) (p : CArray UInt8 2048) :
    byEvent e p = [.sysMqSend .commandRespQId] := if_pos h

theorem byEvent_commandStatus (p : CArray UInt8 2048) :
    byEvent vsCommandStatus p = commandStatus (opcode p) := rfl

theorem byEvent_linkTerminated (p : CArray UInt8 2048) :
    byEvent vsGapLinkTerminated p = linkTerminated (opcode p) (p.byte 8) := rfl

theorem byEvent_notification (p : CArray UInt8 2048) :
    byEvent eventVsAttHandleValueNotification p = toPipe (p.byte 6) := rfl

theorem byEvent_writeRequest {e : Nat} (h : e ∈ writeRequestEvents) (p : CArray UInt8 2048) :
    byEvent e p = writeRequestQueue p ++ [.dataAck (p.byte 6)] := by
  simp only [writeRequestEvents, List.mem_cons, List.not_mem_nil, or_false] at h
  rcases h with rfl | rfl <;> rfl

theorem byEvent_quiet {e : Nat} (h : e ∉ actingEvents) (p : CArray UInt8 2048) :
    byEvent e p = [] := by
  simp only [actingEvents, List.mem_append, List.mem_cons, List.not_mem_nil, or_false, not_or] at h
  obtain ⟨⟨h1, h2, h3, h4⟩, h5⟩ := h
  rw [byEvent, if_neg h1, if_neg h2, if_neg h3, if_neg h4, if_neg h5]

/-- The five kinds of acting events. -/
theorem actingEvents_cases {e : Nat} (h : e ∈ actingEvents) :
    e ∈ commandRespEvents ∨ e = vsCommandStatus ∨ e = vsGapLinkTerminated ∨
      e = eventVsAttHandleValueNotification ∨ e ∈ writeRequestEvents := by
  simp only [actingEvents, List.mem_append, List.mem_cons, List.not_mem_nil, or_false] at h
  grind

/-! ## The connection table -/

/-- `Conn_Device_List[connHandle].status = 0`; `none` outside the table. -/
def Connections.clearStatus (w : Connections) (connHandle : Nat) : Option Connections :=
  if h : connHandle < 6 then
    some { w with connDeviceList :=
      w.connDeviceList.set connHandle { w.connDeviceList[connHandle] with status := 0 } }
  else none

/-- `Upadate_Disconnection`: `Slave_Count` becomes the number of connected entries among the first
`MAX_NUM_PERIPHERALS`. Its argument is not used. -/
def Connections.upadateDisconnection (w : Connections) : Connections :=
  let deviceConnCount := (w.connDeviceList.toList.take maxNumPeripherals).countP (·.status = 1)
  { w with slaveCount := UInt8.ofNat deviceConnCount }

/-- What an action does to the table. -/
def Action.onTable (w : Connections) : Action → Option Connections
  | .clearStatus connHandle => w.clearStatus connHandle
  | .upadateDisconnection => some w.upadateDisconnection
  | .sysMqSend _ | .dataAck _ => some w

end Ble
