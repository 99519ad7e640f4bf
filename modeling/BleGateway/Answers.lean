import BleGateway.CentralCommands
import BleGateway.Gateway
import BleGateway.Stale

/-!
# Who gets the answers

The code that waits for the answer to a command reads one queue; the dispatcher posts the answer to
another, to the same, or to none. A queue id is what `msgget` gives for a key, and `msgget` is a
parameter.

* `Waiter`: the code that waits, with the answers that it waits for (`Awaits`) and the id of the
  queue that it reads (`queueId`).
* `Routed`: an answer, read at a packet boundary, is posted to that queue as it is.
* `Listens`: the waiters whose answers are posted to a queue that they read.
* `routed_iff`: an answer is routed exactly if its waiter listens and the answer fits into a record.
-/

namespace Ble

open Framer

/-- The code that waits for an answer. -/
inductive Waiter where
  /-- `Device_Scan_Rsp`. -/
  | deviceScanRsp
  /-- `Enable_Notification_Rsp`. -/
  | enableNotificationRsp
  /-- The retry loops of `Forward_MSG_Queue_Thread`. -/
  | forwarder
  /-- `SetParamValue(…, QueueId)`. -/
  | setParamValue (queueId : Int)
  /-- The caller of `GET_MAC`. -/
  | getMac
  deriving DecidableEq, Repr

namespace EventFrame

/-- The status event of the command `opcode`, with any status and any further bytes. -/
def IsCommandStatus (f : EventFrame) (opcode : Nat) : Prop :=
  f.code = 0xFF ∧ ∃ status rest,
    f.params = 0x7F :: 0x06 :: status :: lsbyteOf16Bit opcode :: msbyteOf16Bit opcode :: rest

/-- The Command Complete event of the command `opcode`. -/
def IsCommandComplete (f : EventFrame) (opcode : Nat) : Prop :=
  f.code = 0x0E ∧ ∃ packets rest,
    f.params = packets :: lsbyteOf16Bit opcode :: msbyteOf16Bit opcode :: rest

end EventFrame

namespace Waiter

/-- The answers that the code waits for. -/
def Awaits (w : Waiter) (f : EventFrame) : Prop :=
  match w with
  | deviceScanRsp => f.IsCommandStatus vsGapDeviceDiscoveryRequest
  | enableNotificationRsp => f.IsCommandStatus gattWritecharvalue
  | forwarder => f.IsCommandStatus gattWritecharvalue ∨ f.IsCommandStatus gattNotification
  | setParamValue _ => f.IsCommandStatus 0xFE30
  | getMac => f.IsCommandComplete btReadBdAddr

/-- The id of the queue that the code reads. `WRITE_RSP_ID` of `CentralModeThread.c` is a static
variable that nothing sets. -/
def queueId (msgget : Nat → Int) : Waiter → Int
  | deviceScanRsp => msgget commandRespThreadQueueKey
  | enableNotificationRsp => 0
  | forwarder => msgget writeRspKey
  | setParamValue queueId => queueId
  | getMac => msgget commandRespThreadQueueKey

/-- The answers are posted to the queue that the code reads. -/
def Listens (msgget : Nat → Int) : Waiter → Prop
  | deviceScanRsp | forwarder => True
  | enableNotificationRsp => msgget writeRspKey = 0
  | setParamValue _ | getMac => False

end Waiter

/-- The frame `f`, read from the packet boundary `s` on, is posted to the waiter's queue. -/
def Routed (msgget : Nat → Int) (ids : PipeIds) (s : Framer) (w : Waiter) (f : EventFrame) : Prop :=
  ∃ c, (machine.outputs s f.bytes).getLast? = some (some c) ∧
    ∃ q ∈ posted c.rxPacket, (q.key ids).map msgget = some (w.queueId msgget) ∧
      ∃ m, sysMqSend c.rxPacket c.index.toUInt16 = some m ∧ m.bytes = f.bytes

/-! ## Dispatching an answer -/

section
variable {p : CArray UInt8 2048} {f : EventFrame}

theorem dispatch_commandStatus {opcode : Nat} (hf : f.IsCommandStatus opcode)
    (hop : opcode < 65536) (hm : opcode ∉ maskedOpcodes) (hp : CArray.Starts p f.bytes) :
    dispatch p = commandStatus opcode := by
  obtain ⟨hc, status, rest, hps⟩ := hf
  have hb : f.bytes = bleEvtPkt :: 0xFF :: UInt8.ofNat f.params.length :: 0x7F :: 0x06 :: status ::
      lsbyteOf16Bit opcode :: msbyteOf16Bit opcode :: rest := by rw [EventFrame.bytes, hc, hps]
  have hcell : ∀ i, i < 8 → p.byte i = f.bytes.getD i 0 := fun i hi =>
    hp.byte_eq (by rw [hb]; simp; omega)
  rw [hb] at hcell
  have hv : VendorEvent p := ⟨hcell 0 (by omega), hcell 1 (by omega)⟩
  have h3 : p.byte 3 = 0x7F := hcell 3 (by omega)
  have h4 : p.byte 4 = 0x06 := hcell 4 (by omega)
  have he : eventCode p = vsCommandStatus := by
    rw [eventCode, h3, h4]
    rfl
  have ho : Ble.opcode p = opcode := by
    rw [Ble.opcode, hcell 6 (by omega), hcell 7 (by omega)]
    exact make16OfXY_bytes hop
  rw [dispatch_of_vendor hv (by rwa [ho]), he, byEvent_commandStatus, ho]

theorem dispatch_commandComplete {opcode : Nat} (hf : f.IsCommandComplete opcode)
    (hp : CArray.Starts p f.bytes) : dispatch p = [] := by
  obtain ⟨hc, packets, rest, hps⟩ := hf
  have hb : f.bytes = bleEvtPkt :: 0x0E :: UInt8.ofNat f.params.length :: packets ::
      lsbyteOf16Bit opcode :: msbyteOf16Bit opcode :: rest := by rw [EventFrame.bytes, hc, hps]
  have h1 : p.byte 1 = 0x0E := by
    rw [hp.byte_eq (by rw [hb]; simp), hb]
    rfl
  exact dispatch_of_not_vendor fun hv => absurd (h1.symm.trans hv.2) (by decide)

end

/-- What the chain does with an answer. -/
theorem posted_of_awaits {w : Waiter} {f : EventFrame} (h : w.Awaits f)
    {p : CArray UInt8 2048} (hp : CArray.Starts p f.bytes) :
    posted p = match w with
      | .deviceScanRsp => [.commandRespQId]
      | .enableNotificationRsp | .forwarder => [.writeRspId]
      | .setParamValue _ | .getMac => [] := by
  cases w with
  | deviceScanRsp =>
    rw [posted, dispatch_commandStatus h (by decide) (by decide) hp]
    rfl
  | enableNotificationRsp =>
    rw [posted, dispatch_commandStatus h (by decide) (by decide) hp]
    rfl
  | forwarder =>
    obtain h | h := h
    · rw [posted, dispatch_commandStatus h (by decide) (by decide) hp]
      rfl
    · rw [posted, dispatch_commandStatus h (by decide) (by decide) hp]
      rfl
  | setParamValue queueId =>
    rw [posted, dispatch_commandStatus h (by decide) (by decide) hp]
    rfl
  | getMac =>
    rw [posted, dispatch_commandComplete h hp]
    rfl

theorem one_le_of_awaits {w : Waiter} {f : EventFrame} (h : w.Awaits f) :
    1 ≤ f.params.length := by
  have hstatus : ∀ opcode, f.IsCommandStatus opcode → 1 ≤ f.params.length := by
    rintro opcode ⟨-, status, rest, hps⟩
    simp [hps]
  cases w with
  | deviceScanRsp | enableNotificationRsp | setParamValue => exact hstatus _ h
  | forwarder => exact h.elim (hstatus _) (hstatus _)
  | getMac =>
    obtain ⟨-, packets, rest, hps⟩ := h
    simp [hps]

/-! ## Routing -/

/-- The queue ids of the chain's posts and of the waiter agree exactly if the waiter listens. -/
theorem queue_agrees_iff (msgget : Nat → Int) (ids : PipeIds) {w : Waiter} {f : EventFrame}
    (h : w.Awaits f) {p : CArray UInt8 2048} (hp : CArray.Starts p f.bytes) :
    (∃ q ∈ posted p, (q.key ids).map msgget = some (w.queueId msgget)) ↔ w.Listens msgget := by
  rw [posted_of_awaits h hp]
  cases w <;> simp [Waiter.Listens, Waiter.queueId, QueueVar.key]

/-- **Answers.** An event frame that answers a command is posted, as it is, to the queue that the
code waiting for it reads, exactly if it has at most 100 bytes and the waiter is one that
listens. -/
theorem routed_iff (msgget : Nat → Int) (ids : PipeIds) {s : Framer} (hs : s.AtBoundary)
    {w : Waiter} {f : EventFrame} (h : w.Awaits f) :
    Routed msgget ids s w f ↔ f.bytes.length ≤ 100 ∧ w.Listens msgget := by
  have h1 := one_le_of_awaits h
  obtain ⟨-, ho⟩ := frame_run hs f h1
  have hlast : (machine.outputs s f.bytes).getLast? = some (some (s.completed f.bytes)) := by
    rw [ho]
    simp
  have hlen := f.length_bytes
  -- A frame of at most 100 bytes stands in `rx_packet` as it is.
  have hwhole : f.bytes.length ≤ 100 → (s.completed f.bytes).Is f.bytes := fun hle =>
    completed_is hs.2 (by omega)
  constructor
  · rintro ⟨c, hc, q, hq, hid, m, hm, hbytes⟩
    have hle : f.bytes.length ≤ 100 := hbytes ▸ m.fits
    cases Option.some.inj (Option.some.inj (hlast.symm.trans hc))
    exact ⟨hle, (queue_agrees_iff msgget ids h (hwhole hle).2).mp ⟨q, hq, hid⟩⟩
  · rintro ⟨hle, hw⟩
    obtain ⟨hindex, hstarts⟩ := hwhole hle
    obtain ⟨q, hq, hid⟩ := (queue_agrees_iff msgget ids h hstarts).mpr hw
    refine ⟨_, hlast, q, hq, hid, sysMqSend_starts hstarts ?_ hle⟩
    rw [UInt8.toNat_toUInt16, hindex]

/-- The answer to the scan request, with the status `00`. -/
def scanAnswer : EventFrame := ⟨0xFF, [0x7F, 0x06, 0x00, 0x04, 0xFE, 0x00], by decide⟩

theorem awaits_scanAnswer : Waiter.deviceScanRsp.Awaits scanAnswer :=
  ⟨rfl, 0x00, [0x00], rfl⟩

theorem routed_scanAnswer :
    Routed (fun k => k) ⟨none, none, none⟩ (start 0 (Vector.replicate 2048 0)) .deviceScanRsp
      scanAnswer :=
  (routed_iff _ _ (atBoundary_start 0 _) awaits_scanAnswer).mpr ⟨by decide, trivial⟩

/-- The answer to `GET_MAC`: the address of the device. -/
def macAnswer : EventFrame :=
  ⟨0x0E, [0x01, 0x09, 0x10, 0x00, 0xA1, 0xA2, 0xA3, 0xA4, 0xA5, 0xA6], by decide⟩

/-- It is posted nowhere. -/
theorem not_routed_macAnswer : ¬ ∀ (msgget : Nat → Int) (ids : PipeIds) (s : Framer),
    s.AtBoundary → ∀ (w : Waiter) (f : EventFrame), w.Awaits f → f.bytes.length ≤ 100 →
      Routed msgget ids s w f := by
  intro h
  obtain ⟨c, hc, q, hq, -⟩ := h (fun k => k) ⟨none, none, none⟩
    (start 0 (Vector.replicate 2048 0)) (atBoundary_start 0 _) .getMac macAnswer
    ⟨rfl, 0x01, _, rfl⟩ (by decide)
  obtain ⟨-, ho⟩ := frame_run (atBoundary_start 0 (Vector.replicate 2048 0)) macAnswer (by decide)
  rw [ho, List.getLast?_append] at hc
  cases hc
  rw [posted_of_awaits (w := .getMac) ⟨rfl, 0x01, _, rfl⟩
    (frame_is (atBoundary_start 0 (Vector.replicate 2048 0)) (by decide)).2] at hq
  cases hq

end Ble
