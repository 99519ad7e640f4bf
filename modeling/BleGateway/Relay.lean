import Mathlib.Data.List.Forall2
import BleGateway.Gateway
import BleGateway.Wire

/-!
# The relay of written values

Write requests on the wire go through the framer, the dispatch chain, the pipe thread and the
forwarder, and come out as a notification and a write command with the same value.

* `WriteRequest`: a write request of connection 0 that the chain gives to its pipe.
* `dispatch_writeRequest`, `decode_writeRequest`, `stored_commands`: what each layer makes of it.
* `Flow`: at any time every request is in one place: written, in a thread's hands, in a queue or on
  the wire, in the order of the wire. Every step of a thread moves one request one place on.
* `relays_values`: so once nothing moves any more every value has been written twice.
-/

namespace Ble

open Framer

/-! ## Write requests -/

/-- A write request to handle 3 on connection 0 that is neither `01…` nor a ping. -/
structure WriteRequest where
  status : UInt8
  sig : UInt8
  cmd : UInt8
  value : List UInt8
  two_le : 2 ≤ value.length
  le : value.length ≤ 87
  not_01 : ¬ [0x30, 0x31] <+: value
  not_ping : ¬ [0x50, 0x42] <+: value

namespace WriteRequest

/-- The request on the wire. -/
def bytes (w : WriteRequest) : List UInt8 :=
  Pipe.writeRequestHeader (UInt8.ofNat (w.value.length + 10)) w.status
    (UInt8.ofNat (w.value.length + 4)) w.sig w.cmd ++ w.value

/-- The request as an event packet. -/
def frame (w : WriteRequest) : EventFrame where
  code := 0xFF
  params := [0x12, 0x05, w.status, 0x00, 0x00, UInt8.ofNat (w.value.length + 4), w.sig, w.cmd,
    0x03, 0x00] ++ w.value
  le := by have := w.le; simp; omega

/-- What the pipe thread makes of it. -/
def forwarded (w : WriteRequest) : List UInt8 :=
  [0x00, 0x01, UInt8.ofNat w.value.length] ++ w.value

/-- The notification with its value. -/
def notification (w : WriteRequest) : List UInt8 :=
  [0x01, 0x9B, 0xFD, UInt8.ofNat (w.value.length + 5), 0x00, 0x00, 0x00, 0x07, 0x00] ++ w.value

/-- The write command with its value. -/
def writeCommand (w : WriteRequest) : List UInt8 :=
  [0x01, 0x92, 0xFD, UInt8.ofNat (w.value.length + 4), 0x00, 0x00, 0x03, 0x00] ++ w.value

theorem length_params (w : WriteRequest) : w.frame.params.length = w.value.length + 10 := rfl

theorem frame_bytes (w : WriteRequest) : w.frame.bytes = w.bytes := by
  rw [EventFrame.bytes, length_params]
  rfl

theorem fits_frame (w : WriteRequest) : w.frame.Fits := by
  have := w.le
  rw [EventFrame.Fits, length_params]
  omega

theorem length_bytes (w : WriteRequest) : w.bytes.length = w.value.length + 13 := by
  rw [← frame_bytes, EventFrame.length_bytes, length_params]
  omega

theorem length_forwarded (w : WriteRequest) : w.forwarded.length = w.value.length + 3 := rfl

/-! ## Layer by layer -/

/-- The chain posts the request to pipe 0 and acknowledges it. -/
theorem dispatch_writeRequest {w : WriteRequest} {p : CArray UInt8 2048}
    (h : CArray.Starts p w.bytes) : dispatch p = [.sysMqSend .pipe0Id, .dataAck 0x00] := by
  obtain ⟨status, sig, cmd, value, h2, h87, h01, hping⟩ := w
  obtain ⟨a, b, t, rfl⟩ : ∃ a b t, value = a :: b :: t := by
    match value, h2 with
    | a :: b :: t, _ => exact ⟨a, b, t, rfl⟩
  have hcell : ∀ i, i < 15 → p.byte i = _ := fun i hi =>
    h.byte_eq (by rw [length_bytes]; simp only [List.length_cons]; omega)
  have h0 : p.byte 0 = bleEvtPkt := hcell 0 (by omega)
  have h1 : p.byte 1 = 0xFF := hcell 1 (by omega)
  have h3 : p.byte 3 = 0x12 := hcell 3 (by omega)
  have h4 : p.byte 4 = 0x05 := hcell 4 (by omega)
  have h6 : p.byte 6 = 0x00 := hcell 6 (by omega)
  have h7 : p.byte 7 = 0x00 := hcell 7 (by omega)
  have h11 : p.byte 11 = 0x03 := hcell 11 (by omega)
  have h12 : p.byte 12 = 0x00 := hcell 12 (by omega)
  have h13 : p.byte 13 = a := hcell 13 (by omega)
  have h14 : p.byte 14 = b := hcell 14 (by omega)
  have hopcode : opcode p ∉ maskedOpcodes := by
    rw [opcode, h6, h7]
    decide
  have hevent : eventCode p = eventVsAttWriteRequest := by
    rw [eventCode, h3, h4]
    rfl
  have hqueue : writeRequestQueue p = [.sysMqSend .pipe0Id] := by
    simp only [List.cons_prefix_cons, List.nil_prefix, and_true] at h01 hping
    simp only [writeRequestQueue, h11, h12, h13, h14, h6]
    rw [if_neg fun ⟨ha, hb⟩ => h01 ⟨ha.symm, hb.symm⟩, if_neg (by decide),
      if_neg fun ⟨ha, hb, _⟩ => hping ⟨ha.symm, hb.symm⟩]
    rfl
  rw [dispatch_of_vendor ⟨h0, h1⟩ hopcode, hevent, byEvent_writeRequest (by decide), hqueue, h6]
  rfl

/-- The pipe thread decodes the request and reads nothing behind `buff`. -/
theorem decode_writeRequest {w : WriteRequest} {buff : CArray UInt8 100}
    (h : CArray.Starts buff w.bytes) (p : Pipe) (beyond : Nat → UInt8) :
    ¬ Pipe.Strays buff ∧ ∃ p', p.decode buff beyond = some p' ∧
      p'.dataLength = some (w.value.length : Int) ∧
      CArray.Starts p'.forwardDataBuff w.forwarded := by
  obtain ⟨hl, hstray, hdata⟩ := Pipe.forwardData_writeRequest w.le h
  have hsome : (p.decode buff beyond).isSome := by
    rw [Pipe.decode_isSome_iff, hl]
    have := w.le
    omega
  obtain ⟨p', hp'⟩ := Option.isSome_iff_exists.mp hsome
  obtain ⟨hd, -, hs⟩ := Pipe.decode_eq hp'
  exact ⟨hstray, p', hp', by rw [hd, hl], by rwa [hdata] at hs⟩

theorem toNat_postSize (w : WriteRequest) :
    (Pipe.postSize w.value.length).toNat = w.forwarded.length := by
  have := w.le
  have hp : ((Pipe.postSize w.value.length).toNat : Int) = w.value.length + 3 :=
    Pipe.toNat_postSize (by omega) (by omega)
  rw [length_forwarded]
  omega

/-- The forwarder's two commands. -/
theorem stored_commands {w : WriteRequest} {buffer : CArray UInt8 100}
    (h : CArray.Starts buffer w.forwarded) :
    (notifyData buffer w.forwarded.length 0).stored = w.notification ∧
      (gattWriteValue buffer w.forwarded.length 0).stored = w.writeCommand := by
  have hslice : buffer.slice 3 w.value.length = w.value := by
    rw [h.slice_eq (by rw [length_forwarded]; omega)]
    simp [forwarded]
  have h5 : ((w.value.length + 3 : Nat) : Int) - 3 + 5 = (w.value.length + 5 : Nat) := by omega
  have h4 : ((w.value.length + 3 : Nat) : Int) - 3 + 4 = (w.value.length + 4 : Nat) := by omega
  constructor
  · rw [notifyData, length_forwarded, Nat.add_sub_cancel, hslice, h5, uint8_ofInt_natCast]
    rfl
  · rw [gattWriteValue, length_forwarded, Nat.add_sub_cancel, hslice, h4, uint8_ofInt_natCast]
    rfl

/-- Both fit into `pac[100]`. -/
theorem commands_inBounds (w : WriteRequest) (buffer : CArray UInt8 100) :
    (notifyData buffer w.forwarded.length 0).InBounds ∧
      (gattWriteValue buffer w.forwarded.length 0).InBounds := by
  have := w.le
  have hl := w.length_forwarded
  rw [notifyData_inBounds_iff _ _ (by omega) (by omega),
    gattWriteValue_inBounds_iff _ _ (by omega) (by omega)]
  omega

end WriteRequest

namespace Gateway

/-! ## Where the requests are -/

/-- The requests in the forwarder's hands: those to be notified and those to be written. -/
inductive Holds (f : Forward) : List WriteRequest → List WriteRequest → Prop
  | idle (hpc : f.pc = .recv ∨ f.pc = .slaveTest .peer) : Holds f [] []
  | note (w : WriteRequest) (hpc : f.pc = .peerNotify) (hb : CArray.Starts f.buffer w.forwarded)
      (hs : f.size.toNat = w.forwarded.length) : Holds f [w] [w]
  | write (w : WriteRequest) (hpc : f.pc = .peerWrite) (hb : CArray.Starts f.buffer w.forwarded)
      (hs : f.size.toNat = w.forwarded.length) : Holds f [] [w]

/-- The request in the pipe thread's hands. -/
inductive Decoded (p : Pipe) : List WriteRequest → Prop
  | idle (h : p.dataLength = none) : Decoded p []
  | decoded (w : WriteRequest) (h : p.dataLength = some (w.value.length : Int))
      (hs : CArray.Starts p.forwardDataBuff w.forwarded) : Decoded p [w]

/-- The request in the hands of `UartCmdRxThread`: by the actions that are pending for
`packet`. -/
inductive Dispatched (packet : Completed) : List Action → List WriteRequest → Prop
  | idle : Dispatched packet [] []
  | ack : Dispatched packet [.dataAck 0x00] []
  | post (w : WriteRequest) (hp : packet.Is w.bytes) :
      Dispatched packet [.sysMqSend .pipe0Id, .dataAck 0x00] [w]

/-- The requests, by the place where each is. -/
structure Places where
  noted : List WriteRequest
  toNote : List WriteRequest
  written : List WriteRequest
  toWrite : List WriteRequest
  forwarded : List WriteRequest
  decoded : List WriteRequest
  queued : List WriteRequest
  dispatched : List WriteRequest
  ahead : List WriteRequest

/-- The requests that the forwarder has not received. -/
def Places.behind (p : Places) : List WriteRequest :=
  p.forwarded ++ (p.decoded ++ (p.queued ++ (p.dispatched ++ p.ahead)))

/-- Every one of the requests `ws` is in its place, in the order of the wire. -/
structure Flow (ws : List WriteRequest) (g : Gateway) (p : Places) : Prop where
  all_noted : p.noted ++ (p.toNote ++ p.behind) = ws
  all_written : p.written ++ (p.toWrite ++ p.behind) = ws
  noted : commandsOf gattNotification g.output = p.noted.map (·.notification)
  written : commandsOf gattWritecharvalue g.output = p.written.map (·.writeCommand)
  holds : Holds g.fwd p.toNote p.toWrite
  forwarded : (g.queues.queue messageSendToPeerDeviceKey).map (·.bytes) =
    p.forwarded.map (·.forwarded)
  decoded : Decoded g.pipe p.decoded
  queued : (g.queues.queue connPipe0Key).map (·.bytes) = p.queued.map (·.bytes)
  dispatched : Dispatched g.packet g.pending p.dispatched
  ahead : List.Forall₂ (fun c w => c.Is w.bytes) (arriving g.framer g.input) p.ahead
  slaveCount : g.connections.slaveCount = 0
  fault : g.fault = false
  strays : g.strays = false

/-- A bound on the steps still to come. -/
def stepsLeft (g : Gateway) : Nat :=
  40 * g.input.length + 12 * g.pending.length + 10 * (g.queues.queue connPipe0Key).length +
    (if g.pipe.dataLength.isSome then 8 else 0) +
    6 * (g.queues.queue messageSendToPeerDeviceKey).length +
    match g.fwd.pc with
    | .peerNotify => 3
    | .peerWrite => 2
    | .slaveTest _ => 1
    | _ => 0

/-- A step that keeps the flow and comes nearer to its end. -/
def Flows (ws : List WriteRequest) (g : Gateway) (o : Outcome Gateway) : Prop :=
  ∃ g' p', o = .next g' ∧ Flow ws g' p' ∧ g'.stepsLeft < g.stepsLeft

/-! ## The forwarder -/

/-- The head of a queue that holds requests. -/
theorem queue_head {α : Type} {view : α → List UInt8} {q : List Message} {l : List α} {m : Message}
    {ms : List Message} (hq : q = m :: ms) (h : q.map (·.bytes) = l.map view) :
    ∃ w l', l = w :: l' ∧ m.bytes = view w ∧ ms.map (·.bytes) = l'.map view := by
  subst hq
  obtain ⟨w, l', rfl, hw, hl⟩ := List.map_eq_cons_iff.mp h.symm
  exact ⟨w, l', rfl, hw.symm, hl.symm⟩

/-- The forwarder with a request in `buffer`. -/
theorem branch_writeRequest {f : Forward} {w : WriteRequest}
    (hb : CArray.Starts f.buffer w.forwarded) :
    f.branch = { f with connHandleId := 0x00, pc := .peerNotify } := by
  have hlen := w.length_forwarded
  have h0 : f.buffer.byte 0 = 0x00 := hb.byte_eq (by omega)
  have h1 : f.buffer.byte 1 = 0x01 := hb.byte_eq (by omega)
  rw [Forward.branch_peer (by rw [h0]; decide) (by rw [h0]; decide) h1, h0]

theorem forwarder_recv {ws : List WriteRequest} {g : Gateway} {p : Places} (h : Flow ws g p)
    (hpc : g.fwd.pc = .recv) (hn : p.toNote = []) (hw : p.toWrite = []) {m : Message}
    {ms : List Message} (hq : g.queues.queue messageSendToPeerDeviceKey = m :: ms) :
    Flows ws g (forwarderStep g) := by
  have hnext : g.fwd.next g.connections = .recvMsg := by rw [Forward.next, hpc]
  obtain ⟨w, fs, hfs, hm, hms⟩ := queue_head hq h.forwarded
  obtain ⟨buffer, hrecv, hb⟩ := sysMqRecv_of_le g.fwd.buffer m (Nat.le_refl 100)
  rw [hm] at hb
  let queues := g.queues.take messageSendToPeerDeviceKey (passed buffer m.length)
  let fwd : Forward :=
    { g.fwd with buffer, size := m.length, connHandleId := 0x00, pc := .peerNotify }
  have hstep : forwarderStep g = .next { g with queues, fwd } := by
    simp only [forwarderStep, hnext, recv, hq, hrecv]
    rw [branch_writeRequest (w := w) hb]
  have hother : queues.queue connPipe0Key = g.queues.queue connPipe0Key :=
    Traffic.take_queue_ne _ (by decide) _
  refine ⟨_, { p with toNote := [w], toWrite := [w], forwarded := fs }, hstep,
    { h with
      all_noted := by simpa [hn, hfs, Places.behind] using h.all_noted
      all_written := by simpa [hw, hfs, Places.behind] using h.all_written
      holds := .note w rfl hb (by rw [m.toNat_length, hm])
      forwarded := by simp only [queues, Traffic.take_queue_self, hq, List.tail_cons, hms]
      queued := by rw [hother, h.queued] }, ?_⟩
  simp only [stepsLeft, hpc, fwd, hother, queues, Traffic.take_queue_self, hq, List.tail_cons,
    List.length_cons]
  omega

theorem forwarder_note {ws : List WriteRequest} {g : Gateway} {p : Places} {w : WriteRequest}
    (h : Flow ws g p) (hpc : g.fwd.pc = .peerNotify) (hb : CArray.Starts g.fwd.buffer w.forwarded)
    (hs : g.fwd.size.toNat = w.forwarded.length) (hn : p.toNote = [w]) (hw : p.toWrite = [w]) :
    Flows ws g (forwarderStep g) := by
  have hsize : ¬ 100 < w.forwarded.length := Nat.not_lt.mpr hb.length_le
  have hstep : forwarderStep g = .next { g with
      fwd := { g.fwd with pc := .peerWrite }
      output := g.output ++ [notifyData g.fwd.buffer w.forwarded.length 0] } := by
    simp only [forwarderStep, Forward.next, hpc, hs, hsize,
      write_eq h.fault (w.commands_inBounds g.fwd.buffer).1, decide_false, Bool.or_false]
  refine ⟨_, { p with noted := p.noted ++ [w], toNote := [], toWrite := [w] }, hstep,
    { h with
      all_noted := by simpa [hn, Places.behind] using h.all_noted
      all_written := by simpa [hw, Places.behind] using h.all_written
      noted := ?_
      written := ?_
      holds := .write w rfl hb hs }, ?_⟩
  · rw [commandsOf_append_self rfl, h.noted, (w.stored_commands hb).1, List.map_append]
    rfl
  · rw [commandsOf_append_of_ne (by simp [gattNotification, gattWritecharvalue]), h.written]
  · simp only [stepsLeft, hpc]
    omega

theorem forwarder_write {ws : List WriteRequest} {g : Gateway} {p : Places} {w : WriteRequest}
    (h : Flow ws g p) (hpc : g.fwd.pc = .peerWrite) (hb : CArray.Starts g.fwd.buffer w.forwarded)
    (hs : g.fwd.size.toNat = w.forwarded.length) (hn : p.toNote = []) (hw : p.toWrite = [w]) :
    Flows ws g (forwarderStep g) := by
  have hsize : ¬ 100 < w.forwarded.length := Nat.not_lt.mpr hb.length_le
  have hstep : forwarderStep g = .next { g with
      fwd := { g.fwd with pc := .slaveTest .peer }
      output := g.output ++ [gattWriteValue g.fwd.buffer w.forwarded.length 0] } := by
    simp only [forwarderStep, Forward.next, hpc, hs, hsize,
      write_eq h.fault (w.commands_inBounds g.fwd.buffer).2, decide_false, Bool.or_false]
  refine ⟨_, { p with toNote := [], written := p.written ++ [w], toWrite := [] }, hstep,
    { h with
      all_noted := by simpa [hn, Places.behind] using h.all_noted
      all_written := by simpa [hw, Places.behind] using h.all_written
      noted := ?_
      written := ?_
      holds := .idle (.inr rfl) }, ?_⟩
  · rw [commandsOf_append_of_ne (by simp [gattNotification, gattWritecharvalue]), h.noted]
  · rw [commandsOf_append_self rfl, h.written, (w.stored_commands hb).2, List.map_append]
    rfl
  · simp only [stepsLeft, hpc]
    omega

/-- Behind its two commands the forwarder tests `Slave_Count`, which is 0. -/
theorem forwarder_slaveTest {ws : List WriteRequest} {g : Gateway} {p : Places}
    (h : Flow ws g p) (hpc : g.fwd.pc = .slaveTest .peer) (hn : p.toNote = [])
    (hw : p.toWrite = []) : Flows ws g (forwarderStep g) := by
  have hstep : forwarderStep g = .next { g with fwd := { g.fwd with pc := .recv } } := by
    simp only [forwarderStep, Forward.next, hpc, h.slaveCount]
    rfl
  refine ⟨_, { p with toNote := [], toWrite := [] }, hstep,
    { h with
      all_noted := by simpa [hn, Places.behind] using h.all_noted
      all_written := by simpa [hw, Places.behind] using h.all_written
      holds := .idle (.inl rfl) }, ?_⟩
  simp only [stepsLeft, hpc]
  omega

theorem forwarder_flows {ws : List WriteRequest} {g : Gateway} {p : Places} (h : Flow ws g p) :
    forwarderStep g = .blocked ∨ Flows ws g (forwarderStep g) := by
  obtain ⟨noted, toNote, written, toWrite, forwarded, decoded, queued, dispatched, ahead⟩ := p
  have hheld := h.holds
  dsimp only at hheld
  cases hheld with
  | idle hpc =>
    obtain hpc | hpc := hpc
    · cases hq : g.queues.queue messageSendToPeerDeviceKey with
      | nil =>
        left
        simp only [forwarderStep, Forward.next, hpc, recv, hq]
      | cons m ms => exact .inr (forwarder_recv h hpc rfl rfl hq)
    · exact .inr (forwarder_slaveTest h hpc rfl rfl)
  | note w hpc hb hs => exact .inr (forwarder_note h hpc hb hs rfl rfl)
  | write w hpc hb hs => exact .inr (forwarder_write h hpc hb hs rfl rfl)

/-! ## The pipe thread -/

theorem pipe_recv {ws : List WriteRequest} {g : Gateway} {p : Places} (h : Flow ws g p)
    (hidle : g.pipe.dataLength = none) (hd : p.decoded = []) {m : Message} {ms : List Message}
    (hq : g.queues.queue connPipe0Key = m :: ms) (beyond : Nat → UInt8) :
    Flows ws g (pipeStep beyond g) := by
  obtain ⟨w, qs, hqs, hm, hms⟩ := queue_head hq h.queued
  obtain ⟨buff, hrecv, hb⟩ := sysMqRecv_of_le g.pipe.buff m (Nat.le_refl 100)
  rw [hm] at hb
  obtain ⟨hstray, pipe, hpipe, hlen, hfwd⟩ := w.decode_writeRequest hb g.pipe beyond
  let queues := g.queues.take connPipe0Key (passed buff m.length)
  have hstep : pipeStep beyond g = .next { g with queues, pipe } := by
    simp [pipeStep, hidle, recv, hq, hrecv, hpipe, hstray, queues]
  have hother : queues.queue messageSendToPeerDeviceKey =
      g.queues.queue messageSendToPeerDeviceKey := Traffic.take_queue_ne _ (by decide) _
  refine ⟨_, { p with decoded := [w], queued := qs }, hstep,
    { h with
      all_noted := by simpa [hd, hqs, Places.behind] using h.all_noted
      all_written := by simpa [hd, hqs, Places.behind] using h.all_written
      decoded := .decoded w hlen hfwd
      forwarded := by rw [hother, h.forwarded]
      queued := by simp only [queues, Traffic.take_queue_self, hq, List.tail_cons, hms] }, ?_⟩
  simp only [stepsLeft, hidle, hlen, hother, queues, Traffic.take_queue_self, hq, List.tail_cons,
    List.length_cons, Option.isSome_some, Option.isSome_none, if_true, Bool.false_eq_true,
    if_false]
  omega

theorem pipe_post {ws : List WriteRequest} {g : Gateway} {p : Places} {w : WriteRequest}
    (h : Flow ws g p) (hlen : g.pipe.dataLength = some (w.value.length : Int))
    (hs : CArray.Starts g.pipe.forwardDataBuff w.forwarded) (hd : p.decoded = [w])
    (beyond : Nat → UInt8) : Flows ws g (pipeStep beyond g) := by
  have hle := w.le
  obtain ⟨m, hsend, hm⟩ := sysMqSend_starts hs w.toNat_postSize
    (by rw [w.length_forwarded, mtextSize]; omega)
  let queues := g.queues.put messageSendToPeerDeviceKey m
    (passed g.pipe.forwardDataBuff (Pipe.postSize w.value.length))
  have hstep : pipeStep beyond g =
      .next { g with pipe := { g.pipe with dataLength := none }, queues } := by
    simp only [pipeStep, hlen, send, hsend, queues]
  have hother : queues.queue connPipe0Key = g.queues.queue connPipe0Key :=
    Traffic.put_queue_ne _ (by decide) _ _
  refine ⟨_, { p with decoded := [], forwarded := p.forwarded ++ [w] }, hstep,
    { h with
      all_noted := by simpa [hd, Places.behind] using h.all_noted
      all_written := by simpa [hd, Places.behind] using h.all_written
      decoded := .idle rfl
      forwarded := by simp [queues, h.forwarded, hm]
      queued := by rw [hother, h.queued] }, ?_⟩
  simp only [stepsLeft, hlen, hother, queues, Traffic.put_queue_self, List.length_append,
    List.length_singleton, Option.isSome_some, Option.isSome_none, if_true, Bool.false_eq_true,
    if_false]
  omega

theorem pipe_flows {ws : List WriteRequest} {g : Gateway} {p : Places} (h : Flow ws g p)
    (beyond : Nat → UInt8) :
    pipeStep beyond g = .blocked ∨ Flows ws g (pipeStep beyond g) := by
  obtain ⟨noted, toNote, written, toWrite, forwarded, decoded, queued, dispatched, ahead⟩ := p
  have hdec := h.decoded
  dsimp only at hdec
  cases hdec with
  | idle hidle =>
    cases hq : g.queues.queue connPipe0Key with
    | nil =>
      left
      simp only [pipeStep, hidle, recv, hq]
    | cons m ms => exact .inr (pipe_recv h hidle rfl hq beyond)
  | decoded w hlen hs => exact .inr (pipe_post h hlen hs rfl beyond)

/-! ## The UART thread -/

theorem uart_perform {ws : List WriteRequest} {g : Gateway} {p : Places} (h : Flow ws g p)
    (ids : PipeIds) {a : Action} {as : List Action} (hp : g.pending = a :: as) :
    Flows ws g (uartStep ids g) := by
  obtain ⟨noted, toNote, written, toWrite, forwarded, decoded, queued, dispatched, ahead⟩ := p
  have hdis := h.dispatched
  dsimp only at hdis
  rw [hp] at hdis
  cases hdis with
  | ack =>
    have hstep : uartStep ids g =
        .next { g with pending := [], output := g.output ++ [dataAck 0] } := by
      have hw := write_eq (g := { g with pending := [] }) h.fault (dataAck_inBounds 0)
      simp only [uartStep, hp, perform]
      exact congrArg Outcome.next hw
    refine ⟨_, ⟨noted, toNote, written, toWrite, forwarded, decoded, queued, [], ahead⟩, hstep,
      { h with
        noted := ?_
        written := ?_
        dispatched := .idle }, ?_⟩
    · rw [commandsOf_append_of_ne (by simp [gattNotification, vsAttWriteResponse]), h.noted]
    · rw [commandsOf_append_of_ne (by simp [gattWritecharvalue, vsAttWriteResponse]), h.written]
    · simp only [stepsLeft, hp, List.length_cons, List.length_nil]
      omega
  | post w hw =>
    have hle := w.le
    have hsize : g.packet.index.toUInt16.toNat = w.bytes.length := by simpa using hw.1
    obtain ⟨m, hsend, hm⟩ := sysMqSend_starts hw.2 hsize
      (by rw [w.length_bytes, mtextSize]; omega)
    let queues := g.queues.put connPipe0Key m
      (passed g.packet.rxPacket g.packet.index.toUInt16)
    have hstep : uartStep ids g = .next { g with pending := [.dataAck 0x00], queues } := by
      simp only [uartStep, hp, perform, QueueVar.key, send, hsend, queues]
    have hother : queues.queue messageSendToPeerDeviceKey =
        g.queues.queue messageSendToPeerDeviceKey := Traffic.put_queue_ne _ (by decide) _ _
    refine ⟨_, ⟨noted, toNote, written, toWrite, forwarded, decoded, queued ++ [w], [], ahead⟩,
      hstep, { h with
        all_noted := by simpa [Places.behind] using h.all_noted
        all_written := by simpa [Places.behind] using h.all_written
        forwarded := by rw [hother, h.forwarded]
        queued := by simp [queues, h.queued, hm]
        dispatched := .ack }, ?_⟩
    simp only [stepsLeft, hp, hother, queues, Traffic.put_queue_self, List.length_append,
      List.length_cons, List.length_nil]
    omega

theorem uart_byte {ws : List WriteRequest} {g : Gateway} {p : Places} (h : Flow ws g p)
    (ids : PipeIds) (hp : g.pending = []) {b : UInt8} {input : List UInt8}
    (hb : g.input = b :: input) : Flows ws g (uartStep ids g) := by
  obtain ⟨noted, toNote, written, toWrite, forwarded, decoded, queued, dispatched, ahead⟩ := p
  have hdis := h.dispatched
  have hahead := h.ahead
  dsimp only at hdis hahead
  rw [hp] at hdis
  cases hdis
  rw [hb, arriving_cons] at hahead
  cases hr : g.framer.rxByte b with
  | mk framer out =>
  cases out with
  | none =>
    have hstep : uartStep ids g = .next { g with input, framer } := by
      simp only [uartStep, hp, hb, hr]
    rw [hr] at hahead
    refine ⟨_, _, hstep, { h with ahead := hahead }, ?_⟩
    simp only [stepsLeft, hb, List.length_cons]
    omega
  | some packet =>
    rw [hr] at hahead
    cases hahead with
    | cons hw hrest =>
    rename_i w rest
    have hd := WriteRequest.dispatch_writeRequest hw.2
    have hstep : uartStep ids g = .next { g with
        input, framer, packet, pending := [.sysMqSend .pipe0Id, .dataAck 0x00] } := by
      simp only [uartStep, hp, hb, hr, hd]
    refine ⟨_, ⟨noted, toNote, written, toWrite, forwarded, decoded, queued, [w], rest⟩, hstep,
      { h with
        all_noted := by simpa [Places.behind] using h.all_noted
        all_written := by simpa [Places.behind] using h.all_written
        dispatched := .post w hw
        ahead := hrest }, ?_⟩
    simp only [stepsLeft, hb, hp, List.length_cons, List.length_nil]
    omega

theorem uart_flows {ws : List WriteRequest} {g : Gateway} {p : Places} (h : Flow ws g p)
    (ids : PipeIds) : uartStep ids g = .blocked ∨ Flows ws g (uartStep ids g) := by
  cases hp : g.pending with
  | cons a as => exact .inr (uart_perform h ids hp)
  | nil =>
    cases hb : g.input with
    | nil =>
      left
      simp only [uartStep, hp, hb]
    | cons b input => exact .inr (uart_byte h ids hp hb)

/-! ## The relay -/

theorem threadStep_flows {ws : List WriteRequest} {g : Gateway} {p : Places} (h : Flow ws g p)
    (ids : PipeIds) (t : Thread) :
    threadStep ids t g = .blocked ∨ Flows ws g (threadStep ids t g) := by
  cases t with
  | uartCmdRx => exact uart_flows h ids
  | pipe0000 beyond => exact pipe_flows h beyond
  | forwardMsgQueue => exact forwarder_flows h

theorem threads_descends (ids : PipeIds) (ws : List WriteRequest) :
    (threads ids).Descends (fun g => ∃ p, Flow ws g p) stepsLeft := by
  rintro t g ⟨p, h⟩
  obtain hb | ⟨g', p', hn, h', hlt⟩ := threadStep_flows h ids t
  · exact .inl hb
  · exact .inr ⟨g', hn, ⟨p', h'⟩, hlt⟩

/-- The framer completes the requests on the wire, one after the other. -/
theorem arriving_requests {s : Framer} (h : s.AtBoundary) (ws : List WriteRequest) :
    List.Forall₂ (fun c w => c.Is w.bytes) (arriving s (ws.flatMap (·.bytes))) ws := by
  induction ws generalizing s with
  | nil => exact .nil
  | cons w ws ih =>
    obtain ⟨hb, ho⟩ := frame_run h w.frame (by have := w.fits_frame; exact this.1)
    have hw := frame_is h w.fits_frame
    rw [w.frame_bytes] at hb ho hw
    rw [List.flatMap_cons, arriving_append, arriving, ho, List.filterMap_append]
    simpa using ⟨hw, ih hb⟩

theorem flow_start (l : Locals) (connDeviceList : ConnDeviceList) (ws : List WriteRequest) :
    Flow ws (start l ⟨connDeviceList, 0⟩ (ws.flatMap (·.bytes)))
      ⟨[], [], [], [], [], [], [], [], ws⟩ where
  all_noted := rfl
  all_written := rfl
  noted := rfl
  written := rfl
  holds := .idle (.inl rfl)
  forwarded := rfl
  decoded := .idle rfl
  queued := rfl
  dispatched := .idle
  ahead := arriving_requests (atBoundary_start _ _) ws
  slaveCount := rfl
  fault := rfl
  strays := rfl

/-! ## When nothing moves any more -/

theorem Flows.not_blocked {ws : List WriteRequest} {g : Gateway} {o : Outcome Gateway}
    (h : Flows ws g o) : o ≠ .blocked := by
  obtain ⟨g', p', rfl, -, -⟩ := h
  exact fun h => by cases h

theorem forwarder_done {ws : List WriteRequest} {g : Gateway} {p : Places} (h : Flow ws g p)
    (hb : forwarderStep g = .blocked) : p.toNote = [] ∧ p.toWrite = [] ∧ p.forwarded = [] := by
  obtain ⟨noted, toNote, written, toWrite, forwarded, decoded, queued, dispatched, ahead⟩ := p
  have hheld := h.holds
  dsimp only at hheld
  cases hheld with
  | note w hpc hs hl => exact absurd hb (forwarder_note h hpc hs hl rfl rfl).not_blocked
  | write w hpc hs hl => exact absurd hb (forwarder_write h hpc hs hl rfl rfl).not_blocked
  | idle hpc =>
    obtain hpc | hpc := hpc
    · cases hq : g.queues.queue messageSendToPeerDeviceKey with
      | nil => exact ⟨rfl, rfl, by simpa [hq] using h.forwarded⟩
      | cons m ms => exact absurd hb (forwarder_recv h hpc rfl rfl hq).not_blocked
    · exact absurd hb (forwarder_slaveTest h hpc rfl rfl).not_blocked

theorem pipe_done {ws : List WriteRequest} {g : Gateway} {p : Places} (h : Flow ws g p)
    {beyond : Nat → UInt8} (hb : pipeStep beyond g = .blocked) :
    p.decoded = [] ∧ p.queued = [] := by
  obtain ⟨noted, toNote, written, toWrite, forwarded, decoded, queued, dispatched, ahead⟩ := p
  have hdec := h.decoded
  dsimp only at hdec
  cases hdec with
  | decoded w hlen hs => exact absurd hb (pipe_post h hlen hs rfl beyond).not_blocked
  | idle hidle =>
    cases hq : g.queues.queue connPipe0Key with
    | nil => exact ⟨rfl, by simpa [hq] using h.queued⟩
    | cons m ms => exact absurd hb (pipe_recv h hidle rfl hq beyond).not_blocked

theorem uart_done {ws : List WriteRequest} {g : Gateway} {p : Places} (h : Flow ws g p)
    {ids : PipeIds} (hb : uartStep ids g = .blocked) : p.dispatched = [] ∧ p.ahead = [] := by
  obtain ⟨noted, toNote, written, toWrite, forwarded, decoded, queued, dispatched, ahead⟩ := p
  cases hp : g.pending with
  | cons a as => exact absurd hb (uart_perform h ids hp).not_blocked
  | nil =>
    cases hi : g.input with
    | cons b input => exact absurd hb (uart_byte h ids hp hi).not_blocked
    | nil =>
      have hdis := h.dispatched
      have hahead := h.ahead
      dsimp only at hdis hahead
      rw [hp] at hdis
      rw [hi] at hahead
      cases hdis
      cases hahead
      exact ⟨rfl, rfl⟩

/-- When no thread can move every request has been noted and written. -/
theorem places_of_quiet {ids : PipeIds} {ws : List WriteRequest} {g : Gateway} {p : Places}
    (h : Flow ws g p) (hq : (threads ids).Quiet g) : p.noted = ws ∧ p.written = ws := by
  obtain ⟨hn, hw, hf⟩ := forwarder_done h (hq .forwardMsgQueue)
  obtain ⟨hd, hqd⟩ := pipe_done h (hq (.pipe0000 fun _ => 0))
  obtain ⟨hdis, ha⟩ := uart_done h (hq .uartCmdRx)
  have hnoted := h.all_noted
  have hwritten := h.all_written
  simp only [hn, hw, hf, hd, hqd, hdis, ha, Places.behind, List.append_nil] at hnoted hwritten
  exact ⟨hnoted, hwritten⟩

/-! ## The result -/

/-- **Written values are relayed.** Write requests arrive on the UART while no slave is counted;
what the locals, the connection table and the uninitialised queue ids hold is arbitrary. No schedule
of the three threads leaves an array. When no thread can move any more, each value has been written
in one notification and in one write command, in the order of arrival; and every schedule can be
continued to that point. -/
theorem relays_values (ids : PipeIds) (l : Locals) (connDeviceList : ConnDeviceList)
    (ws : List WriteRequest) (ts : List Thread) :
    ∃ g, (threads ids).run (start l ⟨connDeviceList, 0⟩ (ws.flatMap (·.bytes))) ts = some g ∧
      g.fault = false ∧ g.strays = false ∧
      ((threads ids).Quiet g →
        commandsOf gattNotification g.output = ws.map (·.notification) ∧
          commandsOf gattWritecharvalue g.output = ws.map (·.writeCommand)) ∧
      ∃ us g', (threads ids).run g us = some g' ∧ (threads ids).Quiet g' := by
  have hdesc := threads_descends ids ws
  obtain ⟨g, hr, p, h⟩ := hdesc.inductive.run ⟨_, flow_start l connDeviceList ws⟩ ts
  obtain ⟨us, g', hr', -, hq⟩ := hdesc.drains ⟨p, h⟩
  refine ⟨g, hr, h.fault, h.strays, fun hquiet => ?_, us, g', hr', hq⟩
  obtain ⟨hn, hw⟩ := places_of_quiet h hquiet
  exact ⟨by rw [h.noted, hn], by rw [h.written, hw]⟩

end Gateway

end Ble
