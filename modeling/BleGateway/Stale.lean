import BleGateway.Wire
import BleGateway.Dispatch

/-!
# Packets that the dispatch chain reads past

`rx_packet` is never cleared, and the chain compares none of the cells it reads with `index`. Behind
a short frame it finds bytes of earlier frames.

* `bytesRead`: how many bytes of a frame the chain looks at before its outcome is fixed, branch by
  branch.
* `sameDispatch_iff`: what the dispatcher does for a frame is a function of the frame alone if and
  only if the frame has that many bytes.
-/

namespace Ble

open Framer

/-! ## What is done for a packet -/

/-- What one packet leads to: the queues posted to, the acknowledgements written, and the table,
`none` when a store left it. -/
structure Performed where
  posted : List QueueVar
  acked : List UInt8
  table : Option Connections
  deriving DecidableEq

/-- The queue an action posts to. -/
def Action.queue? : Action → Option QueueVar
  | .sysMqSend q => some q
  | _ => none

/-- The connection an action acknowledges. -/
def Action.ack? : Action → Option UInt8
  | .dataAck idz => some idz
  | _ => none

/-- The queues that the chain posts to. -/
def posted (p : CArray UInt8 2048) : List QueueVar := (dispatch p).filterMap Action.queue?

/-- The dispatcher on a completed packet. -/
def performed (w : Connections) (c : Completed) : Performed where
  posted := posted c.rxPacket
  acked := (dispatch c.rxPacket).filterMap Action.ack?
  table := (dispatch c.rxPacket).foldlM Action.onTable w

/-- The bytes `s` drive the framer to the completion of `f`, found in `rx_packet` as `c`. -/
def Drives (s₀ : Framer) (s : List UInt8) (f : EventFrame) (c : Completed) : Prop :=
  (machine.outputs s₀ s).getLast? = some (some c) ∧ c.Is f.bytes

/-- Whatever came before, the dispatcher does the same for `f`. -/
def SameDispatch (s₀ : Framer) (f : EventFrame) : Prop :=
  ∀ s₁ s₂ c₁ c₂, Drives s₀ s₁ f c₁ → Drives s₀ s₂ f c₂ → ∀ w, performed w c₁ = performed w c₂

/-! ## How far the chain reads -/

/-- The low bytes of the opcodes in `maskedOpcodes`. -/
def maskedLow : List Nat := maskedOpcodes.map (· % 256)

/-- The opcodes that `commandStatus` does not report. -/
def statusOpcodes : List Nat :=
  [gattDelservice, 0xFD9B, vsAttWriteResponse, 0xFD92, 0xFDB6, 0xFE30, 0xFDFC, 0xFDFE, 0xFE06,
    0xFE07]

/-- The low bytes of the opcodes that `commandStatus`, or the chain before it, singles out. -/
def statusLow : List Nat := maskedLow ++ statusOpcodes.map (· % 256)

/-- How many cells the write-request branch looks at. -/
def writeBytesRead (rxPacket : Nat → UInt8) : Nat :=
  if rxPacket 11 = 0x05 ∨ rxPacket 11 = 0x09 then 12
  else if rxPacket 13 ≠ 0x30 ∧ rxPacket 13 ≠ 0x50 then 14
  else if ¬ (rxPacket 13 = 0x50 ∧ rxPacket 14 = 0x42) then 15
  else if rxPacket 31 ≠ 0x50 then 32
  else 33

/-- How many cells the chain looks at for an event with an action, if the opcode is not masked. -/
def eventBytesRead (event : Nat) (rxPacket : Nat → UInt8) : Nat :=
  if event ∈ commandRespEvents then if (rxPacket 6).toNat ∈ maskedLow then 8 else 7
  else if event = vsCommandStatus then if (rxPacket 6).toNat ∈ statusLow then 8 else 7
  else if event = vsGapLinkTerminated then 9
  else if event = eventVsAttHandleValueNotification then 7
  else writeBytesRead rxPacket

/-- The number of bytes of a frame that the chain looks at before its outcome is fixed. Cells that
the frame does not have count as 0. -/
def bytesRead (f : List UInt8) : Nat :=
  let rxPacket i := f.getD i 0
  let event := make16OfXY (rxPacket 4) (rxPacket 3)
  if rxPacket 1 ≠ 0xFF then 2
  else if ∀ e ∈ actingEvents, e % 256 ≠ (rxPacket 3).toNat then 4
  else if event ∉ actingEvents then 5
  else if make16OfXY (rxPacket 7) (rxPacket 6) ∈ maskedOpcodes then 8
  else eventBytesRead event rxPacket

/-! ## Frames that are long enough -/

private theorem low_of_mem {e : Nat} {x y : UInt8} {es : List Nat} (h : make16OfXY x y = e)
    (he : e ∈ es) : y.toNat ∈ es.map (· % 256) := by
  have hy := ((make16OfXY_eq_iff x y e).mp h).2
  exact hy ▸ List.mem_map_of_mem he

theorem not_masked_of_low {x y : UInt8} (h : y.toNat ∉ maskedLow) :
    make16OfXY x y ∉ maskedOpcodes := fun hm => h (low_of_mem rfl hm)

/-- The chain does nothing for an event without an action. -/
theorem dispatch_quiet {p : CArray UInt8 2048} (h : eventCode p ∉ actingEvents) :
    dispatch p = [] := by
  rw [dispatch_eq, byEvent_quiet h, ite_self, ite_self]

/-- A notification goes to the pipe of its connection: the masked opcodes name no pipe. -/
theorem dispatch_notification {p : CArray UInt8 2048} (hv : VendorEvent p)
    (he : eventCode p = eventVsAttHandleValueNotification) :
    dispatch p = toPipe (p.byte 6) := by
  by_cases hm : opcode p ∈ maskedOpcodes
  · rw [dispatch_of_masked hm]
    simp only [maskedOpcodes, opcode, List.mem_cons, List.not_mem_nil, or_false,
      make16OfXY_eq_iff] at hm
    generalize p.byte 6 = b at hm ⊢
    rcases hm with ⟨-, h⟩ | ⟨-, h⟩
    · obtain rfl : b = 0x06 := UInt8.toNat.inj h
      rfl
    · obtain rfl : b = 0x21 := UInt8.toNat.inj h
      rfl
  · rw [dispatch_of_vendor hv hm, he, byEvent_notification]

/-- An opcode whose low byte is not singled out is reported. -/
theorem commandStatus_of_low {x y : UInt8} (h : y.toNat ∉ statusLow) :
    commandStatus (make16OfXY x y) = [.sysMqSend .commandRespQId] := by
  simp only [statusLow, statusOpcodes, gattDelservice, vsAttWriteResponse, List.map_cons,
    List.map_nil, List.mem_append, List.mem_cons, List.not_mem_nil, or_false, not_or] at h
  simp only [commandStatus, gattDelservice, vsAttWriteResponse, make16OfXY_eq_iff, h, and_false,
    or_false, if_false, Nat.reduceMod, ite_self]

/-- The first `n` cells of `p` are `b`. -/
def Agrees (b : Nat → UInt8) (n : Nat) (p : CArray UInt8 2048) : Prop :=
  ∀ i, i < n → p.byte i = b i

theorem agrees_of_starts {p : CArray UInt8 2048} {f : List UInt8} (h : CArray.Starts p f) :
    Agrees (f.getD · 0) f.length p := fun _ hi => h.byte_eq hi

theorem Agrees.vendorEvent {b : Nat → UInt8} {n : Nat} {p : CArray UInt8 2048} (hp : Agrees b n p)
    (hn : 2 ≤ n) : VendorEvent p ↔ b 0 = bleEvtPkt ∧ b 1 = 0xFF := by
  rw [VendorEvent, hp 0 (by omega), hp 1 (by omega)]

theorem Agrees.eventCode {b : Nat → UInt8} {n : Nat} {p : CArray UInt8 2048} (hp : Agrees b n p)
    (hn : 5 ≤ n) : eventCode p = make16OfXY (b 4) (b 3) := by
  rw [Ble.eventCode, hp 4 (by omega), hp 3 (by omega)]

theorem Agrees.opcode {b : Nat → UInt8} {n : Nat} {p : CArray UInt8 2048} (hp : Agrees b n p)
    (hn : 8 ≤ n) : opcode p = make16OfXY (b 7) (b 6) := by
  rw [Ble.opcode, hp 7 (by omega), hp 6 (by omega)]

theorem twelve_le_writeBytesRead (b : Nat → UInt8) : 12 ≤ writeBytesRead b := by
  unfold writeBytesRead
  repeat' split
  all_goals omega

theorem seven_le_eventBytesRead (e : Nat) (b : Nat → UInt8) : 7 ≤ eventBytesRead e b := by
  have := twelve_le_writeBytesRead b
  unfold eventBytesRead
  repeat' split
  all_goals omega

/-- The write-request branch on the cells `b`. -/
theorem writeRequestQueue_agree {b : Nat → UInt8} {n : Nat} {p q : CArray UInt8 2048}
    (hp : Agrees b n p) (hq : Agrees b n q) (h : writeBytesRead b ≤ n) :
    writeRequestQueue p = writeRequestQueue q := by
  have h12 := Nat.le_trans (twelve_le_writeBytesRead b) h
  simp only [writeRequestQueue, hp 6 (by omega), hp 11 (by omega),
    hq 6 (by omega), hq 11 (by omega)]
  unfold writeBytesRead at h
  split at h
  · next h11 => simp only [h11, if_true, ite_self]
  next h11 =>
  have h14 : 14 ≤ n := by (repeat' split at h) <;> omega
  simp only [h11, if_false, hp 12 (by omega), hp 13 (by omega),
    hq 12 (by omega), hq 13 (by omega)]
  split at h
  · next h13 => simp only [h13.1, h13.2, false_and, if_false]
  have h15 : 15 ≤ n := by (repeat' split at h) <;> omega
  simp only [hp 14 (by omega), hq 14 (by omega)]
  split at h
  · next h50 => simp only [← and_assoc, h50, false_and, if_false]
  have h32 : 32 ≤ n := by split at h <;> omega
  simp only [hp 31 (by omega), hq 31 (by omega)]
  split at h
  · next h31 => simp only [h31, false_and, and_false, if_false]
  · rw [hp 32 (by omega), hq 32 (by omega)]

/-- No opcode that agrees with `b` is masked. -/
theorem not_masked_agree {b : Nat → UInt8} {n : Nat} {p : CArray UInt8 2048} (hp : Agrees b n p)
    (h7 : 7 ≤ n) (hm : make16OfXY (b 7) (b 6) ∉ maskedOpcodes)
    (hl : n = 7 → (b 6).toNat ∉ maskedLow) : opcode p ∉ maskedOpcodes := by
  by_cases h8 : 8 ≤ n
  · rwa [hp.opcode h8]
  · rw [opcode, hp 6 (by omega)]
    exact not_masked_of_low (hl (by omega))

/-- The chain on an event with an action and an opcode that `b` does not mask. -/
theorem event_agree {b : Nat → UInt8} {n : Nat} {p q : CArray UInt8 2048} (hp : Agrees b n p)
    (hq : Agrees b n q) (h7 : 7 ≤ n) (h0 : b 0 = bleEvtPkt ∧ b 1 = 0xFF)
    (he : make16OfXY (b 4) (b 3) ∈ actingEvents)
    (hm : make16OfXY (b 7) (b 6) ∉ maskedOpcodes)
    (h : eventBytesRead (make16OfXY (b 4) (b 3)) b ≤ n) : dispatch p = dispatch q := by
  have hvp := (hp.vendorEvent (by omega)).mpr h0
  have hvq := (hq.vendorEvent (by omega)).mpr h0
  have hep := hp.eventCode (by omega)
  have heq := hq.eventCode (by omega)
  have h6p := hp 6 (by omega)
  have h6q := hq 6 (by omega)
  generalize make16OfXY (b 4) (b 3) = e at he hep heq h
  unfold eventBytesRead at h
  rcases actingEvents_cases he with hc | rfl | rfl | rfl | hc
  · have hl : n = 7 → (b 6).toNat ∉ maskedLow := by
      rintro rfl hl
      rw [if_pos hc, if_pos hl] at h
      omega
    rw [dispatch_of_vendor hvp (not_masked_agree hp h7 hm hl), hep, byEvent_commandResp hc,
      dispatch_of_vendor hvq (not_masked_agree hq h7 hm hl), heq, byEvent_commandResp hc]
  · have hl : n = 7 → (b 6).toNat ∉ statusLow := by
      rintro rfl hl
      rw [if_neg (by decide), if_pos rfl, if_pos hl] at h
      omega
    have hl' : n = 7 → (b 6).toNat ∉ maskedLow := fun h7 hin =>
      hl h7 (List.mem_append_left _ hin)
    rw [dispatch_of_vendor hvp (not_masked_agree hp h7 hm hl'), hep, byEvent_commandStatus,
      dispatch_of_vendor hvq (not_masked_agree hq h7 hm hl'), heq, byEvent_commandStatus]
    by_cases h8 : 8 ≤ n
    · rw [hp.opcode h8, hq.opcode h8]
    · have h7 : n = 7 := by omega
      rw [opcode, opcode, h6p, h6q, commandStatus_of_low (hl h7), commandStatus_of_low (hl h7)]
  · replace h : 9 ≤ n := h
    rw [dispatch_of_vendor hvp (not_masked_agree hp h7 hm (by omega)), hep, byEvent_linkTerminated,
      dispatch_of_vendor hvq (not_masked_agree hq h7 hm (by omega)), heq, byEvent_linkTerminated,
      hp.opcode (by omega), hq.opcode (by omega), hp 8 (by omega), hq 8 (by omega)]
  · rw [dispatch_notification hvp hep, dispatch_notification hvq heq, h6p, h6q]
  · have hw : writeBytesRead b ≤ n := by
      simp only [writeRequestEvents, List.mem_cons, List.not_mem_nil, or_false] at hc
      rcases hc with rfl | rfl <;> exact h
    have h12 := Nat.le_trans (twelve_le_writeBytesRead b) hw
    rw [dispatch_of_vendor hvp (not_masked_agree hp h7 hm (by omega)), hep,
      dispatch_of_vendor hvq (not_masked_agree hq h7 hm (by omega)), heq,
      byEvent_writeRequest hc, byEvent_writeRequest hc, writeRequestQueue_agree hp hq hw, h6p, h6q]

/-- Two buffers that hold the same long enough frame are treated alike. -/
theorem dispatch_eq_of_bytesRead {p q : CArray UInt8 2048} {f : List UInt8}
    (h0 : f.getD 0 0 = bleEvtPkt) (hp : CArray.Starts p f) (hq : CArray.Starts q f)
    (h : bytesRead f ≤ f.length) : dispatch p = dispatch q := by
  replace hp := agrees_of_starts hp
  replace hq := agrees_of_starts hq
  replace h0 : (f.getD · 0) 0 = bleEvtPkt := h0
  unfold bytesRead at h
  generalize (f.getD · 0) = b at hp hq h0 h
  dsimp only at h
  -- In the first four cases the chain does nothing.
  have nothing : (∀ r, Agrees b f.length r → dispatch r = []) → dispatch p = dispatch q :=
    fun hr => (hr p hp).trans (hr q hq).symm
  split at h
  · next h1 =>
    refine nothing fun r hr => dispatch_of_not_vendor ?_
    rw [hr.vendorEvent h]
    exact fun hv => h1 hv.2
  next h1 =>
  split at h
  · next hlow =>
    refine nothing fun r hr => dispatch_quiet fun he => ?_
    refine hlow _ he ?_
    rw [← hr 3 h]
    exact ((make16OfXY_eq_iff _ _ _).mp rfl).2.symm
  split at h
  · next he =>
    refine nothing fun r hr => dispatch_quiet ?_
    rwa [hr.eventCode h]
  next he =>
  split at h
  · next hm =>
    refine nothing fun r hr => dispatch_of_masked ?_
    rwa [hr.opcode h]
  next hm =>
  exact event_agree hp hq (Nat.le_trans (seven_le_eventBytesRead _ _) h)
    ⟨h0, Decidable.of_not_not h1⟩ (Decidable.of_not_not he) hm h

/-! ## Frames that are too short -/

/-- `p` holds `f`, and behind it, up to cell 254, the bytes `t`. -/
def Over (p : CArray UInt8 2048) (f : List UInt8) (t : Nat → UInt8) : Prop :=
  Agrees (fun i => f.getD i (t i)) 255 p

theorem Over.known {p : CArray UInt8 2048} {f : List UInt8} {t : Nat → UInt8} (h : Over p f t)
    {i : Nat} (hi : i < f.length) (hn : i < 255) : p.byte i = f.getD i 0 := by
  simp [h i hn, List.getD_eq_getElem?_getD, List.getElem?_eq_getElem hi]

theorem Over.stale {p : CArray UInt8 2048} {f : List UInt8} {t : Nat → UInt8} (h : Over p f t)
    {i : Nat} (hi : f.length ≤ i) (hn : i < 255) : p.byte i = t i := by
  simp [h i hn, List.getD_eq_getElem?_getD, List.getElem?_eq_none hi]

theorem getD_of_length_le {f : List UInt8} {i : Nat} (h : f.length ≤ i) : f.getD i 0 = 0 := by
  simp [List.getD_eq_getElem?_getD, List.getElem?_eq_none h]

theorem Over.default {p : CArray UInt8 2048} {f : List UInt8} {t : Nat → UInt8} (h : Over p f t)
    {i : Nat} (ht : t i = 0) (hn : i < 255) : p.byte i = f.getD i 0 := by
  simp only [h i hn, ht]

/-- A frame that leaves `t` in `rx_packet` and that the chain ignores. -/
def fillerFrame (t : Nat → UInt8) : EventFrame where
  code := 0x00
  params := (List.range 252).map fun i => t (i + 3)
  le := by simp

theorem fits_fillerFrame (t : Nat → UInt8) : (fillerFrame t).Fits := by
  simp [EventFrame.Fits, fillerFrame]

theorem bytes_fillerFrame (t : Nat → UInt8) :
    (fillerFrame t).bytes = [0x04, 0x00, 0xFC] ++ (List.range 252).map fun i => t (i + 3) := by
  rw [EventFrame.bytes, show (fillerFrame t).params.length = 252 by simp [fillerFrame]]
  rfl

theorem getElem_fillerFrame (t : Nat → UInt8) {i : Nat} (h3 : 3 ≤ i)
    (hi : i < (fillerFrame t).bytes.length) : (fillerFrame t).bytes[i] = t i := by
  have h255 : (fillerFrame t).bytes.length = 255 := by simp [bytes_fillerFrame]
  have hr : i - [(0x04 : UInt8), 0x00, 0xFC].length < 252 := by
    simp only [List.length_cons, List.length_nil]
    omega
  apply Option.some.inj
  rw [← List.getElem?_eq_getElem hi, bytes_fillerFrame, List.getElem?_append_right h3,
    List.getElem?_map, List.getElem?_range hr, Option.map_some]
  exact congrArg (fun j => some (t j)) (Nat.sub_add_cancel h3)

theorem after_frame_rxPacket {s : Framer} (h : s.AtBoundary) {f : EventFrame} (hf : f.Fits) :
    (machine.after s f.bytes).rxPacket = (s.storeAll f.bytes).rxPacket := by
  obtain ⟨ha, -⟩ := packet_run (.inl h) f.code (UInt8.ofNat f.params.length) f.params
    (by rw [f.toNat_length]; have := hf.1; omega)
  rw [EventFrame.bytes, ha]

/-- Every stale content is reached: some stream ends with `f` and leaves `t` behind it. -/
theorem exists_drives {s₀ : Framer} (h : s₀.AtBoundary) {f : EventFrame} (hf : f.Fits)
    (t : Nat → UInt8) : ∃ s c, Drives s₀ s f c ∧ Over c.rxPacket f.bytes t := by
  obtain ⟨hb, -⟩ := frame_run h (fillerFrame t) (fits_fillerFrame t).1
  obtain ⟨-, ho⟩ := frame_run hb f hf.1
  have his := frame_is hb hf
  have hlen : f.bytes.length ≤ 255 := by rw [f.length_bytes]; have := hf.2; omega
  have hglen : (fillerFrame t).bytes.length = 255 := by
    simp [EventFrame.length_bytes, fillerFrame]
  refine ⟨(fillerFrame t).bytes ++ f.bytes, _, ⟨?_, his⟩, fun i hi => ?_⟩
  · rw [Mealy.outputs_append, ho, ← List.append_assoc, List.getLast?_concat]
  · by_cases hif : i < f.bytes.length
    · simp [agrees_of_starts his.2 i hif, List.getD_eq_getElem?_getD,
        List.getElem?_eq_getElem hif]
    · -- Behind `f` stands what the filler left.
      have h3 : 3 ≤ i := by rw [f.length_bytes] at hif; omega
      have hn : i < 2048 := by omega
      have hst := storeAll_starts h.2 (fillerFrame t).bytes (by omega)
      have hg : (machine.after s₀ (fillerFrame t).bytes).rxPacket[i] = t i := by
        simp only [after_frame_rxPacket h (fits_fillerFrame t)]
        rw [hst.getElem (by omega), getElem_fillerFrame t h3 (by omega)]
      rw [CArray.byte_eq_getElem _ hn, completed, storeAll_getElem_ge hb.2 (by omega) (by omega) hn,
        hg]
      simp [List.getD_eq_getElem?_getD, List.getElem?_eq_none (Nat.le_of_not_lt hif)]

theorem mem_posted {p : CArray UInt8 2048} {q : QueueVar} :
    q ∈ posted p ↔ .sysMqSend q ∈ dispatch p := by
  simp only [posted, List.mem_filterMap]
  refine ⟨?_, fun h => ⟨_, h, rfl⟩⟩
  rintro ⟨a, ha, hq⟩
  cases a <;> simp_all [Action.queue?]

theorem mem_toPipe {b : UInt8} {q : QueueVar} (h : .sysMqSend q ∈ toPipe b) :
    q ∉ [QueueVar.commandRespQId, .writeRspId, .pingPktRspId] := by
  unfold toPipe at h
  (repeat' split at h) <;> simp_all

theorem commandResp_mem_writeRequestQueue {p : CArray UInt8 2048} :
    .sysMqSend .commandRespQId ∈ writeRequestQueue p ↔
      (p.byte 13 = 0x30 ∧ p.byte 14 = 0x31) ∨ p.byte 11 = 0x05 ∨ p.byte 11 = 0x09 := by
  unfold writeRequestQueue
  split
  · simp [*]
  split
  · simp [*]
  next h1 h2 =>
  refine ⟨fun h => ?_, fun h => absurd h (not_or.mpr ⟨h1, h2⟩)⟩
  split at h
  · simp at h
  split at h
  · exact absurd (mem_toPipe h) (by simp)
  · simp at h

theorem pingPkt_mem_writeRequestQueue {p : CArray UInt8 2048}
    (h1 : ¬ (p.byte 13 = 0x30 ∧ p.byte 14 = 0x31)) (h2 : ¬ (p.byte 11 = 0x05 ∨ p.byte 11 = 0x09)) :
    .sysMqSend .pingPktRspId ∈ writeRequestQueue p ↔
      p.byte 13 = 0x50 ∧ p.byte 14 = 0x42 ∧ p.byte 31 = 0x50 ∧ p.byte 32 = 0x45 := by
  rw [writeRequestQueue, if_neg h1, if_neg h2]
  split
  · simp [*]
  next h3 =>
  refine ⟨fun h => ?_, fun h => absurd h h3⟩
  split at h
  · exact absurd (mem_toPipe h) (by simp)
  · simp at h

/-- The opcodes below 256 are all reported. -/
theorem commandStatus_zero (y : UInt8) :
    commandStatus (make16OfXY 0 y) = [.sysMqSend .commandRespQId] := by
  simp [commandStatus, gattDelservice, vsAttWriteResponse, make16OfXY_eq_iff]

/-- The low byte of a code can be completed to the code. -/
theorem exists_high {y : UInt8} {c : Nat} (h : y.toNat = c % 256) (hc : c < 65536) :
    ∃ x, make16OfXY x y = c := by
  refine ⟨UInt8.ofNat (c / 256), (make16OfXY_eq_iff _ _ _).mpr ⟨?_, h⟩⟩
  exact UInt8.toNat_ofNat_of_lt' (Nat.div_lt_of_lt_mul hc)

/-- Each byte in `maskedLow` is the low byte of a masked opcode. -/
theorem exists_masked {y : UInt8} (h : y.toNat ∈ maskedLow) :
    ∃ x, make16OfXY x y ∈ maskedOpcodes := by
  have hlt : ∀ c ∈ maskedOpcodes, c < 65536 := by decide
  obtain ⟨c, hc, hy⟩ := List.mem_map.mp h
  obtain ⟨x, hx⟩ := exists_high hy.symm (hlt c hc)
  exact ⟨x, hx ▸ hc⟩

/-- Each byte in `statusLow` is the low byte of an opcode that is not reported. -/
theorem exists_quiet_opcode {y : UInt8} (h : y.toNat ∈ statusLow) :
    ∃ x, make16OfXY x y ∈ maskedOpcodes ∨
      .sysMqSend .commandRespQId ∉ commandStatus (make16OfXY x y) := by
  have hquiet : ∀ c ∈ statusOpcodes, c < 65536 ∧
      .sysMqSend .commandRespQId ∉ commandStatus c := by decide
  rcases List.mem_append.mp h with h | h
  · obtain ⟨x, hx⟩ := exists_masked h
    exact ⟨x, .inl hx⟩
  · obtain ⟨c, hc, hy⟩ := List.mem_map.mp h
    obtain ⟨x, hx⟩ := exists_high hy.symm (hquiet c hc).1
    exact ⟨x, .inr (hx ▸ (hquiet c hc).2)⟩

/-- Stale bytes that make every event with an action post, `high` as its missing high byte. -/
def loud (high : UInt8) (i : Nat) : UInt8 :=
  if i = 4 then high else if i = 8 then 0x3E else if i = 11 then 0x05 else 0

/-- The stale byte `x` in cell `i`. -/
def only (i : Nat) (x : UInt8) (j : Nat) : UInt8 := if j = i then x else 0

theorem not_masked_zero (y : UInt8) : make16OfXY 0 y ∉ maskedOpcodes := by
  simp [maskedOpcodes, make16OfXY_eq_iff]

/-- Over `loud`, an event with an action goes to the command-response queue, or is a
notification. -/
theorem commandResp_mem_of_loud {p : CArray UInt8 2048} (hv : VendorEvent p)
    (he : eventCode p ∈ actingEvents) (h7 : p.byte 7 = 0) (h8 : p.byte 8 = 0x3E)
    (h11 : p.byte 11 = 0x05) (hn : eventCode p ≠ eventVsAttHandleValueNotification) :
    .commandRespQId ∈ posted p := by
  have hm : opcode p ∉ maskedOpcodes := by rw [opcode, h7]; exact not_masked_zero _
  rw [mem_posted, dispatch_of_vendor hv hm]
  rcases actingEvents_cases he with hc | hc | hc | hc | hc
  · rw [byEvent_commandResp hc]
    exact List.mem_singleton_self _
  · rw [hc, byEvent_commandStatus, opcode, h7, commandStatus_zero]
    exact List.mem_singleton_self _
  · rw [hc, byEvent_linkTerminated, h8]
    simp [linkTerminated]
  · exact absurd hc hn
  · rw [byEvent_writeRequest hc]
    exact List.mem_append_left _ (commandResp_mem_writeRequestQueue.mpr (.inr (.inl h11)))

/-- Over `loud`, every event with an action is posted somewhere. -/
theorem posted_ne_nil_of_loud {p : CArray UInt8 2048} (hv : VendorEvent p)
    (he : eventCode p ∈ actingEvents) (h6 : p.byte 6 = 0) (h7 : p.byte 7 = 0) (h8 : p.byte 8 = 0x3E)
    (h11 : p.byte 11 = 0x05) : posted p ≠ [] := by
  by_cases hn : eventCode p = eventVsAttHandleValueNotification
  · rw [posted, dispatch_notification hv hn, h6]
    decide
  · exact List.ne_nil_of_mem (commandResp_mem_of_loud hv he h7 h8 h11 hn)

/-- The chain posts the same over any two stale contents. -/
def Blind (f : List UInt8) : Prop :=
  ∀ t₁ t₂, ∃ p q, Over p f t₁ ∧ Over q f t₂ ∧ posted p = posted q

section Cuts

variable {f : List UInt8} (hb : Blind f) (h4 : 4 ≤ f.length) (h0 : f.getD 0 0 = bleEvtPkt)
  (h1 : f.getD 1 0 = 0xFF)

include h4 h0 h1 in
theorem Over.vendor {p : CArray UInt8 2048} {t : Nat → UInt8} (h : Over p f t) :
    VendorEvent p := by
  rw [VendorEvent, h.known (by omega) (by omega), h.known (by omega) (by omega)]
  exact ⟨h0, h1⟩

theorem Over.eventCode {p : CArray UInt8 2048} {t : Nat → UInt8} (h : Over p f t)
    (h5 : 5 ≤ f.length) : eventCode p = make16OfXY (f.getD 4 0) (f.getD 3 0) := by
  rw [Ble.eventCode, h.known (by omega) (by omega), h.known (by omega) (by omega)]

theorem Over.opcode {p : CArray UInt8 2048} {t : Nat → UInt8} (h : Over p f t)
    (h7 : 7 ≤ f.length) (ht : t 7 = 0) : opcode p = make16OfXY (f.getD 7 0) (f.getD 6 0) := by
  rw [Ble.opcode, h.default ht (by omega), h.known (by omega) (by omega)]

include hb h4 h0 h1

theorem five_le {e : Nat} (he : e ∈ actingEvents) (hlow : (f.getD 3 0).toNat = e % 256) :
    5 ≤ f.length := by
  refine Nat.le_of_not_lt fun hn => ?_
  have hlt : ∀ e ∈ actingEvents, 256 ≤ e ∧ e < 65536 := by decide
  obtain ⟨x, hx⟩ := exists_high hlow (hlt e he).2
  obtain ⟨p, q, hp, hq, hpq⟩ := hb (loud x) fun _ => 0
  have hep : eventCode p = e := by
    rw [eventCode, hp.known (i := 3) (by omega) (by omega),
      hp.stale (i := 4) (by omega) (by omega)]
    exact hx
  have hquiet : posted q = [] := by
    rw [posted, dispatch_quiet, List.filterMap_nil]
    intro hin
    -- Without a high byte the code is too small.
    have hbig := (hlt _ hin).1
    rw [eventCode, make16OfXY_eq, hq.stale (i := 4) (by omega) (by omega)] at hbig
    have := (q.byte 3).toNat_lt
    simp only [UInt8.toNat_zero] at hbig
    omega
  refine posted_ne_nil_of_loud (hp.vendor h4 h0 h1) (hep.symm ▸ he) ?_ ?_ ?_ ?_ (hpq.trans hquiet)
  all_goals exact hp.stale (by omega) (by omega)

theorem seven_le (h5 : 5 ≤ f.length)
    (he : make16OfXY (f.getD 4 0) (f.getD 3 0) ∈ actingEvents) : 7 ≤ f.length := by
  refine Nat.le_of_not_lt fun hn => ?_
  obtain ⟨p, q, hp, hq, hpq⟩ := hb (loud 0) fun i => if i = 6 then 0x21 else 0xFC
  have hquiet : posted q = [] := by
    rw [posted, dispatch_of_masked, List.filterMap_nil]
    rw [opcode, hq.stale (by omega) (by omega), hq.stale (by omega) (by omega)]
    decide
  refine posted_ne_nil_of_loud (hp.vendor h4 h0 h1) ?_ ?_ ?_ ?_ ?_ (hpq.trans hquiet)
  · rwa [hp.eventCode h5]
  all_goals exact hp.stale (by omega) (by omega)

theorem eight_le (h7 : 7 ≤ f.length)
    (he : make16OfXY (f.getD 4 0) (f.getD 3 0) ∈ actingEvents)
    (hn : make16OfXY (f.getD 4 0) (f.getD 3 0) ≠ eventVsAttHandleValueNotification) {x : UInt8}
    (hx : make16OfXY x (f.getD 6 0) ∈ maskedOpcodes ∨
      make16OfXY (f.getD 4 0) (f.getD 3 0) = vsCommandStatus ∧
        .sysMqSend .commandRespQId ∉ commandStatus (make16OfXY x (f.getD 6 0))) :
    8 ≤ f.length := by
  refine Nat.le_of_not_lt fun h8 => ?_
  obtain ⟨p, q, hp, hq, hpq⟩ := hb (loud 0) fun _ => x
  have hmem : .commandRespQId ∈ posted p := by
    refine commandResp_mem_of_loud (hp.vendor h4 h0 h1) ?_ (hp.stale (by omega) (by omega))
      (hp.stale (by omega) (by omega)) (hp.stale (by omega) (by omega)) ?_
    all_goals rwa [hp.eventCode (by omega)]
  have hop : opcode q = make16OfXY x (f.getD 6 0) := by
    rw [opcode, hq.stale (i := 7) (by omega) (by omega), hq.known (i := 6) (by omega) (by omega)]
  rw [hpq, mem_posted] at hmem
  by_cases hm : make16OfXY x (f.getD 6 0) ∈ maskedOpcodes
  · rw [dispatch_of_masked] at hmem
    · cases hmem
    · rwa [hop]
  · obtain ⟨hs, hc⟩ := hx.resolve_left hm
    rw [dispatch_of_vendor (hq.vendor h4 h0 h1) (hop ▸ hm), hq.eventCode (by omega), hs,
      byEvent_commandStatus, hop] at hmem
    exact hc hmem

theorem nine_le (h7 : 7 ≤ f.length)
    (he : make16OfXY (f.getD 4 0) (f.getD 3 0) = vsGapLinkTerminated)
    (hm : make16OfXY (f.getD 7 0) (f.getD 6 0) ∉ maskedOpcodes) : 9 ≤ f.length := by
  refine Nat.le_of_not_lt fun h9 => ?_
  obtain ⟨p, q, hp, hq, hpq⟩ := hb (only 8 0x3E) (only 8 0)
  have hmem : ∀ r t x, Over r f t → t = only 8 x →
      (.commandRespQId ∈ posted r ↔ x = 0x3E) := by
    rintro r _ x hr rfl
    rw [mem_posted, dispatch_of_vendor (hr.vendor h4 h0 h1) (by rwa [hr.opcode h7 rfl]),
      hr.eventCode (by omega), he, byEvent_linkTerminated, hr.stale (i := 8) (by omega) (by omega)]
    simp [linkTerminated, only]
  have := (hmem q _ 0 hq rfl).mp (hpq ▸ (hmem p _ 0x3E hp rfl).mpr rfl)
  exact absurd this (by decide)

end Cuts

/-! ### Write requests -/

section WriteCuts

variable {f : List UInt8} (hb : Blind f) (h0 : f.getD 0 0 = bleEvtPkt) (h1 : f.getD 1 0 = 0xFF)
  (he : make16OfXY (f.getD 4 0) (f.getD 3 0) ∈ writeRequestEvents)
  (hm : make16OfXY (f.getD 7 0) (f.getD 6 0) ∉ maskedOpcodes)

include h0 h1 he hm in
theorem Over.mem_posted_write {p : CArray UInt8 2048} {t : Nat → UInt8} (hp : Over p f t)
    (h7 : 7 ≤ f.length) (ht : t 7 = 0) {q : QueueVar} :
    q ∈ posted p ↔ .sysMqSend q ∈ writeRequestQueue p := by
  rw [mem_posted, dispatch_of_vendor (hp.vendor (by omega) h0 h1) (by rwa [hp.opcode h7 ht]),
    hp.eventCode (by omega), byEvent_writeRequest he]
  simp

/-- Without stale bytes only the frame itself names the command-response queue. -/
theorem Over.no_commandResp {q : CArray UInt8 2048} (hq : Over q f fun _ => 0)
    (h11 : ¬ (f.getD 11 0 = 0x05 ∨ f.getD 11 0 = 0x09))
    (h13 : ¬ (f.getD 13 0 = 0x30 ∧ f.getD 14 0 = 0x31)) :
    .sysMqSend .commandRespQId ∉ writeRequestQueue q := by
  rw [commandResp_mem_writeRequestQueue, hq.default rfl (by omega), hq.default rfl (by omega),
    hq.default rfl (by omega)]
  exact not_or.mpr ⟨h13, h11⟩

/-- A write of `50 …` is a ping if the three further cells say so. -/
theorem Over.ping_iff {p : CArray UInt8 2048} {t : Nat → UInt8} (hp : Over p f t)
    (h14 : 14 ≤ f.length) (h11 : ¬ (f.getD 11 0 = 0x05 ∨ f.getD 11 0 = 0x09))
    (h13 : f.getD 13 0 = 0x50) :
    .sysMqSend .pingPktRspId ∈ writeRequestQueue p ↔
      p.byte 14 = 0x42 ∧ p.byte 31 = 0x50 ∧ p.byte 32 = 0x45 := by
  have hp13 := (hp.known (i := 13) (by omega) (by omega)).trans h13
  rw [pingPkt_mem_writeRequestQueue, hp13]
  · exact and_iff_right rfl
  · rw [hp13]
    exact fun h => absurd h.1 (by decide)
  · rwa [hp.known (by omega) (by omega)]

include hb h0 h1 he hm

/-- The queue `v` cannot depend on stale bytes. -/
theorem blind_write (h7 : 7 ≤ f.length) (t : Nat → UInt8) (ht : t 7 = 0) (v : QueueVar) :
    ∃ p q, Over p f t ∧ Over q f (fun _ => 0) ∧
      (.sysMqSend v ∈ writeRequestQueue p ↔ .sysMqSend v ∈ writeRequestQueue q) := by
  obtain ⟨p, q, hp, hq, hpq⟩ := hb t fun _ => 0
  refine ⟨p, q, hp, hq, ?_⟩
  rw [← hp.mem_posted_write h0 h1 he hm h7 ht, ← hq.mem_posted_write h0 h1 he hm h7 rfl, hpq]

theorem twelve_le (h7 : 7 ≤ f.length) : 12 ≤ f.length := by
  refine Nat.le_of_not_lt fun h12 => ?_
  obtain ⟨p, q, hp, hq, hpq⟩ := blind_write hb h0 h1 he hm h7 (only 11 0x05) rfl .commandRespQId
  have hp11 := hp.stale (i := 11) (by omega) (by omega)
  refine hq.no_commandResp ?_ ?_ (hpq.mp (commandResp_mem_writeRequestQueue.mpr (.inr (.inl hp11))))
  · rw [getD_of_length_le (by omega)]
    decide
  · rw [getD_of_length_le (i := 13) (by omega)]
    exact fun h => absurd h.1 (by decide)

variable (h11 : ¬ (f.getD 11 0 = 0x05 ∨ f.getD 11 0 = 0x09))

include h11

theorem fourteen_le (h12 : 12 ≤ f.length) : 14 ≤ f.length := by
  refine Nat.le_of_not_lt fun h14 => ?_
  obtain ⟨p, q, hp, hq, hpq⟩ := blind_write hb h0 h1 he hm (by omega)
    (fun i => if i = 13 then 0x30 else if i = 14 then 0x31 else 0) rfl .commandRespQId
  have hp13 := hp.stale (i := 13) (by omega) (by omega)
  have hp14 := hp.stale (i := 14) (by omega) (by omega)
  refine hq.no_commandResp h11 ?_
    (hpq.mp (commandResp_mem_writeRequestQueue.mpr (.inl ⟨hp13, hp14⟩)))
  rw [getD_of_length_le (i := 13) (by omega)]
  exact fun h => absurd h.1 (by decide)

theorem fifteen_le (h14 : 14 ≤ f.length) (h13 : f.getD 13 0 = 0x30 ∨ f.getD 13 0 = 0x50) :
    15 ≤ f.length := by
  refine Nat.le_of_not_lt fun h15 => ?_
  have hb14 : f.getD 14 0 = 0 := getD_of_length_le (by omega)
  rcases h13 with h13 | h13
  · obtain ⟨p, q, hp, hq, hpq⟩ := blind_write hb h0 h1 he hm (by omega) (only 14 0x31) rfl
      .commandRespQId
    have hp13 := (hp.known (i := 13) (by omega) (by omega)).trans h13
    have hp14 := hp.stale (i := 14) (by omega) (by omega)
    refine hq.no_commandResp h11 ?_
      (hpq.mp (commandResp_mem_writeRequestQueue.mpr (.inl ⟨hp13, hp14⟩)))
    rw [hb14]
    exact fun h => absurd h.2 (by decide)
  · obtain ⟨p, q, hp, hq, hpq⟩ := blind_write hb h0 h1 he hm (by omega)
      (fun i => if i = 14 then 0x42 else if i = 31 then 0x50 else if i = 32 then 0x45 else 0) rfl
      .pingPktRspId
    have h := hpq.mp ((hp.ping_iff (by omega) h11 h13).mpr ⟨hp.stale (by omega) (by omega),
      hp.stale (by omega) (by omega), hp.stale (by omega) (by omega)⟩)
    have hq14 := ((hq.ping_iff (by omega) h11 h13).mp h).1
    rw [hq.default rfl (by omega), hb14] at hq14
    exact absurd hq14 (by decide)

variable (h13 : f.getD 13 0 = 0x50) (h14 : f.getD 14 0 = 0x42)

include h13 h14

theorem thirtyTwo_le (h15 : 15 ≤ f.length) : 32 ≤ f.length := by
  refine Nat.le_of_not_lt fun h32 => ?_
  obtain ⟨p, q, hp, hq, hpq⟩ := blind_write hb h0 h1 he hm (by omega)
    (fun i => if i = 31 then 0x50 else if i = 32 then 0x45 else 0) rfl .pingPktRspId
  have h := hpq.mp ((hp.ping_iff (by omega) h11 h13).mpr
    ⟨(hp.known (by omega) (by omega)).trans h14, hp.stale (by omega) (by omega),
      hp.stale (by omega) (by omega)⟩)
  have hq31 := ((hq.ping_iff (by omega) h11 h13).mp h).2.1
  rw [hq.stale (by omega) (by omega)] at hq31
  exact absurd hq31 (by decide)

theorem thirtyThree_le (h32 : 32 ≤ f.length) (h31 : f.getD 31 0 = 0x50) : 33 ≤ f.length := by
  refine Nat.le_of_not_lt fun h33 => ?_
  obtain ⟨p, q, hp, hq, hpq⟩ := blind_write hb h0 h1 he hm (by omega) (only 32 0x45) rfl
    .pingPktRspId
  have h := hpq.mp ((hp.ping_iff (by omega) h11 h13).mpr
    ⟨(hp.known (by omega) (by omega)).trans h14, (hp.known (by omega) (by omega)).trans h31,
      hp.stale (by omega) (by omega)⟩)
  have hq32 := ((hq.ping_iff (by omega) h11 h13).mp h).2.2
  rw [hq.stale (by omega) (by omega)] at hq32
  exact absurd hq32 (by decide)

end WriteCuts

/-! ## Exactly the long enough frames -/

theorem writeBytesRead_le_of_blind {f : List UInt8} (hb : Blind f) (h0 : f.getD 0 0 = bleEvtPkt)
    (h1 : f.getD 1 0 = 0xFF) (he : make16OfXY (f.getD 4 0) (f.getD 3 0) ∈ writeRequestEvents)
    (hm : make16OfXY (f.getD 7 0) (f.getD 6 0) ∉ maskedOpcodes) (h7 : 7 ≤ f.length) :
    writeBytesRead (f.getD · 0) ≤ f.length := by
  have h12 := twelve_le hb h0 h1 he hm h7
  unfold writeBytesRead
  split
  · exact h12
  next h11 =>
  have h14 := fourteen_le hb h0 h1 he hm h11 h12
  split
  · exact h14
  next h13 =>
  have h15 := fifteen_le hb h0 h1 he hm h11 h14 (by
    rw [← Decidable.not_not (p := f.getD 13 0 = 0x30 ∨ _), not_or]
    exact h13)
  split
  · exact h15
  next h50 =>
  obtain ⟨hb13, hb14⟩ := Decidable.of_not_not h50
  have h32 := thirtyTwo_le hb h0 h1 he hm h11 hb13 hb14 h15
  split
  · exact h32
  next h31 =>
  exact thirtyThree_le hb h0 h1 he hm h11 hb13 hb14 h32 (Decidable.of_not_not h31)

theorem eventBytesRead_le_of_blind {f : List UInt8} (hb : Blind f) (h0 : f.getD 0 0 = bleEvtPkt)
    (h1 : f.getD 1 0 = 0xFF) (he : make16OfXY (f.getD 4 0) (f.getD 3 0) ∈ actingEvents)
    (hm : make16OfXY (f.getD 7 0) (f.getD 6 0) ∉ maskedOpcodes) (h5 : 5 ≤ f.length) :
    eventBytesRead (make16OfXY (f.getD 4 0) (f.getD 3 0)) (f.getD · 0) ≤ f.length := by
  have h7 := seven_le hb (by omega) h0 h1 h5 he
  unfold eventBytesRead
  split
  · next hc =>
    split
    · next hl =>
      obtain ⟨x, hx⟩ := exists_masked hl
      refine eight_le hb (by omega) h0 h1 h7 he ?_ (.inl hx)
      intro h
      rw [h] at hc
      exact absurd hc (by decide)
    · exact h7
  split
  · next hc =>
    split
    · next hl =>
      obtain ⟨x, hx⟩ := exists_quiet_opcode hl
      exact eight_le hb (by omega) h0 h1 h7 he (by rw [hc]; decide) (hx.imp_right fun h => ⟨hc, h⟩)
    · exact h7
  split
  · next hc => exact nine_le hb (by omega) h0 h1 h7 hc hm
  split
  · exact h7
  next h1' h2' h3' h4' =>
  have hw := ((((actingEvents_cases he).resolve_left h1').resolve_left h2').resolve_left
    h3').resolve_left h4'
  exact writeBytesRead_le_of_blind hb h0 h1 hw hm h7

theorem bytesRead_le_of_blind {f : List UInt8} (hb : Blind f) (h4 : 4 ≤ f.length)
    (h0 : f.getD 0 0 = bleEvtPkt) : bytesRead f ≤ f.length := by
  unfold bytesRead
  dsimp only
  split
  · omega
  next h1 =>
  replace h1 := Decidable.of_not_not h1
  split
  · exact h4
  next hlow =>
  have h5 : 5 ≤ f.length := by
    simp only [Classical.not_forall, Decidable.not_not, ne_eq] at hlow
    obtain ⟨e, he, hlow⟩ := hlow
    exact five_le hb h4 h0 h1 he hlow.symm
  split
  · exact h5
  next he =>
  split
  · next hm =>
    -- A masked opcode has a high byte that is not 0.
    refine Nat.le_of_not_lt fun h8 => ?_
    rw [getD_of_length_le (i := 7) (by omega)] at hm
    exact not_masked_zero _ hm
  next hm =>
  exact eventBytesRead_le_of_blind hb h0 h1 (Decidable.of_not_not he) hm h5

/-- A dispatcher that always does the same for `f` is blind to stale bytes. -/
theorem blind_of_sameDispatch {s₀ : Framer} (h : s₀.AtBoundary) {f : EventFrame} (hf : f.Fits)
    (hs : SameDispatch s₀ f) : Blind f.bytes := by
  intro t₁ t₂
  obtain ⟨s₁, c₁, hd₁, ho₁⟩ := exists_drives h hf t₁
  obtain ⟨s₂, c₂, hd₂, ho₂⟩ := exists_drives h hf t₂
  exact ⟨_, _, ho₁, ho₂, congrArg Performed.posted (hs s₁ s₂ c₁ c₂ hd₁ hd₂ .zero)⟩

theorem four_le_length {f : EventFrame} (hf : f.Fits) : 4 ≤ f.bytes.length := by
  rw [f.length_bytes]
  have := hf.1
  omega

theorem sameDispatch_of_bytesRead {s₀ : Framer} {f : EventFrame}
    (h : bytesRead f.bytes ≤ f.bytes.length) : SameDispatch s₀ f := by
  intro s₁ s₂ c₁ c₂ hd₁ hd₂ w
  have hd := dispatch_eq_of_bytesRead rfl hd₁.2.2 hd₂.2.2 h
  simp only [performed, posted, hd]

theorem bytesRead_of_sameDispatch {s₀ : Framer} (hs₀ : s₀.AtBoundary) {f : EventFrame}
    (hf : f.Fits) (h : SameDispatch s₀ f) : bytesRead f.bytes ≤ f.bytes.length :=
  bytesRead_le_of_blind (blind_of_sameDispatch hs₀ hf h) (four_le_length hf) rfl

/-- **Dispatch by the frame alone.** From the thread's initial state, what is done for a fitting
frame is the same after every stream if and only if the frame is as long as the part of the packet
that the chain looks at. -/
theorem sameDispatch_iff (count : Int) (rxPacket : CArray UInt8 2048) (f : EventFrame)
    (hf : f.Fits) : SameDispatch (start count rxPacket) f ↔ bytesRead f.bytes ≤ f.bytes.length :=
  ⟨bytesRead_of_sameDispatch (atBoundary_start _ _) hf, sameDispatch_of_bytesRead⟩

/-- The link-established frame `04 FF 07 05 06 …` has all that its branch looks at. -/
theorem sameDispatch_linkEstablished :
    SameDispatch (start 0 (Vector.replicate 2048 0))
      ⟨0xFF, [0x05, 0x06, 0x00, 0x01, 0x02, 0x03, 0x04], by decide⟩ :=
  (sameDispatch_iff 0 _ _ (by decide)).mpr (by decide)

/-- The frame `04 FF 01 01`: the chain takes the high byte of its event code from an earlier
frame. -/
theorem not_sameDispatch_short : ¬ ∀ (count : Int) (rxPacket : CArray UInt8 2048) (f : EventFrame),
    f.Fits → SameDispatch (start count rxPacket) f := by
  intro h
  have hs := h 0 (Vector.replicate 2048 0) ⟨0xFF, [0x01], by decide⟩ (by decide)
  exact absurd (bytesRead_of_sameDispatch (atBoundary_start _ _) (by decide) hs) (by decide)

end Ble
