import BleGateway.Framer

/-!
# Packets on the wire

What the bytes on the UART mean, without the framer: event packets `04 code L p₁ … p_L` with
arbitrary bytes between them. The framer is then run against this description.

* `EventFrame`: a packet that the length byte can express. `Fits` are the lengths that the 8-bit
  `index` counts exactly.
* `packet_run`: from a packet boundary, or behind a run of `0x02` bytes, the framer consumes a
  header and `max L 1` parameter bytes and completes once.
* `items_run`: any list of noise bytes and fitting frames is delivered frame by frame, each at its
  own last byte.
* `handledExactly_iff_fits`: a single frame is consumed exactly if and only if it fits. `L = 0`
  takes one byte too many, `L ≥ 253` wraps `index`.
-/

namespace Ble

/-- An event packet. -/
structure EventFrame where
  code : UInt8
  params : List UInt8
  le : params.length ≤ 255
  deriving DecidableEq, Repr

namespace EventFrame

/-- The packet on the wire. -/
def bytes (f : EventFrame) : List UInt8 :=
  bleEvtPkt :: f.code :: UInt8.ofNat f.params.length :: f.params

/-- The parameter lengths that `index` and `count` handle exactly. -/
def Fits (f : EventFrame) : Prop := 1 ≤ f.params.length ∧ f.params.length ≤ 252

instance (f : EventFrame) : Decidable f.Fits :=
  inferInstanceAs (Decidable (1 ≤ f.params.length ∧ f.params.length ≤ 252))

theorem length_bytes (f : EventFrame) : f.bytes.length = 3 + f.params.length := by
  simp [bytes]; omega

theorem toNat_length (f : EventFrame) :
    (UInt8.ofNat f.params.length).toNat = f.params.length := by
  have := f.le
  rw [UInt8.toNat_ofNat_of_lt' (by simp [UInt8.size]; omega)]

end EventFrame

/-- The completed packet is `l`: `index` is its length and `rx_packet[0..index)` its bytes. -/
def Completed.Is (c : Completed) (l : List UInt8) : Prop :=
  c.index.toNat = l.length ∧ CArray.Starts c.rxPacket l

namespace Framer

/-! ## One packet -/

/-- The states in which `0x04` starts a packet. -/
def Ready (s : Framer) : Prop := s.AtBoundary ∨ s.currentState = .init

theorem rxByte_ready_evt {s : Framer} (h : s.Ready) :
    rxByte s bleEvtPkt = ({ s.store bleEvtPkt with currentState := .eventResponse }, none) :=
  h.elim rxByte_idle_evt rxByte_init_evt

/-- The packet as it stands in `rx_packet` after `bs` were stored. -/
def completed (s : Framer) (bs : List UInt8) : Completed :=
  ⟨(s.storeAll bs).rxPacket, (s.storeAll bs).index⟩

theorem completed_is {s : Framer} (h0 : s.index = 0) {bs : List UInt8} (hl : bs.length ≤ 255) :
    (s.completed bs).Is bs := by
  refine ⟨?_, storeAll_starts h0 bs (by omega)⟩
  rw [completed, toNat_storeAll_index, h0]
  exact (Nat.mod_eq_of_lt (by simpa using Nat.lt_succ_of_le hl)).trans (Nat.zero_add _)

/-- The three header bytes. -/
theorem header_run {s : Framer} (h : s.Ready) (code len : UInt8) :
    machine.after s [bleEvtPkt, code, len] =
        { s.storeAll [bleEvtPkt, code, len] with
          currentState := .packetWait, count := len.toNat } ∧
      machine.outputs s [bleEvtPkt, code, len] = [none, none, none] := by
  have h1 := rxByte_ready_evt h
  have h2 := rxByte_eventResponse
    (s := { s.store bleEvtPkt with currentState := .eventResponse }) rfl code
  have h3 := rxByte_eventLength
    (s := { ({ s.store bleEvtPkt with currentState := .eventResponse } : Framer).store code with
      currentState := .eventLength }) rfl len
  simp only [Mealy.after_cons, Mealy.after_nil, Mealy.outputs_cons, Mealy.outputs_nil,
    machine_step, h1, h2, h3, and_true]
  rfl

/-- A header and all its parameter bytes. A length byte 0 still takes one byte. -/
theorem packet_run {s : Framer} (h : s.Ready) (code len : UInt8) (ps : List UInt8)
    (hps : ps.length = max len.toNat 1) :
    machine.after s (bleEvtPkt :: code :: len :: ps) =
        { s.storeAll (bleEvtPkt :: code :: len :: ps) with
          currentState := .idle, index := 0, count := 0 } ∧
      machine.outputs s (bleEvtPkt :: code :: len :: ps) =
        List.replicate (2 + ps.length) none ++
          [some (s.completed (bleEvtPkt :: code :: len :: ps))] := by
  obtain ⟨ha, ho⟩ := header_run h code len
  have hw : (machine.after s [bleEvtPkt, code, len]).currentState = .packetWait := by rw [ha]
  have hc : (machine.after s [bleEvtPkt, code, len]).count = len.toNat := by rw [ha]
  obtain ⟨ha', ho'⟩ := packet_wait_run hw ps (by rw [hc, hps]; omega)
  have hsplit : bleEvtPkt :: code :: len :: ps = [bleEvtPkt, code, len] ++ ps := rfl
  have hst := storeAll_with (s.storeAll [bleEvtPkt, code, len]) .packetWait len.toNat ps
  have h3 : 2 + ps.length = 3 + (ps.length - 1) := by omega
  rw [hsplit, Mealy.after_append, Mealy.outputs_append, ha', ho', ho, ha, hst, completed,
    storeAll_append]
  refine ⟨rfl, ?_⟩
  rw [h3, ← List.replicate_append_replicate]
  simp [List.replicate]

/-- A header and fewer parameter bytes than it announces. -/
theorem packet_open {s : Framer} (h : s.Ready) (code len : UInt8) (ps : List UInt8)
    (hps : ps.length < max len.toNat 1) :
    (machine.after s (bleEvtPkt :: code :: len :: ps)).currentState = .packetWait ∧
      (machine.after s (bleEvtPkt :: code :: len :: ps)).count = (len.toNat : Int) - ps.length ∧
      machine.outputs s (bleEvtPkt :: code :: len :: ps) = List.replicate (3 + ps.length) none := by
  obtain ⟨ha, ho⟩ := header_run h code len
  have hw : (machine.after s [bleEvtPkt, code, len]).currentState = .packetWait := by rw [ha]
  have hc : (machine.after s [bleEvtPkt, code, len]).count = len.toNat := by rw [ha]
  obtain ⟨ha', ho'⟩ := packet_wait_open hw ps (by rw [hc]; omega)
  have hsplit : bleEvtPkt :: code :: len :: ps = [bleEvtPkt, code, len] ++ ps := rfl
  rw [hsplit, Mealy.after_append, Mealy.outputs_append, ha', ho', ho]
  refine ⟨by simpa using hw, by rw [hc], ?_⟩
  rw [← List.replicate_append_replicate]
  simp [List.replicate]

/-- A frame with at least one parameter byte ends at its own last byte. -/
theorem frame_run {s : Framer} (h : s.AtBoundary) (f : EventFrame) (h1 : 1 ≤ f.params.length) :
    (machine.after s f.bytes).AtBoundary ∧
      machine.outputs s f.bytes =
        List.replicate (2 + f.params.length) none ++ [some (s.completed f.bytes)] := by
  obtain ⟨ha, ho⟩ := packet_run (.inl h) f.code (UInt8.ofNat f.params.length) f.params
    (by rw [f.toNat_length]; omega)
  exact ⟨by rw [EventFrame.bytes, ha]; exact ⟨rfl, rfl⟩, ho⟩

theorem frame_is {s : Framer} (h : s.AtBoundary) {f : EventFrame} (hf : f.Fits) :
    (s.completed f.bytes).Is f.bytes :=
  completed_is h.2 (by rw [f.length_bytes]; have := hf.2; omega)

/-- The packets that the bytes `bs` complete. -/
def arriving (s : Framer) (bs : List UInt8) : List Completed :=
  (machine.outputs s bs).filterMap id

theorem arriving_cons (s : Framer) (b : UInt8) (bs : List UInt8) :
    arriving s (b :: bs) = (rxByte s b).2.toList ++ arriving (rxByte s b).1 bs := by
  unfold arriving
  rw [Mealy.outputs_cons, machine_step]
  cases (rxByte s b).2 <;> rfl

theorem arriving_append (s : Framer) (bs cs : List UInt8) :
    arriving s (bs ++ cs) = arriving s bs ++ arriving (machine.after s bs) cs := by
  unfold arriving
  rw [Mealy.outputs_append, List.filterMap_append]

end Framer

open Framer

/-! ## Whole streams -/

/-- A piece of a stream: a byte that starts no packet, or a frame. -/
inductive Item where
  | noise (b : UInt8) (h2 : b ≠ bleAsdPkt) (h4 : b ≠ bleEvtPkt)
  | frame (f : EventFrame) (h : f.Fits)

/-- The item on the wire. -/
def Item.bytes : Item → List UInt8
  | .noise b _ _ => [b]
  | .frame f _ => f.bytes

/-- The outputs, one per byte, that deliver the items: nothing for noise, and for a frame nothing
before its last byte and then the frame. -/
def Delivers : List Item → List (Option Completed) → Prop
  | [], os => os = []
  | .noise .. :: is, os => ∃ os', os = none :: os' ∧ Delivers is os'
  | .frame f _ :: is, os => ∃ c os', c.Is f.bytes ∧ Delivers is os' ∧
      os = List.replicate (2 + f.params.length) none ++ some c :: os'

/-- Noise leaves the framer at the boundary. -/
theorem noise_run {s : Framer} (h : s.AtBoundary) {b : UInt8} (h2 : b ≠ bleAsdPkt)
    (h4 : b ≠ bleEvtPkt) :
    (rxByte s b).1.AtBoundary ∧ (rxByte s b).2 = none := by
  rw [rxByte_idle_noise h h2 h4]
  exact ⟨⟨h.1, rfl⟩, rfl⟩

/-- From any boundary, a stream of items is delivered and ends at a boundary. -/
theorem items_run {s : Framer} (h : s.AtBoundary) (is : List Item) :
    Delivers is (machine.outputs s (is.flatMap Item.bytes)) ∧
      (machine.after s (is.flatMap Item.bytes)).AtBoundary := by
  induction is generalizing s with
  | nil => exact ⟨rfl, h⟩
  | cons i is ih =>
    cases i with
    | noise b h2 h4 =>
      obtain ⟨hb, hn⟩ := noise_run h h2 h4
      obtain ⟨hd, he⟩ := ih hb
      exact ⟨⟨_, by simp only [List.flatMap_cons, Item.bytes, List.singleton_append,
        Mealy.outputs_cons, machine_step, hn], hd⟩, he⟩
    | frame f hf =>
      obtain ⟨hb, ho⟩ := frame_run h f hf.1
      obtain ⟨hd, he⟩ := ih hb
      rw [List.flatMap_cons, Mealy.outputs_append, Mealy.after_append]
      refine ⟨⟨s.completed f.bytes, _, frame_is h hf, hd, ?_⟩, he⟩
      simp only [Item.bytes, ho, List.append_assoc, List.singleton_append]

/-- **Framing is exact.** From the thread's initial state, with `count` and `rx_packet` arbitrary,
every stream of noise bytes and fitting frames is delivered frame by frame and ends at a packet
boundary. -/
theorem framing_exact (count : Int) (rxPacket : CArray UInt8 2048) (is : List Item) :
    Delivers is (machine.outputs (start count rxPacket) (is.flatMap Item.bytes)) ∧
      (machine.after (start count rxPacket) (is.flatMap Item.bytes)).AtBoundary :=
  items_run (atBoundary_start count rxPacket) is

/-! ## Every length byte -/

/-- The framer consumes exactly the bytes of `f` in front of `t`: it completes once, at the last
byte of `f`, with `f` in the buffer, and reads the first byte of `t` at a packet boundary. -/
def HandledExactly (s : Framer) (f : EventFrame) (t : List UInt8) : Prop :=
  ∃ c, (machine.outputs s (f.bytes ++ t)).take (3 + f.params.length) =
      List.replicate (2 + f.params.length) none ++ [some c] ∧
    c.Is f.bytes ∧ (machine.after s f.bytes).AtBoundary

theorem take_outputs_frame (s : Framer) (f : EventFrame) (t : List UInt8) :
    (machine.outputs s (f.bytes ++ t)).take (3 + f.params.length) = machine.outputs s f.bytes := by
  have hl : (machine.outputs s f.bytes).length = 3 + f.params.length := by
    rw [Mealy.length_outputs, f.length_bytes]
  rw [Mealy.outputs_append, ← hl, List.take_left]

theorem handledExactly_of_fits {s : Framer} (h : s.AtBoundary) {f : EventFrame} (hf : f.Fits)
    (t : List UInt8) : HandledExactly s f t := by
  unfold HandledExactly
  rw [take_outputs_frame]
  obtain ⟨hb, ho⟩ := frame_run h f hf.1
  exact ⟨_, ho, frame_is h hf, hb⟩

theorem fits_of_handledExactly {s : Framer} (h : s.AtBoundary) {f : EventFrame} {t : List UInt8}
    (hh : HandledExactly s f t) : f.Fits := by
  unfold HandledExactly at hh
  rw [take_outputs_frame] at hh
  obtain ⟨c, ho, hc, -⟩ := hh
  by_cases h1 : 1 ≤ f.params.length
  · -- The packet completes in time, but `index` has only eight bits.
    obtain ⟨-, ho'⟩ := frame_run h f h1
    rw [ho'] at ho
    obtain ⟨-, hcc⟩ := List.append_inj ho rfl
    have hix := hc.1
    cases hcc
    rw [completed, toNat_storeAll_index, h.2, f.length_bytes] at hix
    have hz : (0 : UInt8).toNat = 0 := rfl
    exact ⟨h1, by omega⟩
  · -- `L = 0`: the framer waits for one more byte.
    have hl : f.params = [] := List.eq_nil_of_length_eq_zero (by omega)
    obtain ⟨-, -, ho'⟩ := packet_open (.inl h) f.code (UInt8.ofNat f.params.length)
      f.params (by rw [f.toNat_length]; omega)
    have hlast := congrArg List.getLast? (ho'.symm.trans ho)
    rw [hl] at hlast
    simp [List.replicate] at hlast

/-- **Every length byte.** At a packet boundary a frame is handled exactly if and only if its
length byte is in `1..252`, whatever follows it. -/
theorem handledExactly_iff_fits {s : Framer} (h : s.AtBoundary) (f : EventFrame)
    (t : List UInt8) : HandledExactly s f t ↔ f.Fits :=
  ⟨fits_of_handledExactly h, fun hf => handledExactly_of_fits h hf t⟩

/-- The frame `04 0E 01 00` in front of `04`. -/
theorem handledExactly_iff_fits_one :
    HandledExactly (start 0 (Vector.replicate 2048 0)) ⟨0x0E, [0x00], by decide⟩ [0x04] :=
  (handledExactly_iff_fits (atBoundary_start 0 _) _ _).mpr (by decide)

/-- The shortest frame that is not handled exactly is `04 0E 00`. -/
theorem not_handledExactly_empty : ¬ ∀ (s : Framer), s.AtBoundary → ∀ (f : EventFrame)
    (t : List UInt8), HandledExactly s f t := by
  intro h
  have hf := fits_of_handledExactly (atBoundary_start 0 (Vector.replicate 2048 0))
    (h _ (atBoundary_start 0 _) ⟨0x0E, [], by decide⟩ [])
  exact absurd hf (by decide)

end Ble
