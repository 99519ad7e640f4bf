import BleGateway.Wire

/-!
# Finding the next packet boundary

A stream may break off inside a packet, or hold bytes that are no packet at all. Zero bytes after
it bring the framer back to a boundary unless it is in `STATE_INIT` or `STATE_ERROR`: the first is
entered by a byte `0x02`, kept by more of them and left by `0x04`; any other byte there leads to
the second, which has no case in the switch and is never left.

* `Synced`: outside a packet, a byte `0x02` is followed by `0x02` or `0x04`.
* `zeros_run`: after 258 zero bytes the framer is at a boundary if the stream is `Synced`, and in
  `STATE_ERROR` if it is not.
* `resynchronises_iff`: so `Synced` is exactly what lets the framer find the next frame.
-/

namespace Ble

open Framer

/-- Outside a packet, every `0x02` is followed by `0x02` or `0x04`. A packet `04 code L …` is
passed over with its `max L 1` parameter bytes; the last one may be incomplete. -/
def Synced : List UInt8 → Prop
  | [] => True
  | b :: s =>
    if b = bleEvtPkt then
      match s with
      | _ :: len :: ps => Synced (ps.drop (max len.toNat 1))
      | _ => True
    else (b = bleAsdPkt → s.head? = some bleAsdPkt ∨ s.head? = some bleEvtPkt) ∧ Synced s
termination_by s => s.length
decreasing_by all_goals simp +arith

/-- `k` bytes `0x00`. -/
abbrev zeros (k : Nat) : List UInt8 := List.replicate k 0

/-- No bytes whatsoever complete another packet. -/
def Trapped (s : Framer) : Prop := ∀ more, ∀ o ∈ machine.outputs s more, o = none

/-- The frame `f` is completed intact at its own last byte. -/
def Intact (s : Framer) (f : EventFrame) : Prop :=
  ∃ c, machine.outputs s f.bytes = List.replicate (2 + f.params.length) none ++ [some c] ∧
    c.Is f.bytes

/-- After the bytes `s` and 258 zero bytes the framer is at a boundary and completes the next
fitting frame; so the state after `s` was no trap. -/
def Resynchronises (s₀ : Framer) (s : List UInt8) : Prop :=
  (machine.after s₀ (s ++ zeros 258)).AtBoundary ∧
    (∀ f : EventFrame, f.Fits → Intact (machine.after s₀ (s ++ zeros 258)) f) ∧
    ¬ Trapped (machine.after s₀ s)

namespace Framer

theorem after_error {s : Framer} (h : s.currentState = .error) (bs : List UInt8) :
    machine.after s bs = s := by
  induction bs with
  | nil => rfl
  | cons b bs ih => rw [Mealy.after_cons, machine_step, rxByte_error h, ih]

theorem trapped_of_error {s : Framer} (h : s.currentState = .error) : Trapped s := by
  intro more
  induction more with
  | nil => intro o ho; cases ho
  | cons b bs ih =>
    intro o ho
    rw [Mealy.outputs_cons, machine_step, rxByte_error h] at ho
    rcases List.mem_cons.mp ho with rfl | ho
    · rfl
    · exact ih o ho

theorem intact_of_atBoundary {s : Framer} (h : s.AtBoundary) {f : EventFrame} (hf : f.Fits) :
    Intact s f :=
  ⟨_, (frame_run h f hf.1).2, frame_is h hf⟩

/-! ## Zero bytes -/

theorem zeros_boundary {s : Framer} (h : s.AtBoundary) (k : Nat) :
    (machine.after s (zeros k)).AtBoundary := by
  induction k generalizing s with
  | zero => exact h
  | succ k ih =>
    rw [zeros, List.replicate_succ, Mealy.after_cons]
    exact ih (noise_run h (by decide) (by decide)).1

/-- Zero bytes complete an open packet. -/
theorem zeros_packetWait {s : Framer} (h : s.currentState = .packetWait) {k : Nat}
    (hk : max s.count 1 ≤ k) : (machine.after s (zeros k)).AtBoundary := by
  have hsplit : k = (max s.count 1).toNat + (k - (max s.count 1).toNat) := by omega
  rw [hsplit, zeros, ← List.replicate_append_replicate, Mealy.after_append]
  refine zeros_boundary ?_ _
  rw [(packet_wait_run h _ (by rw [List.length_replicate]; omega)).1]
  exact ⟨rfl, rfl⟩

theorem zeros_eventLength {s : Framer} (h : s.currentState = .eventLength) {k : Nat}
    (hk : 2 ≤ k) : (machine.after s (zeros k)).AtBoundary := by
  obtain ⟨k, rfl⟩ : ∃ j, k = j + 1 := ⟨k - 1, by omega⟩
  rw [zeros, List.replicate_succ, Mealy.after_cons, machine_step, rxByte_eventLength h]
  exact zeros_packetWait rfl (by simp only [UInt8.toNat_zero]; omega)

theorem zeros_eventResponse {s : Framer} (h : s.currentState = .eventResponse) {k : Nat}
    (hk : 3 ≤ k) : (machine.after s (zeros k)).AtBoundary := by
  obtain ⟨k, rfl⟩ : ∃ j, k = j + 1 := ⟨k - 1, by omega⟩
  rw [zeros, List.replicate_succ, Mealy.after_cons, machine_step, rxByte_eventResponse h]
  exact zeros_eventLength rfl (by omega)

theorem zeros_init {s : Framer} (h : s.currentState = .init) {k : Nat} (hk : 0 < k) :
    (machine.after s (zeros k)).currentState = .error := by
  obtain ⟨k, rfl⟩ : ∃ j, k = j + 1 := ⟨k - 1, by omega⟩
  rw [zeros, List.replicate_succ, Mealy.after_cons, machine_step,
    rxByte_init_other h (by decide) (by decide), after_error rfl]

/-- Where the stream `s` and zero bytes after it lead: to a boundary if `p`, else to
`STATE_ERROR`. -/
def Settles (t : Framer) (s : List UInt8) (p : Prop) : Prop :=
  (p → (machine.after t (s ++ zeros 258)).AtBoundary) ∧
    (¬ p → (machine.after t (s ++ zeros 258)).currentState = .error)

theorem Settles.cons {t : Framer} {b : UInt8} {s : List UInt8} {p : Prop}
    (h : Settles (rxByte t b).1 s p) : Settles t (b :: s) p := h

/-- A packet header, with whatever follows it. -/
theorem settles_packet {t : Framer} (ht : t.Ready) (code : UInt8) {len : UInt8} {ps : List UInt8}
    {p : Prop}
    (hfull : ∀ t', t'.AtBoundary → Settles t' (ps.drop (max len.toNat 1)) p)
    (hopen : ps.length < max len.toNat 1 → p) :
    Settles t (bleEvtPkt :: code :: len :: ps) p := by
  by_cases hl : ps.length < max len.toNat 1
  · obtain ⟨hst, hct, -⟩ := packet_open ht code len _ hl
    have hlen := len.toNat_lt
    refine ⟨fun _ => ?_, fun hp => absurd (hopen hl) hp⟩
    rw [Mealy.after_append]
    exact zeros_packetWait hst (by rw [hct]; omega)
  · have htake : (ps.take (max len.toNat 1)).length = max len.toNat 1 := by
      rw [List.length_take]; omega
    have hrun := (packet_run ht code len _ htake).1
    have hb := hfull (machine.after t (bleEvtPkt :: code :: len :: ps.take (max len.toNat 1)))
      (by rw [hrun]; exact ⟨rfl, rfl⟩)
    rw [Settles, ← Mealy.after_append] at hb
    simpa only [Settles, List.cons_append, ← List.append_assoc, List.take_append_drop] using hb

/-- A header that breaks off. -/
theorem settles_header {t : Framer} (ht : t.Ready) {s : List UInt8}
    (hs : ∀ code len ps, s ≠ code :: len :: ps) : Settles t (bleEvtPkt :: s) True := by
  refine ⟨fun _ => ?_, fun h => absurd trivial h⟩
  rw [List.cons_append, Mealy.after_cons, machine_step, rxByte_ready_evt ht]
  match s with
  | [] => exact zeros_eventResponse rfl (by decide)
  | [code] =>
    rw [List.singleton_append, Mealy.after_cons, machine_step, rxByte_eventResponse rfl]
    exact zeros_eventLength rfl (by decide)
  | code :: len :: ps => exact absurd rfl (hs code len ps)

/-- The induction over the stream: from a boundary, and from `STATE_INIT`, where the next byte has
to be `0x02` or `0x04`. -/
theorem settles (s : List UInt8) :
    (∀ t : Framer, t.AtBoundary → Settles t s (Synced s)) ∧
      ∀ t : Framer, t.currentState = .init →
        Settles t s ((s.head? = some bleAsdPkt ∨ s.head? = some bleEvtPkt) ∧ Synced s) := by
  fun_induction Synced s with
  | case1 =>
    refine ⟨fun t ht => ⟨fun _ => zeros_boundary ht _, fun h => absurd trivial h⟩,
      fun t ht => ⟨?_, fun _ => zeros_init ht (by decide)⟩⟩
    rintro ⟨h | h, -⟩ <;> cases h
  | case2 code len ps ih =>
    have hopen : ps.length < max len.toNat 1 → Synced (ps.drop (max len.toNat 1)) := by
      intro hl
      rw [List.drop_eq_nil_of_le (by omega), Synced]
      trivial
    refine ⟨fun t ht => settles_packet (.inl ht) code ih.1 hopen, fun t ht => ?_⟩
    simpa using settles_packet (.inr ht) code ih.1 hopen
  | case3 s hs =>
    refine ⟨fun t ht => settles_header (.inl ht) hs, fun t ht => ?_⟩
    simpa using settles_header (.inr ht) hs
  | case4 b s hb ih =>
    by_cases h2 : b = bleAsdPkt
    · subst h2
      refine ⟨fun t ht => ?_, fun t ht => ?_⟩
      · have h := ih.2 _ (congrArg (·.1.currentState) (rxByte_idle_asd ht))
        simpa using h.cons
      · have h := ih.2 _ (congrArg (·.1.currentState) (rxByte_init_asd ht) |>.trans ht)
        simpa using h.cons
    · refine ⟨fun t ht => ?_, fun t ht => ⟨?_, fun _ => ?_⟩⟩
      · simpa [h2] using (ih.1 _ (noise_run ht h2 hb).1).cons
      · rintro ⟨h | h, -⟩
        · exact absurd (Option.some.inj h) h2
        · exact absurd (Option.some.inj h) hb
      · rw [List.cons_append, Mealy.after_cons, machine_step, rxByte_init_other ht h2 hb,
          after_error rfl]

/-- After a stream and 258 zero bytes the framer is at a boundary or in `STATE_ERROR`. -/
theorem zeros_run {t : Framer} (ht : t.AtBoundary) (s : List UInt8) :
    Settles t s (Synced s) := (settles s).1 t ht

end Framer

theorem resynchronises_of_synced {s₀ : Framer} (h₀ : s₀.AtBoundary) {s : List UInt8}
    (hs : Synced s) : Resynchronises s₀ s := by
  have hb := (zeros_run h₀ s).1 hs
  refine ⟨hb, fun f hf => intact_of_atBoundary hb hf, fun htrap => ?_⟩
  -- The zero bytes and one more frame complete something.
  obtain ⟨c, ho, -⟩ := intact_of_atBoundary hb (f := ⟨0x0E, [0x00], by decide⟩) (by decide)
  have := htrap (zeros 258 ++ EventFrame.bytes ⟨0x0E, [0x00], by decide⟩) (some c) (by
    rw [Mealy.outputs_append, ← Mealy.after_append, ho]; simp)
  cases this

theorem synced_of_resynchronises {s₀ : Framer} (h₀ : s₀.AtBoundary) {s : List UInt8}
    (h : Resynchronises s₀ s) : Synced s := by
  apply Classical.byContradiction
  intro hs
  have he := (zeros_run h₀ s).2 hs
  rw [h.1.1] at he
  cases he

/-- **Resynchronisation.** From the thread's initial state, 258 zero bytes after the stream `s`
bring the framer to a boundary, ready for the next frame, exactly if every `0x02` of `s` outside a
packet is followed by `0x02` or `0x04`. -/
theorem resynchronises_iff (count : Int) (rxPacket : CArray UInt8 2048) (s : List UInt8) :
    Resynchronises (start count rxPacket) s ↔ Synced s :=
  ⟨synced_of_resynchronises (atBoundary_start _ _), resynchronises_of_synced (atBoundary_start _ _)⟩

/-- The bytes `02 00` leave the framer in `STATE_ERROR`, where no packet is ever completed. -/
theorem not_resynchronises_stray :
    ¬ ∀ (count : Int) (rxPacket : CArray UInt8 2048) (s : List UInt8),
      Resynchronises (start count rxPacket) s := by
  intro h
  have hs := synced_of_resynchronises (atBoundary_start 0 (Vector.replicate 2048 0))
    (h 0 _ [0x02, 0x00])
  simp [Synced, bleAsdPkt, bleEvtPkt] at hs

end Ble
