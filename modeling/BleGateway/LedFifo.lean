import BleGateway.Lib.Sched
import BleGateway.LedController

/-!
# Commands through the LED FIFO

Several runs of `led_manager` write to one FIFO and `Led_Controller` reads from it. A read returns
what is there, up to `DATA_LENGTH` bytes, so it need not return one message.

* `ledFifo`: writes of commands and reads of any size, in any order.
* `Lands`: a read takes bytes of one message only; if it begins a message, the controller finds the
  command and the exclamation mark in `led_fifo_buff`.
* `ledFifo_applied`: if all reads land, the commands are applied in order and once. If reads that
  begin a message take four bytes of it, this is also necessary.
* `lands_whole`: a read that takes one whole message lands.
-/

namespace Ble

/-! ## Writes and reads -/

/-- The FIFO, the commands written to it, the controller and its calls of `update_structure`. -/
structure LedFifo where
  fifo : List UInt8
  written : List LedCommand
  controller : LedController
  calls : List Update
  deriving DecidableEq

/-- What happens next. -/
inductive LedFifoStep where
  /-- A run of `led_manager`. -/
  | write (c : LedCommand)
  /-- A `read` that returns `k` bytes; `beyond` is what lies behind `value`. -/
  | read (k : Nat) (beyond : List UInt8)
  deriving DecidableEq

/-- The FIFO and its two ends. -/
def ledFifo : Sched LedFifo LedFifoStep where
  step t s :=
    match t with
    | .write c =>
      match ledManager [digit c.pin] [digit c.value] with
      | none => .next s
      | some buffer =>
        .next { s with fifo := s.fifo ++ buffer.stored, written := s.written ++ [c] }
    | .read k beyond =>
      if h : 0 < k ∧ k ≤ dataLength ∧ k ≤ s.fifo.length then
        let chunk : Chunk := ⟨s.fifo.take k, by simp; omega, by simp; omega⟩
        let (controller, update) := s.controller.onRead beyond chunk
        .next { s with
          fifo := s.fifo.drop k
          controller
          calls := s.calls ++ update.toList }
      else .blocked

namespace LedFifo

/-- Nothing was written yet. -/
def start (controller : LedController) : LedFifo := ⟨[], [], controller, []⟩

/-- The commands whose `#` is not in the FIFO any more. -/
def taken (s : LedFifo) : List LedCommand :=
  s.written.take (s.written.length - s.fifo.count '#'.toUInt8)

/-- The controller called `update_structure` for the commands taken, once each and in order. -/
def Applied (s : LedFifo) : Prop := s.calls = s.taken.map LedCommand.update

/-- With an empty FIFO these are all commands. -/
theorem Applied.of_nil {s : LedFifo} (ha : s.Applied) (h : s.fifo = []) :
    s.calls = s.written.map LedCommand.update := by
  have htaken : s.taken = s.written := by simp [taken, h]
  rw [ha, htaken]

/-- What `led_fifo_buff` holds behind a read of `k` bytes. -/
def front (s : LedFifo) (k : Nat) : List UInt8 :=
  s.fifo.take k ++ s.controller.ledFifoBuff.toList.drop k

/-- The next byte begins a message. -/
def Begins (s : LedFifo) : Prop := s.fifo.head? = some '#'.toUInt8

/-- The controller sees an exclamation mark behind a read of `k` bytes. -/
def Ends (s : LedFifo) (k : Nat) : Prop :=
  (s.front k).getD 5 0 = '!'.toUInt8 ∨ (s.front k).getD 4 0 = '!'.toUInt8

instance (s : LedFifo) : Decidable s.Begins := inferInstanceAs (Decidable (_ = _))

end LedFifo

namespace LedFifoStep

/-- A read takes bytes of one message only. -/
def Inside : LedFifoStep → LedFifo → Prop
  | .write _, _ => True
  | .read k _, s => '#'.toUInt8 ∉ (s.fifo.take k).tail

/-- A read that begins a message finds the first four bytes of it and the exclamation mark in
`led_fifo_buff`. -/
def Lands (t : LedFifoStep) (s : LedFifo) : Prop :=
  t.Inside s ∧
    match t with
    | .write _ => True
    | .read k _ => s.Begins → s.fifo.take 4 <+: s.front k ∧ s.Ends k

/-- A read that begins a message takes four bytes of it. -/
def Long : LedFifoStep → LedFifo → Prop
  | .write _, _ => True
  | .read k _, s => s.Begins → 4 ≤ k

end LedFifoStep

/-! ## Messages in the FIFO -/

theorem count_bytes (c : LedCommand) : c.bytes.count '#'.toUInt8 = 1 := by
  obtain ⟨pin, value⟩ := c
  revert pin value
  decide

theorem hash_not_mem_tail (c : LedCommand) : '#'.toUInt8 ∉ c.bytes.tail := by
  have hcount := count_bytes c
  rw [LedCommand.bytes, List.count_cons_self] at hcount
  exact List.count_eq_zero.mp (Nat.succ.inj hcount)

/-- The FIFO holds the messages of `pending` behind the rest of an earlier one. -/
def Framed (fifo : List UInt8) (pending : List LedCommand) : Prop :=
  ∃ rest, '#'.toUInt8 ∉ rest ∧ fifo = rest ++ pending.flatMap LedCommand.bytes

theorem framed_nil : Framed [] [] := ⟨[], List.not_mem_nil, rfl⟩

theorem Framed.write {fifo : List UInt8} {pending : List LedCommand} (h : Framed fifo pending)
    (c : LedCommand) : Framed (fifo ++ c.bytes) (pending ++ [c]) := by
  obtain ⟨rest, hrest, rfl⟩ := h
  exact ⟨rest, hrest, by simp⟩

/-- Every message has its `#`. -/
theorem Framed.count {fifo : List UInt8} {pending : List LedCommand} (h : Framed fifo pending) :
    fifo.count '#'.toUInt8 = pending.length := by
  obtain ⟨rest, hrest, rfl⟩ := h
  rw [List.count_append, List.count_eq_zero.mpr hrest, Nat.zero_add]
  clear hrest
  induction pending with
  | nil => rfl
  | cons c pending ih =>
    rw [List.flatMap_cons, List.count_append, count_bytes, ih, List.length_cons, Nat.add_comm]

/-- A `#` in front is that of a whole message. -/
theorem Framed.head {fifo : List UInt8} {pending : List LedCommand} (h : Framed fifo pending)
    (hhead : fifo.head? = some '#'.toUInt8) :
    ∃ c more, pending = c :: more ∧ fifo = c.bytes ++ more.flatMap LedCommand.bytes := by
  obtain ⟨rest, hrest, rfl⟩ := h
  cases rest with
  | cons b rest =>
    cases hhead
    exact absurd List.mem_cons_self hrest
  | nil =>
    cases pending with
    | nil => cases hhead
    | cons c more => exact ⟨c, more, rfl, rfl⟩

theorem Framed.tail {fifo : List UInt8} {pending : List LedCommand} (h : Framed fifo pending) :
    ∃ pending', pending' <:+ pending ∧ Framed fifo.tail pending' := by
  obtain ⟨rest, hrest, rfl⟩ := h
  cases rest with
  | cons b rest =>
    exact ⟨pending, List.suffix_refl _, rest, fun h => hrest (List.mem_cons_of_mem b h), rfl⟩
  | nil =>
    cases pending with
    | nil => exact ⟨[], List.suffix_refl _, framed_nil⟩
    | cons c more => exact ⟨more, List.suffix_cons c more, c.bytes.tail, hash_not_mem_tail c, rfl⟩

theorem Framed.drop {fifo : List UInt8} {pending : List LedCommand} (h : Framed fifo pending)
    (k : Nat) : ∃ pending', pending' <:+ pending ∧ Framed (fifo.drop k) pending' := by
  induction k generalizing fifo pending with
  | zero => exact ⟨pending, List.suffix_refl _, h⟩
  | succ k ih =>
    obtain ⟨pending₁, hsuf₁, h₁⟩ := h.tail
    obtain ⟨pending₂, hsuf₂, h₂⟩ := ih h₁
    exact ⟨pending₂, hsuf₂.trans hsuf₁, by rwa [List.drop_tail] at h₂⟩

/-! ## What a step does -/

namespace LedFifo

theorem step_write (s : LedFifo) (c : LedCommand) : ledFifo.step (.write c) s =
    .next { s with fifo := s.fifo ++ c.bytes, written := s.written ++ [c] } := by
  simp only [ledFifo, ledManager_eq]

/-- A read that returns takes its bytes to the front of `led_fifo_buff`. -/
theorem step_read {s s' : LedFifo} {k : Nat} {beyond : List UInt8}
    (h : ledFifo.step (.read k beyond) s = .next s') :
    (0 < k ∧ k ≤ s.fifo.length) ∧ ∃ c : LedController, c.ledFifoBuff.toList = s.front k ∧
      s' = ⟨s.fifo.drop k, s.written, (c.process beyond).1,
        s.calls ++ (c.process beyond).2.toList⟩ := by
  simp only [ledFifo] at h
  split at h
  · next hk =>
    cases h
    refine ⟨⟨hk.1, hk.2.2⟩, _, ?_, rfl⟩
    have hlen : (s.fifo.take k).length = k := by
      rw [List.length_take]
      omega
    simp only [LedController.read, CArray.toList_memcpy, front, hlen]
  · cases h

variable {s : LedFifo} {k : Nat} {c : LedController}

theorem byte_of_front (hc : c.ledFifoBuff.toList = s.front k) (i : Nat) :
    c.ledFifoBuff.byte i = (s.front k).getD i 0 := by rw [CArray.byte, hc]

theorem head_front (h0 : 0 < k) (hk : k ≤ s.fifo.length) :
    s.fifo.head? = some ((s.front k).getD 0 0) := by
  unfold front
  obtain ⟨b, rest, hf⟩ : ∃ b rest, s.fifo = b :: rest :=
    List.exists_cons_of_length_pos (Nat.lt_of_lt_of_le h0 hk)
  obtain ⟨j, rfl⟩ : ∃ j, k = j + 1 := ⟨k - 1, by omega⟩
  rw [hf]
  rfl

/-- A read that does not begin a message gives no call. -/
theorem process_of_not_begins (hc : c.ledFifoBuff.toList = s.front k) (h0 : 0 < k)
    (hk : k ≤ s.fifo.length) (hb : ¬ s.Begins) (beyond : List UInt8) :
    (c.process beyond).2 = none := by
  rw [LedController.process_of_ne]
  intro hbyte
  rw [byte_of_front hc] at hbyte
  exact hb (by rw [Begins, head_front h0 hk, hbyte])

/-- A read that begins a message and finds its first four bytes gives its call if it sees the
exclamation mark. -/
theorem process_of_begins (hc : c.ledFifoBuff.toList = s.front k) {cmd : LedCommand}
    {more : List UInt8} (hf : s.fifo = cmd.bytes ++ more) (hpre : s.fifo.take 4 <+: s.front k)
    (beyond : List UInt8) :
    (s.Ends k → (c.process beyond).2 = some cmd.update) ∧
      (¬ s.Ends k → (c.process beyond).2 = none) := by
  have hstarts : CArray.Starts c.ledFifoBuff (cmd.bytes.take 4) := by
    rw [CArray.Starts, hc]
    rwa [hf, List.take_append_of_le_length (by simp [LedCommand.bytes])] at hpre
  have hprocess : (c.process beyond).2 = _ := LedController.process_command hstarts
  rw [byte_of_front hc, byte_of_front hc] at hprocess
  exact ⟨fun he => hprocess.trans (if_pos he), fun he => hprocess.trans (if_neg he)⟩

/-- The `#` among the bytes of a read. -/
theorem count_read (h0 : 0 < k) (hk : k ≤ s.fifo.length) :
    s.fifo.count '#'.toUInt8 = (s.fifo.drop k).count '#'.toUInt8 +
      (s.fifo.take k).tail.count '#'.toUInt8 + if s.Begins then 1 else 0 := by
  obtain ⟨b, rest, hf⟩ : ∃ b rest, s.fifo = b :: rest :=
    List.exists_cons_of_length_pos (Nat.lt_of_lt_of_le h0 hk)
  obtain ⟨j, rfl⟩ : ∃ j, k = j + 1 := ⟨k - 1, by omega⟩
  have hrest : rest.count '#'.toUInt8 =
      (rest.take j).count '#'.toUInt8 + (rest.drop j).count '#'.toUInt8 := by
    rw [← List.count_append, List.take_append_drop]
  simp only [Begins, hf, List.count_cons, List.take_succ_cons, List.drop_succ_cons,
    List.tail_cons, List.head?_cons, Option.some_inj, beq_iff_eq, hrest]
  omega

/-- A read trades a `#` for a call at most. -/
theorem account_read (hc : c.ledFifoBuff.toList = s.front k) (h0 : 0 < k)
    (hk : k ≤ s.fifo.length) (beyond : List UInt8) :
    (c.process beyond).2.toList.length + (s.fifo.drop k).count '#'.toUInt8 +
      (s.fifo.take k).tail.count '#'.toUInt8 ≤ s.fifo.count '#'.toUInt8 := by
  rw [count_read h0 hk]
  by_cases hb : s.Begins
  · have hle : (c.process beyond).2.toList.length ≤ 1 := by
      cases (c.process beyond).2 <;> simp
    rw [if_pos hb]
    omega
  · rw [process_of_not_begins hc h0 hk hb beyond, if_neg hb, Option.toList_none, List.length_nil]
    omega

/-- Calls and waiting `#` together grow by no more than the commands written. -/
theorem account_step {t : LedFifoStep} {s s' : LedFifo} (h : ledFifo.step t s = .next s') :
    s'.calls.length + s'.fifo.count '#'.toUInt8 + s.written.length ≤
      s.calls.length + s.fifo.count '#'.toUInt8 + s'.written.length := by
  cases t with
  | write c =>
    rw [step_write] at h
    cases h
    simp only [List.count_append, count_bytes, List.length_append, List.length_singleton]
    omega
  | read k beyond =>
    obtain ⟨⟨h0, hk⟩, c, hc, rfl⟩ := step_read h
    have haccount := account_read (s := s) hc h0 hk beyond
    simp only [List.length_append]
    omega

/-! ## What every step keeps -/

/-- The FIFO holds the last messages written, and there are no more calls than commands taken. -/
structure Inv (s : LedFifo) : Prop where
  framed : ∃ pending, pending <:+ s.written ∧ Framed s.fifo pending
  bound : s.calls.length + s.fifo.count '#'.toUInt8 ≤ s.written.length

/-- There are fewer. -/
def Lost (s : LedFifo) : Prop :=
  s.calls.length + s.fifo.count '#'.toUInt8 < s.written.length

theorem inv_start (controller : LedController) : Inv (start controller) :=
  ⟨⟨[], List.suffix_refl _, framed_nil⟩, Nat.le_refl 0⟩

theorem inv_step (t : LedFifoStep) (s s' : LedFifo) (hs : Inv s) (h : ledFifo.step t s = .next s') :
    Inv s' := by
  obtain ⟨⟨pending, hsuf, hframed⟩, hbound⟩ := hs
  have haccount := account_step h
  refine ⟨?_, by omega⟩
  cases t with
  | write c =>
    rw [step_write] at h
    cases h
    obtain ⟨pre, hpre⟩ := hsuf
    exact ⟨pending ++ [c], ⟨pre, by rw [← List.append_assoc, hpre]⟩, hframed.write c⟩
  | read k beyond =>
    obtain ⟨-, c, -, rfl⟩ := step_read h
    obtain ⟨pending', hsuf', hframed'⟩ := hframed.drop k
    exact ⟨pending', hsuf'.trans hsuf, hframed'⟩

/-- What is lost stays lost. -/
theorem lost_step (t : LedFifoStep) (s s' : LedFifo) (hs : Lost s)
    (h : ledFifo.step t s = .next s') : Lost s' := by
  have haccount := account_step h
  unfold Lost at hs ⊢
  omega

/-- A `#` behind the first byte of a read is lost. -/
theorem lost_of_not_inside {t : LedFifoStep} {s s' : LedFifo} (hs : Inv s)
    (h : ledFifo.step t s = .next s') (hno : ¬ t.Inside s) : Lost s' := by
  cases t with
  | write c => exact absurd trivial hno
  | read k beyond =>
    obtain ⟨⟨h0, hk⟩, c, hc, rfl⟩ := step_read h
    have hpos : 0 < (s.fifo.take k).tail.count '#'.toUInt8 :=
      List.count_pos_iff.mpr (Classical.byContradiction hno)
    have haccount := account_read (s := s) hc h0 hk beyond
    have hbound := hs.bound
    show (s.calls ++ (c.process beyond).2.toList).length + (s.fifo.drop k).count '#'.toUInt8 <
      s.written.length
    rw [List.length_append]
    omega

/-- So is the `#` of a message that is read up to its value, where no exclamation mark is seen. -/
theorem lost_of_not_ends {k : Nat} {beyond : List UInt8} {s s' : LedFifo} (hs : Inv s)
    (h : ledFifo.step (.read k beyond) s = .next s') (hb : s.Begins)
    (hpre : s.fifo.take 4 <+: s.front k) (he : ¬ s.Ends k) : Lost s' := by
  obtain ⟨⟨h0, hk⟩, c, hc, rfl⟩ := step_read h
  obtain ⟨⟨pending, hsuf, hframed⟩, hbound⟩ := hs
  obtain ⟨cmd, more, rfl, hf⟩ := hframed.head hb
  have hnone := (process_of_begins hc hf hpre beyond).2 he
  have hcount := count_read h0 hk
  rw [if_pos hb] at hcount
  show (s.calls ++ (c.process beyond).2.toList).length + (s.fifo.drop k).count '#'.toUInt8 <
    s.written.length
  rw [hnone, Option.toList_none, List.append_nil]
  omega

theorem not_applied_of_lost {s : LedFifo} (hs : Lost s) : ¬ s.Applied := by
  intro ha
  have hlen := congrArg List.length ha
  unfold Lost at hs
  simp only [taken, List.length_map, List.length_take] at hlen
  omega

theorem taken_eq {s : LedFifo} {pre pending : List LedCommand} (h : pre ++ pending = s.written)
    (hcount : s.fifo.count '#'.toUInt8 = pending.length) : s.taken = pre := by
  rw [taken, ← h, hcount, List.length_append, Nat.add_sub_cancel, List.take_left]

/-- A read that lands applies the command that it takes. -/
theorem applied_step (t : LedFifoStep) (s s' : LedFifo) (hs : Inv s ∧ s.Applied)
    (hlands : t.Lands s) (h : ledFifo.step t s = .next s') : Inv s' ∧ s'.Applied := by
  refine ⟨inv_step t s s' hs.1 h, ?_⟩
  obtain ⟨⟨⟨pending, ⟨pre, hpre⟩, hframed⟩, -⟩, happlied⟩ := hs
  rw [Applied, taken_eq hpre hframed.count] at happlied
  cases t with
  | write cmd =>
    rw [step_write] at h
    cases h
    have hpre' : pre ++ (pending ++ [cmd]) = s.written ++ [cmd] := by
      rw [← List.append_assoc, hpre]
    exact happlied.trans
      (congrArg (List.map LedCommand.update) (taken_eq hpre' (hframed.write cmd).count).symm)
  | read k beyond =>
    obtain ⟨⟨h0, hk⟩, c, hc, rfl⟩ := step_read h
    obtain ⟨hinside, hlands⟩ := hlands
    have hcount := count_read h0 hk
    rw [List.count_eq_zero.mpr hinside, hframed.count] at hcount
    by_cases hb : s.Begins
    · obtain ⟨cmd, more, rfl, hf⟩ := hframed.head hb
      obtain ⟨hstart, hends⟩ := hlands hb
      have hcall := (process_of_begins hc hf hstart beyond).1 hends
      rw [if_pos hb] at hcount
      have hpre' : (pre ++ [cmd]) ++ more = s.written := by
        rw [List.append_assoc, ← hpre]
        rfl
      have htaken : taken ⟨s.fifo.drop k, s.written, (c.process beyond).1,
          s.calls ++ (c.process beyond).2.toList⟩ = pre ++ [cmd] :=
        taken_eq hpre' (Nat.succ.inj hcount).symm
      rw [Applied, htaken, happlied, hcall, List.map_append]
      rfl
    · rw [if_neg hb] at hcount
      have htaken : taken ⟨s.fifo.drop k, s.written, (c.process beyond).1,
          s.calls ++ (c.process beyond).2.toList⟩ = pre := taken_eq hpre hcount.symm
      rw [Applied, htaken, happlied, process_of_not_begins hc h0 hk hb beyond, Option.toList_none,
        List.append_nil]

/-- A read of four bytes or more of a message has its first four in `led_fifo_buff`. -/
theorem take_four_front {s : LedFifo} {k : Nat} (h : 4 ≤ k) : s.fifo.take 4 <+: s.front k := by
  have hpre : s.fifo.take 4 <+: s.fifo.take k := List.take_prefix_take_left h
  exact hpre.trans (List.prefix_append _ _)

/-- A read of one whole message lands. -/
theorem lands_whole {s : LedFifo} (hs : Inv s) (hb : s.Begins) (beyond : List UInt8) :
    LedFifoStep.Lands (.read 5 beyond) s := by
  obtain ⟨⟨pending, -, hframed⟩, -⟩ := hs
  obtain ⟨cmd, more, -, hf⟩ := hframed.head hb
  have htake : s.fifo.take 5 = cmd.bytes := by
    rw [hf]
    exact List.take_left' rfl
  refine ⟨?_, fun _ => ⟨take_four_front (by decide), .inr ?_⟩⟩
  · rw [LedFifoStep.Inside, htake]
    exact hash_not_mem_tail cmd
  · rw [front, htake]
    rfl

/-- A long read that does not land loses a command. -/
theorem lost_of_not_lands {t : LedFifoStep} {s s' : LedFifo} (hs : Inv s)
    (h : ledFifo.step t s = .next s') (hno : ¬ (t.Long s → t.Lands s)) : Lost s' := by
  obtain ⟨hlong, hno⟩ := Classical.not_imp.mp hno
  by_cases hinside : t.Inside s
  · cases t with
    | write c => exact absurd ⟨trivial, trivial⟩ hno
    | read k beyond =>
      have hbad : ¬ (s.Begins → s.fifo.take 4 <+: s.front k ∧ s.Ends k) :=
        fun hl => hno ⟨hinside, hl⟩
      obtain ⟨hb, hbad⟩ := Classical.not_imp.mp hbad
      have hstart := take_four_front (s := s) (hlong hb)
      exact lost_of_not_ends hs h hb hstart fun he => hbad ⟨hstart, he⟩
  · exact lost_of_not_inside hs h hinside

/-- No step overruns an array. -/
theorem step_ne_overrun (t : LedFifoStep) (s : LedFifo) : ledFifo.step t s ≠ .overrun := by
  cases t with
  | write c =>
    rw [step_write]
    exact Outcome.next_ne_overrun _
  | read k beyond =>
    simp only [ledFifo]
    split
    · exact Outcome.next_ne_overrun _
    · exact Outcome.blocked_ne_overrun

end LedFifo

/-! ## Runs -/

open LedFifo

/-- **Commands through the FIFO.** Every run goes through. If all its reads land, the commands taken
are applied in order and once, which are all commands when the FIFO is empty. Commands that are so
applied were read by reads inside their messages. And if every read that begins a message takes four
bytes of it, they are so applied exactly if all reads land. -/
theorem ledFifo_applied (controller : LedController) (ts : List LedFifoStep) :
    ∃ s, ledFifo.run (start controller) ts = some s ∧
      (ledFifo.Meets LedFifoStep.Lands (start controller) ts →
        s.Applied ∧ (s.fifo = [] → s.calls = s.written.map LedCommand.update)) ∧
      (s.Applied → ledFifo.Meets LedFifoStep.Inside (start controller) ts) ∧
      (ledFifo.Meets LedFifoStep.Long (start controller) ts →
        (s.Applied ↔ ledFifo.Meets LedFifoStep.Lands (start controller) ts)) := by
  have hinv := inv_start controller
  obtain ⟨s, h, -⟩ := Sched.Inductive.run (S := ledFifo) (I := Inv)
    (fun t s hs => ⟨step_ne_overrun t s, fun s' hst => inv_step t s s' hs hst⟩) hinv ts
  have happlied (hm : ledFifo.Meets LedFifoStep.Lands (start controller) ts) : s.Applied :=
    (hm.run_induct applied_step ⟨hinv, rfl⟩ h).2
  refine ⟨s, h, fun hm => ⟨happlied hm, (happlied hm).of_nil⟩, fun ha => ?_,
    fun hlong => ⟨fun ha => ?_, happlied⟩⟩
  · obtain hm | hl := Sched.meets_or_run inv_step (fun t s s' _ => lost_step t s s')
      (fun t s s' hs hst hno => lost_of_not_inside hs hst hno) hinv h
    · exact hm
    · exact absurd ha (not_applied_of_lost hl)
  · obtain hm | hl := Sched.meets_or_run inv_step (fun t s s' _ => lost_step t s s')
      (fun t s s' hs hst hno => lost_of_not_lands hs hst hno) hinv h
    · exact hm.mp hlong
    · exact absurd ha (not_applied_of_lost hl)

/-- Two commands, and reads of six and of four bytes. -/
def sixAndFour : List LedFifoStep :=
  [.write ⟨⟨1, by decide⟩, 1⟩, .write ⟨⟨2, by decide⟩, 0⟩, .read 6 [], .read 4 []]

/-- The second command is lost. -/
theorem not_applied_sixAndFour : ¬ ∀ (controller : LedController) (ts : List LedFifoStep)
    (s : LedFifo), ledFifo.run (start controller) ts = some s → s.fifo = [] →
      s.calls = s.written.map LedCommand.update := by
  intro h
  have hcalls := h ⟨Vector.replicate 20 0, Vector.replicate 3 0, 0⟩ sixAndFour _ rfl rfl
  revert hcalls
  decide

end Ble
