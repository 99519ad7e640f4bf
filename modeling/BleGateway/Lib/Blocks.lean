import Mathlib.Logic.Function.Basic

/-!
# Blocks of the heap

`malloc`, `realloc` and `free`, as far as it matters which pointers may be freed. No allocation
fails.

* `Heap`: the blocks that are allocated. `Heap.free` fails for a pointer to no block of the heap.
* `Holds`: the blocks of a heap are those that some pointers hold, each one exactly once, and those
  that are `lost`: no pointer to them is left. Only which blocks they hold matters (`Holds.congr`);
  each operation has its rule.
* `Holds.freeAll`: so pointers that hold their blocks can be freed, and nothing else is.
-/

/-- What a pointer is: null, the start of a block, or a string of the program. -/
inductive Ptr where
  | null
  | block (n : Nat)
  | literal
  deriving DecidableEq, Repr

/-- The block of a pointer. -/
def Ptr.blocks : Ptr → List Nat
  | block n => [n]
  | _ => []

/-- The blocks that are allocated, and the next one. -/
structure Heap where
  next : Nat := 0
  live : List Nat := []
  deriving DecidableEq, Repr

namespace Heap

/-- The heap behind `malloc`. The pointer is `.block h.next`. -/
def malloc (h : Heap) : Heap := ⟨h.next + 1, h.next :: h.live⟩

/-- `free`. -/
def free (h : Heap) : Ptr → Option Heap
  | .null => some h
  | .block n => if n ∈ h.live then some { h with live := h.live.erase n } else none
  | .literal => none

/-- The heap behind `realloc`, which moves the block to `.block h.next`. -/
def realloc (h : Heap) (p : Ptr) : Option Heap := (h.free p).map malloc

/-- Several pointers are freed. -/
def freeAll (h : Heap) : List Ptr → Option Heap
  | [] => some h
  | p :: ps => (h.free p).bind fun h => freeAll h ps

theorem next_of_free {h h' : Heap} {p : Ptr} (hf : h.free p = some h') : h'.next = h.next := by
  unfold free at hf
  split at hf
  · cases hf
    rfl
  · split at hf
    · cases hf
      rfl
    · cases hf
  · cases hf

/-- A literal cannot be freed. -/
theorem freeAll_literal (h : Heap) {ps : List Ptr} (hp : .literal ∈ ps) : h.freeAll ps = none := by
  induction ps generalizing h with
  | nil => cases hp
  | cons p ps ih =>
    rw [freeAll]
    cases hf : h.free p with
    | none => rfl
    | some h₁ =>
      obtain rfl | hp := List.mem_cons.mp hp
      · cases hf
      · exact ih h₁ hp

end Heap

/-- The blocks of several pointers. -/
def held (ps : List Ptr) : List Nat := ps.flatMap Ptr.blocks

@[simp]
theorem held_nil : held [] = [] := rfl

@[simp]
theorem held_cons (p : Ptr) (ps : List Ptr) : held (p :: ps) = p.blocks ++ held ps :=
  List.flatMap_cons

@[simp]
theorem held_append (ps qs : List Ptr) : held (ps ++ qs) = held ps ++ held qs :=
  List.flatMap_append

@[simp]
theorem blocks_null : Ptr.blocks .null = [] := rfl

/-- What changes when one of several variables gets another value. -/
theorem count_held_update {ι : Type} [DecidableEq ι] {xs : List ι} (hxs : xs.Nodup) {x : ι}
    (hx : x ∈ xs) (f : ι → Ptr) (p : Ptr) (n : Nat) :
    (held (xs.map (Function.update f x p))).count n + (f x).blocks.count n =
      (held (xs.map f)).count n + p.blocks.count n := by
  induction xs with
  | nil => cases hx
  | cons y xs ih =>
    obtain ⟨hy, hxs⟩ := List.nodup_cons.mp hxs
    simp only [List.map_cons, held_cons, List.count_append]
    obtain rfl | hx := List.mem_cons.mp hx
    · have hrest : xs.map (Function.update f x p) = xs.map f :=
        List.map_congr_left fun z hz =>
          Function.update_of_ne (fun heq : z = x => hy (heq ▸ hz)) p f
      rw [Function.update_self, hrest]
      omega
    · have hne : y ≠ x := fun heq => hy (heq ▸ hx)
      have hrest := ih hxs hx
      rw [Function.update_of_ne hne]
      omega

/-- The pointers `ps` hold blocks of their own, and the rest of the heap is lost. -/
structure Holds (h : Heap) (ps : List Ptr) (lost : List Nat) : Prop where
  perm : h.live.Perm (held ps ++ lost)
  nodup : h.live.Nodup
  below : ∀ n ∈ h.live, n < h.next
  dynamic : .literal ∉ ps

namespace Holds

variable {h h' : Heap} {p : Ptr} {ps qs : List Ptr} {lost : List Nat}

theorem empty (hps : ∀ p ∈ ps, p = .null) : Holds {} ps [] where
  perm := by
    rw [held, List.flatMap_eq_nil_iff.mpr fun p hp => by rw [hps p hp, blocks_null]]
    exact .nil
  nodup := List.nodup_nil
  below := nofun
  dynamic hp := by cases hps _ hp

/-- Only the blocks of the pointers matter. -/
theorem congr (hh : Holds h ps lost) (hp : ∀ n, (held qs).count n = (held ps).count n)
    (hqs : .literal ∉ qs) : Holds h qs lost :=
  ⟨hh.perm.trans ((List.perm_iff_count.mpr fun n => (hp n).symm).append_right lost), hh.nodup,
    hh.below, hqs⟩

theorem middle_iff : Holds h (qs ++ p :: ps) lost ↔ Holds h (p :: (qs ++ ps)) lost := by
  constructor
  · intro hh
    refine hh.congr (fun n => ?_) fun hm => hh.dynamic (List.perm_middle.mem_iff.mpr hm)
    simp only [held_append, held_cons, List.count_append]
    omega
  · intro hh
    refine hh.congr (fun n => ?_) fun hm => hh.dynamic (List.perm_middle.mem_iff.mp hm)
    simp only [held_append, held_cons, List.count_append]
    omega

theorem malloc (hh : Holds h ps lost) : Holds h.malloc (.block h.next :: ps) lost where
  perm := hh.perm.cons h.next
  nodup := List.nodup_cons.mpr ⟨fun hm => Nat.lt_irrefl _ (hh.below _ hm), hh.nodup⟩
  below n hn := by
    obtain rfl | hn := List.mem_cons.mp hn
    · exact Nat.lt_succ_self _
    · exact Nat.lt_succ_of_lt (hh.below n hn)
  dynamic hm := by
    obtain hm | hm := List.mem_cons.mp hm
    · cases hm
    · exact hh.dynamic hm

theorem tail_dynamic (hh : Holds h (p :: ps) lost) : .literal ∉ ps := fun hm =>
  hh.dynamic (List.mem_cons_of_mem p hm)

/-- What is held can be freed. -/
theorem free (hh : Holds h (p :: ps) lost) : ∃ h', h.free p = some h' ∧ Holds h' ps lost := by
  cases p with
  | null => exact ⟨h, rfl, hh.congr (fun n => rfl) hh.tail_dynamic⟩
  | literal => exact absurd List.mem_cons_self hh.dynamic
  | block n =>
    have hperm : h.live.Perm (n :: (held ps ++ lost)) := hh.perm
    have hn : n ∈ h.live := hperm.mem_iff.mpr List.mem_cons_self
    refine ⟨{ h with live := h.live.erase n }, if_pos hn, ?_, hh.nodup.erase n, ?_,
      hh.tail_dynamic⟩
    · have herase := hperm.erase n
      rwa [List.erase_cons_head] at herase
    · intro m hm
      exact hh.below m (List.mem_of_mem_erase hm)

theorem realloc (hh : Holds h (p :: ps) lost) :
    ∃ h', h.realloc p = some h' ∧ Holds h' (.block h.next :: ps) lost := by
  obtain ⟨h₁, hfree, hh₁⟩ := hh.free
  rw [← Heap.next_of_free hfree]
  exact ⟨h₁.malloc, by rw [Heap.realloc, hfree, Option.map_some], hh₁.malloc⟩

/-- A new block in one of the variables `qs` that held none. -/
theorem assign {qs' : List Ptr} (hh : Holds h (qs ++ ps) lost)
    (hq : ∀ n, (held qs').count n = (held (.block h.next :: qs)).count n) (hqs : .literal ∉ qs') :
    Holds h.malloc (qs' ++ ps) lost := by
  refine hh.malloc.congr (fun n => ?_) fun hm => ?_
  · have hn := hq n
    simp only [held_append, held_cons, List.count_append] at hn ⊢
    omega
  · obtain hm | hm := List.mem_append.mp hm
    · exact hqs hm
    · exact hh.dynamic (List.mem_append_right qs hm)

/-- What pointers held is lost when other values are stored in their place. -/
theorem drop (hh : Holds h (qs ++ ps) lost) : Holds h ps (held qs ++ lost) := by
  refine ⟨hh.perm.trans ?_, hh.nodup, hh.below, fun hm => hh.dynamic (List.mem_append_right qs hm)⟩
  rw [held_append, ← List.append_assoc]
  exact List.perm_append_comm.append_right lost

/-- Pointers that hold their blocks can be freed, each one once. -/
theorem freeAll (hh : Holds h (ps ++ qs) lost) :
    ∃ h', h.freeAll ps = some h' ∧ Holds h' qs lost := by
  induction ps generalizing h with
  | nil => exact ⟨h, rfl, hh⟩
  | cons p ps ih =>
    obtain ⟨h₁, hfree, hh₁⟩ := free hh
    obtain ⟨h₂, hall, hh₂⟩ := ih hh₁
    exact ⟨h₂, by rw [Heap.freeAll, hfree, Option.bind_some, hall], hh₂⟩

theorem live_eq_nil_iff (hh : Holds h ps lost) : h.live = [] ↔ held ps = [] ∧ lost = [] := by
  rw [← List.append_eq_nil_iff]
  constructor
  · intro hnil
    exact List.nil_perm.mp (hnil ▸ hh.perm)
  · intro hnil
    exact List.perm_nil.mp (hnil ▸ hh.perm)

/-- A pointer that holds no block is null. -/
theorem blocks_eq_nil_iff (hh : Holds h ps lost) (hp : p ∈ ps) : p.blocks = [] ↔ p = .null := by
  cases p with
  | null => exact iff_of_true rfl rfl
  | block n => exact iff_of_false nofun nofun
  | literal => exact absurd hp hh.dynamic

end Holds
