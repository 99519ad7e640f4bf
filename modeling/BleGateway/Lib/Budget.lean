import Mathlib.Data.Nat.Find

/-!
# Loops with a budget

A loop that tries again until an outcome tells it to stop or until `N` strikes are counted. An
outcome can also set the counter back, or leave it alone. The outcomes are an infinite sequence.

* `counter`: the loop's counter, which a stop forces to `N`.
* `strikes`: the strikes since the start or the last reset, read off the outcomes.
* `stopsAfter_iff`: the loop stops behind the first outcome that is a stop or the `N`-th strike
  since then.
* `StopsAfter.le`: so it takes at most `N` turns for each reset and `N` more, if no outcome leaves
  the counter alone.
-/

namespace Budget

/-- What an outcome means to the loop. -/
inductive Mark where
  | stop
  | strike
  | reset
  | idle
  deriving DecidableEq, Repr

/-- The first `n` outcomes. -/
def firsts {α : Type} (a : Nat → α) (n : Nat) : List α := (List.range n).map a

theorem firsts_succ {α : Type} (a : Nat → α) (n : Nat) :
    firsts a (n + 1) = firsts a n ++ [a n] := by
  rw [firsts, List.range_succ, List.map_append]
  rfl

theorem firsts_map {α β : Type} (f : α → β) (a : Nat → α) (n : Nat) :
    firsts (fun m => f (a m)) n = (firsts a n).map f := by
  rw [firsts, firsts, List.map_map]
  rfl

/-- The strikes behind the last reset. -/
def strikes (l : List Mark) : Nat := (l.reverse.takeWhile (· ≠ .reset)).count .strike

theorem strikes_concat (l : List Mark) (m : Mark) :
    strikes (l ++ [m]) =
      match m with
      | .strike => strikes l + 1
      | .reset => 0
      | .stop | .idle => strikes l := by
  rw [strikes, List.reverse_append, List.reverse_singleton, List.singleton_append]
  cases m with
  | strike | stop | idle =>
    rw [List.takeWhile_cons_of_pos (by decide)]
    simp [strikes]
  | reset =>
    rw [List.takeWhile_cons_of_neg (by decide)]
    rfl

/-- The counter behind an outcome. -/
def next (N r : Nat) : Mark → Nat
  | .stop => N
  | .strike => r + 1
  | .reset => 0
  | .idle => r

/-- The counter behind the first `n` outcomes. -/
def counter (N : Nat) (a : Nat → Mark) (n : Nat) : Nat := (firsts a n).foldl (next N) 0

@[simp] theorem counter_zero (N : Nat) (a : Nat → Mark) : counter N a 0 = 0 := rfl

theorem counter_succ (N : Nat) (a : Nat → Mark) (n : Nat) :
    counter N a (n + 1) = next N (counter N a n) (a n) := by
  rw [counter, firsts_succ, List.foldl_append]
  rfl

/-- The loop takes `n` turns: the counter reaches `N` behind the `n`-th outcome. -/
def StopsAfter (N : Nat) (a : Nat → Mark) (n : Nat) : Prop :=
  (∀ m < n, counter N a m < N) ∧ N ≤ counter N a n

/-- The outcome `a n` is a stop, or the `N`-th strike since the start or the last reset. -/
def Ends (N : Nat) (a : Nat → Mark) (n : Nat) : Prop :=
  a n = .stop ∨ a n = .strike ∧ strikes (firsts a (n + 1)) = N

variable {N : Nat} {a : Nat → Mark}

/-- One turn: while nothing has ended the loop, the counter is the number of strikes. -/
theorem counter_step {n : Nat} (hlt : counter N a n < N)
    (heq : counter N a n = strikes (firsts a n)) (hend : ¬ Ends N a n) :
    counter N a (n + 1) < N ∧ counter N a (n + 1) = strikes (firsts a (n + 1)) := by
  obtain ⟨hstop, hstrike⟩ := not_or.mp hend
  rw [firsts_succ, strikes_concat] at hstrike
  rw [counter_succ, firsts_succ, strikes_concat]
  cases hm : a n with
  | stop => exact absurd hm hstop
  | strike =>
    have hne : strikes (firsts a n) + 1 ≠ N := fun h => hstrike ⟨hm, by rw [hm]; exact h⟩
    refine ⟨?_, by rw [next, heq]⟩
    rw [next]
    omega
  | reset => exact ⟨Nat.zero_lt_of_lt hlt, rfl⟩
  | idle => exact ⟨hlt, heq⟩

/-- An outcome that ends the loop brings the counter to `N`. -/
theorem le_counter_of_ends {n : Nat} (heq : counter N a n = strikes (firsts a n))
    (hend : Ends N a n) : N ≤ counter N a (n + 1) := by
  rw [counter_succ]
  obtain hstop | ⟨hstrike, hN⟩ := hend
  · rw [hstop]
    exact Nat.le_refl N
  · rw [firsts_succ, strikes_concat, hstrike] at hN
    rw [hstrike, next, heq]
    exact Nat.le_of_eq hN.symm

/-- The loop is still running behind `n` outcomes if none of them ends it. -/
theorem running {n : Nat} (hN : 0 < N) (h : ∀ j < n, ¬ Ends N a j) :
    ∀ m ≤ n, counter N a m < N ∧ counter N a m = strikes (firsts a m) := by
  intro m hm
  induction m with
  | zero => exact ⟨hN, rfl⟩
  | succ m ih =>
    obtain ⟨hlt, heq⟩ := ih (by omega)
    exact counter_step hlt heq (h m (by omega))

theorem StopsAfter.unique {n n' : Nat} (h : StopsAfter N a n) (h' : StopsAfter N a n') :
    n = n' := by
  have hle : ¬ n < n' := fun hlt => Nat.not_lt.mpr h.2 (h'.1 n hlt)
  have hge : ¬ n' < n := fun hlt => Nat.not_lt.mpr h'.2 (h.1 n' hlt)
  omega

/-- The first outcome that ends the loop is its last. -/
theorem stopsAfter_of_ends (hN : 0 < N) {n : Nat} (hend : Ends N a n)
    (hfirst : ∀ j < n, ¬ Ends N a j) : StopsAfter N a (n + 1) := by
  have hrun := running hN hfirst
  exact ⟨fun m hm => (hrun m (by omega)).1, le_counter_of_ends (hrun n (Nat.le_refl n)).2 hend⟩

/-- **The stopping point.** The loop stops behind the first outcome that ends it. -/
theorem stopsAfter_iff (hN : 0 < N) (n : Nat) :
    StopsAfter N a n ↔ ∃ k, n = k + 1 ∧ Ends N a k ∧ ∀ j < k, ¬ Ends N a j := by
  constructor
  · intro h
    -- Some outcome before `n` ends the loop, else the counter is still below `N` behind `n`.
    have hex : ∃ k, k < n ∧ Ends N a k := Classical.byContradiction fun hno =>
      Nat.not_lt.mpr h.2
        (running hN (fun j hj he => hno ⟨j, hj, he⟩) n (Nat.le_refl n)).1
    classical
    obtain ⟨hk, hend⟩ := Nat.find_spec hex
    have hfirst : ∀ j < Nat.find hex, ¬ Ends N a j := fun j hj he =>
      Nat.find_min hex hj ⟨Nat.lt_trans hj hk, he⟩
    exact ⟨_, h.unique (stopsAfter_of_ends hN hend hfirst), hend, hfirst⟩
  · rintro ⟨k, rfl, hend, hfirst⟩
    exact stopsAfter_of_ends hN hend hfirst

/-- Every turn that does not leave the counter alone is a strike, a reset or the last one. -/
theorem StopsAfter.le {n : Nat} (h : StopsAfter N a n) (hidle : ∀ m < n, a m ≠ .idle) :
    n ≤ N * ((firsts a n).count .reset + 1) := by
  -- While it runs, `m` turns are `N` for each reset and what the counter shows.
  have hrun : ∀ m ≤ n - 1, m ≤ N * (firsts a m).count .reset + counter N a m := by
    intro m hm
    induction m with
    | zero => exact Nat.zero_le _
    | succ m ih =>
      have hle := ih (by omega)
      have hlt := h.1 m (by omega)
      have hlt' := h.1 (m + 1) (by omega)
      rw [counter_succ] at hlt' ⊢
      rw [firsts_succ, List.count_append]
      cases hm : a m with
      | stop =>
        rw [hm, next] at hlt'
        omega
      | strike =>
        simp only [next, List.count_singleton, beq_iff_eq, reduceCtorEq, if_false, Nat.add_zero]
        omega
      | reset =>
        simp only [next, List.count_singleton, beq_self_eq_true, if_true, Nat.mul_add]
        omega
      | idle => exact absurd hm (hidle m (by omega))
  cases n with
  | zero => exact Nat.zero_le _
  | succ n =>
    have hle := hrun n (Nat.le_refl n)
    have hlt := h.1 n (Nat.lt_succ_self n)
    have hmono : N * (firsts a n).count .reset ≤ N * (firsts a (n + 1)).count .reset := by
      rw [firsts_succ, List.count_append]
      exact Nat.mul_le_mul_left N (Nat.le_add_right _ _)
    rw [Nat.mul_add]
    omega

end Budget
