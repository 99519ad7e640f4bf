/-!
# Threads under a scheduler

A program of several threads is a `Sched`: `step t s` is what thread `t` does next in state `s`. It
is blocked, it moves to a next state, or it overruns an array, after which nothing is known of the
program. A schedule is a list of thread names; `run` follows it, passes over the threads that are
blocked, and ends with `none` at an overrun. Labels may carry data that the environment chooses (a
message, an answer), so the same rules serve open systems.

* `Inductive I`: `I` survives every step and excludes an overrun.
* `Inductive.run`: then no schedule overruns, and `I` holds at its end.
* `Meets`: every step of a schedule satisfies a condition on the state it starts from.
* `Descends I μ`: `I` survives every step, no step overruns, and each makes `μ` smaller. Then every
  schedule can be continued until no thread can move (`Descends.drains`).
* `run_induct`, `Meets.run_induct`: what every step keeps, and what every step meeting a condition
  keeps, holds at the end. `meets_or_run` is for the converse: a step that fails the condition does
  harm that is never undone.
* `Reaches`: what some schedule leads to; `Reaches.step` and `Reaches.trans` put a run together.
* `run_isSome_iff`: if a step overruns exactly when the condition fails, a schedule runs to its end
  exactly when all its steps meet the condition.
-/

/-- What a step does. -/
inductive Outcome (σ : Type) where
  | blocked
  | overrun
  | next (s : σ)
  deriving DecidableEq, Repr

theorem Outcome.next_ne_overrun {σ : Type} (s : σ) : Outcome.next s ≠ .overrun := nofun

theorem Outcome.blocked_ne_overrun {σ : Type} : Outcome.blocked (σ := σ) ≠ .overrun := nofun

/-- Threads (or labelled steps) `τ` over the states `σ`. -/
structure Sched (σ τ : Type) where
  step : τ → σ → Outcome σ

namespace Sched

variable {σ τ : Type} (S : Sched σ τ)

/-- The state at the end of a schedule; `none` if a step of it overruns an array. -/
def run (s : σ) : List τ → Option σ
  | [] => some s
  | t :: ts =>
    match S.step t s with
    | .blocked => run s ts
    | .overrun => none
    | .next s' => run s' ts

@[simp] theorem run_nil (s : σ) : S.run s [] = some s := rfl

theorem run_cons (s : σ) (t : τ) (ts : List τ) :
    S.run s (t :: ts) =
      match S.step t s with
      | .blocked => S.run s ts
      | .overrun => none
      | .next s' => S.run s' ts := rfl

theorem run_append (s : σ) (ts us : List τ) :
    S.run s (ts ++ us) = (S.run s ts).bind fun s' => S.run s' us := by
  induction ts generalizing s with
  | nil => rfl
  | cons t ts ih =>
    simp only [List.cons_append, run_cons]
    cases S.step t s with
    | blocked => exact ih s
    | overrun => rfl
    | next s' => exact ih s'

/-- `I` survives every step, and no step overruns an array from a state with `I`. -/
def Inductive (I : σ → Prop) : Prop :=
  ∀ t s, I s → S.step t s ≠ .overrun ∧ ∀ s', S.step t s = .next s' → I s'

/-- Every step of the schedule that is not blocked starts from a state with `C`. -/
def Meets (C : τ → σ → Prop) (s : σ) : List τ → Prop
  | [] => True
  | t :: ts =>
    match S.step t s with
    | .blocked => Meets C s ts
    | .overrun => C t s
    | .next s' => C t s ∧ Meets C s' ts

/-- No thread can move. -/
def Quiet (s : σ) : Prop := ∀ t, S.step t s = .blocked

/-- `I` survives every step, no step overruns an array, and every step makes `μ` smaller. -/
def Descends (I : σ → Prop) (μ : σ → Nat) : Prop :=
  ∀ t s, I s → S.step t s = .blocked ∨ ∃ s', S.step t s = .next s' ∧ I s' ∧ μ s' < μ s

variable {S}

theorem Inductive.run {I : σ → Prop} (h : S.Inductive I) {s : σ} (hs : I s) (ts : List τ) :
    ∃ s', S.run s ts = some s' ∧ I s' := by
  induction ts generalizing s with
  | nil => exact ⟨s, rfl, hs⟩
  | cons t ts ih =>
    obtain ⟨hno, hnext⟩ := h t s hs
    rw [run_cons]
    cases hst : S.step t s with
    | blocked => exact ih hs
    | overrun => exact absurd hst hno
    | next s' => exact ih (hnext s' hst)

theorem Descends.inductive {I : σ → Prop} {μ : σ → Nat} (h : S.Descends I μ) :
    S.Inductive I := by
  intro t s hs
  obtain hb | ⟨s', hn, hs', -⟩ := h t s hs
  · refine ⟨by simp [hb], fun s' hn => ?_⟩
    rw [hb] at hn
    cases hn
  · refine ⟨by simp [hn], fun s'' hn' => ?_⟩
    cases hn.symm.trans hn'
    exact hs'

/-- From every state with `I` the threads can run on until none of them can move. -/
theorem Descends.drains {I : σ → Prop} {μ : σ → Nat} (h : S.Descends I μ) {s : σ} (hs : I s) :
    ∃ ts s', S.run s ts = some s' ∧ I s' ∧ S.Quiet s' := by
  by_cases hq : S.Quiet s
  · exact ⟨[], s, rfl, hs, hq⟩
  · obtain ⟨t, ht⟩ := Classical.not_forall.mp hq
    obtain hb | ⟨s₁, hn, hs₁, hlt⟩ := h t s hs
    · exact absurd hb ht
    · obtain ⟨ts, s', hr, hs', hq'⟩ := drains h hs₁
      exact ⟨t :: ts, s', by rw [run_cons, hn]; exact hr, hs', hq'⟩
termination_by μ s

/-- The step rule for conditions: under an invariant `I` that the steps meeting `C` keep, a
schedule runs to its end exactly when each of its steps meets `C`. -/
theorem run_isSome_iff {I : σ → Prop} {C : τ → σ → Prop}
    (hC : ∀ t s, I s → S.step t s ≠ .blocked → (S.step t s ≠ .overrun ↔ C t s))
    (hI : ∀ t s s', I s → S.step t s = .next s' → I s') {s : σ} (hs : I s) (ts : List τ) :
    (S.run s ts).isSome ↔ S.Meets C s ts := by
  induction ts generalizing s with
  | nil => simp [Meets]
  | cons t ts ih =>
    have hc := hC t s hs
    rw [run_cons, Meets]
    cases hst : S.step t s with
    | blocked => exact ih hs
    | overrun =>
      have : ¬ C t s := fun h => (hc (by simp [hst])).mpr h hst
      simp [this]
    | next s' =>
      have : C t s := (hc (by simp [hst])).mp (by simp [hst])
      simp only [this, true_and]
      exact ih (hI t s s' hs hst)

/-- A condition that the labels of a schedule satisfy in every state. -/
theorem meets_of_forall {C : τ → σ → Prop} {ts : List τ} (h : ∀ t ∈ ts, ∀ s, C t s) (s : σ) :
    S.Meets C s ts := by
  induction ts generalizing s with
  | nil => exact trivial
  | cons t ts ih =>
    have ht := h t List.mem_cons_self
    have hts := ih fun u hu => h u (List.mem_cons_of_mem t hu)
    unfold Meets
    cases S.step t s with
    | blocked => exact hts s
    | overrun => exact ht s
    | next s' => exact ⟨ht s, hts s'⟩

theorem meets_congr {C D : τ → σ → Prop} (h : ∀ t s, C t s ↔ D t s) (s : σ) (ts : List τ) :
    S.Meets C s ts ↔ S.Meets D s ts := by
  induction ts generalizing s with
  | nil => exact Iff.rfl
  | cons t ts ih =>
    unfold Meets
    cases S.step t s with
    | blocked => exact ih s
    | overrun => exact h t s
    | next s' => exact and_congr (h t s) (ih s')

/-- A property of the states that a schedule leads to. -/
theorem run_induct {I : σ → Prop} (hI : ∀ t s s', I s → S.step t s = .next s' → I s') {s s' : σ}
    (hs : I s) {ts : List τ} (hr : S.run s ts = some s') : I s' := by
  induction ts generalizing s with
  | nil => cases hr; exact hs
  | cons t ts ih =>
    rw [run_cons] at hr
    cases hst : S.step t s with
    | blocked => rw [hst] at hr; exact ih hs hr
    | overrun => rw [hst] at hr; cases hr
    | next s₁ => rw [hst] at hr; exact ih (hI t s s₁ hs hst) hr

/-- A property that the steps meeting `C` keep. -/
theorem Meets.run_induct {I : σ → Prop} {C : τ → σ → Prop}
    (hI : ∀ t s s', I s → C t s → S.step t s = .next s' → I s') {s s' : σ} {ts : List τ}
    (hm : S.Meets C s ts) (hs : I s) (hr : S.run s ts = some s') : I s' := by
  induction ts generalizing s with
  | nil => cases hr; exact hs
  | cons t ts ih =>
    rw [run_cons] at hr
    unfold Meets at hm
    cases hst : S.step t s with
    | blocked =>
      rw [hst] at hr hm
      exact ih hm hs hr
    | overrun => rw [hst] at hr; cases hr
    | next s₁ =>
      rw [hst] at hr hm
      exact ih hm.2 (hI t s s₁ hs hm.1 hst) hr

/-- If a step that fails `C` leads to `L`, where the run then stays, a run meets `C` or ends in
`L`. -/
theorem meets_or_run {I L : σ → Prop} {C : τ → σ → Prop}
    (hI : ∀ t s s', I s → S.step t s = .next s' → I s')
    (hL : ∀ t s s', I s → L s → S.step t s = .next s' → L s')
    (hC : ∀ t s s', I s → S.step t s = .next s' → ¬ C t s → L s') {s s' : σ} (hs : I s)
    {ts : List τ} (hr : S.run s ts = some s') : S.Meets C s ts ∨ L s' := by
  induction ts generalizing s with
  | nil => exact .inl trivial
  | cons t ts ih =>
    rw [run_cons] at hr
    unfold Meets
    cases hst : S.step t s with
    | blocked =>
      rw [hst] at hr
      exact ih hs hr
    | overrun => rw [hst] at hr; cases hr
    | next s₁ =>
      rw [hst] at hr
      have hs₁ := hI t s s₁ hs hst
      by_cases hc : C t s
      · obtain hm | hl := ih hs₁ hr
        · exact .inl ⟨hc, hm⟩
        · exact .inr hl
      · have hboth : ∀ t s s', I s ∧ L s → S.step t s = .next s' → I s' ∧ L s' :=
          fun t s s' h hst => ⟨hI t s s' h.1 hst, hL t s s' h.1 h.2 hst⟩
        exact .inr (run_induct hboth ⟨hs₁, hC t s s₁ hs hst hc⟩ hr).2

/-- Some schedule leads from one state to the other. -/
def Reaches (S : Sched σ τ) (s s' : σ) : Prop := ∃ ts, S.run s ts = some s'

theorem Reaches.refl (s : σ) : S.Reaches s s := ⟨[], rfl⟩

theorem Reaches.trans {s s' s'' : σ} (h : S.Reaches s s') (h' : S.Reaches s' s'') :
    S.Reaches s s'' := by
  obtain ⟨ts, hts⟩ := h
  obtain ⟨us, hus⟩ := h'
  refine ⟨ts ++ us, ?_⟩
  rw [run_append, hts]
  exact hus

theorem Reaches.step {t : τ} {s s' s'' : σ} (h : S.step t s = .next s') (h' : S.Reaches s' s'') :
    S.Reaches s s'' := by
  obtain ⟨ts, hts⟩ := h'
  refine ⟨t :: ts, ?_⟩
  rw [run_cons, h]
  exact hts

theorem Meets.mp {C D : τ → σ → Prop} {s : σ} {ts : List τ}
    (h : S.Meets (fun t s => C t s → D t s) s ts) (hC : S.Meets C s ts) : S.Meets D s ts := by
  induction ts generalizing s with
  | nil => exact trivial
  | cons t ts ih =>
    unfold Meets at h hC ⊢
    cases hst : S.step t s with
    | blocked =>
      rw [hst] at h hC
      exact ih h hC
    | overrun =>
      rw [hst] at h hC
      exact h hC
    | next s₁ =>
      rw [hst] at h hC
      exact ⟨h.1 hC.1, ih h.2 hC.2⟩

end Sched
