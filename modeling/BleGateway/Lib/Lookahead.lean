/-!
# Command lines

A loop over words where some words take the word behind them as their value. A `CommandLine` says
which words do, and what a word does to the state.

* `run`: the loop. It fails at a word whose value is missing, and where a word does.
* `Complete`: no word at the end lacks its value. `complete_of_run`: the loop accepts nothing else.
* `run_append`: a line behind a complete one is processed from the state that this one leads to.
  `runAll_eq_ok_iff`: so lines are accepted one by one exactly if all are complete and the whole is
  accepted at once.
* `Use`: a word with its value. `run_eq_applyAll`: a complete line is a sequence of uses, applied
  one after the other.
-/

/-- States `σ`, words `ω`, failures `ε`. -/
structure CommandLine (σ ω ε : Type) where
  /-- Does a word take the next one as its value? -/
  takes : ω → Bool
  flag : σ → ω → Except ε σ
  value : σ → ω → ω → Except ε σ
  /-- The value is missing. -/
  missing : σ → ω → ε

/-- A word, with its value if it has one. -/
inductive Use (ω : Type) where
  | flag (w : ω)
  | value (w v : ω)
  deriving DecidableEq, Repr

namespace Use

variable {ω : Type}

def words : Use ω → List ω
  | flag w => [w]
  | value w v => [w, v]

def word : Use ω → ω
  | flag w => w
  | value w _ => w

/-- The value, or `d` for a word without one. -/
def valueD (d : ω) : Use ω → ω
  | flag _ => d
  | value _ v => v

end Use

namespace CommandLine

variable {σ ω ε : Type} (L : CommandLine σ ω ε)

/-- The loop. -/
def run (s : σ) : List ω → Except ε σ
  | [] => .ok s
  | [w] => if L.takes w then .error (L.missing s w) else L.flag s w
  | w :: v :: ws =>
    if L.takes w then (L.value s w v).bind fun s => run s ws
    else (L.flag s w).bind fun s => run s (v :: ws)

/-- Every word that takes a value has one. -/
def Complete : List ω → Prop
  | [] => True
  | [w] => L.takes w = false
  | w :: v :: ws => if L.takes w then Complete ws else Complete (v :: ws)

/-- The uses of a line, if it is complete. -/
def uses : List ω → List (Use ω)
  | [] => []
  | [w] => [.flag w]
  | w :: v :: ws => if L.takes w then .value w v :: uses ws else .flag w :: uses (v :: ws)

/-- What a use does. -/
def apply (s : σ) : Use ω → Except ε σ
  | .flag w => L.flag s w
  | .value w v => L.value s w v

/-- Uses, one after the other. -/
def applyAll (s : σ) : List (Use ω) → Except ε σ
  | [] => .ok s
  | u :: us => (L.apply s u).bind fun s => applyAll s us

variable {L}

theorem bind_eq_ok {α β : Type} {x : Except ε α} {f : α → Except ε β} {b : β} :
    x.bind f = .ok b ↔ ∃ a, x = .ok a ∧ f a = .ok b := by
  cases x with
  | error e => simp [Except.bind]
  | ok a => simp [Except.bind]

theorem bind_assoc {α β γ : Type} (x : Except ε α) (f : α → Except ε β) (g : β → Except ε γ) :
    (x.bind f).bind g = x.bind fun a => (f a).bind g := by
  cases x <;> rfl

/-- A word without a value does not look at the next one. -/
theorem run_flag {w : ω} (hw : L.takes w = false) (s : σ) (ws : List ω) :
    L.run s (w :: ws) = (L.flag s w).bind fun s => L.run s ws := by
  cases ws with
  | nil =>
    rw [run, hw]
    cases L.flag s w <;> rfl
  | cons v ws =>
    rw [run, hw]
    rfl

theorem run_value {w : ω} (hw : L.takes w) (s : σ) (v : ω) (ws : List ω) :
    L.run s (w :: v :: ws) = (L.value s w v).bind fun s => L.run s ws := by
  rw [run, if_pos hw]

theorem complete_flag {w : ω} (hw : L.takes w = false) (ws : List ω) :
    L.Complete (w :: ws) ↔ L.Complete ws := by
  cases ws with
  | nil => exact iff_of_true hw trivial
  | cons v ws =>
    rw [Complete, hw]
    exact Iff.rfl

theorem complete_value {w : ω} (hw : L.takes w) (v : ω) (ws : List ω) :
    L.Complete (w :: v :: ws) ↔ L.Complete ws := by
  rw [Complete, if_pos hw]

/-- What is accepted is complete. -/
theorem complete_of_run {s s' : σ} {ws : List ω} (h : L.run s ws = .ok s') : L.Complete ws := by
  fun_induction L.run s ws with
  | case1 => exact trivial
  | case2 s w hw => cases h
  | case3 s w hw => exact Bool.eq_false_iff.mpr hw
  | case4 s w v ws hw ih =>
    obtain ⟨s₁, -, hrun⟩ := bind_eq_ok.mp h
    exact (complete_value hw v ws).mpr (ih s₁ hrun)
  | case5 s w v ws hw ih =>
    obtain ⟨s₁, -, hrun⟩ := bind_eq_ok.mp h
    exact (complete_flag (Bool.eq_false_iff.mpr hw) _).mpr (ih s₁ hrun)

/-- A line behind a complete one. -/
theorem run_append {xs : List ω} (hxs : L.Complete xs) (s : σ) (ys : List ω) :
    L.run s (xs ++ ys) = (L.run s xs).bind fun s => L.run s ys := by
  fun_induction L.run s xs with
  | case1 => rfl
  | case2 s w hw =>
    rw [Complete, hw] at hxs
    cases hxs
  | case3 s w hw => exact run_flag (Bool.eq_false_iff.mpr hw) s ys
  | case4 s w v ws hw ih =>
    have hws := (complete_value hw v ws).mp hxs
    rw [bind_assoc]
    refine (run_value hw s v (ws ++ ys)).trans (congrArg _ (funext fun s₁ => ih s₁ hws))
  | case5 s w v ws hw ih =>
    have hw := Bool.eq_false_iff.mpr hw
    have hws := (complete_flag hw _).mp hxs
    rw [bind_assoc]
    refine (run_flag hw s (v :: ws ++ ys)).trans (congrArg _ (funext fun s₁ => ih s₁ hws))

theorem complete_append {xs ys : List ω} (hxs : L.Complete xs) (hys : L.Complete ys) :
    L.Complete (xs ++ ys) := by
  fun_induction L.Complete xs with
  | case1 => exact hys
  | case2 w => exact (complete_flag hxs ys).mpr hys
  | case3 w v ws hw ih => exact (complete_value hw v _).mpr (ih hxs)
  | case4 w v ws hw ih => exact (complete_flag (Bool.eq_false_iff.mpr hw) _).mpr (ih hxs)

theorem complete_flatten {ls : List (List ω)} (h : ∀ l ∈ ls, L.Complete l) :
    L.Complete ls.flatten := by
  induction ls with
  | nil => exact trivial
  | cons l ls ih =>
    obtain ⟨hl, hls⟩ := List.forall_mem_cons.mp h
    exact complete_append hl (ih hls)

/-- Lines, one after the other. -/
def runAll (L : CommandLine σ ω ε) (s : σ) : List (List ω) → Except ε σ
  | [] => .ok s
  | l :: ls => (L.run s l).bind fun s => runAll L s ls

/-- **Several lines.** They are accepted one by one exactly if all are complete and the whole is
accepted at once. -/
theorem runAll_eq_ok_iff {s s' : σ} {ls : List (List ω)} :
    L.runAll s ls = .ok s' ↔ (∀ l ∈ ls, L.Complete l) ∧ L.run s ls.flatten = .ok s' := by
  induction ls generalizing s with
  | nil => simp [runAll, run]
  | cons l ls ih =>
    rw [runAll, bind_eq_ok, List.forall_mem_cons, List.flatten_cons]
    constructor
    · rintro ⟨s₁, hl, hls⟩
      have hcomplete := complete_of_run hl
      obtain ⟨hall, hrun⟩ := ih.mp hls
      refine ⟨⟨hcomplete, hall⟩, ?_⟩
      rw [run_append hcomplete, hl]
      exact hrun
    · rintro ⟨⟨hcomplete, hall⟩, hrun⟩
      rw [run_append hcomplete, bind_eq_ok] at hrun
      obtain ⟨s₁, hl, hrest⟩ := hrun
      exact ⟨s₁, hl, ih.mpr ⟨hall, hrest⟩⟩

theorem uses_append {xs : List ω} (h : L.Complete xs) (ys : List ω) :
    L.uses (xs ++ ys) = L.uses xs ++ L.uses ys := by
  have hflag {w : ω} (hw : L.takes w = false) (ws : List ω) :
      L.uses (w :: ws) = .flag w :: L.uses ws := by
    cases ws with
    | nil => rfl
    | cons v ws =>
      rw [uses, hw]
      rfl
  fun_induction L.uses xs with
  | case1 => rfl
  | case2 w => exact hflag h ys
  | case3 w v ws hw ih =>
    rw [List.cons_append, List.cons_append, uses, if_pos hw, ih ((complete_value hw v ws).mp h)]
    rfl
  | case4 w v ws hw ih =>
    have hw := Bool.eq_false_iff.mpr hw
    rw [List.cons_append, hflag hw, ih ((complete_flag hw _).mp h)]
    rfl

theorem uses_flatten {ls : List (List ω)} (h : ∀ l ∈ ls, L.Complete l) :
    L.uses ls.flatten = ls.flatMap L.uses := by
  induction ls with
  | nil => rfl
  | cons l ls ih =>
    obtain ⟨hl, hls⟩ := List.forall_mem_cons.mp h
    rw [List.flatten_cons, uses_append hl, ih hls, List.flatMap_cons]

/-- A complete line consists of its uses. -/
theorem flatMap_uses {ws : List ω} (h : L.Complete ws) : (L.uses ws).flatMap Use.words = ws := by
  fun_induction L.uses ws with
  | case1 => rfl
  | case2 w => rfl
  | case3 w v ws hw ih =>
    rw [List.flatMap_cons, ih ((complete_value hw v ws).mp h)]
    rfl
  | case4 w v ws hw ih =>
    rw [List.flatMap_cons, ih ((complete_flag (Bool.eq_false_iff.mpr hw) _).mp h)]
    rfl

/-- Each of them is complete by itself. -/
theorem complete_words {ws : List ω} (h : L.Complete ws) {u : Use ω} (hu : u ∈ L.uses ws) :
    L.Complete u.words := by
  fun_induction L.uses ws with
  | case1 => cases hu
  | case2 w =>
    cases List.mem_singleton.mp hu
    exact h
  | case3 w v ws hw ih =>
    obtain rfl | hu := List.mem_cons.mp hu
    · exact (complete_value hw v []).mpr trivial
    · exact ih ((complete_value hw v ws).mp h) hu
  | case4 w v ws hw ih =>
    have hw := Bool.eq_false_iff.mpr hw
    obtain rfl | hu := List.mem_cons.mp hu
    · exact (complete_flag hw []).mpr trivial
    · exact ih ((complete_flag hw _).mp h) hu

/-- Processing a complete line is applying its uses. -/
theorem run_eq_applyAll {ws : List ω} (h : L.Complete ws) (s : σ) :
    L.run s ws = L.applyAll s (L.uses ws) := by
  fun_induction L.uses ws generalizing s with
  | case1 => rfl
  | case2 w =>
    rw [run_flag h, applyAll]
    rfl
  | case3 w v ws hw ih =>
    rw [run_value hw, applyAll]
    exact congrArg _ (funext fun s₁ => ih ((complete_value hw v ws).mp h) s₁)
  | case4 w v ws hw ih =>
    have hw := Bool.eq_false_iff.mpr hw
    rw [run_flag hw, applyAll]
    exact congrArg _ (funext fun s₁ => ih ((complete_flag hw _).mp h) s₁)

/-- What every use keeps. -/
theorem run_induct {I : σ → Prop}
    (hflag : ∀ s w s', I s → L.flag s w = .ok s' → I s')
    (hvalue : ∀ s w v s', I s → L.value s w v = .ok s' → I s') {s s' : σ} {ws : List ω} (hs : I s)
    (h : L.run s ws = .ok s') : I s' := by
  fun_induction L.run s ws with
  | case1 s =>
    cases h
    exact hs
  | case2 s w hw => cases h
  | case3 s w hw => exact hflag s w s' hs h
  | case4 s w v ws hw ih =>
    obtain ⟨s₁, hstep, hrun⟩ := bind_eq_ok.mp h
    exact ih s₁ (hvalue s w v s₁ hs hstep) hrun
  | case5 s w v ws hw ih =>
    obtain ⟨s₁, hstep, hrun⟩ := bind_eq_ok.mp h
    exact ih s₁ (hflag s w s₁ hs hstep) hrun

end CommandLine
