/-!
# Machines with one output per input

A loop that reads one input, changes its state and produces one output is a `Mealy` machine.
`after` is the state that a list of inputs leads to and `outputs` lists what the machine produced,
one entry per input.

* `after_append`, `outputs_append`: a run can be cut anywhere.
* `history`: a property of the state and of everything produced so far that every step keeps holds
  after every run. It is the rule for statements about the order of past outputs. `history_of`: the
  same for runs whose inputs all satisfy a condition.
* `outputs_induct`: an invariant of the state, and what it says of the outputs.
* `Meets`: every input of a run satisfies a condition in the state that it finds. `history_iff`: if
  a step keeps a property of the outputs exactly when its input does, so does a run.
* `forall_outputs_iff`, `meets_iff_forall`: a property of every output as a condition on the inputs,
  and when the states do not matter to it.
-/

/-- A deterministic machine with states `σ`, inputs `ι` and one output in `ω` per input. -/
structure Mealy (σ ι ω : Type) where
  step : σ → ι → σ × ω

namespace Mealy

variable {σ ι ω : Type} (M : Mealy σ ι ω)

/-- The state after the inputs `is`. -/
def after (s : σ) : List ι → σ
  | [] => s
  | i :: is => after (M.step s i).1 is

/-- The outputs of the inputs `is`, in order. -/
def outputs (s : σ) : List ι → List ω
  | [] => []
  | i :: is => (M.step s i).2 :: outputs (M.step s i).1 is

@[simp] theorem after_nil (s : σ) : M.after s [] = s := rfl

@[simp] theorem after_cons (s : σ) (i : ι) (is : List ι) :
    M.after s (i :: is) = M.after (M.step s i).1 is := rfl

@[simp] theorem outputs_nil (s : σ) : M.outputs s [] = [] := rfl

@[simp] theorem outputs_cons (s : σ) (i : ι) (is : List ι) :
    M.outputs s (i :: is) = (M.step s i).2 :: M.outputs (M.step s i).1 is := rfl

theorem after_append (s : σ) (is js : List ι) :
    M.after s (is ++ js) = M.after (M.after s is) js := by
  induction is generalizing s with
  | nil => rfl
  | cons i is ih => exact ih _

theorem outputs_append (s : σ) (is js : List ι) :
    M.outputs s (is ++ js) = M.outputs s is ++ M.outputs (M.after s is) js := by
  induction is generalizing s with
  | nil => rfl
  | cons i is ih => simp only [List.cons_append, outputs_cons, after_cons, ih]

@[simp] theorem length_outputs (s : σ) (is : List ι) : (M.outputs s is).length = is.length := by
  induction is generalizing s with
  | nil => rfl
  | cons i is ih => simp [ih]

/-- Every input of the run satisfies `C` in the state that it finds. -/
def Meets (C : σ → ι → Prop) (s : σ) : List ι → Prop
  | [] => True
  | i :: is => C s i ∧ Meets C (M.step s i).1 is

variable {M}

theorem meets_congr {C D : σ → ι → Prop} (h : ∀ s i, C s i ↔ D s i) (s : σ) (is : List ι) :
    M.Meets C s is ↔ M.Meets D s is := by
  induction is generalizing s with
  | nil => exact Iff.rfl
  | cons i is ih => exact and_congr (h s i) (ih _)

theorem meets_and {C D : σ → ι → Prop} (s : σ) (is : List ι) :
    M.Meets (fun s i => C s i ∧ D s i) s is ↔ M.Meets C s is ∧ M.Meets D s is := by
  induction is generalizing s with
  | nil => exact (and_self_iff (a := True)).symm
  | cons i is ih => exact (and_congr Iff.rfl (ih _)).trans and_and_and_comm

/-- Every output has the property `P` exactly if every input leads to one that has it. -/
theorem forall_outputs_iff {P : ω → Prop} (s : σ) (is : List ι) :
    (∀ o ∈ M.outputs s is, P o) ↔ M.Meets (fun s i => P (M.step s i).2) s is := by
  induction is generalizing s with
  | nil => exact iff_of_true (List.forall_mem_nil _) trivial
  | cons i is ih =>
    rw [outputs_cons, List.forall_mem_cons]
    exact and_congr Iff.rfl (ih _)

/-- Under an invariant `I`, which the inputs with `D` keep, a condition that comes to `D`. -/
theorem meets_iff_forall {I : σ → Prop} {C : σ → ι → Prop} {D : ι → Prop}
    (hC : ∀ s i, I s → (C s i ↔ D i)) (hI : ∀ s i, I s → D i → I (M.step s i).1) {s : σ} (h : I s)
    (is : List ι) : M.Meets C s is ↔ ∀ i ∈ is, D i := by
  induction is generalizing s with
  | nil => exact iff_of_true trivial (List.forall_mem_nil _)
  | cons i is ih =>
    rw [List.forall_mem_cons, ← hC s i h]
    exact and_congr_right fun hi => ih (hI s i h ((hC s i h).mp hi))

/-- A property of the state that every step keeps, and what it says of every output. -/
theorem outputs_induct {I : σ → Prop} {P : ω → Prop}
    (hI : ∀ s i, I s → I (M.step s i).1 ∧ P (M.step s i).2) {s : σ} (h : I s) (is : List ι) :
    ∀ o ∈ M.outputs s is, P o := by
  induction is generalizing s with
  | nil => simp
  | cons i is ih =>
    obtain ⟨hs, ho⟩ := hI s i h
    simpa only [outputs_cons, List.forall_mem_cons] using ⟨ho, ih hs⟩

/-- A property of the state and of the outputs so far that the steps with inputs in `D` keep. -/
theorem history_of {D : ι → Prop} {P : σ → List ω → Prop}
    (hstep : ∀ s os i, D i → P s os → P (M.step s i).1 (os ++ [(M.step s i).2])) {s : σ}
    {os : List ω} (h : P s os) {is : List ι} (hD : ∀ i ∈ is, D i) :
    P (M.after s is) (os ++ M.outputs s is) := by
  induction is generalizing s os with
  | nil => simpa using h
  | cons i is ih =>
    obtain ⟨hi, his⟩ := List.forall_mem_cons.mp hD
    simpa using ih (hstep s os i hi h) his

/-- A property of the state and of the outputs so far that every step keeps. -/
theorem history {P : σ → List ω → Prop}
    (hstep : ∀ s os i, P s os → P (M.step s i).1 (os ++ [(M.step s i).2])) {s : σ} {os : List ω}
    (h : P s os) (is : List ι) : P (M.after s is) (os ++ M.outputs s is) :=
  history_of (D := fun _ => True) (fun s os i _ => hstep s os i) h fun _ _ => trivial

/-- Under an invariant `I` of the state and the outputs, a property `P` of the outputs that a step
keeps exactly if its input satisfies `C`. -/
theorem history_iff {I : σ → List ω → Prop} {P : List ω → Prop} {C : σ → ι → Prop}
    (hI : ∀ s os i, I s os → I (M.step s i).1 (os ++ [(M.step s i).2]))
    (hP : ∀ s os i, I s os → (P (os ++ [(M.step s i).2]) ↔ P os ∧ C s i)) {s : σ} {l : List ω}
    (h : I s l) (is : List ι) : P (l ++ M.outputs s is) ↔ P l ∧ M.Meets C s is := by
  induction is generalizing s l with
  | nil => simp [Meets]
  | cons i is ih =>
    have := ih (hI s l i h)
    rw [List.append_assoc, List.singleton_append, hP s l i h, and_assoc] at this
    simpa [Meets] using this

end Mealy
