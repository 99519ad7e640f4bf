/-!
# Calls with an early return

A function that makes calls one after the other and returns at the first one that fails. What a call
returns is arbitrary.

* `CallStep`: a call, and what its results make the function return.
* `run`: the calls that are made, and what is returned early.
* `Passes`: no call fails. `run_append`: calls behind others are made exactly if these pass.
  `mem_run_concat`: so the last call is made exactly if all in front of it pass.
-/

/-- Calls `κ` with results in `Int`. -/
structure CallStep (κ : Type) where
  call : κ
  /-- What the function returns at once for a result of the call; `none` if it goes on. -/
  fails : Int → Option Int

namespace CallStep

variable {κ : Type}

/-- A result that is not looked at. -/
def ignored (call : κ) : CallStep κ := ⟨call, fun _ => none⟩

/-- `if(call(…)) return rc;` -/
def orReturn (call : κ) (rc : Int) : CallStep κ :=
  ⟨call, fun result => if result = 0 then none else some rc⟩

/-- `rc = call(…); if(rc) return rc;` -/
def orReturnIt (call : κ) : CallStep κ :=
  ⟨call, fun result => if result = 0 then none else some result⟩

/-- The calls that are made, and what is returned early. -/
def run (lib : κ → Int) : List (CallStep κ) → List κ × Option Int
  | [] => ([], none)
  | s :: ss =>
    match s.fails (lib s.call) with
    | some rc => ([s.call], some rc)
    | none => (s.call :: (run lib ss).1, (run lib ss).2)

/-- The call does not fail. -/
def Pass (lib : κ → Int) (s : CallStep κ) : Prop := s.fails (lib s.call) = none

/-- No call fails. -/
def Passes (lib : κ → Int) (ss : List (CallStep κ)) : Prop := ∀ s ∈ ss, s.Pass lib

variable {lib : κ → Int} {s : CallStep κ} {ss xs ys : List (CallStep κ)}

theorem pass_orReturn {call : κ} {rc : Int} : (orReturn call rc).Pass lib ↔ lib call = 0 := by
  simp [Pass, orReturn]

theorem pass_orReturnIt {call : κ} : (orReturnIt call).Pass lib ↔ lib call = 0 := by
  simp [Pass, orReturnIt]

theorem passes_cons : Passes lib (s :: ss) ↔ s.Pass lib ∧ Passes lib ss := List.forall_mem_cons

theorem run_cons_pass (h : s.Pass lib) (ss : List (CallStep κ)) :
    run lib (s :: ss) = (s.call :: (run lib ss).1, (run lib ss).2) := by
  have hs : s.fails (lib s.call) = none := h
  rw [run, hs]

theorem run_cons_fail (h : ¬ s.Pass lib) (ss : List (CallStep κ)) :
    (run lib (s :: ss)).1 = [s.call] ∧ (run lib (s :: ss)).2 ≠ none := by
  rw [run]
  cases hs : s.fails (lib s.call) with
  | none => exact absurd hs h
  | some rc => exact ⟨rfl, nofun⟩

/-- The calls behind those that pass are made. -/
theorem run_append (h : Passes lib xs) (ys : List (CallStep κ)) :
    run lib (xs ++ ys) = (xs.map call ++ (run lib ys).1, (run lib ys).2) := by
  induction xs with
  | nil => rfl
  | cons x xs ih =>
    obtain ⟨hx, hxs⟩ := passes_cons.mp h
    rw [List.cons_append, run_cons_pass hx, ih hxs]
    rfl

/-- Nothing behind a call that fails is made. -/
theorem run_append_fail (h : ¬ Passes lib xs) (ys : List (CallStep κ)) :
    run lib (xs ++ ys) = run lib xs := by
  induction xs with
  | nil => exact absurd (List.forall_mem_nil _) h
  | cons x xs ih =>
    rw [List.cons_append]
    by_cases hx : x.Pass lib
    · have hxs : ¬ Passes lib xs := fun hp => h (passes_cons.mpr ⟨hx, hp⟩)
      rw [run_cons_pass hx, run_cons_pass hx, ih hxs]
    · simp only [run]
      cases hs : x.fails (lib x.call) with
      | none => exact absurd hs hx
      | some rc => rfl

theorem mem_of_mem_run {c : κ} (h : c ∈ (run lib ss).1) : c ∈ ss.map call := by
  induction ss with
  | nil => exact h
  | cons s ss ih =>
    by_cases hs : s.Pass lib
    · rw [run_cons_pass hs] at h
      obtain rfl | h := List.mem_cons.mp h
      · exact List.mem_cons_self
      · exact List.mem_cons_of_mem _ (ih h)
    · rw [(run_cons_fail hs ss).1] at h
      rw [List.mem_singleton.mp h]
      exact List.mem_cons_self

/-- **The last call** is made exactly if no call in front of it fails. -/
theorem mem_run_concat (hs : s.call ∉ xs.map call) :
    s.call ∈ (run lib (xs ++ [s])).1 ↔ Passes lib xs := by
  constructor
  · intro h
    refine Classical.byContradiction fun hno => ?_
    rw [run_append_fail hno] at h
    exact hs (mem_of_mem_run h)
  · intro h
    have hlast : s.call ∈ (run lib [s]).1 := by
      rw [run]
      cases s.fails (lib s.call) <;> exact List.mem_cons_self
    rw [run_append h]
    exact List.mem_append_right _ hlast

end CallStep
