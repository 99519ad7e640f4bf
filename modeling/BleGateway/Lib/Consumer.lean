import BleGateway.Lib.Mealy

/-!
# Consumers

A loop that receives a message into a buffer and then acts on what the buffer holds. A `Note` is a
receive, which finds a message or fails, or an act; a run of the loop is a list of notes, and
`iterations` cuts it at the receives.

* `actedOn`: which message each iteration acted on. Messages are numbered in the order in which they
  were received, from 1 on.
* `HandlesOnce`: no message is acted on in two iterations, and none that failed to receive acts.
* `handlesOnce_iff`: the second implies the first.
* `handlesOnce_receive`, `handlesOnce_acts`: the rules for one more note.
* `handlesOnce_outputs_iff`: the rule for a machine that gives the notes of one iteration per input.
-/

inductive Note where
  | receive (ok : Bool)
  | act
  deriving DecidableEq, Repr

/-- An iteration: did it receive a message, and did it act? -/
structure Iteration where
  ok : Bool
  acted : Bool
  deriving DecidableEq, Repr

namespace Consumer

/-- One more note, on the iterations so far. The newest is in front. -/
def note (log : List Iteration) : Note → List Iteration
  | .receive ok => ⟨ok, false⟩ :: log
  | .act =>
    match log with
    | [] => []
    | it :: log => { it with acted := true } :: log

/-- The iterations of a run, the newest in front. -/
def iterations (ns : List Note) : List Iteration := ns.foldl note []

/-- How many messages were received. -/
def received (log : List Iteration) : Nat := log.countP (·.ok)

/-- The numbers of the messages that were acted on. -/
def actedOn : List Iteration → List Nat
  | [] => []
  | it :: log => (if it.acted then [received (it :: log)] else []) ++ actedOn log

/-- No iteration acts without a message of its own. -/
def Quiet (log : List Iteration) : Prop := ∀ it ∈ log, it.ok = false → it.acted = false

structure HandlesOnce (ns : List Note) : Prop where
  once : (actedOn (iterations ns)).Nodup
  quiet : Quiet (iterations ns)

/-- The newest iteration has received a message. -/
def LastOk (ns : List Note) : Prop := ∀ it, (iterations ns).head? = some it → it.ok = true

theorem le_received {log : List Iteration} {n : Nat} (h : n ∈ actedOn log) : n ≤ received log := by
  induction log with
  | nil => cases h
  | cons it log ih =>
    rcases List.mem_append.mp h with h | h
    · split at h
      · exact Nat.le_of_eq (List.mem_singleton.mp h)
      · cases h
    · refine Nat.le_trans (ih h) ?_
      rw [received, received, List.countP_cons]
      exact Nat.le_add_right _ _

/-- An iteration that acts has received the newest message. -/
theorem nodup_of_quiet {log : List Iteration} (h : Quiet log) : (actedOn log).Nodup := by
  induction log with
  | nil => exact .nil
  | cons it log ih =>
    have hlog := ih fun it' hit => h it' (List.mem_cons_of_mem _ hit)
    rw [actedOn]
    split
    · next ha =>
      have hok : it.ok = true := by
        cases hok : it.ok with
        | true => rfl
        | false => rw [h it List.mem_cons_self hok] at ha; cases ha
      have hnew : received (it :: log) = received log + 1 := by
        rw [received, received, List.countP_cons, if_pos hok]
      refine List.nodup_cons.mpr ⟨fun hmem => ?_, hlog⟩
      have := le_received hmem
      omega
    · exact hlog

theorem handlesOnce_iff (ns : List Note) : HandlesOnce ns ↔ Quiet (iterations ns) :=
  ⟨HandlesOnce.quiet, fun h => ⟨nodup_of_quiet h, h⟩⟩

theorem iterations_append (ns ms : List Note) :
    iterations (ns ++ ms) = ms.foldl note (iterations ns) := List.foldl_append

theorem handlesOnce_nil : HandlesOnce [] := ⟨.nil, by simp [Quiet, iterations]⟩

theorem lastOk_nil : LastOk [] := by simp [LastOk, iterations]

theorem lastOk_receive (ns : List Note) (ok : Bool) :
    LastOk (ns ++ [.receive ok]) ↔ ok = true := by
  simp [LastOk, iterations_append, note]

/-- A receive alone does no harm. -/
theorem handlesOnce_receive (ns : List Note) (ok : Bool) :
    HandlesOnce (ns ++ [.receive ok]) ↔ HandlesOnce ns := by
  simp [handlesOnce_iff, iterations_append, note, Quiet]

theorem lastOk_act (ns : List Note) : LastOk (ns ++ [.act]) ↔ LastOk ns := by
  rw [LastOk, LastOk, iterations_append]
  cases iterations ns <;> simp [note]

/-- An act needs a message. -/
theorem handlesOnce_act (ns : List Note) :
    HandlesOnce (ns ++ [.act]) ↔ HandlesOnce ns ∧ LastOk ns := by
  rw [handlesOnce_iff, handlesOnce_iff, LastOk, iterations_append]
  cases iterations ns with
  | nil => simp [note, Quiet]
  | cons it log =>
    simp only [List.foldl_cons, List.foldl_nil, note, Quiet, List.forall_mem_cons, List.head?_cons,
      Option.some.injEq, forall_eq']
    cases it.ok <;> simp

theorem lastOk_acts (ns : List Note) (k : Nat) :
    LastOk (ns ++ List.replicate k .act) ↔ LastOk ns := by
  induction k generalizing ns with
  | zero => simp
  | succ k ih =>
    rw [List.replicate_succ, List.append_cons, ih, lastOk_act]

theorem handlesOnce_acts (ns : List Note) (k : Nat) :
    HandlesOnce (ns ++ List.replicate k .act) ↔ HandlesOnce ns ∧ (0 < k → LastOk ns) := by
  induction k generalizing ns with
  | zero => simp
  | succ k ih =>
    rw [List.replicate_succ, List.append_cons, ih, handlesOnce_act, lastOk_act]
    constructor
    · rintro ⟨⟨h, hl⟩, -⟩
      exact ⟨h, fun _ => hl⟩
    · rintro ⟨h, hl⟩
      exact ⟨⟨h, hl (Nat.succ_pos k)⟩, fun _ => hl (Nat.succ_pos k)⟩

/-- If an input does harm exactly where it fails `C`, a run handles everything once exactly if all
its inputs meet `C`. -/
theorem handlesOnce_outputs_iff {σ ι : Type} {M : Mealy σ ι (List Note)}
    {I : σ → List (List Note) → Prop} {C : σ → ι → Prop}
    (hI : ∀ s l i, I s l → I (M.step s i).1 (l ++ [(M.step s i).2]))
    (hC : ∀ s l i, I s l →
      (HandlesOnce (l.flatten ++ (M.step s i).2) ↔ HandlesOnce l.flatten ∧ C s i))
    {s : σ} (h : I s []) (is : List ι) :
    HandlesOnce (M.outputs s is).flatten ↔ M.Meets C s is := by
  have hstep : ∀ s l i, I s l →
      (HandlesOnce (l ++ [(M.step s i).2]).flatten ↔ HandlesOnce l.flatten ∧ C s i) := by
    intro s l i hs
    rw [List.flatten_append, List.flatten_singleton]
    exact hC s l i hs
  have hrun := Mealy.history_iff (P := fun l => HandlesOnce l.flatten) hI hstep h is
  rw [List.nil_append] at hrun
  exact hrun.trans (and_iff_right handlesOnce_nil)

end Consumer
