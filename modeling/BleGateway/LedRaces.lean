import Mathlib.Data.List.Induction
import Mathlib.Data.List.ReduceOption
import BleGateway.Lib.Mealy
import BleGateway.Lib.Stores
import BleGateway.LedGrammar

/-!
# The LEDs, access by access (`LED_Manager/led_controller.c`, lines 86–116 and 132–135)

`LedPins.lean` takes a pass of `Led_Controller_Processing` in one step. Here every read and every
store of `GPIO[i]` is a step, and so is the drive of the pin in between; a command of
`Led_Controller` can be stored between any two of them.

* `ledThreads`: the two threads. `LedPc`: what the processing thread does next.
* `turn_spec`, `pass_run`: left alone, it does what `processLed` and `pass` say. `exists_steps`: so
  the runs by passes are among the runs here.
* `NoneLost`: when `state` becomes 5, the pin has the level of the last command to it.
* `Undisturbed`: the commands stored between the read of a level and the store of 5.
* `noneLost_iff`: nothing is lost exactly if the last of these, if there is one, asks for the level
  that was read.
-/

namespace Ble

/-! ## The threads -/

/-- The branches of the loop: `state` is 1 (`once true`) or 0 (`once false`), or it is 2 and `flag`
is 1 (`toggle true`) or 0 (`toggle false`). -/
inductive LedBranch where
  | once (level : Bool)
  | toggle (level : Bool)
  deriving DecidableEq, Repr

namespace LedBranch

/-- `pin_ON(i)` or `pin_OFF(i)`. -/
def level : LedBranch → Bool
  | once level | toggle level => level

/-- What the branch stores into `GPIO[i]`. -/
def store : LedBranch → LedState → LedState
  | once _, l => { l with state := 5 }
  | toggle true, l => { l with flag := 0 }
  | toggle false, l => { l with flag := 1 }

end LedBranch

/-- What `Led_Controller_Processing` does next with `GPIO[i]`. -/
inductive LedPc where
  /-- Reads `state` for the condition of a branch. -/
  | state (b : LedBranch)
  /-- Reads `flag` for the condition of the branch `toggle level`. -/
  | flag (level : Bool)
  | drive (b : LedBranch)
  | store (b : LedBranch)
  deriving DecidableEq, Repr

/-- The array, and where `Led_Controller_Processing` is. -/
structure LedThreads where
  gpio : Gpio
  i : Fin numberOfLed
  pc : LedPc
  deriving DecidableEq

/-- A step of one of the threads. -/
inductive LedStep where
  /-- `Led_Controller` stores a command. -/
  | command (c : LedCommand)
  /-- `Led_Controller_Processing` goes on. -/
  | processing
  deriving DecidableEq, Repr

namespace LedThreads

/-- `GPIO[i]`. -/
def led (s : LedThreads) : LedState := s.gpio.get s.i

/-- Goes on with the same pin. -/
def goto (s : LedThreads) (pc : LedPc) : LedThreads := { s with pc }

/-- The pin with the index `k`, or the first one behind the last. -/
def pinAt (k : Nat) : Fin numberOfLed := ⟨k % numberOfLed, Nat.mod_lt k (Nat.zero_lt_succ 3)⟩

/-- Goes on with the next pin, or with the first one of the next pass. -/
def nextPin (s : LedThreads) : LedThreads where
  gpio := s.gpio
  i := pinAt (s.i.val + 1)
  pc := .state (.once true)

/-- `GPIO[gpio_number].state = gpio_value`: what `update_structure` does for a command
(`updateStructure_setState`). -/
def setState (s : LedThreads) (c : LedCommand) : LedThreads := { s with gpio := c.applied s.gpio }

/-- The store of the branch `b`. -/
def storeLed (s : LedThreads) (b : LedBranch) : LedThreads :=
  { s with gpio := s.gpio.set s.i (b.store s.led) s.i.isLt }

/-- One access of `Led_Controller_Processing`. -/
def processing (s : LedThreads) : LedThreads × Option Drive :=
  match s.pc with
  | .state (.once true) =>
    (s.goto (if s.led.state = 1 then .drive (.once true) else .state (.once false)), none)
  | .state (.once false) =>
    (s.goto (if s.led.state = 0 then .drive (.once false) else .state (.toggle true)), none)
  | .state (.toggle true) =>
    (s.goto (if s.led.state = 2 then .flag true else .state (.toggle false)), none)
  | .flag true =>
    (s.goto (if s.led.flag = 1 then .drive (.toggle true) else .state (.toggle false)), none)
  | .state (.toggle false) =>
    (if s.led.state = 2 then s.goto (.flag false) else s.nextPin, none)
  | .flag false =>
    (if s.led.flag = 0 then s.goto (.drive (.toggle false)) else s.nextPin, none)
  | .drive b => (s.goto (.store b), some ⟨s.i, b.level⟩)
  | .store b => ((s.storeLed b).nextPin, none)

/-- In front of a pass. -/
def passStart (gpio : Gpio) : LedThreads := ⟨gpio, pinAt 0, .state (.once true)⟩

/-- At program start. -/
def start : LedThreads := passStart (Vector.replicate numberOfLed ⟨0, 0⟩)

end LedThreads

/-- The two threads. A step may drive a pin. -/
def ledThreads : Mealy LedThreads LedStep (Option Drive) where
  step s e :=
    match e with
    | .command c => (s.setState c, none)
    | .processing => s.processing

theorem ledThreads_command (s : LedThreads) (c : LedCommand) :
    ledThreads.step s (.command c) = (s.setState c, none) := rfl

theorem ledThreads_processing (s : LedThreads) : ledThreads.step s .processing = s.processing := rfl

namespace LedThreads

theorem updateStructure_setState (s : LedThreads) (c : LedCommand) :
    updateStructure s.gpio c.update = some (s.setState c).gpio := updateStructure_command s.gpio c

/-! ## Left alone -/

/-- Without commands in between, the processing thread gets from `s` to `s'` and drives `ds`. -/
def Solo (s s' : LedThreads) (ds : List Drive) : Prop :=
  ∃ n, ledThreads.after s (List.replicate n .processing) = s' ∧
    (ledThreads.outputs s (List.replicate n .processing)).reduceOption = ds

namespace Solo

theorem refl (s : LedThreads) : Solo s s [] := ⟨0, rfl, rfl⟩

theorem step {s s' : LedThreads} {ds : List Drive} (h : Solo s.processing.1 s' ds) :
    Solo s s' (s.processing.2.toList ++ ds) := by
  obtain ⟨n, hs, hds⟩ := h
  refine ⟨n + 1, hs, ?_⟩
  rw [List.replicate_succ, Mealy.outputs_cons, ledThreads_processing, ← hds]
  cases s.processing.2 <;> rfl

theorem trans {s s' s'' : LedThreads} {ds ds' : List Drive} (h : Solo s s' ds)
    (h' : Solo s' s'' ds') : Solo s s'' (ds ++ ds') := by
  obtain ⟨n, rfl, rfl⟩ := h
  obtain ⟨n', rfl, rfl⟩ := h'
  refine ⟨n + n', ?_, ?_⟩
  · rw [← List.replicate_append_replicate, Mealy.after_append]
  · rw [← List.replicate_append_replicate, Mealy.outputs_append, List.reduceOption_append]

end Solo

/-- A condition that was read, without a drive. -/
theorem solo_read {s t s' : LedThreads} {ds : List Drive} (h : s.processing = (t, none))
    (hs : Solo t s' ds) : Solo s s' ds := by
  have hstep := Solo.step (s := s) (by rw [h]; exact hs)
  rw [h] at hstep
  exact hstep

section
variable {gpio : Gpio} {i : Fin numberOfLed}

/-- The end of a turn, as `passStep` has it. -/
def turnEnd (gpio : Gpio) (i : Fin numberOfLed) : LedThreads :=
  nextPin ⟨(passStep (gpio, []) i).1, i, .state (.once true)⟩

/-- Behind the conditions: the drive, the store, and on to the next pin. -/
theorem solo_drive {b : LedBranch}
    (h : processLed (gpio.get i) = (b.store (gpio.get i), some b.level)) :
    Solo ⟨gpio, i, .drive b⟩ (turnEnd gpio i) (passStep (gpio, []) i).2 := by
  have hstore : Solo ⟨gpio, i, .store b⟩ (turnEnd gpio i) [] := by
    rw [turnEnd, passStep, h]
    exact Solo.step (.refl _)
  rw [passStep, h]
  exact Solo.step hstore

/-- Without a condition that holds. -/
theorem solo_skip {pc : LedPc} (h : processLed (gpio.get i) = (gpio.get i, none)) :
    Solo (nextPin ⟨gpio, i, pc⟩) (turnEnd gpio i) (passStep (gpio, []) i).2 := by
  have hset : gpio.set i (gpio.get i) i.isLt = gpio := Vector.set_getElem_self i.isLt
  rw [turnEnd, passStep, h]
  show Solo _ (nextPin ⟨gpio.set i (gpio.get i) i.isLt, i, _⟩) []
  rw [hset]
  exact .refl _

end

/-- A turn of the loop. The conditions are read in the order of the source, up to one that holds;
the third and the fourth take two reads. -/
theorem turn_spec (gpio : Gpio) (i : Fin numberOfLed) :
    Solo ⟨gpio, i, .state (.once true)⟩ (turnEnd gpio i) (passStep (gpio, []) i).2 := by
  by_cases h1 : (gpio.get i).state = 1
  · exact solo_read (t := ⟨gpio, i, .drive (.once true)⟩) (by simp [processing, led, goto, h1])
      (solo_drive (by rw [processLed, if_pos h1]; rfl))
  refine solo_read (t := ⟨gpio, i, .state (.once false)⟩) (by simp [processing, led, goto, h1]) ?_
  by_cases h0 : (gpio.get i).state = 0
  · exact solo_read (t := ⟨gpio, i, .drive (.once false)⟩) (by simp [processing, led, goto, h0])
      (solo_drive (by rw [processLed, if_neg h1, if_pos h0]; rfl))
  refine solo_read (t := ⟨gpio, i, .state (.toggle true)⟩) (by simp [processing, led, goto, h0]) ?_
  by_cases h2 : (gpio.get i).state = 2
  · refine solo_read (t := ⟨gpio, i, .flag true⟩) (by simp [processing, led, goto, h2]) ?_
    by_cases hf1 : (gpio.get i).flag = 1
    · exact solo_read (t := ⟨gpio, i, .drive (.toggle true)⟩)
        (by simp [processing, led, goto, hf1])
        (solo_drive (by rw [processLed, if_neg h1, if_neg h0, if_pos ⟨h2, hf1⟩]; rfl))
    refine solo_read (t := ⟨gpio, i, .state (.toggle false)⟩)
      (by simp [processing, led, goto, hf1]) ?_
    refine solo_read (t := ⟨gpio, i, .flag false⟩) (by simp [processing, led, goto, h2]) ?_
    have hthird : ¬((gpio.get i).state = 2 ∧ (gpio.get i).flag = 1) := fun h => hf1 h.2
    by_cases hf0 : (gpio.get i).flag = 0
    · exact solo_read (t := ⟨gpio, i, .drive (.toggle false)⟩)
        (by simp [processing, led, goto, hf0])
        (solo_drive (by
          rw [processLed, if_neg h1, if_neg h0, if_neg hthird, if_pos ⟨h2, hf0⟩]
          rfl))
    · exact solo_read (t := nextPin ⟨gpio, i, .flag false⟩) (by simp [processing, led, hf0])
        (solo_skip (by
          rw [processLed, if_neg h1, if_neg h0, if_neg hthird, if_neg fun h => hf0 h.2]))
  · refine solo_read (t := ⟨gpio, i, .state (.toggle false)⟩)
      (by simp [processing, led, goto, h2]) ?_
    exact solo_read (t := nextPin ⟨gpio, i, .state (.toggle false)⟩)
      (by simp [processing, led, h2])
      (solo_skip (by
        rw [processLed, if_neg h1, if_neg h0, if_neg fun h => h2 h.1, if_neg fun h => h2 h.1]))

/-- The first `k` turns of a pass. -/
theorem turns_run (gpio : Gpio) {k : Nat} (hk : k ≤ numberOfLed) :
    Solo (passStart gpio)
      ⟨(((List.finRange numberOfLed).take k).foldl passStep (gpio, [])).1, pinAt k,
        .state (.once true)⟩
      (((List.finRange numberOfLed).take k).foldl passStep (gpio, [])).2 := by
  induction k with
  | zero => exact .refl _
  | succ k ih =>
    have hpin : pinAt k = ⟨k, hk⟩ := Fin.ext (Nat.mod_eq_of_lt hk)
    have hlen : k < (List.finRange numberOfLed).length := by
      rw [List.length_finRange]
      exact hk
    have htake : (List.finRange numberOfLed).take (k + 1) =
        (List.finRange numberOfLed).take k ++ [pinAt k] := by
      rw [List.take_succ_eq_append_getElem hlen, hpin]
      simp
    have hturn := turn_spec (((List.finRange numberOfLed).take k).foldl passStep (gpio, [])).1
      (pinAt k)
    have hnext : pinAt ((pinAt k).val + 1) = pinAt (k + 1) := by rw [hpin]
    rw [htake, List.foldl_append, ← hnext]
    exact (ih (Nat.le_of_lt hk)).trans hturn

/-- **A pass.** From the first pin on, the processing thread comes back to the first pin with the
array and the drives of a pass. -/
theorem pass_run (gpio : Gpio) :
    Solo (passStart gpio) (passStart (pass gpio).1) (pass gpio).2 := by
  have hall : (List.finRange numberOfLed).take numberOfLed = List.finRange numberOfLed :=
    List.take_of_length_le (Nat.le_of_eq List.length_finRange)
  have h := turns_run gpio (Nat.le_refl numberOfLed)
  rw [hall] at h
  exact h

end LedThreads

/-! ## Commands -/

/-- The commands that the steps store. -/
def LedStep.commands (es : List LedStep) : List LedCommand :=
  es.filterMap fun
    | command c => some c
    | processing => none

/-- The value of the latest command to the pin `i`. -/
def latest (i : Fin numberOfLed) (cs : List LedCommand) : Option (Fin 3) :=
  Stores.last (cs.map fun c => (c.pin, c.value)) i

theorem latest_append (i : Fin numberOfLed) (cs ds : List LedCommand) :
    latest i (cs ++ ds) = (latest i ds).or (latest i cs) := by
  rw [latest, List.map_append, Stores.last_append]
  rfl

theorem latest_singleton (i : Fin numberOfLed) (c : LedCommand) :
    latest i [c] = if c.pin = i then some c.value else none := Stores.last_singleton _ i

theorem LedStep.commands_append (es fs : List LedStep) :
    commands (es ++ fs) = commands es ++ commands fs := List.filterMap_append

theorem LedStep.commands_map (cs : List LedCommand) : commands (cs.map command) = cs := by
  rw [commands, List.filterMap_map]
  exact List.filterMap_some

theorem LedStep.commands_replicate (n : Nat) :
    commands (List.replicate n processing) = [] := by
  induction n with
  | zero => rfl
  | succ n ih => exact ih

/-- The commands of a run by passes. -/
def LedEvent.commands (es : List LedEvent) : List LedCommand :=
  es.filterMap fun
    | command c _ => some c
    | pass => none

namespace LedThreads

/-- **Runs by passes.** With the same commands, every run of `ledPins` is a run of the threads that
leaves the processing thread alone for a pass at a time. -/
theorem exists_steps (s : LedPins) (es : List LedEvent) : ∃ s' steps,
    ledPins.run s es = some s' ∧ LedStep.commands steps = LedEvent.commands es ∧
      ledThreads.after (passStart s.gpio) steps = passStart s'.gpio ∧
      s'.passes.flatten =
        s.passes.flatten ++ (ledThreads.outputs (passStart s.gpio) steps).reduceOption := by
  induction es generalizing s with
  | nil => exact ⟨s, [], rfl, rfl, rfl, (List.append_nil _).symm⟩
  | cons e es ih =>
    cases e with
    | command c beyond =>
      obtain ⟨controller, hstep⟩ := LedPins.step_command s c beyond
      obtain ⟨s', steps, hrun, hcommands, hafter, hdrives⟩ :=
        ih { s with controller, gpio := c.applied s.gpio }
      refine ⟨s', .command c :: steps, ?_, congrArg (c :: ·) hcommands, hafter, hdrives⟩
      rw [Sched.run_cons, hstep]
      exact hrun
    | pass =>
      obtain ⟨n, hpass, hds⟩ := pass_run s.gpio
      obtain ⟨s', steps, hrun, hcommands, hafter, hdrives⟩ :=
        ih { s with gpio := (pass s.gpio).1, passes := s.passes ++ [(pass s.gpio).2] }
      refine ⟨s', List.replicate n .processing ++ steps, ?_, ?_, ?_, ?_⟩
      · rw [Sched.run_cons, LedPins.step_pass]
        exact hrun
      · rw [LedStep.commands_append, LedStep.commands_replicate]
        exact hcommands
      · rw [Mealy.after_append, hpass]
        exact hafter
      · rw [hdrives, Mealy.outputs_append, hpass, List.reduceOption_append, hds]
        simp

/-! ## What a step does -/

/-- The next read finds the `state` of a level. -/
def Finds (s : LedThreads) (level : Bool) : Prop :=
  s.pc = .state (.once level) ∧ s.led.state = level.toNat

/-- What an access of the processing thread can do. -/
inductive Performs (s : LedThreads) : LedThreads × Option Drive → Prop where
  | read (pc : LedPc) (hstore : ∀ b, pc ≠ .store b)
      (hdrive : ∀ level, pc = .drive (.once level) → s.Finds level) : Performs s (s.goto pc, none)
  | skip : Performs s (s.nextPin, none)
  | drive (b : LedBranch) (h : s.pc = .drive b) :
      Performs s (s.goto (.store b), some ⟨s.i, b.level⟩)
  | store (b : LedBranch) (h : s.pc = .store b) : Performs s ((s.storeLed b).nextPin, none)

theorem processing_performs (s : LedThreads) : Performs s s.processing := by
  unfold processing
  split
  next hpc =>
    split
    next h => exact .read _ nofun fun level hl => by cases hl; exact ⟨hpc, h⟩
    next => exact .read _ nofun nofun
  next hpc =>
    split
    next h => exact .read _ nofun fun level hl => by cases hl; exact ⟨hpc, h⟩
    next => exact .read _ nofun nofun
  next => split <;> exact .read _ nofun nofun
  next => split <;> exact .read _ nofun nofun
  next =>
    split
    next => exact .read _ nofun nofun
    next => exact .skip
  next =>
    split
    next => exact .read _ nofun nofun
    next => exact .skip
  next b hpc => exact .drive b hpc
  next b hpc => exact .store b hpc

theorem Finds.processing {s : LedThreads} {level : Bool} (h : s.Finds level) :
    s.processing = (s.goto (.drive (.once level)), none) := by
  obtain ⟨hpc, hstate⟩ := h
  rw [LedThreads.processing, hpc]
  cases level
  · simp [hstate]
  · simp [hstate]

theorem processing_of_drive {s : LedThreads} {b : LedBranch} (h : s.pc = .drive b) :
    s.processing = (s.goto (.store b), some ⟨s.i, b.level⟩) := by rw [processing, h]

theorem processing_of_store {s : LedThreads} {b : LedBranch} (h : s.pc = .store b) :
    s.processing = ((s.storeLed b).nextPin, none) := by rw [processing, h]

theorem setState_state (s : LedThreads) (c : LedCommand) (i : Fin numberOfLed) :
    ((s.setState c).gpio.get i).state =
      if c.pin = i then (c.value.val : Int) else (s.gpio.get i).state := by
  rw [setState, LedCommand.applied, get_set]
  split <;> rfl

/-- The processing thread changes `state` at one place only: behind an ON or OFF it stores 5. -/
theorem processing_state (s : LedThreads) (i : Fin numberOfLed) :
    (s.processing.1.gpio.get i).state = (s.gpio.get i).state ∨
      ((s.processing.1.gpio.get i).state = 5 ∧ s.i = i ∧ ∃ level, s.pc = .store (.once level)) := by
  have hperf := s.processing_performs
  generalize s.processing = p at hperf
  cases hperf with
  | read | skip | drive => exact .inl rfl
  | store b h =>
    show ((s.storeLed b).gpio.get i).state = _ ∨ ((s.storeLed b).gpio.get i).state = _ ∧ _
    rw [storeLed, get_set]
    by_cases hi : s.i = i
    · rw [if_pos hi]
      cases b with
      | once level => exact .inr ⟨rfl, hi, level, h⟩
      | toggle level =>
        subst hi
        cases level <;> exact .inl rfl
    · rw [if_neg hi]
      exact .inl rfl

/-- The drive to a level comes behind a read that found it. -/
theorem processing_drive {s : LedThreads} {level : Bool}
    (h : s.processing.1.pc = .drive (.once level)) : s.Finds level ∧ s.processing.1.i = s.i := by
  have hperf := s.processing_performs
  generalize s.processing = p at hperf h
  cases hperf with
  | read pc _ hdrive => exact ⟨hdrive level h, rfl⟩
  | skip | drive | store => cases h

/-- The store comes behind the drive. -/
theorem processing_store {s : LedThreads} {b : LedBranch} (h : s.processing.1.pc = .store b) :
    s.pc = .drive b ∧ s.processing.1.i = s.i := by
  have hperf := s.processing_performs
  generalize s.processing = p at hperf h
  cases hperf with
  | read pc hstore => exact absurd h (hstore b)
  | drive b' hpc =>
    cases h
    exact ⟨hpc, rfl⟩
  | skip | store => cases h

/-! ## Runs -/

/-- The state that the steps lead to. -/
def reach (es : List LedStep) : LedThreads := ledThreads.after start es

/-- `GPIO[i].state` behind the steps. -/
def stateAt (es : List LedStep) (i : Fin numberOfLed) : Int := ((reach es).gpio.get i).state

/-- The level that the pin `i` was last driven to. -/
def lastLevel (es : List LedStep) (i : Fin numberOfLed) : Option Bool :=
  (levels i (ledThreads.outputs start es).reduceOption).getLast?

/-- The pin `i` was last driven to the level of the latest command to it, if there is one. -/
def Acted (es : List LedStep) (i : Fin numberOfLed) : Prop :=
  ∀ value ∈ latest i (LedStep.commands es),
    ∃ level, lastLevel es i = some level ∧ value.val = level.toNat

/-- Whenever `state` becomes 5, the command was acted on. -/
def NoneLost (es : List LedStep) : Prop :=
  ∀ before e rest, es = before ++ e :: rest → ∀ i,
    stateAt before i ≠ 5 → stateAt (before ++ [e]) i = 5 → Acted (before ++ [e]) i

/-- A read and the drive behind it, with the commands that come in between them and after. -/
def window (cs ds : List LedCommand) : List LedStep :=
  .processing :: cs.map .command ++ .processing :: ds.map .command

/-- Of the commands to the pin that are stored between a read that finds a level and the store of 5,
the last one asks for this level. -/
def Undisturbed (es : List LedStep) : Prop :=
  ∀ before cs ds rest level, es = before ++ window cs ds ++ .processing :: rest →
    (reach before).Finds level →
      ∀ value ∈ latest (reach before).i (cs ++ ds), value.val = level.toNat

theorem reach_append (es fs : List LedStep) :
    reach (es ++ fs) = ledThreads.after (reach es) fs := Mealy.after_append ..

theorem reach_concat (es : List LedStep) (e : LedStep) :
    reach (es ++ [e]) = (ledThreads.step (reach es) e).1 := reach_append es [e]

theorem lastLevel_append (es fs : List LedStep) (i : Fin numberOfLed) :
    lastLevel (es ++ fs) i =
      (levels i (ledThreads.outputs (reach es) fs).reduceOption).getLast?.or (lastLevel es i) := by
  rw [lastLevel, Mealy.outputs_append, List.reduceOption_append, levels_append,
    List.getLast?_append]
  rfl

/-- Commands one after the other change `state` of their pins. -/
theorem after_commands (s : LedThreads) (cs : List LedCommand) :
    (ledThreads.after s (cs.map .command)).i = s.i ∧
      (ledThreads.after s (cs.map .command)).pc = s.pc ∧
      (ledThreads.outputs s (cs.map .command)).reduceOption = [] ∧
      ∀ i, ((ledThreads.after s (cs.map .command)).gpio.get i).state =
        (latest i cs).elim (s.gpio.get i).state fun value => value.val := by
  induction cs generalizing s with
  | nil => exact ⟨rfl, rfl, rfl, fun i => rfl⟩
  | cons c cs ih =>
    obtain ⟨hi, hpc, hdrives, hstate⟩ := ih (s.setState c)
    refine ⟨hi, hpc, hdrives, fun i => ?_⟩
    have hlatest : latest i (c :: cs) = (latest i cs).or (latest i [c]) :=
      latest_append i [c] cs
    rw [hlatest, latest_singleton]
    refine (hstate i).trans ?_
    rw [setState_state]
    cases latest i cs with
    | some value => rfl
    | none => by_cases hc : c.pin = i <;> simp [hc]

/-- `state` is 5, or it is the latest command, or what it is at program start. -/
theorem stateAt_spec (es : List LedStep) (i : Fin numberOfLed) : stateAt es i = 5 ∨
    stateAt es i = (latest i (LedStep.commands es)).elim 0 fun value => (value.val : Int) := by
  induction es using List.reverseRecOn with
  | nil =>
    have hzero : (start.gpio.get i).state = 0 :=
      congrArg LedState.state (Vector.getElem_replicate i.isLt)
    exact .inr hzero
  | append_singleton es e ih =>
    rw [stateAt, reach_concat, LedStep.commands_append, latest_append]
    cases e with
    | command c =>
      show _ ∨ _ = ((latest i [c]).or _).elim 0 _
      rw [ledThreads_command, setState_state, latest_singleton]
      by_cases hc : c.pin = i
      · rw [if_pos hc, if_pos hc]
        exact .inr rfl
      · rw [if_neg hc, if_neg hc]
        exact ih
    | processing =>
      rw [ledThreads_processing]
      obtain hsame | ⟨h5, -⟩ := (reach es).processing_state i
      · rw [hsame]
        exact ih
      · exact .inl h5

/-- Behind a read that finds a level the pin is driven to it, and the store comes next. -/
theorem after_window {s : LedThreads} {level : Bool} (h : s.Finds level) (cs ds : List LedCommand) :
    (ledThreads.after s (window cs ds)).i = s.i ∧
      (ledThreads.after s (window cs ds)).pc = .store (.once level) ∧
      (ledThreads.outputs s (window cs ds)).reduceOption = [⟨s.i, level⟩] ∧
      ((ledThreads.after s (window cs ds)).gpio.get s.i).state =
        (latest s.i (cs ++ ds)).elim (level.toNat : Int) fun value => value.val := by
  have hread := h.processing
  obtain ⟨hi₁, hpc₁, hdrives₁, hstate₁⟩ := after_commands (s.goto (.drive (.once level))) cs
  generalize ht : ledThreads.after (s.goto (.drive (.once level))) (cs.map .command) = t at *
  have hdrive : t.processing = (t.goto (.store (.once level)), some ⟨s.i, level⟩) := by
    rw [processing_of_drive hpc₁, hi₁]
    rfl
  obtain ⟨hi₂, hpc₂, hdrives₂, hstate₂⟩ := after_commands (t.goto (.store (.once level))) ds
  have hafter : ledThreads.after s (window cs ds) =
      ledThreads.after (t.goto (.store (.once level))) (ds.map .command) := by
    rw [window, List.cons_append, Mealy.after_cons, ledThreads_processing, hread,
      Mealy.after_append, ht, Mealy.after_cons, ledThreads_processing, hdrive]
  have houtputs : (ledThreads.outputs s (window cs ds)).reduceOption = [⟨s.i, level⟩] := by
    rw [window, List.cons_append, Mealy.outputs_cons, ledThreads_processing, hread,
      Mealy.outputs_append, ht, Mealy.outputs_cons, ledThreads_processing, hdrive,
      List.reduceOption_cons_of_none, List.reduceOption_append, hdrives₁,
      List.reduceOption_cons_of_some, hdrives₂, List.nil_append]
  rw [hafter]
  refine ⟨hi₂.trans hi₁, hpc₂, houtputs, ?_⟩
  rw [hstate₂ s.i, latest_append]
  show (latest s.i ds).elim (t.gpio.get s.i).state _ = _
  rw [hstate₁ s.i]
  cases latest s.i ds with
  | some value => rfl
  | none =>
    show (latest s.i cs).elim s.led.state _ = _
    rw [h.2]
    rfl

/-- Before a drive to a level there was a read that found it, and then only commands. -/
theorem exists_read (es : List LedStep) {level : Bool}
    (h : (reach es).pc = .drive (.once level)) :
    ∃ before, ∃ cs : List LedCommand, es = before ++ .processing :: cs.map .command ∧
      (reach before).Finds level ∧ (reach before).i = (reach es).i := by
  induction es using List.reverseRecOn with
  | nil => cases h
  | append_singleton es e ih =>
    rw [reach_concat] at h ⊢
    cases e with
    | command c =>
      obtain ⟨before, cs, hes, hfinds, hi⟩ := ih h
      exact ⟨before, cs ++ [c], by rw [hes, List.map_append]; simp, hfinds, hi⟩
    | processing =>
      obtain ⟨hfinds, hi⟩ := processing_drive h
      exact ⟨es, [], rfl, hfinds, hi.symm⟩

/-- Before a store of 5 there was a window. -/
theorem exists_window (es : List LedStep) {level : Bool}
    (h : (reach es).pc = .store (.once level)) :
    ∃ before cs ds, es = before ++ window cs ds ∧
      (reach before).Finds level ∧ (reach before).i = (reach es).i := by
  induction es using List.reverseRecOn with
  | nil => cases h
  | append_singleton es e ih =>
    rw [reach_concat] at h ⊢
    cases e with
    | command c =>
      obtain ⟨before, cs, ds, hes, hfinds, hi⟩ := ih h
      exact ⟨before, cs, ds ++ [c], by rw [hes, window, window, List.map_append]; simp, hfinds, hi⟩
    | processing =>
      obtain ⟨hpc, hi⟩ := processing_store h
      obtain ⟨before, cs, hes, hfinds, hi'⟩ := exists_read es hpc
      exact ⟨before, cs, [], by rw [hes, window]; simp, hfinds, hi'.trans hi.symm⟩

/-- `state` becomes 5 by the store behind an ON or OFF. -/
theorem becomes_five {es : List LedStep} {e : LedStep} {i : Fin numberOfLed}
    (hne : stateAt es i ≠ 5) (h5 : stateAt (es ++ [e]) i = 5) :
    e = .processing ∧ (reach es).i = i ∧ ∃ level, (reach es).pc = .store (.once level) := by
  rw [stateAt, reach_concat] at h5
  cases e with
  | command c =>
    rw [ledThreads_command, setState_state] at h5
    split at h5
    · have hlt := c.value.isLt
      omega
    · exact absurd h5 hne
  | processing =>
    obtain hsame | ⟨-, hi, hpc⟩ := (reach es).processing_state i
    · exact absurd (hsame.symm.trans h5) hne
    · exact ⟨rfl, hi, hpc⟩

theorem commands_window (cs ds : List LedCommand) : LedStep.commands (window cs ds) = cs ++ ds := by
  rw [window, LedStep.commands_append]
  show LedStep.commands (cs.map .command) ++ LedStep.commands (ds.map .command) = cs ++ ds
  rw [LedStep.commands_map, LedStep.commands_map]

/-- The drive in the window is the last one at the store of 5. -/
theorem lastLevel_window {before : List LedStep} {level : Bool} (h : (reach before).Finds level)
    (cs ds : List LedCommand) :
    lastLevel (before ++ window cs ds ++ [.processing]) (reach before).i = some level := by
  obtain ⟨-, hpc, hdrives, -⟩ := after_window h cs ds
  have hwindow : lastLevel (before ++ window cs ds) (reach before).i = some level := by
    rw [lastLevel_append, hdrives]
    simp [levels]
  have hstore : ledThreads.outputs (reach (before ++ window cs ds)) [.processing] = [none] := by
    rw [reach_append, Mealy.outputs_cons, ledThreads_processing, processing_of_store hpc]
    rfl
  rw [lastLevel_append, hstore, hwindow]
  rfl

/-- At the store of 5 the latest command was acted on exactly if the last one from the window, if
there is one, asks for the level. -/
theorem acted_iff {before : List LedStep} {level : Bool} (h : (reach before).Finds level)
    (cs ds : List LedCommand) :
    Acted (before ++ window cs ds ++ [.processing]) (reach before).i ↔
      ∀ value ∈ latest (reach before).i (cs ++ ds), value.val = level.toNat := by
  have hlast := lastLevel_window h cs ds
  have hlatest : latest (reach before).i
      (LedStep.commands (before ++ window cs ds ++ [.processing])) =
        (latest (reach before).i (cs ++ ds)).or
          (latest (reach before).i (LedStep.commands before)) := by
    rw [LedStep.commands_append, LedStep.commands_append, commands_window, ← latest_append]
    exact congrArg _ (List.append_nil _)
  rw [Acted, hlast, hlatest]
  constructor
  · intro hacted value hvalue
    obtain ⟨level', hlevel', hval⟩ := hacted value (by rw [Option.mem_def.mp hvalue]; rfl)
    cases hlevel'
    exact hval
  · intro hcond value hvalue
    refine ⟨level, rfl, ?_⟩
    cases hnew : latest (reach before).i (cs ++ ds) with
    | some new =>
      rw [hnew] at hvalue
      cases hvalue
      exact hcond value hnew
    | none =>
      -- The latest command is older than the read, so it is what the read found.
      rw [hnew, Option.none_or] at hvalue
      have hfound : stateAt before (reach before).i = level.toNat := h.2
      have hle := level.toNat_le
      obtain h5 | hold := stateAt_spec before (reach before).i
      · omega
      · rw [hvalue] at hold
        simp only [Option.elim_some] at hold
        omega

/-- The step behind a window makes `state` 5. -/
theorem window_becomes_five {before : List LedStep} {level : Bool}
    (h : (reach before).Finds level) (cs ds : List LedCommand) :
    stateAt (before ++ window cs ds) (reach before).i ≠ 5 ∧
      stateAt (before ++ window cs ds ++ [.processing]) (reach before).i = 5 := by
  obtain ⟨hi, hpc, -, hstate⟩ := after_window h cs ds
  rw [← reach_append] at hi hpc hstate
  constructor
  · have hle := level.toNat_le
    rw [stateAt, hstate]
    cases latest (reach before).i (cs ++ ds) with
    | none =>
      simp only [Option.elim_none]
      omega
    | some value =>
      have hlt := value.isLt
      simp only [Option.elim_some]
      omega
  · rw [stateAt, reach_concat, ledThreads_processing, processing_of_store hpc]
    show (((reach (before ++ window cs ds)).storeLed _).gpio.get _).state = 5
    rw [storeLed, get_set, if_pos hi]
    rfl

/-- **No command is lost** in a run of the two threads exactly if, whenever a read finds a level,
the last command that is stored for this pin before the 5, if there is one, asks for this level. -/
theorem noneLost_iff (es : List LedStep) : NoneLost es ↔ Undisturbed es := by
  constructor
  · intro h before cs ds rest level hes hfinds
    obtain ⟨hne, h5⟩ := window_becomes_five hfinds cs ds
    exact (acted_iff hfinds cs ds).mp (h _ _ rest hes _ hne h5)
  · rintro h before e rest rfl i hne h5
    obtain ⟨rfl, rfl, level, hpc⟩ := becomes_five hne h5
    obtain ⟨before, cs, ds, rfl, hfinds, hi⟩ := exists_window before hpc
    rw [← hi]
    exact (acted_iff hfinds cs ds).mpr (h before cs ds rest level rfl hfinds)

/-- A command ON for the first pin. -/
def on : LedCommand := ⟨pinAt 0, ⟨1, Nat.le_succ 2⟩⟩

/-- At program start the first pin is to be driven OFF. The command ON comes between the read and
the drive, and is overwritten. -/
theorem not_noneLost : ¬ ∀ es, NoneLost es := by
  intro h
  have hne : stateAt [.processing, .processing, .command on, .processing] (pinAt 0) ≠ 5 := by decide
  have h5 : stateAt [.processing, .processing, .command on, .processing, .processing] (pinAt 0) =
    5 := by decide
  have hlast : lastLevel [.processing, .processing, .command on, .processing, .processing]
    (pinAt 0) = some false := by decide
  obtain ⟨level, hlevel, hval⟩ := h
    [.processing, .processing, .command on, .processing, .processing]
    [.processing, .processing, .command on, .processing] .processing [] rfl (pinAt 0) hne h5
    on.value rfl
  cases hlast.symm.trans hlevel
  cases hval

end LedThreads

end Ble
