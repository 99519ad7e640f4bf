import BleGateway.Lib.Mealy
import BleGateway.Lib.Sched
import BleGateway.LedController

/-!
# From a command to the pin

Commands come in, each read on its own, and `Led_Controller_Processing` makes its passes.

* `pin`: what one pin is for. It has a task (drive it once, toggle it, nothing) and the level of the
  next toggle.
* `ledPins`: the two threads over the array `GPIO`, with the messages of `led_manager`.
* `LedPins.run_spec`: each pin of the array does what `pin` does with its own commands and the
  passes.
* `ledPins_contract`: so a command 0 or 1 drives the pin at the next pass and no more, a command 2
  drives it at every pass with alternating levels, and commands to other pins change nothing.
-/

namespace Ble

/-! ## One pin -/

/-- What a pin has to do. -/
inductive PinTask where
  | done
  | once (level : Bool)
  | toggle
  deriving DecidableEq, Repr

/-- A pin: its task, and the level of its next toggle. -/
structure Pin where
  task : PinTask
  next : Bool
  deriving DecidableEq, Repr

/-- What a pin sees. -/
inductive PinEvent where
  | command (value : Fin 3)
  | pass
  deriving DecidableEq, Repr

/-- The task that a command sets. -/
def PinTask.ofValue (value : Fin 3) : PinTask :=
  if value.val = 2 then .toggle else .once (value.val = 1)

namespace Pin

/-- A pass, and the level that the pin is driven to. -/
def pass (p : Pin) : Pin × Option Bool :=
  match p.task with
  | .done => (p, none)
  | .once level => ({ p with task := .done }, some level)
  | .toggle => ({ p with next := !p.next }, some p.next)

end Pin

/-- A pin. A pass gives the level that it is driven to, if it is. -/
def pin : Mealy Pin PinEvent (Option (Option Bool)) where
  step p e :=
    match e with
    | .command value => ({ p with task := .ofValue value }, none)
    | .pass => (p.pass.1, some p.pass.2)

namespace Pin

/-- The levels that the pin is driven to, pass by pass. -/
def driven (p : Pin) (es : List PinEvent) : List (List Bool) :=
  (pin.outputs p es).filterMap (Option.map Option.toList)

@[simp] theorem driven_nil (p : Pin) : p.driven [] = [] := rfl

@[simp] theorem driven_command (p : Pin) (value : Fin 3) (es : List PinEvent) :
    p.driven (.command value :: es) = driven { p with task := .ofValue value } es := rfl

@[simp] theorem driven_pass (p : Pin) (es : List PinEvent) :
    p.driven (.pass :: es) = p.pass.2.toList :: p.pass.1.driven es := rfl

theorem driven_append (p : Pin) (es es' : List PinEvent) :
    p.driven (es ++ es') = p.driven es ++ (pin.after p es).driven es' := by
  rw [driven, Mealy.outputs_append, List.filterMap_append]
  rfl

/-- One drive, and then none. -/
def onceThenNone (level : Bool) : Nat → List (List Bool)
  | 0 => []
  | n + 1 => [level] :: List.replicate n []

/-- One drive in every pass, with alternating levels. -/
def alternating (level : Bool) : Nat → List (List Bool)
  | 0 => []
  | n + 1 => [level] :: alternating (!level) n

theorem driven_done {p : Pin} (hp : p.task = .done) {es : List PinEvent}
    (hes : ∀ e ∈ es, e = .pass) : p.driven es = List.replicate es.length [] := by
  induction es with
  | nil => rfl
  | cons e es ih =>
    obtain ⟨rfl, hrest⟩ := List.forall_mem_cons.mp hes
    have hpass : p.pass = (p, none) := by rw [pass, hp]
    rw [driven_pass, hpass, ih hrest]
    rfl

theorem driven_once {p : Pin} {level : Bool} (hp : p.task = .once level) {es : List PinEvent}
    (hes : ∀ e ∈ es, e = .pass) : p.driven es = onceThenNone level es.length := by
  cases es with
  | nil => rfl
  | cons e es =>
    obtain ⟨rfl, hrest⟩ := List.forall_mem_cons.mp hes
    have hpass : p.pass = ({ p with task := .done }, some level) := by rw [pass, hp]
    rw [driven_pass, hpass, driven_done (p := { p with task := .done }) rfl hrest]
    rfl

/-- Further commands to toggle change nothing. -/
theorem driven_toggle {p : Pin} (hp : p.task = .toggle) {es : List PinEvent}
    (hes : ∀ e ∈ es, e = .pass ∨ ∃ value : Fin 3, e = .command value ∧ value.val = 2) :
    p.driven es = alternating p.next (es.count .pass) := by
  induction es generalizing p with
  | nil => rfl
  | cons e es ih =>
    obtain ⟨he, hrest⟩ := List.forall_mem_cons.mp hes
    obtain rfl | ⟨value, rfl, hvalue⟩ := he
    · have hpass : p.pass = ({ p with next := !p.next }, some p.next) := by rw [pass, hp]
      rw [driven_pass, hpass, ih (p := { p with next := !p.next }) hp hrest, List.count_cons_self]
      rfl
    · rw [driven_command, ih (p := { p with task := .ofValue value }) (if_pos hvalue) hrest,
        List.count_cons_of_ne (by exact nofun)]

end Pin

/-! ## The two threads -/

/-- The locals of `Led_Controller`, the array, and the drives of every pass. -/
structure LedPins where
  controller : LedController
  gpio : Gpio
  passes : List (List Drive)
  deriving DecidableEq

/-- What happens next. -/
inductive LedEvent where
  /-- `led_manager` writes a command and `Led_Controller` reads it; `beyond` is what lies behind
  `value`. -/
  | command (c : LedCommand) (beyond : List UInt8)
  /-- A pass of `Led_Controller_Processing`. -/
  | pass
  deriving DecidableEq

/-- The two threads. -/
def ledPins : Sched LedPins LedEvent where
  step e s :=
    match e with
    | .command c beyond =>
      match (ledManager [digit c.pin] [digit c.value]).bind fun buffer =>
          Chunk.ofBytes buffer.stored with
      | none => .blocked
      | some chunk =>
        match s.controller.onRead beyond chunk with
        | (controller, none) => .next { s with controller }
        | (controller, some update) =>
          match updateStructure s.gpio update with
          | none => .overrun
          | some gpio => .next { s with controller, gpio }
    | .pass =>
      let (gpio, drives) := Ble.pass s.gpio
      .next { s with gpio, passes := s.passes ++ [drives] }

namespace LedEvent

/-- What the pin `i` sees of an event. -/
def on (i : Fin numberOfLed) : LedEvent → Option PinEvent
  | command c _ => if c.pin = i then some (.command c.value) else none
  | pass => some .pass

@[simp] theorem on_pass (i : Fin numberOfLed) : on i .pass = some .pass := rfl

theorem on_command_of_eq {c : LedCommand} {i : Fin numberOfLed} (h : c.pin = i)
    (beyond : List UInt8) : on i (.command c beyond) = some (.command c.value) := if_pos h

theorem on_command_of_ne {c : LedCommand} {i : Fin numberOfLed} (h : c.pin ≠ i)
    (beyond : List UInt8) : on i (.command c beyond) = none := if_neg h

end LedEvent

namespace LedPins

/-- The array is zero before the first command. -/
def start (controller : LedController) : LedPins where
  controller
  gpio := Vector.replicate numberOfLed ⟨0, 0⟩
  passes := []

/-- The levels that the pin `i` was driven to, pass by pass. -/
def driven (s : LedPins) (i : Fin numberOfLed) : List (List Bool) := s.passes.map (levels i)

/-! ## The array does what the pins do -/

/-- `state` for a task. -/
def state : PinTask → Int
  | .done => 5
  | .once true => 1
  | .once false => 0
  | .toggle => 2

/-- A pin as the array holds it. -/
def led (p : Pin) : LedState := ⟨state p.task, if p.next then 1 else 0⟩

theorem processLed_led (p : Pin) : processLed (led p) = (led p.pass.1, p.pass.2) := by
  obtain ⟨task, next⟩ := p
  cases task with
  | done => cases next <;> rfl
  | once level => cases level <;> cases next <;> rfl
  | toggle => cases next <;> rfl

theorem led_command (p : Pin) (value : Fin 3) :
    { led p with state := (value.val : Int) } = led { p with task := .ofValue value } := by
  have hstate : ∀ v : Fin 3, (v.val : Int) = state (.ofValue v) := by decide
  rw [hstate]
  rfl

/-- The array holds these pins. -/
def Holds (s : LedPins) (ps : Fin numberOfLed → Pin) : Prop := ∀ i, s.gpio.get i = led (ps i)

theorem holds_start (controller : LedController) :
    (start controller).Holds fun _ => ⟨.once false, false⟩ := by
  intro i
  exact Vector.getElem_replicate i.isLt

/-- What an event does to the pins. -/
def next (ps : Fin numberOfLed → Pin) (e : LedEvent) (i : Fin numberOfLed) : Pin :=
  pin.after (ps i) (e.on i).toList

theorem step_command (s : LedPins) (c : LedCommand) (beyond : List UInt8) :
    ∃ controller, ledPins.step (.command c beyond) s =
      .next { s with
        controller
        gpio := s.gpio.set c.pin { s.gpio.get c.pin with state := c.value.val } c.pin.isLt } := by
  have hread := s.controller.onRead_chunk beyond c
  have hupdate := updateStructure_command s.gpio c
  cases hcall : s.controller.onRead beyond c.chunk with
  | mk controller update =>
    rw [hcall] at hread
    cases hread
    exact ⟨controller, by simp only [ledPins, ledManager_chunk, hcall, hupdate]⟩

theorem step_pass (s : LedPins) : ledPins.step .pass s =
    .next { s with
      gpio := (Ble.pass s.gpio).1
      passes := s.passes ++ [(Ble.pass s.gpio).2] } := rfl

/-- What a step does: each pin goes its own way, and a pass drives the pins as they are. -/
theorem step_spec {s : LedPins} {ps : Fin numberOfLed → Pin} (hs : s.Holds ps) (e : LedEvent) :
    ∃ s', ledPins.step e s = .next s' ∧ s'.Holds (next ps e) ∧
      ∀ i, s'.driven i = s.driven i ++ (ps i).driven (e.on i).toList := by
  cases e with
  | command c beyond =>
    obtain ⟨controller, hstep⟩ := step_command s c beyond
    refine ⟨_, hstep, fun i => ?_, fun i => ?_⟩
    · rw [get_set]
      by_cases hi : c.pin = i
      · subst hi
        rw [if_pos rfl, hs c.pin, led_command, next, LedEvent.on_command_of_eq rfl]
        rfl
      · rw [if_neg hi, hs i, next, LedEvent.on_command_of_ne hi]
        rfl
    · by_cases hi : c.pin = i
      · simp [LedEvent.on_command_of_eq hi, driven]
      · simp [LedEvent.on_command_of_ne hi, driven]
  | pass =>
    refine ⟨_, step_pass s, fun i => ?_, fun i => ?_⟩
    · exact (pass_spec s.gpio i).1.trans (by rw [hs i, processLed_led]; rfl)
    · have hlevels := (pass_spec s.gpio i).2
      rw [hs i, processLed_led] at hlevels
      simp only [driven, List.map_append, List.map_cons, List.map_nil, hlevels]
      rfl

/-- **Refinement.** Every run goes through, and each pin of the array is driven as `pin` is by the
commands to it and the passes. -/
theorem run_spec {s : LedPins} {ps : Fin numberOfLed → Pin} (hs : s.Holds ps)
    (es : List LedEvent) : ∃ s' ps', ledPins.run s es = some s' ∧ s'.Holds ps' ∧
      ∀ i, ps' i = pin.after (ps i) (es.filterMap (LedEvent.on i)) ∧
        s'.driven i = s.driven i ++ (ps i).driven (es.filterMap (LedEvent.on i)) := by
  induction es generalizing s ps with
  | nil => exact ⟨s, ps, rfl, hs, fun i => ⟨rfl, (List.append_nil _).symm⟩⟩
  | cons e es ih =>
    obtain ⟨s₁, hstep, hs₁, hdriven₁⟩ := step_spec hs e
    obtain ⟨s', ps', hrun, hs', hpins⟩ := ih hs₁
    refine ⟨s', ps', by rw [Sched.run_cons, hstep]; exact hrun, hs', fun i => ?_⟩
    obtain ⟨hafter, hdriven⟩ := hpins i
    have hcons : (e :: es).filterMap (LedEvent.on i) =
        (e.on i).toList ++ es.filterMap (LedEvent.on i) := by
      rw [List.filterMap_cons]
      cases e.on i <;> rfl
    rw [hcons, Mealy.after_append, hafter, hdriven, hdriven₁, Pin.driven_append,
      List.append_assoc]
    exact ⟨rfl, rfl⟩

end LedPins

/-! ## The contract -/

namespace LedEvent

/-- A command to the pin `i`. -/
def IsTo (i : Fin numberOfLed) : LedEvent → Prop
  | command c _ => c.pin = i
  | pass => False

/-- A command to toggle. -/
def IsToggle : LedEvent → Prop
  | command c _ => c.value.val = 2
  | pass => False

/-- Every pin sees every pass. -/
theorem count_on (i : Fin numberOfLed) (es : List LedEvent) :
    (es.filterMap (on i)).count .pass = es.count .pass := by
  induction es with
  | nil => rfl
  | cons e es ih =>
    cases e with
    | pass =>
      rw [List.filterMap_cons_some (on_pass i), List.count_cons_self, List.count_cons_self, ih]
    | command c beyond =>
      rw [List.count_cons_of_ne (by exact nofun), ← ih]
      by_cases h : c.pin = i
      · rw [List.filterMap_cons_some (on_command_of_eq h beyond),
          List.count_cons_of_ne (by exact nofun)]
      · rw [List.filterMap_cons_none (on_command_of_ne h beyond)]

/-- Without commands to the pin it sees passes only. -/
theorem on_of_not_isTo {i : Fin numberOfLed} {es : List LedEvent} (h : ∀ e ∈ es, ¬ e.IsTo i) :
    ∀ e ∈ es.filterMap (on i), e = .pass := by
  intro p hp
  obtain ⟨e, he, hon⟩ := List.mem_filterMap.mp hp
  cases e with
  | pass =>
    cases hon
    rfl
  | command c beyond =>
    rw [on_command_of_ne (h _ he)] at hon
    cases hon

/-- With commands to toggle it sees these and passes. -/
theorem on_of_isToggle {i : Fin numberOfLed} {es : List LedEvent}
    (h : ∀ e ∈ es, e.IsTo i → e.IsToggle) :
    ∀ e ∈ es.filterMap (on i),
      e = .pass ∨ ∃ value : Fin 3, e = .command value ∧ value.val = 2 := by
  intro p hp
  obtain ⟨e, he, hon⟩ := List.mem_filterMap.mp hp
  cases e with
  | pass =>
    cases hon
    exact .inl rfl
  | command c beyond =>
    by_cases hc : c.pin = i
    · rw [on_command_of_eq hc] at hon
      cases hon
      exact .inr ⟨c.value, rfl, h _ he hc⟩
    · rw [on_command_of_ne hc] at hon
      cases hon

end LedEvent

namespace LedPins

/-- Behind a command its pin has the task of it. -/
theorem run_command (controller : LedController) (es : List LedEvent) (c : LedCommand)
    (beyond : List UInt8) : ∃ s ps,
      ledPins.run (start controller) (es ++ [.command c beyond]) = some s ∧ s.Holds ps ∧
        (ps c.pin).task = .ofValue c.value := by
  obtain ⟨s, ps, hrun, hs, hpins⟩ :=
    run_spec (holds_start controller) (es ++ [.command c beyond])
  refine ⟨s, ps, hrun, hs, ?_⟩
  have hon : (es ++ [LedEvent.command c beyond]).filterMap (LedEvent.on c.pin) =
      es.filterMap (LedEvent.on c.pin) ++ [.command c.value] := by
    rw [List.filterMap_append, List.filterMap_cons_some (LedEvent.on_command_of_eq rfl beyond),
      List.filterMap_nil]
  rw [(hpins c.pin).1, hon, Mealy.after_append]
  rfl

/-- A command 0 or 1 drives its pin at the next pass, and no more until another command to it. -/
theorem driven_of_once {s s' : LedPins} {ps : Fin numberOfLed → Pin} {i : Fin numberOfLed}
    {es : List LedEvent} {value : Fin 3} (hv : value.val ≠ 2)
    (htask : (ps i).task = .ofValue value) (hes : ∀ e ∈ es, ¬ e.IsTo i)
    (hdriven : s'.driven i = s.driven i ++ (ps i).driven (es.filterMap (LedEvent.on i))) :
    s'.driven i = s.driven i ++ Pin.onceThenNone (value.val = 1) (es.count .pass) := by
  have hpasses := LedEvent.on_of_not_isTo hes
  have hlen : es.count .pass = (es.filterMap (LedEvent.on i)).length := by
    rw [← LedEvent.count_on i es]
    exact List.count_eq_length.mpr fun e he => (hpasses e he).symm
  rw [hdriven, Pin.driven_once (htask.trans (if_neg hv)) hpasses, hlen]

end LedPins

open LedPins

/-- **From a command to the pin.** Every run of `led_manager`'s commands and passes goes through. A
command 0 or 1 drives its pin to that level at the next pass and not again before another command to
it. As long as the last command is 2, every pass drives it once, with alternating levels. And how a
pin is driven depends on the commands to it and the passes only, not on what the controller's locals
held. -/
theorem ledPins_contract (controller : LedController) :
    (∀ (es es' : List LedEvent) (c : LedCommand) (beyond : List UInt8), ∃ s s',
      ledPins.run (start controller) (es ++ [.command c beyond]) = some s ∧
      ledPins.run s es' = some s' ∧
      (c.value.val ≠ 2 → (∀ e ∈ es', ¬ e.IsTo c.pin) → s'.driven c.pin =
        s.driven c.pin ++ Pin.onceThenNone (c.value.val = 1) (es'.count .pass)) ∧
      (c.value.val = 2 → (∀ e ∈ es', e.IsTo c.pin → e.IsToggle) → ∃ level, s'.driven c.pin =
        s.driven c.pin ++ Pin.alternating level (es'.count .pass))) ∧
    ∀ (controller' : LedController) (i : Fin numberOfLed) (es es' : List LedEvent),
      es.filterMap (LedEvent.on i) = es'.filterMap (LedEvent.on i) → ∃ s s',
        ledPins.run (start controller) es = some s ∧
        ledPins.run (start controller') es' = some s' ∧ s.driven i = s'.driven i := by
  refine ⟨fun es es' c beyond => ?_, fun controller' i es es' heq => ?_⟩
  · obtain ⟨s, ps, hrun, hs, htask⟩ := run_command controller es c beyond
    obtain ⟨s', ps', hrun', -, hpins⟩ := run_spec hs es'
    have hdriven := (hpins c.pin).2
    refine ⟨s, s', hrun, hrun', fun hv hes => driven_of_once hv htask hes hdriven,
      fun hv hes => ⟨(ps c.pin).next, ?_⟩⟩
    have htoggle : (ps c.pin).task = .toggle := htask.trans (if_pos hv)
    rw [hdriven, Pin.driven_toggle htoggle (LedEvent.on_of_isToggle hes), LedEvent.count_on]
  · obtain ⟨s, ps, hrun, -, hpins⟩ := run_spec (holds_start controller) es
    obtain ⟨s', ps', hrun', -, hpins'⟩ := run_spec (holds_start controller') es'
    refine ⟨s, s', hrun, hrun', ?_⟩
    rw [(hpins i).2, (hpins' i).2, heq]
    rfl

end Ble
