import BleGateway.LedPins

/-!
# Entering toggle mode (`LED_Manager/led_controller.c`, lines 86–116)

`flag` is the level of the next toggle. The toggling branches of `Led_Controller_Processing` change
it together with the pin; the branches for ON and OFF drive the pin and leave it.

* `inForce`: the command in force at each pass of a pin.
* `Tracks`: what the commands in force say about `flag` and about the level that the pin was last
  driven to.
* `toggle_inverts_iff`: so the first toggle inverts the pin exactly if that level is the one of the
  last toggle, or ON if there was none.
-/

namespace Ble

namespace Pin

/-- The command in force at each pass, if it is `v` before the first one. -/
def inForce (v : Nat) : List PinEvent → List Nat
  | [] => []
  | .command value :: es => inForce value.val es
  | .pass :: es => v :: inForce v es

/-- The command in force behind the events. -/
def lastCommand (v : Nat) : List PinEvent → Nat
  | [] => v
  | .command value :: es => lastCommand value.val es
  | .pass :: es => lastCommand v es

theorem inForce_append (v : Nat) (es es' : List PinEvent) :
    inForce v (es ++ es') = inForce v es ++ inForce (lastCommand v es) es' := by
  induction es generalizing v with
  | nil => rfl
  | cons e es ih =>
    cases e with
    | command value => exact ih value.val
    | pass => exact congrArg (v :: ·) (ih v)

theorem lastCommand_append (v : Nat) (es es' : List PinEvent) :
    lastCommand v (es ++ es') = lastCommand (lastCommand v es) es' := by
  induction es generalizing v with
  | nil => rfl
  | cons e es ih =>
    cases e with
    | command value => exact ih value.val
    | pass => exact ih v

/-- Commands to toggle leave the pin toggling. -/
theorem lastCommand_toggle {es : List PinEvent}
    (h : ∀ e ∈ es, ∃ value : Fin 3, e = .command value ∧ value.val = 2) :
    lastCommand 2 es = 2 ∧ inForce 2 es = [] := by
  induction es with
  | nil => exact ⟨rfl, rfl⟩
  | cons e es ih =>
    obtain ⟨⟨value, rfl, hvalue⟩, hrest⟩ := List.forall_mem_cons.mp h
    rw [lastCommand, inForce, hvalue]
    exact ih hrest

/-- The pin `p` with the command `v` in force, behind passes with the commands `past` that drove it
to `levels`. -/
structure Tracks (p : Pin) (v : Nat) (past : List Nat) (levels : List Bool) : Prop where
  /-- With a 2 in force the pin toggles. Else it is still to be driven, or the last pass did it. -/
  task : if v = 2 then p.task = .toggle
    else p.task = .once (v = 1) ∨ p.task = .done ∧ past.getLast? = some v
  /-- The next toggle drives the pin ON if the toggles so far were odd in number. -/
  next : p.next = decide (past.count 2 % 2 = 1)
  /-- The command in force at the last pass gives the last level. -/
  last : levels.getLast? = past.getLast?.map fun u => if u = 2 then !p.next else decide (u = 1)

theorem tracks_start : Tracks ⟨.once false, false⟩ 0 [] [] := ⟨.inl rfl, rfl, rfl⟩

namespace Tracks

variable {p : Pin} {v : Nat} {past : List Nat} {levels : List Bool}

theorem command (h : Tracks p v past levels) (value : Fin 3) :
    Tracks { p with task := .ofValue value } value.val past levels where
  task := by
    by_cases hv : value.val = 2
    · rw [if_pos hv]
      exact if_pos hv
    · rw [if_neg hv]
      exact .inl (if_neg hv)
  next := h.next
  last := h.last

theorem pass (h : Tracks p v past levels) :
    Tracks p.pass.1 v (past ++ [v]) (levels ++ p.pass.2.toList) := by
  have htask := h.task
  have hcount : (past ++ [v]).count 2 = past.count 2 + if v = 2 then 1 else 0 := by
    rw [List.count_append, List.count_singleton]
    simp only [beq_iff_eq]
  by_cases hv : v = 2
  · rw [if_pos hv] at htask hcount
    have hpass : p.pass = ({ p with next := !p.next }, some p.next) := by rw [Pin.pass, htask]
    rw [hpass]
    refine ⟨by rw [if_pos hv]; exact htask, ?_, ?_⟩
    · rw [hcount, h.next, ← decide_not]
      exact decide_eq_decide.mpr (by omega)
    · simp [hv]
  · rw [if_neg hv] at htask hcount
    have hnext : p.next = decide ((past ++ [v]).count 2 % 2 = 1) := hcount ▸ h.next
    obtain htask | ⟨htask, hlast⟩ := htask
    · have hpass : p.pass = ({ p with task := .done }, some (decide (v = 1))) := by
        rw [Pin.pass, htask]
      rw [hpass]
      exact ⟨by rw [if_neg hv]; exact .inr ⟨rfl, List.getLast?_concat⟩, hnext, by simp [hv]⟩
    · have hpass : p.pass = (p, none) := by rw [Pin.pass, htask]
      rw [hpass]
      refine ⟨by rw [if_neg hv]; exact .inr ⟨htask, List.getLast?_concat⟩, hnext, ?_⟩
      rw [List.getLast?_concat, ← hlast, ← h.last, Option.toList_none, List.append_nil]

/-- Behind any events. -/
theorem run (h : Tracks p v past levels) (es : List PinEvent) :
    Tracks (pin.after p es) (lastCommand v es) (past ++ inForce v es)
      (levels ++ (p.driven es).flatten) := by
  induction es generalizing p v past levels with
  | nil => simpa [inForce, lastCommand] using h
  | cons e es ih =>
    cases e with
    | command value => exact ih (h.command value)
    | pass =>
      have := ih h.pass
      rw [List.append_assoc, List.append_assoc] at this
      exact this

end Tracks

end Pin

/-! ## The two threads -/

namespace LedPins

/-- The next pass drives the pin `i` to the opposite of the level it was last driven to, if there
is one. -/
def Inverts (controller : LedController) (es : List LedEvent) (i : Fin numberOfLed) : Prop :=
  ∃ s s', ledPins.run (start controller) es = some s ∧ ledPins.run s [.pass] = some s' ∧
    ∀ level, (s.driven i).flatten.getLast? = some level → s'.driven i = s.driven i ++ [[!level]]

/-- The commands in force at the passes of the pin `i`; before its first command it is driven as by
a command 0. -/
def inForce (es : List LedEvent) (i : Fin numberOfLed) : List Nat :=
  Pin.inForce 0 (es.filterMap (LedEvent.on i))

/-- The last pass toggled the pin `i`, or the command in force then was 1 if the number of toggles
so far is even, and 0 if it is odd. -/
def InStep (es : List LedEvent) (i : Fin numberOfLed) : Prop :=
  ∀ v, (inForce es i).getLast? = some v → v = 2 ∨ (v = 1 ↔ (inForce es i).count 2 % 2 = 0)

/-- The level of the next toggle, against the level that the command in force at the last pass
gave. -/
theorem next_eq_not_iff {next : Bool} {n v : Nat} (hnext : next = decide (n % 2 = 1)) :
    (next = !if v = 2 then !next else decide (v = 1)) ↔ v = 2 ∨ (v = 1 ↔ n % 2 = 0) := by
  by_cases hv : v = 2
  · rw [if_pos hv]
    exact iff_of_true (Bool.not_not next).symm (.inl hv)
  · rw [if_neg hv, hnext, ← decide_not, decide_eq_decide]
    omega

/-- A pass with a 2 in force. -/
theorem inverts_iff {es : List LedEvent} {i : Fin numberOfLed}
    (h : Pin.lastCommand 0 (es.filterMap (LedEvent.on i)) = 2) (controller : LedController) :
    Inverts controller es i ↔ InStep es i := by
  obtain ⟨s, ps, hrun, hs, hpins⟩ := run_spec (holds_start controller) es
  obtain ⟨s', ps', hrun', -, hpins'⟩ := run_spec hs [.pass]
  obtain ⟨hpin, hdriven⟩ := hpins i
  have htracks := Pin.tracks_start.run (es.filterMap (LedEvent.on i))
  rw [h, ← hpin, List.nil_append, List.nil_append] at htracks
  have htask : (ps i).task = .toggle := htracks.task
  have hlast : (s.driven i).flatten.getLast? = (inForce es i).getLast?.map _ :=
    (congrArg (fun l => l.flatten.getLast?) hdriven).trans htracks.last
  have hdriven' : s'.driven i = s.driven i ++ [[(ps i).next]] := by
    rw [(hpins' i).2, List.filterMap_cons_some (LedEvent.on_pass i), List.filterMap_nil,
      Pin.driven_pass, Pin.driven_nil, Pin.pass, htask]
    rfl
  have hinverts : Inverts controller es i ↔
      ∀ level, (s.driven i).flatten.getLast? = some level → (ps i).next = !level := by
    constructor
    · rintro ⟨t, t', ht, ht', hlevel⟩ level hl
      cases hrun.symm.trans ht
      cases hrun'.symm.trans ht'
      have heq := hlevel level hl
      rw [hdriven', List.append_cancel_left_eq] at heq
      exact (List.cons.inj (List.cons.inj heq).1).1
    · intro hnext
      exact ⟨s, s', hrun, hrun', fun level hl => by rw [hdriven', hnext level hl]⟩
  rw [hinverts, hlast, InStep]
  cases (inForce es i).getLast? with
  | none =>
    refine iff_of_true (fun level hl => ?_) fun v hv => ?_
    · cases hl
    · cases hv
  | some v =>
    rw [Option.map_some]
    constructor
    · intro hlevel u hu
      cases hu
      exact (next_eq_not_iff htracks.next).mp (hlevel _ rfl)
    · intro hstep level hl
      cases hl
      exact (next_eq_not_iff htracks.next).mpr (hstep v rfl)

/-- Behind a command to toggle, before the next pass. -/
theorem lastCommand_entered {es es' : List LedEvent} {c : LedCommand} (hv : c.value.val = 2)
    (hes' : ∀ e ∈ es', e ≠ .pass ∧ (e.IsTo c.pin → e.IsToggle)) (beyond : List UInt8) :
    Pin.lastCommand 0 ((es ++ .command c beyond :: es').filterMap (LedEvent.on c.pin)) = 2 ∧
      inForce (es ++ .command c beyond :: es') c.pin = inForce es c.pin := by
  have hcommands : ∀ e ∈ es'.filterMap (LedEvent.on c.pin),
      ∃ value : Fin 3, e = .command value ∧ value.val = 2 := by
    intro p hp
    obtain ⟨e, he, hon⟩ := List.mem_filterMap.mp hp
    obtain ⟨hpass, htoggle⟩ := hes' e he
    cases e with
    | pass => exact absurd rfl hpass
    | command c' beyond' =>
      by_cases hpin : c'.pin = c.pin
      · rw [LedEvent.on_command_of_eq hpin] at hon
        cases hon
        exact ⟨c'.value, rfl, htoggle hpin⟩
      · rw [LedEvent.on_command_of_ne hpin] at hon
        cases hon
  obtain ⟨hlast, hforce⟩ := Pin.lastCommand_toggle hcommands
  rw [inForce, List.filterMap_append,
    List.filterMap_cons_some (LedEvent.on_command_of_eq rfl beyond), Pin.lastCommand_append,
    Pin.inForce_append, Pin.lastCommand, Pin.inForce, hv, hlast, hforce]
  exact ⟨rfl, List.append_nil _⟩

/-- **Entering toggle mode.** Behind any history and a command 2, the next pass inverts the pin
exactly if its flag was in step with its level. -/
theorem toggle_inverts_iff (controller : LedController) {es es' : List LedEvent} {c : LedCommand}
    (hv : c.value.val = 2) (hes' : ∀ e ∈ es', e ≠ .pass ∧ (e.IsTo c.pin → e.IsToggle))
    (beyond : List UInt8) :
    Inverts controller (es ++ .command c beyond :: es') c.pin ↔ InStep es c.pin := by
  obtain ⟨hlast, hforce⟩ := lastCommand_entered hv hes' beyond
  rw [inverts_iff hlast, InStep, hforce]
  rfl

/-- A command for the pin 0. -/
def pinZero (value : Fin 3) : LedEvent := .command ⟨⟨0, by decide⟩, value⟩ []

/-- From ON, the first toggle drives the pin OFF. -/
theorem toggle_inverts_iff_fromOn :
    Inverts .zero ([pinZero ⟨1, by decide⟩, .pass] ++ [pinZero ⟨2, by decide⟩])
      ⟨0, by decide⟩ :=
  (toggle_inverts_iff .zero (c := ⟨⟨0, by decide⟩, ⟨2, by decide⟩⟩) rfl
    (List.forall_mem_nil _) []).mpr fun v hv => by
      cases hv
      exact .inr (by decide)

/-- From OFF it drives it OFF again. -/
theorem not_toggle_inverts_fromOff : ¬ ∀ (controller : LedController) (es es' : List LedEvent)
    (c : LedCommand) (beyond : List UInt8), c.value.val = 2 →
      (∀ e ∈ es', e ≠ .pass ∧ (e.IsTo c.pin → e.IsToggle)) →
        Inverts controller (es ++ .command c beyond :: es') c.pin := by
  intro h
  have hinverts := h .zero [.pass] [] ⟨⟨0, by decide⟩, ⟨2, by decide⟩⟩ [] rfl
    (List.forall_mem_nil _)
  have hstep := (inverts_iff (by decide) .zero).mp hinverts
  exact absurd (hstep 0 (by decide)) (by decide)

end LedPins

end Ble
