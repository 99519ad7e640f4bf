import BleGateway.LedPins

/-!
# What `Led_Controller` accepts (`LED_Manager/led_controller.c`, lines 34–84)

The commands are `#d~v!`, with the pin in one digit or in two. `Led_Controller` looks for the
exclamation mark at two places and for the tilde at two others, takes what `sscanf` finds for the
pin, and everything but `1` and `2` for the value 0.

* `ledReads`: reads of any chunks, and passes in between. The reads of whole messages are the
  commands of `ledPins` (`ledReads_command`).
* `process_call`: the calls of `update_structure`, by what `led_fifo_buff` shows.
* `updateStructure_eq_self_iff`: a call does no harm if the entry has the state already.
* `ledGrammar_iff`: the reads that do what the grammar says. That is every command with one digit,
  a command with two if the bytes behind them do not go on with the number, and any other chunk that
  shows no packet or one that changes nothing.
-/

namespace Ble

/-! ## The grammar -/

/-- A command with its pin in two digits. -/
def LedCommand.longBytes (c : LedCommand) : List UInt8 :=
  ['#'.toUInt8, digit 0, digit c.pin, '~'.toUInt8, digit c.value, '!'.toUInt8]

/-- The text of a command. -/
def LedGrammar (text : List UInt8) (c : LedCommand) : Prop := text = c.bytes ∨ text = c.longBytes

instance (text : List UInt8) (c : LedCommand) : Decidable (LedGrammar text c) :=
  inferInstanceAs (Decidable (_ ∨ _))

/-- The array behind a command. -/
def LedCommand.applied (c : LedCommand) (gpio : Gpio) : Gpio :=
  gpio.set c.pin { gpio.get c.pin with state := c.value.val } c.pin.isLt

/-! ## Reads -/

/-- What happens next. -/
inductive LedReadEvent where
  /-- A turn of `Led_Controller`, whose `read` returns `chunk`; `beyond` is what lies behind
  `value`. -/
  | read (chunk : Chunk) (beyond : List UInt8)
  /-- A pass of `Led_Controller_Processing`. -/
  | pass
  deriving DecidableEq

/-- The two threads. -/
def ledReads : Sched LedPins LedReadEvent where
  step e s :=
    match e with
    | .read chunk beyond =>
      match s.controller.onRead beyond chunk with
      | (controller, none) => .next { s with controller }
      | (controller, some update) =>
        match updateStructure s.gpio update with
        | none => .overrun
        | some gpio => .next { s with controller, gpio }
    | .pass => ledPins.step .pass s

/-- The reads of whole messages are the commands of `ledPins`. -/
theorem ledReads_command (s : LedPins) (c : LedCommand) (beyond : List UInt8) :
    ledReads.step (.read c.chunk beyond) s = ledPins.step (.command c beyond) s := by
  simp only [ledPins, ledManager_chunk]
  rfl

namespace LedPins

/-- The turn is completed and leaves the array `gpio`. -/
def Leaves (s : LedPins) (chunk : Chunk) (beyond : List UInt8) (gpio : Gpio) : Prop :=
  ∃ s', ledReads.step (.read chunk beyond) s = .next s' ∧ s'.gpio = gpio

/-- The turn does what the grammar says. -/
structure FollowsGrammar (s : LedPins) (chunk : Chunk) (beyond : List UInt8) : Prop where
  command : ∀ c, LedGrammar chunk.bytes c → s.Leaves chunk beyond (c.applied s.gpio)
  other : (∀ c, ¬ LedGrammar chunk.bytes c) → s.Leaves chunk beyond s.gpio

end LedPins

/-! ## What the controller calls -/

theorem isDigit_iff (b : UInt8) : isDigit b = true ↔ ∃ n, n < 10 ∧ b = digit n := by
  constructor
  · intro h
    simp only [isDigit, Bool.and_eq_true, decide_eq_true_eq, UInt8.le_iff_toNat_le] at h
    have h0 : '0'.toUInt8.toNat = 48 := rfl
    have h9 : '9'.toUInt8.toNat = 57 := rfl
    refine ⟨b.toNat - 48, by omega, UInt8.toNat_inj.mp ?_⟩
    rw [digit, UInt8.toNat_add, UInt8.toNat_ofNat', h0]
    omega
  · rintro ⟨n, hn, rfl⟩
    exact (digit_spec ⟨n, hn⟩).2.1

theorem sscanfInt_eq_none {s : List UInt8}
    (h : (sign (s.dropWhile isSpace)).2.takeWhile isDigit = []) : sscanfInt s = none := by
  simp only [sscanfInt, h]

/-- `sscanf` in front of a zero byte finds a digit or nothing. -/
theorem sscanfInt_single (b : UInt8) (s : List UInt8) :
    sscanfInt (b :: 0 :: s) = if isDigit b then some (decimal [b] : Int) else none := by
  by_cases hd : isDigit b = true
  · obtain ⟨n, hn, rfl⟩ := (isDigit_iff b).mp hd
    have hdecimal : decimal [digit n] = n := by
      simpa only [decimal, List.foldl_cons, List.foldl_nil, Nat.mul_zero, Nat.zero_add] using
        (digit_spec ⟨n, hn⟩).2.2.2.2
    rw [if_pos hd, sscanfInt_digit hn, hdecimal]
  · rw [if_neg hd]
    refine sscanfInt_eq_none ?_
    have hzero : (0 :: s).takeWhile isDigit = [] := rfl
    by_cases hs : isSpace b = true
    · have hdrop : (b :: 0 :: s).dropWhile isSpace = 0 :: s := List.dropWhile_cons_of_pos hs
      rw [hdrop]
      exact hzero
    · have hdrop : (b :: 0 :: s).dropWhile isSpace = b :: 0 :: s := List.dropWhile_cons_of_neg hs
      rw [hdrop, sign]
      by_cases hminus : b = '-'.toUInt8
      · rw [if_pos hminus]
        exact hzero
      by_cases hplus : b = '+'.toUInt8
      · rw [if_neg hminus, if_pos hplus]
        exact hzero
      · rw [if_neg hminus, if_neg hplus]
        exact List.takeWhile_cons_of_neg hd

/-- Two digits, and then something else. -/
theorem sscanfInt_two {m n : Nat} (hm : m < 10) (hn : n < 10) {b : UInt8}
    (hb : isDigit b = false) (s : List UInt8) :
    sscanfInt (digit m :: digit n :: b :: s) = some ((10 * m + n : Nat) : Int) := by
  obtain ⟨hspace, hdigit, hminus, hplus, hval⟩ := digit_spec ⟨m, hm⟩
  obtain ⟨-, hdigit', -, -, hval'⟩ := digit_spec ⟨n, hn⟩
  have hskip : (digit m :: digit n :: b :: s).dropWhile isSpace = digit m :: digit n :: b :: s := by
    simp only [List.dropWhile_cons, hspace, Bool.false_eq_true, if_false]
  have hsign : sign (digit m :: digit n :: b :: s) = (false, digit m :: digit n :: b :: s) := by
    simp only [sign, if_neg hminus, if_neg hplus]
  have htake : (digit m :: digit n :: b :: s).takeWhile isDigit = [digit m, digit n] := by
    simp only [List.takeWhile_cons, hdigit, hdigit', hb, if_true, Bool.false_eq_true, if_false]
  have hdecimal : decimal [digit m, digit n] = 10 * m + n := by
    simp only [decimal, List.foldl_cons, List.foldl_nil, Nat.mul_zero, Nat.zero_add]
    exact congr (congrArg (fun x y => 10 * x + y) hval) hval'
  simp only [sscanfInt, hskip, hsign, htake, hdecimal, Bool.false_eq_true, if_false]

namespace LedController

variable (c : LedController) (beyond : List UInt8)

/-- `led_fifo_buff` has the marks of a packet: in front, and at one of two ends. -/
def Marked : Prop :=
  c.ledFifoBuff.byte 0 = '#'.toUInt8 ∧
    (c.ledFifoBuff.byte (dataLength - 1) = '!'.toUInt8 ∨
      c.ledFifoBuff.byte (dataLength - 2) = '!'.toUInt8)

instance : Decidable c.Marked := inferInstanceAs (Decidable (_ ∧ _))

/-- With the tilde behind one character. -/
def ShowsShort : Prop := c.Marked ∧ c.ledFifoBuff.byte 2 = '~'.toUInt8

/-- With the tilde behind two. -/
def ShowsLong : Prop :=
  c.Marked ∧ c.ledFifoBuff.byte 2 ≠ '~'.toUInt8 ∧ c.ledFifoBuff.byte 3 = '~'.toUInt8

/-- The pin taken from one character: the digit, or what `gpio_number` was. -/
def shortNumber : Int :=
  if isDigit (c.ledFifoBuff.byte 1) then decimal [c.ledFifoBuff.byte 1] else c.gpioNumber

/-- The pin taken from two characters and what lies behind them: `value` is not cleared. -/
def longNumber : Int :=
  (sscanfInt ([c.ledFifoBuff.byte 1, c.ledFifoBuff.byte 2, c.value.byte 2] ++ beyond)).getD
    c.gpioNumber

theorem toList_value (value : CArray UInt8 3) :
    value.toList = [value.byte 0, value.byte 1, value.byte 2] :=
  CArray.toList_eq_map_byte value

/-- The call of `update_structure`, by the tests on `led_fifo_buff`. -/
theorem process_call : (c.process beyond).2 =
    if c.Marked then
      if c.ledFifoBuff.byte 2 = '~'.toUInt8 then
        some ⟨c.shortNumber, gpioValue (c.ledFifoBuff.byte 3)⟩
      else if c.ledFifoBuff.byte 3 = '~'.toUInt8 then
        some ⟨c.longNumber beyond, gpioValue (c.ledFifoBuff.byte 4)⟩
      else none
    else none := by
  have hshort : ((CArray.memcpy c.value [0, 0] (by decide)).set 0
      (c.ledFifoBuff.byte 1)).toList = [c.ledFifoBuff.byte 1, 0, c.value.byte 2] := by
    rw [Vector.toList_set, CArray.toList_memcpy, toList_value]
    rfl
  have hlong : ((c.value.set 0 (c.ledFifoBuff.byte 1)).set 1 (c.ledFifoBuff.byte 2)).toList =
      [c.ledFifoBuff.byte 1, c.ledFifoBuff.byte 2, c.value.byte 2] := by
    rw [Vector.toList_set, Vector.toList_set, toList_value]
    rfl
  have hnumber : (sscanfInt ([c.ledFifoBuff.byte 1, 0, c.value.byte 2] ++ beyond)).getD
      c.gpioNumber = c.shortNumber := by
    rw [List.cons_append, List.cons_append, sscanfInt_single, shortNumber]
    split <;> rfl
  simp only [process, scan, Marked, apply_ite Prod.snd, hshort, hlong, hnumber]
  rfl

theorem process_short (h : c.ShowsShort) :
    (c.process beyond).2 = some ⟨c.shortNumber, gpioValue (c.ledFifoBuff.byte 3)⟩ := by
  rw [process_call, if_pos h.1, if_pos h.2]

theorem process_long (h : c.ShowsLong) :
    (c.process beyond).2 = some ⟨c.longNumber beyond, gpioValue (c.ledFifoBuff.byte 4)⟩ := by
  obtain ⟨hmarked, hno, htilde⟩ := h
  rw [process_call, if_pos hmarked, if_neg hno, if_pos htilde]

theorem process_none (hshort : ¬ c.ShowsShort) (hlong : ¬ c.ShowsLong) :
    (c.process beyond).2 = none := by
  rw [process_call]
  split
  · next hmarked =>
    have h2 : c.ledFifoBuff.byte 2 ≠ '~'.toUInt8 := fun h => hshort ⟨hmarked, h⟩
    have h3 : c.ledFifoBuff.byte 3 ≠ '~'.toUInt8 := fun h => hlong ⟨hmarked, h2, h⟩
    rw [if_neg h2, if_neg h3]
  · rfl

section TwoDigits

variable {c beyond} {chunk : Chunk} {cmd : LedCommand}

/-- A command in two digits is in `led_fifo_buff` as a whole. -/
theorem starts_longBytes (h : chunk.bytes = cmd.longBytes) :
    CArray.Starts (c.read chunk).ledFifoBuff cmd.longBytes :=
  h ▸ CArray.starts_memcpy c.ledFifoBuff chunk.bytes (Nat.le_trans chunk.le (by decide))

theorem showsLong_longBytes (h : chunk.bytes = cmd.longBytes) : (c.read chunk).ShowsLong := by
  have hstarts := starts_longBytes (c := c) h
  have hlen : cmd.longBytes.length = 6 := rfl
  have hne : ∀ pin : Fin numberOfLed, digit pin ≠ '~'.toUInt8 := by decide
  refine ⟨⟨hstarts.byte_eq (i := 0) (by omega), .inl (hstarts.byte_eq (i := 5) (by omega))⟩, ?_,
    hstarts.byte_eq (i := 3) (by omega)⟩
  rw [hstarts.byte_eq (i := 2) (by omega)]
  exact hne cmd.pin

theorem gpioValue_longBytes (h : chunk.bytes = cmd.longBytes) :
    gpioValue ((c.read chunk).ledFifoBuff.byte 4) = cmd.value.val := by
  have hlen : cmd.longBytes.length = 6 := rfl
  rw [(starts_longBytes (c := c) h).byte_eq (i := 4) (by omega)]
  exact gpioValue_digit cmd.value

/-- If `value[2]`, which is never written, is no digit, the pin is that of the command. -/
theorem longNumber_longBytes (h : chunk.bytes = cmd.longBytes)
    (hvalue : isDigit (c.value.byte 2) = false) :
    (c.read chunk).longNumber beyond = cmd.pin.val := by
  have hstarts := starts_longBytes (c := c) h
  have hlen : cmd.longBytes.length = 6 := rfl
  have h1 : (c.read chunk).ledFifoBuff.byte 1 = digit 0 := hstarts.byte_eq (i := 1) (by omega)
  have h2 : (c.read chunk).ledFifoBuff.byte 2 = digit cmd.pin := hstarts.byte_eq (i := 2) (by omega)
  have hpin : cmd.pin.val < 10 := Nat.lt_trans cmd.pin.isLt (by decide)
  have hscan := sscanfInt_two (m := 0) (by decide) hpin hvalue beyond
  rw [longNumber, h1, h2]
  refine (congrArg (·.getD c.gpioNumber) hscan).trans ?_
  rw [Option.getD_some, Nat.mul_zero, Nat.zero_add]

end TwoDigits

end LedController

/-! ## What a call does -/

/-- The entry is there and has the state already. -/
def HasState (gpio : Gpio) (u : Update) : Prop :=
  ∃ i : Fin numberOfLed, u.gpioNumber = (i.val : Int) ∧ (gpio.get i).state = u.gpioValue

theorem updateStructure_pin (gpio : Gpio) (i : Fin numberOfLed) (v : Int) :
    updateStructure gpio ⟨i.val, v⟩ =
      some (gpio.set i { gpio.get i with state := v } i.isLt) := by
  have hi := i.isLt
  have h : 0 ≤ (i.val : Int) ∧ (i.val : Int) < numberOfLed := by omega
  exact dif_pos h

/-- A call with another result than `none` is in the array. -/
theorem pin_of_updateStructure {gpio gpio' : Gpio} {u : Update}
    (h : updateStructure gpio u = some gpio') : ∃ i : Fin numberOfLed, u.gpioNumber = i.val := by
  unfold updateStructure at h
  split at h
  · next hr => exact ⟨⟨u.gpioNumber.toNat, by omega⟩, (Int.toNat_of_nonneg hr.1).symm⟩
  · cases h

theorem set_eq_self_iff (gpio : Gpio) (i : Fin numberOfLed) (v : Int) :
    gpio.set i { gpio.get i with state := v } i.isLt = gpio ↔ (gpio.get i).state = v := by
  constructor
  · intro h
    have hget := get_set gpio i i { gpio.get i with state := v }
    rw [h, if_pos rfl] at hget
    exact congrArg LedState.state hget
  · intro h
    refine Vector.ext fun j hj => ?_
    have hget := get_set gpio i ⟨j, hj⟩ { gpio.get i with state := v }
    refine hget.trans ?_
    split
    · next heq =>
      subst heq
      rw [← h]
      rfl
    · rfl

theorem updateStructure_eq_self_iff (gpio : Gpio) (u : Update) :
    updateStructure gpio u = some gpio ↔ HasState gpio u := by
  obtain ⟨n, v⟩ := u
  constructor
  · intro h
    obtain ⟨i, rfl : n = (i.val : Int)⟩ := pin_of_updateStructure h
    rw [updateStructure_pin] at h
    exact ⟨i, rfl, (set_eq_self_iff gpio i v).mp (Option.some.inj h)⟩
  · rintro ⟨i, rfl : n = (i.val : Int), hstate⟩
    rw [updateStructure_pin, (set_eq_self_iff gpio i v).mpr hstate]

/-- A call does what the command says if it has the pin of the command, or if both entries have the
state already. -/
theorem updateStructure_eq_applied_iff (gpio : Gpio) (c : LedCommand) (n : Int) :
    updateStructure gpio ⟨n, c.value.val⟩ = some (c.applied gpio) ↔
      n = c.pin.val ∨ HasState gpio ⟨n, c.value.val⟩ ∧ HasState gpio c.update := by
  have hupdate : updateStructure gpio c.update = some (c.applied gpio) :=
    updateStructure_command gpio c
  constructor
  · intro h
    obtain ⟨i, rfl : n = (i.val : Int)⟩ := pin_of_updateStructure h
    by_cases hpin : i = c.pin
    · exact .inl (by rw [hpin])
    · rw [updateStructure_pin] at h
      -- The two arrays agree at both pins, of which each changes one.
      have hset := Option.some.inj h
      have hget := fun j => congrArg (fun a => (Vector.get a j).state) hset
      simp only [LedCommand.applied, get_set] at hget
      have hi := hget i
      have hc := hget c.pin
      rw [if_pos rfl, if_neg fun heq => hpin heq.symm] at hi
      rw [if_neg hpin, if_pos rfl] at hc
      exact .inr ⟨⟨i, rfl, hi.symm⟩, ⟨c.pin, rfl, hc⟩⟩
  · rintro (rfl | ⟨hn, hpin⟩)
    · exact hupdate
    · rw [(updateStructure_eq_self_iff gpio _).mpr hn, ← hupdate,
        (updateStructure_eq_self_iff gpio _).mpr hpin]

/-! ## Turns and runs -/

namespace LedPins

variable {s : LedPins} {chunk : Chunk} {beyond : List UInt8}

theorem leaves_iff_of_none (h : (s.controller.onRead beyond chunk).2 = none) (gpio : Gpio) :
    s.Leaves chunk beyond gpio ↔ s.gpio = gpio := by
  cases hread : s.controller.onRead beyond chunk with
  | mk controller update =>
    rw [hread] at h
    cases h
    have hstep : ledReads.step (.read chunk beyond) s = .next { s with controller } := by
      simp only [ledReads, hread]
    constructor
    · rintro ⟨s', hs', rfl⟩
      cases hstep.symm.trans hs'
      rfl
    · rintro rfl
      exact ⟨_, hstep, rfl⟩

theorem leaves_iff_of_some {u : Update} (h : (s.controller.onRead beyond chunk).2 = some u)
    (gpio : Gpio) : s.Leaves chunk beyond gpio ↔ updateStructure s.gpio u = some gpio := by
  cases hread : s.controller.onRead beyond chunk with
  | mk controller update =>
    rw [hread] at h
    cases h
    cases hupdate : updateStructure s.gpio u with
    | none =>
      have hstep : ledReads.step (.read chunk beyond) s = .overrun := by
        simp only [ledReads, hread, hupdate]
      constructor
      · rintro ⟨s', hs', -⟩
        cases hstep.symm.trans hs'
      · intro hnone
        cases hnone
    | some gpio' =>
      have hstep : ledReads.step (.read chunk beyond) s =
          .next { s with controller, gpio := gpio' } := by
        simp only [ledReads, hread, hupdate]
      constructor
      · rintro ⟨s', hs', rfl⟩
        cases hstep.symm.trans hs'
        rfl
      · intro hsome
        cases hsome
        exact ⟨_, hstep, rfl⟩

/-- What the turn finds leads to what the grammar says. `led_fifo_buff` holds the chunk in front of
what earlier reads left. -/
structure Harmless (s : LedPins) (chunk : Chunk) (beyond : List UInt8) : Prop where
  /-- Behind a command in two digits, `sscanf` finds the pin of the command. -/
  twoDigits : ∀ c : LedCommand, chunk.bytes = c.longBytes →
    (s.controller.read chunk).longNumber beyond = c.pin.val ∨
      HasState s.gpio ⟨(s.controller.read chunk).longNumber beyond, c.value.val⟩ ∧
        HasState s.gpio c.update
  /-- If no command shows as a packet, its pin exists and has the state already. -/
  short : (∀ c, ¬ LedGrammar chunk.bytes c) → (s.controller.read chunk).ShowsShort →
    HasState s.gpio ⟨(s.controller.read chunk).shortNumber,
      gpioValue ((s.controller.read chunk).ledFifoBuff.byte 3)⟩
  long : (∀ c, ¬ LedGrammar chunk.bytes c) → (s.controller.read chunk).ShowsLong →
    HasState s.gpio ⟨(s.controller.read chunk).longNumber beyond,
      gpioValue ((s.controller.read chunk).ledFifoBuff.byte 4)⟩

/-- A turn with a command in one digit. -/
theorem leaves_one {c : LedCommand} (h : chunk.bytes = c.bytes) :
    s.Leaves chunk beyond (c.applied s.gpio) := by
  have hchunk : chunk = c.chunk := by
    obtain ⟨bytes, pos, le⟩ := chunk
    cases h
    rfl
  have hcall := s.controller.onRead_chunk beyond c
  rw [← hchunk] at hcall
  exact (leaves_iff_of_some hcall _).mpr (updateStructure_command s.gpio c)

/-- A turn with a command in two digits. -/
theorem leaves_two_iff {c : LedCommand} (h : chunk.bytes = c.longBytes) :
    s.Leaves chunk beyond (c.applied s.gpio) ↔
      (s.controller.read chunk).longNumber beyond = c.pin.val ∨
        HasState s.gpio ⟨(s.controller.read chunk).longNumber beyond, c.value.val⟩ ∧
          HasState s.gpio c.update := by
  have hcall := (s.controller.read chunk).process_long beyond (LedController.showsLong_longBytes h)
  rw [LedController.gpioValue_longBytes h] at hcall
  rw [leaves_iff_of_some hcall, updateStructure_eq_applied_iff]

/-- A turn does what the grammar says exactly if what it finds leads to that. -/
theorem followsGrammar_iff : s.FollowsGrammar chunk beyond ↔ s.Harmless chunk beyond := by
  constructor
  · intro h
    refine ⟨fun c hc => (leaves_two_iff hc).mp (h.command c (.inr hc)),
      fun hno hshows => ?_, fun hno hshows => ?_⟩
    · have hcall := (s.controller.read chunk).process_short beyond hshows
      exact (updateStructure_eq_self_iff _ _).mp ((leaves_iff_of_some hcall _).mp (h.other hno))
    · have hcall := (s.controller.read chunk).process_long beyond hshows
      exact (updateStructure_eq_self_iff _ _).mp ((leaves_iff_of_some hcall _).mp (h.other hno))
  · intro h
    refine ⟨fun c hc => ?_, fun hno => ?_⟩
    · obtain hone | htwo := hc
      · exact leaves_one hone
      · exact (leaves_two_iff htwo).mpr (h.twoDigits c htwo)
    · by_cases hshort : (s.controller.read chunk).ShowsShort
      · have hcall := (s.controller.read chunk).process_short beyond hshort
        exact (leaves_iff_of_some hcall _).mpr
          ((updateStructure_eq_self_iff _ _).mpr (h.short hno hshort))
      by_cases hlong : (s.controller.read chunk).ShowsLong
      · have hcall := (s.controller.read chunk).process_long beyond hlong
        exact (leaves_iff_of_some hcall _).mpr
          ((updateStructure_eq_self_iff _ _).mpr (h.long hno hlong))
      · have hcall := (s.controller.read chunk).process_none beyond hshort hlong
        exact (leaves_iff_of_none hcall _).mpr rfl

end LedPins

namespace LedReadEvent

/-- The turn does what the grammar says; a pass is not concerned. -/
def Follows : LedReadEvent → LedPins → Prop
  | .read chunk beyond, s => s.FollowsGrammar chunk beyond
  | .pass, _ => True

/-- It finds what leads to that. -/
def Finds : LedReadEvent → LedPins → Prop
  | .read chunk beyond, s => s.Harmless chunk beyond
  | .pass, _ => True

end LedReadEvent

/-- **The grammar.** From any state and in any run of the two threads, all reads do what the grammar
says exactly if they find what leads to that. -/
theorem ledGrammar_iff (s : LedPins) (es : List LedReadEvent) :
    ledReads.Meets LedReadEvent.Follows s es ↔ ledReads.Meets LedReadEvent.Finds s es := by
  refine Sched.meets_congr (fun e s => ?_) s es
  cases e with
  | read chunk beyond => exact LedPins.followsGrammar_iff
  | pass => exact Iff.rfl

/-- A command for a pin that does not exist, `#9~1!`. -/
def pinNine : Chunk where
  bytes := ['#'.toUInt8, '9'.toUInt8, '~'.toUInt8, '1'.toUInt8, '!'.toUInt8]
  pos := by decide
  le := by decide

/-- It is called for. -/
theorem not_followsGrammar_pinNine : ¬ ∀ (s : LedPins) (es : List LedReadEvent),
    ledReads.Meets LedReadEvent.Follows s es := by
  intro h
  have hstep : ledReads.step (.read pinNine []) (.start .zero) = .overrun := rfl
  have hno : ∀ c, ¬ LedGrammar pinNine.bytes c := by
    rintro ⟨pin, value⟩
    revert pin value
    decide
  have hfollows : (LedPins.start .zero).FollowsGrammar pinNine [] :=
    h (.start .zero) [.read pinNine []]
  obtain ⟨s', hs', -⟩ := hfollows.other hno
  cases hstep.symm.trans hs'

end Ble
