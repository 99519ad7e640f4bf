import BleGateway.Lib.CArray

/-!
# The LEDs (`LED_Manager/led_manager.c`, `LED_Manager/led_controller.c`)

`led_manager -o pin value` writes the message `#pin~value!` to a FIFO. `Led_Controller` reads it and
calls `update_structure`; `Led_Controller_Processing` goes over the pins again and again and drives
them.

* `ledManager`: the message. `LedCommand`: a command with a pin of one digit.
* `LedController.onRead`: one turn of `Led_Controller`, with what `read` returned. Bytes that an
  earlier read left in `led_fifo_buff` are still there.
* `processLed`: one pin of a pass. `pass`: the pass.

What `printf` shows is left out; so is `direction` of `struct LED_STATE`, which nothing reads.
-/

namespace Ble

/-- `DATA_LENGTH`. -/
def dataLength : Nat := 6

/-- `NUMBER_OF_LED`. -/
def numberOfLed : Nat := 4

/-! ## The command line -/

/-- `main` of `led_manager` with `-o`: the `buffer` that it writes. -/
def ledManager (pin value : List UInt8) : Option (Fill UInt8) :=
  if value = ['2'.toUInt8] ∨ value = ['1'.toUInt8] ∨ value = ['0'.toUInt8] then
    some ⟨50, ['#'.toUInt8] ++ pin ++ ['~'.toUInt8] ++ value ++ ['!'.toUInt8]⟩
  else none

/-- The character of a digit. -/
def digit (n : Nat) : UInt8 := '0'.toUInt8 + UInt8.ofNat n

/-- A command for one of the pins, with one of the values that `led_manager` takes. -/
structure LedCommand where
  pin : Fin numberOfLed
  value : Fin 3
  deriving DecidableEq, Repr

/-- The message of a command. -/
def LedCommand.bytes (c : LedCommand) : List UInt8 :=
  ['#'.toUInt8, digit c.pin, '~'.toUInt8, digit c.value, '!'.toUInt8]

theorem ledManager_eq (c : LedCommand) :
    ledManager [digit c.pin] [digit c.value] = some ⟨50, c.bytes⟩ := by
  have hvalue : ∀ value : Fin 3,
      [digit value] = ['2'.toUInt8] ∨ [digit value] = ['1'.toUInt8] ∨
        [digit value] = ['0'.toUInt8] := by decide
  exact if_pos (hvalue c.value)

/-! ## The controller -/

/-- `isspace`. -/
def isSpace (b : UInt8) : Bool := b = ' '.toUInt8 || (0x09 ≤ b && b ≤ 0x0D)

/-- `isdigit`. -/
def isDigit (b : UInt8) : Bool := '0'.toUInt8 ≤ b && b ≤ '9'.toUInt8

/-- The number that decimal digits stand for. -/
def decimal (ds : List UInt8) : Nat := ds.foldl (fun n d => 10 * n + (d.toNat - '0'.toNat)) 0

/-- The sign in front of a number: is it a minus, and what follows it. -/
def sign : List UInt8 → Bool × List UInt8
  | b :: s => if b = '-'.toUInt8 then (true, s) else (false, if b = '+'.toUInt8 then s else b :: s)
  | [] => (false, [])

/-- `sscanf(s, "%d", &n)`: the number stored, if there is one. An overflow of `int` is not
modelled. -/
def sscanfInt (s : List UInt8) : Option Int :=
  let (minus, s) := sign (s.dropWhile isSpace)
  match s.takeWhile isDigit with
  | [] => none
  | ds => some (if minus then -(decimal ds : Int) else decimal ds)

/-- The arguments of `update_structure`. -/
structure Update where
  gpioNumber : Int
  gpioValue : Int
  deriving DecidableEq, Repr

/-- What `read` returns: one byte at least, `DATA_LENGTH` at most. -/
structure Chunk where
  bytes : List UInt8
  pos : 0 < bytes.length
  le : bytes.length ≤ dataLength
  deriving DecidableEq, Repr

/-- What a `read` returns that finds these bytes, if it returns all of them. -/
def Chunk.ofBytes (bytes : List UInt8) : Option Chunk :=
  if h : 0 < bytes.length ∧ bytes.length ≤ dataLength then some ⟨bytes, h.1, h.2⟩ else none

/-- A message by a read of its own. -/
def LedCommand.chunk (c : LedCommand) : Chunk := ⟨c.bytes, Nat.zero_lt_succ 4, Nat.le_succ 5⟩

/-- It is what `led_manager` wrote. -/
theorem ledManager_chunk (c : LedCommand) :
    ((ledManager [digit c.pin] [digit c.value]).bind fun buffer => Chunk.ofBytes buffer.stored) =
      some c.chunk := by
  have hread : Chunk.ofBytes c.bytes = some c.chunk :=
    dif_pos (And.intro c.chunk.pos c.chunk.le)
  rw [ledManager_eq, Option.bind_some, hread]

/-- The locals of `Led_Controller`. -/
structure LedController where
  ledFifoBuff : CArray UInt8 20
  value : CArray UInt8 3
  gpioNumber : Int
  deriving DecidableEq

/-- Locals that happen to be zero. -/
def LedController.zero : LedController := ⟨Vector.replicate 20 0, Vector.replicate 3 0, 0⟩

/-- `gpio_value` for its character: what is not `1` or `2` counts as 0. -/
def gpioValue (b : UInt8) : Int := if b = '1'.toUInt8 then 1 else if b = '2'.toUInt8 then 2 else 0

namespace LedController

/-- `read(f_led_fifo, led_fifo_buff, DATA_LENGTH)`. -/
def read (c : LedController) (chunk : Chunk) : LedController :=
  have h : chunk.bytes.length ≤ 20 := Nat.le_trans chunk.le (by decide)
  { c with ledFifoBuff := CArray.memcpy c.ledFifoBuff chunk.bytes h }

/-- `sscanf(value, "%d", &gpio_number)`. Behind `value` lies `beyond`, up to a zero. -/
def scan (c : LedController) (beyond : List UInt8) (value : CArray UInt8 3) : LedController :=
  { c with value, gpioNumber := (sscanfInt (value.toList ++ beyond)).getD c.gpioNumber }

/-- What the controller does with `led_fifo_buff`, and its call of `update_structure`. -/
def process (c : LedController) (beyond : List UInt8) : LedController × Option Update :=
  let buff := c.ledFifoBuff
  if buff.byte 0 = '#'.toUInt8 ∧ (buff.byte (dataLength - 1) = '!'.toUInt8 ∨
      buff.byte (dataLength - 2) = '!'.toUInt8) then
    if buff.byte 2 = '~'.toUInt8 then
      let value := CArray.memcpy c.value [0, 0] (by decide)
      let c := c.scan beyond (value.set 0 (buff.byte 1))
      (c, some ⟨c.gpioNumber, gpioValue (buff.byte 3)⟩)
    else if buff.byte 3 = '~'.toUInt8 then
      let c := c.scan beyond ((c.value.set 0 (buff.byte 1)).set 1 (buff.byte 2))
      (c, some ⟨c.gpioNumber, gpioValue (buff.byte 4)⟩)
    else (c, none)
  else (c, none)

/-- A turn of `Led_Controller`. -/
def onRead (c : LedController) (beyond : List UInt8) (chunk : Chunk) :
    LedController × Option Update := (c.read chunk).process beyond

end LedController

/-! ## The pins -/

/-- `struct LED_STATE`. -/
structure LedState where
  state : Int
  flag : Int
  deriving DecidableEq, Repr

/-- The array `GPIO`. -/
abbrev Gpio := CArray LedState numberOfLed

/-- `update_structure`; `none` outside the array. -/
def updateStructure (gpio : Gpio) (u : Update) : Option Gpio :=
  if h : 0 ≤ u.gpioNumber ∧ u.gpioNumber < numberOfLed then
    have hn : u.gpioNumber.toNat < numberOfLed := by omega
    let l := gpio.get ⟨u.gpioNumber.toNat, hn⟩
    some (gpio.set u.gpioNumber.toNat { l with state := u.gpioValue } hn)
  else none

/-- One turn of the loop of `Led_Controller_Processing`: the pin afterwards, and the level that it
is driven to. -/
def processLed (l : LedState) : LedState × Option Bool :=
  if l.state = 1 then ({ l with state := 5 }, some true)
  else if l.state = 0 then ({ l with state := 5 }, some false)
  else if l.state = 2 ∧ l.flag = 1 then ({ l with flag := 0 }, some true)
  else if l.state = 2 ∧ l.flag = 0 then ({ l with flag := 1 }, some false)
  else (l, none)

/-- `pin_ON(i)` and `pin_OFF(i)`. -/
structure Drive where
  pin : Fin numberOfLed
  level : Bool
  deriving DecidableEq, Repr

/-- The array and the drives of the pass so far, and after the turn for `GPIO[i]`. -/
def passStep (p : Gpio × List Drive) (i : Fin numberOfLed) : Gpio × List Drive :=
  let (l, level) := processLed (p.1.get i)
  (p.1.set i l i.isLt, p.2 ++ (level.map (Drive.mk i)).toList)

/-- A pass of `Led_Controller_Processing`. -/
def pass (gpio : Gpio) : Gpio × List Drive :=
  (List.finRange numberOfLed).foldl passStep (gpio, [])

/-! ## What the controller reads -/

/-- The characters of digits, as `sscanf` looks at them. -/
theorem digit_spec : ∀ n : Fin 10, isSpace (digit n) = false ∧ isDigit (digit n) = true ∧
    digit n ≠ '-'.toUInt8 ∧ digit n ≠ '+'.toUInt8 ∧ (digit n).toNat - '0'.toNat = n := by
  decide

theorem sscanfInt_digit {n : Nat} (h : n < 10) (s : List UInt8) :
    sscanfInt (digit n :: 0 :: s) = some (n : Int) := by
  obtain ⟨hspace, hdigit, hminus, hplus, hval⟩ := digit_spec ⟨n, h⟩
  have hzero : isDigit 0 = false := by decide
  have hskip : (digit n :: 0 :: s).dropWhile isSpace = digit n :: 0 :: s := by
    simp only [List.dropWhile_cons, hspace, Bool.false_eq_true, if_false]
  have hsign : sign (digit n :: 0 :: s) = (false, digit n :: 0 :: s) := by
    simp only [sign, if_neg hminus, if_neg hplus]
  have htake : (digit n :: 0 :: s).takeWhile isDigit = [digit n] := by
    simp only [List.takeWhile_cons, hdigit, hzero, if_true, Bool.false_eq_true, if_false]
  have hdecimal : decimal [digit n] = n := by
    simpa only [decimal, List.foldl_cons, List.foldl_nil, Nat.mul_zero, Nat.zero_add] using hval
  simp only [sscanfInt, hskip, hsign, htake, hdecimal, Bool.false_eq_true, if_false]

theorem gpioValue_digit (v : Fin 3) : gpioValue (digit v) = (v.val : Int) := by
  revert v
  decide

/-- The call for a command. -/
def LedCommand.update (c : LedCommand) : Update := ⟨c.pin.val, c.value.val⟩

namespace LedController

variable {c : LedController} {beyond : List UInt8}

/-- Without `#` in front there is no call. -/
theorem process_of_ne (h : c.ledFifoBuff.byte 0 ≠ '#'.toUInt8) :
    c.process beyond = (c, none) := if_neg fun hand => h hand.1

/-- With a message in front there is its call, if one of the two bytes is an exclamation mark. -/
theorem process_command {cmd : LedCommand} (h : CArray.Starts c.ledFifoBuff (cmd.bytes.take 4)) :
    (c.process beyond).2 =
      if c.ledFifoBuff.byte 5 = '!'.toUInt8 ∨ c.ledFifoBuff.byte 4 = '!'.toUInt8 then
        some cmd.update
      else none := by
  have hlen : (cmd.bytes.take 4).length = 4 := rfl
  have h0 : c.ledFifoBuff.byte 0 = '#'.toUInt8 := h.byte_eq (i := 0) (by omega)
  have h1 : c.ledFifoBuff.byte 1 = digit cmd.pin := h.byte_eq (i := 1) (by omega)
  have h2 : c.ledFifoBuff.byte 2 = '~'.toUInt8 := h.byte_eq (i := 2) (by omega)
  have h3 : c.ledFifoBuff.byte 3 = digit cmd.value := h.byte_eq (i := 3) (by omega)
  have hscan (value : CArray UInt8 3) : sscanfInt
      (((CArray.memcpy value [0, 0] (by decide)).set 0 (digit cmd.pin)).toList ++ beyond) =
        some (cmd.pin.val : Int) := by
    rw [Vector.toList_set, CArray.toList_memcpy]
    exact sscanfInt_digit (Nat.lt_trans cmd.pin.isLt (by decide)) _
  simp only [process, dataLength, h0, h1, h2, h3, true_and, if_true, gpioValue_digit, scan, hscan,
    Option.getD_some]
  split <;> rfl

/-- A message by a read of its own gives its call, whatever the locals held. -/
theorem onRead_chunk (c : LedController) (beyond : List UInt8) (cmd : LedCommand) :
    (c.onRead beyond cmd.chunk).2 = some cmd.update := by
  have hstarts : CArray.Starts (c.read cmd.chunk).ledFifoBuff cmd.bytes :=
    CArray.starts_memcpy c.ledFifoBuff cmd.bytes (Nat.le_trans cmd.chunk.le (by decide))
  have hend : (c.read cmd.chunk).ledFifoBuff.byte 4 = '!'.toUInt8 :=
    hstarts.byte_eq (i := 4) (Nat.lt_succ_self 4)
  rw [onRead, process_command ((List.take_prefix 4 _).trans hstarts), if_pos (.inr hend)]

end LedController

/-! ## What a pass does -/

theorem updateStructure_command (gpio : Gpio) (c : LedCommand) :
    updateStructure gpio c.update =
      some (gpio.set c.pin { gpio.get c.pin with state := c.value.val } c.pin.isLt) := by
  have hpin := c.pin.isLt
  have h : 0 ≤ c.update.gpioNumber ∧ c.update.gpioNumber < numberOfLed := by
    simp only [LedCommand.update]
    omega
  exact dif_pos h

/-- The levels that the pin `i` is driven to, in order. -/
def levels (i : Fin numberOfLed) (drives : List Drive) : List Bool :=
  drives.filterMap fun d => if d.pin = i then some d.level else none

theorem levels_append (i : Fin numberOfLed) (ds es : List Drive) :
    levels i (ds ++ es) = levels i ds ++ levels i es := List.filterMap_append

theorem levels_drive (i j : Fin numberOfLed) (level : Option Bool) :
    levels i (level.map (Drive.mk j)).toList = if j = i then level.toList else [] := by
  cases level with
  | none => simp [levels]
  | some b =>
    by_cases h : j = i
    · simp [levels, h]
    · simp [levels, h]

theorem get_set (gpio : Gpio) (i j : Fin numberOfLed) (l : LedState) :
    Vector.get (gpio.set i l i.isLt) j = if i = j then l else gpio.get j := by
  have hget : Vector.get (gpio.set i l i.isLt) j =
      if i.val = j.val then l else gpio.get j := Vector.getElem_set i.isLt j.isLt
  rw [hget]
  simp only [Fin.ext_iff]

/-- The turn for a pin changes and drives no other. -/
theorem passStep_spec (p : Gpio × List Drive) (j i : Fin numberOfLed) :
    (passStep p j).1.get i = (if j = i then (processLed (p.1.get i)).1 else p.1.get i) ∧
      levels i (passStep p j).2 =
        levels i p.2 ++ if j = i then (processLed (p.1.get i)).2.toList else [] := by
  constructor
  · rw [passStep, get_set]
    by_cases h : j = i
    · subst h
      rfl
    · rw [if_neg h, if_neg h]
  · rw [passStep, levels_append, levels_drive]
    by_cases h : j = i
    · subst h
      rfl
    · rw [if_neg h, if_neg h]

/-- The turn for a pin. -/
theorem passStep_self (p : Gpio × List Drive) (i : Fin numberOfLed) :
    (passStep p i).1.get i = (processLed (p.1.get i)).1 ∧
      levels i (passStep p i).2 = levels i p.2 ++ (processLed (p.1.get i)).2.toList := by
  simpa only [if_true] using passStep_spec p i i

/-- The turns for other pins. -/
theorem foldl_passStep_of_not_mem {is : List (Fin numberOfLed)} {i : Fin numberOfLed}
    (hi : i ∉ is) (p : Gpio × List Drive) : (is.foldl passStep p).1.get i = p.1.get i ∧
      levels i (is.foldl passStep p).2 = levels i p.2 := by
  induction is generalizing p with
  | nil => exact ⟨rfl, rfl⟩
  | cons j is ih =>
    have hne : j ≠ i := fun h => hi (h ▸ List.mem_cons_self)
    obtain ⟨hled, hdrives⟩ := passStep_spec p j i
    rw [if_neg hne] at hled hdrives
    rw [List.append_nil] at hdrives
    obtain ⟨hleds, hdrivess⟩ := ih (fun h => hi (List.mem_cons_of_mem j h)) (passStep p j)
    exact ⟨hleds.trans hled, hdrivess.trans hdrives⟩

/-- Turns with one for the pin among them. -/
theorem foldl_passStep_of_mem {is : List (Fin numberOfLed)} (hnodup : is.Nodup)
    {i : Fin numberOfLed} (hi : i ∈ is) (p : Gpio × List Drive) :
    (is.foldl passStep p).1.get i = (processLed (p.1.get i)).1 ∧
      levels i (is.foldl passStep p).2 = levels i p.2 ++ (processLed (p.1.get i)).2.toList := by
  induction is generalizing p with
  | nil => cases hi
  | cons j is ih =>
    obtain ⟨hj, hnodup⟩ := List.nodup_cons.mp hnodup
    obtain rfl | hi := List.mem_cons.mp hi
    · obtain ⟨hled, hdrives⟩ := passStep_self p i
      obtain ⟨hleds, hdrivess⟩ := foldl_passStep_of_not_mem hj (passStep p i)
      exact ⟨hleds.trans hled, hdrivess.trans hdrives⟩
    · have hne : j ≠ i := fun h => hj (h ▸ hi)
      obtain ⟨hled, hdrives⟩ := passStep_spec p j i
      rw [if_neg hne] at hled hdrives
      rw [List.append_nil] at hdrives
      obtain ⟨hleds, hdrivess⟩ := ih hnodup hi (passStep p j)
      rw [hled] at hleds hdrivess
      rw [hdrives] at hdrivess
      exact ⟨hleds, hdrivess⟩

/-- A pass takes every pin one turn further. -/
theorem pass_spec (gpio : Gpio) (i : Fin numberOfLed) :
    (pass gpio).1.get i = (processLed (gpio.get i)).1 ∧
      levels i (pass gpio).2 = (processLed (gpio.get i)).2.toList := by
  have hnodup : (List.finRange numberOfLed).Nodup := by decide
  exact foldl_passStep_of_mem hnodup (List.mem_finRange i) (gpio, [])

end Ble
