import BleGateway.Lib.Mealy
import BleGateway.HciCommands

/-!
# The UART framer (`src/UartCmdRxThread.c`, lines 37–116 and 287–293)

`UartCmdRxThread` reads one byte at a time and collects event packets in `rx_packet`. `rxByte` is
its switch: it changes the state and, at the last byte of a packet, hands the packet to the
dispatch chain (`Completed`), after which the thread goes back to `STATE_IDLE`.

`selectQ` is written and never read, so it is left out.

* `store`: `rx_packet[index++] = rx_byte` with the 8-bit `index`. `storeAll` is a sequence of them:
  it keeps the first cells equal to the stored bytes for up to 256 bytes (`storeAll_starts`) and
  goes round the buffer after that (`storeAll_append`).
* `rxByte_*`: what one byte does in each state. Everything later uses these and never unfolds the
  switch.
* `packet_wait_run`: `STATE_PACKET_WAIT` consumes exactly `max count 1` bytes.
-/

namespace Ble

/-- `State_t`. -/
inductive State where
  | idle
  | init
  | eventResponse
  | eventLength
  | packetWait
  | error
  deriving DecidableEq, Repr

/-- The locals of `UartCmdRxThread` that the per-byte switch reads or writes. -/
structure Framer where
  currentState : State
  index : UInt8
  count : Int
  rxPacket : CArray UInt8 2048
  deriving DecidableEq

/-- A packet as the dispatch chain finds it: the whole of `rx_packet`, and `index`. -/
structure Completed where
  rxPacket : CArray UInt8 2048
  index : UInt8
  deriving DecidableEq

namespace Framer

theorem index_lt (s : Framer) : s.index.toNat < 2048 := Nat.lt_trans s.index.toNat_lt (by decide)

/-- `rx_packet[index++] = rx_byte`. -/
def store (s : Framer) (rxByte : UInt8) : Framer :=
  { s with rxPacket := s.rxPacket.set s.index.toNat rxByte s.index_lt, index := s.index + 1 }

/-- The thread before its first byte: `count` and `rx_packet` are uninitialised. -/
def start (count : Int) (rxPacket : CArray UInt8 2048) : Framer :=
  { currentState := .idle, index := 0, count, rxPacket }

/-- Lines 83–293: one byte. -/
def rxByte (s : Framer) (b : UInt8) : Framer × Option Completed :=
  let s := if s.index = 0 ∧ s.currentState = .idle ∧ (b = bleEvtPkt ∨ b = bleAsdPkt) then
      { s with currentState := .init } else s
  match s.currentState with
  | .idle => ({ s with index := 0, count := 0 }, none)
  | .init =>
    if b = bleEvtPkt then ({ s.store b with currentState := .eventResponse }, none)
    else if b = bleAsdPkt then (s.store b, none)
    else ({ s with currentState := .error }, none)
  | .eventResponse => ({ s.store b with currentState := .eventLength }, none)
  | .eventLength => ({ s.store b with count := b.toNat, currentState := .packetWait }, none)
  | .packetWait =>
    let s := { s.store b with count := s.count - 1 }
    if s.count ≤ 0 then
      ({ s with currentState := .idle, index := 0, count := 0 }, some ⟨s.rxPacket, s.index⟩)
    else (s, none)
  -- `switch` has no case for `STATE_ERROR`.
  | .error => (s, none)

/-- The framer as a machine that outputs the packets it completes. -/
def machine : Mealy Framer UInt8 (Option Completed) := ⟨rxByte⟩

@[simp] theorem machine_step (s : Framer) (b : UInt8) : machine.step s b = rxByte s b := rfl

/-- The packet boundary: `STATE_IDLE` with `index` 0. -/
def AtBoundary (s : Framer) : Prop := s.currentState = .idle ∧ s.index = 0

instance (s : Framer) : Decidable s.AtBoundary :=
  inferInstanceAs (Decidable (s.currentState = .idle ∧ s.index = 0))

theorem atBoundary_start (count : Int) (p : CArray UInt8 2048) : (start count p).AtBoundary :=
  ⟨rfl, rfl⟩

/-! ## Storing -/

@[simp] theorem store_currentState (s : Framer) (b : UInt8) :
    (s.store b).currentState = s.currentState := rfl

@[simp] theorem store_index (s : Framer) (b : UInt8) : (s.store b).index = s.index + 1 := rfl

@[simp] theorem store_count (s : Framer) (b : UInt8) : (s.store b).count = s.count := rfl

/-- A sequence of stores. -/
def storeAll (s : Framer) (bs : List UInt8) : Framer := bs.foldl store s

@[simp] theorem storeAll_nil (s : Framer) : s.storeAll [] = s := rfl

@[simp] theorem storeAll_cons (s : Framer) (b : UInt8) (bs : List UInt8) :
    s.storeAll (b :: bs) = (s.store b).storeAll bs := rfl

theorem storeAll_append (s : Framer) (bs cs : List UInt8) :
    s.storeAll (bs ++ cs) = (s.storeAll bs).storeAll cs := List.foldl_append

@[simp] theorem storeAll_currentState (s : Framer) (bs : List UInt8) :
    (s.storeAll bs).currentState = s.currentState := by
  induction bs generalizing s with
  | nil => rfl
  | cons b bs ih => exact ih _

@[simp] theorem storeAll_count (s : Framer) (bs : List UInt8) :
    (s.storeAll bs).count = s.count := by
  induction bs generalizing s with
  | nil => rfl
  | cons b bs ih => exact ih _

theorem storeAll_index (s : Framer) (bs : List UInt8) :
    (s.storeAll bs).index = s.index + UInt8.ofNat bs.length := by
  induction bs generalizing s with
  | nil => simp
  | cons b bs ih =>
    rw [storeAll_cons, ih, store_index, List.length_cons, UInt8.ofNat_add, UInt8.add_assoc,
      UInt8.add_comm 1]
    rfl

/-- `index` counts modulo 256. -/
theorem toNat_storeAll_index (s : Framer) (bs : List UInt8) :
    (s.storeAll bs).index.toNat = (s.index.toNat + bs.length) % 256 := by
  rw [storeAll_index, UInt8.toNat_add, UInt8.toNat_ofNat']
  simp

/-- The stores of `storeAll` leave the state name and the counter alone. -/
theorem storeAll_with (s : Framer) (st : State) (c : Int) (bs : List UInt8) :
    storeAll { s with currentState := st, count := c } bs =
      { s.storeAll bs with currentState := st, count := c } := by
  induction bs generalizing s with
  | nil => rfl
  | cons b bs ih => exact ih (s.store b)

/-- Up to 256 bytes stored from `index` 0 stand at the front of `rx_packet`. -/
theorem storeAll_starts {s : Framer} (h0 : s.index = 0) (bs : List UInt8)
    (hlen : bs.length ≤ 256) : CArray.Starts (s.storeAll bs).rxPacket bs := by
  suffices h : ∀ (r l : List UInt8) (t : Framer), l.length + r.length ≤ 256 →
      t.index = UInt8.ofNat l.length → CArray.Starts t.rxPacket l →
      CArray.Starts (t.storeAll r).rxPacket (l ++ r) from
    h bs [] s (by simpa using hlen) (by simpa using h0) (CArray.starts_nil _)
  intro r
  induction r with
  | nil => intro l t _ _ hs; simpa using hs
  | cons b r ih =>
    intro l t hl ht hs
    rw [List.length_cons] at hl
    have hx : t.index.toNat = l.length := by
      rw [ht, UInt8.toNat_ofNat_of_lt' (by simp [UInt8.size]; omega)]
    have := ih (l ++ [b]) (t.store b) (by simp; omega)
      (by rw [store_index, ht, List.length_append, UInt8.ofNat_add]; rfl) ?_
    · simpa using this
    · simp only [store, hx]
      exact hs.set (by omega) b

/-- Up to 256 bytes stored from `index` 0 leave the cells behind them alone. -/
theorem storeAll_getElem_ge {s : Framer} (h0 : s.index = 0) {bs : List UInt8}
    (hlen : bs.length ≤ 256) {i : Nat} (hi : bs.length ≤ i) (hn : i < 2048) :
    (s.storeAll bs).rxPacket[i] = s.rxPacket[i] := by
  suffices h : ∀ (r l : List UInt8) (t : Framer), l.length + r.length ≤ 256 →
      t.index = UInt8.ofNat l.length → l.length + r.length ≤ i →
      (t.storeAll r).rxPacket[i] = t.rxPacket[i] from
    h bs [] s (by simpa using hlen) (by simpa using h0) (by simpa using hi)
  intro r
  induction r with
  | nil => intro l t _ _ _; rfl
  | cons b r ih =>
    intro l t hl ht hi
    rw [List.length_cons] at hl hi
    have hx : t.index.toNat = l.length := by
      rw [ht, UInt8.toNat_ofNat_of_lt' (by simp [UInt8.size]; omega)]
    rw [storeAll_cons, ih (l ++ [b]) (t.store b) (by simp; omega)
      (by rw [store_index, ht, List.length_append, UInt8.ofNat_add]; rfl) (by simp; omega)]
    exact Vector.getElem_set_ne t.index_lt hn (by omega)

/-! ## One byte -/

theorem rxByte_idle_noise {s : Framer} (h : s.AtBoundary) {b : UInt8} (h2 : b ≠ bleAsdPkt)
    (h4 : b ≠ bleEvtPkt) : rxByte s b = ({ s with index := 0, count := 0 }, none) := by
  simp [rxByte, h.1, h2, h4]

theorem rxByte_idle_evt {s : Framer} (h : s.AtBoundary) :
    rxByte s bleEvtPkt = ({ s.store bleEvtPkt with currentState := .eventResponse }, none) := by
  simp [rxByte, h.1, h.2, store]

theorem rxByte_idle_asd {s : Framer} (h : s.AtBoundary) :
    rxByte s bleAsdPkt = ({ s.store bleAsdPkt with currentState := .init }, none) := by
  simp [rxByte, h.1, h.2, store, bleAsdPkt, bleEvtPkt]

theorem rxByte_init_evt {s : Framer} (h : s.currentState = .init) :
    rxByte s bleEvtPkt = ({ s.store bleEvtPkt with currentState := .eventResponse }, none) := by
  simp [rxByte, h]

theorem rxByte_init_asd {s : Framer} (h : s.currentState = .init) :
    rxByte s bleAsdPkt = (s.store bleAsdPkt, none) := by
  simp [rxByte, h, bleAsdPkt, bleEvtPkt]

theorem rxByte_init_other {s : Framer} (h : s.currentState = .init) {b : UInt8}
    (h2 : b ≠ bleAsdPkt) (h4 : b ≠ bleEvtPkt) :
    rxByte s b = ({ s with currentState := .error }, none) := by
  simp [rxByte, h, h2, h4]

theorem rxByte_eventResponse {s : Framer} (h : s.currentState = .eventResponse) (b : UInt8) :
    rxByte s b = ({ s.store b with currentState := .eventLength }, none) := by
  simp [rxByte, h]

theorem rxByte_eventLength {s : Framer} (h : s.currentState = .eventLength) (b : UInt8) :
    rxByte s b = ({ s.store b with count := b.toNat, currentState := .packetWait }, none) := by
  simp [rxByte, h]

theorem rxByte_packetWait_more {s : Framer} (h : s.currentState = .packetWait) (hc : 1 < s.count)
    (b : UInt8) : rxByte s b = ({ s.store b with count := s.count - 1 }, none) := by
  simp [rxByte, h, hc]

theorem rxByte_packetWait_last {s : Framer} (h : s.currentState = .packetWait) (hc : s.count ≤ 1)
    (b : UInt8) :
    rxByte s b = ({ s.store b with currentState := .idle, index := 0, count := 0 },
      some ⟨(s.store b).rxPacket, (s.store b).index⟩) := by
  simp [rxByte, h, hc]

/-- `STATE_ERROR` is never left. -/
theorem rxByte_error {s : Framer} (h : s.currentState = .error) (b : UInt8) :
    rxByte s b = (s, none) := by
  simp [rxByte, h]

/-! ## The rest of a packet -/

/-- In `STATE_PACKET_WAIT` fewer bytes than `count` are all stored and complete nothing. -/
theorem packet_wait_open {s : Framer} (h : s.currentState = .packetWait) (bs : List UInt8)
    (hl : (bs.length : Int) < max s.count 1) :
    machine.after s bs = { s.storeAll bs with count := s.count - bs.length } ∧
      machine.outputs s bs = List.replicate bs.length none := by
  induction bs generalizing s with
  | nil => simp [storeAll]
  | cons b bs ih =>
    rw [List.length_cons] at hl
    have hstep := rxByte_packetWait_more h (by omega) b
    obtain ⟨h1, h2⟩ := ih (s := { s.store b with count := s.count - 1 }) h
      (by simp only; omega)
    simp only [Mealy.after_cons, Mealy.outputs_cons, machine_step, hstep] at h1 h2 ⊢
    rw [h1, h2]
    refine ⟨?_, by simp [List.replicate_succ]⟩
    rw [storeAll_with (s.store b) (s.store b).currentState (s.count - 1) bs]
    simp only [Framer.mk.injEq, storeAll_cons, storeAll_currentState, store_currentState,
      List.length_cons, true_and, and_true]
    omega

/-- `STATE_PACKET_WAIT` with `count` bytes to come completes the packet at the last of them, or at
the next byte when `count` is not positive. -/
theorem packet_wait_run {s : Framer} (h : s.currentState = .packetWait) (bs : List UInt8)
    (hl : (bs.length : Int) = max s.count 1) :
    machine.after s bs = { s.storeAll bs with currentState := .idle, index := 0, count := 0 } ∧
      machine.outputs s bs = List.replicate (bs.length - 1) none ++
        [some ⟨(s.storeAll bs).rxPacket, (s.storeAll bs).index⟩] := by
  obtain ⟨init, b, rfl⟩ : ∃ init b, bs = init ++ [b] := by
    refine ⟨bs.dropLast, bs.getLast (by rintro rfl; simp at hl; omega), ?_⟩
    exact (List.dropLast_concat_getLast _).symm
  rw [List.length_append, List.length_singleton] at hl
  obtain ⟨h1, h2⟩ := packet_wait_open h init (by omega)
  have hst : (machine.after s init).currentState = .packetWait := by rw [h1]; simpa using h
  have hct : (machine.after s init).count ≤ 1 := by rw [h1]; simp only; omega
  have hlast := rxByte_packetWait_last hst hct b
  rw [Mealy.after_append, Mealy.outputs_append, h2]
  simp only [Mealy.after_cons, Mealy.after_nil, Mealy.outputs_cons, Mealy.outputs_nil,
    machine_step, hlast]
  rw [h1]
  simp [storeAll_append, store]

end Framer

end Ble
