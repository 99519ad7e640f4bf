import BleGateway.Lib.CArray

/-!
# Stores to single cells

A store is a cell and a value for it.

* `last`: the last value that a list of stores has for a cell, if it has one.
* `apply`: the stores made to an array. A cell then holds the last value for it, or what it held
  before (`getElem_apply`).
* `agree_iff`: the front of the array does not depend on what it held before exactly if there is a
  store to every cell of it.
* `u8`, `u16`: a field of a packed struct laid over an array of bytes, on a little-endian host.
-/

namespace Stores

variable {ι α : Type} [DecidableEq ι]

/-- The last value for the cell `i`. -/
def last (ws : List (ι × α)) (i : ι) : Option α :=
  (ws.filter fun w => w.1 = i).getLast?.map Prod.snd

theorem last_append (ws vs : List (ι × α)) (i : ι) :
    last (ws ++ vs) i = (last vs i).or (last ws i) := by
  rw [last, List.filter_append, List.getLast?_append, Option.map_or]
  rfl

theorem last_singleton (w : ι × α) (i : ι) : last [w] i = if w.1 = i then some w.2 else none := by
  by_cases h : w.1 = i
  · simp [last, h]
  · simp [last, h]

theorem last_cons (w : ι × α) (ws : List (ι × α)) (i : ι) :
    last (w :: ws) i = (last ws i).or (if w.1 = i then some w.2 else none) := by
  rw [← last_singleton]
  exact last_append [w] ws i

theorem last_eq_none_iff {ws : List (ι × α)} {i : ι} :
    last ws i = none ↔ i ∉ ws.map Prod.fst := by
  simp only [last, Option.map_eq_none_iff, List.getLast?_eq_none_iff, List.filter_eq_nil_iff,
    decide_eq_true_iff, List.mem_map, not_exists, not_and]

/-! ## Arrays -/

section
variable {n : Nat}

/-- The stores, made one after the other. -/
def apply (ws : List (Nat × α)) (buf : CArray α n) : CArray α n :=
  ws.foldl (fun buf w => buf.setIfInBounds w.1 w.2) buf

theorem getElem_apply (ws : List (Nat × α)) (buf : CArray α n) {i : Nat} (hi : i < n) :
    (apply ws buf)[i] = (last ws i).getD buf[i] := by
  induction ws generalizing buf with
  | nil => rfl
  | cons w ws ih =>
    refine (ih (buf.setIfInBounds w.1 w.2)).trans ?_
    rw [Vector.getElem_setIfInBounds, last_cons]
    cases last ws i with
    | some x => rfl
    | none => by_cases h : w.1 = i <;> simp [h]

theorem byte_apply (ws : List (Nat × UInt8)) (buf : CArray UInt8 n) {i : Nat} (hi : i < n) :
    (apply ws buf).byte i = (last ws i).getD (buf.byte i) := by
  rw [CArray.byte_eq_getElem _ hi, CArray.byte_eq_getElem _ hi, getElem_apply ws buf hi]

theorem agree_iff {x y : α} (hxy : x ≠ y) (ws : List (Nat × α)) {k : Nat} (hk : k ≤ n) :
    (∀ buf buf' : CArray α n, (apply ws buf).slice 0 k = (apply ws buf').slice 0 k) ↔
      ∀ i < k, i ∈ ws.map Prod.fst := by
  constructor
  · intro h i hi
    have hn : i < n := Nat.lt_of_lt_of_le hi hk
    refine Classical.byContradiction fun hno => hxy ?_
    have hcell := congrArg (·[i]?) (h (Vector.replicate n x) (Vector.replicate n y))
    simpa [CArray.slice, hi, hn, getElem_apply, last_eq_none_iff.mpr hno] using hcell
  · intro h buf buf'
    refine List.ext_getElem (by simp [CArray.slice]) fun i hi _ => ?_
    have hlt : i < k := by
      rw [CArray.length_slice _ _ _ (by omega)] at hi
      exact hi
    have hn : i < n := Nat.lt_of_lt_of_le hlt hk
    cases hlast : last ws i with
    | none => exact absurd (h i hlt) (last_eq_none_iff.mp hlast)
    | some z => simp [CArray.slice, getElem_apply _ _ hn, hlast]

end

/-! ## Fields of a packed struct -/

/-- A `uint8_t` at the offset `i`. -/
def u8 (i : Nat) (x : UInt8) : List (Nat × UInt8) := [(i, x)]

/-- A `uint16_t` at the offset `i`, the low byte first. -/
def u16 (i : Nat) (x : UInt16) : List (Nat × UInt8) := [(i, x.toUInt8), (i + 1, (x >>> 8).toUInt8)]

end Stores
