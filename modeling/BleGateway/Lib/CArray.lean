/-!
# C arrays

An array of the C language has a fixed number of cells and no bounds check. `CArray α n` is one
with `n` cells; what the program keeps in it is described by lists.

* `Starts buf l`: the cells `buf[0..l.length)` hold `l`.
* `memcpy`: `l` copied over the front of an array; the cells behind it keep what they held.
* `slice`: the cells `buf[i..i+k)`, as a loop that reads them in order sees them. `read` is the same
  for a loop that does not stop at the end of the array.
* `byte`: the cell `buf[i]` of an array of bytes, for the constant indices of a program text.
* `Fill`: an array that a function fills through `a[idx++] = x`. `Fill.InBounds` says that every
  such store hit a cell of the array.
-/

/-- A C array of `n` cells. -/
abbrev CArray (α : Type) (n : Nat) := Vector α n

namespace CArray

variable {α : Type} {n : Nat}

/-- The first cells of `buf` hold `l`. -/
def Starts (buf : CArray α n) (l : List α) : Prop := l <+: buf.toList

theorem starts_nil (buf : CArray α n) : Starts buf [] := List.nil_prefix

theorem Starts.length_le {buf : CArray α n} {l : List α} (h : Starts buf l) : l.length ≤ n := by
  simpa using List.IsPrefix.length_le h

theorem Starts.getElem {buf : CArray α n} {l : List α} (h : Starts buf l) {i : Nat}
    (hi : i < l.length) {hn : i < n} : buf[i] = l[i] := by
  rw [List.IsPrefix.getElem h hi, Vector.getElem_toList]

theorem Starts.take_eq {buf : CArray α n} {l : List α} (h : Starts buf l) :
    buf.toList.take l.length = l := (List.prefix_iff_eq_take.mp h).symm

/-- Storing the next cell extends what the array starts with. -/
theorem Starts.set {buf : CArray α n} {l : List α} (h : Starts buf l) (hl : l.length < n) (x : α) :
    Starts (buf.set l.length x hl) (l ++ [x]) := by
  obtain ⟨r, hr⟩ := h
  have hlen : l.length + r.length = n := by
    have := congrArg List.length hr
    simpa using this
  cases r with
  | nil => simp at hlen; omega
  | cons y r =>
    refine ⟨r, ?_⟩
    rw [Vector.toList_set, ← hr]
    simp

/-! ## Copying -/

/-- `memcpy(dst, src, src.length)`. -/
def memcpy (dst : CArray α n) (src : List α) (h : src.length ≤ n) : CArray α n :=
  ⟨(src ++ dst.toList.drop src.length).toArray, by simp; omega⟩

theorem toList_memcpy (dst : CArray α n) (src : List α) (h : src.length ≤ n) :
    (memcpy dst src h).toList = src ++ dst.toList.drop src.length := rfl

theorem starts_memcpy (dst : CArray α n) (src : List α) (h : src.length ≤ n) :
    Starts (memcpy dst src h) src := List.prefix_append _ _

theorem getElem_memcpy_lt (dst : CArray α n) (src : List α) (h : src.length ≤ n) {i : Nat}
    (hi : i < src.length) {hn : i < n} : (memcpy dst src h)[i] = src[i] :=
  (starts_memcpy dst src h).getElem hi

theorem getElem_memcpy_ge (dst : CArray α n) (src : List α) (h : src.length ≤ n) {i : Nat}
    (hi : src.length ≤ i) (hn : i < n) : (memcpy dst src h)[i] = dst[i] := by
  rw [← Vector.getElem_toList (by simpa using hn), ← Vector.getElem_toList (by simpa using hn)]
  simp only [toList_memcpy, List.getElem_append_right hi, List.getElem_drop]
  congr 1
  omega

/-! ## Reading a range -/

/-- The cells `buf[i..i+k)`. -/
def slice (buf : CArray α n) (i k : Nat) : List α := (buf.toList.drop i).take k

theorem length_slice (buf : CArray α n) (i k : Nat) (h : i + k ≤ n) :
    (slice buf i k).length = k := by
  simp [slice]; omega

/-- A range that lies in what the array starts with is a range of that list. -/
theorem Starts.slice_eq {buf : CArray α n} {l : List α} (h : Starts buf l) {i k : Nat}
    (hk : i + k ≤ l.length) : slice buf i k = (l.drop i).take k := by
  obtain ⟨r, hr⟩ := h
  rw [slice, ← hr, List.drop_append_of_le_length (by omega),
    List.take_append_of_le_length (by simp; omega)]

/-- The same range where it may run past the array: behind it lies the memory `beyond`. -/
def read (buf : CArray UInt8 n) (beyond : Nat → UInt8) (i k : Nat) : List UInt8 :=
  (List.range k).map fun j => if h : i + j < n then buf[i + j] else beyond (i + j)

@[simp] theorem length_read (buf : CArray UInt8 n) (beyond : Nat → UInt8) (i k : Nat) :
    (read buf beyond i k).length = k := by simp [read]

/-- Inside the array `beyond` is not looked at. -/
theorem read_eq_slice (buf : CArray UInt8 n) (beyond : Nat → UInt8) {i k : Nat} (h : i + k ≤ n) :
    read buf beyond i k = slice buf i k := by
  refine List.ext_getElem (by rw [length_read, length_slice buf i k h]) fun j hj _ => ?_
  rw [length_read] at hj
  have hn : i + j < n := by omega
  simp [read, slice, hn]

/-! ## Constant indices -/

/-- `buf[i]`. Behind the array it is 0, so `i` has to be a constant less than `n`, or bounds are to
be shown apart. -/
def byte (buf : CArray UInt8 n) (i : Nat) : UInt8 := buf.toList.getD i 0

theorem byte_eq_getElem (buf : CArray UInt8 n) {i : Nat} (hi : i < n) : buf.byte i = buf[i] := by
  simp [byte, List.getD_eq_getElem?_getD, hi]

theorem Starts.byte_eq {buf : CArray UInt8 n} {l : List UInt8} (h : Starts buf l) {i : Nat}
    (hi : i < l.length) : buf.byte i = l.getD i 0 := by
  have hn := h.length_le
  rw [byte_eq_getElem buf (by omega), h.getElem hi, List.getD_eq_getElem?_getD,
    List.getElem?_eq_getElem hi, Option.getD_some]

/-- A range, cell by cell. -/
theorem slice_eq_map_byte (buf : CArray UInt8 n) {i k : Nat} (h : i + k ≤ n) :
    slice buf i k = (List.range k).map fun j => buf.byte (i + j) := by
  refine List.ext_getElem (by simp [length_slice buf i k h]) fun j hj _ => ?_
  rw [length_slice buf i k h] at hj
  have hn : i + j < n := by omega
  simp [slice, byte_eq_getElem buf hn]

/-- The array, cell by cell. -/
theorem toList_eq_map_byte (buf : CArray UInt8 n) :
    buf.toList = (List.range n).map fun i => buf.byte i := by
  refine List.ext_getElem (by simp) fun i hi _ => ?_
  have hn : i < n := by simpa using hi
  simp [byte_eq_getElem buf hn]

end CArray

/-! ## Arrays filled from the front -/

/-- An array of `cap` cells filled through `a[idx++] = x`: the values stored so far, in order.
`idx` is their number. -/
structure Fill (α : Type) where
  cap : Nat
  stored : List α
  deriving DecidableEq, Repr

/-- Every store through `a[idx++]` was to a cell of the array. -/
def Fill.InBounds {α : Type} (a : Fill α) : Prop := a.stored.length ≤ a.cap

instance {α : Type} (a : Fill α) : Decidable a.InBounds :=
  inferInstanceAs (Decidable (a.stored.length ≤ a.cap))
