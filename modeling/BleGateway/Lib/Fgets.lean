/-!
# Reading by lines

`fgets` on a stream: a call stores up to a given number of items and none behind a newline.

* `piece`: what a call stores.
* `piece_line`, `piece_long`, `piece_last`: of a line that fits, of one that does not, and of the
  end of the stream.
* `pieces`: what calls of one size store, up to the end. `pieces_lines`: of lines that fit, the
  lines.
-/

namespace Fgets

variable {α : Type} [DecidableEq α] (nl : α)

/-- What a call stores that has room for `n` items. -/
def piece : Nat → List α → List α
  | 0, _ => []
  | _, [] => []
  | n + 1, x :: xs => if x = nl then [x] else x :: piece n xs

variable {nl}

theorem piece_ne_nil {n : Nat} (hn : 0 < n) {s : List α} (hs : s ≠ []) : piece nl n s ≠ [] := by
  obtain ⟨n, rfl⟩ := Nat.exists_eq_succ_of_ne_zero (Nat.ne_of_gt hn)
  obtain ⟨x, xs, rfl⟩ := List.exists_cons_of_ne_nil hs
  rw [piece]
  split
  · exact List.cons_ne_nil _ _
  · exact List.cons_ne_nil _ _

/-- A line that fits, with its newline. -/
theorem piece_line {n : Nat} {l : List α} (hl : nl ∉ l) (hn : l.length < n) (rest : List α) :
    piece nl n (l ++ nl :: rest) = l ++ [nl] := by
  induction l generalizing n with
  | nil =>
    obtain ⟨n, rfl⟩ := Nat.exists_eq_succ_of_ne_zero (Nat.ne_of_gt hn)
    exact if_pos rfl
  | cons x l ih =>
    obtain ⟨hx, hl⟩ := not_or.mp fun h => hl (List.mem_cons.mpr h)
    obtain ⟨n, rfl⟩ := Nat.exists_eq_succ_of_ne_zero (Nat.ne_of_gt (Nat.zero_lt_of_lt hn))
    have hrest := ih hl (Nat.lt_of_succ_lt_succ hn)
    rw [List.cons_append, piece, if_neg (Ne.symm hx), hrest]
    rfl

/-- As much as there is room for, if no newline is there. -/
theorem piece_long {n : Nat} {l : List α} (hl : nl ∉ l) (hn : n ≤ l.length) (rest : List α) :
    piece nl n (l ++ rest) = l.take n := by
  induction n generalizing l with
  | zero => rfl
  | succ n ih =>
    obtain ⟨x, l, rfl⟩ := List.exists_cons_of_length_pos (Nat.zero_lt_of_lt hn)
    obtain ⟨hx, hl⟩ := not_or.mp fun h => hl (List.mem_cons.mpr h)
    have hrest := ih hl (Nat.le_of_succ_le_succ hn)
    rw [List.cons_append, piece, if_neg (Ne.symm hx), hrest]
    rfl

/-- All of the end of the stream. -/
theorem piece_last {n : Nat} {l : List α} (hl : nl ∉ l) (hn : l.length ≤ n) : piece nl n l = l := by
  induction l generalizing n with
  | nil => cases n <;> rfl
  | cons x l ih =>
    obtain ⟨hx, hl⟩ := not_or.mp fun h => hl (List.mem_cons.mpr h)
    obtain ⟨n, rfl⟩ := Nat.exists_eq_succ_of_ne_zero (Nat.ne_of_gt (Nat.zero_lt_of_lt hn))
    rw [piece, if_neg (Ne.symm hx), ih hl (Nat.le_of_succ_le_succ hn)]

variable (nl)

/-- What the calls with room for `n + 1` items store, up to the end of the stream. -/
def pieces (n : Nat) (s : List α) : List (List α) :=
  if h : s = [] then []
  else
    have : 0 < (piece nl (n + 1) s).length :=
      List.length_pos_iff.mpr (piece_ne_nil (Nat.succ_pos n) h)
    have : 0 < s.length := List.length_pos_iff.mpr h
    piece nl (n + 1) s :: pieces n (s.drop (piece nl (n + 1) s).length)
termination_by s.length
decreasing_by
  rw [List.length_drop]
  omega

variable {nl}

theorem pieces_nil (n : Nat) : pieces nl n [] = [] := by
  rw [pieces, dif_pos rfl]

theorem pieces_of_ne_nil (n : Nat) {s : List α} (hs : s ≠ []) :
    pieces nl n s = piece nl (n + 1) s :: pieces nl n (s.drop (piece nl (n + 1) s).length) := by
  rw [pieces, dif_neg hs]

/-- Lines that fit are read one by one. -/
theorem pieces_lines {n : Nat} {ls : List (List α)} (h : ∀ l ∈ ls, nl ∉ l ∧ l.length ≤ n) :
    pieces nl n (ls.flatMap (· ++ [nl])) = ls.map (· ++ [nl]) := by
  induction ls with
  | nil => exact pieces_nil n
  | cons l ls ih =>
    obtain ⟨⟨hl, hlen⟩, hls⟩ := List.forall_mem_cons.mp h
    have hpiece := piece_line hl (Nat.lt_succ_of_le hlen) (ls.flatMap (· ++ [nl]))
    have hdrop : (l ++ nl :: ls.flatMap (· ++ [nl])).drop (l ++ [nl]).length =
        ls.flatMap (· ++ [nl]) := by
      rw [List.append_cons l nl (ls.flatMap _), List.drop_left]
    rw [List.flatMap_cons, List.append_assoc, List.singleton_append,
      pieces_of_ne_nil n (List.append_ne_nil_of_right_ne_nil l (List.cons_ne_nil nl _)), hpiece,
      hdrop, ih hls, List.map_cons]

end Fgets
