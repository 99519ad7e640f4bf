import BleGateway.Lib.CArray
import BleGateway.Lib.Fgets

/-!
# Lines from standard input (`mosquitto_client/pub_client.c`, lines 389–411)

With `-l` the publisher sends a message for each line of its standard input. A line is read in
pieces; behind a piece without a newline the buffer grows by 1024 bytes and the next piece is stored
1023 bytes further on, whatever the length of the first piece was.

* `readLine`: the loop around `fgets` for one line, on the cells of the buffer.
* `readLine_line`: what it publishes for a line (`kept`), and how large the buffer is then
  (`grown`).
* `readLine_tail`: a last line without a newline is not published.
* `keptAll_eq_self_iff`: exactly when all lines are published as they are. A line that does not fit
  the buffer may be the first such line only.
-/

namespace Ble.Mosquitto

/-- The newline. -/
def newline : UInt8 := 10

/-- Bytes stored from a position on. -/
def store (cells : List UInt8) (pos : Nat) (data : List UInt8) : List UInt8 :=
  cells.take pos ++ (data ++ cells.drop (pos + data.length))

/-- The string in the buffer. -/
def text (cells : List UInt8) : List UInt8 := cells.takeWhile (· ≠ 0)

/-- What a turn of the main loop leads to: what is published, the buffer, and the rest of the
input. -/
structure LineRead where
  payload : Option (List UInt8)
  buf : List UInt8
  stdin : List UInt8
  deriving DecidableEq, Repr

/-- `while(fgets(&buf[pos], room + 2, stdin))`: `none` if an access leaves the buffer. `fresh` is
what the memory holds that `realloc` adds. -/
def readLine (fresh : Nat → CArray UInt8 1024) (buf : List UInt8) (pos room : Nat)
    (stdin : List UInt8) : Option LineRead :=
  if h : stdin = [] then some ⟨none, buf, []⟩
  else
    have : 0 < (Fgets.piece newline (room + 1) stdin).length :=
      List.length_pos_iff.mpr (Fgets.piece_ne_nil (Nat.succ_pos room) h)
    have : 0 < stdin.length := List.length_pos_iff.mpr h
    let piece := Fgets.piece newline (room + 1) stdin
    let rest := stdin.drop (Fgets.piece newline (room + 1) stdin).length
    if pos + piece.length < buf.length then
      let buf := store buf pos (piece ++ [0])
      let len := (text buf).length
      if len = 0 then none
      else if buf.getD (len - 1) 0 = newline then
        some ⟨some (buf.take (len - 1)), buf.set (len - 1) 0, rest⟩
      else readLine fresh (buf ++ (fresh buf.length).toList) (pos + 1023) 1022 rest
    else none
termination_by stdin.length
decreasing_by
  rw [List.length_drop]
  omega

/-! ## One piece -/

section

variable (fresh : Nat → CArray UInt8 1024) {buf : List UInt8} {pos room : Nat}

theorem length_store {data : List UInt8} (h : pos + data.length ≤ buf.length) :
    (store buf pos data).length = buf.length := by
  simp only [store, List.length_append, List.length_take, List.length_drop]
  omega

theorem store_eq {d data : List UInt8} (htake : buf.take pos = d) :
    store buf pos data = d ++ (data ++ buf.drop (pos + data.length)) := by
  rw [store, htake]

/-- The cells behind a store: what was in front, the piece, a zero. -/
theorem exists_store {d : List UInt8} (htake : buf.take pos = d) (piece : List UInt8) :
    ∃ junk, store buf pos (piece ++ [0]) = (d ++ piece) ++ 0 :: junk := by
  refine ⟨buf.drop (pos + (piece ++ [0]).length), ?_⟩
  rw [store_eq htake]
  simp only [List.append_assoc, List.singleton_append]

theorem text_append {d junk : List UInt8} (hd : 0 ∉ d) : text (d ++ 0 :: junk) = d := by
  have hall : ∀ x ∈ d, decide (x ≠ 0) = true := by
    intro x hx
    refine decide_eq_true ?_
    rintro rfl
    exact hd hx
  rw [text, List.takeWhile_append_of_pos hall]
  simp

/-- One turn of the loop. -/
theorem readLine_step {stdin d piece : List UInt8} (htake : buf.take pos = d)
    (h0 : 0 ∉ d ++ piece) (hne : piece ≠ [])
    (hpiece : Fgets.piece newline (room + 1) stdin = piece)
    (hfit : pos + piece.length < buf.length) :
    readLine fresh buf pos room stdin =
      if (d ++ piece).getLast? = some newline then
        some ⟨some (d ++ piece).dropLast,
          (store buf pos (piece ++ [0])).set ((d ++ piece).length - 1) 0, stdin.drop piece.length⟩
      else readLine fresh (store buf pos (piece ++ [0]) ++ (fresh buf.length).toList)
        (pos + 1023) 1022 (stdin.drop piece.length) := by
  have hstdin : stdin ≠ [] := by
    rintro rfl
    exact hne hpiece.symm
  have hpos : 0 < (d ++ piece).length :=
    List.length_pos_iff.mpr (List.append_ne_nil_of_right_ne_nil d hne)
  have hlen : (store buf pos (piece ++ [0])).length = buf.length := by
    refine length_store ?_
    rw [List.length_append]
    exact hfit
  obtain ⟨junk, hstore⟩ := exists_store htake piece
  have htext : text (store buf pos (piece ++ [0])) = d ++ piece := by
    rw [hstore]
    exact text_append h0
  have hlast : (store buf pos (piece ++ [0])).getD ((d ++ piece).length - 1) 0 =
      ((d ++ piece).getLast?).getD 0 := by
    rw [hstore, List.getD_eq_getElem?_getD, List.getElem?_append_left (by omega),
      List.getLast?_eq_getElem?]
  have hfront : (store buf pos (piece ++ [0])).take ((d ++ piece).length - 1) =
      (d ++ piece).dropLast := by
    rw [hstore, List.take_append_of_le_length (by omega), List.dropLast_eq_take]
  rw [readLine, dif_neg hstdin]
  simp only [hpiece, hfit, if_true, htext, Nat.ne_of_gt hpos, if_false, hlast, hfront, hlen]
  cases hget : (d ++ piece).getLast? with
  | none => exact absurd (List.getLast?_eq_none_iff.mp hget) (List.ne_nil_of_length_pos hpos)
  | some x => simp only [Option.getD_some, Option.some_inj]

/-- The newline is there: the line is published. -/
theorem readLine_done {d l : List UInt8} (htake : buf.take pos = d) (hd : 0 ∉ d) (hl : 0 ∉ l)
    (hnl : newline ∉ l) (hroom : l.length < room + 1) (hfit : pos + l.length + 1 < buf.length)
    (rest : List UInt8) :
    ∃ buf', readLine fresh buf pos room (l ++ newline :: rest) = some ⟨some (d ++ l), buf', rest⟩ ∧
      buf'.length = buf.length := by
  have h0 : 0 ∉ d ++ (l ++ [newline]) := by
    simp [hd, hl, newline]
  have hlen : (l ++ [newline]).length = l.length + 1 := List.length_append
  have hstep := readLine_step fresh htake h0 (List.append_ne_nil_of_right_ne_nil l
    (List.cons_ne_nil _ _)) (Fgets.piece_line hnl hroom rest) (by rw [hlen]; exact hfit)
  have hlast : (d ++ (l ++ [newline])).getLast? = some newline := by
    rw [← List.append_assoc, List.getLast?_concat]
  have hdrop : (l ++ newline :: rest).drop (l ++ [newline]).length = rest := by
    rw [hlen]
    simp
  refine ⟨(store buf pos (l ++ [newline] ++ [0])).set ((d ++ (l ++ [newline])).length - 1) 0,
    hstep.trans ((if_pos hlast).trans ?_), ?_⟩
  · rw [hdrop, ← List.append_assoc, List.dropLast_concat]
  · rw [List.length_set, length_store]
    rw [List.length_append, hlen]
    exact hfit

/-- It is not: the buffer grows, and the next piece is stored 1023 bytes further on. -/
theorem readLine_more {stdin d piece : List UInt8} (htake : buf.take pos = d) (h0 : 0 ∉ d ++ piece)
    (hne : piece ≠ []) (hnl : newline ∉ piece)
    (hpiece : Fgets.piece newline (room + 1) stdin = piece)
    (hfit : pos + piece.length < buf.length) :
    ∃ buf', readLine fresh buf pos room stdin =
        readLine fresh buf' (pos + 1023) 1022 (stdin.drop piece.length) ∧
      buf'.length = buf.length + 1024 ∧ ∀ k ≤ (d ++ piece).length,
        buf'.take k = (d ++ piece).take k := by
  have hlast : (d ++ piece).getLast? ≠ some newline := by
    intro h
    rw [List.getLast?_append, List.getLast?_eq_some_getLast hne, Option.some_or] at h
    exact hnl (Option.some.inj h ▸ List.getLast_mem hne)
  obtain ⟨junk, hstore⟩ := exists_store htake piece
  refine ⟨_, (readLine_step fresh htake h0 hne hpiece hfit).trans (if_neg hlast), ?_, ?_⟩
  · rw [List.length_append, length_store, Vector.length_toList]
    rw [List.length_append]
    exact hfit
  · intro k hk
    rw [hstore, List.append_assoc, List.take_append_of_le_length hk]

/-! ## A whole line -/

theorem drop_piece {l : List UInt8} {n : Nat} (h : n ≤ l.length) (rest : List UInt8) :
    (l ++ rest).drop (l.take n).length = l.drop n ++ rest := by
  rw [List.length_take_of_le h, List.drop_append_of_le_length h]

theorem notMem_take {x : UInt8} {l : List UInt8} (h : x ∉ l) (n : Nat) : x ∉ l.take n :=
  fun hx => h (List.mem_of_mem_take hx)

theorem notMem_drop {x : UInt8} {l : List UInt8} (h : x ∉ l) (n : Nat) : x ∉ l.drop n :=
  fun hx => h (List.mem_of_mem_drop hx)

theorem notMem_append {x : UInt8} {l r : List UInt8} (hl : x ∉ l) (hr : x ∉ r) : x ∉ l ++ r :=
  fun h => (List.mem_append.mp h).elim hl hr

/-- From the second piece on nothing is lost: the pieces lie one behind the other. -/
theorem readLine_rest {d l : List UInt8} (htake : buf.take pos = d) (hpos : d.length = pos)
    (hbuf : pos + 1024 ≤ buf.length) (hd : 0 ∉ d) (hl : 0 ∉ l) (hnl : newline ∉ l)
    (rest : List UInt8) :
    ∃ buf', readLine fresh buf pos 1022 (l ++ newline :: rest) = some ⟨some (d ++ l), buf', rest⟩ ∧
      buf'.length = buf.length + 1024 * (l.length / 1023) := by
  induction hn : l.length using Nat.strongRecOn generalizing l d buf pos with
  | _ n ih =>
    by_cases hshort : l.length < 1023
    · obtain ⟨buf', hread, hlen⟩ := readLine_done fresh htake hd hl hnl hshort
        (by omega) rest
      refine ⟨buf', hread, ?_⟩
      rw [hlen, ← hn, Nat.div_eq_of_lt hshort]
      rfl
    · have hlong : 1023 ≤ l.length := Nat.not_lt.mp hshort
      have htakelen : (l.take 1023).length = 1023 := List.length_take_of_le hlong
      have hne : l.take 1023 ≠ [] := List.ne_nil_of_length_pos (by omega)
      obtain ⟨buf', hread, hlen, hcells⟩ := readLine_more fresh htake
        (notMem_append hd (notMem_take hl 1023)) hne (notMem_take hnl 1023)
        (Fgets.piece_long hnl hlong (newline :: rest)) (by omega)
      have hd' : (d ++ l.take 1023).length = pos + 1023 := by
        rw [List.length_append, hpos, htakelen]
      have hfull : buf'.take (pos + 1023) = d ++ l.take 1023 := by
        rw [hcells _ (Nat.le_of_eq hd'.symm), ← hd', List.take_length]
      have hdroplen : (l.drop 1023).length = l.length - 1023 := List.length_drop
      obtain ⟨buf'', hread', hlen'⟩ := ih (l.drop 1023).length (by omega) hfull hd' (by omega)
        (notMem_append hd (notMem_take hl 1023)) (notMem_drop hl 1023) (notMem_drop hnl 1023) rfl
      refine ⟨buf'', ?_, ?_⟩
      · rw [hread, drop_piece hlong, hread', List.append_assoc, List.take_append_drop]
      · rw [hlen', hlen]
        omega

/-- What is published for a line without its newline, from a buffer of `size` bytes. -/
def kept (size : Nat) (l : List UInt8) : List UInt8 :=
  if l.length + 2 ≤ size then l else l.take 1023 ++ l.drop (size - 1)

/-- The size of the buffer behind a line. -/
def grown (size : Nat) (l : List UInt8) : Nat :=
  if l.length + 2 ≤ size then size else size + 1024 * ((l.length - (size - 1)) / 1023 + 1)

/-- A line is read to its end, and what is published for it depends on its length and on the size
of the buffer only. -/
theorem readLine_line {l : List UInt8} (hbuf : 1024 ≤ buf.length) (hl : 0 ∉ l) (hnl : newline ∉ l)
    (rest : List UInt8) :
    ∃ buf', readLine fresh buf 0 (buf.length - 2) (l ++ newline :: rest) =
        some ⟨some (kept buf.length l), buf', rest⟩ ∧ buf'.length = grown buf.length l := by
  have hroom : buf.length - 2 + 1 = buf.length - 1 := by omega
  unfold kept grown
  by_cases hshort : l.length + 2 ≤ buf.length
  · rw [if_pos hshort, if_pos hshort]
    exact readLine_done fresh List.take_zero List.not_mem_nil hl hnl (by omega) (by omega) rest
  · have hlong : buf.length - 1 ≤ l.length := by omega
    have htakelen : (l.take (buf.length - 1)).length = buf.length - 1 :=
      List.length_take_of_le hlong
    have hne : l.take (buf.length - 1) ≠ [] := List.ne_nil_of_length_pos (by omega)
    have hpiece : Fgets.piece newline (buf.length - 2 + 1) (l ++ newline :: rest) =
        l.take (buf.length - 1) := by
      rw [hroom]
      exact Fgets.piece_long hnl hlong _
    have hnone : buf.take 0 = [] := List.take_zero
    obtain ⟨buf', hread, hlen, hcells⟩ := readLine_more fresh hnone
      (notMem_append List.not_mem_nil (notMem_take hl _)) hne (notMem_take hnl _) hpiece (by omega)
    have hfront : buf'.take (0 + 1023) = l.take 1023 := by
      rw [hcells _ (by simp only [List.nil_append]; omega), List.nil_append, List.take_take,
        Nat.min_eq_left (by omega)]
    have hfrontlen : (l.take 1023).length = 0 + 1023 := by
      rw [List.length_take_of_le (by omega)]
    have hdroplen : (l.drop (buf.length - 1)).length = l.length - (buf.length - 1) :=
      List.length_drop
    obtain ⟨buf'', hread', hlen'⟩ := readLine_rest fresh hfront hfrontlen (by omega)
      (notMem_take hl 1023) (notMem_drop hl (buf.length - 1))
      (notMem_drop hnl (buf.length - 1)) rest
    refine ⟨buf'', ?_, ?_⟩
    · rw [hread, drop_piece hlong, hread', if_neg hshort]
    · rw [hlen', hlen, hdroplen, if_neg hshort]
      omega

theorem readLine_nil (pos room : Nat) : readLine fresh buf pos room [] = some ⟨none, buf, []⟩ := by
  rw [readLine, dif_pos rfl]

/-- What stands behind the last newline is read and not published. -/
theorem readLine_tail {d t : List UInt8} (htake : buf.take pos = d) (hpos : d.length = pos)
    (hbuf : pos + room + 2 ≤ buf.length) (hroom : 1022 ≤ room) (hd : 0 ∉ d) (ht : 0 ∉ t)
    (hnl : newline ∉ t) :
    ∃ buf', readLine fresh buf pos room t = some ⟨none, buf', []⟩ ∧ buf.length ≤ buf'.length := by
  induction hn : t.length using Nat.strongRecOn generalizing t d buf pos room with
  | _ n ih =>
    by_cases hnil : t = []
    · subst hnil
      exact ⟨buf, readLine_nil fresh pos room, Nat.le_refl _⟩
    have htpos := List.length_pos_iff.mpr hnil
    by_cases hshort : t.length ≤ room + 1
    · obtain ⟨buf', hread, hlen, -⟩ := readLine_more fresh htake (notMem_append hd ht) hnil hnl
        (Fgets.piece_last hnl hshort) (by omega)
      rw [List.drop_length, readLine_nil] at hread
      exact ⟨buf', hread, by omega⟩
    · have hlong : room + 1 ≤ t.length := by omega
      have htakelen : (t.take (room + 1)).length = room + 1 := List.length_take_of_le hlong
      have hpiece : Fgets.piece newline (room + 1) t = t.take (room + 1) := by
        have h := Fgets.piece_long hnl hlong []
        rwa [List.append_nil] at h
      obtain ⟨buf', hread, hlen, hcells⟩ := readLine_more fresh htake
        (notMem_append hd (notMem_take ht _)) (List.ne_nil_of_length_pos (by omega))
        (notMem_take hnl _) hpiece (by omega)
      have hfull : (d ++ t.take (room + 1)).length = pos + (room + 1) := by
        rw [List.length_append, hpos, htakelen]
      have hd' : ((d ++ t.take (room + 1)).take (pos + 1023)).length = pos + 1023 :=
        List.length_take_of_le (by omega)
      have hdroplen : (t.drop (room + 1)).length = t.length - (room + 1) := List.length_drop
      obtain ⟨buf'', hread', hlen'⟩ := ih (t.drop (room + 1)).length (by omega)
        (hcells _ (by omega)) hd' (by omega) (Nat.le_refl 1022)
        (notMem_take (notMem_append hd (notMem_take ht _)) _) (notMem_drop ht (room + 1))
        (notMem_drop hnl (room + 1)) rfl
      rw [htakelen] at hread
      exact ⟨buf'', hread.trans hread', by omega⟩

end

/-! ## All lines -/

/-- What is published for lines, from a buffer of `size` bytes. -/
def keptAll (size : Nat) : List (List UInt8) → List (List UInt8)
  | [] => []
  | l :: ls => kept size l :: keptAll (grown size l) ls

theorem length_keptAll (size : Nat) (ls : List (List UInt8)) :
    (keptAll size ls).length = ls.length := by
  induction ls generalizing size with
  | nil => rfl
  | cons l ls ih => rw [keptAll, List.length_cons, List.length_cons, ih]

theorem kept_eq_self_iff {size : Nat} (h : 1024 ≤ size) (l : List UInt8) :
    kept size l = l ↔ l.length + 2 ≤ size ∨ size = 1024 := by
  unfold kept
  split
  · next hshort => exact iff_of_true rfl (.inl hshort)
  · next hlong =>
    constructor
    · intro heq
      have hlen := congrArg List.length heq
      rw [List.length_append, List.length_take, List.length_drop] at hlen
      omega
    · rintro (hshort | rfl)
      · exact absurd hshort hlong
      · exact List.take_append_drop 1023 l

theorem le_grown {size : Nat} (h : 1024 ≤ size) (l : List UInt8) : 1024 ≤ grown size l := by
  unfold grown
  split
  · exact h
  · omega

/-- In a buffer that has grown, lines are kept as long as they fit it. -/
theorem keptAll_of_grown {size : Nat} (h : 1024 < size) (ls : List (List UInt8)) :
    keptAll size ls = ls ↔ ∀ l ∈ ls, l.length + 2 ≤ size := by
  induction ls with
  | nil => exact iff_of_true rfl (List.forall_mem_nil _)
  | cons l ls ih =>
    rw [keptAll, List.cons.injEq, kept_eq_self_iff (Nat.le_of_lt h), List.forall_mem_cons,
      or_iff_left (Nat.ne_of_gt h)]
    refine and_congr_right fun hl => ?_
    rw [grown, if_pos hl, ih]

/-- **Which lines are published as they are.** All of them, exactly if every line behind the first
one that has 1023 bytes or more fits into the buffer as that one left it. -/
theorem keptAll_eq_self_iff (ls : List (List UInt8)) :
    keptAll 1024 ls = ls ↔ ∀ pre long post, ls = pre ++ long :: post →
      (∀ l ∈ pre, l.length < 1023) → 1023 ≤ long.length →
        ∀ l ∈ post, l.length + 2 ≤ 1024 * (long.length / 1023 + 1) := by
  induction ls with
  | nil => exact iff_of_true rfl fun pre long post h => absurd h (by simp)
  | cons l ls ih =>
    rw [keptAll, List.cons.injEq,
      and_iff_right ((kept_eq_self_iff (Nat.le_refl _) l).mpr (.inr rfl))]
    by_cases hshort : l.length < 1023
    · rw [grown, if_pos (by omega), ih]
      constructor
      · intro h pre long post heq hpre hlong
        cases pre with
        | nil =>
          obtain ⟨rfl, -⟩ := List.cons.inj heq
          omega
        | cons x pre =>
          obtain ⟨-, rfl⟩ := List.cons.inj heq
          exact h pre long post rfl (List.forall_mem_cons.mp hpre).2 hlong
      · intro h pre long post heq hpre hlong
        exact h (l :: pre) long post (congrArg (l :: ·) heq)
          (List.forall_mem_cons.mpr ⟨hshort, hpre⟩) hlong
    · have hsize : grown 1024 l = 1024 * (l.length / 1023 + 1) := by
        rw [grown, if_neg (by omega)]
        omega
      rw [hsize, keptAll_of_grown (by omega)]
      constructor
      · intro h pre long post heq hpre hlong
        cases pre with
        | nil =>
          obtain ⟨rfl, rfl⟩ := List.cons.inj heq
          exact h
        | cons x pre =>
          obtain ⟨rfl, -⟩ := List.cons.inj heq
          exact absurd (hpre l List.mem_cons_self) hshort
      · intro h
        exact h [] l ls rfl (List.forall_mem_nil _) (Nat.not_lt.mp hshort)

end Ble.Mosquitto
