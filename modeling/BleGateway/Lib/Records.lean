/-!
# Streams of records

A format says how the next record is taken from the front of a stream (`next`); `parse` takes
records until nothing is left, and fails where `next` does. A writer emits, call by call, pieces of
a stream.

* `Emits`: a piece is read as a list of records, whatever follows it.
* `parse_flatMap`: then the pieces of a run of calls are read as the records of the calls, in order.
-/

/-- A format of records `α` in streams over `β`. A record takes part of the stream. -/
structure Format (β α : Type) where
  next : List β → Option (α × List β)
  shorter : ∀ {bs : List β} {a : α} {rest : List β}, next bs = some (a, rest) →
    rest.length < bs.length

namespace Format

variable {β α γ : Type} (F : Format β α)

/-- All records of a stream, or nothing if it is not one of records. -/
def parse (bs : List β) : Option (List α) :=
  if bs = [] then some []
  else
    match h : F.next bs with
    | none => none
    | some (a, rest) =>
      have := F.shorter h
      (parse rest).map (a :: ·)
termination_by bs.length

/-- The piece `e` is read as the records `as`, whatever follows it. -/
def Emits (e : List β) (as : List α) : Prop :=
  ∀ rest, F.parse (e ++ rest) = (F.parse rest).map (as ++ ·)

variable {F}

@[simp] theorem parse_nil : F.parse [] = some [] := by rw [parse, if_pos rfl]

theorem parse_of_next {bs rest : List β} {a : α} (h : F.next bs = some (a, rest)) :
    F.parse bs = (F.parse rest).map (a :: ·) := by
  have hne : bs ≠ [] := by
    rintro rfl
    exact absurd (F.shorter h) (Nat.not_lt_zero _)
  rw [parse, if_neg hne]
  split
  · next h' =>
    rw [h] at h'
    cases h'
  · next h' =>
    rw [h] at h'
    cases h'
    rfl

/-- Where no record can be taken, the stream is not one of records. -/
theorem parse_of_next_none {bs : List β} (hne : bs ≠ []) (h : F.next bs = none) :
    F.parse bs = none := by
  rw [parse, if_neg hne]
  split
  · rfl
  · next h' =>
    rw [h] at h'
    cases h'

theorem emits_nil : F.Emits [] [] := fun rest => by simp

/-- A piece that is one record. -/
theorem emits_singleton {e : List β} {a : α} (h : ∀ rest, F.next (e ++ rest) = some (a, rest)) :
    F.Emits e [a] := fun rest => parse_of_next (h rest)

theorem Emits.append {e e' : List β} {as as' : List α} (h : F.Emits e as) (h' : F.Emits e' as') :
    F.Emits (e ++ e') (as ++ as') := by
  intro rest
  rw [List.append_assoc, h, h', Option.map_map]
  simp only [Function.comp_def, List.append_assoc]

theorem Emits.parse {e : List β} {as : List α} (h : F.Emits e as) : F.parse e = some as := by
  have := h []
  simpa using this

/-- A run of calls is read as the records of the calls. -/
theorem emits_flatMap {write : γ → List β} {records : γ → List α} {calls : List γ}
    (h : ∀ c ∈ calls, F.Emits (write c) (records c)) :
    F.Emits (calls.flatMap write) (calls.flatMap records) := by
  induction calls with
  | nil => exact emits_nil
  | cons c calls ih =>
    rw [List.flatMap_cons, List.flatMap_cons]
    exact (h c List.mem_cons_self).append (ih fun c' hc => h c' (List.mem_cons_of_mem _ hc))

theorem parse_flatMap {write : γ → List β} {records : γ → List α} {calls : List γ}
    (h : ∀ c ∈ calls, F.Emits (write c) (records c)) :
    F.parse (calls.flatMap write) = some (calls.flatMap records) := (emits_flatMap h).parse

end Format
