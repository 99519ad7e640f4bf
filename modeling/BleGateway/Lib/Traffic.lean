import Mathlib.Logic.Function.Basic

/-!
# Queues between threads

First-in first-out queues of records `α`, one under each key. For statements about what went through
them, `sent` and `rcvd` list what the senders passed and what the receivers got (`β`, which need not
be the records themselves).

* `put`, `take`: a record is appended, and the head of a queue is removed.
* `Lossless view`: what was sent is what was received and then, through `view`, what is still
  queued. `put` and `take` keep it as long as the sender and the receiver see the record's `view`.
* `put_comm`, `put_take_comm`, `take_comm`: accesses to different ends, or to different queues, can
  be exchanged.
* `comap f`: the queues under other names, with `f` from a name to its key. Accesses by key are
  accesses by name (`comap_put`, `comap_take`) if no key has two names.
-/

/-- Queues under keys `κ`, with their history. -/
structure Traffic (κ α β : Type) where
  queue : κ → List α
  sent : κ → List β
  rcvd : κ → List β

namespace Traffic

variable {κ α β : Type}

/-- No message yet. -/
def empty : Traffic κ α β := ⟨fun _ => [], fun _ => [], fun _ => []⟩

/-- Whatever was sent was received or is still queued, in order. -/
def Lossless (view : α → β) (t : Traffic κ α β) : Prop :=
  ∀ k, t.sent k = t.rcvd k ++ (t.queue k).map view

variable {view : α → β} {t : Traffic κ α β}

theorem lossless_empty : Lossless view (empty : Traffic κ α β) := fun _ => rfl

/-- What was received is a prefix of what was sent. -/
theorem Lossless.rcvd_prefix (h : Lossless view t) (k : κ) : t.rcvd k <+: t.sent k :=
  ⟨_, (h k).symm⟩

variable [DecidableEq κ]

/-- The sender of `b` puts the record `m` into the queue `k`. -/
def put (t : Traffic κ α β) (k : κ) (m : α) (b : β) : Traffic κ α β where
  queue := Function.update t.queue k (t.queue k ++ [m])
  sent := Function.update t.sent k (t.sent k ++ [b])
  rcvd := t.rcvd

/-- The head of the queue `k` is received as `b`. -/
def take (t : Traffic κ α β) (k : κ) (b : β) : Traffic κ α β where
  queue := Function.update t.queue k (t.queue k).tail
  sent := t.sent
  rcvd := Function.update t.rcvd k (t.rcvd k ++ [b])

@[simp] theorem put_queue_self (t : Traffic κ α β) (k : κ) (m : α) (b : β) :
    (t.put k m b).queue k = t.queue k ++ [m] := Function.update_self ..

@[simp] theorem take_queue_self (t : Traffic κ α β) (k : κ) (b : β) :
    (t.take k b).queue k = (t.queue k).tail := Function.update_self ..

theorem put_queue_ne (t : Traffic κ α β) {k j : κ} (h : j ≠ k) (m : α) (b : β) :
    (t.put k m b).queue j = t.queue j := Function.update_of_ne h ..

theorem take_queue_ne (t : Traffic κ α β) {k j : κ} (h : j ≠ k) (b : β) :
    (t.take k b).queue j = t.queue j := Function.update_of_ne h ..

/-! ## The order of accesses -/

theorem put_comm (t : Traffic κ α β) {k j : κ} (h : k ≠ j) (m m' : α) (b b' : β) :
    (t.put k m b).put j m' b' = (t.put j m' b').put k m b := by
  simp only [put, Function.update_of_ne h, Function.update_of_ne h.symm, Function.update_comm h]

theorem take_comm (t : Traffic κ α β) {k j : κ} (h : k ≠ j) (b b' : β) :
    (t.take k b).take j b' = (t.take j b').take k b := by
  simp only [take, Function.update_of_ne h, Function.update_of_ne h.symm, Function.update_comm h]

/-- A record is put into a queue behind the one that is received from it. -/
theorem put_take_comm {t : Traffic κ α β} {j : κ} (h : t.queue j ≠ []) (k : κ) (m : α)
    (b b' : β) : (t.put k m b).take j b' = (t.take j b').put k m b := by
  have hq : Function.update (Function.update t.queue k (t.queue k ++ [m])) j
      ((t.put k m b).queue j).tail =
      Function.update (Function.update t.queue j (t.queue j).tail) k
        ((t.take j b').queue k ++ [m]) := by
    by_cases hkj : k = j
    · subst hkj
      rw [put_queue_self, take_queue_self, Function.update_idem, Function.update_idem,
        List.tail_append_of_ne_nil h]
    · rw [put_queue_ne t (Ne.symm hkj), take_queue_ne t hkj, Function.update_comm hkj]
  exact congrArg (fun q => (⟨q, _, _⟩ : Traffic κ α β)) hq

/-! ## Other names -/

section
variable {ν : Type} {f : ν → Option κ}

/-- The queues under the names `ν`. A name without a key names an empty queue. -/
def comap (f : ν → Option κ) (t : Traffic κ α β) : Traffic ν α β where
  queue n := (f n).elim [] t.queue
  sent n := (f n).elim [] t.sent
  rcvd n := (f n).elim [] t.rcvd

variable [DecidableEq ν] {n : ν} {k : κ}

theorem elim_update {γ : Type} (hf : f n = some k) (hinj : ∀ n', f n' = some k → n' = n)
    (q : κ → List γ) (l : List γ) :
    (fun n' => (f n').elim [] (Function.update q k l)) =
      Function.update (fun n' => (f n').elim [] q) n l := by
  funext n'
  by_cases hn : n' = n
  · subst hn
    rw [hf, Option.elim_some, Function.update_self, Function.update_self]
  · rw [Function.update_of_ne hn]
    cases hf' : f n' with
    | none => rfl
    | some k' =>
      have hk : k' ≠ k := by
        rintro rfl
        exact hn (hinj n' hf')
      rw [Option.elim_some, Option.elim_some, Function.update_of_ne hk]

theorem comap_put (t : Traffic κ α β) (hf : f n = some k) (hinj : ∀ n', f n' = some k → n' = n)
    (m : α) (b : β) : (t.put k m b).comap f = (t.comap f).put n m b := by
  have hq : (t.comap f).queue n = t.queue k := by simp only [comap, hf, Option.elim_some]
  have hs : (t.comap f).sent n = t.sent k := by simp only [comap, hf, Option.elim_some]
  unfold put
  rw [hq, hs]
  simp only [comap, elim_update hf hinj]

theorem comap_take (t : Traffic κ α β) (hf : f n = some k) (hinj : ∀ n', f n' = some k → n' = n)
    (b : β) : (t.take k b).comap f = (t.comap f).take n b := by
  have hq : (t.comap f).queue n = t.queue k := by simp only [comap, hf, Option.elim_some]
  have hr : (t.comap f).rcvd n = t.rcvd k := by simp only [comap, hf, Option.elim_some]
  unfold take
  rw [hq, hr]
  simp only [comap, elim_update hf hinj]

end

/-! ## Nothing is lost or altered -/

theorem Lossless.put (h : Lossless view t) {k : κ} {m : α} {b : β} (hb : b = view m) :
    Lossless view (t.put k m b) := by
  intro j
  by_cases hj : j = k
  · subst hj
    simp [Traffic.put, h j, hb]
  · simp [Traffic.put, hj, h j]

theorem Lossless.take (h : Lossless view t) {k : κ} {m : α} {ms : List α} {b : β}
    (hq : t.queue k = m :: ms) (hb : b = view m) : Lossless view (t.take k b) := by
  intro j
  by_cases hj : j = k
  · subst hj
    simp [Traffic.take, h j, hq, hb]
  · simp [Traffic.take, hj, h j]

end Traffic
