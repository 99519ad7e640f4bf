import BleGateway.Lib.Sched
import BleGateway.Lib.Traffic

/-!
# Networks of processes

Deterministic processes that share nothing but first-in first-out queues, under a scheduler. What a
process does next depends on its local state alone (`Next`): it goes on by itself, sends a record,
or waits for one.

* `Sched.Diamond`: steps of different threads can be exchanged. `Diamond.rejoins`: if one schedule
  ends where nobody can move, no schedule overruns, and each can be continued to that same state.
* `Network.Wired`: no queue has two senders or two receivers. `Wired.diamond`: then the steps of a
  network can be exchanged.
* `Sched.run_map`: a program whose steps are those of another one, seen through a function. So what
  holds of a network holds of a program that is one in all but its layout.
-/

/-- The outcome, its state seen through `f`. -/
def Outcome.map {σ ρ : Type} (f : σ → ρ) : Outcome σ → Outcome ρ
  | .blocked => .blocked
  | .overrun => .overrun
  | .next s => .next (f s)

namespace Sched

variable {σ ρ τ : Type}

/-! ## Steps that can be exchanged -/

/-- Two threads that can both move can do so in either order, and a thread cannot keep another one
from an overrun. -/
structure Diamond (S : Sched σ τ) : Prop where
  comm : ∀ {t u : τ} {s s₁ s₂ : σ}, t ≠ u → S.step t s = .next s₁ → S.step u s = .next s₂ →
    ∃ s₃, S.step u s₁ = .next s₃ ∧ S.step t s₂ = .next s₃
  overrun : ∀ {t u : τ} {s s₁ : σ}, t ≠ u → S.step t s = .next s₁ → S.step u s = .overrun →
    S.step u s₁ = .overrun

variable {S : Sched σ τ}

theorem Quiet.run_eq {s : σ} (h : S.Quiet s) (ts : List τ) : S.run s ts = some s := by
  induction ts with
  | nil => rfl
  | cons t ts ih => rw [run_cons, h t]; exact ih

/-- A step that a schedule did not begin with leads nowhere else. -/
theorem Diamond.step_rejoins (h : S.Diamond) {s q : σ} {ts : List τ} (hr : S.run s ts = some q)
    (hq : S.Quiet q) (u : τ) :
    S.step u s = .blocked ∨ ∃ s₁, S.step u s = .next s₁ ∧ S.Reaches s₁ q := by
  induction ts generalizing s with
  | nil =>
    cases hr
    exact .inl (hq u)
  | cons t ts ih =>
    rw [run_cons] at hr
    cases hst : S.step t s with
    | blocked => rw [hst] at hr; exact ih hr
    | overrun => rw [hst] at hr; cases hr
    | next s' =>
      rw [hst] at hr
      by_cases htu : t = u
      · subst htu
        exact .inr ⟨s', hst, ts, hr⟩
      cases hsu : S.step u s with
      | blocked => exact .inl rfl
      | overrun =>
        have ho := h.overrun htu hst hsu
        obtain hb | ⟨s₁, hn, -⟩ := ih hr
        · cases hb.symm.trans ho
        · cases hn.symm.trans ho
      | next s₁ =>
        obtain ⟨s₃, hu, ht⟩ := h.comm htu hst hsu
        refine .inr ⟨s₁, rfl, ?_⟩
        obtain hb | ⟨s₃', hn, hreach⟩ := ih hr
        · cases hb.symm.trans hu
        · cases hn.symm.trans hu
          exact .step ht hreach

/-- If one schedule ends where nobody can move, every other one can be continued to that state. -/
theorem Diamond.rejoins (h : S.Diamond) {s q : σ} {ts : List τ} (hr : S.run s ts = some q)
    (hq : S.Quiet q) (us : List τ) : ∃ s', S.run s us = some s' ∧ S.Reaches s' q := by
  induction us generalizing s ts with
  | nil => exact ⟨s, rfl, ts, hr⟩
  | cons u us ih =>
    rw [run_cons]
    obtain hb | ⟨s₁, hn, ts', hr'⟩ := h.step_rejoins hr hq u
    · rw [hb]
      exact ih hr
    · rw [hn]
      exact ih hr'

/-! ## A program seen through a function -/

/-- If under an invariant `I` the steps of `S` are those of `R` seen through `f`, so are its
runs. -/
theorem run_map {R : Sched ρ τ} {I : σ → Prop} {f : σ → ρ}
    (hf : ∀ t s, I s → R.step t (f s) = (S.step t s).map f)
    (hI : ∀ t s s', I s → S.step t s = .next s' → I s') {s : σ} (hs : I s) (ts : List τ) :
    R.run (f s) ts = (S.run s ts).map f := by
  induction ts generalizing s with
  | nil => rfl
  | cons t ts ih =>
    rw [run_cons, run_cons, hf t s hs]
    cases hst : S.step t s with
    | blocked => exact ih hs
    | overrun => rfl
    | next s' => exact ih (hI t s s' hs hst)

theorem quiet_map_iff {R : Sched ρ τ} {f : σ → ρ} {s : σ}
    (hf : ∀ t, R.step t (f s) = (S.step t s).map f) : R.Quiet (f s) ↔ S.Quiet s := by
  refine forall_congr' fun t => ?_
  rw [hf t]
  cases S.step t s with
  | blocked => exact iff_of_true rfl rfl
  | overrun => exact iff_of_false nofun nofun
  | next s' => exact iff_of_false nofun nofun

end Sched

/-! ## Networks -/

/-- What a process with local states `σ` does next: nothing, an overrun, or a step to a new local
state. In a step it outputs `os`, or sends the record `m` to the queue `k`, or receives the head of
the queue `k`, where `none` is an overrun. -/
inductive Next (κ α β ω σ : Type) where
  | blocked
  | overrun
  | go (os : List ω) (l : σ)
  | send (k : κ) (m : α) (b : β) (l : σ)
  | recv (k : κ) (cont : α → Option (σ × β))

/-- Processes `τ` with local states `σ`. -/
structure Network (τ κ α β ω : Type) (σ : τ → Type) where
  next : ∀ t, σ t → Next κ α β ω (σ t)

namespace Network

variable {τ κ α β ω : Type} {σ : τ → Type}

/-- The local states, the queues, and what each process has output. -/
structure State (τ κ α β ω : Type) (σ : τ → Type) where
  loc : ∀ t, σ t
  queues : Traffic κ α β
  out : τ → List ω

variable [DecidableEq τ]

/-- The process `t` goes on to `l` and outputs `os`, and `f` is done to the queues. -/
def State.advance (s : State τ κ α β ω σ) (t : τ) (l : σ t) (os : List ω)
    (f : Traffic κ α β → Traffic κ α β) : State τ κ α β ω σ where
  loc := Function.update s.loc t l
  queues := f s.queues
  out := Function.update s.out t (s.out t ++ os)

variable [DecidableEq κ] (N : Network τ κ α β ω σ)

/-- A step of the process `t`. -/
def step (t : τ) (s : State τ κ α β ω σ) : Outcome (State τ κ α β ω σ) :=
  match N.next t (s.loc t) with
  | .blocked => .blocked
  | .overrun => .overrun
  | .go os l => .next (s.advance t l os id)
  | .send k m b l => .next (s.advance t l [] fun q => q.put k m b)
  | .recv k cont =>
    match s.queues.queue k with
    | [] => .blocked
    | m :: _ =>
      match cont m with
      | none => .overrun
      | some (l, b) => .next (s.advance t l [] fun q => q.take k b)

/-- The processes under a scheduler. -/
def sched : Sched (State τ κ α β ω σ) τ := ⟨N.step⟩

/-- No queue has two senders or two receivers. -/
structure Wired : Prop where
  sender : ∀ {t u : τ} {k : κ} {m m' : α} {b b' : β} {l l₁ : σ t} {l' l₁' : σ u},
    N.next t l = .send k m b l₁ → N.next u l' = .send k m' b' l₁' → t = u
  receiver : ∀ {t u : τ} {k : κ} {cont : α → Option (σ t × β)} {cont' : α → Option (σ u × β)}
    {l : σ t} {l' : σ u}, N.next t l = .recv k cont → N.next u l' = .recv k cont' → t = u

variable {N}

/-- What a step does that goes through: the new local state, the output, and what is done to the
queues. -/
inductive Does (N : Network τ κ α β ω σ) (t : τ) (s : State τ κ α β ω σ) :
    σ t → List ω → (Traffic κ α β → Traffic κ α β) → Prop where
  | go {os : List ω} {l : σ t} (h : N.next t (s.loc t) = .go os l) : Does N t s l os id
  | send {k : κ} {m : α} {b : β} {l : σ t} (h : N.next t (s.loc t) = .send k m b l) :
      Does N t s l [] fun q => q.put k m b
  | recv {k : κ} {cont : α → Option (σ t × β)} {m : α} {ms : List α} {l : σ t} {b : β}
      (h : N.next t (s.loc t) = .recv k cont) (hq : s.queues.queue k = m :: ms)
      (hc : cont m = some (l, b)) : Does N t s l [] fun q => q.take k b

theorem step_of_does {t : τ} {s : State τ κ α β ω σ} {l : σ t} {os : List ω}
    {f : Traffic κ α β → Traffic κ α β} (h : Does N t s l os f) :
    N.step t s = .next (s.advance t l os f) := by
  cases h with
  | go hn => simp only [step, hn]
  | send hn => simp only [step, hn]
  | recv hn hq hc => simp only [step, hn, hq, hc]

theorem does_of_step {t : τ} {s s' : State τ κ α β ω σ} (h : N.step t s = .next s') :
    ∃ l os f, Does N t s l os f ∧ s' = s.advance t l os f := by
  unfold step at h
  split at h
  · cases h
  · cases h
  · next hn =>
    cases h
    exact ⟨_, _, _, .go hn, rfl⟩
  · next hn =>
    cases h
    exact ⟨_, _, _, .send hn, rfl⟩
  · next hn =>
    split at h
    · cases h
    next hq =>
    split at h
    · cases h
    next hc =>
    cases h
    exact ⟨_, _, _, .recv hn hq hc, rfl⟩

theorem step_eq_overrun_iff {t : τ} {s : State τ κ α β ω σ} :
    N.step t s = .overrun ↔ N.next t (s.loc t) = .overrun ∨
      ∃ k cont m ms, N.next t (s.loc t) = .recv k cont ∧ s.queues.queue k = m :: ms ∧
        cont m = none := by
  constructor
  · intro h
    unfold step at h
    split at h
    · cases h
    · next hn => exact .inl hn
    · cases h
    · cases h
    · next k cont hn =>
      split at h
      · cases h
      next m ms hq =>
      split at h
      · next hc => exact .inr ⟨k, cont, m, ms, hn, hq, hc⟩
      · cases h
  · rintro (hn | ⟨k, cont, m, ms, hn, hq, hc⟩)
    · simp only [step, hn]
    · simp only [step, hn, hq, hc]

/-! ## Exchanging steps -/

section
variable {t u : τ} {s : State τ κ α β ω σ} {l : σ t} {l' : σ u} {os os' : List ω}
  {f f' : Traffic κ α β → Traffic κ α β}

omit [DecidableEq κ] in
/-- An advance of a process leaves the others alone. -/
theorem State.advance_loc (hne : t ≠ u) : (s.advance t l os f).loc u = s.loc u :=
  Function.update_of_ne hne.symm ..

omit [DecidableEq κ] in
/-- Advances of two processes can be exchanged if what they do to the queues can. -/
theorem State.advance_comm (hne : t ≠ u) (hf : f' (f s.queues) = f (f' s.queues)) :
    (s.advance t l os f).advance u l' os' f' = (s.advance u l' os' f').advance t l os f := by
  have hout : Function.update s.out t (s.out t ++ os) u = s.out u :=
    Function.update_of_ne hne.symm ..
  have hout' : Function.update s.out u (s.out u ++ os') t = s.out t :=
    Function.update_of_ne hne ..
  simp only [advance, hf, hout, hout', Function.update_comm hne]

omit [DecidableEq τ] in
/-- A step leaves the head of the queue that another process receives from. -/
theorem Wired.head (hw : N.Wired) (hne : t ≠ u) (ht : Does N t s l os f) {k : κ}
    {cont : α → Option (σ u × β)} (hu : N.next u (s.loc u) = .recv k cont) {m : α} {ms : List α}
    (hq : s.queues.queue k = m :: ms) : ∃ ms', (f s.queues).queue k = m :: ms' := by
  cases ht with
  | go _ => exact ⟨ms, hq⟩
  | @send j m' b _ hn =>
    by_cases hkj : k = j
    · subst hkj
      exact ⟨ms ++ [m'], by rw [Traffic.put_queue_self, hq, List.cons_append]⟩
    · exact ⟨ms, (Traffic.put_queue_ne _ hkj _ _).trans hq⟩
  | @recv j _ _ _ _ _ hn _ _ =>
    have hkj : k ≠ j := by
      rintro rfl
      exact hne (hw.receiver hn hu)
    exact ⟨ms, (Traffic.take_queue_ne _ hkj _).trans hq⟩

/-- After a step of another process, a process does what it would have done before it. -/
theorem Wired.again (hw : N.Wired) (hne : t ≠ u) (ht : Does N t s l os f)
    (hu : Does N u s l' os' f') : Does N u (s.advance t l os f) l' os' f' := by
  have hloc : (s.advance t l os f).loc u = s.loc u := State.advance_loc hne
  cases hu with
  | go hn => exact .go (by rw [hloc, hn])
  | send hn => exact .send (by rw [hloc, hn])
  | recv hn hq hc =>
    obtain ⟨ms', hq'⟩ := hw.head hne ht hn hq
    exact .recv (by rw [hloc, hn]) hq' hc

omit [DecidableEq τ] in
/-- What two processes do to the queues can be exchanged. -/
theorem Wired.exchange (hw : N.Wired) (hne : t ≠ u) (ht : Does N t s l os f)
    (hu : Does N u s l' os' f') : f' (f s.queues) = f (f' s.queues) := by
  cases ht with
  | go _ => rfl
  | send hn =>
    cases hu with
    | go _ => rfl
    | send hn' => exact Traffic.put_comm _ (fun hk => hne (hw.sender (hk ▸ hn) hn')) ..
    | recv _ hq _ => exact Traffic.put_take_comm (by simp [hq]) ..
  | recv hn hq _ =>
    cases hu with
    | go _ => rfl
    | send _ => exact (Traffic.put_take_comm (by simp [hq]) ..).symm
    | recv hn' _ _ => exact Traffic.take_comm _ (fun hk => hne (hw.receiver (hk ▸ hn) hn')) ..

end

/-- The steps of a network can be exchanged. -/
theorem Wired.diamond (hw : N.Wired) : N.sched.Diamond where
  comm := by
    intro t u s s₁ s₂ hne hst hsu
    obtain ⟨l, os, f, ht, rfl⟩ := does_of_step hst
    obtain ⟨l', os', f', hu, rfl⟩ := does_of_step hsu
    refine ⟨_, step_of_does (hw.again hne ht hu), ?_⟩
    rw [State.advance_comm hne (hw.exchange hne ht hu)]
    exact step_of_does (hw.again hne.symm hu ht)
  overrun := by
    intro t u s s₁ hne hst hsu
    obtain ⟨l, os, f, ht, rfl⟩ := does_of_step hst
    have hloc : (s.advance t l os f).loc u = s.loc u := State.advance_loc hne
    refine step_eq_overrun_iff.mpr ?_
    rw [hloc]
    obtain hn | ⟨k, cont, m, ms, hn, hq, hc⟩ := step_eq_overrun_iff.mp hsu
    · exact .inl hn
    · obtain ⟨ms', hq'⟩ := hw.head hne ht hn hq
      exact .inr ⟨k, cont, m, ms', hn, hq', hc⟩

end Network
