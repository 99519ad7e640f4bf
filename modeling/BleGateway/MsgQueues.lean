import BleGateway.Lib.Sched
import BleGateway.Lib.Traffic
import BleGateway.MsgDef

/-!
# How queues get their ids (`Drivers/Msg_Def.c`, lines 32–44)

`sys_mq_init` asks the kernel for the queue of a key and, if there is none, asks again with
`IPC_CREAT`. Threads and programs do this at the same time, so between the two calls anybody else
may have created the queue.

* `MsgQueues`: the kernel's queues by id, the id of each key, and the threads that are inside
  `sys_mq_init`. `grant` is what the kernel decides in a `msgget`: it refuses, or it has an id for a
  new queue. Nothing removes a queue: `sys_mq_kill` and `sys_mq_reset` are never called.
* `Registered`: the keys have different ids, and what `sys_mq_init` returned is the id of its key.
* `byKey`: the queues under their keys. `refines_keys`: so two calls give the same id exactly if
  they were for the same key, and the queues behave as queues that are named by their keys.
-/

namespace Ble

/-- Where a thread is inside `sys_mq_init(key)`. -/
inductive InitPc where
  /-- Before `msgget(key, 0)`. -/
  | lookup (key : Nat)
  /-- Before `msgget(key, IPC_CREAT | 0666)`. -/
  | create (key : Nat)
  deriving DecidableEq, Repr

/-- The kernel's queues, and the threads `τ` that ask for them. -/
structure MsgQueues (τ : Type) where
  /-- The keys, each with the id of its queue. -/
  registry : List (Nat × Nat)
  /-- The queues by id. -/
  queues : Traffic Nat Message Passed
  calls : τ → Option InitPc
  /-- What `sys_mq_init` has returned, with its key. -/
  returned : List (Nat × Int)

namespace MsgQueues

variable {τ : Type}

/-- The id of a key. -/
def idOf (s : MsgQueues τ) (key : Nat) : Option Nat := s.registry.lookup key

/-- `IPC_PRIVATE`, which is no key of a queue. -/
def ipcPrivate : Nat := 0

inductive Step (τ : Type) where
  /-- The thread `t` enters `sys_mq_init(key)`. -/
  | sysMqInit (t : τ) (key : Nat)
  /-- The next `msgget` of the thread `t`. -/
  | msgget (t : τ) (grant : Option Nat)
  /-- `sys_mq_send` with the id that was returned for `key`. -/
  | send (key qid : Nat) (m : Message) (b : Passed)
  /-- `sys_mq_recv` with that id. -/
  | recv (key qid : Nat) (b : Passed)

/-- `sys_mq_init` returns. -/
def ret [DecidableEq τ] (s : MsgQueues τ) (t : τ) (key : Nat) (qid : Int) : MsgQueues τ :=
  { s with calls := Function.update s.calls t none, returned := s.returned ++ [(key, qid)] }

/-- The next `msgget` of a thread inside `sys_mq_init`. -/
def msgget [DecidableEq τ] (s : MsgQueues τ) (t : τ) (grant : Option Nat) : Outcome (MsgQueues τ) :=
  match s.calls t with
  | none => .blocked
  | some (.lookup key) =>
    match grant, s.idOf key with
    | some _, some qid => .next (s.ret t key qid)
    | _, _ => .next { s with calls := Function.update s.calls t (some (.create key)) }
  | some (.create key) =>
    match grant with
    | none => .next (s.ret t key (-1))
    | some new =>
      match s.idOf key with
      | some qid => .next (s.ret t key qid)
      | none =>
        -- The kernel gives no id twice.
        if new ∈ s.registry.map (·.2) then .blocked
        else .next ({ s with registry := (key, new) :: s.registry }.ret t key new)

def step [DecidableEq τ] (l : Step τ) (s : MsgQueues τ) : Outcome (MsgQueues τ) :=
  match l with
  | .sysMqInit t key =>
    if s.calls t = none ∧ key ≠ ipcPrivate then
      .next { s with calls := Function.update s.calls t (some (.lookup key)) }
    else .blocked
  | .msgget t grant => s.msgget t grant
  | .send key qid m b =>
    if (key, (qid : Int)) ∈ s.returned then .next { s with queues := s.queues.put qid m b }
    else .blocked
  | .recv key qid b =>
    if (key, (qid : Int)) ∈ s.returned ∧ s.queues.queue qid ≠ [] then
      .next { s with queues := s.queues.take qid b }
    else .blocked

/-- Any number of threads that ask for queues and use them. -/
def system [DecidableEq τ] : Sched (MsgQueues τ) (Step τ) := ⟨step⟩

/-! ## Queues named by their keys -/

/-- What is done to a queue that is named by its key. -/
inductive Access where
  | send (key : Nat) (m : Message) (b : Passed)
  | recv (key : Nat) (b : Passed)

/-- Queues by key. -/
def keyed : Sched (Traffic Nat Message Passed) Access where
  step
    | .send key m b, q => .next (q.put key m b)
    | .recv key b, q => if q.queue key ≠ [] then .next (q.take key b) else .blocked

/-- The step as an access by key. -/
def Step.access : Step τ → Option Access
  | .send key _ m b => some (.send key m b)
  | .recv key _ b => some (.recv key b)
  | _ => none

/-- The queues, each under the key that its id belongs to. -/
def byKey (s : MsgQueues τ) : Traffic Nat Message Passed := s.queues.comap s.idOf

/-- Different keys have different ids, what was returned is registered, and nothing has gone through
a queue that there is not. -/
structure Registered (s : MsgQueues τ) : Prop where
  inj : ∀ {key key' qid : Nat}, s.idOf key = some qid → s.idOf key' = some qid → key = key'
  returned : ∀ {key qid : Nat}, (key, (qid : Int)) ∈ s.returned → s.idOf key = some qid
  fresh : ∀ {qid : Nat}, qid ∉ s.registry.map (·.2) →
    s.queues.queue qid = [] ∧ s.queues.sent qid = [] ∧ s.queues.rcvd qid = []

/-! ## The registry -/

theorem mem_of_idOf {s : MsgQueues τ} {key qid : Nat} (h : s.idOf key = some qid) :
    qid ∈ s.registry.map (·.2) := by
  unfold idOf at h
  obtain ⟨l, l', heq, -⟩ := List.lookup_eq_some_iff.mp h
  rw [heq]
  simp

theorem idOf_cons (s : MsgQueues τ) (key new k : Nat) :
    ({ s with registry := (key, new) :: s.registry } : MsgQueues τ).idOf k =
      if k = key then some new else s.idOf k := by
  unfold idOf
  rw [List.lookup_cons]
  by_cases h : k = key
  · simp [h]
  · rw [if_neg h, beq_false_of_ne h]

/-- A call that returns an error, or the id of its key. -/
theorem Registered.ret [DecidableEq τ] {s : MsgQueues τ} (h : Registered s) (t : τ)
    {key : Nat} {qid : Int}
    (hq : ∀ n : Nat, qid = n → s.idOf key = some n) : Registered (s.ret t key qid) where
  inj := h.inj
  fresh := h.fresh
  returned := by
    intro key' qid' hmem
    obtain hmem | hmem := List.mem_append.mp hmem
    · exact h.returned hmem
    · cases List.mem_singleton.mp hmem
      exact hq qid' rfl

/-- A new queue under an id that there was not. -/
theorem Registered.create {s : MsgQueues τ} (h : Registered s) {key new : Nat}
    (hkey : s.idOf key = none) (hnew : new ∉ s.registry.map (·.2)) :
    Registered { s with registry := (key, new) :: s.registry } := by
  have hid := idOf_cons s key new
  constructor
  · intro k k' qid hk hk'
    rw [hid] at hk hk'
    split at hk <;> split at hk'
    · next e e' => exact e.trans e'.symm
    · cases hk
      exact absurd (mem_of_idOf hk') hnew
    · cases hk'
      exact absurd (mem_of_idOf hk) hnew
    · exact h.inj hk hk'
  · intro k qid hmem
    have hk := h.returned hmem
    rw [hid, if_neg, hk]
    rintro rfl
    cases hkey.symm.trans hk
  · intro qid hmem
    exact h.fresh fun hm => hmem (List.mem_cons_of_mem _ hm)

theorem byKey_create {s : MsgQueues τ} (h : Registered s) {key new : Nat}
    (hkey : s.idOf key = none) (hnew : new ∉ s.registry.map (·.2)) :
    byKey { s with registry := (key, new) :: s.registry } = s.byKey := by
  have hid := idOf_cons s key new
  obtain ⟨hq, hs, hr⟩ := h.fresh hnew
  unfold byKey Traffic.comap
  congr 1 <;> funext k <;> rw [hid] <;> split
  · next e => simp only [e, hkey, Option.elim, hq]
  · rfl
  · next e => simp only [e, hkey, Option.elim, hs]
  · rfl
  · next e => simp only [e, hkey, Option.elim, hr]
  · rfl

/-- Two ids are the same exactly if their keys are. -/
theorem Registered.agree {s : MsgQueues τ} (h : Registered s) {key key' : Nat} {qid qid' : Int}
    (hk : (key, qid) ∈ s.returned) (hk' : (key', qid') ∈ s.returned) (hq : 0 ≤ qid)
    (hq' : 0 ≤ qid') : qid = qid' ↔ key = key' := by
  obtain ⟨n, rfl⟩ := Int.eq_ofNat_of_zero_le hq
  obtain ⟨n', rfl⟩ := Int.eq_ofNat_of_zero_le hq'
  have hid := h.returned hk
  have hid' := h.returned hk'
  constructor
  · intro heq
    cases Int.ofNat_inj.mp heq
    exact h.inj hid hid'
  · rintro rfl
    exact congrArg Int.ofNat (Option.some.inj (hid.symm.trans hid'))

/-! ## One step -/

section
variable [DecidableEq τ] {s s' : MsgQueues τ}

/-- A `msgget` keeps the registry right and the queues as they are. -/
theorem msgget_registered (h : Registered s) {t : τ} {grant : Option Nat}
    (hn : s.msgget t grant = .next s') : Registered s' ∧ s'.byKey = s.byKey := by
  unfold msgget at hn
  split at hn
  · cases hn
  · next key _ =>
    split at hn
    · next qid hid =>
      cases hn
      exact ⟨h.ret t fun n hq => by cases hq; exact hid, rfl⟩
    · cases hn
      exact ⟨⟨h.inj, h.returned, h.fresh⟩, rfl⟩
  · next key _ =>
    split at hn
    · cases hn
      exact ⟨h.ret t fun n hq => by omega, rfl⟩
    next new =>
    split at hn
    · next qid hid =>
      cases hn
      exact ⟨h.ret t fun n hq => by cases hq; exact hid, rfl⟩
    next hkey =>
    split at hn
    · cases hn
    next hnew =>
    cases hn
    refine ⟨(h.create hkey hnew).ret t fun n hq => ?_, byKey_create h hkey hnew⟩
    cases hq
    rw [idOf_cons, if_pos rfl]

/-- A step keeps the registry right. It leaves the queues by key alone, or is an access by key. -/
theorem step_registered (h : Registered s) {l : Step τ} (hn : step l s = .next s') :
    Registered s' ∧ (s'.byKey = s.byKey ∨
      ∃ a, l.access = some a ∧ keyed.step a s.byKey = .next s'.byKey) := by
  cases l with
  | sysMqInit t key =>
    simp only [step] at hn
    split at hn
    · cases hn
      exact ⟨⟨h.inj, h.returned, h.fresh⟩, .inl rfl⟩
    · cases hn
  | msgget t grant =>
    obtain ⟨hr, hk⟩ := msgget_registered h hn
    exact ⟨hr, .inl hk⟩
  | send key qid m b =>
    simp only [step] at hn
    split at hn
    · next hmem =>
      cases hn
      have hid := h.returned hmem
      refine ⟨⟨h.inj, h.returned, fun {q} hq => ?_⟩, .inr ⟨_, rfl, ?_⟩⟩
      · have hne : q ≠ qid := by
          rintro rfl
          exact hq (mem_of_idOf hid)
        simpa only [Traffic.put, Function.update_of_ne hne] using h.fresh hq
      · exact congrArg Outcome.next
          (Traffic.comap_put _ hid (fun k hk => h.inj hk hid) m b).symm
    · cases hn
  | recv key qid b =>
    simp only [step] at hn
    split at hn
    · next hmem =>
      obtain ⟨hmem, hne⟩ := hmem
      cases hn
      have hid := h.returned hmem
      refine ⟨⟨h.inj, h.returned, fun {q} hq => ?_⟩, .inr ⟨_, rfl, ?_⟩⟩
      · have hne : q ≠ qid := by
          rintro rfl
          exact hq (mem_of_idOf hid)
        simpa only [Traffic.take, Function.update_of_ne hne] using h.fresh hq
      · have hqueue : s.byKey.queue key = s.queues.queue qid := by
          simp only [byKey, Traffic.comap, hid, Option.elim_some]
        simp only [keyed, hqueue, ne_eq, hne, not_false_eq_true, if_true]
        exact congrArg Outcome.next
          (Traffic.comap_take _ hid (fun k hk => h.inj hk hid) b).symm
    · cases hn

/-! ## Runs -/

theorem run_registered (h : Registered s) {ls : List (Step τ)} (hr : system.run s ls = some s') :
    Registered s' ∧ ∃ as, as.Sublist (ls.filterMap Step.access) ∧
      keyed.run s.byKey as = some s'.byKey := by
  induction ls generalizing s with
  | nil =>
    cases hr
    exact ⟨h, [], List.nil_sublist _, rfl⟩
  | cons l ls ih =>
    rw [Sched.run_cons] at hr
    have hsub : (ls.filterMap Step.access).Sublist ((l :: ls).filterMap Step.access) :=
      (List.sublist_cons_self l ls).filterMap _
    cases hst : system.step l s with
    | overrun => rw [hst] at hr; cases hr
    | blocked =>
      rw [hst] at hr
      obtain ⟨h', as, has, hrun⟩ := ih h hr
      exact ⟨h', as, has.trans hsub, hrun⟩
    | next s₁ =>
      rw [hst] at hr
      obtain ⟨h₁, hacc⟩ := step_registered h hst
      obtain ⟨h', as, has, hrun⟩ := ih h₁ hr
      obtain hk | ⟨a, ha, hstep⟩ := hacc
      · exact ⟨h', as, has.trans hsub, by rwa [← hk]⟩
      · refine ⟨h', a :: as, ?_, by rw [Sched.run_cons, hstep]; exact hrun⟩
        rw [List.filterMap_cons, ha]
        exact has.cons_cons a

/-- **Queues have the names of their keys.** Threads and programs ask for queues and use them in any
order. Of all ids that `sys_mq_init` has returned without an error, two are the same exactly if
their keys are, and what was done to the queues is what is done to queues named by keys. -/
theorem refines_keys (h : Registered s) {ls : List (Step τ)} (hr : system.run s ls = some s') :
    (∀ key key' qid qid', (key, qid) ∈ s'.returned → (key', qid') ∈ s'.returned → 0 ≤ qid →
      0 ≤ qid' → (qid = qid' ↔ key = key')) ∧
      ∃ as, as.Sublist (ls.filterMap Step.access) ∧ keyed.run s.byKey as = some s'.byKey := by
  obtain ⟨h', hrun⟩ := run_registered h hr
  exact ⟨fun _ _ _ _ hk hk' => h'.agree hk hk', hrun⟩

end

/-- No queue yet. -/
def empty : MsgQueues τ := ⟨[], .empty, fun _ => none, []⟩

theorem registered_empty : Registered (empty : MsgQueues τ) where
  inj := nofun
  returned := nofun
  fresh := fun _ => ⟨rfl, rfl, rfl⟩

/-- Two threads find no queue for the forwarder's key, and each asks for a new one. -/
def race : List (Step Bool) :=
  [.sysMqInit true messageSendToPeerDeviceKey, .sysMqInit false messageSendToPeerDeviceKey,
    .msgget true (some 7), .msgget false (some 7), .msgget true (some 7), .msgget false (some 8),
    .send messageSendToPeerDeviceKey 7 ⟨[], Nat.zero_le _⟩ ([], 0)]

/-- They get one queue. -/
theorem refines_keys_race :
    ∃ s', system.run empty race = some s' ∧
      (∀ key key' qid qid', (key, qid) ∈ s'.returned → (key', qid') ∈ s'.returned → 0 ≤ qid →
        0 ≤ qid' → (qid = qid' ↔ key = key')) ∧
        ∃ as, as.Sublist (race.filterMap Step.access) ∧
          keyed.run (byKey (empty : MsgQueues Bool)) as = some s'.byKey :=
  ⟨_, rfl, refines_keys registered_empty rfl⟩

end MsgQueues

end Ble
