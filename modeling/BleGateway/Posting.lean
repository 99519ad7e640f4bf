import BleGateway.Gateway
import BleGateway.Stale

/-!
# What the dispatcher posts

The calls of `sys_mq_send` that a byte stream leads to. Every call is for one completed packet and
passes `rx_packet` and `index` as they then are.

* `length_posted_le`: the chain makes one call for a packet, or none. Its sub-chains have single
  actions, and the consecutive `if`s of the notification and of the link-terminated branch hold one
  `sys_mq_send` together.
* `posts`: the calls of a whole stream, with the number of the packet each is for.
* `rxByte_boundary`: behind a completed packet the framer is at a boundary, whatever was done.
* `uart_sent`, `run_sent`: these are the messages that the thread sends, step by step and in a run.
* `posts_inOrder`: so nothing is posted twice or out of order, to one queue or to two.
-/

namespace Ble

open Framer

/-! ## One packet -/

theorem AtMostOnePost.length_queues_le {as : List Action} (h : AtMostOnePost as) :
    (as.filterMap Action.queue?).length ≤ 1 := by
  obtain rfl | ⟨q, rfl⟩ := h
  · exact Nat.zero_le 1
  · exact Nat.le_refl 1

/-- The queues that the actions of an event post to. -/
theorem length_byEvent_queues_le (event : Nat) (p : CArray UInt8 2048) :
    ((byEvent event p).filterMap Action.queue?).length ≤ 1 := by
  unfold byEvent
  split
  · exact (atMostOnePost_sysMqSend _).length_queues_le
  split
  · exact (atMostOnePost_commandStatus _).length_queues_le
  split
  · unfold linkTerminated
    split
    · exact Nat.le_refl 1
    · exact Nat.zero_le 1
  split
  · exact (atMostOnePost_toPipe _).length_queues_le
  split
  · have hack : [Action.dataAck (p.byte 6)].filterMap Action.queue? = [] := rfl
    rw [List.filterMap_append, hack, List.append_nil]
    exact (atMostOnePost_writeRequestQueue p).length_queues_le
  · exact Nat.zero_le 1

/-- The chain posts a packet at most once. -/
theorem length_posted_le (p : CArray UInt8 2048) : (posted p).length ≤ 1 := by
  unfold posted
  rw [dispatch_eq]
  split
  · split
    · simp
    · exact length_byEvent_queues_le _ p
  · simp

/-- A packet is posted to one queue or to none. -/
theorem posted_cases (p : CArray UInt8 2048) : posted p = [] ∨ ∃ q, posted p = [q] := by
  have h := length_posted_le p
  match posted p, h with
  | [], _ => exact .inl rfl
  | [q], _ => exact .inr ⟨q, rfl⟩

/-- A byte that completes a packet leads to the boundary. -/
theorem rxByte_boundary {s : Framer} {b : UInt8} {c : Completed} (h : (rxByte s b).2 = some c) :
    (rxByte s b).1.AtBoundary ∧ (rxByte s b).1.count = 0 := by
  revert h
  unfold rxByte
  dsimp only
  repeat' split
  all_goals intro h
  all_goals first | exact ⟨⟨rfl, rfl⟩, rfl⟩ | cases h

/-! ## Whole streams -/

/-- A call `sys_mq_send(queue, rx_packet, index)` for the completed packet number `frame`. -/
structure Post where
  queue : QueueVar
  frame : Nat
  packet : Completed
  deriving DecidableEq

/-- The calls for the completed packets `cs`, which are numbered from `n` on. -/
def posts (n : Nat) : List Completed → List Post
  | [] => []
  | c :: cs => (posted c.rxPacket).map (⟨·, n, c⟩) ++ posts (n + 1) cs

/-- The messages posted to the queue with the key `k`, in order. -/
def postsTo (ids : PipeIds) (k : Nat) (ps : List Post) : List Completed :=
  (ps.filter fun p => p.queue.key ids = some k).map (·.packet)

theorem postsTo_cons (ids : PipeIds) (k n : Nat) (c : Completed) (cs : List Completed) :
    postsTo ids k (posts n (c :: cs)) =
      ((posted c.rxPacket).filter fun q => q.key ids = some k).map (fun _ => c) ++
        postsTo ids k (posts (n + 1) cs) := by
  simp only [postsTo, posts, List.filter_append, List.map_append, List.filter_map, List.map_map]
  rfl

/-- The numbers do not matter for what a queue gets. -/
theorem postsTo_number (ids : PipeIds) (k n m : Nat) (cs : List Completed) :
    postsTo ids k (posts n cs) = postsTo ids k (posts m cs) := by
  induction cs generalizing n m with
  | nil => rfl
  | cons c cs ih => rw [postsTo_cons, postsTo_cons, ih (n + 1) (m + 1)]

/-- The calls post the packets `frames` once at most and in order. -/
structure InOrder (ids : PipeIds) (frames : List Completed) (ps : List Post) : Prop where
  once : ∀ n, (ps.filter fun p => p.frame = n).length ≤ 1
  passes : ∀ p ∈ ps, frames[p.frame]? = some p.packet
  sublist : ∀ k, (postsTo ids k ps).Sublist frames
  disjoint : ∀ k k', k ≠ k' → ∀ p ∈ ps, ∀ p' ∈ ps, p.queue.key ids = some k →
    p'.queue.key ids = some k' → p.frame ≠ p'.frame

theorem le_frame {n : Nat} {cs : List Completed} {p : Post} (h : p ∈ posts n cs) :
    n ≤ p.frame := by
  induction cs generalizing n with
  | nil => cases h
  | cons c cs ih =>
    rcases List.mem_append.mp h with h | h
    · obtain ⟨q, -, rfl⟩ := List.mem_map.mp h
      exact Nat.le_refl _
    · have := ih h
      omega

theorem getElem?_posts {n : Nat} {cs : List Completed} {p : Post} (h : p ∈ posts n cs) :
    cs[p.frame - n]? = some p.packet := by
  induction cs generalizing n with
  | nil => cases h
  | cons c cs ih =>
    rcases List.mem_append.mp h with h | h
    · obtain ⟨q, -, rfl⟩ := List.mem_map.mp h
      simp
    · have hlt := le_frame h
      rw [show p.frame - n = p.frame - (n + 1) + 1 by omega, List.getElem?_cons_succ]
      exact ih h

/-- The numbers go up from call to call. -/
theorem pairwise_posts (n : Nat) (cs : List Completed) :
    (posts n cs).Pairwise fun p p' => p.frame < p'.frame := by
  induction cs generalizing n with
  | nil => exact .nil
  | cons c cs ih =>
    have hlt : ∀ p ∈ posts (n + 1) cs, n < p.frame := fun p hp => le_frame hp
    rw [posts]
    obtain h | ⟨q, h⟩ := posted_cases c.rxPacket
    · rw [h]
      exact ih (n + 1)
    · rw [h]
      exact .cons hlt (ih (n + 1))

theorem sublist_posts (ids : PipeIds) (k n : Nat) (cs : List Completed) :
    (postsTo ids k (posts n cs)).Sublist cs := by
  induction cs generalizing n with
  | nil => exact List.Sublist.slnil
  | cons c cs ih =>
    have hrest := ih (n + 1)
    unfold postsTo at hrest ⊢
    rw [posts]
    obtain h | ⟨q, h⟩ := posted_cases c.rxPacket
    · rw [h]
      exact hrest.cons c
    · rw [h, List.map_singleton, List.singleton_append, List.filter_cons]
      split
      · exact hrest.cons_cons c
      · exact hrest.cons c

/-- Two calls with the same number are the same call. -/
theorem eq_of_frame_eq {n : Nat} {cs : List Completed} {p p' : Post} (hp : p ∈ posts n cs)
    (hp' : p' ∈ posts n cs) (h : p.frame = p'.frame) : p = p' := by
  have hpair := pairwise_posts n cs
  generalize posts n cs = ps at hp hp' hpair
  induction hpair with
  | nil => cases hp
  | cons hlt _ ih =>
    rcases List.mem_cons.mp hp with heq | hmem
    · rcases List.mem_cons.mp hp' with heq' | hmem'
      · exact heq.trans heq'.symm
      · have := hlt _ hmem'
        subst heq
        omega
    · rcases List.mem_cons.mp hp' with heq' | hmem'
      · have := hlt _ hmem
        subst heq'
        omega
      · exact ih hmem hmem'

theorem once_posts (n m : Nat) (cs : List Completed) :
    ((posts n cs).filter fun p => p.frame = m).length ≤ 1 := by
  have hpair := (pairwise_posts n cs).filter fun p => decide (p.frame = m)
  have hm : ∀ p ∈ (posts n cs).filter (fun p => p.frame = m), p.frame = m := by simp
  generalize (posts n cs).filter (fun p => p.frame = m) = ps at hpair hm
  cases hpair with
  | nil => simp
  | @cons p ps hlt _ =>
    cases ps with
    | nil => simp
    | cons p' ps =>
      have h₁ := hm p (by simp)
      have h₂ := hm p' (by simp)
      have := hlt p' (by simp)
      omega

theorem inOrder_posts (ids : PipeIds) (cs : List Completed) : InOrder ids cs (posts 0 cs) where
  once := fun m => once_posts 0 m cs
  passes := fun _ hp => getElem?_posts hp
  sublist := fun k => sublist_posts ids k 0 cs
  disjoint := fun k k' hne p hp p' hp' hk hk' hf => by
    cases eq_of_frame_eq hp hp' hf
    exact hne (Option.some.inj (hk.symm.trans hk'))

/-! ## The thread -/

namespace Gateway

/-- What the thread finds in `rx_packet` and `index`, as it passes them on. -/
def sendsTo (ids : PipeIds) (k : Nat) (c : Completed) (as : List Action) : List Passed :=
  ((as.filterMap Action.queue?).filter fun q => q.key ids = some k).map
    fun _ => passed c.rxPacket c.index.toUInt16

/-- What the thread still has to post to the queue with the key `k`. -/
def toSend (ids : PipeIds) (k : Nat) (g : Gateway) : List Passed :=
  sendsTo ids k g.packet g.pending ++
    (postsTo ids k (posts 0 (arriving g.framer g.input))).map
      fun c => passed c.rxPacket c.index.toUInt16

theorem sendsTo_cons (ids : PipeIds) (k : Nat) (c : Completed) (a : Action) (as : List Action) :
    sendsTo ids k c (a :: as) = sendsTo ids k c [a] ++ sendsTo ids k c as := by
  rw [← List.singleton_append]
  simp only [sendsTo, List.filterMap_append, List.filter_append, List.map_append]

/-- One action adds to a queue's messages what it takes from those to come. -/
theorem Performs.sent {ids : PipeIds} {g g' : Gateway} {a : Action} (h : Performs ids g a g')
    (k : Nat) :
    g'.queues.sent k = g.queues.sent k ++ sendsTo ids k g.packet [a] ∧
      g'.pending = g.pending ∧ g'.packet = g.packet ∧ g'.framer = g.framer ∧
        g'.input = g.input := by
  cases h with
  | lost q hkey => simp [sendsTo, Action.queue?, hkey]
  | post q k' m hkey =>
    by_cases hk : k' = k
    · subst hk
      simp [sendsTo, Action.queue?, hkey, Traffic.put]
    · have hk' : k ≠ k' := fun h => hk h.symm
      simp [sendsTo, Action.queue?, hkey, hk, hk', Traffic.put]
  | clear connHandle connections fault => exact ⟨(List.append_nil _).symm, rfl, rfl, rfl, rfl⟩
  | count connections => exact ⟨(List.append_nil _).symm, rfl, rfl, rfl, rfl⟩
  | ack idz => exact ⟨(List.append_nil _).symm, rfl, rfl, rfl, rfl⟩

/-- Every step of the thread keeps, for each queue, what was and what will be posted to it. -/
theorem uart_sent {ids : PipeIds} {g g' : Gateway} (h : uartStep ids g = .next g') (k : Nat) :
    g'.queues.sent k ++ toSend ids k g' = g.queues.sent k ++ toSend ids k g := by
  cases uartMoves_of_next h with
  | @action a as _ hp h =>
    obtain ⟨hs, hp', hpk, hf, hi⟩ := h.sent k
    have hcons := sendsTo_cons ids k g.packet a as
    simp only [toSend, hs, hp', hpk, hf, hi, hp, hcons, List.append_assoc]
  | byte hp hi hr =>
    simp only [toSend, hi, arriving_cons, hr, Option.toList_none, List.nil_append]
  | packet hp hi hr =>
    simp only [toSend, hi, hp, arriving_cons, hr, Option.toList_some, List.singleton_append,
      postsTo_cons, List.map_append, List.map_map]
    rw [postsTo_number ids k (0 + 1) 0]
    rfl

/-- In every run of the thread alone, what was posted to a queue and what still will be are the
calls for the packets of the byte stream. -/
theorem run_sent {ids : PipeIds} {l : Locals} {w : Connections} {s : List UInt8} {n : Nat}
    {g : Gateway}
    (h : (system ids).run (start l w s) (List.replicate n (.thread .uartCmdRx)) = some g)
    (k : Nat) :
    g.queues.sent k ++ toSend ids k g =
      (postsTo ids k (posts 0 (arriving (.start l.count l.rxPacket) s))).map
        fun c => passed c.rxPacket c.index.toUInt16 := by
  have hmeets : (system ids).Meets (fun t _ => t = .thread .uartCmdRx) (start l w s)
      (List.replicate n (.thread .uartCmdRx)) :=
    Sched.meets_of_forall (fun t ht _ => List.eq_of_mem_replicate ht) _
  refine hmeets.run_induct (I := fun g => g.queues.sent k ++ toSend ids k g = _)
    (fun t g g' hg ht hn => ?_) rfl h
  subst ht
  exact (uart_sent hn k).trans hg

end Gateway

/-! ## The calls -/

/-- **Posting in order.** For every byte stream the completed packets are posted once at most, each
as it was completed; the messages of a queue stand in the order of completion, and no packet goes
to two queues. Behind each of them the framer is at the packet boundary. And these are the messages
that the thread sends: those that it has sent and those that it still has to. -/
theorem posts_inOrder (ids : PipeIds) (l : Locals) (s : List UInt8) :
    InOrder ids (arriving (start l.count l.rxPacket) s)
        (posts 0 (arriving (start l.count l.rxPacket) s)) ∧
      (∀ pre b post, s = pre ++ b :: post → ∀ c,
        (rxByte (machine.after (start l.count l.rxPacket) pre) b).2 = some c →
          (machine.after (start l.count l.rxPacket) (pre ++ [b])).AtBoundary ∧
            (machine.after (start l.count l.rxPacket) (pre ++ [b])).count = 0) ∧
      ∀ w n g, (Gateway.system ids).run (Gateway.start l w s)
          (List.replicate n (.thread .uartCmdRx)) = some g → ∀ k,
        g.queues.sent k ++ Gateway.toSend ids k g =
          (postsTo ids k (posts 0 (arriving (start l.count l.rxPacket) s))).map
            fun c => passed c.rxPacket c.index.toUInt16 := by
  refine ⟨inOrder_posts ids _, fun pre b post _ c hc => ?_, fun w n g h k => Gateway.run_sent h k⟩
  rw [Mealy.after_append]
  exact rxByte_boundary hc

end Ble
