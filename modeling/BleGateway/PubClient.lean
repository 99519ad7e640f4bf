import BleGateway.Lib.Sched
import BleGateway.ClientConfig
import BleGateway.PublishLines
import Mathlib.Data.List.Induction

/-!
# The publisher (`mosquitto_client/pub_client.c`, lines 34–120 and 386–431)

`mosquitto_pub` publishes one message when it is connected, or with `-l` a message for each line of
its standard input. Its callbacks run in the thread of libmosquitto, while `main` goes round its
loop; the two share globals. A step runs up to the next access to one that the other thread uses.

* `mainStep`, `netStep`: the two threads, and `publisher`, both of them. What libmosquitto answers
  and when it calls back is arbitrary; it calls back once for a message that it has taken.
* `Inv`: what is published and what is still to be read, and what the threads know of the last
  message.
* `disconnect_complete`: the publisher disconnects only when every line was passed to
  `mosquitto_publish`, in order, and the message numbered last was acknowledged. `delivered_iff`:
  all lines were then published as they are exactly if no publish failed and the buffer held them.
* `disconnects_iff`: it does so in some run exactly if its input has a newline.
* `ends_or_hangs`: whether it ends depends on which message is acknowledged last. `inOrder_ends`: if
  they are acknowledged in order and no publish fails, it ends.
-/

namespace Ble.Mosquitto

/-- `STATUS_…`. -/
inductive Status where
  | connecting
  | connackRecvd
  | waiting
  deriving DecidableEq, Repr

/-- The globals that are set before the loop and then stay. -/
structure PubSetup where
  mode : MsgMode
  topic : String
  message : List UInt8
  qos : Int
  retain : Bool
  deriving DecidableEq, Repr

/-- What is told to libmosquitto, and what it tells. The result of `mosquitto_publish` and the
number that it gave the message; 0 if it gave none. -/
inductive Call where
  | publish (topic : String) (payload : List UInt8) (qos : Int) (retain : Bool) (rc : Int)
      (mid : Nat)
  | acked (mid : Nat)
  /-- `mosquitto_disconnect` because a publish failed. -/
  | giveUp
  /-- `mosquitto_disconnect` because all is done. -/
  | disconnect
  deriving DecidableEq, Repr

/-- Where `main` is. -/
inductive MainPc where
  | top
  | setLastMid
  | setWaiting
  | setSent
  | test
  | ended
  deriving DecidableEq, Repr

/-- Where the thread of libmosquitto is in `my_publish_callback`. -/
inductive NetPc where
  | idle
  | compare (mid : Nat)
  | setSent
  deriving DecidableEq, Repr

structure PubClient where
  status : Status
  midSent : Nat
  lastMid : Int
  lastMidSent : Int
  connected : Bool
  disconnectSent : Bool
  main : MainPc
  net : NetPc
  /-- The line buffer, and what is left of the input. -/
  buf : List UInt8
  stdin : List UInt8
  /-- The messages that libmosquitto has taken and not called back for. -/
  taken : List Nat
  log : List Call
  deriving Repr

namespace PubClient

/-- What libmosquitto does. -/
inductive NetEvent where
  /-- `my_connect_callback(result)`, and how a `mosquitto_publish` of it would end. -/
  | connect (result rc : Int) (mid : Nat)
  | disconnected
  | published (mid : Nat)
  /-- The running callback goes on. -/
  | continue
  deriving DecidableEq, Repr

inductive Label where
  /-- A step of `main`. `rc` and `mid` are how a `mosquitto_publish` or `mosquitto_loop` ends. -/
  | main (rc : Int) (mid : Nat)
  | net (e : NetEvent)
  deriving DecidableEq, Repr

/-- `mosquitto_publish(mosq, &mid_sent, topic, …, payload, qos, retain)`, and the disconnect if it
fails. A message that was taken has a number. -/
def publish (setup : PubSetup) (s : PubClient) (payload : List UInt8) (rc : Int) (mid : Nat) :
    Outcome PubClient :=
  let call := Call.publish setup.topic payload setup.qos setup.retain rc mid
  let midSent := if mid = 0 then s.midSent else mid
  if rc = 0 then
    if mid = 0 then .blocked
    else .next { s with midSent, taken := s.taken ++ [mid], log := s.log ++ [call] }
  else .next { s with midSent, log := s.log ++ [call, .giveUp] }

/-- A step of `main`, from the top of its loop. -/
def mainStep (setup : PubSetup) (fresh : Nat → CArray UInt8 1024) (rc : Int) (mid : Nat)
    (s : PubClient) : Outcome PubClient :=
  match s.main with
  | .top =>
    if setup.mode = .stdinLine then
      match s.status with
      | .connackRecvd =>
        match readLine fresh s.buf 0 (s.buf.length - 2) s.stdin with
        | none => .overrun
        | some ⟨none, buf, stdin⟩ => .next { s with buf, stdin, main := .setLastMid }
        | some ⟨some payload, buf, stdin⟩ =>
          publish setup { s with buf, stdin, main := .test } payload rc mid
      | .waiting =>
        if s.lastMidSent = s.lastMid ∧ s.disconnectSent = false then
          .next { s with main := .setSent, log := s.log ++ [.disconnect] }
        else .next { s with main := .test }
      | .connecting => .next { s with main := .test }
    else .next { s with main := if rc = 0 then .test else .ended }
  | .setLastMid => .next { s with lastMid := s.midSent, main := .setWaiting }
  | .setWaiting => .next { s with status := .waiting, main := .test }
  | .setSent => .next { s with disconnectSent := true, main := .test }
  | .test => .next { s with main := if s.connected then .top else .ended }
  | .ended => .blocked

/-- A step of the callbacks. -/
def netStep (setup : PubSetup) (e : NetEvent) (s : PubClient) : Outcome PubClient :=
  match s.net, e with
  | .idle, .connect result rc mid =>
    if result = 0 then
      match setup.mode with
      | .cmd | .file | .stdinFile => publish setup s setup.message rc mid
      | .null => publish setup s [] rc mid
      | .stdinLine => .next { s with status := .connackRecvd }
      | .none => .next s
    else .next s
  | .idle, .disconnected => .next { s with connected := false }
  | .idle, .published mid =>
    if mid ∈ s.taken then
      .next { s with
        lastMidSent := mid
        taken := s.taken.erase mid
        log := s.log ++ [.acked mid]
        net := .compare mid }
    else .blocked
  | .compare mid, .continue =>
    if setup.mode = .stdinLine then
      if (mid : Int) = s.lastMid then
        .next { s with net := .setSent, log := s.log ++ [.disconnect] }
      else .next { s with net := .idle }
    else if s.disconnectSent = false then
      .next { s with net := .setSent, log := s.log ++ [.disconnect] }
    else .next { s with net := .idle }
  | .setSent, .continue => .next { s with disconnectSent := true, net := .idle }
  | _, _ => .blocked

/-- The two threads. -/
def publisher (setup : PubSetup) (fresh : Nat → CArray UInt8 1024) : Sched PubClient Label where
  step
    | .main rc mid, s => mainStep setup fresh rc mid s
    | .net e, s => netStep setup e s

/-- In front of the loop. -/
def start (buf : CArray UInt8 1024) (stdin : List UInt8) : PubClient where
  status := .connecting
  midSent := 0
  lastMid := -1
  lastMidSent := -1
  connected := true
  disconnectSent := false
  main := .top
  net := .idle
  buf := buf.toList
  stdin
  taken := []
  log := []

end PubClient

/-! ## The input -/

/-- What standard input holds: lines, and what stands behind the last newline. None of it is a
zero byte, which would end the string that `fgets` leaves. -/
structure Input where
  lines : List (List UInt8)
  last : List UInt8
  plain : ∀ l ∈ last :: lines, newline ∉ l ∧ 0 ∉ l

namespace Input

def bytes (i : Input) : List UInt8 := i.lines.flatMap (· ++ [newline]) ++ i.last

/-- The input behind its first line. -/
def tail (i : Input) : Input where
  lines := i.lines.tail
  last := i.last
  plain l hl := i.plain l <| (List.mem_cons.mp hl).elim
    (fun h => List.mem_cons.mpr (.inl h))
    (fun h => List.mem_cons_of_mem _ (List.mem_of_mem_tail h))

/-- Nothing. -/
def empty : Input := ⟨[], [], by simp⟩

theorem lines_tail (i : Input) : i.tail.lines = i.lines.tail := rfl

theorem bytes_of_lines {i : Input} {l : List UInt8} {ls : List (List UInt8)}
    (h : i.lines = l :: ls) : i.bytes = l ++ newline :: i.tail.bytes := by
  simp [bytes, tail, h]

theorem lines_eq_nil {i : Input} (h : i.bytes = []) : i.lines = [] := by
  cases hl : i.lines with
  | nil => rfl
  | cons l ls =>
    rw [bytes_of_lines hl] at h
    simp at h

theorem plain_ab : ∀ l ∈ [[], [97], [98]], newline ∉ l ∧ (0 : UInt8) ∉ l := by decide

/-- Two lines. -/
def two : Input := ⟨[[97], [98]], [], plain_ab⟩

theorem bytes_of_nil {i : Input} (h : i.lines = []) : i.bytes = i.last := by
  simp [bytes, h]

end Input

namespace PubClient

/-! ## What is published, and what is left -/

/-- The payloads that were passed to `mosquitto_publish`. -/
def payloads (log : List Call) : List (List UInt8) :=
  log.filterMap fun c =>
    match c with
    | .publish _ payload _ _ _ _ => some payload
    | _ => none

/-- The number that was given last. -/
def handedOut (log : List Call) : Nat :=
  log.foldl (fun m c =>
    match c with
    | .publish _ _ _ _ _ mid => if mid = 0 then m else mid
    | _ => m) 0

/-- Everything was passed to `mosquitto_publish`, and the last message acknowledged. -/
structure Tried (total : List (List UInt8)) (log : List Call) : Prop where
  payloads : payloads log = total
  positive : 0 < handedOut log
  acked : Call.acked (handedOut log) ∈ log

/-- The messages that libmosquitto took, and their numbers. -/
def accepted (log : List Call) : List (List UInt8 × Nat) :=
  log.filterMap fun c =>
    match c with
    | .publish _ payload _ _ rc mid => if rc = 0 then some (payload, mid) else none
    | _ => none

/-- `mosquitto_publish` failed. -/
def Refused : Call → Prop
  | .publish _ _ _ _ rc _ => rc ≠ 0
  | .acked _ | .giveUp | .disconnect => False

/-- Everything was published and the last message acknowledged. -/
structure Done (total : List (List UInt8)) (log : List Call) : Prop where
  payloads : (accepted log).map (·.1) = total
  acked : ∃ m, (accepted log).getLast? = some m ∧ Call.acked m.2 ∈ log

/-- In front of each `mosquitto_disconnect` at the end, `P` holds of what happened. -/
def Before (P : List Call → Prop) (log : List Call) : Prop :=
  ∀ k, log[k]? = some .disconnect → P (log.take k)

/-- What holds in every state, for the payloads that are to be published. -/
structure Inv (total : List (List UInt8)) (s : PubClient) : Prop where
  left : ∃ i : Input, s.stdin = i.bytes ∧ payloads s.log ++ keptAll s.buf.length i.lines = total
  big : 1024 ≤ s.buf.length
  midSent : s.midSent = handedOut s.log
  lastMidSent : s.lastMidSent = -1 ∨
    ∃ m : Nat, s.lastMidSent = m ∧ 0 < m ∧ Call.acked m ∈ s.log
  lastMid : s.lastMid = -1 ∨ s.stdin = [] ∧ s.lastMid = s.midSent
  waiting : s.status = .waiting ∨ s.main = .setWaiting → s.stdin = [] ∧ s.lastMid = s.midSent
  atEnd : s.main = .setLastMid → s.stdin = []
  connecting : s.status = .connecting → s.midSent = 0
  compare : ∀ m, s.net = .compare m → 0 < m ∧ Call.acked m ∈ s.log
  taken : ∀ m ∈ s.taken, 0 < m
  disconnects : Before (Tried total) s.log
  numbered : ∀ m ∈ accepted s.log, 0 < m.2
  sent : s.disconnectSent → Call.disconnect ∈ s.log
  mainSent : s.main = .setSent → Call.disconnect ∈ s.log
  netSent : s.net = .setSent → Call.disconnect ∈ s.log

section

variable {P : List Call → Prop} {log new : List Call}

theorem before_append (h : Before P log) (hnew : Call.disconnect ∉ new) :
    Before P (log ++ new) := by
  intro k hk
  have hlt : k < log.length := by
    refine Nat.lt_of_not_le fun hle => hnew ?_
    rw [List.getElem?_append_right hle] at hk
    exact List.mem_of_getElem? hk
  rw [List.getElem?_append_left hlt] at hk
  rw [List.take_append_of_le_length (Nat.le_of_lt hlt)]
  exact h k hk

theorem before_disconnect (h : Before P log) (hP : P log) : Before P (log ++ [.disconnect]) := by
  intro k hk
  by_cases hlt : k < log.length
  · rw [List.getElem?_append_left hlt] at hk
    rw [List.take_append_of_le_length (Nat.le_of_lt hlt)]
    exact h k hk
  · have hlen : k < (log ++ [Call.disconnect]).length := (List.getElem?_eq_some_iff.mp hk).1
    rw [List.length_append, List.length_singleton] at hlen
    rw [List.take_left' (by omega)]
    exact hP

theorem payloads_append : payloads (log ++ new) = payloads log ++ payloads new :=
  List.filterMap_append

theorem accepted_append : accepted (log ++ new) = accepted log ++ accepted new :=
  List.filterMap_append

/-- What was taken was passed on. -/
theorem length_accepted_le (log : List Call) : (accepted log).length ≤ (payloads log).length := by
  induction log with
  | nil => exact Nat.le_refl 0
  | cons c log ih =>
    cases c with
    | publish topic payload qos retain rc mid =>
      by_cases hrc : rc = 0
      · simpa [accepted, payloads, hrc] using ih
      · simpa [accepted, payloads, hrc] using Nat.le_succ_of_le ih
    | acked | giveUp | disconnect => exact ih

theorem accepted_eq_nil (h : payloads log = []) : accepted log = [] := by
  have hle := length_accepted_le log
  rw [h] at hle
  exact List.eq_nil_of_length_eq_zero (Nat.le_zero.mp hle)

/-- All of it was taken if nothing was refused. -/
theorem accepted_of_not_refused (h : ∀ c ∈ log, ¬ Refused c) :
    (accepted log).map (·.1) = payloads log := by
  induction log with
  | nil => rfl
  | cons c log ih =>
    obtain ⟨hc, hlog⟩ := List.forall_mem_cons.mp h
    have hrest := ih hlog
    cases c with
    | publish topic payload qos retain rc mid =>
      have hrc : rc = 0 := Decidable.not_not.mp hc
      simpa [accepted, payloads, hrc] using hrest
    | acked | giveUp | disconnect => exact hrest

/-- And only then. -/
theorem not_refused_of_length (h : (accepted log).length = (payloads log).length) :
    ∀ c ∈ log, ¬ Refused c := by
  induction log with
  | nil => exact List.forall_mem_nil _
  | cons c log ih =>
    rw [List.forall_mem_cons]
    cases c with
    | publish topic payload qos retain rc mid =>
      by_cases hrc : rc = 0
      · exact ⟨fun h => h hrc, ih (by simpa [accepted, payloads, hrc] using h)⟩
      · have hle := length_accepted_le log
        simp only [accepted, payloads, List.filterMap_cons, hrc, if_false,
          List.length_cons] at h hle
        omega
    | acked | giveUp | disconnect => exact ⟨id, ih h⟩

/-- The number given last is then that of the last message. -/
theorem handedOut_of_not_refused (h : ∀ c ∈ log, ¬ Refused c)
    (hnum : ∀ m ∈ accepted log, 0 < m.2) :
    handedOut log = ((accepted log).getLast?.map (·.2)).getD 0 := by
  induction log using List.reverseRecOn with
  | nil => rfl
  | append_singleton log c ih =>
    have hlog := ih (fun c' hc => h c' (List.mem_append_left _ hc)) fun m hm => hnum m <| by
      rw [accepted_append]
      exact List.mem_append_left _ hm
    have hc := h c (List.mem_append_right _ List.mem_cons_self)
    cases c with
    | publish topic payload qos retain rc mid =>
      have hrc : rc = 0 := Decidable.not_not.mp hc
      have hone : accepted [.publish topic payload qos retain rc mid] = [(payload, mid)] := by
        simp [accepted, hrc]
      rw [accepted_append, hone] at hnum ⊢
      have hmid : mid ≠ 0 :=
        Nat.ne_of_gt (hnum (payload, mid) (List.mem_append_right _ List.mem_cons_self))
      rw [List.getLast?_concat]
      simp [handedOut, hmid]
    | acked | giveUp | disconnect =>
      rw [accepted_append, @accepted_eq_nil [_] rfl, List.append_nil, ← hlog]
      simp [handedOut]

theorem handedOut_eq_zero (h : payloads log = []) : handedOut log = 0 := by
  unfold handedOut
  generalize 0 = m
  induction log generalizing m with
  | nil => rfl
  | cons c log ih =>
    cases c with
    | publish => simp [payloads] at h
    | acked => exact ih h m
    | giveUp => exact ih h m
    | disconnect => exact ih h m

/-- Entries that publish nothing. -/
theorem handedOut_append (h : payloads new = []) : handedOut (log ++ new) = handedOut log := by
  induction new generalizing log with
  | nil => rw [List.append_nil]
  | cons c new ih =>
    rw [List.append_cons]
    cases c with
    | publish => simp [payloads] at h
    | acked => rw [ih h]; simp [handedOut]
    | giveUp => rw [ih h]; simp [handedOut]
    | disconnect => rw [ih h]; simp [handedOut]

end

section

variable {setup : PubSetup} {fresh : Nat → CArray UInt8 1024} {total : List (List UInt8)}
  {s s' : PubClient}

/-! ## The steps -/

theorem publish_ne_overrun (payload : List UInt8) (rc : Int) (mid : Nat) :
    publish setup s payload rc mid ≠ .overrun := by
  unfold publish
  dsimp only
  split
  · split
    · exact Outcome.blocked_ne_overrun
    · exact Outcome.next_ne_overrun _
  · exact Outcome.next_ne_overrun _

/-- What `mosquitto_publish` changes. -/
theorem publish_next {payload : List UInt8} {rc : Int} {mid : Nat}
    (h : publish setup s payload rc mid = .next s') :
    ∃ taken calls, s' = { s with
        midSent := if mid = 0 then s.midSent else mid, taken, log := s.log ++ calls } ∧
      payloads calls = [payload] ∧ Call.disconnect ∉ calls ∧
      handedOut (s.log ++ calls) = (if mid = 0 then handedOut s.log else mid) ∧
      (∀ m ∈ taken, m ∈ s.taken ∨ 0 < m) ∧ ∀ m ∈ accepted calls, 0 < m.2 := by
  let call := Call.publish setup.topic payload setup.qos setup.retain rc mid
  unfold publish at h
  dsimp only at h
  split at h
  · split at h
    · cases h
    · next hmid =>
      cases h
      refine ⟨s.taken ++ [mid], [call], by rw [if_neg hmid], rfl, by simp [call],
        by simp [handedOut, call], fun m hm => ?_, fun m hm => ?_⟩
      · obtain hm | hm := List.mem_append.mp hm
        · exact .inl hm
        · rw [List.mem_singleton.mp hm]
          exact .inr (Nat.pos_of_ne_zero hmid)
      · have hone : accepted [call] = [(payload, mid)] := by simp [accepted, call, *]
        rw [hone, List.mem_singleton] at hm
        rw [hm]
        exact Nat.pos_of_ne_zero hmid
  · next hrc =>
    cases h
    have hnone : accepted [call, .giveUp] = [] := by simp [accepted, call, hrc]
    refine ⟨s.taken, [call, .giveUp], rfl, rfl, by simp [call], by simp [handedOut, call],
      fun m hm => .inl hm, fun m hm => ?_⟩
    rw [hnone] at hm
    cases hm

/-- What the main loop reads: what stands behind the last newline, or a line. -/
theorem read_cases (fresh : Nat → CArray UInt8 1024) {buf : List UInt8} (hbig : 1024 ≤ buf.length)
    (i : Input) :
    (i.lines = [] ∧ ∃ buf', readLine fresh buf 0 (buf.length - 2) i.bytes = some ⟨none, buf', []⟩ ∧
        buf.length ≤ buf'.length) ∨
      ∃ l ls, i.lines = l :: ls ∧ ∃ buf', readLine fresh buf 0 (buf.length - 2) i.bytes =
        some ⟨some (kept buf.length l), buf', i.tail.bytes⟩ ∧ buf'.length = grown buf.length l := by
  cases hlines : i.lines with
  | nil =>
    obtain ⟨hnl, h0⟩ := i.plain i.last List.mem_cons_self
    rw [Input.bytes_of_nil hlines]
    exact .inl ⟨rfl, readLine_tail fresh List.take_zero rfl (by omega) (by omega)
      List.not_mem_nil h0 hnl⟩
  | cons l ls =>
    have hl : l ∈ i.last :: i.lines := by
      rw [hlines]
      exact List.mem_cons_of_mem _ List.mem_cons_self
    obtain ⟨hnl, h0⟩ := i.plain l hl
    rw [Input.bytes_of_lines hlines]
    exact .inr ⟨l, ls, rfl, readLine_line fresh hbig h0 hnl i.tail.bytes⟩

/-- A turn of `main` that reads. -/
theorem inv_read (hi : Inv total s) (hstatus : s.status = .connackRecvd) {rc : Int} {mid : Nat}
    (hmain : s.main = .top) (hmode : setup.mode = .stdinLine) :
    mainStep setup fresh rc mid s ≠ .overrun ∧
      ∀ s', mainStep setup fresh rc mid s = .next s' → Inv total s' := by
  obtain ⟨i, hstdin, htotal⟩ := hi.left
  unfold mainStep
  simp only [hmain, hmode, if_true, hstatus, hstdin]
  obtain ⟨hlines, buf', hread, hle⟩ | ⟨l, ls, hlines, buf', hread, hlen⟩ :=
    read_cases fresh hi.big i
  · rw [hread]
    refine ⟨Outcome.next_ne_overrun _, ?_⟩
    rintro _ ⟨⟩
    have hsame : payloads s.log ++ keptAll buf'.length Input.empty.lines = total := by
      rw [← htotal, hlines]
      rfl
    refine { hi with
      left := ⟨Input.empty, rfl, hsame⟩
      big := Nat.le_trans hi.big hle
      lastMid := ?_
      waiting := ?_
      atEnd := fun _ => rfl
      connecting := fun h => by cases h
      mainSent := fun h => by cases h }
    · exact hi.lastMid.imp_right fun h => ⟨rfl, h.2⟩
    · rintro (h | h)
      · cases h
      · cases h
  · rw [hread]
    refine ⟨publish_ne_overrun _ _ _, fun s' hs' => ?_⟩
    obtain ⟨taken, calls, rfl, hpay, hno, hout, htaken, hnumbered⟩ := publish_next hs'
    have hne : s.stdin ≠ [] := by
      rw [hstdin, Input.bytes_of_lines hlines]
      simp
    have hsame : payloads (s.log ++ calls) ++ keptAll buf'.length i.tail.lines = total := by
      rw [← htotal, i.lines_tail, hlines, payloads_append, hpay, hlen, keptAll, List.append_assoc,
        List.tail_cons, List.singleton_append]
    refine
      { left := ⟨i.tail, rfl, hsame⟩
        big := by rw [hlen]; exact le_grown hi.big l
        midSent := by rw [hout, hi.midSent]
        lastMidSent := ?_
        lastMid := .inl (hi.lastMid.resolve_right fun h => hne h.1)
        waiting := ?_
        atEnd := fun h => by cases h
        connecting := fun h => by cases h
        compare := fun m hm => ?_
        taken := fun m hm => (htaken m hm).elim (hi.taken m) id
        disconnects := before_append hi.disconnects hno
        numbered := fun m hm => by
          rw [accepted_append, List.mem_append] at hm
          exact hm.elim (hi.numbered m) (hnumbered m)
        sent := fun h => List.mem_append_left _ (hi.sent h)
        mainSent := fun h => by cases h
        netSent := fun h => List.mem_append_left _ (hi.netSent h) }
    · refine hi.lastMidSent.imp_right ?_
      rintro ⟨m, h, hpos, hacked⟩
      exact ⟨m, h, hpos, List.mem_append_left _ hacked⟩
    · rintro (h | h)
      · cases h
      · cases h
    · obtain ⟨hpos, hacked⟩ := hi.compare m hm
      exact ⟨hpos, List.mem_append_left _ hacked⟩

/-- The disconnect at the end, of either thread: all was published, and the last message was
acknowledged. -/
theorem tried_of_acked (hi : Inv total s) {m : Nat} (hpos : 0 < m) (hacked : Call.acked m ∈ s.log)
    (hlast : (m : Int) = s.lastMid) : Tried total s.log := by
  obtain hnone | ⟨hstdin, hmid⟩ := hi.lastMid
  · omega
  · obtain ⟨i, hbytes, htotal⟩ := hi.left
    have hlines := Input.lines_eq_nil (hbytes.symm.trans hstdin)
    have hm : handedOut s.log = m := by
      have := hi.midSent
      omega
    refine ⟨?_, by omega, by rw [hm]; exact hacked⟩
    rw [← htotal, hlines, keptAll, List.append_nil]

/-- An entry that publishes nothing. -/
theorem Inv.logged (hi : Inv total s) {new : List Call} (hpay : payloads new = [])
    (hnew : Before (Tried total) (s.log ++ new)) : Inv total { s with log := s.log ++ new } :=
  { hi with
    left := by
      obtain ⟨i, hbytes, htotal⟩ := hi.left
      exact ⟨i, hbytes, by rw [payloads_append, hpay, List.append_nil]; exact htotal⟩
    midSent := hi.midSent.trans (handedOut_append hpay).symm
    lastMidSent := hi.lastMidSent.imp_right fun ⟨m, h, hpos, hacked⟩ =>
      ⟨m, h, hpos, List.mem_append_left _ hacked⟩
    compare := fun m hm => (hi.compare m hm).imp_right (List.mem_append_left _)
    disconnects := hnew
    numbered := by
      rw [accepted_append, accepted_eq_nil hpay, List.append_nil]
      exact hi.numbered
    sent := fun h => List.mem_append_left _ (hi.sent h)
    mainSent := fun h => List.mem_append_left _ (hi.mainSent h)
    netSent := fun h => List.mem_append_left _ (hi.netSent h) }

theorem Inv.disconnected (hi : Inv total s) (htried : Tried total s.log) :
    Inv total { s with log := s.log ++ [.disconnect] } :=
  hi.logged rfl (before_disconnect hi.disconnects htried)

theorem inv_main (hmode : setup.mode = .stdinLine) (hi : Inv total s) {rc : Int} {mid : Nat} :
    mainStep setup fresh rc mid s ≠ .overrun ∧
      ∀ s', mainStep setup fresh rc mid s = .next s' → Inv total s' := by
  cases hmain : s.main with
  | top =>
    cases hstatus : s.status with
    | connackRecvd => exact inv_read hi hstatus hmain hmode
    | connecting =>
      simp only [mainStep, hmain, hmode, hstatus, if_true]
      refine ⟨Outcome.next_ne_overrun _, ?_⟩
      rintro _ ⟨⟩
      exact { hi with
        waiting := by rintro (h | h) <;> cases h
        atEnd := fun h => by cases h
        connecting := fun _ => hi.connecting hstatus
        mainSent := fun h => by cases h }
    | waiting =>
      have hend := hi.waiting (.inl hstatus)
      simp only [mainStep, hmain, hmode, hstatus, if_true]
      split
      · next heq =>
        refine ⟨Outcome.next_ne_overrun _, ?_⟩
        rintro _ ⟨⟩
        have htried : Tried total s.log := by
          obtain hnone | ⟨m, hm, hpos, hacked⟩ := hi.lastMidSent
          · omega
          · exact tried_of_acked hi hpos hacked (by omega)
        exact { hi.disconnected htried with
          waiting := fun _ => hend
          atEnd := fun h => by cases h
          connecting := fun h => by cases h
          mainSent := fun _ => List.mem_append_right _ List.mem_cons_self }
      · refine ⟨Outcome.next_ne_overrun _, ?_⟩
        rintro _ ⟨⟩
        exact { hi with
          waiting := fun _ => hend
          atEnd := fun h => by cases h
          connecting := fun h => by cases h
          mainSent := fun h => by cases h }
  | setLastMid =>
    have hend := hi.atEnd hmain
    simp only [mainStep, hmain]
    refine ⟨Outcome.next_ne_overrun _, ?_⟩
    rintro _ ⟨⟩
    exact { hi with
      lastMid := .inr ⟨hend, rfl⟩
      waiting := fun _ => ⟨hend, rfl⟩
      atEnd := fun _ => hend
      mainSent := fun h => by cases h }
  | setWaiting =>
    have hend := hi.waiting (.inr hmain)
    simp only [mainStep, hmain]
    refine ⟨Outcome.next_ne_overrun _, ?_⟩
    rintro _ ⟨⟩
    exact { hi with
      waiting := fun _ => hend
      atEnd := fun h => by cases h
      connecting := fun h => by cases h
      mainSent := fun h => by cases h }
  | setSent =>
    simp only [mainStep, hmain]
    refine ⟨Outcome.next_ne_overrun _, ?_⟩
    rintro _ ⟨⟩
    exact { hi with
      waiting := fun h => hi.waiting (h.imp_right fun h => by cases h)
      atEnd := fun h => by cases h
      sent := fun _ => hi.mainSent hmain
      mainSent := fun h => by cases h }
  | test =>
    simp only [mainStep, hmain]
    refine ⟨Outcome.next_ne_overrun _, ?_⟩
    rintro _ ⟨⟩
    exact { hi with
      waiting := fun h => hi.waiting (h.imp_right fun h => by split at h <;> cases h)
      atEnd := fun h => by dsimp only at h; split at h <;> cases h
      mainSent := fun h => by dsimp only at h; split at h <;> cases h }
  | ended =>
    simp only [mainStep, hmain]
    exact ⟨Outcome.blocked_ne_overrun, fun s' h => by cases h⟩

theorem inv_net (hmode : setup.mode = .stdinLine) (hi : Inv total s) (e : NetEvent) :
    netStep setup e s ≠ .overrun ∧ ∀ s', netStep setup e s = .next s' → Inv total s' := by
  have hblocked : Outcome.blocked (σ := PubClient) ≠ .overrun ∧
      ∀ s', Outcome.blocked = .next s' → Inv total s' :=
    ⟨Outcome.blocked_ne_overrun, fun s' h => by cases h⟩
  cases hnet : s.net with
  | idle =>
    cases e with
    | connect result rc mid =>
      simp only [netStep, hnet, hmode]
      split
      · refine ⟨Outcome.next_ne_overrun _, ?_⟩
        rintro _ ⟨⟩
        exact { hi with
          waiting := fun h => hi.waiting (h.imp_left fun h => by cases h)
          connecting := fun h => by cases h
          compare := fun m hm => by cases hm
          netSent := fun h => by cases h }
      · refine ⟨Outcome.next_ne_overrun _, ?_⟩
        rintro _ ⟨⟩
        exact hi
    | disconnected =>
      simp only [netStep, hnet]
      refine ⟨Outcome.next_ne_overrun _, ?_⟩
      rintro _ ⟨⟩
      exact { hi with
        compare := fun m hm => by cases hm
        netSent := fun h => by cases h }
    | published mid =>
      simp only [netStep, hnet]
      split
      · next hmem =>
        refine ⟨Outcome.next_ne_overrun _, ?_⟩
        rintro _ ⟨⟩
        have hpos := hi.taken mid hmem
        have hacked : Call.acked mid ∈ s.log ++ [.acked mid] :=
          List.mem_append_right _ List.mem_cons_self
        exact { hi.logged rfl (before_append hi.disconnects (by simp)) with
          lastMidSent := .inr ⟨mid, rfl, hpos, hacked⟩
          compare := fun m hm => by cases hm; exact ⟨hpos, hacked⟩
          netSent := fun h => by cases h
          taken := fun m hm => hi.taken m (List.mem_of_mem_erase hm) }
      · exact hblocked
    | «continue» => simp only [netStep, hnet]; exact hblocked
  | compare mid =>
    cases e with
    | «continue» =>
      obtain ⟨hpos, hacked⟩ := hi.compare mid hnet
      simp only [netStep, hnet, hmode, if_true]
      split
      · next hlast =>
        refine ⟨Outcome.next_ne_overrun _, ?_⟩
        rintro _ ⟨⟩
        exact { hi.disconnected (tried_of_acked hi hpos hacked hlast) with
          compare := fun m hm => by cases hm
          netSent := fun _ => List.mem_append_right _ List.mem_cons_self }
      · refine ⟨Outcome.next_ne_overrun _, ?_⟩
        rintro _ ⟨⟩
        exact { hi with
          compare := fun m hm => by cases hm
          netSent := fun h => by cases h }
    | connect => simp only [netStep, hnet]; exact hblocked
    | disconnected => simp only [netStep, hnet]; exact hblocked
    | published => simp only [netStep, hnet]; exact hblocked
  | setSent =>
    cases e with
    | «continue» =>
      simp only [netStep, hnet]
      refine ⟨Outcome.next_ne_overrun _, ?_⟩
      rintro _ ⟨⟩
      exact { hi with
        compare := fun m hm => by cases hm
        sent := fun _ => hi.netSent hnet
        netSent := fun h => by cases h }
    | connect => simp only [netStep, hnet]; exact hblocked
    | disconnected => simp only [netStep, hnet]; exact hblocked
    | published => simp only [netStep, hnet]; exact hblocked

/-! ## Whole runs -/

theorem inv_publisher (hmode : setup.mode = .stdinLine) :
    (publisher setup fresh).Inductive (Inv total) := by
  intro t s hi
  cases t with
  | main rc mid => exact inv_main hmode hi
  | net e => exact inv_net hmode hi e

theorem inv_start (buf : CArray UInt8 1024) (i : Input) :
    Inv (keptAll 1024 i.lines) (start buf i.bytes) where
  left := ⟨i, rfl, by rw [start, Vector.length_toList]; rfl⟩
  big := Nat.le_of_eq (Vector.length_toList).symm
  midSent := rfl
  lastMidSent := .inl rfl
  lastMid := .inl rfl
  waiting h := by rcases h with h | h <;> cases h
  atEnd h := by cases h
  connecting _ := rfl
  compare m h := by cases h
  taken m h := by cases h
  disconnects k h := by cases h
  numbered m h := by cases h
  sent h := by cases h
  mainSent h := by cases h
  netSent h := by cases h

/-- No run leaves the buffer, and `Inv` holds at its end. -/
theorem inv_run (fresh : Nat → CArray UInt8 1024) (hmode : setup.mode = .stdinLine)
    (buf : CArray UInt8 1024) (i : Input) (ts : List Label) :
    ∃ s, (publisher setup fresh).run (start buf i.bytes) ts = some s ∧
      Inv (keptAll 1024 i.lines) s :=
  (inv_publisher hmode).run (inv_start buf i) ts

/-- **A disconnect comes last.** Whenever the publisher of lines disconnects because all is done, it
has passed a message for every line to `mosquitto_publish`, in order, and the last message has been
acknowledged. -/
theorem disconnect_complete (hmode : setup.mode = .stdinLine) {buf : CArray UInt8 1024} {i : Input}
    {ts : List Label} (hrun : (publisher setup fresh).run (start buf i.bytes) ts = some s) {k : Nat}
    (hk : s.log[k]? = some .disconnect) : Tried (keptAll 1024 i.lines) (s.log.take k) := by
  obtain ⟨s', hrun', hi⟩ := inv_run fresh hmode buf i ts
  cases hrun.symm.trans hrun'
  exact hi.disconnects k hk

/-! ## Runs that end -/

/-- In front of a turn that reads. -/
structure Reading (s : PubClient) : Prop where
  status : s.status = .connackRecvd
  main : s.main = .top
  net : s.net = .idle
  connected : s.connected

/-- Everything can be read; the messages get one number after the other. -/
theorem reaches_eof (fresh : Nat → CArray UInt8 1024) (hmode : setup.mode = .stdinLine)
    {s : PubClient} (h : Reading s)
    (hbig : 1024 ≤ s.buf.length) (i : Input) (hstdin : s.stdin = i.bytes)
    (hout : i.lines ≠ [] ∨ s.midSent ∈ s.taken) :
    ∃ s', (publisher setup fresh).Reaches s s' ∧ s'.main = .setLastMid ∧ s'.net = .idle ∧
      s'.connected ∧ s'.midSent ∈ s'.taken := by
  induction hlines : i.lines generalizing s i with
  | nil =>
    have htaken := hout.resolve_left (absurd hlines)
    obtain ⟨-, buf', hread, -⟩ | ⟨l, ls, hcons, -⟩ := read_cases fresh hbig i
    · have hstep : (publisher setup fresh).step (.main 0 0) s =
          .next { s with buf := buf', stdin := [], main := .setLastMid } := by
        simp only [publisher, mainStep, h.main, hmode, h.status, hstdin, hread, if_true]
      exact ⟨_, .step hstep (.refl _), rfl, h.net, h.connected, htaken⟩
    · rw [hlines] at hcons
      cases hcons
  | cons l ls ih =>
    obtain ⟨hnil, -⟩ | ⟨l', ls', hcons, buf', hread, hlen⟩ := read_cases fresh hbig i
    · rw [hlines] at hnil
      cases hnil
    · let payload := kept s.buf.length l'
      let mid := s.midSent + 1
      let s₁ : PubClient := { s with
        status := .connackRecvd
        buf := buf', stdin := i.tail.bytes, main := .test, midSent := mid, taken := s.taken ++ [mid]
        log := s.log ++ [.publish setup.topic payload setup.qos setup.retain 0 mid] }
      have hstep : (publisher setup fresh).step (.main 0 mid) s = .next s₁ := by
        simp only [publisher, mainStep, h.main, hmode, h.status, hstdin, hread, if_true]
        rfl
      have hturn :
          (publisher setup fresh).step (.main 0 0) s₁ = .next { s₁ with main := .top } := by
        simp only [publisher, mainStep, s₁, h.connected, if_true]
      have hbig' : 1024 ≤ buf'.length := by
        rw [hlen]
        exact le_grown hbig l'
      obtain ⟨s', hreach, hs'⟩ := ih (s := { s₁ with main := .top })
        ⟨rfl, rfl, h.net, h.connected⟩ hbig' i.tail rfl
        (.inr (List.mem_append_right _ List.mem_cons_self))
        (by rw [i.lines_tail, hlines]; rfl)
      exact ⟨s', .step hstep (.step hturn hreach), hs'⟩

/-- With a line to publish, some run disconnects. -/
theorem exists_disconnect {setup : PubSetup} (hmode : setup.mode = .stdinLine)
    (fresh : Nat → CArray UInt8 1024) (buf : CArray UInt8 1024) {i : Input} (hi : i.lines ≠ []) :
    ∃ s, (publisher setup fresh).Reaches (start buf i.bytes) s ∧ Call.disconnect ∈ s.log := by
  let s₀ : PubClient := { start buf i.bytes with status := .connackRecvd }
  have hconnect : (publisher setup fresh).step (.net (.connect 0 0 0)) (start buf i.bytes) =
      .next s₀ := by
    simp only [publisher, netStep, start, hmode, if_true, s₀]
  have hbig : 1024 ≤ s₀.buf.length := by
    simp only [s₀, start, Vector.length_toList]
    exact Nat.le_refl _
  obtain ⟨s₁, hreach, hmain, hnet, hconn, htaken⟩ := reaches_eof fresh hmode
    (s := s₀) ⟨rfl, rfl, rfl, rfl⟩ hbig i rfl (.inl hi)
  let s₂ : PubClient := { s₁ with lastMid := s₁.midSent, main := .setWaiting }
  have hlast : (publisher setup fresh).step (.main 0 0) s₁ = .next s₂ := by
    simp only [publisher, mainStep, hmain, s₂]
  let s₃ : PubClient := { s₂ with
    lastMidSent := s₁.midSent, taken := s₂.taken.erase s₁.midSent
    log := s₂.log ++ [.acked s₁.midSent], net := .compare s₁.midSent }
  have hacked : (publisher setup fresh).step (.net (.published s₁.midSent)) s₂ = .next s₃ := by
    simp only [publisher, netStep, s₂, hnet, htaken, if_true, s₃]
  let s₄ : PubClient := { s₃ with net := .setSent, log := s₃.log ++ [.disconnect] }
  have hcompare : (publisher setup fresh).step (.net .continue) s₃ = .next s₄ := by
    simp only [publisher, netStep, s₃, s₂, hmode, if_true, s₄]
  exact ⟨s₄, .step hconnect (hreach.trans (.step hlast (.step hacked (.step hcompare (.refl _))))),
    List.mem_append_right _ List.mem_cons_self⟩

/-- With `-l -t t`. -/
def lineSetup : PubSetup := ⟨.stdinLine, "t", [], 0, false⟩

/-- Memory that holds zeros. -/
def zeros : CArray UInt8 1024 := Vector.replicate 1024 0

/-- **Input without a newline.** The publisher of lines disconnects in some run exactly if its input
has a line that ends; else no answer of the broker makes it stop. -/
theorem disconnects_iff (fresh : Nat → CArray UInt8 1024) (hmode : setup.mode = .stdinLine)
    (buf : CArray UInt8 1024) (i : Input) :
    (∃ s, (publisher setup fresh).Reaches (start buf i.bytes) s ∧ Call.disconnect ∈ s.log) ↔
      i.lines ≠ [] := by
  refine ⟨?_, exists_disconnect hmode fresh buf⟩
  rintro ⟨s, ⟨ts, hrun⟩, hmem⟩ hnil
  obtain ⟨k, hk⟩ := List.mem_iff_getElem?.mp hmem
  have hdone := disconnect_complete hmode hrun hk
  rw [hnil] at hdone
  have hzero := handedOut_eq_zero hdone.payloads
  have hpos := hdone.positive
  omega

theorem disconnects_iff_two : ∃ s, (publisher lineSetup fun _ => zeros).Reaches
    (start zeros Input.two.bytes) s ∧ Call.disconnect ∈ s.log :=
  (disconnects_iff _ rfl zeros Input.two).mpr (by decide)

/-- What was tried was done exactly if nothing was refused and the lines were passed on as they
are. -/
theorem Tried.done_iff {log : List Call} (h : Tried (keptAll 1024 total) log)
    (hnum : ∀ m ∈ accepted log, 0 < m.2) :
    Done total log ↔ (∀ c ∈ log, ¬ Refused c) ∧ keptAll 1024 total = total := by
  constructor
  · intro hdone
    have hnone : ∀ c ∈ log, ¬ Refused c := not_refused_of_length <| by
      rw [h.payloads, length_keptAll, ← hdone.payloads, List.length_map]
    refine ⟨hnone, ?_⟩
    rw [← h.payloads, ← accepted_of_not_refused hnone, hdone.payloads]
  · rintro ⟨hnone, hkept⟩
    refine ⟨(accepted_of_not_refused hnone).trans (h.payloads.trans hkept), ?_⟩
    have hout := handedOut_of_not_refused hnone hnum
    have hpos := h.positive
    have hacked := h.acked
    cases hlast : (accepted log).getLast? with
    | none =>
      rw [hout, hlast] at hpos
      cases hpos
    | some m =>
      rw [hout, hlast] at hacked
      exact ⟨m, rfl, hacked⟩

/-- **What has arrived at the disconnect.** All lines were taken as they are, in order, and the last
one acknowledged, exactly if no publish failed and every line behind the first one of 1023 bytes or
more fits the buffer that one left. -/
theorem delivered_iff (hmode : setup.mode = .stdinLine) {buf : CArray UInt8 1024} {i : Input}
    {ts : List Label} (hrun : (publisher setup fresh).run (start buf i.bytes) ts = some s) {k : Nat}
    (hk : s.log[k]? = some .disconnect) :
    Done i.lines (s.log.take k) ↔ (∀ c ∈ s.log.take k, ¬ Refused c) ∧
      ∀ pre long post, i.lines = pre ++ long :: post →
        (∀ l ∈ pre, l.length < 1023) → 1023 ≤ long.length →
          ∀ l ∈ post, l.length + 2 ≤ 1024 * (long.length / 1023 + 1) := by
  obtain ⟨s', hrun', hi⟩ := inv_run fresh hmode buf i ts
  cases hrun.symm.trans hrun'
  have hnum : ∀ m ∈ accepted (s.log.take k), 0 < m.2 := fun m hm =>
    hi.numbered m (((List.take_sublist k s.log).filterMap _).subset hm)
  rw [(hi.disconnects k hk).done_iff hnum, keptAll_eq_self_iff]

/-- How the two lines are read. -/
theorem two_reads : ∃ buf₁ buf₂, buf₁.length = 1024 ∧
    readLine (fun _ => zeros) zeros.toList 0 1022 Input.two.bytes =
      some ⟨some [97], buf₁, Input.two.tail.bytes⟩ ∧
    readLine (fun _ => zeros) buf₁ 0 1022 Input.two.tail.bytes = some ⟨some [98], buf₂, []⟩ := by
  have hlen : zeros.toList.length = 1024 := Vector.length_toList
  obtain ⟨hnil, -⟩ | ⟨l₁, ls₁, hlines₁, buf₁, hread₁, hlen₁⟩ :=
    read_cases (fun _ => zeros) (Nat.le_of_eq hlen.symm) Input.two
  · cases hnil
  cases hlines₁
  rw [hlen] at hread₁ hlen₁
  have hbuf₁ : buf₁.length = 1024 := hlen₁
  obtain ⟨hnil, -⟩ | ⟨l₂, ls₂, hlines₂, buf₂, hread₂, -⟩ :=
    read_cases (fun _ => zeros) (Nat.le_of_eq hbuf₁.symm) Input.two.tail
  · cases hnil
  cases hlines₂
  rw [hbuf₁] at hread₂
  exact ⟨buf₁, buf₂, hbuf₁, hread₁, hread₂⟩

/-- Both lines are published, with the numbers 1 and 2. -/
def publishTwo : List Label := [.net (.connect 0 0 0), .main 0 1, .main 0 0, .main 0 2]

/-- `my_publish_callback` for these messages. -/
def ack (ms : List Nat) : List Label := ms.flatMap fun m => [.net (.published m), .net .continue]

theorem delivered_iff_two : ∃ s, (publisher lineSetup fun _ => zeros).Reaches
      (start zeros Input.two.bytes) s ∧
    s.log[4]? = some .disconnect ∧ Done [[97], [98]] (s.log.take 4) := by
  obtain ⟨buf₁, buf₂, hbuf₁, hread₁, hread₂⟩ := two_reads
  let ts := publishTwo ++ [.main 0 0, .main 0 0, .main 0 0] ++ ack [1, 2]
  let s : PubClient := { start zeros [] with
    status := .connackRecvd, midSent := 2, lastMid := (2 : Nat), lastMidSent := (2 : Nat)
    main := .setWaiting, net := .setSent, buf := buf₂
    log := [.publish "t" [97] 0 false 0 1, .publish "t" [98] 0 false 0 2, .acked 1, .acked 2,
      .disconnect] }
  have hrun : (publisher lineSetup fun _ => zeros).run (start zeros Input.two.bytes) ts =
      some s := by
    simp [ts, s, publishTwo, ack, Sched.run_cons, publisher, netStep, mainStep, start, lineSetup,
      hread₁, hbuf₁, hread₂, readLine_nil, publish]
  refine ⟨s, ⟨ts, hrun⟩, rfl, (delivered_iff (k := 4) rfl hrun rfl).mpr ⟨?_, ?_⟩⟩
  · simp [s, Refused]
  · intro pre long post heq hpre hlong l hl
    have hmem : long ∈ Input.two.lines := by
      rw [heq]
      exact List.mem_append_right _ List.mem_cons_self
    have hshort : ∀ l ∈ Input.two.lines, l.length < 1023 := by decide
    exact absurd hlong (Nat.not_le.mpr (hshort long hmem))

/-! ## Runs that hang -/

/-- All is read and acknowledged, and no thread has disconnected. -/
structure Settled (s : PubClient) : Prop where
  stdin : s.stdin = []
  taken : s.taken = []
  net : s.net = .idle
  log : Call.disconnect ∉ s.log

/-- Where the last acknowledgement was not for the last message, nothing happens any more. -/
theorem settled_step (hmode : setup.mode = .stdinLine) (hi : Inv total s) (hs : Settled s)
    (hne : s.lastMidSent ≠ s.midSent) {t : Label}
    (h : (publisher setup fresh).step t s = .next s') :
    Settled s' ∧ s'.lastMidSent ≠ s'.midSent := by
  obtain ⟨hstdin, htaken, hnet, hlog⟩ := hs
  cases t with
  | main rc mid =>
    simp only [publisher] at h
    unfold mainStep at h
    split at h
    · simp only [hmode, if_true] at h
      split at h
      · rw [hstdin, readLine_nil] at h
        cases h
        exact ⟨⟨rfl, htaken, hnet, hlog⟩, hne⟩
      · next hstatus =>
        obtain ⟨-, hlast⟩ := hi.waiting (.inl hstatus)
        rw [hlast] at h
        simp only [hne, false_and, if_false] at h
        cases h
        exact ⟨⟨hstdin, htaken, hnet, hlog⟩, hne⟩
      · cases h
        exact ⟨⟨hstdin, htaken, hnet, hlog⟩, hne⟩
    all_goals
      cases h
      try exact ⟨⟨hstdin, htaken, hnet, hlog⟩, hne⟩
  | net e =>
    simp only [publisher, netStep, hnet] at h
    cases e with
    | connect result rc mid =>
      simp only [hmode] at h
      split at h
      · cases h
        exact ⟨⟨hstdin, htaken, rfl, hlog⟩, hne⟩
      · cases h
        exact ⟨⟨hstdin, htaken, hnet, hlog⟩, hne⟩
    | disconnected =>
      cases h
      exact ⟨⟨hstdin, htaken, rfl, hlog⟩, hne⟩
    | published mid =>
      simp only [htaken, List.not_mem_nil, if_false] at h
      cases h
    | «continue» => cases h

/-- `main` on its own. It publishes nothing any more, so what libmosquitto answers does not
matter. -/
def alone (setup : PubSetup) (fresh : Nat → CArray UInt8 1024) : Sched PubClient Unit where
  step _ s := mainStep setup fresh 0 0 s

/-- All is read, and the last acknowledgement was for the last message. -/
structure Ending (s : PubClient) : Prop where
  stdin : s.stdin = []
  connected : s.connected
  acked : s.lastMidSent = s.midSent
  notSent : s.disconnectSent = false
  status : s.status ≠ .connecting
  waiting : s.status = .waiting ∨ s.main = .setWaiting → s.lastMid = s.midSent

/-- `main` gets back to the top of its loop. -/
theorem reaches_top (setup : PubSetup) (fresh : Nat → CArray UInt8 1024) (h : Ending s)
    (hsent : s.main ≠ .setSent) (hended : s.main ≠ .ended) :
    ∃ s', (alone setup fresh).Reaches s s' ∧ Ending s' ∧ s'.main = .top := by
  have htest : ∀ s₁ : PubClient, Ending s₁ → s₁.main = .test →
      ∃ s', (alone setup fresh).Reaches s₁ s' ∧ Ending s' ∧ s'.main = .top := by
    intro s₁ h₁ hmain
    have hstep : (alone setup fresh).step () s₁ = .next { s₁ with main := .top } := by
      simp only [alone, mainStep, hmain, h₁.connected, if_true]
    refine ⟨_, .step hstep (.refl _), { h₁ with waiting := fun hw => ?_ }, rfl⟩
    exact h₁.waiting (hw.imp_right fun hm => by cases hm)
  have hwaiting : ∀ s₁ : PubClient, Ending s₁ → s₁.main = .setWaiting →
      ∃ s', (alone setup fresh).Reaches s₁ s' ∧ Ending s' ∧ s'.main = .top := by
    intro s₁ h₁ hmain
    have hlast := h₁.waiting (.inr hmain)
    obtain ⟨s', hreach, hs'⟩ := htest { s₁ with status := .waiting, main := .test }
      { h₁ with
        status := fun hc => by cases hc
        waiting := fun _ => hlast } rfl
    exact ⟨s', .step (t := ()) (by simp only [alone, mainStep, hmain]) hreach, hs'⟩
  cases hmain : s.main with
  | top => exact ⟨s, .refl _, h, hmain⟩
  | test => exact htest s h hmain
  | setWaiting => exact hwaiting s h hmain
  | setLastMid =>
    obtain ⟨s', hreach, hs'⟩ := hwaiting { s with lastMid := s.midSent, main := .setWaiting }
      { h with waiting := fun _ => rfl } rfl
    exact ⟨s', .step (t := ()) (by simp only [alone, mainStep, hmain]) hreach, hs'⟩
  | setSent => exact absurd hmain hsent
  | ended => exact absurd hmain hended

/-- In the waiting branch it disconnects. -/
theorem waiting_disconnects (fresh : Nat → CArray UInt8 1024) (hmode : setup.mode = .stdinLine)
    {s : PubClient} (h : Ending s) (hmain : s.main = .top) (hstatus : s.status = .waiting) :
    ∃ s', (alone setup fresh).Reaches s s' ∧ Call.disconnect ∈ s'.log := by
  have hlast := h.waiting (.inl hstatus)
  have hstep : (alone setup fresh).step () s =
      .next { s with main := .setSent, log := s.log ++ [.disconnect] } := by
    simp only [alone, mainStep, hmain, hmode, hstatus, hlast, h.acked, h.notSent, if_true, and_true]
  exact ⟨_, .step hstep (.refl _), List.mem_append_right _ List.mem_cons_self⟩

/-- From the top of the loop, `main` reads the end of the input and disconnects. -/
theorem ending_disconnects (fresh : Nat → CArray UInt8 1024) (hmode : setup.mode = .stdinLine)
    {s : PubClient} (h : Ending s) (hmain : s.main = .top) :
    ∃ s', (alone setup fresh).Reaches s s' ∧ Call.disconnect ∈ s'.log := by
  cases hstatus : s.status with
  | connecting => exact absurd hstatus h.status
  | waiting => exact waiting_disconnects fresh hmode h hmain hstatus
  | connackRecvd =>
    let s₁ : PubClient := { s with
      stdin := [], lastMid := s.midSent, status := .waiting, main := .top }
    have hread : (alone setup fresh).step () s =
        .next { s with stdin := [], main := .setLastMid } := by
      simp only [alone, mainStep, hmain, hmode, hstatus, h.stdin, readLine_nil, if_true]
    have htest : (alone setup fresh).step () { s₁ with main := .test } = .next s₁ := by
      simp only [alone, mainStep, s₁, h.connected, if_true]
    obtain ⟨s', hreach, hmem⟩ := waiting_disconnects (s := s₁) fresh hmode
      { h with
        stdin := rfl
        status := fun hc => by cases hc
        waiting := fun _ => rfl } rfl rfl
    exact ⟨s', .step hread (.step (t := ()) rfl (.step (t := ()) rfl (.step htest hreach))), hmem⟩

/-- When all is read and acknowledged, `main` goes on to disconnect if the last acknowledgement was
for the last message. -/
theorem ends_of_acked (fresh : Nat → CArray UInt8 1024) (hmode : setup.mode = .stdinLine)
    (hi : Inv total s) (hs : Settled s) (hconn : s.connected) (hended : s.main ≠ .ended)
    (hacked : s.lastMidSent = s.midSent) :
    ∃ s', (alone setup fresh).Reaches s s' ∧ Call.disconnect ∈ s'.log := by
  have hnot : s.disconnectSent = false := by
    cases h : s.disconnectSent with
    | false => rfl
    | true => exact absurd (hi.sent h) hs.log
  have hstatus : s.status ≠ .connecting := by
    intro h
    have hzero := hi.connecting h
    obtain hnone | ⟨m, hm, hpos, -⟩ := hi.lastMidSent <;> omega
  have hsent : s.main ≠ .setSent := fun h => hs.log (hi.mainSent h)
  obtain ⟨s₁, hreach, h₁, hmain⟩ := reaches_top setup fresh
    ⟨hs.stdin, hconn, hacked, hnot, hstatus, fun h => (hi.waiting h).2⟩ hsent hended
  obtain ⟨s₂, hreach₂, hmem⟩ := ending_disconnects fresh hmode h₁ hmain
  exact ⟨s₂, hreach.trans hreach₂, hmem⟩

/-- No publish fails, and messages are acknowledged in the order in which they were taken. -/
def InOrder : Label → PubClient → Prop
  | .main rc _, _ => rc = 0
  | .net (.published mid), s => s.taken.head? = some mid
  | .net _, _ => True

/-- What is known of the last message then. -/
inductive LastOut (s : PubClient) : Prop where
  | none (log : payloads s.log = []) (taken : s.taken = [])
  | taken (last : s.taken.getLast? = some s.midSent)
  | acked (taken : s.taken = []) (acked : s.lastMidSent = s.midSent)

theorem lastOut_congr (h : LastOut s) (hpay : payloads s'.log = payloads s.log)
    (hmid : s'.midSent = s.midSent) (htaken : s'.taken = s.taken)
    (hlast : s'.lastMidSent = s.lastMidSent) : LastOut s' := by
  cases h with
  | none hp ht => exact .none (hpay.trans hp) (htaken.trans ht)
  | taken hl => exact .taken (by rw [htaken, hmid]; exact hl)
  | acked ht ha => exact .acked (htaken.trans ht) (by rw [hlast, hmid]; exact ha)

theorem payloads_disconnect (log : List Call) : payloads (log ++ [.disconnect]) = payloads log :=
  payloads_append.trans (List.append_nil _)

theorem lastOut_step (hmode : setup.mode = .stdinLine) (h : LastOut s) {t : Label}
    (hord : InOrder t s) (hst : (publisher setup fresh).step t s = .next s') : LastOut s' := by
  cases t with
  | main rc mid =>
    have hrc : rc = 0 := hord
    simp only [publisher] at hst
    unfold mainStep at hst
    split at hst
    · simp only [hmode, if_true] at hst
      split at hst
      · split at hst
        · cases hst
        · cases hst
          exact lastOut_congr h rfl rfl rfl rfl
        · simp only [publish, hrc, if_true] at hst
          split at hst
          · cases hst
          · cases hst
            exact .taken List.getLast?_concat
      · split at hst
        · cases hst
          exact lastOut_congr h (payloads_disconnect _) rfl rfl rfl
        · cases hst
          exact lastOut_congr h rfl rfl rfl rfl
      · cases hst
        exact lastOut_congr h rfl rfl rfl rfl
    all_goals
      cases hst
      try exact lastOut_congr h rfl rfl rfl rfl
  | net e =>
    simp only [publisher] at hst
    unfold netStep at hst
    split at hst
    · simp only [hmode] at hst
      split at hst
      all_goals
        cases hst
        exact lastOut_congr h rfl rfl rfl rfl
    · cases hst
      exact lastOut_congr h rfl rfl rfl rfl
    · next mid _ =>
      have hhead : s.taken.head? = some mid := hord
      obtain ⟨rest, htaken⟩ := List.head?_eq_some_iff.mp hhead
      simp only [htaken, List.mem_cons_self, if_true, List.erase_cons_head] at hst
      cases hst
      obtain ⟨-, hnil⟩ | hlast | ⟨hnil, -⟩ := h
      · rw [htaken] at hnil
        cases hnil
      · rw [htaken] at hlast
        cases rest with
        | nil => exact .acked rfl (congrArg Nat.cast (Option.some.inj hlast))
        | cons m rest => exact .taken (by rw [← hlast, List.getLast?_cons_cons])
      · rw [htaken] at hnil
        cases hnil
    · simp only [hmode, if_true] at hst
      split at hst
      · cases hst
        exact lastOut_congr h (payloads_disconnect _) rfl rfl rfl
      · cases hst
        exact lastOut_congr h rfl rfl rfl rfl
    · cases hst
      exact lastOut_congr h rfl rfl rfl rfl
    · cases hst

/-- **Orderly runs end.** If no publish fails and messages are acknowledged in their order, the
publisher of at least one line does not hang: when all is read and acknowledged, `main` goes on to
disconnect. -/
theorem inOrder_ends (hmode : setup.mode = .stdinLine) {buf : CArray UInt8 1024} {i : Input}
    (hlines : i.lines ≠ []) {ts : List Label}
    (hrun : (publisher setup fresh).run (start buf i.bytes) ts = some s)
    (hord : (publisher setup fresh).Meets InOrder (start buf i.bytes) ts) (hs : Settled s)
    (hconn : s.connected) (hended : s.main ≠ .ended) :
    ∃ s', (alone setup fresh).Reaches s s' ∧ Call.disconnect ∈ s'.log := by
  obtain ⟨s₀, hrun₀, hi⟩ := inv_run fresh hmode buf i ts
  cases hrun.symm.trans hrun₀
  have hlast : LastOut s :=
    hord.run_induct (fun t s₁ s₂ h hc hst => lastOut_step hmode h hc hst) (.none rfl rfl) hrun
  refine ends_of_acked fresh hmode hi hs hconn hended ?_
  cases hlast with
  | none hpay _ =>
    obtain ⟨j, hbytes, htotal⟩ := hi.left
    rw [hpay, Input.lines_eq_nil (hbytes.symm.trans hs.stdin)] at htotal
    cases hl : i.lines with
    | nil => exact absurd hl hlines
    | cons l ls =>
      rw [hl, keptAll] at htotal
      cases htotal
  | taken h =>
    rw [hs.taken] at h
    cases h
  | acked _ h => exact h

theorem inOrder_ends_two : ∃ s s', (publisher lineSetup fun _ => zeros).Reaches
      (start zeros Input.two.bytes) s ∧
    Call.acked 1 ∈ s.log ∧ Call.acked 2 ∈ s.log ∧ Call.disconnect ∉ s.log ∧
    (alone lineSetup fun _ => zeros).Reaches s s' ∧ Call.disconnect ∈ s'.log := by
  obtain ⟨buf₁, buf₂, hbuf₁, hread₁, hread₂⟩ := two_reads
  let ts := publishTwo ++ ack [1, 2]
  let s : PubClient := { start zeros [] with
    status := .connackRecvd, midSent := 2, lastMidSent := (2 : Nat), main := .test, buf := buf₂
    log := [.publish "t" [97] 0 false 0 1, .publish "t" [98] 0 false 0 2, .acked 1, .acked 2] }
  have hrun : (publisher lineSetup fun _ => zeros).run (start zeros Input.two.bytes) ts =
      some s := by
    simp [ts, s, publishTwo, ack, Sched.run_cons, publisher, netStep, mainStep, start, lineSetup,
      hread₁, hbuf₁, hread₂, publish]
  have hord : (publisher lineSetup fun _ => zeros).Meets InOrder (start zeros Input.two.bytes)
      ts := by
    simp [ts, publishTwo, ack, Sched.Meets, publisher, netStep, mainStep, start, lineSetup, hread₁,
      hbuf₁, hread₂, publish, InOrder]
  obtain ⟨s', hreach, hmem⟩ := inOrder_ends rfl (i := Input.two) (by decide) hrun hord
    ⟨rfl, rfl, rfl, by simp [s]⟩ rfl (by simp [s])
  exact ⟨s, s', ⟨ts, hrun⟩, by simp [s], by simp [s], by simp [s], hreach, hmem⟩

end

end PubClient

end Ble.Mosquitto
