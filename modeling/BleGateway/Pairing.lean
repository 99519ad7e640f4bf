import BleGateway.Lib.Sched
import BleGateway.Forward

/-!
# Commands and their answers

The forwarder and a controller that answers every notification and every write command with one
command-status event, in order. `UartCmdRxThread` posts the events to the answer queue. Messages,
connection tables and status bytes are arbitrary, and so is the order of all steps.

Every command has a serial number, which its answer carries along. The log says which answer a retry
iteration examined.

* `Balanced`: the answers not yet read. A retry loop reads one for each command it writes; the peer
  branch writes two commands and reads nothing.
* `Offset`: so an iteration examines the answer to the command `2 · p` before its own, with `p` the
  number of peer messages received so far.
* `paired_iff`: every iteration examines its own answer exactly if none comes after a peer message
  with direction 1.
-/

namespace Ble

/-- What the log of a run holds. -/
inductive Event where
  /-- A message of a peer with direction 1 was received. -/
  | peerMessage
  /-- A retry iteration wrote `command` and examined the answer to `answer`. -/
  | examined (command answer : Nat)
  deriving DecidableEq, Repr

/-- The forwarder, the commands on their way to the controller and the answer queue. -/
structure Link where
  fwd : Forward
  /-- The number of commands written: the serial number of the next one. -/
  sent : Nat
  inFlight : List (Nat × Fill UInt8)
  answers : List (Nat × Message)
  log : List Event
  deriving DecidableEq

/-- The steps, with what the environment chooses for them. -/
inductive LinkStep where
  /-- The forwarder goes on; it finds the table `w`. -/
  | forwarder (w : Connections)
  /-- The forwarder receives the message `m`. -/
  | message (m : Message)
  /-- The controller answers its oldest command with `status`. -/
  | controller (status : UInt8)

namespace Link

/-- The command-status event for a command. -/
def statusEvent (status : UInt8) (pac : Fill UInt8) : Message where
  bytes := [bleEvtPkt, 0xFF, 0x06, 0x7F, 0x06, status, pac.stored.getD 1 0, pac.stored.getD 2 0,
    0x00]
  fits := by simp [mtextSize]

/-- The branch that writes two commands of its own. -/
def IsPeerMessage (f : Forward) : Prop :=
  f.connHandleId ≠ 0xFF ∧ f.connHandleId ≠ 0xEE ∧ f.buffer.byte 1 = 0x01

instance (f : Forward) : Decidable (IsPeerMessage f) :=
  inferInstanceAs (Decidable (_ ∧ _ ∧ _))

/-- The steps of the forwarder that wait for nothing but an answer. -/
def forwarderStep (w : Connections) (s : Link) : Outcome Link :=
  match s.fwd.next w with
  | .internal f => .next { s with fwd := f }
  | .write pac f =>
    .next { s with fwd := f, sent := s.sent + 1, inFlight := s.inFlight ++ [(s.sent, pac)] }
  | .recvMsg => .blocked
  | .recvRsp =>
    match s.answers with
    | [] => .blocked
    | (k, m) :: answers =>
      match s.fwd.receiveRsp m with
      | none => .overrun
      | some f =>
        -- The command of this iteration is the last one written.
        .next { s with fwd := f, answers, log := s.log ++ [.examined (s.sent - 1) k] }

def messageStep (m : Message) (s : Link) : Outcome Link :=
  if s.fwd.pc = .recv then
    match s.fwd.receive m with
    | none => .overrun
    | some f =>
      .next { s with fwd := f, log := s.log ++ if IsPeerMessage f then [.peerMessage] else [] }
  else .blocked

def controllerStep (status : UInt8) (s : Link) : Outcome Link :=
  match s.inFlight with
  | [] => .blocked
  | (k, pac) :: inFlight =>
    .next { s with inFlight, answers := s.answers ++ [(k, statusEvent status pac)] }

def sched : Sched Link LinkStep where
  step
    | .forwarder w => forwarderStep w
    | .message m => messageStep m
    | .controller status => controllerStep status

/-- Nothing is written, nothing is on its way. -/
def start (f : Forward) : Link :=
  { fwd := { f with pc := .recv }, sent := 0, inFlight := [], answers := [], log := [] }

/-! ## The property of a log -/

/-- Every retry iteration examined the answer to its own command. -/
def Paired (log : List Event) : Prop := ∀ n k, .examined n k ∈ log → n = k

/-- No retry iteration comes after a peer message. -/
def NoneAfterPeer (log : List Event) : Prop :=
  ∀ pre n k post, log = pre ++ .examined n k :: post → .peerMessage ∉ pre

/-- The log `es`, behind `p` peer messages: each answer examined is `2 · p` commands old. -/
def Offset : Nat → List Event → Prop
  | _, [] => True
  | p, .peerMessage :: es => Offset (p + 1) es
  | p, .examined n k :: es => n = k + 2 * p ∧ Offset p es

/-- The number of peer messages in a log. -/
def peers (es : List Event) : Nat := es.count .peerMessage

theorem offset_append {p : Nat} {es fs : List Event} :
    Offset p (es ++ fs) ↔ Offset p es ∧ Offset (p + peers es) fs := by
  induction es generalizing p with
  | nil => simp [Offset, peers]
  | cons e es ih =>
    cases e with
    | peerMessage =>
      simp only [List.cons_append, Offset, ih, peers, List.count_cons_self]
      rw [Nat.add_assoc, Nat.add_comm 1]
    | examined n k =>
      have hc : peers (.examined n k :: es) = peers es := List.count_cons_of_ne (by simp)
      simp only [List.cons_append, Offset, ih, hc, and_assoc]

theorem peers_append (es fs : List Event) : peers (es ++ fs) = peers es + peers fs :=
  List.count_append

/-- With that offset, the pairs are right exactly where no peer message came before. -/
theorem paired_iff_of_offset {log : List Event} (h : Offset 0 log) :
    Paired log ↔ NoneAfterPeer log := by
  have key : ∀ pre n k post, log = pre ++ .examined n k :: post → n = k + 2 * peers pre := by
    rintro pre n k post rfl
    simpa using (offset_append.mp h).2.1
  constructor
  · rintro hp pre n k post rfl
    have hn := key pre n k post rfl
    have heq := hp n k (List.mem_append_right _ List.mem_cons_self)
    exact List.count_eq_zero.mp (show peers pre = 0 by omega)
  · intro hp n k hmem
    obtain ⟨pre, post, hlog⟩ := List.append_of_mem hmem
    have hn := key pre n k post hlog
    have h0 : peers pre = 0 := List.count_eq_zero.mpr (hp pre n k post hlog)
    omega

/-! ## The answers not yet read -/

/-- Answers that a retry iteration is about to read. -/
def due : ForwardPc → Nat
  | .answer .. => 1
  | _ => 0

/-- Commands that the peer branch is about to write. -/
def unwritten : ForwardPc → Nat
  | .peerNotify => 2
  | .peerWrite => 1
  | _ => 0

/-- The serial numbers of the commands whose answers are not yet read, oldest first. -/
def unread (s : Link) : List Nat := s.answers.map (·.1) ++ s.inFlight.map (·.1)

/-- The unread answers are those to the last commands, one for the iteration that waits for one and
two for each peer message. -/
structure Balanced (s : Link) : Prop where
  serial : ∃ first n, s.unread = List.range' first n ∧ first + n = s.sent ∧
    n + unwritten s.fwd.pc = 2 * peers s.log + due s.fwd.pc
  offset : Offset 0 s.log

/-- A step of its own changes neither count. -/
theorem next_internal {f f' : Forward} {w : Connections} (h : f.next w = .internal f') :
    due f.pc = 0 ∧ unwritten f.pc = 0 ∧ due f'.pc = 0 ∧ unwritten f'.pc = 0 := by
  unfold Forward.next at h
  split at h
  case h_2 l hpc =>
    split at h <;> cases h <;> rw [hpc] <;> exact ⟨rfl, rfl, rfl, rfl⟩
  case h_3 l idz hpc =>
    (repeat' split at h) <;> cases h <;> rw [hpc] <;> exact ⟨rfl, rfl, rfl, rfl⟩
  all_goals cases h

/-- A command is written for an iteration, or is one of the two of the peer branch. -/
theorem next_write {f f' : Forward} {w : Connections} {pac : Fill UInt8}
    (h : f.next w = .write pac f') :
    due f'.pc + unwritten f.pc = due f.pc + unwritten f'.pc + 1 := by
  unfold Forward.next at h
  split at h
  case h_2 => split at h <;> cases h
  case h_3 => (repeat' split at h) <;> cases h
  case h_4 copy idz r hpc => cases h; rw [hpc]; rfl
  case h_6 hpc => cases h; rw [hpc]; rfl
  case h_7 hpc => cases h; rw [hpc]; rfl
  all_goals cases h

theorem next_recvRsp {f : Forward} {w : Connections} (h : f.next w = .recvRsp) :
    ∃ copy idz r, f.pc = .answer copy idz r := by
  unfold Forward.next at h
  split at h
  case h_5 copy idz r hpc => exact ⟨copy, idz, r, hpc⟩
  all_goals (repeat' split at h) <;> cases h

/-- After an answer the thread is about to write a command or leaves the iteration. -/
theorem onRsp_pc {f : Forward} {copy : Retry} {idz : Nat} {r : UInt8}
    (h : f.pc = .answer copy idz r) (bufferRx : CArray UInt8 100) :
    due (f.onRsp bufferRx).pc = 0 ∧ unwritten (f.onRsp bufferRx).pc = 0 := by
  simp only [Forward.onRsp, h]
  split
  · exact ⟨rfl, rfl⟩
  · cases copy <;> exact ⟨rfl, rfl⟩

/-- The peer branch owes its two commands from the start. -/
theorem branch_pc (f : Forward) :
    due (Forward.branch f).pc = 0 ∧
      unwritten (Forward.branch f).pc = if IsPeerMessage (Forward.branch f) then 2 else 0 := by
  unfold Forward.branch
  simp only
  split
  · next h => simp [due, unwritten, IsPeerMessage, h]
  split
  · next h => simp [due, unwritten, IsPeerMessage, h]
  split
  · next h0 h1 hd => simp [due, unwritten, IsPeerMessage, h0, h1, hd]
  · next h0 h1 hd => simp [due, unwritten, IsPeerMessage, hd]

/-! ## The invariant -/

theorem balanced_start (f : Forward) : Balanced (start f) where
  serial := ⟨0, 0, rfl, rfl, rfl⟩
  offset := trivial

theorem forwarder_balanced {w : Connections} {s : Link} (h : Balanced s) :
    forwarderStep w s ≠ .overrun ∧ ∀ s', forwarderStep w s = .next s' → Balanced s' := by
  obtain ⟨⟨first, n, hun, hsent, hbal⟩, hoff⟩ := h
  unfold forwarderStep
  cases hnext : s.fwd.next w with
  | internal f =>
    obtain ⟨hd, hu, hd', hu'⟩ := next_internal hnext
    refine ⟨by simp, fun s' hs => ?_⟩
    cases hs
    refine ⟨⟨first, n, hun, hsent, ?_⟩, hoff⟩
    simp only [hd', hu']
    omega
  | write pac f =>
    have hw := next_write hnext
    refine ⟨by simp, fun s' hs => ?_⟩
    cases hs
    refine ⟨⟨first, n + 1, ?_, by simp only; omega, by simp only; omega⟩, hoff⟩
    simp only [unread] at hun ⊢
    rw [List.map_append, ← List.append_assoc, hun, List.range'_1_concat, hsent]
    rfl
  | recvMsg => exact ⟨by simp, fun s' hs => by cases hs⟩
  | recvRsp =>
    obtain ⟨copy, idz, r, hpc⟩ := next_recvRsp hnext
    cases hans : s.answers with
    | nil => exact ⟨by simp, fun s' hs => by cases hs⟩
    | cons a answers =>
      obtain ⟨k, m⟩ := a
      obtain ⟨bufferRx, -, hr⟩ := Forward.receiveRsp_spec s.fwd m
      obtain ⟨hd', hu'⟩ := onRsp_pc hpc bufferRx
      simp only [hr]
      refine ⟨by simp, fun s' hs => ?_⟩
      cases hs
      -- The oldest unread answer is at the front of the queue.
      rw [unread, hans, List.map_cons, List.cons_append, eq_comm, List.range'_eq_cons_iff]
        at hun
      obtain ⟨rfl, hpos, hrest⟩ := hun
      have hp := peers_append s.log [.examined (s.sent - 1) first]
      have hp1 : peers [.examined (s.sent - 1) first] = 0 := rfl
      simp only [hpc, due, unwritten] at hbal
      refine ⟨⟨first + 1, n - 1, hrest.symm ▸ rfl, by simp only; omega, ?_⟩, ?_⟩
      · simp only [hd', hu', hp, hp1]
        omega
      · exact offset_append.mpr ⟨hoff, by omega, trivial⟩

theorem message_balanced {m : Message} {s : Link} (h : Balanced s) :
    messageStep m s ≠ .overrun ∧ ∀ s', messageStep m s = .next s' → Balanced s' := by
  obtain ⟨⟨first, n, hun, hsent, hbal⟩, hoff⟩ := h
  obtain ⟨buffer, -, hr⟩ := Forward.receive_spec s.fwd m
  obtain ⟨hd', hu'⟩ := branch_pc { s.fwd with buffer, size := m.length }
  unfold messageStep
  by_cases hpc : s.fwd.pc = .recv
  · rw [if_pos hpc, hr]
    refine ⟨by simp, fun s' hs => ?_⟩
    cases hs
    generalize Forward.branch { s.fwd with buffer, size := m.length } = f at hd' hu' ⊢
    simp only [hpc, due, unwritten] at hbal
    by_cases hpeer : IsPeerMessage f
    · have hp := peers_append s.log [.peerMessage]
      have hp1 : peers [.peerMessage] = 1 := rfl
      rw [if_pos hpeer] at hu' ⊢
      refine ⟨⟨first, n, hun, hsent, ?_⟩, offset_append.mpr ⟨hoff, trivial⟩⟩
      simp only [hd', hu', hp, hp1]
      omega
    · rw [if_neg hpeer] at hu' ⊢
      rw [List.append_nil]
      refine ⟨⟨first, n, hun, hsent, ?_⟩, hoff⟩
      simp only [hd', hu']
      omega
  · rw [if_neg hpc]
    exact ⟨by simp, fun s' hs => by cases hs⟩

theorem controller_balanced {status : UInt8} {s : Link} (h : Balanced s) :
    controllerStep status s ≠ .overrun ∧
      ∀ s', controllerStep status s = .next s' → Balanced s' := by
  obtain ⟨⟨first, n, hun, hsent, hbal⟩, hoff⟩ := h
  unfold controllerStep
  cases hfl : s.inFlight with
  | nil => exact ⟨by simp, fun s' hs => by cases hs⟩
  | cons c inFlight =>
    obtain ⟨k, pac⟩ := c
    refine ⟨by simp, fun s' hs => ?_⟩
    cases hs
    refine ⟨⟨first, n, ?_, hsent, hbal⟩, hoff⟩
    rw [← hun, unread, unread, hfl]
    simp

theorem sched_balanced : sched.Inductive Balanced := by
  intro t s h
  cases t with
  | forwarder w => exact forwarder_balanced h
  | message m => exact message_balanced h
  | controller status => exact controller_balanced h

/-- In every state of a run the answers not yet read are two for each peer message so far, and one
for an iteration that waits. -/
theorem unread_length {f : Forward} {ts : List LinkStep} {s : Link}
    (h : sched.run (start f) ts = some s) :
    s.unread.length + unwritten s.fwd.pc = 2 * peers s.log + due s.fwd.pc := by
  obtain ⟨s', hs', hb⟩ := sched_balanced.run (balanced_start f) ts
  rw [h, Option.some.injEq] at hs'
  subst hs'
  obtain ⟨first, n, hun, -, hbal⟩ := hb.serial
  rw [hun, List.length_range']
  exact hbal

/-- **Pairing.** In every run of the forwarder and the controller, every retry iteration examines
the answer to its own command if and only if no iteration comes after a peer message with
direction 1. -/
theorem paired_iff (f : Forward) (ts : List LinkStep) :
    ∃ s, sched.run (start f) ts = some s ∧ (Paired s.log ↔ NoneAfterPeer s.log) := by
  obtain ⟨s, hs, hb⟩ := sched_balanced.run (balanced_start f) ts
  exact ⟨s, hs, paired_iff_of_offset hb.offset⟩

/-! ## One peer message -/

/-- A message `41` of connection 2, with direction 1. -/
def peerMessage : Message := ⟨[0x02, 0x01, 0x01, 0x41], by decide⟩

/-- The message is received and relayed to connection 1. The controller has answered one command
when the iteration looks for its answer. -/
def peerRun : List LinkStep :=
  [.message peerMessage] ++ List.replicate 6 (.forwarder (.single 1)) ++
    [.controller 0x00, .forwarder (.single 1)]

/-- The first iteration after a peer message examines the answer to the command two before its
own. -/
theorem not_paired_peerRun : ¬ ∀ (f : Forward) (ts : List LinkStep) (s : Link),
    sched.run (start f) ts = some s → Paired s.log := by
  intro h
  have hlog : (sched.run (start Forward.start) peerRun).map (·.log) =
      some [.peerMessage, .examined 2 0] := by decide
  obtain ⟨s, hs, hl⟩ := Option.map_eq_some_iff.mp hlog
  have hp := h _ _ s hs 2 0
  rw [hl] at hp
  exact absurd (hp (by decide)) (by decide)

end Link

end Ble
