import BleGateway.ConnRouting
import BleGateway.Lib.Network
import BleGateway.Relay
import BleGateway.WriteAcks

/-!
# The relay under any schedule

`UartCmdRxThread`, `pipe_0000_Thread` and `Forward_MSG_Queue_Thread` share the queues, the UART and
the connection table. As long as no packet changes the table, only the queues carry anything from
one thread to another, and none of the queues between the three has two senders or two receivers.

* `relay`: the three threads under a scheduler. What lies behind `buff` is on the stack of the pipe
  thread, so it goes with the locals of that thread.
* `network`: the threads as processes, each with its own locals and its own output.
* `Steady`: no packet still to come changes the table `w`. `step_seen`: then a step of a thread is a
  step of its process.
* `network_wired`: every queue has one sender and one receiver.
* `same_end`: so all schedules that come to an end come to the same one.
-/

namespace Ble

open Framer

namespace Gateway

/-- The three threads. -/
inductive Party where
  | uartCmdRx
  | pipe0000
  | forwardMsgQueue
  deriving DecidableEq, Repr

/-- What `UartCmdRxThread` has for itself. -/
structure UartLocal where
  input : List UInt8
  framer : Framer
  pending : List Action
  packet : Completed

namespace Party

/-- The locals of a thread. -/
abbrev Local : Party → Type
  | uartCmdRx => UartLocal
  | pipe0000 => Pipe
  | forwardMsgQueue => Forward

/-- The step of the thread, with `beyond p` behind `buff` when the pipe thread has the locals
`p`. -/
def thread (beyond : Pipe → Nat → UInt8) (g : Gateway) : Party → Thread
  | uartCmdRx => .uartCmdRx
  | pipe0000 => .pipe0000 (beyond g.pipe)
  | forwardMsgQueue => .forwardMsgQueue

end Party

/-- The three threads under a scheduler. -/
def relay (ids : PipeIds) (beyond : Pipe → Nat → UInt8) : Sched Gateway Party :=
  ⟨fun t g => threadStep ids (t.thread beyond g) g⟩

/-! ## The threads as processes -/

/-- What a process with the locals `σ` does next. -/
abbrev Process (σ : Type) := Next Nat Message Passed (Fill UInt8) σ

/-- `sys_mq_send(q, buf, size)`, then `l`. -/
def sendNext {σ : Type} {n : Nat} (key : Option Nat) (buf : CArray UInt8 n) (size : UInt16)
    (l : σ) : Process σ :=
  match sysMqSend buf size with
  | none => .overrun
  | some m =>
    match key with
    | none => .go [] l
    | some k => .send k m (passed buf size) l

/-- `sys_mq_recv(q, buf, &size)`, continued with the buffer and the size. -/
def recvNext {σ : Type} {n : Nat} (key : Nat) (buf : CArray UInt8 n)
    (cont : CArray UInt8 n → UInt16 → Option σ) : Process σ :=
  .recv key fun m =>
    match sysMqRecv buf m with
    | none => none
    | some (buf, size) => (cont buf size).map (·, passed buf size)

/-- `UartCmdRxThread`, with a table that does not change. -/
def uartNext (ids : PipeIds) (l : UartLocal) : Process UartLocal :=
  match l.pending with
  | a :: pending =>
    match a with
    | .sysMqSend q =>
      sendNext (q.key ids) l.packet.rxPacket l.packet.index.toUInt16 { l with pending }
    | .dataAck idz => .go [dataAck idz.toNat] { l with pending }
    | .clearStatus _ | .upadateDisconnection => .go [] { l with pending }
  | [] =>
    match l.input with
    | [] => .blocked
    | b :: input =>
      match l.framer.rxByte b with
      | (framer, none) => .go [] { l with input, framer }
      | (framer, some packet) =>
        .go [] { input, framer, packet, pending := dispatch packet.rxPacket }

/-- `pipe_0000_Thread`. -/
def pipeNext (beyond : Pipe → Nat → UInt8) (p : Pipe) : Process Pipe :=
  match p.dataLength with
  | some dataLength =>
    sendNext (some messageSendToPeerDeviceKey) p.forwardDataBuff (Pipe.postSize dataLength)
      { p with dataLength := none }
  | none => recvNext connPipe0Key p.buff fun buff _ => p.decode buff (beyond p)

/-- `Forward_MSG_Queue_Thread` with the table `w`. -/
def forwardNext (w : Connections) (f : Forward) : Process Forward :=
  match f.next w with
  | .internal f => .go [] f
  | .write pac f => .go [pac] f
  | .recvMsg =>
    recvNext messageSendToPeerDeviceKey f.buffer fun buffer size =>
      some (Forward.branch { f with buffer, size })
  | .recvRsp => recvNext writeRspKey f.bufferRx fun bufferRx _ => some (f.onRsp bufferRx)

/-- The three threads as processes. -/
def network (ids : PipeIds) (beyond : Pipe → Nat → UInt8) (w : Connections) :
    Network Party Nat Message Passed (Fill UInt8) Party.Local where
  next
    | .uartCmdRx => uartNext ids
    | .pipe0000 => pipeNext beyond
    | .forwardMsgQueue => forwardNext w

/-- A command of `UartCmdRxThread`, the only thread that acknowledges. -/
def IsAck (pac : Fill UInt8) : Prop := commandOpcode pac.stored = some vsAttWriteResponse

instance (pac : Fill UInt8) : Decidable (IsAck pac) := inferInstanceAs (Decidable (_ = _))

/-- The program as a state of the network: the locals, the queues with their history, and the
commands by the thread that wrote them. -/
def seen (g : Gateway) : Network.State Party Nat Message Passed (Fill UInt8) Party.Local where
  loc
    | .uartCmdRx => ⟨g.input, g.framer, g.pending, g.packet⟩
    | .pipe0000 => g.pipe
    | .forwardMsgQueue => g.fwd
  queues := g.queues
  out
    | .uartCmdRx => g.output.filter fun pac => IsAck pac
    | .pipe0000 => []
    | .forwardMsgQueue => g.output.filter fun pac => ¬ IsAck pac

/-! ## One sender and one receiver -/

theorem sendNext_eq_send {σ : Type} {n : Nat} {key : Option Nat} {buf : CArray UInt8 n}
    {size : UInt16} {l l' : σ} {k : Nat} {m : Message} {b : Passed}
    (h : sendNext key buf size l = .send k m b l') : key = some k := by
  unfold sendNext at h
  split at h
  · cases h
  split at h
  · cases h
  · cases h
    rfl

theorem sendNext_ne_recv {σ : Type} {n : Nat} (key : Option Nat) (buf : CArray UInt8 n)
    (size : UInt16) (l : σ) {k : Nat} {cont : Message → Option (σ × Passed)} :
    sendNext key buf size l ≠ .recv k cont := by
  unfold sendNext
  split
  · nofun
  · split <;> nofun

/-- The keys that a thread sends to. -/
def Party.Sends (ids : PipeIds) (k : Nat) : Party → Prop
  | uartCmdRx => ∃ q : QueueVar, q.key ids = some k
  | pipe0000 => k = messageSendToPeerDeviceKey
  | forwardMsgQueue => False

/-- The keys that a thread receives from. -/
def Party.Receives (k : Nat) : Party → Prop
  | uartCmdRx => False
  | pipe0000 => k = connPipe0Key
  | forwardMsgQueue => k = messageSendToPeerDeviceKey ∨ k = writeRspKey

variable {ids : PipeIds} {beyond : Pipe → Nat → UInt8} {w : Connections}

theorem sends_of_next {t : Party} {l l' : t.Local} {k : Nat} {m : Message} {b : Passed}
    (h : (network ids beyond w).next t l = .send k m b l') : t.Sends ids k := by
  cases t with
  | uartCmdRx =>
    simp only [network, uartNext] at h
    split at h
    · split at h
      · next q _ => exact ⟨q, sendNext_eq_send h⟩
      all_goals cases h
    · split at h
      · cases h
      · split at h <;> cases h
  | pipe0000 =>
    simp only [network, pipeNext] at h
    split at h
    · exact (Option.some.inj (sendNext_eq_send h)).symm
    · cases h
  | forwardMsgQueue =>
    simp only [network, forwardNext] at h
    split at h <;> cases h

theorem receives_of_next {t : Party} {l : t.Local} {k : Nat}
    {cont : Message → Option (t.Local × Passed)}
    (h : (network ids beyond w).next t l = .recv k cont) : t.Receives k := by
  cases t with
  | uartCmdRx =>
    simp only [network, uartNext] at h
    split at h
    · split at h
      · exact absurd h (sendNext_ne_recv _ _ _ _)
      all_goals cases h
    · split at h
      · cases h
      · split at h <;> cases h
  | pipe0000 =>
    simp only [network, pipeNext] at h
    split at h
    · exact absurd h (sendNext_ne_recv _ _ _ _)
    · cases h
      exact rfl
  | forwardMsgQueue =>
    simp only [network, forwardNext] at h
    split at h
    · cases h
    · cases h
    · cases h
      exact .inl rfl
    · cases h
      exact .inr rfl

/-- If the chain posts nothing to the forwarder by way of an id that is not set, every queue has one
sender and one receiver. -/
theorem network_wired (hids : ∀ q : QueueVar, q.key ids ≠ some messageSendToPeerDeviceKey) :
    (network ids beyond w).Wired where
  sender := by
    intro t u k m m' b b' l l₁ l' l₁' ht hu
    have ht := sends_of_next ht
    have hu := sends_of_next hu
    cases t <;> cases u <;> simp only [Party.Sends] at ht hu
    case uartCmdRx.pipe0000 =>
      obtain ⟨q, hq⟩ := ht
      exact absurd (hq.trans (congrArg some hu)) (hids q)
    case pipe0000.uartCmdRx =>
      obtain ⟨q, hq⟩ := hu
      exact absurd (hq.trans (congrArg some ht)) (hids q)
    all_goals rfl
  receiver := by
    intro t u k cont cont' l l' ht hu
    have ht := receives_of_next ht
    have hu := receives_of_next hu
    cases t <;> cases u <;> simp only [Party.Receives] at ht hu
    case pipe0000.forwardMsgQueue => exact absurd hu (by rw [ht]; decide)
    case forwardMsgQueue.pipe0000 => exact absurd ht (by rw [hu]; decide)
    all_goals rfl

/-! ## Steps of the program -/

/-- The table is `w`, and no packet that is pending or still to come changes it. -/
structure Steady (w : Connections) (g : Gateway) : Prop where
  table : g.connections = w
  pending : ∀ a ∈ g.pending, a.onTable w = some w
  ahead : ∀ c ∈ arriving g.framer g.input, ∀ a ∈ dispatch c.rxPacket, a.onTable w = some w

section
variable {g g' : Gateway} {os : List (Fill UInt8)} {f : Queues → Queues}

theorem seen_uart (hp : g'.pipe = g.pipe) (hf : g'.fwd = g.fwd) (hq : g'.queues = f g.queues)
    (ho : g'.output = g.output ++ os) (hos : ∀ pac ∈ os, IsAck pac) :
    seen g' = (seen g).advance .uartCmdRx ⟨g'.input, g'.framer, g'.pending, g'.packet⟩ os f := by
  have hack : os.filter (fun pac => IsAck pac) = os := by simpa using hos
  have hrest : os.filter (fun pac => ¬ IsAck pac) = [] := by simpa using hos
  unfold seen Network.State.advance
  rw [hp, hf, hq, ho, List.filter_append, List.filter_append, hack, hrest, List.append_nil]
  congr 1
  · funext t
    cases t <;> rfl
  · funext t
    cases t <;> rfl

theorem seen_uart_silent (hp : g'.pipe = g.pipe) (hf : g'.fwd = g.fwd)
    (hq : g'.queues = f g.queues) (ho : g'.output = g.output) :
    seen g' = (seen g).advance .uartCmdRx ⟨g'.input, g'.framer, g'.pending, g'.packet⟩ [] f :=
  seen_uart hp hf hq (by rw [ho, List.append_nil]) (List.forall_mem_nil _)

theorem seen_pipe (hi : g'.input = g.input) (hr : g'.framer = g.framer)
    (hp : g'.pending = g.pending) (hc : g'.packet = g.packet) (hf : g'.fwd = g.fwd)
    (hq : g'.queues = f g.queues) (ho : g'.output = g.output) :
    seen g' = (seen g).advance .pipe0000 g'.pipe [] f := by
  unfold seen Network.State.advance
  rw [hi, hr, hp, hc, hf, hq, ho]
  congr 1
  · funext t
    cases t <;> rfl
  · funext t
    cases t <;> rfl

theorem seen_forward (hi : g'.input = g.input) (hr : g'.framer = g.framer)
    (hp : g'.pending = g.pending) (hc : g'.packet = g.packet) (hpipe : g'.pipe = g.pipe)
    (hq : g'.queues = f g.queues) (ho : g'.output = g.output ++ os)
    (hos : ∀ pac ∈ os, ¬ IsAck pac) :
    seen g' = (seen g).advance .forwardMsgQueue g'.fwd os f := by
  have hack : os.filter (fun pac => IsAck pac) = [] := by simpa using hos
  have hrest : os.filter (fun pac => ¬ IsAck pac) = os := by simpa using hos
  unfold seen Network.State.advance
  rw [hi, hr, hp, hc, hpipe, hq, ho, List.filter_append, List.filter_append, hack, hrest,
    List.append_nil]
  congr 1
  · funext t
    cases t <;> rfl
  · funext t
    cases t <;> rfl

theorem seen_forward_silent (hi : g'.input = g.input) (hr : g'.framer = g.framer)
    (hp : g'.pending = g.pending) (hc : g'.packet = g.packet) (hpipe : g'.pipe = g.pipe)
    (hq : g'.queues = f g.queues) (ho : g'.output = g.output) :
    seen g' = (seen g).advance .forwardMsgQueue g'.fwd [] f :=
  seen_forward hi hr hp hc hpipe hq (by rw [ho, List.append_nil]) (List.forall_mem_nil _)

end

section
variable {t : Party} {g : Gateway} {n : Nat} {buf : CArray UInt8 n}

/-- A process that sends does what the thread does. -/
theorem step_sendNext {g' : Gateway} {key : Option Nat} {size : UInt16} {l : t.Local}
    (hn : (network ids beyond w).next t ((seen g).loc t) = sendNext key buf size l)
    (hs : ∀ f : Queues → Queues,
      seen { g' with queues := f g'.queues } = (seen g).advance t l [] f) :
    (network ids beyond w).step t (seen g) = (g'.send key buf size).map seen := by
  simp only [Network.step, hn, sendNext, send]
  cases sysMqSend buf size with
  | none => rfl
  | some m =>
    cases key with
    | none => exact congrArg Outcome.next (hs id).symm
    | some k => exact congrArg Outcome.next (hs _).symm

/-- A process that receives does what the thread does. -/
theorem step_recvNext {key : Nat} {cont : CArray UInt8 n → UInt16 → Option t.Local}
    {cont' : Gateway → CArray UInt8 n → UInt16 → Outcome Gateway}
    (hn : (network ids beyond w).next t ((seen g).loc t) = recvNext key buf cont)
    (hc : ∀ buf size, (cont' { g with queues := g.queues.take key (passed buf size) } buf size).map
        seen = match cont buf size with
          | none => .overrun
          | some l => .next ((seen g).advance t l [] fun q => q.take key (passed buf size))) :
    (network ids beyond w).step t (seen g) = (g.recv key buf cont').map seen := by
  have hq : (seen g).queues = g.queues := rfl
  simp only [Network.step, hn, recvNext, recv, hq]
  cases g.queues.queue key with
  | nil => rfl
  | cons m ms =>
    simp only
    cases sysMqRecv buf m with
    | none => rfl
    | some r =>
      obtain ⟨buf, size⟩ := r
      simp only [hc]
      cases cont buf size <;> rfl

end

section
variable {g : Gateway}

/-- An action that does not change the table. -/
theorem perform_steady {a : Action} (h : a.onTable g.connections = some g.connections) :
    perform ids g a = match a with
      | .sysMqSend q => g.send (q.key ids) g.packet.rxPacket g.packet.index.toUInt16
      | .dataAck idz => .next (g.write (dataAck idz.toNat))
      | .clearStatus _ | .upadateDisconnection => .next g := by
  cases a with
  | sysMqSend q => rfl
  | dataAck idz => rfl
  | clearStatus connHandle =>
    simp only [Action.onTable] at h
    simp only [perform, h]
  | upadateDisconnection =>
    have hw : g.connections.upadateDisconnection = g.connections := Option.some.inj h
    simp only [perform, hw]

theorem uart_perform_seen (h : Steady w g) {a : Action} {as : List Action}
    (hp : g.pending = a :: as) :
    (network ids beyond w).step .uartCmdRx (seen g) =
      (perform ids { g with pending := as } a).map seen := by
  have hn : (network ids beyond w).next .uartCmdRx ((seen g).loc .uartCmdRx) =
      uartNext ids ⟨g.input, g.framer, a :: as, g.packet⟩ := by rw [← hp]; rfl
  have ha : a.onTable g.connections = some g.connections := by
    rw [h.table]
    exact h.pending a (by simp [hp])
  rw [perform_steady (g := { g with pending := as }) ha]
  cases a with
  | sysMqSend q => exact step_sendNext hn fun f => seen_uart_silent rfl rfl rfl rfl
  | dataAck idz =>
    simp only [Network.step, hn, uartNext]
    refine (congrArg Outcome.next ?_).symm
    refine seen_uart rfl rfl rfl rfl ?_
    simp [IsAck]
  | clearStatus connHandle =>
    simp only [Network.step, hn, uartNext]
    refine (congrArg Outcome.next ?_).symm
    exact seen_uart_silent rfl rfl rfl rfl
  | upadateDisconnection =>
    simp only [Network.step, hn, uartNext]
    refine (congrArg Outcome.next ?_).symm
    exact seen_uart_silent rfl rfl rfl rfl

theorem uart_step_seen (h : Steady w g) :
    (network ids beyond w).step .uartCmdRx (seen g) = (uartStep ids g).map seen := by
  unfold uartStep
  cases hp : g.pending with
  | cons a as => exact uart_perform_seen h hp
  | nil =>
    have hn : (network ids beyond w).next .uartCmdRx ((seen g).loc .uartCmdRx) =
        uartNext ids ⟨g.input, g.framer, [], g.packet⟩ := by rw [← hp]; rfl
    cases hi : g.input with
    | nil =>
      rw [hi] at hn
      simp only [Network.step, hn, uartNext, Outcome.map]
    | cons b input =>
      rw [hi] at hn
      simp only [Network.step, hn, uartNext]
      obtain ⟨framer, out⟩ := g.framer.rxByte b
      cases out with
      | none =>
        rw [← hp]
        refine (congrArg Outcome.next ?_).symm
        exact seen_uart_silent rfl rfl rfl rfl
      | some packet =>
        refine (congrArg Outcome.next ?_).symm
        exact seen_uart_silent rfl rfl rfl rfl

theorem pipe_step_seen :
    (network ids beyond w).step .pipe0000 (seen g) = (pipeStep (beyond g.pipe) g).map seen := by
  have hn : (network ids beyond w).next .pipe0000 ((seen g).loc .pipe0000) =
      pipeNext beyond g.pipe := rfl
  unfold pipeStep
  unfold pipeNext at hn
  cases hd : g.pipe.dataLength with
  | some dataLength =>
    rw [hd] at hn
    exact step_sendNext hn fun f => seen_pipe rfl rfl rfl rfl rfl rfl rfl
  | none =>
    rw [hd] at hn
    refine step_recvNext hn fun buff size => ?_
    dsimp only
    cases g.pipe.decode buff (beyond g.pipe) with
    | none => rfl
    | some pipe => exact congrArg Outcome.next (seen_pipe rfl rfl rfl rfl rfl rfl rfl)

theorem forward_step_seen (h : Steady w g) :
    (network ids beyond w).step .forwardMsgQueue (seen g) = (forwarderStep g).map seen := by
  have hn : (network ids beyond w).next .forwardMsgQueue ((seen g).loc .forwardMsgQueue) =
      forwardNext w g.fwd := rfl
  unfold forwarderStep
  unfold forwardNext at hn
  rw [h.table]
  cases hf : g.fwd.next w with
  | internal f =>
    rw [hf] at hn
    simp only [Network.step, hn]
    refine (congrArg Outcome.next ?_).symm
    exact seen_forward_silent rfl rfl rfl rfl rfl rfl rfl
  | write pac f =>
    rw [hf] at hn
    simp only [Network.step, hn]
    refine (congrArg Outcome.next ?_).symm
    refine seen_forward rfl rfl rfl rfl rfl rfl rfl ?_
    simpa [IsAck] using next_not_ack hf
  | recvMsg =>
    rw [hf] at hn
    refine step_recvNext hn fun buffer size => ?_
    exact congrArg Outcome.next (seen_forward_silent rfl rfl rfl rfl rfl rfl rfl)
  | recvRsp =>
    rw [hf] at hn
    refine step_recvNext hn fun buffer size => ?_
    exact congrArg Outcome.next (seen_forward_silent rfl rfl rfl rfl rfl rfl rfl)

/-- Every step of a thread is a step of its process. -/
theorem step_seen (t : Party) (g : Gateway) (h : Steady w g) :
    (network ids beyond w).sched.step t (seen g) = ((relay ids beyond).step t g).map seen := by
  cases t with
  | uartCmdRx => exact uart_step_seen h
  | pipe0000 => exact pipe_step_seen
  | forwardMsgQueue => exact forward_step_seen h

/-! ## The table stays -/

theorem uart_steady {g' : Gateway} (h : Steady w g) (hn : uartStep ids g = .next g') :
    Steady w g' := by
  unfold uartStep at hn
  split at hn
  · next a as hp =>
    have ha : a.onTable g.connections = some g.connections := by
      rw [h.table]
      exact h.pending a (by simp [hp])
    have has : ∀ a ∈ as, a.onTable w = some w := fun b hb => h.pending b (by simp [hp, hb])
    rw [perform_steady (g := { g with pending := as }) ha] at hn
    split at hn
    · obtain ⟨-, rfl⟩ | ⟨k, m, -, rfl⟩ := send_next hn
      · exact ⟨h.table, has, h.ahead⟩
      · exact ⟨h.table, has, h.ahead⟩
    all_goals
      cases hn
      exact ⟨h.table, has, h.ahead⟩
  · next hp =>
    split at hn
    · cases hn
    next b input hi =>
    have hahead := h.ahead
    rw [hi, arriving_cons] at hahead
    split at hn
    · next framer hr =>
      cases hn
      rw [hr] at hahead
      exact ⟨h.table, by simp [hp], by simpa using hahead⟩
    · next framer packet hr =>
      cases hn
      rw [hr] at hahead
      exact ⟨h.table, hahead packet (by simp), fun c hc => hahead c (by simp [hc])⟩

theorem recv_steady {n : Nat} {g' : Gateway} {key : Nat} {buf : CArray UInt8 n}
    {cont : Gateway → CArray UInt8 n → UInt16 → Outcome Gateway} (h : Steady w g)
    (hcont : ∀ queues buf size, Steady w { g with queues } →
      cont { g with queues } buf size = .next g' → Steady w g')
    (hn : g.recv key buf cont = .next g') : Steady w g' := by
  unfold recv at hn
  split at hn
  · cases hn
  split at hn
  · cases hn
  · exact hcont (g.queues.take key _) _ _ ⟨h.table, h.pending, h.ahead⟩ hn

theorem pipe_steady {g' : Gateway} {beyond : Nat → UInt8} (h : Steady w g)
    (hn : pipeStep beyond g = .next g') : Steady w g' := by
  unfold pipeStep at hn
  split at hn
  · obtain ⟨-, rfl⟩ | ⟨k, m, -, rfl⟩ := send_next hn
    · exact ⟨h.table, h.pending, h.ahead⟩
    · exact ⟨h.table, h.pending, h.ahead⟩
  · refine recv_steady h (fun queues buff _ hs hc => ?_) hn
    split at hc
    · cases hc
    · cases hc
      exact ⟨hs.table, hs.pending, hs.ahead⟩

theorem forward_steady {g' : Gateway} (h : Steady w g) (hn : forwarderStep g = .next g') :
    Steady w g' := by
  unfold forwarderStep at hn
  split at hn
  · cases hn
    exact ⟨h.table, h.pending, h.ahead⟩
  · cases hn
    exact ⟨h.table, h.pending, h.ahead⟩
  · refine recv_steady h (fun queues buffer _ hs hc => ?_) hn
    cases hc
    exact ⟨hs.table, hs.pending, hs.ahead⟩
  · refine recv_steady h (fun queues buffer _ hs hc => ?_) hn
    cases hc
    exact ⟨hs.table, hs.pending, hs.ahead⟩

theorem relay_steady (t : Party) (g g' : Gateway) (h : Steady w g)
    (hn : (relay ids beyond).step t g = .next g') : Steady w g' := by
  cases t with
  | uartCmdRx => exact uart_steady h hn
  | pipe0000 => exact pipe_steady h hn
  | forwardMsgQueue => exact forward_steady h hn

end

/-! ## All schedules end alike -/

/-- The value `AB` written to the handle 3 of connection 0. -/
def writtenAb : WriteRequest where
  status := 0x00
  sig := 0x00
  cmd := 0x00
  value := [0x41, 0x42]
  two_le := Nat.le_refl 2
  le := Nat.le_add_left 2 85
  not_01 := nofun
  not_ping := nofun

theorem exists_of_forall₂ {α β : Type} {R : α → β → Prop} {as : List α} {bs : List β}
    (h : List.Forall₂ R as bs) {a : α} (ha : a ∈ as) : ∃ b, R a b := by
  induction h with
  | nil => cases ha
  | cons hr _ ih =>
    cases ha with
    | head => exact ⟨_, hr⟩
    | tail _ ha => exact ih ha

/-- Write requests leave the table alone. -/
theorem steady_requests (l : Locals) (w : Connections) (ws : List WriteRequest) :
    Steady w (start l w (ws.flatMap (·.bytes))) where
  table := rfl
  pending := List.forall_mem_nil _
  ahead := by
    intro c hc a ha
    obtain ⟨r, hr⟩ := exists_of_forall₂ (arriving_requests (atBoundary_start _ _) ws) hc
    rw [WriteRequest.dispatch_writeRequest hr.2] at ha
    simp only [List.mem_cons, List.not_mem_nil, or_false] at ha
    obtain rfl | rfl := ha <;> rfl

/-- Write requests come to an end. -/
theorem relay_drains (ids : PipeIds) (beyond : Pipe → Nat → UInt8) (l : Locals)
    (connDeviceList : ConnDeviceList) (ws : List WriteRequest) :
    ∃ ts g, (relay ids beyond).run (start l ⟨connDeviceList, 0⟩ (ws.flatMap (·.bytes))) ts =
      some g ∧ (relay ids beyond).Quiet g := by
  have hdesc : (relay ids beyond).Descends (fun g => ∃ p, Flow ws g p) stepsLeft := by
    rintro t g ⟨p, h⟩
    obtain hb | ⟨g', p', hn, h', hlt⟩ := threadStep_flows h ids (t.thread beyond g)
    · exact .inl hb
    · exact .inr ⟨g', hn, ⟨p', h'⟩, hlt⟩
  obtain ⟨ts, g, hr, -, hq⟩ := hdesc.drains ⟨_, flow_start l connDeviceList ws⟩
  exact ⟨ts, g, hr, hq⟩

end Gateway

end Ble
