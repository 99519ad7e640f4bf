import BleGateway.Lib.Sched
import BleGateway.Lib.Traffic
import BleGateway.Dispatch
import BleGateway.Forward
import BleGateway.Pipe

/-!
# The gateway (`src/UartCmdRxThread.c`)

`UartCmdRxThread`, `pipe_0000_Thread` and `Forward_MSG_Queue_Thread` as threads of one program, with
the queues between them, the connection table and the UART. A step of a thread runs up to the next
point where it touches something shared.

* `send`, `recv`: `sys_mq_send` and `sys_mq_recv`. A copy that leaves an array overruns.
* `uartStep`, `pipeStep`, `forwarderStep`: the threads.
* `threads` schedules the three; `system` also has everybody else who uses a queue.
* `Performs`, `UartMoves`: what an action and a step of `UartCmdRxThread` do that go through.

Two more kinds of accesses can leave an array. A store behind `Conn_Device_List` or behind a command
buffer sets `fault`; what it hits is not modelled, and a result for which the thread has to live on
asks for a run without it. A read behind `buff` or `buffer` sets `strays` and gives whatever lies
there.
-/

namespace Ble

/-- The queues by key, with what went through them. -/
abbrev Queues := Traffic Nat Message Passed

/-- `Pipe_1_Id`, `Pipe_2_Id` and `Pipe_3_Id`, which are never initialised: the key of the queue each
happens to name, if any. -/
structure PipeIds where
  pipe1Id : Option Nat
  pipe2Id : Option Nat
  pipe3Id : Option Nat

/-- The key of the queue that a variable names. -/
def QueueVar.key (ids : PipeIds) : QueueVar → Option Nat
  | .commandRespQId => some commandRespThreadQueueKey
  | .writeRspId => some writeRspKey
  | .pingPktRspId => some pingPktKey
  | .pipe0Id => some connPipe0Key
  | .pipe1Id => ids.pipe1Id
  | .pipe2Id => ids.pipe2Id
  | .pipe3Id => ids.pipe3Id

/-- The program's state. -/
structure Gateway where
  /-- The bytes that are still to come from the UART. -/
  input : List UInt8
  framer : Framer
  /-- What the dispatch chain still has to do for `packet`. -/
  pending : List Action
  packet : Completed
  connections : Connections
  queues : Queues
  pipe : Pipe
  fwd : Forward
  /-- `buffer` of `CentralModeThread`. -/
  buffer : CArray UInt8 256
  /-- The commands written to the UART. -/
  output : List (Fill UInt8)
  fault : Bool
  strays : Bool

/-- The uninitialised locals of the three threads. -/
structure Locals where
  count : Int
  rxPacket : CArray UInt8 2048
  buff : CArray UInt8 100
  forwardDataBuff : CArray UInt8 100
  fwd : Forward

namespace Gateway

/-- The program before its first step, with `input` to come. -/
def start (l : Locals) (w : Connections) (input : List UInt8) : Gateway where
  input
  framer := .start l.count l.rxPacket
  pending := []
  packet := ⟨l.rxPacket, 0⟩
  connections := w
  queues := .empty
  pipe := { buff := l.buff, forwardDataBuff := l.forwardDataBuff, dataLength := none }
  fwd := { l.fwd with pc := .recv }
  buffer := Vector.replicate 256 0
  output := []
  fault := false
  strays := false

/-! ## Sending and receiving -/

/-- `sys_mq_send(q, buf, size)`. A queue id that names no queue fails in `msgsnd`. -/
def send {n : Nat} (g : Gateway) (key : Option Nat) (buf : CArray UInt8 n) (size : UInt16) :
    Outcome Gateway :=
  match sysMqSend buf size with
  | none => .overrun
  | some m =>
    match key with
    | none => .next g
    | some k => .next { g with queues := g.queues.put k m (passed buf size) }

/-- `sys_mq_recv(q, buf, &size)`, continued with the buffer and the size. -/
def recv {n : Nat} (g : Gateway) (key : Nat) (buf : CArray UInt8 n)
    (cont : Gateway → CArray UInt8 n → UInt16 → Outcome Gateway) : Outcome Gateway :=
  match g.queues.queue key with
  | [] => .blocked
  | m :: _ =>
    match sysMqRecv buf m with
    | none => .overrun
    | some (buf, size) => cont { g with queues := g.queues.take key (passed buf size) } buf size

/-- `BLECOMWrite(pac, idx)`, which writes in full. -/
def write (g : Gateway) (pac : Fill UInt8) : Gateway :=
  { g with output := g.output ++ [pac], fault := g.fault || !decide pac.InBounds }

/-- A command that fits into its `pac` is all that the write adds. -/
theorem write_eq {g : Gateway} {pac : Fill UInt8} (hf : g.fault = false) (hp : pac.InBounds) :
    g.write pac = { g with output := g.output ++ [pac] } := by
  simp only [write, hf, hp, decide_true, Bool.not_true, Bool.or_false]

/-! ## The threads -/

/-- One action of the dispatch chain. A store outside the table, where the real thread may die, only
sets `fault`. -/
def perform (ids : PipeIds) (g : Gateway) : Action → Outcome Gateway
  | .sysMqSend q => g.send (q.key ids) g.packet.rxPacket g.packet.index.toUInt16
  | .dataAck idz => .next (g.write (dataAck idz.toNat))
  | .clearStatus connHandle =>
    match g.connections.clearStatus connHandle with
    | none => .next { g with fault := true }
    | some connections => .next { g with connections }
  | .upadateDisconnection => .next { g with connections := g.connections.upadateDisconnection }

/-- `UartCmdRxThread`: an action of the dispatch chain, or the next byte. -/
def uartStep (ids : PipeIds) (g : Gateway) : Outcome Gateway :=
  match g.pending with
  | a :: pending => perform ids { g with pending } a
  | [] =>
    match g.input with
    | [] => .blocked
    | b :: input =>
      match g.framer.rxByte b with
      | (framer, none) => .next { g with input, framer }
      | (framer, some packet) =>
        .next { g with input, framer, packet, pending := dispatch packet.rxPacket }

/-- `pipe_0000_Thread`: the post of the payload it has decoded, or the next message. `beyond` is the
memory behind `buff`. -/
def pipeStep (beyond : Nat → UInt8) (g : Gateway) : Outcome Gateway :=
  match g.pipe.dataLength with
  | some dataLength =>
    { g with pipe := { g.pipe with dataLength := none } }.send messageSendToPeerDeviceKey
      g.pipe.forwardDataBuff (Pipe.postSize dataLength)
  | none =>
    g.recv connPipe0Key g.pipe.buff fun g buff _ =>
      match g.pipe.decode buff beyond with
      | none => .overrun
      | some pipe => .next { g with pipe, strays := g.strays || decide (Pipe.Strays buff) }

/-- `Forward_MSG_Queue_Thread`. The encoders read `buffer` up to `size`. -/
def forwarderStep (g : Gateway) : Outcome Gateway :=
  match g.fwd.next g.connections with
  | .internal fwd => .next { g with fwd }
  | .write pac fwd =>
    .next { g.write pac with fwd, strays := g.strays || decide (100 < g.fwd.size.toNat) }
  | .recvMsg =>
    g.recv messageSendToPeerDeviceKey g.fwd.buffer fun g buffer size =>
      .next { g with fwd := Forward.branch { g.fwd with buffer, size } }
  | .recvRsp =>
    g.recv writeRspKey g.fwd.bufferRx fun g bufferRx _ =>
      .next { g with fwd := g.fwd.onRsp bufferRx }

/-- The three threads of the relay. -/
inductive Thread where
  | uartCmdRx
  | pipe0000 (beyond : Nat → UInt8)
  | forwardMsgQueue

/-- A step of one of them. -/
def threadStep (ids : PipeIds) (t : Thread) (g : Gateway) : Outcome Gateway :=
  match t with
  | .uartCmdRx => uartStep ids g
  | .pipe0000 beyond => pipeStep beyond g
  | .forwardMsgQueue => forwarderStep g

/-- The three threads under a scheduler. -/
def threads (ids : PipeIds) : Sched Gateway Thread := ⟨threadStep ids⟩

/-! ## Everybody else -/

/-- A step of the three threads, of `CentralModeThread`, of `SetParamValue` or of another program
with access to the queues. -/
inductive Step where
  | thread (t : Thread)
  /-- A handler of `CentralModeThread` receives into the global `buffer`. -/
  | central (key : Nat)
  /-- `SetParamValue` receives the answer into its local `buffer[10]`. -/
  | setParamValue (key : Nat) (buffer : CArray UInt8 10)
  /-- Another program posts a record. -/
  | post (key : Nat) (m : Message)

def step (ids : PipeIds) (s : Step) (g : Gateway) : Outcome Gateway :=
  match s with
  | .thread t => threadStep ids t g
  | .central key => g.recv key g.buffer fun g buffer _ => .next { g with buffer }
  | .setParamValue key buffer => g.recv key buffer fun g _ _ => .next g
  | .post key m => .next { g with queues := g.queues.put key m m.view }

/-- The whole system. -/
def system (ids : PipeIds) : Sched Gateway Step := ⟨step ids⟩

/-! ## Steps that go through -/

/-- A post that goes through adds a record to the queue that the id names, if it names one. -/
theorem send_next {n : Nat} {g g' : Gateway} {key : Option Nat} {buf : CArray UInt8 n}
    {size : UInt16} (h : g.send key buf size = .next g') :
    (key = none ∧ g' = g) ∨
      ∃ k m, key = some k ∧ g' = { g with queues := g.queues.put k m (passed buf size) } := by
  unfold send at h
  split at h
  · cases h
  next m hm =>
  split at h
  · cases h
    exact .inl ⟨rfl, rfl⟩
  · next k =>
    cases h
    exact .inr ⟨k, m, rfl, rfl⟩

/-- What an action does that goes through. -/
inductive Performs (ids : PipeIds) (g : Gateway) : Action → Gateway → Prop where
  | lost (q : QueueVar) (hkey : q.key ids = none) : Performs ids g (.sysMqSend q) g
  | post (q : QueueVar) (k : Nat) (m : Message) (hkey : q.key ids = some k) :
      Performs ids g (.sysMqSend q) { g with
        queues := g.queues.put k m (passed g.packet.rxPacket g.packet.index.toUInt16) }
  | clear (connHandle : Nat) (connections : Connections) (fault : Bool) :
      Performs ids g (.clearStatus connHandle) { g with connections, fault }
  | count (connections : Connections) : Performs ids g .upadateDisconnection { g with connections }
  | ack (idz : UInt8) : Performs ids g (.dataAck idz) (g.write (dataAck idz.toNat))

theorem performs_of_next {ids : PipeIds} {g g' : Gateway} {a : Action}
    (h : perform ids g a = .next g') : Performs ids g a g' := by
  cases a with
  | sysMqSend q =>
    obtain ⟨hkey, rfl⟩ | ⟨k, m, hkey, rfl⟩ := send_next h
    · exact .lost q hkey
    · exact .post q k m hkey
  | clearStatus connHandle =>
    simp only [perform] at h
    split at h
    · cases h
      exact .clear connHandle g.connections true
    · next connections _ =>
      cases h
      exact .clear connHandle connections g.fault
  | upadateDisconnection =>
    cases h
    exact .count g.connections.upadateDisconnection
  | dataAck idz =>
    cases h
    exact .ack idz

/-- What a step of `UartCmdRxThread` does that goes through. -/
inductive UartMoves (ids : PipeIds) (g : Gateway) : Gateway → Prop where
  | action {a : Action} {as : List Action} {g' : Gateway} (hp : g.pending = a :: as)
      (h : Performs ids { g with pending := as } a g') : UartMoves ids g g'
  | byte {b : UInt8} {input : List UInt8} {framer : Framer} (hp : g.pending = [])
      (hi : g.input = b :: input) (hr : g.framer.rxByte b = (framer, none)) :
      UartMoves ids g { g with input, framer }
  | packet {b : UInt8} {input : List UInt8} {framer : Framer} {packet : Completed}
      (hp : g.pending = []) (hi : g.input = b :: input)
      (hr : g.framer.rxByte b = (framer, some packet)) :
      UartMoves ids g { g with input, framer, packet, pending := dispatch packet.rxPacket }

theorem uartMoves_of_next {ids : PipeIds} {g g' : Gateway} (h : uartStep ids g = .next g') :
    UartMoves ids g g' := by
  unfold uartStep at h
  split at h
  · next a as hp => exact .action hp (performs_of_next h)
  · next hp =>
    split at h
    · cases h
    next b input hi =>
    split at h
    · next framer hr =>
      cases h
      exact .byte hp hi hr
    · next framer packet hr =>
      cases h
      exact .packet hp hi hr

end Gateway

end Ble
