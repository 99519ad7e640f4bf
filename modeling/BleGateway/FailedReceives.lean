import BleGateway.Lib.Consumer
import BleGateway.CentralStale
import BleGateway.Forward
import BleGateway.Pipe

/-!
# Failed receives

`sys_mq_recv` can fail. It then returns non-zero and leaves buffer and size as they are, and of all
receives only the forwarder's receive of an answer looks at the result. Each consumer is a machine
whose notes (`Lib/Consumer.lean`) say when it receives and when it acts.

* `pipeLoop`: `pipe_0000_Thread` posts what its iterations make of `buff` (`Pipe.iterate`), message
  or not. `iterate_isSome_iff`: when they post. If they do not, they leave their arrays, which they
  must not either without a message (`PipeContained`).
* `forwardLoop`: `Forward_MSG_Queue_Thread` relays what is in `buffer`. A step runs up to the next
  receive or test of the table (`flush`, by `flush_eq` the next steps of the thread), with a table
  of its own.
* `centralLoop`: `CentralModeThread` acts on a message if it changes its state or writes a command.
  `acts_iff`: when it does so without one.
* `threads_handleOnce_iff`: the runs in which no message is handled twice.
-/

namespace Ble

open Consumer

/-! ## Receiving -/

/-- `sys_mq_recv` into a buffer of 100 bytes, as it leaves the buffer. With a message this is
`sysMqRecv` (`sysMqRecv_recv100`). -/
def recv100 (buffer : CArray UInt8 100) : Option Message → CArray UInt8 100
  | none => buffer
  | some m => CArray.memcpy buffer m.bytes m.fits

/-- `sys_mq_recv`, as it leaves the size. -/
def recvSize (size : UInt16) : Option Message → UInt16
  | none => size
  | some m => m.length

theorem sysMqRecv_recv100 (buffer : CArray UInt8 100) (size : UInt16) (m : Message) :
    sysMqRecv buffer m = some (recv100 buffer (some m), recvSize size (some m)) := dif_pos m.fits

/-! ## The pipe -/

/-- The result of a receive, and the memory behind `buff`. -/
structure PipeInput where
  received : Option Message
  beyond : Nat → UInt8

namespace Pipe

/-- One iteration of `pipe_0000_Thread`. It ends in `sys_mq_send` or, with `none`, outside an
array. -/
def iterate (p : Pipe) (i : PipeInput) : Option (Pipe × Message) := do
  let p ← p.decode (recv100 p.buff i.received) i.beyond
  let dataLength ← p.dataLength
  let m ← sysMqSend p.forwardDataBuff (postSize dataLength)
  return ({ p with dataLength := none }, m)

/-- What is in `buff` is posted, and no array is left: the payload is not too long, and a write
request does not announce no bytes at all. -/
def Postable (buff : CArray UInt8 100) : Prop :=
  payloadLength buff ≤ 97 ∧ ¬ (IsWriteRequest buff ∧ buff.byte 8 = 0)

theorem iterate_isSome_iff (p : Pipe) (i : PipeInput) :
    (p.iterate i).isSome ↔ Postable (recv100 p.buff i.received) := by
  have hdecode := decode_isSome_iff p (recv100 p.buff i.received) i.beyond
  unfold iterate Postable
  cases hd : p.decode (recv100 p.buff i.received) i.beyond with
  | none =>
    rw [hd] at hdecode
    exact iff_of_false (by simp) fun h => absurd (hdecode.mpr h.1) (by simp)
  | some p' =>
    rw [hd] at hdecode
    have hle := hdecode.mp rfl
    have hsend : (sysMqSend p'.forwardDataBuff
        (postSize (payloadLength (recv100 p.buff i.received)))).isSome ↔ _ :=
      (sysMqSend_isSome_iff _ _).trans ((and_self_iff (a := _ ≤ mtextSize)).trans
        (postSize_le_iff hle))
    rw [and_iff_right hle, ← hsend]
    simp only [(decode_eq hd).1, Option.bind_eq_bind, Option.bind_some]
    cases sysMqSend p'.forwardDataBuff (postSize (payloadLength (recv100 p.buff i.received))) <;>
      exact Iff.rfl

end Pipe

/-- The notes of an iteration of the pipe: it acts if it posts. -/
def pipeNotes (p : Pipe) (i : PipeInput) : List Note :=
  [.receive i.received.isSome] ++ if (p.iterate i).isSome then [.act] else []

/-- `pipe_0000_Thread`, up to the first store or copy outside an array. -/
def pipeLoop : Mealy (Option Pipe) PipeInput (List Note) where
  step
    | none, _ => (none, [])
    | some p, i => ((p.iterate i).map (·.1), pipeNotes p i)

/-- If the receive fails, what is in `buff` is not posted. -/
def PipeSilent : Option Pipe → PipeInput → Prop
  | none, _ => True
  | some p, i => i.received = none → ¬ Pipe.Postable p.buff

/-- If the receive fails, the iteration changes no memory outside its arrays. -/
def PipeContained : Option Pipe → PipeInput → Prop
  | none, _ => True
  | some p, i => i.received = none → (p.iterate i).isSome

/-- The receive does not fail. -/
def PipeReceives : Option Pipe → PipeInput → Prop
  | none, _ => True
  | some _, i => i.received ≠ none

theorem pipe_step_handlesOnce (p : Option Pipe) (os : List (List Note)) (i : PipeInput) :
    HandlesOnce (os.flatten ++ (pipeLoop.step p i).2) ↔
      HandlesOnce os.flatten ∧ PipeSilent p i := by
  cases p with
  | none => simp [pipeLoop, PipeSilent]
  | some p =>
    have hposts := p.iterate_isSome_iff i
    simp only [pipeLoop, pipeNotes, PipeSilent]
    by_cases hp : Pipe.Postable (recv100 p.buff i.received)
    · rw [if_pos (hposts.mpr hp), ← List.append_assoc, handlesOnce_act, handlesOnce_receive,
        lastOk_receive]
      refine and_congr_right fun _ => ?_
      cases hr : i.received with
      | none =>
        rw [hr] at hp
        exact iff_of_false (by simp) fun h => h rfl hp
      | some m => exact iff_of_true rfl fun h => by cases h
    · rw [if_neg (mt hposts.mp hp), List.append_nil, handlesOnce_receive]
      refine (and_iff_left fun hr => ?_).symm
      rwa [hr] at hp

/-- Without a message the thread posts or leaves its arrays. -/
theorem silent_and_contained_iff (p : Option Pipe) (i : PipeInput) :
    PipeSilent p i ∧ PipeContained p i ↔ PipeReceives p i := by
  cases p with
  | none => exact and_self_iff
  | some p =>
    have hposts := p.iterate_isSome_iff i
    simp only [PipeSilent, PipeContained, PipeReceives, hposts]
    constructor
    · rintro ⟨hsilent, hcontained⟩ hr
      refine hsilent hr ?_
      have hbuff := hcontained hr
      rwa [hr] at hbuff
    · intro hr
      exact ⟨fun h => absurd h hr, fun h => absurd h hr⟩

theorem pipe_handlesOnce_iff (p : Pipe) (is : List PipeInput) :
    HandlesOnce (pipeLoop.outputs (some p) is).flatten ∧ pipeLoop.Meets PipeContained (some p) is ↔
      pipeLoop.Meets PipeReceives (some p) is := by
  have hsilent : HandlesOnce (pipeLoop.outputs (some p) is).flatten ↔
      pipeLoop.Meets PipeSilent (some p) is :=
    handlesOnce_outputs_iff (I := fun _ _ => True) (fun _ _ _ _ => trivial)
      (fun s os i _ => pipe_step_handlesOnce s os i) trivial is
  rw [hsilent, ← Mealy.meets_and]
  exact Mealy.meets_congr silent_and_contained_iff (some p) is

/-! ## The forwarder -/

namespace Forward

/-- The commands that the thread writes before it looks at a queue or at the table again. -/
def flush (f : Forward) : Forward × List (Fill UInt8) :=
  match f.pc with
  | .notify copy idz retryNeeded =>
    ({ f with pc := .answer copy idz retryNeeded }, [notifyData f.buffer f.size.toNat idz])
  | .peerNotify => ({ f with pc := .slaveTest .peer },
      [notifyData f.buffer f.size.toNat 0, gattWriteValue f.buffer f.size.toNat 0])
  | .peerWrite => ({ f with pc := .slaveTest .peer }, [gattWriteValue f.buffer f.size.toNat 0])
  | _ => (f, [])

/-- They are the next steps of the thread. -/
theorem flush_eq (f : Forward) (w : Connections) :
    f.flush =
      match f.next w with
      | .write pac f' => (f'.flush.1, pac :: f'.flush.2)
      | _ => (f, []) := by
  obtain ⟨pc, buffer, size, connHandleId, bufferRx⟩ := f
  cases pc with
  | slaveTest l => by_cases h : 0 < w.slaveCount <;> simp [flush, next, h]
  | loop l idz =>
    by_cases h : idz < maxNumPeripherals
    · by_cases hv : Visits ⟨.loop l idz, buffer, size, connHandleId, bufferRx⟩ w l idz <;>
        simp [flush, next, h, hv]
    · simp [flush, next, h]
  | recv | notify | answer | peerNotify | peerWrite => rfl

/-- A retry loop whose receive has failed. -/
def onNoRsp (f : Forward) : Forward :=
  match f.pc with
  | .answer copy idz retryNeeded =>
    if retryNeeded < retryCount then { f with pc := .notify copy idz retryNeeded }
    else f.afterRetry copy idz
  | _ => f

end Forward

/-- The thread, and whether the main receive of its iteration found a message. The source does not
keep that. -/
structure Relaying where
  fwd : Forward
  received : Bool

/-- What a step finds: the table, and the results of the receives. -/
structure ForwardInput where
  connections : Connections
  message : Option Message
  answer : Option Message

/-- The main receive, and the branch that it leads to. -/
def Relaying.recv (s : Relaying) (message : Option Message) : Forward :=
  Forward.branch { s.fwd with
    buffer := recv100 s.fwd.buffer message, size := recvSize s.fwd.size message }

/-- What the thread does before it writes again. -/
def Relaying.proceed (s : Relaying) (i : ForwardInput) : Forward :=
  match s.fwd.pc with
  | .recv => s.recv i.message
  | .answer .. =>
    match i.answer with
    | none => s.fwd.onNoRsp
    | some m => s.fwd.onRsp (recv100 s.fwd.bufferRx (some m))
  | _ =>
    match s.fwd.next i.connections with
    | .internal f => f
    | _ => s.fwd

/-- `Forward_MSG_Queue_Thread`. -/
def forwardLoop : Mealy Relaying ForwardInput (List Note) where
  step s i :=
    let atRecv := s.fwd.pc = .recv
    let (fwd, pacs) := (s.proceed i).flush
    ({ fwd, received := if atRecv then i.message.isSome else s.received },
      (if atRecv then [.receive i.message.isSome] else []) ++ pacs.map fun _ => .act)

/-- The thread before its first message. -/
def Relaying.start (f : Forward) : Relaying := ⟨{ f with pc := .recv }, true⟩

/-- The message in `buffer` writes a command before any test of the table: it is a ping, or of a
peer with direction 1. -/
def Eager (buffer : CArray UInt8 100) : Prop :=
  buffer.byte 0 ≠ 0xFF ∧ (buffer.byte 0 = 0xEE ∨ buffer.byte 1 = 0x01)

/-- If the main receive fails, `buffer` still holds a message that is not relayed again: it writes
nothing at once, and no connection is there for it. -/
def ForwardReceives (s : Relaying) (i : ForwardInput) : Prop :=
  match s.fwd.pc with
  | .recv => i.message = none → ¬ Eager s.fwd.buffer
  | .loop l idz => s.received = false → idz < maxNumPeripherals →
      ¬ s.fwd.Visits i.connections l idz
  | _ => True

namespace Relaying

/-- How many commands the step writes. -/
def commands (s : Relaying) (i : ForwardInput) : Nat := (s.proceed i).flush.2.length

/-- The receive of the step, if it has one. -/
def receives (s : Relaying) (i : ForwardInput) : List Note :=
  if s.fwd.pc = .recv then [.receive i.message.isSome] else []

theorem step_notes (s : Relaying) (i : ForwardInput) :
    (forwardLoop.step s i).2 = s.receives i ++ List.replicate (s.commands i) .act := by
  rw [commands, ← List.map_const']
  rfl

/-- What a step knows of the run behind it: the receive of the iteration, and that in an iteration
without a message the thread only waits for an answer if it has already written. -/
structure Steady (s : Relaying) (os : List (List Note)) : Prop where
  last : LastOk os.flatten ↔ s.received = true
  rest : s.fwd.flush.2 = []
  wrote : s.received = false → ∀ copy idz r, s.fwd.pc = .answer copy idz r →
    ¬ HandlesOnce os.flatten

theorem flush_rest (f : Forward) : f.flush.1.flush.2 = [] := by
  obtain ⟨pc, buffer, size, connHandleId, bufferRx⟩ := f
  cases pc <;> rfl

/-- Where the thread waits for an answer after a step, the step has written. -/
theorem commands_of_answer {f : Forward} {copy : Retry} {idz : Nat} {r : UInt8}
    (h : f.flush.1.pc = .answer copy idz r) :
    0 < f.flush.2.length ∨ f.pc = .answer copy idz r := by
  obtain ⟨pc, buffer, size, connHandleId, bufferRx⟩ := f
  cases pc with
  | answer => exact .inr h
  | notify => exact .inl (Nat.succ_pos 0)
  | recv | slaveTest | loop | peerNotify | peerWrite => cases h

theorem afterRetry_pc (f : Forward) (c : Retry) (j : Nat) (copy : Retry) (idz : Nat) (r : UInt8) :
    (f.afterRetry c j).pc ≠ .answer copy idz r := by
  cases c <;> simp [Forward.afterRetry]

/-- No step leads to a wait for an answer but through a command. -/
theorem proceed_pc (s : Relaying) (i : ForwardInput) (copy : Retry) (idz : Nat) (r : UInt8) :
    (s.proceed i).pc ≠ .answer copy idz r := by
  obtain ⟨⟨pc, buffer, size, connHandleId, bufferRx⟩, received⟩ := s
  obtain ⟨w, message, answer⟩ := i
  cases pc with
  | recv =>
    simp only [proceed, recv, Forward.branch]
    repeat' split
    all_goals simp
  | slaveTest l => by_cases h : 0 < w.slaveCount <;> simp [proceed, Forward.next, h]
  | loop l j =>
    simp only [proceed, Forward.next]
    by_cases h : j < maxNumPeripherals
    · by_cases hv : Forward.Visits ⟨.loop l j, buffer, size, connHandleId, bufferRx⟩ w l j <;>
        simp [h, hv]
    · simp [h]
  | notify | peerNotify | peerWrite => simp [proceed, Forward.next]
  | answer c j r' =>
    cases answer with
    | none =>
      simp only [proceed, Forward.onNoRsp]
      split
      · simp
      · exact afterRetry_pc _ c j copy idz r
    | some m =>
      simp only [proceed, Forward.onRsp]
      split
      · simp
      · exact afterRetry_pc _ c j copy idz r

theorem lastOk_receives {s : Relaying} {os : List (List Note)} (h : Steady s os)
    (i : ForwardInput) :
    LastOk (os.flatten ++ s.receives i) ↔ (forwardLoop.step s i).1.received = true := by
  simp only [receives, forwardLoop]
  split
  · exact lastOk_receive _ _
  · rw [List.append_nil]
    exact h.last

/-- A step handles everything once if what it writes is for a message of this iteration. -/
theorem step_handlesOnce {s : Relaying} {os : List (List Note)} (h : Steady s os)
    (i : ForwardInput) :
    HandlesOnce (os.flatten ++ (forwardLoop.step s i).2) ↔
      HandlesOnce os.flatten ∧
        (0 < s.commands i → (forwardLoop.step s i).1.received = true) := by
  have hrecv : HandlesOnce (os.flatten ++ s.receives i) ↔ HandlesOnce os.flatten := by
    unfold receives
    split
    · exact handlesOnce_receive _ _
    · rw [List.append_nil]
  rw [step_notes, ← List.append_assoc, handlesOnce_acts, hrecv, lastOk_receives h]

theorem step_steady (s : Relaying) (os : List (List Note)) (i : ForwardInput)
    (h : Steady s os) : Steady (forwardLoop.step s i).1 (os ++ [(forwardLoop.step s i).2]) where
  last := by
    rw [List.flatten_append, List.flatten_singleton, step_notes, ← List.append_assoc, lastOk_acts,
      lastOk_receives h]
  rest := flush_rest _
  wrote := by
    intro hr copy idz r hpc honce
    rw [List.flatten_append, List.flatten_singleton] at honce
    have hpos := (commands_of_answer hpc).resolve_right (s.proceed_pc i copy idz r)
    rw [((step_handlesOnce h i).mp honce).2 hpos] at hr
    cases hr

/-- The branch of a message writes at once exactly if the message is eager. -/
theorem flush_branch (f : Forward) : 0 < f.branch.flush.2.length ↔ Eager f.buffer := by
  unfold Forward.branch Eager
  dsimp only
  by_cases hff : f.buffer.byte 0 = 0xFF
  · simp [hff, Forward.flush]
  · by_cases hee : f.buffer.byte 0 = 0xEE
    · simp [hee, Forward.flush]
    · by_cases h1 : f.buffer.byte 1 = 0x01
      · simp [hff, hee, h1, Forward.flush]
      · simp [hff, hee, h1, Forward.flush]

/-- A step of an iteration without a message writes exactly if its condition fails. -/
theorem step_receives {s : Relaying} {os : List (List Note)} (h : Steady s os)
    (honce : HandlesOnce os.flatten) (i : ForwardInput) :
    (0 < s.commands i → (forwardLoop.step s i).1.received = true) ↔ ForwardReceives s i := by
  obtain ⟨f, received⟩ := s
  cases hpc : f.pc with
  | recv =>
    have hcmd : commands ⟨f, received⟩ i =
        (recv ⟨f, received⟩ i.message).flush.2.length := by
      simp only [commands, proceed, hpc]
    have hrec : (forwardLoop.step ⟨f, received⟩ i).1.received = i.message.isSome := by
      simp only [forwardLoop, hpc, if_true]
    rw [hcmd, hrec]
    simp only [ForwardReceives, hpc]
    cases i.message with
    | none =>
      rw [recv, flush_branch]
      simp [recv100]
    | some m => simp
  | slaveTest l =>
    by_cases hs : 0 < i.connections.slaveCount <;>
      simp [commands, proceed, Forward.next, Forward.flush, ForwardReceives, hpc, hs]
  | loop l idz =>
    have hrec : (forwardLoop.step ⟨f, received⟩ i).1.received = received := by
      simp [forwardLoop, hpc]
    rw [hrec]
    by_cases hlt : idz < maxNumPeripherals
    · by_cases hv : f.Visits i.connections l idz <;>
        simp [commands, proceed, Forward.next, Forward.flush, ForwardReceives, hpc, hlt, hv]
    · simp [commands, proceed, Forward.next, Forward.flush, ForwardReceives, hpc, hlt]
  | answer copy idz r =>
    have hrec : (forwardLoop.step ⟨f, received⟩ i).1.received = received := by
      simp [forwardLoop, hpc]
    have hok : received = true := by
      cases hr : received with
      | true => rfl
      | false => exact absurd honce (h.wrote hr copy idz r hpc)
    rw [hrec, hok]
    simp [ForwardReceives, hpc]
  | notify | peerNotify | peerWrite =>
    have := h.rest
    simp [Forward.flush, hpc] at this

end Relaying

theorem forward_handlesOnce_iff (f : Forward) (is : List ForwardInput) :
    HandlesOnce (forwardLoop.outputs (.start f) is).flatten ↔
      forwardLoop.Meets ForwardReceives (.start f) is := by
  have hstart : Relaying.Steady (.start f) [] :=
    ⟨iff_of_true lastOk_nil rfl, rfl, fun hr => by cases hr⟩
  exact handlesOnce_outputs_iff Relaying.step_steady
    (fun s os i hs => (Relaying.step_handlesOnce hs i).trans
      (and_congr_right fun ho => Relaying.step_receives hs ho i)) hstart is

/-! ## The central-mode thread -/

namespace CentralMode

def isReceive : CentralEvent → Bool
  | .receive _ _ => true
  | _ => false

def isWrite : CentralEvent → Bool
  | .write _ _ => true
  | _ => false

/-- The iteration from `s` to `s'` with the events `es` changes the state, the address or the handle
or writes a command. -/
def Acts (s s' : CentralMode) (es : List CentralEvent) : Prop :=
  s'.centralState ≠ s.centralState ∨ s'.scannedMacBuff ≠ s.scannedMacBuff ∨
    s'.connHandle ≠ s.connHandle ∨ s'.bonding ≠ s.bonding ∨ es.any isWrite = true

instance (s s' : CentralMode) (es : List CentralEvent) : Decidable (Acts s s' es) :=
  inferInstanceAs (Decidable (_ ∨ _))

/-- The notes of an iteration: none if it does not receive. -/
def notes (s : CentralMode) (i : CentralInput) : List Note :=
  if (step s i).2.any isReceive then
    [.receive i.received.isSome] ++ if Acts s (step s i).1 (step s i).2 then [.act] else []
  else []

/-- `CentralModeThread`. -/
def centralLoop : Mealy CentralMode CentralInput (List Note) where
  step s i := ((step s i).1, notes s i)

/-- `Device_Scan_Data` returns nothing for what is in `buffer`, and its caller reads the end of the
scan or a match. -/
def TakenForScan (buffer : CArray UInt8 256) (noReturn : Option Int) : Prop :=
  UInt8.ofInt (noReturn.getD (if IsEvent buffer vsGapDeviceDiscovery then 1 else -1)) ∈
    [1, (2 : UInt8)]

/-- If the receive of an iteration fails, what is left in `buffer` moves nothing. -/
def Unmoved (s : CentralMode) (i : CentralInput) : Prop :=
  s.bonding = false → i.received = none →
    match s.centralState with
    | .deviceScanReq =>
      ¬ (deviceConnCount i.connDeviceList < 4 ∧ complete deviceScanReqPac i = true)
    | .deviceScanData => ¬ Found s.buffer ∧ ¬ TakenForScan s.buffer i.noReturn
    | .deviceScanCancelRsp => ¬ Cancelled s.buffer
    | .deviceEstablishLinkRsp =>
      ¬ IsEvent s.buffer vsGapLinkEstablished ∧ ¬ TakenForLink s.buffer i.noReturn
    | _ => True

theorem afterScanData_eq_iff (bleStatus : UInt8) :
    afterScanData bleStatus = .deviceScanData ↔ bleStatus ∉ [1, (2 : UInt8)] := by
  simp only [afterScanData, List.mem_cons, List.not_mem_nil, or_false, not_or]
  split
  · next h =>
    subst h
    exact iff_of_true rfl ⟨by decide, by decide⟩
  split
  · next h => exact iff_of_false (by decide) fun h' => h'.1 h
  split
  · next h => exact iff_of_false (by decide) fun h' => h'.2 h
  split
  · omega
  · next h1 h2 _ => exact iff_of_true rfl ⟨h1, h2⟩

/-! ### One iteration in each receiving state, if nothing is received -/

/-- An iteration that receives and changes the state at most. -/
theorem acts_receive_iff (s : CentralMode) (buffer : CArray UInt8 256) (c : CentralState)
    (h : Handler) (buffer' : CArray UInt8 256) :
    Acts s { s with buffer, centralState := c } [.receive h buffer'] ↔ c ≠ s.centralState := by
  simp [Acts, isWrite]

theorem acts_deviceScanReq {s : CentralMode} (hb : s.bonding = false)
    (hs : s.centralState = .deviceScanReq) (i : CentralInput) :
    Acts s (step s i).1 (step s i).2 := by
  refine .inl ?_
  simp only [step, hb, hs, Bool.false_eq_true, if_false]
  split
  · simp
  · simp

theorem acts_deviceScanData {s : CentralMode} (hb : s.bonding = false)
    (hs : s.centralState = .deviceScanData) {i : CentralInput} (hn : i.received = none) :
    Acts s (step s i).1 (step s i).2 ↔ Found s.buffer ∨ TakenForScan s.buffer i.noReturn := by
  by_cases hf : Found s.buffer
  · refine iff_of_true (.inl ?_) (.inl hf)
    simp only [step, hb, hs, Bool.false_eq_true, if_false, hn, sysMqRecvBuffer,
      deviceScanData_found hf, Exit.read_returned]
    decide
  · have hstep : step s i = ({ s with
          buffer := s.buffer
          centralState := afterScanData (UInt8.ofInt
            (i.noReturn.getD (if IsEvent s.buffer vsGapDeviceDiscovery then 1 else -1))) },
        [.receive .deviceScanData s.buffer]) := by
      simp only [step, hb, hs, Bool.false_eq_true, if_false, hn, sysMqRecvBuffer,
        deviceScanData_not_found hf, Exit.read]
    rw [hstep, acts_receive_iff, hs, Ne, afterScanData_eq_iff, Decidable.not_not]
    exact (or_iff_right hf).symm

theorem acts_deviceScanCancelRsp {s : CentralMode} (hb : s.bonding = false)
    (hs : s.centralState = .deviceScanCancelRsp) {i : CentralInput} (hn : i.received = none) :
    Acts s (step s i).1 (step s i).2 ↔ Cancelled s.buffer := by
  have hstep : step s i = ({ s with
        buffer := s.buffer
        centralState := if UInt8.ofInt (deviceScanCancelRsp s.buffer) = 0 then
          .deviceEstablishLinkReq else .deviceScanCancelRsp },
      [.receive .deviceScanCancelRsp s.buffer]) := by
    simp only [step, hb, hs, Bool.false_eq_true, if_false, hn, sysMqRecvBuffer]
  rw [hstep, acts_receive_iff, hs, ← deviceScanCancelRsp_eq_zero_iff]
  split
  · next h => exact iff_of_true (by decide) h
  · next h => exact iff_of_false (by decide) h

theorem acts_deviceEstablishLinkRsp {s : CentralMode} (hb : s.bonding = false)
    (hs : s.centralState = .deviceEstablishLinkRsp) {i : CentralInput} (hn : i.received = none) :
    Acts s (step s i).1 (step s i).2 ↔
      IsEvent s.buffer vsGapLinkEstablished ∨ TakenForLink s.buffer i.noReturn := by
  by_cases he : IsEvent s.buffer vsGapLinkEstablished
  · have hbond : (step s i).1.bonding = true := by
      simp only [step, hb, hs, Bool.false_eq_true, if_false, hn, sysMqRecvBuffer,
        deviceEstablishLinkRsp_established he, Exit.read_returned, show UInt8.ofInt 0 = 0 from rfl,
        if_true]
    refine iff_of_true (.inr (.inr (.inr (.inl ?_)))) (.inl he)
    simp [hbond, hb]
  · obtain ⟨exit, hrsp, hread⟩ :=
      read_deviceEstablishLinkRsp he s.scannedMacBuff s.connHandle i.noReturn
    rw [or_iff_right he, ← hread]
    simp only [step, hb, hs, Bool.false_eq_true, if_false, hn, sysMqRecvBuffer, hrsp]
    split
    · next h0 =>
      refine iff_of_true (.inr (.inr (.inr (.inl ?_)))) h0
      simp [hb]
    · next h0 =>
      refine iff_of_false ?_ h0
      simp [Acts, isWrite, hs, hb]

/-! ### The notes of an iteration -/

theorem any_isReceive {es : List CentralEvent} :
    es.any isReceive = true ↔ ∃ h buffer, .receive h buffer ∈ es := by
  rw [List.any_eq_true]
  constructor
  · rintro ⟨e, he, hr⟩
    cases e with
    | receive h buffer => exact ⟨h, buffer, he⟩
    | write | bond => cases hr
  · rintro ⟨h, buffer, he⟩
    exact ⟨_, he, rfl⟩

theorem handlesOnce_notes (ns : List Note) (s : CentralMode) (i : CentralInput) :
    HandlesOnce (ns ++ notes s i) ↔ HandlesOnce ns ∧
      ((∃ h buffer, .receive h buffer ∈ (step s i).2) → Acts s (step s i).1 (step s i).2 →
        i.received.isSome = true) := by
  rw [← any_isReceive]
  unfold notes
  by_cases hr : (step s i).2.any isReceive = true
  · rw [if_pos hr]
    by_cases ha : Acts s (step s i).1 (step s i).2
    · rw [if_pos ha, ← List.append_assoc, handlesOnce_act, handlesOnce_receive, lastOk_receive]
      simp only [hr, ha, forall_const]
    · rw [if_neg ha, List.append_nil, handlesOnce_receive]
      simp only [ha, false_imp_iff, implies_true, and_true]
  · rw [if_neg hr, List.append_nil]
    simp only [hr, false_imp_iff, and_true, Bool.false_eq_true]

/-- `Device_Scan_Req` writes, and then receives. -/
theorem receives_deviceScanReq {s : CentralMode} (hb : s.bonding = false)
    (hs : s.centralState = .deviceScanReq) (i : CentralInput) :
    (∃ h buffer, .receive h buffer ∈ (step s i).2) ↔
      deviceConnCount i.connDeviceList < 4 ∧ complete deviceScanReqPac i = true := by
  simp only [step, hb, hs, Bool.false_eq_true, if_false, deviceScanReq]
  by_cases hc : deviceConnCount i.connDeviceList < 4
  · by_cases hw : complete deviceScanReqPac i = true
    · simp [hc, hw]
    · simp [hc, hw]
  · simp [hc]

/-- The other receiving states always receive. -/
theorem receives_of_handler {s : CentralMode} {h : Handler} (hh : h ≠ .deviceScanRsp)
    (hb : s.bonding = false) (hs : s.centralState = handlerState h) (i : CentralInput) :
    ∃ h buffer, .receive h buffer ∈ (step s i).2 := by
  refine ⟨h, sysMqRecvBuffer s.buffer i.received, ?_⟩
  cases h with
  | deviceScanRsp => exact absurd rfl hh
  | deviceScanData => simp [step, hb, show s.centralState = .deviceScanData from hs]
  | deviceScanCancelRsp => simp [step, hb, show s.centralState = .deviceScanCancelRsp from hs]
  | deviceEstablishLinkRsp =>
    simp only [step, hb, show s.centralState = .deviceEstablishLinkRsp from hs,
      Bool.false_eq_true, if_false]
    split
    · simp
    · simp

/-- An iteration that receives nothing acts exactly where what is left in `buffer` moves it. -/
theorem acts_iff (s : CentralMode) (i : CentralInput) :
    ((∃ h buffer, .receive h buffer ∈ (step s i).2) → Acts s (step s i).1 (step s i).2 →
      i.received.isSome = true) ↔ Unmoved s i := by
  unfold Unmoved
  cases hb : s.bonding with
  | true =>
    refine iff_of_true (fun ⟨_, _, hr⟩ => ?_) fun h => by cases h
    rw [step, if_pos hb] at hr
    cases hr
  | false =>
  cases hn : i.received with
  | some r => exact iff_of_true (fun _ _ => rfl) fun _ h => by cases h
  | none =>
    simp only [Option.isSome_none, Bool.false_eq_true, imp_false, forall_const]
    cases hs : s.centralState with
    | deviceScanReq =>
      rw [receives_deviceScanReq hb hs]
      exact imp_congr_right fun _ => iff_of_false (fun h => h (acts_deviceScanReq hb hs i)) id
    | deviceScanData =>
      rw [acts_deviceScanData hb hs hn, not_or]
      exact forall_prop_of_true (receives_of_handler (h := .deviceScanData) (by decide) hb hs i)
    | deviceScanCancelRsp =>
      rw [acts_deviceScanCancelRsp hb hs hn]
      exact forall_prop_of_true
        (receives_of_handler (h := .deviceScanCancelRsp) (by decide) hb hs i)
    | deviceEstablishLinkRsp =>
      rw [acts_deviceEstablishLinkRsp hb hs hn, not_or]
      exact forall_prop_of_true
        (receives_of_handler (h := .deviceEstablishLinkRsp) (by decide) hb hs i)
    | init | deviceScanCancel | deviceEstablishLinkReq | enableNotification =>
      refine iff_of_true (fun ⟨_, _, hr⟩ => ?_) trivial
      simp [step, hb, hs] at hr

theorem central_handlesOnce_iff (is : List CentralInput) :
    HandlesOnce (centralLoop.outputs boot is).flatten ↔ centralLoop.Meets Unmoved boot is :=
  handlesOnce_outputs_iff (I := fun _ _ => True) (fun _ _ _ _ => trivial)
    (fun s os i _ => (handlesOnce_notes os.flatten s i).trans
      (and_congr_right fun _ => acts_iff s i)) trivial is

end CentralMode

/-! ## All three -/

/-- **Failed receives.** In a run of each of the three threads no message is handled twice and
nothing is done without one, exactly if no receive of the pipe fails; after every failed receive of
the forwarder, the message that is still in `buffer` finds nobody to be relayed to; and after every
failed receive of the central-mode thread, what is in `buffer` moves nothing in the state that finds
it there. -/
theorem threads_handleOnce_iff (p : Pipe) (pipeInputs : List PipeInput) (f : Forward)
    (forwardInputs : List ForwardInput) (centralInputs : List CentralInput) :
    (HandlesOnce (pipeLoop.outputs (some p) pipeInputs).flatten ∧
        pipeLoop.Meets PipeContained (some p) pipeInputs ↔
      pipeLoop.Meets PipeReceives (some p) pipeInputs) ∧
      (HandlesOnce (forwardLoop.outputs (.start f) forwardInputs).flatten ↔
        forwardLoop.Meets ForwardReceives (.start f) forwardInputs) ∧
      (HandlesOnce (CentralMode.centralLoop.outputs CentralMode.boot centralInputs).flatten ↔
        CentralMode.centralLoop.Meets CentralMode.Unmoved CentralMode.boot centralInputs) :=
  ⟨pipe_handlesOnce_iff p pipeInputs, forward_handlesOnce_iff f forwardInputs,
    CentralMode.central_handlesOnce_iff centralInputs⟩

/-- A notification of one byte, for the pipe. -/
def oneNotification : Message :=
  ⟨[0x04, 0xFF, 0x09, 0x1B, 0x05, 0x00, 0x00, 0x00, 0x03, 0x0E, 0x00, 0x41], by decide⟩

/-- The pipe forwards it a second time when the next receive fails. -/
theorem not_handlesOnce_pipe : ¬ ∀ (p : Pipe) (is : List PipeInput),
    HandlesOnce (pipeLoop.outputs (some p) is).flatten := by
  intro h
  let p : Pipe := ⟨Vector.replicate 100 0, Vector.replicate 100 0, none⟩
  let is : List PipeInput := [⟨some oneNotification, fun _ => 0⟩, ⟨none, fun _ => 0⟩]
  have hacted : Consumer.actedOn (Consumer.iterations (pipeLoop.outputs (some p) is).flatten) =
      [1, 1] := by decide
  have := (h p is).once
  rw [hacted] at this
  exact absurd this (by decide)

end Ble
