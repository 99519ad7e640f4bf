import BleGateway.ConnRouting
import BleGateway.TableBounds

/-!
# Acknowledgements (`src/UartCmdRxThread.c`, lines 256–282 and 571–590)

`data_ack` answers a write request or a prepare-write request. It gets one byte of the connection
handle.

* `acksOf_eq`: what is written for a packet.
* `acks_run`: in any run of the system, what was acknowledged and what still will be is fixed by the
  byte stream.
* `Sound`: no store has left an array, and none to come leaves the connection table. Of a run that
  sets `fault` nothing is known, since the thread may die at the store.
* `acknowledged_iff`: so requests and acknowledgements correspond one to one exactly if the high
  byte of every request's handle is 0, and the thread gets to all of them exactly if no packet that
  it posts is longer than a record and no Link Terminated event names a handle outside the table.
-/

namespace Ble

open Framer

/-! ## One packet -/

/-- `rx_packet` shows a write request or a prepare-write request. -/
def Completed.IsRequest (c : Completed) : Prop :=
  VendorEvent c.rxPacket ∧ eventCode c.rxPacket ∈ writeRequestEvents

instance (c : Completed) : Decidable c.IsRequest := inferInstanceAs (Decidable (_ ∧ _))

/-- The acknowledgements among the actions. -/
def acksAmong (as : List Action) : List (List UInt8) :=
  (as.filterMap Action.ack?).map fun idz => (dataAck idz.toNat).stored

theorem acksAmong_append (as bs : List Action) :
    acksAmong (as ++ bs) = acksAmong as ++ acksAmong bs := by
  rw [acksAmong, List.filterMap_append, List.map_append]
  rfl

/-- The acknowledgements for a packet. -/
def acksOf (c : Completed) : List (List UInt8) := acksAmong (dispatch c.rxPacket)

theorem AtMostOnePost.acksAmong_eq {as : List Action} (h : AtMostOnePost as) :
    acksAmong as = [] := by
  obtain rfl | ⟨q, rfl⟩ := h
  · rfl
  · rfl

theorem acksAmong_linkTerminated (connHandle : Nat) (b8 : UInt8) :
    acksAmong (linkTerminated connHandle b8) = [] := by
  unfold linkTerminated
  split
  all_goals rfl

theorem acksAmong_byEvent (event : Nat) (p : CArray UInt8 2048) :
    acksAmong (byEvent event p) =
      if event ∈ writeRequestEvents then [(dataAck (p.byte 6).toNat).stored] else [] := by
  by_cases hwrite : event ∈ writeRequestEvents
  · rw [byEvent_writeRequest hwrite, acksAmong_append,
      (atMostOnePost_writeRequestQueue p).acksAmong_eq, if_pos hwrite]
    rfl
  · rw [if_neg hwrite]
    unfold byEvent
    split
    · rfl
    split
    · exact (atMostOnePost_commandStatus _).acksAmong_eq
    split
    · exact acksAmong_linkTerminated _ _
    split
    · exact (atMostOnePost_toPipe _).acksAmong_eq
    · rfl

/-- Every request is acknowledged, whichever queue it went to, unless its handle is taken for one
of two opcodes; and nothing else is. -/
theorem acksOf_eq (c : Completed) :
    acksOf c =
      if c.IsRequest ∧ opcode c.rxPacket ∉ maskedOpcodes then
        [(dataAck (c.rxPacket.byte 6).toNat).stored]
      else [] := by
  by_cases hv : VendorEvent c.rxPacket
  · have hrequest : c.IsRequest ↔ eventCode c.rxPacket ∈ writeRequestEvents := and_iff_right hv
    by_cases hm : opcode c.rxPacket ∈ maskedOpcodes
    · rw [acksOf, dispatch_of_masked hm, if_neg fun h => h.2 hm]
      rfl
    · rw [acksOf, dispatch_of_vendor hv hm, acksAmong_byEvent]
      simp only [hrequest, hm, not_false_eq_true, and_true]
  · rw [acksOf, dispatch_of_not_vendor hv, if_neg fun h => hv h.1.1]
    rfl

/-! ## Stores to the table -/

/-- If the packet gets to the branch of the Link Terminated event, its handle is in the table. -/
def Completed.Inside (c : Completed) : Prop := LinkTerminated c.rxPacket → opcode c.rxPacket < 6

/-- The store of the action, if it has one, is in the table. -/
def Action.Inside : Action → Prop
  | .clearStatus connHandle => connHandle < 6
  | .upadateDisconnection | .sysMqSend _ | .dataAck _ => True

theorem Action.inside_iff (a : Action) : a.Inside ↔ ∀ access ∈ a.accesses, access.index < 6 := by
  cases a with
  | clearStatus connHandle =>
    refine ⟨fun h access ha => ?_, fun h => h _ (List.mem_singleton_self _)⟩
    rw [List.mem_singleton.mp ha]
    exact h
  | upadateDisconnection =>
    exact iff_of_true trivial fun access h => (accesses_upadateDisconnection h).1
  | sysMqSend | dataAck => exact iff_of_true trivial (List.forall_mem_nil _)

/-- The chain stores outside the table for a Link Terminated event only. -/
theorem Completed.inside_iff (c : Completed) :
    c.Inside ↔ ∀ a ∈ dispatch c.rxPacket, a.Inside := by
  have hindex := TableEvent.index_lt_iff ⟨.zero, Vector.replicate 7 0, 0⟩ (.packet c.rxPacket)
  simp only [TableEvent.accesses, List.forall_mem_flatMap] at hindex
  refine hindex.symm.trans (forall₂_congr fun a _ => ?_)
  exact a.inside_iff.symm

/-! ## Runs of the system -/

namespace Gateway

/-- The write responses on the UART. -/
def acknowledged (g : Gateway) : List (List UInt8) := commandsOf vsAttWriteResponse g.output

/-- The acknowledgements to come. -/
def toAck (g : Gateway) : List (List UInt8) :=
  acksAmong g.pending ++ (arriving g.framer g.input).flatMap acksOf

/-- What was acknowledged and what will be. -/
def acks (g : Gateway) : List (List UInt8) := g.acknowledged ++ g.toAck

theorem Performs.acks {ids : PipeIds} {g g' : Gateway} {a : Action} {as : List Action}
    (hp : g.pending = a :: as) (h : Performs ids { g with pending := as } a g') :
    g'.acks = g.acks := by
  have hcons : acksAmong g.pending = acksAmong [a] ++ acksAmong as := by
    rw [hp, ← List.singleton_append, acksAmong_append]
  rw [Gateway.acks, Gateway.acks, toAck, toAck, hcons]
  cases h with
  | lost q hkey => rfl
  | post q k m hkey => rfl
  | clear connHandle connections fault => rfl
  | count connections => rfl
  | ack idz =>
    have hack : acknowledged (write { g with pending := as } (dataAck idz.toNat)) =
        g.acknowledged ++ acksAmong [.dataAck idz] :=
      commandsOf_append_self (commandOpcode_dataAck idz.toNat) g.output
    rw [hack, List.append_assoc, List.append_assoc]
    rfl

theorem uart_acks {ids : PipeIds} {g g' : Gateway} (h : uartStep ids g = .next g') :
    g'.acks = g.acks := by
  cases uartMoves_of_next h with
  | action hp h => exact h.acks hp
  | byte hp hi hr =>
    simp only [acks, acknowledged, toAck, hi, arriving_cons, hr, Option.toList_none,
      List.nil_append]
  | packet hp hi hr =>
    simp only [acks, acknowledged, toAck, hi, hp, arriving_cons, hr, Option.toList_some,
      List.singleton_append, List.flatMap_cons]
    rfl

/-- The forwarder writes no write response. -/
theorem next_not_ack {f f' : Forward} {w : Connections} {pac : Fill UInt8}
    (h : f.next w = .write pac f') : commandOpcode pac.stored ≠ some vsAttWriteResponse := by
  unfold Forward.next at h
  split at h
  · cases h
  · split at h <;> cases h
  · split at h
    · split at h <;> cases h
    · cases h
  · cases h
    rw [commandOpcode_notifyData]
    decide
  · cases h
  · cases h
    rw [commandOpcode_notifyData]
    decide
  · cases h
    rw [commandOpcode_gattWriteValue]
    decide

/-- What a receive leads to that goes through. -/
theorem recv_next {P : Prop} {n : Nat} {g g' : Gateway} {key : Nat} {buf : CArray UInt8 n}
    {cont : Gateway → CArray UInt8 n → UInt16 → Outcome Gateway}
    (hcont : ∀ queues buf size, cont { g with queues } buf size = .next g' → P)
    (h : g.recv key buf cont = .next g') : P := by
  unfold recv at h
  split at h
  · cases h
  split at h
  · cases h
  · exact hcont _ _ _ h

theorem pipe_acks {beyond : Nat → UInt8} {g g' : Gateway} (h : pipeStep beyond g = .next g') :
    g'.acks = g.acks := by
  unfold pipeStep at h
  split at h
  · obtain ⟨-, rfl⟩ | ⟨k, m, -, rfl⟩ := send_next h
    · rfl
    · rfl
  · refine recv_next (fun queues buff _ hc => ?_) h
    split at hc
    · cases hc
    · cases hc
      rfl

theorem forwarder_acks {g g' : Gateway} (h : forwarderStep g = .next g') : g'.acks = g.acks := by
  unfold forwarderStep at h
  split at h
  · cases h
    rfl
  · next pac fwd hnext =>
    cases h
    have hack : acknowledged (g.write pac) = g.acknowledged :=
      commandsOf_append_of_ne (next_not_ack hnext) g.output
    exact congrArg (· ++ g.toAck) hack
  · refine recv_next (fun queues buffer size hc => ?_) h
    cases hc
    rfl
  · refine recv_next (fun queues bufferRx _ hc => ?_) h
    cases hc
    rfl

/-- Every step of the system keeps what was acknowledged and what will be. -/
theorem step_acks {ids : PipeIds} (s : Step) (g g' : Gateway)
    (h : (system ids).step s g = .next g') : g'.acks = g.acks := by
  cases s with
  | thread t =>
    cases t with
    | uartCmdRx => exact uart_acks h
    | pipe0000 beyond => exact pipe_acks h
    | forwardMsgQueue => exact forwarder_acks h
  | central key =>
    simp only [system, step] at h
    refine recv_next (fun queues buffer _ hc => ?_) h
    cases hc
    rfl
  | setParamValue key buffer =>
    simp only [system, step] at h
    refine recv_next (fun queues buffer _ hc => ?_) h
    cases hc
    rfl
  | post key m =>
    cases h
    rfl

/-- The thread has read all its input and done what it led to. -/
def Consumed (g : Gateway) : Prop := g.input = [] ∧ g.pending = []

/-- **The acknowledgements.** In every run of the system that consumes the byte stream, they are
those for its packets, in order. -/
theorem acks_run {ids : PipeIds} {l : Locals} {w : Connections} {input : List UInt8}
    {ts : List Step} {g : Gateway} (hrun : (system ids).run (start l w input) ts = some g)
    (hc : g.Consumed) :
    g.acknowledged = (arriving (.start l.count l.rxPacket) input).flatMap acksOf := by
  have hstart : (start l w input).acks =
      (arriving (.start l.count l.rxPacket) input).flatMap acksOf := rfl
  have hkeep : g.acks = (start l w input).acks :=
    Sched.run_induct (I := fun g => g.acks = (start l w input).acks)
      (fun s g g' hg hs => (step_acks s g g' hs).trans hg) rfl hrun
  have hend : g.acks = g.acknowledged := by
    rw [acks, toAck, hc.1, hc.2]
    exact List.append_nil _
  rw [← hend, hkeep, hstart]

/-! ## Faults -/

/-- No store has left an array, and none to come leaves the connection table. -/
structure Sound (g : Gateway) : Prop where
  fault : g.fault = false
  pending : ∀ a ∈ g.pending, a.Inside
  arriving : ∀ c ∈ arriving g.framer g.input, c.Inside

/-- An action sets `fault` exactly if its store is outside the table. -/
theorem perform_fault {ids : PipeIds} {g g' : Gateway} {a : Action}
    (h : perform ids g a = .next g') : g'.fault = false ↔ g.fault = false ∧ a.Inside := by
  cases a with
  | sysMqSend q =>
    obtain ⟨-, rfl⟩ | ⟨k, m, -, rfl⟩ := send_next h
    · exact (and_iff_left trivial).symm
    · exact (and_iff_left trivial).symm
  | clearStatus connHandle =>
    by_cases hlt : connHandle < 6
    · simp only [perform, Connections.clearStatus, dif_pos hlt] at h
      cases h
      exact (and_iff_left hlt).symm
    · simp only [perform, Connections.clearStatus, dif_neg hlt] at h
      cases h
      exact iff_of_false (by simp) fun h => hlt h.2
  | upadateDisconnection =>
    cases h
    exact (and_iff_left trivial).symm
  | dataAck idz =>
    cases h
    simp [write, dataAck_inBounds, Action.Inside]

/-- A step of the thread is to a sound state exactly from a sound state. -/
theorem uart_sound {ids : PipeIds} {g g' : Gateway} (h : uartStep ids g = .next g') :
    g'.Sound ↔ g.Sound := by
  have hmoves := uartMoves_of_next h
  unfold uartStep at h
  split at h
  · next a as hp =>
    obtain ⟨-, hp', -, hf, hi⟩ := (performs_of_next h).sent 0
    have hfault := perform_fault h
    constructor
    · rintro ⟨h₁, h₂, h₃⟩
      rw [hp'] at h₂
      rw [hf, hi] at h₃
      exact ⟨(hfault.mp h₁).1, hp ▸ List.forall_mem_cons.mpr ⟨(hfault.mp h₁).2, h₂⟩, h₃⟩
    · rintro ⟨h₁, h₂, h₃⟩
      rw [hp, List.forall_mem_cons] at h₂
      refine ⟨hfault.mpr ⟨h₁, h₂.1⟩, ?_, ?_⟩
      · rw [hp']
        exact h₂.2
      · rw [hf, hi]
        exact h₃
  · next hp =>
    cases hmoves with
    | action hp' => rw [hp] at hp'; cases hp'
    | @byte b input framer _ hi hr =>
      have harr : arriving g.framer g.input = arriving framer input := by
        rw [hi, arriving_cons, hr]
        rfl
      exact ⟨fun ⟨h₁, h₂, h₃⟩ => ⟨h₁, h₂, harr ▸ h₃⟩, fun ⟨h₁, h₂, h₃⟩ => ⟨h₁, h₂, harr ▸ h₃⟩⟩
    | @packet b input framer packet _ hi hr =>
      have harr : arriving g.framer g.input = packet :: arriving framer input := by
        rw [hi, arriving_cons, hr]
        rfl
      constructor
      · rintro ⟨h₁, h₂, h₃⟩
        refine ⟨h₁, by rw [hp]; exact List.forall_mem_nil _, ?_⟩
        rw [harr, List.forall_mem_cons]
        exact ⟨packet.inside_iff.mpr h₂, h₃⟩
      · rintro ⟨h₁, -, h₃⟩
        rw [harr, List.forall_mem_cons] at h₃
        exact ⟨h₁, packet.inside_iff.mp h₃.1, h₃.2⟩

/-- The other steps leave the thread alone, and `fault` is never taken back. -/
theorem step_sound {ids : PipeIds} (s : Step) {g g' : Gateway}
    (h : (system ids).step s g = .next g') (hs : g'.Sound) : g.Sound := by
  cases s with
  | thread t =>
    cases t with
    | uartCmdRx => exact (uart_sound h).mp hs
    | pipe0000 beyond =>
      replace h : pipeStep beyond g = .next g' := h
      unfold pipeStep at h
      split at h
      · obtain ⟨-, rfl⟩ | ⟨k, m, -, rfl⟩ := send_next h
        · exact ⟨hs.1, hs.2, hs.3⟩
        · exact ⟨hs.1, hs.2, hs.3⟩
      · refine recv_next (fun queues buff _ hc => ?_) h
        split at hc
        · cases hc
        · cases hc
          exact ⟨hs.1, hs.2, hs.3⟩
    | forwardMsgQueue =>
      replace h : forwarderStep g = .next g' := h
      unfold forwarderStep at h
      split at h
      · cases h
        exact ⟨hs.1, hs.2, hs.3⟩
      · cases h
        have hf : (g.fault || _) = false := hs.1
        exact ⟨(Bool.or_eq_false_iff.mp hf).1, hs.2, hs.3⟩
      · refine recv_next (fun queues buffer size hc => ?_) h
        cases hc
        exact ⟨hs.1, hs.2, hs.3⟩
      · refine recv_next (fun queues bufferRx _ hc => ?_) h
        cases hc
        exact ⟨hs.1, hs.2, hs.3⟩
  | central key =>
    simp only [system, step] at h
    refine recv_next (fun queues buffer _ hc => ?_) h
    cases hc
    exact ⟨hs.1, hs.2, hs.3⟩
  | setParamValue key buffer =>
    simp only [system, step] at h
    refine recv_next (fun queues buffer _ hc => ?_) h
    cases hc
    exact ⟨hs.1, hs.2, hs.3⟩
  | post key m =>
    cases h
    exact ⟨hs.1, hs.2, hs.3⟩

/-- A run without a fault that consumes the byte stream finds no handle outside the table. -/
theorem inside_of_run {ids : PipeIds} {l : Locals} {w : Connections} {input : List UInt8}
    {ts : List Step} {g : Gateway} (hrun : (system ids).run (start l w input) ts = some g)
    (hc : g.Consumed) (hf : g.fault = false) :
    ∀ c ∈ arriving (.start l.count l.rxPacket) input, c.Inside := by
  have hback : g.Sound → (start l w input).Sound :=
    Sched.run_induct (I := fun g => g.Sound → (start l w input).Sound)
      (fun s g g' hg hn hs => hg (step_sound s hn hs)) id hrun
  refine (hback ⟨hf, ?_, ?_⟩).arriving
  · rw [hc.2]
    exact List.forall_mem_nil _
  · rw [hc.1]
    exact List.forall_mem_nil _

/-- The thread alone, from a sound state. -/
theorem uartRun_sound {ids : PipeIds} {n : Nat} {g g' : Gateway}
    (h : uartRun ids n g = some g') (hs : g.Sound) : g'.Sound := by
  have hmeets : (system ids).Meets (fun s _ => s = .thread .uartCmdRx) g
      (List.replicate n (.thread .uartCmdRx)) :=
    Sched.meets_of_forall (fun s hs _ => List.eq_of_mem_replicate hs) g
  refine hmeets.run_induct (I := Sound) (fun s g g' hs ht hn => ?_) hs h
  subst ht
  exact (uart_sound hn).mpr hs

/-! ## The thread alone -/

/-- With packets that fit, the thread consumes its input. -/
theorem uart_consumes (ids : PipeIds) {input : List UInt8} {g : Gateway} (hp : g.pending = [])
    (hi : g.input = input) (hfits : ∀ c ∈ arriving g.framer input, c.Fits) :
    ∃ n g', uartRun ids n g = some g' ∧ g'.Consumed := by
  induction input generalizing g with
  | nil => exact ⟨0, g, rfl, hi, hp⟩
  | cons b input ih =>
    rw [arriving_cons] at hfits
    cases hr : g.framer.rxByte b with
    | mk framer out =>
    rw [hr] at hfits
    cases out with
    | none =>
      have hstep : uartStep ids g = .next { g with input, framer } := by
        simp only [uartStep, hp, hi, hr]
      obtain ⟨n, g', hn, hc⟩ := ih (g := { g with input, framer }) hp rfl hfits
      exact ⟨n + 1, g', by rw [uartRun_succ ids n hstep, hn], hc⟩
    | some packet =>
      have hstep : uartStep ids g = .next
          { g with input, framer, packet, pending := dispatch packet.rxPacket } := by
        simp only [uartStep, hp, hi, hr]
      have hfit := hfits packet List.mem_cons_self
      obtain ⟨g₁, hrun, hp₁, hf₁, hi₁, -⟩ := pending_sent ids
        (g := { g with input, framer, packet, pending := dispatch packet.rxPacket }) rfl
        fun q hq => hfit.resolve_right fun hno => by
          have hmem := mem_posted.mpr hq
          rw [hno] at hmem
          cases hmem
      obtain ⟨n, g', hn, hc⟩ := ih hp₁ hi₁ fun c hc => by
        rw [hf₁] at hc
        exact hfits c (List.mem_cons_of_mem packet hc)
      refine ⟨(dispatch packet.rxPacket).length + n + 1, g', ?_, hc⟩
      rw [uartRun_succ ids _ hstep, uartRun_add, hrun]
      exact hn

/-- Then it waits. -/
theorem uartRun_consumed (ids : PipeIds) (n : Nat) {g : Gateway} (h : g.Consumed) :
    uartRun ids n g = some g := by
  have hblocked : (system ids).step (.thread .uartCmdRx) g = .blocked := by
    have hstep : uartStep ids g = .blocked := by simp only [uartStep, h.1, h.2]
    exact hstep
  induction n with
  | zero => rfl
  | succ n ih =>
    unfold uartRun at ih ⊢
    rw [List.replicate_succ, Sched.run_cons, hblocked]
    exact ih

/-- It consumes its input only if the packets fit. -/
theorem fits_of_consumed (ids : PipeIds) {n : Nat} {l : Locals} {w : Connections}
    {input : List UInt8} {g : Gateway} (hrun : uartRun ids n (start l w input) = some g)
    (hc : g.Consumed) : ∀ c ∈ arriving (.start l.count l.rxPacket) input, c.Fits := by
  refine Classical.byContradiction fun hno => ?_
  obtain ⟨c, hbad⟩ := Classical.not_forall.mp hno
  obtain ⟨hmem, hbad⟩ := Classical.not_imp.mp hbad
  obtain ⟨m, hm⟩ := uart_overruns ids (g := start l w input) rfl rfl ⟨c, hmem, hbad⟩
  -- Run on to `n + m` steps, which overruns in one order and not in the other.
  have hnone : uartRun ids (m + n) (start l w input) = none := by
    rw [uartRun_add, hm, Option.bind_none]
  rw [Nat.add_comm, uartRun_add, hrun, Option.bind_some, uartRun_consumed ids m hc] at hnone
  cases hnone

/-! ## Requests and acknowledgements -/

/-- The connection handles of the requests among the packets. -/
def requests (cs : List Completed) : List (Option Nat) :=
  (cs.filter fun c => c.IsRequest).map fun c => some (opcode c.rxPacket)

theorem requests_cons (c : Completed) (cs : List Completed) :
    requests (c :: cs) =
      (if c.IsRequest then [some (opcode c.rxPacket)] else []) ++ requests cs := by
  by_cases h : c.IsRequest
  · simp [requests, h]
  · simp [requests, h]

theorem commandHandle_dataAck (b : UInt8) :
    commandHandle (dataAck b.toNat).stored = some b.toNat := by
  have hlt := b.toNat_lt
  simp only [dataAck, commandHandle, make16OfXY_eq, toNat_lsbyteOf16Bit, toNat_msbyteOf16Bit]
  congr 1
  omega

/-- The handle of a request, of which the acknowledgement has the low byte. -/
theorem opcode_eq_low_iff (p : CArray UInt8 2048) (b : UInt8) :
    opcode p = b.toNat ↔ p.byte 7 = 0 ∧ p.byte 6 = b := by
  have hlt := (p.byte 6).toNat_lt
  have hlt' := b.toNat_lt
  rw [opcode, make16OfXY_eq, ← UInt8.toNat_inj, ← UInt8.toNat_inj, UInt8.toNat_zero]
  omega

theorem handles_acks_iff (cs : List Completed) :
    (cs.flatMap acksOf).map commandHandle = requests cs ↔
      ∀ c ∈ cs, c.IsRequest → c.rxPacket.byte 7 = 0 := by
  constructor
  · intro h c hc hrequest
    have hmem : some (opcode c.rxPacket) ∈ requests cs :=
      List.mem_map_of_mem (List.mem_filter.mpr ⟨hc, by simpa using hrequest⟩)
    rw [← h] at hmem
    obtain ⟨ack, hack, hhandle⟩ := List.mem_map.mp hmem
    obtain ⟨c', -, hack⟩ := List.mem_flatMap.mp hack
    rw [acksOf_eq] at hack
    split at hack
    · rw [List.mem_singleton.mp hack, commandHandle_dataAck] at hhandle
      exact ((opcode_eq_low_iff _ _).mp (Option.some.inj hhandle).symm).1
    · cases hack
  · intro h
    induction cs with
    | nil => rfl
    | cons c cs ih =>
      obtain ⟨hc, hcs⟩ := List.forall_mem_cons.mp h
      rw [List.flatMap_cons, List.map_append, ih hcs, acksOf_eq, requests_cons]
      by_cases hrequest : c.IsRequest
      · have hopcode := (opcode_eq_low_iff c.rxPacket _).mpr ⟨hc hrequest, rfl⟩
        have hlt := (c.rxPacket.byte 6).toNat_lt
        have hm : opcode c.rxPacket ∉ maskedOpcodes := by
          simp only [maskedOpcodes, List.mem_cons, List.not_mem_nil, or_false]
          omega
        rw [if_pos ⟨hrequest, hm⟩, if_pos hrequest, hopcode, List.map_singleton,
          commandHandle_dataAck]
      · rw [if_neg fun h => hrequest h.1, if_neg hrequest]
        rfl

/-- The write responses carry, one for one and in order, the handles of the requests `cs`. -/
def Acknowledges (g : Gateway) (cs : List Completed) : Prop :=
  g.acknowledged.map commandHandle = requests cs

theorem acknowledges_iff {ids : PipeIds} {l : Locals} {w : Connections} {input : List UInt8}
    {ts : List Step} {g : Gateway} (hrun : (system ids).run (start l w input) ts = some g)
    (hc : g.Consumed) :
    g.Acknowledges (arriving (.start l.count l.rxPacket) input) ↔
      ∀ c ∈ arriving (.start l.count l.rxPacket) input, c.IsRequest → c.rxPacket.byte 7 = 0 := by
  rw [Acknowledges, acks_run hrun hc, handles_acks_iff]

/-- A write request with the connection handle `0x0100`. -/
def highHandle : EventFrame where
  code := 0xFF
  params := [0x12, 0x05, 0x00, 0x00, 0x01, 0x05, 0x00, 0x00, 0x03, 0x00, 0x41]
  le := by decide

end Gateway

end Ble
