import Mathlib.Data.List.Forall2
import BleGateway.Gateway
import BleGateway.Resync
import BleGateway.Stale

/-!
# Messages and the arrays they are copied to

No copy of a message is checked. Which of them stay inside a record and inside the receiver's buffer
is decided by the bytes on the UART, and by the messages that two of the receivers find.

* `packets`: the packets of an arbitrary byte stream. `counted` is what `index` counts of one.
* `packets_run`: the framer completes exactly these.
* `PacketsFit`: every packet that the dispatch chain posts is counted as at most 100 bytes.
* `MessagesFit`: the pipe thread and `SetParamValue` find messages that their arrays hold.
* `intact_iff`: if the packets fit, then a run overruns nothing, and delivers every message as it
  was sent, exactly if its messages fit. If they do not, some run overruns a record.
-/

namespace Ble

open Framer

/-! ## Packets of a stream -/

/-- The packets that the bytes `s` complete, where the bytes `lead`, a run of `0x02`, stand in front
of them: each is such a run, `04 code L`, and `max L 1` bytes. Behind a run of `0x02` that another
byte follows there is none. -/
def packets (lead : List UInt8) : List UInt8 → List (List UInt8)
  | [] => []
  | b :: s =>
    if b = bleEvtPkt then
      match s with
      | code :: len :: ps =>
        if ps.length < max len.toNat 1 then []
        else (lead ++ bleEvtPkt :: code :: len :: ps.take (max len.toNat 1)) ::
          packets [] (ps.drop (max len.toNat 1))
      | _ => []
    else if b = bleAsdPkt then packets (lead ++ [b]) s
    else if lead = [] then packets [] s
    else []
termination_by s => s.length
decreasing_by all_goals simp +arith

/-- What `index` counts of the packet `k`: the bytes stored since it last was 0. -/
def counted (k : List UInt8) : List UInt8 := k.drop (256 * (k.length / 256))

theorem length_counted (k : List UInt8) : (counted k).length = k.length % 256 := by
  rw [counted, List.length_drop]
  omega

theorem counted_eq_self {k : List UInt8} (h : k.length < 256) : counted k = k := by
  rw [counted, Nat.div_eq_of_lt h]
  rfl

/-- A frame with at least one parameter byte is a packet of its own. -/
theorem packets_frame {f : EventFrame} (h1 : 1 ≤ f.params.length) (s : List UInt8) :
    packets [] (f.bytes ++ s) = f.bytes :: packets [] s := by
  have hl : max (UInt8.ofNat f.params.length).toNat 1 = f.params.length := by
    rw [f.toNat_length]
    omega
  rw [EventFrame.bytes, List.cons_append, List.cons_append, List.cons_append, packets]
  simp only [↓reduceIte, hl, List.length_append, List.nil_append, List.take_left, List.drop_left]
  rw [if_neg (by omega)]

namespace Framer

theorem completed_append (s : Framer) (bs cs : List UInt8) :
    s.completed (bs ++ cs) = (s.storeAll bs).completed cs := by
  rw [completed, storeAll_append, completed]

/-- A packet of any length, as the dispatch chain finds it. -/
theorem completed_counted {s : Framer} (h0 : s.index = 0) (k : List UInt8) :
    (s.completed k).Is (counted k) := by
  have hsplit : k = k.take (256 * (k.length / 256)) ++ counted k := (List.take_append_drop ..).symm
  have hz : (s.storeAll (k.take (256 * (k.length / 256)))).index = 0 := by
    apply UInt8.toNat.inj
    rw [toNat_storeAll_index, h0, List.length_take]
    have : (0 : UInt8).toNat = 0 := rfl
    omega
  rw [hsplit, completed_append, ← hsplit]
  exact completed_is hz (by rw [length_counted]; omega)

/-- The framer `s` has stored `lead` from the state `s₀` with `index` 0 on, and no packet header. -/
structure Leads (s₀ : Framer) (lead : List UInt8) (s : Framer) : Prop where
  zero : s₀.index = 0
  idle : lead = [] → s.AtBoundary
  init : lead ≠ [] → s.currentState = .init
  stored : ∀ k, s.completed k = s₀.completed (lead ++ k)

theorem leads_of_atBoundary {s : Framer} (h : s.AtBoundary) : Leads s [] s :=
  ⟨h.2, fun _ => h, fun hn => absurd rfl hn, fun _ => rfl⟩

theorem Leads.ready {s₀ s : Framer} {lead : List UInt8} (h : Leads s₀ lead s) : s.Ready := by
  by_cases hl : lead = []
  · exact .inl (h.idle hl)
  · exact .inr (h.init hl)

/-- One more `0x02`. -/
theorem Leads.step {s₀ s : Framer} {lead : List UInt8} (h : Leads s₀ lead s) :
    ∃ s', rxByte s bleAsdPkt = (s', none) ∧ Leads s₀ (lead ++ [bleAsdPkt]) s' := by
  have hstep : rxByte s bleAsdPkt = ({ s.store bleAsdPkt with currentState := .init }, none) := by
    obtain hs | hs := h.ready
    · exact rxByte_idle_asd hs
    · rw [rxByte_init_asd hs, ← hs]
      rfl
  refine ⟨_, hstep, h.zero, fun hl => by simp at hl, fun _ => rfl, fun k => ?_⟩
  have hst := storeAll_with (s.store bleAsdPkt) .init (s.store bleAsdPkt).count k
  rw [List.append_assoc, List.singleton_append, ← h.stored, completed, completed, hst]
  rfl

theorem arriving_none {s : Framer} {bs : List UInt8} {n : Nat}
    (h : machine.outputs s bs = List.replicate n none) : arriving s bs = [] := by
  simp [arriving, h]

theorem arriving_error {s : Framer} (h : s.currentState = .error) (bs : List UInt8) :
    arriving s bs = [] := by
  unfold arriving
  rw [List.filterMap_eq_nil_iff]
  intro o ho
  rw [trapped_of_error h bs o ho]
  rfl

/-- A header that breaks off completes nothing. -/
theorem arriving_header {s : Framer} (h : s.Ready) {bs : List UInt8}
    (hb : ∀ code len ps, bs ≠ code :: len :: ps) : arriving s (bleEvtPkt :: bs) = [] := by
  rw [arriving_cons, rxByte_ready_evt h]
  match bs with
  | [] => rfl
  | [code] =>
    rw [arriving_cons, rxByte_eventResponse rfl]
    rfl
  | code :: len :: ps => exact absurd rfl (hb code len ps)

/-- The framer completes the packets of a stream, and nothing else. -/
theorem packets_run {s₀ s : Framer} {lead : List UInt8} (h : Leads s₀ lead s) (bs : List UInt8) :
    List.Forall₂ (fun c k => c.Is (counted k)) (arriving s bs) (packets lead bs) := by
  fun_induction packets lead bs generalizing s₀ s with
  | case1 lead => exact .nil
  | case2 lead code len ps hl =>
    rw [arriving_none (packet_open h.ready code len ps hl).2.2]
    exact .nil
  | case3 lead code len ps hl ih =>
    have htake : (ps.take (max len.toNat 1)).length = max len.toNat 1 := by
      rw [List.length_take]
      omega
    obtain ⟨hafter, hout⟩ := packet_run h.ready code len _ htake
    have hb : (machine.after s
        (bleEvtPkt :: code :: len :: ps.take (max len.toNat 1))).AtBoundary := by
      rw [hafter]
      exact ⟨rfl, rfl⟩
    have hsplit : bleEvtPkt :: code :: len :: ps =
        (bleEvtPkt :: code :: len :: ps.take (max len.toNat 1)) ++ ps.drop (max len.toNat 1) := by
      simp
    have hnone (n : Nat) : (List.replicate n (none : Option Completed)).filterMap id = [] := by
      rw [List.filterMap_replicate_of_none rfl]
    rw [hsplit, arriving_append, arriving, hout, List.filterMap_append, h.stored, hnone]
    exact .cons (completed_counted h.zero _) (ih (leads_of_atBoundary hb))
  | case4 lead s hs =>
    rw [arriving_header h.ready hs]
    exact .nil
  | case5 lead bs hb ih =>
    obtain ⟨s', hstep, h'⟩ := h.step
    rw [arriving_cons, hstep]
    exact ih h'
  | case6 bs b hb h4 ih =>
    have hat := h.idle rfl
    rw [arriving_cons, rxByte_idle_noise hat h4 hb]
    exact ih (leads_of_atBoundary ⟨hat.1, rfl⟩)
  | case7 lead b bs hb h4 hl =>
    rw [arriving_cons, rxByte_init_other (h.init hl) h4 hb, arriving_error rfl]
    exact .nil

end Framer

/-! ## Packets that fit -/

/-- `rx_packet` with `l` at its front and zeros behind. -/
def rxOf (l : List UInt8) : CArray UInt8 2048 :=
  CArray.memcpy (Vector.replicate 2048 0) (l.take 2048) (by rw [List.length_take]; omega)

/-- The packet `k` is counted as at most 100 bytes, or the chain does not post it. -/
def PacketFits (k : List UInt8) : Prop :=
  (counted k).length ≤ mtextSize ∨ posted (rxOf (counted k)) = []

/-- Every packet of the stream fits. -/
def PacketsFit (input : List UInt8) : Prop := ∀ k ∈ packets [] input, PacketFits k

/-- The same for a packet in `rx_packet`. -/
def Completed.Fits (c : Completed) : Prop :=
  c.index.toNat ≤ mtextSize ∨ posted c.rxPacket = []

private theorem ite_le {c : Prop} [Decidable c] {a b n : Nat} (ha : a ≤ n) (hb : b ≤ n) :
    (if c then a else b) ≤ n := by
  split <;> assumption

theorem bytesRead_le (f : List UInt8) : bytesRead f ≤ 33 := by
  have hw : ∀ b, writeBytesRead b ≤ 33 := fun b => by
    unfold writeBytesRead
    repeat' apply ite_le
    all_goals omega
  have he : ∀ e b, eventBytesRead e b ≤ 33 := fun e b => by
    unfold eventBytesRead
    repeat' apply ite_le
    all_goals first | exact hw b | omega
  unfold bytesRead
  repeat' apply ite_le
  all_goals first | exact he _ _ | omega

/-- The chain looks at the first 33 cells only. -/
theorem dispatch_congr {p q : CArray UInt8 2048} {l : List UInt8} (hp : CArray.Starts p l)
    (hq : CArray.Starts q l) (hl : 33 ≤ l.length) : dispatch p = dispatch q := by
  by_cases h0 : l.getD 0 0 = bleEvtPkt
  · exact dispatch_eq_of_bytesRead h0 hp hq (Nat.le_trans (bytesRead_le l) hl)
  · have quiet : ∀ r, CArray.Starts r l → dispatch r = [] := fun r hr =>
      dispatch_of_not_vendor fun hv => h0 (by rw [← hr.byte_eq (by omega)]; exact hv.1)
    rw [quiet p hp, quiet q hq]

theorem starts_rxOf {l : List UInt8} (h : l.length ≤ 2048) : CArray.Starts (rxOf l) l := by
  have hst : CArray.Starts (rxOf l) (l.take 2048) := CArray.starts_memcpy _ _ _
  rwa [List.take_of_length_le h] at hst

theorem fits_iff {c : Completed} {k : List UInt8} (h : c.Is (counted k)) :
    c.Fits ↔ PacketFits k := by
  rw [Completed.Fits, PacketFits, h.1]
  by_cases hl : (counted k).length ≤ mtextSize
  · simp [hl]
  · -- More than 100 bytes settle where the packet goes.
    have hlen := length_counted k
    have hrx : CArray.Starts (rxOf (counted k)) (counted k) := starts_rxOf (by omega)
    unfold mtextSize at hl
    unfold posted
    rw [dispatch_congr h.2 hrx (by omega)]

/-- What the framer completes fits if the packets do. -/
theorem packetsFit_iff {s : Framer} (h : s.AtBoundary) (input : List UInt8) :
    PacketsFit input ↔ ∀ c ∈ arriving s input, c.Fits := by
  have hrun := packets_run (leads_of_atBoundary h) input
  unfold PacketsFit
  generalize arriving s input = cs at hrun ⊢
  generalize packets [] input = ks at hrun ⊢
  induction hrun with
  | nil => simp
  | cons hc _ ih => simp only [List.forall_mem_cons, ih, fits_iff hc]

/-! ## Messages that fit -/

/-- The byte 8 that the pipe thread takes as a length leaves room in `forward_data_buff` and in a
record. -/
def PayloadFits (buff : CArray UInt8 100) : Prop :=
  (buff.byte 8).toNat ≤ if Pipe.IsWriteRequest buff then 101 else 99

theorem payloadFits_iff (buff : CArray UInt8 100) :
    PayloadFits buff ↔ Pipe.payloadLength buff ≤ 97 := by
  rw [PayloadFits, Pipe.payloadLength]
  split <;> omega

namespace Gateway

/-- The condition on a step, in the state before it. The pipe thread finds a length that fits, and
posts no write request with the length 0; `SetParamValue` finds at most 10 bytes. -/
def MessagesFit (s : Step) (g : Gateway) : Prop :=
  match s with
  | .thread (.pipe0000 _) =>
    match g.pipe.dataLength with
    | none => ∀ m ∈ (g.queues.queue connPipe0Key).head?,
        PayloadFits (CArray.memcpy g.pipe.buff m.bytes m.fits)
    | some _ => ¬ (Pipe.IsWriteRequest g.pipe.buff ∧ g.pipe.buff.byte 8 = 0)
  | .setParamValue key _ => ∀ m ∈ (g.queues.queue key).head?, m.bytes.length ≤ 10
  | _ => True

/-- The schedule overruns nothing, and the receivers found, in order, what the senders passed. -/
def Intact (ids : PipeIds) (g : Gateway) (ts : List Step) : Prop :=
  ∃ g', (system ids).run g ts = some g' ∧ ∀ k, g'.queues.rcvd k <+: g'.queues.sent k

/-! ## One copy -/

variable {n : Nat}

theorem send_eq (g : Gateway) (h : g.queues.Lossless Message.view) (key : Option Nat)
    (buf : CArray UInt8 n) {size : UInt16} (hs : size.toNat ≤ mtextSize) (hn : size.toNat ≤ n) :
    ∃ queues, g.send key buf size = .next { g with queues } ∧ queues.Lossless Message.view := by
  obtain ⟨m, hm⟩ := Option.isSome_iff_exists.mp ((sysMqSend_isSome_iff buf size).mpr ⟨hs, hn⟩)
  cases key with
  | none => exact ⟨g.queues, by simp only [send, hm], h⟩
  | some k =>
    exact ⟨g.queues.put k m (passed buf size), by simp only [send, hm],
      h.put (passed_of_sysMqSend hm)⟩

theorem send_overrun (g : Gateway) (key : Option Nat) (buf : CArray UInt8 n) {size : UInt16}
    (hs : mtextSize < size.toNat) : g.send key buf size = .overrun := by
  have hm : sysMqSend buf size = none := by
    rw [← Option.not_isSome_iff_eq_none, sysMqSend_isSome_iff]
    omega
  simp only [send, hm]

theorem recv_eq (g : Gateway) (h : g.queues.Lossless Message.view) {key : Nat}
    (buf : CArray UInt8 n) (cont : Gateway → CArray UInt8 n → UInt16 → Outcome Gateway)
    {m : Message} {ms : List Message} (hq : g.queues.queue key = m :: ms)
    (hm : m.bytes.length ≤ n) :
    ∃ queues, g.recv key buf cont =
        cont { g with queues } (CArray.memcpy buf m.bytes hm) m.length ∧
      queues.Lossless Message.view := by
  have hr : sysMqRecv buf m = some (CArray.memcpy buf m.bytes hm, m.length) := dif_pos hm
  exact ⟨_, by simp only [recv, hq, hr], h.take hq (passed_of_sysMqRecv hr)⟩

theorem recv_overrun (g : Gateway) {key : Nat} (buf : CArray UInt8 n)
    (cont : Gateway → CArray UInt8 n → UInt16 → Outcome Gateway) {m : Message} {ms : List Message}
    (hq : g.queues.queue key = m :: ms) (hm : n < m.bytes.length) :
    g.recv key buf cont = .overrun := by
  have hr : sysMqRecv buf m = none := dif_neg (by omega)
  simp only [recv, hq, hr]

theorem recv_blocked (g : Gateway) {key : Nat} (buf : CArray UInt8 n)
    (cont : Gateway → CArray UInt8 n → UInt16 → Outcome Gateway)
    (hq : g.queues.queue key = []) : g.recv key buf cont = .blocked := by
  simp only [recv, hq]

/-! ## The threads -/

/-- What every step keeps: nothing in the queues is lost or altered, the pipe thread has in hand
what its buffer announces, and the packets to come and the packet in work fit. -/
structure Bounded (g : Gateway) : Prop where
  lossless : g.queues.Lossless Message.view
  decoded : ∀ d, g.pipe.dataLength = some d → d = Pipe.payloadLength g.pipe.buff ∧ d ≤ 97
  arriving : ∀ c ∈ arriving g.framer g.input, c.Fits
  pending : ∀ a ∈ g.pending, a ∈ dispatch g.packet.rxPacket
  packet : g.packet.Fits

/-- The step does not move, or it overruns and its message does not fit, or it fits and the
invariant holds again. -/
def Bounds (s : Step) (g : Gateway) (o : Outcome Gateway) : Prop :=
  o = .blocked ∨ (o = .overrun ∧ ¬ MessagesFit s g) ∨
    ∃ g', o = .next g' ∧ MessagesFit s g ∧ Bounded g'

theorem uart_bounds {g : Gateway} (h : Bounded g) (ids : PipeIds) :
    Bounds (.thread .uartCmdRx) g (uartStep ids g) := by
  cases hp : g.pending with
  | cons a as =>
    refine .inr (.inr ?_)
    have ha : a ∈ dispatch g.packet.rxPacket := h.pending a (by simp [hp])
    have has : ∀ b ∈ as, b ∈ dispatch g.packet.rxPacket :=
      fun b hb => h.pending b (by simp [hp, hb])
    simp only [uartStep, hp]
    cases a with
    | sysMqSend q =>
      -- The packet is posted, so `index` is at most 100.
      have hidx : g.packet.index.toNat ≤ mtextSize := by
        obtain hf | hf := h.packet
        · exact hf
        · exact absurd (mem_posted.mpr ha) (by simp [hf])
      have hlt : g.packet.index.toNat < 256 := g.packet.index.toNat_lt
      have hsize : g.packet.index.toUInt16.toNat = g.packet.index.toNat := by simp
      obtain ⟨queues, hsend, hl⟩ := send_eq { g with pending := as } h.lossless (q.key ids)
        g.packet.rxPacket (by rw [hsize]; exact hidx) (by omega)
      exact ⟨_, hsend, trivial, { h with lossless := hl, pending := has }⟩
    | dataAck idz => exact ⟨_, rfl, trivial, { h with pending := has }⟩
    | upadateDisconnection => exact ⟨_, rfl, trivial, { h with pending := has }⟩
    | clearStatus connHandle =>
      simp only [perform]
      cases g.connections.clearStatus connHandle with
      | none => exact ⟨_, rfl, trivial, { h with pending := has }⟩
      | some connections => exact ⟨_, rfl, trivial, { h with pending := has }⟩
  | nil =>
    cases hb : g.input with
    | nil => exact .inl (by simp only [uartStep, hp, hb])
    | cons b input =>
      refine .inr (.inr ?_)
      have harr := h.arriving
      rw [hb, arriving_cons] at harr
      simp only [uartStep, hp, hb]
      cases hr : g.framer.rxByte b with
      | mk framer out =>
      rw [hr] at harr
      cases out with
      | none => exact ⟨_, rfl, trivial, { h with arriving := harr, pending := by simp }⟩
      | some packet =>
        simp only [Option.toList_some, List.singleton_append, List.forall_mem_cons] at harr
        exact ⟨_, rfl, trivial,
          { h with arriving := harr.2, pending := fun a ha => ha, packet := harr.1 }⟩

theorem forwarder_bounds {g : Gateway} (h : Bounded g) :
    Bounds (.thread .forwardMsgQueue) g (forwarderStep g) := by
  have hfits : ∀ m : Message, m.bytes.length ≤ 100 := fun m => m.fits
  simp only [forwarderStep]
  cases hn : g.fwd.next g.connections with
  | internal fwd => exact .inr (.inr ⟨_, rfl, trivial, { h with }⟩)
  | write pac fwd => exact .inr (.inr ⟨_, rfl, trivial, { h with }⟩)
  | recvMsg =>
    cases hq : g.queues.queue messageSendToPeerDeviceKey with
    | nil => exact .inl (recv_blocked _ _ _ hq)
    | cons m ms =>
      obtain ⟨queues, hr, hl⟩ := recv_eq g h.lossless g.fwd.buffer _ hq (hfits m)
      exact .inr (.inr ⟨_, hr, trivial, { h with lossless := hl }⟩)
  | recvRsp =>
    cases hq : g.queues.queue writeRspKey with
    | nil => exact .inl (recv_blocked _ _ _ hq)
    | cons m ms =>
      obtain ⟨queues, hr, hl⟩ := recv_eq g h.lossless g.fwd.bufferRx _ hq (hfits m)
      exact .inr (.inr ⟨_, hr, trivial, { h with lossless := hl }⟩)

theorem pipe_bounds {g : Gateway} (h : Bounded g) (beyond : Nat → UInt8) :
    Bounds (.thread (.pipe0000 beyond)) g (pipeStep beyond g) := by
  cases hd : g.pipe.dataLength with
  | some d =>
    obtain ⟨rfl, hle⟩ := h.decoded d hd
    have hiff := Pipe.postSize_le_iff hle
    simp only [pipeStep, hd]
    by_cases hz : Pipe.IsWriteRequest g.pipe.buff ∧ g.pipe.buff.byte 8 = 0
    · refine .inr (.inl ⟨send_overrun _ _ _ (Nat.lt_of_not_le fun hs => hiff.mp hs hz), ?_⟩)
      simp [MessagesFit, hd, hz]
    · have hs := hiff.mpr hz
      obtain ⟨queues, hsend, hl⟩ := send_eq { g with pipe := { g.pipe with dataLength := none } }
        h.lossless messageSendToPeerDeviceKey g.pipe.forwardDataBuff hs hs
      refine .inr (.inr ⟨_, hsend, ?_, { h with lossless := hl, decoded := ?_ }⟩)
      · simpa [MessagesFit, hd] using hz
      · intro d hd
        cases hd
  | none =>
    simp only [pipeStep, hd]
    cases hq : g.queues.queue connPipe0Key with
    | nil => exact .inl (recv_blocked _ _ _ hq)
    | cons m ms =>
      obtain ⟨queues, hr, hl⟩ := recv_eq g h.lossless g.pipe.buff _ hq m.fits
      rw [hr]
      generalize hbuff : CArray.memcpy g.pipe.buff m.bytes m.fits = buff
      have hfit : MessagesFit (.thread (.pipe0000 beyond)) g ↔ Pipe.payloadLength buff ≤ 97 := by
        rw [← payloadFits_iff, ← hbuff]
        simp [MessagesFit, hd, hq]
      rw [← Pipe.decode_isSome_iff g.pipe buff beyond] at hfit
      cases hdec : g.pipe.decode buff beyond with
      | none => exact .inr (.inl ⟨rfl, by rw [hfit, hdec]; simp⟩)
      | some pipe =>
        obtain ⟨hlen, hb, -⟩ := Pipe.decode_eq hdec
        have hle := (Pipe.decode_isSome_iff g.pipe buff beyond).mp (by rw [hdec]; rfl)
        refine .inr (.inr
          ⟨{ g with queues, pipe, strays := g.strays || decide (Pipe.Strays buff) }, rfl,
            hfit.mpr (by rw [hdec]; rfl), { h with lossless := hl, decoded := ?_ }⟩)
        intro d hd
        rw [hb]
        cases hlen.symm.trans hd
        exact ⟨rfl, hle⟩

theorem step_bounds {g : Gateway} (h : Bounded g) (ids : PipeIds) (s : Step) :
    Bounds s g (step ids s g) := by
  cases s with
  | thread t =>
    cases t with
    | uartCmdRx => exact uart_bounds h ids
    | pipe0000 beyond => exact pipe_bounds h beyond
    | forwardMsgQueue => exact forwarder_bounds h
  | central key =>
    show Bounds (.central key) g (g.recv key g.buffer fun g buffer _ => .next { g with buffer })
    cases hq : g.queues.queue key with
    | nil => exact .inl (recv_blocked _ _ _ hq)
    | cons m ms =>
      have hm : m.bytes.length ≤ 256 := Nat.le_trans m.fits (by decide)
      obtain ⟨queues, hr, hl⟩ := recv_eq g h.lossless g.buffer _ hq hm
      exact .inr (.inr ⟨_, hr, trivial, { h with lossless := hl }⟩)
  | setParamValue key buffer =>
    have hfit : MessagesFit (.setParamValue key buffer) g ↔
        ∀ m ∈ (g.queues.queue key).head?, m.bytes.length ≤ 10 := Iff.rfl
    show Bounds (.setParamValue key buffer) g (g.recv key buffer fun g _ _ => .next g)
    cases hq : g.queues.queue key with
    | nil => exact .inl (recv_blocked _ _ _ hq)
    | cons m ms =>
      by_cases hm : m.bytes.length ≤ 10
      · obtain ⟨queues, hr, hl⟩ := recv_eq g h.lossless buffer _ hq hm
        exact .inr (.inr ⟨_, hr, hfit.mpr (by simpa [hq] using hm), { h with lossless := hl }⟩)
      · exact .inr (.inl ⟨recv_overrun _ _ _ hq (by omega), by simpa [hfit, hq] using hm⟩)
  | post key m => exact .inr (.inr ⟨_, rfl, trivial, { h with lossless := h.lossless.put rfl }⟩)

/-! ## Runs -/

theorem bounded_start (l : Locals) (w : Connections) {input : List UInt8}
    (h : PacketsFit input) : Bounded (start l w input) where
  lossless := Traffic.lossless_empty
  decoded := fun _ hd => by cases hd
  arriving := (packetsFit_iff (atBoundary_start _ _) input).mp h
  pending := fun _ ha => by cases ha
  packet := .inl (Nat.zero_le _)

theorem bounded_next {ids : PipeIds} {s : Step} {g g' : Gateway} (h : Bounded g)
    (hn : (system ids).step s g = .next g') : Bounded g' := by
  obtain hb | ⟨ho, -⟩ | ⟨g'', hn', -, h'⟩ := step_bounds h ids s
  · cases hb.symm.trans hn
  · cases ho.symm.trans hn
  · cases hn'.symm.trans hn
    exact h'

theorem overrun_iff {ids : PipeIds} {s : Step} {g : Gateway} (h : Bounded g)
    (hm : (system ids).step s g ≠ .blocked) :
    (system ids).step s g ≠ .overrun ↔ MessagesFit s g := by
  obtain hb | ⟨ho, hf⟩ | ⟨g', hn, hf, -⟩ := step_bounds h ids s
  · exact absurd hb hm
  · exact iff_of_false (fun hne => hne ho) hf
  · refine iff_of_true (fun ho => ?_) hf
    cases hn.symm.trans ho

theorem intact_iff_meets {ids : PipeIds} {g : Gateway} (h : Bounded g) (ts : List Step) :
    Intact ids g ts ↔ (system ids).Meets MessagesFit g ts := by
  rw [← Sched.run_isSome_iff (fun _ _ hg hm => overrun_iff hg hm)
    (fun _ _ _ hg hn => bounded_next hg hn) h ts, Option.isSome_iff_exists]
  refine ⟨fun ⟨g', hr, _⟩ => ⟨g', hr⟩, fun ⟨g', hr⟩ => ⟨g', hr, ?_⟩⟩
  exact (Sched.run_induct (fun _ _ _ hg hn => bounded_next hg hn) h hr).lossless.rcvd_prefix

/-! ## A packet that does not fit -/

/-- `UartCmdRxThread` alone, for `n` steps. -/
def uartRun (ids : PipeIds) (n : Nat) (g : Gateway) : Option Gateway :=
  (system ids).run g (List.replicate n (.thread .uartCmdRx))

theorem uartRun_succ (ids : PipeIds) (n : Nat) {g g' : Gateway} (h : uartStep ids g = .next g') :
    uartRun ids (n + 1) g = uartRun ids n g' := by
  unfold uartRun
  rw [List.replicate_succ, Sched.run_cons]
  simp only [system, step, threadStep, h]

theorem uartRun_overrun (ids : PipeIds) {g : Gateway} (h : uartStep ids g = .overrun) :
    uartRun ids 1 g = none := by
  unfold uartRun
  rw [List.replicate_succ, Sched.run_cons]
  simp only [system, step, threadStep, h]

/-- One pending action: it overruns only if it posts a packet of more than 100 bytes, and then
always. Else the input is left alone. -/
theorem perform_cases (ids : PipeIds) (g : Gateway) (a : Action) :
    (perform ids g a = .overrun ∨ ∃ g', perform ids g a = .next g' ∧ g'.framer = g.framer ∧
      g'.input = g.input ∧ g'.pending = g.pending ∧ g'.packet = g.packet) ∧
    (∀ q, a = .sysMqSend q → mtextSize < g.packet.index.toNat → perform ids g a = .overrun) := by
  have hsize : g.packet.index.toUInt16.toNat = g.packet.index.toNat := by simp
  refine ⟨?_, ?_⟩
  · cases a with
    | sysMqSend q =>
      simp only [perform, send]
      cases sysMqSend g.packet.rxPacket g.packet.index.toUInt16 with
      | none => exact .inl rfl
      | some m => cases q.key ids <;> exact .inr ⟨_, rfl, rfl, rfl, rfl, rfl⟩
    | clearStatus connHandle =>
      simp only [perform]
      cases g.connections.clearStatus connHandle <;> exact .inr ⟨_, rfl, rfl, rfl, rfl, rfl⟩
    | upadateDisconnection => exact .inr ⟨_, rfl, rfl, rfl, rfl, rfl⟩
    | dataAck idz => exact .inr ⟨_, rfl, rfl, rfl, rfl, rfl⟩
  · rintro q rfl hlt
    exact send_overrun _ _ _ (by rw [hsize]; exact hlt)

theorem uartRun_add (ids : PipeIds) (n m : Nat) (g : Gateway) :
    uartRun ids (n + m) g = (uartRun ids n g).bind (uartRun ids m) := by
  unfold uartRun
  rw [← List.replicate_append_replicate, Sched.run_append]

/-- The pending actions. They overrun, or the packet is not posted or short enough. -/
theorem pending_run (ids : PipeIds) {as : List Action} {g : Gateway} (hp : g.pending = as) :
    ∃ n, uartRun ids n g = none ∨
      (∀ q, .sysMqSend q ∈ as → g.packet.index.toNat ≤ mtextSize) ∧
        ∃ g', uartRun ids n g = some g' ∧ g'.pending = [] ∧ g'.framer = g.framer ∧
          g'.input = g.input := by
  induction as generalizing g with
  | nil => exact ⟨0, .inr ⟨by simp, g, rfl, hp, rfl, rfl⟩⟩
  | cons a as ih =>
    obtain ⟨hcases, hpost⟩ := perform_cases ids { g with pending := as } a
    have hstep : uartStep ids g = perform ids { g with pending := as } a := by
      simp only [uartStep, hp]
    obtain ho | ⟨g₁, hn, hf, hi, hp₁, hpk⟩ := hcases
    · exact ⟨1, .inl (uartRun_overrun ids (hstep.trans ho))⟩
    · obtain ⟨n, hrun⟩ := ih hp₁
      refine ⟨n + 1, ?_⟩
      rw [uartRun_succ ids n (hstep.trans hn)]
      refine hrun.imp_right fun ⟨hle, g', hr, hp', hf', hi'⟩ =>
        ⟨fun q hq => ?_, g', hr, hp', hf'.trans hf, hi'.trans hi⟩
      rcases List.mem_cons.mp hq with hq | hq
      · refine Nat.le_of_not_lt fun hlt => ?_
        cases hn.symm.trans (hpost q hq.symm hlt)
      · exact hpk ▸ hle q hq

/-- A packet that does not fit overruns a record, once the bytes in front of it are read. -/
theorem uart_overruns (ids : PipeIds) {input : List UInt8} {g : Gateway} (hp : g.pending = [])
    (hi : g.input = input) (hbad : ∃ c ∈ arriving g.framer input, ¬ c.Fits) :
    ∃ n, uartRun ids n g = none := by
  induction input generalizing g with
  | nil => simp [arriving] at hbad
  | cons b input ih =>
    rw [arriving_cons] at hbad
    cases hr : g.framer.rxByte b with
    | mk framer out =>
    rw [hr] at hbad
    cases out with
    | none =>
      have hstep : uartStep ids g = .next { g with input, framer } := by
        simp only [uartStep, hp, hi, hr]
      obtain ⟨n, hn⟩ := ih (g := { g with input, framer }) hp rfl hbad
      exact ⟨n + 1, by rw [uartRun_succ ids n hstep, hn]⟩
    | some packet =>
      have hstep : uartStep ids g = .next
          { g with input, framer, packet, pending := dispatch packet.rxPacket } := by
        simp only [uartStep, hp, hi, hr]
      obtain ⟨n, hrun⟩ := pending_run ids (g := { g with
        input, framer, packet, pending := dispatch packet.rxPacket }) rfl
      obtain hn | ⟨hle, g', hn, hp', hf', hi'⟩ := hrun
      · exact ⟨n + 1, by rw [uartRun_succ ids n hstep, hn]⟩
      · -- This packet fits, so a later one does not.
        have hfits : packet.Fits := by
          cases hq : posted packet.rxPacket with
          | nil => exact .inr hq
          | cons q qs => exact .inl (hle q (mem_posted.mp (by rw [hq]; exact List.mem_cons_self)))
        obtain ⟨c, hc, hbad⟩ := hbad
        obtain rfl | hc := List.mem_cons.mp hc
        · exact absurd hfits hbad
        · obtain ⟨m, hm⟩ := ih hp' hi' ⟨c, hf' ▸ hc, hbad⟩
          refine ⟨n + m + 1, ?_⟩
          rw [uartRun_succ ids (n + m) hstep, uartRun_add, hn]
          exact hm

theorem overruns_of_not_packetsFit (ids : PipeIds) (l : Locals) (w : Connections)
    {input : List UInt8} (h : ¬ PacketsFit input) :
    ∃ ts, (system ids).Meets MessagesFit (start l w input) ts ∧
      ¬ Intact ids (start l w input) ts := by
  have hbad : ∃ c ∈ arriving (.start l.count l.rxPacket) input, ¬ c.Fits := by
    rw [packetsFit_iff (atBoundary_start l.count l.rxPacket)] at h
    obtain ⟨c, hc⟩ := Classical.not_forall.mp h
    obtain ⟨hmem, hno⟩ := Classical.not_imp.mp hc
    exact ⟨c, hmem, hno⟩
  obtain ⟨n, hn⟩ := uart_overruns ids (g := start l w input) rfl rfl hbad
  refine ⟨List.replicate n (.thread .uartCmdRx), Sched.meets_of_forall (fun s hs g => ?_) _, ?_⟩
  · rw [List.eq_of_mem_replicate hs]
    exact trivial
  · rintro ⟨g', hr, -⟩
    cases hn.symm.trans hr

/-- **Messages and their arrays.** For every byte stream: if its packets fit, then in any run of the
system nothing is overrun and every message arrives as it was sent, exactly if the messages that the
pipe thread and `SetParamValue` find fit; if a packet does not fit, some run with fitting messages
overruns a record. -/
theorem intact_iff (ids : PipeIds) (l : Locals) (w : Connections) (input : List UInt8) :
    (PacketsFit input → ∀ ts, Intact ids (start l w input) ts ↔
      (system ids).Meets MessagesFit (start l w input) ts) ∧
    (¬ PacketsFit input → ∃ ts, (system ids).Meets MessagesFit (start l w input) ts ∧
      ¬ Intact ids (start l w input) ts) :=
  ⟨fun h => intact_iff_meets (bounded_start l w h), overruns_of_not_packetsFit ids l w⟩

/-- A device-information event of 101 bytes. -/
def longFrame : EventFrame where
  code := 0xFF
  params := [0x0D, 0x06] ++ List.replicate 96 0
  le := by simp

theorem not_packetsFit_longFrame : ¬ PacketsFit longFrame.bytes := by
  have hlen : longFrame.bytes.length = 101 := by simp [EventFrame.length_bytes, longFrame]
  have hpk : packets [] longFrame.bytes = [longFrame.bytes] := by
    have := packets_frame (f := longFrame) (by simp [longFrame]) []
    rwa [List.append_nil, packets] at this
  have hcell : ∀ i, i < 8 → (rxOf longFrame.bytes).byte i = longFrame.bytes.getD i 0 :=
    fun i hi => (starts_rxOf (by omega)).byte_eq (by omega)
  have hpost : dispatch (rxOf longFrame.bytes) = [.sysMqSend .commandRespQId] := by
    have hv : VendorEvent (rxOf longFrame.bytes) := ⟨hcell 0 (by omega), hcell 1 (by omega)⟩
    have he : eventCode (rxOf longFrame.bytes) = vsGapDeviceInformation := by
      rw [eventCode, hcell 3 (by omega), hcell 4 (by omega)]
      rfl
    have ho : opcode (rxOf longFrame.bytes) = 0 := by
      rw [opcode, hcell 6 (by omega), hcell 7 (by omega)]
      rfl
    rw [dispatch_of_vendor hv (by rw [ho]; decide), he, byEvent_commandResp (by decide)]
  intro h
  have hf := h longFrame.bytes (by rw [hpk]; exact List.mem_singleton_self _)
  rw [PacketFits, counted_eq_self (by omega), hlen, posted, hpost] at hf
  exact absurd hf (by decide)

/-- After a device-information event of 101 bytes `UartCmdRxThread` overruns a record. -/
theorem not_intact_longFrame : ¬ ∀ (ids : PipeIds) (l : Locals) (w : Connections)
    (input : List UInt8) (ts : List Step), Intact ids (start l w input) ts := by
  intro h
  obtain ⟨ts, -, hts⟩ := overruns_of_not_packetsFit ⟨none, none, none⟩
    ⟨0, Vector.replicate 2048 0, Vector.replicate 100 0, Vector.replicate 100 0, Forward.start⟩
    Connections.zero not_packetsFit_longFrame
  exact hts (h _ _ _ _ ts)

end Gateway

end Ble
