import BleGateway.Bounds
import BleGateway.Posting

/-!
# Data by connection (`src/UartCmdRxThread.c`, lines 48–67 and 240–282)

A notification, and a write request to the attribute handle `0x0003`, go to the queue of their
connection: `CONN_PIPE_0_KEY` to `CONN_PIPE_3_KEY`. The chain looks at the low byte of the
connection handle only, and of the four queue ids the thread initialises the first.

* `DataFrame`: such a packet, with none of the chain's earlier cases.
* `pending_sent`: the pending actions of a packet, run to the end: what every queue gets.
* `dataRouted_iff`: so the packet reaches the queue of its connection, and no other, exactly if its
  high byte is 0 and the id of that queue happens to be right.
-/

namespace Ble

/-! ## Pipes -/

def connPipe1Key : Nat := 2001
def connPipe2Key : Nat := 2002
def connPipe3Key : Nat := 2003

/-- `CONN_PIPE_h_KEY`. -/
def connPipeKey : Nat → Option Nat
  | 0 => some connPipe0Key
  | 1 => some connPipe1Key
  | 2 => some connPipe2Key
  | 3 => some connPipe3Key
  | _ => none

/-- `Pipe_b_Id`. -/
def pipeId : Nat → Option QueueVar
  | 0 => some .pipe0Id
  | 1 => some .pipe1Id
  | 2 => some .pipe2Id
  | 3 => some .pipe3Id
  | _ => none

theorem pipeId_of_le {n : Nat} (h : 4 ≤ n) : pipeId n = none := by
  match n, h with
  | n + 4, _ => rfl

theorem toPipe_eq (b6 : UInt8) :
    toPipe b6 = ((pipeId b6.toNat).map Action.sysMqSend).toList := by
  by_cases h0 : b6 = 0x00
  · rw [h0]
    rfl
  by_cases h1 : b6 = 0x01
  · rw [h1]
    rfl
  by_cases h2 : b6 = 0x02
  · rw [h2]
    rfl
  by_cases h3 : b6 = 0x03
  · rw [h3]
    rfl
  · have hle : 4 ≤ b6.toNat := by
      simp only [← UInt8.toNat_inj] at h0 h1 h2 h3
      simp only [UInt8.toNat_ofNat] at h0 h1 h2 h3
      omega
    rw [pipeId_of_le hle, toPipe, if_neg h0, if_neg h1, if_neg h2, if_neg h3]
    rfl

/-- A notification, or a write request to `0x0003` that matches no earlier case, for a handle that
is not taken for the opcode `0xFC06` or `0xFC21`. -/
structure DataFrame where
  packet : Completed
  vendor : VendorEvent packet.rxPacket
  unmasked : opcode packet.rxPacket ∉ maskedOpcodes
  data : eventCode packet.rxPacket = eventVsAttHandleValueNotification ∨
    eventCode packet.rxPacket = eventVsAttWriteRequest ∧
      packet.rxPacket.byte 11 = 0x03 ∧ packet.rxPacket.byte 12 = 0x00 ∧
      ¬ (packet.rxPacket.byte 13 = 0x30 ∧ packet.rxPacket.byte 14 = 0x31) ∧
      ¬ (packet.rxPacket.byte 13 = 0x50 ∧ packet.rxPacket.byte 14 = 0x42 ∧
        packet.rxPacket.byte 31 = 0x50 ∧ packet.rxPacket.byte 32 = 0x45)

namespace DataFrame

/-- The connection handle, `rx_packet[6..7]`. -/
def connHandle (f : DataFrame) : Nat := opcode f.packet.rxPacket

/-- `rx_packet[6]`, which the chain looks at. -/
def low (f : DataFrame) : UInt8 := f.packet.rxPacket.byte 6

theorem connHandle_eq (f : DataFrame) :
    f.connHandle = 256 * (f.packet.rxPacket.byte 7).toNat + f.low.toNat :=
  make16OfXY_eq _ _

/-- What the chain does for it. -/
theorem dispatch_eq (f : DataFrame) : ∃ acks : List Action,
    dispatch f.packet.rxPacket = toPipe f.low ++ acks ∧ ∀ a ∈ acks, a.queue? = none := by
  rw [dispatch_of_vendor f.vendor f.unmasked]
  obtain hevent | ⟨hevent, h11, h12, h01, hping⟩ := f.data
  · rw [hevent, byEvent_notification]
    exact ⟨[], (List.append_nil _).symm, by simp⟩
  · have hqueue : writeRequestQueue f.packet.rxPacket = toPipe f.low := by
      rw [writeRequestQueue, if_neg h01, h11, if_neg (by decide), if_neg hping, h12]
      exact if_pos rfl
    rw [hevent, byEvent_writeRequest (by decide), hqueue]
    exact ⟨_, rfl, by simp [Action.queue?]⟩

end DataFrame

/-! ## The pending actions -/

/-- Locals that happen to be zero. -/
def Locals.zero : Locals where
  count := 0
  rxPacket := Vector.replicate 2048 0
  buff := Vector.replicate 100 0
  forwardDataBuff := Vector.replicate 100 0
  fwd := .start

namespace Gateway

/-- An action goes through if it posts no packet of more than 100 bytes. -/
theorem perform_next (ids : PipeIds) (g : Gateway) {a : Action}
    (hfit : ∀ q, a = .sysMqSend q → g.packet.index.toNat ≤ mtextSize) :
    ∃ g', perform ids g a = .next g' := by
  cases a with
  | sysMqSend q =>
    have hle := hfit q rfl
    have hsize : g.packet.index.toUInt16.toNat = g.packet.index.toNat := by simp
    have hlt := g.packet.index.toNat_lt
    obtain ⟨m, hm⟩ := Option.isSome_iff_exists.mp
      ((sysMqSend_isSome_iff g.packet.rxPacket g.packet.index.toUInt16).mpr (by omega))
    cases hkey : q.key ids with
    | none => exact ⟨_, by simp only [perform, send, hm, hkey]; rfl⟩
    | some k => exact ⟨_, by simp only [perform, send, hm, hkey]; rfl⟩
  | clearStatus connHandle =>
    cases hclear : g.connections.clearStatus connHandle with
    | none => exact ⟨_, by simp only [perform, hclear]; rfl⟩
    | some connections => exact ⟨_, by simp only [perform, hclear]; rfl⟩
  | upadateDisconnection => exact ⟨_, rfl⟩
  | dataAck idz => exact ⟨_, rfl⟩

/-- **The pending actions.** If they post no packet of more than 100 bytes, they all go through, and
every queue gets what they post to it. -/
theorem pending_sent (ids : PipeIds) {as : List Action} {g : Gateway} (hp : g.pending = as)
    (hfit : ∀ q, .sysMqSend q ∈ as → g.packet.index.toNat ≤ mtextSize) :
    ∃ g', uartRun ids as.length g = some g' ∧ g'.pending = [] ∧ g'.framer = g.framer ∧
      g'.input = g.input ∧
      ∀ k, g'.queues.sent k = g.queues.sent k ++ sendsTo ids k g.packet as := by
  induction as generalizing g with
  | nil => exact ⟨g, rfl, hp, rfl, rfl, fun k => (List.append_nil _).symm⟩
  | cons a as ih =>
    obtain ⟨g₁, hn⟩ := perform_next ids { g with pending := as } (a := a) fun q hq =>
      hfit q (hq ▸ List.mem_cons_self)
    have hstep : uartStep ids g = .next g₁ := by simp only [uartStep, hp, hn]
    obtain ⟨-, hp₁, hpk, hf, hi⟩ := (performs_of_next hn).sent 0
    obtain ⟨g', hrun, hp', hf', hi', hsent⟩ := ih hp₁ fun q hq => by
      rw [hpk]
      exact hfit q (List.mem_cons_of_mem a hq)
    refine ⟨g', by rw [List.length_cons, uartRun_succ ids _ hstep, hrun], hp', hf'.trans hf,
      hi'.trans hi, fun k => ?_⟩
    rw [hsent k, ((performs_of_next hn).sent k).1, hpk, List.append_assoc]
    exact congrArg _ (sendsTo_cons ids k g.packet a as).symm

/-- A post of more than 100 bytes overruns. -/
theorem pending_overrun (ids : PipeIds) {q : QueueVar} {as : List Action} {g : Gateway}
    (hp : g.pending = .sysMqSend q :: as) (hlt : mtextSize < g.packet.index.toNat) :
    uartRun ids (as.length + 1) g = none := by
  have hover : uartStep ids g = .overrun := by
    simp only [uartStep, hp]
    exact (perform_cases ids { g with pending := as } (.sysMqSend q)).2 q rfl hlt
  rw [Nat.add_comm, uartRun_add, uartRun_overrun ids hover, Option.bind_none]

/-! ## Routing -/

/-- The packet is completed in the state `g`, and what the thread does for it is done. -/
def processed (ids : PipeIds) (c : Completed) (g : Gateway) : Option Gateway :=
  uartRun ids (dispatch c.rxPacket).length
    { g with packet := c, pending := dispatch c.rxPacket }

/-- The queue with the key `k` got the packet `c` if its key is `key`, and else nothing. -/
def Got (c : Completed) (g g' : Gateway) (key : Option Nat) (k : Nat) : Prop :=
  g'.queues.sent k =
    g.queues.sent k ++ if key = some k then [passed c.rxPacket c.index.toUInt16] else []

theorem got_congr_iff {c : Completed} {g g' : Gateway} {key key' : Option Nat} {k : Nat}
    (h : Got c g g' key k) : Got c g g' key' k ↔ (key = some k ↔ key' = some k) := by
  rw [Got, h, List.append_cancel_left_eq]
  by_cases hkey : key = some k
  · by_cases hkey' : key' = some k
    · simp [hkey, hkey']
    · simp [hkey, hkey']
  · by_cases hkey' : key' = some k
    · simp [hkey, hkey']
    · simp [hkey, hkey']

/-- What a packet without a post leads to. -/
theorem processed_quiet (ids : PipeIds) {c : Completed} {as : List Action}
    (hd : dispatch c.rxPacket = as) (has : ∀ a ∈ as, a.queue? = none) (g : Gateway) :
    ∃ g', processed ids c g = some g' ∧ ∀ k, Got c g g' none k := by
  obtain ⟨g', hrun, -, -, -, hsent⟩ := pending_sent ids
    (g := { g with packet := c, pending := dispatch c.rxPacket }) rfl fun q hq => by
      cases has _ (hd ▸ hq)
  refine ⟨g', hrun, fun k => ?_⟩
  rw [Got, hsent, hd, sendsTo, List.filterMap_eq_nil_iff.mpr has]
  rfl

/-- What a packet with one post leads to. -/
theorem processed_post (ids : PipeIds) {c : Completed} {q : QueueVar} {as : List Action}
    (hd : dispatch c.rxPacket = .sysMqSend q :: as) (has : ∀ a ∈ as, a.queue? = none)
    (hle : c.index.toNat ≤ mtextSize) (g : Gateway) :
    ∃ g', processed ids c g = some g' ∧ ∀ k, Got c g g' (q.key ids) k := by
  obtain ⟨g', hrun, -, -, -, hsent⟩ := pending_sent ids
    (g := { g with packet := c, pending := dispatch c.rxPacket }) rfl fun _ _ => hle
  refine ⟨g', hrun, fun k => ?_⟩
  have hqueue : (Action.sysMqSend q).queue? = some q := rfl
  rw [Got, hsent, hd, sendsTo, List.filterMap_cons_some hqueue, List.filterMap_eq_nil_iff.mpr has]
  by_cases hkey : q.key ids = some k
  · simp [hkey]
  · simp [hkey]

end Gateway

open Gateway

namespace DataFrame

/-- Processed in any state, the packet is posted once to the queue of its connection and to no other
queue, and if its connection has no queue, to none of the four. -/
def Routed (ids : PipeIds) (f : DataFrame) : Prop :=
  ∀ g, ∃ g', processed ids f.packet g = some g' ∧
    match connPipeKey f.connHandle with
    | some key => ∀ k, Got f.packet g g' (some key) k
    | none => ∀ h k, connPipeKey h = some k → Got f.packet g g' none k

/-- The low byte of the handle names no pipe. Or the packet has at most 100 bytes and the id of that
pipe is the queue of the connection, or none of the four queues if the connection has none. -/
def RightId (ids : PipeIds) (f : DataFrame) : Prop :=
  match pipeId f.low.toNat with
  | none => True
  | some q => f.packet.index.toNat ≤ mtextSize ∧
    match connPipeKey f.connHandle with
    | some key => q.key ids = some key
    | none => ∀ h k, connPipeKey h = some k → q.key ids ≠ some k

/-- A connection has a pipe queue only if the low byte of its handle names a pipe. -/
theorem connPipeKey_of_pipeId {f : DataFrame} (h : pipeId f.low.toNat = none) :
    connPipeKey f.connHandle = none := by
  have hle : 4 ≤ f.low.toNat := by
    refine Nat.le_of_not_lt fun hlt => ?_
    match f.low.toNat, hlt, h with
    | 0, _, h | 1, _, h | 2, _, h | 3, _, h => cases h
  have heq := f.connHandle_eq
  obtain ⟨n, hn⟩ : ∃ n, f.connHandle = n + 4 := ⟨f.connHandle - 4, by omega⟩
  rw [hn]
  rfl

/-- A routed packet got to the queue of its connection by the id of its low byte. -/
theorem rightId_of_routed {ids : PipeIds} {f : DataFrame} (h : f.Routed ids) : f.RightId ids := by
  obtain ⟨acks, hdispatch, hacks⟩ := f.dispatch_eq
  rw [toPipe_eq] at hdispatch
  unfold RightId
  cases hq : pipeId f.low.toNat with
  | none => trivial
  | some q =>
    rw [hq] at hdispatch
    have hle : f.packet.index.toNat ≤ mtextSize := by
      refine Nat.le_of_not_lt fun hlt => ?_
      obtain ⟨g', hrun, -⟩ := h (start .zero .zero [])
      have hover := pending_overrun ids
        (g := { start .zero .zero [] with
          packet := f.packet, pending := dispatch f.packet.rxPacket }) hdispatch hlt
      rw [processed, hdispatch] at hrun
      rw [hdispatch] at hover
      cases hover.symm.trans hrun
    refine ⟨hle, ?_⟩
    obtain ⟨g', hrun, hright⟩ := h (start .zero .zero [])
    obtain ⟨g₁, hrun₁, hgot⟩ := processed_post ids hdispatch hacks hle (start .zero .zero [])
    cases hrun₁.symm.trans hrun
    cases hconn : connPipeKey f.connHandle with
    | some key =>
      rw [hconn] at hright
      exact ((got_congr_iff (hgot key)).mp (hright key)).mpr rfl
    | none =>
      rw [hconn] at hright
      intro h k hk hkey
      exact absurd (((got_congr_iff (hgot k)).mp (hright h k hk)).mp hkey) (by simp)

/-- With the right id, the one post goes there. -/
theorem routed_of_rightId {ids : PipeIds} {f : DataFrame} (h : f.RightId ids) : f.Routed ids := by
  obtain ⟨acks, hdispatch, hacks⟩ := f.dispatch_eq
  rw [toPipe_eq] at hdispatch
  unfold RightId at h
  intro g
  cases hq : pipeId f.low.toNat with
  | none =>
    rw [hq] at hdispatch
    obtain ⟨g', hrun, hgot⟩ := processed_quiet ids (c := f.packet) hdispatch hacks g
    rw [connPipeKey_of_pipeId hq]
    exact ⟨g', hrun, fun h k _ => hgot k⟩
  | some q =>
    rw [hq] at hdispatch h
    obtain ⟨hle, hkey⟩ := h
    obtain ⟨g', hrun, hgot⟩ := processed_post ids hdispatch hacks hle g
    refine ⟨g', hrun, ?_⟩
    cases hconn : connPipeKey f.connHandle with
    | some key =>
      rw [hconn] at hkey
      exact fun k => (got_congr_iff (hgot k)).mpr (by rw [hkey])
    | none =>
      rw [hconn] at hkey
      exact fun h k hk => (got_congr_iff (hgot k)).mpr (by simp [hkey h k hk])

/-- **Routing.** A data packet is routed by its connection handle exactly if the id that the chain
picks by the low byte is right. -/
theorem dataRouted_iff (ids : PipeIds) (f : DataFrame) : f.Routed ids ↔ f.RightId ids :=
  ⟨rightId_of_routed, routed_of_rightId⟩

/-- A notification of connection 1 with the value `41`. -/
def notificationOne : List UInt8 :=
  [0x04, 0xFF, 0x09, 0x1B, 0x05, 0x00, 0x01, 0x00, 0x03, 0x0E, 0x00, 0x41]

theorem byte_notificationOne {i : Nat} (hi : i < 12) :
    (rxOf notificationOne).byte i = notificationOne.getD i 0 :=
  (starts_rxOf (by decide)).byte_eq hi

theorem opcode_notificationOne : opcode (rxOf notificationOne) = 1 := by
  rw [opcode, byte_notificationOne (by omega), byte_notificationOne (by omega)]
  rfl

theorem vendor_notificationOne : VendorEvent (rxOf notificationOne) :=
  ⟨byte_notificationOne (by omega), byte_notificationOne (by omega)⟩

theorem unmasked_notificationOne : opcode (rxOf notificationOne) ∉ maskedOpcodes := by
  rw [opcode_notificationOne]
  decide

theorem eventCode_notificationOne :
    eventCode (rxOf notificationOne) = eventVsAttHandleValueNotification := by
  rw [eventCode, byte_notificationOne (by omega), byte_notificationOne (by omega)]
  rfl

/-- The notification as it is completed. -/
def one : DataFrame where
  packet := ⟨rxOf notificationOne, 12⟩
  vendor := vendor_notificationOne
  unmasked := unmasked_notificationOne
  data := .inl eventCode_notificationOne

/-- With a `Pipe_1_Id` that names no queue it is posted nowhere. -/
theorem not_dataRouted_one : ¬ ∀ (ids : PipeIds) (f : DataFrame), f.Routed ids := by
  intro h
  have hright := rightId_of_routed (h ⟨none, none, none⟩ one)
  have hlow : one.low = 0x01 := byte_notificationOne (by omega)
  have hconn : one.connHandle = 1 := opcode_notificationOne
  rw [RightId, hlow, hconn] at hright
  have hkey : (none : Option Nat) = some connPipe1Key := hright.2
  cases hkey

end DataFrame

end Ble
