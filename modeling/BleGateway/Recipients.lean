import BleGateway.Lib.Mealy
import BleGateway.Forward

/-!
# Whom a message reaches

One message is relayed with a fixed connection table and with answers `0x00` only. The commands that
are written are compared with the connections that the message is for.

* `remaining`: the commands that are still to be written from a state. Every step takes its command
  off the front (`remaining_step`), so a run writes exactly them (`written_eq`).
* `notifiesExactly_cloud_iff`, `not_notifiesExactly_peer`: whom these commands of the two kinds of
  messages notify.
* `relaysRight_iff`: a message reaches the right connections exactly if it is not a peer message
  with direction 1 and, if it comes from the cloud, no connection other than 0 is there.
-/

namespace Ble

/-- The commands written to the UART. -/
abbrev Commands := List (Fill UInt8)

namespace Forward

/-- The thread with the table `w`. The input is what a receive from the answer queue would find. -/
def relay (w : Connections) : Mealy Forward (CArray UInt8 100) (Option (Fill UInt8)) where
  step f bufferRx :=
    match f.next w with
    | .internal f' => (f', none)
    | .write pac f' => (f', some pac)
    | .recvMsg => (f, none)
    | .recvRsp => (f.onRsp bufferRx, none)

/-- The commands that a run writes. -/
def written (w : Connections) (f : Forward) (answers : List (CArray UInt8 100)) : Commands :=
  ((relay w).outputs f answers).filterMap id

/-- All answers have the status `0x00`. -/
def AllZero (answers : List (CArray UInt8 100)) : Prop := ∀ a ∈ answers, a.byte 5 = 0x00

/-! ## The commands still to be written -/

/-- The connections that a loop still visits from `idz` on. -/
def visited (f : Forward) (w : Connections) (l : ConnLoop) (idz : Nat) : List Nat :=
  ((List.range maxNumPeripherals).drop idz).filter fun j => f.Visits w l j

/-- The commands of a loop from the connection `idz` on. -/
def loopFrom (f : Forward) (w : Connections) (l : ConnLoop) (idz : Nat) : Commands :=
  (f.visited w l idz).map fun j => notifyData f.buffer f.size.toNat j

/-- The commands after a retry loop. -/
def afterCommands (f : Forward) (w : Connections) (copy : Retry) (idz : Nat) : Commands :=
  match copy with
  | .inLoop l => f.loopFrom w l (idz + 1)
  | .ping => []

/-- The commands of a loop behind its test of `Slave_Count`. -/
def slaveCommands (f : Forward) (w : Connections) (l : ConnLoop) : Commands :=
  if 0 < w.slaveCount then f.loopFrom w l 0 else []

/-- The commands from a state on, if every answer is `0x00`. -/
def remaining (f : Forward) (w : Connections) : Commands :=
  match f.pc with
  | .recv => []
  | .slaveTest l => f.slaveCommands w l
  | .loop l idz => f.loopFrom w l idz
  | .notify copy idz _ => notifyData f.buffer f.size.toNat idz :: f.afterCommands w copy idz
  | .answer copy idz _ => f.afterCommands w copy idz
  | .peerNotify =>
    notifyData f.buffer f.size.toNat 0 :: gattWriteValue f.buffer f.size.toNat 0 ::
      f.slaveCommands w .peer
  | .peerWrite => gattWriteValue f.buffer f.size.toNat 0 :: f.slaveCommands w .peer

theorem visited_of_lt {f : Forward} {w : Connections} {l : ConnLoop} {idz : Nat}
    (h : idz < maxNumPeripherals) : f.visited w l idz =
      if f.Visits w l idz then idz :: f.visited w l (idz + 1) else f.visited w l (idz + 1) := by
  have hlen : idz < (List.range maxNumPeripherals).length := by rwa [List.length_range]
  rw [visited, List.drop_eq_getElem_cons hlen, List.getElem_range, List.filter_cons]
  simp only [decide_eq_true_eq, visited]

theorem visited_of_not_lt {f : Forward} {w : Connections} {l : ConnLoop} {idz : Nat}
    (h : ¬ idz < maxNumPeripherals) : f.visited w l idz = [] := by
  rw [visited, List.drop_eq_nil_of_le (by rw [List.length_range]; omega), List.filter_nil]

/-- A step writes the first of the remaining commands, or none of them. -/
theorem remaining_step {f : Forward} (w : Connections) {a : CArray UInt8 100}
    (ha : a.byte 5 = 0x00) :
    f.remaining w = ((relay w).step f a).2.toList ++ ((relay w).step f a).1.remaining w := by
  obtain ⟨pc, buffer, size, connHandleId, bufferRx⟩ := f
  cases pc with
  | recv => rfl
  | slaveTest l =>
    by_cases h : 0 < w.slaveCount
    · simp only [relay, next, h, if_true, remaining, slaveCommands]
      rfl
    · simp only [relay, next, h, if_false, remaining, slaveCommands]
      rfl
  | loop l idz =>
    simp only [relay, next, remaining, loopFrom]
    by_cases h : idz < maxNumPeripherals
    · rw [visited_of_lt h]
      by_cases hv : Visits ⟨.loop l idz, buffer, size, connHandleId, bufferRx⟩ w l idz
      · simp only [h, hv, if_true, List.map_cons]
        rfl
      · simp only [h, hv, if_true, if_false]
        rfl
    · rw [visited_of_not_lt h]
      simp only [h, if_false]
      rfl
  | notify copy idz r => rfl
  | answer copy idz r =>
    -- The answer `0x00` ends the retry loop.
    have hr : ¬ retryStep copy r (a.byte 5) < retryCount := by
      simp only [retryStep, ha, if_true]
      decide
    simp only [relay, next, onRsp, hr, if_false, remaining]
    cases copy <;> rfl
  | peerNotify => rfl
  | peerWrite => rfl

/-- A run up to the next message writes exactly the remaining commands. -/
theorem written_eq {f : Forward} (w : Connections) {answers : List (CArray UInt8 100)}
    (ha : AllZero answers) (hpc : ((relay w).after f answers).pc = .recv) :
    written w f answers = f.remaining w := by
  induction answers generalizing f with
  | nil =>
    rw [Mealy.after_nil] at hpc
    rw [remaining, hpc]
    rfl
  | cons a answers ih =>
    rw [remaining_step w (ha a List.mem_cons_self),
      ← ih (fun b hb => ha b (List.mem_cons_of_mem _ hb)) hpc, written, Mealy.outputs_cons]
    cases ((relay w).step f a).2 <;> rfl

/-! ## Every message comes to an end -/

/-- A bound on the steps to the next message. -/
def stepsLeft (f : Forward) : Nat :=
  match f.pc with
  | .recv => 0
  | .loop _ idz => 4 * (5 - idz) + 1
  | .answer (.inLoop _) idz _ => 4 * (4 - idz) + 2
  | .notify (.inLoop _) idz _ => 4 * (4 - idz) + 3
  | .answer .ping .. => 1
  | .notify .ping .. => 2
  | .slaveTest _ => 22
  | .peerWrite => 23
  | .peerNotify => 24

theorem stepsLeft_step {f : Forward} (w : Connections) {a : CArray UInt8 100}
    (ha : a.byte 5 = 0x00) (hpc : f.pc ≠ .recv) :
    ((relay w).step f a).1.stepsLeft < f.stepsLeft := by
  obtain ⟨pc, buffer, size, connHandleId, bufferRx⟩ := f
  cases pc with
  | recv => exact absurd rfl hpc
  | slaveTest l =>
    by_cases h : 0 < w.slaveCount <;> simp [relay, next, h, stepsLeft]
  | loop l idz =>
    simp only [relay, next]
    by_cases h : idz < maxNumPeripherals
    · have h5 : idz < 5 := h
      by_cases hv : Visits ⟨.loop l idz, buffer, size, connHandleId, bufferRx⟩ w l idz
      · simp only [h, hv, if_true, stepsLeft]
        omega
      · simp only [h, hv, if_true, if_false, stepsLeft]
        omega
    · simp [h, stepsLeft]
  | notify copy idz r => cases copy <;> simp [relay, next, stepsLeft]
  | answer copy idz r =>
    have hr : ¬ retryStep copy r (a.byte 5) < retryCount := by
      simp only [retryStep, ha, if_true]
      decide
    simp only [relay, next, onRsp, hr, if_false]
    cases copy with
    | inLoop l => simp only [afterRetry, stepsLeft]; omega
    | ping => simp [afterRetry, stepsLeft]
  | peerNotify => simp [relay, next, stepsLeft]
  | peerWrite => simp [relay, next, stepsLeft]

theorem step_recv {f : Forward} (w : Connections) (hpc : f.pc = .recv) (a : CArray UInt8 100) :
    (relay w).step f a = (f, none) := by
  simp only [relay, next, hpc]

/-- After 24 steps with answers `0x00` the thread waits for its next message. -/
theorem after_recv {f : Forward} (w : Connections) {answers : List (CArray UInt8 100)}
    (ha : AllZero answers) (hlen : f.stepsLeft ≤ answers.length) :
    ((relay w).after f answers).pc = .recv := by
  induction answers generalizing f with
  | nil =>
    rw [Mealy.after_nil]
    obtain ⟨pc, buffer, size, connHandleId, bufferRx⟩ := f
    cases pc with
    | recv => rfl
    | notify copy | answer copy => cases copy <;> simp [stepsLeft] at hlen
    | _ => simp [stepsLeft] at hlen
  | cons a answers ih =>
    have ha' : AllZero answers := fun b hb => ha b (List.mem_cons_of_mem _ hb)
    rw [Mealy.after_cons]
    by_cases hpc : f.pc = .recv
    · rw [step_recv w hpc]
      exact ih ha' (by rw [stepsLeft, hpc]; exact Nat.zero_le _)
    · have := stepsLeft_step w (ha a List.mem_cons_self) hpc
      rw [List.length_cons] at hlen
      exact ih ha' (by omega)

theorem stepsLeft_branch (f : Forward) : (branch f).stepsLeft ≤ 24 := by
  unfold branch
  simp only
  (repeat' split) <;> simp [stepsLeft]

end Forward

open Forward

/-! ## The right recipients -/

/-- `Conn_Device_List[i].Conn_Handle`. -/
def Connections.connHandle (w : Connections) (i : Nat) : Nat :=
  if h : i < 6 then w.connDeviceList[i].connHandle.toNat else 0

/-- A table as the threads mean it: the connected entries are among the first
`MAX_NUM_PERIPHERALS`, each under its own handle, and `Slave_Count` is their number. -/
structure Connections.Consistent (w : Connections) : Prop where
  lt : ∀ i, w.IsConnected i → i < maxNumPeripherals
  connHandle : ∀ i, w.IsConnected i → w.connHandle i = i
  slaveCount : w.slaveCount.toNat = ((List.range 6).filter fun i => w.IsConnected i).length

/-- The handles that the notification commands are addressed to. -/
def notified (cmds : Commands) : List Nat :=
  (cmds.filter fun pac => commandOpcode pac.stored = some gattNotification).filterMap
    fun pac => commandHandle pac.stored

/-- Exactly one notification for each connected entry with `p`, under its handle, and none under any
other handle. -/
def NotifiesExactly (w : Connections) (p : Nat → Prop) (cmds : Commands) : Prop :=
  (∀ i, w.IsConnected i → p i → (notified cmds).count (w.connHandle i) = 1) ∧
    ∀ h, (∀ i, w.IsConnected i → p i → w.connHandle i ≠ h) → h ∉ notified cmds

/-- The commands for the message `l` go to the right connections. -/
def RightRecipients (w : Connections) (l : List UInt8) (cmds : Commands) : Prop :=
  (l.getD 0 0 = 0xFF → NotifiesExactly w (fun _ => True) cmds) ∧
    (l.getD 0 0 ≠ 0xFF → l.getD 0 0 ≠ 0xEE → l.getD 1 0 = 0x01 →
      NotifiesExactly w (· ≠ (l.getD 0 0).toNat) cmds ∧
        ∀ pac ∈ cmds, commandHandle pac.stored ≠ some (l.getD 0 0).toNat)

/-- However the answers `0x00` arrive, the commands written for `m`, received in the state `f`, go
to the right connections. -/
def RelaysRight (w : Connections) (m : Message) (f : Forward) : Prop :=
  ∀ answers, AllZero answers → ((relay w).after f answers).pc = .recv →
    RightRecipients w m.bytes (written w f answers)

/-- The messages that the constant handle does not send astray: not from a peer with direction 1,
and from the cloud only with no connection but 0. -/
def OnlyZero (w : Connections) (l : List UInt8) : Prop :=
  (l.getD 0 0 = 0xFF → ∀ i, w.IsConnected i → i = 0) ∧
    ¬ (l.getD 0 0 ≠ 0xFF ∧ l.getD 0 0 ≠ 0xEE ∧ l.getD 1 0 = 0x01)

@[simp] theorem notified_nil : notified [] = [] := rfl

@[simp] theorem notified_notifyData (buffer : CArray UInt8 100) (size idz : Nat) (cmds : Commands) :
    notified (notifyData buffer size idz :: cmds) = 0 :: notified cmds := by
  simp [notified]

@[simp] theorem notified_gattWriteValue (buffer : CArray UInt8 100) (size idz : Nat)
    (cmds : Commands) : notified (gattWriteValue buffer size idz :: cmds) = notified cmds := by
  simp [notified, gattWritecharvalue, gattNotification]

/-- Each notification of a loop is addressed to the connection 0. -/
theorem notified_loopFrom (f : Forward) (w : Connections) (l : ConnLoop) (idz : Nat) :
    notified (f.loopFrom w l idz) = List.replicate (f.visited w l idz).length 0 := by
  unfold loopFrom
  induction f.visited w l idz with
  | nil => rfl
  | cons j js ih => rw [List.map_cons, notified_notifyData, ih]; rfl

section Consistent

variable {w : Connections} (hw : w.Consistent)

include hw

theorem not_connected_of_slaveCount {i : Nat} (h : ¬ 0 < w.slaveCount) : ¬ w.IsConnected i := by
  intro hi
  have h0 : w.slaveCount.toNat = 0 := by
    rw [UInt8.lt_iff_toNat_lt] at h
    exact Nat.eq_zero_of_not_pos h
  rw [hw.slaveCount, List.length_eq_zero_iff, List.filter_eq_nil_iff] at h0
  exact h0 i (List.mem_range.mpr hi.1) (decide_eq_true hi)

/-- The test of `Slave_Count` only skips loops that would do nothing. -/
theorem slaveCommands_eq (f : Forward) (l : ConnLoop) : f.slaveCommands w l = f.loopFrom w l 0 := by
  unfold slaveCommands
  split
  · rfl
  next h =>
    have hnone : f.visited w l 0 = [] :=
      List.filter_eq_nil_iff.mpr fun i _ hv =>
        not_connected_of_slaveCount hw h (of_decide_eq_true hv).1
    rw [loopFrom, hnone, List.map_nil]

/-- The cloud loop serves the table exactly if nobody but 0 is connected. -/
theorem notifiesExactly_cloud_iff (f : Forward) :
    NotifiesExactly w (fun _ => True) (f.slaveCommands w .cloud) ↔
      ∀ i, w.IsConnected i → i = 0 := by
  rw [slaveCommands_eq hw, NotifiesExactly, notified_loopFrom]
  constructor
  · rintro ⟨h1, -⟩ i hi
    have hc := h1 i hi trivial
    rw [hw.connHandle i hi] at hc
    have hmem : i ∈ List.replicate (f.visited w .cloud 0).length 0 :=
      List.count_pos_iff.mp (by omega)
    exact List.eq_of_mem_replicate hmem
  · intro h
    have hv : f.visited w .cloud 0 =
        (List.range maxNumPeripherals).filter fun j => j = 0 ∧ w.IsConnected 0 := by
      refine List.filter_congr fun j _ => ?_
      simp only [Visits, reduceCtorEq, false_implies, and_true, decide_eq_decide]
      exact ⟨fun hj => by have := h j hj; subst this; exact ⟨rfl, hj⟩, fun hj => hj.1 ▸ hj.2⟩
    by_cases h0 : w.IsConnected 0
    · have hk : (f.visited w .cloud 0).length = 1 := by
        rw [hv]
        simp [h0, maxNumPeripherals, List.range_succ]
      rw [hk]
      refine ⟨fun i hi _ => ?_, fun j hj hmem => ?_⟩
      · rw [hw.connHandle i hi, h i hi]
        rfl
      · rw [List.eq_of_mem_replicate hmem] at hj
        exact hj 0 h0 trivial (hw.connHandle 0 h0)
    · have hk : (f.visited w .cloud 0).length = 0 := by
        rw [hv]
        simp [h0]
      rw [hk]
      refine ⟨fun i hi _ => absurd (h i hi ▸ hi) h0, fun j _ hmem => ?_⟩
      cases hmem

/-- The peer branch serves no table: its first notification goes to 0 whoever is connected. -/
theorem not_notifiesExactly_peer (f : Forward) (pac : Fill UInt8)
    (hpac : commandOpcode pac.stored ≠ some gattNotification) :
    ¬ NotifiesExactly w (· ≠ f.connHandleId.toNat)
      (notifyData f.buffer f.size.toNat 0 :: pac :: f.slaveCommands w .peer) := by
  have hn : notified (notifyData f.buffer f.size.toNat 0 :: pac :: f.slaveCommands w .peer) =
      0 :: List.replicate (f.visited w .peer 0).length 0 := by
    rw [notified_notifyData, slaveCommands_eq hw, ← notified_loopFrom]
    simp [notified, hpac]
  rw [NotifiesExactly, hn]
  rintro ⟨h1, h2⟩
  have hex : ∃ i, w.IsConnected i ∧ i ≠ f.connHandleId.toNat ∧ w.connHandle i = 0 := by
    refine Classical.byContradiction fun hno => h2 0 (fun i hi hp hz => ?_) List.mem_cons_self
    exact hno ⟨i, hi, hp, hz⟩
  obtain ⟨i, hi, hne, hz⟩ := hex
  -- Connection 0 is there, so the loop notifies it once more.
  have hi0 : i = 0 := (hw.connHandle i hi).symm.trans hz
  subst hi0
  have hvis : 0 ∈ f.visited w .peer 0 :=
    List.mem_filter.mpr ⟨by decide, decide_eq_true ⟨hi, fun _ => hne⟩⟩
  have hpos := List.length_pos_of_mem hvis
  have hc := h1 0 hi hne
  rw [hz, List.count_cons_self, List.count_replicate_self] at hc
  omega

end Consistent

/-! ## One message -/

/-- What the thread holds of a received message. -/
theorem receive_bytes {f₀ f : Forward} {m : Message} (hf : f₀.receive m = some f)
    (hl : 3 ≤ m.bytes.length) :
    ∃ g : Forward, f = branch g ∧ g.buffer.byte 0 = m.bytes.getD 0 0 ∧
      g.buffer.byte 1 = m.bytes.getD 1 0 := by
  obtain ⟨buffer, hb, hr⟩ := receive_spec f₀ m
  rw [hr, Option.some.injEq] at hf
  exact ⟨_, hf.symm, hb.byte_eq (by omega), hb.byte_eq (by omega)⟩

theorem remaining_branch_cloud {g : Forward} (w : Connections) (h0 : g.buffer.byte 0 = 0xFF) :
    (branch g).remaining w = (branch g).slaveCommands w .cloud := by
  rw [branch_cloud h0]
  rfl

theorem remaining_branch_peer {g : Forward} (w : Connections) (h0 : g.buffer.byte 0 ≠ 0xFF)
    (h0' : g.buffer.byte 0 ≠ 0xEE) (h1 : g.buffer.byte 1 = 0x01) :
    (branch g).remaining w = notifyData g.buffer g.size.toNat 0 ::
      gattWriteValue g.buffer g.size.toNat 0 :: (branch g).slaveCommands w .peer := by
  rw [branch_peer h0 h0' h1]
  rfl

/-- The thread does come to its next message. -/
theorem exists_answers (w : Connections) (g : Forward) :
    ∃ answers, AllZero answers ∧ ((relay w).after (branch g) answers).pc = .recv := by
  have ha : AllZero (List.replicate 24 (Vector.replicate 100 0)) := by
    intro a ha
    rw [List.eq_of_mem_replicate ha, CArray.byte_eq_getElem _ (by omega)]
    exact Vector.getElem_replicate _
  exact ⟨_, ha, after_recv w ha (by rw [List.length_replicate]; exact stepsLeft_branch g)⟩

theorem onlyZero_of_relaysRight {w : Connections} (hw : w.Consistent) {m : Message}
    (hl : 3 ≤ m.bytes.length) {f₀ f : Forward} (hf : f₀.receive m = some f)
    (h : RelaysRight w m f) : OnlyZero w m.bytes := by
  obtain ⟨g, rfl, h0, h1⟩ := receive_bytes hf hl
  obtain ⟨answers, ha, hpc⟩ := exists_answers w g
  have hr := h answers ha hpc
  rw [written_eq w ha hpc] at hr
  refine ⟨fun hff => ?_, fun ⟨hff, hee, h01⟩ => ?_⟩
  · have hc := hr.1 hff
    rw [remaining_branch_cloud w (h0.trans hff)] at hc
    exact (notifiesExactly_cloud_iff hw _).mp hc
  · have hp := (hr.2 hff hee h01).1
    rw [← h0] at hff hee hp
    rw [← h1] at h01
    rw [remaining_branch_peer w hff hee h01, branch_peer hff hee h01] at hp
    exact not_notifiesExactly_peer hw { g with pc := .peerNotify, connHandleId := g.buffer.byte 0 }
      _ (by simp [gattWritecharvalue, gattNotification]) hp

theorem relaysRight_of_onlyZero {w : Connections} (hw : w.Consistent) {m : Message}
    (hl : 3 ≤ m.bytes.length) {f₀ f : Forward} (hf : f₀.receive m = some f)
    (h : OnlyZero w m.bytes) : RelaysRight w m f := by
  obtain ⟨g, rfl, h0, -⟩ := receive_bytes hf hl
  intro answers ha hpc
  rw [written_eq w ha hpc]
  refine ⟨fun hff => ?_, fun hff hee h01 => absurd ⟨hff, hee, h01⟩ h.2⟩
  rw [remaining_branch_cloud w (h0.trans hff)]
  exact (notifiesExactly_cloud_iff hw _).mpr (h.1 hff)

/-! ## Tables with one connection -/

/-- A message `41` from the cloud. -/
def cloudMessage : Message := ⟨[0xFF, 0x00, 0x01, 0x41], by decide⟩

theorem Connections.isConnected_single {i : Fin 5} {j : Nat} (h : (single i).IsConnected j) :
    j = i := by
  obtain ⟨hj, hs⟩ := h
  refine Classical.byContradiction fun hne => ?_
  simp [single, hne, ConnedtedDevice.zero] at hs

theorem Connections.single_consistent (i : Fin 5) : (single i).Consistent where
  lt := fun j hj => by rw [isConnected_single hj]; exact i.isLt
  connHandle := fun j hj => by
    have hlt := i.isLt
    rw [isConnected_single hj]
    simp [connHandle, single, ConnedtedDevice.connected, show i.val < 6 by omega]
    omega
  slaveCount := by
    revert i
    decide

/-! ## The result -/

/-- **Recipients.** For a consistent table, a message of 3 to 94 bytes and answers `0x00`, the
commands reach exactly the connections that the message is for if and only if the message is not
from a peer with direction 1 and, from the cloud, no connection but 0 is there. -/
theorem relaysRight_iff {w : Connections} (hw : w.Consistent) {m : Message}
    (hl : 3 ≤ m.bytes.length ∧ m.bytes.length ≤ 94) {f₀ f : Forward}
    (hf : f₀.receive m = some f) : RelaysRight w m f ↔ OnlyZero w m.bytes :=
  ⟨onlyZero_of_relaysRight hw hl.1 hf, relaysRight_of_onlyZero hw hl.1 hf⟩

/-- With only connection 0 there, a message from the cloud reaches it. -/
theorem relaysRight_single_zero : ∃ f, Forward.start.receive cloudMessage = some f ∧
    RelaysRight (.single 0) cloudMessage f := by
  obtain ⟨buffer, -, hr⟩ := receive_spec Forward.start cloudMessage
  refine ⟨_, hr, (relaysRight_iff (Connections.single_consistent 0) (by decide) hr).mpr ?_⟩
  exact ⟨fun _ i hi => Connections.isConnected_single hi, by decide⟩

/-- With only connection 1 there, a message from the cloud is sent to 0. -/
theorem not_relaysRight_single_one : ¬ ∀ (w : Connections) (m : Message) (f₀ f : Forward),
    w.Consistent → 3 ≤ m.bytes.length ∧ m.bytes.length ≤ 94 → f₀.receive m = some f →
      RelaysRight w m f := by
  intro h
  obtain ⟨buffer, -, hr⟩ := receive_spec Forward.start cloudMessage
  have hright := h _ _ _ _ (Connections.single_consistent 1) (by decide) hr
  have honly := onlyZero_of_relaysRight (Connections.single_consistent 1) (by decide) hr hright
  have hone : (Connections.single 1).IsConnected 1 := by decide
  exact absurd (honly.1 rfl 1 hone) (by decide)

end Ble
