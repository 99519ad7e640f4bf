import BleGateway.Lib.Sched
import BleGateway.CentralMode
import BleGateway.Dispatch

/-!
# How many connections there are

Three places deal with the number of connections: `Update_Conn_Status` enters one in the table, the
link-terminated branch of `UartCmdRxThread` takes one out and lets `Upadate_Disconnection` set
`Slave_Count`, and `Device_conn_count` counts for itself.

* `Connections.updateConnStatus`: the registration. It leaves `Slave_Count` as it is.
* `TableOp`: the two operations on the table, for handles in it.
* `countsAgree_terminated_iff`: after a termination the counts agree as long as the entries 4 and 5
  are free: the loops stop at 5 and at 4.
* `countsAgree_iff`: over whole runs they agree only until the first registration.
-/

namespace Ble

/-- What `Update_Conn_Status(State)` finds in its argument and in the globals. Its loop reads six
cells of `Master_ID_1`. -/
structure Registration where
  connHandle : UInt16
  scannedMacBuff : CArray UInt8 7
  masterId1 : CArray UInt8 6
  handleIdMain : UInt16
  state : String
  deriving DecidableEq

/-- `Update_Conn_Status`; `none` outside the table. The stores to `Central_ID[4]` and
`Central_ID[5]` hit the padding in front of `Device_State`. -/
def Connections.updateConnStatus (w : Connections) (r : Registration) : Option Connections :=
  if h : r.connHandle.toNat < 6 then
    some { w with connDeviceList :=
      w.connDeviceList.set r.connHandle.toNat {
        mac := CArray.memcpy w.connDeviceList[r.connHandle.toNat].mac
          (r.scannedMacBuff.toList.take 6) (by simp)
        connHandle := r.connHandle
        handleId := r.handleIdMain
        status := 1
        centralId := r.masterId1.take 4
        deviceState := r.state } }
  else none

/-- The operations on the table, for handles in it. -/
inductive TableOp where
  /-- `Update_Conn_Status`. -/
  | register (r : Registration) (h : r.connHandle.toNat < 6)
  /-- A Link Terminated event with this reason, as the dispatch chain processes it. -/
  | terminated (connHandle : Nat) (reason : UInt8) (h : connHandle < 6)

def TableOp.apply (w : Connections) : TableOp → Option Connections
  | .register r _ => w.updateConnStatus r
  | .terminated connHandle reason _ => (linkTerminated connHandle reason).foldlM Action.onTable w

/-- The table under a sequence of operations. -/
def tableOps : Sched Connections TableOp where
  step op w :=
    match op.apply w with
    | none => .overrun
    | some w => .next w

/-- `BLE_Mode_Change.Slave_Count` and `Device_conn_count` are the number of connected entries. -/
structure CountsAgree (w : Connections) : Prop where
  slaveCount : w.slaveCount.toNat = w.connDeviceList.toList.countP (·.status = 1)
  deviceConnCount : CentralMode.deviceConnCount w.connDeviceList =
    w.connDeviceList.toList.countP (·.status = 1)

/-- Is it a registration? -/
def TableOp.IsRegister : TableOp → Prop
  | .register _ _ => True
  | .terminated _ _ _ => False

/-! ## One operation -/

theorem updateConnStatus_eq (w : Connections) {r : Registration} (h : r.connHandle.toNat < 6) :
    ∃ d : ConnedtedDevice, d.status = 1 ∧ w.updateConnStatus r =
      some { w with connDeviceList := w.connDeviceList.set r.connHandle.toNat d } :=
  ⟨_, rfl, dif_pos h⟩

/-- The table after a Link Terminated event. -/
def Connections.terminate (w : Connections) (connHandle : Nat) (h : connHandle < 6) : Connections :=
  let free := { w.connDeviceList[connHandle] with status := 0 }
  Connections.upadateDisconnection
    { w with connDeviceList := w.connDeviceList.set connHandle free }

theorem apply_terminated (w : Connections) {connHandle : Nat} (reason : UInt8)
    (h : connHandle < 6) :
    (TableOp.terminated connHandle reason h).apply w = some (w.terminate connHandle h) := by
  have hclear : w.clearStatus connHandle = some _ := dif_pos h
  simp only [TableOp.apply, linkTerminated]
  by_cases hr : reason = 0x3E
  · simp [hr, Action.onTable, hclear, Connections.terminate]
  · simp [hr, Action.onTable, hclear, Connections.terminate]

/-- The six cells of the table. -/
theorem toList_eq (list : ConnDeviceList) :
    list.toList = [list[0], list[1], list[2], list[3], list[4], list[5]] := by
  refine List.ext_getElem (by simp) fun i hi _ => ?_
  have : i < 6 := by simpa using hi
  match i, this with
  | 0, _ | 1, _ | 2, _ | 3, _ | 4, _ | 5, _ => simp

/-- `Upadate_Disconnection` counts the entries 0 to 4, `Device_conn_count` the entries 0 to 3. -/
theorem countsAgree_upadateDisconnection_iff (w : Connections) :
    CountsAgree w.upadateDisconnection ↔
      w.connDeviceList[4].status ≠ 1 ∧ w.connDeviceList[5].status ≠ 1 := by
  have hle : (w.connDeviceList.toList.take maxNumPeripherals).countP (·.status = 1) ≤ 5 :=
    Nat.le_trans List.countP_le_length (by simp [maxNumPeripherals])
  have hcount : w.upadateDisconnection.slaveCount.toNat =
      (w.connDeviceList.toList.take maxNumPeripherals).countP (·.status = 1) :=
    UInt8.toNat_ofNat_of_lt' (by simp [UInt8.size]; omega)
  have hlist : w.upadateDisconnection.connDeviceList = w.connDeviceList := rfl
  constructor
  · rintro ⟨h₁, h₂⟩
    rw [hcount] at h₁
    simp only [hlist, CentralMode.deviceConnCount, toList_eq, maxNumPeripherals,
      List.take_succ_cons, List.take_zero, List.countP_cons, List.countP_nil] at h₁ h₂
    constructor
    · intro h4
      simp [h4] at h₂
    · intro h5
      simp [h5] at h₁
  · rintro ⟨h4, h5⟩
    refine ⟨?_, ?_⟩
    · rw [hcount]
      simp [hlist, toList_eq, maxNumPeripherals, List.countP_cons, h5]
    · simp [hlist, CentralMode.deviceConnCount, toList_eq, List.countP_cons, h4, h5]

/-- After a termination the counts agree exactly if the entries 4 and 5 are free. -/
theorem countsAgree_terminated_iff (w : Connections) {connHandle : Nat} (h : connHandle < 6) :
    CountsAgree (w.terminate connHandle h) ↔
      (w.terminate connHandle h).connDeviceList[4].status ≠ 1 ∧
        (w.terminate connHandle h).connDeviceList[5].status ≠ 1 :=
  countsAgree_upadateDisconnection_iff _

/-! ## Runs -/

/-- No entry is connected, and the counter says so. -/
structure Unused (w : Connections) : Prop where
  slaveCount : w.slaveCount = 0
  status : ∀ d ∈ w.connDeviceList.toList, d.status ≠ 1

theorem unused_zero : Unused .zero := ⟨rfl, by decide⟩

theorem Unused.countP_eq {w : Connections} (h : Unused w) :
    w.connDeviceList.toList.countP (·.status = 1) = 0 :=
  List.countP_eq_zero.mpr fun d hd => by simpa using h.status d hd

theorem Unused.countsAgree {w : Connections} (h : Unused w) : CountsAgree w where
  slaveCount := by rw [h.countP_eq, h.slaveCount]; rfl
  deviceConnCount := by
    rw [h.countP_eq]
    exact List.countP_eq_zero.mpr fun d hd => by simpa using h.status d (List.mem_of_mem_take hd)

/-- A termination frees one entry. -/
theorem toList_terminate (w : Connections) {connHandle : Nat} (h : connHandle < 6) :
    ∃ free : ConnedtedDevice, free.status = 0 ∧
      (w.terminate connHandle h).connDeviceList.toList =
        w.connDeviceList.toList.set connHandle free :=
  ⟨{ w.connDeviceList[connHandle] with status := 0 }, rfl, Vector.toList_set h⟩

/-- It counts none where none is connected. -/
theorem Unused.terminate {w : Connections} (hu : Unused w) {connHandle : Nat} (h : connHandle < 6) :
    Unused (w.terminate connHandle h) := by
  obtain ⟨free, h0, hlist⟩ := toList_terminate w h
  have hfree : ∀ d ∈ (w.terminate connHandle h).connDeviceList.toList, d.status ≠ 1 := by
    rw [hlist]
    intro d hd
    obtain hd | rfl := List.mem_or_eq_of_mem_set hd
    · exact hu.status d hd
    · simp [h0]
  refine ⟨?_, hfree⟩
  have hcount : (((w.terminate connHandle h).connDeviceList.toList.take maxNumPeripherals).countP
      (·.status = 1)) = 0 :=
    List.countP_eq_zero.mpr fun d hd => by simpa using hfree d (List.mem_of_mem_take hd)
  exact congrArg UInt8.ofNat hcount

/-- A registration connects an entry and does not count it. -/
theorem Unused.not_countsAgree {w w' : Connections} (hu : Unused w) {r : Registration}
    (h : r.connHandle.toNat < 6) (hw : w.updateConnStatus r = some w') : ¬ CountsAgree w' := by
  obtain ⟨d, hd, he⟩ := updateConnStatus_eq w h
  cases he.symm.trans hw
  intro hc
  have h0 := hc.slaveCount
  rw [hu.slaveCount] at h0
  have hmem : d ∈ (w.connDeviceList.set r.connHandle.toNat d).toList := by
    rw [Vector.toList_set]
    exact List.mem_set (by simpa using h) d
  exact absurd (List.countP_eq_zero.mp h0.symm d hmem) (by simpa using hd)

theorem apply_isSome (w : Connections) (op : TableOp) : ∃ w', op.apply w = some w' := by
  cases op with
  | register r h => exact ⟨_, dif_pos h⟩
  | terminated connHandle reason h => exact ⟨_, apply_terminated w reason h⟩

theorem run_tableOps_cons {w w' : Connections} {op : TableOp} (h : op.apply w = some w')
    (ops : List TableOp) : tableOps.run w (op :: ops) = tableOps.run w' ops := by
  simp only [Sched.run_cons, tableOps, h]

/-- No operation leaves the table. -/
theorem run_tableOps (w : Connections) (ops : List TableOp) :
    ∃ w', tableOps.run w ops = some w' := by
  have hstep : tableOps.Inductive fun _ => True := by
    intro op w _
    obtain ⟨w', hw⟩ := apply_isSome w op
    refine ⟨?_, fun _ _ => trivial⟩
    simp only [tableOps, hw]
    exact Outcome.next_ne_overrun w'
  obtain ⟨w', hrun, -⟩ := hstep.run trivial ops
  exact ⟨w', hrun⟩

/-- The counts agree before the first and after every operation. -/
def AlwaysAgree (w : Connections) (ops : List TableOp) : Prop :=
  ∀ pre post, ops = pre ++ post → ∀ w', tableOps.run w pre = some w' → CountsAgree w'

theorem AlwaysAgree.tail {w w' : Connections} {op : TableOp} {ops : List TableOp}
    (h : AlwaysAgree w (op :: ops)) (hw : op.apply w = some w') : AlwaysAgree w' ops := by
  intro pre post hsplit w'' hrun
  exact h (op :: pre) post (by rw [hsplit]; rfl) w'' (by rw [run_tableOps_cons hw, hrun])

theorem alwaysAgree_of_unused {w : Connections} (hu : Unused w) {ops : List TableOp}
    (hops : ∀ op ∈ ops, ¬ op.IsRegister) : AlwaysAgree w ops := by
  intro pre post hsplit w' hrun
  have hpre : ∀ op ∈ pre, ¬ op.IsRegister := fun op hop => hops op (by simp [hsplit, hop])
  clear hsplit hops
  induction pre generalizing w with
  | nil =>
    cases hrun
    exact hu.countsAgree
  | cons op pre ih =>
    cases op with
    | register r h => exact absurd trivial (hpre _ List.mem_cons_self)
    | terminated connHandle reason h =>
      rw [run_tableOps_cons (apply_terminated w reason h)] at hrun
      exact ih (hu.terminate h) hrun fun op hop => hpre op (List.mem_cons_of_mem _ hop)

theorem no_register_of_alwaysAgree {w : Connections} (hu : Unused w) {ops : List TableOp}
    (ha : AlwaysAgree w ops) : ∀ op ∈ ops, ¬ op.IsRegister := by
  induction ops generalizing w with
  | nil => simp
  | cons op ops ih =>
    cases op with
    | register r h =>
      obtain ⟨w', hw⟩ := apply_isSome w (.register r h)
      exact absurd (ha [_] ops rfl w' (run_tableOps_cons hw [])) (hu.not_countsAgree h hw)
    | terminated connHandle reason h =>
      have hw := apply_terminated w reason h
      exact List.forall_mem_cons.mpr ⟨not_false, ih (hu.terminate h) (ha.tail hw)⟩

/-- **The connection count.** From the zero table every run of registrations and terminations goes
through, and the counts agree all along exactly if it registers no connection. -/
theorem countsAgree_iff (ops : List TableOp) :
    (∃ w, tableOps.run .zero ops = some w) ∧
      (AlwaysAgree .zero ops ↔ ∀ op ∈ ops, ¬ op.IsRegister) :=
  ⟨run_tableOps .zero ops, no_register_of_alwaysAgree unused_zero,
    alwaysAgree_of_unused unused_zero⟩

/-- Connection 0 is registered. -/
def registerOne : List TableOp :=
  [.register ⟨0, Vector.replicate 7 0xA1, Vector.replicate 6 0, 0x25, "connected"⟩ (by decide)]

/-- `Slave_Count` stays 0. -/
theorem not_alwaysAgree_registerOne : ¬ ∀ ops, AlwaysAgree .zero ops := by
  intro h
  exact no_register_of_alwaysAgree unused_zero (h registerOne) _ List.mem_cons_self trivial

end Ble
