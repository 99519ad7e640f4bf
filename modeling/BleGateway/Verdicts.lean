import BleGateway.Bonding

/-!
# How the handlers end (`src/CentralModeThread.c`, lines 224–263 and 787–901)

Four handlers of `CentralModeThread` have paths that reach the end of an `int` function without a
`return` (`Exit.noValue`). What the caller then reads is not fixed (`CentralInput.noReturn`).

* `definite_deviceScanReq_iff`, `not_definite_deviceScanRsp`, `definite_deviceScanData_iff`,
  `definite_deviceEstablishLinkRsp_iff`: the paths with a value.
* `branchFor`: the branch that the switch names for a verdict, before it is cut to a `uint8_t`.
* `driven_iff`: when an iteration has a definite verdict and takes the branch for it. The verdict -1
  of `Device_Scan_Data` would not take its branch in any case.
-/

namespace Ble

namespace CentralMode

/-! ## Which paths have a value -/

/-- `Device_Scan_Req` has one only where its write fails: after a full write it returns what
`Device_Scan_Rsp` gave. -/
theorem definite_deviceScanReq_iff (s : CentralMode) (i : CentralInput) :
    (deviceScanReq s i).1.Definite ↔
      deviceConnCount i.connDeviceList < 4 ∧ complete deviceScanReqPac i = false := by
  unfold deviceScanReq
  split
  · next h =>
    split
    · next hw =>
      exact iff_of_false (not_definite_deviceScanRsp _) fun h' => by simp [hw] at h'
    · next hw => exact iff_of_true (Exit.definite_returned (-1)) ⟨h, by simpa using hw⟩
  · next h => exact iff_of_false (Exit.not_definite_noValue (-1)) fun h' => h h'.1

/-! ## What they return -/

theorem deviceScanReq_of_definite {s : CentralMode} {i : CentralInput}
    (h : (deviceScanReq s i).1.Definite) : (deviceScanReq s i).1 = .returned (-1) := by
  obtain ⟨hlt, hw⟩ := (definite_deviceScanReq_iff s i).mp h
  simp [deviceScanReq, hlt, hw]

theorem deviceScanData_of_definite {buffer : CArray UInt8 256} {mac : CArray UInt8 7}
    (h : (deviceScanData buffer mac).1.Definite) :
    (deviceScanData buffer mac).1 = .returned 2 := by
  rw [deviceScanData_found ((definite_deviceScanData_iff buffer mac).mp h)]

theorem deviceEstablishLinkRsp_of_definite {buffer : CArray UInt8 256} {mac : CArray UInt8 7}
    {connHandle : UInt16} (h : (deviceEstablishLinkRsp buffer mac connHandle).1.Definite) :
    ∃ v ∈ [0, 2, 3, (5 : Int)],
      (deviceEstablishLinkRsp buffer mac connHandle).1 = .returned v := by
  unfold deviceEstablishLinkRsp at h ⊢
  grind [Exit.not_definite_noValue]

/-! ## The switch -/

/-- The branch that the switch names for a verdict: the next state, and whether it bonds. -/
def branchFor : CentralState → Int → CentralState × Bool
  | .deviceScanReq, v => if v = 0 then (.deviceScanData, false) else (.init, false)
  | .deviceScanData, v =>
    if v = 0 then (.deviceScanData, false)
    else if v = 1 then (.deviceScanReq, false)
    else if v = 2 then (.deviceScanCancel, false)
    else if v = -1 then (.deviceScanReq, false)
    else (.deviceScanData, false)
  | .deviceEstablishLinkRsp, v => (.deviceEstablishLinkRsp, v = 0)
  | state, _ => (state, false)

/-- The branch that is taken, with `ble_status`. -/
def branchTaken : CentralState → UInt8 → CentralState × Bool
  | .deviceScanReq, bleStatus => if bleStatus = 0 then (.deviceScanData, false) else (.init, false)
  | .deviceScanData, bleStatus => (afterScanData bleStatus, false)
  | .deviceEstablishLinkRsp, bleStatus => (.deviceEstablishLinkRsp, bleStatus = 0)
  | state, _ => (state, false)

/-- How the handler of the iteration ends, if it is one of the four. -/
def handlerExit (s : CentralMode) (i : CentralInput) : Option Exit :=
  let buffer := sysMqRecvBuffer s.buffer i.received
  match s.bonding, s.centralState with
  | false, .deviceScanReq => some (deviceScanReq s i).1
  | false, .deviceScanData => some (deviceScanData buffer s.scannedMacBuff).1
  | false, .deviceEstablishLinkRsp =>
    some (deviceEstablishLinkRsp buffer s.scannedMacBuff s.connHandle).1
  | _, _ => none

/-- The handler yields a definite verdict, and the switch takes the branch named for it. -/
def Driven (s : CentralMode) (i : CentralInput) : Prop :=
  ∀ e, handlerExit s i = some e → ∃ v, e = .returned v ∧
    ((step s i).1.centralState, (step s i).1.bonding) = branchFor s.centralState v

/-- The path that the handler takes has a `return`: the scan request fails with less than four
connections, the advertisement matches, or the answer to the link request has a verdict. -/
structure HasVerdict (s : CentralMode) (i : CentralInput) : Prop where
  scanReq : s.bonding = false → s.centralState = .deviceScanReq →
    deviceConnCount i.connDeviceList < 4 ∧ complete deviceScanReqPac i = false
  scanData : s.bonding = false → s.centralState = .deviceScanData →
    IsEvent (sysMqRecvBuffer s.buffer i.received) vsGapDeviceInformation ∧
      Matches (sysMqRecvBuffer s.buffer i.received)
  linkRsp : s.bonding = false → s.centralState = .deviceEstablishLinkRsp →
    LinkRspDefinite (sysMqRecvBuffer s.buffer i.received)

/-- The switch takes the branch for what the caller reads, cut to a `uint8_t`. -/
theorem step_branchTaken {s : CentralMode} {i : CentralInput} {e : Exit}
    (h : handlerExit s i = some e) :
    ((step s i).1.centralState, (step s i).1.bonding) =
      branchTaken s.centralState (UInt8.ofInt (e.read i.noReturn)) := by
  unfold handlerExit at h
  split at h
  · next hb hs =>
    cases h
    have hb' : (deviceScanReq s i).2.1.bonding = false := by
      unfold deviceScanReq
      split
      · split
        · exact hb
        · exact hb
      · exact hb
    rw [hs]
    simp only [step, hb, hs, Bool.false_eq_true, if_false, hb', branchTaken]
    split
    · rfl
    · rfl
  · next hb hs =>
    cases h
    rw [hs]
    simp only [step, hb, hs, Bool.false_eq_true, if_false, branchTaken]
  · next hb hs =>
    cases h
    rw [hs]
    simp only [step, hb, hs, Bool.false_eq_true, if_false, branchTaken]
    split
    · next h0 => simp only [h0, decide_true]
    · next h0 => simp only [h0, decide_false]
  · cases h

/-- What the handlers `return`, where they do, takes its branch. -/
theorem branchTaken_of_definite {s : CentralMode} {i : CentralInput} {e : Exit}
    (h : handlerExit s i = some e) (hd : e.Definite) :
    ∃ v, e = .returned v ∧
      branchTaken s.centralState (UInt8.ofInt v) = branchFor s.centralState v := by
  unfold handlerExit at h
  split at h
  · next hb hs =>
    cases h
    rw [hs]
    exact ⟨-1, deviceScanReq_of_definite hd, rfl⟩
  · next hb hs =>
    cases h
    rw [hs]
    exact ⟨2, deviceScanData_of_definite hd, rfl⟩
  · next hb hs =>
    cases h
    obtain ⟨v, hv, hexit⟩ := deviceEstablishLinkRsp_of_definite hd
    rw [hs]
    refine ⟨v, hexit, ?_⟩
    simp only [List.mem_cons, List.not_mem_nil, or_false] at hv
    obtain rfl | rfl | rfl | rfl := hv
    all_goals rfl
  · cases h

/-- The verdicts of `Device_Scan_Data`: all but -1 would take their branch. -/
theorem branchTaken_scanData_iff {v : Int} (hv : v ∈ [0, 1, 2, -1]) :
    branchTaken .deviceScanData (UInt8.ofInt v) = branchFor .deviceScanData v ↔ v ≠ -1 := by
  simp only [List.mem_cons, List.not_mem_nil, or_false] at hv
  obtain rfl | rfl | rfl | rfl := hv
  all_goals decide

/-- An iteration is driven by its verdict exactly if there is one. -/
theorem driven_iff_definite (s : CentralMode) (i : CentralInput) :
    Driven s i ↔ ∀ e, handlerExit s i = some e → e.Definite := by
  constructor
  · intro h e he
    obtain ⟨v, rfl, -⟩ := h e he
    exact Exit.definite_returned v
  · intro h e he
    obtain ⟨v, rfl, hbranch⟩ := branchTaken_of_definite he (h e he)
    exact ⟨v, rfl, by rw [step_branchTaken he, Exit.read_returned, hbranch]⟩

theorem hasVerdict_iff (s : CentralMode) (i : CentralInput) :
    (∀ e, handlerExit s i = some e → e.Definite) ↔ HasVerdict s i := by
  have hreq := definite_deviceScanReq_iff s i
  have hdata := definite_deviceScanData_iff (sysMqRecvBuffer s.buffer i.received) s.scannedMacBuff
  have hrsp := definite_deviceEstablishLinkRsp_iff (sysMqRecvBuffer s.buffer i.received)
    s.scannedMacBuff s.connHandle
  constructor
  · intro h
    refine ⟨fun hb hs => hreq.mp (h _ ?_), fun hb hs => hdata.mp (h _ ?_),
      fun hb hs => hrsp.mp (h _ ?_)⟩
    all_goals simp only [handlerExit, hb, hs]
  · intro h e he
    unfold handlerExit at he
    split at he
    · next hb hs =>
      cases he
      exact hreq.mpr (h.scanReq hb hs)
    · next hb hs =>
      cases he
      exact hdata.mpr (h.scanData hb hs)
    · next hb hs =>
      cases he
      exact hrsp.mpr (h.linkRsp hb hs)
    · cases he

/-- **Verdicts.** An iteration yields a definite verdict and takes its branch exactly if the path of
its handler has a `return`, which no path of `Device_Scan_Rsp` has. Of the four verdicts that the
switch names for `Device_Scan_Data`, all but -1 take their branch. -/
theorem driven_iff (s : CentralMode) (i : CentralInput) :
    (Driven s i ↔ HasVerdict s i) ∧
      (∀ buffer, ¬ (deviceScanRsp buffer).Definite) ∧
      ∀ v ∈ [0, 1, 2, (-1 : Int)],
        (branchTaken .deviceScanData (UInt8.ofInt v) = branchFor .deviceScanData v ↔ v ≠ -1) :=
  ⟨(driven_iff_definite s i).trans (hasVerdict_iff s i), not_definite_deviceScanRsp,
    fun _ hv => branchTaken_scanData_iff hv⟩

/-- The scan request is written and answered with success. -/
def scanStarted : CentralInput := inputOf 7 [0x04, 0xFF, 0x06, 0x7F, 0x06, 0x00, 0x04, 0xFE, 0x00]

/-- Its verdict is not definite. -/
theorem not_driven_scanStarted :
    ¬ ∀ (s : CentralMode) (i : CentralInput), Driven s i := by
  intro h
  have hdriven := h { start (Vector.replicate 256 0) (Vector.replicate 7 0) 0 with
    centralState := .deviceScanReq } scanStarted
  have hdefinite := (hasVerdict_iff _ _).mp ((driven_iff_definite _ _).mp hdriven)
  exact absurd (hdefinite.scanReq rfl rfl).2 (by decide)

end CentralMode

end Ble
