import BleGateway.CentralMode
import BleGateway.Encoders

/-!
# Setting up a link

What `CentralModeThread` does up to `bond()`, for arbitrary messages, write results and connection
tables.

* `Moves`: the thread as an abstract machine of four stages: it scans, it cancels the scan, it
  requests a link, it waits for the link. `step_moves`: every iteration is one of its moves. Two of
  them (`stray`, `strayLink`) need a handler without a `return` whose caller reads a verdict all the
  same.
* `Asked`: the link requests behind a state. `run_asked`: one of them at most was written in full.
* `Stage`: what each stage has behind it if the caller reads the local `status` of a handler without
  a `return`. `run_stage`: it holds after every such run.
* `link_setup_safe`: then a link request comes after a matching advertisement and the answer to the
  cancel and has the address of that advertisement.
-/

namespace Ble

namespace CentralMode

/-! ## What a trace says -/

/-- A link request. -/
def IsLinkRequest (pac : Fill UInt8) : Prop :=
  commandOpcode pac.stored = some vsGapEstablishLinkRequest

instance (pac : Fill UInt8) : Decidable (IsLinkRequest pac) := inferInstanceAs (Decidable (_ = _))

/-- The address bytes of a link request. -/
def linkAddress (pac : Fill UInt8) : List UInt8 := pac.stored.drop 7

/-- The matching advertisement. -/
def Found (buffer : CArray UInt8 256) : Prop :=
  IsEvent buffer vsGapDeviceInformation ∧ Matches buffer

/-- The answer that the scan was cancelled. -/
def Cancelled (buffer : CArray UInt8 256) : Prop :=
  IsEvent buffer vsGapDeviceDiscovery ∧ buffer.byte 5 = 0x30

/-- The event is not a matching advertisement that `Device_Scan_Data` received. -/
def NotFound (e : CentralEvent) : Prop :=
  ∀ buffer, e = .receive .deviceScanData buffer → ¬ Found buffer

/-- The link requests of a trace, and whether they were written in full. -/
def requests (tr : List CentralEvent) : List (Fill UInt8 × Bool) :=
  tr.filterMap fun
    | .write pac complete => if IsLinkRequest pac then some (pac, complete) else none
    | _ => none

/-- The trace has a matching advertisement, one only, and later the answer to the cancel. -/
def Grounded (tr : List CentralEvent) (found : CArray UInt8 256) : Prop :=
  ∃ a b c rsp, tr = a ++ .receive .deviceScanData found ::
      (b ++ .receive .deviceScanCancelRsp rsp :: c) ∧
    Found found ∧ Cancelled rsp ∧ ∀ e ∈ a ++ (b ++ c), NotFound e

/-- Every link request of the trace comes after a matching advertisement and the answer to the
cancel, and has the address of that advertisement. -/
def RequestsGrounded (tr : List CentralEvent) : Prop :=
  ∀ pre pac complete post, tr = pre ++ .write pac complete :: post → IsLinkRequest pac →
    ∃ found, Grounded pre found ∧ linkAddress pac = found.slice 8 6

/-! ## Addresses -/

/-- `Scanned_MAC_Buff[5]`, …, `Scanned_MAC_Buff[0]`: the address as it stands on the wire. -/
def wireAddress (mac : CArray UInt8 7) : List UInt8 :=
  [mac.byte 5, mac.byte 4, mac.byte 3, mac.byte 2, mac.byte 1, mac.byte 0]

theorem isLinkRequest_deviceEstablishLinkReqPac (mac : CArray UInt8 7) :
    IsLinkRequest (deviceEstablishLinkReqPac mac) := rfl

theorem not_isLinkRequest_enableNotificationPac (connHandle : UInt16) :
    ¬ IsLinkRequest (enableNotificationPac connHandle) := by
  have hopcode : commandOpcode (enableNotificationPac connHandle).stored =
      some gattWritecharvalue := congrArg some (make16OfXY_bytes (by decide))
  rw [IsLinkRequest, hopcode]
  decide

theorem linkAddress_deviceEstablishLinkReqPac (mac : CArray UInt8 7) :
    linkAddress (deviceEstablishLinkReqPac mac) = wireAddress mac := rfl

/-- Copied from the cell `d + 5` down to `d`, the address on the wire is that of the cells from `d`
up. -/
theorem wireAddress_copyMac (buffer : CArray UInt8 256) (mac : CArray UInt8 7) {d : Nat}
    (hd : d + 6 ≤ 256) : wireAddress (copyMac buffer (d + 5) mac) = buffer.slice d 6 := by
  have hcell : ∀ i, i < 6 → (copyMac buffer (d + 5) mac).byte i = buffer.byte (d + 5 - i) := by
    intro i hi
    rw [CArray.byte_eq_getElem _ (by omega), copyMac, CArray.getElem_memcpy_lt _ _ _ (by simpa)]
    simp
  rw [CArray.slice_eq_map_byte buffer hd]
  simp only [wireAddress, hcell, Nat.reduceLT, Nat.reduceSubDiff]
  rfl

/-- If the address in a frame is the one that is stored, copying it changes nothing. -/
theorem copyMac_eq_self {buffer : CArray UInt8 256} {mac : CArray UInt8 7} {d : Nat}
    (hd : d + 6 ≤ 256) (h : wireAddress mac = buffer.slice d 6) :
    copyMac buffer (d + 5) mac = mac := by
  have hsame : wireAddress (copyMac buffer (d + 5) mac) = wireAddress mac :=
    (wireAddress_copyMac buffer mac hd).trans h.symm
  simp only [wireAddress, List.cons.injEq, and_true] at hsame
  obtain ⟨h5, h4, h3, h2, h1, h0⟩ := hsame
  have h6 : (copyMac buffer (d + 5) mac).byte 6 = mac.byte 6 := by
    rw [CArray.byte_eq_getElem _ (by omega), CArray.byte_eq_getElem _ (by omega), copyMac,
      CArray.getElem_memcpy_ge _ _ _ (by simp) (by omega)]
  refine Vector.ext fun i hi => ?_
  rw [← CArray.byte_eq_getElem _ hi, ← CArray.byte_eq_getElem _ hi]
  match i, hi with
  | 0, _ => exact h0
  | 1, _ => exact h1
  | 2, _ => exact h2
  | 3, _ => exact h3
  | 4, _ => exact h4
  | 5, _ => exact h5
  | 6, _ => exact h6

/-! ## The stages -/

/-- The states of the scan. -/
def Scanning (c : CentralState) : Prop := c = .init ∨ c = .deviceScanReq ∨ c = .deviceScanData

/-- The states in which the scan is being cancelled. -/
def Cancelling (c : CentralState) : Prop := c = .deviceScanCancel ∨ c = .deviceScanCancelRsp

/-- An event that is no link request, no matching advertisement and no bonding. -/
structure Plain (e : CentralEvent) : Prop where
  not_request : ∀ pac complete, e = .write pac complete → ¬ IsLinkRequest pac
  not_found : NotFound e
  not_bond : e ≠ .bond

/-- The state is as before, but for the buffer and for what a move says. -/
structure Same (s s' : CentralMode) : Prop where
  scannedMacBuff : s'.scannedMacBuff = s.scannedMacBuff
  bonding : s'.bonding = s.bonding

/-- `buffer[0] == 0x04 && buffer[1] == 0xFF`. -/
def VendorBuffer (buffer : CArray UInt8 256) : Prop := buffer.byte 0 = 0x04 ∧ buffer.byte 1 = 0xFF

instance (buffer : CArray UInt8 256) : Decidable (VendorBuffer buffer) :=
  inferInstanceAs (Decidable (_ ∧ _))

/-- `MAKE16OFXY(buffer[4], buffer[3])`. -/
def bufferEvent (buffer : CArray UInt8 256) : Nat := make16OfXY (buffer.byte 4) (buffer.byte 3)

/-- `MAKE16OFXY(buffer[7], buffer[6])`. -/
def bufferOpcode (buffer : CArray UInt8 256) : Nat := make16OfXY (buffer.byte 7) (buffer.byte 6)

/-- `Device_Establish_Link_Rsp` returns something: for no vendor event, a link, its failure, or the
status of the command `0xFE08`. -/
def LinkRspDefinite (buffer : CArray UInt8 256) : Prop :=
  ¬ VendorBuffer buffer ∨ bufferEvent buffer = vsGapLinkEstablished ∨
    (bufferEvent buffer = vsGapLinkTerminated ∧ buffer.byte 8 = 0x3E) ∨
    (bufferEvent buffer ≠ vsGapLinkTerminated ∧ bufferOpcode buffer = 0xFE08)

instance (buffer : CArray UInt8 256) : Decidable (LinkRspDefinite buffer) :=
  inferInstanceAs (Decidable (_ ∨ _))

/-- It returns nothing for `buffer`, and the caller reads success. -/
def TakenForLink (buffer : CArray UInt8 256) (noReturn : Option Int) : Prop :=
  ¬ LinkRspDefinite buffer ∧ ∃ v, noReturn = some v ∧ UInt8.ofInt v = 0

theorem TakenForLink.not_established {buffer : CArray UInt8 256} {noReturn : Option Int}
    (h : TakenForLink buffer noReturn) : ¬ IsEvent buffer vsGapLinkEstablished :=
  fun he => h.1 (.inr (.inl he.2))

/-- The moves of the thread, with the events of each. `noReturn` is that of the iteration. -/
inductive Moves (noReturn : Option Int) (s : CentralMode) :
    CentralMode → List CentralEvent → Prop
  | halted (hb : s.bonding = true) : Moves noReturn s s []
  | scan {s' : CentralMode} {es : List CentralEvent} (hb : s.bonding = false)
      (hs : Scanning s.centralState) (hs' : Scanning s'.centralState) (h : Same s s')
      (hp : ∀ e ∈ es, Plain e) : Moves noReturn s s' es
  | found (buffer : CArray UInt8 256) (hb : s.bonding = false) (hs : Scanning s.centralState)
      (hf : Found buffer) :
      Moves noReturn s { s with
        buffer, scannedMacBuff := copyMac buffer 13 s.scannedMacBuff
        centralState := .deviceScanCancel } [.receive .deviceScanData buffer]
  | stray (buffer : CArray UInt8 256) (hb : s.bonding = false) (hs : Scanning s.centralState)
      (hf : ¬ Found buffer) (hv : noReturn ≠ none) :
      Moves noReturn s { s with buffer, centralState := .deviceScanCancel }
        [.receive .deviceScanData buffer]
  | cancel {s' : CentralMode} {es : List CentralEvent} (hb : s.bonding = false)
      (hs : Cancelling s.centralState) (hs' : Cancelling s'.centralState) (h : Same s s')
      (hp : ∀ e ∈ es, Plain e) : Moves noReturn s s' es
  | cancelled (buffer : CArray UInt8 256) (hb : s.bonding = false)
      (hs : Cancelling s.centralState) (hc : Cancelled buffer) :
      Moves noReturn s { s with buffer, centralState := .deviceEstablishLinkReq }
        [.receive .deviceScanCancelRsp buffer]
  | request (ok : Bool) (hb : s.bonding = false) (hs : s.centralState = .deviceEstablishLinkReq) :
      Moves noReturn s { s with
        centralState := if ok then .deviceEstablishLinkRsp else .deviceEstablishLinkReq }
        [.write (deviceEstablishLinkReqPac s.scannedMacBuff) ok]
  | wait (buffer : CArray UInt8 256) (hb : s.bonding = false)
      (hs : s.centralState = .deviceEstablishLinkRsp)
      (hn : ¬ IsEvent buffer vsGapLinkEstablished) (ht : ¬ TakenForLink buffer noReturn) :
      Moves noReturn s { s with buffer } [.receive .deviceEstablishLinkRsp buffer]
  | established (buffer : CArray UInt8 256) (connHandle : UInt16) (hb : s.bonding = false)
      (hs : s.centralState = .deviceEstablishLinkRsp)
      (he : IsEvent buffer vsGapLinkEstablished) :
      Moves noReturn s { s with
        buffer, connHandle, scannedMacBuff := copyMac buffer 12 s.scannedMacBuff, bonding := true }
        [.receive .deviceEstablishLinkRsp buffer, .bond]
  | strayLink (buffer : CArray UInt8 256) (hb : s.bonding = false)
      (hs : s.centralState = .deviceEstablishLinkRsp)
      (hn : ¬ IsEvent buffer vsGapLinkEstablished) (ht : TakenForLink buffer noReturn) :
      Moves noReturn s { s with buffer, bonding := true }
        [.receive .deviceEstablishLinkRsp buffer, .bond]
  | notify (pac : Fill UInt8) (ok : Bool) (hb : s.bonding = false)
      (hs : s.centralState = .enableNotification) (hp : ¬ IsLinkRequest pac) :
      Moves noReturn s s [.write pac ok]

/-! ## Every iteration is a move -/

theorem plain_receive {handler : Handler} {buffer : CArray UInt8 256}
    (h : handler = .deviceScanData → ¬ Found buffer) : Plain (.receive handler buffer) where
  not_request := fun _ _ he => by cases he
  not_found := fun b he => by
    cases he
    exact h rfl
  not_bond := fun he => by cases he

theorem plain_write {pac : Fill UInt8} (h : ¬ IsLinkRequest pac) (complete : Bool) :
    Plain (.write pac complete) where
  not_request := fun _ _ he => by
    cases he
    exact h
  not_found := fun _ he => by cases he
  not_bond := fun he => by cases he

theorem deviceScanReq_spec (s : CentralMode) (i : CentralInput) :
    Same s (deviceScanReq s i).2.1 ∧ ∀ e ∈ (deviceScanReq s i).2.2, Plain e := by
  have hw : ∀ ok, Plain (.write deviceScanReqPac ok) := plain_write (by decide)
  have hr : ∀ b, Plain (.receive .deviceScanRsp b) := fun b => plain_receive (by simp)
  unfold deviceScanReq
  split
  · split
    · exact ⟨⟨rfl, rfl⟩, by simp [hw, hr]⟩
    · exact ⟨⟨rfl, rfl⟩, by simp [hw]⟩
  · exact ⟨⟨rfl, rfl⟩, by simp⟩

/-- No path of `Device_Scan_Rsp` has a `return`. -/
theorem not_definite_deviceScanRsp (buffer : CArray UInt8 256) :
    ¬ (deviceScanRsp buffer).Definite := by
  unfold deviceScanRsp
  repeat' split
  all_goals exact Exit.not_definite_noValue _

theorem deviceScanData_found {buffer : CArray UInt8 256} (h : Found buffer)
    (mac : CArray UInt8 7) : deviceScanData buffer mac = (.returned 2, copyMac buffer 13 mac) := by
  simp only [deviceScanData, h.1, h.2, if_true]

theorem deviceScanData_not_found {buffer : CArray UInt8 256} (h : ¬ Found buffer)
    (mac : CArray UInt8 7) : deviceScanData buffer mac =
      (.noValue (if IsEvent buffer vsGapDeviceDiscovery then 1 else -1), mac) := by
  unfold deviceScanData
  split
  · next he =>
    rw [if_neg fun hm => h ⟨he, hm⟩, if_neg fun hd => absurd (he.2.symm.trans hd.2) (by decide)]
  · split
    · rfl
    · rfl

/-- `Device_Scan_Data` returns something for the matching advertisement only. -/
theorem definite_deviceScanData_iff (buffer : CArray UInt8 256) (mac : CArray UInt8 7) :
    (deviceScanData buffer mac).1.Definite ↔ Found buffer := by
  by_cases h : Found buffer
  · rw [deviceScanData_found h]
    exact iff_of_true (Exit.definite_returned 2) h
  · rw [deviceScanData_not_found h]
    exact iff_of_false (Exit.not_definite_noValue _) h

theorem afterScanData_cases (bleStatus : UInt8) :
    Scanning (afterScanData bleStatus) ∨ afterScanData bleStatus = .deviceScanCancel := by
  unfold afterScanData
  split
  · exact .inl (.inr (.inr rfl))
  split
  · exact .inl (.inr (.inl rfl))
  split
  · exact .inr rfl
  split
  · exact .inl (.inr (.inl rfl))
  · exact .inl (.inr (.inr rfl))

theorem deviceScanCancelRsp_eq_zero_iff (buffer : CArray UInt8 256) :
    UInt8.ofInt (deviceScanCancelRsp buffer) = 0 ↔ Cancelled buffer := by
  unfold deviceScanCancelRsp Cancelled
  split
  · next he =>
    split
    · next h5 => exact iff_of_true rfl ⟨he, h5⟩
    · next h5 => exact iff_of_false (by decide) fun h => h5 h.2
  · next he => exact iff_of_false (by decide) fun h => he h.1

theorem deviceEstablishLinkRsp_established {buffer : CArray UInt8 256}
    (h : IsEvent buffer vsGapLinkEstablished) (mac : CArray UInt8 7) (connHandle : UInt16) :
    deviceEstablishLinkRsp buffer mac connHandle =
      (.returned 0, copyMac buffer 12 mac,
        UInt16.ofNat (make16OfXY (buffer.byte 14) (buffer.byte 13))) := by
  simp only [deviceEstablishLinkRsp, h.1, h.2, and_self, if_true]

theorem definite_deviceEstablishLinkRsp_iff (buffer : CArray UInt8 256) (mac : CArray UInt8 7)
    (connHandle : UInt16) :
    (deviceEstablishLinkRsp buffer mac connHandle).1.Definite ↔ LinkRspDefinite buffer := by
  unfold deviceEstablishLinkRsp LinkRspDefinite VendorBuffer bufferEvent bufferOpcode
    vsGapLinkTerminated
  grind [Exit.definite_returned, Exit.not_definite_noValue]

/-- Without a link nothing is stored, and no definite verdict is success. -/
theorem deviceEstablishLinkRsp_wait {buffer : CArray UInt8 256}
    (h : ¬ IsEvent buffer vsGapLinkEstablished) (mac : CArray UInt8 7) (connHandle : UInt16) :
    ∃ exit, deviceEstablishLinkRsp buffer mac connHandle = (exit, mac, connHandle) ∧
      (exit = .noValue (-1) ∨ ∃ v, exit = .returned v ∧ UInt8.ofInt v ≠ 0) := by
  unfold deviceEstablishLinkRsp
  split
  · next hv =>
    rw [if_neg fun he => h ⟨hv, he⟩]
    split
    · split
      · exact ⟨_, rfl, .inr ⟨2, rfl, by decide⟩⟩
      · exact ⟨_, rfl, .inl rfl⟩
    · split
      · exact ⟨_, rfl, .inr ⟨3, rfl, by decide⟩⟩
      · exact ⟨_, rfl, .inl rfl⟩
  · exact ⟨_, rfl, .inr ⟨5, rfl, by decide⟩⟩

/-- Success is read exactly where the handler has no value and 0 stands there instead. -/
theorem read_deviceEstablishLinkRsp {buffer : CArray UInt8 256}
    (h : ¬ IsEvent buffer vsGapLinkEstablished) (mac : CArray UInt8 7) (connHandle : UInt16)
    (noReturn : Option Int) :
    ∃ exit, deviceEstablishLinkRsp buffer mac connHandle = (exit, mac, connHandle) ∧
      (UInt8.ofInt (exit.read noReturn) = 0 ↔ TakenForLink buffer noReturn) := by
  have hdefinite := definite_deviceEstablishLinkRsp_iff buffer mac connHandle
  obtain ⟨exit, hrsp, hexit⟩ := deviceEstablishLinkRsp_wait h mac connHandle
  rw [hrsp] at hdefinite
  refine ⟨exit, hrsp, ?_⟩
  obtain rfl | ⟨v, rfl, hv⟩ := hexit
  · rw [TakenForLink, ← hdefinite, and_iff_right (Exit.not_definite_noValue (-1))]
    cases noReturn with
    | none => exact iff_of_false (by decide) nofun
    | some v => simp [Exit.read]
  · exact iff_of_false hv fun ht => ht.1 (hdefinite.mp (Exit.definite_returned v))

theorem writeStatus_eq_zero_iff (pac : Fill UInt8) (i : CentralInput) :
    UInt8.ofInt (writeStatus pac i) = 0 ↔ complete pac i = true := by
  unfold writeStatus
  cases complete pac i <;> decide

/-- Every iteration of the loop is one of the moves. -/
theorem step_moves (s : CentralMode) (i : CentralInput) :
    Moves i.noReturn s (step s i).1 (step s i).2 := by
  unfold step
  split
  · next hb => exact .halted hb
  next hb =>
  have hb : s.bonding = false := by simpa using hb
  cases hs : s.centralState with
  | init => exact .scan hb (.inl hs) (.inr (.inl rfl)) ⟨rfl, rfl⟩ (by simp)
  | deviceScanReq =>
    obtain ⟨hsame, hplain⟩ := deviceScanReq_spec s i
    refine .scan hb (.inr (.inl hs)) ?_ ⟨hsame.1, hsame.2⟩ hplain
    dsimp only
    split
    · exact .inr (.inr rfl)
    · exact .inl rfl
  | deviceScanData =>
    dsimp only
    generalize sysMqRecvBuffer s.buffer i.received = buffer
    by_cases hf : Found buffer
    · rw [deviceScanData_found hf]
      exact .found buffer hb (.inr (.inr hs)) hf
    · have hplain : ∀ e ∈ [CentralEvent.receive .deviceScanData buffer], Plain e := by
        simpa using plain_receive fun _ => hf
      rw [deviceScanData_not_found hf]
      dsimp only
      cases hv : i.noReturn with
      | none =>
        -- The local `status` is 1 or -1.
        refine .scan hb (.inr (.inr hs)) ?_ ⟨rfl, rfl⟩ hplain
        dsimp only [Exit.read, Option.getD_none]
        split
        · exact .inr (.inl rfl)
        · exact .inr (.inr rfl)
      | some v =>
        dsimp only [Exit.read, Option.getD_some]
        obtain hscan | hcancel := afterScanData_cases (UInt8.ofInt v)
        · exact .scan hb (.inr (.inr hs)) hscan ⟨rfl, rfl⟩ hplain
        · rw [hcancel]
          exact .stray buffer hb (.inr (.inr hs)) hf (Option.some_ne_none v)
  | deviceScanCancel =>
    refine .cancel hb (.inl hs) ?_ ⟨rfl, rfl⟩ ?_
    · dsimp only
      split
      · exact .inr rfl
      · exact .inl rfl
    · simpa using plain_write (by decide) _
  | deviceScanCancelRsp =>
    dsimp only
    generalize sysMqRecvBuffer s.buffer i.received = buffer
    by_cases hc : Cancelled buffer
    · rw [if_pos ((deviceScanCancelRsp_eq_zero_iff buffer).mpr hc)]
      exact .cancelled buffer hb (.inr hs) hc
    · rw [if_neg (mt (deviceScanCancelRsp_eq_zero_iff buffer).mp hc)]
      refine .cancel hb (.inr hs) (.inr rfl) ⟨rfl, rfl⟩ ?_
      simpa using plain_receive (by simp)
  | deviceEstablishLinkReq =>
    dsimp only
    simp only [writeStatus_eq_zero_iff]
    exact .request _ hb hs
  | deviceEstablishLinkRsp =>
    dsimp only
    generalize sysMqRecvBuffer s.buffer i.received = buffer
    by_cases he : IsEvent buffer vsGapLinkEstablished
    · rw [deviceEstablishLinkRsp_established he]
      simpa only [hs, Exit.read_returned, show UInt8.ofInt 0 = 0 from rfl, if_true] using
        Moves.established buffer _ hb hs he
    · obtain ⟨exit, hrsp, hread⟩ :=
        read_deviceEstablishLinkRsp he s.scannedMacBuff s.connHandle i.noReturn
      rw [hrsp]
      dsimp only
      by_cases ht : TakenForLink buffer i.noReturn
      · rw [if_pos (hread.mpr ht)]
        simpa only [hs] using Moves.strayLink buffer hb hs he ht
      · rw [if_neg (mt hread.mp ht)]
        simpa only [hs] using Moves.wait buffer hb hs he ht
  | enableNotification =>
    exact .notify _ _ hb hs (not_isLinkRequest_enableNotificationPac s.connHandle)

/-! ## Traces that grow -/

theorem requests_append (tr es : List CentralEvent) :
    requests (tr ++ es) = requests tr ++ requests es := List.filterMap_append

theorem requests_plain {es : List CentralEvent} (h : ∀ e ∈ es, Plain e) : requests es = [] := by
  unfold requests
  rw [List.filterMap_eq_nil_iff]
  intro e he
  cases e with
  | write pac complete => exact if_neg ((h _ he).not_request pac complete rfl)
  | receive handler buffer => rfl
  | bond => rfl

theorem requests_request {pac : Fill UInt8} (h : IsLinkRequest pac) (complete : Bool) :
    requests [.write pac complete] = [(pac, complete)] := by
  simp [requests, h]

theorem mem_requests {tr : List CentralEvent} {r : Fill UInt8 × Bool} :
    r ∈ requests tr ↔ .write r.1 r.2 ∈ tr ∧ IsLinkRequest r.1 := by
  unfold requests
  rw [List.mem_filterMap]
  constructor
  · rintro ⟨e, he, hr⟩
    cases e with
    | write pac complete =>
      by_cases hl : IsLinkRequest pac
      · simp only [hl, if_true, Option.some.injEq] at hr
        subst hr
        exact ⟨he, hl⟩
      · simp [hl] at hr
    | receive handler buffer => cases hr
    | bond => cases hr
  · rintro ⟨he, hl⟩
    exact ⟨_, he, if_pos hl⟩

/-- A split of a trace that has grown: in the old part or in the new one. -/
theorem split_append {tr es pre post : List CentralEvent} {e : CentralEvent}
    (h : tr ++ es = pre ++ e :: post) :
    (∃ post', tr = pre ++ e :: post') ∨ ∃ pre', pre = tr ++ pre' ∧ es = pre' ++ e :: post := by
  obtain ⟨pre', rfl, hes⟩ | ⟨mid, rfl, hmid⟩ := List.append_eq_append_iff.mp h
  · exact .inr ⟨pre', rfl, hes⟩
  · cases mid with
    | nil => exact .inr ⟨[], by simp, by simpa using hmid.symm⟩
    | cons e' mid =>
      cases hmid
      exact .inl ⟨mid, rfl⟩

theorem RequestsGrounded.append {tr es : List CentralEvent} (h : RequestsGrounded tr)
    (hr : requests es = []) : RequestsGrounded (tr ++ es) := by
  intro pre pac complete post hsplit hl
  obtain ⟨post', rfl⟩ | ⟨pre', rfl, rfl⟩ := split_append hsplit
  · exact h pre pac complete post' rfl hl
  · have hmem : (pac, complete) ∈ requests (pre' ++ .write pac complete :: post) :=
      mem_requests.mpr ⟨by simp, hl⟩
    rw [hr] at hmem
    cases hmem

theorem RequestsGrounded.request {tr : List CentralEvent} (h : RequestsGrounded tr)
    {pac : Fill UInt8} {found : CArray UInt8 256} (hg : Grounded tr found)
    (ha : linkAddress pac = found.slice 8 6) (complete : Bool) :
    RequestsGrounded (tr ++ [.write pac complete]) := by
  intro pre pac' complete' post hsplit hl
  obtain ⟨post', rfl⟩ | ⟨pre', rfl, hes⟩ := split_append hsplit
  · exact h pre pac' complete' post' rfl hl
  · cases pre' with
    | nil =>
      cases hes
      exact ⟨found, by rwa [List.append_nil], ha⟩
    | cons e pre' => simp at hes

theorem Grounded.append {tr es : List CentralEvent} {found : CArray UInt8 256}
    (h : Grounded tr found) (hes : ∀ e ∈ es, NotFound e) : Grounded (tr ++ es) found := by
  obtain ⟨a, b, c, rsp, rfl, hf, hc, hn⟩ := h
  refine ⟨a, b, c ++ es, rsp, by simp, hf, hc, ?_⟩
  intro e he
  simp only [List.mem_append] at he hn
  grind

/-- The matching advertisement of a grounded trace is the only one. -/
theorem Grounded.unique {tr : List CentralEvent} {found buffer : CArray UInt8 256}
    (h : Grounded tr found) (hmem : .receive .deviceScanData buffer ∈ tr) (hf : Found buffer) :
    buffer = found := by
  obtain ⟨a, b, c, rsp, rfl, -, -, hn⟩ := h
  simp only [List.mem_append, List.mem_cons, CentralEvent.receive.injEq, reduceCtorEq,
    false_and, true_and, false_or] at hmem hn
  obtain hm | rfl | hm | hm := hmem
  · exact absurd hf (hn _ (.inl hm) _ rfl)
  · rfl
  · exact absurd hf (hn _ (.inr (.inl hm)) _ rfl)
  · exact absurd hf (hn _ (.inr (.inr hm)) _ rfl)

/-! ## What each stage has behind it -/

/-- A matching advertisement, the only one, and no answer to the cancel yet. -/
def Located (tr : List CentralEvent) (found : CArray UInt8 256) : Prop :=
  ∃ a b, tr = a ++ .receive .deviceScanData found :: b ∧ Found found ∧
    ∀ e ∈ a ++ b, NotFound e

/-- The state `s` and the trace `tr` that led to it. -/
inductive Stage (s : CentralMode) (tr : List CentralEvent) : Prop
  | scanning (hs : Scanning s.centralState) (hb : s.bonding = false) (hf : ∀ e ∈ tr, NotFound e)
  | found (buffer : CArray UInt8 256) (hs : Cancelling s.centralState) (hb : s.bonding = false)
      (hl : Located tr buffer) (hm : wireAddress s.scannedMacBuff = buffer.slice 8 6)
  | requesting (buffer : CArray UInt8 256) (hs : s.centralState = .deviceEstablishLinkReq)
      (hb : s.bonding = false) (hg : Grounded tr buffer)
      (hm : wireAddress s.scannedMacBuff = buffer.slice 8 6)
  | waiting (buffer : CArray UInt8 256) (hs : s.centralState = .deviceEstablishLinkRsp)
      (hg : Grounded tr buffer)
      (hm : s.bonding = false → wireAddress s.scannedMacBuff = buffer.slice 8 6)

namespace Stage

variable {s : CentralMode} {tr : List CentralEvent}

theorem of_scanning (h : Stage s tr) (hs : Scanning s.centralState) : ∀ e ∈ tr, NotFound e := by
  cases h with
  | scanning _ _ hf => exact hf
  | found _ hs' => rcases hs with h | h | h <;> rcases hs' with h' | h' <;> cases h.symm.trans h'
  | requesting _ hs' => rcases hs with h | h | h <;> cases h.symm.trans hs'
  | waiting _ hs' => rcases hs with h | h | h <;> cases h.symm.trans hs'

theorem of_cancelling (h : Stage s tr) (hs : Cancelling s.centralState) :
    ∃ buffer, Located tr buffer ∧ wireAddress s.scannedMacBuff = buffer.slice 8 6 := by
  cases h with
  | scanning hs' => rcases hs' with h | h | h <;> rcases hs with h' | h' <;> cases h.symm.trans h'
  | found buffer _ _ hl hm => exact ⟨buffer, hl, hm⟩
  | requesting _ hs' => rcases hs with h | h <;> cases h.symm.trans hs'
  | waiting _ hs' => rcases hs with h | h <;> cases h.symm.trans hs'

theorem of_requesting (h : Stage s tr) (hs : s.centralState = .deviceEstablishLinkReq) :
    ∃ buffer, Grounded tr buffer ∧ wireAddress s.scannedMacBuff = buffer.slice 8 6 := by
  cases h with
  | scanning hs' => rcases hs' with h | h | h <;> cases h.symm.trans hs
  | found _ hs' => rcases hs' with h | h <;> cases h.symm.trans hs
  | requesting buffer _ _ hg hm => exact ⟨buffer, hg, hm⟩
  | waiting _ hs' => cases hs.symm.trans hs'

theorem of_waiting (h : Stage s tr) (hs : s.centralState = .deviceEstablishLinkRsp) :
    ∃ buffer, Grounded tr buffer ∧
      (s.bonding = false → wireAddress s.scannedMacBuff = buffer.slice 8 6) := by
  cases h with
  | scanning hs' => rcases hs' with h | h | h <;> cases h.symm.trans hs
  | found _ hs' => rcases hs' with h | h <;> cases h.symm.trans hs
  | requesting _ hs' => cases hs.symm.trans hs'
  | waiting buffer _ hg hm => exact ⟨buffer, hg, hm⟩

theorem not_enableNotification (h : Stage s tr) : s.centralState ≠ .enableNotification := by
  intro hs
  cases h with
  | scanning hs' => rcases hs' with h | h | h <;> cases h.symm.trans hs
  | found _ hs' => rcases hs' with h | h <;> cases h.symm.trans hs
  | requesting _ hs' => cases hs.symm.trans hs'
  | waiting _ hs' => cases hs.symm.trans hs'

end Stage

/-- One move keeps the stages, and the link requests grounded, if the caller reads the local
`status` where nothing was returned. -/
theorem moves_stage {s s' : CentralMode} {tr es : List CentralEvent} (hm : Moves none s s' es)
    (h : Stage s tr) (hg : RequestsGrounded tr) :
    Stage s' (tr ++ es) ∧ RequestsGrounded (tr ++ es) := by
  cases hm with
  | halted hb => exact ⟨by rwa [List.append_nil], by rwa [List.append_nil]⟩
  | scan hb hs hs' hsame hp =>
    have hf := h.of_scanning hs
    refine ⟨.scanning hs' (hsame.bonding.trans hb) ?_, hg.append (requests_plain hp)⟩
    intro e he
    exact (List.mem_append.mp he).elim (hf e) fun he => (hp e he).not_found
  | found buffer hb hs hf =>
    have hnf := h.of_scanning hs
    exact ⟨.found buffer (.inl rfl) hb ⟨tr, [], rfl, hf, by simpa using hnf⟩
      (wireAddress_copyMac buffer _ (by decide)), hg.append rfl⟩
  | stray buffer hb hs hf hv => exact absurd rfl hv
  | cancel hb hs hs' hsame hp =>
    obtain ⟨buffer, ⟨a, b, rfl, hf, hn⟩, hm⟩ := h.of_cancelling hs
    refine ⟨.found buffer hs' (hsame.bonding.trans hb) ⟨a, b ++ es, by simp, hf, ?_⟩
      (by rw [hsame.scannedMacBuff, hm]), hg.append (requests_plain hp)⟩
    intro e he
    rw [← List.append_assoc] at he
    exact (List.mem_append.mp he).elim (hn e) fun he => (hp e he).not_found
  | cancelled rsp hb hs hc =>
    obtain ⟨buffer, ⟨a, b, rfl, hf, hn⟩, hm⟩ := h.of_cancelling hs
    exact ⟨.requesting buffer rfl hb ⟨a, b, [], rsp, by simp, hf, hc, by simpa using hn⟩ hm,
      hg.append rfl⟩
  | request ok hb hs =>
    obtain ⟨buffer, hgr, hm⟩ := h.of_requesting hs
    have ha := (linkAddress_deviceEstablishLinkReqPac s.scannedMacBuff).trans hm
    have hgr' : Grounded (tr ++ [.write (deviceEstablishLinkReqPac s.scannedMacBuff) ok]) buffer :=
      hgr.append fun e he _ heq => by
        cases List.mem_singleton.mp he
        cases heq
    refine ⟨?_, hg.request hgr ha ok⟩
    cases ok with
    | true => exact .waiting buffer rfl hgr' fun _ => hm
    | false => exact .requesting buffer rfl hb hgr' hm
  | wait buffer hb hs hn ht =>
    obtain ⟨found, hgr, hm⟩ := h.of_waiting hs
    refine ⟨.waiting found hs (hgr.append ?_) hm, hg.append rfl⟩
    intro e he _ heq
    cases List.mem_singleton.mp he
    cases heq
  | established buffer connHandle hb hs he =>
    obtain ⟨found, hgr, -⟩ := h.of_waiting hs
    refine ⟨.waiting found hs (hgr.append ?_) (fun hb => by cases hb), hg.append rfl⟩
    intro e he _ heq
    simp only [List.mem_cons, List.not_mem_nil, or_false] at he
    rcases he with rfl | rfl <;> cases heq
  | strayLink buffer hb hs hn ht =>
    obtain ⟨v, hv, -⟩ := ht.2
    cases hv
  | notify pac ok hb hs hp => exact absurd hs h.not_enableNotification

/-! ## The link requests behind a state -/

/-- None was written in full before the thread waits for its link, and one since then. -/
inductive Asked (s : CentralMode) (tr : List CentralEvent) : Prop
  | notYet (hs : s.centralState ≠ .deviceEstablishLinkRsp) (hb : s.bonding = false)
      (hr : ∀ r ∈ requests tr, r.2 = false)
  | once (pac : Fill UInt8) (failed : List (Fill UInt8 × Bool))
      (hs : s.centralState = .deviceEstablishLinkRsp) (hr : requests tr = failed ++ [(pac, true)])
      (hfail : ∀ r ∈ failed, r.2 = false)
      (ha : s.bonding = false → linkAddress pac = wireAddress s.scannedMacBuff)

namespace Asked

variable {s s' : CentralMode} {tr es : List CentralEvent}

theorem of_waiting (h : Asked s tr) (hs : s.centralState = .deviceEstablishLinkRsp) :
    ∃ pac failed, requests tr = failed ++ [(pac, true)] ∧ (∀ r ∈ failed, r.2 = false) ∧
      (s.bonding = false → linkAddress pac = wireAddress s.scannedMacBuff) := by
  cases h with
  | notYet hs' => exact absurd hs hs'
  | once pac failed _ hr hfail ha => exact ⟨pac, failed, hr, hfail, ha⟩

theorem of_not_waiting (h : Asked s tr) (hs : s.centralState ≠ .deviceEstablishLinkRsp) :
    ∀ r ∈ requests tr, r.2 = false := by
  cases h with
  | notYet _ _ hr => exact hr
  | once _ _ hs' => exact absurd hs' hs

/-- A move that writes no link request, before the thread waits for its link. -/
theorem quiet (h : Asked s tr) (hs : s.centralState ≠ .deviceEstablishLinkRsp)
    (hs' : s'.centralState ≠ .deviceEstablishLinkRsp) (hb : s'.bonding = false)
    (hes : requests es = []) : Asked s' (tr ++ es) := by
  refine .notYet hs' hb ?_
  rw [requests_append, hes, List.append_nil]
  exact h.of_not_waiting hs

/-- A move while it waits. -/
theorem wait (h : Asked s tr) (hs : s.centralState = .deviceEstablishLinkRsp)
    (hs' : s'.centralState = .deviceEstablishLinkRsp) (hes : requests es = [])
    (hm : s'.bonding = false → s.bonding = false ∧ s'.scannedMacBuff = s.scannedMacBuff) :
    Asked s' (tr ++ es) := by
  obtain ⟨pac, failed, hr, hfail, ha⟩ := h.of_waiting hs
  refine .once pac failed hs' ?_ hfail fun hb => ?_
  · rw [requests_append, hes, List.append_nil, hr]
  · rw [(hm hb).2]
    exact ha (hm hb).1

theorem countP_le (h : Asked s tr) : (requests tr).countP (·.2) ≤ 1 := by
  cases h with
  | notYet _ _ hr =>
    have : (requests tr).countP (·.2) = 0 := List.countP_eq_zero.mpr (by simpa using hr)
    omega
  | once _ failed _ hr hfail =>
    have : failed.countP (·.2) = 0 := List.countP_eq_zero.mpr (by simpa using hfail)
    simp [hr, this]

end Asked

theorem Scanning.ne_waiting {c : CentralState} (h : Scanning c) : c ≠ .deviceEstablishLinkRsp := by
  rintro rfl
  rcases h with h | h | h <;> cases h

theorem Cancelling.ne_waiting {c : CentralState} (h : Cancelling c) :
    c ≠ .deviceEstablishLinkRsp := by
  rintro rfl
  rcases h with h | h <;> cases h

/-- One move keeps them, whatever the caller reads. -/
theorem moves_asked {noReturn : Option Int} {s s' : CentralMode} {tr es : List CentralEvent}
    (hm : Moves noReturn s s' es) (h : Asked s tr) : Asked s' (tr ++ es) := by
  cases hm with
  | halted hb => rwa [List.append_nil]
  | scan hb hs hs' hsame hp =>
    exact h.quiet hs.ne_waiting hs'.ne_waiting (hsame.bonding.trans hb) (requests_plain hp)
  | found buffer hb hs hf => exact h.quiet hs.ne_waiting (fun hs' => by cases hs') hb rfl
  | stray buffer hb hs hf hv => exact h.quiet hs.ne_waiting (fun hs' => by cases hs') hb rfl
  | cancel hb hs hs' hsame hp =>
    exact h.quiet hs.ne_waiting hs'.ne_waiting (hsame.bonding.trans hb) (requests_plain hp)
  | cancelled buffer hb hs hc => exact h.quiet hs.ne_waiting (fun hs' => by cases hs') hb rfl
  | request ok hb hs =>
    have hr := h.of_not_waiting fun hs' => by cases hs.symm.trans hs'
    have hreq := requests_request (isLinkRequest_deviceEstablishLinkReqPac s.scannedMacBuff) ok
    cases ok with
    | true =>
      exact .once _ (requests tr) rfl (by rw [requests_append, hreq]) hr
        fun _ => linkAddress_deviceEstablishLinkReqPac s.scannedMacBuff
    | false =>
      refine .notYet (fun hs' => by cases hs') hb ?_
      rw [requests_append, hreq]
      intro r hmem
      obtain hmem | hmem := List.mem_append.mp hmem
      · exact hr r hmem
      · rw [List.mem_singleton.mp hmem]
  | wait buffer hb hs hn ht => exact h.wait hs hs rfl fun hb => ⟨hb, rfl⟩
  | established buffer connHandle hb hs he => exact h.wait hs hs rfl fun hb => by cases hb
  | strayLink buffer hb hs hn ht => exact h.wait hs hs rfl fun hb => by cases hb
  | notify pac ok hb hs hp =>
    have hne : s.centralState ≠ .deviceEstablishLinkRsp := fun hs' => by cases hs.symm.trans hs'
    exact h.quiet hne hne hb (by simp [requests, hp])

/-! ## Runs -/

theorem asked_start (buffer : CArray UInt8 256) (mac : CArray UInt8 7) (connHandle : UInt16) :
    Asked (start buffer mac connHandle) [] :=
  .notYet (fun hs => by cases hs) rfl (List.forall_mem_nil _)

theorem step_asked (s : CentralMode) (os : List (List CentralEvent)) (i : CentralInput)
    (h : Asked s os.flatten) :
    Asked (machine.step s i).1 (os ++ [(machine.step s i).2]).flatten := by
  rw [List.flatten_append, List.flatten_singleton]
  exact moves_asked (step_moves s i) h

/-- After every run. -/
theorem run_asked (buffer : CArray UInt8 256) (mac : CArray UInt8 7) (connHandle : UInt16)
    (is : List CentralInput) :
    Asked (machine.after (start buffer mac connHandle) is)
      (trace (start buffer mac connHandle) is) := by
  have hstart : Asked (start buffer mac connHandle) (List.flatten []) :=
    asked_start buffer mac connHandle
  have := Mealy.history (P := fun s os => Asked s os.flatten) step_asked hstart is
  rwa [List.nil_append] at this

/-- What holds of a state and of the outputs that led to it. -/
def Behind (s : CentralMode) (os : List (List CentralEvent)) : Prop :=
  Stage s os.flatten ∧ RequestsGrounded os.flatten

theorem behind_start (buffer : CArray UInt8 256) (mac : CArray UInt8 7) (connHandle : UInt16) :
    Behind (start buffer mac connHandle) [] :=
  ⟨.scanning (.inl rfl) rfl (by simp), fun _ _ _ _ h => by simp at h⟩

theorem step_behind (s : CentralMode) (os : List (List CentralEvent)) (i : CentralInput)
    (hi : i.noReturn = none) (h : Behind s os) :
    Behind (machine.step s i).1 (os ++ [(machine.step s i).2]) := by
  have hmoves := step_moves s i
  rw [hi] at hmoves
  have := moves_stage hmoves h.1 h.2
  simpa [Behind, machine] using this

/-- After every run in which the caller reads the local `status` where nothing was returned. -/
theorem run_stage (buffer : CArray UInt8 256) (mac : CArray UInt8 7) (connHandle : UInt16)
    {is : List CentralInput} (h : ∀ i ∈ is, i.noReturn = none) :
    Stage (machine.after (start buffer mac connHandle) is)
        (trace (start buffer mac connHandle) is) ∧
      RequestsGrounded (trace (start buffer mac connHandle) is) := by
  have := Mealy.history_of step_behind (behind_start buffer mac connHandle) h
  rwa [List.nil_append] at this

/-- A link event with the address of the matching advertisement does not change
`Scanned_MAC_Buff`. -/
theorem Stage.keeps_mac {s : CentralMode} {tr : List CentralEvent} (h : Stage s tr)
    (hb : s.bonding = false) (hs : s.centralState = .deviceEstablishLinkRsp)
    {found : CArray UInt8 256} (hmem : .receive .deviceScanData found ∈ tr) (hf : Found found)
    {buffer : CArray UInt8 256} (he : IsEvent buffer vsGapLinkEstablished)
    (ha : buffer.slice 7 6 = found.slice 8 6) :
    (deviceEstablishLinkRsp buffer s.scannedMacBuff s.connHandle).2.1 = s.scannedMacBuff := by
  obtain ⟨found', hg, hm⟩ := h.of_waiting hs
  cases hg.unique hmem hf
  rw [deviceEstablishLinkRsp_established he]
  exact copyMac_eq_self (by decide) ((hm hb).trans ha.symm)

/-- **Setting up a link.** Let the caller read the local `status` of a handler that ends without a
`return`. In every run every link request, written in full or not, comes after a matching
advertisement and a later answer to the cancel and has the six address bytes of that advertisement;
one request at most is written in full; and a link event with the same six bytes leaves
`Scanned_MAC_Buff` as it is. -/
theorem link_setup_safe (buffer : CArray UInt8 256) (mac : CArray UInt8 7) (connHandle : UInt16)
    (is : List CentralInput) (h : ∀ i ∈ is, i.noReturn = none) :
    let s := machine.after (start buffer mac connHandle) is
    let tr := trace (start buffer mac connHandle) is
    RequestsGrounded tr ∧ (requests tr).countP (·.2) ≤ 1 ∧
      (s.bonding = false → s.centralState = .deviceEstablishLinkRsp →
        ∀ found, .receive .deviceScanData found ∈ tr → Found found →
        ∀ frame, IsEvent frame vsGapLinkEstablished → frame.slice 7 6 = found.slice 8 6 →
          (deviceEstablishLinkRsp frame s.scannedMacBuff s.connHandle).2.1 = s.scannedMacBuff) := by
  obtain ⟨hstage, hg⟩ := run_stage buffer mac connHandle h
  exact ⟨hg, (run_asked buffer mac connHandle is).countP_le, fun hb hs found hmem hf frame he ha =>
    hstage.keeps_mac hb hs hmem hf he ha⟩

/-- An input of an iteration that writes in full or receives `bytes`. -/
def inputOf (written : Int) (bytes : List UInt8) : CentralInput where
  received := some ⟨bytes.take 256, by rw [List.length_take]; omega⟩
  written
  connDeviceList := Vector.replicate 6 .zero
  noReturn := none

/-- The scan finds a device, is cancelled, the link is requested, and the link event has the status
`01`. -/
def failedLink : List CentralInput :=
  [inputOf 0 [], inputOf 7 [0x04, 0xFF, 0x06, 0x7F, 0x06, 0x00, 0x04, 0xFE, 0x00],
    inputOf 0 [0x04, 0xFF, 0x16, 0x0D, 0x06, 0x00, 0x00, 0x00, 0xA1, 0xA2, 0xA3, 0xA4, 0xA5, 0xA6,
      0xC0, 0x0A, 0x02, 0x01, 0x06, 0x05, 0x02, 0x9E, 0xCA, 0xDC, 0x24],
    inputOf 4 [], inputOf 0 [0x04, 0xFF, 0x04, 0x01, 0x06, 0x30, 0x00], inputOf 13 [],
    inputOf 0 [0x04, 0xFF, 0x13, 0x05, 0x06, 0x01]]

/-- Up to the link request, and with it. -/
theorem link_setup_safe_requested :
    let s := machine.after (start (Vector.replicate 256 0) (Vector.replicate 7 0) 0)
      (failedLink.take 6)
    let tr := trace (start (Vector.replicate 256 0) (Vector.replicate 7 0) 0) (failedLink.take 6)
    RequestsGrounded tr ∧ (requests tr).countP (·.2) ≤ 1 ∧
      (s.bonding = false → s.centralState = .deviceEstablishLinkRsp →
        ∀ found, .receive .deviceScanData found ∈ tr → Found found →
        ∀ frame, IsEvent frame vsGapLinkEstablished → frame.slice 7 6 = found.slice 8 6 →
          (deviceEstablishLinkRsp frame s.scannedMacBuff s.connHandle).2.1 = s.scannedMacBuff) :=
  link_setup_safe _ _ _ (failedLink.take 6) (by decide)

end CentralMode

end Ble
