import BleGateway.Lib.Stores
import BleGateway.Answers

/-!
# The two encoders of GAP_SetParam (`src/BLEParameters.c`, `src/CentralModeThread.c`)

`SET_PARAM` stores its command byte by byte (`setParamPac`). `SetParamValue` lays a packed struct
over a local array; a switch over `ParamId` stores the last two fields.

* `BleParameter`: `BLEParameters_t`. `HasCase`: the switch has a case for an id.
* `SetParamValue.sent`: what is written, with what the array held before.
* `SetParamValue.call`: all of it, with the receive of the answer and its check.
* `encoders_agree_iff`: the encoders agree exactly if there is a case, or the array already held the
  id and the value.
* `success_iff`, `call_eq_zero_iff`: which answers are taken for a success.
-/

namespace Ble

/-- `PKT_EVENT`. -/
def pktEvent : UInt8 := 0x04

/-! ## The ids -/

/-- `BLEParameters_t`. -/
inductive BleParameter where
  | tgapGenDiscAdvMin | tgapLimAdvTimeout | tgapGenDiscScan | tgapLimDiscScan
  | tgapConnEstAdvTimeout | tgapConnParamTimeout | tgapLimDiscAdvIntMin | tgapLimDiscAdvIntMax
  | tgapGenDiscAdvIntMin | tgapGenDiscAdvIntMax | tgapConnAdvIntMin | tgapConnAdvIntMax
  | tgapConnScanInt | tgapConnScanWind | tgapConnHighScanInt | tgapConnHighScanWind
  | tgapGenDiscScanInt | tgapGenDiscScanWind | tgapLimDiscScanInt | tgapLimDiscScanWind
  | tgapConnEstAdv | tgapConnEstIntMin | tgapConnEstIntMax | tgapConnEstScanInt
  | tgapConnEstScanWind | tgapConnEstSupervTimeout | tgapConnEstLatency | tgapConnEstMinCeLen
  | tgapConnEstMaxCeLen | tgapPrivateAddrInt | tgapSmTimeout | tgapSmMinKeyLen | tgapSmMaxKeyLen
  | tgapFilterAdvReports | tgapScanRspRssiMin | setRxDebug
  deriving DecidableEq, Repr

/-- The value of an enumerator: one more than that of the enumerator in front of it, up to
`SET_RX_DEBUG = 0xFE`. -/
def BleParameter.value : BleParameter → UInt8
  | setRxDebug => 0xFE
  | p => UInt8.ofNat p.ctorIdx

/-- The cases of the switch, in order. -/
def setParamValueCases : List BleParameter :=
  [.tgapGenDiscAdvMin, .tgapLimAdvTimeout, .tgapGenDiscScan, .tgapLimDiscScan,
    .tgapConnEstAdvTimeout, .tgapConnParamTimeout, .tgapLimDiscAdvIntMin, .tgapLimDiscAdvIntMax,
    .tgapGenDiscAdvIntMin, .tgapGenDiscAdvIntMax, .tgapConnAdvIntMin, .tgapConnAdvIntMax,
    .tgapConnScanInt, .tgapConnScanWind, .tgapConnHighScanInt, .tgapConnHighScanWind,
    .tgapGenDiscScanInt, .tgapGenDiscScanWind, .tgapLimDiscScanInt, .tgapLimDiscScanWind,
    .tgapConnEstAdv, .tgapConnEstIntMin, .tgapConnEstIntMax, .tgapConnEstScanInt,
    .tgapConnEstScanWind, .tgapConnEstMaxCeLen, .tgapPrivateAddrInt, .tgapSmTimeout,
    .tgapSmMinKeyLen, .tgapSmMaxKeyLen, .tgapFilterAdvReports, .tgapScanRspRssiMin, .setRxDebug,
    .tgapConnEstMinCeLen, .tgapConnEstLatency, .tgapConnEstSupervTimeout]

/-- The switch has a case for `paramId`. -/
def HasCase (paramId : UInt8) : Prop := ∃ p ∈ setParamValueCases, p.value = paramId

instance (paramId : UInt8) : Decidable (HasCase paramId) :=
  inferInstanceAs (Decidable (∃ p ∈ setParamValueCases, p.value = paramId))

/-- These are the ids up to 34 and 254. -/
theorem hasCase_iff (paramId : UInt8) :
    HasCase paramId ↔ paramId.toNat ≤ 34 ∨ paramId = 0xFE := by
  constructor
  · rintro ⟨p, hp, rfl⟩
    have hall : ∀ p ∈ setParamValueCases, p.value.toNat ≤ 34 ∨ p.value = 0xFE := by decide
    exact hall p hp
  · rintro (hle | rfl)
    · have hall : ∀ n < 35, HasCase (UInt8.ofNat n) := by decide +kernel
      have h := hall paramId.toNat (Nat.lt_succ_of_le hle)
      rwa [UInt8.ofNat_toNat] at h
    · exact ⟨.setRxDebug, by decide, rfl⟩

namespace SetParamValue

variable {paramId : UInt8} {paramValue : UInt16}

/-! ## The function -/

/-- The stores through `SetParamValue_t`: `type`, `opcode`, `DataLength`, and, if there is a case,
`ParamId` and `ParamValue`. -/
def stores (paramId : UInt8) (paramValue : UInt16) : List (Nat × UInt8) :=
  Stores.u8 0 pktCommand ++ Stores.u16 1 (UInt16.ofNat vsGapSetParameter) ++ Stores.u8 3 0x03 ++
    if HasCase paramId then Stores.u8 4 paramId ++ Stores.u16 5 paramValue else []

/-- `sizeof(SetParamValue_t)`. -/
def size : Nat := 7

/-- `buffer` at the call of `BLECOMWrite`. -/
def filled (buffer : CArray UInt8 10) (paramId : UInt8) (paramValue : UInt16) : CArray UInt8 10 :=
  Stores.apply (stores paramId paramValue) buffer

/-- The bytes that `BLECOMWrite` gets. -/
def sent (buffer : CArray UInt8 10) (paramId : UInt8) (paramValue : UInt16) : List UInt8 :=
  (filled buffer paramId paramValue).slice 0 size

/-- The check of the answer through `SetParamValueResp_t`: `Status`, `Event`, `opcode`, `EventCode`,
`type`. -/
def Success (buffer : CArray UInt8 10) : Prop :=
  buffer.byte 5 = 0x00 ∧ make16OfXY (buffer.byte 4) (buffer.byte 3) = vsCommandStatus ∧
    make16OfXY (buffer.byte 7) (buffer.byte 6) = vsGapSetParameter ∧ buffer.byte 1 = 0xFF ∧
    buffer.byte 0 = pktEvent

instance (buffer : CArray UInt8 10) : Decidable (Success buffer) :=
  inferInstanceAs (Decidable (_ ∧ _ ∧ _ ∧ _ ∧ _))

/-- `SetParamValue(ParamId, ParamValue, QueueId)`: the bytes written, and the value returned, unless
the answer overruns `buffer`. `record` is what `sys_mq_recv` finds; `none` if it fails. -/
def call (buffer : CArray UInt8 10) (paramId : UInt8) (paramValue : UInt16)
    (record : Option Message) : List UInt8 × Option Int :=
  (sent buffer paramId paramValue,
    match record with
    | none => some (-1)
    | some m => (sysMqRecv (filled buffer paramId paramValue) m).map fun r =>
      if Success r.1 then 0 else -1)

/-- The bytes stored to: the whole struct, or all of it but the last two fields. -/
theorem map_fst_stores : (stores paramId paramValue).map Prod.fst =
    List.range (if HasCase paramId then size else 4) := by
  unfold stores
  split <;> rfl

/-! ## What is sent -/

theorem sent_eq_map (buffer : CArray UInt8 10) (paramId : UInt8) (paramValue : UInt16) :
    sent buffer paramId paramValue = (List.range size).map fun i =>
      (Stores.last (stores paramId paramValue) i).getD (buffer.byte i) := by
  rw [sent, CArray.slice_eq_map_byte _ (by decide)]
  refine List.map_congr_left fun i hi => ?_
  have hlt := List.mem_range.mp hi
  rw [Nat.zero_add, filled, Stores.byte_apply _ _ (Nat.lt_trans hlt (by decide))]

/-- With a case every byte of the command is stored. -/
theorem sent_of_hasCase (h : HasCase paramId) (buffer : CArray UInt8 10) :
    sent buffer paramId paramValue = (setParamPac paramId paramValue).stored := by
  rw [sent_eq_map, stores, if_pos h, setParamPac, lsbyteOf16Bit_toNat, msbyteOf16Bit_toNat]
  rfl

/-- Without one the last three bytes are what the array held. -/
theorem sent_of_not_hasCase (h : ¬ HasCase paramId) (buffer : CArray UInt8 10) :
    sent buffer paramId paramValue = (setParamPac paramId paramValue).stored.take 4 ++
      [buffer.byte 4, buffer.byte 5, buffer.byte 6] := by
  rw [sent_eq_map, stores, if_neg h, setParamPac]
  rfl

/-- The array held the id and the value already, the low byte first. -/
def Holds (buffer : CArray UInt8 10) (paramId : UInt8) (paramValue : UInt16) : Prop :=
  buffer.byte 4 = paramId ∧ buffer.byte 5 = lsbyteOf16Bit paramValue.toNat ∧
    buffer.byte 6 = msbyteOf16Bit paramValue.toNat

theorem sent_eq_iff (buffer : CArray UInt8 10) (paramId : UInt8) (paramValue : UInt16) :
    sent buffer paramId paramValue = (setParamPac paramId paramValue).stored ↔
      HasCase paramId ∨ Holds buffer paramId paramValue := by
  by_cases h : HasCase paramId
  · exact iff_of_true (sent_of_hasCase h buffer) (.inl h)
  · rw [sent_of_not_hasCase h, or_iff_right h]
    simp [setParamPac, Holds]

/-- Some array does not hold the id. -/
theorem exists_not_holds (paramId : UInt8) (paramValue : UInt16) :
    ∃ buffer, ¬ Holds buffer paramId paramValue := by
  refine ⟨Vector.replicate 10 (paramId + 1), fun h => ?_⟩
  have h4 : paramId + 1 = paramId := h.1
  have hlt := paramId.toNat_lt
  have hnat := congrArg UInt8.toNat h4
  rw [UInt8.toNat_add] at hnat
  have h1 : (1 : UInt8).toNat = 1 := rfl
  omega

/-- **The two encoders.** `SetParamValue` writes the bytes of `SET_PARAM` exactly if its switch has
a case for the id or `buffer` held the id and the value already. So it writes them for every content
of `buffer` exactly if there is a case; and exactly then what it writes does not depend on it. -/
theorem encoders_agree_iff (paramId : UInt8) (paramValue : UInt16) :
    (∀ buffer, sent buffer paramId paramValue = (setParamPac paramId paramValue).stored ↔
      HasCase paramId ∨ Holds buffer paramId paramValue) ∧
    ((∀ buffer, sent buffer paramId paramValue = (setParamPac paramId paramValue).stored) ↔
      HasCase paramId) ∧
    ((∀ buffer buffer', sent buffer paramId paramValue = sent buffer' paramId paramValue) ↔
      HasCase paramId) := by
  refine ⟨fun buffer => sent_eq_iff buffer paramId paramValue, ?_, ?_⟩
  · constructor
    · intro h
      obtain ⟨buffer, hno⟩ := exists_not_holds paramId paramValue
      exact ((sent_eq_iff buffer paramId paramValue).mp (h buffer)).resolve_right hno
    · exact fun h buffer => sent_of_hasCase h buffer
  · have hne : (0x00 : UInt8) ≠ 0xFF := by decide
    refine (Stores.agree_iff hne (stores paramId paramValue) (by decide)).trans ?_
    rw [map_fst_stores]
    by_cases h : HasCase paramId
    · rw [if_pos h]
      exact iff_of_true (fun i hi => List.mem_range.mpr hi) h
    · rw [if_neg h]
      exact iff_of_false (fun hall => absurd (List.mem_range.mp (hall 4 (by decide))) (by decide)) h

/-- The id 0x23 has no case: a zeroed array sends the id 0. -/
theorem not_encoders_agree : ¬ ∀ (buffer : CArray UInt8 10) (paramId : UInt8) (paramValue : UInt16),
    sent buffer paramId paramValue = (setParamPac paramId paramValue).stored := by
  intro h
  exact absurd (h (Vector.replicate 10 0) 0x23 0) (by decide)

/-! ## The answer -/

/-- An answer of eight bytes or more is taken for a success exactly if it is the status event of
GAP_SetParam with the status 0. -/
theorem success_iff {f : EventFrame} (h5 : 5 ≤ f.params.length) {buffer : CArray UInt8 10}
    (hbuffer : CArray.Starts buffer f.bytes) :
    Success buffer ↔ f.IsCommandStatus vsGapSetParameter ∧ f.params.getD 2 0 = 0x00 := by
  obtain ⟨code, params, le⟩ := f
  obtain _ | ⟨p0, _ | ⟨p1, _ | ⟨p2, _ | ⟨p3, _ | ⟨p4, rest⟩⟩⟩⟩⟩ := params
  case cons.cons.cons.cons.cons =>
    have hcell (i : Nat) (hi : i < 8) : buffer.byte i =
        (pktEvent :: code :: UInt8.ofNat (rest.length + 5) :: p0 :: p1 :: p2 :: p3 :: p4 ::
          rest).getD i 0 := hbuffer.byte_eq (by simp [EventFrame.bytes]; omega)
    have h0 := hcell 0 (by decide)
    have h1 := hcell 1 (by decide)
    have h3 := hcell 3 (by decide)
    have h4 := hcell 4 (by decide)
    have h5 := hcell 5 (by decide)
    have h6 := hcell 6 (by decide)
    have h7 := hcell 7 (by decide)
    simp only [List.getD_cons_succ, List.getD_cons_zero] at h0 h1 h3 h4 h5 h6 h7
    rw [Success, h0, h1, h3, h4, h5, h6, h7, make16OfXY_eq_iff_bytes (by decide),
      make16OfXY_eq_iff_bytes (by decide)]
    constructor
    · rintro ⟨rfl, ⟨rfl, rfl⟩, ⟨rfl, rfl⟩, rfl, -⟩
      exact ⟨⟨rfl, 0x00, rest, rfl⟩, rfl⟩
    · rintro ⟨⟨rfl, status, rest', hparams⟩, rfl⟩
      cases hparams
      exact ⟨rfl, ⟨rfl, rfl⟩, ⟨rfl, rfl⟩, rfl, rfl⟩
  all_goals simp at h5

/-- What `SetParamValue` returns for such an answer, if `buffer` holds it. -/
theorem call_eq_zero_iff {f : EventFrame} (h5 : 5 ≤ f.params.length) {m : Message}
    (hm : m.bytes = f.bytes) (h10 : m.bytes.length ≤ 10) (buffer : CArray UInt8 10) :
    (call buffer paramId paramValue (some m)).2 = some 0 ↔
      f.IsCommandStatus vsGapSetParameter ∧ f.params.getD 2 0 = 0x00 := by
  have hrecv : sysMqRecv (filled buffer paramId paramValue) m =
      some (CArray.memcpy (filled buffer paramId paramValue) m.bytes h10, m.length) := dif_pos h10
  have hstarts := (sysMqRecv_starts hrecv).1
  generalize CArray.memcpy (filled buffer paramId paramValue) m.bytes h10 = received
    at hrecv hstarts
  rw [← success_iff h5 (hm ▸ hstarts), call, hrecv, Option.map_some]
  by_cases h : Success received
  · simp [h]
  · simp [h]

end SetParamValue

end Ble
