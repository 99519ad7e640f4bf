import BleGateway.MsgDef

/-!
# The pipe thread (`src/UartCmdRxThread.c`, lines 300–343)

`pipe_0000_Thread` takes the frames of connection 0 from its queue and posts their payload, behind a
header of three bytes, to the forwarder. The payload length comes from the frame's own byte 8, not
from the size of the message.

* `forwardData`: what it stores in `forward_data_buff`. A payload that runs past `buff[100]` is read
  on from whatever lies behind it (`beyond`).
* `forwardData_writeRequest`: a write request of `n` value bytes is decoded to these bytes.
-/

namespace Ble

/-- The locals of `pipe_0000_Thread`. `dataLength` is set between the decoding of a message and its
posting. -/
structure Pipe where
  buff : CArray UInt8 100
  forwardDataBuff : CArray UInt8 100
  dataLength : Option Int
  deriving DecidableEq

namespace Pipe

/-- `MAKE16OFXY(buff[4], buff[3]) == EVENT_VS_ATT_WRITE_REQUEST`. -/
def IsWriteRequest (buff : CArray UInt8 100) : Prop :=
  make16OfXY (buff.byte 4) (buff.byte 3) = eventVsAttWriteRequest

instance (buff : CArray UInt8 100) : Decidable (IsWriteRequest buff) :=
  inferInstanceAs (Decidable (_ = _))

/-- `data_length` of the message in `buff`. -/
def payloadLength (buff : CArray UInt8 100) : Int :=
  if IsWriteRequest buff then ((buff.byte 8).toNat : Int) - 4 else ((buff.byte 8).toNat : Int) - 2

/-- The first index of the copying loop. -/
def payloadStart (buff : CArray UInt8 100) : Nat := if IsWriteRequest buff then 13 else 11

/-- The second byte of the header. -/
def direction (buff : CArray UInt8 100) : UInt8 := if IsWriteRequest buff then 0x01 else 0x00

/-- Lines 312–340: the stores `forward_data_buff[idx++] = …`. -/
def forwardData (buff : CArray UInt8 100) (beyond : Nat → UInt8) : List UInt8 :=
  [0x00, direction buff, UInt8.ofInt (payloadLength buff)] ++
    buff.read beyond (payloadStart buff) (payloadLength buff).toNat

/-- The copying loop reads past `buff[100]`. -/
def Strays (buff : CArray UInt8 100) : Prop :=
  100 < payloadStart buff + (payloadLength buff).toNat

instance (buff : CArray UInt8 100) : Decidable (Strays buff) :=
  inferInstanceAs (Decidable (_ < _))

/-- Lines 311–340 with a message in `buff`. `none` if a store leaves `forward_data_buff`. -/
def decode (p : Pipe) (buff : CArray UInt8 100) (beyond : Nat → UInt8) : Option Pipe :=
  if h : (forwardData buff beyond).length ≤ 100 then
    some { buff, forwardDataBuff := CArray.memcpy p.forwardDataBuff (forwardData buff beyond) h
           dataLength := some (payloadLength buff) }
  else none

/-- The size that `forward_data_buff` is posted with: `data_length + 3`, passed as a
`uint16_t`. -/
def postSize (dataLength : Int) : UInt16 := UInt16.ofInt (dataLength + 3)

theorem length_forwardData (buff : CArray UInt8 100) (beyond : Nat → UInt8) :
    (forwardData buff beyond).length = 3 + (payloadLength buff).toNat := by
  simp [forwardData]
  omega

theorem decode_isSome_iff (p : Pipe) (buff : CArray UInt8 100) (beyond : Nat → UInt8) :
    (p.decode buff beyond).isSome ↔ payloadLength buff ≤ 97 := by
  have hl := length_forwardData buff beyond
  unfold decode
  split <;> rename_i h <;> rw [hl] at h <;>
    simp only [Option.isSome_some, Option.isSome_none, true_iff, Bool.false_eq_true, false_iff]
  · omega
  · omega

theorem decode_eq {p p' : Pipe} {buff : CArray UInt8 100} {beyond : Nat → UInt8}
    (h : p.decode buff beyond = some p') :
    p'.dataLength = some (payloadLength buff) ∧ p'.buff = buff ∧
      CArray.Starts p'.forwardDataBuff (forwardData buff beyond) := by
  unfold decode at h
  split at h
  · rename_i hl
    cases h
    exact ⟨rfl, rfl, CArray.starts_memcpy _ _ hl⟩
  · cases h

/-- The size of a posted payload, if it is neither shorter than -3 nor longer than a `uint16_t`
can say. -/
theorem toNat_postSize {dataLength : Int} (h : -3 ≤ dataLength) (h' : dataLength < 65533) :
    ((postSize dataLength).toNat : Int) = dataLength + 3 := by
  rw [postSize, toNat_uint16_ofInt]
  omega

/-- The size of a post is at most 100, unless a write request announces no bytes. -/
theorem postSize_le_iff {buff : CArray UInt8 100} (h : payloadLength buff ≤ 97) :
    (postSize (payloadLength buff)).toNat ≤ mtextSize ↔
      ¬ (IsWriteRequest buff ∧ buff.byte 8 = 0) := by
  have hz : (buff.byte 8).toNat = 0 ↔ buff.byte 8 = 0 :=
    ⟨fun h => UInt8.toNat.inj h, fun h => by rw [h]; rfl⟩
  have hsize := toNat_uint16_ofInt (payloadLength buff + 3)
  rw [← hz, mtextSize, postSize]
  by_cases hw : IsWriteRequest buff
  · have hl : payloadLength buff = ((buff.byte 8).toNat : Int) - 4 := if_pos hw
    simp only [hw, true_and]
    omega
  · have hl : payloadLength buff = ((buff.byte 8).toNat : Int) - 2 := if_neg hw
    simp only [hw, false_and, not_false_iff, iff_true]
    omega

/-! ## Write requests -/

/-- The bytes of a write-request frame, up to its value. -/
def writeRequestHeader (len status pduLen sig cmd : UInt8) : List UInt8 :=
  [bleEvtPkt, 0xFF, len, 0x12, 0x05, status, 0x00, 0x00, pduLen, sig, cmd, 0x03, 0x00]

/-- **Decoding.** A write request with the value `v` and the length byte `|v| + 4` is decoded to `v`
behind `00 01 |v|`, and nothing past `buff` is read. -/
theorem forwardData_writeRequest {buff : CArray UInt8 100} {len status sig cmd : UInt8}
    {v : List UInt8} (hv : v.length ≤ 87)
    (h : CArray.Starts buff
      (writeRequestHeader len status (UInt8.ofNat (v.length + 4)) sig cmd ++ v)) :
    payloadLength buff = v.length ∧ ¬ Strays buff ∧
      ∀ beyond, forwardData buff beyond = [0x00, 0x01, UInt8.ofNat v.length] ++ v := by
  have hcell : ∀ i, i < 13 → buff.byte i =
      (writeRequestHeader len status (UInt8.ofNat (v.length + 4)) sig cmd ++ v).getD i 0 :=
    fun i hi => h.byte_eq (by simp [writeRequestHeader]; omega)
  have h3 : buff.byte 3 = 0x12 := hcell 3 (by omega)
  have h4 : buff.byte 4 = 0x05 := hcell 4 (by omega)
  have hw : IsWriteRequest buff := by rw [IsWriteRequest, h3, h4]; rfl
  have hp : payloadLength buff = v.length := by
    rw [payloadLength, if_pos hw, hcell 8 (by omega)]
    have h8 : (UInt8.ofNat (v.length + 4)).toNat = v.length + 4 :=
      UInt8.toNat_ofNat_of_lt' (by simp [UInt8.size]; omega)
    simp only [writeRequestHeader, List.cons_append, List.getD_cons_succ, List.getD_cons_zero, h8]
    omega
  have hs : payloadStart buff = 13 := if_pos hw
  refine ⟨hp, by rw [Strays, hp, hs]; omega, fun beyond => ?_⟩
  have hslice : buff.read beyond 13 v.length = v := by
    rw [CArray.read_eq_slice _ _ (by omega), h.slice_eq (by simp [writeRequestHeader]; omega)]
    simp [writeRequestHeader]
  rw [forwardData, hp, hs, direction, if_pos hw, Int.toNat_natCast, hslice,
    uint8_ofInt_natCast]

end Pipe

end Ble
