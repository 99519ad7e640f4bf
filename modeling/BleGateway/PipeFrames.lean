import BleGateway.Bounds
import BleGateway.FailedReceives

/-!
# The pipe thread's reading of a frame (`src/UartCmdRxThread.c`, lines 300–343)

`pipe_0000_Thread` derives the layout of a message from its event code and its length byte 8 and
looks neither at the size that it received nor at what `UartCmdRxThread` took the frame for.

* `handledSafely_iff`: the copying loop stays inside the message, and the posted size is right, if
  and only if the length byte is neither below the header nor beyond the message. For the rest the
  size of the message does not matter.
* `forwards_iff`: what is forwarded for a message whose length byte is consistent with its size.
* `layoutAgrees_iff`: so the two threads agree on write requests and notifications that hold their
  header, and never on a prepare-write request, which the pipe reads as a notification.
-/

namespace Ble

namespace Pipe

/-- The frame is a write request. -/
def IsWrite (frame : List UInt8) : Prop :=
  make16OfXY (frame.getD 4 0) (frame.getD 3 0) = eventVsAttWriteRequest

instance (frame : List UInt8) : Decidable (IsWrite frame) := inferInstanceAs (Decidable (_ = _))

/-- The bytes of a frame between its length byte and its payload: the connection handle, and in a
write request the attribute handle too. -/
def headerLength (frame : List UInt8) : Nat := if IsWrite frame then 4 else 2

theorem headerLength_cases (frame : List UInt8) :
    headerLength frame = 4 ∨ headerLength frame = 2 := by
  unfold headerLength
  split
  · exact .inl rfl
  · exact .inr rfl

theorem headerLength_buff (buff : CArray UInt8 100) :
    headerLength buff.toList = if IsWriteRequest buff then 4 else 2 := rfl

/-- `buff` holds a write request if the frame in it is one. -/
theorem isWriteRequest_iff {buff : CArray UInt8 100} {frame : List UInt8}
    (h : CArray.Starts buff frame) (h5 : 5 ≤ frame.length) :
    IsWriteRequest buff ↔ IsWrite frame := by
  have h3 : buff.byte 3 = frame.getD 3 0 := h.byte_eq (by omega)
  have h4 : buff.byte 4 = frame.getD 4 0 := h.byte_eq (by omega)
  rw [IsWriteRequest, h3, h4, IsWrite]

/-- The header of a frame in `buff` is that of the frame. -/
theorem headerLength_of_starts {buff : CArray UInt8 100} {frame : List UInt8}
    (h : CArray.Starts buff frame) (h5 : 5 ≤ frame.length) :
    headerLength buff.toList = headerLength frame := by
  rw [headerLength_buff, headerLength]
  simp only [isWriteRequest_iff h h5]

theorem payloadLength_eq (buff : CArray UInt8 100) :
    payloadLength buff = ((buff.byte 8).toNat : Int) - headerLength buff.toList := by
  rw [headerLength_buff, payloadLength]
  split <;> rfl

theorem payloadStart_eq (buff : CArray UInt8 100) :
    payloadStart buff = 9 + headerLength buff.toList := by
  rw [headerLength_buff, payloadStart]
  split <;> rfl

/-- The indices `i` of the copying loop, which reads `buff[i]`. -/
def copied (buff : CArray UInt8 100) : List Nat :=
  (List.range (payloadLength buff).toNat).map (payloadStart buff + ·)

/-- What the loop stores is what it finds there. -/
theorem forwardData_eq_copied (buff : CArray UInt8 100) (beyond : Nat → UInt8) :
    forwardData buff beyond =
      [0x00, direction buff, UInt8.ofInt (payloadLength buff)] ++
        (copied buff).map fun i => if h : i < 100 then buff[i] else beyond i := by
  rw [forwardData, CArray.read, copied, List.map_map]
  rfl

/-- A message of `size` bytes in `buff` is handled safely. -/
structure HandledSafely (buff : CArray UInt8 100) (size : Nat) : Prop where
  /-- The loop reads bytes of the message. -/
  reads : ∀ i ∈ copied buff, i < size
  /-- No store leaves `forward_data_buff`. -/
  stores : ∀ (p : Pipe) (beyond : Nat → UInt8), (p.decode buff beyond).isSome
  /-- The posted size counts the header and the copied bytes. -/
  posts : (postSize (payloadLength buff)).toNat = 3 + (copied buff).length
  /-- It is at most the size of `forward_data_buff`. -/
  le : (postSize (payloadLength buff)).toNat ≤ 100

theorem length_copied (buff : CArray UInt8 100) :
    (copied buff).length = (payloadLength buff).toNat := by
  simp only [copied, List.length_map, List.length_range]

/-- The loop stays below `size` if its last index does. -/
theorem copied_lt_iff (buff : CArray UInt8 100) {size : Nat} (h : payloadStart buff ≤ size) :
    (∀ i ∈ copied buff, i < size) ↔ payloadStart buff + (payloadLength buff).toNat ≤ size := by
  simp only [copied, List.forall_mem_map, List.mem_range]
  constructor
  · intro hlt
    by_cases h0 : (payloadLength buff).toNat = 0
    · omega
    · have := hlt ((payloadLength buff).toNat - 1) (by omega)
      omega
  · intro hle j hj
    omega

/-- The posted size is right exactly if the length byte covers the header. -/
theorem toNat_postSize_eq_iff (buff : CArray UInt8 100) :
    (postSize (payloadLength buff)).toNat = 3 + (payloadLength buff).toNat ↔
      headerLength buff.toList ≤ (buff.byte 8).toNat := by
  have hlt := (buff.byte 8).toNat_lt
  have hpost := toNat_uint16_ofInt (payloadLength buff + 3)
  have hheader := headerLength_cases buff.toList
  rw [← postSize] at hpost
  rw [payloadLength_eq] at hpost ⊢
  omega

/-- **Safety.** A message of 13 bytes or more is handled safely exactly if its length byte covers
the header and ends inside the message. -/
theorem handledSafely_iff (p : Pipe) (m : Message) (h13 : 13 ≤ m.bytes.length) :
    HandledSafely (recv100 p.buff (some m)) m.bytes.length ↔
      headerLength m.bytes ≤ (m.bytes.getD 8 0).toNat ∧
        9 + (m.bytes.getD 8 0).toNat ≤ m.bytes.length := by
  have hstarts : CArray.Starts (recv100 p.buff (some m)) m.bytes :=
    CArray.starts_memcpy p.buff m.bytes m.fits
  have h8 : (recv100 p.buff (some m)).byte 8 = m.bytes.getD 8 0 := hstarts.byte_eq (by omega)
  have h100 : m.bytes.length ≤ 100 := m.fits
  rw [← headerLength_of_starts hstarts (by omega)]
  generalize recv100 p.buff (some m) = buff at h8 ⊢
  have hheader := headerLength_cases buff.toList
  have hstart := payloadStart_eq buff
  have hlength := payloadLength_eq buff
  have hpost := toNat_postSize_eq_iff buff
  rw [h8] at hlength hpost
  constructor
  · rintro ⟨hreads, -, hposts, -⟩
    rw [length_copied, hpost] at hposts
    rw [copied_lt_iff buff (by omega)] at hreads
    omega
  · rintro ⟨hge, hle⟩
    have hsize := hpost.mpr hge
    refine ⟨?_, fun p beyond => (decode_isSome_iff p buff beyond).mpr (by omega), ?_, by omega⟩
    · rw [copied_lt_iff buff (by omega)]
      omega
    · rw [length_copied]
      exact hsize

/-- The pipe before its first message. -/
def zeroPipe : Pipe := ⟨Vector.replicate 100 0, Vector.replicate 100 0, none⟩

/-- A write request without a value. -/
def emptyWrite (pduLen : UInt8) : Message :=
  ⟨writeRequestHeader 0x0A 0x00 pduLen 0x00 0x00, (by decide : 13 ≤ mtextSize)⟩

theorem handledSafely_iff_emptyWrite :
    HandledSafely (recv100 zeroPipe.buff (some (emptyWrite 0x04))) 13 :=
  (handledSafely_iff zeroPipe (emptyWrite 0x04) (Nat.le_refl 13)).mpr (by decide)

/-- The length byte 0 makes the posted size 65535. -/
theorem not_handledSafely_zeroLength : ¬ ∀ (p : Pipe) (m : Message), 13 ≤ m.bytes.length →
    HandledSafely (recv100 p.buff (some m)) m.bytes.length := by
  intro h
  have hsafe := h zeroPipe (emptyWrite 0x00) (Nat.le_refl 13)
  exact absurd hsafe.le (by decide)

/-! ## What is forwarded -/

/-- The pipe, given the message `m`, posts the payload behind its three-byte header. -/
def Forwards (p : Pipe) (m : Message) (direction : UInt8) (payload : List UInt8) : Prop :=
  ∀ beyond, ∃ p' m', p.iterate ⟨some m, beyond⟩ = some (p', m') ∧
    m'.bytes = [0x00, direction, UInt8.ofNat payload.length] ++ payload

/-- The length byte of the message is consistent with its size. -/
def Consistent (m : Message) : Prop := 9 + (m.bytes.getD 8 0).toNat = m.bytes.length

/-- The payload of a consistent message is what follows the header, as far as the message goes. -/
theorem Consistent.payloadLength_eq {m : Message} (hm : Consistent m)
    {buff : CArray UInt8 100} (h : CArray.Starts buff m.bytes) :
    payloadLength buff = (m.bytes.length : Int) - (9 + headerLength m.bytes) := by
  unfold Consistent at hm
  have h8 : buff.byte 8 = m.bytes.getD 8 0 := h.byte_eq (by omega)
  rw [Pipe.payloadLength_eq, h8, headerLength_of_starts h (by omega)]
  omega

/-- An iteration with a consistent message decodes it and posts what it has decoded. -/
theorem iterate_consistent (p : Pipe) {m : Message} (hm : Consistent m) (beyond : Nat → UInt8) :
    ∃ (buff : CArray UInt8 100) (p' : Pipe), CArray.Starts buff m.bytes ∧
      CArray.Starts p'.forwardDataBuff (forwardData buff beyond) ∧
      p.iterate ⟨some m, beyond⟩ =
        (sysMqSend p'.forwardDataBuff (postSize (payloadLength buff))).map
          fun m' => ({ p' with dataLength := none }, m') := by
  have hstarts : CArray.Starts (recv100 p.buff (some m)) m.bytes :=
    CArray.starts_memcpy p.buff m.bytes m.fits
  have h100 : m.bytes.length ≤ 100 := m.fits
  have hlength := hm.payloadLength_eq hstarts
  obtain ⟨p', hp'⟩ := Option.isSome_iff_exists.mp
    ((decode_isSome_iff p (recv100 p.buff (some m)) beyond).mpr (by omega))
  obtain ⟨hdata, -, hfwd⟩ := decode_eq hp'
  refine ⟨_, p', hstarts, hfwd, ?_⟩
  simp only [iterate, hp', hdata, Option.bind_eq_bind, Option.bind_some]
  cases sysMqSend p'.forwardDataBuff (postSize (payloadLength (recv100 p.buff (some m)))) <;> rfl

/-- The direction byte that the pipe gives a frame. -/
def frameDirection (frame : List UInt8) : UInt8 := if IsWrite frame then 0x01 else 0x00

/-- What the pipe stores for a consistent message that holds its header. -/
theorem forwardData_consistent {m : Message} (hm : Consistent m)
    (hheader : 9 + headerLength m.bytes ≤ m.bytes.length) {buff : CArray UInt8 100}
    (h : CArray.Starts buff m.bytes) (beyond : Nat → UInt8) :
    forwardData buff beyond =
      [0x00, frameDirection m.bytes,
        UInt8.ofNat (m.bytes.drop (9 + headerLength m.bytes)).length] ++
        m.bytes.drop (9 + headerLength m.bytes) := by
  have h100 : m.bytes.length ≤ 100 := m.fits
  have hlength : payloadLength buff =
      ((m.bytes.length - (9 + headerLength m.bytes) : Nat) : Int) := by
    rw [hm.payloadLength_eq h]
    omega
  have hstart : payloadStart buff = 9 + headerLength m.bytes := by
    rw [payloadStart_eq, headerLength_of_starts h (by omega)]
  have hdirection : direction buff = frameDirection m.bytes := by
    rw [direction, frameDirection]
    simp only [isWriteRequest_iff h (by omega)]
  rw [forwardData, hdirection, hlength, hstart, uint8_ofInt_natCast, Int.toNat_natCast,
    CArray.read_eq_slice _ _ (by omega), h.slice_eq (by omega), List.length_drop,
    List.take_of_length_le (Nat.le_of_eq List.length_drop)]

/-- **Forwarding.** A message with a consistent length byte is forwarded if it holds its header,
with the payload and the direction of its event code, and nothing else is forwarded for it. -/
theorem forwards_iff (p : Pipe) {m : Message} (hm : Consistent m) (direction : UInt8)
    (payload : List UInt8) :
    Forwards p m direction payload ↔
      9 + headerLength m.bytes ≤ m.bytes.length ∧ direction = frameDirection m.bytes ∧
        payload = m.bytes.drop (9 + headerLength m.bytes) := by
  have h100 : m.bytes.length ≤ 100 := m.fits
  have hcases := headerLength_cases m.bytes
  constructor
  · intro h
    obtain ⟨p₁, m₁, hiter, hbytes⟩ := h fun _ => 0
    obtain ⟨buff, p', hstarts, hfwd, heq⟩ := iterate_consistent p hm fun _ => 0
    obtain ⟨m', hsend, hm'⟩ := Option.map_eq_some_iff.mp (heq.symm.trans hiter)
    cases hm'
    have hlength := hm.payloadLength_eq hstarts
    have hsome := (sysMqSend_isSome_iff p'.forwardDataBuff
      (postSize (payloadLength buff))).mp (by rw [hsend]; rfl)
    obtain ⟨htake, -⟩ := sysMqSend_bytes hsend
    -- A record of three bytes or more is posted only for a payload length of zero or more.
    have hlen := congrArg List.length (htake.symm.trans hbytes)
    have hpost := toNat_uint16_ofInt (payloadLength buff + 3)
    rw [← postSize] at hpost
    unfold Consistent at hm
    simp only [List.length_take, Vector.length_toList, List.length_append, List.length_cons,
      List.length_nil, Nat.min_eq_left hsome.2] at hlen
    have hheader : 9 + headerLength m.bytes ≤ m.bytes.length := by omega
    have hdata := forwardData_consistent hm hheader hstarts fun _ => 0
    have hsize : (postSize (payloadLength buff)).toNat =
        (forwardData buff fun _ => 0).length := by
      rw [length_forwardData]
      omega
    rw [hsize, hfwd.take_eq, hdata] at htake
    have hrecord := htake.symm.trans hbytes
    simp only [List.cons_append, List.nil_append, List.cons.injEq, true_and] at hrecord
    exact ⟨hheader, hrecord.1.symm, hrecord.2.2.symm⟩
  · rintro ⟨hheader, rfl, rfl⟩ beyond
    obtain ⟨buff, p', hstarts, hfwd, heq⟩ := iterate_consistent p hm beyond
    have hlength := hm.payloadLength_eq hstarts
    have hdata := forwardData_consistent hm hheader hstarts beyond
    have hlen := length_forwardData buff beyond
    have hpost : ((postSize (payloadLength buff)).toNat : Int) = payloadLength buff + 3 :=
      toNat_postSize (by omega) (by omega)
    have hsize : (postSize (payloadLength buff)).toNat = (forwardData buff beyond).length := by
      omega
    obtain ⟨m', hsend, hbytes⟩ := sysMqSend_starts hfwd hsize (by simp only [mtextSize]; omega)
    refine ⟨_, m', by rw [heq, hsend]; rfl, hbytes.trans hdata⟩

end Pipe

/-! ## The two threads -/

theorem queue_commandStatus {opcode : Nat} {q : QueueVar}
    (h : .sysMqSend q ∈ commandStatus opcode) : q = .writeRspId ∨ q = .commandRespQId := by
  have hpost := statusPost_commandStatus opcode
  generalize commandStatus opcode = as at h hpost
  cases hpost with
  | none => cases h
  | write => exact .inl (Action.sysMqSend.inj (List.mem_singleton.mp h))
  | command => exact .inr (Action.sysMqSend.inj (List.mem_singleton.mp h))

theorem queue_linkTerminated {connHandle : Nat} {b8 : UInt8} {q : QueueVar}
    (h : .sysMqSend q ∈ linkTerminated connHandle b8) : q = .commandRespQId := by
  unfold linkTerminated at h
  split at h <;> simp_all

/-- A packet that `UartCmdRxThread` posts to pipe 0, of at most 100 bytes and with a consistent
length byte. -/
structure PipeFrame where
  packet : Completed
  posts : .sysMqSend .pipe0Id ∈ dispatch packet.rxPacket
  fits : packet.index.toNat ≤ mtextSize
  consistent : 9 + (packet.rxPacket.byte 8).toNat = packet.index.toNat

namespace PipeFrame

/-- The record that it is posted as. -/
def message (f : PipeFrame) : Message where
  bytes := f.packet.rxPacket.toList.take f.packet.index.toNat
  fits := by
    have := f.fits
    simp only [List.length_take, Vector.length_toList]
    omega

theorem sysMqSend_eq (f : PipeFrame) :
    sysMqSend f.packet.rxPacket f.packet.index.toUInt16 = some f.message := by
  have hsize : f.packet.index.toUInt16.toNat = f.packet.index.toNat := by simp
  have hlt := f.packet.index.toNat_lt
  exact dif_pos ⟨by rw [hsize]; exact f.fits, by omega⟩

theorem length_message (f : PipeFrame) : f.message.bytes.length = f.packet.index.toNat := by
  have hlt := f.packet.index.toNat_lt
  simp only [message, List.length_take, Vector.length_toList]
  omega

/-- The record holds the bytes of the packet. -/
theorem getD_message (f : PipeFrame) {i : Nat} (hi : i < f.packet.index.toNat) :
    f.message.bytes.getD i 0 = f.packet.rxPacket.byte i := by
  simp only [message, CArray.byte, List.getD_eq_getElem?_getD, List.getElem?_take, hi, if_true]

theorem consistent_message (f : PipeFrame) : Pipe.Consistent f.message := by
  have hc := f.consistent
  rw [Pipe.Consistent, f.length_message, f.getD_message (by omega)]
  exact hc

theorem isWrite_message_iff (f : PipeFrame) :
    Pipe.IsWrite f.message.bytes ↔ eventCode f.packet.rxPacket = eventVsAttWriteRequest := by
  have hc := f.consistent
  rw [Pipe.IsWrite, f.getD_message (by omega), f.getD_message (by omega), eventCode]

/-- Only write requests and notifications are posted to pipe 0. -/
theorem event_cases (f : PipeFrame) :
    eventCode f.packet.rxPacket = eventVsAttWriteRequest ∨
      eventCode f.packet.rxPacket = eventVsAttPrepareWriteRequest ∨
      eventCode f.packet.rxPacket = eventVsAttHandleValueNotification := by
  have hposts := f.posts
  rw [dispatch_eq] at hposts
  split at hposts
  · split at hposts
    · cases hposts
    · unfold byEvent at hposts
      split at hposts
      · cases List.mem_singleton.mp hposts
      split at hposts
      · obtain h | h := queue_commandStatus hposts
        · cases h
        · cases h
      split at hposts
      · cases queue_linkTerminated hposts
      split at hposts
      · next h => exact .inr (.inr h)
      split at hposts
      · next h =>
        obtain h | h := List.mem_cons.mp h
        · exact .inl h
        · exact .inr (.inl (List.mem_singleton.mp h))
      · cases hposts
  · cases hposts

/-- The pipe reads the frame as the dispatcher does: an attribute handle and a value for the
write requests, a value for the notification. -/
def LayoutAgrees (f : PipeFrame) : Prop := ∀ p : Pipe,
  (eventCode f.packet.rxPacket ∈ writeRequestEvents →
    p.Forwards f.message 0x01 (f.message.bytes.drop 13)) ∧
  (eventCode f.packet.rxPacket = eventVsAttHandleValueNotification →
    p.Forwards f.message 0x00 (f.message.bytes.drop 11))

/-- **Layouts.** The pipe reads a frame as the dispatcher does exactly if it is a write request of
13 bytes or more or a notification of 11 bytes or more; a prepare-write request never. -/
theorem layoutAgrees_iff (f : PipeFrame) :
    f.LayoutAgrees ↔
      (eventCode f.packet.rxPacket = eventVsAttWriteRequest ∧ 13 ≤ f.packet.index.toNat) ∨
        (eventCode f.packet.rxPacket = eventVsAttHandleValueNotification ∧
          11 ≤ f.packet.index.toNat) := by
  have hforwards := fun p direction payload =>
    Pipe.forwards_iff p f.consistent_message direction payload
  simp only [LayoutAgrees, hforwards, f.length_message, Pipe.headerLength, Pipe.frameDirection,
    f.isWrite_message_iff]
  have hpipe : Nonempty Pipe := ⟨Pipe.zeroPipe⟩
  obtain hevent | hevent | hevent := f.event_cases
  · have hmem : eventVsAttWriteRequest ∈ writeRequestEvents := by decide
    have hne : eventVsAttWriteRequest ≠ eventVsAttHandleValueNotification := by decide
    simp [hevent, hmem, hne]
  · have hmem : eventVsAttPrepareWriteRequest ∈ writeRequestEvents := by decide
    have hne : eventVsAttPrepareWriteRequest ≠ eventVsAttWriteRequest := by decide
    have hne' : eventVsAttPrepareWriteRequest ≠ eventVsAttHandleValueNotification := by decide
    simp [hevent, hmem, hne, hne']
  · have hmem : eventVsAttHandleValueNotification ∉ writeRequestEvents := by decide
    have hne : eventVsAttHandleValueNotification ≠ eventVsAttWriteRequest := by decide
    simp [hevent, hmem, hne]

/-- A prepare-write request for connection 0 with the value `41`. -/
def prepareWriteBytes : List UInt8 :=
  [0x04, 0xFF, 0x0B, 0x16, 0x05, 0x00, 0x00, 0x00, 0x05, 0x00, 0x00, 0x03, 0x00, 0x41]

theorem byte_prepareWrite {i : Nat} (hi : i < 14) :
    (rxOf prepareWriteBytes).byte i = prepareWriteBytes.getD i 0 :=
  (starts_rxOf (by decide)).byte_eq hi

theorem eventCode_prepareWrite :
    eventCode (rxOf prepareWriteBytes) = eventVsAttPrepareWriteRequest := by
  rw [eventCode, byte_prepareWrite (by omega), byte_prepareWrite (by omega)]
  rfl

/-- The request as it is completed. -/
def prepareWritePacket : Completed := ⟨rxOf prepareWriteBytes, 14⟩

theorem posts_prepareWrite : .sysMqSend .pipe0Id ∈ dispatch prepareWritePacket.rxPacket := by
  have hv : VendorEvent (rxOf prepareWriteBytes) :=
    ⟨byte_prepareWrite (by omega), byte_prepareWrite (by omega)⟩
  have hm : opcode (rxOf prepareWriteBytes) ∉ maskedOpcodes := by
    rw [opcode, byte_prepareWrite (by omega), byte_prepareWrite (by omega)]
    decide
  have h6 : (rxOf prepareWriteBytes).byte 6 = 0x00 := byte_prepareWrite (by omega)
  have h11 : (rxOf prepareWriteBytes).byte 11 = 0x03 := byte_prepareWrite (by omega)
  have h12 : (rxOf prepareWriteBytes).byte 12 = 0x00 := byte_prepareWrite (by omega)
  have h13 : (rxOf prepareWriteBytes).byte 13 = 0x41 := byte_prepareWrite (by omega)
  rw [prepareWritePacket, dispatch_of_vendor hv hm, eventCode_prepareWrite,
    byEvent_writeRequest (by decide), writeRequestQueue]
  simp only [h6, h11, h12, h13]
  decide

theorem fits_prepareWrite : prepareWritePacket.index.toNat ≤ mtextSize := by decide

theorem consistent_prepareWrite :
    9 + (prepareWritePacket.rxPacket.byte 8).toNat = prepareWritePacket.index.toNat := by
  have h8 : (rxOf prepareWriteBytes).byte 8 = 0x05 := byte_prepareWrite (by omega)
  rw [prepareWritePacket, h8]
  rfl

/-- It is posted to pipe 0. -/
def prepareWrite : PipeFrame where
  packet := prepareWritePacket
  posts := posts_prepareWrite
  fits := fits_prepareWrite
  consistent := consistent_prepareWrite

/-- The pipe forwards it with the direction 0. -/
theorem not_layoutAgrees_prepareWrite : ¬ ∀ f : PipeFrame, f.LayoutAgrees := by
  intro h
  have hevent : eventCode prepareWrite.packet.rxPacket = eventVsAttPrepareWriteRequest :=
    eventCode_prepareWrite
  have hforwards := (h prepareWrite Pipe.zeroPipe).1 (by rw [hevent]; decide)
  obtain ⟨-, hdirection, -⟩ :=
    (Pipe.forwards_iff _ prepareWrite.consistent_message _ _).mp hforwards
  have hnot : ¬ Pipe.IsWrite prepareWrite.message.bytes := by
    rw [prepareWrite.isWrite_message_iff, hevent]
    decide
  rw [Pipe.frameDirection, if_neg hnot] at hdirection
  exact absurd hdirection (by decide)

end PipeFrame

end Ble
