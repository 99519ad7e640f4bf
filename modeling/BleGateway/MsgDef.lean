import BleGateway.HciCommands

/-!
# Message queues (`Drivers/Msg_Def.c`)

A System V queue is named by its key: `sys_mq_init` gives every caller of one key the same queue.
Queues are first-in first-out and lossless, so a queue is a list of records.

`sysMqSend` and `sysMqRecv` copy with `memcpy` and check nothing. Their result is `none` when the
copy leaves an array: past `mtext[100]` or the sender's buffer in the first, past the receiver's
buffer in the second.
-/

namespace Ble

/-! ## Queue keys -/

def commandRespThreadQueueKey : Nat := 1995
def writeRspKey : Nat := 1998
def pingPktKey : Nat := 1999
def connPipe0Key : Nat := 2000
def messageSendToPeerDeviceKey : Nat := 2004

/-! ## Records -/

/-- The capacity of `message_buf_t.mtext`. -/
def mtextSize : Nat := 100

/-- `message_buf_t`: `length` and the `length` bytes of `mtext` that a receiver copies. What
`mtext` holds behind them is never read. -/
structure Message where
  bytes : List UInt8
  fits : bytes.length ≤ mtextSize
  deriving DecidableEq, Repr

/-- The record's field `length`. -/
def Message.length (m : Message) : UInt16 := UInt16.ofNat m.bytes.length

theorem Message.toNat_length (m : Message) : m.length.toNat = m.bytes.length := by
  have h := m.fits
  simp only [mtextSize] at h
  rw [Message.length, UInt16.toNat_ofNat_of_lt' (by simp [UInt16.size]; omega)]

/-- `sys_mq_send(q, buf, size)`: the record put into the queue. -/
def sysMqSend {n : Nat} (buf : CArray UInt8 n) (size : UInt16) : Option Message :=
  if h : size.toNat ≤ mtextSize ∧ size.toNat ≤ n then
    some ⟨buf.toList.take size.toNat, by simp; omega⟩
  else none

/-- `sys_mq_recv(q, buf, &size)` with the record `m` at the head of the queue: the buffer and the
size afterwards. -/
def sysMqRecv {n : Nat} (buf : CArray UInt8 n) (m : Message) : Option (CArray UInt8 n × UInt16) :=
  if h : m.bytes.length ≤ n then some (CArray.memcpy buf m.bytes h, m.length) else none

/-- The bytes and the size in a buffer and a size variable, as a sender passes them and a receiver
finds them. -/
abbrev Passed := List UInt8 × UInt16

/-- The first `size` bytes of `buf`. -/
def passed {n : Nat} (buf : CArray UInt8 n) (size : UInt16) : Passed :=
  (buf.toList.take size.toNat, size)

/-- What a record carries. -/
def Message.view (m : Message) : Passed := (m.bytes, m.length)

theorem sysMqSend_isSome_iff {n : Nat} (buf : CArray UInt8 n) (size : UInt16) :
    (sysMqSend buf size).isSome ↔ size.toNat ≤ mtextSize ∧ size.toNat ≤ n := by
  unfold sysMqSend
  split <;> simp_all

theorem sysMqSend_bytes {n : Nat} {buf : CArray UInt8 n} {size : UInt16} {m : Message}
    (h : sysMqSend buf size = some m) :
    m.bytes = buf.toList.take size.toNat ∧ m.length = size := by
  unfold sysMqSend at h
  split at h
  · rename_i hs
    cases h
    refine ⟨rfl, ?_⟩
    simp only [Message.length, List.length_take, Vector.length_toList, Nat.min_eq_left hs.2]
    exact UInt16.ofNat_toNat
  · cases h

/-- A record carries what its sender passed. -/
theorem passed_of_sysMqSend {n : Nat} {buf : CArray UInt8 n} {size : UInt16} {m : Message}
    (h : sysMqSend buf size = some m) : passed buf size = m.view := by
  obtain ⟨hb, hl⟩ := sysMqSend_bytes h
  rw [passed, Message.view, hb, hl]

/-- A record sent from an array that starts with `l`, with the length of `l` as its size. -/
theorem sysMqSend_starts {n : Nat} {buf : CArray UInt8 n} {l : List UInt8} {size : UInt16}
    (hb : CArray.Starts buf l) (hs : size.toNat = l.length) (hl : l.length ≤ mtextSize) :
    ∃ m, sysMqSend buf size = some m ∧ m.bytes = l := by
  have hn := hb.length_le
  obtain ⟨m, hm⟩ := Option.isSome_iff_exists.mp
    ((sysMqSend_isSome_iff buf size).mpr ⟨by omega, by omega⟩)
  exact ⟨m, hm, by rw [(sysMqSend_bytes hm).1, hs, hb.take_eq]⟩

/-- What a successful receive leaves: the record's bytes at the front of the buffer, and its
length. -/
theorem sysMqRecv_starts {n : Nat} {buf buf' : CArray UInt8 n} {m : Message} {size : UInt16}
    (h : sysMqRecv buf m = some (buf', size)) :
    CArray.Starts buf' m.bytes ∧ size.toNat = m.bytes.length := by
  unfold sysMqRecv at h
  split at h
  · cases h
    exact ⟨CArray.starts_memcpy _ _ _, m.toNat_length⟩
  · cases h

/-- A receiver finds what the record carries. -/
theorem passed_of_sysMqRecv {n : Nat} {buf buf' : CArray UInt8 n} {m : Message} {size : UInt16}
    (h : sysMqRecv buf m = some (buf', size)) : passed buf' size = m.view := by
  obtain ⟨hs, hl⟩ := sysMqRecv_starts h
  have hsize : size = m.length := UInt16.toNat_inj.mp (hl.trans m.toNat_length.symm)
  rw [passed, Message.view, hl, hs.take_eq, hsize]

/-- A receiver whose buffer holds a whole record (`mtext` and all) never overruns it. -/
theorem sysMqRecv_of_le {n : Nat} (buf : CArray UInt8 n) (m : Message) (hn : mtextSize ≤ n) :
    ∃ buf', sysMqRecv buf m = some (buf', m.length) ∧ CArray.Starts buf' m.bytes := by
  have h : m.bytes.length ≤ n := Nat.le_trans m.fits hn
  exact ⟨CArray.memcpy buf m.bytes h, by simp [sysMqRecv, h], CArray.starts_memcpy _ _ _⟩

end Ble
