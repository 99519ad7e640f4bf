import BleGateway.HciCommands

/-!
# Command encoders (`src/UartCmdRxThread.c`, lines 575–674)

Each encoder fills a local array `pac` through `pac[idx++]` and writes its first `idx` bytes to the
UART. What it stored is a `Fill`.

* `notifyData` and `gattWriteValue` copy `buffer[3..size)` behind a header of 9 and of 8 bytes, so
  they stay inside `pac[100]` up to a size of 94 and of 95.
* `notifyData` takes the connection `idz` and does not use it: the handle bytes are constants.
-/

namespace Ble

/-- `data_ack(idz)`. -/
def dataAck (idz : Nat) : Fill UInt8 where
  cap := 10
  stored := [0x01, 0x13, 0xFD, 0x02, lsbyteOf16Bit idz, msbyteOf16Bit idz]

/-- `GATT_WRITE_VALUE(buffer, size, idz)`. -/
def gattWriteValue {n : Nat} (buffer : CArray UInt8 n) (size : Nat) (idz : Nat) : Fill UInt8 where
  cap := 100
  stored := [pktCommand, lsbyteOf16Bit gattWritecharvalue, msbyteOf16Bit gattWritecharvalue,
    UInt8.ofInt (((size : Int) - 3) + 4), UInt8.ofNat idz, 0x00, 0x03, 0x00] ++
      buffer.slice 3 (size - 3)

/-- `Notify_data(buffer, size, idz)`. The handle bytes from `Conn_Device_List[idz]` are commented
out in favour of `0x00`. -/
def notifyData {n : Nat} (buffer : CArray UInt8 n) (size : Nat) (_idz : Nat) : Fill UInt8 where
  cap := 100
  stored := [pktCommand, lsbyteOf16Bit gattNotification, msbyteOf16Bit gattNotification,
    UInt8.ofInt (((size : Int) - 3) + 5), 0x00, 0x00, 0x00, 0x07, 0x00] ++
      buffer.slice 3 (size - 3)

theorem dataAck_inBounds (idz : Nat) : (dataAck idz).InBounds := by
  simp [Fill.InBounds, dataAck]

theorem gattWriteValue_inBounds_iff {n : Nat} (buffer : CArray UInt8 n) {size : Nat} (idz : Nat)
    (h3 : 3 ≤ size) (hn : size ≤ n) : (gattWriteValue buffer size idz).InBounds ↔ size ≤ 95 := by
  have := CArray.length_slice buffer 3 (size - 3) (by omega)
  simp only [Fill.InBounds, gattWriteValue, List.length_append, List.length_cons, List.length_nil,
    this]
  omega

theorem notifyData_inBounds_iff {n : Nat} (buffer : CArray UInt8 n) {size : Nat} (idz : Nat)
    (h3 : 3 ≤ size) (hn : size ≤ n) : (notifyData buffer size idz).InBounds ↔ size ≤ 94 := by
  have := CArray.length_slice buffer 3 (size - 3) (by omega)
  simp only [Fill.InBounds, notifyData, List.length_append, List.length_cons, List.length_nil,
    this]
  omega

/-! ## Reading a command back -/

/-- The opcode of a command packet `01 lo hi …`. -/
def commandOpcode : List UInt8 → Option Nat
  | 0x01 :: lo :: hi :: _ => some (make16OfXY hi lo)
  | _ => none

/-- The connection handle of a GATT command `01 lo hi len handleLo handleHi …`. -/
def commandHandle : List UInt8 → Option Nat
  | 0x01 :: _ :: _ :: _ :: lo :: hi :: _ => some (make16OfXY hi lo)
  | _ => none

/-- The commands with the opcode `op` among those written. -/
def commandsOf (op : Nat) (output : List (Fill UInt8)) : List (List UInt8) :=
  (output.map (·.stored)).filter fun c => commandOpcode c = some op

theorem commandsOf_append_self {op : Nat} {pac : Fill UInt8}
    (h : commandOpcode pac.stored = some op) (output : List (Fill UInt8)) :
    commandsOf op (output ++ [pac]) = commandsOf op output ++ [pac.stored] := by
  simp [commandsOf, h]

theorem commandsOf_append_of_ne {op : Nat} {pac : Fill UInt8}
    (h : commandOpcode pac.stored ≠ some op) (output : List (Fill UInt8)) :
    commandsOf op (output ++ [pac]) = commandsOf op output := by
  simp [commandsOf, h]

@[simp] theorem commandOpcode_notifyData {n : Nat} (buffer : CArray UInt8 n) (size idz : Nat) :
    commandOpcode (notifyData buffer size idz).stored = some gattNotification := rfl

@[simp] theorem commandOpcode_gattWriteValue {n : Nat} (buffer : CArray UInt8 n)
    (size idz : Nat) : commandOpcode (gattWriteValue buffer size idz).stored =
      some gattWritecharvalue := rfl

@[simp] theorem commandOpcode_dataAck (idz : Nat) :
    commandOpcode (dataAck idz).stored = some vsAttWriteResponse := rfl

/-- Every notification is addressed to the connection 0. -/
@[simp] theorem commandHandle_notifyData {n : Nat} (buffer : CArray UInt8 n) (size idz : Nat) :
    commandHandle (notifyData buffer size idz).stored = some 0 := rfl

@[simp] theorem commandHandle_gattWriteValue {n : Nat} (buffer : CArray UInt8 n) (size : Nat)
    {idz : Nat} (h : idz < 256) :
    commandHandle (gattWriteValue buffer size idz).stored = some idz := by
  have hi : (UInt8.ofNat idz).toNat = idz := UInt8.toNat_ofNat_of_lt' h
  simp [gattWriteValue, commandHandle, pktCommand, make16OfXY_eq, hi]

end Ble
