import BleGateway.Lib.CArray

/-!
# HCI constants and the connection table (`src/HCI_Commands.h`)

The opcodes and event codes that the modelled functions compare with, the byte macros, and the
globals `Conn_Device_List` and `BLE_Mode_Change`; the limits `MAX_NUM_PERIPHERALS` and `RETRY_COUNT`
are in `src/BLEParameters.h`. The macros compute in `int`; every value here is nonnegative, so it is
a `Nat`.
-/

namespace Ble

/-- `MAKE16OFXY(x, y)`: `x` is the high byte. -/
def make16OfXY (x y : UInt8) : Nat := (x.toNat <<< 8) ||| y.toNat

/-- `LSBYTEOF16BIT(x)`, stored into a `uint8_t`. -/
def lsbyteOf16Bit (x : Nat) : UInt8 := UInt8.ofNat (x &&& 0xFF)

/-- `MSBYTEOF16BIT(x)`, stored into a `uint8_t`. -/
def msbyteOf16Bit (x : Nat) : UInt8 := UInt8.ofNat ((x >>> 8) &&& 0xFF)

theorem make16OfXY_eq (x y : UInt8) : make16OfXY x y = 256 * x.toNat + y.toNat := by
  have hy : y.toNat < 2 ^ 8 := y.toNat_lt
  rw [make16OfXY, Nat.shiftLeft_eq, Nat.mul_comm, ← Nat.two_pow_add_eq_or_of_lt hy]

/-- A comparison with a 16-bit code is a comparison of both bytes. -/
theorem make16OfXY_eq_iff (x y : UInt8) (c : Nat) :
    make16OfXY x y = c ↔ x.toNat = c / 256 ∧ y.toNat = c % 256 := by
  have hy := y.toNat_lt
  rw [make16OfXY_eq]
  omega

theorem toNat_lsbyteOf16Bit (x : Nat) : (lsbyteOf16Bit x).toNat = x % 256 := by
  rw [lsbyteOf16Bit, UInt8.toNat_ofNat', Nat.and_two_pow_sub_one_eq_mod x 8]
  exact Nat.mod_mod x 256

theorem toNat_msbyteOf16Bit (x : Nat) : (msbyteOf16Bit x).toNat = x / 256 % 256 := by
  rw [msbyteOf16Bit, UInt8.toNat_ofNat', Nat.and_two_pow_sub_one_eq_mod _ 8,
    Nat.shiftRight_eq_div_pow]
  exact Nat.mod_mod _ 256

/-- The two bytes of a 16-bit code give it back. -/
theorem make16OfXY_bytes {x : Nat} (h : x < 65536) :
    make16OfXY (msbyteOf16Bit x) (lsbyteOf16Bit x) = x := by
  rw [make16OfXY_eq, toNat_lsbyteOf16Bit, toNat_msbyteOf16Bit]
  omega

theorem make16OfXY_inj {x y x' y' : UInt8} :
    make16OfXY x y = make16OfXY x' y' ↔ x = x' ∧ y = y' := by
  have hy := y'.toNat_lt
  rw [make16OfXY_eq_iff, make16OfXY_eq, ← UInt8.toNat_inj, ← UInt8.toNat_inj]
  omega

theorem make16OfXY_eq_iff_bytes {x y : UInt8} {c : Nat} (hc : c < 65536) :
    make16OfXY x y = c ↔ x = msbyteOf16Bit c ∧ y = lsbyteOf16Bit c := by
  rw [← make16OfXY_inj, make16OfXY_bytes hc]

/-- The macros give the bytes of a `uint16_t`. -/
theorem lsbyteOf16Bit_toNat (x : UInt16) : lsbyteOf16Bit x.toNat = x.toUInt8 := by
  apply UInt8.toNat.inj
  rw [toNat_lsbyteOf16Bit, UInt16.toNat_toUInt8]

theorem msbyteOf16Bit_toNat (x : UInt16) : msbyteOf16Bit x.toNat = (x >>> 8).toUInt8 := by
  apply UInt8.toNat.inj
  rw [toNat_msbyteOf16Bit, UInt16.toNat_toUInt8, UInt16.toNat_shiftRight,
    Nat.shiftRight_eq_div_pow]
  rfl

/-! ## Conversions of `int` -/

theorem uint8_ofInt_natCast (n : Nat) : UInt8.ofInt n = UInt8.ofNat n := by
  apply UInt8.toNat.inj
  simp only [UInt8.ofInt, UInt8.toNat_ofNat']
  omega

/-- An `int` stored into a `uint16_t` is taken modulo 65536. -/
theorem toNat_uint16_ofInt (x : Int) : ((UInt16.ofInt x).toNat : Int) = x % 65536 := by
  simp only [UInt16.ofInt, UInt16.toNat_ofNat']
  omega

/-! ## Packet types and opcodes -/

def pktCommand : UInt8 := 0x01

/-- `BLE_ASD_PKT`. -/
def bleAsdPkt : UInt8 := 0x02

/-- `BLE_EVT_PKT`. -/
def bleEvtPkt : UInt8 := 0x04

def vsAttWriteResponse : Nat := 0xFD13
def gattWritecharvalue : Nat := 0xFD92
def gattNotification : Nat := 0xFD9B
def gattDelservice : Nat := 0xFDFD
def vsGapDeviceDiscoveryRequest : Nat := 0xFE04
def vsGapDeviceDiscoveryCancel : Nat := 0xFE05
def vsGapEstablishLinkRequest : Nat := 0xFE09

/-! ## Event codes -/

def eventVsAttExchangeMtuRequest : Nat := 0x0502
def eventVsAttReadByTypeRequest : Nat := 0x0508
def vsTiAttReadByTypeResponse : Nat := 0x0509
def eventVsAttReadRequest : Nat := 0x050A
def eventVsAttReadByGroupTypeRequest : Nat := 0x0510
def eventVsAttWriteRequest : Nat := 0x0512
def vsAttWriteResponseEvent : Nat := 0x0513
def eventVsAttPrepareWriteRequest : Nat := 0x0516
def eventVsAttHandleValueNotification : Nat := 0x051B
def vsGapDeviceDiscovery : Nat := 0x0601
def vsGapAdvertDataUpdateDone : Nat := 0x0602
def vsGapMakeDiscoverableDone : Nat := 0x0603
def vsGapLinkEstablished : Nat := 0x0605
def vsGapLinkTerminated : Nat := 0x0606
def vsGapLinkParameterUpdate : Nat := 0x0607
def vsGapDeviceInformation : Nat := 0x060D
def vsCommandStatus : Nat := 0x067F

/-! ## The connection table -/

/-- `MAX_NUM_PERIPHERALS`, as the Makefile and `BLEParameters.h` set it. -/
def maxNumPeripherals : Nat := 5

/-- `RETRY_COUNT`. -/
def retryCount : UInt8 := 4

/-- `struct Connedted_Device`. -/
structure ConnedtedDevice where
  mac : CArray UInt8 7
  connHandle : UInt16
  handleId : UInt16
  status : UInt8
  centralId : CArray UInt8 4
  deviceState : String
  deriving DecidableEq, Repr

/-- `Conn_Device_List[6]`. -/
abbrev ConnDeviceList := CArray ConnedtedDevice 6

/-- The table and the counter that the threads share: `Conn_Device_List` and
`BLE_Mode_Change.Slave_Count`. -/
structure Connections where
  connDeviceList : ConnDeviceList
  slaveCount : UInt8
  deriving DecidableEq, Repr

/-- An entry of the zero-initialised table. -/
def ConnedtedDevice.zero : ConnedtedDevice where
  mac := Vector.replicate 7 0
  connHandle := 0
  handleId := 0
  status := 0
  centralId := Vector.replicate 4 0
  deviceState := ""

/-- The globals at program start. -/
def Connections.zero : Connections := ⟨Vector.replicate 6 .zero, 0⟩

/-- The entry of a connection with this handle. -/
def ConnedtedDevice.connected (connHandle : UInt16) : ConnedtedDevice :=
  { ConnedtedDevice.zero with connHandle, status := 1 }

/-- The table with the one connection `i`. -/
def Connections.single (i : Fin 5) : Connections where
  connDeviceList :=
    Vector.ofFn fun j : Fin 6 => if j.val = i.val then .connected (UInt16.ofNat i) else .zero
  slaveCount := 1

end Ble
