import BleGateway.CentralMode

/-!
# The other commands of the central mode (`src/CentralModeThread.c`)

The commands that `CentralModeThread` writes before its loop and after the link is established, and
those that nothing calls. As in `Encoders.lean`, what a function stores in its `pac` is a `Fill`,
and it writes all of it.

* `hciExtSetlocalSupportedFeaturesPac` stores four bytes and writes twelve, the rest of them zeros.
* `dataLedPac`: `data_led` does not initialise its `idx`. Its thirteen bytes go to `pac[idx]` and
  on, and `idx + 13` bytes are written.
-/

namespace Ble

def btReset : Nat := 0x0C03
def vsHciExtensionSetTxPower : Nat := 0xFC01
def vsHciExtensionSetLocalSupportedFeatures : Nat := 0xFC06
def vsHciExtensionSetMaxDataLength : Nat := 0xFC21
def vsGapDeviceInitialization : Nat := 0xFE00
def vsGapSetParameter : Nat := 0xFE30

/-- `BT_READ_BD_ADDR`. -/
def btReadBdAddr : Nat := 0x1009

/-- `OPCODE_SETDATA_LENGTH`, a local of `Set_Data_Length`. -/
def opcodeSetdataLength : Nat := 0x2022

def appTxPduSize : Nat := 54
def appTxTime : Nat := 656
def appRxPduSize : Nat := 54
def appRxTime : Nat := 656

/-- `Notify_Ack`. -/
def notifyAckPac (connHandle : UInt16) : Fill UInt8 where
  cap := 10
  stored := [0x01, 0x13, 0xFD, 0x02, lsbyteOf16Bit connHandle.toNat,
    msbyteOf16Bit connHandle.toNat]

/-- `HCI_Reset`. -/
def hciResetPac : Fill UInt8 where
  cap := 10
  stored := [pktCommand, lsbyteOf16Bit btReset, msbyteOf16Bit btReset, 0x00]

/-- `HCI_Init`: behind two parameters the keys `IRK` and `CSRK` and the sign counter. -/
def hciInitPac : Fill UInt8 where
  cap := 50
  stored := [pktCommand, lsbyteOf16Bit vsGapDeviceInitialization,
    msbyteOf16Bit vsGapDeviceInitialization, 0x26, 0x08, 0x14] ++
      List.replicate 16 0x00 ++ List.replicate 16 0x00 ++ List.replicate 3 0x00 ++ [0x01]

/-- `SET_PARAM(PARAM_ID, INTERVALS)`. -/
def setParamPac (paramId : UInt8) (intervals : UInt16) : Fill UInt8 where
  cap := 10
  stored := [pktCommand, lsbyteOf16Bit vsGapSetParameter, msbyteOf16Bit vsGapSetParameter, 0x03,
    paramId, lsbyteOf16Bit intervals.toNat, msbyteOf16Bit intervals.toNat]

/-- `HCI_SetTxPower`. -/
def hciSetTxPowerPac : Fill UInt8 where
  cap := 10
  stored := [pktCommand, lsbyteOf16Bit vsHciExtensionSetTxPower,
    msbyteOf16Bit vsHciExtensionSetTxPower, 0x01, 0x0C]

/-- `GET_MAC`. -/
def getMacPac : Fill UInt8 where
  cap := 10
  stored := [pktCommand, lsbyteOf16Bit btReadBdAddr, msbyteOf16Bit btReadBdAddr, 0x00]

/-- `HCIExt_SetMaxDataLength`. -/
def hciExtSetMaxDataLengthPac : Fill UInt8 where
  cap := 16
  stored := [pktCommand, lsbyteOf16Bit vsHciExtensionSetMaxDataLength,
    msbyteOf16Bit vsHciExtensionSetMaxDataLength, 0x08,
    lsbyteOf16Bit appTxPduSize, msbyteOf16Bit appTxPduSize,
    lsbyteOf16Bit appTxTime, msbyteOf16Bit appTxTime,
    lsbyteOf16Bit appRxPduSize, msbyteOf16Bit appRxPduSize,
    lsbyteOf16Bit appRxTime, msbyteOf16Bit appRxTime]

/-- `HCIExt_SetlocalSupportedFeatures`. -/
def hciExtSetlocalSupportedFeaturesPac : Fill UInt8 where
  cap := 16
  stored := [pktCommand, lsbyteOf16Bit vsHciExtensionSetLocalSupportedFeatures,
    msbyteOf16Bit vsHciExtensionSetLocalSupportedFeatures, 0x08] ++ List.replicate 8 0x00

/-- `Set_Data_Length`, with the global `Handle_ID_Main`. -/
def setDataLengthPac (handleIdMain : UInt16) : Fill UInt8 where
  cap := 100
  stored := [pktCommand, lsbyteOf16Bit opcodeSetdataLength, msbyteOf16Bit opcodeSetdataLength,
    0x00 + 6, lsbyteOf16Bit (handleIdMain.toNat + 5), msbyteOf16Bit (handleIdMain.toNat + 5),
    0x36, 0x00, 0x48, 0x08]

/-- The first frame of `bond`. -/
def bondPac : Fill UInt8 where
  cap := 550
  stored := [0x01, 0x0B, 0xFE, 0xA0, 0x00, 0x00, 0x04] ++ List.replicate 52 0x00 ++
      [0xBD, 0x1A, 0x3C, 0xCD, 0xA6, 0xB8, 0x99, 0x58, 0x99, 0xB7, 0x40, 0xEB, 0x7B, 0x60, 0xFF,
      0x4A, 0x50, 0x3F, 0x10, 0xD2, 0xE3, 0xB3, 0xC9, 0x74, 0x38, 0x5F, 0xC5, 0xA3, 0xD4, 0xF6,
      0x49, 0x3F, 0xE6, 0x9D, 0x35, 0x0E, 0x48, 0x01, 0x03, 0xCC, 0xDB, 0xFD, 0xF4, 0xAC, 0x11,
      0x91, 0xF4, 0xEF, 0xB9, 0xA5, 0xF9, 0xE9, 0xA7, 0x83, 0x2C, 0x5E, 0x2C, 0xBE, 0x97, 0xF2,
      0xD2, 0x03, 0xB0, 0x20, 0x8B, 0xD2, 0x89, 0x15, 0xD0, 0x8E, 0x1C, 0x74, 0x24, 0x30, 0xED,
      0x8F, 0xC2, 0x45, 0x63, 0x76, 0x5C, 0x15, 0x52, 0x5A, 0xBF, 0x9A, 0x32, 0x63, 0x6D, 0xEB,
      0x2A, 0x65, 0x49, 0x9C, 0x80, 0xDC, 0x01, 0x10, 0x77, 0x00, 0x03, 0x00, 0x01, 0x10, 0x77]

/-- `notify`. -/
def notifyPac : Fill UInt8 where
  cap := 50
  stored := [0x01, 0x92, 0xFD, 0x06, 0x00, 0x00, 0x0C, 0x00, 0x01, 0x00]

/-- `passkey`. -/
def passkeyPac : Fill UInt8 where
  cap := 50
  stored := [0x01, 0x0C, 0xFE, 0x08, 0x00, 0x00, 0x36, 0x35, 0x34, 0x33, 0x32, 0x31]

/-- `data` of `data_led`. -/
def dataLedBytes : List UInt8 :=
  [0x01, 0x92, 0xFD, 0x09, 0x00, 0x00, 0x0E, 0x00, 0x3C, 0x30, 0x41, 0x30, 0x3E]

/-- `data_led`, which finds `idx` in its local. The cells of `pac` in front of `pac[idx]` hold 0; of
what a negative `idx` stores in front of `pac`, nothing is written. -/
def dataLedPac (idx : Int) : Fill UInt8 where
  cap := 50
  stored := List.replicate idx.toNat 0x00 ++ dataLedBytes.drop (-idx).toNat

end Ble
