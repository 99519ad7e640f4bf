import BleGateway.Lib.Records
import BleGateway.CentralCommands
import BleGateway.Encoders

/-!
# The command stream

All commands go over one UART, so the controller reads what the encoders write one after the other.

* `hciFormat`: the grammar of HCI commands, `01 lo hi len` and `len` bytes.
* `Call`: the calls of encoders, with their arguments and with the globals and locals they read.
* `stored_eq`: every encoder that finds its locals initialised writes one command of its opcode.
* `output_parses`: so a run of calls is read as their commands, in order. `Device_Scan_Req` writes
  none when four devices are connected.
* `parse_dataLed`: a stray `idx` in `data_led` spoils everything behind it.
-/

namespace Ble

/-! ## The grammar -/

/-- An HCI command. -/
structure HciCommand where
  opcode : Nat
  params : List UInt8
  deriving DecidableEq, Repr

/-- The command on the wire. -/
def HciCommand.bytes (c : HciCommand) : List UInt8 :=
  pktCommand :: lsbyteOf16Bit c.opcode :: msbyteOf16Bit c.opcode ::
    UInt8.ofNat c.params.length :: c.params

/-- The command at the front of a stream. -/
def nextCommand : List UInt8 → Option (HciCommand × List UInt8)
  | 0x01 :: lo :: hi :: len :: rest =>
    if len.toNat ≤ rest.length then
      some (⟨make16OfXY hi lo, rest.take len.toNat⟩, rest.drop len.toNat)
    else none
  | _ => none

theorem nextCommand_shorter {bs : List UInt8} {c : HciCommand} {rest : List UInt8}
    (h : nextCommand bs = some (c, rest)) : rest.length < bs.length := by
  unfold nextCommand at h
  split at h
  · split at h
    · cases h
      simp only [List.length_drop, List.length_cons]
      omega
    · cases h
  · cases h

/-- HCI commands as records. -/
def hciFormat : Format UInt8 HciCommand := ⟨nextCommand, nextCommand_shorter⟩

theorem nextCommand_bytes {c : HciCommand} (hop : c.opcode < 65536) (hlen : c.params.length ≤ 255)
    (rest : List UInt8) : nextCommand (c.bytes ++ rest) = some (c, rest) := by
  have hn : (UInt8.ofNat c.params.length).toNat = c.params.length :=
    UInt8.toNat_ofNat_of_lt' (by simp [UInt8.size]; omega)
  have hle : c.params.length ≤ (c.params ++ rest).length := by simp
  simp only [HciCommand.bytes, pktCommand, List.cons_append, nextCommand, hn, hle, if_true,
    make16OfXY_bytes hop, List.take_left, List.drop_left]

theorem emits_bytes {c : HciCommand} (hop : c.opcode < 65536) (hlen : c.params.length ≤ 255) :
    hciFormat.Emits c.bytes [c] :=
  Format.emits_singleton fun rest => nextCommand_bytes hop hlen rest

/-! ## The calls -/

/-- The arguments of `Notify_data` and `GATT_WRITE_VALUE`. -/
structure Relayed where
  n : Nat
  buffer : CArray UInt8 n
  size : Nat
  idz : Int
  three_le : 3 ≤ size
  le : size ≤ 94
  fits : size ≤ n

/-- A call of an encoder. -/
inductive Call where
  | hciReset
  | hciInit
  | setParam (paramId : UInt8) (intervals : UInt16)
  | hciSetTxPower
  | getMac
  | hciExtSetMaxDataLength
  | hciExtSetlocalSupportedFeatures
  | setDataLength (handleIdMain : UInt16)
  | deviceScanReq (connDeviceList : ConnDeviceList)
  | deviceScanCancelReq
  | deviceEstablishLinkReq (scannedMacBuff : CArray UInt8 7)
  | enableNotification (connHandle : UInt16)
  | notifyAck (connHandle : UInt16)
  | dataAck (idz : Int)
  | bond
  | passkey
  | notify
  | dataLed (idx : Int)
  | gattWriteValue (r : Relayed)
  | notifyData (r : Relayed)

namespace Call

/-- The opcode of the encoder. -/
def opcode : Call → Nat
  | hciReset => btReset
  | hciInit => vsGapDeviceInitialization
  | setParam _ _ => vsGapSetParameter
  | hciSetTxPower => vsHciExtensionSetTxPower
  | getMac => btReadBdAddr
  | hciExtSetMaxDataLength => vsHciExtensionSetMaxDataLength
  | hciExtSetlocalSupportedFeatures => vsHciExtensionSetLocalSupportedFeatures
  | setDataLength _ => opcodeSetdataLength
  | deviceScanReq _ => vsGapDeviceDiscoveryRequest
  | deviceScanCancelReq => vsGapDeviceDiscoveryCancel
  | deviceEstablishLinkReq _ => vsGapEstablishLinkRequest
  | enableNotification _ => gattWritecharvalue
  | notifyAck _ | dataAck _ => vsAttWriteResponse
  | bond => 0xFE0B
  | passkey => 0xFE0C
  | notify | dataLed _ | gattWriteValue _ => gattWritecharvalue
  | notifyData _ => gattNotification

/-- What the encoder stores. -/
def pac : Call → Fill UInt8
  | hciReset => hciResetPac
  | hciInit => hciInitPac
  | setParam paramId intervals => setParamPac paramId intervals
  | hciSetTxPower => hciSetTxPowerPac
  | getMac => getMacPac
  | hciExtSetMaxDataLength => hciExtSetMaxDataLengthPac
  | hciExtSetlocalSupportedFeatures => hciExtSetlocalSupportedFeaturesPac
  | setDataLength handleIdMain => setDataLengthPac handleIdMain
  | deviceScanReq _ => deviceScanReqPac
  | deviceScanCancelReq => deviceScanCancelReqPac
  | deviceEstablishLinkReq scannedMacBuff => deviceEstablishLinkReqPac scannedMacBuff
  | enableNotification connHandle => enableNotificationPac connHandle
  | notifyAck connHandle => notifyAckPac connHandle
  | dataAck idz => Ble.dataAck (UInt16.ofInt idz).toNat
  | bond => bondPac
  | passkey => passkeyPac
  | notify => notifyPac
  | dataLed idx => dataLedPac idx
  | gattWriteValue r => Ble.gattWriteValue r.buffer r.size (UInt8.ofInt r.idz).toNat
  | notifyData r => Ble.notifyData r.buffer r.size (UInt8.ofInt r.idz).toNat

/-- The call writes: `Device_Scan_Req` does not when four devices are connected. -/
def writes : Call → Bool
  | deviceScanReq connDeviceList => CentralMode.deviceConnCount connDeviceList < 4
  | _ => true

/-- The bytes that the call sends to the UART, the write being complete. -/
def output (c : Call) : List UInt8 := if c.writes then c.pac.stored else []

/-- `data_led` finds 0 in its local `idx`. No other encoder has an uninitialised local. -/
def Initialised : Call → Prop
  | dataLed idx => idx = 0
  | _ => True

/-- The command of the call. -/
def command (c : Call) : HciCommand := ⟨c.opcode, c.pac.stored.drop 4⟩

/-! ## Every encoder -/

theorem opcode_lt (c : Call) : c.opcode < 65536 := by
  unfold opcode
  split <;> decide

theorem length_slice_relayed (r : Relayed) : (r.buffer.slice 3 (r.size - 3)).length = r.size - 3 :=
  r.buffer.length_slice 3 _ (by have := r.three_le; have := r.fits; omega)

/-- The length byte of a relayed message counts the bytes behind it. -/
theorem lengthByte_relayed (r : Relayed) (front : List UInt8) :
    UInt8.ofInt (((r.size : Int) - 3) + front.length) =
      UInt8.ofNat (front ++ r.buffer.slice 3 (r.size - 3)).length := by
  have h3 := r.three_le
  have hcast : ((r.size : Int) - 3) + front.length =
      ((front.length + (r.size - 3) : Nat) : Int) := by omega
  rw [List.length_append, length_slice_relayed, hcast, uint8_ofInt_natCast]

/-- A right length byte makes a command. -/
theorem bytes_of_lengthByte {op : Nat} {len : UInt8} {params : List UInt8}
    (h : len = UInt8.ofNat params.length) :
    pktCommand :: lsbyteOf16Bit op :: msbyteOf16Bit op :: len :: params =
      HciCommand.bytes ⟨op, params⟩ := by
  rw [h, HciCommand.bytes]

/-- The commands of `Notify_Ack` and `data_ack`. -/
theorem ackBytes_eq (handle : Nat) :
    [0x01, 0x13, 0xFD, 0x02, lsbyteOf16Bit handle, msbyteOf16Bit handle] =
      HciCommand.bytes ⟨vsAttWriteResponse, [lsbyteOf16Bit handle, msbyteOf16Bit handle]⟩ := by
  have hlo : lsbyteOf16Bit vsAttWriteResponse = 0x13 := by decide
  have hhi : msbyteOf16Bit vsAttWriteResponse = 0xFD := by decide
  rw [HciCommand.bytes, hlo, hhi]
  rfl

/-- An encoder that finds its locals initialised stores one command. -/
theorem stored_eq (c : Call) (h : c.Initialised) : c.pac.stored = c.command.bytes := by
  cases c with
  | notifyAck connHandle => exact ackBytes_eq _
  | dataAck idz => exact ackBytes_eq _
  | gattWriteValue r => exact bytes_of_lengthByte (lengthByte_relayed r [_, 0x00, 0x03, 0x00])
  | notifyData r => exact bytes_of_lengthByte (lengthByte_relayed r [0x00, 0x00, 0x00, 0x07, 0x00])
  | dataLed idx =>
    cases h
    rfl
  | _ => rfl

theorem length_params_le (c : Call) (h : c.Initialised) : c.command.params.length ≤ 255 := by
  cases c with
  | gattWriteValue r =>
    have hlen := length_slice_relayed r
    have := r.le
    simp only [command, pac, Ble.gattWriteValue, List.length_drop, List.length_append, hlen,
      List.length_cons, List.length_nil]
    omega
  | notifyData r =>
    have hlen := length_slice_relayed r
    have := r.le
    simp only [command, pac, Ble.notifyData, List.length_drop, List.length_append, hlen,
      List.length_cons, List.length_nil]
    omega
  | dataLed idx =>
    cases h
    decide
  | bond =>
    simp only [command, pac, bondPac, List.length_drop, List.length_append, List.length_replicate,
      List.length_cons, List.length_nil]
    omega
  | setParam _ _ | setDataLength _ | deviceEstablishLinkReq _ | enableNotification _ | notifyAck _
  | dataAck _ =>
    simp only [command, pac, setParamPac, setDataLengthPac, deviceEstablishLinkReqPac,
      enableNotificationPac, notifyAckPac, Ble.dataAck, List.length_drop, List.length_cons,
      List.length_nil]
    omega
  | _ =>
    simp only [command, pac]
    decide

/-- The commands that the controller reads from the call. -/
def commands (c : Call) : List HciCommand := if c.writes then [c.command] else []

theorem emits_output {c : Call} (h : c.Initialised) : hciFormat.Emits c.output c.commands := by
  unfold output commands
  split
  · rw [c.stored_eq h]
    exact emits_bytes c.opcode_lt (c.length_params_le h)
  · exact Format.emits_nil

theorem opcode_commands (calls : List Call) :
    (calls.flatMap commands).map (·.opcode) = (calls.filter writes).map opcode := by
  induction calls with
  | nil => rfl
  | cons c calls ih =>
    rw [List.flatMap_cons, List.map_append, ih, List.filter_cons, commands]
    cases c.writes <;> rfl

end Call

/-! ## Runs of calls -/

/-- **The command stream.** If `data_led` finds 0 in its `idx`, what any run of calls writes is read
as one command per call, in order and with the opcode of the call, except that `Device_Scan_Req`
gives none when four devices are connected. -/
theorem output_parses (calls : List Call) (h : ∀ c ∈ calls, c.Initialised) :
    ∃ cs, hciFormat.parse (calls.flatMap Call.output) = some cs ∧
      cs.map (·.opcode) = (calls.filter Call.writes).map Call.opcode :=
  ⟨_, Format.parse_flatMap fun c hc => Call.emits_output (h c hc), Call.opcode_commands calls⟩

/-- `bond` up to the end: its frame, the passkey, the notifications and the LED. -/
theorem output_parses_bond :
    ∃ cs, hciFormat.parse ([Call.bond, .passkey, .notify, .dataLed 0].flatMap Call.output) =
        some cs ∧ cs.map (·.opcode) = [0xFE0B, 0xFE0C, 0xFD92, 0xFD92] :=
  output_parses [.bond, .passkey, .notify, .dataLed 0] (by simp [Call.Initialised])

/-- The table of four connected devices. -/
def fourConnected : ConnDeviceList :=
  Vector.ofFn fun j : Fin 6 => if j.val < 4 then .connected (UInt16.ofNat j) else .zero

/-- With them `Device_Scan_Req` writes no command. -/
theorem not_output_parses_fourConnected : ¬ ∀ calls : List Call,
    ∃ cs, hciFormat.parse (calls.flatMap Call.output) = some cs ∧
      cs.map (·.opcode) = calls.map Call.opcode := by
  intro h
  obtain ⟨cs, hp, hc⟩ := h [.deviceScanReq fourConnected]
  have hempty : [Call.deviceScanReq fourConnected].flatMap Call.output = [] := by decide
  rw [hempty, Format.parse_nil] at hp
  cases hp
  cases hc

/-- With a stray `idx` inside `pac`, neither the command of `data_led` nor anything behind it is
read. -/
theorem parse_dataLed {idx : Int} (h : 0 < idx) (rest : List UInt8) :
    hciFormat.parse ((Call.dataLed idx).output ++ rest) = none := by
  obtain ⟨k, hk⟩ : ∃ k, idx.toNat = k + 1 := ⟨idx.toNat - 1, by omega⟩
  have hbytes : ∃ bs, (Call.dataLed idx).output ++ rest = 0x00 :: bs := by
    refine ⟨List.replicate k 0x00 ++ dataLedBytes.drop (-idx).toNat ++ rest, ?_⟩
    simp only [Call.output, Call.writes, if_true, Call.pac, dataLedPac, hk, List.replicate_succ,
      List.cons_append]
  obtain ⟨bs, hbytes⟩ := hbytes
  rw [hbytes]
  exact Format.parse_of_next_none (by simp) rfl

end Ble
