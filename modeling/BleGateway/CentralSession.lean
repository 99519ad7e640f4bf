import BleGateway.Bonding
import BleGateway.CommandStream

/-!
# A whole session of the central mode (`src/CentralModeThread.c`)

Everything that `CentralModeThread` writes to the UART, from the reset of the controller to the LED
command behind the bonding, whatever it receives and whatever the writes return.

* `startUp`, `bondCalls`: the commands before the loop and those of `bond()`. Their results are not
  looked at.
* `session`: all writes of a run, each with the result of `BLECOMWrite`.
* `Said`: what has been written when the thread is in a state. `step_said`: every iteration keeps
  it.
* `session_parses`: so the controller reads scan requests, at most one cancel, at most one link
  request and then the commands of the bonding, and nothing else.
-/

namespace Ble

namespace CentralMode

/-! ## Outside the loop -/

/-- `PARAM_UPDATE`. -/
def paramUpdate : List Call :=
  [.setParam 0x0C 0x1F40, .setParam 0x0D 0x1F40, .setParam 0x0E 0x1F40, .setParam 0x0F 0x1F40,
    .setParam 0x10 0x1F40, .setParam 0x11 0x1F40, .setParam 0x12 0x1F40, .setParam 0x13 0x1F40,
    .setParam 0x17 0x1F40, .setParam 0x18 0x1F40, .setParam 0x02 0x1388, .setParam 0x03 0x1388]

/-- What the thread writes before its loop. -/
def startUp : List Call := .hciReset :: .hciInit :: paramUpdate

/-- `bond`, with what `data_led` finds in its `idx`. -/
def bondCalls (idx : Int) : List Call := [.bond, .passkey, .notify, .dataLed idx]

/-! ## The writes of a run -/

/-- A call of `BLECOMWrite` and its result. -/
structure Sent where
  pac : Fill UInt8
  written : Int
  deriving DecidableEq

namespace Sent

/-- The bytes that reach the UART. -/
def bytes (w : Sent) : List UInt8 := w.pac.stored.take w.written.toNat

/-- `BLECOMWrite(pac, idx) == idx`. -/
def Complete (w : Sent) : Prop := w.written = w.pac.stored.length

instance (w : Sent) : Decidable w.Complete := inferInstanceAs (Decidable (_ = _))

/-- The write is complete, or nothing is written. -/
def Whole (w : Sent) : Prop := w.Complete ∨ w.written ≤ 0

instance (w : Sent) : Decidable w.Whole := inferInstanceAs (Decidable (_ ∨ _))

/-- The command that a write brings to the controller. -/
def commands (w : Sent) : List HciCommand :=
  if w.Complete then [⟨(commandOpcode w.pac.stored).getD 0, w.pac.stored.drop 4⟩] else []

/-- The write is that of an encoder that finds its locals initialised. -/
def OfCall (w : Sent) : Prop := ∃ c : Call, c.Initialised ∧ w.pac = c.pac

end Sent

/-- The write that an event is, with the result `written`. -/
def sentBy (written : Int) : CentralEvent → Option Sent
  | .write pac _ => some ⟨pac, written⟩
  | _ => none

/-- What an iteration writes. -/
def sent (s : CentralMode) (i : CentralInput) : List Sent :=
  (step s i).2.filterMap (sentBy i.written)

/-- The thread, with its writes as the output. -/
def writer : Mealy CentralMode CentralInput (List Sent) := ⟨fun s i => ((step s i).1, sent s i)⟩

/-- The writes of the loop. -/
def loopSent (s : CentralMode) (is : List CentralInput) : List Sent :=
  (writer.outputs s is).flatten

/-- The writes of a session, with the results of those outside the loop. All 13 bytes of the link
request are taken as stored, although `pac` has 10. -/
def session (result : Call → Int) (idx : Int) (s : CentralMode) (is : List CentralInput) :
    List Sent :=
  startUp.map (fun c => ⟨c.pac, result c⟩) ++ loopSent s is ++
    if (machine.after s is).bonding then (bondCalls idx).map fun c => ⟨c.pac, result c⟩ else []

/-! ## What has been written -/

/-- Writes of the same command, none of them complete. -/
def Failed (pac : Fill UInt8) (ws : List Sent) : Prop := ∀ w ∈ ws, w.pac = pac ∧ ¬ w.Complete

/-- Writes of the same command up to the first that is complete. -/
def Done (pac : Fill UInt8) (ws : List Sent) : Prop :=
  ∃ failed w, ws = failed ++ [w] ∧ Failed pac failed ∧ w.pac = pac ∧ w.Complete

/-- Scan requests, complete or not. -/
def Scanned (ws : List Sent) : Prop := ∀ w ∈ ws, w.pac = deviceScanReqPac

/-- What the thread has written in its loop when it is in the state `s`. -/
inductive Said (s : CentralMode) (ws : List Sent) : Prop
  | scanning (hb : s.bonding = false) (hs : Scanning s.centralState) (ha : Scanned ws)
  | cancelling (scans cancels : List Sent) (hb : s.bonding = false)
      (hs : s.centralState = .deviceScanCancel) (h : ws = scans ++ cancels) (ha : Scanned scans)
      (hc : Failed deviceScanCancelReqPac cancels)
  | cancelled (scans cancels : List Sent) (hb : s.bonding = false)
      (hs : s.centralState = .deviceScanCancelRsp) (h : ws = scans ++ cancels) (ha : Scanned scans)
      (hc : Done deviceScanCancelReqPac cancels)
  | requesting (scans cancels links : List Sent) (hb : s.bonding = false)
      (hs : s.centralState = .deviceEstablishLinkReq) (h : ws = scans ++ (cancels ++ links))
      (ha : Scanned scans) (hc : Done deviceScanCancelReqPac cancels)
      (hl : Failed (deviceEstablishLinkReqPac s.scannedMacBuff) links)
  | requested (scans cancels links : List Sent) (mac : CArray UInt8 7)
      (hs : s.centralState = .deviceEstablishLinkRsp) (h : ws = scans ++ (cancels ++ links))
      (ha : Scanned scans) (hc : Done deviceScanCancelReqPac cancels)
      (hl : Done (deviceEstablishLinkReqPac mac) links)

theorem failed_nil (pac : Fill UInt8) : Failed pac [] := List.forall_mem_nil _

theorem Failed.append {pac : Fill UInt8} {ws : List Sent} (h : Failed pac ws) {n : Int}
    (hn : n ≠ pac.stored.length) : Failed pac (ws ++ [⟨pac, n⟩]) := by
  intro w hw
  obtain hw | hw := List.mem_append.mp hw
  · exact h w hw
  · rw [List.mem_singleton.mp hw]
    exact ⟨rfl, hn⟩

theorem Failed.done {pac : Fill UInt8} {ws : List Sent} (h : Failed pac ws) {n : Int}
    (hn : n = pac.stored.length) : Done pac (ws ++ [⟨pac, n⟩]) := ⟨ws, _, rfl, h, rfl, hn⟩

/-! ## One iteration -/

/-- What `Device_Scan_Req` writes: its command or nothing. -/
theorem deviceScanReq_sent (s : CentralMode) (i : CentralInput) :
    Scanned ((deviceScanReq s i).2.2.filterMap (sentBy i.written)) := by
  have hpac : Scanned [⟨deviceScanReqPac, i.written⟩] := by simp [Scanned]
  unfold deviceScanReq
  split
  · split
    · exact hpac
    · exact hpac
  · exact List.forall_mem_nil _

theorem Scanned.append {ws ws' : List Sent} (h : Scanned ws) (h' : Scanned ws') :
    Scanned (ws ++ ws') := fun w hw => (List.mem_append.mp hw).elim (h w) (h' w)

/-- An iteration keeps what has been written in the state it leads to. -/
theorem step_said {s : CentralMode} {ws : List Sent} (h : Said s ws) (i : CentralInput) :
    Said (step s i).1 (ws ++ sent s i) := by
  unfold sent
  cases h with
  | scanning hb hs ha =>
    obtain hs | hs | hs := hs
    · simp only [step, hb, hs, Bool.false_eq_true, if_false, List.filterMap_nil, List.append_nil]
      exact .scanning rfl (.inr (.inl rfl)) ha
    · obtain ⟨hsame, -⟩ := deviceScanReq_spec s i
      have hall := ha.append (deviceScanReq_sent s i)
      simp only [step, hb, hs, Bool.false_eq_true, if_false]
      refine .scanning (hsame.bonding.trans hb) ?_ hall
      dsimp only
      split
      · exact .inr (.inr rfl)
      · exact .inl rfl
    · simp only [step, hb, hs, Bool.false_eq_true, if_false]
      generalize sysMqRecvBuffer s.buffer i.received = buffer
      have hnone : ws ++ [CentralEvent.receive .deviceScanData buffer].filterMap
          (sentBy i.written) = ws := List.append_nil ws
      rw [hnone]
      -- Whatever the caller reads, the scan goes on or is to be cancelled.
      obtain hnext | hnext := afterScanData_cases
        (UInt8.ofInt ((deviceScanData buffer s.scannedMacBuff).1.read i.noReturn))
      · exact .scanning rfl hnext ha
      · exact .cancelling ws [] rfl hnext (List.append_nil ws).symm ha (failed_nil _)
  | cancelling scans cancels hb hs h ha hc =>
    simp only [step, hb, hs, Bool.false_eq_true, if_false, writeStatus_eq_zero_iff]
    have hone : ws ++ [CentralEvent.write deviceScanCancelReqPac
        (complete deviceScanCancelReqPac i)].filterMap (sentBy i.written) =
        scans ++ (cancels ++ [⟨deviceScanCancelReqPac, i.written⟩]) := by
      rw [h, List.append_assoc]
      rfl
    rw [hone]
    by_cases hw : i.written = deviceScanCancelReqPac.stored.length
    · exact .cancelled scans _ rfl (if_pos (decide_eq_true hw)) rfl ha (hc.done hw)
    · exact .cancelling scans _ rfl (if_neg (by simpa [complete] using hw)) rfl ha (hc.append hw)
  | cancelled scans cancels hb hs h ha hc =>
    simp only [step, hb, hs, Bool.false_eq_true, if_false]
    generalize sysMqRecvBuffer s.buffer i.received = buffer
    have hnone : ws ++ [CentralEvent.receive .deviceScanCancelRsp buffer].filterMap
        (sentBy i.written) = ws := List.append_nil ws
    rw [hnone]
    by_cases hr : Cancelled buffer
    · exact .requesting scans cancels [] rfl
        (if_pos ((deviceScanCancelRsp_eq_zero_iff buffer).mpr hr)) (by rw [h, List.append_nil]) ha
        hc (failed_nil _)
    · exact .cancelled scans cancels rfl
        (if_neg (mt (deviceScanCancelRsp_eq_zero_iff buffer).mp hr)) h ha hc
  | requesting scans cancels links hb hs h ha hc hl =>
    simp only [step, hb, hs, Bool.false_eq_true, if_false, writeStatus_eq_zero_iff]
    have hone : ws ++ [CentralEvent.write (deviceEstablishLinkReqPac s.scannedMacBuff)
        (complete (deviceEstablishLinkReqPac s.scannedMacBuff) i)].filterMap (sentBy i.written) =
        scans ++ (cancels ++ (links ++
          [⟨deviceEstablishLinkReqPac s.scannedMacBuff, i.written⟩])) := by
      rw [h, List.append_assoc, List.append_assoc]
      rfl
    rw [hone]
    by_cases hw : i.written = (deviceEstablishLinkReqPac s.scannedMacBuff).stored.length
    · exact .requested scans cancels _ s.scannedMacBuff (if_pos (decide_eq_true hw)) rfl ha hc
        (hl.done hw)
    · exact .requesting scans cancels _ rfl (if_neg (by simpa [complete] using hw)) rfl ha hc
        (hl.append hw)
  | requested scans cancels links mac hs h ha hc hl =>
    cases hb : s.bonding with
    | true =>
      simp only [step, hb, if_true, List.filterMap_nil, List.append_nil]
      exact .requested scans cancels links mac hs h ha hc hl
    | false =>
      simp only [step, hb, hs, Bool.false_eq_true, if_false]
      generalize sysMqRecvBuffer s.buffer i.received = buffer
      by_cases he : IsEvent buffer vsGapLinkEstablished
      · rw [deviceEstablishLinkRsp_established he]
        exact .requested scans cancels links mac rfl ((List.append_nil ws).trans h) ha hc hl
      · obtain ⟨exit, hrsp, -⟩ := deviceEstablishLinkRsp_wait he s.scannedMacBuff s.connHandle
        simp only [hrsp]
        -- Taken for a link or not, nothing is written.
        split
        · exact .requested scans cancels links mac rfl ((List.append_nil ws).trans h) ha hc hl
        · exact .requested scans cancels links mac rfl ((List.append_nil ws).trans h) ha hc hl

/-- After every run. -/
theorem run_said (buffer : CArray UInt8 256) (mac : CArray UInt8 7) (connHandle : UInt16)
    (is : List CentralInput) :
    Said (writer.after (start buffer mac connHandle) is)
      (loopSent (start buffer mac connHandle) is) := by
  have hstep : ∀ s os i, Said s (List.flatten os) →
      Said (writer.step s i).1 (os ++ [(writer.step s i).2]).flatten := by
    intro s os i h
    rw [List.flatten_append, List.flatten_singleton]
    exact step_said h i
  have h0 : Said (start buffer mac connHandle) (List.flatten []) :=
    .scanning rfl (.inl rfl) (List.forall_mem_nil _)
  have := Mealy.history (P := fun s os => Said s os.flatten) hstep h0 is
  rwa [List.nil_append] at this

theorem writer_after (s : CentralMode) (is : List CentralInput) :
    writer.after s is = machine.after s is := by
  induction is generalizing s with
  | nil => rfl
  | cons i is ih => exact ih _

/-! ## What the controller reads -/

theorem commandOpcode_stored {c : Call} (h : c.Initialised) :
    commandOpcode c.pac.stored = some c.opcode := by
  rw [c.stored_eq h]
  exact congrArg some (make16OfXY_bytes c.opcode_lt)

/-- A write of an encoder is read as its command, or as nothing. -/
theorem Sent.emits {w : Sent} (hw : w.Whole) (hc : w.OfCall) :
    hciFormat.Emits w.bytes w.commands := by
  obtain ⟨c, hi, hpac⟩ := hc
  by_cases h : w.Complete
  · have hbytes : w.bytes = c.command.bytes := by
      rw [Sent.bytes, h, Int.toNat_natCast, List.take_length, hpac, c.stored_eq hi]
    have hcommands : w.commands = [c.command] := by
      rw [Sent.commands, if_pos h, hpac, commandOpcode_stored hi]
      rfl
    rw [hbytes, hcommands]
    exact emits_bytes c.opcode_lt (c.length_params_le hi)
  · have hle : w.written ≤ 0 := hw.resolve_left h
    rw [Sent.bytes, Int.toNat_of_nonpos hle, List.take_zero, Sent.commands, if_neg h]
    exact Format.emits_nil

/-- The opcodes that the controller reads. -/
def opcodes (ws : List Sent) : List Nat := (ws.flatMap Sent.commands).map (·.opcode)

theorem opcodes_append (ws ws' : List Sent) : opcodes (ws ++ ws') = opcodes ws ++ opcodes ws' := by
  simp only [opcodes, List.flatMap_append, List.map_append]

theorem parse_sent {ws : List Sent} (hw : ∀ w ∈ ws, w.Whole) (hc : ∀ w ∈ ws, w.OfCall) :
    ∃ cs, hciFormat.parse (ws.flatMap Sent.bytes) = some cs ∧ cs.map (·.opcode) = opcodes ws :=
  ⟨_, Format.parse_flatMap fun w h => Sent.emits (hw w h) (hc w h), rfl⟩

/-- Writes of one command are read as often as they are complete. -/
theorem opcodes_same {pac : Fill UInt8} {op : Nat} (hop : commandOpcode pac.stored = some op)
    {ws : List Sent} (h : ∀ w ∈ ws, w.pac = pac) :
    opcodes ws = List.replicate (ws.countP fun w => w.Complete) op := by
  induction ws with
  | nil => rfl
  | cons w ws ih =>
    rw [List.forall_mem_cons] at h
    have hws := ih h.2
    unfold opcodes at hws ⊢
    rw [List.flatMap_cons, List.map_append, hws]
    by_cases hc : w.Complete
    · rw [Sent.commands, if_pos hc, h.1, hop, List.countP_cons_of_pos (by simpa using hc),
        List.replicate_succ]
      rfl
    · rw [Sent.commands, if_neg hc, List.countP_cons_of_neg (by simpa using hc)]
      rfl

theorem Failed.opcodes_eq {pac : Fill UInt8} {ws : List Sent} (h : Failed pac ws) :
    opcodes ws = [] := by
  have hnone : ws.flatMap Sent.commands = [] :=
    List.flatMap_eq_nil_iff.mpr fun w hw => if_neg (h w hw).2
  rw [opcodes, hnone]
  rfl

theorem Done.opcodes_eq {pac : Fill UInt8} {op : Nat} (hop : commandOpcode pac.stored = some op)
    {ws : List Sent} (h : Done pac ws) : opcodes ws = [op] := by
  obtain ⟨failed, w, rfl, hf, hpac, hc⟩ := h
  have hone : opcodes [w] = [op] := by
    rw [opcodes, List.flatMap_singleton, Sent.commands, if_pos hc, hpac, hop]
    rfl
  rw [opcodes_append, hf.opcodes_eq, hone]
  rfl

theorem Done.pac_eq {pac : Fill UInt8} {ws : List Sent} (h : Done pac ws) :
    ∀ w ∈ ws, w.pac = pac := by
  obtain ⟨failed, w, rfl, hf, hpac, -⟩ := h
  intro w' hw'
  obtain hw' | hw' := List.mem_append.mp hw'
  · exact (hf w' hw').1
  · rw [List.mem_singleton.mp hw', hpac]

theorem Scanned.opcodes_eq {ws : List Sent} (h : Scanned ws) :
    ∃ n, opcodes ws = List.replicate n vsGapDeviceDiscoveryRequest := ⟨_, opcodes_same rfl h⟩

/-- What the controller reads from the loop: scan requests, then a cancel at most, then a link
request at most, and both if the thread bonds. -/
theorem Said.opcodes_eq {s : CentralMode} {ws : List Sent} (h : Said s ws) :
    ∃ n tail, opcodes ws = List.replicate n vsGapDeviceDiscoveryRequest ++ tail ∧
      tail <+: [vsGapDeviceDiscoveryCancel, vsGapEstablishLinkRequest] ∧
      (s.bonding = true → tail = [vsGapDeviceDiscoveryCancel, vsGapEstablishLinkRequest]) := by
  cases h with
  | scanning hb hs ha =>
    obtain ⟨n, hops⟩ := ha.opcodes_eq
    refine ⟨n, [], hops.trans (List.append_nil _).symm, List.nil_prefix, fun h => ?_⟩
    cases hb.symm.trans h
  | cancelling scans cancels hb hs h ha hc =>
    obtain ⟨n, hops⟩ := ha.opcodes_eq
    refine ⟨n, [], ?_, List.nil_prefix, fun h => ?_⟩
    · rw [h, opcodes_append, hops, hc.opcodes_eq]
    · cases hb.symm.trans h
  | cancelled scans cancels hb hs h ha hc =>
    obtain ⟨n, hops⟩ := ha.opcodes_eq
    refine ⟨n, [vsGapDeviceDiscoveryCancel], ?_, ⟨_, rfl⟩, fun h => ?_⟩
    · rw [h, opcodes_append, hops, hc.opcodes_eq rfl]
      rfl
    · cases hb.symm.trans h
  | requesting scans cancels links hb hs h ha hc hl =>
    obtain ⟨n, hops⟩ := ha.opcodes_eq
    refine ⟨n, [vsGapDeviceDiscoveryCancel], ?_, ⟨_, rfl⟩, fun h => ?_⟩
    · rw [h, opcodes_append, opcodes_append, hops, hc.opcodes_eq rfl, hl.opcodes_eq]
      rfl
    · cases hb.symm.trans h
  | requested scans cancels links mac hs h ha hc hl =>
    obtain ⟨n, hops⟩ := ha.opcodes_eq
    refine ⟨n, _, ?_, List.prefix_rfl, fun _ => rfl⟩
    rw [h, opcodes_append, opcodes_append, hops, hc.opcodes_eq rfl, hl.opcodes_eq rfl]
    rfl

/-- Every write of the loop is that of an encoder. -/
theorem Said.ofCall {s : CentralMode} {ws : List Sent} (h : Said s ws) : ∀ w ∈ ws, w.OfCall := by
  have hscan : ∀ w : Sent, w.pac = deviceScanReqPac → w.OfCall := fun w hw =>
    ⟨.deviceScanReq (Vector.replicate 6 .zero), trivial, hw⟩
  have hcancel : ∀ w : Sent, w.pac = deviceScanCancelReqPac → w.OfCall := fun w hw =>
    ⟨.deviceScanCancelReq, trivial, hw⟩
  have hlink : ∀ mac (w : Sent), w.pac = deviceEstablishLinkReqPac mac → w.OfCall :=
    fun mac w hw => ⟨.deviceEstablishLinkReq mac, trivial, hw⟩
  intro w hw
  cases h with
  | scanning hb hs ha => exact hscan w (ha w hw)
  | cancelling scans cancels hb hs h ha hc =>
    rw [h, List.mem_append] at hw
    exact hw.elim (fun hw => hscan w (ha w hw)) fun hw => hcancel w (hc w hw).1
  | cancelled scans cancels hb hs h ha hc =>
    rw [h, List.mem_append] at hw
    exact hw.elim (fun hw => hscan w (ha w hw)) fun hw => hcancel w (hc.pac_eq w hw)
  | requesting scans cancels links hb hs h ha hc hl =>
    rw [h, List.mem_append, List.mem_append] at hw
    obtain hw | hw | hw := hw
    · exact hscan w (ha w hw)
    · exact hcancel w (hc.pac_eq w hw)
    · exact hlink _ w (hl w hw).1
  | requested scans cancels links mac hs h ha hc hl =>
    rw [h, List.mem_append, List.mem_append] at hw
    obtain hw | hw | hw := hw
    · exact hscan w (ha w hw)
    · exact hcancel w (hc.pac_eq w hw)
    · exact hlink mac w (hl.pac_eq w hw)

/-! ## Sessions -/

/-- The opcodes of the calls that are written, with these results. -/
def accepted (result : Call → Int) (calls : List Call) : List Nat :=
  (calls.filter fun c => (⟨c.pac, result c⟩ : Sent).Complete).map Call.opcode

theorem opcodes_calls {result : Call → Int} {calls : List Call}
    (h : ∀ c ∈ calls, c.Initialised) :
    opcodes (calls.map fun c => ⟨c.pac, result c⟩) = accepted result calls := by
  induction calls with
  | nil => rfl
  | cons c calls ih =>
    rw [List.forall_mem_cons] at h
    have hrest := ih h.2
    unfold opcodes accepted at hrest ⊢
    rw [List.map_cons, List.flatMap_cons, List.map_append, hrest]
    by_cases hc : (⟨c.pac, result c⟩ : Sent).Complete
    · rw [Sent.commands, if_pos hc, List.filter_cons_of_pos (by simpa using hc),
        commandOpcode_stored h.1]
      rfl
    · rw [Sent.commands, if_neg hc, List.filter_cons_of_neg (by simpa using hc)]
      rfl

theorem ofCall_calls (result : Call → Int) {calls : List Call} (h : ∀ c ∈ calls, c.Initialised) :
    ∀ w ∈ calls.map fun c => (⟨c.pac, result c⟩ : Sent), w.OfCall := by
  intro w hw
  obtain ⟨c, hc, rfl⟩ := List.mem_map.mp hw
  exact ⟨c, h c hc, rfl⟩

theorem initialised_startUp : ∀ c ∈ startUp, c.Initialised := by
  simp [startUp, paramUpdate, Call.Initialised]

theorem initialised_bondCalls : ∀ c ∈ bondCalls 0, c.Initialised := by
  simp [bondCalls, Call.Initialised]

/-- **A session.** If no write of a run is cut short and `data_led` finds 0 in its `idx`, the
controller reads commands all along: those before the loop, then scan requests, behind them at most
one cancel and one link request, and if the thread bonds, both of them and the commands of the
bonding. -/
theorem session_parses (result : Call → Int) (buffer : CArray UInt8 256) (mac : CArray UInt8 7)
    (connHandle : UInt16) (is : List CentralInput)
    (h : ∀ w ∈ session result 0 (start buffer mac connHandle) is, w.Whole) :
    ∃ cs n tail, hciFormat.parse
        ((session result 0 (start buffer mac connHandle) is).flatMap Sent.bytes) = some cs ∧
      cs.map (·.opcode) = accepted result startUp ++
        (List.replicate n vsGapDeviceDiscoveryRequest ++ tail) ∧
      if (machine.after (start buffer mac connHandle) is).bonding then
        tail = [vsGapDeviceDiscoveryCancel, vsGapEstablishLinkRequest] ++
          accepted result (bondCalls 0)
      else tail <+: [vsGapDeviceDiscoveryCancel, vsGapEstablishLinkRequest] := by
  have hsaid := run_said buffer mac connHandle is
  rw [writer_after] at hsaid
  obtain ⟨n, tail, hops, hpre, hbond⟩ := hsaid.opcodes_eq
  have hstart := ofCall_calls result initialised_startUp
  have hend := ofCall_calls result initialised_bondCalls
  have hcalls : ∀ w ∈ session result 0 (start buffer mac connHandle) is, w.OfCall := by
    intro w hw
    unfold session at hw
    rw [List.mem_append, List.mem_append] at hw
    obtain (hw | hw) | hw := hw
    · exact hstart w hw
    · exact hsaid.ofCall w hw
    · split at hw
      · exact hend w hw
      · cases hw
  obtain ⟨cs, hparse, hcs⟩ := parse_sent h hcalls
  rw [session, opcodes_append, opcodes_append, opcodes_calls initialised_startUp, hops,
    List.append_assoc, List.append_assoc] at hcs
  split
  · next hb =>
    rw [if_pos hb, opcodes_calls initialised_bondCalls] at hcs
    exact ⟨cs, n, _, hparse, hcs, by rw [hbond hb]⟩
  · next hb =>
    rw [if_neg hb] at hcs
    exact ⟨cs, n, tail, hparse, by rw [hcs]; simp [opcodes], hpre⟩

/-- Writes outside the loop that are all complete. -/
theorem session_whole {idx : Int} {s : CentralMode} {is : List CentralInput}
    (h : ∀ w ∈ loopSent s is, w.Whole) :
    ∀ w ∈ session (fun c => c.pac.stored.length) idx s is, w.Whole := by
  have hcalls : ∀ calls : List Call,
      ∀ w ∈ calls.map fun c => (⟨c.pac, c.pac.stored.length⟩ : Sent), w.Whole := by
    intro calls w hw
    obtain ⟨c, -, rfl⟩ := List.mem_map.mp hw
    exact .inl rfl
  intro w hw
  unfold session at hw
  rw [List.mem_append, List.mem_append] at hw
  obtain (hw | hw) | hw := hw
  · exact hcalls _ w hw
  · exact h w hw
  · split at hw
    · exact hcalls _ w hw
    · cases hw

theorem whole_failedLink : ∀ w ∈ loopSent
    (start (Vector.replicate 256 0) (Vector.replicate 7 0) 0) failedLink, w.Whole := by
  decide

/-- A session with all writes complete: the scan finds a device, and the link event is taken for
its link. -/
theorem session_parses_failedLink :
    ∃ cs n tail, hciFormat.parse
        ((session (fun c => c.pac.stored.length) 0
          (start (Vector.replicate 256 0) (Vector.replicate 7 0) 0) failedLink).flatMap
            Sent.bytes) = some cs ∧
      cs.map (·.opcode) = accepted (fun c => c.pac.stored.length) startUp ++
        (List.replicate n vsGapDeviceDiscoveryRequest ++ tail) ∧
      if (machine.after (start (Vector.replicate 256 0) (Vector.replicate 7 0) 0)
          failedLink).bonding then
        tail = [vsGapDeviceDiscoveryCancel, vsGapEstablishLinkRequest] ++
          accepted (fun c => c.pac.stored.length) (bondCalls 0)
      else tail <+: [vsGapDeviceDiscoveryCancel, vsGapEstablishLinkRequest] :=
  session_parses _ _ _ _ failedLink (session_whole whole_failedLink)

end CentralMode

end Ble
