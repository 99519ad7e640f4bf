import BleGateway.Bounds
import BleGateway.ConnCount

/-!
# Where the connection table is indexed

`UartCmdRxThread` takes the index of a Link Terminated event from the packet, `Update_Conn_Status`
takes it from the global that `Device_Establish_Link_Rsp` stored. Nothing looks at it in between.

* `Action.accesses`, `updateConnStatusAccesses`: the accesses `Conn_Device_List[h].…`, with the
  index of the array element inside the entry where there is one.
* `table`: what any order of packets, responses and registrations does. A run ends with the event
  whose store leaves the table.
* `tableInBounds_iff`: the indices stay inside the table if and only if every event that uses its
  handle has one below 6, and the rest of the contract holds as long as nothing is registered.
-/

namespace Ble

/-- A field of `struct Connedted_Device`, or an element of one. -/
inductive Field where
  | mac (i : Nat)
  | connHandle
  | handleId
  | status
  | centralId (i : Nat)
  | deviceState
  deriving DecidableEq, Repr

/-- The element lies within its array. -/
def Field.InBounds : Field → Prop
  | .mac i => i < 7
  | .centralId i => i < 4
  | .connHandle | .handleId | .status | .deviceState => True

/-- An access `Conn_Device_List[index].field`. -/
structure TableAccess where
  index : Nat
  field : Field
  deriving DecidableEq, Repr

def TableAccess.InBounds (a : TableAccess) : Prop := a.index < 6 ∧ a.field.InBounds

/-- The accesses of an action. The `printf` behind an access reads the same element, which stands
once. -/
def Action.accesses : Action → List TableAccess
  | .clearStatus connHandle => [⟨connHandle, .status⟩]
  | .upadateDisconnection => (List.range maxNumPeripherals).map fun i => ⟨i, .status⟩
  | .sysMqSend _ | .dataAck _ => []

/-- The accesses of `Update_Conn_Status`: two loops, and the stores to the other fields. -/
def updateConnStatusAccesses (connHandle : Nat) : List TableAccess :=
  ((List.range 6).map fun i => ⟨connHandle, .mac i⟩) ++
    ((List.range 6).map fun i => ⟨connHandle, .centralId i⟩) ++
    [⟨connHandle, .connHandle⟩, ⟨connHandle, .handleId⟩, ⟨connHandle, .status⟩,
      ⟨connHandle, .deviceState⟩]

/-! ## Runs -/

/-- The table, and the globals of the central mode that a registration reads. -/
structure TableState where
  connections : Connections
  scannedMacBuff : CArray UInt8 7
  connHandle : UInt16

/-- What works on the table or on these globals. -/
inductive TableEvent where
  /-- `UartCmdRxThread` goes through its chain for a completed packet. -/
  | packet (rxPacket : CArray UInt8 2048)
  /-- `Device_Establish_Link_Rsp`, with what its receive leaves in `buffer`. -/
  | establishLinkRsp (buffer : CArray UInt8 256)
  /-- `Update_Conn_Status(State)`. -/
  | updateConnStatus (masterId1 : CArray UInt8 6) (handleIdMain : UInt16) (state : String)

namespace TableEvent

/-- The handle of the event. -/
def handle (s : TableState) : TableEvent → Nat
  | .packet rxPacket => opcode rxPacket
  | .establishLinkRsp buffer => make16OfXY (buffer.byte 14) (buffer.byte 13)
  | .updateConnStatus _ _ _ => s.connHandle.toNat

/-- The accesses that it makes, in order. -/
def accesses (s : TableState) : TableEvent → List TableAccess
  | .packet rxPacket => (dispatch rxPacket).flatMap Action.accesses
  | .establishLinkRsp _ => []
  | .updateConnStatus _ _ _ => updateConnStatusAccesses s.connHandle.toNat

/-- The state behind it; `none` if a store leaves the table. -/
def apply (s : TableState) : TableEvent → Option TableState
  | .packet rxPacket =>
    ((dispatch rxPacket).foldlM Action.onTable s.connections).map fun connections =>
      { s with connections }
  | .establishLinkRsp buffer =>
    let (_, scannedMacBuff, connHandle) :=
      deviceEstablishLinkRsp buffer s.scannedMacBuff s.connHandle
    some { s with scannedMacBuff, connHandle }
  | .updateConnStatus masterId1 handleIdMain state =>
    (s.connections.updateConnStatus
      ⟨s.connHandle, s.scannedMacBuff, masterId1, handleIdMain, state⟩).map fun connections =>
        { s with connections }

end TableEvent

/-- The accesses of one event after another, up to the one that leaves the table. -/
def table : Mealy (Option TableState) TableEvent (List TableAccess) where
  step
    | none, _ => (none, [])
    | some s, e => (e.apply s, e.accesses s)

/-- If the handle of the event is outside the table, its processing leaves all entries as they
are. -/
def LeavesEntries (o : Option TableState) (e : TableEvent) : Prop :=
  ∀ s, o = some s → 6 ≤ e.handle s →
    ∃ s', e.apply s = some s' ∧ s'.connections.connDeviceList = s.connections.connDeviceList

/-- The contract of a run. -/
structure RunInBounds (s : TableState) (es : List TableEvent) : Prop where
  accesses : ∀ as ∈ table.outputs (some s) es, ∀ a ∈ as, a.InBounds
  entries : table.Meets LeavesEntries (some s) es

/-- The packet gets to the branch of the Link Terminated event. -/
structure LinkTerminated (p : CArray UInt8 2048) : Prop where
  vendor : VendorEvent p
  unmasked : opcode p ∉ maskedOpcodes
  event : eventCode p = vsGapLinkTerminated

namespace TableEvent

/-- The event uses its handle as an index. -/
def UsesHandle : TableEvent → Prop
  | .packet rxPacket => LinkTerminated rxPacket
  | .establishLinkRsp _ => False
  | .updateConnStatus _ _ _ => True

/-- It is no registration, and the handle of a Link Terminated event is in the table. -/
def Inside : TableEvent → Prop
  | .packet rxPacket => LinkTerminated rxPacket → opcode rxPacket < 6
  | .establishLinkRsp _ => True
  | .updateConnStatus _ _ _ => False

end TableEvent

/-- An event that uses its handle as an index has one inside the table. -/
def HandleInside (o : Option TableState) (e : TableEvent) : Prop :=
  ∀ s, o = some s → e.UsesHandle → e.handle s < 6

/-! ## The accesses of an event -/

theorem accesses_upadateDisconnection {a : TableAccess}
    (h : a ∈ Action.upadateDisconnection.accesses) : a.InBounds := by
  obtain ⟨i, hi, rfl⟩ := List.mem_map.mp h
  have hlt : i < 5 := List.mem_range.mp hi
  exact ⟨Nat.lt_succ_of_lt hlt, trivial⟩

/-- The accesses of the Link Terminated branch: one by the handle, the others inside the table. -/
theorem accesses_linkTerminated {connHandle : Nat} {b8 : UInt8} {a : TableAccess}
    (h : a ∈ (linkTerminated connHandle b8).flatMap Action.accesses) :
    a = ⟨connHandle, .status⟩ ∨ a.InBounds := by
  obtain ⟨act, hact, ha⟩ := List.mem_flatMap.mp h
  rw [linkTerminated, List.mem_append, List.mem_append] at hact
  obtain (hact | hact) | hact := hact
  · rw [List.mem_singleton.mp hact] at ha
    exact .inl (List.mem_singleton.mp ha)
  · split at hact
    · rw [List.mem_singleton.mp hact] at ha
      cases ha
    · cases hact
  · rw [List.mem_singleton.mp hact] at ha
    exact .inr (accesses_upadateDisconnection ha)

theorem AtMostOnePost.no_access {as : List Action} (h : AtMostOnePost as) :
    as.flatMap Action.accesses = [] ∧ ∀ w : Connections, as.foldlM Action.onTable w = some w := by
  obtain rfl | ⟨q, rfl⟩ := h
  · exact ⟨rfl, fun w => rfl⟩
  · exact ⟨rfl, fun w => rfl⟩

/-- No other branch works on the table. -/
theorem no_access_of_not_linkTerminated {p : CArray UInt8 2048} (h : ¬ LinkTerminated p) :
    (dispatch p).flatMap Action.accesses = [] ∧
      ∀ w : Connections, (dispatch p).foldlM Action.onTable w = some w := by
  rw [dispatch_eq]
  split
  · next hv =>
    split
    · exact atMostOnePost_nil.no_access
    next hm =>
    unfold byEvent
    split
    · exact (atMostOnePost_sysMqSend _).no_access
    split
    · exact (atMostOnePost_commandStatus _).no_access
    split
    · next hevent => exact absurd ⟨hv, hm, hevent⟩ h
    split
    · exact (atMostOnePost_toPipe _).no_access
    split
    · obtain ⟨haccess, htable⟩ := (atMostOnePost_writeRequestQueue p).no_access
      refine ⟨by rw [List.flatMap_append, haccess]; rfl, fun w => ?_⟩
      rw [List.foldlM_append, htable]
      rfl
    · exact atMostOnePost_nil.no_access
  · exact atMostOnePost_nil.no_access

theorem dispatch_linkTerminated {p : CArray UInt8 2048} (h : LinkTerminated p) :
    dispatch p = linkTerminated (opcode p) (p.byte 8) := by
  rw [dispatch_of_vendor h.vendor h.unmasked, h.event, byEvent_linkTerminated]

/-! ## One event -/

theorem accesses_updateConnStatus {connHandle : Nat} {a : TableAccess}
    (h : a ∈ updateConnStatusAccesses connHandle) : a.index = connHandle := by
  simp only [updateConnStatusAccesses, List.mem_append, List.mem_map, List.mem_cons,
    List.not_mem_nil, or_false] at h
  obtain (⟨i, -, rfl⟩ | ⟨i, -, rfl⟩) | rfl | rfl | rfl | rfl := h
  all_goals rfl

/-- A registration indexes past the end of `Central_ID`. -/
theorem centralId_mem_updateConnStatus (connHandle : Nat) :
    ⟨connHandle, .centralId 4⟩ ∈ updateConnStatusAccesses connHandle := by
  refine List.mem_append_left _ (List.mem_append_right _ ?_)
  exact List.mem_map_of_mem (List.mem_range.mpr (by decide))

namespace TableEvent

variable (s : TableState) (e : TableEvent)

/-- The indices of the event stay inside the table if its handle does, where it is used. -/
theorem index_lt_iff :
    (∀ a ∈ e.accesses s, a.index < 6) ↔ (e.UsesHandle → e.handle s < 6) := by
  cases e with
  | packet rxPacket =>
    simp only [accesses, UsesHandle, handle]
    by_cases hl : LinkTerminated rxPacket
    · rw [dispatch_linkTerminated hl]
      constructor
      · intro h _
        exact h ⟨opcode rxPacket, .status⟩ (List.mem_flatMap.mpr
          ⟨.clearStatus (opcode rxPacket), List.mem_cons_self, List.mem_cons_self⟩)
      · intro h a ha
        obtain rfl | ha := accesses_linkTerminated ha
        · exact h hl
        · exact ha.1
    · rw [(no_access_of_not_linkTerminated hl).1]
      exact iff_of_true (List.forall_mem_nil _) fun h => absurd h hl
  | establishLinkRsp buffer => exact iff_of_true (List.forall_mem_nil _) False.elim
  | updateConnStatus masterId1 handleIdMain state =>
    constructor
    · intro h _
      exact h _ (centralId_mem_updateConnStatus s.connHandle.toNat)
    · intro h a ha
      rw [accesses_updateConnStatus ha]
      exact h trivial

/-- The accesses of the event are in bounds if it is inside. -/
theorem accesses_inBounds_iff : (∀ a ∈ e.accesses s, a.InBounds) ↔ e.Inside := by
  cases e with
  | packet rxPacket =>
    have hindex := index_lt_iff s (.packet rxPacket)
    refine Iff.trans ⟨fun h a ha => (h a ha).1, fun h a ha => ⟨h a ha, ?_⟩⟩ hindex
    simp only [accesses] at ha
    by_cases hl : LinkTerminated rxPacket
    · rw [dispatch_linkTerminated hl] at ha
      obtain rfl | ha := accesses_linkTerminated ha
      · trivial
      · exact ha.2
    · rw [(no_access_of_not_linkTerminated hl).1] at ha
      cases ha
  | establishLinkRsp buffer => exact iff_of_true (List.forall_mem_nil _) trivial
  | updateConnStatus masterId1 handleIdMain state =>
    refine iff_of_false (fun h => ?_) id
    have h4 : 4 < 4 := (h _ (centralId_mem_updateConnStatus s.connHandle.toNat)).2
    exact absurd h4 (Nat.lt_irrefl 4)

variable {e}

/-- An event that is inside leaves a state. With a handle outside the table it leaves the entries
too. -/
theorem Inside.apply_eq (h : e.Inside) : ∃ s', e.apply s = some s' ∧
    (6 ≤ e.handle s → s'.connections.connDeviceList = s.connections.connDeviceList) := by
  cases e with
  | packet rxPacket =>
    by_cases hl : LinkTerminated rxPacket
    · have hlt : opcode rxPacket < 6 := h hl
      have htable := apply_terminated s.connections (rxPacket.byte 8) hlt
      simp only [TableOp.apply] at htable
      simp only [apply, dispatch_linkTerminated hl, htable]
      exact ⟨_, rfl, fun hge => absurd hlt (Nat.not_lt.mpr hge)⟩
    · simp only [apply, (no_access_of_not_linkTerminated hl).2]
      exact ⟨_, rfl, fun _ => rfl⟩
  | establishLinkRsp buffer => exact ⟨_, rfl, fun _ => rfl⟩
  | updateConnStatus masterId1 handleIdMain state => exact h.elim

end TableEvent

/-! ## Runs of events -/

/-- A run keeps the contract exactly if every event is inside. -/
theorem runInBounds_iff_inside (s : TableState) (es : List TableEvent) :
    RunInBounds s es ↔ ∀ e ∈ es, e.Inside := by
  have hmeets : RunInBounds s es ↔ table.Meets
      (fun o e => (∀ a ∈ (table.step o e).2, a.InBounds) ∧ LeavesEntries o e) (some s) es := by
    have houtputs := Mealy.forall_outputs_iff (M := table)
      (P := fun as : List TableAccess => ∀ a ∈ as, a.InBounds) (some s) es
    rw [Mealy.meets_and]
    exact ⟨fun h => ⟨houtputs.mp h.accesses, h.entries⟩, fun h => ⟨houtputs.mpr h.1, h.2⟩⟩
  refine hmeets.trans (Mealy.meets_iff_forall (I := fun o => o.isSome) (fun o e ho => ?_)
    (fun o e ho he => ?_) rfl es)
  · obtain ⟨s, rfl⟩ := Option.isSome_iff_exists.mp ho
    refine Iff.trans ⟨And.left, fun h => ⟨h, fun s' hs' hge => ?_⟩⟩ (e.accesses_inBounds_iff s)
    cases hs'
    obtain ⟨s', happly, hsame⟩ := ((e.accesses_inBounds_iff s).mp h).apply_eq s
    exact ⟨s', happly, hsame hge⟩
  · obtain ⟨s, rfl⟩ := Option.isSome_iff_exists.mp ho
    obtain ⟨s', happly, -⟩ := he.apply_eq s
    exact Option.isSome_iff_exists.mpr ⟨s', happly⟩

/-- **The bounds of the table.** In every run, the indices stay inside the table exactly if no Link
Terminated event and no registration has a handle outside, and the whole contract holds exactly if
there is no registration besides. -/
theorem tableInBounds_iff (s : TableState) (es : List TableEvent) :
    ((∀ as ∈ table.outputs (some s) es, ∀ a ∈ as, a.index < 6) ↔
        table.Meets HandleInside (some s) es) ∧
      (RunInBounds s es ↔ ∀ e ∈ es, e.Inside) := by
  refine ⟨(Mealy.forall_outputs_iff _ es).trans (Mealy.meets_congr (fun o e => ?_) (some s) es),
    runInBounds_iff_inside s es⟩
  cases o with
  | none => exact iff_of_true (List.forall_mem_nil _) fun s hs => nomatch hs
  | some s =>
    refine (e.index_lt_iff s).trans ⟨fun h s' hs' => ?_, fun h => h s rfl⟩
    cases hs'
    exact h

/-- A Link Terminated event for a link that never came about, with the handle `0xFFFE`. -/
def unknownLink : List UInt8 := [0x04, 0xFF, 0x06, 0x06, 0x06, 0x00, 0xFE, 0xFF, 0x3E]

theorem not_runInBounds_unknownLink :
    ¬ ∀ (s : TableState) (es : List TableEvent), RunInBounds s es := by
  intro h
  have hinside := (runInBounds_iff_inside ⟨.zero, Vector.replicate 7 0, 0⟩
    [.packet (rxOf unknownLink)]).mp (h _ _) _ List.mem_cons_self
  have hcell : ∀ i, i < 9 → (rxOf unknownLink).byte i = unknownLink.getD i 0 := fun i hi =>
    (starts_rxOf (by decide)).byte_eq hi
  have hopcode : opcode (rxOf unknownLink) = 0xFFFE := by
    rw [opcode, hcell 7 (by omega), hcell 6 (by omega)]
    rfl
  have hterminated : LinkTerminated (rxOf unknownLink) := by
    refine ⟨⟨hcell 0 (by omega), hcell 1 (by omega)⟩, ?_, ?_⟩
    · rw [hopcode]
      decide
    · rw [eventCode, hcell 4 (by omega), hcell 3 (by omega)]
      rfl
  have hlt : opcode (rxOf unknownLink) < 6 := hinside hterminated
  rw [hopcode] at hlt
  exact absurd hlt (by decide)

end Ble
