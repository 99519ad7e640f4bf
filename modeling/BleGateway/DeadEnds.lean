import BleGateway.Bonding

/-!
# Where the thread waits for ever

Two states of `CentralModeThread` wait for an event of the controller. The switch leaves them for
one answer only: `STATE_CENTRAL_DEVICE_SCAN_CANCEL_RSP` for the status `30`, and
`STATE_CENTRAL_DEVICE_ESTABLISH_LINK_RSP` for a link. Nothing reads the verdicts 2 and 3 of
`Device_Establish_Link_Rsp`.

* `DiscoveryDone`, `AttemptFailed`: the events that end a wait, as frames. `verdict`: what
  `Device_Establish_Link_Rsp` returns for them.
* `Proceeds`: such an event gets the thread on. After a failed attempt that is a state from which
  some run writes a request (`CanRequest`).
* `Waits`: in it and after it no request is written, whatever comes (`waits_requests`).
* `proceeds_iff`: the runs in which the thread always gets on.
-/

namespace Ble

/-! ## Frames -/

/-- The frame `04 FF len lo hi …`. -/
def EventCodeIs (f : List UInt8) (lo hi : UInt8) : Prop :=
  f[0]? = some 0x04 ∧ f[1]? = some 0xFF ∧ f[3]? = some lo ∧ f[4]? = some hi

instance (f : List UInt8) (lo hi : UInt8) : Decidable (EventCodeIs f lo hi) :=
  inferInstanceAs (Decidable (_ ∧ _))

/-- The GAP Device Discovery Done event with this status. -/
def DiscoveryDone (f : List UInt8) (status : UInt8) : Prop :=
  EventCodeIs f 0x01 0x06 ∧ f[5]? = some status

instance (f : List UInt8) (status : UInt8) : Decidable (DiscoveryDone f status) :=
  inferInstanceAs (Decidable (_ ∧ _))

/-- The link was terminated with the reason `3E`. -/
def EstablishFailed (f : List UInt8) : Prop := EventCodeIs f 0x06 0x06 ∧ f[8]? = some 0x3E

/-- The status of the command `VS_GAP_END_DISCOVERABLE`. -/
def EndDiscoverable (f : List UInt8) : Prop :=
  EventCodeIs f 0x7F 0x06 ∧ f[6]? = some 0x08 ∧ f[7]? = some 0xFE

/-- The events that end an attempt in failure. -/
def AttemptFailed (f : List UInt8) : Prop := EstablishFailed f ∨ EndDiscoverable f

theorem byte_memcpy {buffer : CArray UInt8 256} {f : List UInt8} {h : f.length ≤ 256} {i : Nat}
    {b : UInt8} (hb : f[i]? = some b) : (CArray.memcpy buffer f h).byte i = b := by
  obtain ⟨hi, hb⟩ := List.getElem?_eq_some_iff.mp hb
  rw [(CArray.starts_memcpy buffer f h).byte_eq hi, List.getD_eq_getElem?_getD,
    List.getElem?_eq_getElem hi, hb, Option.getD_some]

theorem EventCodeIs.isEvent {f : List UInt8} {lo hi : UInt8} (hf : EventCodeIs f lo hi)
    (buffer : CArray UInt8 256) (h : f.length ≤ 256) :
    IsEvent (CArray.memcpy buffer f h) (make16OfXY hi lo) := by
  obtain ⟨h0, h1, h3, h4⟩ := hf
  exact ⟨⟨byte_memcpy h0, byte_memcpy h1⟩, by rw [byte_memcpy h3, byte_memcpy h4]⟩

/-- `Device_Scan_Cancel_Rsp` accepts one status. -/
theorem DiscoveryDone.cancelled_iff {f : List UInt8} {status : UInt8} (hf : DiscoveryDone f status)
    (buffer : CArray UInt8 256) (h : f.length ≤ 256) :
    CentralMode.Cancelled (CArray.memcpy buffer f h) ↔ status = 0x30 := by
  have he : IsEvent (CArray.memcpy buffer f h) vsGapDeviceDiscovery := hf.1.isEvent buffer h
  rw [CentralMode.Cancelled, byte_memcpy hf.2]
  exact and_iff_right he

/-- `Device_Establish_Link_Rsp` returns 2 for the first kind of failure. -/
theorem EstablishFailed.verdict {f : List UInt8} (hf : EstablishFailed f)
    (buffer : CArray UInt8 256) (h : f.length ≤ 256) (mac : CArray UInt8 7) (connHandle : UInt16) :
    deviceEstablishLinkRsp (CArray.memcpy buffer f h) mac connHandle =
      (.returned 2, mac, connHandle) := by
  obtain ⟨⟨h0, h1⟩, hcode⟩ := hf.1.isEvent buffer h
  unfold deviceEstablishLinkRsp
  rw [hcode, byte_memcpy hf.2, h0, h1]
  rfl

/-- And 3 for the second. -/
theorem EndDiscoverable.verdict {f : List UInt8} (hf : EndDiscoverable f)
    (buffer : CArray UInt8 256) (h : f.length ≤ 256) (mac : CArray UInt8 7) (connHandle : UInt16) :
    deviceEstablishLinkRsp (CArray.memcpy buffer f h) mac connHandle =
      (.returned 3, mac, connHandle) := by
  obtain ⟨⟨h0, h1⟩, hcode⟩ := hf.1.isEvent buffer h
  unfold deviceEstablishLinkRsp
  rw [hcode, byte_memcpy hf.2.1, byte_memcpy hf.2.2, h0, h1]
  rfl

/-! ## Getting on -/

namespace CentralMode

/-- The command of a new scan or of a new attempt. -/
def IsRequest (e : CentralEvent) : Prop :=
  ∃ pac complete, e = .write pac complete ∧ (pac = deviceScanReqPac ∨ IsLinkRequest pac)

/-- Some run from here writes a request. -/
def CanRequest (s : CentralMode) : Prop := ∃ is, ∃ e ∈ trace s is, IsRequest e

/-- If the event for which the thread waits comes, the thread gets on. -/
structure Proceeds (s : CentralMode) (i : CentralInput) : Prop where
  cancelRsp : s.bonding = false → s.centralState = .deviceScanCancelRsp →
    ∀ r, i.received = some r → ∀ status, DiscoveryDone r.bytes status →
      (step s i).1.centralState ≠ .deviceScanCancelRsp
  linkRsp : s.bonding = false → s.centralState = .deviceEstablishLinkRsp →
    ∀ r, i.received = some r → AttemptFailed r.bytes → CanRequest (step s i).1

/-- The scan ends by the cancel only, and no attempt ends in failure. -/
structure NoDeadEnd (s : CentralMode) (i : CentralInput) : Prop where
  cancelRsp : s.bonding = false → s.centralState = .deviceScanCancelRsp →
    ∀ r, i.received = some r → ∀ status, DiscoveryDone r.bytes status → status = 0x30
  linkRsp : s.bonding = false → s.centralState = .deviceEstablishLinkRsp →
    ∀ r, i.received = some r → ¬ AttemptFailed r.bytes

/-! ## After a request -/

/-- The thread waits for its link or has bonded. -/
def Waits (s : CentralMode) : Prop :=
  s.bonding = true ∨ s.centralState = .deviceEstablishLinkRsp

/-- One iteration: it goes on waiting, and writes nothing. -/
theorem step_waits {s : CentralMode} (h : Waits s) (i : CentralInput) :
    Waits (step s i).1 ∧ ∀ e ∈ (step s i).2, ¬ IsRequest e := by
  have hm := step_moves s i
  generalize (step s i).1 = s', (step s i).2 = es at hm
  have hlink : s.bonding = false → s.centralState = .deviceEstablishLinkRsp := fun hb =>
    h.resolve_left (by simp [hb])
  cases hm with
  | halted hb => exact ⟨h, by simp⟩
  | scan hb hs => rcases hs with hs | hs | hs <;> cases hs.symm.trans (hlink hb)
  | found buffer hb hs => rcases hs with hs | hs | hs <;> cases hs.symm.trans (hlink hb)
  | stray buffer hb hs => rcases hs with hs | hs | hs <;> cases hs.symm.trans (hlink hb)
  | cancel hb hs => rcases hs with hs | hs <;> cases hs.symm.trans (hlink hb)
  | cancelled buffer hb hs => rcases hs with hs | hs <;> cases hs.symm.trans (hlink hb)
  | request ok hb hs => cases hs.symm.trans (hlink hb)
  | wait buffer hb hs => exact ⟨.inr hs, by simp [IsRequest]⟩
  | established buffer connHandle hb hs he => exact ⟨.inl rfl, by simp [IsRequest]⟩
  | strayLink buffer hb hs => exact ⟨.inl rfl, by simp [IsRequest]⟩
  | notify pac ok hb hs => cases hs.symm.trans (hlink hb)

/-- Every run from there. -/
theorem waits_requests {s : CentralMode} (h : Waits s) : ¬ CanRequest s := by
  rintro ⟨is, e, he, hreq⟩
  obtain ⟨es, hes, hmem⟩ := List.mem_flatten.mp he
  have hno : ∀ es ∈ machine.outputs s is, ∀ e ∈ es, ¬ IsRequest e :=
    Mealy.outputs_induct (I := Waits) (fun _ i h => step_waits h i) h is
  exact hno es hes e hmem hreq

/-- The iteration that waits for the end of the scan. -/
theorem step_cancelRsp {s : CentralMode} (hb : s.bonding = false)
    (hs : s.centralState = .deviceScanCancelRsp) (i : CentralInput) :
    (step s i).1.centralState ≠ .deviceScanCancelRsp ↔
      Cancelled (sysMqRecvBuffer s.buffer i.received) := by
  simp only [step, hb, hs, Bool.false_eq_true, if_false, ← deviceScanCancelRsp_eq_zero_iff]
  split
  · next h => exact iff_of_true (by decide) h
  · next h => exact iff_of_false (fun hne => hne rfl) h

/-- A step gets on exactly if its frame is none of those that the switch forgets. -/
theorem step_proceeds (s : CentralMode) (i : CentralInput) : Proceeds s i ↔ NoDeadEnd s i := by
  have hcancel : s.bonding = false → s.centralState = .deviceScanCancelRsp →
      ∀ r, i.received = some r → ∀ status, DiscoveryDone r.bytes status →
        ((step s i).1.centralState ≠ .deviceScanCancelRsp ↔ status = 0x30) := by
    intro hb hs r hr status hd
    rw [step_cancelRsp hb hs, hr]
    exact hd.cancelled_iff s.buffer r.fits
  constructor
  · rintro ⟨h₁, h₂⟩
    refine ⟨fun hb hs r hr status hd => ?_, fun hb hs r hr hf => ?_⟩
    · exact (hcancel hb hs r hr status hd).mp (h₁ hb hs r hr status hd)
    · exact waits_requests (step_waits (.inr hs) i).1 (h₂ hb hs r hr hf)
  · rintro ⟨h₁, h₂⟩
    refine ⟨fun hb hs r hr status hd => ?_, fun hb hs r hr hf => absurd hf (h₂ hb hs r hr)⟩
    exact (hcancel hb hs r hr status hd).mpr (h₁ hb hs r hr status hd)

/-- **Dead ends.** In a run of the thread every event that ends a wait gets the thread on, exactly
if every Discovery Done event that it finds while it waits for the end of the scan has the status
`30`, and no attempt fails. -/
theorem proceeds_iff (buffer : CArray UInt8 256) (mac : CArray UInt8 7) (connHandle : UInt16)
    (is : List CentralInput) :
    machine.Meets Proceeds (start buffer mac connHandle) is ↔
      machine.Meets NoDeadEnd (start buffer mac connHandle) is :=
  Mealy.meets_congr step_proceeds _ is

/-- The scan finds a device and ends on its own while its cancel is being written. -/
def endedScan : List CentralInput :=
  [inputOf 0 [], inputOf 7 [0x04, 0xFF, 0x06, 0x7F, 0x06, 0x00, 0x04, 0xFE, 0x00],
    inputOf 0 [0x04, 0xFF, 0x16, 0x0D, 0x06, 0x00, 0x00, 0x00, 0xA1, 0xA2, 0xA3, 0xA4, 0xA5, 0xA6,
      0xC0, 0x0A, 0x02, 0x01, 0x06, 0x05, 0x02, 0x9E, 0xCA, 0xDC, 0x24],
    inputOf 4 []]

/-- Then the thread stays where it waits for the answer to the cancel. -/
theorem not_proceeds_endedScan : ¬ ∀ (buffer : CArray UInt8 256) (mac : CArray UInt8 7)
    (connHandle : UInt16) (is : List CentralInput) (i : CentralInput),
    Proceeds (machine.after (start buffer mac connHandle) is) i := by
  intro h
  let s := machine.after (start (Vector.replicate 256 0) (Vector.replicate 7 0) 0) endedScan
  let done : CentralInput := inputOf 0 [0x04, 0xFF, 0x04, 0x01, 0x06, 0x00, 0x00]
  have hb : s.bonding = false := by decide
  have hs : s.centralState = .deviceScanCancelRsp := by decide
  have hnext : (step s done).1.centralState = .deviceScanCancelRsp := by decide
  exact (h _ _ _ endedScan done).cancelRsp hb hs _ rfl 0x00 (by decide) hnext

end CentralMode

end Ble
