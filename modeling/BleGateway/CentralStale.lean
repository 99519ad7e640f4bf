import BleGateway.DeadEnds

/-!
# What the handlers read behind the frame

`sys_mq_recv` overwrites as many cells of the global `buffer` as the frame has bytes, and the
handlers of `CentralModeThread` never look at `size`. Where a frame is short, they read what an
earlier one left. And where a handler ends without a `return`, its caller reads something for a
verdict that the frame does not fix at all.

* `ending`: how a handler ends with `buffer`, and what it does to `Scanned_MAC_Buff` and
  `Conn_Handle`. `outcome`: the same with the verdict that the caller reads. `step_outcome`: an
  iteration does just that.
* `FrameOnly`: for a frame the outcome is the same after all histories, whatever stands where no
  value is returned.
* `Decided`: the frame has the bytes that make the handler return, and those that it stores.
* `ending_of_decided`: then the rest of `buffer` does not matter. `decided_of_frameOnly`: a history
  that leaves zeros behind the frame (`blank`) makes every other frame end without a value, but for
  a short link event, whose handle is read behind its end.
-/

namespace Ble

namespace CentralMode

/-! ## Outcomes -/

/-- The cells that `Matches` compares, and what they have to hold. -/
def uuidCells : List (Nat × UInt8) :=
  [(16, 0x02), (17, 0x01), (21, 0x9E), (22, 0xCA), (23, 0xDC), (24, 0x24)]

theorem matches_iff (buffer : CArray UInt8 256) :
    Matches buffer ↔ ∀ c ∈ uuidCells, buffer.byte c.1 = c.2 := by
  simp only [Matches, make16OfXY_eq_iff, uuidCells, List.forall_mem_cons, List.not_mem_nil,
    false_imp_iff, implies_true, and_true, ← UInt8.toNat_inj]
  exact and_assoc.trans (and_congr_right fun _ => and_congr_right fun _ => and_assoc)

/-- The state in which a handler receives. -/
def handlerState : Handler → CentralState
  | .deviceScanRsp => .deviceScanReq
  | .deviceScanData => .deviceScanData
  | .deviceScanCancelRsp => .deviceScanCancelRsp
  | .deviceEstablishLinkRsp => .deviceEstablishLinkRsp

/-- How a handler ends that has received into `buffer`, and `Scanned_MAC_Buff` and `Conn_Handle`
after it. -/
def ending (h : Handler) (buffer : CArray UInt8 256) (mac : CArray UInt8 7) (connHandle : UInt16) :
    Exit × CArray UInt8 7 × UInt16 :=
  match h with
  | .deviceScanRsp => (deviceScanRsp buffer, mac, connHandle)
  | .deviceScanData =>
    ((deviceScanData buffer mac).1, (deviceScanData buffer mac).2, connHandle)
  | .deviceScanCancelRsp => (.returned (deviceScanCancelRsp buffer), mac, connHandle)
  | .deviceEstablishLinkRsp => deviceEstablishLinkRsp buffer mac connHandle

/-- The verdict that the caller reads, and the two globals. -/
def outcome (h : Handler) (noReturn : Option Int) (buffer : CArray UInt8 256)
    (mac : CArray UInt8 7) (connHandle : UInt16) : Int × CArray UInt8 7 × UInt16 :=
  ((ending h buffer mac connHandle).1.read noReturn, (ending h buffer mac connHandle).2)

/-- `Device_Scan_Req` receives in `Device_Scan_Rsp`, which stores to the buffer only. -/
theorem receive_of_deviceScanReq {s : CentralMode} {i : CentralInput} {h : Handler}
    {buffer : CArray UInt8 256} (hr : .receive h buffer ∈ (deviceScanReq s i).2.2) :
    h = .deviceScanRsp ∧ buffer = sysMqRecvBuffer s.buffer i.received ∧
      (deviceScanReq s i).2.1.scannedMacBuff = s.scannedMacBuff ∧
      (deviceScanReq s i).2.1.connHandle = s.connHandle := by
  unfold deviceScanReq at hr ⊢
  by_cases hconn : deviceConnCount i.connDeviceList < 4
  · by_cases hwrite : complete deviceScanReqPac i
    · rw [if_pos hconn, if_pos hwrite] at hr ⊢
      simp only [List.mem_cons, List.not_mem_nil, or_false, reduceCtorEq, false_or,
        CentralEvent.receive.injEq] at hr
      exact ⟨hr.1, hr.2, rfl, rfl⟩
    · rw [if_pos hconn, if_neg hwrite] at hr
      simp only [List.mem_singleton, reduceCtorEq] at hr
  · rw [if_neg hconn] at hr
    cases hr

/-- What an iteration that receives stores. -/
theorem step_outcome {s : CentralMode} {i : CentralInput} {h : Handler}
    {buffer : CArray UInt8 256} (hr : .receive h buffer ∈ (step s i).2) :
    s.bonding = false ∧ s.centralState = handlerState h ∧
      buffer = sysMqRecvBuffer s.buffer i.received ∧
      ((step s i).1.scannedMacBuff, (step s i).1.connHandle) =
        (outcome h i.noReturn buffer s.scannedMacBuff s.connHandle).2 := by
  revert hr
  unfold step
  split
  · simp
  next hb =>
  have hb : s.bonding = false := by simpa using hb
  cases hs : s.centralState with
  | init => simp
  | deviceScanReq =>
    intro hr
    obtain ⟨rfl, hbuffer, hmac, hhandle⟩ := receive_of_deviceScanReq hr
    exact ⟨hb, rfl, hbuffer, Prod.ext hmac hhandle⟩
  | deviceScanData =>
    simp only [List.mem_singleton, CentralEvent.receive.injEq, and_imp]
    rintro rfl rfl
    exact ⟨hb, rfl, rfl, rfl⟩
  | deviceScanCancel => simp
  | deviceScanCancelRsp =>
    simp only [List.mem_singleton, CentralEvent.receive.injEq, and_imp]
    rintro rfl rfl
    exact ⟨hb, rfl, rfl, rfl⟩
  | deviceEstablishLinkReq => simp
  | deviceEstablishLinkRsp =>
    dsimp only
    split
    · simp only [List.mem_cons, List.not_mem_nil, or_false, reduceCtorEq,
        CentralEvent.receive.injEq, and_imp]
      rintro rfl rfl
      exact ⟨hb, rfl, rfl, rfl⟩
    · simp only [List.mem_singleton, CentralEvent.receive.injEq, and_imp]
      rintro rfl rfl
      exact ⟨hb, rfl, rfl, rfl⟩
  | enableNotification => simp

/-! ## The two-history property -/

/-- The globals at program start. -/
def boot : CentralMode := start (Vector.replicate 256 0) (Vector.replicate 7 0) 0

/-- Some history leads to the state `s`, and there the handler may receive. -/
def Reaches (h : Handler) (s : CentralMode) : Prop :=
  (∃ is, machine.after boot is = s) ∧ s.bonding = false ∧ s.centralState = handlerState h

/-- Whatever was received before, and whatever the caller reads where nothing is returned, the
handler makes the same of `r`. `UUID_Match` is its verdict only if the cells it compares are part of
`r`. -/
structure FrameOnly (h : Handler) (r : Received) : Prop where
  same : ∀ s₁ s₂, Reaches h s₁ → Reaches h s₂ → ∀ v₁ v₂ mac connHandle,
    outcome h v₁ (sysMqRecvBuffer s₁.buffer (some r)) mac connHandle =
      outcome h v₂ (sysMqRecvBuffer s₂.buffer (some r)) mac connHandle
  matched : h = .deviceScanData → ∀ s, Reaches h s → ∀ v mac connHandle,
    (outcome h v (sysMqRecvBuffer s.buffer (some r)) mac connHandle).1 = 2 → 25 ≤ r.bytes.length

/-- The frame itself makes the handler return, and has the bytes that this stores. -/
def Decided (h : Handler) (f : List UInt8) : Prop :=
  match h with
  | .deviceScanRsp => False
  | .deviceScanData => EventCodeIs f 0x0D 0x06 ∧ ∀ c ∈ uuidCells, f[c.1]? = some c.2
  | .deviceScanCancelRsp => True
  | .deviceEstablishLinkRsp =>
    ¬ (f[0]? = some 0x04 ∧ f[1]? = some 0xFF) ∨ (EventCodeIs f 0x05 0x06 ∧ 15 ≤ f.length) ∨
      EstablishFailed f ∨ (¬ EventCodeIs f 0x05 0x06 ∧ ¬ EventCodeIs f 0x06 0x06 ∧
        f[6]? = some 0x08 ∧ f[7]? = some 0xFE)

/-! ## Buffers that hold a frame -/

section
variable {p q : CArray UInt8 256} {f : List UInt8}

theorem getElem?_iff (hp : CArray.Starts p f) {i : Nat} (hi : i < f.length) (b : UInt8) :
    f[i]? = some b ↔ p.byte i = b := by
  rw [hp.byte_eq hi, List.getElem?_eq_getElem hi, Option.some_inj, List.getD_eq_getElem?_getD,
    List.getElem?_eq_getElem hi, Option.getD_some]

/-- A byte of the frame stands in the buffer. -/
theorem byte_of_getElem? (hp : CArray.Starts p f) {i : Nat} {b : UInt8} (hb : f[i]? = some b) :
    p.byte i = b := (getElem?_iff hp (List.getElem?_eq_some_iff.mp hb).1 b).mp hb

theorem isEvent_iff (hp : CArray.Starts p f) (h5 : 5 ≤ f.length) {event : Nat} (lo hi : UInt8)
    (he : event = make16OfXY hi lo) : IsEvent p event ↔ EventCodeIs f lo hi := by
  have hcode : make16OfXY (p.byte 4) (p.byte 3) = event ↔ p.byte 3 = lo ∧ p.byte 4 = hi := by
    rw [he, make16OfXY_inj]
    exact and_comm
  rw [IsEvent, hcode, EventCodeIs, getElem?_iff hp (by omega), getElem?_iff hp (by omega),
    getElem?_iff hp (by omega), getElem?_iff hp (by omega), and_assoc]

/-- Two buffers that hold the frame agree on its cells. -/
theorem byte_congr (hp : CArray.Starts p f) (hq : CArray.Starts q f) {i : Nat}
    (hi : i < f.length) : p.byte i = q.byte i := by
  rw [hp.byte_eq hi, hq.byte_eq hi]

theorem isEvent_congr (hp : CArray.Starts p f) (hq : CArray.Starts q f) (h5 : 5 ≤ f.length)
    (event : Nat) : IsEvent p event ↔ IsEvent q event := by
  simp only [IsEvent, byte_congr hp hq (show 0 < f.length by omega),
    byte_congr hp hq (show 1 < f.length by omega), byte_congr hp hq (show 3 < f.length by omega),
    byte_congr hp hq (show 4 < f.length by omega)]

theorem copyMac_congr (hp : CArray.Starts p f) (hq : CArray.Starts q f) {j : Nat}
    (hj : j < f.length) (mac : CArray UInt8 7) : copyMac p j mac = copyMac q j mac := by
  have hcells : (List.range 6).map (fun i => p.byte (j - i)) =
      (List.range 6).map fun i => q.byte (j - i) :=
    List.map_congr_left fun i _ => byte_congr hp hq (by omega)
  simp only [copyMac, hcells]

end

/-! ## Frames that fix the outcome -/

/-- `Device_Establish_Link_Rsp` by the events of the frame. -/
theorem deviceEstablishLinkRsp_eq {p : CArray UInt8 256} {f : List UInt8}
    (hp : CArray.Starts p f) (h6 : 6 ≤ f.length) (h0 : f[0]? = some 0x04)
    (h1 : f[1]? = some 0xFF) (mac : CArray UInt8 7) (connHandle : UInt16) :
    deviceEstablishLinkRsp p mac connHandle =
      if EventCodeIs f 0x05 0x06 then
        (.returned 0, copyMac p 12 mac, UInt16.ofNat (make16OfXY (p.byte 14) (p.byte 13)))
      else if EventCodeIs f 0x06 0x06 then
        if p.byte 8 = 0x3E then (.returned 2, mac, connHandle) else (.noValue (-1), mac, connHandle)
      else if p.byte 6 = 0x08 ∧ p.byte 7 = 0xFE then (.returned 3, mac, connHandle)
      else (.noValue (-1), mac, connHandle) := by
  have hv : p.byte 0 = 0x04 ∧ p.byte 1 = 0xFF :=
    ⟨(getElem?_iff hp (by omega) _).mp h0, (getElem?_iff hp (by omega) _).mp h1⟩
  have hcode : ∀ event lo hi, event = make16OfXY hi lo →
      (make16OfXY (p.byte 4) (p.byte 3) = event ↔ EventCodeIs f lo hi) := fun event lo hi he => by
    rw [← isEvent_iff hp (by omega) lo hi he, IsEvent]
    exact (and_iff_right hv).symm
  have hop : make16OfXY (p.byte 7) (p.byte 6) = 0xFE08 ↔ p.byte 6 = 0x08 ∧ p.byte 7 = 0xFE := by
    rw [make16OfXY_eq_iff_bytes (by decide)]
    exact and_comm
  simp only [deviceEstablishLinkRsp, hv, and_self, if_true, hop,
    hcode vsGapLinkEstablished 0x05 0x06 rfl, hcode 0x0606 0x06 0x06 rfl]

section
variable {p q : CArray UInt8 256} {f : List UInt8}

theorem found_of_decided (hp : CArray.Starts p f) (h6 : 6 ≤ f.length)
    (h : Decided .deviceScanData f) : Found p :=
  ⟨(isEvent_iff hp (by omega) 0x0D 0x06 rfl).mpr h.1,
    (matches_iff p).mpr fun c hc => byte_of_getElem? hp (h.2 c hc)⟩

theorem length_of_decided (h : Decided .deviceScanData f) : 25 ≤ f.length :=
  (List.getElem?_eq_some_iff.mp (h.2 (24, 0x24) (by decide))).1

theorem deviceScanCancelRsp_congr (hp : CArray.Starts p f) (hq : CArray.Starts q f)
    (h6 : 6 ≤ f.length) : deviceScanCancelRsp p = deviceScanCancelRsp q := by
  simp only [deviceScanCancelRsp, isEvent_congr hp hq (show 5 ≤ f.length by omega),
    byte_congr hp hq (show 5 < f.length by omega)]

/-- The frame decides the answer to the link request: the handler returns, and two buffers that hold
the frame are treated alike. -/
theorem deviceEstablishLinkRsp_of_decided (hp : CArray.Starts p f) (hq : CArray.Starts q f)
    (h6 : 6 ≤ f.length) (h : Decided .deviceEstablishLinkRsp f) (mac : CArray UInt8 7)
    (connHandle : UInt16) :
    (deviceEstablishLinkRsp p mac connHandle).1.Definite ∧
      deviceEstablishLinkRsp p mac connHandle = deviceEstablishLinkRsp q mac connHandle := by
  by_cases hv : f[0]? = some 0x04 ∧ f[1]? = some 0xFF
  · rw [deviceEstablishLinkRsp_eq hp h6 hv.1 hv.2, deviceEstablishLinkRsp_eq hq h6 hv.1 hv.2]
    obtain ⟨he, h15⟩ | ⟨ht, h8⟩ | ⟨he, ht, hop6, hop7⟩ := h.resolve_left fun h => h hv
    · rw [if_pos he, if_pos he, copyMac_congr hp hq (by omega),
        byte_congr hp hq (show 13 < f.length by omega),
        byte_congr hp hq (show 14 < f.length by omega)]
      exact ⟨Exit.definite_returned 0, rfl⟩
    · -- It is not a link event as well.
      have he : ¬ EventCodeIs f 0x05 0x06 := fun he =>
        absurd (he.2.2.1.symm.trans ht.2.2.1) (by decide)
      rw [if_neg he, if_neg he, if_pos ht, if_pos ht, if_pos (byte_of_getElem? hp h8),
        if_pos (byte_of_getElem? hq h8)]
      exact ⟨Exit.definite_returned 2, rfl⟩
    · rw [if_neg he, if_neg he, if_neg ht, if_neg ht,
        if_pos ⟨byte_of_getElem? hp hop6, byte_of_getElem? hp hop7⟩,
        if_pos ⟨byte_of_getElem? hq hop6, byte_of_getElem? hq hop7⟩]
      exact ⟨Exit.definite_returned 3, rfl⟩
  · have hno : ∀ r : CArray UInt8 256, CArray.Starts r f →
        ¬ (r.byte 0 = 0x04 ∧ r.byte 1 = 0xFF) := fun r hr hop =>
      hv ⟨(getElem?_iff hr (by omega) _).mpr hop.1, (getElem?_iff hr (by omega) _).mpr hop.2⟩
    rw [deviceEstablishLinkRsp, if_neg (hno p hp), deviceEstablishLinkRsp, if_neg (hno q hq)]
    exact ⟨Exit.definite_returned 5, rfl⟩

/-- The handler returns, and two buffers that hold the frame are treated alike. -/
theorem ending_of_decided {h : Handler} (hp : CArray.Starts p f) (hq : CArray.Starts q f)
    (h6 : 6 ≤ f.length) (hd : Decided h f) (mac : CArray UInt8 7) (connHandle : UInt16) :
    (ending h p mac connHandle).1.Definite ∧
      ending h p mac connHandle = ending h q mac connHandle := by
  cases h with
  | deviceScanRsp => cases hd
  | deviceScanData =>
    have h25 := length_of_decided hd
    simp only [ending, deviceScanData_found (found_of_decided hp h6 hd),
      deviceScanData_found (found_of_decided hq h6 hd), copyMac_congr hp hq (show 13 < _ by omega)]
    exact ⟨Exit.definite_returned 2, trivial⟩
  | deviceScanCancelRsp =>
    simp only [ending, deviceScanCancelRsp_congr hp hq h6]
    exact ⟨Exit.definite_returned _, trivial⟩
  | deviceEstablishLinkRsp => exact deviceEstablishLinkRsp_of_decided hp hq h6 hd mac connHandle

end

/-! ## Other frames -/

/-- What a handler looks for behind a frame, under a byte 0 that makes it no event. -/
def leftover : Handler → List UInt8
  | .deviceScanData => List.replicate 16 0x00 ++
      [0x02, 0x01, 0x00, 0x00, 0x00, 0x9E, 0xCA, 0xDC, 0x24]
  | _ => List.replicate 15 0xFF

/-- A run that leaves `bytes` in `buffer` and waits for the next frame of the handler. -/
def history (h : Handler) (bytes : List UInt8) : List CentralInput :=
  match h with
  | .deviceScanRsp => [inputOf 0 [], inputOf 7 bytes, inputOf 0 []]
  | .deviceScanData => endedScan.take 2 ++ [inputOf 0 bytes]
  | .deviceScanCancelRsp => endedScan ++ [inputOf 0 bytes]
  | .deviceEstablishLinkRsp =>
    endedScan ++ [inputOf 0 [0x04, 0xFF, 0x04, 0x01, 0x06, 0x30, 0x00], inputOf 13 [],
      inputOf 0 bytes]

/-- After nothing but zeros, and after what the handler looks for. -/
def blank (h : Handler) : CentralMode := machine.after boot (history h (List.replicate 25 0x00))

def loaded (h : Handler) : CentralMode := machine.after boot (history h (leftover h))

theorem reaches_blank (h : Handler) : Reaches h (blank h) :=
  ⟨⟨_, rfl⟩, by cases h <;> decide, by cases h <;> decide⟩

theorem reaches_loaded (h : Handler) : Reaches h (loaded h) :=
  ⟨⟨_, rfl⟩, by cases h <;> decide, by cases h <;> decide⟩

theorem starts_received (buffer : CArray UInt8 256) (r : Received) :
    CArray.Starts (sysMqRecvBuffer buffer (some r)) r.bytes := CArray.starts_memcpy _ _ r.fits

section
variable {r : Received}

/-- The cells behind a frame are those of the history. -/
theorem byte_stale {buffer : CArray UInt8 256} {i : Nat} {b : UInt8} (hi : r.bytes.length ≤ i)
    (hn : i < 256) (hb : buffer.byte i = b) : (sysMqRecvBuffer buffer (some r)).byte i = b := by
  rw [← hb, CArray.byte_eq_getElem _ hn, CArray.byte_eq_getElem _ hn, sysMqRecvBuffer,
    CArray.getElem_memcpy_ge _ _ _ hi hn]

/-- So what is not zero is a byte of the frame, if the history left zero there. -/
theorem getElem?_of_ne_zero {buffer : CArray UInt8 256} {i : Nat} {b : UInt8} (hn : i < 256)
    (hzero : buffer.byte i = 0x00) (hb : (sysMqRecvBuffer buffer (some r)).byte i = b)
    (hne : b ≠ 0x00) : r.bytes[i]? = some b := by
  by_cases hi : i < r.bytes.length
  · exact (getElem?_iff (starts_received buffer r) hi b).mpr hb
  · exact absurd (hb.symm.trans (byte_stale (by omega) hn hzero)) hne

/-- Behind zeros `Device_Scan_Data` returns for a frame with all the cells that it compares. -/
theorem decided_of_found (h6 : 6 ≤ r.bytes.length)
    (hf : Found (sysMqRecvBuffer (blank .deviceScanData).buffer (some r))) :
    Decided .deviceScanData r.bytes := by
  refine ⟨(isEvent_iff (starts_received _ r) (by omega) 0x0D 0x06 rfl).mp hf.1, fun c hc => ?_⟩
  have hcell := (matches_iff _).mp hf.2 c hc
  have hzero : ∀ c ∈ uuidCells, (blank .deviceScanData).buffer.byte c.1 = 0x00 := by decide
  have hne : ∀ c ∈ uuidCells, c.1 < 256 ∧ c.2 ≠ 0x00 := by decide
  exact getElem?_of_ne_zero (hne c hc).1 (hzero c hc) hcell (hne c hc).2

/-- The two histories tell the handle of a link event that ends before it. -/
theorem length_of_same (h6 : 6 ≤ r.bytes.length) (he : EventCodeIs r.bytes 0x05 0x06)
    (hs : FrameOnly .deviceEstablishLinkRsp r) : 15 ≤ r.bytes.length := by
  refine Nat.le_of_not_lt fun hlt => ?_
  have h14p : (sysMqRecvBuffer (blank .deviceEstablishLinkRsp).buffer (some r)).byte 14 = 0x00 :=
    byte_stale (by omega) (by decide) (by decide)
  have h14q : (sysMqRecvBuffer (loaded .deviceEstablishLinkRsp).buffer (some r)).byte 14 = 0xFF :=
    byte_stale (by omega) (by decide) (by decide)
  have h := hs.same _ _ (reaches_blank _) (reaches_loaded _) none none (Vector.replicate 7 0) 0
  simp only [outcome, ending, deviceEstablishLinkRsp_eq (starts_received _ r) h6 he.1 he.2.1,
    if_pos he, h14p, h14q] at h
  -- The handles differ in their high byte.
  have hhandle := congrArg UInt16.toNat (congrArg (fun o => o.2.2) h)
  simp only [make16OfXY_eq, UInt16.toNat_ofNat', UInt8.toNat_ofNat] at hhandle
  have h13p := ((sysMqRecvBuffer (blank .deviceEstablishLinkRsp).buffer (some r)).byte 13).toNat_lt
  have h13q := ((sysMqRecvBuffer (loaded .deviceEstablishLinkRsp).buffer (some r)).byte 13).toNat_lt
  omega

/-- Behind zeros `Device_Establish_Link_Rsp` returns for a frame that decides it, and for a link
event. -/
theorem decided_of_definite_link (h6 : 6 ≤ r.bytes.length)
    (hd : (deviceEstablishLinkRsp (sysMqRecvBuffer (blank .deviceEstablishLinkRsp).buffer (some r))
      (Vector.replicate 7 0) 0).1.Definite) (hs : FrameOnly .deviceEstablishLinkRsp r) :
    Decided .deviceEstablishLinkRsp r.bytes := by
  by_cases hv : r.bytes[0]? = some 0x04 ∧ r.bytes[1]? = some 0xFF
  · right
    rw [deviceEstablishLinkRsp_eq (starts_received _ r) h6 hv.1 hv.2] at hd
    split at hd
    · next he => exact .inl ⟨he, length_of_same h6 he hs⟩
    next he =>
    split at hd
    · next ht =>
      split at hd
      · next h8 =>
        exact .inr (.inl ⟨ht, getElem?_of_ne_zero (by decide) (by decide) h8 (by decide)⟩)
      · exact absurd hd (Exit.not_definite_noValue _)
    next ht =>
    split at hd
    · next hop =>
      exact .inr (.inr ⟨he, ht, getElem?_of_ne_zero (by decide) (by decide) hop.1 (by decide),
        getElem?_of_ne_zero (by decide) (by decide) hop.2 (by decide)⟩)
    · exact absurd hd (Exit.not_definite_noValue _)
  · exact .inl hv

/-- A frame that is treated alike after all histories fixes the outcome. -/
theorem decided_of_frameOnly {h : Handler} (h6 : 6 ≤ r.bytes.length) (hs : FrameOnly h r) :
    Decided h r.bytes := by
  have hd : (ending h (sysMqRecvBuffer (blank h).buffer (some r))
      (Vector.replicate 7 0) 0).1.Definite :=
    (Exit.definite_iff _).mpr fun v₁ v₂ => congrArg Prod.fst
      (hs.same _ _ (reaches_blank h) (reaches_blank h) v₁ v₂ _ _)
  cases h with
  | deviceScanRsp => exact not_definite_deviceScanRsp _ hd
  | deviceScanData => exact decided_of_found h6 ((definite_deviceScanData_iff _ _).mp hd)
  | deviceScanCancelRsp => trivial
  | deviceEstablishLinkRsp => exact decided_of_definite_link h6 hd hs

theorem frameOnly_of_decided {h : Handler} (h6 : 6 ≤ r.bytes.length) (hd : Decided h r.bytes) :
    FrameOnly h r where
  same := by
    intro s₁ s₂ _ _ v₁ v₂ mac connHandle
    obtain ⟨⟨v, hv⟩, heq⟩ := ending_of_decided (starts_received s₁.buffer r)
      (starts_received s₂.buffer r) h6 hd mac connHandle
    simp only [outcome, ← heq, hv, Exit.read_returned]
  matched := by
    rintro rfl s _ v mac connHandle _
    exact length_of_decided hd

end

/-- **Only the frame.** What a handler makes of a frame of six bytes or more is the same after all
histories, and a match lies in the frame, exactly if the frame has the bytes that make the handler
return and those that it stores. -/
theorem frameOnly_iff (h : Handler) (r : Received) (h6 : 6 ≤ r.bytes.length) :
    FrameOnly h r ↔ Decided h r.bytes :=
  ⟨decided_of_frameOnly h6, frameOnly_of_decided h6⟩

/-- The advertisement of the device that is looked for, in full. -/
theorem frameOnly_advertisement : FrameOnly .deviceScanData ⟨[0x04, 0xFF, 0x16, 0x0D, 0x06, 0x00,
    0x00, 0x00, 0xA1, 0xA2, 0xA3, 0xA4, 0xA5, 0xA6, 0xC0, 0x0A, 0x02, 0x01, 0x06, 0x05, 0x02, 0x9E,
    0xCA, 0xDC, 0x24], by decide⟩ :=
  (frameOnly_iff _ _ (by decide)).mpr ⟨by decide, by decide⟩

/-- An advertisement of seven bytes. -/
def shortAdvertisement : Received := ⟨[0x04, 0xFF, 0x04, 0x0D, 0x06, 0x00, 0x00], by decide⟩

/-- It matches if an earlier frame had the bytes. -/
theorem not_frameOnly_short : ¬ ∀ (h : Handler) (r : Received), 6 ≤ r.bytes.length →
    r.bytes.length ≤ 100 → FrameOnly h r := by
  intro h
  have hverdict : (outcome .deviceScanData none (sysMqRecvBuffer (loaded .deviceScanData).buffer
      (some shortAdvertisement)) (Vector.replicate 7 0) 0).1 = 2 := by decide
  have h25 := (h .deviceScanData shortAdvertisement (by decide) (by decide)).matched rfl _
    (reaches_loaded _) none _ _ hverdict
  exact absurd h25 (by decide)

end CentralMode

end Ble
