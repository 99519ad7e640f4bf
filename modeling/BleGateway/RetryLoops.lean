import BleGateway.Lib.Budget
import BleGateway.FailedReceives

/-!
# The retry loops (`src/UartCmdRxThread.c`, lines 387–425, 432–468 and 487–527)

The three copies of the retry loop on an infinite sequence of results of the receive from
`WRITE_RSP_ID`.

* `retryLoop`: the forwarder inside such a loop, turn by turn. `StopsAfter` says how often it calls
  `Notify_data`, which is also the number of results that it takes.
* `retryLoop_spec`: a copy is a loop with the budget `RETRY_COUNT` (`Lib/Budget.lean`). To the cloud
  copy `0x16` means nothing, to the other two it is a strike.
* `retryLoops_agree_iff`: so the copies agree as long as no fourth `0x16` comes in time.
* `retryLoop_stops`: where the other two stop.
-/

namespace Ble

open Budget

/-- `sys_mq_recv(WRITE_RSP_ID, buffer_Rx, &size_Rx)`: nothing if it fails, else what `buffer_Rx`
then holds. -/
abbrev RspResult := Option (CArray UInt8 100)

/-- The status byte `buffer_Rx[5]`. -/
def RspResult.status (a : RspResult) : Option UInt8 := Option.map (fun b => b.byte 5) a

namespace Forward

/-- In front of a retry loop for the connection `idz`. -/
def enter (f : Forward) (copy : Retry) (idz : Nat) : Forward :=
  { f with pc := .notify copy idz 0 }

/-- Behind the receive of a retry loop. -/
def onResult (f : Forward) : RspResult → Forward
  | none => f.onNoRsp
  | some bufferRx => f.onRsp bufferRx

/-- The thread is at the `Notify_data` of the loop. -/
def Retrying (f : Forward) (copy : Retry) (idz : Nat) : Prop := ∃ r, f.pc = .notify copy idz r

end Forward

/-- The turns of a retry loop: what is written, and then the receive. Behind the loop there are
none. -/
def retryLoop (w : Connections) : Mealy Forward RspResult (List (Fill UInt8)) where
  step f a :=
    match f.next w with
    | .write pac f' => (f'.onResult a, [pac])
    | _ => (f, [])

/-- The loop, entered for `idz`, calls `Notify_data` `n` times, takes the first `n` results, and is
then left. -/
structure StopsAfter (f : Forward) (w : Connections) (copy : Retry) (idz : Nat)
    (a : Nat → RspResult) (n : Nat) : Prop where
  writes : (retryLoop w).outputs (f.enter copy idz) (firsts a n) =
    List.replicate n [notifyData f.buffer f.size.toNat idz]
  retries : ∀ m < n, ((retryLoop w).after (f.enter copy idz) (firsts a m)).Retrying copy idz
  leaves : ((retryLoop w).after (f.enter copy idz) (firsts a n)).pc = (f.afterRetry copy idz).pc

/-- What a result means to a copy of the loop. -/
def mark (copy : Retry) : Option UInt8 → Mark
  | none => .idle
  | some status =>
    if status = 0x00 then .stop
    else if status = 0x16 then (if copy = .inLoop .cloud then .idle else .strike)
    else if status = 0x14 then .stop
    else if status = 0x04 then .reset
    else .idle

/-- What the results mean to it. -/
def marks (copy : Retry) (a : Nat → RspResult) (n : Nat) : Mark := mark copy (a n).status

/-! ## The loops have a budget -/

/-- One status moves `retry_needed` as it moves the counter of a budget. -/
theorem toNat_retryStep (copy : Retry) {r : UInt8} (hr : r < retryCount) (status : UInt8) :
    (retryStep copy r status).toNat = Budget.next 4 r.toNat (mark copy (some status)) := by
  have hlt : r.toNat < 4 := hr
  have hsucc : (r + 1).toNat = r.toNat + 1 := by
    rw [UInt8.toNat_add]
    exact Nat.mod_eq_of_lt (by simp only [UInt8.toNat_one]; omega)
  by_cases h00 : status = 0x00
  · simp only [retryStep, mark, h00, if_true]
    rfl
  by_cases h16 : status = 0x16
  · by_cases hcloud : copy = .inLoop .cloud
    · simp only [retryStep, mark, h16, hcloud, if_true, next]
      rfl
    · simp only [retryStep, mark, h16, hcloud, if_true, if_false, next]
      exact hsucc
  by_cases h14 : status = 0x14
  · simp only [retryStep, mark, h14, if_true]
    rfl
  by_cases h04 : status = 0x04
  · simp only [retryStep, mark, h04, if_true]
    rfl
  · simp only [retryStep, mark, h00, h16, h14, h04, if_false, next]

namespace Forward

/-- The test at the end of a retry loop. -/
def endOfTurn (f : Forward) (copy : Retry) (idz : Nat) (r : UInt8) : Forward :=
  if r < retryCount then { f with pc := .notify copy idz r } else f.afterRetry copy idz

theorem endOfTurn_of_lt {f : Forward} {copy : Retry} {idz : Nat} {r : UInt8}
    (h : r < retryCount) : f.endOfTurn copy idz r = { f with pc := .notify copy idz r } := if_pos h

/-- A turn: the command, the result, and the test with the counter that the result gives. -/
theorem retryLoop_step (f : Forward) (w : Connections) (copy : Retry) (idz : Nat) {r : UInt8}
    (hr : r < retryCount) (a : RspResult) : ∃ bufferRx r',
      (retryLoop w).step { f with pc := .notify copy idz r } a =
        ({ f with bufferRx }.endOfTurn copy idz r', [notifyData f.buffer f.size.toNat idz]) ∧
      r'.toNat = Budget.next 4 r.toNat (mark copy a.status) := by
  cases a with
  | none => exact ⟨f.bufferRx, r, rfl, rfl⟩
  | some bufferRx => exact ⟨bufferRx, _, rfl, toNat_retryStep copy hr (bufferRx.byte 5)⟩

/-- **The loops have a budget.** While the counter is below `RETRY_COUNT`, every turn writes the
same command and takes one result. -/
theorem retryLoop_spec (f : Forward) (w : Connections) (copy : Retry) (idz : Nat)
    (a : Nat → RspResult) {n : Nat}
    (h : ∀ m < n, Budget.counter 4 (marks copy a) m < 4) : ∃ bufferRx r,
      (retryLoop w).after (f.enter copy idz) (firsts a n) =
        { f with bufferRx }.endOfTurn copy idz r ∧
      (retryLoop w).outputs (f.enter copy idz) (firsts a n) =
        List.replicate n [notifyData f.buffer f.size.toNat idz] ∧
      r.toNat = Budget.counter 4 (marks copy a) n := by
  induction n with
  | zero => exact ⟨f.bufferRx, 0, rfl, rfl, rfl⟩
  | succ n ih =>
    obtain ⟨bufferRx, r, hafter, houtputs, hr⟩ := ih fun m hm => h m (Nat.lt_succ_of_lt hm)
    have hlt : r < retryCount := by
      have := h n (Nat.lt_succ_self n)
      rw [← hr] at this
      exact this
    rw [endOfTurn_of_lt hlt] at hafter
    obtain ⟨bufferRx', r', hstep, hr'⟩ :=
      retryLoop_step { f with bufferRx } w copy idz hlt (a n)
    refine ⟨bufferRx', r', ?_, ?_, by rw [counter_succ, ← hr]; exact hr'⟩
    · rw [firsts_succ, Mealy.after_append, hafter, Mealy.after_cons, hstep]
      rfl
    · rw [firsts_succ, Mealy.outputs_append, houtputs, hafter, Mealy.outputs_cons, hstep,
        List.replicate_succ']
      rfl

theorem retrying_endOfTurn_iff {f : Forward} {copy : Retry} {idz : Nat} {r : UInt8} :
    (f.endOfTurn copy idz r).Retrying copy idz ↔ r < retryCount := by
  unfold endOfTurn
  split
  · next h => exact ⟨fun _ => h, fun _ => ⟨r, rfl⟩⟩
  · next h =>
    refine ⟨fun hr => ?_, fun hlt => absurd hlt h⟩
    obtain ⟨r', hr'⟩ := hr
    cases copy with
    | inLoop l => cases hr'
    | ping => cases hr'

end Forward

open Forward

/-- A copy stops when its budget does. -/
theorem stopsAfter_iff_budget (f : Forward) (w : Connections) (copy : Retry) (idz : Nat)
    (a : Nat → RspResult) (n : Nat) :
    StopsAfter f w copy idz a n ↔ Budget.StopsAfter 4 (marks copy a) n := by
  constructor
  · rintro ⟨-, hretries, hleaves⟩
    -- The counter is below 4 as long as the loop goes on.
    have hlt : ∀ m ≤ n, ∀ j < m, Budget.counter 4 (marks copy a) j < 4 := by
      intro m hm
      induction m with
      | zero => exact fun j hj => absurd hj (Nat.not_lt_zero j)
      | succ m ih =>
        intro j hj
        have hbefore := ih (by omega)
        obtain rfl | hj := Nat.eq_or_lt_of_le (Nat.le_of_lt_succ hj)
        · obtain ⟨bufferRx, r, hafter, -, hr⟩ := retryLoop_spec f w copy idz a hbefore
          have := hretries j (by omega)
          rw [hafter, retrying_endOfTurn_iff] at this
          rw [← hr]
          exact this
        · exact hbefore j hj
    refine ⟨hlt n (Nat.le_refl n), ?_⟩
    obtain ⟨bufferRx, r, hafter, -, hr⟩ := retryLoop_spec f w copy idz a (hlt n (Nat.le_refl n))
    have hnot : ¬ r < retryCount := by
      intro h
      rw [hafter, endOfTurn_of_lt h] at hleaves
      cases copy with
      | inLoop l => cases hleaves
      | ping => cases hleaves
    rw [← hr]
    exact Nat.le_of_not_lt hnot
  · rintro ⟨hlt, hge⟩
    obtain ⟨bufferRx, r, hafter, houtputs, hr⟩ := retryLoop_spec f w copy idz a hlt
    have hnot : ¬ r < retryCount := by
      rw [← hr] at hge
      exact Nat.not_lt.mpr hge
    refine ⟨houtputs, fun m hm => ?_, ?_⟩
    · obtain ⟨bufferRx, r, hafter, -, hr⟩ :=
        retryLoop_spec f w copy idz a fun j hj => hlt j (Nat.lt_trans hj hm)
      rw [hafter, retrying_endOfTurn_iff]
      have := hlt m hm
      rw [← hr] at this
      exact this
    · rw [hafter, endOfTurn, if_neg hnot]
      cases copy with
      | inLoop l => rfl
      | ping => rfl

/-! ## Where the copies stop -/

/-- The status bytes of the results. -/
def statuses (a : Nat → RspResult) (n : Nat) : Option UInt8 := (a n).status

/-- The answers `0x16` since the start or the last `0x04`. -/
def busySince (l : List (Option UInt8)) : Nat :=
  (l.reverse.takeWhile (· ≠ some 0x04)).count (some 0x16)

/-- The answer reports a success, or that the connection is gone. -/
def Settles (a : Nat → RspResult) (n : Nat) : Prop :=
  statuses a n = some 0x00 ∨ statuses a n = some 0x14

/-- The answer is `0x16`, the fourth one since the start or the last `0x04`. -/
def FourthBusy (a : Nat → RspResult) (n : Nat) : Prop :=
  statuses a n = some 0x16 ∧ busySince (firsts (statuses a) (n + 1)) = 4

/-- No further try follows this answer. -/
def LastTry (a : Nat → RspResult) (n : Nat) : Prop := Settles a n ∨ FourthBusy a n

theorem mark_eq_stop_iff (copy : Retry) (o : Option UInt8) :
    mark copy o = .stop ↔ o = some 0x00 ∨ o = some 0x14 := by
  cases o with
  | none => simp [mark]
  | some status => grind [mark]

theorem mark_eq_strike_iff (copy : Retry) (o : Option UInt8) :
    mark copy o = .strike ↔ copy ≠ .inLoop .cloud ∧ o = some 0x16 := by
  cases o with
  | none => simp [mark]
  | some status => grind [mark]

theorem mark_eq_reset_iff (copy : Retry) (o : Option UInt8) :
    mark copy o = .reset ↔ o = some 0x04 := by
  cases o with
  | none => simp [mark]
  | some status => grind [mark]

theorem mark_ne_idle {copy : Retry} (hcopy : copy ≠ .inLoop .cloud) {o : Option UInt8}
    (h : o ∈ [some 0x00, some 0x04, some 0x14, some 0x16]) : mark copy o ≠ .idle := by
  cases o with
  | none => simp at h
  | some status => grind [mark]

/-- The strikes of a counting copy are the answers `0x16`. -/
theorem strikes_marks {copy : Retry} (hcopy : copy ≠ .inLoop .cloud) (a : Nat → RspResult)
    (n : Nat) : strikes (firsts (marks copy a) n) = busySince (firsts (statuses a) n) := by
  have hmap : firsts (marks copy a) n = (firsts (statuses a) n).map (mark copy) :=
    firsts_map (mark copy) (statuses a) n
  rw [hmap, strikes, busySince, ← List.map_reverse]
  induction (firsts (statuses a) n).reverse with
  | nil => rfl
  | cons o l ih =>
    by_cases hreset : o = some 0x04
    · simp [mark_eq_reset_iff, hreset]
    · have hmark : mark copy o ≠ .reset := fun h => hreset ((mark_eq_reset_iff copy o).mp h)
      have hstrike := mark_eq_strike_iff copy o
      simp only [hcopy, ne_eq, not_false_eq_true, true_and] at hstrike
      simp only [List.map_cons, List.takeWhile_cons, ne_eq, hmark, hreset, not_false_eq_true,
        decide_true, if_true, List.count_cons, beq_iff_eq, hstrike, ih]

theorem count_reset_marks (copy : Retry) (a : Nat → RspResult) (n : Nat) :
    (firsts (marks copy a) n).count .reset = (firsts (statuses a) n).count (some 0x04) := by
  have hmap : firsts (marks copy a) n = (firsts (statuses a) n).map (mark copy) :=
    firsts_map (mark copy) (statuses a) n
  rw [hmap, List.count, List.countP_map, List.count]
  refine List.countP_congr fun o _ => ?_
  simpa using mark_eq_reset_iff copy o

theorem ends_marks_iff (copy : Retry) (a : Nat → RspResult) (n : Nat) :
    Ends 4 (marks copy a) n ↔ Settles a n ∨ copy ≠ .inLoop .cloud ∧ FourthBusy a n := by
  refine or_congr (mark_eq_stop_iff copy _) ?_
  by_cases hcopy : copy = .inLoop .cloud
  · have hno : marks copy a n ≠ .strike := fun h => ((mark_eq_strike_iff copy _).mp h).1 hcopy
    exact ⟨fun h => absurd h.1 hno, fun h => absurd hcopy h.1⟩
  · rw [strikes_marks hcopy]
    exact (and_congr_left fun _ => mark_eq_strike_iff copy _).trans and_assoc

/-- The cloud copy stops at the first answer that settles the matter. -/
theorem stopsAfter_cloud_iff (f : Forward) (w : Connections) (idz : Nat) (a : Nat → RspResult)
    (n : Nat) : StopsAfter f w (.inLoop .cloud) idz a n ↔
      ∃ k, n = k + 1 ∧ Settles a k ∧ ∀ j < k, ¬ Settles a j := by
  rw [stopsAfter_iff_budget, Budget.stopsAfter_iff (by decide)]
  simp only [ends_marks_iff, ne_eq, not_true_eq_false, false_and, or_false]

/-- The other two stop at the last try. -/
theorem stopsAfter_counting_iff {copy : Retry} (hcopy : copy ≠ .inLoop .cloud) (f : Forward)
    (w : Connections) (idz : Nat) (a : Nat → RspResult) (n : Nat) :
    StopsAfter f w copy idz a n ↔ ∃ k, n = k + 1 ∧ LastTry a k ∧ ∀ j < k, ¬ LastTry a j := by
  rw [stopsAfter_iff_budget, Budget.stopsAfter_iff (by decide)]
  simp only [ends_marks_iff, ne_eq, hcopy, not_false_eq_true, true_and, LastTry]

/-- A loop without a last try goes on. -/
theorem retrying_of_no_lastTry (copy : Retry) (f : Forward)
    (w : Connections) (idz : Nat) {a : Nat → RspResult} (h : ∀ k, ¬ LastTry a k) (n : Nat) :
    ((retryLoop w).after (f.enter copy idz) (firsts a n)).Retrying copy idz := by
  have hends : ∀ j, ¬ Ends 4 (marks copy a) j := by
    intro j
    rw [ends_marks_iff]
    exact fun hend => h j (hend.imp id And.right)
  have hrun := Budget.running (N := 4) (n := n) (by decide) fun j _ => hends j
  obtain ⟨bufferRx, r, hafter, -, hr⟩ :=
    retryLoop_spec f w copy idz a fun m hm => (hrun m (Nat.le_of_lt hm)).1
  rw [hafter, retrying_endOfTurn_iff]
  have hlt := (hrun n (Nat.le_refl n)).1
  rw [← hr] at hlt
  exact hlt

/-! ## Agreement -/

/-- The three copies, each entered for its recipient, take the same number of turns or go on for
ever. -/
def CopiesAgree (f : Retry → Forward) (w : Connections) (idz : Retry → Nat)
    (a : Nat → RspResult) : Prop :=
  ∀ copy copy' n,
    StopsAfter (f copy) w copy (idz copy) a n ↔ StopsAfter (f copy') w copy' (idz copy') a n

/-- If every fourth `0x16` comes too late, only a settling answer is a last try. -/
theorem lastTry_first_iff {a : Nat → RspResult}
    (h : ∀ n, FourthBusy a n → ∃ m < n, Settles a m) (k : Nat) :
    (LastTry a k ∧ ∀ j < k, ¬ LastTry a j) ↔ (Settles a k ∧ ∀ j < k, ¬ Settles a j) := by
  constructor
  · rintro ⟨hk, hfirst⟩
    have hsettles : ∀ j < k, ¬ Settles a j := fun j hj hs => hfirst j hj (.inl hs)
    refine ⟨?_, hsettles⟩
    obtain hs | hbusy := hk
    · exact hs
    · obtain ⟨m, hm, hs⟩ := h k hbusy
      exact absurd hs (hsettles m hm)
  · rintro ⟨hs, hfirst⟩
    refine ⟨.inl hs, fun j hj hlast => ?_⟩
    obtain hs' | hbusy := hlast
    · exact hfirst j hj hs'
    · obtain ⟨m, hm, hs'⟩ := h j hbusy
      exact hfirst m (Nat.lt_trans hm hj) hs'

/-- **Agreement.** The three copies agree on a sequence of results exactly if every fourth `0x16`
since the start or the last `0x04` has a `0x00` or a `0x14` before it. -/
theorem retryLoops_agree_iff (f : Retry → Forward) (w : Connections) (idz : Retry → Nat)
    (a : Nat → RspResult) :
    CopiesAgree f w idz a ↔ ∀ n, FourthBusy a n → ∃ m < n, Settles a m := by
  constructor
  · intro hagree n hbusy
    refine Classical.byContradiction fun hno => ?_
    -- The ping copy stops at some last try, at `n` if not before.
    have hex : ∃ k, k ≤ n ∧ LastTry a k := ⟨n, Nat.le_refl n, .inr hbusy⟩
    classical
    obtain ⟨hle, hlast⟩ := Nat.find_spec hex
    have hfirst : ∀ j < Nat.find hex, ¬ LastTry a j := fun j hj hl =>
      Nat.find_min hex hj ⟨Nat.le_of_lt (Nat.lt_of_lt_of_le hj hle), hl⟩
    have hcopy : Retry.ping ≠ .inLoop .cloud := by decide
    have hping := (stopsAfter_counting_iff hcopy (f .ping) w (idz .ping) a
      (Nat.find hex + 1)).mpr ⟨_, rfl, hlast, hfirst⟩
    -- The cloud copy stops there only if the answer settles the matter.
    obtain ⟨k, hk, hsettles, -⟩ :=
      (stopsAfter_cloud_iff _ w _ a _).mp ((hagree .ping (.inLoop .cloud) _).mp hping)
    cases hk
    obtain heq | hlt := Nat.eq_or_lt_of_le hle
    · rw [heq] at hsettles
      obtain h | h := hsettles
      · exact absurd (h.symm.trans hbusy.1) (by decide)
      · exact absurd (h.symm.trans hbusy.1) (by decide)
    · exact hno ⟨_, hlt, hsettles⟩
  · intro h
    have hcloud : ∀ copy n, StopsAfter (f copy) w copy (idz copy) a n ↔
        ∃ k, n = k + 1 ∧ Settles a k ∧ ∀ j < k, ¬ Settles a j := by
      intro copy n
      by_cases hcopy : copy = .inLoop .cloud
      · subst hcopy
        exact stopsAfter_cloud_iff _ w _ a n
      · rw [stopsAfter_counting_iff hcopy]
        exact exists_congr fun k => and_congr_right fun _ => lastTry_first_iff h k
    exact fun copy copy' n => (hcloud copy n).trans (hcloud copy' n).symm

/-- A controller that always answers `0x16`. -/
def alwaysBusy (_ : Nat) : RspResult := some (Vector.replicate 100 0x16)

theorem not_retryLoops_agree_alwaysBusy : ¬ ∀ (f : Retry → Forward) (w : Connections)
    (idz : Retry → Nat) (a : Nat → RspResult), CopiesAgree f w idz a := by
  intro h
  have hagree := h (fun _ => .start) .zero (fun _ => 0) alwaysBusy
  -- The ping copy stops behind the fourth answer, the cloud copy never.
  have hping : StopsAfter .start .zero .ping 0 alwaysBusy 4 :=
    (stopsAfter_iff_budget ..).mpr ⟨by decide, by decide⟩
  obtain ⟨k, -, hsettles, -⟩ :=
    (stopsAfter_cloud_iff ..).mp ((hagree .ping (.inLoop .cloud) 4).mp hping)
  have hbusy : statuses alwaysBusy k = some 0x16 := rfl
  obtain hs | hs := hsettles
  · exact absurd (hbusy.symm.trans hs) (by decide)
  · exact absurd (hbusy.symm.trans hs) (by decide)

/-! ## The counting copies -/

/-- **The stopping point.** The ping copy and the peer copy stop at the first last try, and never
without one. If every status up to there is `0x00`, `0x04`, `0x14` or `0x16`, they call
`Notify_data` at most four times for each `0x04` and four times more. -/
theorem retryLoop_stops {copy : Retry} (hcopy : copy ≠ .inLoop .cloud) (f : Forward)
    (w : Connections) (idz : Nat) (a : Nat → RspResult) :
    (∀ n, StopsAfter f w copy idz a n ↔ ∃ k, n = k + 1 ∧ LastTry a k ∧ ∀ j < k, ¬ LastTry a j) ∧
    ((∀ k, ¬ LastTry a k) → ∀ m,
      ((retryLoop w).after (f.enter copy idz) (firsts a m)).Retrying copy idz) ∧
    ∀ n, StopsAfter f w copy idz a n →
      (∀ m < n, statuses a m ∈ [some 0x00, some 0x04, some 0x14, some 0x16]) →
        n ≤ 4 * ((firsts (statuses a) n).count (some 0x04) + 1) := by
  refine ⟨stopsAfter_counting_iff hcopy f w idz a, retrying_of_no_lastTry copy f w idz,
    fun n hstops hknown => ?_⟩
  have hbudget := (stopsAfter_iff_budget f w copy idz a n).mp hstops
  rw [← count_reset_marks copy]
  exact hbudget.le fun m hm => mark_ne_idle hcopy (hknown m hm)

/-- A controller that answers `0x16`, but `0x04` to the third try. -/
def resetOnce (n : Nat) : RspResult := some (Vector.replicate 100 (if n = 2 then 0x04 else 0x16))

theorem lastTry_resetOnce : LastTry resetOnce 6 ∧ ∀ j < 6, ¬ LastTry resetOnce j := by
  unfold LastTry Settles FourthBusy
  decide

/-- The ping copy then stops behind the seventh answer, the fourth `0x16` in a row. -/
theorem retryLoop_stops_resetOnce : StopsAfter .start .zero .ping 0 resetOnce 7 ∧
    7 ≤ 4 * ((firsts (statuses resetOnce) 7).count (some 0x04) + 1) := by
  have hping : Retry.ping ≠ .inLoop .cloud := by decide
  obtain ⟨hstops, -, hle⟩ := retryLoop_stops hping .start .zero 0 resetOnce
  have h7 := (hstops 7).mpr ⟨6, rfl, lastTry_resetOnce⟩
  exact ⟨h7, hle 7 h7 (by decide)⟩

end Ble
