import BleGateway.Lib.Blocks
import BleGateway.SocksUrl

/-!
# Memory of the proxy URL (`mosquitto_client/client_shared.c`, lines 824–971)

`mosquitto__parse_socks_url` allocates a block for each piece that it cuts out of the URL. The
pieces themselves are in `SocksUrl.lean`; here are the pointers to them, which follow these.

* `parseSocksUrlMem`: the function, with `goto cleanup`. It fails if it frees what it must not.
* `parseSocksUrlMem_error`: with a URL that is refused, everything that was allocated is freed.
  `parseSocksUrlMem_ok`: else what is left are the blocks that `cfg` gets.
-/

namespace Ble.Mosquitto

/-- The heap and the pointers of `mosquitto__parse_socks_url`. -/
structure PiecePtrs where
  heap : Heap
  username : Ptr := .null
  password : Ptr := .null
  host : Ptr := .null
  usernameOrHost : Ptr := .null
  port : Ptr := .null

/-- One turn of the loop, for a character that is no failure. -/
def onCharMem (c : Char) (p : Pieces) (q : PiecePtrs) : PiecePtrs :=
  if c = ':' then
    if p.haveAuth then { q with host := .block q.heap.next, heap := q.heap.malloc }
    else if p.usernameOrHost.isNone then
      { q with usernameOrHost := .block q.heap.next, heap := q.heap.malloc }
    else q
  else if c = '@' then
    if p.usernameOrHost.isSome then
      { q with
        username := q.usernameOrHost
        usernameOrHost := .null
        password := .block q.heap.next
        heap := q.heap.malloc }
    else { q with username := .block q.heap.next, heap := q.heap.malloc }
  else q

/-- The loop, up to its end or the failure. -/
def scanMem (str : List Char) (i : Nat) : List Char → Pieces → PiecePtrs → PiecePtrs
  | [], _, q => q
  | c :: cs, p, q =>
    match onChar str i c p with
    | none => q
    | some p' => scanMem str (i + 1) cs p' (onCharMem c p q)

/-- What is left behind the last separator. -/
def remainderMem (str : List Char) (p : Pieces) (q : PiecePtrs) : PiecePtrs :=
  if str.length > p.start then
    if p.host.isSome then { q with port := .block q.heap.next, heap := q.heap.malloc }
    else if p.usernameOrHost.isSome then
      { q with
        host := q.usernameOrHost
        usernameOrHost := .null
        port := .block q.heap.next
        heap := q.heap.malloc }
    else { q with host := .block q.heap.next, heap := q.heap.malloc }
  else q

/-- Behind the label `cleanup`. -/
def PiecePtrs.cleanup (q : PiecePtrs) : Option Heap :=
  q.heap.freeAll [q.usernameOrHost, q.username, q.password, q.host, q.port]

/-- The pointers that are stored in `cfg`. -/
structure SocksPtrs where
  username : Ptr
  password : Ptr
  host : Ptr

/-- `mosquitto__parse_socks_url`: nothing is stored if it returns 1. -/
def parseSocksUrlMem (url : List Char) (heap : Heap) : Option (Option SocksPtrs × Heap) :=
  if url.take scheme.length = scheme then
    let str := url.drop scheme.length
    let q := scanMem str 0 str {} { heap }
    match scan str 0 str {} with
    | none => q.cleanup.map (none, ·)
    | some p =>
      let q := remainderMem str p q
      match parseSocksUrl url with
      | .error _ => q.cleanup.map (none, ·)
      | .ok _ => (q.heap.free q.port).map (some ⟨q.username, q.password, q.host⟩, ·)
  else some (none, heap)

/-! ## The pointers and the pieces -/

/-- Which pieces there can be, and that a pointer is null exactly if its piece is not there. -/
structure Matches (p : Pieces) (q : PiecePtrs) : Prop where
  noAuth : p.haveAuth = false → p.username = none ∧ p.password = none ∧ p.host = none
  auth : p.haveAuth → p.usernameOrHost = none
  username : q.username = .null ↔ p.username = none
  password : q.password = .null ↔ p.password = none
  host : q.host = .null ↔ p.host = none
  usernameOrHost : q.usernameOrHost = .null ↔ p.usernameOrHost = none
  port : q.port = .null

/-- The pointers of the function. -/
def PiecePtrs.ptrs (q : PiecePtrs) : List Ptr :=
  [q.usernameOrHost, q.username, q.password, q.host, q.port]

section

variable {str : List Char} {i : Nat} {c : Char} {p p' : Pieces} {q : PiecePtrs} {ps : List Ptr}
  {lost : List Nat}

/-- A character keeps the match, and every block stays in a variable. -/
theorem onCharMem_spec (hm : Matches p q) (hh : Holds q.heap (q.ptrs ++ ps) lost)
    (hc : onChar str i c p = some p') :
    Matches p' (onCharMem c p q) ∧
      Holds (onCharMem c p q).heap ((onCharMem c p q).ptrs ++ ps) lost := by
  have hdyn : .literal ∉ q.ptrs := fun hl => hh.dynamic (List.mem_append_left ps hl)
  simp only [PiecePtrs.ptrs, List.mem_cons, List.not_mem_nil, or_false, not_or] at hdyn
  obtain ⟨hduh, hdu, hdp, hdh, hdport⟩ := hdyn
  unfold onChar at hc
  unfold onCharMem
  split at hc
  · next hcolon =>
    rw [if_pos hcolon]
    obtain ⟨-, hc⟩ := Option.ite_none_left_eq_some.mp hc
    split at hc
    · next hauth =>
      -- the host behind user name and password
      obtain ⟨hhost, hc⟩ := Option.ite_none_left_eq_some.mp hc
      cases hc
      have hnone := hm.host.mpr (Option.not_isSome_iff_eq_none.mp hhost)
      rw [if_pos hauth]
      refine ⟨{ hm with noAuth := by simp [hauth], host := by simp }, hh.assign (fun n => ?_) ?_⟩
      · simp only [PiecePtrs.ptrs, held_cons, hnone, blocks_null, List.count_append,
          List.count_nil]
        omega
      · simp [PiecePtrs.ptrs, hduh, hdu, hdp, hdport]
    · next hauth =>
      have hauth := Bool.eq_false_iff.mpr hauth
      rw [hauth, if_neg Bool.false_ne_true]
      split at hc
      · next hnone =>
        cases hc
        have hnull := hm.usernameOrHost.mpr (Option.isNone_iff_eq_none.mp hnone)
        rw [if_pos hnone]
        refine ⟨{ hm with auth := by simp [hauth], usernameOrHost := by simp },
          hh.assign (fun n => ?_) ?_⟩
        · simp only [PiecePtrs.ptrs, held_cons, hnull, blocks_null, List.count_append,
          List.count_nil]
          omega
        · simp [PiecePtrs.ptrs, hdu, hdp, hdh, hdport]
      · next hnone =>
        cases hc
        rw [if_neg hnone]
        exact ⟨hm, hh⟩
  next hcolon =>
  rw [if_neg hcolon]
  split at hc
  · next hat =>
    rw [if_pos hat]
    obtain ⟨-, hc⟩ := Option.ite_none_left_eq_some.mp hc
    split at hc
    · next hsome =>
      -- user name and password, which were null: no at sign was there before
      cases hc
      have hauth : p.haveAuth = false := Bool.eq_false_iff.mpr fun h => by
        rw [hm.auth h] at hsome
        cases hsome
      obtain ⟨huser, hpass, hhost⟩ := hm.noAuth hauth
      have hunull := hm.username.mpr huser
      have hpnull := hm.password.mpr hpass
      rw [if_pos hsome]
      refine ⟨{ hm with
        noAuth := nofun
        auth := fun _ => rfl
        username := hm.usernameOrHost
        password := by simp
        usernameOrHost := by simp }, hh.assign (fun n => ?_) ?_⟩
      · simp only [PiecePtrs.ptrs, held_cons, hunull, hpnull, blocks_null, List.count_append,
          List.count_nil]
        omega
      · simp [PiecePtrs.ptrs, hduh, hdh, hdport]
    · next hsome =>
      obtain ⟨huser, hc⟩ := Option.ite_none_left_eq_some.mp hc
      cases hc
      have hnull := hm.username.mpr (Option.not_isSome_iff_eq_none.mp huser)
      rw [if_neg hsome]
      refine ⟨{ hm with
        noAuth := nofun
        auth := fun _ => Option.not_isSome_iff_eq_none.mp hsome
        username := by simp }, hh.assign (fun n => ?_) ?_⟩
      · simp only [PiecePtrs.ptrs, held_cons, hnull, blocks_null, List.count_append,
          List.count_nil]
        omega
      · simp [PiecePtrs.ptrs, hduh, hdp, hdh, hdport]
  · next hat =>
    cases hc
    rw [if_neg hat]
    exact ⟨hm, hh⟩

/-- So does the loop, also up to a failure. -/
theorem scanMem_spec (str : List Char) (i : Nat) (cs : List Char) (hm : Matches p q)
    (hh : Holds q.heap (q.ptrs ++ ps) lost) :
    Holds (scanMem str i cs p q).heap ((scanMem str i cs p q).ptrs ++ ps) lost ∧
      (scanMem str i cs p q).port = .null ∧
      ∀ p', scan str i cs p = some p' → Matches p' (scanMem str i cs p q) := by
  induction cs generalizing i p q with
  | nil => exact ⟨hh, hm.port, fun p' hp => by cases hp; exact hm⟩
  | cons c cs ih =>
    rw [scanMem, scan]
    cases hc : onChar str i c p with
    | none => exact ⟨hh, hm.port, fun p' hp => by cases hp⟩
    | some p₁ =>
      obtain ⟨hm₁, hh₁⟩ := onCharMem_spec hm hh hc
      exact ih (i + 1) hm₁ hh₁

/-- Behind the remainder every block is in a variable; with a host there is no other name left. -/
theorem remainderMem_spec (str : List Char) (hm : Matches p q)
    (hh : Holds q.heap (q.ptrs ++ ps) lost) :
    Holds (remainderMem str p q).heap ((remainderMem str p q).ptrs ++ ps) lost ∧
      ((remainder str p).1.isSome →
        (remainderMem str p q).usernameOrHost = .null ∧ (remainderMem str p q).host ≠ .null) := by
  have hdyn : .literal ∉ q.ptrs := fun hl => hh.dynamic (List.mem_append_left ps hl)
  simp only [PiecePtrs.ptrs, List.mem_cons, List.not_mem_nil, or_false, not_or] at hdyn
  obtain ⟨hduh, hdu, hdp, hdh, hdport⟩ := hdyn
  have hother (hhost : p.host.isSome) : q.usernameOrHost = .null ∧ q.host ≠ .null := by
    have hauth : p.haveAuth := by
      cases hauth : p.haveAuth with
      | true => rfl
      | false =>
        rw [(hm.noAuth hauth).2.2] at hhost
        cases hhost
    refine ⟨hm.usernameOrHost.mpr (hm.auth hauth), fun hnull => ?_⟩
    rw [hm.host.mp hnull] at hhost
    cases hhost
  unfold remainderMem remainder
  split
  · split
    · next hhost =>
      refine ⟨hh.assign (fun n => ?_) ?_, fun _ => hother hhost⟩
      · simp only [PiecePtrs.ptrs, held_cons, hm.port, blocks_null, List.count_append,
          List.count_nil]
        omega
      · simp [PiecePtrs.ptrs, hduh, hdu, hdp, hdh]
    · next hhost =>
      have hhnull := hm.host.mpr (Option.not_isSome_iff_eq_none.mp hhost)
      split
      · next hname =>
        have hne : q.usernameOrHost ≠ .null := fun hnull => by
          rw [hm.usernameOrHost.mp hnull] at hname
          cases hname
        refine ⟨hh.assign (fun n => ?_) ?_, fun _ => ⟨rfl, hne⟩⟩
        · simp only [PiecePtrs.ptrs, held_cons, hm.port, hhnull, blocks_null, List.count_append,
          List.count_nil]
          omega
        · simp [PiecePtrs.ptrs, hduh, hdu, hdp]
      · next hname =>
        have hnull := hm.usernameOrHost.mpr (Option.not_isSome_iff_eq_none.mp hname)
        refine ⟨hh.assign (fun n => ?_) ?_, fun _ => ⟨hnull, nofun⟩⟩
        · simp only [PiecePtrs.ptrs, held_cons, hhnull, blocks_null, List.count_append,
          List.count_nil]
          omega
        · simp [PiecePtrs.ptrs, hduh, hdu, hdp, hdport]
  · exact ⟨hh, hother⟩

/-- `goto cleanup` frees every piece once. -/
theorem cleanup_spec (hh : Holds q.heap (q.ptrs ++ ps) lost) :
    ∃ h', q.cleanup = some h' ∧ Holds h' ps lost := hh.freeAll

end

/-! ## The whole function -/

section

variable {url : List Char} {h : Heap} {ps : List Ptr} {lost : List Nat}

/-- In front of the loop. -/
theorem matches_start (h : Heap) : Matches {} { heap := h } where
  noAuth _ := ⟨rfl, rfl, rfl⟩
  auth := nofun
  username := iff_of_true rfl rfl
  password := iff_of_true rfl rfl
  host := iff_of_true rfl rfl
  usernameOrHost := iff_of_true rfl rfl
  port := rfl

theorem holds_start (hh : Holds h ps lost) :
    Holds h (({ heap := h } : PiecePtrs).ptrs ++ ps) lost :=
  hh.congr (fun n => by simp [PiecePtrs.ptrs]) (by simpa [PiecePtrs.ptrs] using hh.dynamic)

/-- **A URL that is refused** leaves nothing behind. -/
theorem parseSocksUrlMem_error (hh : Holds h ps lost) {e : SocksError}
    (he : parseSocksUrl url = .error e) :
    ∃ h', parseSocksUrlMem url h = some (none, h') ∧ Holds h' ps lost := by
  unfold parseSocksUrlMem
  split
  · obtain ⟨hheld, hport, hmatch⟩ :=
      scanMem_spec (url.drop scheme.length) 0 (url.drop scheme.length) (matches_start h)
        (holds_start hh)
    simp only [he]
    split
    · obtain ⟨h', hclean, hh'⟩ := cleanup_spec hheld
      exact ⟨h', by rw [hclean, Option.map_some], hh'⟩
    · next p hp =>
      obtain ⟨hheld', -⟩ := remainderMem_spec (url.drop scheme.length) (hmatch p hp) hheld
      obtain ⟨h', hclean, hh'⟩ := cleanup_spec hheld'
      exact ⟨h', by rw [hclean, Option.map_some], hh'⟩
  · exact ⟨h, rfl, hh⟩

/-- A URL that is accepted has a host. -/
theorem remainder_of_parse {s : Socks5} (hs : parseSocksUrl url = .ok s) :
    url.take scheme.length = scheme ∧
      ∃ p, scan (url.drop scheme.length) 0 (url.drop scheme.length) {} = some p ∧
        (remainder (url.drop scheme.length) p).1.isSome := by
  unfold parseSocksUrl at hs
  split at hs
  · next hscheme =>
    refine ⟨hscheme, ?_⟩
    simp only at hs
    split at hs
    · cases hs
    · next p hp =>
      refine ⟨p, hp, ?_⟩
      split at hs
      · cases hs
      · next hrem => rw [hrem]; rfl
  · cases hs

/-- **A URL that is accepted** leaves the blocks that `cfg` gets. -/
theorem parseSocksUrlMem_ok (hh : Holds h ps lost) {s : Socks5} (hs : parseSocksUrl url = .ok s) :
    ∃ q h', parseSocksUrlMem url h = some (some q, h') ∧ q.host ≠ .null ∧
      Holds h' (q.username :: q.password :: q.host :: ps) lost := by
  obtain ⟨hscheme, p, hp, hhost⟩ := remainder_of_parse hs
  obtain ⟨hheld, -, hmatch⟩ :=
    scanMem_spec (url.drop scheme.length) 0 (url.drop scheme.length) (matches_start h)
      (holds_start hh)
  obtain ⟨hheld', hend⟩ := remainderMem_spec (url.drop scheme.length) (hmatch p hp) hheld
  obtain ⟨hnull, hne⟩ := hend hhost
  unfold parseSocksUrlMem
  rw [if_pos hscheme]
  simp only [hp, hs]
  generalize remainderMem (url.drop scheme.length) p
    (scanMem (url.drop scheme.length) 0 (url.drop scheme.length) {} { heap := h }) = q at *
  have hport : Holds q.heap (q.port :: (q.username :: q.password :: q.host :: ps)) lost := by
    refine hheld'.congr (fun n => ?_) ?_
    · simp only [PiecePtrs.ptrs, held_append, held_cons, hnull, blocks_null, List.count_append,
        held_nil, List.count_nil]
      omega
    · have hdyn := hheld'.dynamic
      simp only [PiecePtrs.ptrs, List.mem_append, List.mem_cons, List.not_mem_nil, or_false,
        not_or] at hdyn ⊢
      exact ⟨hdyn.1.2.2.2.2, hdyn.1.2.1, hdyn.1.2.2.1, hdyn.1.2.2.2.1, hdyn.2⟩
  obtain ⟨h', hfree, hh'⟩ := hport.free
  exact ⟨⟨q.username, q.password, q.host⟩, h', by rw [hfree, Option.map_some], hne, hh'⟩

end

end Ble.Mosquitto
