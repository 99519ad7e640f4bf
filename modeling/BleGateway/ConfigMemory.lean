import BleGateway.ClientLoad
import BleGateway.SocksMemory
import Mathlib.Data.List.Nodup

/-!
# Memory of the configuration (`mosquitto_client/client_shared.c`, lines 48–654)

`client_config_line_proc` keeps copies of its words (`strdup`), and `client_config_cleanup` frees
them. `main` calls it if `client_config_load` fails. The configuration itself is in
`ClientConfig.lean`; here are its pointers, which follow it.

* `lineProcMem`, `loadMem`: the functions on the heap. They fail if they free what they must not.
* `accepted`: the options of the words up to the first one that is refused.
* `MemOk`: the configuration holds every block once that has not been overwritten.
  `lineProcMem_spec`: the words keep this.
* `cleanup_iff`: whatever the file and the words, the cleanup frees nothing twice, and nothing that
  was not allocated, exactly if loading failed or a host was given: the default host is a literal.
* `leak_iff`: behind a failure it frees everything exactly if no option with a copy was given twice.
-/

namespace Ble.Mosquitto

/-! ## The pointers -/

/-- The fields of `mosq_config` that hold one string. -/
inductive Field where
  | id | idPrefix | host | fileInput | message | topic | bindAddress | username | password
  | willTopic | willPayload | cafile | capath | certfile | keyfile | ciphers | tlsVersion | psk
  | pskIdentity | socks5Host | socks5Username | socks5Password
  deriving DecidableEq, Repr

def Field.all : List Field :=
  [.id, .idPrefix, .host, .fileInput, .message, .topic, .bindAddress, .username, .password,
    .willTopic, .willPayload, .cafile, .capath, .certfile, .keyfile, .ciphers, .tlsVersion, .psk,
    .pskIdentity, .socks5Host, .socks5Username, .socks5Password]

/-- `topics` or `filter_outs`: an array of strings. -/
structure PtrArray where
  elems : List Ptr := []
  array : Ptr := .null

/-- The heap, and the pointers of `mosq_config`. -/
structure ConfigMem where
  heap : Heap := {}
  ptr : Field → Ptr := fun _ => .null
  topics : PtrArray := {}
  filterOuts : PtrArray := {}

/-- The field that a use of an option fills with a copy of its value. A proxy fills three. -/
def Opt.field (c : Client) : Opt → Option Field
  | .bindAddress => some .bindAddress
  | .cafile => some .cafile
  | .capath => some .capath
  | .cert => some .certfile
  | .ciphers => some .ciphers
  | .file => some .fileInput
  | .host => some .host
  | .id => some .id
  | .idPrefix => some .idPrefix
  | .key => some .keyfile
  | .message => some .message
  | .proxy => some .socks5Host
  | .psk => some .psk
  | .pskIdentity => some .pskIdentity
  | .topic => match c.pubOrSub with
    | .pub => some .topic
    | .sub => none
  | .tlsVersion => some .tlsVersion
  | .username => some .username
  | .pw => some .password
  | .willPayload => some .willPayload
  | .willTopic => some .willTopic
  | _ => none

/-- `array = realloc(array, …); array[count-1] = strdup(…);` -/
def PtrArray.append (a : PtrArray) (h : Heap) : Option (PtrArray × Heap) :=
  (h.realloc a.array).map fun h' =>
    ({ elems := a.elems ++ [.block h'.next], array := .block h.next }, h'.malloc)

namespace ConfigMem

/-- `cfg->f = p;` -/
def store (m : ConfigMem) (f : Field) (p : Ptr) : ConfigMem :=
  { m with ptr := Function.update m.ptr f p }

/-- `cfg->f = strdup(…);` -/
def strdup (m : ConfigMem) (f : Field) : ConfigMem :=
  { m.store f (.block m.heap.next) with heap := m.heap.malloc }

/-- What an option keeps of its value. -/
def keep (c : Client) (o : Opt) (m : ConfigMem) : Option ConfigMem :=
  match o with
  | .topic =>
    match c.pubOrSub with
    | .pub => some (m.strdup .topic)
    | .sub => (m.topics.append m.heap).map fun (topics, heap) => { m with topics, heap }
  | .filterOut =>
    (m.filterOuts.append m.heap).map fun (filterOuts, heap) => { m with filterOuts, heap }
  | o =>
    match o.field c with
    | some f => some (m.strdup f)
    | none => some m

/-- What `mosquitto__parse_socks_url` stores. -/
def proxy (m : ConfigMem) : Option SocksPtrs × Heap → ConfigMem
  | (none, heap) => { m with heap }
  | (some q, heap) =>
    { ((m.store .socks5Username q.username).store .socks5Password q.password).store
        .socks5Host q.host with heap }

end ConfigMem

/-! ## The functions on the heap -/

/-- A branch of `client_config_line_proc`. -/
def branchMem (c : Client) (o : Opt) (arg : String) (next : Option String) (cfg : MosqConfig)
    (m : ConfigMem) : Option ConfigMem :=
  match o, next with
  | .proxy, none => some m
  | .proxy, some url => (parseSocksUrlMem url.toList m.heap).map m.proxy
  | o, next =>
    match branch c o arg next cfg with
    | .error _ => some m
    | .ok _ => m.keep c o

def onArgMem (c : Client) (arg : String) (next : Option String) (cfg : MosqConfig)
    (m : ConfigMem) : Option ConfigMem :=
  match c.find arg with
  | none => some m
  | some o => branchMem c o arg next cfg m

/-- `client_config_line_proc`. -/
def lineProcMem (c : Client) (cfg : MosqConfig) (m : ConfigMem) :
    List String → Option (Except ConfigError MosqConfig × ConfigMem)
  | [] => some (.ok cfg, m)
  | [arg] => (onArgMem c arg none cfg m).map fun m => (onArg c arg none cfg, m)
  | arg :: next :: args =>
    match onArgMem c arg (some next) cfg m with
    | none => none
    | some m =>
      match onArg c arg (some next) cfg with
      | .error e => some (.error e, m)
      | .ok cfg =>
        if c.skips arg then lineProcMem c cfg m args
        else lineProcMem c cfg m (next :: args)

/-- The loop over the file. -/
def fileLinesMem (c : Client) (cfg : MosqConfig) (m : ConfigMem) :
    List (List Char) → Option (Except LoadStop MosqConfig × ConfigMem)
  | [] => some (.ok cfg, m)
  | line :: lines =>
    if line.head? = some '#' then fileLinesMem c cfg m lines
    else
      match stripEol (cString line) with
      | none => some (.error .overrun, m)
      | some line =>
        match lineProcMem c cfg m (lineArgs line) with
        | none => none
        | some (.error e, m) => some (.error (.error e), m)
        | some (.ok cfg, m) => fileLinesMem c cfg m lines

/-- `client_config_load`, the part around the file: `loc` is allocated and freed again. -/
def loadFileMem (c : Client) (env : Env) : Option (Except LoadStop MosqConfig × ConfigMem) :=
  match env.loc c.pubOrSub with
  | none => some (.ok initConfig, {})
  | some _ =>
    let loc : Ptr := .block 0
    match fileLinesMem c initConfig { heap := Heap.malloc {} } (env.lines c) with
    | none => none
    | some (.error .overrun, m) => some (.error .overrun, m)
    | some (r, m) => (m.heap.free loc).map fun heap => (r, { m with heap })

/-- `client_config_load`. -/
def loadMem (c : Client) (env : Env) (args : List String) :
    Option (Except LoadStop MosqConfig × ConfigMem) :=
  match loadFileMem c env with
  | none => none
  | some (.error e, m) => some (.error e, m)
  | some (.ok cfg, m) =>
    match lineProcMem c cfg m args with
    | none => none
    | some (.error e, m) => some (.error (.error e), m)
    | some (.ok cfg, m) =>
      match checkConfig c cfg with
      | .error e => some (.error (.error e), m)
      -- `if(!cfg->host) cfg->host = "localhost";`
      | .ok cfg' => some (.ok cfg', if m.ptr .host = .null then m.store .host .literal else m)

/-- What is freed of an array. -/
def PtrArray.freed (a : PtrArray) : List Ptr :=
  if a.array = .null then [] else a.elems ++ [a.array]

/-- The fields that `client_config_cleanup` frees in front of the arrays. -/
def Client.freedFields (c : Client) : List Field :=
  [.id, .idPrefix, .host, .fileInput, .message, .topic, .bindAddress, .username, .password,
    .willTopic, .willPayload] ++
  if c.withTls then
    [.cafile, .capath, .certfile, .keyfile, .ciphers, .tlsVersion] ++
      if c.withTlsPsk then [.psk, .pskIdentity] else []
  else []

/-- The pointers that `client_config_cleanup` frees, in order. -/
def cleanupPtrs (c : Client) (m : ConfigMem) : List Ptr :=
  c.freedFields.map m.ptr ++ (m.topics.freed ++ (m.filterOuts.freed ++
    if c.withSocks then
      [m.ptr .socks5Host, m.ptr .socks5Username, m.ptr .socks5Password]
    else []))

/-- `client_config_cleanup`. -/
def clientConfigCleanup (c : Client) (m : ConfigMem) : Option Heap :=
  m.heap.freeAll (cleanupPtrs c m)

/-! ## The options that were accepted -/

/-- The options of the words up to the first one that is refused. -/
def accepted (c : Client) (cfg : MosqConfig) : List String → List Opt
  | [] => []
  | [arg] =>
    match onArg c arg none cfg with
    | .error _ => []
    | .ok _ => (c.find arg).toList
  | arg :: next :: args =>
    match onArg c arg (some next) cfg with
    | .error _ => []
    | .ok cfg =>
      (c.find arg).toList ++
        if c.skips arg then accepted c cfg args else accepted c cfg (next :: args)

/-- The options of the file, up to there. -/
def acceptedFile (c : Client) (cfg : MosqConfig) : List (List Char) → List Opt
  | [] => []
  | line :: lines =>
    accepted c cfg (lineWords line) ++
      match fileLine c cfg line with
      | .error _ => []
      | .ok cfg => acceptedFile c cfg lines

/-- The options of the file and the command line. -/
def acceptedLoad (c : Client) (env : Env) (args : List String) : List Opt :=
  acceptedFile c initConfig (env.lines c) ++
    match fileLines c initConfig (env.lines c) with
    | .error _ => []
    | .ok cfg => accepted c cfg args

/-- The options whose second use overwrites the only pointer to a copy. -/
def Client.keeps (c : Client) (o : Opt) : Bool := (o.field c).isSome

/-! ## What the configuration holds -/

def PtrArray.ptrs (a : PtrArray) : List Ptr := a.elems ++ [a.array]

def ConfigMem.ptrs (m : ConfigMem) : List Ptr :=
  Field.all.map m.ptr ++ (m.topics.ptrs ++ m.filterOuts.ptrs)

/-- Behind the options `log`: every block is held, by the configuration or by one of the variables
`vars`, but for those that a second use of an option has overwritten. -/
structure MemOk (c : Client) (m : ConfigMem) (log : List Opt) (vars : List Ptr) : Prop where
  holds : ∃ lost, Holds m.heap (m.ptrs ++ vars) lost ∧
    (lost = [] ↔ (log.filter c.keeps).Nodup)
  field : ∀ {o f}, o.field c = some f → (m.ptr f ≠ .null ↔ o ∈ log)
  socks : .proxy ∉ log → m.ptr .socks5Username = .null ∧ m.ptr .socks5Password = .null
  has : ∀ o ∈ log, c.has o
  topics : m.topics.array = .null → m.topics.elems = []
  filterOuts : m.filterOuts.array = .null → m.filterOuts.elems = []

/-- The option that fills a field. -/
def Field.opt : Field → Opt
  | .id => .id
  | .idPrefix => .idPrefix
  | .host => .host
  | .fileInput => .file
  | .message => .message
  | .topic => .topic
  | .bindAddress => .bindAddress
  | .username => .username
  | .password => .pw
  | .willTopic => .willTopic
  | .willPayload => .willPayload
  | .cafile => .cafile
  | .capath => .capath
  | .certfile => .cert
  | .keyfile => .key
  | .ciphers => .ciphers
  | .tlsVersion => .tlsVersion
  | .psk => .psk
  | .pskIdentity => .pskIdentity
  | .socks5Host | .socks5Username | .socks5Password => .proxy

theorem opt_of_field {c : Client} {o : Opt} {f : Field} (h : o.field c = some f) : f.opt = o := by
  cases o
  case topic =>
    unfold Opt.field at h
    cases hc : c.pubOrSub with
    | pub =>
      simp only [hc] at h
      cases h
      rfl
    | sub =>
      simp only [hc] at h
      cases h
  all_goals cases h <;> rfl

theorem field_mem_all (f : Field) : f ∈ Field.all := by
  cases f <;> decide

theorem nodup_all : Field.all.Nodup := by decide

section

variable {c : Client} {m : ConfigMem} {log : List Opt} {vars : List Ptr} {o : Opt} {f : Field}

theorem filter_keeps_append (h : o.field c = none) :
    (log ++ [o]).filter c.keeps = log.filter c.keeps := by
  have hk : c.keeps o = false := by rw [Client.keeps, h]; rfl
  rw [List.filter_append, List.filter_cons_of_neg (by rw [hk]; exact Bool.false_ne_true),
    List.filter_nil, List.append_nil]

/-- A second use is a repetition in the log. -/
theorem nodup_append_iff (h : o.field c = some f) :
    ((log ++ [o]).filter c.keeps).Nodup ↔ (log.filter c.keeps).Nodup ∧ o ∉ log := by
  have hk : c.keeps o := by rw [Client.keeps, h]; rfl
  rw [List.filter_append, List.filter_cons_of_pos hk, List.filter_nil, List.nodup_append_comm,
    List.singleton_append, List.nodup_cons, List.mem_filter, and_iff_left hk, and_comm]

/-- An option without a copy. -/
theorem MemOk.flag (h : MemOk c m log vars) (ho : o.field c = none) (hhas : c.has o) :
    MemOk c m (log ++ [o]) vars where
  holds := by
    rw [filter_keeps_append ho]
    exact h.holds
  field := by
    intro o' f' ho'
    have hne : o' ≠ o := fun heq => by rw [heq, ho] at ho'; cases ho'
    simp [h.field ho', hne]
  socks hno := h.socks fun hm => hno (List.mem_append_left _ hm)
  has := List.forall_mem_append.mpr ⟨h.has, List.forall_mem_singleton.mpr hhas⟩
  topics := h.topics
  filterOuts := h.filterOuts

/-- The blocks of the configuration when a field gets another value. -/
theorem count_ptrs_store (m : ConfigMem) (f : Field) (p : Ptr) (n : Nat) :
    (held (m.store f p).ptrs).count n + (m.ptr f).blocks.count n =
      (held m.ptrs).count n + p.blocks.count n := by
  have hn := count_held_update nodup_all (field_mem_all f) m.ptr p n
  simp only [ConfigMem.ptrs, ConfigMem.store, held_append, List.count_append] at hn ⊢
  omega

theorem literal_notMem_store {p : Ptr} (hm : .literal ∉ m.ptrs) (hp : p ≠ .literal) :
    .literal ∉ (m.store f p).ptrs := by
  simp only [ConfigMem.ptrs, List.mem_append, List.mem_map, not_or, not_exists, not_and] at hm ⊢
  refine ⟨fun f' hf' heq => ?_, hm.2⟩
  by_cases hff : f' = f
  · subst hff
    exact hp (by rw [← heq]; exact (Function.update_self f' p m.ptr).symm)
  · exact hm.1 f' hf' (by rw [← heq]; exact (Function.update_of_ne hff p m.ptr).symm)

/-- A block that a variable holds goes to a field. What the field held is lost. -/
theorem holds_store {h : Heap} {p : Ptr} {lost : List Nat}
    (hh : Holds h (p :: (m.ptrs ++ vars)) lost) :
    Holds h ((m.store f p).ptrs ++ vars) ((m.ptr f).blocks ++ lost) := by
  obtain ⟨hp, hrest⟩ := not_or.mp fun hm => hh.dynamic (List.mem_cons.mpr hm)
  obtain ⟨hptrs, hvars⟩ := not_or.mp fun hm => hrest (List.mem_append.mpr hm)
  have hf : .literal ≠ m.ptr f := fun heq =>
    hptrs (List.mem_append_left _ (heq ▸ List.mem_map_of_mem (field_mem_all f)))
  have hmove : Holds h ([m.ptr f] ++ ((m.store f p).ptrs ++ vars)) lost := by
    refine hh.congr (fun n => ?_) ?_
    · have hn := count_ptrs_store m f p n
      simp only [held_append, held_cons, held_nil, List.append_nil, List.count_append]
      omega
    · simp only [List.mem_append, List.mem_singleton, not_or]
      exact ⟨hf, literal_notMem_store hptrs (Ne.symm hp), hvars⟩
  have hdrop := hmove.drop
  rwa [held_cons, held_nil, List.append_nil] at hdrop

theorem ptr_mem_ptrs (m : ConfigMem) (f : Field) : m.ptr f ∈ m.ptrs ++ vars :=
  List.mem_append_left _ (List.mem_append_left _ (List.mem_map_of_mem (field_mem_all f)))

theorem ptr_store_self (m : ConfigMem) (f : Field) (p : Ptr) : (m.store f p).ptr f = p := by
  simp only [ConfigMem.store, Function.update_self]

/-- The field of another option stays. -/
theorem ptr_store_of_ne {o' : Opt} {f' : Field} {p : Ptr} (ho : o.field c = some f)
    (ho' : o'.field c = some f') (hne : o' ≠ o) : (m.store f p).ptr f' = m.ptr f' := by
  refine Function.update_of_ne (fun heq => hne ?_) _ _
  rw [← opt_of_field ho, ← opt_of_field ho', heq]

/-- An option with a copy. -/
theorem MemOk.strdup (h : MemOk c m log vars) (ho : o.field c = some f) (hproxy : o ≠ .proxy)
    (hhas : c.has o) : MemOk c (m.strdup f) (log ++ [o]) vars where
  holds := by
    obtain ⟨lost, hh, hlost⟩ := h.holds
    refine ⟨_, holds_store hh.malloc, ?_⟩
    rw [List.append_eq_nil_iff, hh.blocks_eq_nil_iff (ptr_mem_ptrs m f), hlost,
      nodup_append_iff ho, and_comm, ← h.field ho, not_not]
  field := by
    intro o' f' ho'
    by_cases hne : o' = o
    · subst hne
      cases ho.symm.trans ho'
      refine iff_of_true (fun hnull => ?_) (List.mem_append_right _ (List.mem_singleton_self _))
      cases (ptr_store_self m f _).symm.trans hnull
    · have hptr : (m.strdup f).ptr f' = m.ptr f' := ptr_store_of_ne ho ho' hne
      rw [hptr, h.field ho']
      simp [hne]
  socks hno := by
    have hsocks := h.socks fun hm => hno (List.mem_append_left _ hm)
    have hfield {f' : Field} (hf' : f'.opt = .proxy) : (m.strdup f).ptr f' = m.ptr f' := by
      refine Function.update_of_ne (fun heq => hproxy ?_) _ _
      rw [← opt_of_field ho, ← heq, hf']
    rw [hfield rfl, hfield rfl]
    exact hsocks
  has := List.forall_mem_append.mpr ⟨h.has, List.forall_mem_singleton.mpr hhas⟩
  topics := h.topics
  filterOuts := h.filterOuts

/-- An array grows, and holds its copies as before. -/
theorem append_spec {a : PtrArray} {h : Heap} {ps : List Ptr} {lost : List Nat}
    (hh : Holds h (a.ptrs ++ ps) lost) :
    ∃ a' h', a.append h = some (a', h') ∧ a'.array ≠ .null ∧ Holds h' (a'.ptrs ++ ps) lost := by
  have hdyn := hh.dynamic
  simp only [PtrArray.ptrs, List.mem_append, List.mem_singleton, not_or] at hdyn
  obtain ⟨⟨helems, harray⟩, hps⟩ := hdyn
  have hfront : Holds h (a.array :: (a.elems ++ ps)) lost := by
    refine hh.congr (fun n => ?_) (by simp [harray, helems, hps])
    simp only [PtrArray.ptrs, held_append, held_cons, held_nil, List.count_append, List.count_nil]
    omega
  obtain ⟨h₁, hrealloc, hh₁⟩ := hfront.realloc
  refine ⟨{ elems := a.elems ++ [.block h₁.next], array := .block h.next }, h₁.malloc,
    by rw [PtrArray.append, hrealloc, Option.map_some], nofun, ?_⟩
  refine hh₁.malloc.congr (fun n => ?_) (by simp [PtrArray.ptrs, helems, hps])
  simp only [PtrArray.ptrs, held_append, held_cons, held_nil, List.count_append, List.count_nil]
  omega

/-- A topic or a filter: the copy is added to an array. -/
theorem MemOk.append (h : MemOk c m log vars) (ho : o.field c = none) (hhas : c.has o)
    (harray : o = .topic ∧ c.pubOrSub = .sub ∨ o = .filterOut) :
    ∃ m', m.keep c o = some m' ∧ MemOk c m' (log ++ [o]) vars := by
  obtain ⟨lost, hh, hlost⟩ := h.holds
  have hdyn := hh.dynamic
  simp only [ConfigMem.ptrs, List.mem_append, not_or] at hdyn
  obtain ⟨⟨hfields, htopics, hfilters⟩, hvars⟩ := hdyn
  have hlog := h.flag ho hhas
  obtain ⟨rfl, hsub⟩ | rfl := harray
  · have hfront : Holds m.heap (m.topics.ptrs ++
        (Field.all.map m.ptr ++ (m.filterOuts.ptrs ++ vars))) lost := by
      refine hh.congr (fun n => ?_) (by simp only [List.mem_append, not_or]; tauto)
      simp only [ConfigMem.ptrs, held_append, List.count_append]
      omega
    obtain ⟨a, heap, happend, hne, hh'⟩ := append_spec hfront
    refine ⟨{ m with topics := a, heap := heap }, ?_,
      ⟨⟨lost, hh'.congr (fun n => ?_) fun hm => hh'.dynamic ?_, ?_⟩, hlog.field, hlog.socks,
        hlog.has, fun hnull => absurd hnull hne, hlog.filterOuts⟩⟩
    · simp only [ConfigMem.keep, hsub, happend, Option.map_some]
    · simp only [ConfigMem.ptrs, held_append, List.count_append]
      omega
    · simp only [ConfigMem.ptrs, List.mem_append] at hm ⊢
      tauto
    · rw [filter_keeps_append ho]
      exact hlost
  · have hfront : Holds m.heap (m.filterOuts.ptrs ++
        (Field.all.map m.ptr ++ (m.topics.ptrs ++ vars))) lost := by
      refine hh.congr (fun n => ?_) (by simp only [List.mem_append, not_or]; tauto)
      simp only [ConfigMem.ptrs, held_append, List.count_append]
      omega
    obtain ⟨a, heap, happend, hne, hh'⟩ := append_spec hfront
    refine ⟨{ m with filterOuts := a, heap := heap }, ?_,
      ⟨⟨lost, hh'.congr (fun n => ?_) fun hm => hh'.dynamic ?_, ?_⟩, hlog.field, hlog.socks,
        hlog.has, hlog.topics, fun hnull => absurd hnull hne⟩⟩
    · simp only [ConfigMem.keep, happend, Option.map_some]
    · simp only [ConfigMem.ptrs, held_append, List.count_append]
      omega
    · simp only [ConfigMem.ptrs, List.mem_append] at hm ⊢
      tauto
    · rw [filter_keeps_append ho]
      exact hlost

theorem keep_of_field (ho : o.field c = some f) (m : ConfigMem) :
    m.keep c o = some (m.strdup f) := by
  cases o
  case topic =>
    unfold ConfigMem.keep
    unfold Opt.field at ho
    cases hc : c.pubOrSub with
    | pub =>
      simp only [hc] at ho
      cases ho
      rfl
    | sub =>
      simp only [hc] at ho
      cases ho
  case filterOut => cases ho
  all_goals
    simp only [ConfigMem.keep, ho]

/-- What an option keeps, for all options but the proxy. -/
theorem keep_spec (h : MemOk c m log vars) (hproxy : o ≠ .proxy) (hhas : c.has o) :
    ∃ m', m.keep c o = some m' ∧ MemOk c m' (log ++ [o]) vars := by
  cases ho : o.field c with
  | some f => exact ⟨_, keep_of_field ho m, h.strdup ho hproxy hhas⟩
  | none =>
    by_cases htopic : o = .topic
    · subst htopic
      have hsub : c.pubOrSub = .sub := by
        unfold Opt.field at ho
        cases hc : c.pubOrSub with
        | pub => simp only [hc] at ho; cases ho
        | sub => rfl
      exact h.append ho hhas (.inl ⟨rfl, hsub⟩)
    by_cases hfilter : o = .filterOut
    · exact h.append ho hhas (.inr hfilter)
    refine ⟨m, ?_, h.flag ho hhas⟩
    cases o
    case topic => exact absurd rfl htopic
    case filterOut => exact absurd rfl hfilter
    all_goals
      simp only [ConfigMem.keep, ho]

/-- A proxy that is refused. -/
theorem proxy_error (h : MemOk c m log vars) {url : List Char} {e : SocksError}
    (he : parseSocksUrl url = .error e) :
    ∃ m', (parseSocksUrlMem url m.heap).map m.proxy = some m' ∧ MemOk c m' log vars := by
  obtain ⟨lost, hh, hlost⟩ := h.holds
  obtain ⟨heap, hparse, hh'⟩ := parseSocksUrlMem_error hh he
  exact ⟨{ m with heap }, by rw [hparse]; rfl,
    ⟨⟨lost, hh', hlost⟩, h.field, h.socks, h.has, h.topics, h.filterOuts⟩⟩

/-- A proxy: its three fields get the blocks of the parser. -/
theorem proxy_ok (h : MemOk c m log vars) (hhas : c.has .proxy) {url : List Char} {s : Socks5}
    (hs : parseSocksUrl url = .ok s) :
    ∃ m', (parseSocksUrlMem url m.heap).map m.proxy = some m' ∧
      MemOk c m' (log ++ [.proxy]) vars := by
  obtain ⟨lost, hh, hlost⟩ := h.holds
  obtain ⟨q, heap, hparse, hhost, hh'⟩ := parseSocksUrlMem_ok hh hs
  have hfield : Opt.field c .proxy = some .socks5Host := rfl
  have hmove : Holds heap (q.username :: (m.ptrs ++ (q.password :: q.host :: vars))) lost := by
    refine hh'.congr (fun n => ?_) fun hm => hh'.dynamic ?_
    · simp only [held_append, held_cons, List.count_append]
      omega
    · simp only [List.mem_cons, List.mem_append] at hm ⊢
      tauto
  have h₁ := Holds.middle_iff.mp (holds_store (f := .socks5Username) hmove)
  have h₂ := Holds.middle_iff.mp (holds_store (f := .socks5Password) h₁)
  have h₃ := holds_store (f := .socks5Host) h₂
  refine ⟨m.proxy (some q, heap), by rw [hparse]; rfl, ⟨⟨_, h₃, ?_⟩, ?_, ?_,
    List.forall_mem_append.mpr ⟨h.has, List.forall_mem_singleton.mpr hhas⟩, h.topics,
    h.filterOuts⟩⟩
  · have hnull (f : Field) : (m.ptr f).blocks = [] ↔ m.ptr f = .null :=
      hh.blocks_eq_nil_iff (ptr_mem_ptrs m f)
    have hold : ((m.store .socks5Username q.username).store .socks5Password q.password).ptr
        .socks5Host = m.ptr .socks5Host := rfl
    have hold' : (m.store .socks5Username q.username).ptr .socks5Password =
        m.ptr .socks5Password := rfl
    simp only [List.append_eq_nil_iff, hold, hold', hnull, hlost, nodup_append_iff hfield]
    constructor
    · rintro ⟨hhost, -, -, hn⟩
      exact ⟨hn, fun hm => (h.field hfield).mpr hm hhost⟩
    · rintro ⟨hn, hno⟩
      have hhost := not_not.mp (mt (h.field hfield).mp hno)
      exact ⟨hhost, (h.socks hno).2, (h.socks hno).1, hn⟩
  · intro o' f' ho'
    by_cases hne : o' = .proxy
    · subst hne
      cases hfield.symm.trans ho'
      refine iff_of_true (fun hnull => hhost ?_)
        (List.mem_append_right _ (List.mem_singleton_self _))
      rw [← hnull]
      simp only [ConfigMem.proxy, ConfigMem.store, Function.update_self]
    · have hptr : (m.proxy (some q, heap)).ptr f' = m.ptr f' := by
        have hne' (f : Field) (hf : f.opt = .proxy) : f' ≠ f := by
          rintro rfl
          exact hne ((opt_of_field ho').symm.trans hf)
        simp only [ConfigMem.proxy, ConfigMem.store,
          Function.update_of_ne (hne' .socks5Host rfl),
          Function.update_of_ne (hne' .socks5Password rfl),
          Function.update_of_ne (hne' .socks5Username rfl)]
      rw [hptr, h.field ho']
      simp [hne]
  · intro hno
    exact absurd (List.mem_append_right _ (List.mem_singleton_self _)) hno

/-! ## The functions keep it -/

theorem branchMem_of_ne (ho : o ≠ .proxy) (arg : String) (next : Option String)
    (cfg : MosqConfig) (m : ConfigMem) : branchMem c o arg next cfg m =
      match branch c o arg next cfg with
      | .error _ => some m
      | .ok _ => m.keep c o := by
  cases o
  case proxy => exact absurd rfl ho
  all_goals rfl

/-- A branch adds its option to the log if it does not fail. -/
theorem branchMem_spec (h : MemOk c m log vars) (hhas : c.has o) (arg : String)
    (next : Option String) (cfg : MosqConfig) :
    ∃ m', branchMem c o arg next cfg m = some m' ∧
      MemOk c m' (log ++ match branch c o arg next cfg with
        | .error _ => []
        | .ok _ => [o]) vars := by
  by_cases ho : o = .proxy
  · subst ho
    cases next with
    | none => exact ⟨m, rfl, by simpa [branch, value] using h⟩
    | some url =>
      cases hurl : parseSocksUrl url.toList with
      | error e =>
        obtain ⟨m', hm', h'⟩ := proxy_error h hurl
        exact ⟨m', hm', by simpa [branch, value, hurl] using h'⟩
      | ok s =>
        obtain ⟨m', hm', h'⟩ := proxy_ok h hhas hurl
        exact ⟨m', hm', by simpa [branch, value, hurl] using h'⟩
  · rw [branchMem_of_ne ho]
    cases branch c o arg next cfg with
    | error e => exact ⟨m, rfl, by rwa [List.append_nil]⟩
    | ok cfg' => exact keep_spec h ho hhas

theorem onArgMem_spec (h : MemOk c m log vars) (arg : String) (next : Option String)
    (cfg : MosqConfig) :
    ∃ m', onArgMem c arg next cfg m = some m' ∧
      MemOk c m' (log ++ match onArg c arg next cfg with
        | .error _ => []
        | .ok _ => (c.find arg).toList) vars := by
  unfold onArgMem onArg
  cases hfind : c.find arg with
  | none => exact ⟨m, rfl, by simpa using h⟩
  | some o =>
    have hpred := List.find?_some (p := fun o => c.has o && o.names.contains arg) hfind
    exact branchMem_spec h (Bool.and_eq_true_iff.mp hpred).1 arg next cfg

/-- **The words** keep it: the heap follows the configuration, and no step fails. -/
theorem lineProcMem_spec (h : MemOk c m log vars) (cfg : MosqConfig) (args : List String) :
    ∃ m', lineProcMem c cfg m args = some (clientConfigLineProc c cfg args, m') ∧
      MemOk c m' (log ++ accepted c cfg args) vars := by
  fun_induction clientConfigLineProc c cfg args generalizing m log with
  | case1 cfg => exact ⟨m, rfl, by rwa [accepted, List.append_nil]⟩
  | case2 cfg arg =>
    obtain ⟨m', hm', h'⟩ := onArgMem_spec h arg none cfg
    exact ⟨m', by rw [lineProcMem, hm', Option.map_some], h'⟩
  | case3 cfg arg next args e he =>
    obtain ⟨m', hm', h'⟩ := onArgMem_spec h arg (some next) cfg
    rw [he] at h'
    exact ⟨m', by rw [lineProcMem, hm']; simp only [he], by rw [accepted, he]; exact h'⟩
  | case4 cfg arg next args cfg' he hskips ih =>
    obtain ⟨m₁, hm₁, h₁⟩ := onArgMem_spec h arg (some next) cfg
    rw [he] at h₁
    obtain ⟨m', hm', h'⟩ := ih h₁
    refine ⟨m', ?_, ?_⟩
    · rw [lineProcMem, hm₁]
      simp only [he]
      rw [if_pos hskips, hm']
    · rw [accepted, he]
      simp only
      rwa [if_pos hskips, ← List.append_assoc]
  | case5 cfg arg next args cfg' he hskips ih =>
    obtain ⟨m₁, hm₁, h₁⟩ := onArgMem_spec h arg (some next) cfg
    rw [he] at h₁
    obtain ⟨m', hm', h'⟩ := ih h₁
    refine ⟨m', ?_, ?_⟩
    · rw [lineProcMem, hm₁]
      simp only [he]
      rw [if_neg hskips, hm']
    · rw [accepted, he]
      simp only
      rwa [if_neg hskips, ← List.append_assoc]

/-- So do the lines of the file. -/
theorem fileLinesMem_spec (h : MemOk c m log vars) (cfg : MosqConfig)
    (lines : List (List Char)) :
    ∃ m', fileLinesMem c cfg m lines = some (fileLines c cfg lines, m') ∧
      MemOk c m' (log ++ acceptedFile c cfg lines) vars := by
  induction lines generalizing m log cfg with
  | nil => exact ⟨m, rfl, by rwa [acceptedFile, List.append_nil]⟩
  | cons line lines ih =>
    rw [fileLinesMem, fileLines, acceptedFile]
    by_cases hcomment : line.head? = some '#'
    · have hline : fileLine c cfg line = .ok cfg := if_pos hcomment
      have hwords : lineWords line = [] := if_pos hcomment
      rw [if_pos hcomment, hline, hwords, accepted, List.nil_append]
      exact ih h cfg
    rw [if_neg hcomment]
    have hwords : lineWords line = ((stripEol (cString line)).map lineArgs).getD [] :=
      if_neg hcomment
    cases hstrip : stripEol (cString line) with
    | none =>
      have hline : fileLine c cfg line = .error .overrun := by
        rw [fileLine, if_neg hcomment, hstrip]
      rw [hstrip] at hwords
      rw [hline, hwords]
      exact ⟨m, rfl, by simpa [accepted] using h⟩
    | some text =>
      rw [hstrip] at hwords
      obtain ⟨m₁, hm₁, h₁⟩ := lineProcMem_spec h cfg (lineArgs text)
      rw [hwords]
      simp only [hm₁, Option.map_some, Option.getD_some]
      cases hproc : clientConfigLineProc c cfg (lineArgs text) with
      | error e =>
        have hline : fileLine c cfg line = .error (.error e) := by
          rw [fileLine, if_neg hcomment, hstrip]
          simp only [hproc]
        rw [hline]
        exact ⟨m₁, rfl, by simpa using h₁⟩
      | ok cfg₁ =>
        have hline : fileLine c cfg line = .ok cfg₁ := by
          rw [fileLine, if_neg hcomment, hstrip]
          simp only [hproc]
        obtain ⟨m', hm', h'⟩ := ih h₁ cfg₁
        rw [hline]
        exact ⟨m', hm', by rwa [← List.append_assoc]⟩

theorem memOk_start (c : Client) : MemOk c {} [] [] where
  holds := ⟨[], Holds.empty fun p hp => by
    simp only [ConfigMem.ptrs, PtrArray.ptrs, List.mem_append, List.mem_map, List.mem_singleton,
      List.not_mem_nil, or_false, false_or] at hp
    obtain ⟨f, -, rfl⟩ | rfl | rfl := hp <;> rfl, by simp⟩
  field _ := iff_of_false (fun h => h rfl) nofun
  socks _ := ⟨rfl, rfl⟩
  has := nofun
  topics _ := rfl
  filterOuts _ := rfl

/-- The file: `loc` is freed as it was allocated. -/
theorem loadFileMem_spec (env : Env)
    (hrun : fileLines c initConfig (env.lines c) ≠ .error .overrun) :
    ∃ m', loadFileMem c env = some (fileLines c initConfig (env.lines c), m') ∧
      MemOk c m' (acceptedFile c initConfig (env.lines c)) [] := by
  unfold loadFileMem
  cases hloc : env.loc c.pubOrSub with
  | none =>
    have hlines : env.lines c = [] := by rw [Env.lines, hloc]; rfl
    rw [hlines]
    exact ⟨{}, rfl, memOk_start c⟩
  | some loc =>
    have hstart : MemOk c { heap := Heap.malloc {} } [] [.block 0] := by
      obtain ⟨lost, hh, hlost⟩ := (memOk_start c).holds
      refine ⟨⟨lost, Holds.middle_iff.mpr hh.malloc, hlost⟩, ?_, ?_, nofun, fun _ => rfl,
        fun _ => rfl⟩
      · exact fun _ => iff_of_false (fun h => h rfl) nofun
      · exact fun _ => ⟨rfl, rfl⟩
    obtain ⟨m₁, hm₁, h₁⟩ := fileLinesMem_spec hstart initConfig (env.lines c)
    obtain ⟨lost, hh, hlost⟩ := h₁.holds
    obtain ⟨heap, hfree, hh'⟩ := (Holds.middle_iff.mp hh).free
    rw [List.nil_append] at h₁ hlost
    refine ⟨{ m₁ with heap }, ?_, ⟨⟨lost, hh', hlost⟩, h₁.field, h₁.socks, h₁.has, h₁.topics,
      h₁.filterOuts⟩⟩
    simp only [hm₁]
    cases hres : fileLines c initConfig (env.lines c) with
    | ok cfg => simp only [hfree, Option.map_some]
    | error e =>
      cases e with
      | error e => simp only [hfree, Option.map_some]
      | overrun => exact absurd hres hrun

/-- **Loading**: the heap follows the configuration, up to the default host. -/
theorem loadMem_spec (env : Env) (args : List String)
    (hrun : clientConfigLoad c env args ≠ .error .overrun) :
    ∃ m, MemOk c m (acceptedLoad c env args) [] ∧
      loadMem c env args = some (clientConfigLoad c env args,
        match clientConfigLoad c env args with
        | .error _ => m
        | .ok _ => if m.ptr .host = .null then m.store .host .literal else m) := by
  have hfile : fileLines c initConfig (env.lines c) ≠ .error .overrun := fun h =>
    hrun (by rw [clientConfigLoad, h])
  obtain ⟨m₁, hm₁, h₁⟩ := loadFileMem_spec env hfile
  rw [loadMem, hm₁, clientConfigLoad, acceptedLoad]
  cases hres : fileLines c initConfig (env.lines c) with
  | error e => exact ⟨m₁, by simpa using h₁, rfl⟩
  | ok cfg =>
    obtain ⟨m₂, hm₂, h₂⟩ := lineProcMem_spec h₁ cfg args
    refine ⟨m₂, h₂, ?_⟩
    simp only [hm₂]
    cases hproc : clientConfigLineProc c cfg args with
    | error e => rfl
    | ok cfg₀ =>
      simp only
      cases checkConfig c cfg₀ <;> rfl

/-! ## The cleanup -/

theorem MemOk.null (h : MemOk c m log vars) (ho : o.field c = some f) (hhas : c.has o = false) :
    m.ptr f = .null := by
  refine not_not.mp (mt (h.field ho).mp fun hm => ?_)
  rw [h.has o hm] at hhas
  cases hhas

theorem held_freed {a : PtrArray} (ha : a.array = .null → a.elems = []) :
    held a.freed = held a.ptrs := by
  unfold PtrArray.freed PtrArray.ptrs
  split
  · next hnull => simp [hnull, ha hnull]
  · rfl

theorem mem_ptrs_of_cleanup {p : Ptr} (hp : p ∈ cleanupPtrs c m) : p ∈ m.ptrs ++ [] := by
  have hfield (f : Field) : m.ptr f ∈ m.ptrs ++ [] := ptr_mem_ptrs m f
  have hfreed {a : PtrArray} (hp : p ∈ a.freed) : p ∈ a.ptrs := by
    unfold PtrArray.freed at hp
    split at hp
    · cases hp
    · exact hp
  simp only [cleanupPtrs, List.mem_append] at hp
  obtain hp | hp | hp | hp := hp
  · obtain ⟨f, -, rfl⟩ := List.mem_map.mp hp
    exact hfield f
  · simp only [ConfigMem.ptrs, List.mem_append, hfreed hp, true_or, or_true]
  · simp only [ConfigMem.ptrs, List.mem_append, hfreed hp, true_or, or_true]
  · split at hp
    · simp only [List.mem_cons, List.not_mem_nil, or_false] at hp
      obtain rfl | rfl | rfl := hp <;> exact hfield _
    · cases hp

/-- The cleanup frees every block of the configuration once. -/
theorem holds_cleanup (hbuild : c.withTlsPsk → c.withTls) (h : MemOk c m log []) {lost : List Nat}
    (hh : Holds m.heap (m.ptrs ++ []) lost) : Holds m.heap (cleanupPtrs c m ++ []) lost := by
  rw [List.append_nil (cleanupPtrs c m)]
  refine hh.congr (fun n => ?_) fun hm => hh.dynamic (mem_ptrs_of_cleanup hm)
  -- The fields that are not compiled are null.
  have hsocks (hno : c.withSocks = false) : m.ptr .socks5Host = .null ∧
      m.ptr .socks5Username = .null ∧ m.ptr .socks5Password = .null := by
    refine ⟨h.null (o := .proxy) rfl hno, h.socks fun hm => ?_⟩
    have hhas : c.withSocks = true := h.has .proxy hm
    rw [hno] at hhas
    cases hhas
  have htls (hno : c.withTls = false) : m.ptr .cafile = .null ∧ m.ptr .capath = .null ∧
      m.ptr .certfile = .null ∧ m.ptr .keyfile = .null ∧ m.ptr .ciphers = .null ∧
      m.ptr .tlsVersion = .null :=
    ⟨h.null (o := .cafile) rfl hno, h.null (o := .capath) rfl hno, h.null (o := .cert) rfl hno,
      h.null (o := .key) rfl hno, h.null (o := .ciphers) rfl hno,
      h.null (o := .tlsVersion) rfl hno⟩
  have hpsk (hno : c.withTlsPsk = false) : m.ptr .psk = .null ∧ m.ptr .pskIdentity = .null :=
    ⟨h.null (o := .psk) rfl hno, h.null (o := .pskIdentity) rfl hno⟩
  have hsocksCount : (held (if c.withSocks then
      [m.ptr .socks5Host, m.ptr .socks5Username, m.ptr .socks5Password] else [])).count n =
        (held [m.ptr .socks5Host, m.ptr .socks5Username, m.ptr .socks5Password]).count n := by
    cases hc : c.withSocks with
    | true => rfl
    | false =>
      obtain ⟨h₁, h₂, h₃⟩ := hsocks hc
      rw [h₁, h₂, h₃]
      rfl
  have hfields : (held (c.freedFields.map m.ptr)).count n =
      (held ((Field.all.take 19).map m.ptr)).count n := by
    cases hc : c.withTls with
    | true =>
      cases hb : c.withTlsPsk with
      | true => simp [Client.freedFields, Field.all, hc, hb]
      | false =>
        obtain ⟨h₁, h₂⟩ := hpsk hb
        simp [Client.freedFields, Field.all, hc, hb, h₁, h₂]
    | false =>
      have hb : c.withTlsPsk = false := Bool.eq_false_iff.mpr fun hb => by
        rw [hbuild hb] at hc
        cases hc
      obtain ⟨h₁, h₂⟩ := hpsk hb
      obtain ⟨h₃, h₄, h₅, h₆, h₇, h₈⟩ := htls hc
      simp [Client.freedFields, Field.all, hc, h₁, h₂, h₃, h₄, h₅, h₆, h₇, h₈]
  have hall : (held (Field.all.map m.ptr)).count n =
      (held ((Field.all.take 19).map m.ptr)).count n +
        (held [m.ptr .socks5Host, m.ptr .socks5Username, m.ptr .socks5Password]).count n := by
    rw [← List.count_append, ← held_append]
    rfl
  simp only [cleanupPtrs, ConfigMem.ptrs, held_append, List.count_append, held_freed h.topics,
    held_freed h.filterOuts, held_nil, List.count_nil]
  omega

/-- Behind the cleanup only what was overwritten is left. -/
theorem clientConfigCleanup_spec (hbuild : c.withTlsPsk → c.withTls) (h : MemOk c m log []) :
    ∃ heap, clientConfigCleanup c m = some heap ∧
      (heap.live = [] ↔ (log.filter c.keeps).Nodup) := by
  obtain ⟨lost, hh, hlost⟩ := h.holds
  obtain ⟨heap, hfree, hheap⟩ := (holds_cleanup hbuild h hh).freeAll
  refine ⟨heap, hfree, ?_⟩
  rw [hheap.live_eq_nil_iff, held_nil, and_iff_right rfl, hlost]

end

/-! ## Failures and the default host -/

/-- **The cleanup is safe** exactly behind a failure or with a host among the words: whatever the
file and the words are, it frees no block twice and nothing else that is no block, but the default
host is one that `free` must not get. (`psk` is a field only in builds with TLS.) -/
theorem cleanup_iff {c : Client} (hbuild : c.withTlsPsk → c.withTls) (env : Env)
    (args : List String) (hrun : clientConfigLoad c env args ≠ .error .overrun) :
    ∃ m, loadMem c env args = some (clientConfigLoad c env args, m) ∧
      ((clientConfigCleanup c m).isSome ↔
        (∃ e, clientConfigLoad c env args = .error e) ∨ .host ∈ acceptedLoad c env args) := by
  obtain ⟨m, hm, hload⟩ := loadMem_spec env args hrun
  obtain ⟨heap, hclean, -⟩ := clientConfigCleanup_spec hbuild hm
  refine ⟨_, hload, ?_⟩
  have hhost := hm.field (o := .host) rfl
  cases hres : clientConfigLoad c env args with
  | error e => simp [hclean]
  | ok cfg =>
    by_cases hnull : m.ptr .host = .null
    · -- `free` gets the default host.
      have hno : .host ∉ acceptedLoad c env args := fun h => hhost.mpr h hnull
      have hliteral : Ptr.literal ∈ cleanupPtrs c (m.store .host .literal) := by
        refine List.mem_append_left _ (List.mem_map.mpr ⟨.host, ?_, ptr_store_self m .host _⟩)
        simp [Client.freedFields]
      simp only [hnull, if_true, hno, or_false, clientConfigCleanup,
        Heap.freeAll_literal _ hliteral]
      simp
    · simp only [hnull, if_false, hclean, Option.isSome_some, hhost.mp hnull, or_true]

/-- **What a failure leaks.** Behind the cleanup no block is left exactly if no option that keeps a
copy was accepted twice. -/
theorem leak_iff {c : Client} (hbuild : c.withTlsPsk → c.withTls) {env : Env} {args : List String}
    {e : ConfigError} (h : clientConfigLoad c env args = .error (.error e)) :
    ∃ m heap, loadMem c env args = some (.error (.error e), m) ∧
      clientConfigCleanup c m = some heap ∧
      (heap.live = [] ↔ ((acceptedLoad c env args).filter c.keeps).Nodup) := by
  obtain ⟨m, hm, hload⟩ := loadMem_spec env args (by rw [h]; nofun)
  rw [h] at hload
  obtain ⟨heap, hclean, hleak⟩ := clientConfigCleanup_spec hbuild hm
  exact ⟨m, heap, hload, hclean, hleak⟩

theorem cleanup_iff_example :
    ∃ m, loadMem subscriber noFile exampleArgs =
        some (clientConfigLoad subscriber noFile exampleArgs, m) ∧
      ((clientConfigCleanup subscriber m).isSome ↔
        (∃ e, clientConfigLoad subscriber noFile exampleArgs = .error e) ∨
          .host ∈ acceptedLoad subscriber noFile exampleArgs) :=
  cleanup_iff (fun _ => rfl) noFile exampleArgs fun h => by
    obtain ⟨cfg, hload, -⟩ := load_example
    rw [hload] at h
    cases h

/-- The host is given twice, in front of an unknown option. -/
def twoHosts : List String := ["-h", "a", "-h", "b", "-x"]

/-- The first host is leaked. -/
theorem leak_iff_twoHosts :
    ∃ m heap, loadMem subscriber noFile twoHosts = some (.error (.error (.unknown "-x")), m) ∧
      clientConfigCleanup subscriber m = some heap ∧ heap.live ≠ [] := by
  obtain ⟨m, heap, hload, hclean, hleak⟩ :=
    @leak_iff subscriber (fun _ => rfl) noFile twoHosts (.unknown "-x") rfl
  refine ⟨m, heap, hload, hclean, fun hnil => ?_⟩
  have hno : ¬((acceptedLoad subscriber noFile twoHosts).filter subscriber.keeps).Nodup := by
    decide
  exact hno (hleak.mp hnil)

end Ble.Mosquitto
