import BleGateway.Lib.Calls
import BleGateway.PubMessage

/-!
# How the clients start (`client_shared.c`, lines 656–777; both `main` functions up to their loops)

Behind `client_config_load` a client makes a name for itself, sets the options at libmosquitto and
connects. What libmosquitto returns is arbitrary.

* `clientIdGenerate`, `optsSteps`, `connectCall`: the three functions. `startup`: the calls.
* `Secured`: every option for the connection was set in front of it, with its last value.
  `startup_secured`: a client that connects is, and it connects as the last values say.
* `clientId_eq_iff`: which clients get the same name; on one machine no two.
-/

namespace Ble.Mosquitto

/-! ## The name -/

/-- What `client_id_generate` asks the system for. -/
structure ClientHost where
  pid : Nat
  hostname : String
  deriving DecidableEq, Repr

/-- `snprintf` into `size` bytes. A `Char` is a byte. -/
def snprintf (size : Nat) (s : List Char) : List Char := s.take (size - 1)

/-- `MOSQ_MQTT_ID_MAX_LENGTH`. -/
def mqttIdMaxLength : Nat := 23

/-- `"%s|%d-%s"`, cut to `len` bytes and then to `MOSQ_MQTT_ID_MAX_LENGTH`. -/
def generatedId (idBase : String) (host : ClientHost) : List Char :=
  let len := idBase.length + 2 + 6 + host.hostname.length
  let id := snprintf len
    (idBase.toList ++ '|' :: (Nat.toDigits 10 host.pid ++ '-' :: host.hostname.toList))
  if id.length > mqttIdMaxLength then id.take mqttIdMaxLength else id

/-- `client_id_generate`. -/
def clientIdGenerate (host : ClientHost) (idBase : String) (cfg : MosqConfig) : MosqConfig :=
  match cfg.idPrefix with
  | some p =>
    { cfg with id := some <| String.ofList <|
        snprintf (p.length + 10) (p.toList ++ Nat.toDigits 10 host.pid) }
  | none =>
    match cfg.id with
    | some _ => cfg
    | none => { cfg with id := some (String.ofList (generatedId idBase host)) }

/-! ## Options and connection -/

/-- The functions of libmosquitto. Strings that can be `NULL` are options; `mosquitto_new` counts as
returning 0 if it does not return `NULL`. -/
inductive LibCall where
  | new (id : Option String) (cleanSession : Bool)
  | willSet (topic : Option String) (payloadlen : Nat) (payload : Option String) (qos : Int)
      (retain : Bool)
  | usernamePwSet (username password : Option String)
  | tlsSet (cafile capath certfile keyfile : Option String)
  | tlsInsecureSet
  | tlsPskSet (psk identity : Option String)
  | tlsOptsSet (tlsVersion ciphers : Option String)
  | maxInflightMessagesSet (n : Nat)
  | socks5Set (socks5 : Socks5)
  | optsSet (version : ProtocolVersion)
  | connectBind (host : Option String) (port keepalive : Int) (bindAddress : Option String)
  | connectSrv (host : Option String) (keepalive : Int) (bindAddress : Option String)
  deriving DecidableEq, Repr

/-- `if(cond && call(…)) return 1;` -/
def given (cond : Bool) (call : LibCall) : List (CallStep LibCall) :=
  if cond then [.orReturn call 1] else []

/-- `client_opts_set`. -/
def optsSteps (c : Client) (cfg : MosqConfig) : List (CallStep LibCall) :=
  given cfg.willTopic.isSome (.willSet cfg.willTopic cfg.willPayloadlen cfg.willPayload cfg.willQos
    cfg.willRetain) ++
  given cfg.username.isSome (.usernamePwSet cfg.username cfg.password) ++
  given (c.withTls && (cfg.cafile.isSome || cfg.capath.isSome))
    (.tlsSet cfg.cafile cfg.capath cfg.certfile cfg.keyfile) ++
  given (c.withTls && cfg.insecure) .tlsInsecureSet ++
  given (c.withTls && c.withTlsPsk && cfg.psk.isSome) (.tlsPskSet cfg.psk cfg.pskIdentity) ++
  given (c.withTls && (cfg.tlsVersion.isSome || cfg.ciphers.isSome))
    (.tlsOptsSet cfg.tlsVersion cfg.ciphers) ++
  [.ignored (.maxInflightMessagesSet cfg.maxInflight)] ++
  (if c.withSocks then (cfg.socks5.map fun s => CallStep.orReturnIt (.socks5Set s)).toList
    else []) ++
  [.ignored (.optsSet cfg.protocolVersion)]

/-- The call of `client_connect`. -/
def connectCall (c : Client) (cfg : MosqConfig) : LibCall :=
  if c.withSrv && cfg.useSrv then .connectSrv cfg.host cfg.keepalive cfg.bindAddress
  else .connectBind cfg.host cfg.port cfg.keepalive cfg.bindAddress

/-- `client_connect`. -/
def connectStep (c : Client) (cfg : MosqConfig) : CallStep LibCall :=
  ⟨connectCall c cfg, fun rc => if rc > 0 then some rc else none⟩

/-- `mosquitto_new` and `client_opts_set`. -/
def frontSteps (c : Client) (cfg : MosqConfig) : List (CallStep LibCall) :=
  .orReturn (.new cfg.id (if c.pubOrSub = .pub then true else cfg.cleanSession)) 1 ::
    optsSteps c cfg

/-- The second argument of `client_id_generate`. -/
def idBase : PubOrSub → String
  | .pub => "mosqpub"
  | .sub => "mosqsub"

/-- The calls of `main` up to its loop. -/
def startup (c : Client) (env : Env) (host : ClientHost) (input : PubInput) (lib : LibCall → Int)
    (args : List String) : List LibCall :=
  match clientConfigLoad c env args with
  | .error _ => []
  | .ok cfg =>
    let named := clientIdGenerate host (idBase c.pubOrSub) cfg
    let calls := (CallStep.run lib (frontSteps c named ++ [connectStep c named])).1
    match c.pubOrSub with
    | .sub => calls
    | .pub =>
      match pubSetup cfg input with
      | .error _ => []
      | .ok _ => calls

/-- Does it connect? -/
def LibCall.isConnect : LibCall → Bool
  | .connectBind .. | .connectSrv .. => true
  | _ => false

/-! ## What the words configure -/

section

variable {c : Client} {env : Env} {args : List String} {cfg : MosqConfig}

/-- The last value of an option that is a number. -/
def lastNumber (c : Client) (us : List (Use String)) (o : Opt) (default : Int) : Int :=
  (lastValue c us o).elim default fun v => atoi v.toList

/-- What `-M` sets, as an `unsigned int`. -/
def lastMaxInflight (c : Client) (us : List (Use String)) : Nat :=
  (lastValue c us .maxInflight).elim 20 fun v => (atoi v.toList % 2 ^ 32).toNat

/-- What `-V` sets. It takes `mqttv31` and `mqttv311` only. -/
def lastVersion (c : Client) (us : List (Use String)) : ProtocolVersion :=
  (lastValue c us .protocolVersion).elim .v31 fun v => if v = "mqttv31" then .v31 else .v311

/-- The connection that the last values ask for. -/
def lastConnect (c : Client) (us : List (Use String)) : LibCall :=
  let host := (lastValue c us .host).getD "localhost"
  let keepalive := lastNumber c us .keepalive 60
  let address := lastValue c us .bindAddress
  if c.withSrv && (lastValue c us .srv).isSome then .connectSrv (some host) keepalive address
  else .connectBind (some host) (lastNumber c us .port 1883) keepalive address

/-- What is configured for the connection, as the last values of the options. -/
structure Configured (c : Client) (us : List (Use String)) (cfg : MosqConfig) : Prop where
  host : cfg.host = some ((lastValue c us .host).getD "localhost")
  port : cfg.port = lastNumber c us .port 1883
  keepalive : cfg.keepalive = lastNumber c us .keepalive 60
  bindAddress : cfg.bindAddress = lastValue c us .bindAddress
  useSrv : cfg.useSrv = (lastValue c us .srv).isSome
  username : cfg.username = lastValue c us .username
  password : cfg.password = lastValue c us .pw
  willTopic : cfg.willTopic = lastValue c us .willTopic
  willPayload : cfg.willPayload = lastValue c us .willPayload
  willPayloadlen : cfg.willPayloadlen = (lastValue c us .willPayload).elim 0 strlen
  willQos : cfg.willQos = lastNumber c us .willQos 0
  willRetain : cfg.willRetain = (lastValue c us .willRetain).isSome
  cafile : cfg.cafile = lastValue c us .cafile
  capath : cfg.capath = lastValue c us .capath
  certfile : cfg.certfile = lastValue c us .cert
  keyfile : cfg.keyfile = lastValue c us .key
  insecure : cfg.insecure = (lastValue c us .insecure).isSome
  psk : cfg.psk = lastValue c us .psk
  pskIdentity : cfg.pskIdentity = lastValue c us .pskIdentity
  tlsVersion : cfg.tlsVersion = lastValue c us .tlsVersion
  ciphers : cfg.ciphers = lastValue c us .ciphers
  maxInflight : cfg.maxInflight = lastMaxInflight c us
  socks5 : cfg.socks5 = (lastValue c us .proxy).bind fun v => (parseSocksUrl v.toList).toOption
  protocolVersion : cfg.protocolVersion = lastVersion c us

theorem host_of_load (h : clientConfigLoad c env args = .ok cfg) :
    cfg.host = some ((lastValue c (allUses c env args) .host).getD "localhost") := by
  refine (value_of_load (o := .host) h ⟨nofun, nofun⟩ (fun _ _ => Setting.text.inj) rfl rfl
    fun _ _ => rfl).trans ?_
  cases lastValue c (allUses c env args) .host <;> rfl

theorem socks5_of_load (h : clientConfigLoad c env args = .ok cfg) :
    cfg.socks5 = (lastValue c (allUses c env args) .proxy).bind fun v =>
      (parseSocksUrl v.toList).toOption := by
  refine (value_of_load (o := .proxy) h ⟨nofun, nofun⟩ (fun _ _ => Setting.proxy.inj) rfl rfl
    fun _ _ => rfl).trans ?_
  cases lastValue c (allUses c env args) .proxy <;> rfl

theorem maxInflight_of_load (h : clientConfigLoad c env args = .ok cfg) :
    cfg.maxInflight = lastMaxInflight c (allUses c env args) :=
  have hinj : Function.Injective fun n : Nat => Setting.number n :=
    fun _ _ heq => Int.ofNat.inj (Setting.number.inj heq)
  value_of_load (o := .maxInflight) h ⟨nofun, nofun⟩ hinj rfl rfl fun _ _ => rfl

theorem protocolVersion_of_load (h : clientConfigLoad c env args = .ok cfg) :
    cfg.protocolVersion = lastVersion c (allUses c env args) :=
  value_of_load (o := .protocolVersion) h ⟨nofun, nofun⟩ (fun _ _ => Setting.version.inj) rfl rfl
    fun _ _ => rfl

theorem configured_of_load (h : clientConfigLoad c env args = .ok cfg) :
    Configured c (allUses c env args) cfg where
  host := host_of_load h
  port := number_of_load (o := .port) h ⟨nofun, nofun⟩ rfl rfl fun _ _ => rfl
  keepalive := number_of_load (o := .keepalive) h ⟨nofun, nofun⟩ rfl rfl fun _ _ => rfl
  bindAddress := text_of_load (o := .bindAddress) h ⟨nofun, nofun⟩ rfl rfl fun _ _ => rfl
  useSrv := switch_of_load (o := .srv) h ⟨nofun, nofun⟩ rfl rfl fun _ _ => rfl
  username := text_of_load (o := .username) h ⟨nofun, nofun⟩ rfl rfl fun _ _ => rfl
  password := text_of_load (o := .pw) h ⟨nofun, nofun⟩ rfl rfl fun _ _ => rfl
  willTopic := text_of_load (o := .willTopic) h ⟨nofun, nofun⟩ rfl rfl fun _ _ => rfl
  willPayload := text_of_load (o := .willPayload) h ⟨nofun, nofun⟩ rfl rfl fun _ _ => rfl
  willPayloadlen := by
    rw [(load_valid h).willPayloadlen,
      text_of_load (o := .willPayload) h ⟨nofun, nofun⟩ rfl rfl fun _ _ => rfl]
  willQos := number_of_load (o := .willQos) h ⟨nofun, nofun⟩ rfl rfl fun _ _ => rfl
  willRetain := switch_of_load (o := .willRetain) h ⟨nofun, nofun⟩ rfl rfl fun _ _ => rfl
  cafile := text_of_load (o := .cafile) h ⟨nofun, nofun⟩ rfl rfl fun _ _ => rfl
  capath := text_of_load (o := .capath) h ⟨nofun, nofun⟩ rfl rfl fun _ _ => rfl
  certfile := text_of_load (o := .cert) h ⟨nofun, nofun⟩ rfl rfl fun _ _ => rfl
  keyfile := text_of_load (o := .key) h ⟨nofun, nofun⟩ rfl rfl fun _ _ => rfl
  insecure := switch_of_load (o := .insecure) h ⟨nofun, nofun⟩ rfl rfl fun _ _ => rfl
  psk := text_of_load (o := .psk) h ⟨nofun, nofun⟩ rfl rfl fun _ _ => rfl
  pskIdentity := text_of_load (o := .pskIdentity) h ⟨nofun, nofun⟩ rfl rfl fun _ _ => rfl
  tlsVersion := text_of_load (o := .tlsVersion) h ⟨nofun, nofun⟩ rfl rfl fun _ _ => rfl
  ciphers := text_of_load (o := .ciphers) h ⟨nofun, nofun⟩ rfl rfl fun _ _ => rfl
  maxInflight := maxInflight_of_load h
  socks5 := socks5_of_load h
  protocolVersion := protocolVersion_of_load h

theorem clientIdGenerate_eq (host : ClientHost) (idBase : String) (cfg : MosqConfig) :
    ∃ id, clientIdGenerate host idBase cfg = { cfg with id } := by
  unfold clientIdGenerate
  split
  · exact ⟨_, rfl⟩
  · split
    · exact ⟨cfg.id, rfl⟩
    · exact ⟨_, rfl⟩

/-! ## What is called in front of the connection -/

/-- What is set in front of the connection, in terms of the words. What
`mosquitto_max_inflight_messages_set` and `mosquitto_opts_set` return is ignored. -/
structure Secured (c : Client) (lib : LibCall → Int) (us : List (Use String))
    (front : List LibCall) : Prop where
  will : ∀ t, lastValue c us .willTopic = some t →
    .willSet (some t) ((lastValue c us .willPayload).elim 0 strlen) (lastValue c us .willPayload)
      (lastNumber c us .willQos 0) (lastValue c us .willRetain).isSome ∈ front
  username : ∀ u, lastValue c us .username = some u →
    .usernamePwSet (some u) (lastValue c us .pw) ∈ front
  ca : c.withTls → (lastValue c us .cafile).isSome ∨ (lastValue c us .capath).isSome →
    .tlsSet (lastValue c us .cafile) (lastValue c us .capath) (lastValue c us .cert)
      (lastValue c us .key) ∈ front
  insecure : .tlsInsecureSet ∈ front ↔ c.withTls ∧ (lastValue c us .insecure).isSome
  psk : c.withTls → c.withTlsPsk → ∀ k, lastValue c us .psk = some k →
    .tlsPskSet (some k) (lastValue c us .pskIdentity) ∈ front
  tlsOpts : c.withTls → (lastValue c us .tlsVersion).isSome ∨ (lastValue c us .ciphers).isSome →
    .tlsOptsSet (lastValue c us .tlsVersion) (lastValue c us .ciphers) ∈ front
  maxInflight : .maxInflightMessagesSet (lastMaxInflight c us) ∈ front
  proxy : c.withSocks → ∀ v s, lastValue c us .proxy = some v → parseSocksUrl v.toList = .ok s →
    .socks5Set s ∈ front
  protocolVersion : .optsSet (lastVersion c us) ∈ front
  succeeded : ∀ call ∈ front, lib call = 0 ∨
    (∃ n, call = .maxInflightMessagesSet n) ∨ ∃ version, call = .optsSet version

variable {c : Client} {lib : LibCall → Int} {cfg : MosqConfig}

theorem mem_given {cond : Bool} {call : LibCall} {s : CallStep LibCall} :
    s ∈ given cond call ↔ cond = true ∧ s = .orReturn call 1 := by
  unfold given
  split
  · next h => simp [h]
  · next h => simp [h]

theorem mem_optsSteps {s : CallStep LibCall} : s ∈ optsSteps c cfg ↔
    (cfg.willTopic.isSome ∧ s = .orReturn (.willSet cfg.willTopic cfg.willPayloadlen
      cfg.willPayload cfg.willQos cfg.willRetain) 1) ∨
    (cfg.username.isSome ∧ s = .orReturn (.usernamePwSet cfg.username cfg.password) 1) ∨
    ((c.withTls ∧ (cfg.cafile.isSome ∨ cfg.capath.isSome)) ∧
      s = .orReturn (.tlsSet cfg.cafile cfg.capath cfg.certfile cfg.keyfile) 1) ∨
    ((c.withTls ∧ cfg.insecure) ∧ s = .orReturn .tlsInsecureSet 1) ∨
    ((c.withTls ∧ c.withTlsPsk ∧ cfg.psk.isSome) ∧
      s = .orReturn (.tlsPskSet cfg.psk cfg.pskIdentity) 1) ∨
    ((c.withTls ∧ (cfg.tlsVersion.isSome ∨ cfg.ciphers.isSome)) ∧
      s = .orReturn (.tlsOptsSet cfg.tlsVersion cfg.ciphers) 1) ∨
    s = .ignored (.maxInflightMessagesSet cfg.maxInflight) ∨
    (c.withSocks ∧ ∃ socks5, cfg.socks5 = some socks5 ∧ s = .orReturnIt (.socks5Set socks5)) ∨
    s = .ignored (.optsSet cfg.protocolVersion) := by
  have hproxy : s ∈ (if c.withSocks then
        (cfg.socks5.map fun s => CallStep.orReturnIt (.socks5Set s)).toList else []) ↔
      c.withSocks ∧ ∃ socks5, cfg.socks5 = some socks5 ∧ s = .orReturnIt (.socks5Set socks5) := by
    split
    · next h => cases cfg.socks5 <;> simp [h]
    · next h => simp [h]
  simp only [optsSteps, List.mem_append, mem_given, List.mem_singleton, hproxy, Bool.and_eq_true,
    Bool.or_eq_true, or_assoc, and_assoc]

theorem mem_front {s : CallStep LibCall} (h : s ∈ optsSteps c cfg) :
    s.call ∈ (frontSteps c cfg).map CallStep.call :=
  List.mem_cons_of_mem _ (List.mem_map_of_mem h)

/-- The options are all set if no call fails. -/
theorem secured_of_passes {us : List (Use String)} (hcfg : Configured c us cfg)
    (hpass : CallStep.Passes lib (frontSteps c cfg)) :
    Secured c lib us ((frontSteps c cfg).map CallStep.call) where
  will t ht := by
    rw [← hcfg.willPayloadlen, ← hcfg.willPayload, ← hcfg.willQos, ← hcfg.willRetain]
    rw [← hcfg.willTopic] at ht
    rw [← ht]
    exact mem_front (mem_optsSteps.mpr (.inl ⟨by rw [ht]; rfl, rfl⟩))
  username u hu := by
    rw [← hcfg.username] at hu
    rw [← hcfg.password, ← hu]
    exact mem_front (mem_optsSteps.mpr (.inr <| .inl ⟨by rw [hu]; rfl, rfl⟩))
  ca htls hused := by
    rw [← hcfg.cafile, ← hcfg.capath] at hused
    rw [← hcfg.cafile, ← hcfg.capath, ← hcfg.certfile, ← hcfg.keyfile]
    exact mem_front (mem_optsSteps.mpr (.inr <| .inr <| .inl ⟨⟨htls, hused⟩, rfl⟩))
  insecure := by
    rw [← hcfg.insecure]
    constructor
    · intro h
      obtain h | h := List.mem_cons.mp h
      · cases h
      obtain ⟨s, hs, hcall⟩ := List.mem_map.mp h
      obtain ⟨-, rfl⟩ | ⟨-, rfl⟩ | ⟨-, rfl⟩ | ⟨hon, rfl⟩ | ⟨-, rfl⟩ | ⟨-, rfl⟩ | rfl |
        ⟨-, p, -, rfl⟩ | rfl := mem_optsSteps.mp hs
      case inr.inr.inr.inr.inl => exact hon
      all_goals cases hcall
    · intro hon
      exact mem_front (mem_optsSteps.mpr (.inr <| .inr <| .inr <| .inl ⟨hon, rfl⟩))
  psk htls hbuilt k hk := by
    rw [← hcfg.psk] at hk
    rw [← hcfg.pskIdentity, ← hk]
    exact mem_front (mem_optsSteps.mpr (.inr <| .inr <| .inr <| .inr <| .inl
      ⟨⟨htls, hbuilt, by rw [hk]; rfl⟩, rfl⟩))
  tlsOpts htls hused := by
    rw [← hcfg.tlsVersion, ← hcfg.ciphers] at hused ⊢
    exact mem_front (mem_optsSteps.mpr (.inr <| .inr <| .inr <| .inr <| .inr <| .inl
      ⟨⟨htls, hused⟩, rfl⟩))
  maxInflight := by
    rw [← hcfg.maxInflight]
    exact mem_front (mem_optsSteps.mpr (.inr <| .inr <| .inr <| .inr <| .inr <| .inr <| .inl rfl))
  proxy hsocks v s hv hs := by
    have hsocks5 : cfg.socks5 = some s := by
      rw [hcfg.socks5, hv, Option.bind_some, hs]
      rfl
    exact mem_front (mem_optsSteps.mpr (.inr <| .inr <| .inr <| .inr <| .inr <| .inr <| .inr <| .inl
      ⟨hsocks, s, hsocks5, rfl⟩))
  protocolVersion := by
    rw [← hcfg.protocolVersion]
    exact mem_front (mem_optsSteps.mpr
      (.inr <| .inr <| .inr <| .inr <| .inr <| .inr <| .inr <| .inr rfl))
  succeeded call hcall := by
    obtain ⟨s, hs, rfl⟩ := List.mem_map.mp hcall
    have hp := hpass s hs
    obtain rfl | hs := List.mem_cons.mp hs
    · exact .inl (CallStep.pass_orReturn.mp hp)
    obtain ⟨-, rfl⟩ | ⟨-, rfl⟩ | ⟨-, rfl⟩ | ⟨-, rfl⟩ | ⟨-, rfl⟩ | ⟨-, rfl⟩ | rfl |
      ⟨-, p, -, rfl⟩ | rfl := mem_optsSteps.mp hs
    case inr.inr.inr.inr.inr.inr.inr.inl => exact .inr (.inl ⟨_, rfl⟩)
    case inr.inr.inr.inr.inr.inr.inr.inr.inl => exact .inl (CallStep.pass_orReturnIt.mp hp)
    case inr.inr.inr.inr.inr.inr.inr.inr.inr => exact .inr (.inr ⟨_, rfl⟩)
    all_goals exact .inl (CallStep.pass_orReturn.mp hp)

theorem isConnect_connectCall (c : Client) (cfg : MosqConfig) : (connectCall c cfg).isConnect := by
  unfold connectCall
  split <;> rfl

theorem connectCall_eq {us : List (Use String)} (hcfg : Configured c us cfg) :
    connectCall c cfg = lastConnect c us := by
  rw [connectCall, lastConnect, hcfg.host, hcfg.port, hcfg.keepalive, hcfg.bindAddress, hcfg.useSrv]

theorem isConnect_front {call : LibCall} (h : call ∈ (frontSteps c cfg).map CallStep.call) :
    call.isConnect = false := by
  obtain ⟨s, hs, rfl⟩ := List.mem_map.mp h
  obtain rfl | hs := List.mem_cons.mp hs
  · rfl
  obtain ⟨-, rfl⟩ | ⟨-, rfl⟩ | ⟨-, rfl⟩ | ⟨-, rfl⟩ | ⟨-, rfl⟩ | ⟨-, rfl⟩ | rfl | ⟨-, p, -, rfl⟩ |
    rfl := mem_optsSteps.mp hs <;> rfl

/-- The connection is the last call, and made exactly if no call in front of it fails. -/
theorem connects_iff {call : LibCall} :
    (call ∈ (CallStep.run lib (frontSteps c cfg ++ [connectStep c cfg])).1 ∧ call.isConnect) ↔
      call = connectCall c cfg ∧ CallStep.Passes lib (frontSteps c cfg) := by
  have hnot : (connectStep c cfg).call ∉ (frontSteps c cfg).map CallStep.call := fun h => by
    have hno := isConnect_front h
    rw [connectStep, isConnect_connectCall] at hno
    cases hno
  constructor
  · rintro ⟨hmem, hconnect⟩
    have hcall := CallStep.mem_of_mem_run hmem
    rw [List.map_append, List.mem_append] at hcall
    obtain hfront | hlast := hcall
    · rw [isConnect_front hfront] at hconnect
      cases hconnect
    · cases List.mem_singleton.mp hlast
      exact ⟨rfl, (CallStep.mem_run_concat hnot).mp hmem⟩
  · rintro ⟨rfl, hpass⟩
    exact ⟨(CallStep.mem_run_concat hnot).mpr hpass, isConnect_connectCall c cfg⟩

/-- A client that connects has got through all stages. -/
theorem startup_connects {env : Env} {host : ClientHost} {input : PubInput} {args : List String}
    {call : LibCall} (h : call ∈ startup c env host input lib args) (hconnect : call.isConnect) :
    ∃ cfg id, clientConfigLoad c env args = .ok cfg ∧ call = connectCall c { cfg with id } ∧
      CallStep.Passes lib (frontSteps c { cfg with id }) ∧
      startup c env host input lib args =
        (frontSteps c { cfg with id }).map CallStep.call ++ [connectCall c { cfg with id }] := by
  have hlast (cfg : MosqConfig) : ∃ calls, (CallStep.run lib [connectStep c cfg]).1 = calls ∧
      calls = [connectCall c cfg] := by
    refine ⟨_, rfl, ?_⟩
    rw [CallStep.run]
    split <;> rfl
  unfold startup at h ⊢
  cases hload : clientConfigLoad c env args with
  | error e =>
    rw [hload] at h
    cases h
  | ok cfg =>
    obtain ⟨id, hid⟩ := clientIdGenerate_eq host (idBase c.pubOrSub) cfg
    simp only [hload, hid] at h ⊢
    have hcalls (hmem : call ∈ (CallStep.run lib (frontSteps c { cfg with id } ++
        [connectStep c { cfg with id }])).1) := connects_iff.mp ⟨hmem, hconnect⟩
    have hrun (hp : CallStep.Passes lib (frontSteps c { cfg with id })) :
        (CallStep.run lib (frontSteps c { cfg with id } ++ [connectStep c { cfg with id }])).1 =
          (frontSteps c { cfg with id }).map CallStep.call ++ [connectCall c { cfg with id }] := by
      obtain ⟨calls, hrun, rfl⟩ := hlast { cfg with id }
      rw [CallStep.run_append hp, hrun]
    cases hwho : c.pubOrSub with
    | sub =>
      simp only [hwho] at h
      obtain ⟨rfl, hp⟩ := hcalls h
      exact ⟨cfg, id, rfl, rfl, hp, hrun hp⟩
    | pub =>
      cases hsetup : pubSetup cfg input with
      | error e =>
        simp only [hwho, hsetup] at h
        cases h
      | ok setup =>
        simp only [hwho, hsetup] at h
        obtain ⟨rfl, hp⟩ := hcalls h
        exact ⟨cfg, id, rfl, rfl, hp, hrun hp⟩

/-- **A client that connects is secured.** Whatever the file, the words and the answers of
libmosquitto are: the connection comes last, to the host and with the values that were given last,
and every option for it was set before, with the last value that was given, and without a failure
that `client_opts_set` looks for. -/
theorem startup_secured {env : Env} {host : ClientHost} {input : PubInput} {args : List String}
    {call : LibCall} (h : call ∈ startup c env host input lib args) (hconnect : call.isConnect) :
    ∃ front, startup c env host input lib args = front ++ [call] ∧
      Secured c lib (allUses c env args) front ∧ call = lastConnect c (allUses c env args) := by
  obtain ⟨cfg, id, hload, rfl, hpass, hcalls⟩ := startup_connects h hconnect
  have hcfg := configured_of_load hload
  have hnamed : Configured c (allUses c env args) { cfg with id } := { hcfg with }
  exact ⟨_, hcalls, secured_of_passes hnamed hpass, connectCall_eq hnamed⟩

/-- The command line `-t led --cafile a --cafile b`. -/
def cafileArgs : List String := ["-t", "led", "--cafile", "a", "--cafile", "b"]

theorem startup_secured_cafile : ∃ front : List LibCall,
    .tlsSet (some "b") none none none ∈ front ∧
      ∃ call, startup subscriber noFile ⟨7, "gw"⟩ ⟨[], fun _ => none⟩ (fun _ => 0) cafileArgs =
        front ++ [call] := by
  have hmem : LibCall.connectBind (some "localhost") 1883 60 none ∈
      startup subscriber noFile ⟨7, "gw"⟩ ⟨[], fun _ => none⟩ (fun _ => 0) cafileArgs := by decide
  obtain ⟨front, hcalls, hsecured, -⟩ := startup_secured hmem rfl
  exact ⟨front, hsecured.ca rfl (.inl (by decide)), _, hcalls⟩

end

/-! ## Names -/

/-- What is left of the hyphen and the host name. `snprintf` has room for a process number of five
digits, and then the name is cut to 23 characters. -/
def idTail (host : ClientHost) : List Char :=
  ('-' :: host.hostname.toList).take
    (min (14 + host.hostname.length) 23 - (8 + (Nat.toDigits 10 host.pid).length))

theorem length_idBase (who : PubOrSub) : (idBase who).toList.length = 7 := by
  cases who <;> decide

theorem idBase_inj {who who' : PubOrSub} (h : idBase who = idBase who') : who = who' := by
  have hne : idBase .pub ≠ idBase .sub := by decide
  cases who with
  | pub =>
    cases who' with
    | pub => rfl
    | sub => exact absurd h hne
  | sub =>
    cases who' with
    | pub => exact absurd h.symm hne
    | sub => rfl

theorem hyphen_not_mem_toDigits (n : Nat) : '-' ∉ Nat.toDigits 10 n := fun h => by
  have hdigit := Nat.isDigit_of_mem_toDigits (by decide) (by decide) h
  cases hdigit

theorem toDigits_inj {m n : Nat} (h : Nat.toDigits 10 m = Nat.toDigits 10 n) : m = n := by
  rw [← Nat.ofDigitChars_ten_toDigits (n := m), h, Nat.ofDigitChars_ten_toDigits]

theorem takeWhile_hyphen {l tail : List Char} (hl : '-' ∉ l) (ht : ∀ c ∈ tail.head?, c = '-') :
    (l ++ tail).takeWhile (· ≠ '-') = l := by
  have hall : ∀ c ∈ l, decide (c ≠ '-') = true := by
    intro c hc
    refine decide_eq_true ?_
    rintro rfl
    exact hl hc
  rw [List.takeWhile_append_of_pos hall]
  cases tail with
  | nil => simp
  | cons c tail =>
    rw [ht c rfl]
    simp

theorem take_snprintf (size : Nat) (l : List Char) :
    (if (snprintf size l).length > mqttIdMaxLength then (snprintf size l).take mqttIdMaxLength
      else snprintf size l) = l.take (min (size - 1) mqttIdMaxLength) := by
  have hcut : (snprintf size l).take mqttIdMaxLength = l.take (min (size - 1) mqttIdMaxLength) := by
    rw [snprintf, List.take_take, Nat.min_comm]
  split
  · exact hcut
  · next hle => rw [← hcut, List.take_of_length_le (Nat.not_lt.mp hle)]

/-- The name of a client, and what of it can be cut off. -/
theorem generatedId_eq (who : PubOrSub) {host : ClientHost} (hname : host.hostname ≠ "")
    (hpid : host.pid < 10 ^ 7) : generatedId (idBase who) host =
      ((idBase who).toList ++ '|' :: Nat.toDigits 10 host.pid) ++ idTail host := by
  have hbase : (idBase who).length = 7 := String.length_toList.symm.trans (length_idBase who)
  have hdigits : (Nat.toDigits 10 host.pid).length ≤ 7 :=
    (Nat.length_toDigits_le_iff (by decide) (by decide)).mpr hpid
  have hpos : 0 < host.hostname.length := by
    refine Nat.pos_of_ne_zero fun hzero => hname ?_
    exact String.length_eq_zero_iff.mp hzero
  have hfront : ((idBase who).toList ++ '|' :: Nat.toDigits 10 host.pid).length =
      8 + (Nat.toDigits 10 host.pid).length := by
    rw [List.length_append, List.length_cons, length_idBase]
    omega
  have hcontent : (idBase who).toList ++ '|' :: (Nat.toDigits 10 host.pid ++
      '-' :: host.hostname.toList) = ((idBase who).toList ++ '|' :: Nat.toDigits 10 host.pid) ++
        '-' :: host.hostname.toList := by
    rw [List.append_assoc, List.cons_append]
  have hsize : min (7 + 2 + 6 + host.hostname.length - 1) mqttIdMaxLength =
      min (14 + host.hostname.length) 23 := by
    rw [mqttIdMaxLength]
    omega
  rw [generatedId, hbase, take_snprintf, hcontent, hsize, List.take_append, hfront,
    List.take_of_length_le (by rw [hfront]; omega), idTail]

theorem head_idTail (host : ClientHost) : ∀ c ∈ (idTail host).head?, c = '-' := by
  intro c hc
  unfold idTail at hc
  generalize min (14 + host.hostname.length) 23 - (8 + (Nat.toDigits 10 host.pid).length) = n at hc
  cases n with
  | zero => cases hc
  | succ n =>
    cases hc
    rfl

/-- **Who gets the same name.** Clients of the same kind with the same process number, if what is
left of their host names is the same; so no two clients on one machine. -/
theorem clientId_eq_iff (who who' : PubOrSub) {a b : ClientHost} (ha : a.hostname ≠ "")
    (hb : b.hostname ≠ "") (hpa : a.pid < 10 ^ 7) (hpb : b.pid < 10 ^ 7) :
    generatedId (idBase who) a = generatedId (idBase who') b ↔
      who = who' ∧ a.pid = b.pid ∧ idTail a = idTail b := by
  rw [generatedId_eq who ha hpa, generatedId_eq who' hb hpb]
  have hfront (who : PubOrSub) (n : Nat) :
      '-' ∉ (idBase who).toList ++ '|' :: Nat.toDigits 10 n := by
    have hbase : '-' ∉ (idBase who).toList := by cases who <;> decide
    simp [hbase, hyphen_not_mem_toDigits]
  constructor
  · intro h
    have hname : (idBase who).toList ++ '|' :: Nat.toDigits 10 a.pid =
        (idBase who').toList ++ '|' :: Nat.toDigits 10 b.pid := by
      rw [← takeWhile_hyphen (hfront who a.pid) (head_idTail a), h,
        takeWhile_hyphen (hfront who' b.pid) (head_idTail b)]
    have hlen : (idBase who).toList.length = (idBase who').toList.length := by
      rw [length_idBase, length_idBase]
    obtain ⟨hbase, hpid⟩ := List.append_inj hname hlen
    rw [hname] at h
    exact ⟨idBase_inj (String.toList_inj.mp hbase), toDigits_inj (List.cons.inj hpid).2,
      List.append_cancel_left h⟩
  · rintro ⟨rfl, hpid, htail⟩
    rw [hpid, htail]

/-- Two processes of one machine. -/
theorem clientId_eq_iff_gateway :
    generatedId (idBase .sub) ⟨7, "gateway"⟩ ≠ generatedId (idBase .sub) ⟨8, "gateway"⟩ := by
  intro h
  have hpid :=
    ((clientId_eq_iff .sub .sub (by decide) (by decide) (by decide) (by decide)).mp h).2.1
  cases hpid

end Ble.Mosquitto
