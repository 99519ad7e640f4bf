import BleGateway.Lib.Lookahead
import BleGateway.SocksUrl
import Mathlib.Logic.Function.Basic

/-!
# Options of the clients (`mosquitto_client/client_shared.c`, lines 37–46 and 250–654)

`client_config_line_proc` goes over the words of a command line, or over those of a line of the
configuration file, and changes `mosq_config`. `mosquitto_pub` and `mosquitto_sub` share it. A
`Char` of a word is one of its bytes.

* `Opt`: the branches of its chain, with the words that each compares with (`Opt.names`).
* `branch`: a branch. It gets the next word, if there is one.
* `clientConfigLineProc`: the loop. `lineProc_eq_run`: it is a `CommandLine` (`Lib/Lookahead.lean`).
* `LineOk`: what the words keep. `lineProc_ok`: it holds after every line that is accepted.
* `view`: the single-valued options as settings. `lineProc_view`: every use overrides the setting of
  its own option and no other.
-/

namespace Ble.Mosquitto

/-! ## The configuration -/

/-- `CLIENT_PUB` and `CLIENT_SUB`. -/
inductive PubOrSub where
  | pub
  | sub
  deriving DecidableEq, Repr

/-- `MSGMODE_…`. -/
inductive MsgMode where
  | none
  | cmd
  | stdinLine
  | stdinFile
  | file
  | null
  deriving DecidableEq, Repr

/-- `MQTT_PROTOCOL_V31` and `MQTT_PROTOCOL_V311`. -/
inductive ProtocolVersion where
  | v31
  | v311
  deriving DecidableEq, Repr

/-- `mosq_config`. The lengths of `topics` and `filterOuts` are `topic_count` and
`filter_out_count`. -/
structure MosqConfig where
  id : Option String := none
  idPrefix : Option String := none
  protocolVersion : ProtocolVersion
  keepalive : Int
  host : Option String := none
  port : Int
  qos : Int := 0
  retain : Bool := false
  pubMode : MsgMode := .none
  fileInput : Option String := none
  message : Option String := none
  msglen : Nat := 0
  topic : Option String := none
  bindAddress : Option String := none
  useSrv : Bool := false
  debug : Bool := false
  quiet : Bool := false
  maxInflight : Nat
  username : Option String := none
  password : Option String := none
  willTopic : Option String := none
  willPayload : Option String := none
  willPayloadlen : Nat := 0
  willQos : Int := 0
  willRetain : Bool := false
  cafile : Option String := none
  capath : Option String := none
  certfile : Option String := none
  keyfile : Option String := none
  ciphers : Option String := none
  insecure : Bool := false
  tlsVersion : Option String := none
  psk : Option String := none
  pskIdentity : Option String := none
  cleanSession : Bool
  topics : List String := []
  noRetain : Bool := false
  filterOuts : List String := []
  verbose : Bool := false
  eol : Bool
  msgCount : Int := 0
  socks5 : Option Socks5 := none
  deriving Repr

/-- `init_config`. -/
def initConfig : MosqConfig where
  port := 1883
  maxInflight := 20
  keepalive := 60
  cleanSession := true
  eol := true
  protocolVersion := .v31

/-- The client that is run, what it is built with, and the checks of topics in libmosquitto, which
are true if they do not return `MOSQ_ERR_INVAL`. -/
structure Client where
  pubOrSub : PubOrSub
  withTls : Bool
  withTlsPsk : Bool
  withSocks : Bool
  withSrv : Bool
  pubTopicCheck : String → Bool
  subTopicCheck : String → Bool

/-! ## The options -/

/-- The branches of `client_config_line_proc`, in order. -/
inductive Opt where
  | port | bindAddress | cafile | capath | cert | ciphers | msgCount | debug | file | help | host
  | insecure | id | idPrefix | keepalive | key | stdinLine | message | maxInflight | nullMessage
  | protocolVersion | proxy | psk | pskIdentity | qos | quiet | retain | stdinFile | srv | topic
  | filterOut | tlsVersion | username | pw | willPayload | willQos | willRetain | willTopic
  | disableCleanSession | noEol | noRetain | verbose
  deriving DecidableEq, Repr

namespace Opt

/-- The order of the chain. -/
def chain : List Opt :=
  [.port, .bindAddress, .cafile, .capath, .cert, .ciphers, .msgCount, .debug, .file, .help, .host,
    .insecure, .id, .idPrefix, .keepalive, .key, .stdinLine, .message, .maxInflight, .nullMessage,
    .protocolVersion, .proxy, .psk, .pskIdentity, .qos, .quiet, .retain, .stdinFile, .srv, .topic,
    .filterOut, .tlsVersion, .username, .pw, .willPayload, .willQos, .willRetain, .willTopic,
    .disableCleanSession, .noEol, .noRetain, .verbose]

/-- The words that a branch compares `argv[i]` with. -/
def names : Opt → List String
  | .port => ["-p", "--port"]
  | .bindAddress => ["-A"]
  | .cafile => ["--cafile"]
  | .capath => ["--capath"]
  | .cert => ["--cert"]
  | .ciphers => ["--ciphers"]
  | .msgCount => ["-C"]
  | .debug => ["-d", "--debug"]
  | .file => ["-f", "--file"]
  | .help => ["--help"]
  | .host => ["-h", "--host"]
  | .insecure => ["--insecure"]
  | .id => ["-i", "--id"]
  | .idPrefix => ["-I", "--id-prefix"]
  | .keepalive => ["-k", "--keepalive"]
  | .key => ["--key"]
  | .stdinLine => ["-l", "--stdin-line"]
  | .message => ["-m", "--message"]
  | .maxInflight => ["-M"]
  | .nullMessage => ["-n", "--null-message"]
  | .protocolVersion => ["-V", "--protocol-version"]
  | .proxy => ["--proxy"]
  | .psk => ["--psk"]
  | .pskIdentity => ["--psk-identity"]
  | .qos => ["-q", "--qos"]
  | .quiet => ["--quiet"]
  | .retain => ["-r", "--retain"]
  | .stdinFile => ["-s", "--stdin-file"]
  | .srv => ["-S"]
  | .topic => ["-t", "--topic"]
  | .filterOut => ["-T", "--filter-out"]
  | .tlsVersion => ["--tls-version"]
  | .username => ["-u", "--username"]
  | .pw => ["-P", "--pw"]
  | .willPayload => ["--will-payload"]
  | .willQos => ["--will-qos"]
  | .willRetain => ["--will-retain"]
  | .willTopic => ["--will-topic"]
  | .disableCleanSession => ["-c", "--disable-clean-session"]
  | .noEol => ["-N"]
  | .noRetain => ["-R"]
  | .verbose => ["-v", "--verbose"]

/-- The branches that end with `i++`: they use the next word. -/
def skips : Opt → Bool
  | .debug | .help | .insecure | .stdinLine | .nullMessage | .quiet | .retain | .stdinFile | .srv
  | .willRetain | .disableCleanSession | .noEol | .noRetain | .verbose => false
  | _ => true

/-- The message for a missing value. -/
def missing : Opt → String
  | .port => "-p argument given but no port specified."
  | .bindAddress => "-A argument given but no address specified."
  | .cafile => "--cafile argument given but no file specified."
  | .capath => "--capath argument given but no directory specified."
  | .cert => "--cert argument given but no file specified."
  | .ciphers => "--ciphers argument given but no ciphers specified."
  | .msgCount => "-C argument given but no count specified."
  | .file => "-f argument given but no file specified."
  | .host => "-h argument given but no host specified."
  | .id => "-i argument given but no id specified."
  | .idPrefix => "-I argument given but no id prefix specified."
  | .keepalive => "-k argument given but no keepalive specified."
  | .key => "--key argument given but no file specified."
  | .message => "-m argument given but no message specified."
  | .maxInflight => "-M argument given but max_inflight not specified."
  | .protocolVersion => "--protocol-version argument given but no version specified."
  | .proxy => "--proxy argument given but no proxy url specified."
  | .psk => "--psk argument given but no key specified."
  | .pskIdentity => "--psk-identity argument given but no identity specified."
  | .qos => "-q argument given but no QoS specified."
  | .topic => "-t argument given but no topic specified."
  | .filterOut => "-T argument given but no topic filter specified."
  | .tlsVersion => "--tls-version argument given but no version specified."
  | .username => "-u argument given but no username specified."
  | .pw => "-P argument given but no password specified."
  | .willPayload => "--will-payload argument given but no will payload specified."
  | .willQos => "--will-qos argument given but no will QoS specified."
  | .willTopic => "--will-topic argument given but no will topic specified."
  | _ => ""

end Opt

/-- Is the branch compiled? -/
def Client.has (c : Client) : Opt → Bool
  | .cafile | .capath | .cert | .ciphers | .insecure | .key | .tlsVersion => c.withTls
  | .psk | .pskIdentity => c.withTlsPsk
  | .proxy => c.withSocks
  | .srv => c.withSrv
  | _ => true

/-- The first branch whose comparison succeeds. -/
def Client.find (c : Client) (arg : String) : Option Opt :=
  Opt.chain.find? fun o => c.has o && o.names.contains arg

/-- Why a configuration is refused. -/
inductive ConfigError where
  | help
  | unknown (arg : String)
  | missing (o : Opt)
  | port (n : Int)
  | msgCount (n : Int)
  | oneMessage
  | idAndPrefix
  | keepalive (n : Int)
  | protocolVersion
  | proxy (url : String) (e : SocksError)
  | qos (n : Int)
  | pubTopic (topic : String)
  | subTopic (topic : String)
  | filterOut (topic : String)
  | willQos (n : Int)
  | willTopic (topic : String)
  | willPayloadOnly
  | willRetainOnly
  | certAndKey
  | pskAndCa
  | pskIdentity
  | noClientId
  | noTopic
  deriving DecidableEq, Repr

namespace ConfigError

/-- What is printed. With `quiet` the last four but `certAndKey` are not. -/
def text : ConfigError → String
  | .help => ""
  | .unknown arg => "Error: Unknown option '" ++ arg ++ "'.\n"
  | .missing o => "Error: " ++ o.missing ++ "\n\n"
  | .port n => "Error: Invalid port given: " ++ toString n ++ "\n"
  | .msgCount n => "Error: Invalid message count \"" ++ toString n ++ "\".\n\n"
  | .oneMessage => "Error: Only one type of message can be sent at once.\n\n"
  | .idAndPrefix => "Error: -i and -I argument cannot be used together.\n\n"
  | .keepalive n => "Error: Invalid keepalive given: " ++ toString n ++ "\n"
  | .protocolVersion => "Error: Invalid protocol version argument given.\n\n"
  | .proxy url .protocol => "Error: Unsupported proxy protocol: " ++ url ++ "\n"
  | .proxy _ .malformed => ""
  | .proxy _ .noHost => "Error: Invalid proxy.\n"
  | .proxy _ (.port n) => "Error: Invalid proxy port " ++ toString n ++ "\n"
  | .qos n => "Error: Invalid QoS given: " ++ toString n ++ "\n"
  | .pubTopic topic =>
    "Error: Invalid publish topic '" ++ topic ++ "', does it contain '+' or '#'?\n"
  | .subTopic topic => "Error: Invalid subscription topic '" ++ topic ++
    "', are all '+' and '#' wildcards correct?\n"
  | .filterOut topic => "Error: Invalid filter topic '" ++ topic ++
    "', are all '+' and '#' wildcards correct?\n"
  | .willQos n => "Error: Invalid will QoS " ++ toString n ++ ".\n\n"
  | .willTopic topic => "Error: Invalid will topic '" ++ topic ++ "', does it contain '+' or '#'?\n"
  | .willPayloadOnly => "Error: Will payload given, but no will topic given.\n"
  | .willRetainOnly => "Error: Will retain given, but no will topic given.\n"
  | .certAndKey => "Error: Both certfile and keyfile must be provided if one of them is.\n"
  | .pskAndCa => "Error: Only one of --psk or --cafile/--capath may be used at once.\n"
  | .pskIdentity => "Error: --psk-identity required if --psk used.\n"
  | .noClientId => "Error: You must provide a client id if you are using the -c option.\n"
  | .noTopic => "Error: You must specify a topic to subscribe to.\n"

/-- What the function returns. -/
def rc : ConfigError → Int
  | .help => 2
  | _ => 1

end ConfigError

/-! ## The branches -/

/-- A branch that uses the next word: `i == argc-1` is an error. -/
def value (o : Opt) (next : Option String) (k : String → Except ConfigError MosqConfig) :
    Except ConfigError MosqConfig :=
  match next with
  | none => .error (.missing o)
  | some v => k v

/-- `if(pub_or_sub == …) goto unknown_option;` -/
def notFor (c : Client) (who : PubOrSub) (arg : String) (k : Except ConfigError MosqConfig) :
    Except ConfigError MosqConfig := if c.pubOrSub = who then .error (.unknown arg) else k

/-- The test of `pub_mode` in five branches. -/
def onlyOne (cfg : MosqConfig) (k : Except ConfigError MosqConfig) :
    Except ConfigError MosqConfig := if cfg.pubMode ≠ .none then .error .oneMessage else k

/-- `strlen`. -/
def strlen (s : String) : Nat := s.length

/-- A branch, for `argv[i] = arg`, where `argv[i+1]` is `next`. -/
def branch (c : Client) (o : Opt) (arg : String) (next : Option String) (cfg : MosqConfig) :
    Except ConfigError MosqConfig :=
  match o with
  | .port => value o next fun v =>
    let port := atoi v.toList
    if port < 1 ∨ port > 65535 then .error (.port port) else .ok { cfg with port }
  | .bindAddress => value o next fun v => .ok { cfg with bindAddress := some v }
  | .cafile => value o next fun v => .ok { cfg with cafile := some v }
  | .capath => value o next fun v => .ok { cfg with capath := some v }
  | .cert => value o next fun v => .ok { cfg with certfile := some v }
  | .ciphers => value o next fun v => .ok { cfg with ciphers := some v }
  | .msgCount => notFor c .pub arg <| value o next fun v =>
    let msgCount := atoi v.toList
    if msgCount < 1 then .error (.msgCount msgCount) else .ok { cfg with msgCount }
  | .debug => .ok { cfg with debug := true }
  | .file => notFor c .sub arg <| onlyOne cfg <| value o next fun v =>
    .ok { cfg with pubMode := .file, fileInput := some v }
  | .help => .error .help
  | .host => value o next fun v => .ok { cfg with host := some v }
  | .insecure => .ok { cfg with insecure := true }
  | .id =>
    if cfg.idPrefix.isSome then .error .idAndPrefix
    else value o next fun v => .ok { cfg with id := some v }
  | .idPrefix =>
    if cfg.id.isSome then .error .idAndPrefix
    else value o next fun v => .ok { cfg with idPrefix := some v }
  | .keepalive => value o next fun v =>
    let keepalive := atoi v.toList
    if keepalive > 65535 then .error (.keepalive keepalive) else .ok { cfg with keepalive }
  | .key => value o next fun v => .ok { cfg with keyfile := some v }
  | .stdinLine => notFor c .sub arg <| onlyOne cfg <| .ok { cfg with pubMode := .stdinLine }
  | .message => notFor c .sub arg <| onlyOne cfg <| value o next fun v =>
    .ok { cfg with message := some v, msglen := strlen v, pubMode := .cmd }
  | .maxInflight => value o next fun v =>
    .ok { cfg with maxInflight := (atoi v.toList % 2 ^ 32).toNat }
  | .nullMessage => notFor c .sub arg <| onlyOne cfg <| .ok { cfg with pubMode := .null }
  | .protocolVersion => value o next fun v =>
    if v = "mqttv31" then .ok { cfg with protocolVersion := .v31 }
    else if v = "mqttv311" then .ok { cfg with protocolVersion := .v311 }
    else .error .protocolVersion
  | .proxy => value o next fun v =>
    match parseSocksUrl v.toList with
    | .error e => .error (.proxy v e)
    | .ok socks5 => .ok { cfg with socks5 := some socks5 }
  | .psk => value o next fun v => .ok { cfg with psk := some v }
  | .pskIdentity => value o next fun v => .ok { cfg with pskIdentity := some v }
  | .qos => value o next fun v =>
    let qos := atoi v.toList
    if qos < 0 ∨ qos > 2 then .error (.qos qos) else .ok { cfg with qos }
  | .quiet => .ok { cfg with quiet := true }
  | .retain => notFor c .sub arg <| .ok { cfg with retain := true }
  | .stdinFile => notFor c .sub arg <| onlyOne cfg <| .ok { cfg with pubMode := .stdinFile }
  | .srv => .ok { cfg with useSrv := true }
  | .topic => value o next fun v =>
    match c.pubOrSub with
    | .pub =>
      if c.pubTopicCheck v then .ok { cfg with topic := some v } else .error (.pubTopic v)
    | .sub =>
      if c.subTopicCheck v then .ok { cfg with topics := cfg.topics ++ [v] }
      else .error (.subTopic v)
  | .filterOut => notFor c .pub arg <| value o next fun v =>
    if c.subTopicCheck v then .ok { cfg with filterOuts := cfg.filterOuts ++ [v] }
    else .error (.filterOut v)
  | .tlsVersion => value o next fun v => .ok { cfg with tlsVersion := some v }
  | .username => value o next fun v => .ok { cfg with username := some v }
  | .pw => value o next fun v => .ok { cfg with password := some v }
  | .willPayload => value o next fun v =>
    .ok { cfg with willPayload := some v, willPayloadlen := strlen v }
  | .willQos => value o next fun v =>
    let willQos := atoi v.toList
    if willQos < 0 ∨ willQos > 2 then .error (.willQos willQos) else .ok { cfg with willQos }
  | .willRetain => .ok { cfg with willRetain := true }
  | .willTopic => value o next fun v =>
    if c.pubTopicCheck v then .ok { cfg with willTopic := some v } else .error (.willTopic v)
  | .disableCleanSession => notFor c .pub arg <| .ok { cfg with cleanSession := false }
  | .noEol => notFor c .pub arg <| .ok { cfg with eol := false }
  | .noRetain => notFor c .pub arg <| .ok { cfg with noRetain := true }
  | .verbose => notFor c .pub arg <| .ok { cfg with verbose := true }

/-- The body of the loop up to `i++`. -/
def onArg (c : Client) (arg : String) (next : Option String) (cfg : MosqConfig) :
    Except ConfigError MosqConfig :=
  match c.find arg with
  | none => .error (.unknown arg)
  | some o => branch c o arg next cfg

/-- Does the branch for a word use the next one? -/
def Client.skips (c : Client) (arg : String) : Bool :=
  match c.find arg with
  | none => false
  | some o => o.skips

/-- `client_config_line_proc` on the words behind `argv[0]`. -/
def clientConfigLineProc (c : Client) (cfg : MosqConfig) :
    List String → Except ConfigError MosqConfig
  | [] => .ok cfg
  | [arg] => onArg c arg none cfg
  | arg :: next :: args =>
    match onArg c arg (some next) cfg with
    | .error e => .error e
    | .ok cfg =>
      if c.skips arg then clientConfigLineProc c cfg args
      else clientConfigLineProc c cfg (next :: args)

/-! ## The loop as a command line -/

/-- What a branch that needs the next word says without it. -/
def missingError (c : Client) (cfg : MosqConfig) (arg : String) : ConfigError :=
  match onArg c arg none cfg with
  | .error e => e
  | .ok _ => .unknown arg

/-- The words, as `Lib/Lookahead.lean` has them. -/
def commandLine (c : Client) : CommandLine MosqConfig String ConfigError where
  takes := c.skips
  flag cfg arg := onArg c arg none cfg
  value cfg arg v := onArg c arg (some v) cfg
  missing := missingError c

/-- A branch that uses no word does not look at the next one. -/
theorem branch_of_not_skips {o : Opt} (h : o.skips = false) (c : Client) (arg : String)
    (next : Option String) (cfg : MosqConfig) :
    branch c o arg next cfg = branch c o arg none cfg := by
  cases o <;> first | rfl | cases h

theorem notFor_error {c : Client} {who : PubOrSub} {arg : String}
    {k : Except ConfigError MosqConfig} (h : ∃ e, k = .error e) :
    ∃ e, notFor c who arg k = .error e := by
  unfold notFor
  split
  · exact ⟨_, rfl⟩
  · exact h

theorem onlyOne_error {cfg : MosqConfig} {k : Except ConfigError MosqConfig}
    (h : ∃ e, k = .error e) : ∃ e, onlyOne cfg k = .error e := by
  unfold onlyOne
  split
  · exact ⟨_, rfl⟩
  · exact h

theorem ite_error {P : Prop} [Decidable P] {e : ConfigError} {k : Except ConfigError MosqConfig}
    (h : ∃ e, k = .error e) : ∃ e', (if P then .error e else k) = .error e' := by
  split
  · exact ⟨_, rfl⟩
  · exact h

/-- One that does needs it. -/
theorem branch_none_of_skips {o : Opt} (h : o.skips) (c : Client) (arg : String)
    (cfg : MosqConfig) : ∃ e, branch c o arg none cfg = .error e := by
  cases o
  case msgCount | filterOut => exact notFor_error ⟨_, rfl⟩
  case file | message => exact notFor_error (onlyOne_error ⟨_, rfl⟩)
  case id | idPrefix => exact ite_error ⟨_, rfl⟩
  all_goals first
    | exact ⟨_, rfl⟩
    | cases h

theorem onArg_of_not_skips {c : Client} {arg : String} (h : c.skips arg = false)
    (next : Option String) (cfg : MosqConfig) : onArg c arg next cfg = onArg c arg none cfg := by
  unfold onArg
  unfold Client.skips at h
  cases hfind : c.find arg with
  | none => rfl
  | some o =>
    rw [hfind] at h
    exact branch_of_not_skips h c arg next cfg

theorem onArg_none_of_skips {c : Client} {arg : String} (h : c.skips arg) (cfg : MosqConfig) :
    onArg c arg none cfg = .error (missingError c cfg arg) := by
  unfold Client.skips at h
  unfold missingError onArg
  cases hfind : c.find arg with
  | none => rfl
  | some o =>
    rw [hfind] at h
    obtain ⟨e, he⟩ := branch_none_of_skips h c arg cfg
    simp only [he]

/-- The loop is the one of the command line. -/
theorem lineProc_eq_run (c : Client) (cfg : MosqConfig) (args : List String) :
    clientConfigLineProc c cfg args = (commandLine c).run cfg args := by
  fun_induction clientConfigLineProc c cfg args with
  | case1 => rfl
  | case2 cfg arg =>
    show _ = if c.skips arg then _ else _
    split
    · next h => exact onArg_none_of_skips h cfg
    · rfl
  | case3 cfg arg next args e he =>
    show _ = if c.skips arg then _ else _
    split
    · show _ = Except.bind (onArg c arg (some next) cfg) _
      rw [he]
      rfl
    · next h =>
      show _ = Except.bind (onArg c arg none cfg) _
      rw [← onArg_of_not_skips (Bool.eq_false_iff.mpr h) (some next), he]
      rfl
  | case4 cfg arg next args cfg' he h ih =>
    rw [ih]
    refine ((CommandLine.run_value (L := commandLine c) h cfg next args).trans ?_).symm
    show Except.bind (onArg c arg (some next) cfg) _ = _
    rw [he]
    rfl
  | case5 cfg arg next args cfg' he h ih =>
    have h := Bool.eq_false_iff.mpr h
    rw [ih]
    refine ((CommandLine.run_flag (L := commandLine c) h cfg (next :: args)).trans ?_).symm
    show Except.bind (onArg c arg none cfg) _ = _
    rw [← onArg_of_not_skips h (some next), he]
    rfl

/-! ## What the words keep -/

/-- What holds of a configuration between two words. -/
structure LineOk (c : Client) (cfg : MosqConfig) : Prop where
  port : 1 ≤ cfg.port ∧ cfg.port ≤ 65535
  keepalive : cfg.keepalive ≤ 65535
  qos : 0 ≤ cfg.qos ∧ cfg.qos ≤ 2
  willQos : 0 ≤ cfg.willQos ∧ cfg.willQos ≤ 2
  ids : cfg.id = none ∨ cfg.idPrefix = none
  message : cfg.message.isSome ↔ cfg.pubMode = .cmd
  fileInput : cfg.fileInput.isSome ↔ cfg.pubMode = .file
  msglen : ∀ m ∈ cfg.message, cfg.msglen = strlen m
  willPayloadlen : cfg.willPayloadlen = cfg.willPayload.elim 0 strlen
  topic : ∀ t ∈ cfg.topic, c.pubTopicCheck t
  willTopic : ∀ t ∈ cfg.willTopic, c.pubTopicCheck t
  topics : ∀ t ∈ cfg.topics, c.subTopicCheck t
  filterOuts : ∀ t ∈ cfg.filterOuts, c.subTopicCheck t
  msgCount : 0 ≤ cfg.msgCount
  maxInflight : cfg.maxInflight < 2 ^ 32
  socks5 : ∀ s ∈ cfg.socks5, s.host ≠ [] ∧ 1 ≤ s.port ∧ s.port ≤ 65535
  ofSub : c.pubOrSub = .sub → cfg.pubMode = .none ∧ cfg.retain = false ∧ cfg.topic = none
  ofPub : c.pubOrSub = .pub → cfg.topics = [] ∧ cfg.filterOuts = [] ∧ cfg.msgCount = 0 ∧
    cfg.cleanSession = true ∧ cfg.eol = true ∧ cfg.noRetain = false ∧ cfg.verbose = false

theorem initConfig_lineOk (c : Client) : LineOk c initConfig where
  port := by decide
  keepalive := by decide
  qos := by decide
  willQos := by decide
  ids := .inl rfl
  message := by decide
  fileInput := by decide
  msglen := nofun
  willPayloadlen := rfl
  topic := nofun
  willTopic := nofun
  topics := nofun
  filterOuts := nofun
  msgCount := by decide
  maxInflight := by decide
  socks5 := nofun
  ofSub _ := ⟨rfl, rfl, rfl⟩
  ofPub _ := ⟨rfl, rfl, rfl, rfl, rfl, rfl, rfl⟩

theorem value_eq_ok {o : Opt} {next : Option String} {k : String → Except ConfigError MosqConfig}
    {cfg : MosqConfig} (h : value o next k = .ok cfg) : ∃ v, next = some v ∧ k v = .ok cfg := by
  cases next with
  | none => cases h
  | some v => exact ⟨v, rfl, h⟩

theorem notFor_eq_ok {c : Client} {who : PubOrSub} {arg : String}
    {k : Except ConfigError MosqConfig} {cfg : MosqConfig} (h : notFor c who arg k = .ok cfg) :
    c.pubOrSub ≠ who ∧ k = .ok cfg := by
  unfold notFor at h
  split at h
  · cases h
  · next hne => exact ⟨hne, h⟩

theorem onlyOne_eq_ok {cfg cfg' : MosqConfig} {k : Except ConfigError MosqConfig}
    (h : onlyOne cfg k = .ok cfg') : cfg.pubMode = .none ∧ k = .ok cfg' := by
  unfold onlyOne at h
  split at h
  · cases h
  · next hne => exact ⟨Classical.not_not.mp hne, h⟩

theorem ite_eq_ok {P : Prop} [Decidable P] {e : ConfigError} {k : Except ConfigError MosqConfig}
    {cfg : MosqConfig} (h : (if P then .error e else k) = .ok cfg) : ¬ P ∧ k = .ok cfg := by
  split at h
  · cases h
  · next hne => exact ⟨hne, h⟩

theorem check_eq_ok {b : Bool} {e : ConfigError} {f cfg : MosqConfig}
    (h : (if b then .ok f else .error e : Except ConfigError MosqConfig) = .ok cfg) :
    b ∧ cfg = f := by
  split at h
  · next hb =>
    cases h
    exact ⟨hb, rfl⟩
  · cases h

/-- A branch that takes its value as it is. -/
theorem value_ok_eq_ok {o : Opt} {next : Option String} {f : String → MosqConfig}
    {cfg : MosqConfig} (h : value o next (fun v => .ok (f v)) = .ok cfg) :
    ∃ v, next = some v ∧ cfg = f v := by
  obtain ⟨v, rfl, h⟩ := value_eq_ok h
  cases h
  exact ⟨v, rfl, rfl⟩

theorem lineOk_mode {c : Client} {cfg : MosqConfig} (hcfg : LineOk c cfg)
    (hnone : cfg.pubMode = .none) : cfg.message = none ∧ cfg.fileInput = none := by
  have hm := hcfg.message
  have hf := hcfg.fileInput
  rw [hnone] at hm hf
  exact ⟨Option.not_isSome_iff_eq_none.mp fun h => (by cases hm.mp h : False),
    Option.not_isSome_iff_eq_none.mp fun h => (by cases hf.mp h : False)⟩

theorem socksPort_range {port : Option (List Char)} {n : Int} (h : socksPort port = .ok n) :
    1 ≤ n ∧ n ≤ 65535 := by
  cases port with
  | none =>
    cases h
    exact ⟨by decide, by decide⟩
  | some t =>
    rw [socksPort] at h
    split at h
    · cases h
    · next hrange =>
      cases h
      omega

theorem parseSocksUrl_range {url : List Char} {s : Socks5} (h : parseSocksUrl url = .ok s) :
    s.host ≠ [] ∧ 1 ≤ s.port ∧ s.port ≤ 65535 := by
  obtain ⟨u, hu, -, hm⟩ := url_of_parse h
  refine ⟨?_, socksPort_range hm.port⟩
  rw [hm.host]
  exact hu.nonempty

/-- A branch that sets `pub_mode` to a mode without a text of its own. -/
theorem LineOk.setMode {c : Client} {cfg : MosqConfig} (hcfg : LineOk c cfg) {m : MsgMode}
    (hne : c.pubOrSub ≠ .sub) (hnone : cfg.pubMode = .none) (hcmd : m ≠ .cmd) (hfile : m ≠ .file) :
    LineOk c { cfg with pubMode := m } := by
  obtain ⟨hm, hf⟩ := lineOk_mode hcfg hnone
  have hmessage : cfg.message.isSome ↔ m = .cmd := by simp [hm, hcmd]
  have hinput : cfg.fileInput.isSome ↔ m = .file := by simp [hf, hfile]
  exact { hcfg with message := hmessage, fileInput := hinput, ofSub := fun h => absurd h hne }

/-- One word. -/
theorem branch_lineOk {c : Client} {o : Opt} {arg : String} {next : Option String}
    {cfg cfg' : MosqConfig} (hcfg : LineOk c cfg) (h : branch c o arg next cfg = .ok cfg') :
    LineOk c cfg' := by
  cases o
  case bindAddress | cafile | capath | cert | ciphers | host | key | psk | pskIdentity | tlsVersion
      | username | pw =>
    obtain ⟨v, -, rfl⟩ := value_ok_eq_ok h
    exact { hcfg with }
  case debug | insecure | quiet | srv | willRetain =>
    cases h
    exact { hcfg with }
  case help => cases h
  case port =>
    obtain ⟨v, -, h⟩ := value_eq_ok h
    obtain ⟨hrange, h⟩ := ite_eq_ok h
    cases h
    have hport : 1 ≤ atoi v.toList ∧ atoi v.toList ≤ 65535 := by omega
    exact { hcfg with port := hport }
  case keepalive =>
    obtain ⟨v, -, h⟩ := value_eq_ok h
    obtain ⟨hrange, h⟩ := ite_eq_ok h
    cases h
    exact { hcfg with keepalive := Int.not_lt.mp hrange }
  case qos =>
    obtain ⟨v, -, h⟩ := value_eq_ok h
    obtain ⟨hrange, h⟩ := ite_eq_ok h
    cases h
    have hqos : 0 ≤ atoi v.toList ∧ atoi v.toList ≤ 2 := by omega
    exact { hcfg with qos := hqos }
  case willQos =>
    obtain ⟨v, -, h⟩ := value_eq_ok h
    obtain ⟨hrange, h⟩ := ite_eq_ok h
    cases h
    have hqos : 0 ≤ atoi v.toList ∧ atoi v.toList ≤ 2 := by omega
    exact { hcfg with willQos := hqos }
  case maxInflight =>
    obtain ⟨v, -, rfl⟩ := value_ok_eq_ok h
    have hmax : (atoi v.toList % 2 ^ 32).toNat < 2 ^ 32 := by omega
    exact { hcfg with maxInflight := hmax }
  case msgCount =>
    obtain ⟨hne, h⟩ := notFor_eq_ok h
    obtain ⟨v, -, h⟩ := value_eq_ok h
    obtain ⟨hrange, h⟩ := ite_eq_ok h
    cases h
    have hcount : 0 ≤ atoi v.toList := by omega
    exact { hcfg with msgCount := hcount, ofPub := fun hp => absurd hp hne }
  case file =>
    obtain ⟨hne, h⟩ := notFor_eq_ok h
    obtain ⟨hnone, h⟩ := onlyOne_eq_ok h
    obtain ⟨v, -, rfl⟩ := value_ok_eq_ok h
    have hmessage : cfg.message.isSome ↔ MsgMode.file = .cmd := by
      simp [(lineOk_mode hcfg hnone).1]
    exact { hcfg with
      message := hmessage
      fileInput := iff_of_true rfl rfl
      ofSub := fun hs => absurd hs hne }
  case message =>
    obtain ⟨hne, h⟩ := notFor_eq_ok h
    obtain ⟨hnone, h⟩ := onlyOne_eq_ok h
    obtain ⟨v, -, rfl⟩ := value_ok_eq_ok h
    have hinput : cfg.fileInput.isSome ↔ MsgMode.cmd = .file := by
      simp [(lineOk_mode hcfg hnone).2]
    have hlen : ∀ m ∈ some v, strlen v = strlen m := by
      rintro m ⟨⟩
      rfl
    exact { hcfg with
      message := iff_of_true rfl rfl
      fileInput := hinput
      msglen := hlen
      ofSub := fun hs => absurd hs hne }
  case stdinLine | nullMessage | stdinFile =>
    obtain ⟨hne, h⟩ := notFor_eq_ok h
    obtain ⟨hnone, h⟩ := onlyOne_eq_ok h
    cases h
    exact hcfg.setMode hne hnone (by decide) (by decide)
  case id =>
    obtain ⟨hfront, h⟩ := ite_eq_ok h
    obtain ⟨v, -, rfl⟩ := value_ok_eq_ok h
    exact { hcfg with ids := .inr (Option.not_isSome_iff_eq_none.mp hfront) }
  case idPrefix =>
    obtain ⟨hid, h⟩ := ite_eq_ok h
    obtain ⟨v, -, rfl⟩ := value_ok_eq_ok h
    exact { hcfg with ids := .inl (Option.not_isSome_iff_eq_none.mp hid) }
  case protocolVersion =>
    obtain ⟨v, -, h⟩ := value_eq_ok h
    split at h
    · cases h
      exact { hcfg with }
    split at h
    · cases h
      exact { hcfg with }
    · cases h
  case proxy =>
    obtain ⟨v, -, h⟩ := value_eq_ok h
    split at h
    · cases h
    · next s hs =>
      cases h
      have hsocks : ∀ t ∈ some s, t.host ≠ [] ∧ 1 ≤ t.port ∧ t.port ≤ 65535 := by
        rintro t ⟨⟩
        exact parseSocksUrl_range hs
      exact { hcfg with socks5 := hsocks }
  case retain =>
    obtain ⟨hne, h⟩ := notFor_eq_ok h
    cases h
    exact { hcfg with ofSub := fun hs => absurd hs hne }
  case disableCleanSession | noEol | noRetain | verbose =>
    obtain ⟨hne, h⟩ := notFor_eq_ok h
    cases h
    exact { hcfg with ofPub := fun hp => absurd hp hne }
  case topic =>
    obtain ⟨v, -, h⟩ := value_eq_ok h
    split at h
    · next hpub =>
      split at h
      · next hcheck =>
        cases h
        have htopic : ∀ t ∈ some v, c.pubTopicCheck t := by
          rintro t ⟨⟩
          exact hcheck
        exact { hcfg with topic := htopic, ofSub := fun hs => by rw [hpub] at hs; cases hs }
      · cases h
    · next hsub =>
      split at h
      · next hcheck =>
        cases h
        have htopics : ∀ t ∈ cfg.topics ++ [v], c.subTopicCheck t := by
          intro t ht
          obtain ht | ht := List.mem_append.mp ht
          · exact hcfg.topics t ht
          · rw [List.mem_singleton.mp ht]
            exact hcheck
        exact { hcfg with topics := htopics, ofPub := fun hp => by rw [hsub] at hp; cases hp }
      · cases h
  case filterOut =>
    obtain ⟨hne, h⟩ := notFor_eq_ok h
    obtain ⟨v, -, h⟩ := value_eq_ok h
    split at h
    · next hcheck =>
      cases h
      have hfilters : ∀ t ∈ cfg.filterOuts ++ [v], c.subTopicCheck t := by
        intro t ht
        obtain ht | ht := List.mem_append.mp ht
        · exact hcfg.filterOuts t ht
        · rw [List.mem_singleton.mp ht]
          exact hcheck
      exact { hcfg with filterOuts := hfilters, ofPub := fun hp => absurd hp hne }
    · cases h
  case willPayload =>
    obtain ⟨v, -, rfl⟩ := value_ok_eq_ok h
    exact { hcfg with willPayloadlen := rfl }
  case willTopic =>
    obtain ⟨v, -, h⟩ := value_eq_ok h
    split at h
    · next hcheck =>
      cases h
      have htopic : ∀ t ∈ some v, c.pubTopicCheck t := by
        rintro t ⟨⟩
        exact hcheck
      exact { hcfg with willTopic := htopic }
    · cases h

theorem onArg_lineOk {c : Client} {arg : String} {next : Option String} {cfg cfg' : MosqConfig}
    (hcfg : LineOk c cfg) (h : onArg c arg next cfg = .ok cfg') : LineOk c cfg' := by
  unfold onArg at h
  split at h
  · cases h
  · exact branch_lineOk hcfg h

/-- A whole line. -/
theorem lineProc_ok {c : Client} {cfg cfg' : MosqConfig} {args : List String}
    (hcfg : LineOk c cfg) (h : clientConfigLineProc c cfg args = .ok cfg') : LineOk c cfg' := by
  rw [lineProc_eq_run] at h
  exact CommandLine.run_induct (L := commandLine c) (fun _ _ _ => onArg_lineOk)
    (fun _ _ _ _ => onArg_lineOk) hcfg h

/-! ## Options as settings -/

/-- What an option can be set to. -/
inductive Setting where
  | text (s : Option String)
  | texts (l : List String)
  | number (n : Int)
  | version (v : ProtocolVersion)
  | proxy (s : Option Socks5)
  | switch (on : Bool)
  deriving DecidableEq, Repr

/-- The setting of an option in a configuration. -/
def view (c : Client) (cfg : MosqConfig) : Opt → Setting
  | .port => .number cfg.port
  | .bindAddress => .text cfg.bindAddress
  | .cafile => .text cfg.cafile
  | .capath => .text cfg.capath
  | .cert => .text cfg.certfile
  | .ciphers => .text cfg.ciphers
  | .msgCount => .number cfg.msgCount
  | .debug => .switch cfg.debug
  | .file => .text cfg.fileInput
  | .help => .switch false
  | .host => .text cfg.host
  | .insecure => .switch cfg.insecure
  | .id => .text cfg.id
  | .idPrefix => .text cfg.idPrefix
  | .keepalive => .number cfg.keepalive
  | .key => .text cfg.keyfile
  | .stdinLine => .switch (cfg.pubMode = .stdinLine)
  | .message => .text cfg.message
  | .maxInflight => .number cfg.maxInflight
  | .nullMessage => .switch (cfg.pubMode = .null)
  | .protocolVersion => .version cfg.protocolVersion
  | .proxy => .proxy cfg.socks5
  | .psk => .text cfg.psk
  | .pskIdentity => .text cfg.pskIdentity
  | .qos => .number cfg.qos
  | .quiet => .switch cfg.quiet
  | .retain => .switch cfg.retain
  | .stdinFile => .switch (cfg.pubMode = .stdinFile)
  | .srv => .switch cfg.useSrv
  | .topic =>
    match c.pubOrSub with
    | .pub => .text cfg.topic
    | .sub => .texts cfg.topics
  | .filterOut => .texts cfg.filterOuts
  | .tlsVersion => .text cfg.tlsVersion
  | .username => .text cfg.username
  | .pw => .text cfg.password
  | .willPayload => .text cfg.willPayload
  | .willQos => .number cfg.willQos
  | .willRetain => .switch cfg.willRetain
  | .willTopic => .text cfg.willTopic
  | .disableCleanSession => .switch (!cfg.cleanSession)
  | .noEol => .switch (!cfg.eol)
  | .noRetain => .switch cfg.noRetain
  | .verbose => .switch cfg.verbose

/-- One more text. -/
def Setting.add (v : String) : Setting → Setting
  | .texts l => .texts (l ++ [v])
  | s => s

/-- What a use of an option makes of its setting: most forget the old one, topics of a subscriber
and filters are collected. -/
def Opt.set (c : Client) (o : Opt) (v : String) (old : Setting) : Setting :=
  match o with
  | .port | .keepalive | .qos | .willQos | .msgCount => .number (atoi v.toList)
  | .maxInflight => .number (atoi v.toList % 2 ^ 32).toNat
  | .protocolVersion => .version (if v = "mqttv31" then .v31 else .v311)
  | .proxy => .proxy (parseSocksUrl v.toList).toOption
  | .topic =>
    match c.pubOrSub with
    | .pub => .text (some v)
    | .sub => old.add v
  | .filterOut => old.add v
  | o => if o.skips then .text (some v) else .switch true

/-- The settings behind a use. -/
def override (c : Client) (f : Opt → Setting) (u : Use String) : Opt → Setting :=
  match c.find u.word with
  | none => f
  | some o => Function.update f o (o.set c (u.valueD "") (f o))

/-- A branch sets its own option and no other. -/
theorem branch_view {c : Client} {o : Opt} {arg : String} {next : Option String}
    {cfg cfg' : MosqConfig} (h : branch c o arg next cfg = .ok cfg') :
    view c cfg' = Function.update (view c cfg) o (o.set c (next.getD "") (view c cfg o)) := by
  funext o'
  cases o
  case bindAddress | cafile | capath | cert | ciphers | host | key | psk | pskIdentity | tlsVersion
      | username | pw =>
    obtain ⟨v, rfl, rfl⟩ := value_ok_eq_ok h
    cases o' <;> rfl
  case debug | insecure | quiet | srv | willRetain =>
    cases h
    cases o' <;> rfl
  case help => cases h
  case port | keepalive | qos | willQos =>
    obtain ⟨v, rfl, h⟩ := value_eq_ok h
    obtain ⟨-, h⟩ := ite_eq_ok h
    cases h
    cases o' <;> rfl
  case maxInflight | willPayload =>
    obtain ⟨v, rfl, rfl⟩ := value_ok_eq_ok h
    cases o' <;> rfl
  case msgCount =>
    obtain ⟨-, h⟩ := notFor_eq_ok h
    obtain ⟨v, rfl, h⟩ := value_eq_ok h
    obtain ⟨-, h⟩ := ite_eq_ok h
    cases h
    cases o' <;> rfl
  case retain | disableCleanSession | noEol | noRetain | verbose =>
    obtain ⟨-, h⟩ := notFor_eq_ok h
    cases h
    cases o' <;> rfl
  case id | idPrefix =>
    obtain ⟨-, h⟩ := ite_eq_ok h
    obtain ⟨v, rfl, rfl⟩ := value_ok_eq_ok h
    cases o' <;> rfl
  case file | message =>
    obtain ⟨-, h⟩ := notFor_eq_ok h
    obtain ⟨hnone, h⟩ := onlyOne_eq_ok h
    obtain ⟨v, rfl, rfl⟩ := value_ok_eq_ok h
    have hmode (m : MsgMode) (hm : MsgMode.none ≠ m) : decide (cfg.pubMode = m) = false := by
      rw [hnone]
      exact decide_eq_false hm
    cases o' <;> first | rfl | exact congrArg Setting.switch (hmode _ (by decide)).symm
  case stdinLine | nullMessage | stdinFile =>
    obtain ⟨-, h⟩ := notFor_eq_ok h
    obtain ⟨hnone, h⟩ := onlyOne_eq_ok h
    cases h
    have hmode (m : MsgMode) (hm : MsgMode.none ≠ m) : decide (cfg.pubMode = m) = false := by
      rw [hnone]
      exact decide_eq_false hm
    cases o' <;> first | rfl | exact congrArg Setting.switch (hmode _ (by decide)).symm
  case protocolVersion =>
    obtain ⟨v, rfl, hk⟩ := value_eq_ok h
    split at hk
    · next hv =>
      cases hk
      cases o' <;> first | rfl | exact congrArg Setting.version (if_pos hv).symm
    split at hk
    · next hv _ =>
      cases hk
      cases o' <;> first | rfl | exact congrArg Setting.version (if_neg hv).symm
    · cases hk
  case proxy =>
    obtain ⟨v, rfl, hk⟩ := value_eq_ok h
    split at hk
    · cases hk
    · next s hs =>
      cases hk
      have hset : some s = (parseSocksUrl v.toList).toOption := by
        rw [hs]
        rfl
      cases o' <;> first | rfl | exact congrArg Setting.proxy hset
  case topic =>
    obtain ⟨v, rfl, hk⟩ := value_eq_ok h
    split at hk
    · next hpub =>
      obtain ⟨-, rfl⟩ := check_eq_ok hk
      cases o' <;> first | rfl | simp [view, Opt.set, hpub]
    · next hsub =>
      obtain ⟨-, rfl⟩ := check_eq_ok hk
      cases o' <;> first | rfl | simp [view, Opt.set, hsub, Setting.add]
  case filterOut =>
    obtain ⟨-, h⟩ := notFor_eq_ok h
    obtain ⟨v, rfl, h⟩ := value_eq_ok h
    obtain ⟨-, rfl⟩ := check_eq_ok h
    cases o' <;> rfl
  case willTopic =>
    obtain ⟨v, rfl, h⟩ := value_eq_ok h
    obtain ⟨-, rfl⟩ := check_eq_ok h
    cases o' <;> rfl

theorem onArg_view {c : Client} {arg : String} {next : Option String} {cfg cfg' : MosqConfig}
    (h : onArg c arg next cfg = .ok cfg') :
    ∃ o, c.find arg = some o ∧
      view c cfg' = Function.update (view c cfg) o (o.set c (next.getD "") (view c cfg o)) := by
  unfold onArg at h
  split at h
  · cases h
  · next o hfind => exact ⟨o, hfind, branch_view h⟩

theorem apply_view {c : Client} {cfg cfg' : MosqConfig} {u : Use String}
    (h : (commandLine c).apply cfg u = .ok cfg') : view c cfg' = override c (view c cfg) u := by
  cases u with
  | flag arg =>
    obtain ⟨o, hfind, hview⟩ := onArg_view h
    simp only [override, Use.word, hfind]
    exact hview
  | value arg v =>
    obtain ⟨o, hfind, hview⟩ := onArg_view h
    simp only [override, Use.word, hfind]
    exact hview

theorem applyAll_view {c : Client} {cfg cfg' : MosqConfig} {us : List (Use String)}
    (h : (commandLine c).applyAll cfg us = .ok cfg') :
    view c cfg' = us.foldl (override c) (view c cfg) := by
  induction us generalizing cfg with
  | nil =>
    cases h
    rfl
  | cons u us ih =>
    obtain ⟨cfg₁, hu, hus⟩ := CommandLine.bind_eq_ok.mp h
    rw [List.foldl_cons, ih hus, apply_view hu]

/-- The settings behind a line that is accepted are those in front of it, overridden by its uses,
one after the other. -/
theorem lineProc_view {c : Client} {cfg cfg' : MosqConfig} {args : List String}
    (h : clientConfigLineProc c cfg args = .ok cfg') :
    view c cfg' = ((commandLine c).uses args).foldl (override c) (view c cfg) := by
  rw [lineProc_eq_run] at h
  have hcomplete := CommandLine.complete_of_run h
  rw [CommandLine.run_eq_applyAll hcomplete] at h
  exact applyAll_view h

end Ble.Mosquitto
