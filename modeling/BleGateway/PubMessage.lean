import BleGateway.ClientLoad
import BleGateway.PubClient

/-!
# The message of the publisher (`mosquitto_client/pub_client.c`, lines 127–199 and 321–347)

Behind `client_config_load`, `mosquitto_pub` reads its message from standard input or from a file,
if it was told to, and gives up if it has no topic or no message.

* `pubSetup`: the globals that the callbacks and the loop of `main` use (`PubClient.lean`).
* `modes`: the options for a message among the words. `modes_of_load`: an accepted configuration has
  at most one, and its mode.
* `pubSetup_iff`: the publisher goes on exactly with one option for a message that yields one, and
  with a topic.
-/

namespace Ble.Mosquitto

/-! ## Reading it -/

/-- Where a message can come from. -/
structure PubInput where
  stdin : List UInt8
  fopen : String → Option (List UInt8)

/-- Why `mosquitto_pub` stops in front of its connection. -/
inductive PubStop where
  | noInput
  | openFile (name : String)
  | tooLarge (name : String)
  | emptyFile (name : String)
  | noTopicOrMessage
  deriving DecidableEq, Repr

/-- `load_stdin`: pieces of 1024 bytes up to the end. `pos` bytes are in `message`. -/
def freadAll (message stdin : List UInt8) : List UInt8 :=
  if _ : stdin.length < 1024 then message ++ stdin
  else freadAll (message ++ stdin.take 1024) (stdin.drop 1024)
termination_by stdin.length
decreasing_by
  rw [List.length_drop]
  omega

/-- `load_stdin`. -/
def loadStdin (input : PubInput) : Except PubStop (List UInt8) :=
  let message := freadAll [] input.stdin
  if message.length = 0 then .error .noInput else .ok message

/-- `load_file`, for files whose size can be told. -/
def loadFile (input : PubInput) (filename : String) : Except PubStop (List UInt8) :=
  match input.fopen filename with
  | none => .error (.openFile filename)
  | some bytes =>
    if bytes.length > 268435455 then .error (.tooLarge filename)
    else if bytes.length = 0 then .error (.emptyFile filename)
    else .ok bytes

/-- The bytes of a word. -/
def wordBytes (s : String) : List UInt8 := s.toList.map fun ch => UInt8.ofNat ch.toNat

/-- `mode` and `message` behind the two loads. -/
def pubMessage (cfg : MosqConfig) (input : PubInput) : Except PubStop (MsgMode × List UInt8) :=
  if cfg.pubMode = .stdinFile then (loadStdin input).map (.stdinFile, ·)
  else
    match cfg.fileInput with
    | some filename => (loadFile input filename).map (.file, ·)
    | none => .ok (cfg.pubMode, cfg.message.elim [] wordBytes)

/-- The globals of `mosquitto_pub`, in front of its connection. -/
def pubSetup (cfg : MosqConfig) (input : PubInput) : Except PubStop PubSetup :=
  match pubMessage cfg input with
  | .error e => .error e
  | .ok (mode, message) =>
    match cfg.topic with
    | none => .error .noTopicOrMessage
    | some topic =>
      if mode = .none then .error .noTopicOrMessage
      else .ok { mode, topic, message, qos := cfg.qos, retain := cfg.retain }

/-! ## The options for it -/

/-- The mode that an option sets. -/
def Opt.mode? : Opt → Option MsgMode
  | .message => some .cmd
  | .file => some .file
  | .stdinLine => some .stdinLine
  | .stdinFile => some .stdinFile
  | .nullMessage => some .null
  | _ => none

/-- The options for a message, in order. -/
def modes (c : Client) (us : List (Use String)) : List MsgMode :=
  us.filterMap fun u => (c.find u.word).bind Opt.mode?

/-- A mode, as the list of the options that have set it. -/
def MsgMode.toList (m : MsgMode) : List MsgMode := if m = .none then [] else [m]

/-- The other options leave the mode. -/
theorem branch_pubMode {c : Client} {o : Opt} {arg : String} {next : Option String}
    {cfg cfg' : MosqConfig} (ho : o.mode? = none) (h : branch c o arg next cfg = .ok cfg') :
    cfg'.pubMode = cfg.pubMode := by
  cases o
  case file | message | stdinLine | nullMessage | stdinFile => cases ho
  case bindAddress | cafile | capath | cert | ciphers | host | key | psk | pskIdentity | tlsVersion
      | username | pw | maxInflight | willPayload =>
    obtain ⟨v, -, rfl⟩ := value_ok_eq_ok h
    rfl
  case debug | insecure | quiet | srv | willRetain =>
    cases h
    rfl
  case help => cases h
  case port | keepalive | qos | willQos =>
    obtain ⟨v, -, h⟩ := value_eq_ok h
    obtain ⟨-, h⟩ := ite_eq_ok h
    cases h
    rfl
  case msgCount =>
    obtain ⟨-, h⟩ := notFor_eq_ok h
    obtain ⟨v, -, h⟩ := value_eq_ok h
    obtain ⟨-, h⟩ := ite_eq_ok h
    cases h
    rfl
  case retain | disableCleanSession | noEol | noRetain | verbose =>
    obtain ⟨-, h⟩ := notFor_eq_ok h
    cases h
    rfl
  case id | idPrefix =>
    obtain ⟨-, h⟩ := ite_eq_ok h
    obtain ⟨v, -, rfl⟩ := value_ok_eq_ok h
    rfl
  case protocolVersion =>
    obtain ⟨v, -, h⟩ := value_eq_ok h
    split at h
    · cases h
      rfl
    · split at h
      · cases h
        rfl
      · cases h
  case proxy =>
    obtain ⟨v, -, h⟩ := value_eq_ok h
    split at h
    · cases h
    · cases h
      rfl
  case topic =>
    obtain ⟨v, -, h⟩ := value_eq_ok h
    split at h
    all_goals
      obtain ⟨-, rfl⟩ := check_eq_ok h
      rfl
  case filterOut =>
    obtain ⟨-, h⟩ := notFor_eq_ok h
    obtain ⟨v, -, h⟩ := value_eq_ok h
    obtain ⟨-, rfl⟩ := check_eq_ok h
    rfl
  case willTopic =>
    obtain ⟨v, -, h⟩ := value_eq_ok h
    obtain ⟨-, rfl⟩ := check_eq_ok h
    rfl

/-- A branch sets the mode if it is an option for a message, and then none was set before. -/
theorem branch_mode {c : Client} {o : Opt} {arg : String} {next : Option String}
    {cfg cfg' : MosqConfig} (h : branch c o arg next cfg = .ok cfg') :
    cfg'.pubMode.toList = cfg.pubMode.toList ++ o.mode?.toList := by
  by_cases ho : o.mode? = none
  · rw [branch_pubMode ho h, ho]
    exact (List.append_nil _).symm
  cases o
  case file | message =>
    obtain ⟨-, h⟩ := notFor_eq_ok h
    obtain ⟨hnone, h⟩ := onlyOne_eq_ok h
    obtain ⟨v, -, rfl⟩ := value_ok_eq_ok h
    rw [hnone]
    rfl
  case stdinLine | nullMessage | stdinFile =>
    obtain ⟨-, h⟩ := notFor_eq_ok h
    obtain ⟨hnone, h⟩ := onlyOne_eq_ok h
    cases h
    rw [hnone]
    rfl
  all_goals exact absurd rfl ho

theorem apply_mode {c : Client} {cfg cfg' : MosqConfig} {u : Use String}
    (h : (commandLine c).apply cfg u = .ok cfg') :
    cfg'.pubMode.toList = cfg.pubMode.toList ++ ((c.find u.word).bind Opt.mode?).toList := by
  have hword {next : Option String} (h : onArg c u.word next cfg = .ok cfg') :
      cfg'.pubMode.toList = cfg.pubMode.toList ++ ((c.find u.word).bind Opt.mode?).toList := by
    unfold onArg at h
    split at h
    · cases h
    · next o hfind =>
      rw [hfind]
      exact branch_mode h
  cases u with
  | flag arg => exact hword h
  | value arg v => exact hword h

theorem applyAll_mode {c : Client} {cfg cfg' : MosqConfig} {us : List (Use String)}
    (h : (commandLine c).applyAll cfg us = .ok cfg') :
    cfg'.pubMode.toList = cfg.pubMode.toList ++ modes c us := by
  induction us generalizing cfg with
  | nil =>
    cases h
    exact (List.append_nil _).symm
  | cons u us ih =>
    obtain ⟨cfg₁, hu, hus⟩ := CommandLine.bind_eq_ok.mp h
    have hcons : modes c (u :: us) = ((c.find u.word).bind Opt.mode?).toList ++ modes c us := by
      rw [modes, List.filterMap_cons]
      cases (c.find u.word).bind Opt.mode? <;> rfl
    rw [ih hus, apply_mode hu, List.append_assoc, hcons]

/-- An accepted configuration has at most one option for a message, and its mode. -/
theorem modes_of_load {c : Client} {env : Env} {args : List String} {cfg : MosqConfig}
    (h : clientConfigLoad c env args = .ok cfg) :
    modes c (allUses c env args) = cfg.pubMode.toList := by
  obtain ⟨hread, cfg₀, hwords, hcheck⟩ := words_of_load h
  rw [lineProc_eq_run] at hwords
  rw [CommandLine.run_eq_applyAll (CommandLine.complete_of_run hwords), uses_allWords hread]
    at hwords
  rw [checkConfig_eq hcheck]
  exact (applyAll_mode hwords).symm

/-! ## What is published -/

theorem freadAll_eq (message stdin : List UInt8) : freadAll message stdin = message ++ stdin := by
  fun_induction freadAll message stdin with
  | case1 message stdin h => rfl
  | case2 message stdin h ih => rw [ih, List.append_assoc, List.take_append_drop]

/-- The message of a mode, in terms of the words. -/
def payload (c : Client) (us : List (Use String)) (input : PubInput) :
    MsgMode → Option (List UInt8)
  | .none => none
  | .cmd => (lastValue c us .message).map wordBytes
  | .stdinFile => if input.stdin = [] then none else some input.stdin
  | .file => (lastValue c us .file).bind fun f => (input.fopen f).bind fun bytes =>
    if bytes ≠ [] ∧ bytes.length ≤ 268435455 then some bytes else none
  | .stdinLine | .null => some []

theorem loadStdin_iff {input : PubInput} {bytes : List UInt8} : loadStdin input = .ok bytes ↔
    (if input.stdin = [] then none else some input.stdin) = some bytes := by
  simp only [loadStdin, freadAll_eq, List.nil_append, List.length_eq_zero_iff]
  split <;> simp

theorem loadFile_iff {input : PubInput} {f : String} {bytes : List UInt8} :
    loadFile input f = .ok bytes ↔ ((input.fopen f).bind fun bytes =>
      if bytes ≠ [] ∧ bytes.length ≤ 268435455 then some bytes else none) = some bytes := by
  unfold loadFile
  cases input.fopen f with
  | none => simp
  | some content =>
    simp only [Option.bind_some, List.length_eq_zero_iff, ← Nat.not_lt]
    by_cases hlarge : content.length > 268435455
    · simp [hlarge]
    · by_cases hempty : content = []
      · simp [hempty]
      · simp [hlarge, hempty]

theorem map_eq_ok_iff {m m' : MsgMode} {x : Except PubStop (List UInt8)} {bytes : List UInt8} :
    x.map (m, ·) = .ok (m', bytes) ↔ m' = m ∧ x = .ok bytes := by
  cases x with
  | error e => simp [Except.map]
  | ok l => simp [Except.map, eq_comm]

section

variable {c : Client} {env : Env} {args : List String} {cfg : MosqConfig}

theorem topic_of_load (h : clientConfigLoad c env args = .ok cfg) (hpub : c.pubOrSub = .pub) :
    cfg.topic = lastValue c (allUses c env args) .topic := by
  refine text_of_load (o := .topic) h ⟨nofun, fun _ => hpub⟩ ?_ ?_ fun v s => ?_
  · simp only [view, hpub]
  · simp only [defaults, view, hpub, initConfig]
  · simp only [Opt.set, hpub]

theorem qos_of_load (h : clientConfigLoad c env args = .ok cfg) :
    cfg.qos = (lastValue c (allUses c env args) .qos).elim 0 fun v => atoi v.toList :=
  number_of_load (o := .qos) h ⟨nofun, nofun⟩ rfl rfl fun _ _ => rfl

/-- What is read for the mode. -/
theorem pubMessage_iff (h : clientConfigLoad c env args = .ok cfg) {input : PubInput} {m : MsgMode}
    {bytes : List UInt8} : pubMessage cfg input = .ok (m, bytes) ↔ m = cfg.pubMode ∧
      if m = .none then bytes = [] else payload c (allUses c env args) input m = some bytes := by
  have hline := lineOk_of_load h
  have hmessage : cfg.message = lastValue c (allUses c env args) .message :=
    text_of_load (o := .message) h ⟨nofun, nofun⟩ rfl rfl fun _ _ => rfl
  have hfile : cfg.fileInput = lastValue c (allUses c env args) .file :=
    text_of_load (o := .file) h ⟨nofun, nofun⟩ rfl rfl fun _ _ => rfl
  have hm := hline.message
  have hf := hline.fileInput
  have hother (hcmd : cfg.pubMode ≠ .cmd) (hfile : cfg.pubMode ≠ .file) :
      cfg.message = none ∧ cfg.fileInput = none :=
    ⟨Option.not_isSome_iff_eq_none.mp fun h => hcmd (hm.mp h),
      Option.not_isSome_iff_eq_none.mp fun h => hfile (hf.mp h)⟩
  unfold pubMessage
  cases hmode : cfg.pubMode with
  | none =>
    obtain ⟨hno, hnofile⟩ := hother (by rw [hmode]; nofun) (by rw [hmode]; nofun)
    rw [if_neg nofun, hno, hnofile]
    simp only [Option.elim_none, Except.ok.injEq, Prod.mk.injEq, eq_comm (b := m)]
    refine and_congr_right fun hm' => ?_
    rw [if_pos hm', eq_comm]
  | cmd =>
    obtain ⟨text, htext⟩ := Option.isSome_iff_exists.mp (hm.mpr hmode)
    have hnofile : cfg.fileInput = none := Option.not_isSome_iff_eq_none.mp fun h => by
      rw [hf.mp h] at hmode
      cases hmode
    rw [if_neg nofun, hnofile, htext]
    simp only [Option.elim_some, Except.ok.injEq, Prod.mk.injEq, eq_comm (b := m)]
    refine and_congr_right fun hm' => ?_
    rw [hm', if_neg nofun, payload, ← hmessage, htext, Option.map_some, Option.some_inj]
  | file =>
    obtain ⟨name, hname⟩ := Option.isSome_iff_exists.mp (hf.mpr hmode)
    rw [if_neg nofun, hname]
    simp only [map_eq_ok_iff]
    refine and_congr_right fun hm' => ?_
    rw [hm', if_neg nofun, payload, ← hfile, hname, Option.bind_some, loadFile_iff]
  | stdinFile =>
    rw [if_pos rfl, map_eq_ok_iff]
    refine and_congr_right fun hm' => ?_
    rw [hm', if_neg nofun, loadStdin_iff]
    rfl
  | stdinLine =>
    obtain ⟨hno, hnofile⟩ := hother (by rw [hmode]; nofun) (by rw [hmode]; nofun)
    rw [if_neg nofun, hno, hnofile]
    simp only [Option.elim_none, Except.ok.injEq, Prod.mk.injEq, eq_comm (b := m)]
    refine and_congr_right fun hm' => ?_
    rw [hm', if_neg nofun, payload, Option.some_inj]
  | null =>
    obtain ⟨hno, hnofile⟩ := hother (by rw [hmode]; nofun) (by rw [hmode]; nofun)
    rw [if_neg nofun, hno, hnofile]
    simp only [Option.elim_none, Except.ok.injEq, Prod.mk.injEq, eq_comm (b := m)]
    refine and_congr_right fun hm' => ?_
    rw [hm', if_neg nofun, payload, Option.some_inj]

/-- **When the publisher goes on**, and what it then publishes: the file and the command line
together have exactly one option for a message, that yields one, and a topic. -/
theorem pubSetup_iff (h : clientConfigLoad c env args = .ok cfg) (hpub : c.pubOrSub = .pub)
    (input : PubInput) (setup : PubSetup) : pubSetup cfg input = .ok setup ↔
      modes c (allUses c env args) = [setup.mode] ∧
      payload c (allUses c env args) input setup.mode = some setup.message ∧
      lastValue c (allUses c env args) .topic = some setup.topic ∧
      setup.qos = (lastValue c (allUses c env args) .qos).elim 0 (fun v => atoi v.toList) ∧
      setup.retain = (lastValue c (allUses c env args) .retain).isSome := by
  have hretain : cfg.retain = (lastValue c (allUses c env args) .retain).isSome :=
    switch_of_load (o := .retain) h ⟨nofun, nofun⟩ rfl rfl fun _ _ => rfl
  rw [modes_of_load h, ← topic_of_load h hpub, ← qos_of_load h, ← hretain]
  constructor
  · intro hsetup
    unfold pubSetup at hsetup
    split at hsetup
    · cases hsetup
    · next mode message hmessage =>
      obtain ⟨rfl, hpayload⟩ := (pubMessage_iff h).mp hmessage
      split at hsetup
      · cases hsetup
      · next topic htopic =>
        split at hsetup
        · cases hsetup
        · next hmode =>
          cases hsetup
          rw [if_neg hmode] at hpayload
          exact ⟨if_neg hmode, hpayload, htopic, rfl, rfl⟩
  · rintro ⟨hmodes, hpayload, htopic, hqos, hretain⟩
    have hmode : setup.mode ≠ .none := fun hnone => by
      rw [hnone] at hpayload
      cases hpayload
    have heq : setup.mode = cfg.pubMode := by
      unfold MsgMode.toList at hmodes
      split at hmodes
      · cases hmodes
      · exact (List.singleton_inj.mp hmodes).symm
    have hmessage : pubMessage cfg input = .ok (setup.mode, setup.message) :=
      (pubMessage_iff h).mpr ⟨heq, by rw [if_neg hmode]; exact hpayload⟩
    simp only [pubSetup, hmessage, htopic, if_neg hmode, ← hqos, ← hretain]

/-- A publisher without a configuration file. -/
def publisherClient : Client := { subscriber with pubOrSub := .pub }

/-- `-t led -l`: the lines of standard input. -/
theorem pubSetup_iff_lines : ∃ cfg,
    clientConfigLoad publisherClient noFile ["-t", "led", "-l"] = .ok cfg ∧
      pubSetup cfg ⟨[], fun _ => none⟩ = .ok ⟨.stdinLine, "led", [], 0, false⟩ := by
  have h : ∃ cfg, clientConfigLoad publisherClient noFile ["-t", "led", "-l"] = .ok cfg :=
    ⟨_, rfl⟩
  obtain ⟨cfg, h⟩ := h
  refine ⟨cfg, h, (pubSetup_iff h rfl _ _).mpr ?_⟩
  decide

end

end Ble.Mosquitto
