import BleGateway.ClientConfig
import BleGateway.Lib.Fgets

/-!
# Loading the configuration (`mosquitto_client/client_shared.c`, lines 93–247)

`client_config_load` processes the default configuration file line by line, then the command line,
and then checks what it has.

* `stripEol`: the end of a line is cut off in a loop that does not stop in front of the array
  `line[1024]`.
* `clientConfigLoad`: the function.
* `load_iff`: a configuration is accepted exactly if every line of the file is `Readable` and the
  words of the file together with the command line are accepted as one command line.
* `load_valid`: what holds of every configuration that is accepted.
* `load_view`: its settings are the defaults, overridden by the file and then by the command line.
  `load_lastUse`: so the last use of an option counts.
-/

namespace Ble.Mosquitto

/-! ## Lines of the file -/

/-- The characters up to the terminating zero. -/
def cString (l : List Char) : List Char := l.takeWhile (· ≠ '\x00')

/-- `while(line[strlen(line)-1] == 10 || …) line[strlen(line)-1] = 0;` on the characters from the
last one on. Of an empty string it looks at `line[-1]`. -/
def stripRev : List Char → Option (List Char)
  | [] => none
  | c :: cs => if c = '\n' ∨ c = '\r' then stripRev cs else some (c :: cs)

def stripEol (line : List Char) : Option (List Char) := (stripRev line.reverse).map List.reverse

/-- `strtok(s, " ")`: a word and where the next call goes on. -/
def strtok (s : List Char) : Option (List Char × List Char) :=
  match s.dropWhile (· = ' ') with
  | [] => none
  | c :: cs => some ((c :: cs).takeWhile (· ≠ ' '), ((c :: cs).dropWhile (· ≠ ' ')).tail)

/-- `args[1]` and `args[2]`, if they are there. What follows them is not looked at. -/
def lineArgs (line : List Char) : List String :=
  match strtok line with
  | none => []
  | some (w, rest) =>
    match strtok rest with
    | none => [String.ofList w]
    | some (v, _) => [String.ofList w, String.ofList v]

/-- Why loading stops. -/
inductive LoadStop where
  | error (e : ConfigError)
  | overrun
  deriving DecidableEq, Repr

/-- One turn of the loop over the file, for what `fgets` has stored. -/
def fileLine (c : Client) (cfg : MosqConfig) (line : List Char) : Except LoadStop MosqConfig :=
  if line.head? = some '#' then .ok cfg
  else
    match stripEol (cString line) with
    | none => .error .overrun
    | some line =>
      match clientConfigLineProc c cfg (lineArgs line) with
      | .error e => .error (.error e)
      | .ok cfg => .ok cfg

/-- The loop. -/
def fileLines (c : Client) (cfg : MosqConfig) : List (List Char) → Except LoadStop MosqConfig
  | [] => .ok cfg
  | line :: lines => (fileLine c cfg line).bind fun cfg => fileLines c cfg lines

/-! ## Loading -/

/-- The environment: two variables, and the files that `fopen` can read. -/
structure Env where
  xdgConfigHome : Option String
  home : Option String
  fopen : String → Option (List Char)

/-- `loc`. -/
def Env.loc (env : Env) (who : PubOrSub) : Option String :=
  let file := match who with
    | .pub => "/mosquitto_pub"
    | .sub => "/mosquitto_sub"
  match env.xdgConfigHome with
  | some dir => some (dir ++ file)
  | none => env.home.map (· ++ "/.config" ++ file)

/-- What the calls `fgets(line, 1024, fptr)` store. -/
def Env.lines (env : Env) (c : Client) : List (List Char) :=
  match (env.loc c.pubOrSub).bind env.fopen with
  | none => []
  | some file => Fgets.pieces '\n' 1022 file

/-- The checks behind the command line, and the default host. -/
def checkConfig (c : Client) (cfg : MosqConfig) : Except ConfigError MosqConfig :=
  if cfg.willPayload.isSome ∧ cfg.willTopic.isNone then .error .willPayloadOnly
  else if cfg.willRetain ∧ cfg.willTopic.isNone then .error .willRetainOnly
  else if c.withTls ∧ (cfg.certfile.isSome ∧ cfg.keyfile.isNone ∨
      cfg.keyfile.isSome ∧ cfg.certfile.isNone) then .error .certAndKey
  else if c.withTlsPsk ∧ (cfg.cafile.isSome ∨ cfg.capath.isSome) ∧ cfg.psk.isSome then
    .error .pskAndCa
  else if c.withTlsPsk ∧ cfg.psk.isSome ∧ cfg.pskIdentity.isNone then .error .pskIdentity
  else if c.pubOrSub = .sub ∧ cfg.cleanSession = false ∧ (cfg.idPrefix.isSome ∨ cfg.id.isNone) then
    .error .noClientId
  else if c.pubOrSub = .sub ∧ cfg.topics = [] then .error .noTopic
  else .ok { cfg with host := some (cfg.host.getD "localhost") }

/-- `client_config_load`, for the words behind `argv[0]`. -/
def clientConfigLoad (c : Client) (env : Env) (args : List String) :
    Except LoadStop MosqConfig :=
  match fileLines c initConfig (env.lines c) with
  | .error e => .error e
  | .ok cfg =>
    match clientConfigLineProc c cfg args with
    | .error e => .error (.error e)
    | .ok cfg =>
      match checkConfig c cfg with
      | .error e => .error (.error e)
      | .ok cfg => .ok cfg

/-! ## The file as a part of the command line -/

/-- The words of a line that are looked at. -/
def lineWords (line : List Char) : List String :=
  if line.head? = some '#' then []
  else ((stripEol (cString line)).map lineArgs).getD []

/-- A comment, or a line that is not blank and whose words are complete. -/
def Readable (c : Client) (line : List Char) : Prop :=
  line.head? = some '#' ∨
    (∃ ch ∈ cString line, ch ≠ '\n' ∧ ch ≠ '\r') ∧ (commandLine c).Complete (lineWords line)

theorem stripRev_isSome_iff (l : List Char) :
    (stripRev l).isSome ↔ ∃ ch ∈ l, ch ≠ '\n' ∧ ch ≠ '\r' := by
  induction l with
  | nil => simp [stripRev]
  | cons ch l ih =>
    rw [stripRev]
    split
    · next h =>
      rw [ih]
      constructor
      · rintro ⟨x, hx, hne⟩
        exact ⟨x, List.mem_cons_of_mem _ hx, hne⟩
      · rintro ⟨x, hx, hne⟩
        obtain rfl | hx := List.mem_cons.mp hx
        · exact absurd h (not_or.mpr hne)
        · exact ⟨x, hx, hne⟩
    · next h => exact iff_of_true rfl ⟨ch, List.mem_cons_self, not_or.mp h⟩

/-- The loop stays in the array exactly if the line has something but its end. -/
theorem stripEol_isSome_iff (l : List Char) :
    (stripEol l).isSome ↔ ∃ ch ∈ l, ch ≠ '\n' ∧ ch ≠ '\r' := by
  rw [stripEol, Option.isSome_map, stripRev_isSome_iff]
  simp only [List.mem_reverse]

/-- A line is accepted if it is readable and its words are accepted. -/
theorem fileLine_eq_ok_iff {c : Client} {cfg cfg' : MosqConfig} {line : List Char} :
    fileLine c cfg line = .ok cfg' ↔
      Readable c line ∧ (commandLine c).run cfg (lineWords line) = .ok cfg' := by
  by_cases hcomment : line.head? = some '#'
  · simp [fileLine, Readable, lineWords, hcomment, CommandLine.run]
  have hsome := stripEol_isSome_iff (cString line)
  simp only [fileLine, Readable, lineWords, hcomment, if_false, false_or]
  cases hstrip : stripEol (cString line) with
  | none =>
    rw [hstrip] at hsome
    exact iff_of_false (fun h => by cases h) fun h => by cases hsome.mpr h.1.1
  | some l =>
    rw [hstrip] at hsome
    simp only [Option.map_some, Option.getD_some, lineProc_eq_run]
    cases hrun : (commandLine c).run cfg (lineArgs l) with
    | error e => simp
    | ok cfg₁ =>
      have hcomplete := CommandLine.complete_of_run hrun
      simp only [hsome.mp rfl, hcomplete, and_self, true_and, Except.ok.injEq]

/-- So are the lines of the file, one by one. -/
theorem fileLines_eq_ok_iff {c : Client} {cfg cfg' : MosqConfig} {lines : List (List Char)} :
    fileLines c cfg lines = .ok cfg' ↔
      (∀ l ∈ lines, Readable c l) ∧
        (commandLine c).runAll cfg (lines.map lineWords) = .ok cfg' := by
  induction lines generalizing cfg with
  | nil => simp [fileLines, CommandLine.runAll]
  | cons l lines ih =>
    rw [fileLines, CommandLine.bind_eq_ok, List.map_cons, CommandLine.runAll,
      CommandLine.bind_eq_ok, List.forall_mem_cons]
    constructor
    · rintro ⟨cfg₁, hl, hlines⟩
      obtain ⟨hread, hrun⟩ := fileLine_eq_ok_iff.mp hl
      obtain ⟨hall, hrest⟩ := ih.mp hlines
      exact ⟨⟨hread, hall⟩, cfg₁, hrun, hrest⟩
    · rintro ⟨⟨hread, hall⟩, cfg₁, hrun, hrest⟩
      exact ⟨cfg₁, fileLine_eq_ok_iff.mpr ⟨hread, hrun⟩, ih.mpr ⟨hall, hrest⟩⟩

theorem Readable.complete {c : Client} {line : List Char} (h : Readable c line) :
    (commandLine c).Complete (lineWords line) := by
  obtain hcomment | ⟨-, hcomplete⟩ := h
  · rw [lineWords, if_pos hcomment]
    exact trivial
  · exact hcomplete

/-- The words of the file, then those of the command line. -/
def allWords (c : Client) (env : Env) (args : List String) : List String :=
  (env.lines c).flatMap lineWords ++ args

/-- The three stages of loading. -/
theorem load_eq_ok_iff {c : Client} {env : Env} {args : List String} {cfg : MosqConfig} :
    clientConfigLoad c env args = .ok cfg ↔
      ∃ cfg₁, fileLines c initConfig (env.lines c) = .ok cfg₁ ∧
        ∃ cfg₀, clientConfigLineProc c cfg₁ args = .ok cfg₀ ∧ checkConfig c cfg₀ = .ok cfg := by
  unfold clientConfigLoad
  cases fileLines c initConfig (env.lines c) with
  | error e => simp
  | ok cfg₁ =>
    cases hline : clientConfigLineProc c cfg₁ args with
    | error e => simp [hline]
    | ok cfg₀ =>
      cases hcheck : checkConfig c cfg₀ with
      | error e => simp [hline, hcheck]
      | ok cfg₂ => simp [hline, hcheck]

theorem complete_lineWords {c : Client} {env : Env} (h : ∀ l ∈ env.lines c, Readable c l) :
    ∀ l ∈ (env.lines c).map lineWords, (commandLine c).Complete l := by
  intro l hl
  obtain ⟨line, hline, rfl⟩ := List.mem_map.mp hl
  exact (h line hline).complete

/-- What is accepted is accepted as one command line. -/
theorem words_of_load {c : Client} {env : Env} {args : List String} {cfg : MosqConfig}
    (h : clientConfigLoad c env args = .ok cfg) :
    (∀ l ∈ env.lines c, Readable c l) ∧
      ∃ cfg₀, clientConfigLineProc c initConfig (allWords c env args) = .ok cfg₀ ∧
        checkConfig c cfg₀ = .ok cfg := by
  obtain ⟨cfg₁, hfile, cfg₀, hargs, hcheck⟩ := load_eq_ok_iff.mp h
  obtain ⟨hread, hrun⟩ := fileLines_eq_ok_iff.mp hfile
  obtain ⟨-, hflat⟩ := CommandLine.runAll_eq_ok_iff.mp hrun
  refine ⟨hread, cfg₀, ?_, hcheck⟩
  rw [allWords, List.flatMap_def, lineProc_eq_run,
    CommandLine.run_append (CommandLine.complete_of_run hflat), hflat]
  rw [lineProc_eq_run] at hargs
  exact hargs

/-- **The file counts as the front of the command line.** A configuration is accepted exactly if no
line of the file is blank or lacks a value, all words together are accepted as one command line, and
what they lead to passes the checks. -/
theorem load_iff (c : Client) (env : Env) (args : List String) (cfg : MosqConfig) :
    clientConfigLoad c env args = .ok cfg ↔
      (∀ l ∈ env.lines c, Readable c l) ∧
        ∃ cfg₀, clientConfigLineProc c initConfig (allWords c env args) = .ok cfg₀ ∧
          checkConfig c cfg₀ = .ok cfg := by
  refine ⟨words_of_load, ?_⟩
  rintro ⟨hread, cfg₀, hall, hcheck⟩
  have hcomplete := complete_lineWords hread
  rw [allWords, List.flatMap_def, lineProc_eq_run,
    CommandLine.run_append (CommandLine.complete_flatten hcomplete)] at hall
  obtain ⟨cfg₁, hfile, hargs⟩ := CommandLine.bind_eq_ok.mp hall
  rw [← lineProc_eq_run] at hargs
  exact load_eq_ok_iff.mpr ⟨cfg₁, fileLines_eq_ok_iff.mpr
    ⟨hread, CommandLine.runAll_eq_ok_iff.mpr ⟨hcomplete, hfile⟩⟩, cfg₀, hargs, hcheck⟩

/-! ## What is accepted -/

/-- What holds of a configuration that a client works with. -/
structure Valid (c : Client) (cfg : MosqConfig) : Prop extends LineOk c cfg where
  host : cfg.host.isSome
  will : cfg.willPayload.isSome ∨ cfg.willRetain → cfg.willTopic.isSome
  cert : c.withTls → (cfg.certfile.isSome ↔ cfg.keyfile.isSome)
  psk : c.withTlsPsk → cfg.psk.isSome →
    cfg.cafile = none ∧ cfg.capath = none ∧ cfg.pskIdentity.isSome
  session : c.pubOrSub = .sub → cfg.cleanSession = false → cfg.id.isSome ∧ cfg.idPrefix = none
  subscribes : c.pubOrSub = .sub → cfg.topics ≠ []

theorem isSome_of_not_isNone {α : Type} {o : Option α} (h : ¬ o.isNone) : o.isSome := by
  cases o with
  | none => exact absurd rfl h
  | some a => rfl

theorem checkConfig_valid {c : Client} {cfg cfg' : MosqConfig} (hcfg : LineOk c cfg)
    (h : checkConfig c cfg = .ok cfg') : Valid c cfg' := by
  unfold checkConfig at h
  obtain ⟨hpayload, h⟩ := ite_eq_ok h
  obtain ⟨hretain, h⟩ := ite_eq_ok h
  obtain ⟨hcert, h⟩ := ite_eq_ok h
  obtain ⟨hca, h⟩ := ite_eq_ok h
  obtain ⟨hidentity, h⟩ := ite_eq_ok h
  obtain ⟨hid, h⟩ := ite_eq_ok h
  obtain ⟨htopic, h⟩ := ite_eq_ok h
  cases h
  have hwill : cfg.willPayload.isSome ∨ cfg.willRetain → cfg.willTopic.isSome := by
    rintro (hp | hr)
    · exact isSome_of_not_isNone fun hn => hpayload ⟨hp, hn⟩
    · exact isSome_of_not_isNone fun hn => hretain ⟨hr, hn⟩
  have hkeys : c.withTls → (cfg.certfile.isSome ↔ cfg.keyfile.isSome) := fun htls =>
    ⟨fun hc => isSome_of_not_isNone fun hn => hcert ⟨htls, .inl ⟨hc, hn⟩⟩,
      fun hk => isSome_of_not_isNone fun hn => hcert ⟨htls, .inr ⟨hk, hn⟩⟩⟩
  have hpsk : c.withTlsPsk → cfg.psk.isSome →
      cfg.cafile = none ∧ cfg.capath = none ∧ cfg.pskIdentity.isSome := fun hb hp =>
    ⟨Option.not_isSome_iff_eq_none.mp fun hf => hca ⟨hb, .inl hf, hp⟩,
      Option.not_isSome_iff_eq_none.mp fun hf => hca ⟨hb, .inr hf, hp⟩,
      isSome_of_not_isNone fun hn => hidentity ⟨hb, hp, hn⟩⟩
  have hsession : c.pubOrSub = .sub → cfg.cleanSession = false →
      cfg.id.isSome ∧ cfg.idPrefix = none := fun hs hclean =>
    ⟨isSome_of_not_isNone fun hn => hid ⟨hs, hclean, .inr hn⟩,
      Option.not_isSome_iff_eq_none.mp fun hp => hid ⟨hs, hclean, .inl hp⟩⟩
  exact { hcfg with
    host := rfl
    will := hwill
    cert := hkeys
    psk := hpsk
    session := hsession
    subscribes := fun hs hnil => htopic ⟨hs, hnil⟩ }

theorem lineOk_of_load {c : Client} {env : Env} {args : List String} {cfg : MosqConfig}
    (h : clientConfigLoad c env args = .ok cfg) : LineOk c cfg := by
  obtain ⟨-, cfg₀, hwords, hcheck⟩ := words_of_load h
  exact (checkConfig_valid (lineProc_ok (initConfig_lineOk c) hwords) hcheck).toLineOk

/-- **What every accepted configuration satisfies**, whatever the file and the command line. -/
theorem load_valid {c : Client} {env : Env} {args : List String} {cfg : MosqConfig}
    (h : clientConfigLoad c env args = .ok cfg) : Valid c cfg := by
  obtain ⟨-, cfg₀, hwords, hcheck⟩ := words_of_load h
  exact checkConfig_valid (lineProc_ok (initConfig_lineOk c) hwords) hcheck

/-! ## Whose value counts -/

/-- Behind the checks nothing but the host is set. -/
theorem checkConfig_eq {c : Client} {cfg cfg' : MosqConfig} (h : checkConfig c cfg = .ok cfg') :
    cfg' = { cfg with host := some (cfg.host.getD "localhost") } := by
  unfold checkConfig at h
  obtain ⟨-, h⟩ := ite_eq_ok h
  obtain ⟨-, h⟩ := ite_eq_ok h
  obtain ⟨-, h⟩ := ite_eq_ok h
  obtain ⟨-, h⟩ := ite_eq_ok h
  obtain ⟨-, h⟩ := ite_eq_ok h
  obtain ⟨-, h⟩ := ite_eq_ok h
  obtain ⟨-, h⟩ := ite_eq_ok h
  cases h
  rfl

theorem checkConfig_view {c : Client} {cfg cfg' : MosqConfig} (h : checkConfig c cfg = .ok cfg')
    {o : Opt} (ho : o ≠ .host) : view c cfg' o = view c cfg o := by
  rw [checkConfig_eq h]
  cases o <;> first | rfl | exact absurd rfl ho

/-- The settings that nothing has overridden. -/
def defaults (c : Client) : Opt → Setting
  | .host => .text (some "localhost")
  | o => view c initConfig o

/-- The values that an option is given, in order. A use without a value counts as one with an empty
value. -/
def values (c : Client) (o : Opt) (us : List (Use String)) : List String :=
  us.filterMap fun u => if c.find u.word = some o then some (u.valueD "") else none

/-- An option that has one value: all but the topics of a subscriber and the filters. -/
def Opt.Single (c : Client) (o : Opt) : Prop := o ≠ .filterOut ∧ (o = .topic → c.pubOrSub = .pub)

/-- The setting of one option is made from its own uses. -/
theorem foldl_override (c : Client) (o : Opt) (us : List (Use String)) (f : Opt → Setting) :
    us.foldl (override c) f o = (values c o us).foldl (fun old v => o.set c v old) (f o) := by
  induction us generalizing f with
  | nil => rfl
  | cons u us ih =>
    rw [List.foldl_cons, ih, values, values, List.filterMap_cons, override]
    cases hfind : c.find u.word with
    | none => simp
    | some o' =>
      by_cases ho : o' = o
      · subst ho
        simp
      · simp [ho, Function.update_of_ne (Ne.symm ho)]

theorem set_of_single {c : Client} {o : Opt} (ho : o.Single c) (v : String) (s s' : Setting) :
    o.set c v s = o.set c v s' := by
  obtain ⟨hfilter, htopic⟩ := ho
  cases o
  case filterOut => exact absurd rfl hfilter
  case topic => simp only [Opt.set, htopic rfl]
  all_goals rfl

/-- Of several values the last one counts. -/
theorem foldl_set_of_single {c : Client} {o : Opt} (ho : o.Single c) (vs : List String)
    (s : Setting) :
    vs.foldl (fun old v => o.set c v old) s = vs.getLast?.elim s (o.set c · s) := by
  induction vs generalizing s with
  | nil => rfl
  | cons v vs ih =>
    rw [List.foldl_cons, ih, List.getLast?_cons]
    cases vs.getLast? with
    | none => rfl
    | some w => exact set_of_single ho w _ s

/-- The uses of the lines of the file. -/
def fileUses (c : Client) (env : Env) : List (Use String) :=
  (env.lines c).flatMap fun l => (commandLine c).uses (lineWords l)

/-- All uses, of the file and of the command line. -/
def allUses (c : Client) (env : Env) (args : List String) : List (Use String) :=
  fileUses c env ++ (commandLine c).uses args

theorem uses_allWords {c : Client} {env : Env} {args : List String}
    (hread : ∀ l ∈ env.lines c, Readable c l) :
    (commandLine c).uses (allWords c env args) = allUses c env args := by
  have hcomplete := complete_lineWords hread
  rw [allWords, List.flatMap_def, CommandLine.uses_append (CommandLine.complete_flatten hcomplete),
    CommandLine.uses_flatten hcomplete, List.flatMap_map]
  rfl

/-- The settings of an accepted configuration, option by option. -/
theorem load_view {c : Client} {env : Env} {args : List String} {cfg : MosqConfig}
    (h : clientConfigLoad c env args = .ok cfg) (o : Opt) :
    view c cfg o = (values c o (allUses c env args)).foldl
      (fun old v => o.set c v old) (defaults c o) := by
  obtain ⟨hread, cfg₀, hwords, hcheck⟩ := words_of_load h
  have hview := congrFun (lineProc_view hwords) o
  rw [uses_allWords hread, foldl_override] at hview
  by_cases ho : o = .host
  · subst ho
    have hsingle : Opt.host.Single c := ⟨nofun, nofun⟩
    rw [foldl_set_of_single hsingle] at hview ⊢
    rw [checkConfig_eq hcheck]
    cases hlast : (values c .host (allUses c env args)).getLast? with
    | none =>
      rw [hlast] at hview
      have hnone : cfg₀.host = none := Setting.text.inj hview
      rw [view, hnone]
      rfl
    | some v =>
      rw [hlast] at hview
      have hsome : cfg₀.host = some v := Setting.text.inj hview
      rw [view, hsome]
      rfl
  · rw [checkConfig_view hcheck ho, hview]
    cases o <;> first | rfl | exact absurd rfl ho

/-- The last value of an option. -/
def lastValue (c : Client) (us : List (Use String)) (o : Opt) : Option String :=
  (values c o us).getLast?

/-- The setting of an option with one value. -/
theorem load_single {c : Client} {env : Env} {args : List String} {cfg : MosqConfig} {o : Opt}
    (h : clientConfigLoad c env args = .ok cfg) (ho : o.Single c) :
    view c cfg o =
      (lastValue c (allUses c env args) o).elim (defaults c o) (o.set c · (defaults c o)) := by
  rw [load_view h, foldl_set_of_single ho]
  rfl

/-- An option whose settings are all of one kind. -/
theorem value_of_load {c : Client} {env : Env} {args : List String} {cfg : MosqConfig}
    (h : clientConfigLoad c env args = .ok cfg) {o : Opt} (ho : o.Single c) {α : Type}
    {kind : α → Setting} (hkind : kind.Injective) {x d : α} {of : String → α}
    (hview : view c cfg o = kind x) (hdefault : defaults c o = kind d)
    (hset : ∀ v s, o.set c v s = kind (of v)) :
    x = (lastValue c (allUses c env args) o).elim d of := by
  have hlast := load_single h ho
  rw [hview, hdefault] at hlast
  refine hkind (hlast.trans ?_)
  cases lastValue c (allUses c env args) o with
  | none => rfl
  | some v => exact hset v _

/-- An option that is a text. -/
theorem text_of_load {c : Client} {env : Env} {args : List String} {cfg : MosqConfig}
    (h : clientConfigLoad c env args = .ok cfg) {o : Opt} (ho : o.Single c) {x : Option String}
    (hview : view c cfg o = .text x) (hdefault : defaults c o = .text none)
    (hset : ∀ v s, o.set c v s = .text (some v)) : x = lastValue c (allUses c env args) o := by
  refine (value_of_load h ho (fun _ _ => Setting.text.inj) hview hdefault hset).trans ?_
  cases lastValue c (allUses c env args) o <;> rfl

/-- An option that is a switch. -/
theorem switch_of_load {c : Client} {env : Env} {args : List String} {cfg : MosqConfig}
    (h : clientConfigLoad c env args = .ok cfg) {o : Opt} (ho : o.Single c) {on : Bool}
    (hview : view c cfg o = .switch on) (hdefault : defaults c o = .switch false)
    (hset : ∀ v s, o.set c v s = .switch true) :
    on = (lastValue c (allUses c env args) o).isSome := by
  refine (@value_of_load c env args cfg h o ho _ _ (fun _ _ => Setting.switch.inj) on false
    (fun _ => true) hview hdefault hset).trans ?_
  cases lastValue c (allUses c env args) o <;> rfl

/-- An option that is a number. -/
theorem number_of_load {c : Client} {env : Env} {args : List String} {cfg : MosqConfig}
    (h : clientConfigLoad c env args = .ok cfg) {o : Opt} (ho : o.Single c) {n d : Int}
    (hview : view c cfg o = .number n) (hdefault : defaults c o = .number d)
    (hset : ∀ v s, o.set c v s = .number (atoi v.toList)) :
    n = (lastValue c (allUses c env args) o).elim d fun v => atoi v.toList :=
  value_of_load h ho (fun _ _ => Setting.number.inj) hview hdefault hset

/-- **The last use of an option counts**: the last one on the command line, without one the last one
in the file, and without any the default. -/
theorem load_lastUse {c : Client} {env : Env} {args : List String} {cfg : MosqConfig} {o : Opt}
    (h : clientConfigLoad c env args = .ok cfg) (ho : o.Single c) :
    view c cfg o =
      ((values c o ((commandLine c).uses args)).getLast?.or
        (values c o (fileUses c env)).getLast?).elim (defaults c o) (o.set c · (defaults c o)) := by
  rw [load_single h ho, lastValue, allUses, values, List.filterMap_append, List.getLast?_append]
  rfl

/-! ## An example -/

/-- A subscriber on a machine without a configuration file. -/
def subscriber : Client where
  pubOrSub := .sub
  withTls := true
  withTlsPsk := true
  withSocks := true
  withSrv := false
  pubTopicCheck _ := true
  subTopicCheck _ := true

def noFile : Env := ⟨none, none, fun _ => none⟩

/-- The command line `-h a -t led -h b -q 1`. -/
def exampleArgs : List String := ["-h", "a", "-t", "led", "-h", "b", "-q", "1"]

theorem load_example : ∃ cfg, clientConfigLoad subscriber noFile exampleArgs = .ok cfg ∧
    cfg.topics = ["led"] := ⟨_, rfl, rfl⟩

theorem load_valid_example : ∃ cfg, Valid subscriber cfg ∧ cfg.topics = ["led"] := by
  obtain ⟨cfg, h, htopics⟩ := load_example
  exact ⟨cfg, load_valid h, htopics⟩

theorem load_lastUse_example : ∃ cfg, clientConfigLoad subscriber noFile exampleArgs = .ok cfg ∧
    view subscriber cfg .host = .text (some "b") := by
  obtain ⟨cfg, h, -⟩ := load_example
  refine ⟨cfg, h, (load_lastUse (o := .host) h ⟨nofun, nofun⟩).trans ?_⟩
  decide

end Ble.Mosquitto
