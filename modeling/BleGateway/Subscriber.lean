import BleGateway.ClientLoad
import BleGateway.CloudRelay

/-!
# The subscriber from its words on (`mosquitto_client/sub_client.c`, lines 42–111)

What `sub_client` posts to the gateway is decided by its configuration and by the messages that
arrive: it drops what is stale or filtered out, stops after a number of messages, and prints instead
of posting if it is verbose.

* `selected`: the messages that are still to be posted, in the order of their arrival.
  `callback_selected`: one call of the callback.
* `accepted_run`: so a run of the client and the gateway (`CloudRelay.lean`) posts these.
* `accepted_of_words`: what is posted, in terms of the configuration file and the command line.
* `subscriptions_of_words`: what is subscribed to.
-/

namespace Ble

open SubClient (MosquittoMessage)

namespace SubClient

/-- A message that is neither stale nor filtered out. -/
def wanted (topicMatches : String → String → Bool) (cfg : MosqConfig) (m : MosquittoMessage) :
    Bool := !(m.retain && cfg.noRetain) && !cfg.filterOuts.any (topicMatches · m.topic)

/-- A message that is posted if it counts. -/
def postable (cfg : MosqConfig) (m : MosquittoMessage) : Bool :=
  !cfg.verbose && decide (m.payload.length ≠ 0)

/-- The first `n` messages; all of them if `n` is not positive. -/
def limit (n : Int) (ms : List MosquittoMessage) : List MosquittoMessage :=
  if n > 0 then ms.take n.toNat else ms

/-- The messages that the callback still posts, of those that arrive. -/
def selected (topicMatches : String → String → Bool) (cfg : MosqConfig) (c : SubClient)
    (ms : List MosquittoMessage) : List MosquittoMessage :=
  if c.processMessages = false then []
  else (limit (cfg.msgCount - c.msgCount) (ms.filter (wanted topicMatches cfg))).filter
    (postable cfg)

/-- `msg_count` is behind `cfg->msg_count` as long as messages are processed. -/
def Counts (cfg : MosqConfig) (c : SubClient) : Prop :=
  if cfg.msgCount > 0 then c.processMessages → c.msgCount < cfg.msgCount
  else c.processMessages ∧ c.msgCount = 0

variable {topicMatches : String → String → Bool} {cfg : MosqConfig} {c : SubClient}

theorem counts_start (cfg : MosqConfig) : Counts cfg start := by
  unfold Counts
  split
  · next h => exact fun _ => h
  · exact ⟨rfl, rfl⟩

/-- The callback, by whether the message counts. -/
theorem callback_eq (m : MosquittoMessage) :
    myMessageCallback topicMatches cfg c m =
      if c.processMessages && wanted topicMatches cfg m then
        (c.count cfg, if postable cfg m then some (m.payload ++ m.behind.toList, 10) else none)
      else (c, none) := by
  unfold myMessageCallback wanted postable
  cases c.processMessages with
  | false => rfl
  | true =>
    cases m.retain && cfg.noRetain with
    | true => rfl
    | false =>
      cases cfg.filterOuts.any (topicMatches · m.topic) with
      | true => rfl
      | false =>
        cases cfg.verbose with
        | true => rfl
        | false =>
          by_cases hlen : m.payload.length = 0
          · simp [hlen]
          · simp [hlen]

theorem limit_cons {n : Int} (hn : 1 < n) (m : MosquittoMessage) (ms : List MosquittoMessage) :
    limit n (m :: ms) = m :: limit (n - 1) ms := by
  have hpos : n.toNat = (n - 1).toNat + 1 := by omega
  rw [limit, if_pos (by omega), limit, if_pos (by omega), hpos, List.take_succ_cons]

theorem limit_one (m : MosquittoMessage) (ms : List MosquittoMessage) : limit 1 (m :: ms) = [m] :=
  rfl

/-- The count of a message that counts. -/
theorem count_selected (topicMatches : String → String → Bool) (h : Counts cfg c)
    (hlive : c.processMessages = true)
    (m : MosquittoMessage) (ms : List MosquittoMessage) :
    Counts cfg (c.count cfg) ∧
      (limit (cfg.msgCount - c.msgCount) (m :: ms.filter (wanted topicMatches cfg))).filter
          (postable cfg) =
        (if postable cfg m then [m] else []) ++ selected topicMatches cfg (c.count cfg) ms := by
  have hfilter (ms : List MosquittoMessage) : (m :: ms).filter (postable cfg) =
      (if postable cfg m then [m] else []) ++ ms.filter (postable cfg) := by
    cases hp : postable cfg m with
    | false => exact List.filter_cons_of_neg (by simp [hp])
    | true => exact List.filter_cons_of_pos hp
  by_cases hn : cfg.msgCount > 0
  · have hlt : c.msgCount < cfg.msgCount := by
      unfold Counts at h
      rw [if_pos hn] at h
      exact h hlive
    by_cases hlast : cfg.msgCount = c.msgCount + 1
    · have hcount : c.count cfg = ⟨false, c.msgCount + 1⟩ := by
        rw [count, if_pos hn]
        simp only [hlast, if_true]
      have hone : cfg.msgCount - c.msgCount = 1 := by omega
      rw [hcount, hone, limit_one, hfilter, Counts, if_pos hn]
      exact ⟨nofun, rfl⟩
    · have hcount : c.count cfg = ⟨true, c.msgCount + 1⟩ := by
        rw [count, if_pos hn]
        simp only [hlast, if_false, hlive]
      have hrest : cfg.msgCount - c.msgCount - 1 = cfg.msgCount - (c.msgCount + 1) := by omega
      rw [hcount, limit_cons (by omega), hfilter, Counts, if_pos hn, hrest]
      exact ⟨fun _ => by show c.msgCount + 1 < cfg.msgCount; omega, rfl⟩
  · have hcount : c.count cfg = c := by rw [count, if_neg hn]
    have hzero : c.msgCount = 0 := by
      unfold Counts at h
      rw [if_neg hn] at h
      exact h.2
    have hall (ms : List MosquittoMessage) : limit (cfg.msgCount - c.msgCount) ms = ms := by
      rw [limit, if_neg (by omega)]
    have hno : ¬ true = false := nofun
    rw [hcount, selected, hlive, if_neg hno, hall, hall, hfilter]
    exact ⟨h, rfl⟩

/-- **One call**: the state stays consistent, and a message is posted if it is selected. -/
theorem callback_selected (topicMatches : String → String → Bool) (h : Counts cfg c)
    (m : MosquittoMessage) (ms : List MosquittoMessage) :
    Counts cfg (myMessageCallback topicMatches cfg c m).1 ∧
      selected topicMatches cfg c (m :: ms) =
        (if (myMessageCallback topicMatches cfg c m).2.isSome then [m] else []) ++
          selected topicMatches cfg (myMessageCallback topicMatches cfg c m).1 ms := by
  rw [callback_eq]
  cases hlive : c.processMessages with
  | false => simp [h, selected, hlive]
  | true =>
    cases hwanted : wanted topicMatches cfg m with
    | false => simp [h, selected, hlive, hwanted]
    | true =>
      obtain ⟨hcounts, hselected⟩ := count_selected topicMatches h hlive m ms
      refine ⟨hcounts, ?_⟩
      rw [selected, hlive, if_neg (by decide), List.filter_cons_of_pos hwanted, hselected]
      cases postable cfg m <;> rfl

end SubClient

/-! ## Runs -/

namespace Cloud

/-- The messages that arrive in a run. -/
def arrivals (ls : List Label) : List MosquittoMessage :=
  ls.filterMap fun l =>
    match l with
    | .arrive m _ => some m
    | _ => none

section

variable {topicMatches : String → String → Bool} {cfg : SubClient.MosqConfig} {key : Nat}

/-- A step of the two programs, as far as the client sees it. -/
theorem step_client {l : Label} {s s' : State} (h : step topicMatches cfg key l s = .next s') :
    (∃ m stack, l = .arrive m stack ∧
      s'.client = (SubClient.myMessageCallback topicMatches cfg s.client m).1 ∧
      s'.accepted = s.accepted ++
        if (SubClient.myMessageCallback topicMatches cfg s.client m).2.isSome then [m] else []) ∨
    arrivals [l] = [] ∧ s'.client = s.client ∧ s'.accepted = s.accepted := by
  cases l with
  | arrive m stack =>
    refine .inl ⟨m, stack, rfl, ?_⟩
    simp only [step] at h
    split at h
    · next client hcall =>
      cases h
      rw [hcall]
      exact ⟨rfl, (List.append_nil _).symm⟩
    · next client buf size hcall =>
      split at h
      · cases h
      · cases h
        rw [hcall]
        exact ⟨rfl, rfl⟩
  | post m stack =>
    simp only [step] at h
    split at h
    · cases h
    · cases h
      exact .inr ⟨rfl, rfl, rfl⟩
  | receive stack =>
    simp only [step] at h
    split at h
    · cases h
    · split at h
      · cases h
      · cases h
        exact .inr ⟨rfl, rfl, rfl⟩

/-- The client is never blocked. -/
theorem arrivals_of_blocked {l : Label} {s : State}
    (h : step topicMatches cfg key l s = .blocked) : arrivals [l] = [] := by
  cases l with
  | arrive m stack =>
    simp only [step] at h
    split at h
    · cases h
    · split at h <;> cases h
  | post m stack => rfl
  | receive stack => rfl

/-- What is posted in a run: the messages that are selected among those that arrive. -/
theorem accepted_run {s s' : State} (hs : SubClient.Counts cfg s.client) {ls : List Label}
    (h : (cloud topicMatches cfg key).run s ls = some s') :
    s'.accepted = s.accepted ++ SubClient.selected topicMatches cfg s.client (arrivals ls) := by
  induction ls generalizing s with
  | nil =>
    cases h
    unfold SubClient.selected SubClient.limit
    simp [arrivals]
  | cons l ls ih =>
    rw [Sched.run_cons] at h
    have harrivals : arrivals (l :: ls) = arrivals [l] ++ arrivals ls := by
      rw [arrivals, arrivals, arrivals, ← List.filterMap_append, List.singleton_append]
    cases hst : (cloud topicMatches cfg key).step l s with
    | overrun =>
      rw [hst] at h
      cases h
    | blocked =>
      rw [hst] at h
      rw [harrivals, arrivals_of_blocked hst]
      exact ih hs h
    | next s₁ =>
      rw [hst] at h
      obtain ⟨m, stack, rfl, hclient, haccepted⟩ | ⟨hnone, hclient, haccepted⟩ := step_client hst
      · obtain ⟨hcounts, hselected⟩ :=
          SubClient.callback_selected topicMatches hs m (arrivals ls)
        rw [← hclient] at hcounts hselected
        rw [ih hcounts h, haccepted, harrivals, List.append_assoc]
        exact congrArg _ hselected.symm
      · rw [← hclient] at hs ⊢
        rw [ih hs h, haccepted, harrivals, hnone, List.nil_append]

end

end Cloud

/-! ## The configuration -/

namespace Mosquitto

/-- What `my_message_callback` reads of the configuration. -/
def MosqConfig.ofCallback (cfg : MosqConfig) : SubClient.MosqConfig where
  noRetain := cfg.noRetain
  filterOuts := cfg.filterOuts
  verbose := cfg.verbose
  msgCount := cfg.msgCount

/-- `my_connect_callback`: the arguments of `mosquitto_subscribe`. -/
def myConnectCallback (cfg : MosqConfig) (result : Int) : List (String × Int) :=
  if result = 0 then cfg.topics.map (·, cfg.qos) else []

section

variable {c : Client} {env : Env} {args : List String} {cfg : MosqConfig}

theorem foldl_add (vs l : List String) :
    vs.foldl (fun old v => Setting.add v old) (.texts l) = .texts (l ++ vs) := by
  induction vs generalizing l with
  | nil => rw [List.foldl_nil, List.append_nil]
  | cons v vs ih => rw [List.foldl_cons, Setting.add, ih, List.append_assoc, List.singleton_append]

/-- Filters are collected. -/
theorem filterOuts_of_load (h : clientConfigLoad c env args = .ok cfg) :
    cfg.filterOuts = values c .filterOut (allUses c env args) :=
  Setting.texts.inj ((load_view h .filterOut).trans (foldl_add _ []))

/-- So are the topics of a subscriber. -/
theorem topics_of_load (h : clientConfigLoad c env args = .ok cfg) (hsub : c.pubOrSub = .sub) :
    cfg.topics = values c .topic (allUses c env args) := by
  have hview := load_view h .topic
  have hset : (fun old v => Opt.topic.set c v old) = fun old v => Setting.add v old := by
    funext old v
    simp only [Opt.set, hsub]
  rw [hset] at hview
  simp only [view, defaults, hsub, initConfig] at hview
  exact Setting.texts.inj (hview.trans (foldl_add _ []))

/-- **What the subscriber accepts for posting**, whatever arrives: nothing if it was told to be
verbose. Else it accepts what is not stale, if it was told to drop that, and matches none of the
filters; of these the first `n` count if it was told so, and the empty ones are left out. -/
theorem accepted_of_words (h : clientConfigLoad c env args = .ok cfg)
    {topicMatches : String → String → Bool} {key : Nat} {buffer : CArray UInt8 100}
    {ls : List Cloud.Label} {s : Cloud.State}
    (hrun : (Cloud.cloud topicMatches cfg.ofCallback key).run (Cloud.State.start buffer) ls =
      some s) :
    let last := lastValue c (allUses c env args)
    let filters := values c .filterOut (allUses c env args)
    s.accepted = if (last .verbose).isSome then [] else
      (SubClient.limit ((last .msgCount).elim 0 fun v => atoi v.toList)
        ((Cloud.arrivals ls).filter fun m => !(m.retain && (last .noRetain).isSome) &&
          !filters.any (topicMatches · m.topic))).filter fun m => m.payload.length ≠ 0 := by
  have hverbose : cfg.verbose = (lastValue c (allUses c env args) .verbose).isSome :=
    switch_of_load (o := .verbose) h ⟨nofun, nofun⟩ rfl rfl fun _ _ => rfl
  have hretain : cfg.noRetain = (lastValue c (allUses c env args) .noRetain).isSome :=
    switch_of_load (o := .noRetain) h ⟨nofun, nofun⟩ rfl rfl fun _ _ => rfl
  have hcount : cfg.msgCount =
      (lastValue c (allUses c env args) .msgCount).elim 0 fun v => atoi v.toList :=
    number_of_load (o := .msgCount) h ⟨nofun, nofun⟩ rfl rfl fun _ _ => rfl
  dsimp only
  rw [Cloud.accepted_run (SubClient.counts_start _) hrun, ← hverbose, ← hretain, ← hcount,
    ← filterOuts_of_load h, SubClient.selected, if_neg nofun]
  simp only [Cloud.State.start, SubClient.start, Int.sub_zero, List.nil_append]
  cases hv : cfg.verbose with
  | true => simp [SubClient.postable, MosqConfig.ofCallback, hv]
  | false =>
    have hpostable :
        SubClient.postable cfg.ofCallback = fun m => decide (m.payload.length ≠ 0) := by
      funext m
      simp [SubClient.postable, MosqConfig.ofCallback, hv]
    rw [hpostable, if_neg nofun]
    rfl

/-- `-t led -C 2`: of three messages the first two are posted. -/
theorem accepted_of_words_two : ∃ (cfg : MosqConfig) (s : Cloud.State),
    clientConfigLoad subscriber noFile ["-t", "led", "-C", "2"] = .ok cfg ∧
      s.accepted = [Cloud.tenBytes, Cloud.tenBytes] := by
  have h : ∃ cfg, clientConfigLoad subscriber noFile ["-t", "led", "-C", "2"] = .ok cfg := ⟨_, rfl⟩
  obtain ⟨cfg, h⟩ := h
  obtain ⟨s, hrun, -⟩ := @Cloud.run_total (fun _ _ => false) cfg.ofCallback 0
    (Vector.replicate 100 0) (Cloud.oneMessage ++ Cloud.oneMessage ++ Cloud.oneMessage)
  refine ⟨cfg, s, h, (accepted_of_words h hrun).trans ?_⟩
  decide

/-- **What the subscriber subscribes to** when it is connected: every topic that it was given, in
order, with the last quality of service that it was given; there is at least one. -/
theorem subscriptions_of_words (h : clientConfigLoad c env args = .ok cfg)
    (hsub : c.pubOrSub = .sub) :
    myConnectCallback cfg 0 = (values c .topic (allUses c env args)).map (·,
        (lastValue c (allUses c env args) .qos).elim 0 fun v => atoi v.toList) ∧
      myConnectCallback cfg 0 ≠ [] := by
  have hqos : cfg.qos = (lastValue c (allUses c env args) .qos).elim 0 fun v => atoi v.toList :=
    number_of_load (o := .qos) h ⟨nofun, nofun⟩ rfl rfl fun _ _ => rfl
  obtain ⟨-, cfg₀, hwords, hcheck⟩ := words_of_load h
  have hvalid := checkConfig_valid (lineProc_ok (initConfig_lineOk c) hwords) hcheck
  rw [← topics_of_load h hsub, ← hqos]
  refine ⟨rfl, fun hnil => hvalid.subscribes hsub (List.map_eq_nil_iff.mp hnil)⟩

theorem subscriptions_of_words_example : ∃ cfg,
    clientConfigLoad subscriber noFile exampleArgs = .ok cfg ∧
      myConnectCallback cfg 0 = [("led", 1)] := by
  obtain ⟨cfg, h, -⟩ := load_example
  refine ⟨cfg, h, (subscriptions_of_words h rfl).1.trans ?_⟩
  decide

end

end Mosquitto

end Ble
