import BleGateway.Lib.Sched
import BleGateway.MsgDef

/-!
# Messages from the cloud (`mosquitto_client/sub_client.c`)

`sub_client` is a program of its own. Its callback posts the payload of an MQTT message for
`Forward_MSG_Queue_Thread` of the gateway. It is built with its own copy of `Msg_Def`, where
`mtext` has 35 cells.

* `sendText` and `recvText`: `sys_mq_send` and `sys_mq_recv` on the bytes of a record.
  `recvText_sendText`: the copies agree on them, whatever the capacity of the sender's `mtext`.
* `cloud`: the client, the gateway's own threads and the forwarder, with the key that the client
  posts to.
* `relayed_iff`: payloads arrive unchanged exactly if that key is the forwarder's and every one of
  them has ten bytes.
* `not_relayed`: the client posts to another key.
-/

namespace Ble

/-! ## Records as bytes -/

/-- `MQBUFSIZE` of a `message_buf_t` with `mtext[cap]`: `length`, `mtext` and what fills the record
up to a multiple of eight bytes. -/
def mqbufsize (cap : Nat) : Nat := (2 + cap + 7) / 8 * 8

theorem le_mqbufsize (cap : Nat) : 2 + cap ≤ mqbufsize cap := by
  unfold mqbufsize
  omega

/-- The field `length` in memory. -/
def lengthField (size : UInt16) : List UInt8 :=
  [lsbyteOf16Bit size.toNat, msbyteOf16Bit size.toNat]

/-- `sys_mq_send(q, buf, size)` with `mtext[cap]`: what `msgsnd` takes from `message_buff`, where
`stack` was before. `buf` is the memory that the pointer leads to. -/
def sendText {cap : Nat} (stack : CArray UInt8 (mqbufsize cap)) (buf : List UInt8)
    (size : UInt16) : Option (CArray UInt8 (mqbufsize cap)) :=
  if h : size.toNat ≤ cap ∧ size.toNat ≤ buf.length then
    some (CArray.memcpy stack (lengthField size ++ buf.take size.toNat) (by
      have := le_mqbufsize cap
      simp [lengthField]
      omega))
  else none

/-- `sys_mq_recv` of the gateway up to the copy into the receiver's buffer: the record that it finds
in `message_buff`, where `stack` was before. `none` if the record does not fit, or if its `length`
leads behind `mtext`. -/
def recvText (stack : CArray UInt8 (mqbufsize mtextSize)) (text : List UInt8) : Option Message :=
  if h : text.length ≤ mqbufsize mtextSize then
    let buff := CArray.memcpy stack text h
    let length := make16OfXY (buff.byte 1) (buff.byte 0)
    if hl : length ≤ mtextSize then
      some ⟨buff.slice 2 length, by
        have := le_mqbufsize mtextSize
        rw [CArray.length_slice _ _ _ (by omega)]
        exact hl⟩
    else none
  else none

theorem sendText_starts {cap : Nat} {stack text : CArray UInt8 (mqbufsize cap)}
    {buf : List UInt8} {size : UInt16} (h : sendText stack buf size = some text) :
    size.toNat ≤ cap ∧ size.toNat ≤ buf.length ∧
      CArray.Starts text (lengthField size ++ buf.take size.toNat) := by
  unfold sendText at h
  split at h
  · next hs =>
    cases h
    exact ⟨hs.1, hs.2, CArray.starts_memcpy _ _ _⟩
  · cases h

/-- A record that starts with a length and as many bytes is received as these bytes. -/
theorem recvText_of_starts {text : List UInt8} {bytes : List UInt8} {size : UInt16}
    (hsize : size.toNat = bytes.length) (hcap : bytes.length ≤ mtextSize)
    (htext : text.length ≤ mqbufsize mtextSize) (hpre : lengthField size ++ bytes <+: text)
    (stack : CArray UInt8 (mqbufsize mtextSize)) :
    recvText stack text = some ⟨bytes, hcap⟩ := by
  have hbuff : CArray.Starts (CArray.memcpy stack text htext) (lengthField size ++ bytes) :=
    hpre.trans (CArray.starts_memcpy stack text htext)
  have hlength : make16OfXY ((CArray.memcpy stack text htext).byte 1)
      ((CArray.memcpy stack text htext).byte 0) = bytes.length := by
    rw [hbuff.byte_eq (by simp [lengthField]), hbuff.byte_eq (by simp [lengthField]), ← hsize]
    exact make16OfXY_bytes size.toNat_lt
  have hslice : (CArray.memcpy stack text htext).slice 2 bytes.length = bytes := by
    rw [hbuff.slice_eq (by simp [lengthField]; omega)]
    simp [lengthField]
  simp only [recvText, htext, dif_pos, hlength, hcap, hslice]

/-- What a record holds is what the gateway receives, whatever the capacity of the sender's
`mtext`. -/
theorem recvText_sendText {cap : Nat} (hcap : cap ≤ mtextSize)
    {sent text : CArray UInt8 (mqbufsize cap)} {buf : List UInt8} {size : UInt16}
    (h : sendText sent buf size = some text) (stack : CArray UInt8 (mqbufsize mtextSize)) :
    ∃ m, recvText stack text.toList = some m ∧ m.view = (buf.take size.toNat, size) := by
  obtain ⟨hc, hb, hs⟩ := sendText_starts h
  have hlen : size.toNat = (buf.take size.toNat).length := by
    rw [List.length_take]
    omega
  have htext : text.toList.length ≤ mqbufsize mtextSize := by
    rw [Vector.length_toList]
    unfold mqbufsize
    omega
  refine ⟨⟨buf.take size.toNat, by omega⟩, recvText_of_starts hlen _ htext hs stack, ?_⟩
  have hlength : Message.length ⟨buf.take size.toNat, by omega⟩ = size :=
    UInt16.toNat_inj.mp ((Message.toNat_length _).trans hlen.symm)
  rw [Message.view, hlength]

/-- The records of the gateway's own threads: what `sysMqSend` puts into a queue is what is
received. -/
theorem recvText_sysMqSend {n : Nat} {buf : CArray UInt8 n} {size : UInt16} {m : Message}
    (h : sysMqSend buf size = some m) {sent text : CArray UInt8 (mqbufsize mtextSize)}
    (ht : sendText sent buf.toList size = some text)
    (stack : CArray UInt8 (mqbufsize mtextSize)) : recvText stack text.toList = some m := by
  obtain ⟨m', hr, hv⟩ := recvText_sendText (Nat.le_refl _) ht stack
  have hbytes : m'.bytes = m.bytes := by
    rw [(sysMqSend_bytes h).1]
    exact congrArg Prod.fst hv
  rw [hr, Option.some_inj]
  cases m
  cases m'
  cases hbytes
  rfl

/-! ## The client -/

namespace SubClient

/-- `MESSAGE_SEND_TO_PEER_DEVICE_KEY` of `sub_client.c`. -/
def messageSendToPeerDeviceKey : Nat := 123456

/-- The capacity of `message_buf_t.mtext` in the client's copy of `Msg_Def.h`. -/
def mtextSize : Nat := 35

/-- `mosq_config`, as far as the callback reads it and does not only print. -/
structure MosqConfig where
  noRetain : Bool
  filterOuts : List String
  verbose : Bool
  msgCount : Int
  deriving DecidableEq, Repr

/-- `mosquitto_message`, and ten bytes of the memory behind `payload`. -/
structure MosquittoMessage where
  topic : String
  payload : List UInt8
  retain : Bool
  behind : CArray UInt8 10
  deriving DecidableEq, Repr

end SubClient

/-- The globals of `sub_client.c`. -/
structure SubClient where
  processMessages : Bool
  msgCount : Int
  deriving DecidableEq, Repr

namespace SubClient

def start : SubClient := ⟨true, 0⟩

/-- The end of the callback: after `msg_count` messages no more are processed. -/
def count (c : SubClient) (cfg : MosqConfig) : SubClient :=
  if cfg.msgCount > 0 then
    let msgCount := c.msgCount + 1
    { processMessages := if cfg.msgCount = msgCount then false else c.processMessages, msgCount }
  else c

/-- `my_message_callback`: the globals afterwards and the arguments `buf` and `size` of
`sys_mq_send`, if it is called. `topicMatches sub topic` is what `mosquitto_topic_matches_sub`
stores in `res`. -/
def myMessageCallback (topicMatches : String → String → Bool) (cfg : MosqConfig) (c : SubClient)
    (message : MosquittoMessage) : SubClient × Option (List UInt8 × UInt16) :=
  if c.processMessages = false then (c, none)
  else if message.retain && cfg.noRetain then (c, none)
  else if cfg.filterOuts.any (topicMatches · message.topic) then (c, none)
  else if cfg.verbose then (c.count cfg, none)
  else if message.payload.length ≠ 0 then
    (c.count cfg, some (message.payload ++ message.behind.toList, 10))
  else (c.count cfg, none)

end SubClient

/-! ## The two programs -/

namespace Cloud

open SubClient (MosqConfig MosquittoMessage)

/-- Who posts a record, and what for. -/
inductive Source where
  | cloud (message : MosquittoMessage)
  | gateway (m : Message)
  deriving DecidableEq

/-- The bytes and the size that are posted. -/
def Source.sent : Source → Passed
  | .cloud message => ((message.payload ++ message.behind.toList).take 10, 10)
  | .gateway m => m.view

/-- A record in a queue, and who posted it. -/
structure Posted where
  source : Source
  text : List UInt8

/-- The client, the queues by their keys, the forwarder's `buffer`, what the forwarder has received
and the messages that the client has accepted. -/
structure State where
  client : SubClient
  queues : Nat → List Posted
  buffer : CArray UInt8 100
  received : List (Source × Passed)
  accepted : List MosquittoMessage

/-- What happens next. `stack` is what the `message_buff` of the callee holds at first. -/
inductive Label where
  /-- libmosquitto calls `my_message_callback`. -/
  | arrive (message : MosquittoMessage) (stack : CArray UInt8 (mqbufsize SubClient.mtextSize))
  /-- A thread of the gateway posts to the forwarder. -/
  | post (m : Message) (stack : CArray UInt8 (mqbufsize mtextSize))
  /-- `sys_mq_recv` of `Forward_MSG_Queue_Thread`. -/
  | receive (stack : CArray UInt8 (mqbufsize mtextSize))

namespace State

/-- `msgsnd`. -/
def put (s : State) (key : Nat) (p : Posted) : State :=
  { s with queues := fun k => if k = key then s.queues k ++ [p] else s.queues k }

/-- Nothing was posted yet. -/
def start (buffer : CArray UInt8 100) : State where
  client := SubClient.start
  queues _ := []
  buffer
  received := []
  accepted := []

end State

section

variable (topicMatches : String → String → Bool) (cfg : MosqConfig) (key : Nat)

/-- A step of the two programs, where the client posts to `key`. -/
def step (l : Label) (s : State) : Outcome State :=
  match l with
  | .arrive message stack =>
    match SubClient.myMessageCallback topicMatches cfg s.client message with
    | (client, none) => .next { s with client }
    | (client, some (buf, size)) =>
      match sendText stack buf size with
      | none => .overrun
      | some text =>
        .next ({ s with client, accepted := s.accepted ++ [message] }.put key
          ⟨.cloud message, text.toList⟩)
  | .post m stack =>
    match sendText stack m.bytes m.length with
    | none => .overrun
    | some text => .next (s.put Ble.messageSendToPeerDeviceKey ⟨.gateway m, text.toList⟩)
  | .receive stack =>
    match s.queues Ble.messageSendToPeerDeviceKey with
    | [] => .blocked
    | p :: rest =>
      match (recvText stack p.text).bind (sysMqRecv s.buffer) with
      | none => .overrun
      | some (buffer, size) =>
        .next { s with
          queues := fun k => if k = Ble.messageSendToPeerDeviceKey then rest else s.queues k
          buffer
          received := s.received ++ [(p.source, passed buffer size)] }

/-- The two programs. -/
def cloud : Sched State Label := ⟨step topicMatches cfg key⟩

end

/-! ## The contract -/

/-- The message of a source, if it came from the cloud. -/
def Source.message? : Source → Option MosquittoMessage
  | .cloud message => some message
  | .gateway _ => none

@[simp] theorem message?_cloud (message : MosquittoMessage) :
    (Source.cloud message).message? = some message := rfl

@[simp] theorem message?_gateway (m : Message) : (Source.gateway m).message? = none := rfl

/-- A payload that the client's `mtext` holds. -/
def Fits (message : MosquittoMessage) : Prop :=
  1 ≤ message.payload.length ∧ message.payload.length ≤ SubClient.mtextSize

instance (message : MosquittoMessage) : Decidable (Fits message) :=
  inferInstanceAs (Decidable (_ ∧ _))

namespace State

/-- What the forwarder received of messages from the cloud. -/
def fromCloud (s : State) : List (MosquittoMessage × Passed) :=
  s.received.filterMap fun r => r.1.message?.map (·, r.2)

/-- The forwarder has nothing left to receive. -/
def Drained (s : State) : Prop := s.queues Ble.messageSendToPeerDeviceKey = []

/-- Every accepted message whose payload fits was received once, in order, with the bytes and the
size of its payload. -/
def Relayed (s : State) : Prop :=
  s.fromCloud.filter (fun r => Fits r.1) =
    (s.accepted.filter (Fits ·)).map fun message =>
      (message, (message.payload, UInt16.ofNat message.payload.length))

end State

/-! ## What every step keeps -/

/-- The messages from the cloud that the forwarder has received or finds in its queue. -/
def State.underway (s : State) : List MosquittoMessage :=
  (s.received.map (·.1) ++ (s.queues Ble.messageSendToPeerDeviceKey).map (·.source)).filterMap
    Source.message?

/-- Records hold what was sent, receives yield it, and the forwarder gets the client's messages if
it has the client's key. -/
structure Inv (key : Nat) (s : State) : Prop where
  texts : ∀ p ∈ s.queues Ble.messageSendToPeerDeviceKey, ∀ stack,
    ∃ m, recvText stack p.text = some m ∧ m.view = p.source.sent
  views : ∀ r ∈ s.received, r.2 = r.1.sent
  order : s.underway = if key = Ble.messageSendToPeerDeviceKey then s.accepted else []

/-- The callback posts ten bytes from where the payload begins. -/
theorem myMessageCallback_some {topicMatches : String → String → Bool} {cfg : MosqConfig}
    {c client : SubClient} {message : MosquittoMessage} {buf : List UInt8} {size : UInt16}
    (h : SubClient.myMessageCallback topicMatches cfg c message = (client, some (buf, size))) :
    buf = message.payload ++ message.behind.toList ∧ size = 10 := by
  unfold SubClient.myMessageCallback at h
  split at h
  · cases h
  split at h
  · cases h
  split at h
  · cases h
  split at h
  · cases h
  split at h
  · cases h
    exact ⟨rfl, rfl⟩
  · cases h

/-- A record as `sys_mq_send` leaves it. -/
def Posted.Sound (p : Posted) : Prop :=
  ∀ stack, ∃ m, recvText stack p.text = some m ∧ m.view = p.source.sent

theorem sound_cloud {message : MosquittoMessage}
    {stack text : CArray UInt8 (mqbufsize SubClient.mtextSize)}
    (h : sendText stack (message.payload ++ message.behind.toList) 10 = some text) :
    Posted.Sound ⟨.cloud message, text.toList⟩ := recvText_sendText (by decide) h

theorem sound_gateway {m : Message} {stack text : CArray UInt8 (mqbufsize mtextSize)}
    (h : sendText stack m.bytes m.length = some text) :
    Posted.Sound ⟨.gateway m, text.toList⟩ := by
  intro stack'
  obtain ⟨m', hr, hv⟩ := recvText_sendText (Nat.le_refl _) h stack'
  rw [m.toNat_length, List.take_length] at hv
  exact ⟨m', hr, hv⟩

theorem underway_put (s : State) (k : Nat) (p : Posted) :
    (s.put k p).underway = s.underway ++
      if k = Ble.messageSendToPeerDeviceKey then p.source.message?.toList else [] := by
  by_cases hk : k = Ble.messageSendToPeerDeviceKey
  · have hlast : [p.source].filterMap Source.message? = p.source.message?.toList := by
      cases p.source <;> rfl
    simp only [State.underway, State.put, if_pos hk, if_pos hk.symm, List.map_append,
      List.map_cons, List.map_nil, ← List.append_assoc, List.filterMap_append, hlast]
  · simp only [State.underway, State.put, if_neg hk, if_neg (Ne.symm hk), List.append_nil]

variable {topicMatches : String → String → Bool} {cfg : MosqConfig} {key : Nat}

/-- A record put into a queue, with what the client has accepted then. -/
theorem Inv.put {s : State} (hs : Inv key s) {k : Nat} {p : Posted} (hp : p.Sound)
    {accepted : List MosquittoMessage}
    (horder : s.underway ++
        (if k = Ble.messageSendToPeerDeviceKey then p.source.message?.toList else []) =
      if key = Ble.messageSendToPeerDeviceKey then accepted else []) (client : SubClient) :
    Inv key ({ s with client, accepted }.put k p) where
  texts := by
    intro p' hp'
    simp only [State.put] at hp'
    split at hp'
    · obtain h | h := List.mem_append.mp hp'
      · exact hs.texts p' h
      · rw [List.mem_singleton.mp h]
        exact hp
    · exact hs.texts p' hp'
  views := hs.views
  order := (underway_put _ k p).trans horder

theorem inv_step {l : Label} {s s' : State} (hs : Inv key s)
    (h : step topicMatches cfg key l s = .next s') : Inv key s' := by
  cases l with
  | arrive message stack =>
    simp only [step] at h
    split at h
    · cases h
      exact ⟨hs.texts, hs.views, hs.order⟩
    · next client buf size hcall =>
      obtain ⟨rfl, rfl⟩ := myMessageCallback_some hcall
      split at h
      · cases h
      · next text htext =>
        cases h
        refine hs.put (sound_cloud htext) ?_ client
        rw [hs.order]
        split <;> rfl
  | post m stack =>
    simp only [step] at h
    split at h
    · cases h
    · next text htext =>
      cases h
      refine hs.put (sound_gateway htext) ?_ s.client
      rw [hs.order, if_pos rfl]
      exact List.append_nil _
  | receive stack =>
    simp only [step] at h
    split at h
    · cases h
    · next p rest hq =>
      have hp := hs.texts p (by rw [hq]; exact List.mem_cons_self) stack
      obtain ⟨m, hr, hv⟩ := hp
      rw [hr, Option.bind_some] at h
      split at h
      · cases h
      · next buffer size hm =>
        cases h
        refine ⟨?_, ?_, ?_⟩
        · intro p' hp'
          simp only [if_true] at hp'
          exact hs.texts p' (by rw [hq]; exact List.mem_cons_of_mem _ hp')
        · intro r hr'
          obtain h | h := List.mem_append.mp hr'
          · exact hs.views r h
          · rw [List.mem_singleton.mp h]
            exact (passed_of_sysMqRecv hm).trans hv
        · rw [← hs.order]
          simp only [State.underway, hq, if_true, List.map_append, List.map_cons, List.map_nil,
            List.append_assoc, List.singleton_append]

theorem inv_start (buffer : CArray UInt8 100) : Inv key (State.start buffer) where
  texts := fun p hp => by cases hp
  views := fun r hr => by cases hr
  order := by
    split <;> rfl

theorem inv_run {buffer : CArray UInt8 100} {ls : List Label} {s : State}
    (h : (cloud topicMatches cfg key).run (State.start buffer) ls = some s) : Inv key s :=
  Sched.run_induct (I := Inv key) (fun _ _ _ hs hst => inv_step hs hst) (inv_start buffer) h

/-- No copy leaves an array. -/
theorem step_ne_overrun {s : State} (hs : Inv key s) (l : Label) :
    step topicMatches cfg key l s ≠ .overrun := by
  cases l with
  | arrive message stack =>
    simp only [step]
    split
    · exact Outcome.next_ne_overrun _
    · next client buf size hcall =>
      obtain ⟨rfl, rfl⟩ := myMessageCallback_some hcall
      have hsend : (10 : UInt16).toNat ≤ SubClient.mtextSize ∧
          (10 : UInt16).toNat ≤ (message.payload ++ message.behind.toList).length :=
        ⟨by decide, by simp⟩
      simp only [sendText, hsend, dif_pos, and_self]
      exact Outcome.next_ne_overrun _
  | post m stack =>
    have hsend : m.length.toNat ≤ mtextSize ∧ m.length.toNat ≤ m.bytes.length := by
      rw [m.toNat_length]
      exact ⟨m.fits, Nat.le_refl _⟩
    simp only [step, sendText, hsend, dif_pos, and_self]
    exact Outcome.next_ne_overrun _
  | receive stack =>
    simp only [step]
    split
    · exact Outcome.blocked_ne_overrun
    · next p rest hq =>
      obtain ⟨m, hr, -⟩ := hs.texts p (by rw [hq]; exact List.mem_cons_self) stack
      obtain ⟨buffer, hm, -⟩ := sysMqRecv_of_le s.buffer m (Nat.le_refl 100)
      simp only [hr, Option.bind_some, hm]
      exact Outcome.next_ne_overrun _

/-- Every order of the steps runs to its end. -/
theorem run_total (buffer : CArray UInt8 100) (ls : List Label) :
    ∃ s, (cloud topicMatches cfg key).run (State.start buffer) ls = some s ∧ Inv key s :=
  Sched.Inductive.run (I := Inv key)
    (fun l _ hs => ⟨step_ne_overrun hs l, fun _ hst => inv_step hs hst⟩) (inv_start buffer) ls

/-! ## What the forwarder receives -/

theorem filterMap_message {rs : List (Source × Passed)} (h : ∀ r ∈ rs, r.2 = r.1.sent) :
    (rs.filterMap fun r => r.1.message?.map (·, r.2)) =
      ((rs.map (·.1)).filterMap Source.message?).map fun message =>
        (message, (Source.cloud message).sent) := by
  induction rs with
  | nil => rfl
  | cons r rs ih =>
    obtain ⟨hr, hrs⟩ := List.forall_mem_cons.mp h
    have hrest := ih hrs
    cases hsource : r.1 with
    | cloud message =>
      rw [hsource] at hr
      simp only [List.filterMap_cons, List.map_cons, hsource, hr, message?_cloud, Option.map_some,
        hrest]
    | gateway m =>
      simp only [List.filterMap_cons, List.map_cons, hsource, message?_gateway, Option.map_none,
        hrest]

/-- If the client posts to the forwarder's queue, ten bytes of every message arrive. -/
theorem fromCloud_of_eq {s : State} (hs : Inv key s) (hkey : key = Ble.messageSendToPeerDeviceKey)
    (hd : s.Drained) : s.fromCloud =
      s.accepted.map fun message => (message, (Source.cloud message).sent) := by
  have horder := hs.order
  rw [State.underway, hd, List.map_nil, List.append_nil, if_pos hkey] at horder
  rw [State.fromCloud, filterMap_message hs.views, horder]

/-- If it does not, nothing arrives. -/
theorem fromCloud_of_ne {s : State} (hs : Inv key s)
    (hkey : key ≠ Ble.messageSendToPeerDeviceKey) : s.fromCloud = [] := by
  have horder := hs.order
  rw [State.underway, if_neg hkey, List.filterMap_append, List.append_eq_nil_iff] at horder
  rw [State.fromCloud, filterMap_message hs.views, horder.1, List.map_nil]

/-- Ten bytes of a message are its payload exactly if that has ten bytes. -/
theorem sent_eq_iff {message : MosquittoMessage} (h : Fits message) :
    (Source.cloud message).sent = (message.payload, UInt16.ofNat message.payload.length) ↔
      message.payload.length = 10 := by
  have hlen : (UInt16.ofNat message.payload.length).toNat = message.payload.length :=
    UInt16.toNat_ofNat_of_lt' (Nat.lt_of_le_of_lt h.2 (by decide))
  constructor
  · intro hsent
    have hsize : (10 : UInt16) = UInt16.ofNat message.payload.length := congrArg Prod.snd hsent
    rw [← hlen, ← hsize]
    rfl
  · intro hten
    rw [Source.sent, List.take_left' hten, hten]
    rfl

theorem relayed_iff_of_ne {s : State} (hs : Inv key s)
    (hkey : key ≠ Ble.messageSendToPeerDeviceKey) :
    s.Relayed ↔ ∀ message ∈ s.accepted, ¬ Fits message := by
  rw [State.Relayed, fromCloud_of_ne hs hkey, List.filter_nil, eq_comm, List.map_eq_nil_iff,
    List.filter_eq_nil_iff]
  simp only [decide_eq_true_eq]

/-- The messages are relayed exactly if the client posts to the forwarder's queue and every payload
that fits has ten bytes. -/
theorem relayed_iff {s : State} (hs : Inv key s) (hd : s.Drained) :
    s.Relayed ↔ ∀ message ∈ s.accepted, Fits message →
      key = Ble.messageSendToPeerDeviceKey ∧ message.payload.length = 10 := by
  by_cases hkey : key = Ble.messageSendToPeerDeviceKey
  · rw [State.Relayed, fromCloud_of_eq hs hkey hd, List.filter_map]
    simp only [Function.comp_def, List.map_inj_left, List.mem_filter, decide_eq_true_eq, and_imp,
      Prod.mk.injEq, true_and, hkey]
    constructor
    · intro h message hm hfits
      exact (sent_eq_iff hfits).mp (h message hm hfits)
    · intro h message hm hfits
      exact (sent_eq_iff hfits).mpr (h message hm hfits)
  · rw [relayed_iff_of_ne hs hkey]
    simp only [hkey, false_and, imp_false]

/-! ## The key -/

/-- **Messages from the cloud are lost.** In no run does the forwarder receive an accepted message
as it was sent: the client posts to a queue that nobody reads. -/
theorem not_relayed {buffer : CArray UInt8 100} {ls : List Label} {s : State}
    (h : (cloud topicMatches cfg SubClient.messageSendToPeerDeviceKey).run (State.start buffer) ls =
      some s) {message : MosquittoMessage} (hm : message ∈ s.accepted) (hfits : Fits message) :
    ¬ s.Relayed := by
  rw [relayed_iff_of_ne (inv_run h) (by decide)]
  exact fun hno => hno message hm hfits

/-- A message of ten bytes. -/
def tenBytes : MosquittoMessage where
  topic := "gateway"
  payload := [0xFF, 0x00, 0x00, 0x3C, 0x41, 0x30, 0x3E, 0x00, 0x00, 0x00]
  retain := false
  behind := Vector.replicate 10 0

/-- The run in which the client gets this message. -/
def oneMessage : List Label := [.arrive tenBytes (Vector.replicate _ 0)]

def mosqConfig : MosqConfig := ⟨false, [], false, 0⟩

theorem not_relayed_tenBytes : ∃ s,
    (cloud (fun _ _ => false) mosqConfig SubClient.messageSendToPeerDeviceKey).run
      (State.start (Vector.replicate 100 0)) oneMessage = some s ∧ ¬ s.Relayed := by
  have h : (cloud (fun _ _ => false) mosqConfig SubClient.messageSendToPeerDeviceKey).run
    (State.start (Vector.replicate 100 0)) oneMessage = some _ := rfl
  exact ⟨_, h, not_relayed h (List.mem_singleton_self tenBytes) (by decide)⟩

/-- It is not relayed, though the forwarder has nothing left to receive. -/
theorem not_relayed_drained : ¬ ∀ (topicMatches : String → String → Bool) (cfg : MosqConfig)
    (buffer : CArray UInt8 100) (ls : List Label) (s : State),
    (cloud topicMatches cfg SubClient.messageSendToPeerDeviceKey).run (State.start buffer) ls =
      some s → s.Drained → s.Relayed := by
  intro h
  have hrelayed := h (fun _ _ => false) mosqConfig (Vector.replicate 100 0) oneMessage _ rfl rfl
  have hlost : ([] : List (MosquittoMessage × Passed)) =
      [(tenBytes, (tenBytes.payload, UInt16.ofNat tenBytes.payload.length))] := hrelayed
  cases hlost

end Cloud

end Ble
