import Sox.Lib.Since
import Sox.Json

/-!
# The chat view's store

`ChatStore` is what the chat program shows: its channels, the messages it was given, the agents, and
the channel in focus. `Consistent` says what the maps owe to the history of calls: who is focused,
where each message is listed, what is unread. `consistent_iff` says for which runs it holds
throughout: the focus must not leave a channel whose name is empty.
-/

namespace Sox

/-- How Python converts values: `repr` of a float, `int` of a string and `float` of a number or a
string; a conversion that raises is `none`. -/
structure PyNumbers (F : Type) where
  floatRepr : ℚ → String
  intOfStr : String → Option ℤ
  toFloat : Json → Option F

structure ChannelState where
  name : String
  subscriberCount : ℤ := 0
  unread : ℕ := 0
  focused : Bool := false

structure MessageState (F : Type) where
  messageId : String
  channel : String
  sender : String
  body : List (String × Json)
  sentAt : F
  seq : ℤ
  replyTo : Option String
  ackStatus : String := "pending"
  threadExpanded : Bool := false

structure AgentState where
  agentId : String
  presence : String := "unknown"
  lastHeartbeatAt : ℤ := 0
  unreadDm : ℕ := 0

structure ChatStore (F : Type) where
  channels : Dict String ChannelState := .empty
  messages : Dict String (MessageState F) := .empty
  /-- The ids of a channel's messages, in the order in which they came. -/
  channelMessages : Dict String (List String) := .empty
  agents : Dict String AgentState := .empty
  focusedChannel : Option String := none

/-- What a call did: it told the observers, it returned before that, or a conversion raised. -/
inductive CallResult where
  | notified
  | returned
  | raised
deriving DecidableEq

/-- `isinstance(value, (int, float))`, for which a `bool` is an `int`. -/
def Json.isNumber : Json → Bool
  | .int _ | .float _ | .bool _ => true
  | _ => false

def Json.isString : Json → Bool
  | .str _ => true
  | _ => false

/-- `int` of a number. -/
def Json.intOfNumber : Json → ℤ
  | .int n => n
  | .bool b => if b then 1 else 0
  | .float q => Json.truncate q
  | _ => 0

namespace ChatStore

variable {F : Type} (py : PyNumbers F)

def readSentAt (now : F) (raw : Option Json) : Option F :=
  match raw with
  | none => some now
  | some v => if v.isNumber || v.isString then py.toFloat v else some now

def readSeq : Json → Option ℤ
  | .str s => py.intOfStr s
  | v => some v.intOfNumber

def readMessageId (msg : JsonDict) : String := (msg.getD "message_id" (.str "")).pyStr py.floatRepr

/-- The message of a payload, unless a conversion raises. -/
def readMessage (msg : JsonDict) (now : F) : Option (MessageState F) := do
  let channel := (msg.getD "channel" (.str "")).pyStr py.floatRepr
  let sender := (msg.getD "sender" (.str "")).pyStr py.floatRepr
  let body := match msg.get? "body" with
    | some (.obj fields) => fields
    | _ => []
  let sentAt ← readSentAt py now (msg.get? "sent_at")
  let seq ← readSeq py (msg.getD "seq" (.int 0))
  let replyTo := match msg.get? "reply_to" with
    | none | some .null => none
    | some v => some (v.pyStr py.floatRepr)
  some { messageId := readMessageId py msg, channel, sender, body, sentAt, seq, replyTo }

/-- The state of a channel; one that is not there would start afresh. -/
def channel (s : ChatStore F) (c : String) : ChannelState := s.channels.getD c { name := c }

def messagesFor (s : ChatStore F) (channel : String) : List (MessageState F) :=
  let ids := s.channelMessages.getD channel []
  let msgs := ids.filterMap fun mid => s.messages.get? mid
  msgs.insertionSort fun m m' => m.seq ≤ m'.seq

/-- The message that was read is new. -/
def ingest (m : MessageState F) (s : ChatStore F) : ChatStore F :=
  let ids := s.channelMessages.getD m.channel []
  let channels := s.channels.setdefault m.channel { name := m.channel }
  { s with
    messages := s.messages.set m.messageId m
    channelMessages := s.channelMessages.set m.channel (ids ++ [m.messageId])
    channels :=
      if s.focusedChannel ≠ some m.channel then
        channels.modify m.channel fun ch => { ch with unread := ch.unread + 1 }
      else channels }

def ingestMessage (msg : JsonDict) (now : F) (s : ChatStore F) : ChatStore F × CallResult :=
  let messageId := readMessageId py msg
  if messageId = "" then (s, .returned)
  else if (s.messages.get? messageId).isSome then (s, .returned)
  else match readMessage py msg now with
    | none => (s, .raised)
    | some m => (s.ingest m, .notified)

/-- The empty string is false: a channel without a name keeps its mark. -/
def unfocusPrevious (s : ChatStore F) : Dict String ChannelState :=
  match s.focusedChannel with
  | none => s.channels
  | some c => if c ≠ "" then s.channels.modify c fun ch => { ch with focused := false } else s.channels

def focusChannel (channel : String) (s : ChatStore F) : ChatStore F :=
  let channels := s.unfocusPrevious.setdefault channel { name := channel }
  { s with
    focusedChannel := some channel
    channels := channels.modify channel fun ch => { ch with focused := true, unread := 0 } }

def updateAgent (agents : Dict String AgentState) (entry : JsonDict) : Dict String AgentState :=
  let aid := (entry.getD "agent_id" (.str "")).pyStr py.floatRepr
  if aid = "" then agents
  else
    let unreadDm := match agents.get? aid with
      | some a => a.unreadDm
      | none => 0
    agents.set aid {
      agentId := aid
      presence := (entry.getD "presence_state" (.str "unknown")).pyStr py.floatRepr
      lastHeartbeatAt := (entry.getD "last_heartbeat_at" (.int 0)).intOfNumber
      unreadDm }

def updateAgents (agents : List JsonDict) (s : ChatStore F) : ChatStore F :=
  { s with agents := agents.foldl (updateAgent py) s.agents }

def updateChannel (channels : Dict String ChannelState) (entry : JsonDict) : Dict String ChannelState :=
  let name := (entry.getD "name" (.str "")).pyStr py.floatRepr
  let subscriberCount := (entry.getD "subscriber_count" (.int 0)).intOfNumber
  if name = "" then channels
  else if (channels.get? name).isSome then channels.modify name fun ch => { ch with subscriberCount }
  else channels.set name { name, subscriberCount }

def updateChannels (channels : List JsonDict) (s : ChatStore F) : ChatStore F :=
  { s with channels := channels.foldl (updateChannel py) s.channels }

/-- `f` on a known message. -/
def updateMessage (f : MessageState F → MessageState F) (messageId : String) (s : ChatStore F) :
    ChatStore F × CallResult :=
  if (s.messages.get? messageId).isSome then
    ({ s with messages := s.messages.modify messageId f }, .notified)
  else (s, .returned)

def setAckStatus (messageId status : String) : ChatStore F → ChatStore F × CallResult :=
  updateMessage (fun m => { m with ackStatus := status }) messageId

def toggleThread (messageId : String) : ChatStore F → ChatStore F × CallResult :=
  updateMessage (fun m => { m with threadExpanded := !m.threadExpanded }) messageId

def incrementAgentDm (agentId : String) (s : ChatStore F) : ChatStore F :=
  { s with agents := (s.agents.setdefault agentId { agentId }).modify agentId fun a =>
      { a with unreadDm := a.unreadDm + 1 } }

end ChatStore

/-- A call on the store; `now` is what `time.time()` gives. -/
inductive ChatCall (F : Type) where
  | ingestMessage (msg : JsonDict) (now : F)
  | focusChannel (channel : String)
  | updateAgents (agents : List JsonDict)
  | updateChannels (channels : List JsonDict)
  | setAckStatus (messageId status : String)
  | toggleThread (messageId : String)
  | incrementAgentDm (agentId : String)

namespace ChatCall

variable {F : Type} (py : PyNumbers F)

def apply (call : ChatCall F) (s : ChatStore F) : ChatStore F × CallResult :=
  match call with
  | .ingestMessage msg now => s.ingestMessage py msg now
  | .focusChannel channel => (s.focusChannel channel, .notified)
  | .updateAgents agents => (s.updateAgents py agents, .notified)
  | .updateChannels channels => (s.updateChannels py channels, .notified)
  | .setAckStatus messageId status => s.setAckStatus messageId status
  | .toggleThread messageId => s.toggleThread messageId
  | .incrementAgentDm agentId => (s.incrementAgentDm agentId, .notified)

def run (calls : List (ChatCall F)) : ChatStore F := calls.foldl (fun s call => (call.apply py s).1) {}

end ChatCall

/-! ### What a history of calls says -/

namespace ChatCall

variable {F : Type} (py : PyNumbers F)

/-- The message a call brings, when its payload can be read. -/
def message? : ChatCall F → Option (MessageState F)
  | .ingestMessage msg now =>
    if ChatStore.readMessageId py msg = "" then none else ChatStore.readMessage py msg now
  | _ => none

def focus? : ChatCall F → Option String
  | .focusChannel channel => some channel
  | _ => none

def lastFocus (calls : List (ChatCall F)) : Option String := (calls.filterMap focus?).getLast?

def knownIds (calls : List (ChatCall F)) : List String :=
    (calls.filterMap (message? py)).map (·.messageId)

/-- The message of a call, unless one with its id came before. -/
def newMessage (past : List (ChatCall F) × ChatCall F) : Option (MessageState F) :=
  (past.2.message? py).filter fun m => m.messageId ∉ knownIds py past.1

/-- The distinct messages, each as it came first. -/
def ingested (calls : List (ChatCall F)) : List (MessageState F) :=
  (History.withPast calls).filterMap (newMessage py)

/-- The call brings a new message on `c`, which is not in focus. -/
def missedOn (c : String) (past : List (ChatCall F) × ChatCall F) : Bool :=
  lastFocus past.1 ≠ some c && (newMessage py past).any (·.channel = c)

/-- How many messages came on `c` out of focus since it was last in focus. -/
def unreadOf (c : String) (calls : List (ChatCall F)) : ℕ :=
  (History.since (fun past => past.2.focus? = some c) (History.withPast calls)).countP (missedOn py c)

variable {py} {calls : List (ChatCall F)} {call : ChatCall F} {m : MessageState F} {c : String}

theorem lastFocus_concat : lastFocus (calls ++ [call]) = call.focus?.or (lastFocus calls) := by
  rw [lastFocus, List.filterMap_append, List.getLast?_append]
  cases h : call.focus? <;> simp [List.filterMap, h, lastFocus]

theorem newMessage_eq_some : newMessage py (calls, call) = some m ↔
    call.message? py = some m ∧ m.messageId ∉ knownIds py calls := by
  simp [newMessage, Option.filter_eq_some_iff]

theorem mem_knownIds_concat {id : String} : id ∈ knownIds py (calls ++ [call]) ↔
    id ∈ knownIds py calls ∨ ∃ m, newMessage py (calls, call) = some m ∧ m.messageId = id := by
  have hsplit : id ∈ knownIds py (calls ++ [call]) ↔
      id ∈ knownIds py calls ∨ ∃ m, call.message? py = some m ∧ m.messageId = id := by
    simp only [knownIds, List.filterMap_append, List.map_append, List.mem_append]
    refine or_congr_right ?_
    cases h : call.message? py <;> simp [List.filterMap, h, eq_comm]
  rw [hsplit]
  constructor
  · rintro (h | ⟨m, hm, rfl⟩)
    · exact .inl h
    · by_cases hk : m.messageId ∈ knownIds py calls
      · exact .inl hk
      · exact .inr ⟨m, newMessage_eq_some.2 ⟨hm, hk⟩, rfl⟩
  · rintro (h | ⟨m, hm, rfl⟩)
    · exact .inl h
    · exact .inr ⟨m, (newMessage_eq_some.1 hm).1, rfl⟩

theorem ingested_concat :
    ingested py (calls ++ [call]) = ingested py calls ++ (newMessage py (calls, call)).toList := by
  rw [ingested, History.withPast_concat, List.filterMap_append]
  cases h : newMessage py (calls, call) <;> simp [List.filterMap, h, ingested]

theorem unreadOf_concat : unreadOf py c (calls ++ [call]) =
    if call.focus? = some c then 0
    else unreadOf py c calls + if missedOn py c (calls, call) then 1 else 0 := by
  rw [unreadOf, History.withPast_concat, History.since_concat]
  by_cases h : call.focus? = some c
  · simp [h]
  · simp [h, List.countP_append, List.countP_singleton, unreadOf]

theorem mem_ids_ingested {id : String} :
    id ∈ (ingested py calls).map (·.messageId) ↔ id ∈ knownIds py calls := by
  induction calls using List.reverseRecOn with
  | nil => exact Iff.rfl
  | append_singleton calls call ih =>
    rw [ingested_concat, mem_knownIds_concat, List.map_append, List.mem_append, ih]
    simp

theorem nodup_ids_ingested : ((ingested py calls).map (·.messageId)).Nodup := by
  induction calls using List.reverseRecOn with
  | nil => exact List.nodup_nil
  | append_singleton calls call ih =>
    rw [ingested_concat]
    cases h : newMessage py (calls, call) with
    | none => simpa using ih
    | some m =>
      have hnew : m.messageId ∉ (ingested py calls).map (·.messageId) :=
        fun hmem => (newMessage_eq_some.1 h).2 (mem_ids_ingested.1 hmem)
      rw [Option.toList_some, List.map_append, List.map_singleton]
      exact List.Nodup.append ih (List.nodup_singleton _) (by simpa using hnew)

end ChatCall

/-! ### What a call does to the store -/

namespace ChatStore

variable {F : Type} {py : PyNumbers F} {s s' : ChatStore F} {m : MessageState F} {c j : String}

theorem readMessage_messageId {msg : JsonDict} {now : F} (h : readMessage py msg now = some m) :
    m.messageId = readMessageId py msg := by
  simp only [readMessage, Option.bind_eq_bind, Option.bind_eq_some_iff] at h
  obtain ⟨sentAt, -, seq, -, hm⟩ := h
  rw [← Option.some.inj hm]

theorem channel_ingest : (s.ingest m).channel j =
    if j = m.channel ∧ s.focusedChannel ≠ some j then
      { s.channel j with unread := (s.channel j).unread + 1 }
    else s.channel j := by
  have hdefault : (s.channels.setdefault m.channel { name := m.channel }).getD j { name := j } =
    s.channel j := by
    rw [Dict.getD, Dict.get?_setdefault]
    by_cases hj : j = m.channel
    · rw [if_pos hj, hj]
      rfl
    · rw [if_neg hj]
      rfl
  by_cases hf : s.focusedChannel = some m.channel
  · have hnot : ¬(j = m.channel ∧ s.focusedChannel ≠ some j) := by
      rintro ⟨rfl, h⟩
      exact h hf
    rw [if_neg hnot, channel, ingest, if_neg (not_not.2 hf)]
    exact hdefault
  · rw [channel, ingest, if_pos hf, Dict.getD_setdefault_modify]
    by_cases hj : j = m.channel
    · subst hj
      rw [if_pos rfl, if_pos ⟨rfl, hf⟩]
      rfl
    · rw [if_neg hj, if_neg fun h => hj h.1]
      rfl

/-- A channel that loses the focus is marked so, unless its name is empty. -/
theorem channel_focusChannel : (s.focusChannel c).channel j =
    if j = c then { s.channel j with focused := true, unread := 0 }
    else if s.focusedChannel = some j ∧ j ≠ "" then { s.channel j with focused := false }
    else s.channel j := by
  have hprev : ∀ k : String, s.unfocusPrevious.getD k { name := k } =
      if s.focusedChannel = some k ∧ k ≠ "" then { s.channel k with focused := false }
      else s.channel k := by
    intro k
    rw [unfocusPrevious]
    cases hfoc : s.focusedChannel with
    | none => rw [if_neg (by simp)]; rfl
    | some d =>
      dsimp only
      by_cases hd : d = ""
      · subst hd
        rw [if_neg (by simp), if_neg (by rintro ⟨h, hk⟩; exact hk (Option.some.inj h).symm)]
        rfl
      · rw [if_pos hd, Dict.getD_modify rfl]
        by_cases hk : k = d
        · subst hk
          rw [if_pos rfl, if_pos ⟨rfl, hd⟩]
          rfl
        · rw [if_neg hk, if_neg fun h => hk (Option.some.inj h.1).symm]
          rfl
  rw [channel, focusChannel, Dict.getD_setdefault_modify]
  by_cases hj : j = c
  · subst hj
    rw [if_pos rfl, if_pos rfl, hprev j]
    split <;> rfl
  · rw [if_neg hj, if_neg hj, hprev j]

/-- Nothing that `Consistent` is about has changed. -/
structure Quiet (s s' : ChatStore F) : Prop where
  messages : ∀ id, (s'.messages.get? id).map (·.messageId) = (s.messages.get? id).map (·.messageId)
  channelMessages : s'.channelMessages = s.channelMessages
  focusedChannel : s'.focusedChannel = s.focusedChannel
  unread : ∀ c, (s'.channel c).unread = (s.channel c).unread
  focused : ∀ c, (s'.channel c).focused = (s.channel c).focused

theorem Quiet.refl (s : ChatStore F) : Quiet s s := ⟨fun _ => rfl, rfl, rfl, fun _ => rfl, fun _ => rfl⟩

/-- An entry of the listing changes a count of subscribers only. -/
theorem getD_updateChannel (d : Dict String ChannelState) (entry : JsonDict) (c : String) :
    ∃ n, (updateChannel py d entry).getD c { name := c } =
      { d.getD c { name := c } with subscriberCount := n } := by
  rw [updateChannel]
  generalize (entry.getD "name" (.str "")).pyStr py.floatRepr = name
  by_cases hname : name = ""
  · exact ⟨_, by rw [if_pos hname]⟩
  · by_cases hc : c = name
    · subst hc
      refine ⟨(entry.getD "subscriber_count" (.int 0)).intOfNumber, ?_⟩
      rw [if_neg hname]
      cases hd : d.get? c <;> simp [Dict.getD, Dict.get?_modify, hd]
    · refine ⟨(d.getD c { name := c }).subscriberCount, ?_⟩
      rw [if_neg hname]
      split
      · rw [Dict.getD, Dict.get?_modify, if_neg hc]
        rfl
      · rw [Dict.getD_set_of_ne hc]

theorem quiet_updateChannels (channels : List JsonDict) : Quiet s (s.updateChannels py channels) := by
  have hall : ∀ (entries : List JsonDict) (d : Dict String ChannelState) (c : String),
      ((entries.foldl (updateChannel py) d).getD c { name := c }).unread =
        (d.getD c { name := c }).unread ∧
      ((entries.foldl (updateChannel py) d).getD c { name := c }).focused =
        (d.getD c { name := c }).focused := by
    intro entries
    induction entries with
    | nil => exact fun _ _ => ⟨rfl, rfl⟩
    | cons entry entries ih =>
      intro d c
      obtain ⟨hunread, hfocused⟩ := ih (updateChannel py d entry) c
      obtain ⟨n, hentry⟩ := getD_updateChannel d entry c
      rw [hentry] at hunread hfocused
      exact ⟨hunread, hfocused⟩
  exact ⟨fun _ => rfl, rfl, rfl, fun c => (hall channels s.channels c).1,
    fun c => (hall channels s.channels c).2⟩

theorem quiet_updateMessage {f : MessageState F → MessageState F}
    (hf : ∀ m, (f m).messageId = m.messageId)
    (messageId : String) : Quiet s (s.updateMessage f messageId).1 := by
  rw [updateMessage]
  split
  · refine ⟨fun id => ?_, rfl, rfl, fun _ => rfl, fun _ => rfl⟩
    rw [Dict.get?_modify]
    split
    · rename_i hid
      subst hid
      cases s.messages.get? id <;> simp [hf]
    · rfl
  · exact .refl s

end ChatStore

/-! ### The store after a history -/

namespace ChatCall

open ChatStore

variable {F : Type} {py : PyNumbers F} {calls : List (ChatCall F)} {call : ChatCall F} {s : ChatStore F}
  {m : MessageState F} {c : String}

/-- The store knows the ids of the history's messages. -/
def Knows (py : PyNumbers F) (calls : List (ChatCall F)) (s : ChatStore F) : Prop :=
  ∀ id, (s.messages.get? id).isSome = true ↔ id ∈ knownIds py calls

/-- A call brings a new message, moves the focus, or does neither. -/
theorem apply_cases (hknows : Knows py calls s) :
    (∃ m, newMessage py (calls, call) = some m ∧ call.focus? = none ∧
      (call.apply py s).1 = s.ingest m) ∨
    (∃ c, newMessage py (calls, call) = none ∧ call.focus? = some c ∧
      (call.apply py s).1 = s.focusChannel c) ∨
    newMessage py (calls, call) = none ∧ call.focus? = none ∧ Quiet s (call.apply py s).1 := by
  cases call with
  | ingestMessage msg now =>
    by_cases hid : readMessageId py msg = ""
    · refine .inr (.inr ⟨?_, rfl, ?_⟩)
      · simp [newMessage, message?, hid]
      · simp only [apply, ChatStore.ingestMessage, hid, ↓reduceIte]
        exact .refl s
    · by_cases hknown : (s.messages.get? (readMessageId py msg)).isSome = true
      · refine .inr (.inr ⟨?_, rfl, ?_⟩)
        · rw [Option.eq_none_iff_forall_ne_some]
          intro m hm
          obtain ⟨hread, hnew⟩ := newMessage_eq_some.1 hm
          rw [message?, if_neg hid] at hread
          rw [readMessage_messageId hread] at hnew
          exact hnew ((hknows _).1 hknown)
        · simp only [apply, ChatStore.ingestMessage, if_neg hid, hknown, ↓reduceIte]
          exact .refl s
      · have happly : ((ChatCall.ingestMessage msg now).apply py s).1 =
            match readMessage py msg now with
            | none => s
            | some m => s.ingest m := by
          simp only [apply, ChatStore.ingestMessage, if_neg hid, if_neg hknown]
          cases readMessage py msg now <;> rfl
        cases hread : readMessage py msg now with
        | none =>
          rw [hread] at happly
          refine .inr (.inr ⟨?_, rfl, happly ▸ .refl s⟩)
          simp [newMessage, message?, hid, hread]
        | some m =>
          rw [hread] at happly
          refine .inl ⟨m, newMessage_eq_some.2 ⟨?_, ?_⟩, rfl, happly⟩
          · rw [message?, if_neg hid, hread]
          · rw [readMessage_messageId hread]
            exact fun h => hknown ((hknows _).2 h)
  | focusChannel c => exact .inr (.inl ⟨c, rfl, rfl, rfl⟩)
  | updateAgents agents =>
    exact .inr (.inr ⟨rfl, rfl, ⟨fun _ => rfl, rfl, rfl, fun _ => rfl, fun _ => rfl⟩⟩)
  | updateChannels channels => exact .inr (.inr ⟨rfl, rfl, quiet_updateChannels channels⟩)
  | setAckStatus messageId status =>
    have hquiet := quiet_updateMessage (s := s) (f := fun m => { m with ackStatus := status })
      (fun _ => rfl) messageId
    exact .inr (.inr ⟨rfl, rfl, hquiet⟩)
  | toggleThread messageId =>
    have hquiet :=
      quiet_updateMessage (s := s) (f := fun m => { m with threadExpanded := !m.threadExpanded })
      (fun _ => rfl) messageId
    exact .inr (.inr ⟨rfl, rfl, hquiet⟩)
  | incrementAgentDm agentId =>
    exact .inr (.inr ⟨rfl, rfl, ⟨fun _ => rfl, rfl, rfl, fun _ => rfl, fun _ => rfl⟩⟩)

/-- What the maps owe to the calls before, whatever happens to the marks of focus. -/
structure Recorded (py : PyNumbers F) (calls : List (ChatCall F)) (s : ChatStore F) : Prop where
  messages : ∀ id, (s.messages.get? id).map (·.messageId) =
    if id ∈ knownIds py calls then some id else none
  lists : ∀ c, s.channelMessages.getD c [] =
    ((ingested py calls).filter (·.channel = c)).map (·.messageId)
  focus : s.focusedChannel = lastFocus calls
  unread : ∀ c, (s.channel c).unread = unreadOf py c calls

theorem Recorded.knows (h : Recorded py calls s) : Knows py calls s := by
  intro id
  have hid := h.messages id
  split at hid
  · rename_i hk
    exact iff_of_true (by cases hm : s.messages.get? id <;> simp_all) hk
  · rename_i hk
    exact iff_of_false (by simp_all) hk

theorem Recorded.init : Recorded py [] ({} : ChatStore F) :=
  ⟨fun _ => rfl, fun _ => rfl, rfl, fun _ => rfl⟩

theorem Recorded.apply (h : Recorded py calls s) :
    Recorded py (calls ++ [call]) (call.apply py s).1 := by
  rcases apply_cases h.knows with ⟨m, hnew, hfocus, hs⟩ | ⟨c, hnew, hfocus, hs⟩ | ⟨hnew, hfocus, hquiet⟩
  · rw [hs]
    refine ⟨fun id => ?_, fun c => ?_, ?_, fun c => ?_⟩
    · show ((s.messages.set m.messageId m).get? id).map (·.messageId) = _
      rw [Dict.get?_set]
      by_cases hid : id = m.messageId
      · rw [if_pos hid, if_pos (mem_knownIds_concat.2 (.inr ⟨m, hnew, hid.symm⟩)), hid]
        rfl
      · have hsame : id ∈ knownIds py (calls ++ [call]) ↔ id ∈ knownIds py calls := by
          rw [mem_knownIds_concat, hnew]
          simp [Ne.symm hid]
        rw [if_neg hid, h.messages id]
        simp only [hsame]
    · show (s.channelMessages.set m.channel _).getD c [] = _
      rw [ingested_concat, hnew, Option.toList_some, List.filter_append, List.map_append]
      by_cases hc : c = m.channel
      · subst hc
        rw [Dict.getD_set_self, h.lists]
        simp
      · rw [Dict.getD_set_of_ne hc, h.lists]
        simp [Ne.symm hc]
    · rw [lastFocus_concat, hfocus]
      exact h.focus
    · have hstays : call.focus? ≠ some c := by simp [hfocus]
      rw [unreadOf_concat, if_neg hstays, channel_ingest, ← h.unread]
      simp only [missedOn, hnew, ← h.focus, Option.any_some, Bool.and_eq_true, decide_eq_true_eq,
        and_comm (a := s.focusedChannel ≠ some c), eq_comm (a := m.channel)]
      split <;> rfl
  · rw [hs]
    refine ⟨fun id => ?_, fun j => ?_, ?_, fun j => ?_⟩
    · show (s.messages.get? id).map (·.messageId) = _
      simp only [mem_knownIds_concat, hnew]
      simpa using h.messages id
    · show s.channelMessages.getD j [] = _
      rw [ingested_concat, hnew]
      simpa using h.lists j
    · rw [lastFocus_concat, hfocus]
      rfl
    · rw [channel_focusChannel, unreadOf_concat, hfocus]
      by_cases hj : j = c
      · rw [if_pos hj, if_pos (by rw [hj])]
      · rw [if_neg hj, if_neg fun heq => hj (Option.some.inj heq).symm, missedOn, hnew, ← h.unread]
        simp only [Option.any_none, Bool.and_false, Bool.false_eq_true, ↓reduceIte, Nat.add_zero]
        split <;> rfl
  · refine ⟨fun id => ?_, fun j => ?_, ?_, fun j => ?_⟩
    · rw [hquiet.messages id, h.messages id]
      simp only [mem_knownIds_concat, hnew]
      simp
    · rw [hquiet.channelMessages, h.lists, ingested_concat, hnew]
      simp
    · rw [hquiet.focusedChannel, lastFocus_concat, hfocus]
      exact h.focus
    · rw [hquiet.unread, h.unread, unreadOf_concat, hfocus, missedOn, hnew]
      simp

theorem run_concat : run py (calls ++ [call]) = (call.apply py (run py calls)).1 := by
  simp [run, List.foldl_append]

theorem recorded (calls : List (ChatCall F)) : Recorded py calls (run py calls) := by
  induction calls using List.reverseRecOn with
  | nil => exact .init
  | append_singleton calls call ih =>
    rw [run_concat]
    exact ih.apply

/-- The focused channel, and no other, is marked. -/
def Marked (s : ChatStore F) : Prop := ∀ c, (s.channel c).focused = true ↔ s.focusedChannel = some c

/-- Moving the focus keeps the marks right exactly when it does not leave a channel without a name. -/
theorem marked_focusChannel (h : Marked s) :
    Marked (s.focusChannel c) ↔ (s.focusedChannel = some "" → c = "") := by
  constructor
  · intro hmarked hempty
    by_contra hc
    have hold : ((s.focusChannel c).channel "").focused = true := by
      rw [channel_focusChannel, if_neg (Ne.symm hc), if_neg fun h => h.2 rfl]
      exact (h "").2 hempty
    exact hc (Option.some.inj ((hmarked "").1 hold))
  · intro hleave j
    show _ ↔ some c = some j
    rw [channel_focusChannel]
    by_cases hj : j = c
    · simp [hj]
    · rw [if_neg hj]
      by_cases hprev : s.focusedChannel = some j
      · have hne : j ≠ "" := by
          rintro rfl
          exact hj (hleave hprev).symm
        simp [hprev, hne, Ne.symm hj]
      · rw [if_neg fun h => hprev h.1, h j]
        exact iff_of_false hprev fun h => hj (Option.some.inj h).symm

theorem Marked.apply (h : Marked s) (hknows : Knows py calls s) (hfocus : call.focus? = none) :
    Marked (call.apply py s).1 := by
  intro j
  rcases apply_cases hknows with ⟨m, -, -, hs⟩ | ⟨c, -, hc, -⟩ | ⟨-, -, hquiet⟩
  · rw [hs, channel_ingest]
    refine Iff.trans ?_ (h j)
    split <;> rfl
  · rw [hfocus] at hc
    cases hc
  · rw [hquiet.focused, hquiet.focusedChannel]
    exact h j

/-- The state shows what the calls before did. -/
structure Consistent (py : PyNumbers F) (calls : List (ChatCall F)) (s : ChatStore F) : Prop where
  focus : s.focusedChannel = lastFocus calls
  marked : ∀ c, (∃ ch, s.channels.get? c = some ch ∧ ch.focused = true) ↔ s.focusedChannel = some c
  /-- An ingested message is once in the list of its channel, and in no other. -/
  listed : ∀ m ∈ ingested py calls, (s.channelMessages.getD m.channel []).count m.messageId = 1 ∧
    ∀ c, c ≠ m.channel → m.messageId ∉ s.channelMessages.getD c []
  unread : ∀ c ch, s.channels.get? c = some ch → ch.unread = unreadOf py c calls
  shown : ∀ c, ((s.messagesFor c).map (·.messageId)).Perm
    (((ingested py calls).filter (·.channel = c)).map (·.messageId))
  sorted : ∀ c, (s.messagesFor c).Pairwise fun m m' => m.seq ≤ m'.seq

theorem marked_iff : Marked s ↔
    ∀ c, (∃ ch, s.channels.get? c = some ch ∧ ch.focused = true) ↔ s.focusedChannel = some c := by
  refine forall_congr' fun c => iff_congr ?_ Iff.rfl
  rw [channel, Dict.getD]
  cases s.channels.get? c <;> simp

theorem Recorded.listed (h : Recorded py calls s) (hm : m ∈ ingested py calls) :
    (s.channelMessages.getD m.channel []).count m.messageId = 1 ∧
    ∀ c, c ≠ m.channel → m.messageId ∉ s.channelMessages.getD c [] := by
  have hnd : ∀ c, (((ingested py calls).filter (·.channel = c)).map (·.messageId)).Nodup := fun c =>
    nodup_ids_ingested.sublist (List.filter_sublist.map _)
  constructor
  · rw [h.lists]
    refine List.count_eq_one_of_mem (hnd _) (List.mem_map_of_mem (List.mem_filter.2 ⟨hm, by simp⟩))
  · intro c hc hmem
    rw [h.lists] at hmem
    obtain ⟨m', hm', hid⟩ := List.mem_map.1 hmem
    obtain ⟨hm', hchannel⟩ := List.mem_filter.1 hm'
    obtain rfl := List.inj_on_of_nodup_map nodup_ids_ingested hm' hm hid
    exact hc (of_decide_eq_true hchannel).symm

theorem Recorded.shown (h : Recorded py calls s) (c : String) :
    ((s.messagesFor c).map (·.messageId)).Perm
    (((ingested py calls).filter (·.channel = c)).map (·.messageId)) := by
  refine ((List.perm_insertionSort _ _).map _).trans (.of_eq ?_)
  rw [List.map_filterMap, h.lists]
  refine (List.filterMap_congr fun id hid => ?_).trans List.filterMap_some
  have hsub : ((ingested py calls).filter (·.channel = c)).Sublist (ingested py calls) :=
    List.filter_sublist
  rw [h.messages, if_pos (mem_ids_ingested.1 ((hsub.map _).subset hid))]

theorem Recorded.consistent_iff_marked (h : Recorded py calls s) : Consistent py calls s ↔ Marked s := by
  constructor
  · exact fun hc => marked_iff.2 hc.marked
  · intro hmarked
    refine ⟨h.focus, marked_iff.1 hmarked, fun m => h.listed, fun c ch hch => ?_, h.shown, fun c => ?_⟩
    · rw [← h.unread c, channel, Dict.getD, hch]
      rfl
    · exact List.pairwise_insertionSort _ _

/-- The view is consistent throughout a run exactly when the focus never moves away from a channel
whose name is empty. -/
theorem consistent_iff (calls : List (ChatCall F)) :
    (∀ before, before <+: calls → Consistent py before (run py before)) ↔
      ∀ before c, before ++ [.focusChannel c] <+: calls → lastFocus before = some "" → c = "" := by
  constructor
  · intro h before c hprefix hempty
    have hbefore :=
      (recorded before).consistent_iff_marked.1 (h before ((List.prefix_append _ _).trans hprefix))
    have hafter := (recorded _).consistent_iff_marked.1 (h _ hprefix)
    rw [run_concat] at hafter
    exact (marked_focusChannel hbefore).1 hafter ((recorded before).focus.trans hempty)
  · intro h before hprefix
    rw [(recorded before).consistent_iff_marked]
    induction before using List.reverseRecOn with
    | nil => exact fun c => iff_of_false (by simp [run, channel, Dict.getD]) (by simp [run])
    | append_singleton before call ih =>
      have hmarked := ih ((List.prefix_append _ _).trans hprefix)
      rw [run_concat]
      cases hfocus : call.focus? with
      | none => exact hmarked.apply (recorded before).knows hfocus
      | some c =>
        have hcall : call = .focusChannel c := by
          cases call <;> simp [focus?] at hfocus
          rw [hfocus]
        subst hcall
        refine (marked_focusChannel hmarked).2 fun hempty => h before c hprefix ?_
        rw [← (recorded before).focus, hempty]

end ChatCall

/-- Focusing the channel without a name and then another leaves both marked. -/
theorem not_consistent_empty_name :
    ¬∀ (py : PyNumbers ℚ) (calls : List (ChatCall ℚ)),
      ChatCall.Consistent py calls (ChatCall.run py calls) := by
  intro h
  have hc := h ⟨fun _ => "", fun _ => none, fun _ => none⟩ [.focusChannel "", .focusChannel "#general"]
  have hmark := (hc.marked "").1 ⟨{ name := "", focused := true }, rfl, rfl⟩
  exact absurd hmark (by decide)

end Sox
