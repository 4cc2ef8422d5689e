import Sox.ChatStore
import Sox.EnvelopeTrip
import Sox.HandedOnce
import Sox.Lib.Cursor
import Sox.ReplayPages

/-!
# What the chat window shows

The chat program's pump calls `channels__recv` again and again and feeds the messages of each answer to the
window's store, while the user works in the window, the listener of its server watches, and the others use the
backing store. The server may hand a message over twice, and answers may be lost. The window shows of each
channel exactly the messages that answers brought, each once, as they are stored and in the channel's order.
-/

namespace Sox

/-! ### The pump -/

def optionalStr : Option String → Json
  | none => .null
  | some s => .str s

/-- The dict of the message in the answer. -/
def Message.payload (m : Message) : JsonDict :=
  let fields : JsonDict := .ofList [("message_id", .str (toString m.messageId)), ("channel", .str m.channel),
    ("sender", .str m.sender), ("body", .obj m.body.entries), ("correlation_id", optionalStr m.correlationId),
    ("sent_at", .float m.sentAt), ("seq", .int m.seq), ("ts", m.ts), ("reply_to", optionalStr m.replyTo),
    ("delivered_to", m.deliveredTo), ("origin_server", m.originServer)]
  match m.metaField with
  | none => fields
  | some v => fields.set "_meta" v

variable {σ F : Type}

/-- The loop over the messages of an answer; one that raises ends it. `clock i` is the time at which the `i`-th
is ingested. -/
def RecvPump.ingest (py : PyNumbers F) (clock : ℕ → F) : ℕ → List JsonDict → ChatStore F → ChatStore F
  | _, [], s => s
  | i, msg :: messages, s =>
    match s.ingestMessage py msg (clock i) with
    | (s', .raised) => s'
    | (s', _) => ingest py clock (i + 1) messages s'

/-- The server of the chat program and its window. -/
structure ChatSession (σ F : Type) where
  server : Server σ
  chat : ChatStore F := {}
  /-- The messages of the answers that reached the pump. -/
  brought : List Message := []

namespace ChatSession

inductive Action (F : Type) where
  /-- Anybody calls the backing store. -/
  | other (op : StoreOp)
  /-- The listener polls, or its watch is started again. -/
  | poll
  | restart
  /-- A `recv` of the pump gets to the tool, which drains the queue. -/
  | ask
  /-- The tool is done with a call, and the pump reads the answer. -/
  | answer (call : Nat) (clock : ℕ → F)
  /-- The tool is done with a call that the pump has given up. -/
  | lose (call : Nat)
  | ui (call : ChatCall F)

def step (B : BackingStore σ) (a : AgentId) (py : PyNumbers F) (x : ChatSession σ F) :
    Action F → Option (ChatSession σ F)
  | .other op => some { x with server := { x.server with store := B.apply op x.server.store } }
  | .poll => (Server.lifeStep B a x.server (.act .poll)).map fun server => { x with server }
  | .restart => (Server.lifeStep B a x.server .restart).map fun server => { x with server }
  | .ask => (Server.lifeStep B a x.server (.act (.recvDrain none 50 true))).map fun server => { x with server }
  | .answer i clock => x.server.calls[i]?.bind fun call =>
    (Server.lifeStep B a x.server (.act (.recvDispatch i))).map fun server =>
      { server
        chat := RecvPump.ingest py clock 0 (call.buffered.map (·.payload)) x.chat
        brought := x.brought ++ call.buffered }
  | .lose i => (Server.lifeStep B a x.server (.act (.recvDispatch i))).map fun server => { x with server }
  | .ui (.ingestMessage _ _) => none
  | .ui call => some { x with chat := (call.apply py x.chat).1 }

def system (B : BackingStore σ) (a : AgentId) (py : PyNumbers F) : ActionSystem (ChatSession σ F) (Action F) :=
  ⟨step B a py⟩

def start (B : BackingStore σ) (a : AgentId) (s : σ) : ChatSession σ F := { server := Server.start B a s }

end ChatSession

/-! ### Messages as they are shown -/

theorem toString_injective {m n : ℕ} (h : toString m = toString n) : m = n := by
  have hdigits : Nat.toDigits 10 m = Nat.toDigits 10 n := by
    rw [← Nat.toList_repr, ← Nat.toList_repr]
    exact congrArg String.toList h
  rw [← Nat.ofDigitChars_ten_toDigits (n := m), hdigits, Nat.ofDigitChars_ten_toDigits]

structure MessageView where
  messageId : String
  channel : String
  sender : String
  body : List (String × Json)
  seq : ℤ
  replyTo : Option String

def Message.view (m : Message) : MessageView :=
  ⟨toString m.messageId, m.channel, m.sender, m.body.entries, m.seq, m.replyTo⟩

def MessageState.view (m : MessageState F) : MessageView := ⟨m.messageId, m.channel, m.sender, m.body, m.seq, m.replyTo⟩

section
variable {py : PyNumbers F} {m : Message}

theorem get?_payload {k : String} (hk : k ≠ "_meta") : m.payload.get? k =
    (Dict.ofList [("message_id", Json.str (toString m.messageId)), ("channel", .str m.channel),
      ("sender", .str m.sender), ("body", .obj m.body.entries), ("correlation_id", optionalStr m.correlationId),
      ("sent_at", .float m.sentAt), ("seq", .int m.seq), ("ts", m.ts), ("reply_to", optionalStr m.replyTo),
      ("delivered_to", m.deliveredTo), ("origin_server", m.originServer)]).get? k := by
  rw [Message.payload]
  cases m.metaField with
  | none => rfl
  | some v => exact Dict.get?_set_of_ne hk

theorem readMessageId_payload : ChatStore.readMessageId py m.payload = toString m.messageId := by
  rw [ChatStore.readMessageId, Dict.getD, get?_payload (by decide)]
  rfl

theorem readMessage_payload (hfloat : ∀ q, (py.toFloat (.float q)).isSome = true) (m : Message) (now : F) :
    ∃ x, ChatStore.readMessage py m.payload now = some x ∧ x.view = m.view := by
  obtain ⟨f, hf⟩ := Option.isSome_iff_exists.1 (hfloat m.sentAt)
  have hchannel : (m.payload.getD "channel" (.str "")).pyStr py.floatRepr = m.channel := by
    rw [Dict.getD, get?_payload (by decide)]
    rfl
  have hsender : (m.payload.getD "sender" (.str "")).pyStr py.floatRepr = m.sender := by
    rw [Dict.getD, get?_payload (by decide)]
    rfl
  have hbody : m.payload.get? "body" = some (.obj m.body.entries) := by
    rw [get?_payload (by decide)]
    rfl
  have hsent : ChatStore.readSentAt py now (m.payload.get? "sent_at") = some f := by
    rw [get?_payload (by decide)]
    exact hf
  have hseq : ChatStore.readSeq py (m.payload.getD "seq" (.int 0)) = some (m.seq : ℤ) := by
    rw [Dict.getD, get?_payload (by decide)]
    rfl
  have hreply : m.payload.get? "reply_to" = some (optionalStr m.replyTo) := by
    rw [get?_payload (by decide)]
    rfl
  simp only [ChatStore.readMessage, hchannel, hsender, hbody, hsent, hseq, hreply, readMessageId_payload]
  refine ⟨_, rfl, ?_⟩
  rw [MessageState.view, Message.view]
  cases m.replyTo with
  | none => rfl
  | some r => rfl

end


/-! ### The window after a history of calls -/

namespace ChatCall

open ChatStore

section
variable {py : PyNumbers F} {calls : List (ChatCall F)} {call : ChatCall F} {s : ChatStore F} {x : MessageState F}
  {id : String}

theorem view_updateMessage {f : MessageState F → MessageState F} (hf : ∀ m, (f m).view = m.view) {messageId : String}
    (h : (s.updateMessage f messageId).1.messages.get? id = some x) :
    ∃ m, s.messages.get? id = some m ∧ x.view = m.view := by
  rw [updateMessage] at h
  split at h
  · rw [Dict.get?_modify] at h
    split at h
    · rename_i hid
      obtain ⟨m, hm, rfl⟩ := Option.map_eq_some_iff.1 h
      exact ⟨m, hid ▸ hm, hf m⟩
    · exact ⟨x, h, rfl⟩
  · exact ⟨x, h, rfl⟩

theorem messages_apply (hknows : Knows py calls s) (h : (call.apply py s).1.messages.get? id = some x) :
    (∃ m, s.messages.get? id = some m ∧ x.view = m.view) ∨
      (newMessage py (calls, call) = some x ∧ x.messageId = id) := by
  cases call with
  | ingestMessage msg now =>
    simp only [apply, ChatStore.ingestMessage] at h
    split at h
    · exact .inl ⟨x, h, rfl⟩
    · rename_i hid
      split at h
      · exact .inl ⟨x, h, rfl⟩
      · rename_i hnew
        cases hread : readMessage py msg now with
        | none =>
          rw [hread] at h
          exact .inl ⟨x, h, rfl⟩
        | some m =>
          rw [hread] at h
          have hset : (s.messages.set m.messageId m).get? id = some x := h
          rw [Dict.get?_set] at hset
          split at hset
          · rename_i heq
            obtain rfl : m = x := Option.some.inj hset
            refine .inr ⟨newMessage_eq_some.2 ⟨?_, fun hmem => hnew ?_⟩, heq.symm⟩
            · rw [message?, if_neg hid, hread]
            · rw [← readMessage_messageId hread]
              exact (hknows _).2 hmem
          · exact .inl ⟨x, hset, rfl⟩
  | setAckStatus messageId status =>
    exact .inl (view_updateMessage (f := fun m => { m with ackStatus := status }) (fun _ => rfl) h)
  | toggleThread messageId =>
    exact .inl (view_updateMessage (f := fun m => { m with threadExpanded := !m.threadExpanded }) (fun _ => rfl) h)
  | focusChannel c => exact .inl ⟨x, h, rfl⟩
  | updateAgents agents => exact .inl ⟨x, h, rfl⟩
  | updateChannels channels => exact .inl ⟨x, h, rfl⟩
  | incrementAgentDm agentId => exact .inl ⟨x, h, rfl⟩

/-- What the window has is what was ingested, whatever marks it bears by now. -/
theorem messages_run (calls : List (ChatCall F)) {id : String} {x : MessageState F}
    (h : (run py calls).messages.get? id = some x) :
    ∃ m ∈ ingested py calls, x.view = m.view ∧ m.messageId = id := by
  induction calls using List.reverseRecOn generalizing x with
  | nil => cases h
  | append_singleton calls call ih =>
    rw [run_concat] at h
    rw [ingested_concat]
    rcases messages_apply (recorded calls).knows h with ⟨m, hm, hview⟩ | ⟨hnew, hid⟩
    · obtain ⟨m', hm', hview', hid⟩ := ih hm
      exact ⟨m', List.mem_append_left _ hm', hview.trans hview', hid⟩
    · refine ⟨x, List.mem_append_right _ ?_, rfl, hid⟩
      rw [hnew]
      exact List.mem_singleton_self x

end

/-- The calls that ingest the messages of an answer. -/
def pumped (clock : ℕ → F) : ℕ → List Message → List (ChatCall F)
  | _, [] => []
  | i, m :: messages => .ingestMessage m.payload (clock i) :: pumped clock (i + 1) messages

section
variable {py : PyNumbers F} {calls : List (ChatCall F)} {clock : ℕ → F} {messages : List Message}
  (hfloat : ∀ q, (py.toFloat (.float q)).isSome = true)

include hfloat

/-- No message of an answer ends the loop. -/
theorem ingest_eq (i : ℕ) (messages : List Message) (s : ChatStore F) :
    RecvPump.ingest py clock i (messages.map (·.payload)) s =
      (pumped clock i messages).foldl (fun s call => (call.apply py s).1) s := by
  induction messages generalizing i s with
  | nil => rfl
  | cons m messages ih =>
    obtain ⟨x, hread, -⟩ := readMessage_payload hfloat m (clock i)
    rw [pumped, List.foldl_cons, ← ih, List.map_cons, RecvPump.ingest]
    show _ = RecvPump.ingest py clock (i + 1) _ (s.ingestMessage py m.payload (clock i)).1
    cases hs : s.ingestMessage py m.payload (clock i) with
    | mk s' r =>
      cases r with
      | notified | returned => rfl
      | raised =>
        simp only [ChatStore.ingestMessage, hread] at hs
        split at hs
        · cases hs
        · split at hs
          · cases hs
          · cases hs

theorem pumped_knows (i : ℕ) (messages : List Message) (calls : List (ChatCall F)) :
    (∀ m ∈ messages, toString m.messageId ∈ knownIds py (calls ++ pumped clock i messages)) ∧
    ∀ x ∈ ingested py (calls ++ pumped clock i messages), x ∈ ingested py calls ∨
      ∃ m ∈ messages, x.view = m.view := by
  induction messages generalizing i calls with
  | nil =>
    rw [pumped, List.append_nil]
    exact ⟨fun m hm => absurd hm List.not_mem_nil, fun x hx => .inl hx⟩
  | cons m messages ih =>
    obtain ⟨x, hread, hview⟩ := readMessage_payload hfloat m (clock i)
    have hid : ¬readMessageId py m.payload = "" := by
      rw [readMessageId_payload]
      exact fun h => Nat.toDigits_ne_nil (Nat.toList_repr.symm.trans (congrArg String.toList h))
    have hmessage : (ingestMessage m.payload (clock i)).message? py = some x := by
      rw [message?, if_neg hid, hread]
    have hsplit : calls ++ pumped clock i (m :: messages) =
        calls ++ [.ingestMessage m.payload (clock i)] ++ pumped clock (i + 1) messages := by
      rw [List.append_assoc]
      rfl
    obtain ⟨hknown, hnew⟩ := ih (i + 1) (calls ++ [.ingestMessage m.payload (clock i)])
    rw [hsplit]
    refine ⟨fun n hn => ?_, fun y hy => ?_⟩
    · rcases List.mem_cons.1 hn with rfl | hn
      · have hx : x.messageId = toString n.messageId := congrArg MessageView.messageId hview
        have hhere : toString n.messageId ∈ knownIds py (calls ++ [.ingestMessage n.payload (clock i)]) := by
          rw [knownIds, List.filterMap_append, List.map_append, List.mem_append]
          refine .inr ?_
          rw [List.filterMap_cons_some hmessage, ← hx]
          exact List.mem_cons_self
        have happend : knownIds py (calls ++ [.ingestMessage n.payload (clock i)] ++ pumped clock (i + 1) messages) =
            knownIds py (calls ++ [.ingestMessage n.payload (clock i)]) ++
              knownIds py (pumped clock (i + 1) messages) := by
          rw [knownIds, List.filterMap_append, List.map_append]
          rfl
        rw [happend]
        exact List.mem_append_left _ hhere
      · exact hknown n hn
    · rcases hnew y hy with hy | ⟨n, hn, hview'⟩
      · rw [ingested_concat] at hy
        rcases List.mem_append.1 hy with hy | hy
        · exact .inl hy
        · refine .inr ⟨m, List.mem_cons_self, ?_⟩
          have hfresh := (newMessage_eq_some.1 (Option.mem_toList.1 hy)).1
          rw [hmessage] at hfresh
          rw [← Option.some.inj hfresh]
          exact hview
      · exact .inr ⟨n, List.mem_cons_of_mem _ hn, hview'⟩

end

end ChatCall

/-! ### The session -/

namespace ChatSession

/-- The messages that the pump will be given, or was. -/
def onTheWay (sv : Server σ) : List Message := sv.queue ++ sv.calls.flatMap (·.buffered)

structure Inv {B : BackingStore σ} (X : Mailbox B) (py : PyNumbers F) (s₀ : σ) (x : ChatSession σ F) : Prop where
  store : X.Inv x.server.store
  reached : ∃ ops, x.server.store = B.applyAll ops s₀
  stored : ∀ m ∈ onTheWay x.server ++ x.brought, m ∈ wires (X.messages x.server.store)
  window : ∃ calls, x.chat = ChatCall.run py calls ∧
    (∀ m ∈ x.brought, toString m.messageId ∈ ChatCall.knownIds py calls) ∧
    ∀ y ∈ ChatCall.ingested py calls, ∃ m ∈ x.brought, y.view = m.view

section
variable {B : BackingStore σ} {X : Mailbox B} {a : AgentId} {py : PyNumbers F} {x y : ChatSession σ F}
  {sv sv' : Server σ} {s₀ : σ} {act : Action F}

theorem inv_start (hs : X.Inv s₀) : Inv X py s₀ (start B a s₀ : ChatSession σ F) where
  store := hs
  reached := ⟨[], rfl⟩
  stored _ hm := absurd hm List.not_mem_nil
  window := ⟨[], rfl, fun _ hm => absurd hm List.not_mem_nil, fun _ hy => absurd hy List.not_mem_nil⟩

theorem Inv.serve (h : Inv X py s₀ x) (hstore : sv'.store = x.server.store)
    (hway : ∀ m ∈ onTheWay sv', m ∈ onTheWay x.server ∨ m ∈ wires (X.messages x.server.store)) :
    Inv X py s₀ { x with server := sv' } where
  store := hstore ▸ h.store
  reached := hstore ▸ h.reached
  stored m hm := by
    show m ∈ wires (X.messages sv'.store)
    rw [hstore]
    rcases List.mem_append.1 hm with hm | hm
    · rcases hway m hm with hm | hm
      · exact h.stored m (List.mem_append_left _ hm)
      · exact hm
    · exact h.stored m (List.mem_append_right _ hm)
  window := h.window

theorem Inv.change (hX : X.Lawful) (hC : X.Carries) (h : Inv X py s₀ x) (op : StoreOp)
    (hstore : sv'.store = B.apply op x.server.store) (hway : ∀ m ∈ onTheWay sv', m ∈ onTheWay x.server) :
    Inv X py s₀ { x with server := sv' } where
  store := hstore ▸ hX.keeps op _ h.store
  reached := by
    obtain ⟨ops, hops⟩ := h.reached
    exact ⟨ops ++ [op], by rw [hstore, hops, BackingStore.applyAll_append]; rfl⟩
  stored m hm := by
    have hwires := hC.appends op x.server.store h.store
    show m ∈ wires (X.messages sv'.store)
    rw [hstore]
    rcases List.mem_append.1 hm with hm | hm
    · exact hwires.subset (h.stored m (List.mem_append_left _ (hway m hm)))
    · exact hwires.subset (h.stored m (List.mem_append_right _ hm))
  window := h.window

theorem onTheWay_recvDrain (hstep : Server.lifeStep B a sv (.act (.recvDrain none 50 true)) = some sv') :
    sv'.store = sv.store ∧ ∀ m ∈ onTheWay sv', m ∈ onTheWay sv := by
  simp only [Server.lifeStep, Server.step, Server.drain_eq, List.nil_append, Option.some.injEq] at hstep
  subst hstep
  refine ⟨rfl, fun m hm => ?_⟩
  have hstrip (l : List Message) : l.map (Server.stripMeta true) = l := List.map_id l
  simp only [onTheWay, Server.filterChannels, hstrip, List.append_nil, List.flatMap_append, List.flatMap_singleton,
    List.mem_append] at hm ⊢
  rcases hm with hm | hm | hm
  · exact .inl (List.mem_of_mem_drop hm)
  · exact .inr hm
  · exact .inl (List.mem_of_mem_take hm)

theorem onTheWay_recvDispatch {i : Nat} (hstep : Server.lifeStep B a sv (.act (.recvDispatch i)) = some sv') :
    (∃ op, sv'.store = B.apply op sv.store) ∧ ∀ m ∈ onTheWay sv', m ∈ onTheWay sv := by
  simp only [Server.lifeStep, Server.step] at hstep
  split at hstep
  · cases hstep
  · rename_i call _
    cases hstep
    refine ⟨⟨.recv a call.channels call.maxMessages, rfl⟩, fun m hm => ?_⟩
    rcases List.mem_append.1 hm with hm | hm
    · exact List.mem_append_left _ hm
    · obtain ⟨call', hcall', hm⟩ := List.mem_flatMap.1 hm
      exact List.mem_append_right _ (List.mem_flatMap.2 ⟨call', List.mem_of_mem_eraseIdx hcall', hm⟩)

theorem Inv.read (hfloat : ∀ q, (py.toFloat (.float q)).isSome = true) (h : Inv X py s₀ x) {messages : List Message}
    (clock : ℕ → F) (hmessages : ∀ m ∈ messages, m ∈ onTheWay x.server) : Inv X py s₀ { x with
      chat := RecvPump.ingest py clock 0 (messages.map (·.payload)) x.chat
      brought := x.brought ++ messages } := by
  obtain ⟨calls, hchat, hknown, hnew⟩ := h.window
  obtain ⟨hknown', hnew'⟩ := @ChatCall.pumped_knows F py clock hfloat 0 messages calls
  refine ⟨h.store, h.reached, fun m hm => ?_, calls ++ ChatCall.pumped clock 0 messages, ?_, fun m hm => ?_,
    fun y hy => ?_⟩
  · rcases List.mem_append.1 hm with hm | hm
    · exact h.stored m (List.mem_append_left _ hm)
    · rcases List.mem_append.1 hm with hm | hm
      · exact h.stored m (List.mem_append_right _ hm)
      · exact h.stored m (List.mem_append_left _ (hmessages m hm))
  · show RecvPump.ingest py clock 0 _ x.chat = _
    rw [ChatCall.ingest_eq hfloat, hchat, ChatCall.run, ChatCall.run, List.foldl_append]
  · rcases List.mem_append.1 hm with hm | hm
    · rw [ChatCall.knownIds, List.filterMap_append, List.map_append]
      exact List.mem_append_left _ (hknown m hm)
    · exact hknown' m hm
  · rcases hnew' y hy with hy | ⟨m, hm, hview⟩
    · obtain ⟨m, hm, hview⟩ := hnew y hy
      exact ⟨m, List.mem_append_left _ hm, hview⟩
    · exact ⟨m, List.mem_append_right _ hm, hview⟩

theorem Inv.call (h : Inv X py s₀ x) {call : ChatCall F} (hcall : call.message? py = none) :
    Inv X py s₀ { x with chat := (call.apply py x.chat).1 } := by
  obtain ⟨calls, hchat, hknown, hnew⟩ := h.window
  refine ⟨h.store, h.reached, h.stored, calls ++ [call], ?_, fun m hm => ?_, fun y hy => ?_⟩
  · rw [ChatCall.run_concat, ← hchat]
  · exact ChatCall.mem_knownIds_concat.2 (.inl (hknown m hm))
  · have hnone : ChatCall.newMessage py (calls, call) = none := by rw [ChatCall.newMessage, hcall]; rfl
    rw [ChatCall.ingested_concat, hnone, Option.toList_none, List.append_nil] at hy
    exact hnew y hy

theorem Inv.step (hX : X.Lawful) (hC : X.Carries) (hfloat : ∀ q, (py.toFloat (.float q)).isSome = true)
    (h : Inv X py s₀ x) (hstep : (system B a py).step x act = some y) : Inv X py s₀ y := by
  cases act with
  | other op =>
    cases hstep
    exact h.change hX hC op rfl fun m hm => hm
  | poll =>
    simp only [system, ChatSession.step] at hstep
    obtain ⟨sv', hserver, rfl⟩ := Option.map_eq_some_iff.1 hstep
    obtain ⟨p, hp, hmsgs, -⟩ := hX.watchPoll a x.server.lastSeenId x.server.store
    simp only [Server.lifeStep, Server.step, Option.some.injEq] at hserver
    subst hserver
    refine h.serve rfl fun m hm => ?_
    rcases List.mem_append.1 hm with hm | hm
    · rcases List.mem_append.1 hm with hm | hm
      · exact .inl (List.mem_append_left _ hm)
      · rw [hmsgs] at hm
        obtain ⟨z, hz, rfl⟩ := List.mem_map.1 hm
        exact .inr (List.mem_map_of_mem (List.mem_of_mem_filter (hp.mem_iff.1 hz)))
    · exact .inl (List.mem_append_right _ hm)
  | restart =>
    simp only [system, ChatSession.step] at hstep
    obtain ⟨sv', hserver, rfl⟩ := Option.map_eq_some_iff.1 hstep
    cases hserver
    exact h.serve rfl fun m hm => .inl hm
  | ask =>
    simp only [system, ChatSession.step] at hstep
    obtain ⟨sv', hserver, rfl⟩ := Option.map_eq_some_iff.1 hstep
    obtain ⟨hsame, hway⟩ := onTheWay_recvDrain hserver
    exact h.serve hsame fun m hm => .inl (hway m hm)
  | answer i clock =>
    simp only [system, ChatSession.step] at hstep
    obtain ⟨call, hcall, hmap⟩ := Option.bind_eq_some_iff.1 hstep
    obtain ⟨sv', hserver, rfl⟩ := Option.map_eq_some_iff.1 hmap
    obtain ⟨⟨op, hstore⟩, hway⟩ := onTheWay_recvDispatch hserver
    have hmessages : ∀ m ∈ call.buffered, m ∈ onTheWay x.server := fun m hm =>
      List.mem_append_right _ (List.mem_flatMap.2 ⟨call, List.mem_of_getElem? hcall, hm⟩)
    exact (h.read hfloat clock hmessages).change hX hC op hstore hway
  | lose i =>
    simp only [system, ChatSession.step] at hstep
    obtain ⟨sv', hserver, rfl⟩ := Option.map_eq_some_iff.1 hstep
    obtain ⟨⟨op, hstore⟩, hway⟩ := onTheWay_recvDispatch hserver
    exact h.change hX hC op hstore hway
  | ui call =>
    cases call with
    | ingestMessage msg now => cases hstep
    | focusChannel | updateAgents | updateChannels | setAckStatus | toggleThread | incrementAgentDm =>
      cases hstep
      exact h.call rfl

theorem inv_run {as : List (Action F)} (hX : X.Lawful) (hC : X.Carries)
    (hfloat : ∀ q, (py.toFloat (.float q)).isSome = true) (hs : X.Inv s₀)
    (hrun : (system B a py).run (start B a s₀) as = some x) : Inv X py s₀ x :=
  ActionSystem.run_invariant (G := fun _ _ => True) (fun _ _ _ h _ hstep => h.step hX hC hfloat hstep) (inv_start hs)
    (ActionSystem.guarded_of_forall fun _ _ _ => trivial) hrun

/-! ### A channel in the window -/

theorem mem_messagesFor {s : ChatStore F} {c : String} {y : MessageState F} :
    y ∈ s.messagesFor c ↔ ∃ id ∈ s.channelMessages.getD c [], s.messages.get? id = some y := by
  rw [ChatStore.messagesFor, List.Perm.mem_iff (List.perm_insertionSort _ _), List.mem_filterMap]

/-- The window shows a message of the channel exactly if an answer brought it. -/
theorem Inv.mem_view (hX : X.Lawful) (h : Inv X py s₀ x) {c : Channel} {v : MessageView} :
    v ∈ (x.chat.messagesFor c).map (·.view) ↔ ∃ m ∈ x.brought, m.channel = c ∧ m.view = v := by
  obtain ⟨calls, hchat, hknown, hnew⟩ := h.window
  have hrecorded := @ChatCall.recorded F py calls
  rw [hchat, List.mem_map]
  -- an ingested message is the only one with its id
  have honly : ∀ y ∈ ChatCall.ingested py calls, ∀ z, (ChatCall.run py calls).messages.get? y.messageId = some z →
      z.view = y.view := fun y hy z hz => by
    obtain ⟨y', hy', hview, hid⟩ := ChatCall.messages_run calls hz
    rw [hview, List.inj_on_of_nodup_map ChatCall.nodup_ids_ingested hy' hy hid]
  constructor
  · rintro ⟨z, hz, rfl⟩
    obtain ⟨id, hid, hget⟩ := mem_messagesFor.1 hz
    rw [hrecorded.lists] at hid
    obtain ⟨y, hy, rfl⟩ := List.mem_map.1 hid
    obtain ⟨hy, hchannel⟩ := List.mem_filter.1 hy
    obtain ⟨m, hm, hview⟩ := hnew y hy
    have hc : m.channel = y.channel := (congrArg MessageView.channel hview).symm
    exact ⟨m, hm, hc.trans (of_decide_eq_true hchannel), hview.symm.trans (honly y hy z hget).symm⟩
  · rintro ⟨m, hm, rfl, rfl⟩
    obtain ⟨y, hy, hid⟩ := List.mem_map.1 (ChatCall.mem_ids_ingested.2 (hknown m hm))
    obtain ⟨m', hm', hview⟩ := hnew y hy
    have hids : toString m'.messageId = toString m.messageId := (congrArg MessageView.messageId hview).symm.trans hid
    have hsame : m' = m := Mailbox.wire_eq_of_id hX h.store (h.stored m (List.mem_append_right _ hm))
      (h.stored m' (List.mem_append_right _ hm')) (toString_injective hids)
    rw [hsame] at hview
    have hget := hrecorded.messages y.messageId
    rw [if_pos (ChatCall.mem_ids_ingested.1 (List.mem_map_of_mem hy))] at hget
    obtain ⟨z, hz, -⟩ := Option.map_eq_some_iff.1 hget
    refine ⟨z, mem_messagesFor.2 ⟨y.messageId, ?_, hz⟩, (honly y hy z hz).trans hview⟩
    rw [hrecorded.lists]
    have hchannel : y.channel = m.channel := congrArg MessageView.channel hview
    exact List.mem_map_of_mem (List.mem_filter.2 ⟨hy, decide_eq_true hchannel⟩)

theorem Inv.nodup_view (h : Inv X py s₀ x) (c : Channel) : ((x.chat.messagesFor c).map (·.view)).Nodup := by
  obtain ⟨calls, hchat, -, -⟩ := h.window
  rw [hchat]
  have hsub : ((ChatCall.ingested py calls).filter (·.channel = c)).Sublist (ChatCall.ingested py calls) :=
    List.filter_sublist
  have hids : (((ChatCall.run py calls).messagesFor c).map (·.messageId)).Nodup :=
    ((ChatCall.recorded calls).shown c).nodup_iff.2 (ChatCall.nodup_ids_ingested.sublist (hsub.map _))
  refine List.Nodup.of_map MessageView.messageId ?_
  rwa [List.map_map]

theorem Inv.shows (hX : X.Lawful) (h : Inv X py s₀ x) (hgapless : Gapless (X.messages x.server.store)) (c : Channel) :
    (x.chat.messagesFor c).map (·.view) = ((feed c (X.messages x.server.store)).filter
      (·.messageId ∈ x.brought.map (·.messageId))).map (·.view) := by
  set log := feed c (X.messages x.server.store) with hlog
  have hasc : log.Pairwise (·.seq < ·.seq) := feed_ascending hgapless
  have hmem (m : Message) : m ∈ log.filter (·.messageId ∈ x.brought.map (·.messageId)) ↔
      m ∈ x.brought ∧ m.channel = c := by
    rw [List.mem_filter, decide_eq_true_eq, hlog, feed, List.mem_filter, decide_eq_true_eq]
    constructor
    · rintro ⟨⟨hm, hc⟩, hid⟩
      obtain ⟨m', hm', hid⟩ := List.mem_map.1 hid
      have hsame := Mailbox.wire_eq_of_id hX h.store hm (h.stored m' (List.mem_append_right _ hm')) hid
      exact ⟨hsame ▸ hm', hc⟩
    · rintro ⟨hm, hc⟩
      exact ⟨⟨h.stored m (List.mem_append_right _ hm), hc⟩, List.mem_map_of_mem hm⟩
  have hsorted : ((x.chat.messagesFor c).map (·.view)).Pairwise fun v w => v.seq ≤ w.seq := by
    refine List.pairwise_map.2 ?_
    exact List.pairwise_insertionSort (fun m m' : MessageState F => m.seq ≤ m'.seq) _
  have hsorted' : ((log.filter (·.messageId ∈ x.brought.map (·.messageId))).map (·.view)).Pairwise
      fun v w => v.seq < w.seq := by
    refine List.pairwise_map.2 ((hasc.filter _).imp fun {m m'} hlt => ?_)
    show (m.seq : ℤ) < m'.seq
    omega
  have hperm : ((x.chat.messagesFor c).map (·.view)).Perm
      ((log.filter (·.messageId ∈ x.brought.map (·.messageId))).map (·.view)) := by
    refine (List.perm_ext_iff_of_nodup (h.nodup_view c) (hsorted'.imp fun hlt heq => ?_)).2 fun v => ?_
    · rw [heq] at hlt
      omega
    · rw [h.mem_view hX, List.mem_map]
      refine exists_congr fun m => ?_
      rw [hmem, and_assoc]
  refine List.Perm.eq_of_pairwise (fun v w hv hw hle hle' => ?_) hsorted (hsorted'.imp fun hlt => by omega) hperm
  obtain ⟨m, hm, rfl⟩ := List.mem_map.1 (hperm.subset hv)
  obtain ⟨m', hm', rfl⟩ := List.mem_map.1 hw
  have hseq : m.seq = m'.seq := by
    have hle : (m.seq : ℤ) ≤ m'.seq := hle
    have hle' : (m'.seq : ℤ) ≤ m.seq := hle'
    omega
  rw [Cursor.eq_of_key hasc (List.mem_of_mem_filter hm) (List.mem_of_mem_filter hm') hseq]

end

end ChatSession

/-- Whatever the user does and the others do, whatever the server hands over twice and whichever answers are lost:
of each channel the window shows the log of the channel, without the messages that no answer brought. Reading a
float as a float does not raise. -/
theorem window_shows_log (py : PyNumbers F) (hfloat : ∀ q, (py.toFloat (.float q)).isSome = true) (a : AgentId)
    (ops : List StoreOp) (as : List (ChatSession.Action F)) :
    (∀ x, (ChatSession.system memoryStore a py).run
        (ChatSession.start memoryStore a (memoryStore.applyAll ops MemoryStore.init)) as = some x → ∀ c,
      (x.chat.messagesFor c).map (·.view) =
        ((feed c x.server.store.messages).filter (·.messageId ∈ x.brought.map (·.messageId))).map (·.view)) ∧
    ∀ x, (ChatSession.system sqliteStore a py).run
        (ChatSession.start sqliteStore a (sqliteStore.applyAll ops SqliteStore.init)) as = some x → ∀ c,
      (x.chat.messagesFor c).map (·.view) =
        ((feed c x.server.store.db.messages).filter (·.messageId ∈ x.brought.map (·.messageId))).map (·.view) := by
  constructor
  · intro x hrun c
    have h := ChatSession.inv_run MemoryStore.mailbox_lawful MemoryStore.carries hfloat
      (MemoryStore.Inv.reachable ops) hrun
    exact h.shows MemoryStore.mailbox_lawful h.store.seqs c
  · intro x hrun c
    have h := ChatSession.inv_run SqliteStore.mailbox_lawful SqliteStore.carries hfloat
      (SqliteStore.inv_reachable ops) hrun
    obtain ⟨more, hmore⟩ := h.reached
    refine h.shows SqliteStore.mailbox_lawful ?_ c
    rw [hmore, ← BackingStore.applyAll_append]
    exact SqliteStore.gapless_reachable (ops ++ more)

/-- Conversions that give the number itself. -/
def plainNumbers : PyNumbers ℚ where
  floatRepr _ := ""
  intOfStr _ := none
  toFloat
    | .float q => some q
    | _ => none

def bobListens : ChatSession MemoryStore ℚ :=
  ChatSession.start memoryStore "bob" (memoryStore.applyAll [.subscribe "bob" "#*"] MemoryStore.init)

/-- The watch is started again before bob's answer has marked the message as delivered. -/
def handedTwice : List (ChatSession.Action ℚ) :=
  [.other (.send 1 ⟨"#a", "alice", .empty, none, none⟩), .poll, .ask, .restart, .poll, .ask, .answer 0 fun _ => 2,
    .answer 0 fun _ => 3]

theorem window_shows_log_bob : ∃ x, (ChatSession.system memoryStore "bob" plainNumbers).run bobListens handedTwice = some x ∧
    x.brought.map (·.messageId) = [1, 1] ∧ (x.chat.messagesFor "#a").length = 1 ∧
      (x.chat.messagesFor "#a").map (·.view) = ((feed "#a" x.server.store.messages).filter
        (·.messageId ∈ x.brought.map (·.messageId))).map (·.view) := by
  have hrun : ((ChatSession.system memoryStore "bob" plainNumbers).run bobListens handedTwice).isSome = true := by
    decide +kernel
  have hfinal := ActionSystem.run_final hrun
  refine ⟨_, hfinal, by decide +kernel, by decide +kernel, ?_⟩
  exact (window_shows_log plainNumbers (fun _ => rfl) "bob" [.subscribe "bob" "#*"] handedTwice).1 _ hfinal "#a"

end Sox
