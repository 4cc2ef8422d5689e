import Sox.Http
import Sox.McpClient
import Sox.Posted
import Sox.Tools
import Sox.Watch

/-!
# A message's way from the client to its readers

`McpStdioClient.send` writes a call of `channels__send`; FastMCP, a parameter here, hands the declared
parameters of the call to the tool, which dispatches them through the auth middleware to the store. The
tool declares no `reply_to`, so a message that has one arrives without it; everything else arrives as it
was sent (`envelope_survives_iff`).
-/

namespace Sox

/-- What a reader of a message sees of what was sent. -/
structure MessageEnvelope where
  channel : Channel
  sender : AgentId
  body : JsonDict
  correlationId : Option String
  replyTo : Option String

def Message.envelope (m : Message) : MessageEnvelope :=
  ⟨m.channel, m.sender, m.body, m.correlationId, m.replyTo⟩

def SendArgs.envelope (args : SendArgs) : MessageEnvelope :=
  ⟨args.channel, args.sender, args.body, args.correlationId, args.replyTo⟩

/-! ### The client -/

namespace McpClient

/-- `_call` -/
def callTool (method : String) (params : JsonDict) (s : McpClient) : McpClient :=
  s.call "tools/call" (.obj [("name", .str method), ("arguments", .obj params.entries)])

def sendParams (channel : Channel) (body : JsonDict) (replyTo correlationId : Option String) :
    JsonDict :=
  let params := pyDict [("channel", .str channel), ("body", .obj body.entries)]
  let params := match replyTo with
    | some replyTo => params.set "reply_to" (.str replyTo)
    | none => params
  match correlationId with
  | some correlationId => params.set "correlation_id" (.str correlationId)
  | none => params

def send (channel : Channel) (body : JsonDict) (replyTo correlationId : Option String) (s : McpClient) :
    McpClient :=
  s.callTool "channels__send" (sendParams channel body replyTo correlationId)

end McpClient

/-! ### The server -/

/-- FastMCP: the call of `channels__send` that a request leads to; `none` is an error before it. -/
abbrev FastMcp := Json → Option ToolCall

/-- A request for `channels__send` is bound to the declared parameters `channel`, `body` and
`correlation_id`, whatever other arguments it has. -/
def FastMcp.BindsDeclared (fastMcp : FastMcp) : Prop :=
  ∀ (id : ℤ) (channel : Channel) (body arguments : JsonDict) (correlationId : Option String),
    arguments.get? "channel" = some (.str channel) → arguments.get? "body" = some (.obj body.entries) →
      arguments.getD "correlation_id" .null = .ofOption .str correlationId →
        fastMcp (McpClient.request id "tools/call"
          (.obj [("name", .str "channels__send"), ("arguments", .obj arguments.entries)])) =
          some (.channelsSend channel body correlationId)

/-- The tool and the arguments that a request names. -/
def toolRequest : Json → Option (String × JsonDict)
  | .obj request =>
    match request.lookup "method", request.lookup "params" with
    | some (.str "tools/call"), some (.obj params) =>
      match params.lookup "name", params.lookup "arguments" with
      | some (.str name), some (.obj arguments) => some (name, .ofList arguments)
      | _, _ => none
    | _, _ => none
  | _ => none

def ToolCall.bindSend (arguments : JsonDict) : Option ToolCall :=
  match arguments.get? "channel", arguments.get? "body", arguments.getD "correlation_id" .null with
  | some (.str channel), some (.obj body), .null => some (.channelsSend channel (.ofList body) none)
  | some (.str channel), some (.obj body), .str correlationId =>
    some (.channelsSend channel (.ofList body) (some correlationId))
  | _, _, _ => none

/-- Arguments are bound by their names. -/
def FastMcp.byName : FastMcp := fun request =>
  match toolRequest request with
  | some ("channels__send", arguments) => ToolCall.bindSend arguments
  | _ => none

theorem FastMcp.byName_bindsDeclared : FastMcp.byName.BindsDeclared := by
  intro id channel body arguments correlationId hchannel hbody hcorrelation
  have hrequest : toolRequest (McpClient.request id "tools/call"
      (.obj [("name", .str "channels__send"), ("arguments", .obj arguments.entries)])) =
      some ("channels__send", arguments) := by
    show some ("channels__send", Dict.ofList arguments.entries) = _
    rw [Dict.ofList_entries]
  rw [byName, hrequest]
  simp only [ToolCall.bindSend, hchannel, hbody, hcorrelation]
  cases correlationId with
  | none => simp only [Json.ofOption, Dict.ofList_entries]
  | some correlationId => simp only [Json.ofOption, Dict.ofList_entries]

/-- The server process of one agent. -/
structure McpServer where
  tools : ToolContext
  verifier : IdentityVerifier
  /-- Signs with the key made at startup. -/
  sign : Bytes → Bytes

structure McpState (σ : Type) where
  verifier : VerifierState
  store : σ

/-- The fresh nonce of a call and its readings of the clocks. -/
structure ToolReadings where
  nonce : String
  timestamp : ℚ
  now : ℚ
  auditNow : ℚ
  store : StoreReadings

namespace McpServer

variable (S : McpServer)

def resolveCredential (rd : ToolReadings) (operation : String) (body : JsonDict) : SignedRequest :=
  let placeholder : SignedRequest :=
    { agentId := S.tools.agentId
      nonce := rd.nonce
      timestamp := .finite rd.timestamp
      method := operation
      bodyHash := computeBodyHash S.verifier.crypto body
      signature := [] }
  { placeholder with signature := S.sign (canonicalPayload placeholder) }

def context (rd : ToolReadings) (connectionId operation : String) (input : JsonDict) :
    MiddlewareContext where
  operation := operation
  input := input
  connectionId := connectionId
  connectionCredential := some (S.resolveCredential rd operation input)

/-- `pipeline.dispatch` over the default chain. -/
def dispatch {σ : Type} (B : BackingStore σ) (rd : ToolReadings) (connectionId operation : String)
    (input : JsonDict) (s : McpState σ) : Except Halt StoreDispatch.Response × McpState σ :=
  match AuthMiddleware.call S.verifier rd.now rd.auditNow (S.context rd connectionId operation input)
    s.verifier with
  | (.error halt, verifier) => (.error halt, { s with verifier })
  | (.ok ctx, verifier) =>
    match StoreDispatch.storeCall S.tools.parsers rd.store.now rd.store.sendNow ctx with
    | .error halt => (.error halt, { s with verifier })
    | .ok call =>
      let (response, store) := StoreDispatch.perform B rd.store.drainedAt call s.store
      (response, { verifier, store })

/-- A request for `channels__send`; `none` is an error before the tool is called. -/
def serveSend {σ : Type} (fastMcp : FastMcp) (B : BackingStore σ) (rd : ToolReadings) (connectionId : String)
    (request : Json) (s : McpState σ) : Option (Except Halt StoreDispatch.Response) × McpState σ :=
  match fastMcp request with
  | some call =>
    match call.dispatched S.tools with
    | .ok (operation, input) =>
      let (response, s) := S.dispatch B rd connectionId operation input s
      (some response, s)
    | .error e => (some (.error (.raised e)), s)
  | none => (none, s)

end McpServer

/-! ### The store -/

/-- A call that can take a waiting message from the agent. -/
def StoreOp.Empties (a : AgentId) : StoreOp → Prop
  | .recv b _ _ => b = a
  | .unsubscribe b _ => b = a
  | .groupLeave _ b _ => b = a
  | _ => False

namespace Mailbox

variable {σ : Type} {B : BackingStore σ} (X : Mailbox B) {s : σ} {a : AgentId} {x : StoredMessage}

/-- The agent gets the message `id` with the envelope: nothing else is ever returned under that id,
and whatever happens before, unless the agent itself takes messages or leaves, one `recv` without a
bound below what is pending returns it. -/
def Receives (s : σ) (a : AgentId) (id : Nat) (envelope : MessageEnvelope) : Prop :=
  (∀ ops, ∀ m ∈ B.receivedAll a ops s, m.messageId = id → m.envelope = envelope) ∧
  ∀ ops, (∀ op ∈ ops, ¬op.Empties a) → ∀ max : Int,
    ((X.pending (B.applyAll ops s) a none).length : Int) ≤ max →
      ∃ m ∈ (B.recv a none max (B.applyAll ops s)).1, m.messageId = id

/-- The store keeps what is sent with its envelope, and keeps it for the agents it is for. -/
structure Carries : Prop where
  cap : ∀ max : Int, max.toNat ≤ X.cap max
  send : ∀ now args s, X.Inv s → ∃ m, X.messages (B.send now args s).2 = X.messages s ++ [m] ∧
    m.toWire.envelope = args.envelope ∧ m.id = (B.send now args s).1.messageId ∧ m.deliveredTo = [] ∧
    X.patterns (B.send now args s).2 = X.patterns s
  appends : ∀ op s, X.Inv s → wires (X.messages s) <+: wires (X.messages (B.apply op s))
  stays : ∀ op s a, X.Inv s → ¬op.Empties a → (∀ p ∈ X.patterns s a, p ∈ X.patterns (B.apply op s) a) ∧
    ∀ x ∈ X.messages s, a ∉ x.deliveredTo →
      ∃ y ∈ X.messages (B.apply op s), y.toWire = x.toWire ∧ a ∉ y.deliveredTo

variable {X} {w m : Message} {p : Pattern} {ops : List StoreOp}

/-- What a `recv` returns is on the list of messages. -/
theorem mem_wires_of_recv (hX : X.Lawful) (hs : X.Inv s) {channels : Option (List Channel)} {max : Int}
    (hm : m ∈ (B.recv a channels max s).1) : m ∈ wires (X.messages s) := by
  obtain ⟨p, hp, hout, -, -⟩ := hX.recv a channels max s hs
  rw [hout] at hm
  obtain ⟨x, hx, rfl⟩ := List.mem_map.1 hm
  exact List.mem_map_of_mem ((mem_pending hX).1 (List.mem_of_mem_take (hp.mem_iff.1 hx))).1

theorem wire_eq_of_id (hX : X.Lawful) (hs : X.Inv s) (hw : w ∈ wires (X.messages s))
    (hm : m ∈ wires (X.messages s)) (hid : m.messageId = w.messageId) : m = w := by
  obtain ⟨x, hx, rfl⟩ := List.mem_map.1 hw
  obtain ⟨y, hy, rfl⟩ := List.mem_map.1 hm
  have hnd : ((X.messages s).map (·.id)).Nodup := (hX.ids s hs).imp Nat.ne_of_lt
  rw [List.inj_on_of_nodup_map hnd hy hx hid]

/-- A message that is there is the only one ever received under its id. -/
theorem eq_of_received (hX : X.Lawful) (hC : X.Carries) (hs : X.Inv s) (hw : w ∈ wires (X.messages s))
    (hm : m ∈ B.receivedAll a ops s) (hid : m.messageId = w.messageId) : m = w := by
  induction ops generalizing s with
  | nil => exact absurd hm List.not_mem_nil
  | cons op ops ih =>
    rcases List.mem_append.1 hm with hm | hm
    · cases op with
      | recv b channels max =>
        rw [BackingStore.received] at hm
        split at hm
        · exact wire_eq_of_id hX hs hw (mem_wires_of_recv hX hs hm) hid
        · exact absurd hm List.not_mem_nil
      | _ => exact absurd hm List.not_mem_nil
    · exact ih (hX.keeps op s hs) ((hC.appends op s hs).subset hw) hm

/-- A message that waits for the agent goes on waiting while the agent takes nothing and leaves
nothing. -/
theorem waits_applyAll (hX : X.Lawful) (hC : X.Carries) (hs : X.Inv s)
    (hops : ∀ op ∈ ops, ¬op.Empties a)
    (hx : x ∈ X.messages s) (hxa : a ∉ x.deliveredTo) (hp : p ∈ X.patterns s a) :
    p ∈ X.patterns (B.applyAll ops s) a ∧
      ∃ y ∈ X.messages (B.applyAll ops s), y.toWire = x.toWire ∧ a ∉ y.deliveredTo := by
  induction ops generalizing s x with
  | nil => exact ⟨hp, x, hx, rfl, hxa⟩
  | cons op ops ih =>
    obtain ⟨hpatterns, hstays⟩ := hC.stays op s a hs (hops op List.mem_cons_self)
    obtain ⟨y, hy, hyx, hya⟩ := hstays x hx hxa
    obtain ⟨hp', z, hz, hzy, hza⟩ :=
      ih (hX.keeps op s hs) (fun o ho => hops o (List.mem_cons_of_mem _ ho)) hy hya
      (hpatterns p hp)
    exact ⟨hp', z, hz, hzy.trans hyx, hza⟩

/-- A `recv` without a bound below what is pending returns all of it. -/
theorem recv_all (hX : X.Lawful) (hC : X.Carries) (hs : X.Inv s) {max : Int}
    (hmax : ((X.pending s a none).length : Int) ≤ max) (hx : x ∈ X.pending s a none) :
    x.toWire ∈ (B.recv a none max s).1 := by
  obtain ⟨p, hp, hout, -, -⟩ := hX.recv a none max s hs
  have hcap : (X.pending s a none).length ≤ X.cap max := (by omega : _ ≤ max.toNat).trans (hC.cap max)
  rw [List.take_of_length_le hcap] at hp
  rw [hout]
  exact List.mem_map_of_mem (hp.mem_iff.2 hx)

/-- A subscriber of the channel gets the message that was sent, and nothing else in its place. -/
theorem receives_iff (hX : X.Lawful) (hC : X.Carries) (hs : X.Inv s) (now : ℚ) (args : SendArgs)
    (hmatch : ∃ p ∈ X.patterns s a, Glob.fnmatchcase args.channel p = true) (e : MessageEnvelope) :
    X.Receives (B.send now args s).2 a (B.send now args s).1.messageId e ↔ args.envelope = e := by
  obtain ⟨m, hmsgs, henvelope, hid, hnew, hpatterns⟩ := hC.send now args s hs
  obtain ⟨p, hp, hglob⟩ := hmatch
  have hs' : X.Inv (B.send now args s).2 := hX.keeps (.send now args) s hs
  have hmem : m ∈ X.messages (B.send now args s).2 := by rw [hmsgs]; simp
  have hw : m.toWire ∈ wires (X.messages (B.send now args s).2) := List.mem_map_of_mem hmem
  have hchannel : m.channel = args.channel := congrArg MessageEnvelope.channel henvelope
  have hreturned : ∀ ops, (∀ op ∈ ops, ¬op.Empties a) → ∀ max : Int,
      ((X.pending (B.applyAll ops (B.send now args s).2) a none).length : Int) ≤ max →
      m.toWire ∈ (B.recv a none max (B.applyAll ops (B.send now args s).2)).1 := by
    intro ops hops max hmax
    have hinv := BackingStore.applyAll_invariant hX.keeps ops hs'
    have hnotyet : a ∉ m.deliveredTo := by rw [hnew]; exact List.not_mem_nil
    obtain ⟨hp', y, hy, hyw, hya⟩ := waits_applyAll hX hC hs' hops hmem hnotyet (hpatterns ▸ hp)
    have hwants :
        wants none (X.patterns (B.applyAll ops (B.send now args s).2) a) y.channel = true := by
      have hychannel : y.channel = m.channel := congrArg Message.channel hyw
      rw [hychannel, hchannel]
      exact List.any_eq_true.2 ⟨p, hp', hglob⟩
    rw [← hyw]
    exact recv_all hX hC hinv hmax ((mem_pending hX).2 ⟨hy, hya, hwants⟩)
  constructor
  · rintro ⟨honly, -⟩
    have hm := hreturned [] (fun _ h => absurd h List.not_mem_nil) _ (le_refl _)
    have hmw : m.toWire ∈ B.receivedAll a [.recv a none (X.pending (B.send now args s).2 a none).length]
        (B.send now args s).2 := by
      rw [BackingStore.receivedAll, BackingStore.received, if_pos rfl]
      exact List.mem_append_left _ hm
    exact henvelope.symm.trans (honly _ _ hmw hid)
  · rintro rfl
    refine ⟨fun ops w hw' hwid => ?_, fun ops hops max hmax => ?_⟩
    · rw [eq_of_received hX hC hs' hw hw' (hwid.trans hid.symm), henvelope]
    · exact ⟨m.toWire, hreturned ops hops max hmax, hid⟩

end Mailbox

section
variable {l l' : List StoredMessage} {a b : AgentId} {x : StoredMessage}

theorem Appends.isPrefix {posted : Option (Channel × ℚ)} (h : Appends posted l l') :
    wires l <+: wires l' := by
  obtain ⟨new, hnew, -⟩ := h
  exact ⟨new.toList, hnew.symm⟩

/-- Marking deliveries to another agent. -/
theorem stays_markWhere (sel : StoredMessage → Bool) (hb : b ≠ a) (hx : x ∈ l)
    (hxa : a ∉ x.deliveredTo) :
    ∃ y ∈ markWhere b sel l, y.toWire = x.toWire ∧ a ∉ y.deliveredTo := by
  refine ⟨_, List.mem_map_of_mem hx, ?_, ?_⟩
  · split
    · exact StoredMessage.deliver_toWire
    · rfl
  · split
    · rw [StoredMessage.mem_deliver]
      exact not_or.2 ⟨hxa, Ne.symm hb⟩
    · exact hxa

theorem stays_append {m : StoredMessage} (hx : x ∈ l) (hxa : a ∉ x.deliveredTo) :
    ∃ y ∈ l ++ [m], y.toWire = x.toWire ∧ a ∉ y.deliveredTo :=
  ⟨x, List.mem_append_left _ hx, rfl, hxa⟩

end

namespace MemoryStore

theorem carries : mailbox.Carries where
  cap max := le_refl _
  send now args s _ := ⟨s.nextMessage now args, rfl, rfl, rfl, rfl, rfl⟩
  appends op s _ := (appends_apply op s).isPrefix
  stays op s a _ hop := by
    have hsame : ∀ x ∈ s.messages, a ∉ x.deliveredTo →
        ∃ y ∈ s.messages, y.toWire = x.toWire ∧ a ∉ y.deliveredTo :=
      fun x hx hxa => ⟨x, hx, rfl, hxa⟩
    cases op with
    | send now args => exact ⟨fun _ h => h, fun _ hx hxa => stays_append hx hxa⟩
    | heartbeat now sendNow b status ttl => exact ⟨fun _ h => h, fun _ hx hxa => stays_append hx hxa⟩
    | recv b channels max =>
      refine ⟨fun _ h => h, fun x hx hxa => ?_⟩
      show ∃ y ∈ (s.recv b channels max).2.messages, _
      rw [recv_eq]
      exact stays_markWhere _ hop hx hxa
    | unsubscribe b ps =>
      constructor
      · intro p hp
        show p ∈ (s.unsubscribe b ps).2.patternsFor a
        rw [patternsFor_unsubscribe_other (Ne.symm hop)]
        exact hp
      · intro x hx hxa
        show ∃ y ∈ (s.unsubscribe b ps).2.messages, _
        rw [unsubscribe_eq]
        exact stays_markWhere _ hop hx hxa
    | groupInvite now b g c =>
      show (∀ p ∈ s.patternsFor a, p ∈ (s.groupInvite now b g c).2.patternsFor a) ∧
        ∀ x ∈ s.messages, a ∉ x.deliveredTo →
          ∃ y ∈ (s.groupInvite now b g c).2.messages, y.toWire = x.toWire ∧ a ∉ y.deliveredTo
      rw [groupInvite]
      split <;> exact ⟨fun _ h => h, hsame⟩
    | groupLeave now b g =>
      refine ⟨fun p hp => ?_, hsame⟩
      have hother : (s.groupLeave now b g).2.patternsFor a = s.patternsFor a :=
        Dict.getD_set_of_ne (Ne.symm hop)
      show p ∈ (s.groupLeave now b g).2.patternsFor a
      rw [hother]
      exact hp
    | ack => exact ⟨fun _ h => h, hsame⟩
    | subscribe b p => exact ⟨fun _ h => mem_patternsFor_addPattern.2 (.inl h), hsame⟩
    | groupCreate now b g => exact ⟨fun _ h => mem_patternsFor_addPattern.2 (.inl h), hsame⟩
    | groupJoin now b g => exact ⟨fun _ h => mem_patternsFor_addPattern.2 (.inl h), hsame⟩

end MemoryStore

namespace SqliteStore

theorem carries : mailbox.Carries where
  cap max := Nat.le_max_left _ _
  send now args s _ := ⟨s.db.newRow now args (s.db.nextSeq args.channel), rfl, rfl, rfl, rfl, rfl⟩
  appends op s h := (appends_apply op h).isPrefix
  stays op s a h hop := by
    have hsame : ∀ x ∈ s.db.messages, a ∉ x.deliveredTo →
        ∃ y ∈ s.db.messages, y.toWire = x.toWire ∧ a ∉ y.deliveredTo :=
      fun x hx hxa => ⟨x, hx, rfl, hxa⟩
    have hinsert (b : AgentId) (q : Pattern) :
      (∀ p ∈ s.db.patternsFor a, p ∈ (s.db.insertSubscription b q).patternsFor a) ∧
        ∀ x ∈ s.db.messages, a ∉ x.deliveredTo →
          ∃ y ∈ (s.db.insertSubscription b q).messages, y.toWire = x.toWire ∧ a ∉ y.deliveredTo := by
      refine ⟨fun _ hp => SqliteDb.mem_patternsFor_insertSubscription.2 (.inl hp), ?_⟩
      rw [SqliteDb.insertSubscription_messages]
      exact hsame
    cases op with
    | send now args => exact ⟨fun _ h => h, fun _ hx hxa => stays_append hx hxa⟩
    | heartbeat now sendNow b status ttl => exact ⟨fun _ h => h, fun _ hx hxa => stays_append hx hxa⟩
    | recv b channels max =>
      show (∀ p ∈ s.db.patternsFor a, p ∈ (s.db.recv b channels max).2.patternsFor a) ∧
        ∀ x ∈ s.db.messages, a ∉ x.deliveredTo →
          ∃ y ∈ (s.db.recv b channels max).2.messages, y.toWire = x.toWire ∧ a ∉ y.deliveredTo
      rw [SqliteDb.recv_eq h.ids_nodup]
      exact ⟨fun _ h => h, fun x hx hxa => stays_markWhere _ hop hx hxa⟩
    | unsubscribe b ps =>
      constructor
      · intro p hp
        show p ∈ (s.db.unsubscribe b ps).2.patternsFor a
        rw [SqliteDb.patternsFor_unsubscribe_other h.ids_nodup (Ne.symm hop)]
        exact hp
      · intro x hx hxa
        show ∃ y ∈ (s.db.unsubscribe b ps).2.messages, _
        rw [SqliteDb.unsubscribe_eq h.ids_nodup]
        exact stays_markWhere _ hop hx hxa
    | groupInvite now b g c =>
      show (∀ p ∈ s.db.patternsFor a, p ∈ (s.groupInvite now b g c).2.db.patternsFor a) ∧
        ∀ x ∈ s.db.messages, a ∉ x.deliveredTo →
          ∃ y ∈ (s.groupInvite now b g c).2.db.messages, y.toWire = x.toWire ∧ a ∉ y.deliveredTo
      rw [groupInvite]
      split <;> exact ⟨fun _ h => h, hsame⟩
    | groupLeave now b g =>
      refine ⟨fun p hp => ?_, hsame⟩
      exact SqliteDb.mem_patternsFor_deleteSubscription.2 ⟨hp, fun h => hop h.1.symm⟩
    | ack => exact ⟨fun _ h => h, hsame⟩
    | subscribe b p => exact hinsert b p
    | groupCreate now b g => exact hinsert b _
    | groupJoin now b g => exact hinsert b g

end SqliteStore

/-! ### The whole way -/

/-- The tool is called without the parent of the message. -/
theorem FastMcp.BindsDeclared.sendParams {fastMcp : FastMcp} (h : fastMcp.BindsDeclared) (id : ℤ) (channel : Channel)
    (body : JsonDict) (replyTo correlationId : Option String) :
    fastMcp (McpClient.request id "tools/call" (.obj [("name", .str "channels__send"),
      ("arguments", .obj (McpClient.sendParams channel body replyTo correlationId).entries)])) =
      some (.channelsSend channel body correlationId) := by
  refine h id channel body _ correlationId ?_ ?_ ?_ <;> cases replyTo <;> cases correlationId <;>
    simp [McpClient.sendParams, pyDict, Dict.getD, Dict.get?_set, Json.ofOption]

namespace McpServer

variable {S : McpServer} {σ : Type} {B : BackingStore σ} {rd : ToolReadings} {connectionId : String}
  {s t : McpState σ} {channel c : Channel} {body : JsonDict} {correlationId : Option String}
    {receipt : SendReceipt}

/-- A `send` that the auth middleware passes on is made under the agent of the server. -/
theorem storeCall_authenticated {input : JsonDict} {ctx : MiddlewareContext}
    (h : (AuthMiddleware.call S.verifier rd.now rd.auditNow (S.context rd connectionId "send" input)
      s.verifier).1 =
      .ok ctx) :
    StoreDispatch.storeCall S.tools.parsers rd.store.now rd.store.sendNow ctx =
      .ok (.change (.send rd.store.now {
      channel := StoreDispatch.strField S.tools.parsers input "channel" ""
      sender := S.tools.agentId
      body := StoreDispatch.bodyField input
      correlationId := StoreDispatch.optStrField S.tools.parsers input "correlation_id"
      replyTo := StoreDispatch.optStrField S.tools.parsers input "reply_to" })) := by
  have hop : (S.context rd connectionId "send" input).operation ∈
      AuthMiddleware.identityEnforcedOperations := by
    show "send" ∈ AuthMiddleware.identityEnforcedOperations
    simp [AuthMiddleware.identityEnforcedOperations]
  have hres : (S.context rd connectionId "send" input).resolveCredential =
      (some (S.resolveCredential rd "send" input), S.context rd connectionId "send" input) := rfl
  rw [AuthMiddleware.call_enforced hop hres] at h
  split at h
  · cases h
  · rename_i identity verifier hverify
    obtain ⟨record, hA, rfl⟩ := IdentityVerifier.verify_ok_iff.1 (congrArg Prod.fst hverify)
    dsimp only at h
    obtain ⟨-, -, rfl⟩ := MiddlewareContext.setAgentId_ok_iff.1 h
    have hagent : record.agentId = S.tools.agentId := s.verifier.registry.keyed _ _ hA.registered
    rw [StoreDispatch.storeCall_send rfl]
    simp [context, AuthMiddleware.boundInput, StoreDispatch.strField, StoreDispatch.bodyField,
      StoreDispatch.optStrField, StoreDispatch.str, Dict.getD, Dict.get?_set, hagent]

/-- The input of the dispatch. -/
def sendInput (channel : Channel) (body : JsonDict) (correlationId : Option String) : JsonDict :=
  pyDict [("channel", .str channel), ("body", .obj body.entries),
    ("correlation_id", .ofOption .str correlationId)]

/-- What the auth middleware says to a request of the client. -/
def authenticate (S : McpServer) (rd : ToolReadings) (connectionId : String) (channel : Channel)
    (body : JsonDict) (correlationId : Option String) (verifier : VerifierState) :
    Except Halt MiddlewareContext × VerifierState :=
  AuthMiddleware.call S.verifier rd.now rd.auditNow
    (S.context rd connectionId "send" (sendInput channel body correlationId)) verifier

variable {client : McpClient} {replyTo : Option String} {verifier : VerifierState}
  {ctx : MiddlewareContext} {halt : Halt} {fastMcp : FastMcp} (hbinds : fastMcp.BindsDeclared)

include hbinds

theorem serveSend_eq : S.serveSend fastMcp B rd connectionId
    ((client.send channel body replyTo correlationId).written.getLastD .null) s =
    (some (S.dispatch B rd connectionId "send" (sendInput channel body correlationId) s).1,
      (S.dispatch B rd connectionId "send" (sendInput channel body correlationId) s).2) := by
  have hrequest : (client.send channel body replyTo correlationId).written.getLastD .null =
      McpClient.request client.nextId "tools/call" (.obj [("name", .str "channels__send"),
        ("arguments", .obj (McpClient.sendParams channel body replyTo correlationId).entries)]) := by
    simp [McpClient.send, McpClient.callTool, McpClient.call]
  rw [hrequest, serveSend, hbinds.sendParams]
  simp only [ToolCall.dispatched, sendInput]

theorem serveSend_refused
    (h : S.authenticate rd connectionId channel body correlationId s.verifier = (.error halt, verifier)) :
    S.serveSend fastMcp B rd connectionId
      ((client.send channel body replyTo correlationId).written.getLastD .null) s =
      (some (.error halt), { s with verifier }) := by
  rw [authenticate] at h
  rw [serveSend_eq hbinds, dispatch, h]

/-- A request that is let through makes the store send everything but the parent. -/
theorem serveSend_passed (client : McpClient) (replyTo : Option String)
    (h : S.authenticate rd connectionId channel body correlationId s.verifier = (.ok ctx, verifier)) :
    S.serveSend fastMcp B rd connectionId
      ((client.send channel body replyTo correlationId).written.getLastD .null) s =
      (some (.ok (.sent channel
        (B.send rd.store.now ⟨channel, S.tools.agentId, body, correlationId, none⟩ s.store).1)),
        ⟨verifier,
          (B.send rd.store.now ⟨channel, S.tools.agentId, body, correlationId, none⟩ s.store).2⟩) := by
  rw [authenticate] at h
  have hargs : ({
      channel := StoreDispatch.strField S.tools.parsers (sendInput channel body correlationId)
        "channel" ""
      sender := S.tools.agentId
      body := StoreDispatch.bodyField (sendInput channel body correlationId)
      correlationId :=
        StoreDispatch.optStrField S.tools.parsers (sendInput channel body correlationId)
          "correlation_id"
      replyTo := StoreDispatch.optStrField S.tools.parsers (sendInput channel body correlationId)
        "reply_to" } : SendArgs) =
      ⟨channel, S.tools.agentId, body, correlationId, none⟩ := by
    have hbody := Dict.ofList_entries body
    rw [Dict.ofList] at hbody
    cases correlationId <;>
      simp [sendInput, pyDict, StoreDispatch.strField, StoreDispatch.bodyField,
        StoreDispatch.optStrField,
        StoreDispatch.str, Json.ofOption, Dict.getD, Dict.get?_set, hbody]
  rw [serveSend_eq hbinds, dispatch, h]
  dsimp only
  rw [storeCall_authenticated (congrArg Prod.fst h), hargs]
  rfl

/-- What the store has done when the answer is that the message is sent. -/
theorem serveSend_sent
    (h : S.serveSend fastMcp B rd connectionId
      ((client.send channel body replyTo correlationId).written.getLastD .null) s =
      (some (.ok (.sent c receipt)), t)) :
    B.send rd.store.now ⟨channel, S.tools.agentId, body, correlationId, none⟩ s.store =
      (receipt, t.store) := by
  rcases hadmit : S.authenticate rd connectionId channel body correlationId s.verifier with
    ⟨halt | ctx, verifier⟩
  · rw [serveSend_refused hbinds hadmit] at h
    cases h
  · rw [serveSend_passed hbinds client replyTo hadmit] at h
    cases h
    rfl

theorem survives_iff {X : Mailbox B} {a : AgentId} (hX : X.Lawful) (hC : X.Carries) (hs : X.Inv s.store)
    (hsent : S.serveSend fastMcp B rd connectionId
      ((client.send channel body replyTo correlationId).written.getLastD .null) s =
      (some (.ok (.sent c receipt)), t))
    (hmatch : ∃ p ∈ X.patterns s.store a, Glob.fnmatchcase channel p = true) :
    X.Receives t.store a receipt.messageId ⟨channel, S.tools.agentId, body, correlationId, replyTo⟩ ↔
      replyTo = none := by
  have hiff := X.receives_iff hX hC hs rd.store.now
    ⟨channel, S.tools.agentId, body, correlationId, none⟩ hmatch
    ⟨channel, S.tools.agentId, body, correlationId, replyTo⟩
  rw [serveSend_sent hbinds hsent] at hiff
  rw [hiff]
  constructor
  · intro h
    exact (congrArg MessageEnvelope.replyTo h).symm
  · rintro rfl
    rfl

end McpServer

/-- A message that the server has accepted from the client reaches every subscriber of its channel as
it was sent, from the agent of the server, exactly when it is no reply. -/
theorem envelope_survives_iff (fastMcp : FastMcp) (hbinds : fastMcp.BindsDeclared) (S : McpServer)
    (rd : ToolReadings) (connectionId : String) (client : McpClient) (channel : Channel) (body : JsonDict)
    (replyTo correlationId : Option String) (a : AgentId) (verifier : VerifierState)
    (ops : List StoreOp) (c : Channel) (receipt : SendReceipt) :
    (∀ t, S.serveSend fastMcp memoryStore rd connectionId
        ((client.send channel body replyTo correlationId).written.getLastD .null)
        ⟨verifier, memoryStore.applyAll ops MemoryStore.init⟩ = (some (.ok (.sent c receipt)), t) →
      (∃ p ∈ (memoryStore.applyAll ops MemoryStore.init).patternsFor a,
        Glob.fnmatchcase channel p = true) →
      (MemoryStore.mailbox.Receives t.store a receipt.messageId
        ⟨channel, S.tools.agentId, body, correlationId, replyTo⟩ ↔ replyTo = none)) ∧
    (∀ t, S.serveSend fastMcp sqliteStore rd connectionId
        ((client.send channel body replyTo correlationId).written.getLastD .null)
        ⟨verifier, sqliteStore.applyAll ops SqliteStore.init⟩ = (some (.ok (.sent c receipt)), t) →
      (∃ p ∈ (sqliteStore.applyAll ops SqliteStore.init).db.patternsFor a,
        Glob.fnmatchcase channel p = true) →
      (SqliteStore.mailbox.Receives t.store a receipt.messageId
        ⟨channel, S.tools.agentId, body, correlationId, replyTo⟩ ↔ replyTo = none)) := by
  constructor
  · intro t hsent hmatch
    have hs : MemoryStore.mailbox.Inv (memoryStore.applyAll ops MemoryStore.init) :=
      MemoryStore.Inv.reachable ops
    exact McpServer.survives_iff hbinds (s := ⟨verifier, _⟩) MemoryStore.mailbox_lawful MemoryStore.carries hs
      hsent hmatch
  · intro t hsent hmatch
    have hs : SqliteStore.mailbox.Inv (sqliteStore.applyAll ops SqliteStore.init) :=
      SqliteStore.inv_reachable ops
    exact McpServer.survives_iff hbinds (s := ⟨verifier, _⟩) SqliteStore.mailbox_lawful SqliteStore.carries hs
      hsent hmatch

/-- A server of alice's whose signatures are the payloads themselves. -/
def aliceServer : McpServer where
  tools := { agentId := "alice", parsers := ⟨fun _ => "", fun _ => none, fun _ => none⟩ }
  verifier :=
    { crypto :=
        { verifySignature := fun key payload sig =>
            decide (key = AuthMiddleware.aliceKey ∧ sig = payload)
          sha256Hex := AuthMiddleware.aliceVerifier.crypto.sha256Hex
          floatRepr := fun _ => "" } }
  sign := id

def firstReadings : ToolReadings := ⟨"n1", 0, 0, 0, ⟨1, 1, 1⟩⟩

def bobSubscribed : List StoreOp := [.subscribe "bob" "team"]

theorem aliceServer_admits : ∃ ctx verifier,
    aliceServer.authenticate firstReadings "c" "team" .empty none AuthMiddleware.aliceRegistered =
      (.ok ctx, verifier) := by
  have hauthorised : Authorised aliceServer.verifier 0 AuthMiddleware.aliceRegistered
      (aliceServer.resolveCredential firstReadings "send" (McpServer.sendInput "team" .empty none))
      ⟨"alice", AuthMiddleware.aliceKey, 0, none⟩ := by
    refine ⟨by decide, by decide, ?_, rfl, rfl, ?_, rfl⟩
    · simp only [McpServer.resolveCredential, firstReadings]
      decide +kernel
    · exact decide_eq_true ⟨rfl, rfl⟩
  have hop : (aliceServer.context firstReadings "c" "send"
        (McpServer.sendInput "team" .empty none)).operation ∈
      AuthMiddleware.identityEnforcedOperations := by decide
  obtain ⟨ctx, hctx, -⟩ :=
    (AuthMiddleware.call_ok_iff hop rfl "alice").2 ⟨_, _, rfl, hauthorised, rfl, by decide⟩
  exact ⟨ctx, _, Prod.ext hctx rfl⟩

/-- A message of alice's reaches bob, from either store. -/
theorem envelope_survives_iff_bob :
    (∃ receipt t,
      aliceServer.serveSend FastMcp.byName memoryStore firstReadings "c"
        ((McpClient.send "team" .empty none none {}).written.getLastD .null)
        ⟨AuthMiddleware.aliceRegistered, memoryStore.applyAll bobSubscribed MemoryStore.init⟩ =
          (some (.ok (.sent "team" receipt)), t) ∧
      MemoryStore.mailbox.Receives t.store "bob" receipt.messageId ⟨"team", "alice", .empty, none, none⟩) ∧
    ∃ receipt t,
      aliceServer.serveSend FastMcp.byName sqliteStore firstReadings "c"
        ((McpClient.send "team" .empty none none {}).written.getLastD .null)
        ⟨AuthMiddleware.aliceRegistered, sqliteStore.applyAll bobSubscribed SqliteStore.init⟩ =
          (some (.ok (.sent "team" receipt)), t) ∧
      SqliteStore.mailbox.Receives t.store "bob" receipt.messageId ⟨"team", "alice", .empty, none, none⟩ := by
  obtain ⟨ctx, verifier, hadmit⟩ := aliceServer_admits
  have hbinds := FastMcp.byName_bindsDeclared
  constructor
  · have hmatch : ∃ p ∈ (memoryStore.applyAll bobSubscribed MemoryStore.init).patternsFor "bob",
        Glob.fnmatchcase "team" p = true := by decide
    have hsent := McpServer.serveSend_passed hbinds (B := memoryStore)
      (s := ⟨AuthMiddleware.aliceRegistered, memoryStore.applyAll bobSubscribed MemoryStore.init⟩)
      {} none hadmit
    exact ⟨_, _, hsent,
      ((envelope_survives_iff _ hbinds aliceServer firstReadings "c" {} "team" .empty none none "bob"
      AuthMiddleware.aliceRegistered bobSubscribed "team" _).1 _ hsent hmatch).2 rfl⟩
  · have hmatch : ∃ p ∈ (sqliteStore.applyAll bobSubscribed SqliteStore.init).db.patternsFor "bob",
        Glob.fnmatchcase "team" p = true := by decide
    have hsent := McpServer.serveSend_passed hbinds (B := sqliteStore)
      (s := ⟨AuthMiddleware.aliceRegistered, sqliteStore.applyAll bobSubscribed SqliteStore.init⟩)
      {} none hadmit
    exact ⟨_, _, hsent,
      ((envelope_survives_iff _ hbinds aliceServer firstReadings "c" {} "team" .empty none none "bob"
      AuthMiddleware.aliceRegistered bobSubscribed "team" _).2 _ hsent hmatch).2 rfl⟩

/-- bob gets alice's reply to message 1 without its parent. -/
theorem reply_to_lost : ¬∀ (fastMcp : FastMcp) (_ : fastMcp.BindsDeclared) (S : McpServer) (rd : ToolReadings)
    (connectionId : String) (client : McpClient) (channel : Channel) (body : JsonDict)
    (replyTo correlationId : Option String) (a : AgentId) (verifier : VerifierState) (ops : List StoreOp)
    (c : Channel) (receipt : SendReceipt) (t : McpState SqliteStore),
    S.serveSend fastMcp sqliteStore rd connectionId
      ((client.send channel body replyTo correlationId).written.getLastD .null)
      ⟨verifier, sqliteStore.applyAll ops SqliteStore.init⟩ = (some (.ok (.sent c receipt)), t) →
    (∃ p ∈ (sqliteStore.applyAll ops SqliteStore.init).db.patternsFor a,
      Glob.fnmatchcase channel p = true) →
    SqliteStore.mailbox.Receives t.store a receipt.messageId
      ⟨channel, S.tools.agentId, body, correlationId, replyTo⟩ := by
  intro h
  obtain ⟨ctx, verifier, hadmit⟩ := aliceServer_admits
  have hbinds := FastMcp.byName_bindsDeclared
  have hmatch : ∃ p ∈ (sqliteStore.applyAll bobSubscribed SqliteStore.init).db.patternsFor "bob",
      Glob.fnmatchcase "team" p = true := by decide
  have hs : SqliteStore.mailbox.Inv (sqliteStore.applyAll bobSubscribed SqliteStore.init) :=
    SqliteStore.inv_reachable bobSubscribed
  have hsent := McpServer.serveSend_passed hbinds (B := sqliteStore)
    (s := ⟨AuthMiddleware.aliceRegistered, sqliteStore.applyAll bobSubscribed SqliteStore.init⟩)
    {} (some "1") hadmit
  have hreply :=
    (McpServer.survives_iff hbinds (a := "bob") SqliteStore.mailbox_lawful SqliteStore.carries hs hsent
      hmatch).1
    (h _ hbinds _ _ _ _ _ _ _ _ _ _ _ _ _ _ hsent hmatch)
  cases hreply

end Sox
