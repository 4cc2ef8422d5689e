import Sox.Auth
import Sox.BackingStore

/-!
# Dispatch to the backing store

`StoreDispatchMiddleware`, the end of the chain: `storeCall` reads the call of the backing store off
an operation and its input, and `perform` makes it and answers. Python's `int` and `float` of a
string are parameters, in `Parsers`.
-/

namespace Sox

/-- `none` stands for a `ValueError`. -/
structure Parsers where
  floatRepr : ℚ → String
  intOfStr : String → Option Int
  floatOfStr : String → Option ℚ

inductive StoreCall where
  | change (op : StoreOp)
  | listChannels (now : ℚ) (since : Option ℚ)
  | listAgents (now : ℚ) (statusFilter : Option (List String)) (ns : Option String)
  | replay (channel : Channel) (since : Int) (untilSeq : Option Int) (limit : Int)
  | groupListMembers (agentId : AgentId) (groupId : String)

namespace StoreCall

/-- The agent on whose behalf the store is asked to act. -/
def agent : StoreCall → Option AgentId
  | change (.send _ args) => some args.sender
  | change (.recv a _ _) => some a
  | change (.subscribe a _) => some a
  | change (.unsubscribe a _) => some a
  | change (.ack _ a _ _ _) => some a
  | change (.heartbeat _ _ a _ _) => some a
  | change (.groupCreate _ a _) => some a
  | change (.groupInvite _ a _ _) => some a
  | change (.groupJoin _ a _) => some a
  | change (.groupLeave _ a _) => some a
  | listChannels .. => none
  | listAgents .. => none
  | replay .. => none
  | groupListMembers a _ => some a

end StoreCall

namespace StoreDispatch

variable (P : Parsers)

def str (j : Json) : String := Json.pyStr P.floatRepr j

/-- `str(inp.get(key, default))` -/
def strField (inp : JsonDict) (key : String) (default : String) : String :=
  str P (inp.getD key (.str default))

/-- `str(x) if x is not None else None`, for `x = inp.get(key)`. -/
def optStrField (inp : JsonDict) (key : String) : Option String :=
  match inp.getD key .null with
  | .null => none
  | j => some (str P j)

/-- `[str(x) for x in xs]` if `xs = inp.get(key)` is a list. -/
def strListField (inp : JsonDict) (key : String) : Option (List String) :=
  match inp.getD key .null with
  | .arr xs => some (xs.map (str P))
  | _ => none

/-- `inp.get("body", {})` if it is a dict, else `{}`. -/
def bodyField (inp : JsonDict) : JsonDict :=
  match inp.getD "body" (.obj []) with
  | .obj fields => fields.foldl (fun d f => d.set f.1 f.2) .empty
  | _ => .empty

/-- `int(j)` of a number or a boolean. -/
def intOfNumber : Json → Option Int
  | .bool b => some (if b then 1 else 0)
  | .int n => some n
  | .float q => some (Json.truncate q)
  | _ => none

/-- `int(j)` of a number or a string, `default` of anything else. -/
def intField (inp : JsonDict) (key : String) (default : Int) : Except Halt Int :=
  match inp.getD key (.int default) with
  | .str s =>
    match P.intOfStr s with
    | some n => .ok n
    | none => .error (.raised ("invalid literal for int() with base 10: " ++ Json.reprStr s))
  | j => .ok ((intOfNumber j).getD default)

/-- `float(since)` of a number or a string, `None` of anything else. -/
def sinceField (inp : JsonDict) : Except Halt (Option ℚ) :=
  match inp.getD "since" .null with
  | .bool b => .ok (some (if b then 1 else 0))
  | .int n => .ok (some n)
  | .float q => .ok (some q)
  | .str s =>
    match P.floatOfStr s with
    | some q => .ok (some q)
    | none => .error (.raised ("could not convert string to float: " ++ Json.reprStr s))
  | _ => .ok none

/-- `_resolve_agent_id`: the input, then the verified agent, then the hint of the transport. -/
def resolveAgentId (inp : JsonDict) (ctx : MiddlewareContext) : String :=
  match inp.get? "agent_id" with
  | some j => str P j
  | none =>
    match ctx.agentId with
    | some a => if a.isEmpty then hint else a
    | none => hint
where
  hint : String :=
    let j := ctx.metadata.getD "_agent_id" .null
    if j.truthy then str P j else ""

/-- `str(inp.get(key) or ctx.agent_id or ctx.metadata.get("_agent_id") or "")` -/
def resolveFrom (key : String) (inp : JsonDict) (ctx : MiddlewareContext) : String :=
  let candidates := [inp.getD key .null, (ctx.agentId.map Json.str).getD .null,
    ctx.metadata.getD "_agent_id" .null]
  str P ((candidates.find? (·.truthy)).getD (.str ""))

/-- The call that the operation makes, at the readings `now` and, for the presence message,
`sendNow`. -/
def storeCall (now sendNow : ℚ) (ctx : MiddlewareContext) : Except Halt StoreCall :=
  let inp := ctx.input
  let agentId := resolveAgentId P inp ctx
  match ctx.operation with
  | "send" =>
    .ok (.change (.send now {
      channel := strField P inp "channel" ""
      sender := strField P inp "sender" (ctx.agentId.getD "")
      body := bodyField inp
      correlationId := optStrField P inp "correlation_id"
      replyTo := optStrField P inp "reply_to" }))
  | "recv" => do
    let maxMessages ← intField P inp "max_messages" 50
    .ok (.change (.recv agentId (strListField P inp "channels") maxMessages))
  | "subscribe" => .ok (.change (.subscribe agentId (strField P inp "pattern" "")))
  | "unsubscribe" =>
    let patterns := match inp.getD "channels" (inp.getD "patterns" (.arr [])) with
      | .arr xs => xs.map (str P)
      | _ => []
    .ok (.change (.unsubscribe agentId patterns))
  | "list_channels" => do
    let since ← sinceField P inp
    .ok (.listChannels now since)
  | "list_agents" => .ok (.listAgents now (strListField P inp "status_filter")
      (optStrField P inp "namespace"))
  | "channels_ack" =>
    .ok (.change (.ack now agentId (strField P inp "message_id" "") (strField P inp "status" "ack")
      (optStrField P inp "reason")))
  | "channels_heartbeat" =>
    .ok (.change (.heartbeat now sendNow agentId (strField P inp "status" "active")
      (intOfNumber (inp.getD "ttl" .null))))
  | "channels_collect" => do
    let maxMessages ← intField P inp "max_messages" 50
    .ok (.change (.recv agentId (strListField P inp "channels") maxMessages))
  | "replay" =>
    .ok (.replay (strField P inp "channel" "") ((intOfNumber (inp.getD "since" (.int 0))).getD 0)
      (intOfNumber (inp.getD "until" .null)) ((intOfNumber (inp.getD "limit" (.int 100))).getD 100))
  | "group_create" => .ok (.change (.groupCreate now (resolveFrom P "creator_id" inp ctx)
      (optStrField P inp "group_id")))
  | "group_invite" =>
    .ok (.change (.groupInvite now (resolveFrom P "inviter_id" inp ctx) (strField P inp "group_id" "")
      (str P (inp.getD "agent_id" (inp.getD "invitee_id" (.str ""))))))
  | "group_join" => .ok (.change (.groupJoin now agentId (strField P inp "group_id" "")))
  | "group_leave" => .ok (.change (.groupLeave now agentId (strField P inp "group_id" "")))
  | "group_list_members" => .ok (.groupListMembers agentId (strField P inp "group_id" ""))
  | op => .error (.shortCircuit ⟨"internal_error", "Unsupported operation: " ++ Json.reprStr op⟩)

section
variable {P} {now sendNow : ℚ} {ctx : MiddlewareContext}

theorem storeCall_send (h : ctx.operation = "send") :
    storeCall P now sendNow ctx = .ok (.change (.send now {
    channel := strField P ctx.input "channel" ""
    sender := strField P ctx.input "sender" (ctx.agentId.getD "")
    body := bodyField ctx.input
    correlationId := optStrField P ctx.input "correlation_id"
    replyTo := optStrField P ctx.input "reply_to" })) := by
  simp only [storeCall, h]

theorem storeCall_recv (h : ctx.operation = "recv") : storeCall P now sendNow ctx =
    (intField P ctx.input "max_messages" 50).map fun maxMessages =>
      .change (.recv (resolveAgentId P ctx.input ctx) (strListField P ctx.input "channels")
        maxMessages) := by
  simp only [storeCall, h]
  cases intField P ctx.input "max_messages" 50 <;> rfl

theorem storeCall_subscribe (h : ctx.operation = "subscribe") : storeCall P now sendNow ctx =
    .ok (.change (.subscribe (resolveAgentId P ctx.input ctx) (strField P ctx.input "pattern" ""))) := by
  simp only [storeCall, h]

theorem storeCall_listAgents (h : ctx.operation = "list_agents") : storeCall P now sendNow ctx =
    .ok (.listAgents now (strListField P ctx.input "status_filter")
      (optStrField P ctx.input "namespace")) := by
  simp only [storeCall, h]

end

inductive Response where
  | sent (channel : Channel) (receipt : SendReceipt)
  | drained (drainedAt : ℚ) (messages : List Message)
  | subscribed (matchedChannels : List Channel)
  | unsubscribed (removed : List Pattern) (pendingCleared : Nat)
  | channels (channels : List ChannelEntry)
  | agents (agents : List AgentEntry)
  | acked (receipt : AckReceipt)
  | alive (receipt : HeartbeatReceipt)
  | replayed (messages : List Message) (hasMore : Bool)
  | groupCreated (group : GroupCreated)
  | groupInvited (invitation : GroupInvited)
  | groupJoined (group : GroupJoined)
  | groupLeft (group : GroupLeft)
  | members (members : List Member)

/-- The messages of an answer. -/
def Response.messages : Response → List Message
  | drained _ messages => messages
  | replayed messages _ => messages
  | _ => []

/-- Makes the call; `drainedAt` is the reading after a drain. -/
def perform {σ : Type} (B : BackingStore σ) (drainedAt : ℚ) (call : StoreCall) (s : σ) :
    Except Halt Response × σ :=
  match call with
  | .change (.send now args) =>
    let (receipt, s) := B.send now args s
    (.ok (.sent args.channel receipt), s)
  | .change (.recv a channels max) =>
    let (messages, s) := B.recv a channels max s
    (.ok (.drained drainedAt messages), s)
  | .change (.subscribe a pattern) =>
    let (matched, s) := B.subscribe a pattern s
    (.ok (.subscribed matched), s)
  | .change (.unsubscribe a patterns) =>
    let ((removed, cleared), s) := B.unsubscribe a patterns s
    (.ok (.unsubscribed removed cleared), s)
  | .change (.ack now a messageId status reason) =>
    let (receipt, s) := B.ack now a messageId status reason s
    (.ok (.acked receipt), s)
  | .change (.heartbeat now sendNow a status ttl) =>
    let (receipt, s) := B.heartbeat now sendNow a status ttl s
    (.ok (.alive receipt), s)
  | .change (.groupCreate now a groupId) =>
    let (group, s) := B.groupCreate now a groupId s
    (.ok (.groupCreated group), s)
  | .change (.groupInvite now a groupId b) =>
    let (invited, s) := B.groupInvite now a groupId b s
    match invited with
    | .ok invitation => (.ok (.groupInvited invitation), s)
    | .error e => (.error (.raised e), s)
  | .change (.groupJoin now a groupId) =>
    let (group, s) := B.groupJoin now a groupId s
    (.ok (.groupJoined group), s)
  | .change (.groupLeave now a groupId) =>
    let (group, s) := B.groupLeave now a groupId s
    (.ok (.groupLeft group), s)
  | .listChannels now since => (.ok (.channels (B.listChannels now since s)), s)
  | .listAgents now statusFilter ns => (.ok (.agents (B.listAgents now statusFilter ns s)), s)
  | .replay channel since untilSeq limit =>
    let (messages, hasMore) := B.replay channel since untilSeq limit s
    (.ok (.replayed messages hasMore), s)
  | .groupListMembers a groupId => (.ok (.members (B.groupListMembers a groupId s)), s)

end StoreDispatch

end Sox
