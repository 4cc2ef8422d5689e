import Sox.StoreDispatch
import Sox.Wildcard

/-!
# The MCP tools

What each of the tools dispatches: the operation and its input, from the arguments of the call and
the agent of the server. `channels__subscribe` may raise instead. `channels__recv` takes its answer
from the listener, and its other effects are not part of its dispatch.
-/

namespace Sox

/-- A call of a tool, its arguments of the types of the tool's signature. -/
inductive ToolCall where
  | channelsSend (channel : String) (body : JsonDict) (correlationId : Option String)
  | channelsRecv (channels : Option (List String)) (maxMessages threadDepth : Int) (includeMeta : Bool)
  | channelsSubscribe (pattern : String)
  | channelsUnsubscribe (patterns : List String)
  | channelsAck (messageId status : String) (reason : Option String)
  | channelsHeartbeat (status : String) (ttl : Option Int)
  | channelsListAgents (statusFilter : Option (List String)) (ns : Option String)
  | channelsReplay (channel : String) (since : Int) (untilSeq : Option Int) (limit : Int)
  | channelsCollect (replyTo : String) (count : Int) (timeout : ℚ) (statusFilter : Option (List String))
  | groupCreate (groupId : Option String)
  | groupInvite (groupId agentId : String)
  | groupJoin (groupId : String)
  | groupLeave (groupId : String)
  | groupListMembers (groupId : String)
  | channelsListChannels

/-- What the tools know beside their arguments. -/
structure ToolContext where
  agentId : AgentId
  parsers : Parsers
  /-- `os.environ.get("SOX_HEARTBEAT_TTL_DEFAULT", "")` -/
  heartbeatTtlDefault : String := ""

/-- `str.strip` -/
def strip (s : String) : String :=
  String.ofList ((s.toList.dropWhile isSpace).reverse.dropWhile isSpace).reverse

/-- `_resolve_heartbeat_ttl` -/
def ToolContext.resolveHeartbeatTtl (lc : ToolContext) (perCallTtl : Option Int) : Option Int :=
  match perCallTtl with
  | some ttl => some ttl
  | none =>
    let raw := strip lc.heartbeatTtlDefault
    if raw.isEmpty then none
    else
      match lc.parsers.intOfStr raw with
      | some parsed => if parsed ≤ 0 then none else some parsed
      | none => none

namespace Json

def ofOption {α : Type} (f : α → Json) : Option α → Json
  | some a => f a
  | none => .null

def ofStrings (xs : List String) : Json := .arr (xs.map .str)

end Json

/-- A dictionary display. -/
def pyDict (fields : List (String × Json)) : JsonDict := fields.foldl (fun d f => d.set f.1 f.2) .empty

namespace ToolCall

/-- The operation and the input that the call hands to `pipeline.dispatch`, or the `ValueError`. -/
def dispatched (lc : ToolContext) : ToolCall → Except String (String × JsonDict)
  | channelsSend channel body correlationId => .ok ("send", pyDict
      [("channel", .str channel), ("body", .obj body.entries),
        ("correlation_id", .ofOption .str correlationId)])
  | channelsRecv channels maxMessages _ _ => .ok ("recv", pyDict
      [("agent_id", .str lc.agentId), ("channels", .ofOption .ofStrings channels),
        ("max_messages", .int maxMessages)])
  | channelsSubscribe pattern => do
    channelsSubscribeGuard pattern
    .ok ("subscribe", pyDict [("agent_id", .str lc.agentId), ("pattern", .str pattern)])
  | channelsUnsubscribe patterns => .ok ("unsubscribe", pyDict
      [("agent_id", .str lc.agentId), ("patterns", .ofStrings patterns)])
  | channelsAck messageId status reason => .ok ("channels_ack", pyDict
      [("agent_id", .str lc.agentId), ("message_id", .str messageId), ("status", .str status),
        ("reason", .ofOption .str reason)])
  | channelsHeartbeat status ttl => .ok ("channels_heartbeat", pyDict
      [("agent_id", .str lc.agentId), ("status", .str status),
        ("ttl", .ofOption .int (lc.resolveHeartbeatTtl ttl))])
  | channelsListAgents statusFilter ns => .ok ("list_agents", pyDict
      [("agent_id", .str lc.agentId), ("status_filter", .ofOption .ofStrings statusFilter),
        ("namespace", .ofOption .str ns)])
  | channelsReplay channel since untilSeq limit => .ok ("replay", pyDict
      [("channel", .str channel), ("since", .int since), ("until", .ofOption .int untilSeq),
        ("limit", .int limit)])
  | channelsCollect replyTo count _ _ => .ok ("channels_collect", pyDict
      [("agent_id", .str lc.agentId), ("channels", .ofStrings [replyTo]), ("max_messages", .int count)])
  | groupCreate groupId => .ok ("group_create", pyDict
      [("creator_id", .str lc.agentId), ("group_id", .ofOption .str groupId)])
  | groupInvite groupId agentId => .ok ("group_invite", pyDict
      [("inviter_id", .str lc.agentId), ("group_id", .str groupId), ("invitee_id", .str agentId)])
  | groupJoin groupId => .ok ("group_join", pyDict
      [("agent_id", .str lc.agentId), ("group_id", .str groupId)])
  | groupLeave groupId => .ok ("group_leave", pyDict
      [("agent_id", .str lc.agentId), ("group_id", .str groupId)])
  | groupListMembers groupId => .ok ("group_list_members", pyDict
      [("agent_id", .str lc.agentId), ("group_id", .str groupId)])
  | channelsListChannels => .ok ("list_channels", .empty)

end ToolCall

end Sox
