import Sox.BackingStore

/-!
# The in-memory store

`MemoryStore` of `adapters/backing_stores/memory/store.py`. The `asyncio.Lock` makes every operation
atomic, so each is one function of the state. `delivered_to.add` on the objects that a scan
collected is `markDelivered` by their ids, which are distinct in every reachable store
(`MemoryStore.Inv`).
-/

namespace Sox

structure MemoryStore where
  messages : List StoredMessage := []
  subscriptions : Dict AgentId (List Pattern) := .empty
  nextId : Nat := 1
  channelSeq : Dict Channel Nat := .empty
  ackRecords : Dict String AckRecord := .empty
  liveness : Dict AgentId Liveness := .empty
  groups : Dict String (List Member) := .empty

namespace MemoryStore

def init : MemoryStore := {}

def patternsFor (s : MemoryStore) (agentId : AgentId) : List Pattern := s.subscriptions.getD agentId []

def matchesAgent (s : MemoryStore) (agentId : AgentId) (channel : Channel) : Bool :=
  (s.patternsFor agentId).any (Glob.fnmatchcase channel)

/-- The message that `send` and `heartbeat` build from the two counters. -/
def nextMessage (s : MemoryStore) (now : ℚ) (args : SendArgs) : StoredMessage where
  id := s.nextId
  channel := args.channel
  sender := args.sender
  body := args.body
  correlationId := args.correlationId
  sentAt := now
  seq := s.channelSeq.getD args.channel 0 + 1
  replyTo := args.replyTo

def append (now : ℚ) (args : SendArgs) (s : MemoryStore) : MemoryStore :=
  { s with
    messages := s.messages ++ [s.nextMessage now args]
    nextId := s.nextId + 1
    channelSeq := s.channelSeq.set args.channel (s.channelSeq.getD args.channel 0 + 1) }

def queueDepth (channel : Channel) (messages : List StoredMessage) : Nat :=
  (messages.filter fun m => m.channel == channel && m.deliveredTo.isEmpty).length

def send (now : ℚ) (args : SendArgs) (s : MemoryStore) : SendReceipt × MemoryStore :=
  let m := s.nextMessage now args
  let s' := s.append now args
  let depth := queueDepth args.channel s'.messages
  ({ messageId := m.id, sentAt := now, seq := m.seq
     backpressure :=
       { queueDepth := depth, threshold := threshold, overLimit := threshold ≤ depth } }, s')

/-- The scan of `recv` in storage order: `eligible` collects until it holds `maxMessages`
messages. -/
def recvLoop (sel : StoredMessage → Bool) (maxMessages : Int) (eligible : List StoredMessage) :
    List StoredMessage → List StoredMessage
  | [] => eligible
  | m :: rest =>
    if maxMessages ≤ eligible.length then eligible
    else if sel m then recvLoop sel maxMessages (eligible ++ [m]) rest
    else recvLoop sel maxMessages eligible rest

def recv (agentId : AgentId) (channels : Option (List Channel)) (maxMessages : Int) (s : MemoryStore) :
    List Message × MemoryStore :=
  let sel := fun m => StoredMessage.awaits (wants channels (s.patternsFor agentId)) agentId m
  let eligible := sortMessages (recvLoop sel maxMessages [] s.messages)
  (eligible.map (·.toWire), { s with messages := markDelivered agentId (eligible.map (·.id)) s.messages })

/-- `setdefault(agent_id, [])`, then the pattern is appended unless it is there. -/
def addPattern (agentId : AgentId) (pattern : Pattern) (s : MemoryStore) : MemoryStore :=
  let patterns := s.patternsFor agentId
  { s with subscriptions :=
      s.subscriptions.set agentId (if pattern ∈ patterns then patterns else patterns ++ [pattern]) }

def subscribe (agentId : AgentId) (pattern : Pattern) (s : MemoryStore) : List Channel × MemoryStore :=
  ((sortedNames (s.messages.map (·.channel))).filter (Glob.fnmatchcase · pattern),
    s.addPattern agentId pattern)

def listChannels (now : ℚ) (since : Option ℚ) (s : MemoryStore) : List ChannelEntry :=
  let cutoff := since.getD (now - 86400)
  let used := (s.messages.filter fun m => decide (cutoff ≤ m.sentAt)).map (·.channel)
  let named := s.subscriptions.values.flatten.filter isExactPattern
  (sortedNames (used ++ named)).map fun ch =>
    { name := ch
      subscriberCount := (s.subscriptions.values.filter fun ps => ps.any (Glob.fnmatchcase ch)).length }

/-- The high-water mark of a new `watch`: the highest id delivered to the agent. -/
def watchStart (agentId : AgentId) (s : MemoryStore) : Nat :=
  maxId (s.messages.filter fun m => decide (agentId ∈ m.deliveredTo))

/-- One iteration of `watch`: what it yields and the mark after it. -/
def watchPoll (agentId : AgentId) (lastSeenId : Nat) (s : MemoryStore) : List Message × Nat :=
  let newMsgs := sortMessages (s.messages.filter fun m =>
    decide (lastSeenId < m.id) && m.awaits (s.matchesAgent agentId) agentId)
  (newMsgs.map (·.toWire), if newMsgs.isEmpty then lastSeenId else maxId newMsgs)

/-- The variables of the loop of `unsubscribe`. -/
structure Unsubscribing where
  removed : List Pattern := []
  pendingCleared : Nat := 0
  newPatterns : List Pattern := []
  messages : List StoredMessage

/-- One pattern of the agent: a removed one discards what it matches and the agent has not
drained. -/
def unsubscribeStep (agentId : AgentId) (patterns : List Pattern) (u : Unsubscribing)
    (p : Pattern) : Unsubscribing :=
  if p ∈ patterns then
    { u with
      removed := u.removed ++ [p]
      pendingCleared := u.pendingCleared + (inbox (Glob.fnmatchcase · p) agentId u.messages).length
      messages := markWhere agentId (·.awaits (Glob.fnmatchcase · p) agentId) u.messages }
  else { u with newPatterns := u.newPatterns ++ [p] }

def unsubscribe (agentId : AgentId) (patterns : List Pattern) (s : MemoryStore) :
    (List Pattern × Nat) × MemoryStore :=
  let u := (s.patternsFor agentId).foldl (unsubscribeStep agentId patterns) { messages := s.messages }
  ((u.removed, u.pendingCleared),
    { s with messages := u.messages, subscriptions := s.subscriptions.set agentId u.newPatterns })

def ack (now : ℚ) (agentId : AgentId) (messageId status : String) (reason : Option String)
    (s : MemoryStore) : AckReceipt × MemoryStore :=
  ({ messageId, status, ackedAt := now },
    { s with ackRecords := s.ackRecords.set messageId { agentId, status, reason, ackedAt := now } })

/-- The liveness record keeps the agent's namespace; the presence message goes through the same
counters as `send`. -/
def heartbeat (now : ℚ) (agentId : AgentId) (status : String) (ttl : Option Int) (s : MemoryStore) :
    HeartbeatReceipt × MemoryStore :=
  let expiresAt := now + effectiveTtl ttl
  let ns := (s.liveness.get? agentId).bind (·.ns)
  ({ agentId, status, recordedAt := now, expiresAt },
    { s with liveness := s.liveness.set agentId { status, recordedAt := now, expiresAt, ns } }.append now
      (presenceArgs agentId status now))

def listAgents (now : ℚ) (statusFilter : Option (List String)) (ns : Option String) (s : MemoryStore) :
    List AgentEntry :=
  s.liveness.entries.filterMap fun (agentId, live) =>
    let presence := presenceOf live.status live.expiresAt now
    if ns.isSome && live.ns != ns then none
    else if statusFilter.any fun f => !f.contains presence then none
    else some
      { agentId, presenceState := presence
        lastHeartbeatAt := Json.truncate (live.recordedAt * 1000000000), ns := live.ns }

def replay (channel : Channel) (since : Int) (untilSeq : Option Int) (limit : Int) (s : MemoryStore) :
    List Message × Bool :=
  let found := replayRange channel since untilSeq s.messages
  ((sliceTo limit found).map (·.toWire), decide (limit < found.length))

def groupCreate (now : ℚ) (creatorId : AgentId) (groupId : Option String) (s : MemoryStore) :
    GroupCreated × MemoryStore :=
  let fullId := fullGroupId now groupId
  let groups := s.groups.set fullId [{ agentId := creatorId, status := .active, joinedAt := now }]
  ({ groupId := fullId, createdAt := now }, { s with groups }.addPattern creatorId fullId)

def groupInvite (now : ℚ) (inviterId : AgentId) (groupId : String) (inviteeId : AgentId)
    (s : MemoryStore) : Except String GroupInvited × MemoryStore :=
  let members := s.groups.getD groupId []
  if isActiveMember inviterId members then
    (.ok { agentId := inviteeId, invitedAt := now },
      { s with groups := s.groups.set groupId (inviteMember now inviteeId members) })
  else (.error (notActiveError inviterId groupId), s)

/-- Joining a group that does not exist subscribes without storing any member. -/
def groupJoin (now : ℚ) (agentId : AgentId) (groupId : String) (s : MemoryStore) :
    GroupJoined × MemoryStore :=
  let members := acceptInvite now agentId (s.groups.getD groupId [])
  let groups := if (s.groups.get? groupId).isSome then s.groups.set groupId members else s.groups
  ({ groupId, memberCount := activeCount members, joinedAt := now },
    { s with groups }.addPattern agentId groupId)

def groupLeave (now : ℚ) (agentId : AgentId) (groupId : String) (s : MemoryStore) :
    GroupLeft × MemoryStore :=
  ({ groupId, leftAt := now },
    { s with
      groups := s.groups.set groupId ((s.groups.getD groupId []).filter (·.agentId != agentId))
      subscriptions := s.subscriptions.set agentId ((s.patternsFor agentId).filter (· != groupId)) })

def groupListMembers (_agentId : AgentId) (groupId : String) (s : MemoryStore) : List Member :=
  s.groups.getD groupId []

end MemoryStore

def memoryStore : BackingStore MemoryStore where
  send := MemoryStore.send
  recv := MemoryStore.recv
  subscribe := MemoryStore.subscribe
  listChannels := MemoryStore.listChannels
  watchStart := MemoryStore.watchStart
  watchPoll := MemoryStore.watchPoll
  unsubscribe := MemoryStore.unsubscribe
  ack := MemoryStore.ack
  heartbeat := fun now _ => MemoryStore.heartbeat now
  listAgents := MemoryStore.listAgents
  replay := MemoryStore.replay
  groupCreate := MemoryStore.groupCreate
  groupInvite := MemoryStore.groupInvite
  groupJoin := MemoryStore.groupJoin
  groupLeave := MemoryStore.groupLeave
  groupListMembers := MemoryStore.groupListMembers

end Sox
