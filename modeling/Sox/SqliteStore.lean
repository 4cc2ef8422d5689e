import Sox.BackingStore

/-!
# The SQLite store

`SqliteDb` is the database file: rows of `messages` in the order of their ids, the `AUTOINCREMENT`
counter, `subscriptions` and `liveness`. Its first functions are single SQL statements; the
interleaved models step through them. The operations of `adapters/backing_stores/sqlite/store.py`
follow as functions of the whole store, which is the database with what a process keeps to itself
(acknowledgements and groups).
-/

namespace Sox

structure SqliteDb where
  messages : List StoredMessage := []
  autoincrement : Nat := 0
  subscriptions : List (AgentId × Pattern) := []
  liveness : Dict AgentId Liveness := .empty

namespace SqliteDb

/-! ### Statements -/

/-- `SELECT channel_pattern FROM subscriptions WHERE agent_id = ?` -/
def patternsFor (db : SqliteDb) (agentId : AgentId) : List Pattern :=
  (db.subscriptions.filter fun row => row.1 = agentId).map Prod.snd

/-- `INSERT OR IGNORE INTO subscriptions` -/
def insertSubscription (agentId : AgentId) (pattern : Pattern) (db : SqliteDb) : SqliteDb :=
  if (agentId, pattern) ∈ db.subscriptions then db
  else { db with subscriptions := db.subscriptions ++ [(agentId, pattern)] }

/-- `DELETE FROM subscriptions WHERE agent_id = ? AND channel_pattern = ?` -/
def deleteSubscription (agentId : AgentId) (pattern : Pattern) (db : SqliteDb) : SqliteDb :=
  { db with subscriptions := db.subscriptions.filter (· ≠ (agentId, pattern)) }

/-- `SELECT COALESCE(MAX(seq), 0) + 1 FROM messages WHERE channel = ?` -/
def nextSeq (channel : Channel) (db : SqliteDb) : Nat :=
  ((onChannel channel db.messages).map (·.seq)).foldr max 0 + 1

/-- `SELECT COUNT(*) FROM messages WHERE channel = ?` -/
def countOn (channel : Channel) (db : SqliteDb) : Nat := (onChannel channel db.messages).length

def newRow (now : ℚ) (args : SendArgs) (seq : Nat) (db : SqliteDb) : StoredMessage where
  id := db.autoincrement + 1
  channel := args.channel
  sender := args.sender
  body := args.body
  correlationId := args.correlationId
  sentAt := now
  seq := seq
  replyTo := args.replyTo

/-- `INSERT INTO messages` with an empty `delivered_to`. -/
def insertMessage (now : ℚ) (args : SendArgs) (seq : Nat) (db : SqliteDb) : SqliteDb :=
  { db with messages := db.messages ++ [db.newRow now args seq], autoincrement := db.autoincrement + 1 }

/-- `UPDATE messages SET delivered_to = ? WHERE id = ?` -/
def updateDelivered (id : Nat) (deliveredTo : List AgentId) (db : SqliteDb) : SqliteDb :=
  { db with messages := db.messages.map fun m => if m.id = id then { m with deliveredTo } else m }

/-- `INSERT INTO liveness … ON CONFLICT(agent_id) DO UPDATE`: the namespace of an existing row
stays. -/
def upsertLiveness (agentId : AgentId) (status : String) (recordedAt expiresAt : ℚ)
    (db : SqliteDb) : SqliteDb :=
  let ns := (db.liveness.get? agentId).bind (·.ns)
  { db with liveness := db.liveness.set agentId { status, recordedAt, expiresAt, ns } }

/-! ### Operations -/

def send (now : ℚ) (args : SendArgs) (db : SqliteDb) : SendReceipt × SqliteDb :=
  let seq := db.nextSeq args.channel
  let queueDepth := db.countOn args.channel
  ({ messageId := db.autoincrement + 1, sentAt := now, seq
     backpressure := { queueDepth, threshold, overLimit := threshold ≤ queueDepth } },
       db.insertMessage now args seq)

/-- The scan of `recv` over the ordered rows: it stops when a row it has just taken makes
`maxMessages`. -/
def recvLoop (sel : StoredMessage → Bool) (maxMessages : Int) (eligible : List StoredMessage) :
    List StoredMessage → List StoredMessage
  | [] => eligible
  | row :: rest =>
    if sel row then
      let eligible := eligible ++ [row]
      if maxMessages ≤ eligible.length then eligible else recvLoop sel maxMessages eligible rest
    else recvLoop sel maxMessages eligible rest

/-- What `recv` takes from the rows it selected, `patterns` being read before (and only without
`channels`). -/
def eligibleRows (agentId : AgentId) (channels : Option (List Channel)) (patterns : List Pattern)
    (maxMessages : Int) (rows : List StoredMessage) : List StoredMessage :=
  recvLoop (fun m => m.awaits (wants channels patterns) agentId) maxMessages [] rows

/-- The `UPDATE` of one row that was read: the agent is appended to the list as it was read. -/
def markRow (agentId : AgentId) (db : SqliteDb) (row : StoredMessage) : SqliteDb :=
  db.updateDelivered row.id (row.deliveredTo ++ [agentId])

def recv (agentId : AgentId) (channels : Option (List Channel)) (maxMessages : Int) (db : SqliteDb) :
    List Message × SqliteDb :=
  let patterns := if channels.isNone then db.patternsFor agentId else []
  if channels.isNone && patterns.isEmpty then ([], db)
  else
    let eligible := eligibleRows agentId channels patterns maxMessages (sortMessages db.messages)
    (eligible.map (·.toWire), eligible.foldl (markRow agentId) db)

def subscribe (agentId : AgentId) (pattern : Pattern) (db : SqliteDb) : List Channel × SqliteDb :=
  let db := db.insertSubscription agentId pattern
  ((db.messages.map (·.channel)).dedup.filter (Glob.fnmatchcase · pattern), db)

def listChannels (now : ℚ) (since : Option ℚ) (db : SqliteDb) : List ChannelEntry :=
  let cutoff := since.getD (now - 86400)
  let used := (db.messages.filter fun m => decide (cutoff ≤ m.sentAt)).map (·.channel)
  let named := (db.subscriptions.map Prod.snd).filter isExactPattern
  (sortedNames (used ++ named)).map fun ch =>
    { name := ch
      -- rows, not agents: an agent counts once for each of its patterns that matches
      subscriberCount := (db.subscriptions.filter fun row => Glob.fnmatchcase ch row.2).length }

/-- `_get_max_delivered_id`. -/
def watchStart (agentId : AgentId) (db : SqliteDb) : Nat :=
  maxId (db.messages.filter fun m => decide (agentId ∈ m.deliveredTo))

/-- `_fetch_new_for_agent`. -/
def fetchNew (agentId : AgentId) (afterId : Nat) (db : SqliteDb) : List StoredMessage :=
  let patterns := db.patternsFor agentId
  if patterns.isEmpty then []
  else (sortMessages (db.messages.filter fun m => decide (afterId < m.id))).filter
    (·.awaits (fun ch => patterns.any (Glob.fnmatchcase ch)) agentId)

/-- One iteration of `watch`: the mark follows the yielded messages one by one. -/
def watchPoll (agentId : AgentId) (lastSeenId : Nat) (db : SqliteDb) : List Message × Nat :=
  let messages := (db.fetchNew agentId lastSeenId).map (·.toWire)
  (messages, messages.foldl (fun last m => if last < m.messageId then m.messageId else last) lastSeenId)

/-- The loop of `unsubscribe` over the rows, with its counter. -/
def clearRows (agentId : AgentId) (removed : List Pattern) (rows : List StoredMessage) (db : SqliteDb) :
    Nat × SqliteDb :=
  rows.foldl
    (fun (cleared, db) row =>
      if row.awaits (fun ch => removed.any (Glob.fnmatchcase ch)) agentId then
        (cleared + 1, db.markRow agentId row)
      else (cleared, db))
    (0, db)

def unsubscribe (agentId : AgentId) (patterns : List Pattern) (db : SqliteDb) :
    (List Pattern × Nat) × SqliteDb :=
  let removed := (db.patternsFor agentId).filter (· ∈ patterns)
  if removed.isEmpty then (([], 0), db)
  else
    let db := removed.foldl (fun db p => db.deleteSubscription agentId p) db
    let (cleared, db) := clearRows agentId removed db.messages db
    ((removed, cleared), db)

/-- The liveness record is committed before the presence message is sent. -/
def heartbeat (now sendNow : ℚ) (agentId : AgentId) (status : String) (ttl : Option Int) (db : SqliteDb) :
    HeartbeatReceipt × SqliteDb :=
  let expiresAt := now + effectiveTtl ttl
  let db := db.upsertLiveness agentId status now expiresAt
  ({ agentId, status, recordedAt := now, expiresAt },
    (db.send sendNow (presenceArgs agentId status now)).2)

def listAgents (now : ℚ) (statusFilter : Option (List String)) (ns : Option String) (db : SqliteDb) :
    List AgentEntry :=
  (db.liveness.entries.filter fun row =>
      ns.all fun n => row.2.ns == some n).filterMap fun (agentId, row) =>
    let presence := presenceOf row.status row.expiresAt now
    if statusFilter.any fun f => !f.contains presence then none
    else some
      { agentId, presenceState := presence
        lastHeartbeatAt := Json.truncate (row.recordedAt * 1000000000), ns := row.ns }

def replay (channel : Channel) (since : Int) (untilSeq : Option Int) (limit : Int) (db : SqliteDb) :
    List Message × Bool :=
  let rows := replayRange channel since untilSeq db.messages
  ((sliceTo limit rows).map (·.toWire), decide (limit < rows.length))

end SqliteDb

/-- The database together with what the process keeps in memory. -/
structure SqliteStore where
  db : SqliteDb := {}
  ackRecords : Dict String AckRecord := .empty
  groups : Dict String (List Member) := .empty

namespace SqliteStore

def opened (db : SqliteDb) : SqliteStore := { db }

def init : SqliteStore := opened {}

def onDb {α : Type} (f : SqliteDb → α × SqliteDb) (s : SqliteStore) : α × SqliteStore :=
  ((f s.db).1, { s with db := (f s.db).2 })

def ack (now : ℚ) (agentId : AgentId) (messageId status : String) (reason : Option String)
    (s : SqliteStore) : AckReceipt × SqliteStore :=
  ({ messageId, status, ackedAt := now },
    { s with ackRecords := s.ackRecords.set messageId { agentId, status, reason, ackedAt := now } })

def groupCreate (now : ℚ) (creatorId : AgentId) (groupId : Option String) (s : SqliteStore) :
    GroupCreated × SqliteStore :=
  let fullId := fullGroupId now groupId
  ({ groupId := fullId, createdAt := now },
    { s with
      groups := s.groups.set fullId [{ agentId := creatorId, status := .active, joinedAt := now }]
      db := s.db.insertSubscription creatorId fullId })

def groupInvite (now : ℚ) (inviterId : AgentId) (groupId : String) (inviteeId : AgentId)
    (s : SqliteStore) : Except String GroupInvited × SqliteStore :=
  let members := s.groups.getD groupId []
  if isActiveMember inviterId members then
    (.ok { agentId := inviteeId, invitedAt := now },
      { s with groups := s.groups.set groupId (inviteMember now inviteeId members) })
  else (.error (notActiveError inviterId groupId), s)

def groupJoin (now : ℚ) (agentId : AgentId) (groupId : String) (s : SqliteStore) :
    GroupJoined × SqliteStore :=
  let members := acceptInvite now agentId (s.groups.getD groupId [])
  let groups := if (s.groups.get? groupId).isSome then s.groups.set groupId members else s.groups
  ({ groupId, memberCount := activeCount members, joinedAt := now },
    { s with groups, db := s.db.insertSubscription agentId groupId })

def groupLeave (now : ℚ) (agentId : AgentId) (groupId : String) (s : SqliteStore) :
    GroupLeft × SqliteStore :=
  ({ groupId, leftAt := now },
    { s with
      groups := s.groups.set groupId ((s.groups.getD groupId []).filter (·.agentId != agentId))
      db := s.db.deleteSubscription agentId groupId })

def groupListMembers (_agentId : AgentId) (groupId : String) (s : SqliteStore) : List Member :=
  s.groups.getD groupId []

end SqliteStore

def sqliteStore : BackingStore SqliteStore where
  send := fun now args => SqliteStore.onDb (SqliteDb.send now args)
  recv := fun a channels max => SqliteStore.onDb (SqliteDb.recv a channels max)
  subscribe := fun a p => SqliteStore.onDb (SqliteDb.subscribe a p)
  listChannels := fun now since s => s.db.listChannels now since
  watchStart := fun a s => s.db.watchStart a
  watchPoll := fun a last s => s.db.watchPoll a last
  unsubscribe := fun a ps => SqliteStore.onDb (SqliteDb.unsubscribe a ps)
  ack := SqliteStore.ack
  heartbeat := fun now sendNow a status ttl =>
    SqliteStore.onDb (SqliteDb.heartbeat now sendNow a status ttl)
  listAgents := fun now statusFilter ns s => s.db.listAgents now statusFilter ns
  replay := fun channel since untilSeq limit s => s.db.replay channel since untilSeq limit
  groupCreate := SqliteStore.groupCreate
  groupInvite := SqliteStore.groupInvite
  groupJoin := SqliteStore.groupJoin
  groupLeave := SqliteStore.groupLeave
  groupListMembers := SqliteStore.groupListMembers

end Sox
