import Sox.Message
import Sox.Lib.Glob

/-!
# The backing-store port

`BackingStore σ` is the port over a store with states `σ`: every operation takes the readings of the
clock it makes and gives its result and the next state. The tools, the dispatcher and the enforcer
are modelled over the port; `MemoryStore` and `SqliteStore` instantiate it. `watch` is its two
parts: the high-water mark computed when the generator starts and one iteration of its polling loop.
-/

namespace Sox

structure BackpressureInfo where
  queueDepth : Nat := 0
  threshold : Nat := 1000
  overLimit : Bool := false
  mode : String := "enforced"
  state : String := "ok"
deriving DecidableEq

structure SendArgs where
  channel : Channel
  sender : AgentId
  body : JsonDict
  correlationId : Option String := none
  replyTo : Option String := none

structure SendReceipt where
  messageId : Nat
  sentAt : ℚ
  seq : Nat
  backpressure : BackpressureInfo

structure ChannelEntry where
  name : Channel
  subscriberCount : Nat
deriving DecidableEq

structure AckReceipt where
  messageId : String
  status : String
  ackedAt : ℚ

structure HeartbeatReceipt where
  agentId : AgentId
  status : String
  recordedAt : ℚ
  expiresAt : ℚ

structure AgentEntry where
  agentId : AgentId
  presenceState : String
  lastHeartbeatAt : Int
  ns : Option String
deriving DecidableEq

inductive MemberStatus where
  | active
  | invited
deriving DecidableEq, Repr

structure Member where
  agentId : AgentId
  status : MemberStatus
  joinedAt : ℚ

structure GroupCreated where
  groupId : String
  createdAt : ℚ

structure GroupInvited where
  agentId : AgentId
  invitedAt : ℚ

structure GroupJoined where
  groupId : String
  memberCount : Nat
  joinedAt : ℚ

structure GroupLeft where
  groupId : String
  leftAt : ℚ

structure AckRecord where
  agentId : AgentId
  status : String
  reason : Option String
  ackedAt : ℚ

structure Liveness where
  status : String
  recordedAt : ℚ
  expiresAt : ℚ
  ns : Option String

structure BackingStore (σ : Type) where
  send : ℚ → SendArgs → σ → SendReceipt × σ
  recv : AgentId → Option (List Channel) → Int → σ → List Message × σ
  subscribe : AgentId → Pattern → σ → List Channel × σ
  listChannels : ℚ → Option ℚ → σ → List ChannelEntry
  watchStart : AgentId → σ → Nat
  watchPoll : AgentId → Nat → σ → List Message × Nat
  unsubscribe : AgentId → List Pattern → σ → (List Pattern × Nat) × σ
  ack : ℚ → AgentId → String → String → Option String → σ → AckReceipt × σ
  /-- The two readings are those of the liveness record and of the presence message. -/
  heartbeat : ℚ → ℚ → AgentId → String → Option Int → σ → HeartbeatReceipt × σ
  listAgents : ℚ → Option (List String) → Option String → σ → List AgentEntry
  replay : Channel → Int → Option Int → Int → σ → List Message × Bool
  groupCreate : ℚ → AgentId → Option String → σ → GroupCreated × σ
  /-- `ValueError` when the inviter is not an active member. -/
  groupInvite : ℚ → AgentId → String → AgentId → σ → Except String GroupInvited × σ
  groupJoin : ℚ → AgentId → String → σ → GroupJoined × σ
  groupLeave : ℚ → AgentId → String → σ → GroupLeft × σ
  groupListMembers : AgentId → String → σ → List Member

/-- A call of one operation that can change a store. -/
inductive StoreOp where
  | send (now : ℚ) (args : SendArgs)
  | recv (agentId : AgentId) (channels : Option (List Channel)) (maxMessages : Int)
  | subscribe (agentId : AgentId) (pattern : Pattern)
  | unsubscribe (agentId : AgentId) (patterns : List Pattern)
  | ack (now : ℚ) (agentId : AgentId) (messageId status : String) (reason : Option String)
  | heartbeat (now sendNow : ℚ) (agentId : AgentId) (status : String) (ttl : Option Int)
  | groupCreate (now : ℚ) (creatorId : AgentId) (groupId : Option String)
  | groupInvite (now : ℚ) (inviterId : AgentId) (groupId : String) (inviteeId : AgentId)
  | groupJoin (now : ℚ) (agentId : AgentId) (groupId : String)
  | groupLeave (now : ℚ) (agentId : AgentId) (groupId : String)

namespace BackingStore

variable {σ : Type}

/-- The state after the operation; a raising operation has not changed it. -/
def apply (B : BackingStore σ) : StoreOp → σ → σ
  | .send now args, s => (B.send now args s).2
  | .recv a channels max, s => (B.recv a channels max s).2
  | .subscribe a p, s => (B.subscribe a p s).2
  | .unsubscribe a ps, s => (B.unsubscribe a ps s).2
  | .ack now a mid status reason, s => (B.ack now a mid status reason s).2
  | .heartbeat now sendNow a status ttl, s => (B.heartbeat now sendNow a status ttl s).2
  | .groupCreate now a gid, s => (B.groupCreate now a gid s).2
  | .groupInvite now a gid b, s => (B.groupInvite now a gid b s).2
  | .groupJoin now a gid, s => (B.groupJoin now a gid s).2
  | .groupLeave now a gid, s => (B.groupLeave now a gid s).2

def applyAll (B : BackingStore σ) (ops : List StoreOp) (s : σ) : σ :=
  ops.foldl (fun s op => B.apply op s) s

def received (B : BackingStore σ) (a : AgentId) : StoreOp → σ → List Message
  | .recv b channels max, s => if b = a then (B.recv b channels max s).1 else []
  | _, _ => []

def receivedAll (B : BackingStore σ) (a : AgentId) : List StoreOp → σ → List Message
  | [], _ => []
  | op :: ops, s => B.received a op s ++ B.receivedAll a ops (B.apply op s)

/-- `recv` by one agent again and again until it returns nothing: everything returned, and the store
after. `none` when `fuel` calls are not enough. -/
def drain (B : BackingStore σ) (a : AgentId) (channels : Option (List Channel)) (maxMessages : Int) :
    Nat → σ → Option (List Message × σ)
  | 0, _ => none
  | fuel + 1, s =>
    let (msgs, s') := B.recv a channels maxMessages s
    if msgs.isEmpty then some ([], s')
    else (B.drain a channels maxMessages fuel s').map fun (rest, t) => (msgs ++ rest, t)

theorem applyAll_append (B : BackingStore σ) (ops ops' : List StoreOp) (s : σ) :
    B.applyAll (ops ++ ops') s = B.applyAll ops' (B.applyAll ops s) := List.foldl_append

theorem applyAll_invariant {B : BackingStore σ} {I : σ → Prop} (hstep : ∀ op s, I s → I (B.apply op s))
    (ops : List StoreOp) {s : σ} (hs : I s) : I (B.applyAll ops s) := by
  induction ops generalizing s with
  | nil => exact hs
  | cons op ops ih => exact ih (hstep op s hs)

end BackingStore

/-! ### Shared by the stores -/

/-- Whether a `recv` wants the channel: it is listed, or without a list some pattern matches it. -/
def wants (channels : Option (List Channel)) (patterns : List Pattern) (ch : Channel) : Bool :=
  match channels with
  | some cs => cs.contains ch
  | none => patterns.any (Glob.fnmatchcase ch)

/-- `ttl or 30`: a missing or zero ttl gives the default. -/
def effectiveTtl (ttl : Option Int) : Int :=
  match ttl with
  | none => 30
  | some t => if t = 0 then 30 else t

def presenceBody (agentId : AgentId) (status : String) (now : ℚ) : JsonDict where
  entries := [("event", .str ("agent_" ++ status)), ("agent_id", .str agentId), ("state", .str status),
    ("changed_at", .float now)]
  nodup := by simp

def presenceChannel : Channel := "sox/presence"

def presenceArgs (agentId : AgentId) (status : String) (now : ℚ) : SendArgs :=
  { channel := presenceChannel, sender := "__server__", body := presenceBody agentId status now }

def threshold : Nat := 1000

/-- `sorted(set(names))`. -/
def sortedNames (names : List String) : List String := names.dedup.insertionSort (· ≤ ·)

def maxId (l : List StoredMessage) : Nat := (l.map (·.id)).foldr max 0

/-- The messages of a channel with `since ≤ seq ≤ until`, by `(seq, id)`. -/
def replayRange (channel : Channel) (since : Int) (untilSeq : Option Int) (l : List StoredMessage) :
    List StoredMessage :=
  (l.filter fun m =>
    m.channel == channel && decide (since ≤ m.seq) && untilSeq.all fun u =>
      decide ((m.seq : Int) ≤ u)).insertionSort
      fun m n => m.seq < n.seq ∨ m.seq = n.seq ∧ m.id ≤ n.id

/-- `rows[:limit]`: a negative limit drops from the end. -/
def sliceTo {α : Type} (limit : Int) (rows : List α) : List α :=
  if 0 ≤ limit then rows.take limit.toNat else rows.take (rows.length - (-limit).toNat)

/-- `group_id` if given and non-empty, else `grp-<seconds>`, under the `group/` prefix. -/
def fullGroupId (now : ℚ) (groupId : Option String) : String :=
  let bare := match groupId with
    | some g => if g.isEmpty then "grp-" ++ toString (Json.truncate now) else g
    | none => "grp-" ++ toString (Json.truncate now)
  "group/" ++ bare

def isActiveMember (agentId : AgentId) (members : List Member) : Bool :=
  members.any fun m => m.agentId == agentId && m.status == .active

def inviteMember (now : ℚ) (inviteeId : AgentId) (members : List Member) : List Member :=
  if members.any (·.agentId == inviteeId) then members
  else members ++ [{ agentId := inviteeId, status := .invited, joinedAt := now }]

/-- The members after the first pending invitation of the agent, if any, is accepted. -/
def acceptInvite (now : ℚ) (agentId : AgentId) : List Member → List Member
  | [] => []
  | m :: rest =>
    if m.agentId = agentId ∧ m.status = .invited then
      { m with status := .active, joinedAt := now } :: rest
    else m :: acceptInvite now agentId rest

def activeCount (members : List Member) : Nat := (members.filter (·.status == .active)).length

def notActiveError (inviterId : AgentId) (groupId : String) : String :=
  "Agent " ++ Json.reprStr inviterId ++ " is not an active member of " ++ Json.reprStr groupId

def isExactPattern (p : Pattern) : Bool :=
  !p.toList.contains '*' && !p.toList.contains '?' && !p.toList.contains '['

def presenceOf (status : String) (expiresAt now : ℚ) : String :=
  if status = "offline" then "offline" else if expiresAt ≤ now then "stale" else status

end Sox
