import Mathlib.Data.String.Basic
import Sox.FilesystemStore
import Sox.Lib.FileTree
import Sox.Lib.Moves

/-!
# The filesystem store on its files

`FilesystemStore` down to the paths it builds: channel names are encoded before they become a component,
agent ids are not. A path is parsed as `pathlib` does and followed as POSIX does, so a name with a slash
is several components, and `.` and `..` are no names. The host may refuse a name (`Host.accepts`); what a
refused call has done before stays done. A temporary file of `_atomic_write` is gone when it returns.
`watch`, `list_channels`, `ack`, `list_agents` and `group_list_members` change no file and are left out.
-/

namespace Sox

/-- A JSON array of strings, a message, or a text that is no JSON. -/
inductive FileContent where
  | names (names : List String)
  | message (message : MessageFile)
  | text (text : String)

/-- What a call can raise. -/
inductive StoreError where
  | os (e : FileError)
  | jsonDecode
  | assertion
  | wrongType
  | value (text : String)

/-- Where the store is, as a location without links, and what the file system is like. -/
structure Host where
  root : List String
  accepts : String → Bool
  listing : DirListing
  acceptsOwn : ∀ n ∈ root ++ ["channels", "subscriptions", "messages", "delivered"], accepts n = true

abbrev StorePath := List (PathStep String)

abbrev StoreTree := FileTree String FileContent

/-- The files, and what the process keeps in memory. -/
structure PathStore where
  tree : StoreTree
  groups : Dict String (List Member) := .empty
  liveness : Dict AgentId Liveness := .empty

abbrev StoreM (α : Type) := Effect PathStore StoreError α

namespace PathStore

open FileTree

/-- A host that takes every name. -/
def plainHost : Host where
  root := ["store"]
  accepts _ := true
  listing := inOrder
  acceptsOwn _ _ := rfl

/-! ### Paths -/

/-- The components of a path: empty ones and `.` are dropped. -/
def parsePath (s : String) : StorePath :=
  ((s.toList.splitOn '/').map String.ofList).filterMap fun part =>
    if part = "" ∨ part = "." then none else some (if part = ".." then .up else .down part)

/-- `path / s`: an absolute `s` takes the place of the path. -/
def joinPath (path : StorePath) (s : String) : StorePath :=
  if s.toList.head? = some '/' then parsePath s else path ++ parsePath s

variable (host : Host)

def channelsDir : StorePath := (host.root ++ ["channels"]).map .down

def channelDir (channel : Channel) : StorePath := joinPath (channelsDir host) (encodeChannel channel)

def messagesDir (channel : Channel) : StorePath := channelDir host channel ++ [.down "messages"]

def deliveredDir (channel : Channel) : StorePath := channelDir host channel ++ [.down "delivered"]

def deliveredFile (channel : Channel) (agentId : AgentId) : StorePath :=
  joinPath (deliveredDir host channel) (agentId ++ ".json")

def subscriptionsDir : StorePath := (host.root ++ ["subscriptions"]).map .down

def subscriptionsFile (agentId : AgentId) : StorePath :=
  joinPath (subscriptionsDir host) (agentId ++ ".json")

/-! ### Reading -/

/-- `_read_json_file` where a list is asserted. -/
def readNames (path : StorePath) (t : StoreTree) : Except StoreError (List String) :=
  match t.read host.accepts path with
  | .error .notFound => .ok []
  | .error e => .error (.os e)
  | .ok (.names l) => .ok l
  | .ok (.message _) => .error .assertion
  | .ok (.text _) => .error .jsonDecode

def getPatterns (agentId : AgentId) : StoreTree → Except StoreError (List Pattern) :=
  readNames host (subscriptionsFile host agentId)

def getDeliveredSet (channel : Channel) (agentId : AgentId) : StoreTree → Except StoreError (List String) :=
  readNames host (deliveredFile host channel agentId)

def matchesJson (name : String) : Bool := ".json".toList.isSuffixOf name.toList

/-- `glob("*.json")` in the directory at `p`. -/
def globJson (p : List String) (t : StoreTree) : List String := ((t.list p).map (·.1)).filter matchesJson

/-- `path.exists()`, and where the path leads. A refused name raises, as one that is too long does. -/
def locate (path : StorePath) (t : StoreTree) : Except StoreError (Option (List String)) :=
  match t.walk host.accepts [] path with
  | .ok p => .ok (if (t.node p).isSome then some p else none)
  | .error .notFound => .ok none
  | .error .notADirectory => .ok none
  | .error e => .error (.os e)

def listMessageFiles (channel : Channel) (t : StoreTree) : Except StoreError (List String) :=
  (locate host (messagesDir host channel) t).map fun
    | none => []
    | some p => (globJson p t).insertionSort (· ≤ ·)

def readMessage (channel : Channel) (t : StoreTree) (fname : String) : Except FileError FileContent :=
  t.read host.accepts (messagesDir host channel ++ [.down fname])

def knownChannels (t : StoreTree) : Except StoreError (List Channel) := do
  match ← locate host (channelsDir host) t with
  | none => pure []
  | some p =>
    match t.node p with
    | some .dir =>
      let names := host.listing.order ((t.list p).map (·.1))
      pure ((names.filter fun n => t.node (p ++ [n]) = some .dir).map decodeChannel)
    | _ => throw (.os .notADirectory)

/-! ### Writing -/

/-- `mkdir(parents=True, exist_ok=True)` -/
def mkdir (path : StorePath) : StoreM (List String) := fun s =>
  let (result, tree) := s.tree.mkdirs host.accepts [] path
  (result.mapError .os, { s with tree })

def replaceFile (dir : List String) (name : String) (content : FileContent) : StoreM Unit := fun s =>
  let (result, tree) := s.tree.replace host.accepts dir name content
  (result.mapError .os, { s with tree })

def atomicWrite (path : StorePath) (content : FileContent) : StoreM Unit := do
  let dir ← mkdir host path.dropLast
  match path.getLast? with
  | some (.down name) => replaceFile host dir name content
  | _ => throw (.os .isADirectory)

def lookTree {α : Type} (f : StoreTree → Except StoreError α) : StoreM α := Effect.look fun s => f s.tree

def remember (f : PathStore → PathStore) : StoreM Unit := fun s => (.ok (), f s)

def markDelivered (channel : Channel) (agentId : AgentId) (filenames : List String) : StoreM Unit := do
  let existing ← lookTree (getDeliveredSet host channel agentId)
  atomicWrite host (deliveredFile host channel agentId) (.names (sortedNames (existing ++ filenames)))

/-! ### Operations -/

def initializeStore : StoreM Unit := do
  let _ ← mkdir host (host.root.map .down)
  let _ ← mkdir host (channelsDir host)
  let _ ← mkdir host (subscriptionsDir host)

/-- The name of the file is one component, whatever the channel is. -/
def send (now : ℚ) (args : SendArgs) (uuid : Uuid) : StoreM FileReceipt := do
  let filename := fileName now uuid
  let messageId := encodeChannel args.channel ++ "/" ++ filename
  let dir ← mkdir host (messagesDir host args.channel)
  let queued ← lookTree fun t => pure (globJson dir t)
  let queueDepth := queued.length
  let seq := queueDepth + 1
  let payload : MessageFile :=
    { messageId, channel := args.channel, sender := args.sender, body := args.body
      correlationId := args.correlationId, sentAt := now, seq, replyTo := args.replyTo }
  atomicWrite host (messagesDir host args.channel ++ [.down filename]) (.message payload)
  pure
    { messageId, sentAt := now, seq
      backpressure := { queueDepth, threshold, overLimit := threshold ≤ queueDepth } }

/-- `messages` and `to_mark` of `recv`. -/
structure Drained where
  messages : List FileContent := []
  toMark : Dict Channel (List String) := .empty

/-- The files of one channel; one that cannot be read, or is no JSON, is passed over. -/
def drainFiles (read : String → Except FileError FileContent) (maxMessages : Int) (channel : Channel)
    (delivered : List String) (d : Drained) : List String → Drained
  | [] => d
  | fname :: files =>
    if maxMessages ≤ d.messages.length then d
    else if fname ∈ delivered then drainFiles read maxMessages channel delivered d files
    else
      let taken (content : FileContent) : Drained :=
        { messages := d.messages ++ [content]
          toMark := d.toMark.set channel (d.toMark.getD channel [] ++ [fname]) }
      match read fname with
      | .error _ => drainFiles read maxMessages channel delivered d files
      | .ok (.text _) => drainFiles read maxMessages channel delivered d files
      | .ok content => drainFiles read maxMessages channel delivered (taken content) files

def drainChannel (agentId : AgentId) (maxMessages : Int) (t : StoreTree) (d : Drained) (channel : Channel) :
    Except StoreError Drained := do
  let files ← listMessageFiles host channel t
  let delivered ← getDeliveredSet host channel agentId t
  pure (drainFiles (readMessage host channel t) maxMessages channel delivered d files)

/-- The messages among what was read; a list has no `channel`. -/
def messagesOf : List FileContent → Except StoreError (List MessageFile)
  | [] => pure []
  | .message m :: rest => do
    let ms ← messagesOf rest
    pure (m :: ms)
  | _ :: _ => throw .wrongType

def recv (agentId : AgentId) (channels : Option (List Channel)) (maxMessages : Int) :
    StoreM (List MessageFile) := do
  let patterns ← lookTree (getPatterns host agentId)
  let targets ← match channels with
    | none => do
      let known ← lookTree (knownChannels host)
      pure (known.filter (FilesystemStore.matchesAny · patterns))
    | some cs => pure cs
  let d ← lookTree fun t => targets.foldlM (drainChannel host agentId maxMessages t) {}
  d.toMark.entries.forM fun e => markDelivered host e.1 agentId e.2
  let messages ← lookTree fun _ => messagesOf d.messages
  pure (FilesystemStore.sortByTime messages)

def subscribe (agentId : AgentId) (pattern : Pattern) : StoreM (List Channel) := do
  let patterns ← lookTree (getPatterns host agentId)
  if pattern ∉ patterns then
    atomicWrite host (subscriptionsFile host agentId) (.names (patterns ++ [pattern]))
  let known ← lookTree (knownChannels host)
  pure (known.filter (Glob.fnmatchcase · pattern))

/-- One channel of `unsubscribe`; the result is what was cleared. -/
def clearChannel (agentId : AgentId) (channel : Channel) : StoreM Nat := do
  let delivered ← lookTree (getDeliveredSet host channel agentId)
  let files ← lookTree (listMessageFiles host channel)
  let toMark := files.filter (· ∉ delivered)
  if !toMark.isEmpty then
    markDelivered host channel agentId toMark
  pure toMark.length

def clearChannels (agentId : AgentId) : List Channel → StoreM Nat
  | [] => pure 0
  | channel :: rest => do
    let cleared ← clearChannel host agentId channel
    let more ← clearChannels agentId rest
    pure (cleared + more)

def unsubscribe (agentId : AgentId) (patterns : List Pattern) : StoreM (List Pattern × Nat) := do
  let existing ← lookTree (getPatterns host agentId)
  let removed := existing.filter (· ∈ patterns)
  if removed.isEmpty then pure (removed, 0)
  else
    atomicWrite host (subscriptionsFile host agentId) (.names (existing.filter (· ∉ patterns)))
    let known ← lookTree (knownChannels host)
    let pendingCleared ← clearChannels host agentId (known.filter (FilesystemStore.matchesAny · removed))
    pure (removed, pendingCleared)

/-- The bounds are those of `seq`; a list among the files has none. -/
def replay (channel : Channel) (since : Int) (untilSeq : Option Int) (limit : Int) (t : StoreTree) :
    Except StoreError (List MessageFile × Bool) := do
  let files ← listMessageFiles host channel t
  let read := files.filterMap fun fname =>
    match readMessage host channel t fname with
    | .error _ => none
    | .ok (.text _) => none
    | .ok content => some content
  let messages ← messagesOf read
  let inRange := messages.filter fun m =>
    decide (since ≤ m.seq) && untilSeq.all fun u => decide ((m.seq : Int) ≤ u)
  let sorted := inRange.insertionSort fun m n => m.seq < n.seq ∨ m.seq = n.seq ∧ m.messageId ≤ n.messageId
  pure (sliceTo limit sorted, limit < sorted.length)

def heartbeat (now sendNow : ℚ) (uuid : Uuid) (agentId : AgentId) (status : String) (ttl : Option Int) :
    StoreM HeartbeatReceipt := do
  let expiresAt := now + effectiveTtl ttl
  remember fun s =>
    let ns := (s.liveness.get? agentId).bind (·.ns)
    { s with liveness := s.liveness.set agentId { status, recordedAt := now, expiresAt, ns } }
  let _ ← send host sendNow (presenceArgs agentId status now) uuid
  pure { agentId, status, recordedAt := now, expiresAt }

def groupCreate (now : ℚ) (creatorId : AgentId) (groupId : Option String) : StoreM GroupCreated := do
  let fullId := fullGroupId now groupId
  remember fun s =>
    { s with groups := s.groups.set fullId [{ agentId := creatorId, status := .active, joinedAt := now }] }
  let _ ← subscribe host creatorId fullId
  pure { groupId := fullId, createdAt := now }

def groupInvite (now : ℚ) (inviterId : AgentId) (groupId : String) (inviteeId : AgentId) :
    StoreM GroupInvited := do
  let members ← Effect.look fun s => pure (s.groups.getD groupId [])
  if isActiveMember inviterId members then
    remember fun s => { s with groups := s.groups.set groupId (inviteMember now inviteeId members) }
    pure { agentId := inviteeId, invitedAt := now }
  else throw (.value (notActiveError inviterId groupId))

/-- Joining a group that does not exist subscribes without storing any member. -/
def groupJoin (now : ℚ) (agentId : AgentId) (groupId : String) : StoreM GroupJoined := do
  let members ← Effect.look fun s => pure (acceptInvite now agentId (s.groups.getD groupId []))
  remember fun s =>
    if (s.groups.get? groupId).isSome then { s with groups := s.groups.set groupId members } else s
  let _ ← subscribe host agentId groupId
  pure { groupId, memberCount := activeCount members, joinedAt := now }

def groupLeave (now : ℚ) (agentId : AgentId) (groupId : String) : StoreM GroupLeft := do
  remember fun s =>
    { s with groups := s.groups.set groupId ((s.groups.getD groupId []).filter (·.agentId != agentId)) }
  let existing ← lookTree (getPatterns host agentId)
  atomicWrite host (subscriptionsFile host agentId) (.names (existing.filter (· != groupId)))
  pure { groupId, leftAt := now }

end PathStore

end Sox
