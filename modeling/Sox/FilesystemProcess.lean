import Sox.FilesystemPaths
import Sox.ListChannels

/-!
# The store of one process

`FilesystemProcess` is `FilesystemStore` with what the class keeps in memory: acknowledgements, liveness
and groups. The three stores have this control plane in common. `ControlPlane` is the machine they all run
(`Refines`): whatever else happens, they give the same answers about acknowledgements, presence and groups.
-/

namespace Sox

/-! ### The machine -/

structure ControlPlane where
  ackRecords : Dict String AckRecord := .empty
  liveness : Dict AgentId Liveness := .empty
  groups : Dict String (List Member) := .empty

inductive ControlReply where
  | acked (receipt : AckReceipt)
  | beat (receipt : HeartbeatReceipt)
  | created (group : GroupCreated)
  | invited (invitation : GroupInvited)
  | joined (membership : GroupJoined)
  | left (group : GroupLeft)

namespace ControlPlane

/-- What the operation says about the control plane, if it is one of its operations. -/
def step (p : ControlPlane) : StoreOp → Option (Except String ControlReply) × ControlPlane
  | .ack now agentId messageId status reason =>
    (some (.ok (.acked { messageId, status, ackedAt := now })),
      { p with ackRecords := p.ackRecords.set messageId { agentId, status, reason, ackedAt := now } })
  | .heartbeat now _ agentId status ttl =>
    let expiresAt := now + effectiveTtl ttl
    let ns := (p.liveness.get? agentId).bind (·.ns)
    (some (.ok (.beat { agentId, status, recordedAt := now, expiresAt })),
      { p with liveness := p.liveness.set agentId { status, recordedAt := now, expiresAt, ns } })
  | .groupCreate now creatorId groupId =>
    let fullId := fullGroupId now groupId
    (some (.ok (.created { groupId := fullId, createdAt := now })),
      { p with groups := p.groups.set fullId [{ agentId := creatorId, status := .active, joinedAt := now }] })
  | .groupInvite now inviterId groupId inviteeId =>
    let members := p.groups.getD groupId []
    if isActiveMember inviterId members then
      (some (.ok (.invited { agentId := inviteeId, invitedAt := now })),
        { p with groups := p.groups.set groupId (inviteMember now inviteeId members) })
    else (some (.error (notActiveError inviterId groupId)), p)
  | .groupJoin now agentId groupId =>
    let members := acceptInvite now agentId (p.groups.getD groupId [])
    let groups := if (p.groups.get? groupId).isSome then p.groups.set groupId members else p.groups
    (some (.ok (.joined { groupId, memberCount := activeCount members, joinedAt := now })), { p with groups })
  | .groupLeave now agentId groupId =>
    (some (.ok (.left { groupId, leftAt := now })),
      { p with groups := p.groups.set groupId ((p.groups.getD groupId []).filter (·.agentId != agentId)) })
  | _ => (none, p)

/-- The agents by the time of their first heartbeat. -/
def listAgents (now : ℚ) (statusFilter : Option (List String)) (ns : Option String) (p : ControlPlane) :
    List AgentEntry :=
  p.liveness.entries.filterMap fun (agentId, live) =>
    let presence := presenceOf live.status live.expiresAt now
    if ns.isSome && live.ns != ns then none
    else if statusFilter.any fun f => !f.contains presence then none
    else some
      { agentId, presenceState := presence
        lastHeartbeatAt := Json.truncate (live.recordedAt * 1000000000), ns := live.ns }

def groupListMembers (groupId : String) (p : ControlPlane) : List Member := p.groups.getD groupId []

def after (ops : List StoreOp) (p : ControlPlane) : ControlPlane := ops.foldl (fun p op => (p.step op).2) p

def replies : List StoreOp → ControlPlane → List (Option (Except String ControlReply))
  | [], _ => []
  | op :: ops, p => (p.step op).1 :: replies ops (p.step op).2

end ControlPlane

/-! ### The filesystem store -/

structure FilesystemProcess where
  files : FilesystemStore := {}
  ackRecords : Dict String AckRecord := .empty
  liveness : Dict AgentId Liveness := .empty
  groups : Dict String (List Member) := .empty

inductive FileReply where
  | sent (receipt : FileReceipt)
  | messages (messages : List MessageFile)
  | channels (channels : List Channel)
  | removed (patterns : List Pattern) (pendingCleared : Nat)
  | control (reply : ControlReply)

/-- The messages of a channel between the bounds, by `(seq, message_id)`. -/
def FilesystemStore.replay (channel : Channel) (since : Int) (untilSeq : Option Int) (limit : Int)
    (s : FilesystemStore) : List MessageFile × Bool :=
  let inRange := ((s.listMessageFiles channel).map (·.2)).filter fun m =>
    decide (since ≤ m.seq) && untilSeq.all fun u => decide ((m.seq : Int) ≤ u)
  let sorted := inRange.insertionSort fun m n => m.seq < n.seq ∨ m.seq = n.seq ∧ m.messageId ≤ n.messageId
  (sliceTo limit sorted, decide (limit < sorted.length))

namespace FilesystemProcess

def init : FilesystemProcess := {}

def ack (now : ℚ) (agentId : AgentId) (messageId status : String) (reason : Option String)
    (s : FilesystemProcess) : AckReceipt × FilesystemProcess :=
  ({ messageId, status, ackedAt := now },
    { s with ackRecords := s.ackRecords.set messageId { agentId, status, reason, ackedAt := now } })

/-- The liveness record is set before the presence message is sent. -/
def heartbeat (now sendNow : ℚ) (uuid : Uuid) (agentId : AgentId) (status : String) (ttl : Option Int)
    (s : FilesystemProcess) : HeartbeatReceipt × FilesystemProcess :=
  let expiresAt := now + effectiveTtl ttl
  let ns := (s.liveness.get? agentId).bind (·.ns)
  ({ agentId, status, recordedAt := now, expiresAt },
    { s with
      liveness := s.liveness.set agentId { status, recordedAt := now, expiresAt, ns }
      files := (s.files.send sendNow (presenceArgs agentId status now) uuid).2 })

def listAgents (now : ℚ) (statusFilter : Option (List String)) (ns : Option String) (s : FilesystemProcess) :
    List AgentEntry :=
  s.liveness.entries.filterMap fun (agentId, live) =>
    let presence := presenceOf live.status live.expiresAt now
    if ns.isSome && live.ns != ns then none
    else if statusFilter.any fun f => !f.contains presence then none
    else some
      { agentId, presenceState := presence
        lastHeartbeatAt := Json.truncate (live.recordedAt * 1000000000), ns := live.ns }

def groupCreate (ls : DirListing) (now : ℚ) (creatorId : AgentId) (groupId : Option String)
    (s : FilesystemProcess) : GroupCreated × FilesystemProcess :=
  let fullId := fullGroupId now groupId
  ({ groupId := fullId, createdAt := now },
    { s with
      groups := s.groups.set fullId [{ agentId := creatorId, status := .active, joinedAt := now }]
      files := (s.files.subscribe ls creatorId fullId).2 })

def groupInvite (now : ℚ) (inviterId : AgentId) (groupId : String) (inviteeId : AgentId)
    (s : FilesystemProcess) : Except String GroupInvited × FilesystemProcess :=
  let members := s.groups.getD groupId []
  if isActiveMember inviterId members then
    (.ok { agentId := inviteeId, invitedAt := now },
      { s with groups := s.groups.set groupId (inviteMember now inviteeId members) })
  else (.error (notActiveError inviterId groupId), s)

/-- Joining a group that does not exist subscribes without storing any member. -/
def groupJoin (ls : DirListing) (now : ℚ) (agentId : AgentId) (groupId : String) (s : FilesystemProcess) :
    GroupJoined × FilesystemProcess :=
  let members := acceptInvite now agentId (s.groups.getD groupId [])
  let groups := if (s.groups.get? groupId).isSome then s.groups.set groupId members else s.groups
  ({ groupId, memberCount := activeCount members, joinedAt := now },
    { s with groups, files := (s.files.subscribe ls agentId groupId).2 })

def groupLeave (now : ℚ) (agentId : AgentId) (groupId : String) (s : FilesystemProcess) :
    GroupLeft × FilesystemProcess :=
  ({ groupId, leftAt := now },
    { s with
      groups := s.groups.set groupId ((s.groups.getD groupId []).filter (·.agentId != agentId))
      files := s.files.groupLeave agentId groupId })

def groupListMembers (_agentId : AgentId) (groupId : String) (s : FilesystemProcess) : List Member :=
  s.groups.getD groupId []

/-- One call. An error is that of `group_invite`. -/
def perform (k : HostedOp) (s : FilesystemProcess) : Except StoreError FileReply × FilesystemProcess :=
  match k.op with
  | .send now args =>
    let r := s.files.send now args k.uuid
    (.ok (.sent r.1), { s with files := r.2 })
  | .recv a channels max =>
    let r := s.files.recv k.ls a channels max
    (.ok (.messages r.1), { s with files := r.2 })
  | .subscribe a p =>
    let r := s.files.subscribe k.ls a p
    (.ok (.channels r.1), { s with files := r.2 })
  | .unsubscribe a ps =>
    let r := s.files.unsubscribe k.ls a ps
    (.ok (.removed r.1.1 r.1.2), { s with files := r.2 })
  | .ack now a mid status reason =>
    let r := s.ack now a mid status reason
    (.ok (.control (.acked r.1)), r.2)
  | .heartbeat now sendNow a status ttl =>
    let r := s.heartbeat now sendNow k.uuid a status ttl
    (.ok (.control (.beat r.1)), r.2)
  | .groupCreate now a gid =>
    let r := s.groupCreate k.ls now a gid
    (.ok (.control (.created r.1)), r.2)
  | .groupInvite now a gid b =>
    let r := s.groupInvite now a gid b
    ((r.1.mapError .value).map fun i => .control (.invited i), r.2)
  | .groupJoin now a gid =>
    let r := s.groupJoin k.ls now a gid
    (.ok (.control (.joined r.1)), r.2)
  | .groupLeave now a gid =>
    let r := s.groupLeave now a gid
    (.ok (.control (.left r.1)), r.2)

def after (calls : List HostedOp) (s : FilesystemProcess) : FilesystemProcess :=
  calls.foldl (fun s k => (s.perform k).2) s

/-- What the calls answer, one after another. -/
def replies : List HostedOp → FilesystemProcess → List (Except StoreError FileReply)
  | [], _ => []
  | k :: calls, s => (s.perform k).1 :: replies calls (s.perform k).2

/-- The calls do to the files what they do to a store of files alone. -/
theorem files_perform (k : HostedOp) (s : FilesystemProcess) : (s.perform k).2.files = k.apply s.files := by
  obtain ⟨op, ls, u⟩ := k
  cases op with
  | groupInvite now a g b =>
    simp only [perform, groupInvite]
    split <;> rfl
  | _ => rfl

theorem files_after (calls : List HostedOp) : (init.after calls).files = FilesystemStore.afterCalls calls := by
  induction calls using List.reverseRecOn with
  | nil => rfl
  | append_singleton calls k ih =>
    rw [after, List.foldl_append, FilesystemStore.afterCalls, List.foldl_append, ← FilesystemStore.afterCalls,
      ← ih]
    exact files_perform k _

end FilesystemProcess

/-! ### The three stores run it -/

/-- What an operation answers about the control plane. -/
def BackingStore.controlReply {σ : Type} (B : BackingStore σ) : StoreOp → σ → Option (Except String ControlReply)
  | .ack now a mid status reason, s => some (.ok (.acked (B.ack now a mid status reason s).1))
  | .heartbeat now sendNow a status ttl, s => some (.ok (.beat (B.heartbeat now sendNow a status ttl s).1))
  | .groupCreate now a gid, s => some (.ok (.created (B.groupCreate now a gid s).1))
  | .groupInvite now a gid b, s => some ((B.groupInvite now a gid b s).1.map .invited)
  | .groupJoin now a gid, s => some (.ok (.joined (B.groupJoin now a gid s).1))
  | .groupLeave now a gid, s => some (.ok (.left (B.groupLeave now a gid s).1))
  | _, _ => none

def FilesystemProcess.controlReply (k : HostedOp) (s : FilesystemProcess) : Option (Except String ControlReply) :=
  match (s.perform k).1 with
  | .ok (.control reply) => some (.ok reply)
  | .error (.value text) => some (.error text)
  | _ => none

/-- Calls `κ` that each make one operation. -/
structure ControlView (σ κ : Type) where
  op : κ → StoreOp
  apply : κ → σ → σ
  reply : κ → σ → Option (Except String ControlReply)
  plane : σ → ControlPlane
  listAgents : ℚ → Option (List String) → Option String → σ → List AgentEntry
  members : AgentId → String → σ → List Member

namespace ControlView

variable {σ κ : Type} (V : ControlView σ κ)

def after (calls : List κ) (s : σ) : σ := calls.foldl (fun s k => V.apply k s) s

def replies : List κ → σ → List (Option (Except String ControlReply))
  | [], _ => []
  | k :: calls, s => V.reply k s :: replies calls (V.apply k s)

/-- Every call does to the plane what the machine does, and the queries are those of the machine. -/
structure Refines : Prop where
  reply : ∀ k s, V.reply k s = ((V.plane s).step (V.op k)).1
  plane : ∀ k s, V.plane (V.apply k s) = ((V.plane s).step (V.op k)).2
  listAgents : ∀ now status ns s, V.listAgents now status ns s = (V.plane s).listAgents now status ns
  members : ∀ a g s, V.members a g s = (V.plane s).groupListMembers g

variable {V}

theorem Refines.run (h : V.Refines) (calls : List κ) (s : σ) :
    V.replies calls s = ControlPlane.replies (calls.map V.op) (V.plane s) ∧
      V.plane (V.after calls s) = (V.plane s).after (calls.map V.op) := by
  induction calls generalizing s with
  | nil => exact ⟨rfl, rfl⟩
  | cons k calls ih =>
    obtain ⟨hreplies, hplane⟩ := ih (V.apply k s)
    rw [h.plane] at hreplies hplane
    exact ⟨congrArg₂ List.cons (h.reply k s) hreplies, hplane⟩

end ControlView

/-- The control plane of a store that is run with the operations themselves. -/
def BackingStore.controlView {σ : Type} (B : BackingStore σ) (plane : σ → ControlPlane) : ControlView σ StoreOp where
  op := id
  apply := B.apply
  reply := B.controlReply
  plane
  listAgents := B.listAgents
  members := B.groupListMembers

def MemoryStore.plane (s : MemoryStore) : ControlPlane := ⟨s.ackRecords, s.liveness, s.groups⟩

/-- The liveness table is in the database, the others are in the process. -/
def SqliteStore.plane (s : SqliteStore) : ControlPlane := ⟨s.ackRecords, s.db.liveness, s.groups⟩

def FilesystemProcess.plane (s : FilesystemProcess) : ControlPlane := ⟨s.ackRecords, s.liveness, s.groups⟩

def FilesystemProcess.controlView : ControlView FilesystemProcess HostedOp where
  op := HostedOp.op
  apply k s := (s.perform k).2
  reply := FilesystemProcess.controlReply
  plane := FilesystemProcess.plane
  listAgents := FilesystemProcess.listAgents
  members := FilesystemProcess.groupListMembers

/-- What an invitation comes to, by the table that is looked at. -/
theorem ControlPlane.step_invite {p : ControlPlane} {now : ℚ} {a b : AgentId} {g : String} :
    p.step (.groupInvite now a g b) = if isActiveMember a (p.groups.getD g []) then
      (some (.ok (.invited { agentId := b, invitedAt := now })),
        { p with groups := p.groups.set g (inviteMember now b (p.groups.getD g [])) })
    else (some (.error (notActiveError a g)), p) := rfl

theorem MemoryStore.plane_groupInvite {s : MemoryStore} {now : ℚ} {a b : AgentId} {g : String} :
    (some ((s.groupInvite now a g b).1.map .invited), plane (s.groupInvite now a g b).2) =
      (plane s).step (.groupInvite now a g b) := by
  rw [ControlPlane.step_invite, groupInvite]
  by_cases h : isActiveMember a (s.groups.getD g []) = true
  · simp [plane, h, Except.map]
  · simp [plane, h, Except.map]

theorem MemoryStore.refines_plane : (memoryStore.controlView plane).Refines where
  reply op s := by
    cases op with
    | groupInvite now a g b => exact congrArg Prod.fst plane_groupInvite
    | _ => rfl
  plane op s := by
    cases op with
    | groupInvite now a g b => exact congrArg Prod.snd plane_groupInvite
    | _ => rfl
  listAgents _ _ _ _ := rfl
  members _ _ _ := rfl

/-- `WHERE namespace = ?` in the query is the test of the other stores. -/
theorem SqliteDb.listAgents_eq (now : ℚ) (status : Option (List String)) (ns : Option String) (db : SqliteDb) :
    db.listAgents now status ns = ControlPlane.listAgents now status ns ⟨.empty, db.liveness, .empty⟩ := by
  unfold SqliteDb.listAgents ControlPlane.listAgents
  rw [List.filterMap_filter]
  refine List.filterMap_congr fun row _ => ?_
  obtain ⟨agentId, live⟩ := row
  cases ns with
  | none => rfl
  | some n =>
    by_cases h : live.ns = some n
    · simp [h]
    · simp [h]

namespace SqliteDb

variable {db : SqliteDb} {a : AgentId}

theorem liveness_markAll (rows : List StoredMessage) : (rows.foldl (markRow a) db).liveness = db.liveness := by
  induction rows generalizing db with
  | nil => rfl
  | cons row rows ih => exact ih

theorem liveness_recv (channels : Option (List Channel)) (max : Int) :
    (db.recv a channels max).2.liveness = db.liveness := by
  unfold recv
  generalize (if channels.isNone then db.patternsFor a else []) = patterns
  dsimp only
  split
  · rfl
  · exact liveness_markAll _

theorem liveness_deleteAll (ps : List Pattern) :
    (ps.foldl (fun db p => db.deleteSubscription a p) db).liveness = db.liveness := by
  induction ps generalizing db with
  | nil => rfl
  | cons p ps ih => exact ih

theorem liveness_clearRows (removed : List Pattern) (rows : List StoredMessage) :
    (clearRows a removed rows db).2.liveness = db.liveness := by
  unfold clearRows
  generalize 0 = cleared
  induction rows generalizing db cleared with
  | nil => rfl
  | cons row rows ih =>
    rw [List.foldl_cons]
    dsimp only
    split
    · exact ih _
    · exact ih _

theorem liveness_unsubscribe (ps : List Pattern) : (db.unsubscribe a ps).2.liveness = db.liveness := by
  unfold unsubscribe
  dsimp only
  split
  · rfl
  · exact (liveness_clearRows _ _).trans (liveness_deleteAll _)

theorem liveness_insertSubscription (p : Pattern) : (db.insertSubscription a p).liveness = db.liveness := by
  unfold insertSubscription
  split
  · rfl
  · rfl

end SqliteDb

theorem SqliteStore.plane_groupInvite {s : SqliteStore} {now : ℚ} {a b : AgentId} {g : String} :
    (some ((s.groupInvite now a g b).1.map .invited), plane (s.groupInvite now a g b).2) =
      (plane s).step (.groupInvite now a g b) := by
  rw [ControlPlane.step_invite, groupInvite]
  by_cases h : isActiveMember a (s.groups.getD g []) = true
  · simp [plane, h, Except.map]
  · simp [plane, h, Except.map]

theorem SqliteStore.refines_plane : (sqliteStore.controlView plane).Refines where
  reply op s := by
    cases op with
    | groupInvite now a g b => exact congrArg Prod.fst plane_groupInvite
    | _ => rfl
  plane op s := by
    cases op with
    | groupInvite now a g b => exact congrArg Prod.snd plane_groupInvite
    | recv a channels max =>
      exact congrArg (ControlPlane.mk s.ackRecords · s.groups) (SqliteDb.liveness_recv channels max)
    | unsubscribe a ps =>
      exact congrArg (ControlPlane.mk s.ackRecords · s.groups) (SqliteDb.liveness_unsubscribe ps)
    | subscribe a p =>
      exact congrArg (ControlPlane.mk s.ackRecords · s.groups) (SqliteDb.liveness_insertSubscription p)
    | groupCreate now a gid =>
      exact congrArg (ControlPlane.mk s.ackRecords · _) (SqliteDb.liveness_insertSubscription _)
    | groupJoin now a g =>
      exact congrArg (ControlPlane.mk s.ackRecords · _) (SqliteDb.liveness_insertSubscription g)
    | _ => rfl
  listAgents now status ns s := SqliteDb.listAgents_eq now status ns s.db
  members _ _ _ := rfl

theorem FilesystemProcess.plane_groupInvite {s : FilesystemProcess} {now : ℚ} {a b : AgentId} {g : String}
    (ls : DirListing) (u : Uuid) :
    (s.controlReply ⟨.groupInvite now a g b, ls, u⟩, plane (s.groupInvite now a g b).2) =
      (plane s).step (.groupInvite now a g b) := by
  rw [ControlPlane.step_invite, controlReply, perform]
  dsimp only
  rw [groupInvite]
  by_cases h : isActiveMember a (s.groups.getD g []) = true
  · simp [plane, h, Except.map, Except.mapError]
  · simp [plane, h, Except.map, Except.mapError]

theorem FilesystemProcess.refines_plane : controlView.Refines where
  reply k s := by
    obtain ⟨op, ls, u⟩ := k
    cases op with
    | groupInvite now a g b => exact congrArg Prod.fst (plane_groupInvite ls u)
    | _ => rfl
  plane k s := by
    obtain ⟨op, ls, u⟩ := k
    cases op with
    | groupInvite now a g b => exact congrArg Prod.snd (plane_groupInvite ls u)
    | _ => rfl
  listAgents _ _ _ _ := rfl
  members _ _ _ := rfl

/-- Whatever calls are made, in the same order on each store: the answers about acknowledgements, presence and
groups are the same, and so are what the queries tell afterwards and the records of the acknowledgements. -/
theorem control_planes_agree (calls : List HostedOp) :
    let ops := calls.map (·.op)
    let memory := memoryStore.controlView MemoryStore.plane
    let sqlite := sqliteStore.controlView SqliteStore.plane
    let files := FilesystemProcess.controlView
    (memory.replies ops .init = sqlite.replies ops .init ∧ memory.replies ops .init = files.replies calls .init) ∧
    (∀ now status ns,
      memoryStore.listAgents now status ns (memoryStore.applyAll ops .init) =
        sqliteStore.listAgents now status ns (sqliteStore.applyAll ops .init) ∧
      memoryStore.listAgents now status ns (memoryStore.applyAll ops .init) =
        (FilesystemProcess.init.after calls).listAgents now status ns) ∧
    (∀ a g, memoryStore.groupListMembers a g (memoryStore.applyAll ops .init) =
        sqliteStore.groupListMembers a g (sqliteStore.applyAll ops .init) ∧
      memoryStore.groupListMembers a g (memoryStore.applyAll ops .init) =
        (FilesystemProcess.init.after calls).groupListMembers a g) ∧
    (memoryStore.applyAll ops .init).ackRecords = (sqliteStore.applyAll ops .init).ackRecords ∧
    (memoryStore.applyAll ops .init).ackRecords = (FilesystemProcess.init.after calls).ackRecords := by
  intro ops memory sqlite files
  obtain ⟨hmemory, hmplane⟩ := MemoryStore.refines_plane.run ops .init
  obtain ⟨hsqlite, hsplane⟩ := SqliteStore.refines_plane.run ops .init
  obtain ⟨hfiles, hfplane⟩ := FilesystemProcess.refines_plane.run calls .init
  rw [show ops.map (memoryStore.controlView MemoryStore.plane).op = ops from List.map_id ops] at hmemory hmplane
  rw [show ops.map (sqliteStore.controlView SqliteStore.plane).op = ops from List.map_id ops] at hsqlite hsplane
  have hms : MemoryStore.plane (memoryStore.applyAll ops .init) = SqliteStore.plane (sqliteStore.applyAll ops .init) :=
    hmplane.trans hsplane.symm
  have hmf : MemoryStore.plane (memoryStore.applyAll ops .init) = (FilesystemProcess.init.after calls).plane :=
    hmplane.trans hfplane.symm
  refine ⟨⟨hmemory.trans hsqlite.symm, hmemory.trans hfiles.symm⟩, fun now status ns => ⟨?_, ?_⟩,
    fun a g => ⟨?_, ?_⟩, congrArg ControlPlane.ackRecords hms, congrArg ControlPlane.ackRecords hmf⟩
  · exact (MemoryStore.refines_plane.listAgents now status ns _).trans
      ((congrArg _ hms).trans (SqliteStore.refines_plane.listAgents now status ns _).symm)
  · exact (MemoryStore.refines_plane.listAgents now status ns _).trans
      ((congrArg _ hmf).trans (FilesystemProcess.refines_plane.listAgents now status ns _).symm)
  · exact (MemoryStore.refines_plane.members a g _).trans
      ((congrArg _ hms).trans (SqliteStore.refines_plane.members a g _).symm)
  · exact (MemoryStore.refines_plane.members a g _).trans
      ((congrArg _ hmf).trans (FilesystemProcess.refines_plane.members a g _).symm)

end Sox
