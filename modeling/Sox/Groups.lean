import Sox.Lib.System
import Sox.MemoryInv
import Sox.SqliteInv

/-!
# Groups

A store keeps a group in two places: the members in a table in memory, and the group's id among the
patterns of the agents it is delivered to. `GroupView` reads both from a store and `GroupView.Lawful`
says what the four operations do to them. `group_join` subscribes whoever calls it, and `group_create`
replaces the table of a group that exists, so the two agree exactly as long as who joins is in the table
and nobody re-creates a group in which others are active (`Admitted`).
-/

namespace Sox

/-- The calls that change groups. -/
inductive GroupOp where
  | create (now : ℚ) (creatorId : AgentId) (groupId : Option String)
  | invite (now : ℚ) (inviterId : AgentId) (groupId : String) (inviteeId : AgentId)
  | join (now : ℚ) (agentId : AgentId) (groupId : String)
  | leave (now : ℚ) (agentId : AgentId) (groupId : String)

namespace GroupOp

def caller : GroupOp → AgentId
  | .create _ creatorId _ => creatorId
  | .invite _ inviterId _ _ => inviterId
  | .join _ agentId _ => agentId
  | .leave _ agentId _ => agentId

def toStoreOp : GroupOp → StoreOp
  | .create now creatorId groupId => .groupCreate now creatorId groupId
  | .invite now inviterId groupId inviteeId => .groupInvite now inviterId groupId inviteeId
  | .join now agentId groupId => .groupJoin now agentId groupId
  | .leave now agentId groupId => .groupLeave now agentId groupId

end GroupOp

/-- The two places. -/
structure GroupView (σ : Type) where
  members : σ → String → List Member
  patterns : σ → AgentId → List Pattern

namespace GroupView

variable {σ : Type} (B : BackingStore σ) (X : GroupView σ)

def system : ActionSystem σ GroupOp := ⟨fun s op => some (B.apply op.toStoreOp s)⟩

structure Lawful : Prop where
  create : ∀ now a gid s, let g := fullGroupId now gid
    X.members (B.groupCreate now a gid s).2 =
      Function.update (X.members s) g [{ agentId := a, status := .active, joinedAt := now }] ∧
    ∀ b p, p ∈ X.patterns (B.groupCreate now a gid s).2 b ↔ p ∈ X.patterns s b ∨ (b = a ∧ p = g)
  invite : ∀ now a g b s,
    X.members (B.groupInvite now a g b s).2 = (if isActiveMember a (X.members s g) then
      Function.update (X.members s) g (inviteMember now b (X.members s g)) else X.members s) ∧
    X.patterns (B.groupInvite now a g b s).2 = X.patterns s
  join : ∀ now a g s,
    X.members (B.groupJoin now a g s).2 =
      Function.update (X.members s) g (acceptInvite now a (X.members s g)) ∧
    ∀ b p, p ∈ X.patterns (B.groupJoin now a g s).2 b ↔ p ∈ X.patterns s b ∨ (b = a ∧ p = g)
  leave : ∀ now a g s,
    X.members (B.groupLeave now a g s).2 =
      Function.update (X.members s) g ((X.members s g).filter (·.agentId != a)) ∧
    ∀ b p, p ∈ X.patterns (B.groupLeave now a g s).2 b ↔ p ∈ X.patterns s b ∧ ¬(b = a ∧ p = g)

/-- A group's id, as `group_create` assigns it. -/
def IsGroupId (g : String) : Prop := ∃ bare, g = "group/" ++ bare

def Active (s : σ) (a : AgentId) (g : String) : Prop := isActiveMember a (X.members s g) = true

/-- An agent is subscribed to a group exactly when it is an active member. -/
def Agree (s : σ) : Prop := ∀ a g, IsGroupId g → (g ∈ X.patterns s a ↔ X.Active s a g)

/-- What the call did: the two places agree, who became active by joining had been invited, and nobody
else's active membership ended. -/
structure Controlled (s : σ) (op : GroupOp) (s' : σ) : Prop where
  agree : X.Agree s'
  joined : ∀ now a g, op = .join now a g → ∀ b h, X.Active s' b h → ¬X.Active s b h →
    b = a ∧ h = g ∧ ∃ m ∈ X.members s g, m.agentId = a ∧ m.status = .invited
  kept : ∀ b h, b ≠ op.caller → X.Active s b h → X.Active s' b h

/-- Who joins is in the group's table, and no other active members are in the table of the group that
is created. -/
def Admitted (s : σ) : GroupOp → Prop
  | .create now a gid => ∀ m ∈ X.members s (fullGroupId now gid), m.status = .active → m.agentId = a
  | .join _ a g => IsGroupId g → ∃ m ∈ X.members s g, m.agentId = a
  | _ => True

/-- No group yet, and nobody subscribed to one. -/
def Fresh (s : σ) : Prop := (∀ g, X.members s g = []) ∧ ∀ a g, IsGroupId g → g ∉ X.patterns s a

end GroupView

/-! ### Tables -/

section
variable {a b : AgentId} {now : ℚ} {members : List Member}

theorem isActiveMember_iff :
    isActiveMember a members = true ↔ ∃ m ∈ members, m.agentId = a ∧ m.status = .active := by
  simp [isActiveMember]

theorem isActiveMember_cons {m : Member} : isActiveMember a (m :: members) = true ↔
    (m.agentId = a ∧ m.status = .active) ∨ isActiveMember a members = true := by
  simp [isActiveMember]

theorem isActiveMember_invite :
    isActiveMember a (inviteMember now b members) = isActiveMember a members := by
  unfold inviteMember
  split
  · rfl
  · simp [isActiveMember]

theorem isActiveMember_filter :
    isActiveMember b (members.filter (·.agentId != a)) = true ↔
      isActiveMember b members = true ∧ b ≠ a := by
  rw [isActiveMember_iff, isActiveMember_iff]
  constructor
  · rintro ⟨m, hm, hid, hstatus⟩
    obtain ⟨hm, hne⟩ := List.mem_filter.1 hm
    refine ⟨⟨m, hm, hid, hstatus⟩, ?_⟩
    rintro rfl
    simp [hid] at hne
  · rintro ⟨⟨m, hm, hid, hstatus⟩, hne⟩
    refine ⟨m, List.mem_filter.2 ⟨hm, ?_⟩, hid, hstatus⟩
    rw [hid]
    simpa using hne

/-- Accepting makes the agent active where it had been invited, and nobody else. -/
theorem isActiveMember_accept :
    isActiveMember b (acceptInvite now a members) = true ↔
      isActiveMember b members = true ∨ (b = a ∧ ∃ m ∈ members, m.agentId = a ∧ m.status = .invited) := by
  induction members with
  | nil => simp [acceptInvite, isActiveMember]
  | cons m rest ih =>
    rw [isActiveMember_cons, List.exists_mem_cons_iff, acceptInvite]
    split
    · rename_i hm
      obtain ⟨hid, hstatus⟩ := hm
      have hinactive : m.status ≠ .active := by simp [hstatus]
      rw [isActiveMember_cons]
      constructor
      · rintro (⟨hb, -⟩ | hrest)
        · exact .inr ⟨hb.symm.trans hid, .inl ⟨hid, hstatus⟩⟩
        · exact .inl (.inr hrest)
      · rintro ((⟨-, hactive⟩ | hrest) | ⟨rfl, -⟩)
        · exact absurd hactive hinactive
        · exact .inr hrest
        · exact .inl ⟨hid, rfl⟩
    · rename_i hm
      rw [isActiveMember_cons, ih]
      constructor
      · rintro (hfirst | hrest | ⟨hb, hinv⟩)
        · exact .inl (.inl hfirst)
        · exact .inl (.inr hrest)
        · exact .inr ⟨hb, .inr hinv⟩
      · rintro ((hfirst | hrest) | ⟨hb, hinv | hinv⟩)
        · exact .inl hfirst
        · exact .inr (.inl hrest)
        · exact absurd hinv hm
        · exact .inr (.inr ⟨hb, hinv⟩)

end

namespace GroupView

variable {σ : Type} {B : BackingStore σ} {X : GroupView σ} {s s' : σ} {op : GroupOp} {a b : AgentId}
  {g h : String}

theorem active_iff : X.Active s a g ↔ ∃ m ∈ X.members s g, m.agentId = a ∧ m.status = .active :=
  isActiveMember_iff

/-! ### The calls -/

/-- A step that changes the table of `g` alone: what is active elsewhere stays so. -/
theorem active_of_update {rows : List Member} (hm : X.members s' = Function.update (X.members s) g rows) :
    X.Active s' b h ↔ if h = g then isActiveMember b rows = true else X.Active s b h := by
  unfold Active
  rw [hm]
  split
  · rename_i hh
    subst hh
    rw [Function.update_self]
  · rename_i hh
    rw [Function.update_of_ne hh]

theorem create_iff (hX : X.Lawful B) (hs : X.Agree s) (now : ℚ) (a : AgentId) (gid : Option String) :
    X.Admitted s (.create now a gid) ↔
      X.Controlled s (.create now a gid) (B.groupCreate now a gid s).2 := by
  obtain ⟨hm, hp⟩ := hX.create now a gid s
  have hact (b : AgentId) (h : String) := active_of_update (b := b) (h := h) hm
  have hsingle (b : AgentId) :
      isActiveMember b [{ agentId := a, status := .active, joinedAt := now }] = true ↔ b = a := by
    rw [isActiveMember_cons]
    constructor
    · rintro (⟨hb, -⟩ | hnone)
      · exact hb.symm
      · cases hnone
    · rintro rfl
      exact .inl ⟨rfl, rfl⟩
  constructor
  · intro hG
    -- no other agent is active in the group that is created
    have hothers {b : AgentId} (hb : X.Active s b (fullGroupId now gid)) : b = a := by
      obtain ⟨m, hmem, rfl, hstatus⟩ := active_iff.1 hb
      exact hG m hmem hstatus
    refine ⟨fun b h hh => ?_, by rintro _ _ _ ⟨⟩, fun b h hb hactive => ?_⟩
    · rw [hp, hact, hs b h hh]
      split
      · rename_i heq
        subst heq
        rw [hsingle]
        exact ⟨fun h => h.elim hothers And.left, fun h => .inr ⟨h, rfl⟩⟩
      · rename_i hne
        exact or_iff_left fun h => hne h.2
    · rw [hact]
      split
      · rename_i heq
        subst heq
        exact absurd (hothers hactive) hb
      · exact hactive
  · intro hC m hmem hstatus
    by_contra hne
    have hactive := hC.kept m.agentId _ hne (active_iff.2 ⟨m, hmem, rfl, hstatus⟩)
    rw [hact, if_pos rfl, hsingle] at hactive
    exact hne hactive

theorem invite_controlled (hX : X.Lawful B) (hs : X.Agree s) (now : ℚ) (a : AgentId) (g : String)
    (b : AgentId) : X.Controlled s (.invite now a g b) (B.groupInvite now a g b s).2 := by
  obtain ⟨hm, hp⟩ := hX.invite now a g b s
  have hact (c : AgentId) (h : String) :
      X.Active (B.groupInvite now a g b s).2 c h ↔ X.Active s c h := by
    split at hm
    · rw [active_of_update hm, isActiveMember_invite]
      split
      · rename_i heq
        subst heq
        exact Iff.rfl
      · exact Iff.rfl
    · rw [Active, Active, hm]
  refine ⟨fun c h hh => ?_, by rintro _ _ _ ⟨⟩, fun c h _ hactive => (hact c h).2 hactive⟩
  rw [hp, hact]
  exact hs c h hh

theorem join_iff (hX : X.Lawful B) (hs : X.Agree s) (now : ℚ) (a : AgentId) (g : String) :
    X.Admitted s (.join now a g) ↔ X.Controlled s (.join now a g) (B.groupJoin now a g s).2 := by
  obtain ⟨hm, hp⟩ := hX.join now a g s
  have hact (b : AgentId) (h : String) : X.Active (B.groupJoin now a g s).2 b h ↔
      X.Active s b h ∨ (b = a ∧ h = g ∧ ∃ m ∈ X.members s g, m.agentId = a ∧ m.status = .invited) := by
    rw [active_of_update hm, isActiveMember_accept]
    split
    · rename_i heq
      subst heq
      simp [Active]
    · rename_i hne
      exact (or_iff_left fun h => hne h.2.1).symm
  constructor
  · intro hG
    refine ⟨fun b h hh => ?_, ?_, fun b h _ hactive => (hact b h).2 (.inl hactive)⟩
    · rw [hp, hact, hs b h hh]
      refine or_congr_right' fun hinactive => ⟨?_, fun hb => ⟨hb.1, hb.2.1⟩⟩
      rintro ⟨rfl, rfl⟩
      obtain ⟨m, hmem, hid⟩ := hG hh
      refine ⟨rfl, rfl, m, hmem, hid, ?_⟩
      cases hstatus : m.status with
      | active => exact absurd (active_iff.2 ⟨m, hmem, hid, hstatus⟩) hinactive
      | invited => rfl
    · rintro _ _ _ ⟨⟩ b h hafter hbefore
      exact ((hact b h).1 hafter).resolve_left hbefore
  · intro hC hg
    -- the caller holds the pattern now, so it is active
    have hholds : g ∈ X.patterns (B.groupJoin now a g s).2 a := (hp a g).2 (.inr ⟨rfl, rfl⟩)
    rcases (hact a g).1 ((hC.agree a g hg).1 hholds) with hactive | ⟨-, -, m, hmem, hid, -⟩
    · obtain ⟨m, hmem, hid, -⟩ := active_iff.1 hactive
      exact ⟨m, hmem, hid⟩
    · exact ⟨m, hmem, hid⟩

theorem leave_controlled (hX : X.Lawful B) (hs : X.Agree s) (now : ℚ) (a : AgentId) (g : String) :
    X.Controlled s (.leave now a g) (B.groupLeave now a g s).2 := by
  obtain ⟨hm, hp⟩ := hX.leave now a g s
  have hact (b : AgentId) (h : String) :
      X.Active (B.groupLeave now a g s).2 b h ↔ X.Active s b h ∧ ¬(b = a ∧ h = g) := by
    rw [active_of_update hm, isActiveMember_filter]
    split
    · rename_i heq
      subst heq
      simp [Active]
    · rename_i hne
      exact (and_iff_left fun h => hne h.2).symm
  refine ⟨fun b h hh => ?_, by rintro _ _ _ ⟨⟩, fun b h hb hactive => ?_⟩
  · rw [hp, hact, hs b h hh]
  · exact (hact b h).2 ⟨hactive, fun h => hb h.1⟩

theorem step_iff (hX : X.Lawful B) (hs : X.Agree s) (hstep : (system B).step s op = some s') :
    X.Admitted s op ↔ X.Controlled s op s' := by
  obtain rfl : B.apply op.toStoreOp s = s' := Option.some.inj hstep
  cases op with
  | create now a gid => exact create_iff hX hs now a gid
  | invite now a g b => exact iff_of_true trivial (invite_controlled hX hs now a g b)
  | join now a g => exact join_iff hX hs now a g
  | leave now a g => exact iff_of_true trivial (leave_controlled hX hs now a g)

theorem Fresh.agree (hs : X.Fresh s) : X.Agree s := by
  intro a g hg
  refine iff_of_false (hs.2 a g hg) fun hactive => ?_
  obtain ⟨m, hmem, -⟩ := active_iff.1 hactive
  rw [hs.1 g] at hmem
  cases hmem

theorem run_controlled_iff (hX : X.Lawful B) (hs : X.Fresh s) {ops : List GroupOp}
    (hr : (system B).run s ops = some s') : (system B).Guarded X.Admitted s ops ↔
      ∀ ops' op u u', ops' ++ [op] <+: ops → (system B).run s ops' = some u →
        (system B).step u op = some u' → X.Controlled u op u' := by
  have hagree : X.Agree s := hs.agree
  refine ActionSystem.guarded_iff_steps ?_ hagree hr
  exact fun s op s' hs hstep => ⟨step_iff hX hs hstep, Controlled.agree⟩

end GroupView

/-! ### The two stores -/

/-- A group that does not exist has nobody to join it. -/
theorem getD_join (now : ℚ) (a : AgentId) (g : String) (groups : Dict String (List Member)) :
    (fun h => (if (groups.get? g).isSome then groups.set g (acceptInvite now a (groups.getD g []))
      else groups).getD h []) =
      Function.update (fun h => groups.getD h []) g (acceptInvite now a (groups.getD g [])) := by
  split
  · exact Dict.getD_set_eq_update
  · rename_i hg
    have hnone : groups.getD g [] = [] := by simp [Dict.getD, Option.not_isSome_iff_eq_none.1 hg]
    rw [hnone, acceptInvite, Function.update_eq_self_iff.2 hnone.symm]

/-- An invitation by an active member changes the group's table and no subscription. -/
theorem GroupView.invite_of_ite {σ : Type} {B : BackingStore σ} {X : GroupView σ} {now : ℚ} {a b : AgentId}
    {g : String} {s invited : σ} {p : Prop} [Decidable p] {yes no : Except String GroupInvited}
    {members : String → List Member}
    (hop : B.groupInvite now a g b s = if p then (yes, invited) else (no, s))
    (hmembers : X.members invited = members) (hpatterns : X.patterns invited = X.patterns s) :
    X.members (B.groupInvite now a g b s).2 = (if p then members else X.members s) ∧
      X.patterns (B.groupInvite now a g b s).2 = X.patterns s := by
  rw [hop]
  split
  · exact ⟨hmembers, hpatterns⟩
  · exact ⟨rfl, rfl⟩

namespace MemoryStore

def groupView : GroupView MemoryStore := ⟨fun s g => s.groups.getD g [], patternsFor⟩

variable {s : MemoryStore} {a b : AgentId}

theorem groupView_lawful : groupView.Lawful memoryStore where
  create now a gid s := by
    refine ⟨?_, fun b p => mem_patternsFor_addPattern⟩
    exact Dict.getD_set_eq_update
  invite now a g b s := GroupView.invite_of_ite rfl Dict.getD_set_eq_update rfl
  join now a g s := by
    refine ⟨?_, fun b p => mem_patternsFor_addPattern⟩
    exact getD_join now a g s.groups
  leave now a g s := by
    refine ⟨Dict.getD_set_eq_update, fun b p => ?_⟩
    show p ∈ (s.subscriptions.set a _).getD b [] ↔ _
    by_cases hb : b = a
    · subst hb
      rw [Dict.getD_set_self, List.mem_filter]
      simp [groupView]
    · rw [Dict.getD_set_of_ne hb]
      exact (and_iff_left fun h => hb h.1).symm

end MemoryStore

namespace SqliteStore

def groupView : GroupView SqliteStore := ⟨fun s g => s.groups.getD g [], fun s => s.db.patternsFor⟩

variable {db : SqliteDb} {a b : AgentId}

theorem groupView_lawful : groupView.Lawful sqliteStore where
  create now a gid s := ⟨Dict.getD_set_eq_update, fun b p => SqliteDb.mem_patternsFor_insertSubscription⟩
  invite now a g b s := GroupView.invite_of_ite rfl Dict.getD_set_eq_update rfl
  join now a g s := by
    refine ⟨?_, fun b p => SqliteDb.mem_patternsFor_insertSubscription⟩
    exact getD_join now a g s.groups
  leave now a g s := ⟨Dict.getD_set_eq_update, fun b p => SqliteDb.mem_patternsFor_deleteSubscription⟩

end SqliteStore

/-- In either store, from one without groups and group subscriptions: every call controls delivery as
the claim of membership says exactly when every call is admitted. -/
theorem group_membership_iff (ops : List GroupOp) (s s' : MemoryStore) (t t' : SqliteStore)
    (hs : MemoryStore.groupView.Fresh s) (hsr : (GroupView.system memoryStore).run s ops = some s')
    (ht : SqliteStore.groupView.Fresh t) (htr : (GroupView.system sqliteStore).run t ops = some t') :
    ((GroupView.system memoryStore).Guarded MemoryStore.groupView.Admitted s ops ↔
      ∀ ops' op u u', ops' ++ [op] <+: ops → (GroupView.system memoryStore).run s ops' = some u →
        (GroupView.system memoryStore).step u op = some u' → MemoryStore.groupView.Controlled u op u') ∧
    ((GroupView.system sqliteStore).Guarded SqliteStore.groupView.Admitted t ops ↔
      ∀ ops' op u u', ops' ++ [op] <+: ops → (GroupView.system sqliteStore).run t ops' = some u →
        (GroupView.system sqliteStore).step u op = some u' → SqliteStore.groupView.Controlled u op u') :=
  ⟨GroupView.run_controlled_iff MemoryStore.groupView_lawful hs hsr,
    GroupView.run_controlled_iff SqliteStore.groupView_lawful ht htr⟩

theorem MemoryStore.groupView_fresh : groupView.Fresh init := ⟨fun _ => rfl, fun _ _ _ => List.not_mem_nil⟩

theorem SqliteStore.groupView_fresh : groupView.Fresh init := ⟨fun _ => rfl, fun _ _ _ => List.not_mem_nil⟩

/-- alice creates a group and invites bob. -/
def bobInvited : List GroupOp := [.create 0 "alice" (some "g"), .invite 1 "alice" "group/g" "bob"]

def bobJoins : GroupOp := .join 2 "bob" "group/g"

/-- bob is subscribed when he has accepted. -/
theorem group_membership_accepted :
    ∃ u u' v v', (GroupView.system memoryStore).run MemoryStore.init bobInvited = some u ∧
      (GroupView.system memoryStore).step u bobJoins = some u' ∧
      (GroupView.system sqliteStore).run SqliteStore.init bobInvited = some v ∧
      (GroupView.system sqliteStore).step v bobJoins = some v' ∧
      MemoryStore.groupView.Controlled u bobJoins u' ∧ SqliteStore.groupView.Controlled v bobJoins v' := by
  refine ⟨_, _, _, _, rfl, rfl, rfl, rfl, ?_⟩
  obtain ⟨hmem, hsql⟩ := group_membership_iff (bobInvited ++ [bobJoins]) _ _ _ _ MemoryStore.groupView_fresh rfl
    SqliteStore.groupView_fresh rfl
  refine ⟨hmem.1 ?_ bobInvited bobJoins _ _ (List.prefix_refl _) rfl rfl,
    hsql.1 ?_ bobInvited bobJoins _ _ (List.prefix_refl _) rfl rfl⟩
  · refine ⟨fun m hm => ?_, trivial, fun _ => ?_, trivial⟩
    · cases hm
    · exact ⟨⟨"bob", .invited, 1⟩, List.mem_of_getElem? (i := 1) (by rfl), rfl⟩
  · refine ⟨fun m hm => ?_, trivial, fun _ => ?_, trivial⟩
    · cases hm
    · exact ⟨⟨"bob", .invited, 1⟩, List.mem_of_getElem? (i := 1) (by rfl), rfl⟩

/-- Joining without an invitation subscribes an agent that is no member; creating the group again ends
bob's membership and leaves him subscribed. -/
theorem group_join_uninvited :
    ¬(∀ (s s' : MemoryStore) ops, MemoryStore.groupView.Fresh s →
      (GroupView.system memoryStore).run s ops = some s' → MemoryStore.groupView.Agree s') ∧
    ¬(∀ (s s' : SqliteStore) ops, SqliteStore.groupView.Fresh s →
      (GroupView.system sqliteStore).run s ops = some s' → SqliteStore.groupView.Agree s') ∧
    ∃ u u', (GroupView.system memoryStore).run MemoryStore.init (bobInvited ++ [bobJoins]) = some u ∧
      (GroupView.system memoryStore).step u (.create 3 "alice" (some "g")) = some u' ∧
      MemoryStore.groupView.Active u "bob" "group/g" ∧ ¬MemoryStore.groupView.Active u' "bob" "group/g" ∧
      "group/g" ∈ u'.patternsFor "bob" := by
  refine ⟨fun h => ?_, fun h => ?_, ?_⟩
  · have hagree := h MemoryStore.init _ [bobJoins] MemoryStore.groupView_fresh rfl "bob" "group/g" ⟨"g", rfl⟩
    have hactive := hagree.1 (List.mem_of_getElem? (i := 0) (by rfl))
    revert hactive
    unfold GroupView.Active
    decide
  · have hagree := h SqliteStore.init _ [bobJoins] SqliteStore.groupView_fresh rfl "bob" "group/g" ⟨"g", rfl⟩
    have hactive := hagree.1 (List.mem_of_getElem? (i := 0) (by rfl))
    revert hactive
    unfold GroupView.Active
    decide
  · refine ⟨_, _, rfl, rfl, ?_, ?_, by decide⟩
    · unfold GroupView.Active
      decide
    · unfold GroupView.Active
      decide

end Sox
