import Sox.FilesystemLayout

/-!
# Each agent's own files

What the operations of one agent write: its files among the subscriptions and in the `delivered`
directories, and directories on the way there (`OnlyOwn`). An id goes into the path as it is, so one with a
slash is a path of its own and can lead to the file of another agent. Where the paths of one agent keep
away from those of another (`PathsApart`), the other's patterns and delivered sets and all stored messages stay
as they are (`agents_isolated`). They do if no id has a slash (`apart_of_noSlash`), and for most that are
plain paths such as `server/agent` (`apart_of_plain`).
-/

namespace Sox

namespace PathStore

open FileTree Effect

variable {host : Host} {t t' : StoreTree} {c : Channel} {a b : AgentId} {q : List String}

/-! ### The operations of an agent -/

/-- The steps that the operations of an agent are made of stay within `R`. -/
structure Writes (R : PathStore → PathStore → Prop) (host : Host) (a : AgentId) : Prop where
  subscriptions : ∀ content, Moves R (atomicWrite host (subscriptionsFile host a) content)
  delivered : ∀ c content, Moves R (atomicWrite host (deliveredFile host c a) content)
  memory : ∀ f : PathStore → PathStore, (∀ s, (f s).tree = s.tree) → Moves R (remember f)

section
variable {R : PathStore → PathStore → Prop} [IsPreorder PathStore R]

theorem Writes.markDelivered (h : Writes R host a) (c : Channel) (filenames : List String) :
    Moves R (markDelivered host c a filenames) :=
  moves_look.bind fun _ => h.delivered c _

theorem Writes.subscribe (h : Writes R host a) (p : Pattern) : Moves R (subscribe host a p) := by
  unfold PathStore.subscribe
  refine moves_look.bind fun patterns => ?_
  split
  · exact (h.subscriptions _).bind fun _ => moves_look.bind fun _ => moves_pure
  · exact moves_look.bind fun _ => moves_pure

theorem Writes.recv (h : Writes R host a) (channels : Option (List Channel)) (max : Int) :
    Moves R (recv host a channels max) := by
  have hrest (targets : List Channel) : Moves R (do
      let d ← lookTree fun t => targets.foldlM (drainChannel host a max t) {}
      d.toMark.entries.forM fun e => PathStore.markDelivered host e.1 a e.2
      let messages ← lookTree fun _ => messagesOf d.messages
      pure (FilesystemStore.sortByTime messages)) :=
    moves_look.bind fun _ => (moves_forM fun _ _ => h.markDelivered _ _).bind fun _ =>
      moves_look.bind fun _ => moves_pure
  refine moves_look.bind fun patterns => ?_
  cases channels with
  | none => exact moves_look.bind fun known => hrest _
  | some cs => exact hrest cs

theorem Writes.clearChannels (h : Writes R host a) (cs : List Channel) : Moves R (clearChannels host a cs) := by
  induction cs with
  | nil => exact moves_pure
  | cons c cs ih =>
    have hclear : Moves R (clearChannel host a c) := by
      unfold clearChannel
      refine moves_look.bind fun delivered => moves_look.bind fun files => ?_
      dsimp only
      split
      · exact (h.markDelivered c _).bind fun _ => moves_pure
      · exact moves_pure
    exact hclear.bind fun _ => ih.bind fun _ => moves_pure

theorem Writes.unsubscribe (h : Writes R host a) (patterns : List Pattern) :
    Moves R (unsubscribe host a patterns) := by
  unfold PathStore.unsubscribe
  refine moves_look.bind fun existing => ?_
  dsimp only
  split
  · exact moves_pure
  · exact (h.subscriptions _).bind fun _ => moves_look.bind fun _ =>
      (h.clearChannels _).bind fun _ => moves_pure

theorem Writes.groupJoin (h : Writes R host a) (now : ℚ) (g : String) : Moves R (groupJoin host now a g) := by
  refine moves_look.bind fun members => (h.memory _ fun s => ?_).bind fun _ =>
    (h.subscribe g).bind fun _ => moves_pure
  split <;> rfl

theorem Writes.groupLeave (h : Writes R host a) (now : ℚ) (g : String) : Moves R (groupLeave host now a g) := by
  unfold PathStore.groupLeave
  refine Moves.bind (h.memory _ fun s => ?_) fun _ => ?_
  · rfl
  · exact moves_look.bind fun _ => (h.subscriptions _).bind fun _ => moves_pure

theorem Writes.groupCreate (h : Writes R host a) (now : ℚ) (gid : Option String) :
    Moves R (groupCreate host now a gid) := by
  unfold PathStore.groupCreate
  refine Moves.bind (h.memory _ fun s => ?_) fun _ => ?_
  · rfl
  · exact (h.subscribe _).bind fun _ => moves_pure

end

/-- A call for one agent. -/
inductive AgentCall where
  | subscribe (pattern : Pattern)
  | unsubscribe (patterns : List Pattern)
  | recv (channels : Option (List Channel)) (maxMessages : Int)
  | groupJoin (now : ℚ) (groupId : String)
  | groupLeave (now : ℚ) (groupId : String)

/-- The store after the call, whether it raised or not. -/
def AgentCall.apply (host : Host) (a : AgentId) (s : PathStore) : AgentCall → PathStore
  | .subscribe p => (PathStore.subscribe host a p s).2
  | .unsubscribe ps => (PathStore.unsubscribe host a ps s).2
  | .recv channels max => (PathStore.recv host a channels max s).2
  | .groupJoin now g => (PathStore.groupJoin host now a g s).2
  | .groupLeave now g => (PathStore.groupLeave host now a g s).2

theorem Writes.call {R : PathStore → PathStore → Prop} [IsPreorder PathStore R] (h : Writes R host a)
    (s : PathStore) (call : AgentCall) : R s (call.apply host a s) := by
  cases call with
  | subscribe p => exact h.subscribe p s
  | unsubscribe ps => exact h.unsubscribe ps s
  | recv channels max => exact h.recv channels max s
  | groupJoin now g => exact h.groupJoin now g s
  | groupLeave now g => exact h.groupLeave now g s

/-! ### Where an agent's paths lead -/

section
variable (host : Host) (a : AgentId)

/-- The files that the store keeps for an agent. -/
inductive AgentPath : StorePath → Prop
  | subscriptions : AgentPath (subscriptionsFile host a)
  | delivered (c : Channel) : AgentPath (deliveredFile host c a)

/-- The path of a file of the agent comes to `q`. -/
def Comes (q : List String) : Prop := ∃ p, AgentPath host a p ∧ Reaches host.accepts [] p q

/-- The path of a file of the agent leads to `q`. -/
def Leads (q : List String) : Prop := ∃ p, AgentPath host a p ∧ Usable host.accepts p ∧ lead [] p = q

/-- The directories of an open store and those above them. -/
def Fixed (q : List String) : Prop := q <+: host.root ++ ["channels"] ∨ q <+: host.root ++ ["subscriptions"]

/-- The paths of `a` keep away from those of `b`. -/
structure PathsApart (b : AgentId) : Prop where
  /-- No file of `a` is on the way to a file of `b`. -/
  files : ∀ q, Leads host a q → Comes host b q → Fixed host q
  /-- Where `a` may make a directory on the way to a file of `b`, the way leads on to a name in it. -/
  ways : ∀ p front, AgentPath host b p → front <+: p → Usable host.accepts front →
    Comes host a (lead [] front) → Fixed host (lead [] front) ∨
      ∃ n, host.accepts n = true ∧ front ++ [.down n] <+: p
  /-- No path of `a` comes to what is listed as a message. -/
  messages : ∀ c n, matchesJson n = true → ¬ Comes host a (messagesLoc host c ++ [n])

/-! ### Writing one's own files -/

/-- Nothing is written but the files of the agent, and directories on the way to them. -/
def OnlyOwn (t t' : StoreTree) : Prop := ∀ q, t'.node q = t.node q ∨
  (t.node q = none ∧ t'.node q = some .dir ∧ Comes host a q) ∨
    (t.node q ≠ some .dir ∧ (∃ content, t'.node q = some (.file content)) ∧ Leads host a q)

end

theorem Leads.comes (h : Leads host a q) : Comes host a q := by
  obtain ⟨p, hp, hnames, hlead⟩ := h
  exact ⟨p, hp, p, List.prefix_refl _, hnames, hlead⟩

theorem OnlyOwn.node_dir (h : OnlyOwn host a t t') (hdir : t.node q = some .dir) : t'.node q = some .dir := by
  rcases h q with heq | ⟨hnone, -, -⟩ | ⟨hne, -, -⟩
  · exact heq.trans hdir
  · rw [hdir] at hnone
    cases hnone
  · exact absurd hdir hne

instance : IsPreorder StoreTree (OnlyOwn host a) where
  refl _ := fun _ => .inl rfl
  trans t t' t'' h h' := by
    intro q
    rcases h q with heq | ⟨hnone, hdir, hq⟩ | ⟨hne, ⟨content, hfile⟩, hq⟩
    · rw [← heq]
      exact h' q
    · exact .inr (.inl ⟨hnone, h'.node_dir hdir, hq⟩)
    · rcases h' q with heq' | ⟨hnone', -, -⟩ | ⟨-, hfile', -⟩
      · exact .inr (.inr ⟨hne, ⟨content, heq'.trans hfile⟩, hq⟩)
      · rw [hfile] at hnone'
        cases hnone'
      · exact .inr (.inr ⟨hne, hfile', hq⟩)

instance : IsPreorder PathStore fun s s' => OnlyOwn host a s.tree s'.tree where
  refl s := refl_of (OnlyOwn host a) s.tree
  trans _ _ _ h h' := trans_of (OnlyOwn host a) h h'

theorem onlyOwn_mkdirs {p : StorePath} (hp : AgentPath host a p) :
    OnlyOwn host a t (t.mkdirs host.accepts [] p.dropLast).2 := by
  intro q
  rcases mkdirs_node host.accepts t [] q p.dropLast with heq | ⟨hnone, hdir, hq⟩
  · exact .inl heq
  · exact .inr (.inl ⟨hnone, hdir, p, hp, hq.of_prefix (List.dropLast_prefix _)⟩)

/-- A write of one of the agent's files. -/
theorem moves_atomicWrite {p : StorePath} (hp : AgentPath host a p) (content : FileContent) :
    Moves (fun s s' => OnlyOwn host a s.tree s'.tree) (atomicWrite host p content) := by
  intro s
  have hdirs := onlyOwn_mkdirs (t := s.tree) hp
  unfold atomicWrite
  rw [bind_apply, mkdir]
  rcases hmk : s.tree.mkdirs host.accepts [] p.dropLast with ⟨e | dir, t'⟩
  · rw [hmk] at hdirs
    exact hdirs
  · rw [hmk] at hdirs
    rcases hlast : p.getLast? with - | ⟨- | name⟩
    · exact hdirs
    · exact hdirs
    · refine trans_of (OnlyOwn host a) hdirs fun q => ?_
      rcases replace_node host.accepts t' dir q name content with heq | ⟨hq, hname, hne, hfile⟩
      · exact .inl heq
      · have hsplit : p = p.dropLast ++ [.down name] := (List.dropLast_append_getLast? _ hlast).symm
        refine .inr (.inr ⟨hne, ⟨content, hfile⟩, p, hp, fun n hn => ?_, ?_⟩)
        · rw [hsplit, List.mem_append, List.mem_singleton] at hn
          rcases hn with hn | hn
          · exact mkdirs_usable hmk n hn
          · cases hn
            exact hname
        · rw [hsplit, lead_append, ← mkdirs_eq_lead hmk, hq, lead, lead]

theorem writes_onlyOwn (host : Host) (a : AgentId) :
    Writes (fun s s' => OnlyOwn host a s.tree s'.tree) host a where
  subscriptions := moves_atomicWrite .subscriptions
  delivered c := moves_atomicWrite (.delivered c)
  memory f hf s := by
    show OnlyOwn host a s.tree (f s).tree
    rw [hf]
    exact refl_of (OnlyOwn host a) s.tree

/-! ### What other agents see -/

theorem OnlyOwn.opened (h : OnlyOwn host a t t') (ht : Opened host t) : Opened host t' where
  channels := h.node_dir ht.channels
  subscriptions := h.node_dir ht.subscriptions

theorem Opened.node_fixed (ht : Opened host t) (hq : Fixed host q) : t.node q = some .dir := by
  rcases hq with ⟨r, hr⟩ | ⟨r, hr⟩
  · exact node_above (hr ▸ ht.channels)
  · exact node_above (hr ▸ ht.subscriptions)

/-- The way to a file of the other agent may have new directories on it. -/
theorem OnlyOwn.newOnWay (h : OnlyOwn host a t t') (ht : Opened host t) (hab : PathsApart host a b) {p : StorePath}
    (hp : AgentPath host b p) : NewOnWay host.accepts t t' [] p := by
  intro front hfront hnames
  rcases h (lead [] front) with heq | ⟨hnone, hdir, hcomes⟩ | ⟨hne, -, hleads⟩
  · exact .inl heq
  · rcases hab.ways p front hp hfront hnames hcomes with hfixed | hnext
    · rw [ht.node_fixed hfixed] at hnone
      cases hnone
    · exact .inr ⟨hnone, hdir, hnext⟩
  · have hfixed := hab.files _ hleads ⟨p, hp, front, hfront, hnames, rfl⟩
    exact absurd (ht.node_fixed hfixed) hne

theorem OnlyOwn.readNames_eq (h : OnlyOwn host a t t') (ht : Opened host t) (hab : PathsApart host a b) {p : StorePath}
    (hp : AgentPath host b p) : readNames host p t' = readNames host p t := by
  rw [readNames, readNames, FileTree.read, FileTree.read, (h.newOnWay ht hab hp).stat_eq]

variable (host) in
/-- The message files of a channel and what reading them gives. -/
def storedMessages (c : Channel) (t : StoreTree) :
    Except StoreError (List (String × Except FileError FileContent)) :=
  (listMessageFiles host c t).map fun files => files.map fun fname => (fname, readMessage host c t fname)

theorem OnlyOwn.node_message (h : OnlyOwn host a t t') (hab : PathsApart host a b) {n : String}
    (hn : matchesJson n = true) : t'.node (messagesLoc host c ++ [n]) = t.node (messagesLoc host c ++ [n]) := by
  rcases h (messagesLoc host c ++ [n]) with heq | ⟨-, -, hcomes⟩ | ⟨-, -, hleads⟩
  · exact heq
  · exact absurd hcomes (hab.messages c n hn)
  · exact absurd hleads.comes (hab.messages c n hn)

theorem OnlyOwn.storedMessages_eq (h : OnlyOwn host a t t') (ht : Opened host t) (hab : PathsApart host a b)
    (c : Channel) :
    storedMessages host c t' = storedMessages host c t := by
  have ht' := h.opened ht
  unfold storedMessages
  by_cases hc : Accepted host c
  · rw [listMessageFiles_eq ht hc, listMessageFiles_eq ht' hc,
      sorted_eq_of_perm (globJson_perm fun n => h.node_message hab)]
    refine congrArg Except.ok (List.map_congr_left fun n hn => ?_)
    obtain ⟨hsome, hjson⟩ := mem_globJson.1 ((List.mem_insertionSort _).1 hn)
    obtain ⟨x, hx⟩ := Option.isSome_iff_exists.1 hsome
    have hdir := node_parent hx
    have hdir' := h.node_dir hdir
    have hstat : t'.stat host.accepts [] (messagesDir host c ++ [.down n]) =
        t.stat host.accepts [] (messagesDir host c ++ [.down n]) := by
      rw [stat_append (walk_messagesLoc ht hc hdir), stat_append (walk_messagesLoc ht' hc hdir')]
      by_cases hacc : host.accepts n = true
      · rw [stat_down hdir hacc, stat_down hdir' hacc, stat, stat, walk, walk]
        dsimp only
        rw [h.node_message hab hjson]
      · rw [Bool.not_eq_true] at hacc
        rw [stat_refused hdir hacc, stat_refused hdir' hacc]
    rw [readMessage, readMessage, FileTree.read, FileTree.read, hstat]
  · obtain ⟨y, hy, hrefused⟩ := refused_of_not_accepted hc
    rw [listMessageFiles_refused ht hy hrefused, listMessageFiles_refused ht' hy hrefused]
    simp only [Except.map]

/-! ### Runs -/

/-- A directory stays one. -/
def Grows (s s' : PathStore) : Prop := ∀ q, s.tree.node q = some .dir → s'.tree.node q = some .dir

instance : IsPreorder PathStore Grows where
  refl _ _ h := h
  trans _ _ _ h h' q hq := h' q (h q hq)

theorem grows_mkdir (host : Host) (path : StorePath) : Moves Grows (mkdir host path) := by
  intro s q hq
  rcases mkdirs_node host.accepts s.tree [] q path with heq | ⟨-, hdir, -⟩
  · exact heq.trans hq
  · exact hdir

theorem grows_replaceFile (dir : List String) (name : String) (content : FileContent) :
    Moves Grows (replaceFile host dir name content) := by
  intro s q hq
  rcases replace_node host.accepts s.tree dir q name content with heq | ⟨-, -, hne, -⟩
  · exact heq.trans hq
  · exact absurd hq hne

theorem grows_atomicWrite (path : StorePath) (content : FileContent) :
    Moves Grows (atomicWrite host path content) := by
  refine (grows_mkdir host _).bind fun dir => ?_
  split
  · exact grows_replaceFile dir _ content
  · exact moves_throw

theorem grows_remember {f : PathStore → PathStore} (hf : ∀ s, (f s).tree = s.tree) :
    Moves Grows (remember f) := by
  intro s q hq
  show (f s).tree.node q = some .dir
  rw [hf]
  exact hq

/-- Whatever the id is. -/
theorem writes_grows (host : Host) (a : AgentId) : Writes Grows host a where
  subscriptions := grows_atomicWrite _
  delivered _ := grows_atomicWrite _
  memory _ := grows_remember

theorem grows_send (now : ℚ) (args : SendArgs) (uuid : Uuid) : Moves Grows (send host now args uuid) := by
  unfold send
  exact (grows_mkdir host _).bind fun _ => moves_look.bind fun _ => (grows_atomicWrite _ _).bind fun _ => moves_pure

/-- An operation that writes files or members of groups; with `reopen` the process has ended and another
one opens the store. -/
inductive PathOp where
  | send (now : ℚ) (args : SendArgs) (uuid : Uuid)
  | call (agentId : AgentId) (call : AgentCall)
  | heartbeat (now sendNow : ℚ) (uuid : Uuid) (agentId : AgentId) (status : String) (ttl : Option Int)
  | groupCreate (now : ℚ) (creatorId : AgentId) (groupId : Option String)
  | groupInvite (now : ℚ) (inviterId : AgentId) (groupId : String) (inviteeId : AgentId)
  | reopen

def PathOp.apply (host : Host) (s : PathStore) : PathOp → PathStore
  | .send now args uuid => (PathStore.send host now args uuid s).2
  | .call a agentCall => agentCall.apply host a s
  | .heartbeat now sendNow uuid a status ttl => (PathStore.heartbeat host now sendNow uuid a status ttl s).2
  | .groupCreate now a gid => (PathStore.groupCreate host now a gid s).2
  | .groupInvite now a gid b => (PathStore.groupInvite now a gid b s).2
  | .reopen => (initializeStore host { tree := s.tree }).2

/-- The store is one that was opened and then used. -/
inductive Reachable (host : Host) : PathStore → Prop
  | opened {t : StoreTree} {s : PathStore} (h : initializeStore host { tree := t } = (.ok (), s)) :
      Reachable host s
  | step {s : PathStore} (op : PathOp) (h : Reachable host s) : Reachable host (op.apply host s)

theorem grows_heartbeat (now sendNow : ℚ) (uuid : Uuid) (status : String) (ttl : Option Int) :
    Moves Grows (heartbeat host now sendNow uuid a status ttl) := by
  unfold heartbeat
  refine Moves.bind (grows_remember fun s => ?_) fun _ => ?_
  · rfl
  · exact (grows_send _ _ _).bind fun _ => moves_pure

theorem grows_groupInvite (now : ℚ) (g : String) : Moves Grows (groupInvite now a g b) := by
  unfold groupInvite
  refine moves_look.bind fun members => ?_
  split
  · refine Moves.bind (grows_remember fun s => ?_) fun _ => moves_pure
    rfl
  · exact moves_throw

theorem grows_initializeStore : Moves Grows (initializeStore host) := by
  unfold initializeStore
  exact (grows_mkdir host _).bind fun _ => (grows_mkdir host _).bind fun _ =>
    (grows_mkdir host _).bind fun _ => moves_pure

theorem grows_apply (s : PathStore) (op : PathOp) : Grows s (op.apply host s) := by
  cases op with
  | send now args uuid => exact grows_send now args uuid s
  | call a agentCall => exact (writes_grows host a).call s agentCall
  | heartbeat now sendNow uuid a status ttl => exact grows_heartbeat now sendNow uuid status ttl s
  | groupCreate now a gid => exact (writes_grows host a).groupCreate now gid s
  | groupInvite now a gid b => exact grows_groupInvite now gid s
  | reopen => exact grows_initializeStore { tree := s.tree }

theorem mkdir_ok {path : StorePath} {s s' : PathStore} {p : List String}
    (h : mkdir host path s = (.ok p, s')) : s'.tree.node (lead [] path) = some .dir := by
  unfold mkdir at h
  rcases hmk : s.tree.mkdirs host.accepts [] path with ⟨e | q, t'⟩
  · rw [hmk] at h
    cases h
  · rw [hmk] at h
    cases h
    rw [← mkdirs_eq_lead hmk]
    exact mkdirs_dir node_nil hmk

theorem opened_initialize {t : StoreTree} {s : PathStore}
    (h : initializeStore host { tree := t } = (.ok (), s)) : Opened host s.tree := by
  have hchannels : lead [] (channelsDir host) = host.root ++ ["channels"] := lead_down
  have hsubs : lead [] (subscriptionsDir host) = host.root ++ ["subscriptions"] := lead_down
  unfold initializeStore at h
  rw [bind_apply] at h
  split at h
  · rw [bind_apply] at h
    split at h
    · rename_i s₂ hmk
      rw [bind_apply] at h
      split at h
      · rename_i s₃ hmk'
        cases h
        have hdir := mkdir_ok hmk
        have hgrow := grows_mkdir host (subscriptionsDir host) s₂
        rw [hmk'] at hgrow
        rw [hchannels] at hdir
        exact ⟨hgrow _ hdir, hsubs ▸ mkdir_ok hmk'⟩
      · cases h
    · cases h
  · cases h

theorem Reachable.opened_tree {s : PathStore} (h : Reachable host s) : Opened host s.tree := by
  induction h with
  | opened h => exact opened_initialize h
  | step op _ ih =>
    exact ⟨grows_apply _ op _ ih.channels, grows_apply _ op _ ih.subscriptions⟩

/-- A call for an agent leaves the patterns, the delivered sets and the messages of another agent as
they are, if the paths of the one keep away from those of the other. -/
theorem agents_isolated {s : PathStore} (hs : Reachable host s) (hab : PathsApart host a b) (call : AgentCall) :
    let s' := call.apply host a s
    getPatterns host b s'.tree = getPatterns host b s.tree ∧
      (∀ c, getDeliveredSet host c b s'.tree = getDeliveredSet host c b s.tree) ∧
        ∀ c, storedMessages host c s'.tree = storedMessages host c s.tree := by
  intro s'
  have hopen := hs.opened_tree
  have hown := (writes_onlyOwn host a).call s call
  exact ⟨hown.readNames_eq hopen hab .subscriptions, fun c => hown.readNames_eq hopen hab (.delivered c),
    hown.storedMessages_eq hopen hab⟩

/-! ### Ids that are plain paths -/

section
variable (host : Host)

/-- An id such as `server/agent`: a relative path without `..`, for files of these names. -/
structure Plain (a : AgentId) (names : List String) : Prop where
  relative : (a ++ ".json").toList.head? ≠ some '/'
  parsed : parsePath (a ++ ".json") = names.map .down

/-- Where the way to an agent's file leaves the directories that are there, and how it goes on. -/
inductive Base : List String → List String → Prop
  | subscriptions : Base (host.root ++ ["subscriptions"]) []
  | root : Base host.root ["delivered"]
  | channels : Base (host.root ++ ["channels"]) ["delivered"]
  | channel (x : String) : Base (host.root ++ ["channels"]) [x, "delivered"]

end

variable {p pre front : StorePath} {names mid as bs loc loc' mid' : List String}

theorem prefix_append_map (h : front <+: pre ++ names.map .down) :
    front <+: pre ∨ ∃ l, l <+: names ∧ front = pre ++ l.map .down := by
  rcases List.prefix_or_prefix_of_prefix h (List.prefix_append pre _) with hpre | ⟨r, rfl⟩
  · exact .inl hpre
  · obtain ⟨l, hl, rfl⟩ := List.prefix_map_iff.1 ((List.prefix_append_right_inj pre).1 h)
    exact .inr ⟨l, hl, rfl⟩

theorem fixed_of_prefix {l : List String} (h : l <+: host.root ++ ["channels"] ∨ l <+: host.root ++ ["subscriptions"])
    (hfront : front <+: l.map .down) : Fixed host (lead [] front) := by
  obtain ⟨l', hl', rfl⟩ := List.prefix_map_iff.1 hfront
  rw [lead_down, List.nil_append]
  exact h.imp hl'.trans hl'.trans

theorem AgentPath.route (hp : AgentPath host a p) (ha : Plain a names) :
    ∃ pre mid, p = pre ++ (mid ++ names).map .down ∧ (∀ front, front <+: pre → Fixed host (lead [] front)) ∧
      Base host (lead [] pre) mid := by
  have hjoin (path : StorePath) : joinPath path (a ++ ".json") = path ++ names.map .down := by
    rw [joinPath, if_neg ha.relative, ha.parsed]
  have hchannels : lead [] (channelsDir host) = host.root ++ ["channels"] := lead_down
  cases hp with
  | subscriptions =>
    refine ⟨subscriptionsDir host, [], hjoin _, fun front hfront => ?_, ?_⟩
    · exact fixed_of_prefix (.inr (List.prefix_refl _)) hfront
    · rw [subscriptionsDir, lead_down]
      exact .subscriptions
  | delivered c =>
    have hfixed : ∀ front, front <+: channelsDir host → Fixed host (lead [] front) :=
      fun front hfront => fixed_of_prefix (.inl (List.prefix_refl _)) hfront
    rw [deliveredFile, hjoin, deliveredDir, channelDir_eq]
    by_cases hc : c = "" ∨ c = "."
    · refine ⟨channelsDir host, ["delivered"], ?_, hfixed, hchannels ▸ .channels⟩
      rw [if_pos hc]
      simp
    · rw [if_neg hc]
      by_cases hdots : c = ".."
      · refine ⟨channelsDir host ++ [.up], ["delivered"], ?_, fun front hfront => ?_, ?_⟩
        · rw [if_pos hdots]
          simp
        · rcases List.prefix_concat_iff.1 hfront with rfl | hfront
          · rw [lead_append, hchannels, lead, lead, List.dropLast_concat]
            exact .inl (List.prefix_append _ _)
          · exact hfixed front hfront
        · rw [lead_append, hchannels, lead, lead, List.dropLast_concat]
          exact .root
      · refine ⟨channelsDir host, [encodeChannel c, "delivered"], ?_, hfixed, hchannels ▸ .channel _⟩
        rw [if_neg hdots]
        simp

theorem Comes.place (hq : Comes host a q) (ha : Plain a names) :
    Fixed host q ∨ ∃ loc mid, Base host loc mid ∧ q <+: loc ++ (mid ++ names) := by
  obtain ⟨p, hp, front, hfront, -, rfl⟩ := hq
  obtain ⟨pre, mid, rfl, hfixed, hbase⟩ := hp.route ha
  rcases prefix_append_map hfront with hpre | ⟨l, hl, rfl⟩
  · exact .inl (hfixed front hpre)
  · refine .inr ⟨lead [] pre, mid, hbase, ?_⟩
    rw [lead_append, lead_down]
    exact (List.prefix_append_right_inj _).2 hl

theorem Leads.place (hq : Leads host a q) (ha : Plain a names) :
    ∃ loc mid, Base host loc mid ∧ q = loc ++ (mid ++ names) := by
  obtain ⟨p, hp, -, rfl⟩ := hq
  obtain ⟨pre, mid, rfl, -, hbase⟩ := hp.route ha
  exact ⟨lead [] pre, mid, hbase, by rw [lead_append, lead_down]⟩

theorem Base.accepts (h : Base host loc mid) {n : String} (hn : n ∈ (mid ++ names).tail) :
    n ∈ names ∨ host.accepts n = true := by
  cases h with
  | subscriptions => exact .inl (List.mem_of_mem_tail hn)
  | root => exact .inl hn
  | channels => exact .inl hn
  | channel x =>
    rcases List.mem_cons.1 hn with rfl | hn
    · exact .inr (accepts_own (by decide))
    · exact .inl hn

/-- From a directory that is not fixed, the way goes on to a name, up to its end. -/
theorem AgentPath.goes_on (hp : AgentPath host a p) (ha : Plain a names)
    (hnames : ∀ n ∈ names, host.accepts n = true) (hfront : front <+: p) : Fixed host (lead [] front) ∨ front = p ∨
      ∃ n, host.accepts n = true ∧ front ++ [.down n] <+: p := by
  obtain ⟨pre, mid, rfl, hfixed, hbase⟩ := hp.route ha
  rcases prefix_append_map hfront with hpre | ⟨l, ⟨r, hr⟩, rfl⟩
  · exact .inl (hfixed front hpre)
  · cases l with
    | nil =>
      rw [List.map_nil, List.append_nil]
      exact .inl (hfixed pre (List.prefix_refl _))
    | cons x l =>
      rw [← hr]
      cases r with
      | nil =>
        rw [List.append_nil]
        exact .inr (.inl rfl)
      | cons n r =>
        refine .inr (.inr ⟨n, ?_, ?_⟩)
        · have hn : n ∈ (mid ++ names).tail := by
            rw [← hr]
            simp
          exact (hbase.accepts hn).elim (hnames n) id
        · simp

/-- The file of one such agent is not on the way to the file of another. -/
theorem Base.not_prefix (h : Base host loc mid) (h' : Base host loc' mid') (hab : ¬ as <+: bs)
    (ha : as.head? ≠ some "delivered") (hb : bs.head? ≠ some "delivered") :
    ¬ loc ++ (mid ++ as) <+: loc' ++ (mid' ++ bs) := by
  cases h with
  | subscriptions =>
    cases h' with
    | subscriptions => simpa using hab
    | _ => simp
  | root =>
    cases h' with
    | root => simpa using hab
    | _ => simp
  | channels =>
    cases h' with
    | channels => simpa using hab
    | channel x =>
      simp only [List.append_assoc, List.cons_append, List.nil_append, List.prefix_append_right_inj,
        List.cons_prefix_cons, true_and, not_and]
      rintro - hprefix
      rcases List.prefix_cons_iff.1 hprefix with rfl | ⟨r, rfl, -⟩
      · exact hab List.nil_prefix
      · exact ha rfl
    | _ => simp
  | channel x =>
    cases h' with
    | channels =>
      simp only [List.append_assoc, List.cons_append, List.nil_append, List.prefix_append_right_inj,
        List.cons_prefix_cons, true_and, not_and]
      rintro - ⟨r, rfl⟩
      exact hb rfl
    | channel y => simpa using fun _ => hab
    | _ => simp

theorem Fixed.length_le (h : Fixed host q) : q.length ≤ host.root.length + 1 := by
  rcases h with h | h
  · simpa using h.length_le
  · simpa using h.length_le

theorem channelLoc_cases (c : Channel) : channelLoc host c = host.root ∨
    channelLoc host c = host.root ++ ["channels"] ∨ ∃ x, channelLoc host c = host.root ++ ["channels", x] := by
  unfold channelLoc entry below
  by_cases hdots : c = ".."
  · rw [if_pos hdots, if_pos (.inr (.inr hdots)), List.append_nil]
    exact .inl rfl
  · rw [if_neg hdots]
    split
    · rw [List.append_nil]
      exact .inr (.inl rfl)
    · rw [List.append_assoc]
      exact .inr (.inr ⟨_, rfl⟩)

theorem Base.not_message (h : Base host loc mid) (ha : as.head? ≠ some "messages") {n : String}
    (hn : matchesJson n = true) : ¬ messagesLoc host c ++ [n] <+: loc ++ (mid ++ as) := by
  have hdelivered : n ≠ "delivered" := ne_of_matchesJson hn (by decide)
  rcases @channelLoc_cases host c with hway | hway | ⟨y, hway⟩
  · rw [messagesLoc, hway]
    cases h <;> simp
  · rw [messagesLoc, hway]
    cases h with
    | channel x => simpa using fun _ => hdelivered
    | _ => simp
  · rw [messagesLoc, hway]
    cases h with
    | channels =>
      simp only [List.append_assoc, List.cons_append, List.nil_append, List.prefix_append_right_inj,
        List.cons_prefix_cons, true_and, not_and]
      rintro - ⟨r, rfl⟩
      exact ha rfl
    | _ => simp

/-- Ids that are plain paths keep away from each other, unless the one leads through the file of the other
or through `messages` or `delivered`, which are also channels. -/
theorem apart_of_plain (ha : Plain a as) (hb : Plain b bs) (hnames : ∀ n ∈ bs, host.accepts n = true)
    (hab : ¬ as <+: bs) (hba : ¬ bs <+: as) (hmessages : as.head? ≠ some "messages")
    (hda : as.head? ≠ some "delivered") (hdb : bs.head? ≠ some "delivered") : PathsApart host a b where
  files q hleads hcomes := by
    obtain ⟨loc, mid, hbase, rfl⟩ := hleads.place ha
    rcases hcomes.place hb with hfixed | ⟨loc', mid', hbase', hprefix⟩
    · exact hfixed
    · exact absurd hprefix (hbase.not_prefix hbase' hab hda hdb)
  ways p front hp hfront husable hcomes := by
    rcases hp.goes_on hb hnames hfront with hfixed | rfl | hnext
    · exact .inl hfixed
    · obtain ⟨loc', mid', hbase', hlead⟩ : ∃ loc mid, Base host loc mid ∧ lead [] front = loc ++ (mid ++ bs) :=
        Leads.place ⟨front, hp, husable, rfl⟩ hb
      rcases hcomes.place ha with hfixed | ⟨loc, mid, hbase, hprefix⟩
      · exact .inl hfixed
      · rw [hlead] at hprefix
        exact absurd hprefix (hbase'.not_prefix hbase hba hdb hda)
    · exact .inr hnext
  messages c n hn hcomes := by
    rcases hcomes.place ha with hfixed | ⟨loc, mid, hbase, hprefix⟩
    · have hlong := hfixed.length_le
      have hroot : host.root.length ≤ (entry host c).length := root_prefix_entry.length_le
      simp only [messagesLoc, channelLoc, List.length_append, List.length_cons, List.length_nil] at hlong
      omega
    · exact hbase.not_message hmessages hn hprefix

theorem plain_of_noSlash (ha : '/' ∉ a.toList) : Plain a [a ++ ".json"] where
  relative := head?_ne_slash (slash_notMem_agentFile ha)
  parsed := parsePath_agent ha

/-- Ids without a slash keep away from each other. -/
theorem apart_of_noSlash (ha : '/' ∉ a.toList) (hb : '/' ∉ b.toList) (hname : host.accepts (b ++ ".json") = true)
    (hab : a ≠ b) : PathsApart host a b := by
  have hne {x : String} (s : String) (hx : matchesJson x = false) : [s ++ ".json"].head? ≠ some x :=
    fun h => ne_of_matchesJson (matchesJson_append s) hx (Option.some.inj h)
  have hnot {s s' : String} (h : s ≠ s') : ¬ [s ++ ".json"] <+: [s' ++ ".json"] := by
    intro hprefix
    have heq := congrArg String.toList (List.cons_prefix_cons.1 hprefix).1
    rw [String.toList_append, String.toList_append] at heq
    exact h (String.toList_injective (List.append_cancel_right heq))
  refine apart_of_plain (plain_of_noSlash ha) (plain_of_noSlash hb) (fun n hn => ?_) (hnot hab) (hnot hab.symm)
    (hne a (by decide)) (hne a (by decide)) (hne b (by decide))
  rw [List.mem_singleton.1 hn]
  exact hname

/-- A store to which `bob` has subscribed. -/
def bobsStore : PathStore :=
  (PathStore.subscribe plainHost "bob" "#a" (initializeStore plainHost { tree := .empty }).2).2

theorem reachable_bobsStore : Reachable plainHost bobsStore :=
  .step (.call "bob" (.subscribe "#a")) (.opened (t := .empty) rfl)

def bobsFirst : Uuid := ⟨"00000000000000000000000000000001", by decide⟩

/-- He has read the one message that was sent to him. -/
def bobsInbox : PathStore :=
  [PathOp.send 0 { channel := "#a", sender := "carol", body := .empty } bobsFirst,
    .call "bob" (.recv none 10)].foldl (PathOp.apply plainHost) bobsStore

theorem reachable_bobsInbox : Reachable plainHost bobsInbox :=
  .step (.call "bob" (.recv none 10)) (.step _ reachable_bobsStore)

theorem apart_team_bob : PathsApart plainHost "team/alice" "bob" := by
  have hteam : Plain "team/alice" ["team", "alice.json"] := ⟨by decide, rfl⟩
  refine apart_of_plain hteam (plain_of_noSlash (by decide)) (fun _ _ => rfl) ?_ ?_ ?_ ?_ ?_ <;> decide

theorem agents_isolated_two :
    let s' := (AgentCall.recv (some ["#a"]) 10).apply plainHost "team/alice" bobsInbox
    (getPatterns plainHost "bob" s'.tree).toOption = some ["#a"] ∧
      (getDeliveredSet plainHost "#a" "bob" s'.tree).toOption = some [fileName 0 bobsFirst] ∧
        ((storedMessages plainHost "#a" s'.tree).map (·.map (·.1))).toOption = some [fileName 0 bobsFirst] := by
  obtain ⟨hpatterns, hdelivered, hmessages⟩ :=
    agents_isolated reachable_bobsInbox apart_team_bob (.recv (some ["#a"]) 10)
  refine ⟨?_, ?_, ?_⟩
  · rw [hpatterns]
    decide +kernel
  · rw [hdelivered]
    decide +kernel
  · rw [hmessages]
    decide +kernel

/-- An id that is a path to the file of another agent. -/
theorem agents_overwritten : Reachable plainHost bobsStore ∧ "../subscriptions/bob" ≠ "bob" ∧
    getPatterns plainHost "bob" bobsStore.tree = .ok ["#a"] ∧
      getPatterns plainHost "bob"
        ((AgentCall.subscribe "#b").apply plainHost "../subscriptions/bob" bobsStore).tree = .ok ["#a", "#b"] :=
  ⟨reachable_bobsStore, by decide, rfl, rfl⟩

end PathStore

end Sox
