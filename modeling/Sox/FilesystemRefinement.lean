import Sox.ChannelFiles
import Sox.FilesystemProcess

/-!
# The files keep the store

Two levels of one store: `PathStore` goes by paths in a tree of files, `FilesystemProcess` by what the files
are about. `Mirrors` says that the tree holds a store: a directory for each channel, a file for each message,
each delivered set and each agent's patterns, and nothing in the way of them. Every call keeps it and gives
the same answer on both levels, where each channel has a directory of its own (its name is not empty, `.` or
`..`), each agent's id has no slash, and the host takes the names.
-/

namespace Sox

namespace PathStore

open FileTree Effect

variable {host : Host} {t t' : StoreTree} {s : FilesystemStore} {c d : Channel} {a b : AgentId} {n x : String}
  {q r names : List String} {content : FileContent} {st : PathStore}

/-! ### Names -/

/-- The channel has a directory of its own. -/
structure Housed (host : Host) (c : Channel) : Prop where
  ne_empty : c ≠ ""
  ne_dot : c ≠ "."
  ne_dots : c ≠ ".."
  accepts : host.accepts (encodeChannel c) = true

/-- The files of the agent are named after it. -/
structure OwnName (host : Host) (a : AgentId) : Prop where
  noSlash : '/' ∉ a.toList
  accepts : host.accepts (a ++ ".json") = true

theorem Housed.accepted (h : Housed host c) : Accepted host c := by
  rw [Accepted, below, if_neg (by simp [h.ne_empty, h.ne_dot, h.ne_dots])]
  intro n hn
  rw [List.mem_singleton.1 hn]
  exact h.accepts

theorem Housed.messagesLoc (h : Housed host c) :
    messagesLoc host c = host.root ++ ["channels", encodeChannel c, "messages"] := by
  rcases place_cases h.ne_empty with ⟨hc, -⟩ | ⟨hc, -⟩ | ⟨-, hplace⟩
  · exact absurd hc h.ne_dots
  · exact absurd hc h.ne_dot
  · rw [messagesLoc_eq, hplace]
    rfl

theorem Housed.channelDir (h : Housed host c) :
    channelDir host c = (host.root ++ ["channels", encodeChannel c]).map .down := by
  rw [channelDir_eq, if_neg (by simp [h.ne_empty, h.ne_dot]), if_neg h.ne_dots, channelsDir]
  simp

theorem Housed.messagesDir (h : Housed host c) :
    messagesDir host c = (host.root ++ ["channels", encodeChannel c, "messages"]).map .down := by
  rw [PathStore.messagesDir, h.channelDir]
  simp

theorem Housed.deliveredFile (h : Housed host c) (ha : '/' ∉ a.toList) : deliveredFile host c a =
    (host.root ++ ["channels", encodeChannel c, "delivered"]).map .down ++ [.down (a ++ ".json")] := by
  rw [PathStore.deliveredFile, joinPath_agent _ ha, deliveredDir, h.channelDir]
  simp

theorem subscriptionsFile_eq (ha : '/' ∉ a.toList) : subscriptionsFile host a =
    (host.root ++ ["subscriptions"]).map .down ++ [.down (a ++ ".json")] := by
  rw [subscriptionsFile, joinPath_agent _ ha, subscriptionsDir]

theorem agentFile_inj : a ++ ".json" = b ++ ".json" ↔ a = b := by
  rw [← String.toList_inj, String.toList_append, String.toList_append, List.append_cancel_right_eq, String.toList_inj]

/-! ### Writing a file -/

/-- The file is written, and the directories on the way to it are made. -/
def Written (host : Host) (names : List String) (n : String) (content : FileContent) (t t' : StoreTree) : Prop :=
  ∀ r, t'.node (host.root ++ r) = if r = names ++ [n] then some (.file content)
    else if r <+: names then some .dir else t.node (host.root ++ r)

/-- Nothing is in the way of a directory. -/
def Clear (host : Host) (t : StoreTree) (names : List String) : Prop :=
  ∀ r, r <+: names → t.node (host.root ++ r) = some .dir ∨ t.node (host.root ++ r) = none

theorem Clear.way (h : Clear host t names) (ht : Opened host t) (hq : q <+: host.root ++ names) :
    t.node q = some .dir ∨ t.node q = none := by
  rcases List.prefix_or_prefix_of_prefix hq (List.prefix_append host.root names) with hup | ⟨r, rfl⟩
  · obtain ⟨r, hr⟩ := hup
    refine .inl (node_above (q := r ++ ["channels"]) ?_)
    rw [← List.append_assoc, hr]
    exact ht.channels
  · exact h r ((List.prefix_append_right_inj _).1 hq)

theorem accepts_way (hnames : ∀ m ∈ names, host.accepts m = true) :
    ∀ m ∈ host.root ++ names, host.accepts m = true := by
  intro m hm
  rcases List.mem_append.1 hm with hm | hm
  · exact accepts_root hm
  · exact hnames m hm

theorem mkdir_at (ht : Opened host st.tree) (hclear : Clear host st.tree names)
    (hnames : ∀ m ∈ names, host.accepts m = true) :
    ∃ t', mkdir host ((host.root ++ names).map .down) st = (.ok (host.root ++ names), { st with tree := t' }) ∧
      Opened host t' ∧
      ∀ r, t'.node (host.root ++ r) = if r <+: names then some .dir else st.tree.node (host.root ++ r) := by
  obtain ⟨t', hmk, hnode⟩ := mkdir_down (accepts_way hnames) fun q hq => hclear.way ht hq
  refine ⟨t', hmk, ⟨?_, ?_⟩, fun r => ?_⟩
  · rw [hnode, ht.channels, ite_self]
  · rw [hnode, ht.subscriptions, ite_self]
  · rw [hnode]
    simp only [List.prefix_append_right_inj]

theorem atomicWrite_at (ht : Opened host st.tree) (hclear : Clear host st.tree names)
    (hnames : ∀ m ∈ names, host.accepts m = true) (hn : host.accepts n = true)
    (hfree : st.tree.node (host.root ++ (names ++ [n])) ≠ some .dir) (content : FileContent) :
    ∃ t', atomicWrite host ((host.root ++ names).map .down ++ [.down n]) content st = (.ok (), { st with tree := t' }) ∧
      Written host names n content st.tree t' := by
  obtain ⟨t₁, hmk, ht₁, hnode⟩ := mkdir_at ht hclear hnames
  have hdir : t₁.node (host.root ++ names) = some .dir := by rw [hnode, if_pos (List.prefix_refl _)]
  have hlonger : ¬ names ++ [n] <+: names := fun h => by
    have := h.length_le
    rw [List.length_append, List.length_singleton] at this
    omega
  have hfree' : t₁.node (host.root ++ names ++ [n]) ≠ some .dir := by
    rw [List.append_assoc, hnode, if_neg hlonger]
    exact hfree
  obtain ⟨t₂, hreplace, hnode₂⟩ := replace_ok hn hdir hfree' (c := content)
  refine ⟨t₂, ?_, fun r => ?_⟩
  · rw [atomicWrite, List.dropLast_concat, bind_ok hmk, List.getLast?_concat]
    show replaceFile host (host.root ++ names) n content _ = _
    rw [replaceFile, hreplace]
    rfl
  · rw [hnode₂, hnode, List.append_assoc]
    simp only [List.append_right_inj]

/-! ### What the tree holds -/

def messageNode (m : Option MessageFile) : Option (FileNode FileContent) := m.map fun m => .file (.message m)

def namesNode (l : Option (List String)) : Option (FileNode FileContent) := l.map fun l => .file (.names l)

/-- The directory of that name. -/
def dirAt (channels : Dict String ChannelDir) (x : String) : ChannelDir := channels.getD x {}

/-- The tree holds the store. -/
structure Mirrors (host : Host) (t : StoreTree) (s : FilesystemStore) : Prop where
  opened : Opened host t
  housed : ∀ x ∈ s.channels.keys, ∃ c, Housed host c ∧ encodeChannel c = x
  channels : ∀ x, t.node (host.root ++ ["channels", x]) = if x ∈ s.channels.keys then some .dir else none
  inner : ∀ x, ∀ m ∈ ["messages", "delivered"], t.node (host.root ++ ["channels", x, m]) = some .dir ∨
    t.node (host.root ++ ["channels", x, m]) = none
  messages : ∀ x n, t.node (host.root ++ ["channels", x, "messages", n]) =
    messageNode ((dirAt s.channels x).messages.get? n)
  named : ∀ x, ∀ n ∈ (dirAt s.channels x).messages.keys, matchesJson n = true ∧ host.accepts n = true
  delivered : ∀ x a, t.node (host.root ++ ["channels", x, "delivered", a ++ ".json"]) =
    namesNode ((dirAt s.channels x).delivered.get? a)
  subscriptions : ∀ a, t.node (host.root ++ ["subscriptions", a ++ ".json"]) =
    namesNode (s.subscriptions.get? a)

theorem Mirrors.channel_iff (h : Mirrors host t s) :
    t.node (host.root ++ ["channels", x]) = some .dir ↔ x ∈ s.channels.keys := by
  rw [h.channels]
  split
  · rename_i hx
    exact iff_of_true rfl hx
  · rename_i hx
    exact iff_of_false (by simp) hx

theorem Mirrors.clear_channel (h : Mirrors host t s) {m : String} (hm : m ∈ ["messages", "delivered"]) :
    Clear host t ["channels", x, m] := by
  intro r hr
  rcases List.prefix_cons_iff.1 hr with rfl | ⟨r₁, rfl, hr₁⟩
  · exact .inl (by rw [List.append_nil]; exact node_above h.opened.channels)
  rcases List.prefix_cons_iff.1 hr₁ with rfl | ⟨r₂, rfl, hr₂⟩
  · exact .inl h.opened.channels
  rcases List.prefix_cons_iff.1 hr₂ with rfl | ⟨r₃, rfl, hr₃⟩
  · rw [h.channels]
    split
    · exact .inl rfl
    · exact .inr rfl
  · rw [List.prefix_nil.1 hr₃]
    exact h.inner x m hm

theorem Mirrors.clear_subscriptions (h : Mirrors host t s) : Clear host t ["subscriptions"] := by
  intro r hr
  rcases List.prefix_cons_iff.1 hr with rfl | ⟨r₁, rfl, hr₁⟩
  · exact .inl (by rw [List.append_nil]; exact node_above h.opened.channels)
  · rw [List.prefix_nil.1 hr₁]
    exact .inl h.opened.subscriptions

/-! ### Reading -/

/-- A file of names is read, and one that is not there holds none. -/
theorem readNames_at {l : Option (List String)} (ht : Opened host t) (hclear : Clear host t names)
    (hnames : ∀ m ∈ names, host.accepts m = true) (hn : host.accepts n = true)
    (hnode : t.node (host.root ++ (names ++ [n])) = namesNode l) :
    readNames host ((host.root ++ names).map .down ++ [.down n]) t = .ok (l.getD []) := by
  have hway := accepts_way hnames
  cases l with
  | none =>
    have hmissing : t.stat host.accepts [] ((host.root ++ names ++ [n]).map .down) = .error .notFound := by
      refine stat_missing ?_ (fun q hq => ?_) ?_
      · intro m hm
        rcases List.mem_append.1 hm with hm | hm
        · exact hway m hm
        · rw [List.mem_singleton.1 hm]
          exact hn
      · rcases List.prefix_concat_iff.1 hq with rfl | hq
        · rw [List.nil_append, List.append_assoc]
          exact .inr hnode
        · exact hclear.way ht hq
      · rw [List.nil_append, List.append_assoc]
        exact hnode
    rw [List.map_append, List.map_singleton] at hmissing
    rw [readNames, FileTree.read, hmissing]
    rfl
  | some l =>
    rw [← List.append_assoc] at hnode
    have hfile : t.read host.accepts ((host.root ++ names).map .down ++ [.down n]) = .ok (.names l) :=
      read_file (walk_dir (p := []) (node_parent hnode) hway) hn hnode
    rw [readNames, hfile]
    rfl

theorem accepts_channel (hc : Housed host c) {m : String} (hm : m ∈ ["messages", "delivered"]) :
    ∀ k ∈ ["channels", encodeChannel c, m], host.accepts k = true := by
  intro k hk
  simp only [List.mem_cons, List.not_mem_nil, or_false] at hk
  rcases hk with rfl | rfl | rfl
  · exact accepts_own (by decide)
  · exact hc.accepts
  · rcases List.mem_cons.1 hm with rfl | hm
    · exact accepts_own (by decide)
    · rw [List.mem_singleton.1 hm]
      exact accepts_own (by decide)

theorem Mirrors.getPatterns (h : Mirrors host t s) (ha : OwnName host a) :
    getPatterns host a t = .ok (s.getPatterns a) := by
  rw [PathStore.getPatterns, subscriptionsFile_eq ha.noSlash]
  refine readNames_at h.opened h.clear_subscriptions ?_ ha.accepts (h.subscriptions a)
  intro m hm
  rw [List.mem_singleton.1 hm]
  exact accepts_own (by decide)

theorem Mirrors.getDeliveredSet (h : Mirrors host t s) (hc : Housed host c) (ha : OwnName host a) :
    getDeliveredSet host c a t = .ok (s.getDeliveredSet c a) := by
  rw [PathStore.getDeliveredSet, hc.deliveredFile ha.noSlash]
  exact readNames_at h.opened (h.clear_channel (by decide)) (accepts_channel hc (by decide)) ha.accepts
    (h.delivered (encodeChannel c) a)

theorem Mirrors.globJson (h : Mirrors host t s) (hc : Housed host c) :
    (globJson (messagesLoc host c) t).Perm (s.channelDir c).messages.keys := by
  refine (List.perm_ext_iff_of_nodup globJson_nodup (s.channelDir c).messages.nodup).2 fun n => ?_
  have hnode : t.node (messagesLoc host c ++ [n]) =
      messageNode ((s.channelDir c).messages.get? n) := by
    rw [hc.messagesLoc, List.append_assoc]
    exact h.messages (encodeChannel c) n
  rw [mem_globJson, hnode, messageNode, Option.isSome_map, Dict.isSome_get?_iff]
  exact and_iff_left_of_imp fun hn => (h.named (encodeChannel c) n hn).1

theorem Mirrors.listMessageFiles (h : Mirrors host t s) (hc : Housed host c) :
    listMessageFiles host c t = .ok ((s.listMessageFiles c).map (·.1)) := by
  rw [listMessageFiles_eq h.opened hc.accepted, sorted_eq_of_perm (h.globJson hc)]
  refine congrArg Except.ok ?_
  have hperm : ((s.listMessageFiles c).map (·.1)).Perm (s.channelDir c).messages.keys :=
    (List.perm_insertionSort _ _).map _
  have hsorted : ((s.listMessageFiles c).map (·.1)).Pairwise (· ≤ ·) :=
    List.pairwise_map.2 (List.pairwise_insertionSort (fun f g : String × MessageFile => f.1 ≤ g.1) _)
  rw [← sorted_eq_of_perm hperm]
  exact List.Pairwise.insertionSort_eq hsorted

theorem Mirrors.readMessage (h : Mirrors host t s) (hc : Housed host c) {m : MessageFile}
    (hm : (n, m) ∈ (s.channelDir c).messages.entries) :
    readMessage host c t n = .ok (.message m) := by
  have hnode : t.node (host.root ++ ["channels", encodeChannel c, "messages"] ++ [n]) = some (.file (.message m)) := by
    rw [List.append_assoc]
    refine (h.messages (encodeChannel c) n).trans ?_
    rw [show (dirAt s.channels (encodeChannel c)).messages.get? n = some m from Dict.get?_eq_some.2 hm]
    rfl
  have hn := (h.named (encodeChannel c) n (List.mem_map_of_mem (f := Prod.fst) hm)).2
  rw [PathStore.readMessage, hc.messagesDir]
  exact read_file (walk_dir (p := []) (node_parent hnode) (accepts_way (accepts_channel hc (by decide)))) hn hnode

theorem exists_listing {target names : List String} (h : target.Perm names) :
    ∃ ls : DirListing, ls.order names = target := by
  refine ⟨⟨fun l => if l = names then target else l, fun l => ?_⟩, if_pos rfl⟩
  split
  · rename_i hl
    exact hl ▸ h
  · exact .refl l

/-- The listing of the tree is one of the store. -/
theorem Mirrors.knownChannels (h : Mirrors host t s) :
    ∃ ls, knownChannels host t = .ok (s.knownChannels ls) := by
  set names := (host.listing.order ((t.list (host.root ++ ["channels"])).map (·.1))).filter fun n =>
    t.node (host.root ++ ["channels"] ++ [n]) = some .dir with hnames
  have hperm : names.Perm s.channels.keys := by
    have hlisted := host.listing.perm ((t.list (host.root ++ ["channels"])).map (·.1))
    have hkeys : s.channels.keys.Nodup := s.channels.nodup
    refine (List.perm_ext_iff_of_nodup ((hlisted.nodup_iff.2 list_nodup).filter _) hkeys).2 fun n => ?_
    rw [List.mem_filter, hlisted.mem_iff, decide_eq_true_eq, List.append_assoc, List.singleton_append,
      h.channel_iff]
    refine and_iff_right_of_imp fun hn => ?_
    have hdir : t.node (host.root ++ ["channels"] ++ [n]) = some .dir := by
      rw [List.append_assoc]
      exact h.channel_iff.2 hn
    exact List.mem_map.2 ⟨(n, .dir), mem_list.2 hdir, rfl⟩
  obtain ⟨ls, hls⟩ := exists_listing hperm
  refine ⟨ls, ?_⟩
  have hlocate : locate host (channelsDir host) t = .ok (some (host.root ++ ["channels"])) := by
    rw [locate, h.opened.walk_channels]
    dsimp only
    rw [h.opened.channels]
    rfl
  rw [PathStore.knownChannels, hlocate, FilesystemStore.knownChannels, hls]
  simp only [bind, Except.bind, h.opened.channels]
  rfl

/-! ### Writing -/

theorem Written.opened (h : Written host names n content t t') (ht : Opened host t)
    (hnames : names ++ [n] ≠ ["channels"] ∧ names ++ [n] ≠ ["subscriptions"]) : Opened host t' := by
  constructor
  · rw [h, if_neg hnames.1.symm, ht.channels, ite_self]
  · rw [h, if_neg hnames.2.symm, ht.subscriptions, ite_self]

/-- The patterns of an agent are written. -/
theorem Mirrors.set_patterns (h : Mirrors host t s) {ps : List Pattern}
    (hw : Written host ["subscriptions"] (a ++ ".json") (.names ps) t t') :
    Mirrors host t' { s with subscriptions := s.subscriptions.set a ps } := by
  refine ⟨hw.opened h.opened (by simp), h.housed, fun x => ?_, fun x m hm => ?_, fun x n => ?_, h.named,
    fun x b => ?_, fun b => ?_⟩
  · rw [hw]
    simpa using h.channels x
  · rw [hw]
    simpa using h.inner x m hm
  · rw [hw]
    simpa using h.messages x n
  · rw [hw]
    simpa using h.delivered x b
  · rw [hw, Dict.get?_set]
    by_cases hb : b = a
    · subst hb
      simp [namesNode]
    · have hne : b ++ ".json" ≠ a ++ ".json" := fun heq => hb (agentFile_inj.1 heq)
      simpa [hne, hb] using h.subscriptions b

/-- A file is written to the directory of a channel. -/
theorem Mirrors.set_dir (h : Mirrors host t s) (hc : Housed host c) {m : String}
    (hw : Written host ["channels", encodeChannel c, m] n content t t')
    {dir : ChannelDir} (hnamed : ∀ k ∈ dir.messages.keys, matchesJson k = true ∧ host.accepts k = true)
    (hmessages : ∀ k, messageNode (dir.messages.get? k) = if m = "messages" ∧ k = n then some (.file content)
      else messageNode ((s.channelDir c).messages.get? k))
    (hdelivered : ∀ b, namesNode (dir.delivered.get? b) = if m = "delivered" ∧ b ++ ".json" = n then
      some (.file content) else namesNode ((s.channelDir c).delivered.get? b)) :
    Mirrors host t' (s.setChannelDir c dir) := by
  have hkeys (x : String) : x ∈ (s.setChannelDir c dir).channels.keys ↔ x = encodeChannel c ∨ x ∈ s.channels.keys := by
    rw [FilesystemStore.setChannelDir, Dict.keys_set]
    split
    · rename_i hin
      exact ⟨.inr, fun hx => hx.elim (fun hx => hx ▸ hin) id⟩
    · rw [List.mem_append, List.mem_singleton, or_comm]
  have hdir (x : String) : dirAt (s.setChannelDir c dir).channels x =
      if x = encodeChannel c then dir else dirAt s.channels x := by
    unfold dirAt FilesystemStore.setChannelDir Dict.getD
    rw [Dict.get?_set]
    split
    · rfl
    · rfl
  refine ⟨hw.opened h.opened (by simp), fun x hx => ?_, fun x => ?_, fun x k hk => ?_, fun x k => ?_,
    fun x => ?_, fun x b => ?_, fun b => ?_⟩
  · rcases (hkeys x).1 hx with rfl | hx
    · exact ⟨c, hc, rfl⟩
    · exact h.housed x hx
  · rw [hw, h.channels]
    by_cases hx : x = encodeChannel c
    · simp [hx, hkeys]
    · simp [hx, hkeys]
  · rw [hw]
    by_cases hx : x = encodeChannel c ∧ k = m
    · simp [hx]
    · have hnot : ¬ ["channels", x, k] <+: ["channels", encodeChannel c, m] := by
        simpa [List.cons_prefix_cons] using hx
      rw [if_neg (by simp), if_neg hnot]
      exact h.inner x k hk
  · rw [hw, hdir]
    by_cases hx : x = encodeChannel c
    · subst hx
      rw [if_pos rfl, hmessages]
      have hold := h.messages (encodeChannel c) k
      by_cases hk : m = "messages" ∧ k = n
      · simp [hk]
      · have hne : ¬ (["channels", encodeChannel c, "messages", k] = ["channels", encodeChannel c, m] ++ [n]) := by
          rintro heq
          simp only [List.cons_append, List.nil_append, List.cons.injEq, and_true, true_and] at heq
          exact hk ⟨heq.1.symm, heq.2⟩
        rw [if_neg hne, if_neg hk, if_neg (by simp [List.cons_prefix_cons])]
        exact hold
    · rw [if_neg hx, if_neg (by simp [hx]), if_neg (by simp [List.cons_prefix_cons])]
      exact h.messages x k
  · rw [hdir]
    split
    · exact hnamed
    · exact h.named x
  · rw [hw, hdir]
    by_cases hx : x = encodeChannel c
    · subst hx
      rw [if_pos rfl, hdelivered]
      have hold := h.delivered (encodeChannel c) b
      by_cases hk : m = "delivered" ∧ b ++ ".json" = n
      · simp [hk]
      · have hne : ¬ (["channels", encodeChannel c, "delivered", b ++ ".json"] =
            ["channels", encodeChannel c, m] ++ [n]) := by
          rintro heq
          simp only [List.cons_append, List.nil_append, List.cons.injEq, and_true, true_and] at heq
          exact hk ⟨heq.1.symm, heq.2⟩
        rw [if_neg hne, if_neg hk, if_neg (by simp [List.cons_prefix_cons])]
        exact hold
    · rw [if_neg hx, if_neg (by simp [hx]), if_neg (by simp [List.cons_prefix_cons])]
      exact h.delivered x b
  · rw [hw, if_neg (by simp), if_neg (by simp [List.cons_prefix_cons])]
    exact h.subscriptions b

/-! ### Programs -/

/-- The process and its files. -/
structure Keeps (host : Host) (st : PathStore) (p : FilesystemProcess) : Prop where
  files : Mirrors host st.tree p.files
  groups : st.groups = p.groups
  liveness : st.liveness = p.liveness

variable {p : FilesystemProcess}

theorem yields_mark (h : Keeps host st p) (hc : Housed host c) (ha : OwnName host a) (filenames : List String) :
    Yields (Keeps host) (markDelivered host c a filenames) st (.ok ⟨⟩)
      { p with files := p.files.markDelivered c a filenames } := by
  unfold markDelivered
  refine Yields.of_look (h.files.getDeliveredSet hc ha) ?_
  rw [hc.deliveredFile ha.noSlash]
  have hfree : st.tree.node (host.root ++ (["channels", encodeChannel c, "delivered"] ++ [a ++ ".json"])) ≠
      some .dir := by
    rw [List.cons_append, List.cons_append, List.cons_append, List.nil_append, h.files.delivered, namesNode]
    simp
  obtain ⟨t', hrun, hw⟩ := atomicWrite_at h.files.opened (h.files.clear_channel (by decide))
    (accepts_channel hc (by decide)) ha.accepts hfree
      (.names (sortedNames (p.files.getDeliveredSet c a ++ filenames)))
  refine ⟨_, hrun, ⟨h.files.set_dir hc hw (h.files.named (encodeChannel c)) (fun k => ?_) fun b => ?_, h.groups,
    h.liveness⟩⟩
  · rw [if_neg (by simp)]
  · rw [Dict.get?_set]
    by_cases hb : b = a
    · simp [hb, namesNode]
    · rw [if_neg hb, if_neg (by simpa using fun heq => hb (agentFile_inj.1 heq))]

theorem yields_writePatterns (h : Keeps host st p) (ha : OwnName host a) (ps : List Pattern) :
    Yields (Keeps host) (atomicWrite host (subscriptionsFile host a) (.names ps)) st (.ok ⟨⟩)
      { p with files := { p.files with subscriptions := p.files.subscriptions.set a ps } } := by
  rw [subscriptionsFile_eq ha.noSlash]
  have hfree : st.tree.node (host.root ++ (["subscriptions"] ++ [a ++ ".json"])) ≠ some .dir := by
    rw [List.cons_append, List.nil_append, h.files.subscriptions, namesNode]
    simp
  have hown : ∀ m ∈ ["subscriptions"], host.accepts m = true := fun m hm => by
    rw [List.mem_singleton.1 hm]
    exact accepts_own (by decide)
  obtain ⟨t', hrun, hw⟩ := atomicWrite_at h.files.opened h.files.clear_subscriptions hown ha.accepts hfree (.names ps)
  exact ⟨_, hrun, ⟨h.files.set_patterns hw, h.groups, h.liveness⟩⟩

theorem yields_send (h : Keeps host st p) (now : ℚ) (args : SendArgs) (uuid : Uuid)
    (hc : Housed host args.channel) (hn : host.accepts (fileName now uuid) = true) :
    Yields (Keeps host) (send host now args uuid) st (.ok (p.files.send now args uuid).1)
      { p with files := (p.files.send now args uuid).2 } := by
  obtain ⟨t₁, hmk, ht₁, hnode₁⟩ := mkdir_at h.files.opened
    (h.files.clear_channel (x := encodeChannel args.channel) (m := "messages") (by decide))
    (accepts_channel hc (by decide))
  set way := ["channels", encodeChannel args.channel, "messages"] with hway
  -- the files are counted after the directory is made
  have hlonger (k : String) : ¬ way ++ [k] <+: way := fun hpre => by
    have := hpre.length_le
    rw [List.length_append, List.length_singleton] at this
    omega
  have hsame (k : String) : t₁.node (host.root ++ way ++ [k]) = st.tree.node (host.root ++ way ++ [k]) := by
    rw [List.append_assoc, hnode₁, if_neg (hlonger k)]
  have hqueued : (globJson (host.root ++ way) t₁).length =
      (p.files.channelDir args.channel).messages.entries.length := by
    have hperm := h.files.globJson hc
    rw [hc.messagesLoc] at hperm
    rw [(globJson_perm fun k _ => hsame k).length_eq, hperm.length_eq, Dict.keys, List.length_map]
  have hclear : Clear host t₁ way := fun r hr => by
    rw [hnode₁, if_pos hr]
    exact .inl rfl
  have hfree : t₁.node (host.root ++ (way ++ [fileName now uuid])) ≠ some .dir := by
    rw [← List.append_assoc, hsame, List.append_assoc, hway]
    show st.tree.node (host.root ++ ["channels", encodeChannel args.channel, "messages", fileName now uuid]) ≠ _
    rw [h.files.messages, messageNode]
    simp
  set seq := (p.files.channelDir args.channel).messages.entries.length + 1 with hseq
  obtain ⟨t₂, hrun, hw₂⟩ := atomicWrite_at (show Opened host ({ st with tree := t₁ } : PathStore).tree from ht₁) hclear
    (accepts_channel hc (by decide)) hn hfree (.message (SendCall.message ⟨now, args, uuid⟩ seq))
  have hw : Written host way (fileName now uuid) (.message (SendCall.message ⟨now, args, uuid⟩ seq)) st.tree t₂ := by
    intro r
    rw [hw₂, hnode₁]
    split
    · rfl
    · split
      · rfl
      · rfl
  refine ⟨{ st with tree := t₂ }, ?_, ?_, h.groups, h.liveness⟩
  · unfold send
    have hlook : lookTree (fun t => pure (globJson (host.root ++ way) t)) { st with tree := t₁ } =
      (.ok (globJson (host.root ++ way) t₁), { st with tree := t₁ }) := rfl
    rw [hc.messagesDir, bind_ok hmk, bind_ok hlook, hqueued]
    exact bind_ok hrun
  · refine h.files.set_dir hc hw (fun k hk => ?_) (fun k => ?_) fun b => ?_
    · rw [Dict.keys_set] at hk
      split at hk
      · exact h.files.named _ k hk
      · rcases List.mem_append.1 hk with hk | hk
        · exact h.files.named _ k hk
        · rw [List.mem_singleton.1 hk]
          exact ⟨matchesJson_fileName now uuid, hn⟩
    · rw [Dict.get?_set]
      by_cases hk : k = fileName now uuid
      · simp only [hk, and_self, if_true, messageNode, Option.map_some]
        rfl
      · simp [hk]
    · rw [if_neg (by simp)]

/-! ### recv -/

/-- What the paths drain, of what the store drains. -/
def lift (d : FilesystemStore.Draining) : Drained := { messages := d.messages.map .message, toMark := d.toMark }

theorem drainFiles_lift {read : String → Except FileError FileContent} {delivered : List String} {max : Int}
    {files : List (String × MessageFile)} (hread : ∀ f ∈ files, read f.1 = .ok (.message f.2))
    (d : FilesystemStore.Draining) : drainFiles read max c delivered (lift d) (files.map (·.1)) =
      lift (FilesystemStore.drainFiles max c delivered d files) := by
  induction files generalizing d with
  | nil => rfl
  | cons f files ih =>
    obtain ⟨fname, m⟩ := f
    have hrest := ih fun f hf => hread f (List.mem_cons_of_mem _ hf)
    rw [List.map_cons, drainFiles, FilesystemStore.drainFiles]
    simp only [hread _ List.mem_cons_self]
    rw [show (lift d).messages.length = d.messages.length from List.length_map _]
    split
    · rfl
    · split
      · exact hrest d
      · rw [← hrest]
        refine congrArg (drainFiles read max c delivered · _) ?_
        simp [lift]

theorem mem_toMark {delivered : List String} {max : Int} {files : List (String × MessageFile)}
    {d : FilesystemStore.Draining} (h : x ∈ (FilesystemStore.drainFiles max c delivered d files).toMark.keys) :
    x ∈ d.toMark.keys ∨ x = c := by
  induction files generalizing d with
  | nil => exact .inl h
  | cons f files ih =>
    rw [FilesystemStore.drainFiles] at h
    split at h
    · exact .inl h
    · split at h
      · exact ih h
      · rcases ih h with hin | hx
        · rw [Dict.keys_set] at hin
          split at hin
          · exact .inl hin
          · rcases List.mem_append.1 hin with hin | hin
            · exact .inl hin
            · exact .inr (List.mem_singleton.1 hin)
        · exact .inr hx

/-- What the store drains of the channels. -/
def drained (s : FilesystemStore) (a : AgentId) (max : Int) (cs : List Channel) (d : FilesystemStore.Draining) :
    FilesystemStore.Draining :=
  cs.foldl (fun d ch => FilesystemStore.drainFiles max ch (s.getDeliveredSet ch a) d (s.listMessageFiles ch)) d

theorem Mirrors.drained (h : Mirrors host t s) (ha : OwnName host a) {max : Int} {cs : List Channel}
    (hcs : ∀ c ∈ cs, Housed host c) (d : FilesystemStore.Draining) :
    cs.foldlM (drainChannel host a max t) (lift d) = .ok (lift (PathStore.drained s a max cs d)) := by
  induction cs generalizing d with
  | nil => rfl
  | cons c cs ih =>
    have hc := hcs c List.mem_cons_self
    have hread : ∀ f ∈ s.listMessageFiles c, PathStore.readMessage host c t f.1 = .ok (.message f.2) := fun f hf =>
      h.readMessage hc ((List.mem_insertionSort _).1 hf)
    have hfirst : drainChannel host a max t (lift d) c = .ok (lift (FilesystemStore.drainFiles max c
        (s.getDeliveredSet c a) d (s.listMessageFiles c))) := by
      rw [drainChannel, h.listMessageFiles hc, h.getDeliveredSet hc ha, ← drainFiles_lift hread]
      rfl
    rw [List.foldlM_cons, hfirst]
    exact ih (fun c' hc' => hcs c' (List.mem_cons_of_mem c hc')) _

theorem mem_toMark_drained {max : Int} {cs : List Channel} {d : FilesystemStore.Draining}
    (h : c ∈ (drained s a max cs d).toMark.keys) : c ∈ d.toMark.keys ∨ c ∈ cs := by
  induction cs generalizing d with
  | nil => exact .inl h
  | cons c' cs ih =>
    rcases ih h with hin | hin
    · rcases mem_toMark hin with hin | rfl
      · exact .inl hin
      · exact .inr List.mem_cons_self
    · exact .inr (List.mem_cons_of_mem c' hin)

/-- The files of the delivered sets, one after another. -/
def markAll (a : AgentId) (marks : List (Channel × List String)) (s : FilesystemStore) : FilesystemStore :=
  marks.foldl (fun s e => s.markDelivered e.1 a e.2) s

theorem Mirrors.housed_known (h : Mirrors host t s) {ls : DirListing} (hc : c ∈ s.knownChannels ls) :
    Housed host c := by
  obtain ⟨x, hx, rfl⟩ := List.mem_map.1 hc
  obtain ⟨c, hhoused, rfl⟩ := h.housed x ((ls.perm _).mem_iff.1 hx)
  rwa [decodeChannel_encodeChannel]

theorem yields_markAll (h : Keeps host st p) (ha : OwnName host a) {marks : List (Channel × List String)}
    (hmarks : ∀ e ∈ marks, Housed host e.1) :
    Yields (Keeps host) (marks.forM fun e => markDelivered host e.1 a e.2) st (.ok ⟨⟩)
      { p with files := markAll a marks p.files } := by
  have hrun := yields_forM (R := Keeps host) (g := fun p (e : Channel × List String) =>
    ({ p with files := p.files.markDelivered e.1 a e.2 } : FilesystemProcess))
    (fun e he st p hp => yields_mark hp (hmarks e he) ha e.2) h
  have hfold : ∀ (marks : List (Channel × List String)) (p : FilesystemProcess),
      marks.foldl (fun p (e : Channel × List String) =>
        ({ p with files := p.files.markDelivered e.1 a e.2 } : FilesystemProcess)) p =
        { p with files := markAll a marks p.files } := by
    intro marks
    induction marks with
    | nil => exact fun _ => rfl
    | cons e marks ih => exact fun p => ih _
  rwa [hfold] at hrun

theorem yields_recv (h : Keeps host st p) (ha : OwnName host a) (channels : Option (List Channel)) (max : Int)
    (hcs : ∀ cs, channels = some cs → ∀ c ∈ cs, Housed host c) :
    ∃ ls, Yields (Keeps host) (recv host a channels max) st (.ok (p.files.recv ls a channels max).1)
      { p with files := (p.files.recv ls a channels max).2 } := by
  obtain ⟨ls, hknown⟩ := h.files.knownChannels
  refine ⟨ls, ?_⟩
  set targets := p.files.targets ls a channels with htargets
  have hhoused : ∀ c ∈ targets, Housed host c := by
    intro c hc
    cases channels with
    | none => exact h.files.housed_known (List.mem_of_mem_filter hc)
    | some cs => exact hcs cs rfl c hc
  have hfiles : p.files.recv ls a channels max =
      (FilesystemStore.sortByTime (drained p.files a max targets {}).messages,
        markAll a (drained p.files a max targets {}).toMark.entries p.files) := by
    cases channels with
    | none => rfl
    | some cs => rfl
  rw [hfiles]
  have hrest : ∀ st, Keeps host st p → Yields (Keeps host) (do
      let d ← lookTree fun t => targets.foldlM (drainChannel host a max t) {}
      d.toMark.entries.forM fun e => markDelivered host e.1 a e.2
      let messages ← lookTree fun _ => messagesOf d.messages
      pure (FilesystemStore.sortByTime messages)) st
      (.ok (FilesystemStore.sortByTime (drained p.files a max targets {}).messages))
      { p with files := markAll a (drained p.files a max targets {}).toMark.entries p.files } := by
    intro st h
    refine Yields.of_look (h.files.drained ha hhoused {}) ?_
    refine (yields_markAll h ha fun e he => ?_).bind fun st h => ?_
    · rcases mem_toMark_drained (List.mem_map_of_mem (f := Prod.fst) he) with hin | hin
      · exact absurd hin List.not_mem_nil
      · exact hhoused _ hin
    · exact Yields.of_look (messagesOf_map _) (yields_pure h)
  unfold recv
  refine Yields.of_look (h.files.getPatterns ha) ?_
  cases channels with
  | none => exact Yields.of_look hknown ((yields_pure h).bind hrest)
  | some cs => exact (yields_pure h).bind hrest

/-! ### subscribe and unsubscribe -/

theorem yields_subscribe (h : Keeps host st p) (ha : OwnName host a) (pattern : Pattern) :
    ∃ ls, Yields (Keeps host) (subscribe host a pattern) st (.ok (p.files.subscribe ls a pattern).1)
      { p with files := (p.files.subscribe ls a pattern).2 } := by
  -- the channels are listed after the file is written, and are the same
  have hrest (st : PathStore) {files : FilesystemStore} (h : Keeps host st { p with files })
      (hfiles : files.channels = p.files.channels) : ∃ ls, Yields (Keeps host) (do
        let known ← lookTree (PathStore.knownChannels host)
        pure (known.filter (Glob.fnmatchcase · pattern))) st (.ok (p.files.subscribe ls a pattern).1)
        { p with files } := by
    obtain ⟨ls, hknown⟩ := h.files.knownChannels
    refine ⟨ls, Yields.of_look hknown ?_⟩
    have hsame : files.knownChannels ls = p.files.knownChannels ls := by
      rw [FilesystemStore.knownChannels, FilesystemStore.knownChannels, hfiles]
    rw [show FilesystemStore.knownChannels ls ({ p with files } : FilesystemProcess).files = _ from hsame]
    exact yields_pure h
  unfold subscribe
  by_cases hin : pattern ∈ p.files.getPatterns a
  · obtain ⟨ls, hrun⟩ := hrest st h rfl
    refine ⟨ls, Yields.of_look (h.files.getPatterns ha) ?_⟩
    rw [if_neg (not_not.2 hin)]
    rw [show (p.files.subscribe ls a pattern).2 = p.files by rw [FilesystemStore.subscribe, if_pos hin]]
    exact hrun
  · obtain ⟨st', hwrite, h'⟩ := yields_writePatterns h ha (p.files.getPatterns a ++ [pattern])
    obtain ⟨ls, hrun⟩ := hrest st' h' rfl
    refine ⟨ls, Yields.of_look (h.files.getPatterns ha) ?_⟩
    rw [if_pos hin]
    rw [show (p.files.subscribe ls a pattern).2 = { p.files with
      subscriptions := p.files.subscriptions.set a (p.files.getPatterns a ++ [pattern]) } by
        rw [FilesystemStore.subscribe, if_neg hin]]
    obtain ⟨st'', hrun', h''⟩ := hrun
    exact ⟨st'', (bind_ok hwrite).trans hrun', h''⟩

theorem yields_clear (h : Keeps host st p) (hc : Housed host c) (ha : OwnName host a) :
    Yields (Keeps host) (clearChannel host a c) st (.ok (FilesystemStore.clearChannel a (0, p.files) c).1)
      { p with files := (FilesystemStore.clearChannel a (0, p.files) c).2 } := by
  unfold clearChannel FilesystemStore.clearChannel
  refine Yields.of_look (h.files.getDeliveredSet hc ha) (Yields.of_look (h.files.listMessageFiles hc) ?_)
  dsimp only
  rw [Nat.zero_add]
  generalize ((p.files.listMessageFiles c).map (·.1)).filter (· ∉ p.files.getDeliveredSet c a) = toMark
  cases toMark with
  | nil => exact yields_pure h
  | cons n rest => exact (yields_mark h hc ha (n :: rest)).bind fun st h => yields_pure h

theorem clear_count (k : Nat) (cs : List Channel) (s : FilesystemStore) :
    cs.foldl (FilesystemStore.clearChannel a) (k, s) =
      (k + (cs.foldl (FilesystemStore.clearChannel a) (0, s)).1,
        (cs.foldl (FilesystemStore.clearChannel a) (0, s)).2) := by
  induction cs generalizing k s with
  | nil => rfl
  | cons c cs ih =>
    have hfirst (k : Nat) : FilesystemStore.clearChannel a (k, s) c =
        (k + (FilesystemStore.clearChannel a (0, s) c).1, (FilesystemStore.clearChannel a (0, s) c).2) := by
      simp [FilesystemStore.clearChannel]
    rw [List.foldl_cons, List.foldl_cons, hfirst, ih, ih ((FilesystemStore.clearChannel a (0, s) c).1), Nat.add_assoc]

theorem yields_clearAll (h : Keeps host st p) (ha : OwnName host a) {cs : List Channel}
    (hcs : ∀ c ∈ cs, Housed host c) : Yields (Keeps host) (clearChannels host a cs) st
      (.ok (cs.foldl (FilesystemStore.clearChannel a) (0, p.files)).1)
      { p with files := (cs.foldl (FilesystemStore.clearChannel a) (0, p.files)).2 } := by
  induction cs generalizing st p with
  | nil => exact yields_pure h
  | cons c cs ih =>
    rw [clearChannels, List.foldl_cons]
    refine (yields_clear h (hcs c List.mem_cons_self) ha).bind fun st h => ?_
    have hrest := ih h fun c' hc' => hcs c' (List.mem_cons_of_mem c hc')
    rw [show FilesystemStore.clearChannel a (0, p.files) c = ((FilesystemStore.clearChannel a (0, p.files) c).1,
      (FilesystemStore.clearChannel a (0, p.files) c).2) from rfl, clear_count]
    exact hrest.bind fun st h => yields_pure h

theorem yields_unsubscribe (h : Keeps host st p) (ha : OwnName host a) (patterns : List Pattern) :
    ∃ ls, Yields (Keeps host) (unsubscribe host a patterns) st (.ok (p.files.unsubscribe ls a patterns).1)
      { p with files := (p.files.unsubscribe ls a patterns).2 } := by
  set removed := (p.files.getPatterns a).filter (· ∈ patterns) with hremoved
  unfold unsubscribe
  by_cases hnil : removed.isEmpty = true
  · refine ⟨inOrder, Yields.of_look (h.files.getPatterns ha) ?_⟩
    rw [if_pos hnil, FilesystemStore.unsubscribe]
    dsimp only
    rw [if_pos hnil]
    exact yields_pure h
  · set kept := (p.files.getPatterns a).filter (· ∉ patterns) with hkept
    obtain ⟨st', hwrite, h'⟩ := yields_writePatterns h ha kept
    obtain ⟨ls, hknown⟩ := h'.files.knownChannels
    refine ⟨ls, Yields.of_look (h.files.getPatterns ha) ?_⟩
    rw [if_neg hnil, FilesystemStore.unsubscribe]
    dsimp only
    rw [if_neg hnil]
    have hhoused : ∀ c ∈ (p.files.knownChannels ls).filter (FilesystemStore.matchesAny · removed), Housed host c :=
      fun c hc => h.files.housed_known (List.mem_of_mem_filter hc)
    have hclear := yields_clearAll h' ha hhoused
    obtain ⟨st'', hrun, h''⟩ := hclear
    have hlook : lookTree (PathStore.knownChannels host) st' = (.ok (p.files.knownChannels ls), st') := by
      show (PathStore.knownChannels host st'.tree, st') = _
      rw [hknown]
      rfl
    refine ⟨st'', ?_, h''⟩
    rw [bind_ok hwrite, bind_ok hlook, bind_ok hrun]
    rfl

/-! ### Every call -/

variable {op : StoreOp} {uuid : Uuid}

/-- One call. An acknowledgement changes no file. -/
def perform (host : Host) (uuid : Uuid) : StoreOp → StoreM FileReply
  | .send now args => do
    let receipt ← send host now args uuid
    pure (.sent receipt)
  | .recv a channels max => do
    let messages ← recv host a channels max
    pure (.messages messages)
  | .subscribe a p => do
    let channels ← subscribe host a p
    pure (.channels channels)
  | .unsubscribe a ps => do
    let r ← unsubscribe host a ps
    pure (.removed r.1 r.2)
  | .ack now _ messageId status _ => pure (.control (.acked { messageId, status, ackedAt := now }))
  | .heartbeat now sendNow a status ttl => do
    let receipt ← heartbeat host now sendNow uuid a status ttl
    pure (.control (.beat receipt))
  | .groupCreate now a gid => do
    let created ← groupCreate host now a gid
    pure (.control (.created created))
  | .groupInvite now a gid b => do
    let invited ← groupInvite now a gid b
    pure (.control (.invited invited))
  | .groupJoin now a gid => do
    let joined ← groupJoin host now a gid
    pure (.control (.joined joined))
  | .groupLeave now a gid => do
    let left ← groupLeave host now a gid
    pure (.control (.left left))

/-- Each channel that the call names has a directory of its own, the agent it is made for has files of its own,
and the host takes the name of the file. -/
def Fits (host : Host) (uuid : Uuid) : StoreOp → Prop
  | .send now args => Housed host args.channel ∧ host.accepts (fileName now uuid) = true
  | .heartbeat _ sendNow _ _ _ => Housed host presenceChannel ∧ host.accepts (fileName sendNow uuid) = true
  | .recv a channels _ => OwnName host a ∧ ∀ cs, channels = some cs → ∀ c ∈ cs, Housed host c
  | .subscribe a _ | .unsubscribe a _ => OwnName host a
  | .groupCreate _ a _ | .groupJoin _ a _ | .groupLeave _ a _ => OwnName host a
  | .ack .. | .groupInvite .. => True

theorem yields_of_remember {α : Type} {f : PathStore → PathStore} {k : PUnit → StoreM α} {r : Except StoreError α}
    (h : Yields (Keeps host) (k ⟨⟩) (f st) r p) : Yields (Keeps host) (remember f >>= k) st r p := by
  obtain ⟨st', hrun, h'⟩ := h
  have hf : remember f st = (.ok ⟨⟩, f st) := rfl
  exact ⟨st', (bind_ok hf).trans hrun, h'⟩

theorem yields_heartbeat (h : Keeps host st p) (now sendNow : ℚ) (status : String) (ttl : Option Int)
    (hc : Housed host presenceChannel) (hn : host.accepts (fileName sendNow uuid) = true) :
    Yields (Keeps host) (heartbeat host now sendNow uuid a status ttl) st
      (.ok (p.heartbeat now sendNow uuid a status ttl).1) (p.heartbeat now sendNow uuid a status ttl).2 := by
  have hlive := h.liveness
  obtain ⟨tree, groups, liveness⟩ := st
  subst hlive
  set live : Dict AgentId Liveness := p.liveness.set a { status, recordedAt := now, expiresAt := now + effectiveTtl ttl
                                                         ns := (p.liveness.get? a).bind (·.ns) } with hset
  have hkeeps : Keeps host ⟨tree, groups, live⟩ { p with liveness := live } := ⟨h.files, h.groups, rfl⟩
  have hsend := yields_send hkeeps sendNow (presenceArgs a status now) uuid hc hn
  unfold heartbeat
  exact yields_of_remember (hsend.bind fun st h => yields_pure h)

theorem yields_groupCreate (h : Keeps host st p) (ha : OwnName host a) (now : ℚ) (gid : Option String) :
    ∃ ls, Yields (Keeps host) (groupCreate host now a gid) st (.ok (p.groupCreate ls now a gid).1)
      (p.groupCreate ls now a gid).2 := by
  have hgroups := h.groups
  obtain ⟨tree, groups, liveness⟩ := st
  subst hgroups
  set created := p.groups.set (fullGroupId now gid) [{ agentId := a, status := .active, joinedAt := now }] with hset
  have hkeeps : Keeps host ⟨tree, created, liveness⟩ { p with groups := created } := ⟨h.files, rfl, h.liveness⟩
  obtain ⟨ls, hsub⟩ := yields_subscribe hkeeps ha (fullGroupId now gid)
  exact ⟨ls, yields_of_remember (hsub.bind fun st h => yields_pure h)⟩

theorem yields_groupInvite (h : Keeps host st p) (now : ℚ) (g : String) :
    Yields (Keeps host) (groupInvite now a g b) st ((p.groupInvite now a g b).1.mapError .value)
      (p.groupInvite now a g b).2 := by
  have hgroups := h.groups
  obtain ⟨tree, groups, liveness⟩ := st
  subst hgroups
  unfold groupInvite FilesystemProcess.groupInvite
  refine Yields.of_look (a := p.groups.getD g []) rfl ?_
  dsimp only
  by_cases hactive : isActiveMember a (p.groups.getD g []) = true
  · rw [if_pos hactive, if_pos hactive]
    exact yields_of_remember (yields_pure ⟨h.files, rfl, h.liveness⟩)
  · rw [if_neg hactive, if_neg hactive]
    exact yields_throw h

theorem yields_groupJoin (h : Keeps host st p) (ha : OwnName host a) (now : ℚ) (g : String) :
    ∃ ls, Yields (Keeps host) (groupJoin host now a g) st (.ok (p.groupJoin ls now a g).1)
      (p.groupJoin ls now a g).2 := by
  have hgroups := h.groups
  obtain ⟨tree, groups, liveness⟩ := st
  subst hgroups
  set members := acceptInvite now a (p.groups.getD g []) with hmembers
  set joined := if (p.groups.get? g).isSome then p.groups.set g members else p.groups with hjoined
  have hkeeps : Keeps host ⟨tree, joined, liveness⟩ { p with groups := joined } := ⟨h.files, rfl, h.liveness⟩
  obtain ⟨ls, hsub⟩ := yields_subscribe hkeeps ha g
  refine ⟨ls, Yields.of_look (a := members) rfl (yields_of_remember ?_)⟩
  have hst : (if (p.groups.get? g).isSome = true then (⟨tree, p.groups.set g members, liveness⟩ : PathStore)
      else ⟨tree, p.groups, liveness⟩) =
        ⟨tree, if (p.groups.get? g).isSome then p.groups.set g members else p.groups, liveness⟩ := by
    split
    · rfl
    · rfl
  show Yields _ _ (if (p.groups.get? g).isSome = true then (⟨tree, p.groups.set g members, liveness⟩ : PathStore)
      else ⟨tree, p.groups, liveness⟩) _ _
  rw [hst]
  exact hsub.bind fun st h => yields_pure h

theorem yields_groupLeave (h : Keeps host st p) (ha : OwnName host a) (now : ℚ) (g : String) :
    Yields (Keeps host) (groupLeave host now a g) st (.ok (p.groupLeave now a g).1) (p.groupLeave now a g).2 := by
  have hgroups := h.groups
  obtain ⟨tree, groups, liveness⟩ := st
  subst hgroups
  refine yields_of_remember (Yields.of_look (h.files.getPatterns ha) ?_)
  set remaining := p.groups.set g ((p.groups.getD g []).filter (·.agentId != a)) with hset
  have hkeeps : Keeps host ⟨tree, remaining, liveness⟩ { p with groups := remaining } := ⟨h.files, rfl, h.liveness⟩
  have hwrite := yields_writePatterns hkeeps ha ((p.files.getPatterns a).filter (· != g))
  exact hwrite.bind fun st h => yields_pure h

theorem yields_perform (h : Keeps host st p) (hfits : Fits host uuid op) :
    ∃ ls, Yields (Keeps host) (perform host uuid op) st (p.perform ⟨op, ls, uuid⟩).1 (p.perform ⟨op, ls, uuid⟩).2 := by
  cases op with
  | send now args =>
    exact ⟨inOrder, (yields_send h now args uuid hfits.1 hfits.2).bind fun st h => yields_pure h⟩
  | recv a channels max =>
    obtain ⟨ls, hrun⟩ := yields_recv h hfits.1 channels max hfits.2
    exact ⟨ls, hrun.bind fun st h => yields_pure h⟩
  | subscribe a ps =>
    obtain ⟨ls, hrun⟩ := yields_subscribe h hfits ps
    exact ⟨ls, hrun.bind fun st h => yields_pure h⟩
  | unsubscribe a ps =>
    obtain ⟨ls, hrun⟩ := yields_unsubscribe h hfits ps
    exact ⟨ls, hrun.bind fun st h => yields_pure h⟩
  | ack now a mid status reason => exact ⟨inOrder, yields_pure ⟨h.files, h.groups, h.liveness⟩⟩
  | heartbeat now sendNow a status ttl =>
    exact ⟨inOrder, (yields_heartbeat h now sendNow status ttl hfits.1 hfits.2).bind fun st h => yields_pure h⟩
  | groupCreate now a gid =>
    obtain ⟨ls, hrun⟩ := yields_groupCreate h hfits now gid
    exact ⟨ls, hrun.bind fun st h => yields_pure h⟩
  | groupInvite now a g b =>
    obtain ⟨st', hrun, h'⟩ := yields_groupInvite (a := a) (b := b) h now g
    refine ⟨inOrder, st', ?_, h'⟩
    show (groupInvite now a g b >>= fun i => pure (FileReply.control (.invited i))) st = _
    rw [bind_apply, hrun]
    show _ = (((p.groupInvite now a g b).1.mapError StoreError.value).map _, st')
    cases (p.groupInvite now a g b).1 <;> rfl
  | groupJoin now a g =>
    obtain ⟨ls, hrun⟩ := yields_groupJoin h hfits now g
    exact ⟨ls, hrun.bind fun st h => yields_pure h⟩
  | groupLeave now a g =>
    exact ⟨inOrder, (yields_groupLeave h hfits now g).bind fun st h => yields_pure h⟩

/-! ### Runs -/

/-- A call, or the process ends and another one opens the store. -/
inductive Event (κ : Type) where
  | call (k : κ)
  | reopen

def step (host : Host) : Event (StoreOp × Uuid) → PathStore → Option (Except StoreError FileReply) × PathStore
  | .call k, st => ((perform host k.2 k.1 st).1, (perform host k.2 k.1 st).2)
  | .reopen, st => (none, (initializeStore host { tree := st.tree }).2)

/-- What is in memory is lost. -/
def stepFiles : Event HostedOp → FilesystemProcess → Option (Except StoreError FileReply) × FilesystemProcess
  | .call k, p => ((p.perform k).1, (p.perform k).2)
  | .reopen, p => (none, { files := p.files })

def forget : Event HostedOp → Event (StoreOp × Uuid)
  | .call k => .call (k.op, k.uuid)
  | .reopen => .reopen

/-- The answers to the events, and the state after them. -/
def trace {ε σ ρ : Type} (step : ε → σ → ρ × σ) : List ε → σ → List ρ × σ
  | [], s => ([], s)
  | e :: es, s => ((step e s).1 :: (trace step es (step e s).2).1, (trace step es (step e s).2).2)

/-- Opening the store again makes no directory. -/
theorem reopen_tree (h : Opened host t) : initializeStore host { tree := t } = (.ok ⟨⟩, { tree := t }) := by
  have hroot : mkdir host (host.root.map .down) { tree := t } = (.ok host.root, { tree := t }) := by
    refine mkdir_eq (mkdirs_walk (walk_dir (p := []) ?_ fun n hn => accepts_root hn) ?_)
    · exact node_above h.channels
    · exact node_above h.channels
  have hchannels : mkdir host (channelsDir host) { tree := t } = (.ok (host.root ++ ["channels"]), { tree := t }) :=
    mkdir_eq (mkdirs_walk h.walk_channels h.channels)
  have hsubscriptions : mkdir host (subscriptionsDir host) { tree := t } =
      (.ok (host.root ++ ["subscriptions"]), { tree := t }) :=
    mkdir_eq (mkdirs_walk h.walk_subscriptions h.subscriptions)
  unfold initializeStore
  rw [bind_ok hroot, bind_ok hchannels, bind_ok hsubscriptions]
  rfl

/-- A store that has just been opened has nothing in memory. -/
theorem initialize_memory (st : PathStore) : (initializeStore host st).2.groups = st.groups ∧
    (initializeStore host st).2.liveness = st.liveness := by
  unfold initializeStore mkdir
  rw [bind_apply]
  dsimp only
  split
  · rename_i heq
    obtain ⟨-, rfl⟩ := Prod.mk.inj heq
    rw [bind_apply]
    dsimp only
    split
    · rename_i heq
      obtain ⟨-, rfl⟩ := Prod.mk.inj heq
      rw [bind_apply]
      dsimp only
      split
      · rename_i heq
        obtain ⟨-, rfl⟩ := Prod.mk.inj heq
        exact ⟨rfl, rfl⟩
      · rename_i heq
        obtain ⟨-, rfl⟩ := Prod.mk.inj heq
        exact ⟨rfl, rfl⟩
    · rename_i heq
      obtain ⟨-, rfl⟩ := Prod.mk.inj heq
      exact ⟨rfl, rfl⟩
  · rename_i heq
    obtain ⟨-, rfl⟩ := Prod.mk.inj heq
    exact ⟨rfl, rfl⟩

theorem mirrors_init (disk : EmptyDisk host) :
    Mirrors host (initializeStore host { tree := disk.tree }).2.tree .init := by
  have hstored := stored_initialize disk
  set t := (initializeStore host { tree := disk.tree }).2.tree
  -- two names below the root there is nothing
  have hnone (m k : String) (rest : List String) : t.node (host.root ++ m :: k :: rest) = none := by
    by_contra hne
    obtain ⟨x, hx⟩ := Option.ne_none_iff_exists'.1 hne
    rcases hstored.only _ x (List.prefix_append _ _) hx with ⟨p, hp, -⟩ | ⟨-, hq | hq | hq | ⟨p, hp, -⟩⟩
    · exact List.not_mem_nil hp
    · rw [List.length_append, List.length_cons] at hq
      omega
    · simp at hq
    · simp at hq
    · exact List.not_mem_nil hp
  refine ⟨hstored.opened, fun x hx => absurd hx List.not_mem_nil, fun x => hnone _ _ _, fun x m _ => .inr (hnone _ _ _),
    fun x n => hnone _ _ _, fun x n hn => absurd hn List.not_mem_nil, fun x a => hnone _ _ _, fun a => hnone _ _ _⟩

theorem step_follows (h : Keeps host st p) {e : Event (StoreOp × Uuid)} (hfits : ∀ k, e = .call k → Fits host k.2 k.1) :
    ∃ f, forget f = e ∧ (step host e st).1 = (stepFiles f p).1 ∧ Keeps host (step host e st).2 (stepFiles f p).2 := by
  cases e with
  | call k =>
    obtain ⟨op, uuid⟩ := k
    obtain ⟨ls, st', hrun, h'⟩ := yields_perform h (hfits _ rfl)
    refine ⟨.call ⟨op, ls, uuid⟩, rfl, ?_, ?_⟩
    · exact congrArg (fun r => some r.1) hrun
    · show Keeps host (perform host uuid op st).2 _
      rw [hrun]
      exact h'
  | reopen =>
    refine ⟨.reopen, rfl, rfl, ?_⟩
    show Keeps host (initializeStore host { tree := st.tree }).2 _
    rw [reopen_tree h.files.opened]
    exact ⟨h.files, rfl, rfl⟩

theorem trace_follows (h : Keeps host st p) {es : List (Event (StoreOp × Uuid))}
    (hfits : ∀ k, .call k ∈ es → Fits host k.2 k.1) : ∃ fs, fs.map forget = es ∧
      (trace (step host) es st).1 = (trace stepFiles fs p).1 ∧
      Keeps host (trace (step host) es st).2 (trace stepFiles fs p).2 := by
  induction es generalizing st p with
  | nil => exact ⟨[], rfl, rfl, h⟩
  | cons e es ih =>
    obtain ⟨f, hf, hreply, h'⟩ := step_follows h (e := e) fun k hk => hfits k (hk ▸ List.mem_cons_self)
    obtain ⟨fs, hfs, hreplies, hend⟩ := ih h' fun k hk => hfits k (List.mem_cons_of_mem e hk)
    exact ⟨f :: fs, congrArg₂ List.cons hf hfs, congrArg₂ List.cons hreply hreplies, hend⟩

theorem Mirrors.replay (h : Mirrors host t s) (hc : Housed host c) (since : Int) (untilSeq : Option Int) (limit : Int) :
    replay host c since untilSeq limit t = .ok (s.replay c since untilSeq limit) := by
  have hfile : ∀ f ∈ s.listMessageFiles c, readable host c t f.1 = some (.message f.2) := fun f hf => by
    rw [readable, h.readMessage hc ((List.mem_insertionSort _).1 hf)]
  have hread (files : List (String × MessageFile)) (hfiles : ∀ f ∈ files, readable host c t f.1 = some (.message f.2)) :
      (files.map (·.1)).filterMap (readable host c t) = (files.map (·.2)).map .message := by
    induction files with
    | nil => rfl
    | cons f files ih =>
      rw [List.map_cons, List.filterMap_cons, hfiles f List.mem_cons_self, List.map_cons, List.map_cons,
        ih fun f' hf' => hfiles f' (List.mem_cons_of_mem f hf')]
  rw [replay_eq, h.listMessageFiles hc, FilesystemStore.replay]
  simp only [Except.bind, hread _ hfile, messagesOf_map]
  rfl

def callsIn : List (Event HostedOp) → List HostedOp
  | [] => []
  | .call k :: fs => k :: callsIn fs
  | .reopen :: fs => callsIn fs

/-- Opening the store again changes no file. -/
theorem files_trace (fs : List (Event HostedOp)) (p : FilesystemProcess) :
    (trace stepFiles fs p).2.files = (callsIn fs).foldl HostedOp.apply p.files := by
  induction fs generalizing p with
  | nil => rfl
  | cons f fs ih =>
    cases f with
    | call k =>
      refine (ih _).trans ?_
      rw [callsIn, List.foldl_cons, ← FilesystemProcess.files_perform]
      rfl
    | reopen => exact ih _

/-- A store that is opened on an empty disk, and any calls and reopenings after that. For some order in which the
directories are listed, every call answers what it answers without paths; the disk holds the store that the calls
alone make of the files, and replays what that store replays. -/
theorem disk_holds_store (disk : EmptyDisk host) (es : List (Event (StoreOp × Uuid)))
    (hfits : ∀ k, .call k ∈ es → Fits host k.2 k.1) :
    let opened := (initializeStore host { tree := disk.tree }).2
    ∃ fs, fs.map forget = es ∧ (trace (step host) es opened).1 = (trace stepFiles fs .init).1 ∧
      Keeps host (trace (step host) es opened).2 (trace stepFiles fs .init).2 ∧
      (trace stepFiles fs .init).2.files = FilesystemStore.afterCalls (callsIn fs) ∧
      ∀ c, Housed host c → ∀ since untilSeq limit, replay host c since untilSeq limit (trace (step host) es opened).2.tree =
        .ok ((FilesystemStore.afterCalls (callsIn fs)).replay c since untilSeq limit) := by
  intro opened
  obtain ⟨hgroups, hliveness⟩ := initialize_memory { tree := disk.tree }
  have hopened : Keeps host opened .init := ⟨mirrors_init disk, hgroups, hliveness⟩
  obtain ⟨fs, hforget, hreplies, hend⟩ := trace_follows hopened hfits
  have hfiles : (trace stepFiles fs .init).2.files = FilesystemStore.afterCalls (callsIn fs) := files_trace fs .init
  refine ⟨fs, hforget, hreplies, hend, hfiles, fun c hc since untilSeq limit => ?_⟩
  rw [hend.files.replay hc, hfiles]

/-- bob drains what alice sent, and once more after the store was opened again. -/
def bobReopens : List (Event (StoreOp × Uuid)) :=
  [.call (.subscribe "bob" "#*", uuidOf '1'), .call (.send 5 ⟨"#a", "alice", .empty, none, none⟩, uuidOf '2'),
    .call (.recv "bob" none 5, uuidOf '3'), .reopen, .call (.recv "bob" none 5, uuidOf '4')]

def handedOut : Option (Except StoreError FileReply) → Nat
  | some (.ok (.messages ms)) => ms.length
  | _ => 0

theorem disk_holds_store_bob :
    let opened := (initializeStore plainHost { tree := noFiles.tree }).2
    (trace (step plainHost) bobReopens opened).1.map handedOut = [0, 0, 1, 0, 0] ∧
      ∃ fs, fs.map forget = bobReopens ∧ (trace (step plainHost) bobReopens opened).1 = (trace stepFiles fs .init).1 := by
  have hfits : ∀ k, .call k ∈ bobReopens → Fits plainHost k.2 k.1 := by
    intro k hk
    have hbob : OwnName plainHost "bob" := ⟨by decide, rfl⟩
    simp only [bobReopens, List.mem_cons, Event.call.injEq, reduceCtorEq, List.not_mem_nil, or_false, false_or] at hk
    rcases hk with rfl | rfl | rfl | rfl
    · exact hbob
    · exact ⟨⟨by decide, by decide, by decide, rfl⟩, rfl⟩
    · exact ⟨hbob, fun cs hcs => by cases hcs⟩
    · exact ⟨hbob, fun cs hcs => by cases hcs⟩
  obtain ⟨fs, hforget, hreplies, -⟩ := disk_holds_store noFiles bobReopens hfits
  exact ⟨by decide +kernel, fs, hforget, hreplies⟩

end PathStore

end Sox
