import Mathlib.Data.Prod.Lex
import Sox.FilesystemLayout
import Sox.Lib.Feed

/-!
# The files of each channel

Sends to any channels on an empty store. The directories that are made are those of the names sent to,
each with its messages: `Stored` says so of every location below the root, for all names. The names `.`
and `..` are directories themselves: their messages lie in `channels/messages` and in `messages`, and
neither is among the known channels (`channels_apart_iff`).
-/

namespace Sox

/-- A call of `send`, with what the clock and `uuid4` give. -/
structure SendCall where
  now : ℚ
  args : SendArgs
  uuid : Uuid

namespace SendCall

def channel (p : SendCall) : Channel := p.args.channel

def fileName (p : SendCall) : String := Sox.fileName p.now p.uuid

/-- The message of the call, as the message of the channel with this number. -/
def message (p : SendCall) (seq : Nat) : MessageFile :=
  { messageId := encodeChannel p.channel ++ "/" ++ p.fileName, channel := p.channel, sender := p.args.sender
    body := p.args.body, correlationId := p.args.correlationId, sentAt := p.now, seq
    replyTo := p.args.replyTo }

end SendCall

/-- The sends to a channel, numbered from 1. -/
def numbered (c : Channel) (calls : List SendCall) : List (SendCall × Nat) :=
  (calls.filter (·.channel = c)).mapIdx fun i p => (p, i + 1)

namespace PathStore

open FileTree Effect

/-- A disk without the store: nothing is at its root or below, and no file on the way there. -/
structure EmptyDisk (host : Host) where
  tree : StoreTree
  free : ∀ q, host.root <+: q → q ≠ [] → tree.node q = none
  way : ∀ q, q <+: host.root → tree.node q = some .dir ∨ tree.node q = none

/-- Sends that the file system takes the names of; `uuid4` does not repeat itself. -/
structure Sends (host : Host) where
  calls : List SendCall
  named : ∀ p ∈ calls, p.channel ≠ "" ∧ Accepted host p.channel ∧ host.accepts p.fileName = true
  distinct : (calls.map (·.uuid)).Nodup

section
variable (host : Host)

/-- Opens a store on the disk and sends. -/
def sendAll (tree : StoreTree) (calls : List SendCall) : PathStore :=
  calls.foldl (fun s p => (send host p.now p.args p.uuid s).2) (initializeStore host { tree }).2

def fileLoc (p : SendCall) : List String := messagesLoc host p.channel ++ [p.fileName]

end

variable {host : Host} {t : StoreTree} {c d : Channel} {calls : List SendCall} {p : SendCall}
  {q : List String} {n : String}

/-! ### Locations of channels -/

/-- The directory of a channel, from the root of the store. -/
def place (c : Channel) : List String := if c = ".." then [] else "channels" :: below c

theorem channelLoc_eq : channelLoc host c = host.root ++ place c := by
  unfold channelLoc entry place
  split
  · rename_i hdots
    rw [below, if_pos (.inr (.inr hdots))]
  · rw [List.append_assoc]
    rfl

theorem messagesLoc_eq : messagesLoc host c = host.root ++ (place c ++ ["messages"]) := by
  rw [messagesLoc, channelLoc_eq, List.append_assoc]

theorem root_prefix_messagesLoc : host.root <+: messagesLoc host c := by
  rw [messagesLoc_eq]
  exact List.prefix_append _ _

/-- `..` is the root, `.` is `channels`, and every other name has a place of its own. -/
theorem place_cases (hc : c ≠ "") : c = ".." ∧ place c = [] ∨ c = "." ∧ place c = ["channels"] ∨
    (c ≠ "." ∧ c ≠ "..") ∧ place c = ["channels", encodeChannel c] := by
  unfold place below
  by_cases hdots : c = ".."
  · exact .inl ⟨hdots, if_pos hdots⟩
  · by_cases hdot : c = "."
    · exact .inr (.inl ⟨hdot, by rw [if_neg hdots, if_pos (.inr (.inl hdot))]⟩)
    · exact .inr (.inr ⟨⟨hdot, hdots⟩, by rw [if_neg hdots, if_neg (by simp [hc, hdot, hdots])]⟩)

theorem place_inj (hc : c ≠ "") (hd : d ≠ "") (h : place c = place d) : c = d := by
  rcases place_cases hc with ⟨hc', hpc⟩ | ⟨hc', hpc⟩ | ⟨-, hpc⟩
  all_goals
    rw [hpc] at h
    rcases place_cases hd with ⟨hd', hpd⟩ | ⟨hd', hpd⟩ | ⟨-, hpd⟩
    all_goals
      rw [hpd] at h
      simp_all [encodeChannel_inj]

theorem messagesLoc_inj (hc : c ≠ "") (hd : d ≠ "") (h : messagesLoc host c = messagesLoc host d) :
    c = d := by
  rw [messagesLoc_eq, messagesLoc_eq] at h
  exact place_inj hc hd (List.append_inj' (List.append_cancel_left h) rfl).1

/-- A message file is not on the way to the messages of any channel. -/
theorem file_not_above (hc : c ≠ "") (hd : d ≠ "") (hn : matchesJson n = true) :
    ¬ messagesLoc host c ++ [n] <+: messagesLoc host d := by
  have hne : n ≠ "messages" := ne_of_matchesJson hn (by decide)
  rw [messagesLoc_eq, messagesLoc_eq, List.append_assoc, List.append_assoc, List.prefix_append_right_inj]
  rcases place_cases hc with ⟨-, hpc⟩ | ⟨-, hpc⟩ | ⟨-, hpc⟩
  all_goals
    rcases place_cases hd with ⟨-, hpd⟩ | ⟨-, hpd⟩ | ⟨-, hpd⟩
    all_goals simp [hpc, hpd, List.cons_prefix_cons, hne]

/-! ### One send -/

/-- A send makes the directories of its channel and one file, which no other message file is in the way of. -/
theorem send_tree {s : PathStore} (h : Opened host s.tree) (hc : Accepted host p.channel)
    (hname : host.accepts p.fileName = true) (hne : p.channel ≠ "")
    (hway : ∀ q, q <+: messagesLoc host p.channel → s.tree.node q = some .dir ∨ s.tree.node q = none)
    (hfree : s.tree.node (fileLoc host p) ≠ some .dir) :
    let t' := (send host p.now p.args p.uuid s).2.tree
    ∀ q, t'.node q = if q = fileLoc host p then
        some (.file (.message (p.message ((globJson (messagesLoc host p.channel) s.tree).length + 1))))
      else if q <+: messagesLoc host p.channel then some .dir else s.tree.node q := by
  obtain ⟨t₁, hmk, hnode⟩ := mkdirs_messages h hc hway
  have hopen : Opened host t₁ := by
    constructor
    · rw [hnode]
      split
      · rfl
      · exact h.channels
    · rw [hnode]
      split
      · rfl
      · exact h.subscriptions
  have hdir : t₁.node (messagesLoc host p.channel) = some .dir := by rw [hnode, if_pos (List.prefix_refl _)]
  have hnot : ¬ messagesLoc host p.channel ++ [p.fileName] <+: messagesLoc host p.channel :=
    file_not_above hne hne (matchesJson_fileName _ _)
  have hqueued : (globJson (messagesLoc host p.channel) t₁).length =
      (globJson (messagesLoc host p.channel) s.tree).length :=
    (globJson_perm fun n hn => by rw [hnode, if_neg (file_not_above hne hne hn)]).length_eq
  have hagain : t₁.mkdirs host.accepts [] (messagesDir host p.channel) =
      (.ok (messagesLoc host p.channel), t₁) := mkdirs_walk (walk_messagesLoc hopen hc hdir) hdir
  have hfree' : t₁.node (messagesLoc host p.channel ++ [p.fileName]) ≠ some .dir := by
    rw [hnode, if_neg hnot]
    exact hfree
  intro t' q
  have ht' : t'.node q = if q = fileLoc host p then
      some (.file (.message (p.message ((globJson (messagesLoc host p.channel) t₁).length + 1))))
      else t₁.node q := by
    obtain ⟨t₂, hreplace, hnode₂⟩ := replace_ok hname hdir hfree'
      (c := .message (p.message ((globJson (messagesLoc host p.channel) t₁).length + 1)))
    have hsend : t' = t₂ := by
      show (send host p.now p.args p.uuid s).2.tree = t₂
      unfold send
      have hdirs : mkdir host (messagesDir host p.args.channel) s =
          (.ok (messagesLoc host p.channel), { s with tree := t₁ }) := mkdir_eq hmk
      have hlook : lookTree (fun t => pure (globJson (messagesLoc host p.channel) t)) { s with tree := t₁ } =
          (.ok (globJson (messagesLoc host p.channel) t₁), { s with tree := t₁ }) := rfl
      rw [bind_ok hdirs, bind_ok hlook, bind_pure_snd, atomicWrite_tree]
      have hagain' : t₁.mkdirs host.accepts [] (messagesDir host p.args.channel) =
        (.ok (messagesLoc host p.channel), t₁) := hagain
      dsimp only
      rw [hagain']
      exact congrArg Prod.snd hreplace
    rw [hsend, hnode₂]
    rfl
  rw [ht', hnode, hqueued]

/-! ### Numbered sends -/

theorem numbered_concat (c : Channel) (calls : List SendCall) (p : SendCall) : numbered c (calls ++ [p]) =
    numbered c calls ++ if p.channel = c then [(p, (numbered c calls).length + 1)] else [] := by
  unfold numbered
  rw [List.filter_append, List.filter_singleton]
  by_cases hp : p.channel = c
  · simp [hp, List.mapIdx_append]
  · simp [hp]

theorem numbered_fst : (numbered c calls).map (·.1) = calls.filter (·.channel = c) := by
  induction calls using List.reverseRecOn with
  | nil => rfl
  | append_singleton calls p ih =>
    rw [numbered_concat, List.map_append, ih, List.filter_append, List.filter_singleton]
    by_cases hp : p.channel = c
    · simp [hp]
    · simp [hp]

theorem numbered_snd : (numbered c calls).map (·.2) = List.range' 1 (numbered c calls).length := by
  induction calls using List.reverseRecOn with
  | nil => rfl
  | append_singleton calls p ih =>
    rw [numbered_concat, List.map_append, ih, List.length_append]
    split
    · rw [List.length_singleton, List.range'_1_concat, Nat.add_comm]
      rfl
    · rw [List.map_nil, List.append_nil, List.length_nil, Nat.add_zero]

theorem mem_of_numbered {e : SendCall × Nat} (h : e ∈ numbered c calls) : e.1 ∈ calls ∧ e.1.channel = c := by
  have hmem : e.1 ∈ (numbered c calls).map (·.1) := List.mem_map_of_mem h
  rw [numbered_fst] at hmem
  simpa using hmem

theorem exists_numbered (h : p ∈ calls) : ∃ e ∈ numbered p.channel calls, e.1 = p := by
  have hmem : p ∈ (numbered p.channel calls).map (·.1) := by
    rw [numbered_fst]
    simpa using h
  obtain ⟨e, he, hp⟩ := List.mem_map.1 hmem
  exact ⟨e, he, hp⟩

/-! ### All sends -/

/-- What the tree is after the sends: the messages of each channel in their place, numbered, and below
the root nothing but them and the directories that lead to them. -/
structure Stored (disk : EmptyDisk host) (calls : List SendCall) (t : StoreTree) : Prop where
  opened : Opened host t
  files : ∀ c, ∀ e ∈ numbered c calls, t.node (fileLoc host e.1) = some (.file (.message (e.1.message e.2)))
  only : ∀ q x, host.root <+: q → t.node q = some x → (∃ p ∈ calls, q = fileLoc host p) ∨ x = .dir ∧
    (q.length ≤ host.root.length ∨ q = host.root ++ ["channels"] ∨ q = host.root ++ ["subscriptions"] ∨
      ∃ p ∈ calls, q <+: messagesLoc host p.channel)
  outside : ∀ q content, t.node q = some (.file content) →
    disk.tree.node q = some (.file content) ∨ ∃ p ∈ calls, q = fileLoc host p

variable {disk : EmptyDisk host}

/-- The message files of a channel are those of the sends to it. -/
theorem Stored.node_file {x : FileNode FileContent} (h : Stored disk calls t)
    (hcalls : ∀ p ∈ calls, p.channel ≠ "") (hc : c ≠ "") (hn : matchesJson n = true)
    (hx : t.node (messagesLoc host c ++ [n]) = some x) : ∃ p ∈ calls, p.channel = c ∧ p.fileName = n := by
  have hroot : host.root <+: messagesLoc host c ++ [n] :=
    root_prefix_messagesLoc.trans (List.prefix_append _ _)
  have hdeep : host.root.length + 2 ≤ (messagesLoc host c ++ [n]).length := by
    rw [messagesLoc_eq]
    simp only [List.length_append, List.length_cons, List.length_nil]
    omega
  have hlen (m : String) : messagesLoc host c ++ [n] ≠ host.root ++ [m] := by
    intro heq
    rw [heq] at hdeep
    simp at hdeep
  rcases h.only _ x hroot hx with ⟨p, hp, heq⟩ | ⟨-, hq | hq | hq | ⟨p, hp, hq⟩⟩
  · obtain ⟨hloc, hname⟩ := List.append_inj' heq rfl
    exact ⟨p, hp, (messagesLoc_inj hc (hcalls p hp) hloc).symm, (List.singleton_inj.1 hname).symm⟩
  · omega
  · exact absurd hq (hlen _)
  · exact absurd hq (hlen _)
  · exact absurd hq (file_not_above hc (hcalls p hp) hn)

theorem Stored.way (h : Stored disk calls t) (hcalls : ∀ p ∈ calls, p.channel ≠ "") (hc : c ≠ "")
    (hq : q <+: messagesLoc host c) : t.node q = some .dir ∨ t.node q = none := by
  rcases List.prefix_or_prefix_of_prefix hq root_prefix_messagesLoc with hup | hdown
  · obtain ⟨r, hr⟩ := hup
    exact .inl (node_above (hr.symm ▸ node_above h.opened.channels : t.node (q ++ r) = some .dir))
  · cases hx : t.node q with
    | none => exact .inr rfl
    | some x =>
      rcases h.only q x hdown hx with ⟨p, hp, rfl⟩ | ⟨rfl, -⟩
      · exact absurd hq (file_not_above (hcalls p hp) hc (matchesJson_fileName _ _))
      · exact .inl rfl

theorem names_nodup (h : (calls.map (·.uuid)).Nodup) : ((numbered c calls).map (·.1.fileName)).Nodup := by
  have hnames : (numbered c calls).map (·.1.fileName) = (calls.filter (·.channel = c)).map (·.fileName) := by
    rw [← numbered_fst, List.map_map]
    rfl
  have huuids : (calls.filter (·.channel = c)).Pairwise fun p p' => p.uuid ≠ p'.uuid :=
    (List.pairwise_map.1 h).sublist List.filter_sublist
  rw [hnames]
  refine List.pairwise_map.2 (huuids.imp fun hne heq => hne ?_)
  exact fileName_uuid heq

theorem Stored.names_perm (h : Stored disk calls t) (hcalls : ∀ p ∈ calls, p.channel ≠ "")
    (hdistinct : (calls.map (·.uuid)).Nodup) (hc : c ≠ "") :
    (globJson (messagesLoc host c) t).Perm ((numbered c calls).map (·.1.fileName)) := by
  refine (List.perm_ext_iff_of_nodup globJson_nodup (names_nodup hdistinct)).2 fun n => ?_
  rw [mem_globJson, List.mem_map]
  constructor
  · rintro ⟨hsome, hjson⟩
    obtain ⟨x, hx⟩ := Option.isSome_iff_exists.1 hsome
    obtain ⟨p, hp, rfl, rfl⟩ := h.node_file hcalls hc hjson hx
    obtain ⟨e, he, rfl⟩ := exists_numbered hp
    exact ⟨e, he, rfl⟩
  · rintro ⟨e, he, rfl⟩
    have hfile := h.files c e he
    rw [fileLoc, (mem_of_numbered he).2] at hfile
    exact ⟨by rw [hfile]; rfl, matchesJson_fileName _ _⟩

theorem Stored.send {s : PathStore} (h : Stored disk calls s.tree) (hcalls : ∀ p ∈ calls, p.channel ≠ "")
    (hdistinct : (calls.map (·.uuid)).Nodup) (hne : p.channel ≠ "") (hc : Accepted host p.channel)
    (hname : host.accepts p.fileName = true) (hfresh : p.uuid ∉ calls.map (·.uuid)) :
    Stored disk (calls ++ [p]) (PathStore.send host p.now p.args p.uuid s).2.tree := by
  have hnone : s.tree.node (fileLoc host p) = none := by
    cases hx : s.tree.node (fileLoc host p) with
    | none => rfl
    | some x =>
      obtain ⟨p', hp', -, hname'⟩ := h.node_file hcalls hne (matchesJson_fileName _ _) hx
      exact absurd (List.mem_map.2 ⟨p', hp', fileName_uuid hname'⟩) hfresh
  have hnode := send_tree h.opened hc hname hne (fun q hq => h.way hcalls hne hq) (by rw [hnone]; simp)
  set t' := (PathStore.send host p.now p.args p.uuid s).2.tree with ht'
  rw [(h.names_perm hcalls hdistinct hne).length_eq, List.length_map] at hnode
  have hold {q : List String} {x : FileNode FileContent} (hx : s.tree.node q = some x) :
      t'.node q = some x := by
    have hq : q ≠ fileLoc host p := by
      rintro rfl
      rw [hnone] at hx
      cases hx
    rw [hnode, if_neg hq]
    split
    · rename_i hpre
      rcases h.way hcalls hne hpre with hdir | hnone
      · exact hdir.symm.trans hx
      · rw [hnone] at hx
        cases hx
    · exact hx
  refine ⟨⟨hold h.opened.channels, hold h.opened.subscriptions⟩, fun c e he => ?_, fun q x hroot hx => ?_,
    fun q content hfile => ?_⟩
  · rw [numbered_concat, List.mem_append] at he
    rcases he with he | he
    · exact hold (h.files c e he)
    · split at he
      · rename_i hchannel
        rw [List.mem_singleton.1 he, ← hchannel, hnode, if_pos rfl]
      · cases he
  · rw [hnode] at hx
    split at hx
    · rename_i hq
      exact .inl ⟨p, List.mem_append_right _ List.mem_cons_self, hq⟩
    · split at hx
      · rename_i hpre
        cases hx
        exact .inr ⟨rfl, .inr (.inr (.inr ⟨p, List.mem_append_right _ List.mem_cons_self, hpre⟩))⟩
      · rcases h.only q x hroot hx with ⟨p', hp', hq⟩ | ⟨hdir, hq | hq | hq | ⟨p', hp', hq⟩⟩
        · exact .inl ⟨p', List.mem_append_left _ hp', hq⟩
        · exact .inr ⟨hdir, .inl hq⟩
        · exact .inr ⟨hdir, .inr (.inl hq)⟩
        · exact .inr ⟨hdir, .inr (.inr (.inl hq))⟩
        · exact .inr ⟨hdir, .inr (.inr (.inr ⟨p', List.mem_append_left _ hp', hq⟩))⟩
  · rw [hnode] at hfile
    split at hfile
    · rename_i hq
      exact .inr ⟨p, List.mem_append_right _ List.mem_cons_self, hq⟩
    · split at hfile
      · cases hfile
      · rcases h.outside q content hfile with hdisk | ⟨p', hp', hq⟩
        · exact .inl hdisk
        · exact .inr ⟨p', List.mem_append_left _ hp', hq⟩

/-- `mkdir` of a location, no file being in the way. -/
theorem mkdir_down {s : PathStore} {names : List String} (hnames : ∀ n ∈ names, host.accepts n = true)
    (hway : ∀ q, q <+: names → s.tree.node q = some .dir ∨ s.tree.node q = none) :
    ∃ t', mkdir host (names.map .down) s = (.ok names, { s with tree := t' }) ∧
      ∀ q, t'.node q = if q <+: names then some .dir else s.tree.node q := by
  obtain ⟨t', hmk, hnode⟩ := mkdirs_down (p := []) node_nil hnames hway
  exact ⟨t', mkdir_eq hmk, hnode⟩

/-- Opening a store on an empty disk makes its three directories. -/
theorem stored_initialize (disk : EmptyDisk host) :
    Stored disk [] (initializeStore host { tree := disk.tree }).2.tree := by
  have haccepts (m : String) (hm : m ∈ ["channels", "subscriptions", "messages", "delivered"]) :
      ∀ n ∈ host.root ++ [m], host.accepts n = true := by
    intro n hn
    rcases List.mem_append.1 hn with hn | hn
    · exact accepts_root hn
    · exact accepts_own (List.mem_singleton.1 hn ▸ hm)
  have hfree (m : String) : ∀ q, q <+: host.root ++ [m] →
      disk.tree.node q = some .dir ∨ disk.tree.node q = none := by
    intro q hq
    rcases List.prefix_concat_iff.1 hq with rfl | hq
    · exact .inr (disk.free _ (List.prefix_append _ _) (by simp))
    · exact disk.way q hq
  obtain ⟨t₁, hmk₁, hnode₁⟩ := mkdir_down (s := { tree := disk.tree }) (fun _ => accepts_root) disk.way
  have hchannels := haccepts "channels" (by decide)
  have hsubscriptions := haccepts "subscriptions" (by decide)
  obtain ⟨t₂, hmk₂, hnode₂⟩ := mkdir_down (s := { tree := t₁ }) hchannels fun q hq => by
    show t₁.node q = _ ∨ t₁.node q = _
    rw [hnode₁]
    split
    · exact .inl rfl
    · exact hfree _ q hq
  obtain ⟨t₃, hmk₃, hnode₃⟩ := mkdir_down (s := { tree := t₂ }) hsubscriptions fun q hq => by
    show t₂.node q = _ ∨ t₂.node q = _
    rw [hnode₂]
    show (if _ then _ else t₁.node q) = _ ∨ (if _ then _ else t₁.node q) = _
    rw [hnode₁]
    split
    · exact .inl rfl
    · split
      · exact .inl rfl
      · exact hfree _ q hq
  have htree : (initializeStore host { tree := disk.tree }).2.tree = t₃ := by
    unfold initializeStore channelsDir subscriptionsDir
    rw [bind_ok hmk₁, bind_ok hmk₂, bind_ok hmk₃]
    rfl
  rw [htree]
  have hnode (q : List String) : t₃.node q = if q <+: host.root ++ ["subscriptions"] then some .dir
      else if q <+: host.root ++ ["channels"] then some .dir else disk.tree.node q := by
    rw [hnode₃]
    show (if _ then _ else t₂.node q) = _
    rw [hnode₂]
    show (if _ then _ else if _ then _ else t₁.node q) = _
    rw [hnode₁]
    by_cases hq : q <+: host.root
    · rw [if_pos (hq.trans (List.prefix_append _ _)), if_pos (hq.trans (List.prefix_append _ _))]
    · rw [if_neg hq]
  have hbelow {q : List String} (m : String) (hroot : host.root <+: q) (hq : q <+: host.root ++ [m]) :
      q.length ≤ host.root.length ∨ q = host.root ++ [m] := by
    rcases List.prefix_concat_iff.1 hq with rfl | hq
    · exact .inr rfl
    · exact .inl hq.length_le
  refine ⟨⟨?_, ?_⟩, fun c e he => ?_, fun q x hroot hx => ?_, fun q content hfile => ?_⟩
  · rw [hnode, if_pos (List.prefix_refl _)]
    split <;> rfl
  · rw [hnode, if_pos (List.prefix_refl _)]
  · cases he
  · rw [hnode] at hx
    split at hx
    · rename_i hq
      cases hx
      exact .inr ⟨rfl, (hbelow _ hroot hq).imp_right fun h => .inr (.inl h)⟩
    · split at hx
      · rename_i hq
        cases hx
        exact .inr ⟨rfl, (hbelow _ hroot hq).imp_right .inl⟩
      · rename_i hq
        by_cases hnil : q = []
        · subst hnil
          exact absurd List.nil_prefix hq
        · rw [disk.free q hroot hnil] at hx
          cases hx
  · rw [hnode] at hfile
    split at hfile
    · cases hfile
    · split at hfile
      · cases hfile
      · exact .inl hfile

theorem stored_sendAll (disk : EmptyDisk host) (sends : Sends host) :
    Stored disk sends.calls (sendAll host disk.tree sends.calls).tree := by
  obtain ⟨calls, hnamed, hdistinct⟩ := sends
  show Stored disk calls (sendAll host disk.tree calls).tree
  induction calls using List.reverseRecOn with
  | nil => exact stored_initialize disk
  | append_singleton calls p ih =>
    have hbefore : ∀ p' ∈ calls, p'.channel ≠ "" ∧ Accepted host p'.channel ∧
        host.accepts p'.fileName = true := fun p' hp' => hnamed p' (List.mem_append_left _ hp')
    obtain ⟨hne, hc, hname⟩ := hnamed p (List.mem_append_right _ List.mem_cons_self)
    rw [List.map_append, List.nodup_append] at hdistinct
    obtain ⟨hnodup, -, hfresh⟩ := hdistinct
    have hstored := (ih hbefore hnodup).send (fun p' hp' => (hbefore p' hp').1) hnodup hne hc hname
      fun hmem => hfresh p.uuid hmem p.uuid List.mem_cons_self rfl
    have hlast : sendAll host disk.tree (calls ++ [p]) =
        (send host p.now p.args p.uuid (sendAll host disk.tree calls)).2 := by
      unfold sendAll
      rw [List.foldl_append]
      rfl
    rw [hlast]
    exact hstored

/-! ### The known channels -/

theorem prefix_messagesLoc_iff (hc : c ≠ "") : host.root ++ ["channels", n] <+: messagesLoc host c ↔
    c = "." ∧ n = "messages" ∨ (c ≠ "." ∧ c ≠ "..") ∧ n = encodeChannel c := by
  rw [messagesLoc_eq, List.prefix_append_right_inj]
  rcases place_cases hc with ⟨hdot, hpc⟩ | ⟨hdot, hpc⟩ | ⟨hdot, hpc⟩
  all_goals
    rw [hpc]
    simp [hdot, List.cons_prefix_cons]

theorem Stored.messagesLoc_dir (h : Stored disk calls t) (hp : p ∈ calls) :
    t.node (messagesLoc host p.channel) = some .dir := by
  obtain ⟨e, he, rfl⟩ := exists_numbered hp
  exact node_parent (h.files _ e he)

/-- The directories in `channels/` are those on the way to messages. -/
theorem Stored.dir_iff (h : Stored disk calls t) : t.node (host.root ++ ["channels", n]) = some .dir ↔
    ∃ p ∈ calls, host.root ++ ["channels", n] <+: messagesLoc host p.channel := by
  constructor
  · intro hdir
    have hne (m : String) : host.root ++ ["channels", n] ≠ host.root ++ [m] := by simp
    rcases h.only _ _ (List.prefix_append _ _) hdir with ⟨p, hp, hq⟩ | ⟨-, hq | hq | hq | hq⟩
    · obtain ⟨e, he, rfl⟩ := exists_numbered hp
      rw [hq, h.files _ e he] at hdir
      cases hdir
    · simp at hq
    · exact absurd hq (hne _)
    · exact absurd hq (hne _)
    · exact hq
  · rintro ⟨p, hp, r, hr⟩
    exact node_above (hr ▸ h.messagesLoc_dir hp)

theorem Stored.knownChannels (h : Stored disk calls t) : ∃ names : List String, names.Nodup ∧
    (∀ n, n ∈ names ↔ t.node (host.root ++ ["channels", n]) = some .dir) ∧
      knownChannels host t = .ok (names.map decodeChannel) := by
  have hperm := host.listing.perm ((t.list (host.root ++ ["channels"])).map (·.1))
  have hnode (n : String) : host.root ++ ["channels"] ++ [n] = host.root ++ ["channels", n] :=
    List.append_assoc _ _ _
  refine ⟨(host.listing.order ((t.list (host.root ++ ["channels"])).map (·.1))).filter fun n =>
    t.node (host.root ++ ["channels"] ++ [n]) = some .dir, (hperm.nodup_iff.2 list_nodup).filter _,
    fun n => ?_, ?_⟩
  · rw [List.mem_filter, hperm.mem_iff, decide_eq_true_iff, hnode]
    refine ⟨fun hn => hn.2, fun hn => ⟨?_, hn⟩⟩
    exact List.mem_map.2 ⟨(n, .dir), mem_list.2 ((congrArg t.node (hnode n)).trans hn), rfl⟩
  · have hlocate : locate host (channelsDir host) t = .ok (some (host.root ++ ["channels"])) := by
      rw [locate, h.opened.walk_channels]
      simp only [h.opened.channels]
      rfl
    rw [PathStore.knownChannels, hlocate]
    simp only [bind, Except.bind, h.opened.channels]
    rfl

/-- The channels that are known, by what was sent. -/
theorem Stored.mem_known (h : Stored disk calls t) (hcalls : ∀ p ∈ calls, p.channel ≠ "")
    {names : List String} (hnames : ∀ n, n ∈ names ↔ t.node (host.root ++ ["channels", n]) = some .dir) :
    c ∈ names.map decodeChannel ↔ (∃ p ∈ calls, p.channel = ".") ∧ c = "messages" ∨
      (c ≠ "." ∧ c ≠ "..") ∧ ∃ p ∈ calls, p.channel = c := by
  have hmessages : decodeChannel "messages" = "messages" := by decide
  simp only [List.mem_map, hnames, h.dir_iff]
  constructor
  · rintro ⟨n, ⟨p, hp, hpre⟩, rfl⟩
    rcases (prefix_messagesLoc_iff (hcalls p hp)).1 hpre with ⟨hdot, rfl⟩ | ⟨hdots, rfl⟩
    · exact .inl ⟨⟨p, hp, hdot⟩, hmessages⟩
    · rw [decodeChannel_encodeChannel]
      exact .inr ⟨hdots, p, hp, rfl⟩
  · rintro (⟨⟨p, hp, hdot⟩, rfl⟩ | ⟨hdots, p, hp, rfl⟩)
    · exact ⟨"messages", ⟨p, hp, (prefix_messagesLoc_iff (hcalls p hp)).2 (.inl ⟨hdot, rfl⟩)⟩, hmessages⟩
    · exact ⟨encodeChannel p.channel,
        ⟨p, hp, (prefix_messagesLoc_iff (hcalls p hp)).2 (.inr ⟨hdots, rfl⟩)⟩, decodeChannel_encodeChannel _⟩

/-- No two directories have the name of one channel. -/
theorem Stored.known_nodup (h : Stored disk calls t) (hcalls : ∀ p ∈ calls, p.channel ≠ "")
    {names : List String} (hnodup : names.Nodup)
    (hnames : ∀ n, n ∈ names ↔ t.node (host.root ++ ["channels", n]) = some .dir) :
    (names.map decodeChannel).Nodup := by
  have hencoded : ∀ n ∈ names, encodeChannel (decodeChannel n) = n := by
    intro n hn
    obtain ⟨p, hp, hpre⟩ := h.dir_iff.1 ((hnames n).1 hn)
    rcases (prefix_messagesLoc_iff (hcalls p hp)).1 hpre with ⟨-, rfl⟩ | ⟨-, rfl⟩
    · decide
    · rw [decodeChannel_encodeChannel]
  refine hnodup.map_on fun n hn m hm heq => ?_
  rw [← hencoded n hn, heq, hencoded m hm]

/-! ### Replay -/

/-- The messages of the sends to a channel, in the order of the sends. -/
def sentTo (c : Channel) (calls : List SendCall) : List MessageFile :=
  (numbered c calls).map fun e => e.1.message e.2

/-- What lies between the bounds of a `replay`. -/
def inRange (since : Int) (untilSeq : Option Int) (m : MessageFile) : Bool :=
  decide (since ≤ m.seq) && untilSeq.all fun u => decide ((m.seq : Int) ≤ u)

theorem sentTo_seq : (sentTo c calls).Pairwise (·.seq < ·.seq) := by
  have hseq : (sentTo c calls).map (·.seq) = List.range' 1 (numbered c calls).length := by
    rw [← numbered_snd, sentTo, List.map_map]
    rfl
  refine List.pairwise_map.1 ?_
  rw [hseq]
  exact List.pairwise_lt_range'

theorem messagesOf_map (ms : List MessageFile) : messagesOf (ms.map .message) = .ok ms := by
  induction ms with
  | nil => rfl
  | cons m ms ih =>
    rw [List.map_cons, messagesOf, ih]
    rfl

/-- The messages sent to a channel have one order, that of their numbers. -/
theorem sort_sentTo {ms : List MessageFile} (f : MessageFile → Bool) (h : ms.Perm (sentTo c calls)) :
    (ms.filter f).insertionSort (fun m n => m.seq < n.seq ∨ m.seq = n.seq ∧ m.messageId ≤ n.messageId) =
      (sentTo c calls).filter f := by
  have hlex (m n : MessageFile) : m.seq < n.seq ∨ m.seq = n.seq ∧ m.messageId ≤ n.messageId ↔
      toLex (m.seq, m.messageId) ≤ toLex (n.seq, n.messageId) := by rw [Prod.Lex.toLex_le_toLex]
  have htotal : Std.Total fun m n : MessageFile =>
      m.seq < n.seq ∨ m.seq = n.seq ∧ m.messageId ≤ n.messageId := ⟨fun m n => by
    rw [hlex, hlex]
    exact le_total _ _⟩
  have htrans : IsTrans MessageFile fun m n =>
      m.seq < n.seq ∨ m.seq = n.seq ∧ m.messageId ≤ n.messageId := ⟨fun m n k hmn hnk => by
    rw [hlex] at hmn hnk ⊢
    exact hmn.trans hnk⟩
  have hseq : ((sentTo c calls).filter f).Pairwise (·.seq < ·.seq) := sentTo_seq.sublist List.filter_sublist
  have hperm := (List.perm_insertionSort (fun m n : MessageFile => m.seq < n.seq ∨
    m.seq = n.seq ∧ m.messageId ≤ n.messageId) _).trans (h.filter f)
  refine List.Perm.eq_of_pairwise (fun m n hm hn hmn hnm => ?_) (List.pairwise_insertionSort _ _)
    (hseq.imp fun hlt => .inl hlt) hperm
  rcases Feed.pairwise_both hseq hseq (hperm.mem_iff.1 hm) hn with heq | ⟨hlt, -⟩ | ⟨hlt, -⟩
  · exact heq
  · rcases hnm with hnm | ⟨hnm, -⟩ <;> omega
  · rcases hmn with hmn | ⟨hmn, -⟩ <;> omega

/-- What `replay` gets from a file. -/
def readable (host : Host) (c : Channel) (t : StoreTree) (fname : String) : Option FileContent :=
  match readMessage host c t fname with
  | .error _ => none
  | .ok (.text _) => none
  | .ok content => some content

theorem replay_eq {since limit : Int} {untilSeq : Option Int} : replay host c since untilSeq limit t =
    (listMessageFiles host c t).bind fun files =>
      (messagesOf (files.filterMap (readable host c t))).bind fun ms =>
        let sorted := (ms.filter (inRange since untilSeq)).insertionSort fun m n =>
          m.seq < n.seq ∨ m.seq = n.seq ∧ m.messageId ≤ n.messageId
        .ok (sliceTo limit sorted, decide (limit < sorted.length)) := by
  unfold replay
  refine congrArg (Except.bind (listMessageFiles host c t)) (funext fun files => ?_)
  dsimp only
  rw [List.filterMap_congr (g := readable host c t)]
  · rfl
  · intro fname _
    unfold readable
    cases readMessage host c t fname with
    | error e => rfl
    | ok content => cases content <;> rfl

theorem Stored.readable (h : Stored disk calls t) (haccepted : ∀ p ∈ calls, host.accepts p.fileName = true)
    (hc : Accepted host c) {e : SendCall × Nat} (he : e ∈ numbered c calls) :
    readable host c t e.1.fileName = some (.message (e.1.message e.2)) := by
  obtain ⟨hmem, hchannel⟩ := mem_of_numbered he
  have hfile := h.files c e he
  rw [fileLoc, hchannel] at hfile
  have hread : readMessage host c t e.1.fileName = .ok (.message (e.1.message e.2)) :=
    read_file (walk_messagesLoc h.opened hc (node_parent hfile)) (haccepted _ hmem) hfile
  rw [PathStore.readable, hread]

/-- What is replayed are the messages sent to the channel. -/
theorem Stored.replay {since limit : Int} {untilSeq : Option Int} (h : Stored disk calls t)
    (hcalls : ∀ p ∈ calls, p.channel ≠ "") (haccepted : ∀ p ∈ calls, host.accepts p.fileName = true)
    (hdistinct : (calls.map (·.uuid)).Nodup) (hne : c ≠ "") (hc : Accepted host c) :
    let own := (sentTo c calls).filter (inRange since untilSeq)
    replay host c since untilSeq limit t = .ok (sliceTo limit own, decide (limit < own.length)) := by
  intro own
  have hfiles : (((globJson (messagesLoc host c) t).insertionSort (· ≤ ·)).filterMap
      (PathStore.readable host c t)).Perm ((sentTo c calls).map .message) := by
    have hperm := (List.perm_insertionSort (· ≤ ·) _).trans (h.names_perm hcalls hdistinct hne)
    refine (hperm.filterMap _).trans (List.Perm.of_eq ?_)
    rw [sentTo, List.map_map, List.filterMap_map, ← List.filterMap_eq_map]
    refine List.filterMap_congr fun e he => ?_
    simp only [Function.comp_apply, h.readable haccepted hc he]
  obtain ⟨ms, hread, hms⟩ : Relation.Comp (· = List.map FileContent.message ·) List.Perm _ _ :=
    (congrFun₂ (List.eq_map_comp_perm _) _ _).mpr hfiles
  rw [replay_eq, listMessageFiles_eq h.opened hc]
  simp only [Except.bind, hread, messagesOf_map, sort_sentTo _ hms]
  rfl

/-! ### Channels apart -/

/-- The store keeps channels apart: what is known are the names sent to, what is replayed the messages of
the channel, and files are only made in `channels/`. -/
structure Apart (disk : EmptyDisk host) (calls : List SendCall) (t : StoreTree) : Prop where
  decode : ∀ c, decodeChannel (encodeChannel c) = c
  known : ∃ names, knownChannels host t = .ok names ∧ names.Nodup ∧
    ∀ c, c ∈ names ↔ ∃ p ∈ calls, p.channel = c
  replayed : ∀ c, c ≠ "" → Accepted host c → ∀ (since limit : Int) (untilSeq : Option Int),
    let own := (sentTo c calls).filter (inRange since untilSeq)
    replay host c since untilSeq limit t = .ok (sliceTo limit own, decide (limit < own.length))
  inside : ∀ q content, t.node q = some (.file content) →
    disk.tree.node q = some (.file content) ∨ host.root ++ ["channels"] <+: q

/-- The messages of every channel but `..` are inside. -/
theorem fileLoc_inside (hne : p.channel ≠ "") (hdots : p.channel ≠ "..") :
    host.root ++ ["channels"] <+: fileLoc host p := by
  rw [fileLoc, messagesLoc_eq, List.append_assoc, List.prefix_append_right_inj]
  rcases place_cases hne with ⟨h, -⟩ | ⟨-, h⟩ | ⟨-, h⟩
  · exact absurd h hdots
  all_goals
    rw [h]
    exact List.cons_prefix_cons.2 ⟨rfl, List.nil_prefix⟩

/-- Exactly the names `.` and `..`, which the encoding leaves as they are, are not kept apart. -/
theorem channels_apart_iff (disk : EmptyDisk host) (sends : Sends host) :
    Apart disk sends.calls (sendAll host disk.tree sends.calls).tree ↔
      ∀ p ∈ sends.calls, p.channel ≠ "." ∧ p.channel ≠ ".." := by
  have hstored := stored_sendAll disk sends
  have hcalls : ∀ p ∈ sends.calls, p.channel ≠ "" := fun p hp => (sends.named p hp).1
  obtain ⟨names, hnodup, hnames, hknown⟩ := hstored.knownChannels
  constructor
  · rintro ⟨-, ⟨known, heq, -, hmem⟩, -, -⟩ p hp
    rw [hknown] at heq
    cases heq
    rcases (hstored.mem_known hcalls hnames).1 ((hmem p.channel).2 ⟨p, hp, rfl⟩) with ⟨-, hp'⟩ | ⟨hdots, -⟩
    · rw [hp']
      decide
    · exact hdots
  · intro hdots
    refine ⟨decodeChannel_encodeChannel, ⟨_, hknown, hstored.known_nodup hcalls hnodup hnames, fun c => ?_⟩,
      fun c hne hc since limit untilSeq => ?_, fun q content hfile => ?_⟩
    · rw [hstored.mem_known hcalls hnames]
      constructor
      · rintro (⟨⟨p, hp, hdot⟩, -⟩ | ⟨-, hsent⟩)
        · exact absurd hdot (hdots p hp).1
        · exact hsent
      · rintro ⟨p, hp, rfl⟩
        exact .inr ⟨hdots p hp, p, hp, rfl⟩
    · exact hstored.replay hcalls (fun p hp => (sends.named p hp).2.2) sends.distinct hne hc
    · rcases hstored.outside q content hfile with hdisk | ⟨p, hp, rfl⟩
      · exact .inl hdisk
      · exact .inr (fileLoc_inside (hcalls p hp) (hdots p hp).2)

/-- Nothing but the top directory. -/
def noFiles : EmptyDisk plainHost where
  tree := .empty
  free q _ hq := if_neg hq
  way q _ := by
    by_cases hq : q = []
    · exact .inl (if_pos hq)
    · exact .inr (if_neg hq)

/-- Sends to three channels whose names are alike, two of them to one channel. -/
def alikeSends : Sends plainHost where
  calls :=
    [{ now := 0, args := { channel := "a/b", sender := "alice", body := .empty }
       uuid := ⟨"00000000000000000000000000000000", rfl⟩ },
     { now := 0, args := { channel := "a%2Fb", sender := "bob", body := .empty }
       uuid := ⟨"00000000000000000000000000000001", rfl⟩ },
     { now := 1, args := { channel := "a/b", sender := "bob", body := .empty }
       uuid := ⟨"00000000000000000000000000000002", rfl⟩ },
     { now := 1, args := { channel := "...", sender := "alice", body := .empty }
       uuid := ⟨"00000000000000000000000000000003", rfl⟩ }]
  named := by
    simp only [List.forall_mem_cons]
    exact ⟨⟨by decide, fun _ _ => rfl, rfl⟩, ⟨by decide, fun _ _ => rfl, rfl⟩,
      ⟨by decide, fun _ _ => rfl, rfl⟩, ⟨by decide, fun _ _ => rfl, rfl⟩, nofun⟩
  distinct := by decide

theorem channels_apart_alike :
    Apart noFiles alikeSends.calls (sendAll plainHost noFiles.tree alikeSends.calls).tree :=
  (channels_apart_iff noFiles alikeSends).2 (by decide)

/-- One send to a channel. -/
def oneSend (c : Channel) (hc : c ≠ "") : Sends plainHost where
  calls := [{ now := 0, args := { channel := c, sender := "alice", body := .empty }
              uuid := ⟨"00000000000000000000000000000000", rfl⟩ }]
  named p hp := by
    rw [List.mem_singleton.1 hp]
    exact ⟨hc, fun _ _ => rfl, rfl⟩
  distinct := List.nodup_singleton _

/-- A message to `.` makes a channel `messages`, which nobody sent to; one to `..` is beside `channels`. -/
theorem dots_not_apart :
    ¬ Apart noFiles (oneSend "." (by decide)).calls
        (sendAll plainHost noFiles.tree (oneSend "." (by decide)).calls).tree ∧
      knownChannels plainHost (sendAll plainHost noFiles.tree (oneSend "." (by decide)).calls).tree =
        .ok ["messages"] ∧
      ((sendAll plainHost noFiles.tree (oneSend ".." (by decide)).calls).tree.list
        ["store", "messages"]).length = 1 := by
  have hknown : knownChannels plainHost
      (sendAll plainHost noFiles.tree (oneSend "." (by decide)).calls).tree = .ok ["messages"] := rfl
  refine ⟨fun h => ?_, hknown, by rfl⟩
  obtain ⟨names, heq, -, hmem⟩ := h.known
  rw [hknown] at heq
  cases heq
  have hdot : "." ∈ ["messages"] := (hmem ".").2 ⟨_, List.mem_cons_self, rfl⟩
  revert hdot
  decide

end PathStore

end Sox
