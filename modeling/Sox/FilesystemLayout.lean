import Sox.FilesystemPaths

/-!
# Where the paths of the filesystem store lead

An encoded name has no slash, so a channel's directory is one component below `channels/`, or, for the
names `.` and `..`, `channels/` itself or the root of the store. From `entry` on, all the paths of a
channel go down: `stat_channel`. An agent's file is one component when its id has no slash.
-/

namespace Sox

namespace PathStore

open FileTree Effect

variable {host : Host} {t : StoreTree} {c : Channel} {a : AgentId} {s : String} {rest : StorePath}

/-! ### Names -/

theorem slash_notMem_encodeChar (c : Char) : '/' ∉ encodeChar c := by
  unfold encodeChar
  split
  · decide
  · decide
  · decide
  · decide
  · rename_i hslash _ _
    simp only [List.mem_singleton]
    exact fun h => hslash h.symm

theorem slash_notMem_encodeChannel (c : Channel) : '/' ∉ (encodeChannel c).toList := by
  rw [encodeChannel, String.toList_ofList, List.mem_flatMap]
  rintro ⟨x, -, hx⟩
  exact slash_notMem_encodeChar x hx

theorem parsePath_of_noSlash (h : '/' ∉ s.toList) :
    parsePath s = if s = "" ∨ s = "." then [] else [if s = ".." then .up else .down s] := by
  rw [parsePath, List.splitOn_eq_singleton h, List.map_singleton, String.ofList_toList]
  by_cases hs : s = "" ∨ s = "."
  · rw [List.filterMap_cons, if_pos hs, if_pos hs, List.filterMap_nil]
  · rw [List.filterMap_cons, if_neg hs, if_neg hs, List.filterMap_nil]

theorem head?_ne_slash (h : '/' ∉ s.toList) : s.toList.head? ≠ some '/' := fun hs => h (List.mem_of_head? hs)

theorem joinPath_of_noSlash (path : StorePath) (h : '/' ∉ s.toList) :
    joinPath path s = path ++ if s = "" ∨ s = "." then [] else [if s = ".." then .up else .down s] := by
  rw [joinPath, if_neg (head?_ne_slash h), parsePath_of_noSlash h]

theorem encodeChannel_eq_iff {d : Channel} (hd : encodeChannel d = d) : encodeChannel c = d ↔ c = d := by
  rw [← encodeChannel_inj (c := c), hd]

theorem channelDir_eq : channelDir host c = channelsDir host ++
    if c = "" ∨ c = "." then [] else [if c = ".." then .up else .down (encodeChannel c)] := by
  rw [channelDir, joinPath_of_noSlash _ (slash_notMem_encodeChannel c)]
  simp only [encodeChannel_eq_iff (by decide : encodeChannel "" = ""),
    encodeChannel_eq_iff (by decide : encodeChannel "." = "."),
    encodeChannel_eq_iff (by decide : encodeChannel ".." = "..")]

theorem matchesJson_append (s : String) : matchesJson (s ++ ".json") = true := by
  rw [matchesJson, List.isSuffixOf_iff_suffix, String.toList_append]
  exact List.suffix_append _ _

theorem matchesJson_fileName (now : ℚ) (uuid : Uuid) : matchesJson (fileName now uuid) = true :=
  matchesJson_append _

theorem ne_of_matchesJson {n m : String} (hn : matchesJson n = true) (hm : matchesJson m = false) : n ≠ m := by
  rintro rfl
  rw [hn] at hm
  cases hm

theorem slash_notMem_agentFile (h : '/' ∉ a.toList) : '/' ∉ (a ++ ".json").toList := by
  rw [String.toList_append, List.mem_append, not_or]
  exact ⟨h, by decide⟩

theorem parsePath_agent (h : '/' ∉ a.toList) : parsePath (a ++ ".json") = [.down (a ++ ".json")] := by
  have hne {m : String} (hm : matchesJson m = false) : a ++ ".json" ≠ m :=
    ne_of_matchesJson (matchesJson_append a) hm
  rw [parsePath_of_noSlash (slash_notMem_agentFile h), if_neg (not_or.2 ⟨hne (by decide), hne (by decide)⟩),
    if_neg (hne (by decide))]

/-- The file of an agent whose id has no slash is named after it. -/
theorem joinPath_agent (path : StorePath) (h : '/' ∉ a.toList) :
    joinPath path (a ++ ".json") = path ++ [.down (a ++ ".json")] := by
  rw [joinPath, if_neg (head?_ne_slash (slash_notMem_agentFile h)), parsePath_agent h]

/-! ### Locations -/

variable (host) in
/-- The two directories that `initialize` makes. -/
structure Opened (t : StoreTree) : Prop where
  channels : t.node (host.root ++ ["channels"]) = some .dir
  subscriptions : t.node (host.root ++ ["subscriptions"]) = some .dir

variable (host) in
/-- Where the way down to the directory of a channel begins. -/
def entry (c : Channel) : List String := if c = ".." then host.root else host.root ++ ["channels"]

/-- The way down. -/
def below (c : Channel) : List String :=
  if c = "" ∨ c = "." ∨ c = ".." then [] else [encodeChannel c]

variable (host) in
def channelLoc (c : Channel) : List String := entry host c ++ below c

theorem root_prefix_entry : host.root <+: entry host c := by
  unfold entry
  split
  · exact List.prefix_refl _
  · exact List.prefix_append _ _

theorem accepts_root {n : String} (h : n ∈ host.root) : host.accepts n = true :=
  host.acceptsOwn n (List.mem_append_left _ h)

theorem accepts_own {n : String} (h : n ∈ ["channels", "subscriptions", "messages", "delivered"]) :
    host.accepts n = true :=
  host.acceptsOwn n (List.mem_append_right _ h)

theorem Opened.walk_channels (h : Opened host t) :
    t.walk host.accepts [] (channelsDir host) = .ok (host.root ++ ["channels"]) := by
  refine walk_dir h.channels fun n hn => ?_
  rcases List.mem_append.1 hn with hn | hn
  · exact accepts_root hn
  · rw [List.mem_singleton.1 hn]
    exact accepts_own (by decide)

theorem Opened.walk_subscriptions (h : Opened host t) :
    t.walk host.accepts [] (subscriptionsDir host) = .ok (host.root ++ ["subscriptions"]) := by
  refine walk_dir h.subscriptions fun n hn => ?_
  rcases List.mem_append.1 hn with hn | hn
  · exact accepts_root hn
  · rw [List.mem_singleton.1 hn]
    exact accepts_own (by decide)

theorem Opened.entry (h : Opened host t) (c : Channel) : t.node (entry host c) = some .dir := by
  unfold PathStore.entry
  split
  · exact node_above h.channels
  · exact h.channels

theorem not_dots (hc : ¬(c = "" ∨ c = ".")) (hdots : c ≠ "..") : ¬(c = "" ∨ c = "." ∨ c = "..") := by
  rintro (h | h | h)
  · exact hc (.inl h)
  · exact hc (.inr h)
  · exact hdots h

variable (host c) in
/-- A channel's path is a way to `entry` that is there, and the way down. -/
theorem channelDir_split : ∃ pre, channelDir host c = pre ++ (below c).map .down ∧
    ∀ t, Opened host t → t.walk host.accepts [] pre = .ok (entry host c) := by
  rw [channelDir_eq]
  by_cases hdots : c = ".."
  · refine ⟨channelsDir host ++ [.up], ?_, fun t h => ?_⟩
    · subst hdots
      rw [if_neg (by decide), if_pos rfl, below, if_pos (by decide), List.map_nil, List.append_nil]
    · rw [walk_append, h.walk_channels, entry, if_pos hdots]
      show t.walk host.accepts (host.root ++ ["channels"]) [.up] = _
      rw [walk_up h.channels, List.dropLast_concat]
      rfl
  · refine ⟨channelsDir host, ?_, fun t h => ?_⟩
    · by_cases hc : c = "" ∨ c = "."
      · have hall : c = "" ∨ c = "." ∨ c = ".." := hc.imp_right .inl
        rw [if_pos hc, below, if_pos hall, List.map_nil]
      · rw [if_neg hc, if_neg hdots, below, if_neg (not_dots hc hdots), List.map_singleton]
    · rw [h.walk_channels, entry, if_neg hdots]

/-- Whatever a channel's path goes on with, it is looked up from `entry` down. -/
theorem stat_channel (h : Opened host t) : t.stat host.accepts [] (channelDir host c ++ rest) =
    t.stat host.accepts (entry host c) ((below c).map .down ++ rest) := by
  obtain ⟨pre, heq, hwalk⟩ := channelDir_split host c
  rw [heq, List.append_assoc, stat_append (hwalk t h)]

theorem walk_channel (h : Opened host t) : t.walk host.accepts [] (channelDir host c ++ rest) =
    t.walk host.accepts (entry host c) ((below c).map .down ++ rest) := by
  obtain ⟨pre, heq, hwalk⟩ := channelDir_split host c
  rw [heq, List.append_assoc, walk_append, hwalk t h]
  rfl

/-! ### The message files of a channel -/

variable (host) in
def messagesLoc (c : Channel) : List String := channelLoc host c ++ ["messages"]

variable (host) in
/-- The file system takes the name of the channel's directory. -/
def Accepted (c : Channel) : Prop := ∀ n ∈ below c, host.accepts n = true

theorem refused_of_not_accepted (h : ¬ Accepted host c) : ∃ x, below c = [x] ∧ host.accepts x = false := by
  unfold Accepted below at *
  split at h
  · exact absurd (fun n hn => absurd hn List.not_mem_nil) h
  · rename_i hc
    rw [if_neg hc]
    refine ⟨_, rfl, Bool.eq_false_iff.2 fun haccepts => h fun n hn => ?_⟩
    rw [List.mem_singleton.1 hn]
    exact haccepts

theorem walk_messagesDir (h : Opened host t) : t.walk host.accepts [] (messagesDir host c) =
    t.walk host.accepts (entry host c) ((below c ++ ["messages"]).map .down) := by
  rw [messagesDir, walk_channel h, List.map_append, List.map_singleton]

theorem accepted_messages (hc : Accepted host c) : ∀ n ∈ below c ++ ["messages"], host.accepts n = true := by
  intro n hn
  rcases List.mem_append.1 hn with hn | hn
  · exact hc n hn
  · rw [List.mem_singleton.1 hn]
    exact accepts_own (by decide)

theorem globJson_eq_nil {p : List String} (h : t.node p ≠ some .dir) : globJson p t = [] := by
  rw [globJson, list_eq_nil h]
  rfl

theorem walk_messagesLoc (h : Opened host t) (hc : Accepted host c)
    (hdir : t.node (messagesLoc host c) = some .dir) :
    t.walk host.accepts [] (messagesDir host c) = .ok (messagesLoc host c) := by
  have hloc : messagesLoc host c = entry host c ++ (below c ++ ["messages"]) := List.append_assoc _ _ _
  rw [hloc] at hdir ⊢
  rw [walk_messagesDir h, walk_dir hdir (accepted_messages hc)]

/-- The listing is that of the location, whether it is there or not. -/
theorem listMessageFiles_eq (h : Opened host t) (hc : Accepted host c) : listMessageFiles host c t =
    .ok ((globJson (messagesLoc host c) t).insertionSort (· ≤ ·)) := by
  unfold listMessageFiles locate
  by_cases hdir : t.node (messagesLoc host c) = some .dir
  · rw [walk_messagesLoc h hc hdir]
    simp only [hdir]
    rfl
  · rw [walk_messagesDir h, globJson_eq_nil hdir]
    cases hwalk : t.walk host.accepts (entry host c) ((below c ++ ["messages"]).map .down) with
    | error e =>
      rcases walk_down_error (accepted_messages hc) hwalk with rfl | rfl
      · rfl
      · rfl
    | ok p =>
      have hp : p = messagesLoc host c := by
        rw [walk_eq_lead hwalk, lead_down, messagesLoc, channelLoc, List.append_assoc]
      rw [hp]
      dsimp only
      split
      · show Except.ok ((globJson (messagesLoc host c) t).insertionSort (· ≤ ·)) = _
        rw [globJson_eq_nil hdir]
      · rfl

theorem mem_globJson {p : List String} {n : String} :
    n ∈ globJson p t ↔ (t.node (p ++ [n])).isSome = true ∧ matchesJson n = true := by
  simp only [globJson, List.mem_filter, List.mem_map, Prod.exists, exists_and_right, exists_eq_right,
    mem_list, Option.isSome_iff_exists]

theorem globJson_nodup {p : List String} : (globJson p t).Nodup := list_nodup.filter _

theorem globJson_perm {t' : StoreTree} {p : List String}
    (h : ∀ n, matchesJson n = true → t'.node (p ++ [n]) = t.node (p ++ [n])) :
    (globJson p t').Perm (globJson p t) := by
  refine (List.perm_ext_iff_of_nodup globJson_nodup globJson_nodup).2 fun n => ?_
  rw [mem_globJson, mem_globJson]
  refine and_congr_left fun hn => ?_
  rw [h n hn]

/-- Sorted names are determined by which they are. -/
theorem sorted_eq_of_perm {names names' : List String} (h : names.Perm names') :
    names.insertionSort (· ≤ ·) = names'.insertionSort (· ≤ ·) := by
  refine List.Perm.eq_of_pairwise' (r := (· ≤ ·)) (List.pairwise_insertionSort _ _)
    (List.pairwise_insertionSort _ _) ?_
  exact (List.perm_insertionSort _ _).trans (h.trans (List.perm_insertionSort _ _).symm)

theorem walk_refused {x : String} (h : Opened host t) (hx : below c = [x]) (hrefused : host.accepts x = false) :
    t.walk host.accepts [] (channelDir host c ++ rest) = .error .nameRefused := by
  rw [walk_channel h, hx, List.map_singleton, List.singleton_append, walk, h.entry c]
  simp only [hrefused, Bool.false_eq_true, ↓reduceIte]

theorem listMessageFiles_refused {x : String} (h : Opened host t) (hx : below c = [x])
    (hrefused : host.accepts x = false) : listMessageFiles host c t = .error (.os .nameRefused) := by
  rw [listMessageFiles, locate, messagesDir, walk_refused h hx hrefused]
  simp only [Except.map]

/-! ### Writing -/

theorem atomicWrite_tree {path : StorePath} {name : String} {content : FileContent} {s : PathStore} :
    (atomicWrite host (path ++ [.down name]) content s).2.tree =
      match s.tree.mkdirs host.accepts [] path with
      | (.ok dir, t') => (t'.replace host.accepts dir name content).2
      | (.error _, t') => t' := by
  rw [atomicWrite, bind_apply, List.dropLast_concat]
  simp only [List.getLast?_concat]
  unfold mkdir
  rcases s.tree.mkdirs host.accepts [] path with ⟨e | dir, t'⟩
  · rfl
  · rfl

theorem mkdir_eq {path : StorePath} {st : PathStore} {p : List String} {t' : StoreTree}
    (h : st.tree.mkdirs host.accepts [] path = (.ok p, t')) :
    mkdir host path st = (.ok p, { st with tree := t' }) := by
  rw [mkdir, h]
  rfl

/-- Making the directory for the messages of a channel, no file being in the way. -/
theorem mkdirs_messages (h : Opened host t) (hc : Accepted host c)
    (hway : ∀ q, q <+: messagesLoc host c → t.node q = some .dir ∨ t.node q = none) :
    ∃ t', t.mkdirs host.accepts [] (messagesDir host c) = (.ok (messagesLoc host c), t') ∧
      ∀ q, t'.node q = if q <+: messagesLoc host c then some .dir else t.node q := by
  obtain ⟨pre, hpre, hwalk⟩ := channelDir_split host c
  have hsplit : messagesDir host c = pre ++ (below c ++ ["messages"]).map .down := by
    rw [messagesDir, hpre, List.append_assoc, List.map_append]
    rfl
  have hloc : messagesLoc host c = entry host c ++ (below c ++ ["messages"]) := List.append_assoc _ _ _
  rw [hsplit, mkdirs_append (mkdirs_walk (hwalk t h) (h.entry c))]
  rw [hloc] at hway ⊢
  exact mkdirs_down (h.entry c) (accepted_messages hc) hway

end PathStore

end Sox
