import Mathlib.Data.String.Basic
import Sox.Backpressure
import Sox.Lib.Feed

/-!
# What the filesystem store hands out

`undelivered` is what an agent has not drained of a channel, in the order of the file names. `recv` lays
the target channels end to end, takes a beginning and sorts it (`recv_fst`, `mem_getDeliveredSet_recv`);
`unsubscribe` marks what it takes from the channels of the removed patterns. `Kept` is what every store
keeps: a directory for each channel, under its name, with the messages of the channel numbered from 1.
-/

namespace Sox

namespace FilesystemStore

variable {s : FilesystemStore} {c d : Channel} {a b : AgentId} {n : String} {f : String × MessageFile}
  {ls : DirListing} {channels : Option (List Channel)} {max : Int} {patterns : List Pattern}

/-! ### Marking -/

theorem mem_markDelivered (filenames : List String) :
    n ∈ (s.markDelivered d a filenames).getDeliveredSet c b ↔
      n ∈ s.getDeliveredSet c b ∨ c = d ∧ b = a ∧ n ∈ filenames := by
  unfold getDeliveredSet
  rw [markDelivered, channelDir_set]
  by_cases hc : c = d
  · subst hc
    rw [if_pos rfl]
    by_cases hb : b = a
    · subst hb
      simp only [true_and, Dict.getD_set_self, sortedNames, List.mem_insertionSort, List.mem_dedup,
        List.mem_append, getDeliveredSet]
    · simp [Dict.getD_set_of_ne hb, hb]
  · simp [hc]

theorem mem_markAll (marks : List (Channel × List String)) :
    n ∈ (marks.foldl (fun s e => s.markDelivered e.1 a e.2) s).getDeliveredSet c b ↔
      n ∈ s.getDeliveredSet c b ∨ b = a ∧ ∃ e ∈ marks, e.1 = c ∧ n ∈ e.2 := by
  induction marks generalizing s with
  | nil => simp
  | cons e marks ih =>
    rw [List.foldl_cons, ih, mem_markDelivered]
    constructor
    · rintro ((h | ⟨rfl, hb, hn⟩) | ⟨hb, e', he', h⟩)
      · exact .inl h
      · exact .inr ⟨hb, e, List.mem_cons_self, rfl, hn⟩
      · exact .inr ⟨hb, e', List.mem_cons_of_mem e he', h⟩
    · rintro (h | ⟨hb, e', he', rfl, hn⟩)
      · exact .inl (.inl h)
      · rcases List.mem_cons.1 he' with rfl | he'
        · exact .inl (.inr ⟨rfl, hb, hn⟩)
        · exact .inr ⟨hb, e', he', rfl, hn⟩

/-! ### What is waiting -/

/-- The files of the channel that the agent has not drained, by their names. -/
def undelivered (s : FilesystemStore) (c : Channel) (a : AgentId) : List (String × MessageFile) :=
  (s.listMessageFiles c).filter (·.1 ∉ s.getDeliveredSet c a)

theorem listMessageFiles_nodup : ((s.listMessageFiles c).map (·.1)).Nodup :=
  ((List.perm_insertionSort _ _).map _).nodup_iff.2 (s.channelDir c).messages.nodup

theorem undelivered_nodup : ((s.undelivered c a).map (·.1)).Nodup :=
  listMessageFiles_nodup.sublist (List.filter_sublist.map _)

theorem mem_undelivered : f ∈ s.undelivered c a ↔
    f ∈ (s.channelDir c).messages.entries ∧ f.1 ∉ s.getDeliveredSet c a := by
  simp [undelivered, listMessageFiles]

/-- The file names ascend. -/
theorem undelivered_names : (s.undelivered c a).Pairwise (·.1 < ·.1) := by
  have hle : (s.undelivered c a).Pairwise (·.1 ≤ ·.1) := by
    refine List.Pairwise.sublist List.filter_sublist ?_
    exact List.pairwise_insertionSort (fun f g : String × MessageFile => f.1 ≤ g.1) _
  have hne : (s.undelivered c a).Pairwise fun f g => f.1 ≠ g.1 := List.pairwise_map.1 undelivered_nodup
  exact hle.imp₂ (fun _ _ h h' => lt_of_le_of_ne h h') hne

theorem SameFiles.undelivered {s' : FilesystemStore} (h : SameFiles s s')
    (hd : ∀ n, n ∈ s'.getDeliveredSet c a ↔ n ∈ s.getDeliveredSet c a) :
    s'.undelivered c a = s.undelivered c a := by
  rw [FilesystemStore.undelivered, listMessageFiles, h c]
  exact List.filter_congr fun f _ => by simp only [hd]

/-! ### The scan of recv -/

theorem drainFiles_eq (max : Int) (c : Channel) (delivered : List String) (dr : Draining) (files : List (String × MessageFile)) :
    drainFiles max c delivered dr files =
      let taken := (files.filter (·.1 ∉ delivered)).take (max.toNat - dr.messages.length)
      { messages := dr.messages ++ taken.map (·.2)
        toMark := if taken = [] then dr.toMark
          else dr.toMark.set c (dr.toMark.getD c [] ++ taken.map (·.1)) } := by
  induction files generalizing dr with
  | nil => simp [drainFiles]
  | cons file files ih =>
    obtain ⟨fname, msg⟩ := file
    unfold drainFiles
    split
    · rename_i hmax
      have hz : max.toNat - dr.messages.length = 0 := by omega
      simp [hz]
    · rename_i hmax
      split
      · rename_i hfname
        rw [ih, List.filter_cons_of_neg (by simpa using hfname)]
      · rename_i hfname
        have hs : max.toNat - dr.messages.length = (max.toNat - (dr.messages.length + 1)) + 1 := by omega
        rw [ih, List.filter_cons_of_pos (by simpa using hfname), hs, List.take_succ_cons,
          List.length_append, List.length_singleton]
        dsimp only
        rw [if_neg (List.cons_ne_nil _ _)]
        split
        · rename_i hnil
          simp only [hnil, List.map_nil, List.map_singleton, List.append_nil]
        · simp

def targets (ls : DirListing) (a : AgentId) (channels : Option (List Channel)) (s : FilesystemStore) :
    List Channel :=
  match channels with
  | none => (s.knownChannels ls).filter (matchesAny · (s.getPatterns a))
  | some cs => cs

/-- What `recv` takes: a beginning of the target channels, laid end to end. -/
def taken (ls : DirListing) (a : AgentId) (channels : Option (List Channel)) (max : Int)
    (s : FilesystemStore) : List (Channel × String × MessageFile) :=
  (Feed.endToEnd (s.undelivered · a) (s.targets ls a channels)).take max.toNat

theorem drain_eq (max : Int) (cs : List Channel) (dr : Draining) :
    let d := cs.foldl (fun dr ch =>
      drainFiles max ch (s.getDeliveredSet ch a) dr (s.listMessageFiles ch)) dr
    let taken := (Feed.endToEnd (s.undelivered · a) cs).take (max.toNat - dr.messages.length)
    d.messages = dr.messages ++ taken.map (·.2.2) ∧
      ∀ c, d.toMark.getD c [] = dr.toMark.getD c [] ++ (taken.filter (·.1 = c)).map (·.2.1) := by
  induction cs generalizing dr with
  | nil => simp [Feed.endToEnd]
  | cons ch cs ih =>
    -- what the first channel gives, and what is left for the others
    have hfirst := drainFiles_eq max ch (s.getDeliveredSet ch a) dr (s.listMessageFiles ch)
    have hsplit : (Feed.endToEnd (s.undelivered · a) (ch :: cs)).take (max.toNat - dr.messages.length) =
        ((s.undelivered ch a).take (max.toNat - dr.messages.length)).map (Prod.mk ch) ++
          (Feed.endToEnd (s.undelivered · a) cs).take (max.toNat - dr.messages.length -
            ((s.undelivered ch a).take (max.toNat - dr.messages.length)).length) := by
      rw [Feed.endToEnd, List.flatMap_cons, List.take_append, List.length_map, ← List.map_take,
        List.length_take, ← Feed.endToEnd]
      congr 2
      omega
    dsimp only at hfirst
    rw [← undelivered] at hfirst
    obtain ⟨hmsgs, hmarks⟩ := ih (drainFiles max ch (s.getDeliveredSet ch a) dr (s.listMessageFiles ch))
    rw [List.foldl_cons]
    dsimp only
    rw [hsplit]
    generalize (s.undelivered ch a).take (max.toNat - dr.messages.length) = taken at hfirst ⊢
    rw [hfirst] at hmsgs hmarks ⊢
    simp only [List.length_append, List.length_map, ← Nat.sub_sub] at hmsgs hmarks
    refine ⟨?_, fun c => ?_⟩
    · rw [hmsgs]
      simp [Function.comp_def]
    · rw [hmarks]
      rw [List.filter_append, List.map_append, Feed.filter_map_mk, ← List.append_assoc]
      congr 1
      by_cases hnil : taken = []
      · simp [hnil]
      · rw [if_neg hnil]
        by_cases hc : ch = c
        · subst hc
          simp [Function.comp_def]
        · rw [Dict.getD_set_of_ne (Ne.symm hc), if_neg hc]
          simp

theorem recv_fst : (s.recv ls a channels max).1 =
    sortByTime ((s.taken ls a channels max).map (·.2.2)) := by
  obtain ⟨hmsgs, -⟩ := drain_eq (s := s) (a := a) max (s.targets ls a channels) {}
  exact congrArg sortByTime (hmsgs.trans (List.nil_append _))

theorem mem_getDeliveredSet_recv : n ∈ (s.recv ls a channels max).2.getDeliveredSet c b ↔
    n ∈ s.getDeliveredSet c b ∨ b = a ∧ ∃ f, (c, f) ∈ s.taken ls a channels max ∧ f.1 = n := by
  obtain ⟨-, hmarks⟩ := drain_eq (s := s) (a := a) max (s.targets ls a channels) {}
  refine (mem_markAll _).trans (or_congr_right (and_congr_right fun _ => ?_))
  have hmark : ∀ (marks : Dict Channel (List String)),
      (∃ e ∈ marks.entries, e.1 = c ∧ n ∈ e.2) ↔ n ∈ marks.getD c [] := by
    intro marks
    unfold Dict.getD
    constructor
    · rintro ⟨⟨_, names⟩, he, rfl, hn⟩
      rw [Dict.get?_eq_some.2 he]
      exact hn
    · cases hg : marks.get? c with
      | none => intro hn; cases hn
      | some names => exact fun hn => ⟨(c, names), Dict.get?_eq_some.1 hg, rfl, hn⟩
  rw [hmark]
  refine (Iff.of_eq (congrArg (n ∈ ·) (hmarks c))).trans ?_
  simp [taken, Dict.getD]

/-! ### Directories -/

/-- Every directory is that of a channel. -/
def Encoded (s : FilesystemStore) : Prop := ∀ name ∈ s.channels.keys, ∃ c, name = encodeChannel c

theorem knownChannels_perm (ls : DirListing) :
    (s.knownChannels ls).Perm (s.channels.keys.map decodeChannel) := (ls.perm _).map _

theorem knownChannels_nodup (h : s.Encoded) (ls : DirListing) : (s.knownChannels ls).Nodup := by
  rw [(knownChannels_perm ls).nodup_iff]
  refine List.Nodup.map_on (fun m hm n hn heq => ?_) s.channels.nodup
  obtain ⟨c, rfl⟩ := h m hm
  obtain ⟨d, rfl⟩ := h n hn
  rw [decodeChannel_encodeChannel, decodeChannel_encodeChannel] at heq
  rw [heq]

/-- Nothing waits on a channel without a directory. -/
theorem undelivered_unknown (ls : DirListing) (hc : c ∉ s.knownChannels ls) : s.undelivered c a = [] := by
  have hkey : encodeChannel c ∉ s.channels.keys := fun hkey => hc ((knownChannels_perm ls).mem_iff.2
    (List.mem_map.2 ⟨_, hkey, decodeChannel_encodeChannel c⟩))
  rw [undelivered, listMessageFiles, channelDir, Dict.getD_of_notMem hkey]
  rfl

theorem mem_knownChannels_of_waits (ls : DirListing) (c : Channel) (hc : s.undelivered c a ≠ []) :
    c ∈ s.knownChannels ls := by_contra fun hunknown => hc (undelivered_unknown ls hunknown)

theorem targets_nodup (h : s.Encoded) (ls : DirListing) (hcs : ∀ cs, channels = some cs → cs.Nodup) :
    (s.targets ls a channels).Nodup := by
  cases channels with
  | none => exact (knownChannels_nodup h ls).filter _
  | some cs => exact hcs cs rfl

/-! ### What recv leaves -/

theorem endToEnd_undelivered_nodup {cs : List Channel} (hcs : cs.Nodup) :
    ((Feed.endToEnd (s.undelivered · a) cs).map fun e => (e.1, e.2.1)).Nodup :=
  Feed.endToEnd_nodup _ hcs fun _ _ => undelivered_nodup

theorem undelivered_recv : (s.recv ls a channels max).2.undelivered c a =
    (s.undelivered c a).filter fun f =>
      !decide ((c, f.1) ∈ (s.taken ls a channels max).map fun e => (e.1, e.2.1)) := by
  rw [undelivered, listMessageFiles, recv_sameFiles ls channels max c, undelivered, List.filter_filter,
    ← listMessageFiles]
  refine List.filter_congr fun f _ => ?_
  rw [Bool.eq_iff_iff]
  simp only [decide_eq_true_eq, mem_getDeliveredSet_recv, Bool.and_eq_true, Bool.not_eq_true',
    decide_eq_false_iff_not, List.mem_map, Prod.mk.injEq, true_and, not_or]
  rw [and_comm]
  refine and_congr_left fun _ => not_congr ?_
  constructor
  · rintro ⟨g, hg, heq⟩
    exact ⟨(c, g), hg, rfl, heq⟩
  · rintro ⟨⟨c', g⟩, hg, rfl, heq⟩
    exact ⟨g, hg, heq⟩

/-- Laid end to end, the target channels lose what was taken. -/
theorem endToEnd_recv (hnd : (s.targets ls a channels).Nodup) (max : Int) :
    Feed.endToEnd ((s.recv ls a channels max).2.undelivered · a) (s.targets ls a channels) =
      (Feed.endToEnd (s.undelivered · a) (s.targets ls a channels)).drop max.toNat := by
  have hleft : ((s.recv ls a channels max).2.undelivered · a) = fun c => (s.undelivered c a).filter fun f =>
      !decide ((c, f.1) ∈ (s.taken ls a channels max).map fun e => (e.1, e.2.1)) :=
    funext fun c => undelivered_recv
  rw [hleft]
  refine (Feed.endToEnd_filter_items _ _ fun e : Channel × String × MessageFile =>
    !decide ((e.1, e.2.1) ∈ (s.taken ls a channels max).map fun e => (e.1, e.2.1))).trans ?_
  refine (List.filter_congr fun e _ => ?_).trans
    (filter_notMem_take (endToEnd_undelivered_nodup hnd) max.toNat)
  exact congrArg (! ·) (decide_eq_decide.2 Iff.rfl)

/-- Of every channel `recv` takes a beginning and leaves the rest. -/
theorem recv_takes (hnd : (s.targets ls a channels).Nodup) (max : Int) (c : Channel) :
    ∃ k, (s.recv ls a channels max).2.undelivered c a = (s.undelivered c a).drop k ∧
      ((s.taken ls a channels max).filter (·.1 = c)).map (·.2) = (s.undelivered c a).take k := by
  by_cases hc : c ∈ s.targets ls a channels
  · obtain ⟨k, htake, hdrop⟩ := Feed.exists_filter_take (fun e : Channel × String × MessageFile => e.1 = c)
      (Feed.endToEnd (s.undelivered · a) (s.targets ls a channels)) max.toNat
    rw [← endToEnd_recv hnd max, Feed.endToEnd_filter hnd, Feed.endToEnd_filter hnd, if_pos hc, if_pos hc,
      ← List.map_drop] at hdrop
    rw [Feed.endToEnd_filter hnd, if_pos hc, ← List.map_take] at htake
    refine ⟨k, List.map_injective_iff.2 (Prod.mk_right_injective c) hdrop, ?_⟩
    rw [taken, htake, List.map_map]
    exact List.map_id _
  · have hnone : (s.taken ls a channels max).filter (·.1 = c) = [] := by
      refine List.filter_eq_nil_iff.2 fun e he heq => hc ?_
      obtain ⟨d, f⟩ := e
      rw [← of_decide_eq_true heq]
      exact (Feed.mem_endToEnd.1 (List.mem_of_mem_take he)).1
    refine ⟨0, ?_, by rw [hnone]; rfl⟩
    rw [undelivered_recv, List.drop_zero, List.filter_eq_self]
    intro f _
    rw [Bool.not_eq_true', decide_eq_false_iff_not, List.mem_map]
    rintro ⟨e, he, heq⟩
    have hmem := List.filter_eq_nil_iff.1 hnone e he
    exact hmem (decide_eq_true (Prod.mk.inj heq).1)

/-! ### What unsubscribe leaves -/

theorem clearChannel_fst (k : Nat) :
    (clearChannel a (k, s) d).1 = k + (s.undelivered d a).length := by
  simp only [clearChannel, List.filter_map, List.length_map]
  rfl

theorem mem_clearChannel (k : Nat) : n ∈ (clearChannel a (k, s) d).2.getDeliveredSet c b ↔
    n ∈ s.getDeliveredSet c b ∨ c = d ∧ b = a ∧ n ∈ (s.undelivered d a).map (·.1) := by
  have hmarks : ((s.listMessageFiles d).map (·.1)).filter (· ∉ s.getDeliveredSet d a) =
      (s.undelivered d a).map (·.1) := List.filter_map
  unfold clearChannel
  dsimp only
  rw [hmarks]
  split
  · rename_i hnil
    rw [List.isEmpty_iff.1 hnil]
    simp
  · exact mem_markDelivered _

theorem clearChannel_sameFiles (k : Nat) : SameFiles s (clearChannel a (k, s) d).2 :=
  clearChannel_keeps (P := SameFiles s) (fun _ _ _ ht _ _ => ht.trans (markDelivered_sameFiles _))
    (fun _ => rfl) k d

theorem clearChannel_subscriptions (k : Nat) : (clearChannel a (k, s) d).2.subscriptions = s.subscriptions := by
  unfold clearChannel
  dsimp only
  split <;> rfl

theorem clearAll_subscriptions (hit : List Channel) (k : Nat) :
    (hit.foldl (clearChannel a) (k, s)).2.subscriptions = s.subscriptions := by
  induction hit generalizing k s with
  | nil => rfl
  | cons d hit ih => exact (ih _).trans (clearChannel_subscriptions k)

/-- The loop over the channels that a removed pattern matches. -/
theorem clearAll_eq {hit : List Channel} (hhit : hit.Nodup) (k : Nat) :
    (hit.foldl (clearChannel a) (k, s)).1 = k + (Feed.endToEnd (s.undelivered · a) hit).length ∧
      SameFiles s (hit.foldl (clearChannel a) (k, s)).2 ∧
      ∀ c b n, n ∈ (hit.foldl (clearChannel a) (k, s)).2.getDeliveredSet c b ↔
        n ∈ s.getDeliveredSet c b ∨ b = a ∧ c ∈ hit ∧ n ∈ (s.undelivered c a).map (·.1) := by
  induction hhit generalizing k s with
  | nil => simp [Feed.endToEnd, SameFiles]
  | @cons d hit hd hhit ih =>
    -- the other channels do not change while one is cleared
    have hsame := clearChannel_sameFiles (s := s) (a := a) (d := d) k
    have hothers : ∀ c ∈ hit, (clearChannel a (k, s) d).2.undelivered c a = s.undelivered c a := by
      intro c hc
      refine hsame.undelivered fun n => ?_
      rw [mem_clearChannel]
      simp [Ne.symm (hd c hc)]
    obtain ⟨hcount, hfiles, hmem⟩ := ih (s := (clearChannel a (k, s) d).2) (clearChannel a (k, s) d).1
    rw [List.foldl_cons]
    refine ⟨?_, hsame.trans hfiles, fun c b n => ?_⟩
    · rw [hcount, clearChannel_fst, Feed.endToEnd, Feed.endToEnd, List.flatMap_cons, List.length_append,
        List.length_map, Nat.add_assoc, List.flatMap_congr fun c hc => by rw [hothers c hc]]
    · rw [hmem, mem_clearChannel]
      constructor
      · rintro ((h | ⟨rfl, hb, hn⟩) | ⟨hb, hc, hn⟩)
        · exact .inl h
        · exact .inr ⟨hb, List.mem_cons_self, hn⟩
        · rw [hothers c hc] at hn
          exact .inr ⟨hb, List.mem_cons_of_mem d hc, hn⟩
      · rintro (h | ⟨hb, hc, hn⟩)
        · exact .inl (.inl h)
        · rcases List.mem_cons.1 hc with rfl | hc
          · exact .inl (.inr ⟨rfl, hb, hn⟩)
          · rw [← hothers c hc] at hn
            exact .inr ⟨hb, hc, hn⟩

/-- Whether `unsubscribe` discards what waits on the channel: a removed pattern matches it. -/
def clearedBy (s : FilesystemStore) (a : AgentId) (patterns : List Pattern) (c : Channel) : Bool :=
  matchesAny c ((s.getPatterns a).filter (· ∈ patterns))

theorem unsubscribe_eq (h : s.Encoded) (ls : DirListing) (a : AgentId) (patterns : List Pattern) :
    (s.unsubscribe ls a patterns).1 = ((s.getPatterns a).filter (· ∈ patterns),
      (Feed.endToEnd (s.undelivered · a) ((s.knownChannels ls).filter (s.clearedBy a patterns))).length) ∧
    (s.unsubscribe ls a patterns).2.getPatterns a = (s.getPatterns a).filter (· ∉ patterns) ∧
    ∀ c, (s.unsubscribe ls a patterns).2.undelivered c a =
      if s.clearedBy a patterns c then [] else s.undelivered c a := by
  by_cases hremoved : (s.getPatterns a).filter (· ∈ patterns) = []
  · have hkept : (s.getPatterns a).filter (· ∉ patterns) = s.getPatterns a := by
      rw [List.filter_eq_nil_iff] at hremoved
      exact List.filter_eq_self.2 fun p hp => by simpa using hremoved p hp
    have hnone : s.clearedBy a patterns = fun _ => false := by
      funext c
      rw [clearedBy, hremoved]
      rfl
    have hsame : s.unsubscribe ls a patterns = (([], 0), s) := by
      unfold unsubscribe
      dsimp only
      rw [hremoved]
      rfl
    rw [hsame, hkept, hnone, hremoved]
    simp [Feed.endToEnd]
  · set t : FilesystemStore :=
      { s with subscriptions := s.subscriptions.set a ((s.getPatterns a).filter (· ∉ patterns)) } with ht
    set hit := (t.knownChannels ls).filter (s.clearedBy a patterns) with hhit
    have hrun : s.unsubscribe ls a patterns = (((s.getPatterns a).filter (· ∈ patterns),
        (hit.foldl (clearChannel a) (0, t)).1), (hit.foldl (clearChannel a) (0, t)).2) := by
      unfold unsubscribe
      dsimp only
      rw [if_neg (by rwa [List.isEmpty_iff])]
      rfl
    have hnd : hit.Nodup := (knownChannels_nodup h ls).filter _
    obtain ⟨hcount, hfiles, hmem⟩ := clearAll_eq (s := t) (a := a) hnd 0
    rw [hrun]
    refine ⟨?_, ?_, fun c => ?_⟩
    · rw [hcount, Nat.zero_add]
      rfl
    · rw [getPatterns, clearAll_subscriptions]
      exact Dict.getD_set_self
    · have hleft : (hit.foldl (clearChannel a) (0, t)).2.undelivered c a =
          (s.undelivered c a).filter fun _ => c ∉ hit := by
        rw [undelivered, listMessageFiles, hfiles c, undelivered, List.filter_filter, ← listMessageFiles]
        refine List.filter_congr fun f hf => ?_
        rw [Bool.eq_iff_iff]
        simp only [decide_eq_true_eq, hmem, Bool.and_eq_true, true_and, not_or, not_and]
        have hwaits : f.1 ∉ s.getDeliveredSet c a → f.1 ∈ (t.undelivered c a).map (·.1) := fun hn =>
          List.mem_map_of_mem (List.mem_filter.2 ⟨hf, decide_eq_true hn⟩)
        constructor
        · rintro ⟨hn, hc⟩
          exact ⟨fun hmem => hc hmem (hwaits hn), hn⟩
        · rintro ⟨hc, hn⟩
          exact ⟨hn, fun hmem => absurd hmem hc⟩
      rw [hleft]
      by_cases hknown : c ∈ s.knownChannels ls
      · have hin : c ∈ hit ↔ s.clearedBy a patterns c = true := by
          rw [hhit, List.mem_filter]
          exact and_iff_right hknown
        by_cases hc : s.clearedBy a patterns c = true
        · simp [hin, hc]
        · simp [hin, hc]
      · rw [undelivered_unknown ls hknown]
        simp

/-! ### Runs -/

/-- The part of `group_leave` that changes files. -/
def groupLeave (agentId : AgentId) (groupId : String) (s : FilesystemStore) : FilesystemStore :=
  { s with subscriptions := s.subscriptions.set agentId ((s.getPatterns agentId).filter (· != groupId)) }

/-- An operation as far as it changes files: `heartbeat` sends, `group_create` and `group_join`
subscribe, and the others keep what they know in memory. -/
inductive Op where
  | trace (op : TraceOp)
  | groupLeave (agentId : AgentId) (groupId : String)

def Op.uuid? : Op → Option Uuid
  | .trace op => op.uuid?
  | .groupLeave .. => none

def Op.apply (s : FilesystemStore) : Op → FilesystemStore
  | .trace op => s.apply op
  | .groupLeave a groupId => s.groupLeave a groupId

/-- The store after the operations. -/
def after (ops : List Op) : FilesystemStore := ops.foldl Op.apply init

variable {used : List Uuid} {s' : FilesystemStore}

/-- Each directory is that of a channel and holds messages of the channel, numbered from 1. -/
structure Kept (s : FilesystemStore) : Prop where
  encoded : s.Encoded
  filed : ∀ c, ∀ f ∈ (s.channelDir c).messages.entries, f.2.channel = c
  numbered : ∀ c, (s.channelDir c).messages.entries.map (·.2.seq) =
    List.range' 1 (s.channelDir c).messages.entries.length

theorem Kept.init : Kept init := ⟨fun _ h => (nomatch h), fun _ _ h => (nomatch h), fun _ => rfl⟩

theorem Kept.of_sameFiles (h : Kept s) (hsame : SameFiles s s') (henc : s'.Encoded) : Kept s' := by
  refine ⟨henc, fun c => ?_, fun c => ?_⟩ <;> rw [hsame c]
  · exact h.filed c
  · exact h.numbered c

theorem Encoded.setChannelDir (h : s.Encoded) (dir : ChannelDir) : (s.setChannelDir d dir).Encoded := by
  intro name hname
  rw [FilesystemStore.setChannelDir, Dict.keys_set] at hname
  split at hname
  · exact h name hname
  · rcases List.mem_append.1 hname with hname | hname
    · exact h name hname
    · exact ⟨d, List.mem_singleton.1 hname⟩

theorem Encoded.markAll (h : s.Encoded) (marks : List (Channel × List String)) :
    (marks.foldl (fun s e => s.markDelivered e.1 a e.2) s).Encoded := by
  induction marks generalizing s with
  | nil => exact h
  | cons e marks ih => exact ih (h.setChannelDir _)

theorem Kept.recv (h : Kept s) (ls : DirListing) (a : AgentId) (channels : Option (List Channel)) (max : Int) :
    Kept (s.recv ls a channels max).2 :=
  h.of_sameFiles (recv_sameFiles ls channels max) (h.encoded.markAll _)

theorem Kept.unsubscribe (h : Kept s) (ls : DirListing) (a : AgentId) (patterns : List Pattern) :
    Kept (s.unsubscribe ls a patterns).2 := by
  refine h.of_sameFiles (unsubscribe_sameFiles ls patterns) ?_
  exact unsubscribe_keeps (P := Encoded) (fun _ _ _ ht _ _ => ht.setChannelDir _) h.encoded ls patterns
    h.encoded

theorem Kept.subscribe (h : Kept s) (p : Pattern) : Kept (s.subscribe ls a p).2 := by
  refine h.of_sameFiles (subscribe_sameFiles ls p) ?_
  rw [Encoded, subscribe_channels]
  exact h.encoded

/-- A new file goes last, with the next number. -/
theorem send_entries {now : ℚ} {args : SendArgs} {u : Uuid}
    (hfresh : fileName now u ∉ (s.channelDir args.channel).messages.keys) :
    ∃ msg : MessageFile, msg.channel = args.channel ∧ msg.sentAt = now ∧
      msg.seq = (s.channelDir args.channel).messages.entries.length + 1 ∧
      ∀ c, ((s.send now args u).2.channelDir c).messages.entries = (s.channelDir c).messages.entries ++
        if c = args.channel then [(fileName now u, msg)] else [] := by
  refine ⟨{ messageId := encodeChannel args.channel ++ "/" ++ fileName now u, channel := args.channel
            sender := args.sender, body := args.body, correlationId := args.correlationId, sentAt := now
            seq := _, replyTo := args.replyTo }, rfl, rfl, rfl, fun c => ?_⟩
  unfold FilesystemStore.send
  dsimp only
  rw [channelDir_set]
  split
  · rename_i hc
    rw [hc]
    exact Dict.upsert_of_notMem hfresh
  · exact (List.append_nil _).symm

theorem Kept.send (h : Kept s) {now : ℚ} {args : SendArgs} {u : Uuid}
    (hfresh : fileName now u ∉ (s.channelDir args.channel).messages.keys) :
    Kept (s.send now args u).2 := by
  obtain ⟨msg, hchannel, -, hseq, hentries⟩ := send_entries hfresh
  refine ⟨h.encoded.setChannelDir _, fun c f hf => ?_, fun c => ?_⟩
  · rw [hentries] at hf
    rcases List.mem_append.1 hf with hf | hf
    · exact h.filed c f hf
    · split at hf
      · rename_i hc
        rw [List.mem_singleton.1 hf, hchannel, hc]
      · exact absurd hf List.not_mem_nil
  · rw [hentries, List.map_append, h.numbered, List.length_append]
    split
    · rename_i hc
      subst hc
      rw [List.length_singleton, List.range'_concat]
      simp [hseq, Nat.add_comm]
    · simp

theorem Kept.apply (h : Kept s) (hnames : Inv used s) {op : Op} (hu : (op.uuid?.toList ++ used).Nodup) :
    Kept (op.apply s) ∧ Inv (op.uuid?.toList ++ used) (op.apply s) := by
  cases op with
  | groupLeave a groupId =>
    exact ⟨⟨h.encoded, h.filed, h.numbered⟩, ⟨hnames.files, hnames.drained⟩⟩
  | trace op =>
    refine ⟨?_, hnames.apply hu⟩
    cases op with
    | send now args u => exact h.send (hnames.fresh (List.nodup_cons.1 hu).1)
    | subscribe ls a p => exact h.subscribe p
    | recv ls a channels max => exact h.recv ls a channels max
    | unsubscribe ls a ps => exact h.unsubscribe ls a ps

theorem Kept.foldl (h : Kept s) (hnames : Inv used s) (ops : List Op)
    (hu : (ops.filterMap Op.uuid? ++ used).Nodup) : Kept (ops.foldl Op.apply s) := by
  induction ops generalizing s used with
  | nil => exact h
  | cons op ops ih =>
    have hnd := (filterMap_cons_perm Op.uuid? op ops used).nodup_iff.2 hu
    obtain ⟨hkept, hnames'⟩ := h.apply hnames (List.nodup_append.1 hnd).2.1
    exact ih hkept hnames' hnd

/-- Every store that operations leave behind, the ids of `uuid4` being all different, is kept. -/
theorem kept_after {ops : List Op} (hu : (ops.filterMap Op.uuid?).Nodup) : Kept (after ops) :=
  Kept.init.foldl .init ops (by rwa [List.append_nil])

end FilesystemStore

end Sox
