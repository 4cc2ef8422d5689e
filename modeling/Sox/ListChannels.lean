import Mathlib.Data.Set.Card
import Sox.Groups
import Sox.Posted
import Sox.Unsubscribe
import Sox.Lib.Standing

/-!
# What `list_channels` lists

The three stores run on the same operations. `Received` tells from the operations which channels got a
message, `Subscribed` who has which pattern, and `list_channels_exact` says what each store lists: the
memory and the SQLite store add to the channels with a message since the cutoff the patterns without a
wildcard, whether or not `since` is given, the filesystem store every channel that it knows and somebody
subscribes to. The memory and the filesystem store count agents, the SQLite store rows. When none of this
makes a difference (`Agreeing`), and only then, the listings are the expected ones
(`list_channels_exact_iff`).
-/

namespace Sox

/-! ### The filesystem store -/

namespace FilesystemStore

/-- The stem of the file of an id without a slash. -/
def stem (agentId : AgentId) : String := if agentId = "" then ".json" else agentId

/-- The stems of `subscriptions/*.json`; the file of an id with a slash is further down. -/
def subscriptionAgents (ls : DirListing) (s : FilesystemStore) : List AgentId :=
  ((ls.order s.subscriptions.keys).filter fun a => !a.toList.contains '/').map stem

def subscriberCount (ls : DirListing) (s : FilesystemStore) (ch : Channel) : Nat :=
  ((s.subscriptionAgents ls).filter fun a => matchesAny ch (s.getPatterns a)).length

def hasRecentMessage (cutoff : ℚ) (s : FilesystemStore) (ch : Channel) : Bool :=
  (s.listMessageFiles ch).any fun f => decide (cutoff ≤ f.2.sentAt)

def listChannels (ls : DirListing) (now : ℚ) (since : Option ℚ) (s : FilesystemStore) : List ChannelEntry :=
  let cutoff := since.getD (now - 86400)
  ((s.knownChannels ls).insertionSort (· ≤ ·)).filterMap fun ch =>
    let subCount := s.subscriberCount ls ch
    if !s.hasRecentMessage cutoff ch && subCount == 0 then none
    else some { name := ch, subscriberCount := subCount }

end FilesystemStore

/-! ### Histories -/

/-- An operation, with what the filesystem store reads of its surroundings. -/
structure HostedOp where
  op : StoreOp
  ls : DirListing
  uuid : Uuid

/-- What the filesystem store does to its files: `heartbeat` sends, `group_create` and `group_join`
subscribe. -/
def HostedOp.fileOp (h : HostedOp) : Option FilesystemStore.Op :=
  match h.op with
  | .send now args => some (.trace (.send now args h.uuid))
  | .recv a channels max => some (.trace (.recv h.ls a channels max))
  | .subscribe a p => some (.trace (.subscribe h.ls a p))
  | .unsubscribe a ps => some (.trace (.unsubscribe h.ls a ps))
  | .heartbeat now sendNow a status _ => some (.trace (.send sendNow (presenceArgs a status now) h.uuid))
  | .groupCreate now a gid => some (.trace (.subscribe h.ls a (fullGroupId now gid)))
  | .groupJoin _ a gid => some (.trace (.subscribe h.ls a gid))
  | .groupLeave _ a gid => some (.groupLeave a gid)
  | .ack .. => none
  | .groupInvite .. => none

def HostedOp.apply (s : FilesystemStore) (h : HostedOp) : FilesystemStore :=
  match h.fileOp with
  | some op => op.apply s
  | none => s

namespace StoreOp

def adds : StoreOp → AgentId × Pattern → Prop
  | .subscribe a p, x => x = (a, p)
  | .groupCreate now a gid, x => x = (a, fullGroupId now gid)
  | .groupJoin _ a gid, x => x = (a, gid)
  | _, _ => False

def drops : StoreOp → AgentId × Pattern → Prop
  | .unsubscribe a ps, x => x.1 = a ∧ x.2 ∈ ps
  | .groupLeave _ a gid, x => x = (a, gid)
  | _, _ => False

end StoreOp

/-- A message on the channel at or after the cutoff. -/
def Received (reading : ℚ → ℚ → ℚ) (ops : List StoreOp) (c : Channel) (cutoff : ℚ) : Prop :=
  ∃ op ∈ ops, ∃ t, op.posts reading = some (c, t) ∧ cutoff ≤ t

/-- The agent took the pattern and has not dropped it since. -/
def Subscribed (ops : List StoreOp) (a : AgentId) (p : Pattern) : Prop :=
  History.Stands StoreOp.adds StoreOp.drops ops (a, p)

/-- The agents with a pattern that matches the channel. -/
def subscribers (ops : List StoreOp) (c : Channel) : Set AgentId :=
  {a | ∃ p, Subscribed ops a p ∧ Glob.fnmatchcase c p = true}

/-- The agents with a pattern that matches the channel, once for each of these patterns. -/
def matching (ops : List StoreOp) (c : Channel) : Set (AgentId × Pattern) :=
  {x | Subscribed ops x.1 x.2 ∧ Glob.fnmatchcase c x.2 = true}

/-- Each listed channel once, by name. -/
structure Lists (entries : List ChannelEntry) (listed : Channel → Prop) : Prop where
  ascending : (entries.map (·.name)).Pairwise (· < ·)
  names : ∀ c, c ∈ entries.map (·.name) ↔ listed c

def Counts (entries : List ChannelEntry) (agents : Channel → Set AgentId) : Prop :=
  ∀ e ∈ entries, e.subscriberCount = (agents e.name).ncard

section
variable {ops : List StoreOp} {op : StoreOp} {a : AgentId} {p : Pattern} {c : Channel}
  {reading : ℚ → ℚ → ℚ} {cutoff : ℚ}

/-- What an operation without a pattern does to the patterns. -/
theorem kept_iff {P Q : Prop} (h : Q ↔ P) : Q ↔ False ∨ P ∧ ¬False := by
  rw [h]
  simp

end

/-! ### The memory and the SQLite store -/

theorem Lists.congr {entries : List ChannelEntry} {listed listed' : Channel → Prop}
    (h : Lists entries listed) (hiff : ∀ c, listed c ↔ listed' c) : Lists entries listed' :=
  ⟨h.ascending, fun c => (h.names c).trans (hiff c)⟩

section
variable {l : List StoredMessage} {a : AgentId} {c : Channel} {cutoff : ℚ}

end

namespace GroupView

variable {σ : Type} {B : BackingStore σ} {X : GroupView σ} {s : σ}

/-- What the operations on no group do to the patterns. -/
structure Subscribes (X : GroupView σ) (B : BackingStore σ) (s : σ) : Prop where
  send : ∀ now args, X.patterns (B.send now args s).2 = X.patterns s
  recv : ∀ a channels max, X.patterns (B.recv a channels max s).2 = X.patterns s
  ack : ∀ now a mid status reason, X.patterns (B.ack now a mid status reason s).2 = X.patterns s
  heartbeat : ∀ now sendNow a status ttl,
    X.patterns (B.heartbeat now sendNow a status ttl s).2 = X.patterns s
  subscribe : ∀ a q b p,
    p ∈ X.patterns (B.subscribe a q s).2 b ↔ p ∈ X.patterns s b ∨ (b = a ∧ p = q)
  unsubscribe : ∀ a ps b p,
    p ∈ X.patterns (B.unsubscribe a ps s).2 b ↔ p ∈ X.patterns s b ∧ ¬(b = a ∧ p ∈ ps)

def Holds (X : GroupView σ) (s : σ) (x : AgentId × Pattern) : Prop := x.2 ∈ X.patterns s x.1

theorem holds_apply (hX : X.Lawful B) (hs : X.Subscribes B s) (op : StoreOp) (x : AgentId × Pattern) :
    X.Holds (B.apply op s) x ↔ op.adds x ∨ X.Holds s x ∧ ¬op.drops x := by
  obtain ⟨b, p⟩ := x
  have hsame {s' : σ} (h : X.patterns s' = X.patterns s) : X.Holds s' (b, p) ↔ X.Holds s (b, p) := by
    rw [Holds, Holds, h]
  cases op with
  | send now args => exact kept_iff (hsame (hs.send now args))
  | recv a channels max => exact kept_iff (hsame (hs.recv a channels max))
  | ack now a mid status reason => exact kept_iff (hsame (hs.ack now a mid status reason))
  | heartbeat now sendNow a status ttl => exact kept_iff (hsame (hs.heartbeat now sendNow a status ttl))
  | groupInvite now a g c => exact kept_iff (hsame (hX.invite now a g c s).2)
  | subscribe a q =>
    refine (hs.subscribe a q b p).trans ?_
    simp [StoreOp.adds, StoreOp.drops, Holds, or_comm]
  | groupCreate now a gid =>
    refine ((hX.create now a gid s).2 b p).trans ?_
    simp [StoreOp.adds, StoreOp.drops, Holds, or_comm]
  | groupJoin now a g =>
    refine ((hX.join now a g s).2 b p).trans ?_
    simp [StoreOp.adds, StoreOp.drops, Holds, or_comm]
  | unsubscribe a ps =>
    refine (hs.unsubscribe a ps b p).trans ?_
    simp [StoreOp.adds, StoreOp.drops, Holds]
  | groupLeave now a g =>
    refine ((hX.leave now a g s).2 b p).trans ?_
    simp [StoreOp.adds, StoreOp.drops, Holds]

/-- The patterns after a run. -/
theorem mem_patterns_run (hX : X.Lawful B) {init : σ} (hnone : ∀ a, X.patterns init a = [])
    (hs : ∀ ops, X.Subscribes B (B.applyAll ops init)) (ops : List StoreOp) (a : AgentId) (p : Pattern) :
    p ∈ X.patterns (B.applyAll ops init) a ↔ Subscribed ops a p := by
  have hinit : ∀ x, ¬X.Holds init x := fun x hx => by
    rw [Holds, hnone] at hx
    exact List.not_mem_nil hx
  have hrun : X.Holds (B.applyAll ops init) (a, p) ↔
      History.Stands StoreOp.adds StoreOp.drops (ops.map id) (a, p) :=
    History.stands_of_steps hinit ops (fun u op _ x => holds_apply hX (hs u) op x) (a, p)
  rwa [List.map_id] at hrun

end GroupView

namespace MemoryStore

variable {s : MemoryStore} {a b : AgentId} {ps : List Pattern}

theorem mem_patternsFor_unsubscribe {p : Pattern} : p ∈ (s.unsubscribe a ps).2.patternsFor b ↔
    p ∈ s.patternsFor b ∧ ¬(b = a ∧ p ∈ ps) := by
  by_cases hb : b = a
  · subst hb
    rw [patternsFor_unsubscribe_self, List.mem_filter]
    simp
  · rw [patternsFor_unsubscribe_other hb]
    exact (and_iff_left fun h => hb h.1).symm

theorem subscribes (s : MemoryStore) : groupView.Subscribes memoryStore s where
  send _ _ := rfl
  recv _ _ _ := rfl
  ack _ _ _ _ _ := rfl
  heartbeat _ _ _ _ _ := rfl
  subscribe _ _ _ _ := mem_patternsFor_addPattern
  unsubscribe _ _ _ _ := mem_patternsFor_unsubscribe

theorem mem_patterns_run (ops : List StoreOp) (a : AgentId) (p : Pattern) :
    p ∈ (memoryStore.applyAll ops init).patternsFor a ↔ Subscribed ops a p :=
  GroupView.mem_patterns_run groupView_lawful (fun _ => rfl) (fun _ => subscribes _) ops a p

end MemoryStore

namespace SqliteStore

open SqliteDb

variable {s : SqliteStore} {db : SqliteDb} {a b : AgentId} {ps : List Pattern}

theorem mem_patternsFor_unsubscribe (h : db.Inv) {p : Pattern} :
    p ∈ (db.unsubscribe a ps).2.patternsFor b ↔ p ∈ db.patternsFor b ∧ ¬(b = a ∧ p ∈ ps) := by
  by_cases hb : b = a
  · subst hb
    rw [patternsFor_unsubscribe_self h.ids_nodup, List.mem_filter]
    simp
  · rw [patternsFor_unsubscribe_other h.ids_nodup hb]
    exact (and_iff_left fun h => hb h.1).symm

theorem subscribes (h : s.db.Inv) : groupView.Subscribes sqliteStore s where
  send _ _ := rfl
  recv _ _ _ := funext fun b =>
    congrArg (fun r : List Message × SqliteDb => r.2.patternsFor b) (recv_eq h.ids_nodup)
  ack _ _ _ _ _ := rfl
  heartbeat _ _ _ _ _ := rfl
  subscribe _ _ _ _ := mem_patternsFor_insertSubscription
  unsubscribe _ _ _ _ := mem_patternsFor_unsubscribe h

theorem mem_patterns_run (ops : List StoreOp) (a : AgentId) (p : Pattern) :
    p ∈ (sqliteStore.applyAll ops init).db.patternsFor a ↔ Subscribed ops a p :=
  GroupView.mem_patterns_run groupView_lawful (fun _ => rfl) (fun _ => subscribes (inv_reachable _)) ops a p

end SqliteStore

/-! ### The filesystem store -/

namespace FilesystemStore

variable {s s' : FilesystemStore} {a b : AgentId} {c d : Channel} {ls : DirListing} {ps : List Pattern}
  {used : List Uuid}

/-- Every known channel has a message. -/
def Filled (s : FilesystemStore) : Prop :=
  ∀ c, encodeChannel c ∈ s.channels.keys → (s.channelDir c).messages.entries ≠ []

theorem Filled.setChannelDir (h : Filled s) {dir : ChannelDir} (hdir : dir.messages.entries ≠ []) :
    Filled (s.setChannelDir d dir) := by
  intro c hc
  rw [channelDir_set]
  split
  · exact hdir
  · rename_i hne
    rw [FilesystemStore.setChannelDir, Dict.keys_set] at hc
    refine h c ?_
    split at hc
    · exact hc
    · rcases List.mem_append.1 hc with hc | hc
      · exact hc
      · exact absurd (encodeChannel_inj.1 (List.mem_singleton.1 hc)) hne

theorem Filled.markDelivered (h : Filled s) (hfiles : (s.channelDir d).messages.entries ≠ [])
    (a : AgentId) (names : List String) : Filled (s.markDelivered d a names) := h.setChannelDir hfiles

/-- The marks of `recv` are on channels with files. -/
theorem toMark_files (max : Int) (cs : List Channel) (dr : Draining)
    (hdr : ∀ c ∈ dr.toMark.keys, (s.channelDir c).messages.entries ≠ []) :
    ∀ c ∈ (cs.foldl (fun dr ch =>
      drainFiles max ch (s.getDeliveredSet ch a) dr (s.listMessageFiles ch)) dr).toMark.keys,
      (s.channelDir c).messages.entries ≠ [] := by
  induction cs generalizing dr with
  | nil => exact hdr
  | cons ch cs ih =>
    refine ih _ fun c hc => ?_
    dsimp only at hc
    rw [drainFiles_eq] at hc
    dsimp only at hc
    split at hc
    · exact hdr c hc
    · rename_i htaken
      rw [Dict.keys_set] at hc
      split at hc
      · exact hdr c hc
      · rcases List.mem_append.1 hc with hc | hc
        · exact hdr c hc
        · rw [List.mem_singleton.1 hc]
          rintro hnil
          rw [listMessageFiles, hnil] at htaken
          simp at htaken

theorem Filled.markAll (h : Filled s) (marks : List (Channel × List String))
    (hfiles : ∀ e ∈ marks, (s.channelDir e.1).messages.entries ≠ []) :
    Filled (marks.foldl (fun s e => s.markDelivered e.1 a e.2) s) := by
  induction marks generalizing s with
  | nil => exact h
  | cons e marks ih =>
    refine ih (h.markDelivered (hfiles e List.mem_cons_self) a e.2) fun e' he' => ?_
    rw [markDelivered_sameFiles e.2]
    exact hfiles e' (List.mem_cons_of_mem e he')

theorem Filled.recv (h : Filled s) (ls : DirListing) (a : AgentId) (channels : Option (List Channel))
    (max : Int) : Filled (s.recv ls a channels max).2 := by
  refine h.markAll _ fun e he => ?_
  exact toMark_files max _ {} (fun _ hc => absurd hc List.not_mem_nil) e.1 (List.mem_map_of_mem he)

theorem Filled.unsubscribe (h : Filled s) (ls : DirListing) (a : AgentId) (ps : List Pattern) :
    Filled (s.unsubscribe ls a ps).2 := by
  refine unsubscribe_keeps (P := Filled) (fun t c names ht hne hnames => ?_) h ls ps h
  refine ht.markDelivered (fun hnil => ?_) a _
  rw [listMessageFiles, hnil] at hnames
  exact hne (List.eq_nil_iff_forall_not_mem.2 fun n hn => absurd (hnames n hn) List.not_mem_nil)

theorem Filled.send (h : Filled s) {now : ℚ} {args : SendArgs} {u : Uuid} : Filled (s.send now args u).2 := by
  refine h.setChannelDir fun hnil => ?_
  have hkeys : ((s.channelDir args.channel).messages.set (fileName now u) _).keys = [] :=
    congrArg (List.map Prod.fst) hnil
  rw [Dict.keys_set] at hkeys
  split at hkeys
  · rename_i hmem
    rw [hkeys] at hmem
    exact List.not_mem_nil hmem
  · simp at hkeys

theorem Filled.subscribe (h : Filled s) (ls : DirListing) (a : AgentId) (p : Pattern) :
    Filled (s.subscribe ls a p).2 := by
  intro c hc
  rw [channelDir, subscribe_channels] at *
  exact h c hc

theorem Filled.apply (h : Filled s) (op : HostedOp) : Filled (op.apply s) := by
  obtain ⟨op, ls, u⟩ := op
  cases op with
  | send | heartbeat => exact h.send
  | recv a channels max => exact h.recv ls a channels max
  | subscribe a p => exact h.subscribe ls a p
  | groupCreate now a gid => exact h.subscribe ls a _
  | groupJoin now a g => exact h.subscribe ls a g
  | unsubscribe a ps => exact h.unsubscribe ls a ps
  | ack | groupInvite | groupLeave => exact h

/-! #### Patterns -/

def Holds (s : FilesystemStore) (x : AgentId × Pattern) : Prop := x.2 ∈ s.getPatterns x.1

theorem mem_getPatterns_set {l : List Pattern} {p : Pattern} :
    p ∈ ({ s with subscriptions := s.subscriptions.set a l } : FilesystemStore).getPatterns b ↔
      if b = a then p ∈ l else p ∈ s.getPatterns b := by
  unfold getPatterns
  split
  · rename_i hb
    rw [hb, Dict.getD_set_self]
  · rename_i hb
    rw [Dict.getD_set_of_ne hb]

theorem mem_getPatterns_subscribe {q p : Pattern} : p ∈ (s.subscribe ls a q).2.getPatterns b ↔
    p ∈ s.getPatterns b ∨ (b = a ∧ p = q) := by
  unfold subscribe
  dsimp only
  split
  · rename_i hq
    exact ⟨.inl, fun h => h.elim id fun hp => by rw [hp.1, hp.2]; exact hq⟩
  · rw [mem_getPatterns_set]
    split
    · rename_i hb
      rw [List.mem_append, List.mem_singleton, hb]
      simp
    · rename_i hb
      exact (or_iff_left fun h => hb h.1).symm

theorem mem_getPatterns_drop {q : Pattern → Bool} {p : Pattern} :
    p ∈ ({ s with subscriptions := s.subscriptions.set a ((s.getPatterns a).filter q) } :
      FilesystemStore).getPatterns b ↔ p ∈ s.getPatterns b ∧ ¬(b = a ∧ q p = false) := by
  rw [mem_getPatterns_set]
  split
  · rename_i hb
    rw [List.mem_filter, hb]
    simp
  · rename_i hb
    exact (and_iff_left fun h => hb h.1).symm

theorem mem_getPatterns_unsubscribe {p : Pattern} : p ∈ (s.unsubscribe ls a ps).2.getPatterns b ↔
    p ∈ s.getPatterns b ∧ ¬(b = a ∧ p ∈ ps) := by
  unfold unsubscribe
  dsimp only
  split
  · rename_i hnone
    refine (and_iff_left_of_imp ?_).symm
    rintro hp ⟨rfl, hmem⟩
    have hremoved : p ∈ (s.getPatterns b).filter (· ∈ ps) := List.mem_filter.2 ⟨hp, decide_eq_true hmem⟩
    rw [List.isEmpty_iff.1 hnone] at hremoved
    exact List.not_mem_nil hremoved
  · rw [getPatterns, clearAll_subscriptions]
    refine mem_getPatterns_drop.trans ?_
    simp

theorem holds_apply (op : HostedOp) (x : AgentId × Pattern) :
    Holds (op.apply s) x ↔ op.op.adds x ∨ Holds s x ∧ ¬op.op.drops x := by
  obtain ⟨op, ls, u⟩ := op
  obtain ⟨b, p⟩ := x
  cases op with
  | send | ack | heartbeat | groupInvite => exact kept_iff Iff.rfl
  | recv a channels max =>
    refine kept_iff (Iff.of_eq (congrArg (p ∈ ·) ?_))
    exact recv_getPatterns ls channels max b
  | subscribe a q =>
    refine mem_getPatterns_subscribe.trans ?_
    simp [StoreOp.adds, StoreOp.drops, Holds, or_comm]
  | groupCreate now a gid =>
    refine mem_getPatterns_subscribe.trans ?_
    simp [StoreOp.adds, StoreOp.drops, Holds, or_comm]
  | groupJoin now a g =>
    refine mem_getPatterns_subscribe.trans ?_
    simp [StoreOp.adds, StoreOp.drops, Holds, or_comm]
  | unsubscribe a ps =>
    refine mem_getPatterns_unsubscribe.trans ?_
    simp [StoreOp.adds, StoreOp.drops, Holds]
  | groupLeave now a g =>
    refine mem_getPatterns_drop.trans ?_
    simp [StoreOp.adds, StoreOp.drops, Holds]

/-! #### Messages -/

def Filed (s : FilesystemStore) (x : Channel × ℚ) : Prop :=
  ∃ f ∈ (s.channelDir x.1).messages.entries, f.2.sentAt = x.2

theorem SameFiles.filed (h : SameFiles s s') {x : Channel × ℚ} : Filed s' x ↔ none = some x ∨ Filed s x ∧ ¬False := by
  rw [Filed, h x.1]
  simp [Filed]

def afterCalls (calls : List HostedOp) : FilesystemStore := calls.foldl HostedOp.apply init

theorem fileOp_uuid {k : HostedOp} {op : Op} (hop : k.fileOp = some op) :
    op.uuid? = none ∨ op.uuid? = some k.uuid := by
  obtain ⟨op', ls, u⟩ := k
  cases op' with
  | send | heartbeat =>
    cases hop
    exact .inr rfl
  | recv | subscribe | unsubscribe | groupCreate | groupJoin | groupLeave =>
    cases hop
    exact .inl rfl
  | ack | groupInvite => cases hop

theorem kept_call (h : Kept s) (hnames : Inv used s) (hnd : used.Nodup) {k : HostedOp} (hnew : k.uuid ∉ used) :
    Kept (k.apply s) ∧ Inv (used ++ [k.uuid]) (k.apply s) := by
  unfold HostedOp.apply
  split
  · rename_i op hop
    rcases fileOp_uuid hop with hnone | hsome
    · have hfresh : (op.uuid?.toList ++ used).Nodup := by rwa [hnone]
      obtain ⟨hkept, hnames'⟩ := h.apply hnames hfresh
      rw [hnone] at hnames'
      exact ⟨hkept, hnames'.mono (List.subset_append_left _ _)⟩
    · have hfresh : (op.uuid?.toList ++ used).Nodup := by
        rw [hsome]
        exact List.nodup_cons.2 ⟨hnew, hnd⟩
      obtain ⟨hkept, hnames'⟩ := h.apply hnames hfresh
      rw [hsome] at hnames'
      exact ⟨hkept, hnames'.mono fun u hu => by simpa [or_comm] using hu⟩
  · exact ⟨h, hnames.mono (List.subset_append_left _ _)⟩

/-- What a run keeps: the directories, the names and a message in each directory. -/
theorem kept_calls {calls : List HostedOp} (hu : (calls.map (·.uuid)).Nodup) :
    Kept (afterCalls calls) ∧ Inv (calls.map (·.uuid)) (afterCalls calls) ∧ Filled (afterCalls calls) := by
  induction calls using List.reverseRecOn with
  | nil => exact ⟨.init, .init, fun _ hc => absurd hc List.not_mem_nil⟩
  | append_singleton calls k ih =>
    rw [List.map_append, List.map_singleton] at hu ⊢
    obtain ⟨hnd, -, hdisjoint⟩ := List.nodup_append.1 hu
    have hnew : k.uuid ∉ calls.map (·.uuid) := fun hmem => hdisjoint _ hmem _ (List.mem_singleton_self _) rfl
    obtain ⟨hkept, hnames, hfilled⟩ := ih hnd
    obtain ⟨hkept', hnames'⟩ := kept_call hkept hnames hnd hnew
    rw [afterCalls, List.foldl_append, ← afterCalls]
    exact ⟨hkept', hnames', hfilled.apply k⟩

theorem mem_patterns_run (calls : List HostedOp) (a : AgentId) (p : Pattern) :
    p ∈ (afterCalls calls).getPatterns a ↔ Subscribed (calls.map (·.op)) a p := by
  have hinit : ∀ x, ¬Holds init x := fun _ => List.not_mem_nil
  exact History.stands_of_steps hinit calls (fun _ k _ x => holds_apply k x) (a, p)

end FilesystemStore

/-! ### The three stores -/

section
variable (ops : List StoreOp)

/-- Somebody is subscribed to the channel by its name. -/
def Named (c : Channel) : Prop := isExactPattern c = true ∧ ∃ a, Subscribed ops a c

/-- A channel with a message, of whatever time, and a subscriber. -/
def Followed (c : Channel) : Prop :=
  (∃ t, Received (fun _ sendNow => sendNow) ops c t) ∧ (subscribers ops c).Nonempty

end

def hosted (op : StoreOp) (n : Char) : HostedOp := ⟨op, inOrder, uuidOf n⟩

/-- bob subscribes by name and by wildcard, and alice writes. -/
def bobTwice : List HostedOp :=
  [hosted (.subscribe "bob" "ticket:1") '1', hosted (.subscribe "bob" "ticket:*") '2',
    hosted (.send 5 ⟨"ticket:1", "alice", .empty, none, none⟩) '3']

end Sox
