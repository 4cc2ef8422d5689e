import Sox.FilesystemRecv
import Sox.Watch

/-!
# What unsubscribing discards

A `Postbox` is a store as it keeps messages for agents: what has not been delivered to an agent, which
of it `recv` hands out and what `unsubscribe` does. The three stores discard whatever waits on a channel
that a removed pattern matches. That is what no remaining pattern matches, and nothing else, exactly when
no waiting message is on a channel that a removed and a remaining pattern both match
(`unsubscribe_keeps_iff`).
-/

namespace Sox

/-- `κ` is what a call reads of its surroundings. -/
structure Postbox (σ κ μ : Type) where
  channel : μ → Channel
  patterns : σ → AgentId → List Pattern
  /-- The messages that have not been delivered to the agent, wanted or not. -/
  undelivered : σ → AgentId → List μ
  /-- `recv` without a list of channels. -/
  recv : AgentId → Feed σ (κ × Int) μ
  unsubscribe : κ → AgentId → List Pattern → σ → (List Pattern × Nat) × σ

namespace Postbox

variable {σ κ μ : Type} (P : Postbox σ κ μ)

def wanted (patterns : List Pattern) (m : μ) : Bool := patterns.any (Glob.fnmatchcase (P.channel m))

def pending (s : σ) (a : AgentId) : List μ := (P.undelivered s a).filter (P.wanted (P.patterns s a))

/-- What was pending and is matched by a remaining pattern is pending, and a later `recv` returns it; the
count is of what was pending and no remaining pattern matches. -/
def KeepsWanted (env : κ) (a : AgentId) (patterns : List Pattern) (s : σ) : Prop :=
  let r := P.unsubscribe env a patterns s
  (∀ m ∈ P.pending s a, P.wanted (P.patterns r.2 a) m = true → m ∈ P.pending r.2 a ∧
    ∀ max : Int, 1 ≤ max → ∃ n, ∀ envs : List κ, envs.length = n →
      m ∈ (P.recv a).collect (envs.map (·, max)) r.2) ∧
  r.1.2 = ((P.pending s a).filter fun m => !P.wanted (P.patterns r.2 a) m).length

/-- No message waits on a channel that a removed and a remaining pattern match. -/
def Apart (a : AgentId) (patterns : List Pattern) (s : σ) : Prop :=
  ∀ m ∈ P.undelivered s a, ∀ p ∈ P.patterns s a, ∀ q ∈ P.patterns s a, p ∈ patterns → q ∉ patterns →
    Glob.fnmatchcase (P.channel m) p = true → Glob.fnmatchcase (P.channel m) q = false

/-- The patterns that `unsubscribe` removes. -/
def removed (s : σ) (a : AgentId) (patterns : List Pattern) : List Pattern :=
  (P.patterns s a).filter (· ∈ patterns)

/-- `recv` hands out what is pending; `unsubscribe` discards what a removed pattern matches. -/
structure Lawful (Inv : σ → Prop) : Prop where
  drains : ∀ a, (P.recv a).Drains Inv (fun k => 1 ≤ k.2) (P.pending · a)
  keeps : ∀ env a patterns s, Inv s → Inv (P.unsubscribe env a patterns s).2
  patterns : ∀ env a ps s, Inv s →
    P.patterns (P.unsubscribe env a ps s).2 a = (P.patterns s a).filter (· ∉ ps)
  count : ∀ env a ps s, Inv s → (P.unsubscribe env a ps s).1.2 =
    ((P.undelivered s a).filter (P.wanted (P.removed s a ps))).length
  discards : ∀ env a ps s, Inv s → (P.undelivered (P.unsubscribe env a ps s).2 a).Perm
    ((P.undelivered s a).filter fun m => !P.wanted (P.removed s a ps) m)

variable {P} {Inv : σ → Prop} {env : κ} {a : AgentId} {ps : List Pattern} {s : σ} {m : μ}

theorem wanted_split (m : μ) : P.wanted (P.patterns s a) m =
    (P.wanted (P.removed s a ps) m || P.wanted ((P.patterns s a).filter (· ∉ ps)) m) := by
  rw [Bool.eq_iff_iff, Bool.or_eq_true]
  simp only [wanted, removed, List.any_eq_true, List.mem_filter, decide_eq_true_eq]
  constructor
  · rintro ⟨p, hp, hm⟩
    by_cases hmem : p ∈ ps
    · exact .inl ⟨p, ⟨hp, hmem⟩, hm⟩
    · exact .inr ⟨p, ⟨hp, hmem⟩, hm⟩
  · rintro (⟨p, ⟨hp, -⟩, hm⟩ | ⟨p, ⟨hp, -⟩, hm⟩)
    · exact ⟨p, hp, hm⟩
    · exact ⟨p, hp, hm⟩

theorem apart_iff : P.Apart a ps s ↔ ∀ m ∈ P.undelivered s a, P.wanted (P.removed s a ps) m = true →
    P.wanted ((P.patterns s a).filter (· ∉ ps)) m = false := by
  refine forall_congr' fun m => imp_congr_right fun _ => ?_
  simp only [wanted, removed, List.any_eq_true, List.any_eq_false, List.mem_filter, decide_eq_true_eq,
    Bool.not_eq_true]
  constructor
  · rintro h ⟨p, ⟨hp, hmem⟩, hm⟩ q ⟨hq, hq'⟩
    exact h p hp q hq hmem hq' hm
  · intro h p hp q hq hmem hq' hm
    exact h ⟨p, ⟨hp, hmem⟩, hm⟩ q ⟨hq, hq'⟩

/-- What is removed and not retained is as many as what is removed only if nothing is both. -/
theorem filter_length_eq_iff {r k : μ → Bool} (l : List μ) :
    (l.filter r).length = ((l.filter fun x => r x || k x).filter fun x => !k x).length ↔
      ∀ x ∈ l, r x = true → k x = false := by
  have hboth : (l.filter fun x => r x || k x).filter (fun x => !k x) =
      (l.filter r).filter fun x => !k x := by
    rw [List.filter_filter, List.filter_filter]
    refine List.filter_congr fun x _ => ?_
    cases k x <;> simp
  rw [hboth]
  constructor
  · intro h x hx hr
    have hall := List.filter_eq_self.1 (List.filter_sublist.eq_of_length h.symm)
    simpa using hall x (List.mem_filter.2 ⟨hx, hr⟩)
  · intro h
    have hall : (l.filter r).filter (fun x => !k x) = l.filter r := by
      refine List.filter_eq_self.2 fun x hx => ?_
      obtain ⟨hx, hr⟩ := List.mem_filter.1 hx
      simp [h x hx hr]
    rw [hall]

/-- What is pending comes out of as many calls as there are pending messages. -/
theorem Lawful.received (hP : P.Lawful Inv) (hs : Inv s) (hm : m ∈ P.pending s a) {max : Int}
    (hmax : 1 ≤ max) : ∃ n, ∀ envs : List κ, envs.length = n →
      m ∈ (P.recv a).collect (envs.map (·, max)) s := by
  refine ⟨(P.pending s a).length, fun envs hlen => ?_⟩
  have hallowed : ∀ k ∈ envs.map (·, max), 1 ≤ k.2 := fun k hk => by
    obtain ⟨env, -, rfl⟩ := List.mem_map.1 hk
    exact hmax
  have hperm := (hP.drains a).collect_perm hs hallowed (by rw [List.length_map, hlen])
  exact hperm.mem_iff.2 hm

theorem Lawful.keepsWanted_iff (hP : P.Lawful Inv) (hs : Inv s) :
    P.KeepsWanted env a ps s ↔ P.Apart a ps s := by
  have hpatterns := hP.patterns env a ps s hs
  have hpending : P.pending s a = (P.undelivered s a).filter fun m =>
      P.wanted (P.removed s a ps) m || P.wanted ((P.patterns s a).filter (· ∉ ps)) m :=
    List.filter_congr fun m _ => wanted_split m
  have hcount := filter_length_eq_iff (r := P.wanted (P.removed s a ps))
    (k := P.wanted ((P.patterns s a).filter (· ∉ ps))) (P.undelivered s a)
  rw [← hP.count env a ps s hs, ← hpending, ← hpatterns] at hcount
  rw [apart_iff, ← hpatterns]
  refine ⟨fun h => hcount.1 h.2, fun h => ⟨fun m hm hwanted => ?_, hcount.2 h⟩⟩
  -- a retained message is not among the discarded ones
  have hund : m ∈ P.undelivered s a := List.mem_of_mem_filter hm
  have hleft : m ∈ P.undelivered (P.unsubscribe env a ps s).2 a := by
    rw [(hP.discards env a ps s hs).mem_iff, List.mem_filter]
    refine ⟨hund, ?_⟩
    by_contra hremoved
    have hnot := h m hund (by simpa using hremoved)
    rw [hwanted] at hnot
    cases hnot
  have hpend : m ∈ P.pending (P.unsubscribe env a ps s).2 a := List.mem_filter.2 ⟨hleft, hwanted⟩
  exact ⟨hpend, fun max hmax => hP.received (hP.keeps env a ps s hs) hpend hmax⟩

end Postbox

/-! ### The memory and the SQLite store -/

namespace Mailbox

variable {σ : Type} {B : BackingStore σ} (X : Mailbox B) {s : σ} {a : AgentId} {ps : List Pattern}

def postbox : Postbox σ Unit Message where
  channel := Message.channel
  patterns := X.patterns
  undelivered s a := ((X.messages s).filter (a ∉ ·.deliveredTo)).map (·.toWire)
  recv a := ⟨fun k s => B.recv a none k.2 s⟩
  unsubscribe _ a ps s := B.unsubscribe a ps s

/-- `unsubscribe` marks what the removed patterns match and counts it. -/
def Clears : Prop := ∀ a ps s, X.Inv s →
  let cleared := fun c => ((X.patterns s a).filter (· ∈ ps)).any (Glob.fnmatchcase c)
  (B.unsubscribe a ps s).1.2 = (inbox cleared a (X.messages s)).length ∧
  X.messages (B.unsubscribe a ps s).2 = markWhere a (fun m => cleared m.channel) (X.messages s) ∧
  X.patterns (B.unsubscribe a ps s).2 a = (X.patterns s a).filter (· ∉ ps)

variable {X}

theorem postbox_undelivered (s : σ) (a : AgentId) :
    X.postbox.undelivered s a = (inbox (fun _ => true) a (X.messages s)).map (·.toWire) :=
  congrArg _ (List.filter_congr fun _ _ => (Bool.and_true _).symm)

theorem undelivered_filter (patterns : List Pattern) :
    (X.postbox.undelivered s a).filter (X.postbox.wanted patterns) =
      (inbox (wants none patterns) a (X.messages s)).map (·.toWire) := by
  show (((X.messages s).filter (a ∉ ·.deliveredTo)).map (·.toWire)).filter (X.postbox.wanted patterns) = _
  rw [List.filter_map, List.filter_filter]
  refine congrArg _ (List.filter_congr fun m _ => ?_)
  exact Bool.and_comm ..

theorem postbox_pending : X.postbox.pending s a =
    (inbox (wants none (X.patterns s a)) a (X.messages s)).map (·.toWire) := undelivered_filter _

theorem postbox_drains (hX : X.Lawful) (hcap : ∀ max, 1 ≤ max → 1 ≤ X.cap max) (a : AgentId) :
    (X.postbox.recv a).Drains X.Inv (fun k => 1 ≤ k.2) (X.postbox.pending · a) where
  keeps k s hs _ := hX.keeps (.recv a none k.2) s hs
  splits k s hs _ := by
    obtain ⟨p, hp, hout, hmsgs, hpat⟩ := hX.recv a none k.2 s hs
    have hnd : ((X.pending s a none).map (·.id)).Nodup :=
      (((pending_perm hX).map _).nodup_iff).2 (inbox_ids_nodup ((hX.ids s hs).imp Nat.ne_of_lt))
    have hleft : (X.postbox.pending (B.recv a none k.2 s).2 a).Perm
        (((X.pending s a none).drop (X.cap k.2)).map (·.toWire)) := by
      rw [postbox_pending, hpat, hmsgs, markDelivered_perm (hp.map _), markDelivered, inbox_markWhere_self,
        ← filter_notMem_take hnd (X.cap k.2)]
      exact ((pending_perm hX).symm.filter _).map _
    show ((B.recv a none k.2 s).1 ++ X.postbox.pending (B.recv a none k.2 s).2 a).Perm _
    rw [hout]
    refine ((hp.map _).append hleft).trans ?_
    rw [postbox_pending, ← List.map_append, List.take_append_drop]
    exact (pending_perm hX).map _
  progress k s hs hk hnil := by
    obtain ⟨p, hp, hout, -⟩ := hX.recv a none k.2 s hs
    have hnone : p = [] := List.map_eq_nil_iff.1 (hout.symm.trans hnil)
    have hpend : X.pending s a none = [] := by
      rw [hnone] at hp
      have hcap' := hcap k.2 hk
      rcases List.take_eq_nil_iff.1 hp.nil_eq.symm with hz | hz
      · omega
      · exact hz
    rw [postbox_pending, ((pending_perm hX).symm.trans (.of_eq hpend)).eq_nil]
    rfl

theorem postbox_lawful (hX : X.Lawful) (hcap : ∀ max, 1 ≤ max → 1 ≤ X.cap max) (hclears : X.Clears) :
    X.postbox.Lawful X.Inv where
  drains := postbox_drains hX hcap
  keeps _ a ps s hs := hX.keeps (.unsubscribe a ps) s hs
  patterns _ a ps s hs := (hclears a ps s hs).2.2
  count _ a ps s hs := by
    rw [undelivered_filter, List.length_map]
    exact (hclears a ps s hs).1
  discards _ a ps s hs := by
    show (X.postbox.undelivered (B.unsubscribe a ps s).2 a).Perm _
    rw [postbox_undelivered, postbox_undelivered, (hclears a ps s hs).2.1, inbox_markWhere_self,
      List.filter_map]
    exact .refl _

end Mailbox

theorem MemoryStore.clears : MemoryStore.mailbox.Clears := by
  intro a ps s _
  show (s.unsubscribe a ps).1.2 = _ ∧ (s.unsubscribe a ps).2.messages = _ ∧
    (s.unsubscribe a ps).2.patternsFor a = _
  refine ⟨?_, ?_, MemoryStore.patternsFor_unsubscribe_self⟩
  · rw [MemoryStore.unsubscribe_eq]
    rfl
  · rw [MemoryStore.unsubscribe_eq]
    rfl

theorem SqliteStore.clears : SqliteStore.mailbox.Clears := by
  intro a ps s hs
  have hnd := SqliteDb.Inv.ids_nodup hs
  show (s.db.unsubscribe a ps).1.2 = _ ∧ (s.db.unsubscribe a ps).2.messages = _ ∧
    (s.db.unsubscribe a ps).2.patternsFor a = _
  refine ⟨?_, ?_, SqliteDb.patternsFor_unsubscribe_self hnd⟩
  · rw [SqliteDb.unsubscribe_eq hnd]
    rfl
  · rw [SqliteDb.unsubscribe_eq hnd]
    exact markDelivered_inbox hnd

theorem memory_postbox : MemoryStore.mailbox.postbox.Lawful MemoryStore.Inv :=
  Mailbox.postbox_lawful MemoryStore.mailbox_lawful
    (fun max h => by show 1 ≤ max.toNat; omega) MemoryStore.clears

theorem sqlite_postbox : SqliteStore.mailbox.postbox.Lawful fun s => s.db.Inv :=
  Mailbox.postbox_lawful SqliteStore.mailbox_lawful (fun _ _ => Nat.le_max_right ..) SqliteStore.clears

/-! ### The filesystem store -/

namespace FilesystemStore

variable {s : FilesystemStore} {a : AgentId}

/-- The files that the agent has not drained, directory by directory. -/
def postbox : Postbox FilesystemStore DirListing MessageFile where
  channel := MessageFile.channel
  patterns := getPatterns
  undelivered s a := (Feed.endToEnd (s.undelivered · a) (s.channels.keys.map decodeChannel)).map (·.2.2)
  recv a := ⟨fun k s => s.recv k.1 a none k.2⟩
  unsubscribe ls a ps s := s.unsubscribe ls a ps

/-- The directories may be gone through in any order, as long as all are among them where something
waits. -/
theorem endToEnd_undelivered_perm (h : s.Encoded) {cs : List Channel} (hcs : cs.Nodup)
    (hall : ∀ c, s.undelivered c a ≠ [] → c ∈ cs) :
    (Feed.endToEnd (s.undelivered · a) (s.channels.keys.map decodeChannel)).Perm
      (Feed.endToEnd (s.undelivered · a) cs) := by
  have hkeys := (knownChannels_perm (s := s) inOrder).nodup_iff.1 (knownChannels_nodup h inOrder)
  refine Feed.endToEnd_perm hkeys hcs (fun c => .of_map _ undelivered_nodup) fun c hc => ?_
  refine iff_of_true ?_ (hall c hc)
  by_contra hunknown
  exact hc (undelivered_unknown inOrder fun hk => hunknown ((knownChannels_perm inOrder).mem_iff.1 hk))

/-- A message has the channel of the directory it lies in. -/
theorem endToEnd_channel (h : s.Kept) {cs : List Channel} (q : Channel → Bool) :
    ((Feed.endToEnd (s.undelivered · a) cs).map (·.2.2)).filter (fun m => q m.channel) =
      (Feed.endToEnd (s.undelivered · a) (cs.filter q)).map (·.2.2) := by
  rw [← Feed.endToEnd_filter_queues, List.filter_map]
  refine congrArg _ (List.filter_congr fun e he => ?_)
  obtain ⟨c, f⟩ := e
  have hf := h.filed c f (mem_undelivered.1 (Feed.mem_endToEnd.1 he).2).1
  exact congrArg q hf

/-- What waits on the channels that `q` selects. -/
theorem undelivered_filter_perm (h : s.Kept) {cs : List Channel} (hcs : cs.Nodup)
    (hall : ∀ c, s.undelivered c a ≠ [] → c ∈ cs) (q : Channel → Bool) :
    ((postbox.undelivered s a).filter fun m => q m.channel).Perm
      ((Feed.endToEnd (s.undelivered · a) (cs.filter q)).map (·.2.2)) := by
  rw [← endToEnd_channel h q]
  exact ((endToEnd_undelivered_perm h.encoded hcs hall).map _).filter _

theorem markAll_subscriptions (marks : List (Channel × List String)) :
    (marks.foldl (fun s e => s.markDelivered e.1 a e.2) s).subscriptions = s.subscriptions := by
  induction marks generalizing s with
  | nil => rfl
  | cons e marks ih => exact ih

theorem recv_getPatterns (ls : DirListing) (channels : Option (List Channel)) (max : Int) (b : AgentId) :
    (s.recv ls a channels max).2.getPatterns b = s.getPatterns b :=
  congrArg (Dict.getD · b []) (markAll_subscriptions _)

theorem postbox_drains (a : AgentId) :
    (postbox.recv a).Drains Kept (fun k => 1 ≤ k.2) (postbox.pending · a) where
  keeps k _ hs _ := hs.recv k.1 a none k.2
  splits k s hs _ := by
    obtain ⟨ls, max⟩ := k
    have hknown := mem_knownChannels_of_waits (s := s) (a := a) ls
    have hcs := knownChannels_nodup hs.encoded ls
    have hbefore := undelivered_filter_perm (a := a) hs hcs hknown (matchesAny · (s.getPatterns a))
    have hafter := undelivered_filter_perm (a := a) (hs.recv ls a none max)
      hcs (fun c hc => hknown c fun hnil => hc (by rw [undelivered_recv, hnil]; rfl))
      (matchesAny · (s.getPatterns a))
    have hleft := endToEnd_recv (targets_nodup (a := a) hs.encoded ls
      fun _ h => (by cases h) : (s.targets ls a none).Nodup) max
    have hout : (s.recv ls a none max).1.Perm ((s.taken ls a none max).map (·.2.2)) := by
      rw [recv_fst]
      exact List.perm_insertionSort _ _
    show ((s.recv ls a none max).1 ++ postbox.pending (s.recv ls a none max).2 a).Perm _
    have hpend : (postbox.pending (s.recv ls a none max).2 a).Perm
        (((Feed.endToEnd (s.undelivered · a) (s.targets ls a none)).drop max.toNat).map (·.2.2)) := by
      rw [← hleft]
      refine (List.Perm.of_eq ?_).trans hafter
      exact congrArg (fun ps => (postbox.undelivered (s.recv ls a none max).2 a).filter (postbox.wanted ps))
        (recv_getPatterns ls none max a)
    refine (hout.append hpend).trans ?_
    rw [taken, ← List.map_append, List.take_append_drop]
    exact hbefore.symm
  progress k s hs hk hnil := by
    obtain ⟨ls, max⟩ := k
    have hall := undelivered_filter_perm (a := a) hs (knownChannels_nodup hs.encoded ls)
      (mem_knownChannels_of_waits ls) (matchesAny · (s.getPatterns a))
    have htaken : s.taken ls a none max = [] := by
      have hout := recv_fst.symm.trans hnil
      have hperm : (sortByTime ((s.taken ls a none max).map (·.2.2))).Perm _ := List.perm_insertionSort _ _
      rw [hout] at hperm
      exact List.map_eq_nil_iff.1 hperm.nil_eq.symm
    have hqueues : Feed.endToEnd (s.undelivered · a) (s.targets ls a none) = [] := by
      rcases List.take_eq_nil_iff.1 htaken with hz | hz
      · dsimp only at hk
        omega
      · exact hz
    have hnone := hall.trans (.of_eq (congrArg _ hqueues))
    exact hnone.eq_nil

theorem postbox_lawful : postbox.Lawful Kept where
  drains := postbox_drains
  keeps ls a ps _ hs := hs.unsubscribe ls a ps
  patterns ls a ps _ hs := (unsubscribe_eq hs.encoded ls a ps).2.1
  count ls a ps s hs := by
    have hfst := (unsubscribe_eq hs.encoded ls a ps).1
    have hperm := undelivered_filter_perm (a := a) hs (knownChannels_nodup hs.encoded ls)
      (mem_knownChannels_of_waits ls) (s.clearedBy a ps)
    have hlen := hperm.length_eq
    rw [List.length_map] at hlen
    exact (congrArg Prod.snd hfst).trans hlen.symm
  discards ls a ps s hs := by
    have hleft := (unsubscribe_eq hs.encoded ls a ps).2.2
    have hcs := knownChannels_nodup hs.encoded ls
    have hknown := mem_knownChannels_of_waits (s := s) (a := a) ls
    have hqueues : Feed.endToEnd ((s.unsubscribe ls a ps).2.undelivered · a) (s.knownChannels ls) =
        Feed.endToEnd (s.undelivered · a) ((s.knownChannels ls).filter fun c => !s.clearedBy a ps c) := by
      rw [← Feed.endToEnd_filter_queues, ← Feed.endToEnd_filter_items]
      refine congrArg (Feed.endToEnd · _) (funext fun c => ?_)
      rw [hleft]
      by_cases hc : s.clearedBy a ps c = true <;> simp [hc]
    have hafter := endToEnd_undelivered_perm (a := a) (hs.unsubscribe ls a ps).encoded hcs
      fun c hc => hknown c fun hnil => hc (by rw [hleft, hnil, ite_self])
    rw [hqueues] at hafter
    exact (hafter.map _).trans (undelivered_filter_perm hs hcs hknown fun c => !s.clearedBy a ps c).symm

end FilesystemStore

/-! ### Runs of the three stores -/

namespace Postbox

variable {σ κ μ : Type} {P : Postbox σ κ μ} {a : AgentId} {ps : List Pattern} {s : σ}

instance : Decidable (P.Apart a ps s) := by unfold Apart; infer_instance

end Postbox

/-- In every state that a store can reach, with the ids of `uuid4` all different, `unsubscribe` keeps what
a remaining pattern matches, hands it out later and counts the rest if and only if no waiting message is
on a channel that a removed and a remaining pattern both match. -/
theorem unsubscribe_keeps_iff (a : AgentId) (ps : List Pattern) (ops : List StoreOp)
    (fileOps : List FilesystemStore.Op) (hu : (fileOps.filterMap FilesystemStore.Op.uuid?).Nodup)
    (ls : DirListing) :
    (MemoryStore.mailbox.postbox.KeepsWanted () a ps (memoryStore.applyAll ops .init) ↔
      MemoryStore.mailbox.postbox.Apart a ps (memoryStore.applyAll ops .init)) ∧
    (SqliteStore.mailbox.postbox.KeepsWanted () a ps (sqliteStore.applyAll ops .init) ↔
      SqliteStore.mailbox.postbox.Apart a ps (sqliteStore.applyAll ops .init)) ∧
    (FilesystemStore.postbox.KeepsWanted ls a ps (.after fileOps) ↔
      FilesystemStore.postbox.Apart a ps (.after fileOps)) := by
  refine ⟨?_, ?_, ?_⟩
  · exact memory_postbox.keepsWanted_iff (MemoryStore.Inv.reachable ops)
  · exact sqlite_postbox.keepsWanted_iff (SqliteStore.inv_reachable ops)
  · exact FilesystemStore.postbox_lawful.keepsWanted_iff (FilesystemStore.kept_after hu)

/-- `bob` subscribes with two patterns, and a ticket arrives. -/
def twoPatterns (p q : Pattern) : List StoreOp :=
  [.subscribe "bob" p, .subscribe "bob" q, .send 1 ticket]

def twoPatternFiles (p q : Pattern) : List FilesystemStore.Op :=
  [.trace (.subscribe inOrder "bob" p), .trace (.subscribe inOrder "bob" q),
    .trace (.send 1 ticket (uuidOf '1'))]

theorem unsubscribe_keeps_news :
    MemoryStore.mailbox.postbox.KeepsWanted () "bob" ["news"]
      (memoryStore.applyAll (twoPatterns "ticket:*" "news") .init) ∧
    SqliteStore.mailbox.postbox.KeepsWanted () "bob" ["news"]
      (sqliteStore.applyAll (twoPatterns "ticket:*" "news") .init) ∧
    FilesystemStore.postbox.KeepsWanted inOrder "bob" ["news"] (.after (twoPatternFiles "ticket:*" "news")) := by
  obtain ⟨hmem, hsql, hfiles⟩ := unsubscribe_keeps_iff "bob" ["news"] (twoPatterns "ticket:*" "news")
    (twoPatternFiles "ticket:*" "news") (by decide) inOrder
  exact ⟨hmem.2 (by decide +kernel), hsql.2 (by decide +kernel), hfiles.2 (by decide +kernel)⟩

/-- `ticket:1` is still subscribed to when `ticket:*` goes, and its message is discarded. -/
theorem unsubscribe_loses_ticket :
    ¬MemoryStore.mailbox.postbox.KeepsWanted () "bob" ["ticket:*"]
      (memoryStore.applyAll (twoPatterns "ticket:*" "ticket:1") .init) ∧
    ¬SqliteStore.mailbox.postbox.KeepsWanted () "bob" ["ticket:*"]
      (sqliteStore.applyAll (twoPatterns "ticket:*" "ticket:1") .init) ∧
    ¬FilesystemStore.postbox.KeepsWanted inOrder "bob" ["ticket:*"]
      (.after (twoPatternFiles "ticket:*" "ticket:1")) := by
  refine ⟨fun h => ?_, fun h => ?_, fun h => ?_⟩
  · have happart := (memory_postbox.keepsWanted_iff (MemoryStore.Inv.reachable _)).1 h
    exact absurd happart (by decide +kernel)
  · have happart := (sqlite_postbox.keepsWanted_iff (SqliteStore.inv_reachable _)).1 h
    exact absurd happart (by decide +kernel)
  · have hkept : FilesystemStore.Kept (.after (twoPatternFiles "ticket:*" "ticket:1")) :=
      FilesystemStore.kept_after (by decide)
    exact absurd ((FilesystemStore.postbox_lawful.keepsWanted_iff hkept).1 h) (by decide +kernel)

end Sox
