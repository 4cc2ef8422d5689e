import Sox.FilesystemRecv
import Sox.Interchange
import Sox.Watch

/-!
# The order in which `recv` returns messages

`seq` counts the messages of a channel, while every store sorts what it hands out by the clock. So the
messages of a channel come by ascending `seq`, however an agent splits its `recv` calls, exactly when the
readings of the clock do not decrease with `seq` among what the agent has not been delivered
(`ClockFollows`). The filesystem store takes the files by their names first, and these must ascend with
`seq` as well (`NamesFollow`).
-/

namespace Sox

/-- The messages of every channel come by ascending `seq`. -/
def Ascending {μ : Type} (channel : μ → Channel) (seq : μ → Nat) (l : List μ) : Prop :=
  ∀ c, ((l.filter (channel · = c)).map seq).Pairwise (· < ·)

theorem Ascending.pairwise {μ : Type} {channel : μ → Channel} {seq : μ → Nat} {l : List μ} {c : Channel}
    (h : Ascending channel seq l) (hall : ∀ m ∈ l, channel m = c) : l.Pairwise fun m n => seq m < seq n := by
  have honly : l.filter (channel · = c) = l := List.filter_eq_self.2 fun m hm => decide_eq_true (hall m hm)
  have hseqs := h c
  rw [honly] at hseqs
  exact List.pairwise_map.1 hseqs

variable {σ : Type} {B : BackingStore σ}

/-- The `recv` calls of one agent. -/
def BackingStore.reader (B : BackingStore σ) (a : AgentId) : Feed σ (Option (List Channel) × Int) Message :=
  ⟨fun k s => B.recv a k.1 k.2 s⟩

/-- Whatever an agent's calls ask for, what they return comes in order. -/
def BackingStore.RecvInOrder (B : BackingStore σ) (a : AgentId) (s : σ) : Prop :=
  ∀ calls : List (Option (List Channel) × Int), (∀ k ∈ calls, 1 ≤ k.2) →
    Ascending Message.channel Message.seq ((B.reader a).collect calls s)

/-- The clock did not go back between two messages of one channel that wait for the agent. -/
def ClockFollows (a : AgentId) (l : List StoredMessage) : Prop :=
  ∀ m ∈ l, ∀ n ∈ l, a ∉ m.deliveredTo → a ∉ n.deliveredTo → m.channel = n.channel → m.seq < n.seq →
    m.sentAt ≤ n.sentAt

instance (a : AgentId) (l : List StoredMessage) : Decidable (ClockFollows a l) := by
  unfold ClockFollows
  infer_instance

/-! ### The memory and the SQLite store -/

/-- Messages of one channel by ascending `seq`, ids and clock readings. -/
def Settled (l : List Message) : Prop := l.Pairwise fun m n =>
  m.channel = n.channel ∧ m.sentAt ≤ n.sentAt ∧ m.messageId ≤ n.messageId ∧ m.seq < n.seq

theorem Settled.before {l : List StoredMessage} (h : Settled (l.map (·.toWire))) :
    l.Pairwise StoredMessage.Before := by
  refine (List.pairwise_map.1 h).imp fun {m n} hmn => ?_
  obtain ⟨hchannel, htime, hid, -⟩ := hmn
  rcases lt_or_eq_of_le htime with hlt | heq
  · exact .inr ⟨hchannel, .inl hlt⟩
  · exact .inr ⟨hchannel, .inr ⟨heq, hid⟩⟩

/-- Storage order is by ids, and by `seq` on each channel. -/
theorem Gapless.pairwise {l : List StoredMessage} (hgap : Gapless l) (hids : (l.map (·.id)).Pairwise (· < ·)) :
    l.Pairwise fun m n => m.id < n.id ∧ (m.channel = n.channel → m.seq < n.seq) := by
  refine (List.pairwise_map.1 hids).and ?_
  rw [List.pairwise_iff_forall_sublist]
  intro m n hsub hchannel
  have hseqs : ((onChannel n.channel l).map (·.seq)).Pairwise (· < ·) := by
    rw [hgap]
    exact List.pairwise_lt_range'
  have hpair : [m, n].Sublist (onChannel n.channel l) := by
    have hfilter := hsub.filter fun k => k.channel = n.channel
    rwa [List.filter_cons_of_pos (by simpa using hchannel), List.filter_cons_of_pos (by simp),
      List.filter_nil] at hfilter
  exact (List.pairwise_map.1 hseqs).forall_sublist hpair

namespace Mailbox

variable (X : Mailbox B) {s : σ} {a : AgentId} {c : Channel}

/-- How the memory and the SQLite store scan, cut and sort. -/
structure Sorts : Prop where
  recv : ∀ a channels max s, X.Inv s → (B.recv a channels max s).1 =
    (sortMessages ((X.pending s a channels).take (X.cap max))).map (·.toWire)
  cap : ∀ max : Int, max.toNat ≤ X.cap max
  scan_filter : ∀ (l : List StoredMessage) (p : StoredMessage → Bool),
    (l.filter p).Pairwise StoredMessage.Before → (X.scan l).filter p = l.filter p
  scan_mark : ∀ a sel l, X.scan (markWhere a sel l) = markWhere a sel (X.scan l)

variable {X}

theorem pending_filter (channels : Option (List Channel)) (c : Channel) :
    (X.pending s a channels).filter (fun m => m.channel = c) =
      if wants channels (X.patterns s a) c then X.pending s a (some [c]) else [] := by
  have hone : wants (some [c]) (X.patterns s a) = fun d => decide (d = c) := by
    funext d
    simp [wants]
  unfold pending inbox
  rw [List.filter_filter, hone]
  split
  · rename_i hc
    refine List.filter_congr fun m _ => ?_
    by_cases hm : m.channel = c
    · simp [StoredMessage.awaits, hm, hc]
    · simp [StoredMessage.awaits, hm]
  · rename_i hc
    refine List.filter_eq_nil_iff.2 fun m _ hm => hc ?_
    simp only [StoredMessage.awaits, Bool.and_eq_true, decide_eq_true_eq] at hm
    rw [← hm.1]
    exact hm.2.2

/-- What waits on a channel after a `recv`. -/
theorem pending_recv (hX : X.Lawful) (hsort : X.Sorts) (hs : X.Inv s) (channels : Option (List Channel))
    (max : Int) (c : Channel) : X.pending (B.recv a channels max s).2 a (some [c]) =
      (X.pending s a (some [c])).filter fun m =>
        !decide (m.id ∈ ((X.pending s a channels).take (X.cap max)).map (·.id)) := by
  obtain ⟨p, hp, -, hmsgs, -⟩ := hX.recv a channels max s hs
  have hmarked : ∀ sel : StoredMessage → Bool,
      inbox (wants (some [c]) (X.patterns s a)) a (markWhere a sel (X.scan (X.messages s))) =
        (X.pending s a (some [c])).filter fun m => !sel m := fun _ => inbox_markWhere_self
  unfold pending
  rw [hmsgs, markDelivered_perm (hp.map _)]
  refine (congrArg (inbox _ a) (hsort.scan_mark a _ _)).trans ?_
  exact hmarked _

theorem pending_ids_nodup (hX : X.Lawful) (hs : X.Inv s) (channels : Option (List Channel)) :
    ((X.pending s a channels).map (·.id)).Nodup :=
  inbox_ids_nodup ((((hX.scan_perm _).map _).nodup_iff).2 ((hX.ids s hs).imp Nat.ne_of_lt))

theorem reader_serves (hX : X.Lawful) (hsort : X.Sorts) (a : AgentId) :
    (B.reader a).Serves X.Inv (fun k => 1 ≤ k.2) (fun c m => m.channel = c)
      (fun c s => (X.pending s a (some [c])).map (·.toWire)) Settled where
  keeps k s hs _ := hX.keeps (.recv a k.1 k.2) s hs
  drop l n h := h.sublist (List.drop_sublist n l)
  takes k s c hs _ := by
    obtain ⟨channels, max⟩ := k
    have hleft := pending_recv hX hsort hs channels max (a := a) c
    have hdrop := filter_notMem_take (pending_ids_nodup (a := a) hX hs channels) (X.cap max)
    have hout : ((B.recv a channels max s).1).filter (fun m => m.channel = c) =
        ((sortMessages ((X.pending s a channels).take (X.cap max))).filter fun m => m.channel = c).map
          (·.toWire) := by
      rw [hsort.recv a channels max s hs, List.filter_map]
      rfl
    obtain ⟨n, htaken, hrest⟩ := Feed.exists_filter_take (fun m : StoredMessage => m.channel = c)
      (X.pending s a channels) (X.cap max)
    rw [← hdrop, List.filter_filter] at hrest
    by_cases hwants : wants channels (X.patterns s a) c = true
    · have hfilter := pending_filter (X := X) (s := s) (a := a) channels c
      rw [if_pos hwants] at hfilter
      refine ⟨n, ?_, fun hset => ?_⟩
      · show (X.pending (B.recv a channels max s).2 a (some [c])).map _ = _
        rw [hleft, ← List.map_drop, ← hfilter, ← hrest, List.filter_filter]
        exact congrArg _ (List.filter_congr fun m _ => Bool.and_comm ..)
      · have hsettled : ((X.pending s a channels).take (X.cap max)).filter (fun m => m.channel = c) =
            (X.pending s a (some [c])).take n := by rw [htaken, hfilter]
        refine hout.trans ?_
        rw [sortMessages, Feed.filter_insertionSort, hsettled, List.map_take]
        rw [hsettled]
        exact hset.before.sublist (List.take_sublist _ _)
    · -- nothing of a channel is taken that the call does not ask for
      have hother : ∀ m ∈ (X.pending s a channels).take (X.cap max), m.channel ≠ c := by
        intro m hm heq
        have hmem := ((mem_pending hX).1 (List.mem_of_mem_take hm)).2.2
        exact hwants (heq ▸ hmem)
      refine ⟨0, ?_, fun _ => ?_⟩
      · show (X.pending (B.recv a channels max s).2 a (some [c])).map _ = _
        rw [hleft, List.drop_zero, List.filter_eq_self.2]
        intro m hm
        rw [Bool.not_eq_true', decide_eq_false_iff_not]
        intro hid
        obtain ⟨m', hm', heq⟩ := List.mem_map.1 hid
        obtain ⟨hmem, -, hc⟩ := (mem_pending hX).1 hm
        have hmem' := ((mem_pending hX).1 (List.mem_of_mem_take hm')).1
        have hsame := List.inj_on_of_nodup_map ((hX.ids s hs).imp Nat.ne_of_lt) hmem' hmem heq
        refine hother m' hm' ?_
        rw [hsame]
        simpa [wants] using hc
      · refine hout.trans ?_
        rw [List.filter_eq_nil_iff.2]
        · rfl
        · intro m hm heq
          exact hother m (mem_sortMessages.1 hm) (of_decide_eq_true heq)

theorem recvInOrder_iff (hX : X.Lawful) (hsort : X.Sorts) (hs : X.Inv s) (hgap : Gapless (X.messages s)) :
    B.RecvInOrder a s ↔ ClockFollows a (X.messages s) := by
  have hstored := hgap.pairwise (hX.ids s hs)
  have hwants : ∀ {m : StoredMessage} {c : Channel},
      wants (some [c]) (X.patterns s a) m.channel = true ↔ m.channel = c := by
    intro m c
    simp [wants]
  constructor
  · -- one call for everything on the channel
    intro h m hm n hn ham han hchannel hseq
    set waiting := X.pending s a (some [n.channel]) with hwaiting
    have hall := h [(some [n.channel], waiting.length + 1)] (by simp)
    have hcap := hsort.cap (waiting.length + 1)
    have hout : (B.reader a).collect [(some [n.channel], (waiting.length : Int) + 1)] s =
        (sortMessages waiting).map (·.toWire) := by
      refine Feed.collect_singleton.trans ((hsort.recv a _ _ s hs).trans ?_)
      rw [← hwaiting, List.take_of_length_le]
      show waiting.length ≤ X.cap (waiting.length + 1)
      omega
    rw [hout] at hall
    have hasc : (sortMessages waiting).Pairwise fun m n => m.seq < n.seq := by
      have hwire := hall.pairwise (c := n.channel) fun k hk => by
        obtain ⟨k', hk', rfl⟩ := List.mem_map.1 hk
        exact hwants.1 ((mem_pending hX).1 (mem_sortMessages.1 hk')).2.2
      exact (List.pairwise_map (R := fun m n : Message => m.seq < n.seq)).1 hwire
    have hmem : ∀ k ∈ X.messages s, a ∉ k.deliveredTo → k.channel = n.channel → k ∈ sortMessages waiting :=
      fun k hk hak hc => mem_sortMessages.2 ((mem_pending hX).2 ⟨hk, hak, hwants.2 hc⟩)
    have hsorted : (sortMessages waiting).Pairwise StoredMessage.Before := List.pairwise_insertionSort _ _
    rcases Feed.pairwise_both hsorted hasc (hmem m hm ham hchannel) (hmem n hn han rfl) with
      rfl | ⟨hbefore, -⟩ | ⟨-, hback⟩
    · exact le_refl _
    · rcases hbefore with hlt | ⟨-, hlt | ⟨heq, -⟩⟩
      · exact absurd (hchannel ▸ hlt) (lt_irrefl _)
      · exact hlt.le
      · exact heq.le
    · omega
  · intro h calls hcalls c
    have hinbox : (inbox (wants (some [c]) (X.patterns s a)) a (X.messages s)).Pairwise fun m n =>
        m.channel = n.channel ∧ m.sentAt ≤ n.sentAt ∧ m.id ≤ n.id ∧ m.seq < n.seq := by
      refine List.Pairwise.imp_of_mem (fun {m n} hm hn hmn => ?_) (hstored.sublist inbox_sublist)
      obtain ⟨hm, ham, hmc⟩ := mem_inbox.1 hm
      obtain ⟨hn, han, hnc⟩ := mem_inbox.1 hn
      have hchannel := (hwants.1 hmc).trans (hwants.1 hnc).symm
      exact ⟨hchannel, h m hm n hn ham han hchannel (hmn.2 hchannel), hmn.1.le, hmn.2 hchannel⟩
    have hsettled : Settled ((inbox (wants (some [c]) (X.patterns s a)) a (X.messages s)).map (·.toWire)) :=
      List.pairwise_map.2 hinbox
    have hscan : X.pending s a (some [c]) = inbox (wants (some [c]) (X.patterns s a)) a (X.messages s) :=
      hsort.scan_filter _ _ hsettled.before
    rw [← hscan] at hsettled
    obtain ⟨n, hn⟩ := (reader_serves hX hsort a).collect_take hs hcalls hsettled
    rw [hn]
    refine List.pairwise_map.2 ((List.Pairwise.imp ?_ hsettled).sublist (List.take_sublist _ _))
    exact fun hmn => hmn.2.2.2

end Mailbox

theorem sortMessages_markWhere (a : AgentId) (sel : StoredMessage → Bool) (l : List StoredMessage) :
    sortMessages (markWhere a sel l) = markWhere a sel (sortMessages l) := by
  refine (List.map_insertionSort _ _ _ l fun m _ n _ => ?_).symm
  have hkey : ∀ m : StoredMessage, (if sel m then m.deliver a else m).key = m.key := by
    intro m
    unfold StoredMessage.key
    split <;> simp
  rw [StoredMessage.before_iff, StoredMessage.before_iff, hkey, hkey]

theorem MemoryStore.sorts : MemoryStore.mailbox.Sorts where
  recv a channels max s _ := by
    show (s.recv a channels max).1 = _
    rw [MemoryStore.recv_eq]
    rfl
  cap _ := le_refl _
  scan_filter _ _ _ := rfl
  scan_mark _ _ _ := rfl

theorem SqliteStore.sorts : SqliteStore.mailbox.Sorts where
  recv a channels max s hs := by
    have hsorted : (s.db.drained a channels max).Pairwise StoredMessage.Before := by
      refine List.Pairwise.sublist ((List.take_sublist _ _).trans inbox_sublist) ?_
      exact List.pairwise_insertionSort _ _
    show (s.db.recv a channels max).1 = _
    rw [SqliteDb.recv_eq (SqliteDb.Inv.ids_nodup hs)]
    exact congrArg _ hsorted.insertionSort_eq.symm
  cap _ := Nat.le_max_left ..
  scan_filter _ _ h := Feed.filter_insertionSort h
  scan_mark := sortMessages_markWhere

/-! ### The filesystem store -/

namespace FilesystemStore

variable {s : FilesystemStore} {a : AgentId} {c : Channel}

/-- The `recv` calls of one agent, each with the listing it sees. -/
def reader (a : AgentId) : Feed FilesystemStore (DirListing × Option (List Channel) × Int) MessageFile :=
  ⟨fun k s => s.recv k.1 a k.2.1 k.2.2⟩

/-- Whatever an agent's calls ask for, as long as no call names a channel twice, what they return comes
in order. -/
def RecvInOrder (a : AgentId) (s : FilesystemStore) : Prop :=
  ∀ calls : List (DirListing × Option (List Channel) × Int),
    (∀ k ∈ calls, 1 ≤ k.2.2 ∧ ∀ cs, k.2.1 = some cs → cs.Nodup) →
    Ascending MessageFile.channel MessageFile.seq ((reader a).collect calls s)

/-- On every channel the file names and the clock readings of what waits for the agent follow `seq`. -/
def NamesFollow (a : AgentId) (s : FilesystemStore) : Prop :=
  ∀ c, ∀ f ∈ s.undelivered c a, ∀ g ∈ s.undelivered c a, f.2.seq < g.2.seq →
    f.1 < g.1 ∧ f.2.sentAt ≤ g.2.sentAt

/-- Files of one channel by ascending `seq` and clock readings. -/
def Settled (l : List MessageFile) : Prop := l.Pairwise fun m n =>
  m.channel = n.channel ∧ m.sentAt ≤ n.sentAt ∧ m.seq < n.seq

theorem reader_serves (a : AgentId) :
    (reader a).Serves Kept (fun k => 1 ≤ k.2.2 ∧ ∀ cs, k.2.1 = some cs → cs.Nodup)
      (fun c m => m.channel = c) (fun c s => (s.undelivered c a).map (·.2)) Settled where
  keeps k _ hs _ := hs.recv k.1 a k.2.1 k.2.2
  drop l n h := h.sublist (List.drop_sublist n l)
  takes k s c hs hk := by
    obtain ⟨ls, channels, max⟩ := k
    obtain ⟨n, hleft, htaken⟩ := recv_takes (targets_nodup (a := a) hs.encoded ls hk.2) max c
    refine ⟨n, ?_, fun hset => ?_⟩
    · show ((s.recv ls a channels max).2.undelivered c a).map _ = _
      rw [hleft, List.map_drop]
    · -- a message has the channel of the directory it was taken from
      have hqueue : ((s.taken ls a channels max).map (·.2.2)).filter (fun m => m.channel = c) =
          ((s.undelivered c a).map (·.2)).take n := by
        rw [← List.map_take, ← htaken, List.filter_map, List.map_map]
        refine congrArg _ (List.filter_congr fun e he => ?_)
        obtain ⟨d, f⟩ := e
        have hmem := (mem_undelivered.1 (Feed.mem_endToEnd.1 (List.mem_of_mem_take he)).2).1
        have hf := hs.filed d f hmem
        simp [hf]
      show (s.recv ls a channels max).1.filter _ = _
      rw [recv_fst, sortByTime, Feed.filter_insertionSort, hqueue]
      rw [hqueue]
      refine ((List.Pairwise.imp ?_ hset).sublist (List.take_sublist _ _))
      exact fun hmn => .inr ⟨hmn.1, hmn.2.1⟩

theorem sortByTime_pairwise (l : List MessageFile) : (sortByTime l).Pairwise fun m n =>
    m.channel < n.channel ∨ m.channel = n.channel ∧ m.sentAt ≤ n.sentAt := by
  have hkey : ∀ m n : MessageFile, (m.channel < n.channel ∨ m.channel = n.channel ∧ m.sentAt ≤ n.sentAt) ↔
      toLex (m.channel, m.sentAt) ≤ toLex (n.channel, n.sentAt) := fun m n => by
    rw [Prod.Lex.toLex_le_toLex]
  have htotal : Std.Total fun m n : MessageFile =>
      m.channel < n.channel ∨ m.channel = n.channel ∧ m.sentAt ≤ n.sentAt := ⟨fun m n => by
    rw [hkey, hkey]
    exact le_total _ _⟩
  have htrans : IsTrans MessageFile fun m n =>
      m.channel < n.channel ∨ m.channel = n.channel ∧ m.sentAt ≤ n.sentAt := ⟨fun m n k hmn hnk => by
    rw [hkey] at hmn hnk ⊢
    exact hmn.trans hnk⟩
  exact List.pairwise_insertionSort _ l

theorem recv_one (ls : DirListing) (c : Channel) (max : Int) :
    (s.recv ls a (some [c]) max).1 = sortByTime (((s.undelivered c a).take max.toNat).map (·.2)) ∧
      (s.recv ls a (some [c]) max).2.undelivered c a = (s.undelivered c a).drop max.toNat := by
  have hone : ∀ s : FilesystemStore, Feed.endToEnd (s.undelivered · a) [c] = (s.undelivered c a).map (Prod.mk c) :=
    fun s => List.append_nil _
  have hnd : (s.targets ls a (some [c])).Nodup := List.nodup_singleton c
  have hleft := endToEnd_recv hnd max
  have htargets : s.targets ls a (some [c]) = [c] := rfl
  rw [htargets, hone, hone, ← List.map_drop] at hleft
  refine ⟨?_, List.map_injective_iff.2 (Prod.mk_right_injective c) hleft⟩
  rw [recv_fst, taken, htargets, hone, ← List.map_take, List.map_map]
  rfl

/-- Two calls for the messages of one channel. -/
theorem collect_two (c : Channel) (i j : Nat) :
    (reader a).collect [(inOrder, some [c], (i : Int)), (inOrder, some [c], (j : Int))] s =
      sortByTime (((s.undelivered c a).take i).map (·.2)) ++
        sortByTime ((((s.undelivered c a).drop i).take j).map (·.2)) := by
  obtain ⟨hfirst, hleft⟩ := recv_one (s := s) (a := a) inOrder c i
  obtain ⟨hsecond, -⟩ := recv_one (s := (s.recv inOrder a (some [c]) i).2) (a := a) inOrder c j
  rw [hleft] at hsecond
  rw [Feed.collect, Feed.collect, Feed.collect, List.append_nil]
  exact congrArg₂ (· ++ ·) hfirst hsecond

theorem recvInOrder_iff (hs : Kept s) : RecvInOrder a s ↔ NamesFollow a s := by
  have hfiled : ∀ {c : Channel}, ∀ f ∈ s.undelivered c a, f.2.channel = c := fun f hf =>
    hs.filed _ f (mem_undelivered.1 hf).1
  have hmem : ∀ {l : List (String × MessageFile)} {m : MessageFile},
      m ∈ sortByTime (l.map (·.2)) ↔ ∃ f ∈ l, f.2 = m := by
    intro l m
    rw [sortByTime, List.mem_insertionSort, List.mem_map]
  constructor
  · intro h c f hf g hg hseq
    -- what two calls return of the channel
    have hcalls : ∀ i j : Nat, 1 ≤ i → 1 ≤ j →
        (sortByTime (((s.undelivered c a).take i).map (·.2)) ++
          sortByTime ((((s.undelivered c a).drop i).take j).map (·.2))).Pairwise fun m n => m.seq < n.seq := by
      intro i j hi hj
      have hall := h [(inOrder, some [c], (i : Int)), (inOrder, some [c], (j : Int))] (by simp; omega)
      rw [collect_two] at hall
      refine hall.pairwise (c := c) fun m hm => ?_
      rcases List.mem_append.1 hm with hm | hm
      · obtain ⟨f, hf, rfl⟩ := hmem.1 hm
        exact hfiled f (List.mem_of_mem_take hf)
      · obtain ⟨f, hf, rfl⟩ := hmem.1 hm
        exact hfiled f (List.mem_of_mem_drop (List.mem_of_mem_take hf))
    constructor
    · rcases Feed.pairwise_both undelivered_names undelivered_names hf hg with rfl | ⟨hfg, -⟩ | ⟨hgf, -⟩
      · omega
      · exact hfg
      · -- `g` lies before `f`: one call takes what lies before `f`, the other `f`
        obtain ⟨front, back, hsplit⟩ := List.append_of_mem hf
        have hnames := undelivered_names (s := s) (c := c) (a := a)
        rw [hsplit] at hg hnames
        have hfront : g ∈ front := by
          rcases List.mem_append.1 hg with hg | hg
          · exact hg
          · rcases List.mem_cons.1 hg with rfl | hg
            · omega
            · have hfg := (List.pairwise_cons.1 (List.pairwise_append.1 hnames).2.1).1 g hg
              exact absurd hfg (lt_asymm hgf)
        have hasc := hcalls front.length 1 (List.length_pos_of_mem hfront) (le_refl _)
        rw [hsplit, List.take_left, List.drop_left] at hasc
        have hback := (List.pairwise_append.1 hasc).2.2 g.2 (hmem.2 ⟨g, hfront, rfl⟩) f.2
          (hmem.2 ⟨f, List.mem_cons_self, rfl⟩)
        omega
    · have hasc := (List.pairwise_append.1 (hcalls ((s.undelivered c a).length + 1) 1 (by omega) (le_refl _))).1
      rw [List.take_of_length_le (by omega)] at hasc
      rcases Feed.pairwise_both (sortByTime_pairwise _) hasc (hmem.2 ⟨f, hf, rfl⟩) (hmem.2 ⟨g, hg, rfl⟩) with
        heq | ⟨hbefore, -⟩ | ⟨-, hback⟩
      · rw [heq] at hseq
        omega
      · rcases hbefore with hlt | ⟨-, hle⟩
        · rw [hfiled f hf, hfiled g hg] at hlt
          exact absurd hlt (lt_irrefl _)
        · exact hle
      · omega
  · intro h calls hcalls c
    have hsettled : Settled ((s.undelivered c a).map (·.2)) := by
      refine List.pairwise_map.2 (List.Pairwise.imp_of_mem (fun {f g} hf hg hfg => ?_) undelivered_names)
      have hchannel := (hfiled f hf).trans (hfiled g hg).symm
      rcases lt_trichotomy f.2.seq g.2.seq with hlt | heq | hgt
      · exact ⟨hchannel, (h c f hf g hg hlt).2, hlt⟩
      · -- no two files of a channel have one number
        have hnd : ((s.channelDir c).messages.entries.map (·.2.seq)).Nodup := by
          rw [hs.numbered]
          exact List.nodup_range'
        have hsame := List.inj_on_of_nodup_map hnd (mem_undelivered.1 hf).1 (mem_undelivered.1 hg).1 heq
        rw [hsame] at hfg
        exact absurd hfg (lt_irrefl _)
      · exact absurd (h c g hg f hf hgt).1 (lt_asymm hfg)
    obtain ⟨n, hn⟩ := (reader_serves a).collect_take hs hcalls hsettled
    rw [hn]
    refine List.pairwise_map.2 ((List.Pairwise.imp ?_ hsettled).sublist (List.take_sublist _ _))
    exact fun hmn => hmn.2.2

/-- A call that names a channel twice returns what waits there twice. -/
theorem not_ascending_twice (hs : Kept s) (ls : DirListing) (c : Channel) {max : Int}
    (hwaits : s.undelivered c a ≠ []) (hmax : (s.undelivered c a).length < max) :
    ¬Ascending MessageFile.channel MessageFile.seq (s.recv ls a (some [c, c]) max).1 := by
  intro h
  have hqueues : Feed.endToEnd (s.undelivered · a) (s.targets ls a (some [c, c])) =
      (s.undelivered c a).map (Prod.mk c) ++ (s.undelivered c a).map (Prod.mk c) :=
    congrArg (_ ++ ·) (List.append_nil _)
  have hout : (s.recv ls a (some [c, c]) max).1.Perm ((s.undelivered c a).map (·.2) ++
      ((s.undelivered c a).take (max.toNat - (s.undelivered c a).length)).map (·.2)) := by
    rw [recv_fst, taken, hqueues, List.take_append, List.length_map, List.take_of_length_le
      (by rw [List.length_map]; omega), List.map_append, List.map_map, ← List.map_take, List.map_map]
    exact List.perm_insertionSort _ _
  have hasc := h.pairwise (c := c) fun m hm => by
    rcases List.mem_append.1 (hout.mem_iff.1 hm) with hm | hm
    · obtain ⟨f, hf, rfl⟩ := List.mem_map.1 hm
      exact hs.filed c f (mem_undelivered.1 hf).1
    · obtain ⟨f, hf, rfl⟩ := List.mem_map.1 hm
      exact hs.filed c f (mem_undelivered.1 (List.mem_of_mem_take hf)).1
  have hnd : (s.recv ls a (some [c, c]) max).1.Nodup := hasc.imp fun hmn heq => by
    rw [heq] at hmn
    exact absurd hmn (lt_irrefl _)
  rw [hout.nodup_iff, List.nodup_append'] at hnd
  obtain ⟨f, rest, hf⟩ := List.exists_cons_of_ne_nil hwaits
  obtain ⟨k, hk⟩ : ∃ k, max.toNat - (s.undelivered c a).length = k + 1 :=
    ⟨max.toNat - (s.undelivered c a).length - 1, by omega⟩
  rw [hk, hf] at hnd
  exact hnd.2.2 List.mem_cons_self List.mem_cons_self

instance : Decidable (NamesFollow a s) :=
  decidable_of_iff (∀ c ∈ s.knownChannels inOrder, ∀ f ∈ s.undelivered c a,
      ∀ g ∈ s.undelivered c a, f.2.seq < g.2.seq → f.1 < g.1 ∧ f.2.sentAt ≤ g.2.sentAt)
    ⟨fun h c f hf => h c (mem_knownChannels_of_waits inOrder c (List.ne_nil_of_mem hf)) f hf, fun h c _ => h c⟩

end FilesystemStore

/-! ### The three stores -/

/-- In every state that a store can reach, with the ids of `uuid4` all different, all `recv` calls of an
agent return the messages of each channel by ascending `seq` if and only if the clock did not go back
between two messages of one channel that wait for the agent, and, in the filesystem store, the file names
ascend with `seq` too. -/
theorem recv_in_order_iff (a : AgentId) (ops : List StoreOp) (fileOps : List FilesystemStore.Op)
    (hu : (fileOps.filterMap FilesystemStore.Op.uuid?).Nodup) :
    (memoryStore.RecvInOrder a (memoryStore.applyAll ops .init) ↔
      ClockFollows a (memoryStore.applyAll ops .init).messages) ∧
    (sqliteStore.RecvInOrder a (sqliteStore.applyAll ops .init) ↔
      ClockFollows a (sqliteStore.applyAll ops .init).db.messages) ∧
    (FilesystemStore.RecvInOrder a (.after fileOps) ↔ FilesystemStore.NamesFollow a (.after fileOps)) ∧
    -- a call that names a channel twice returns what waits there twice
    ∀ ls c (max : Int), (FilesystemStore.after fileOps).undelivered c a ≠ [] →
      ((FilesystemStore.after fileOps).undelivered c a).length < max →
      ¬Ascending MessageFile.channel MessageFile.seq
        ((FilesystemStore.after fileOps).recv ls a (some [c, c]) max).1 := by
  have hkept := FilesystemStore.kept_after hu
  refine ⟨?_, ?_, FilesystemStore.recvInOrder_iff hkept, fun ls c max hwaits hmax =>
    FilesystemStore.not_ascending_twice hkept ls c hwaits hmax⟩
  · have hinv := MemoryStore.Inv.reachable ops
    exact Mailbox.recvInOrder_iff MemoryStore.mailbox_lawful MemoryStore.sorts hinv hinv.seqs
  · exact Mailbox.recvInOrder_iff SqliteStore.mailbox_lawful SqliteStore.sorts
      (SqliteStore.inv_reachable ops) (SqliteStore.gapless_reachable ops)

/-- Two tickets, sent when the clock shows `t` and `u`. -/
def twoTickets (t u : ℚ) : List StoreOp :=
  [.subscribe "bob" "ticket:*", .send t ticket, .send u ticket]

def twoTicketFiles (t u : ℚ) : List FilesystemStore.Op :=
  [.trace (.subscribe inOrder "bob" "ticket:*"), .trace (.send t ticket (uuidOf '1')),
    .trace (.send u ticket (uuidOf '2'))]

theorem recv_in_order_forward :
    memoryStore.RecvInOrder "bob" (memoryStore.applyAll (twoTickets 1 2) .init) ∧
    sqliteStore.RecvInOrder "bob" (sqliteStore.applyAll (twoTickets 1 2) .init) ∧
    FilesystemStore.RecvInOrder "bob" (.after (twoTicketFiles 1 2)) := by
  obtain ⟨hmem, hsql, hfiles, -⟩ := recv_in_order_iff "bob" (twoTickets 1 2) (twoTicketFiles 1 2) (by decide)
  exact ⟨hmem.2 (by decide +kernel), hsql.2 (by decide +kernel), hfiles.2 (by decide +kernel)⟩

/-- The clock is set back between the two, and the second ticket comes first. -/
theorem recv_out_of_order :
    ¬memoryStore.RecvInOrder "bob" (memoryStore.applyAll (twoTickets 2 1) .init) ∧
    ¬sqliteStore.RecvInOrder "bob" (sqliteStore.applyAll (twoTickets 2 1) .init) ∧
    ¬FilesystemStore.RecvInOrder "bob" (.after (twoTicketFiles 2 1)) := by
  refine ⟨fun h => ?_, fun h => ?_, fun h => ?_⟩
  · exact absurd (h [(none, 50)] (by decide) "ticket:1") (by decide +kernel)
  · exact absurd (h [(none, 50)] (by decide) "ticket:1") (by decide +kernel)
  · exact absurd (h [(inOrder, none, 50)] (by simp) "ticket:1") (by decide +kernel)

end Sox
