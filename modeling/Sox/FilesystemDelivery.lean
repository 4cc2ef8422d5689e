import Sox.FilesystemLayout
import Sox.ListChannels
import Sox.Lib.Separator

/-!
# Delivery in the filesystem store

The run of the filesystem store as a delivery ledger: an item is a message file, and what an agent has
taken of a channel is the list in its file of the channel. Every call is read as ledger events
(`HostedOp.steps`), so what an agent has taken is what its `recv` calls returned and what its
`unsubscribe` calls discarded, each message once. `recv` goes by its list of channels and marks at the
end: a channel named twice is handed out twice.
-/

namespace Sox

namespace FilesystemStore

variable {s : FilesystemStore} {a b : AgentId} {c d : Channel} {n : String} {ls : DirListing}
  {channels : Option (List Channel)} {max : Int} {ps : List Pattern} {used : List Uuid} {k : HostedOp}
  {calls : List HostedOp}

/-! ### The ledger -/

/-- A message file is an item, under its channel and its name. -/
def ledger (s : FilesystemStore) : Ledger AgentId (Channel × String) where
  posted := {i | i.2 ∈ (s.channelDir i.1).messages.keys}
  taken := fun a => {i | i.2 ∈ s.getDeliveredSet i.1 a}

/-- The channel and the name of a file that waits. -/
def itemOf (e : Channel × String × MessageFile) : Channel × String := (e.1, e.2.1)

/-- What `unsubscribe` discards: all that waits on a channel that a removed pattern matches. -/
def cleared (ls : DirListing) (a : AgentId) (ps : List Pattern) (s : FilesystemStore) :
    List (Channel × String × MessageFile) :=
  Feed.endToEnd (s.undelivered · a) ((s.knownChannels ls).filter (s.clearedBy a ps))

theorem waits_of_mem {e : Channel × String × MessageFile} {cs : List Channel}
    (h : e ∈ Feed.endToEnd (s.undelivered · a) cs) :
    (e.2.1, e.2.2) ∈ (s.channelDir e.1).messages.entries ∧ e.2.1 ∉ s.getDeliveredSet e.1 a :=
  mem_undelivered.1 (Feed.mem_endToEnd.1 h).2

/-- Marking the files of a list, all waiting and none twice, takes them. -/
theorem takes_of_marks {s' : FilesystemStore} {l : List (Channel × String × MessageFile)} (hsame : SameFiles s s')
    (hnd : (l.map itemOf).Nodup)
    (hwaits : ∀ e ∈ l, (e.2.1, e.2.2) ∈ (s.channelDir e.1).messages.entries ∧
      e.2.1 ∉ s.getDeliveredSet e.1 a)
    (hmarks : ∀ c b n, n ∈ s'.getDeliveredSet c b ↔
      n ∈ s.getDeliveredSet c b ∨ b = a ∧ (c, n) ∈ l.map itemOf) :
    (ledger s).Takes a (l.map itemOf) (ledger s') where
  nodup := hnd
  fresh i hi := by
    obtain ⟨e, he, rfl⟩ := List.mem_map.1 hi
    exact ⟨List.mem_map_of_mem (f := Prod.fst) (hwaits e he).1, (hwaits e he).2⟩
  posted := by
    ext i
    simp only [ledger, Set.mem_ofPred_eq]
    rw [hsame i.1]
  taken i := by
    simp only [ledger, Set.mem_ofPred_eq]
    rw [hmarks]
    simp
  frame b hb := by
    ext i
    simp only [ledger, Set.mem_ofPred_eq]
    rw [hmarks]
    simp [hb]

/-! ### What the calls do to it -/

theorem taken_items_nodup (hnd : (s.targets ls a channels).Nodup) (max : Int) :
    ((s.taken ls a channels max).map itemOf).Nodup :=
  (endToEnd_undelivered_nodup hnd).sublist ((List.take_sublist _ _).map _)

theorem mem_getDeliveredSet_recv_items : n ∈ (s.recv ls a channels max).2.getDeliveredSet c b ↔
    n ∈ s.getDeliveredSet c b ∨ b = a ∧ (c, n) ∈ (s.taken ls a channels max).map itemOf := by
  rw [mem_getDeliveredSet_recv]
  refine or_congr_right (and_congr_right fun _ => ?_)
  constructor
  · rintro ⟨f, hf, rfl⟩
    exact List.mem_map.2 ⟨(c, f), hf, rfl⟩
  · intro h
    obtain ⟨⟨c', f⟩, hf, heq⟩ := List.mem_map.1 h
    obtain ⟨rfl, rfl⟩ := Prod.mk.inj heq
    exact ⟨f, hf, rfl⟩

theorem recv_takes_items (hnd : (s.targets ls a channels).Nodup) (max : Int) :
    (ledger s).Takes a ((s.taken ls a channels max).map itemOf)
      (ledger (s.recv ls a channels max).2) :=
  takes_of_marks (recv_sameFiles ls channels max) (taken_items_nodup hnd max)
    (fun _ he => waits_of_mem (List.mem_of_mem_take he)) fun _ _ _ => mem_getDeliveredSet_recv_items

theorem mem_getDeliveredSet_unsubscribe (h : s.Encoded) :
    n ∈ (s.unsubscribe ls a ps).2.getDeliveredSet c b ↔
      n ∈ s.getDeliveredSet c b ∨ b = a ∧ (c, n) ∈ (s.cleared ls a ps).map itemOf := by
  have hitems : (c, n) ∈ (s.cleared ls a ps).map itemOf ↔
      c ∈ (s.knownChannels ls).filter (s.clearedBy a ps) ∧ n ∈ (s.undelivered c a).map (·.1) := by
    constructor
    · intro h
      obtain ⟨⟨c', f⟩, hf, heq⟩ := List.mem_map.1 h
      obtain ⟨rfl, rfl⟩ := Prod.mk.inj heq
      obtain ⟨hc, hwaits⟩ := Feed.mem_endToEnd.1 hf
      exact ⟨hc, List.mem_map_of_mem hwaits⟩
    · rintro ⟨hc, hn⟩
      obtain ⟨f, hf, rfl⟩ := List.mem_map.1 hn
      exact List.mem_map.2 ⟨(c, f), Feed.mem_endToEnd.2 ⟨hc, hf⟩, rfl⟩
  rw [hitems]
  by_cases hremoved : (s.getPatterns a).filter (· ∈ ps) = []
  · have hsame : s.unsubscribe ls a ps = (([], 0), s) := by
      unfold unsubscribe
      dsimp only
      rw [hremoved]
      rfl
    have hnone : ∀ c, s.clearedBy a ps c = false := fun c => by
      rw [clearedBy, hremoved]
      rfl
    simp [hsame, hnone]
  · set t : FilesystemStore :=
      { s with subscriptions := s.subscriptions.set a ((s.getPatterns a).filter (· ∉ ps)) } with ht
    have hrun : (s.unsubscribe ls a ps).2 =
        (((t.knownChannels ls).filter (s.clearedBy a ps)).foldl (clearChannel a) (0, t)).2 := by
      unfold unsubscribe
      dsimp only
      rw [if_neg (by rwa [List.isEmpty_iff])]
      rfl
    rw [hrun]
    exact (clearAll_eq (s := t) (a := a) ((knownChannels_nodup h ls).filter _) 0).2.2 c b n

theorem unsubscribe_takes_items (h : s.Encoded) : (ledger s).Takes a ((s.cleared ls a ps).map itemOf)
    (ledger (s.unsubscribe ls a ps).2) :=
  takes_of_marks (unsubscribe_sameFiles ls ps)
    (endToEnd_undelivered_nodup ((knownChannels_nodup h ls).filter _)) (fun _ he => waits_of_mem he)
    fun _ _ _ => mem_getDeliveredSet_unsubscribe h

theorem send_posts {now : ℚ} {args : SendArgs} {u : Uuid}
    (hfresh : fileName now u ∉ (s.channelDir args.channel).messages.keys) :
    (ledger s).Step (.post (args.channel, fileName now u)) (ledger (s.send now args u).2) := by
  refine .post hfresh ?_ ?_
  · ext ⟨c, n⟩
    simp only [ledger, Set.mem_ofPred_eq, Set.mem_insert_iff, Prod.mk.injEq]
    rw [send_keys hfresh, List.mem_append, or_comm]
    refine or_congr_left ?_
    split
    · rename_i hc
      simp [hc]
    · rename_i hc
      simp [hc]
  · funext a
    ext ⟨c, n⟩
    simp only [ledger, Set.mem_ofPred_eq, getDeliveredSet, send_delivered]

theorem ledger_congr {s' : FilesystemStore} (h : s'.channels = s.channels) : ledger s' = ledger s := by
  have hdir : ∀ c, s'.channelDir c = s.channelDir c := fun c => by rw [channelDir, channelDir, h]
  simp only [ledger, getDeliveredSet, hdir]

/-! ### Runs -/

/-- What is collected along a run. -/
def gather {β : Type} (f : HostedOp → FilesystemStore → List β) (calls : List HostedOp) : List β :=
  (⟨fun k s => (f k s, k.apply s)⟩ : Feed FilesystemStore HostedOp β).collect calls init

theorem gather_concat {β : Type} (f : HostedOp → FilesystemStore → List β) (calls : List HostedOp)
    (k : HostedOp) : gather f (calls ++ [k]) = gather f calls ++ f k (afterCalls calls) := Feed.collect_concat

theorem afterCalls_concat (calls : List HostedOp) (k : HostedOp) :
    afterCalls (calls ++ [k]) = k.apply (afterCalls calls) := by
  rw [afterCalls, List.foldl_append, List.foldl_cons, List.foldl_nil, ← afterCalls]

/-- The call as ledger events. -/
def steps (k : HostedOp) (s : FilesystemStore) : List (Ledger.Event AgentId (Channel × String)) :=
  match k.op with
  | .send now args => [.post (args.channel, fileName now k.uuid)]
  | .heartbeat _ sendNow _ _ _ => [.post (presenceChannel, fileName sendNow k.uuid)]
  | .recv a channels max => [.hand a ((s.taken k.ls a channels max).map itemOf)]
  | .unsubscribe a ps => [.drop a ((s.cleared k.ls a ps).map itemOf)]
  | _ => []

/-- The call hands these messages to the agent. -/
def received (a : AgentId) (k : HostedOp) (s : FilesystemStore) : List MessageFile :=
  match k.op with
  | .recv b channels max => if b = a then (s.recv k.ls b channels max).1 else []
  | _ => []

/-- The call discards these messages for the agent. -/
def discarded (a : AgentId) (k : HostedOp) (s : FilesystemStore) : List MessageFile :=
  match k.op with
  | .unsubscribe b ps => if b = a then (s.cleared k.ls b ps).map (·.2.2) else []
  | _ => []

/-- A list of channels names no channel twice. -/
def ListsOnce (k : HostedOp) : Prop :=
  match k.op with
  | .recv _ (some cs) _ => cs.Nodup
  | _ => True

instance : DecidablePred ListsOnce := fun k => by
  unfold ListsOnce
  split <;> infer_instance

/-- The files that a call takes for an agent were waiting. -/
theorem waits_of_given {i : Channel × String} (hi : i ∈ Ledger.given a (steps k s)) :
    i.2 ∈ (s.channelDir i.1).messages.keys ∧ i.2 ∉ s.getDeliveredSet i.1 a := by
  obtain ⟨op, ls, u⟩ := k
  have hwaits : ∀ l : List (Channel × String × MessageFile), i ∈ l.map itemOf →
      (∀ e ∈ l, (e.2.1, e.2.2) ∈ (s.channelDir e.1).messages.entries ∧ e.2.1 ∉ s.getDeliveredSet e.1 a) →
      i.2 ∈ (s.channelDir i.1).messages.keys ∧ i.2 ∉ s.getDeliveredSet i.1 a := by
    intro l hmem hl
    obtain ⟨e, he, rfl⟩ := List.mem_map.1 hmem
    exact ⟨List.mem_map_of_mem (f := Prod.fst) (hl e he).1, (hl e he).2⟩
  cases op with
  | recv b channels max =>
    by_cases hb : b = a
    · subst hb
      refine hwaits (s.taken ls b channels max) ?_ fun e he => waits_of_mem (List.mem_of_mem_take he)
      simpa [steps, Ledger.given] using hi
    · simp [steps, Ledger.given, hb] at hi
  | unsubscribe b ps =>
    by_cases hb : b = a
    · subst hb
      refine hwaits (s.cleared ls b ps) ?_ fun e he => waits_of_mem he
      simpa [steps, Ledger.given] using hi
    · simp [steps, Ledger.given, hb] at hi
  | _ => simp [steps, Ledger.given] at hi

theorem mem_getDeliveredSet_call (h : s.Encoded) : n ∈ (k.apply s).getDeliveredSet c b ↔
    n ∈ s.getDeliveredSet c b ∨ (c, n) ∈ Ledger.given b (steps k s) := by
  obtain ⟨op, ls, u⟩ := k
  have hsame : ∀ s' : FilesystemStore, s'.channels = s.channels → s'.getDeliveredSet c b = s.getDeliveredSet c b :=
    fun s' hs' => by rw [getDeliveredSet, channelDir, hs', ← channelDir, ← getDeliveredSet]
  cases op with
  | recv a channels max =>
    refine mem_getDeliveredSet_recv_items.trans ?_
    by_cases hb : a = b
    · simp [steps, Ledger.given, hb]
    · simp [steps, Ledger.given, hb, Ne.symm hb]
  | unsubscribe a ps =>
    refine (mem_getDeliveredSet_unsubscribe h).trans ?_
    by_cases hb : a = b
    · simp [steps, Ledger.given, hb]
    · simp [steps, Ledger.given, hb, Ne.symm hb]
  | send now args => simp [HostedOp.apply, HostedOp.fileOp, Op.apply, FilesystemStore.apply, steps,
      Ledger.given, getDeliveredSet, send_delivered]
  | heartbeat now sendNow a status ttl => simp [HostedOp.apply, HostedOp.fileOp, Op.apply,
      FilesystemStore.apply, steps, Ledger.given, getDeliveredSet, send_delivered]
  | subscribe a p =>
    rw [show (HostedOp.apply s ⟨.subscribe a p, ls, u⟩).getDeliveredSet c b = _ from
      hsame _ (subscribe_channels ls a p)]
    simp [steps, Ledger.given]
  | groupCreate now a gid =>
    rw [show (HostedOp.apply s ⟨.groupCreate now a gid, ls, u⟩).getDeliveredSet c b = _ from
      hsame _ (subscribe_channels ls a _)]
    simp [steps, Ledger.given]
  | groupJoin now a g =>
    rw [show (HostedOp.apply s ⟨.groupJoin now a g, ls, u⟩).getDeliveredSet c b = _ from
      hsame _ (subscribe_channels ls a g)]
    simp [steps, Ledger.given]
  | groupLeave now a g =>
    rw [show (HostedOp.apply s ⟨.groupLeave now a g, ls, u⟩).getDeliveredSet c b = _ from hsame _ rfl]
    simp [steps, Ledger.given]
  | ack | groupInvite => simp [HostedOp.apply, HostedOp.fileOp, steps, Ledger.given]

theorem call_steps (h : Kept s) (hnames : Inv used s) (hnew : k.uuid ∉ used) (hk : ListsOnce k) :
    (ledger s).Steps (steps k s) (ledger (k.apply s)) := by
  obtain ⟨op, ls, u⟩ := k
  cases op with
  | send now args => exact .single (send_posts (hnames.fresh hnew))
  | heartbeat now sendNow a status ttl =>
    exact .single (show Ledger.Step _ (.post ((presenceArgs a status now).channel, _)) _ from
      send_posts (hnames.fresh hnew))
  | recv a channels max =>
    have hnd : (s.targets ls a channels).Nodup :=
      targets_nodup h.encoded ls fun cs hcs => by rwa [ListsOnce, hcs] at hk
    exact .single (.hand (recv_takes_items hnd max))
  | unsubscribe a ps => exact .single (.drop (unsubscribe_takes_items h.encoded))
  | subscribe a p => exact (ledger_congr (subscribe_channels ls a p)).symm ▸ .nil
  | groupCreate now a gid => exact (ledger_congr (subscribe_channels ls a _)).symm ▸ .nil
  | groupJoin now a g => exact (ledger_congr (subscribe_channels ls a g)).symm ▸ .nil
  | groupLeave now a g =>
    have hsame : ledger (s.groupLeave a g) = ledger s := ledger_congr rfl
    exact hsame.symm ▸ .nil
  | ack | groupInvite => exact .nil

theorem run_steps (hu : (calls.map (·.uuid)).Nodup) (hone : ∀ k ∈ calls, ListsOnce k) :
    (ledger init).Steps (gather steps calls) (ledger (afterCalls calls)) := by
  induction calls using List.reverseRecOn with
  | nil => exact .nil
  | append_singleton calls k ih =>
    rw [List.map_append, List.map_singleton] at hu
    obtain ⟨hnd, -, hdisjoint⟩ := List.nodup_append.1 hu
    have hnew : k.uuid ∉ calls.map (·.uuid) := fun hmem => hdisjoint _ hmem _ (List.mem_singleton_self _) rfl
    obtain ⟨hkept, hnames, -⟩ := kept_calls hnd
    rw [gather_concat, afterCalls_concat]
    refine (ih hnd fun k' hk' => hone k' (List.mem_append_left _ hk')).append ?_
    exact call_steps hkept hnames hnew (hone k (by simp))

/-! ### The messages -/

/-- The message that a call of `send` writes. -/
def fileOf (now : ℚ) (args : SendArgs) (u : Uuid) (seq : Nat) : MessageFile where
  messageId := encodeChannel args.channel ++ "/" ++ fileName now u
  channel := args.channel
  sender := args.sender
  body := args.body
  correlationId := args.correlationId
  sentAt := now
  seq := seq
  replyTo := args.replyTo

/-- The id that the message of a file has. -/
def itemId (i : Channel × String) : String := encodeChannel i.1 ++ "/" ++ i.2

theorem itemId_injective : Function.Injective itemId := by
  rintro ⟨c, n⟩ ⟨d, m⟩ h
  have hlist := congrArg String.toList h
  simp only [itemId, String.toList_append, List.append_assoc] at hlist
  have hslash : "/".toList = ['/'] := rfl
  rw [hslash, List.singleton_append, List.singleton_append] at hlist
  -- the names of directories have no slash
  obtain ⟨hdir, hname⟩ := Separator.append_cons_inj (PathStore.slash_notMem_encodeChannel c)
    (PathStore.slash_notMem_encodeChannel d) hlist
  rw [encodeChannel_inj.1 (String.toList_inj.1 hdir), String.toList_inj.1 hname]

/-- Every file was written by one of the calls. -/
def Written (calls : List HostedOp) (s : FilesystemStore) : Prop :=
  ∀ c, ∀ f ∈ (s.channelDir c).messages.entries, ∃ k ∈ calls, ∃ now args seq,
    k.op.sends = some (now, args) ∧ args.channel = c ∧
      f = (fileName now k.uuid, fileOf now args k.uuid seq)

theorem Written.of_sameFiles {s' : FilesystemStore} (h : Written calls s) (hsame : SameFiles s s') :
    Written (calls ++ [k]) s' := by
  intro c f hf
  rw [hsame c] at hf
  obtain ⟨k', hk', hrest⟩ := h c f hf
  exact ⟨k', List.mem_append_left _ hk', hrest⟩

theorem send_files {now : ℚ} {args : SendArgs} {u : Uuid}
    (hfresh : fileName now u ∉ (s.channelDir args.channel).messages.keys) (c : Channel) :
    ((s.send now args u).2.channelDir c).messages.entries = (s.channelDir c).messages.entries ++
      if c = args.channel then
        [(fileName now u, fileOf now args u ((s.channelDir args.channel).messages.entries.length + 1))]
      else [] := by
  unfold FilesystemStore.send
  dsimp only
  rw [channelDir_set]
  split
  · rename_i hc
    rw [hc]
    exact Dict.upsert_of_notMem hfresh
  · exact (List.append_nil _).symm

theorem Written.send (h : Written calls s) {now : ℚ} {args : SendArgs}
    (hsends : k.op.sends = some (now, args))
    (hfresh : fileName now k.uuid ∉ (s.channelDir args.channel).messages.keys) :
    Written (calls ++ [k]) (s.send now args k.uuid).2 := by
  intro c f hf
  rw [send_files hfresh] at hf
  rcases List.mem_append.1 hf with hf | hf
  · obtain ⟨k', hk', hrest⟩ := h c f hf
    exact ⟨k', List.mem_append_left _ hk', hrest⟩
  · split at hf
    · rename_i hc
      exact ⟨k, by simp, now, args, _, hsends, hc.symm, List.mem_singleton.1 hf⟩
    · exact absurd hf List.not_mem_nil

/-- What a call leaves of the files. -/
theorem sameFiles_call (hsends : k.op.sends = none) : SameFiles s (k.apply s) := by
  obtain ⟨op, ls, u⟩ := k
  cases op with
  | send | heartbeat => cases hsends
  | recv a channels max => exact recv_sameFiles ls channels max
  | unsubscribe a ps => exact unsubscribe_sameFiles ls ps
  | subscribe a p => exact subscribe_sameFiles ls p
  | groupCreate now a gid => exact subscribe_sameFiles ls _
  | groupJoin now a g => exact subscribe_sameFiles ls g
  | ack | groupInvite | groupLeave => exact fun _ => rfl

theorem apply_of_sends {now : ℚ} {args : SendArgs} (hsends : k.op.sends = some (now, args)) :
    k.apply s = (s.send now args k.uuid).2 := by
  obtain ⟨op, ls, u⟩ := k
  cases op <;> cases hsends <;> rfl

theorem written_call (h : Written calls s) (hnames : Inv used s) (hnew : k.uuid ∉ used) :
    Written (calls ++ [k]) (k.apply s) := by
  cases hsends : k.op.sends with
  | none => exact h.of_sameFiles (sameFiles_call hsends)
  | some posted =>
    rw [apply_of_sends hsends]
    exact h.send hsends (hnames.fresh hnew)

/-- What a run stores, and that a call's message stays. -/
theorem written_run (hu : (calls.map (·.uuid)).Nodup) : Written calls (afterCalls calls) ∧
    ∀ k ∈ calls, ∀ now args, k.op.sends = some (now, args) → ∃ seq,
      (fileName now k.uuid, fileOf now args k.uuid seq) ∈
        ((afterCalls calls).channelDir args.channel).messages.entries := by
  induction calls using List.reverseRecOn with
  | nil => exact ⟨fun c f hf => absurd hf List.not_mem_nil, fun k hk => absurd hk List.not_mem_nil⟩
  | append_singleton calls k ih =>
    rw [List.map_append, List.map_singleton] at hu
    obtain ⟨hnd, -, hdisjoint⟩ := List.nodup_append.1 hu
    have hnew : k.uuid ∉ calls.map (·.uuid) := fun hmem => hdisjoint _ hmem _ (List.mem_singleton_self _) rfl
    obtain ⟨-, hnames, -⟩ := kept_calls hnd
    obtain ⟨hwritten, hstored⟩ := ih hnd
    rw [afterCalls_concat]
    refine ⟨written_call hwritten hnames hnew, fun k' hk' now args hsends => ?_⟩
    rcases List.mem_append.1 hk' with hk' | hk'
    · obtain ⟨seq, hmem⟩ := hstored k' hk' now args hsends
      refine ⟨seq, ?_⟩
      cases hlast : k.op.sends with
      | none =>
        rw [sameFiles_call hlast]
        exact hmem
      | some posted =>
        rw [apply_of_sends hlast, send_files (hnames.fresh hnew)]
        exact List.mem_append_left _ hmem
    · obtain rfl := List.mem_singleton.1 hk'
      rw [apply_of_sends hsends, send_files (hnames.fresh hnew), if_pos rfl]
      exact ⟨_, List.mem_append_right _ (List.mem_singleton_self _)⟩

/-! ### Delivery -/

theorem Written.messageId (h : Written calls s) {f : String × MessageFile}
    (hf : f ∈ (s.channelDir c).messages.entries) : f.2.messageId = itemId (c, f.1) := by
  obtain ⟨k, -, now, args, seq, -, rfl, rfl⟩ := h c f hf
  rfl

theorem messageIds_eq (h : Written calls s) {l : List (Channel × String × MessageFile)}
    (hl : ∀ e ∈ l, (e.2.1, e.2.2) ∈ (s.channelDir e.1).messages.entries) :
    (l.map (·.2.2)).map (·.messageId) = (l.map itemOf).map itemId := by
  rw [List.map_map, List.map_map]
  exact List.map_congr_left fun e he => h.messageId (hl e he)

/-- What a call returns to the agent or discards for it. -/
def givenBy (a : AgentId) (k : HostedOp) (s : FilesystemStore) : List MessageFile :=
  received a k s ++ discarded a k s

theorem givenBy_ids (h : Written calls s) (a : AgentId) (k : HostedOp) :
    ((givenBy a k s).map (·.messageId)).Perm ((Ledger.given a (steps k s)).map itemId) := by
  obtain ⟨op, ls, u⟩ := k
  cases op with
  | recv b channels max =>
    by_cases hb : b = a
    · have hout : ((s.recv ls b channels max).1.map (·.messageId)).Perm
          (((s.taken ls b channels max).map itemOf).map itemId) := by
        have hids := messageIds_eq h (l := s.taken ls b channels max) fun e he =>
          (waits_of_mem (List.mem_of_mem_take he)).1
        rw [recv_fst, ← hids]
        exact (List.perm_insertionSort _ _).map _
      simpa [givenBy, received, discarded, steps, Ledger.given, hb] using hout
    · simp [givenBy, received, discarded, steps, Ledger.given, hb]
  | unsubscribe b ps =>
    by_cases hb : b = a
    · have hout := messageIds_eq h (l := s.cleared ls b ps) fun e he => (waits_of_mem he).1
      simpa [givenBy, received, discarded, steps, Ledger.given, hb] using List.Perm.of_eq hout
    · simp [givenBy, received, discarded, steps, Ledger.given, hb]
  | _ => simp [givenBy, received, discarded, steps, Ledger.given]

theorem given_ids (hu : (calls.map (·.uuid)).Nodup) (a : AgentId) :
    ((gather (givenBy a) calls).map (·.messageId)).Perm ((Ledger.given a (gather steps calls)).map itemId) := by
  induction calls using List.reverseRecOn with
  | nil => exact .nil
  | append_singleton calls k ih =>
    rw [List.map_append, List.nodup_append] at hu
    rw [gather_concat, gather_concat, Ledger.given_append, List.map_append, List.map_append]
    exact (ih hu.1).append (givenBy_ids (written_run hu.1).1 a k)

/-- What a run is to an agent. -/
structure Delivery (calls : List HostedOp) (a : AgentId) : Prop where
  /-- No message is returned or discarded twice. -/
  once : ((gather (givenBy a) calls).map (·.messageId)).Nodup
  /-- The others wait. -/
  waits : ∀ c, ∀ f ∈ ((afterCalls calls).channelDir c).messages.entries,
    f ∈ (afterCalls calls).undelivered c a ↔ f.2.messageId ∉ (gather (givenBy a) calls).map (·.messageId)
  /-- What is returned was sent. -/
  intact : ∀ m ∈ gather (received a) calls, ∃ k ∈ calls, ∃ now args seq,
    k.op.sends = some (now, args) ∧ m = fileOf now args k.uuid seq
  /-- Draining returns what waits for the agent, each message once. -/
  drains : ∀ recvs : List (DirListing × Int), (∀ r ∈ recvs, 1 ≤ r.2) →
    (postbox.pending (afterCalls calls) a).length ≤ recvs.length →
      ((postbox.recv a).collect recvs (afterCalls calls)).Perm (postbox.pending (afterCalls calls) a)

theorem received_intact (hu : (calls.map (·.uuid)).Nodup) (a : AgentId) :
    ∀ m ∈ gather (received a) calls, ∃ k ∈ calls, ∃ now args seq,
      k.op.sends = some (now, args) ∧ m = fileOf now args k.uuid seq := by
  induction calls using List.reverseRecOn with
  | nil => exact fun m hm => absurd hm List.not_mem_nil
  | append_singleton calls k ih =>
    rw [List.map_append, List.nodup_append] at hu
    intro m hm
    rw [gather_concat] at hm
    rcases List.mem_append.1 hm with hm | hm
    · obtain ⟨k', hk', hrest⟩ := ih hu.1 m hm
      exact ⟨k', List.mem_append_left _ hk', hrest⟩
    · obtain ⟨op, ls, u⟩ := k
      cases op with
      | recv b channels max =>
        simp only [received] at hm
        split at hm
        · rw [recv_fst, sortByTime, List.mem_insertionSort] at hm
          obtain ⟨e, he, rfl⟩ := List.mem_map.1 hm
          have hstored := (waits_of_mem (List.mem_of_mem_take he)).1
          obtain ⟨k', hk', now, args, seq, hsends, -, heq⟩ := (written_run hu.1).1 _ _ hstored
          exact ⟨k', List.mem_append_left _ hk', now, args, seq, hsends, (Prod.mk.inj heq).2⟩
        · exact absurd hm List.not_mem_nil
      | _ => exact absurd hm List.not_mem_nil

/-- Delivery in the filesystem store, for every run in which the ids of `uuid4` are all different and no
list of channels names a channel twice: every message is stored, numbered by its place on the channel, and
each agent has returned or discarded every message at most once, while the others wait for it. -/
theorem filesystem_delivery (hu : (calls.map (·.uuid)).Nodup) (hone : ∀ k ∈ calls, ListsOnce k) :
    (∀ k ∈ calls, ∀ now args, k.op.sends = some (now, args) → ∃ seq,
      (fileName now k.uuid, fileOf now args k.uuid seq) ∈
        ((afterCalls calls).channelDir args.channel).messages.entries) ∧
    (∀ c, ((afterCalls calls).channelDir c).messages.entries.map (·.2.seq) =
      List.range' 1 ((afterCalls calls).channelDir c).messages.entries.length) ∧
    ∀ a, Delivery calls a := by
  obtain ⟨hkept, -, -⟩ := kept_calls hu
  obtain ⟨hwritten, hstored⟩ := written_run hu
  refine ⟨hstored, hkept.numbered, fun a => ?_⟩
  obtain ⟨hnd, -, htaken⟩ := (run_steps hu hone).given_spec a
  have hids := given_ids hu a
  refine ⟨hids.nodup_iff.2 (hnd.map itemId_injective), fun c f hf => ?_, received_intact hu a,
    fun recvs hrecvs hlen => (postbox_drains a).collect_perm hkept hrecvs hlen⟩
  have hmem : f.1 ∈ (afterCalls calls).getDeliveredSet c a ↔ _ := htaken (c, f.1)
  rw [hids.mem_iff, hwritten.messageId hf, List.mem_map_of_injective itemId_injective, mem_undelivered,
    and_iff_right hf, hmem]
  refine not_congr (or_iff_right ?_)
  exact List.not_mem_nil

/-- bob drains his ticket, and alice beats twice. -/
def bobDrains : List HostedOp := bobTwice ++
  [hosted (.recv "bob" (some ["ticket:1", "ticket:2"]) 5) '4', hosted (.heartbeat 6 6 "alice" "online" none) '5',
    hosted (.heartbeat 7 7 "alice" "busy" none) '6', hosted (.unsubscribe "bob" ["ticket:*"]) '7']

theorem filesystem_delivery_bob : (gather (received "bob") bobDrains).map (·.seq) = [1] ∧
    Delivery bobDrains "bob" :=
  ⟨by decide +kernel, (filesystem_delivery (by decide) (by decide)).2.2 "bob"⟩

/-- A channel that is named twice is handed out twice. -/
theorem recv_twice (ls : DirListing) (hmax : 2 * (s.undelivered c a).length ≤ max) :
    (s.recv ls a (some [c, c]) max).1.Perm
      ((s.undelivered c a).map (·.2) ++ (s.undelivered c a).map (·.2)) := by
  have hall : s.taken ls a (some [c, c]) max =
      (s.undelivered c a).map (Prod.mk c) ++ (s.undelivered c a).map (Prod.mk c) := by
    have hqueues : Feed.endToEnd (s.undelivered · a) (s.targets ls a (some [c, c])) =
        (s.undelivered c a).map (Prod.mk c) ++ (s.undelivered c a).map (Prod.mk c) := by
      simp [Feed.endToEnd, targets]
    rw [taken, hqueues]
    refine List.take_of_length_le ?_
    simp only [List.length_append, List.length_map]
    omega
  rw [recv_fst, hall, List.map_append, List.map_map]
  exact List.perm_insertionSort _ _

end FilesystemStore

end Sox
