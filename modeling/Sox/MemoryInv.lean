import Sox.MemoryStore
import Sox.Delivery

/-!
# Delivery in the in-memory store

First one equation for each operation that touches messages (`recv_eq`, `unsubscribe_eq`): scans,
sorts and folds are gone, and what is left is which messages of the agent's inbox are taken. Every
operation then has one of two effects on the messages, `Effect.append` (`send`, `heartbeat`) and
`Effect.mark` (the rest), and the invariant `Inv` and the refinement of the delivery ledger go by
these two cases.
-/

namespace Sox

namespace MemoryStore

variable {s s' : MemoryStore} {a b : AgentId} {c : Channel} {channels : Option (List Channel)} {max : Int}
  {patterns : List Pattern} {want : Channel → Bool}

/-! ### What the operations do -/

theorem recvLoop_eq (sel : StoredMessage → Bool) (max : Int) (acc l : List StoredMessage) :
    recvLoop sel max acc l = acc ++ (l.filter sel).take (max.toNat - acc.length) := by
  induction l generalizing acc with
  | nil => simp [recvLoop]
  | cons m l ih =>
    by_cases hmax : max ≤ acc.length
    · have hz : max.toNat - acc.length = 0 := by omega
      simp [recvLoop, hmax, hz]
    · have hs : max.toNat - acc.length = (max.toNat - (acc ++ [m]).length) + 1 := by simp; omega
      by_cases hm : sel m = true
      · simp [recvLoop, hmax, hm, ih, hs]
      · simp [recvLoop, hmax, hm, ih]

/-- What the agent can drain with the given `channels` argument, in storage order. -/
def pending (s : MemoryStore) (a : AgentId) (channels : Option (List Channel)) : List StoredMessage :=
  inbox (wants channels (s.patternsFor a)) a s.messages

def drained (s : MemoryStore) (a : AgentId) (channels : Option (List Channel)) (max : Int) :
    List StoredMessage :=
  sortMessages ((s.pending a channels).take max.toNat)

theorem recv_eq : s.recv a channels max =
    ((s.drained a channels max).map (·.toWire),
      { s with messages := markDelivered a ((s.drained a channels max).map (·.id)) s.messages }) := by
  simp [recv, drained, pending, inbox, recvLoop_eq]

theorem unsubscribe_foldl (a : AgentId) (patterns existing : List Pattern) (u : Unsubscribing) :
    existing.foldl (unsubscribeStep a patterns) u =
      { removed := u.removed ++ existing.filter (· ∈ patterns)
        pendingCleared := u.pendingCleared +
          (inbox (fun c => (existing.filter (· ∈ patterns)).any (Glob.fnmatchcase c)) a u.messages).length
        newPatterns := u.newPatterns ++ existing.filter (· ∉ patterns)
        messages := markWhere a
          (fun m => (existing.filter (· ∈ patterns)).any (Glob.fnmatchcase m.channel))
          u.messages } := by
  induction existing generalizing u with
  | nil => simp [inbox, StoredMessage.awaits, markWhere]
  | cons p rest ih =>
    rw [List.foldl_cons, ih, unsubscribeStep]
    by_cases hp : p ∈ patterns
    · simp only [hp, ↓reduceIte, List.filter_cons, decide_true, markWhere_awaits, List.append_assoc,
        List.singleton_append, List.any_cons, not_true_eq_false, decide_false, Bool.false_eq_true]
      rw [Unsubscribing.mk.injEq]
      refine ⟨rfl, ?_, rfl, ?_⟩
      · rw [Nat.add_assoc, inbox_length_or]
      · exact markWhere_markWhere _ _ fun _ => by simp
    · simp [hp]

/-- Whether `unsubscribe` discards what is pending on the channel: a removed pattern matches it. -/
def clearedBy (s : MemoryStore) (a : AgentId) (patterns : List Pattern) (c : Channel) : Bool :=
  ((s.patternsFor a).filter (· ∈ patterns)).any (Glob.fnmatchcase c)

theorem unsubscribe_eq : s.unsubscribe a patterns =
    (((s.patternsFor a).filter (· ∈ patterns), (inbox (s.clearedBy a patterns) a s.messages).length),
      { s with
        messages := markWhere a (fun m => s.clearedBy a patterns m.channel) s.messages
        subscriptions := s.subscriptions.set a ((s.patternsFor a).filter (· ∉ patterns)) }) := by
  simp only [unsubscribe, unsubscribe_foldl, List.nil_append, Nat.zero_add]
  rfl

/-- What an operation does to the messages and the counters. -/
inductive Effect (s : MemoryStore) : MemoryStore → Prop
  | append {s' : MemoryStore} (now : ℚ) (args : SendArgs)
      (messages : s'.messages = s.messages ++ [s.nextMessage now args])
      (nextId : s'.nextId = s.nextId + 1)
      (counter : s'.channelSeq = s.channelSeq.set args.channel
        (s.channelSeq.getD args.channel 0 + 1)) : Effect s s'
  | mark {s' : MemoryStore} (a : AgentId) (sel : StoredMessage → Bool)
      (messages : s'.messages = markWhere a sel s.messages) (nextId : s'.nextId = s.nextId)
      (counter : s'.channelSeq = s.channelSeq) : Effect s s'

theorem Effect.of_same (hm : s'.messages = s.messages) (hn : s'.nextId = s.nextId)
    (hc : s'.channelSeq = s.channelSeq) : Effect s s' :=
  .mark "" (fun _ => false) (hm.trans markWhere_none.symm) hn hc

theorem apply_effect (op : StoreOp) (s : MemoryStore) : Effect s (memoryStore.apply op s) := by
  cases op with
  | send now args => exact .append now args rfl rfl rfl
  | heartbeat now sendNow a status ttl => exact .append now (presenceArgs a status now) rfl rfl rfl
  | recv a channels max =>
    show Effect s (s.recv a channels max).2
    rw [recv_eq]
    exact .mark a _ rfl rfl rfl
  | unsubscribe a patterns =>
    show Effect s (s.unsubscribe a patterns).2
    rw [unsubscribe_eq]
    exact .mark a _ rfl rfl rfl
  | groupInvite now a gid b =>
    simp only [BackingStore.apply, memoryStore, groupInvite]
    split <;> exact .of_same rfl rfl rfl
  | subscribe | ack | groupCreate | groupJoin | groupLeave => exact .of_same rfl rfl rfl

/-! ### The invariant -/

/-- Ids and sequence numbers count what is stored, and the counters point past the last. -/
structure Inv (s : MemoryStore) : Prop where
  ids : s.messages.map (·.id) = List.range' 1 s.messages.length
  nextId : s.nextId = s.messages.length + 1
  seqs : Gapless s.messages
  counter : ∀ c, s.channelSeq.getD c 0 = (onChannel c s.messages).length

theorem Inv.init : Inv init := ⟨rfl, rfl, fun _ => rfl, fun _ => rfl⟩

theorem Inv.ids_nodup (h : Inv s) : (s.messages.map (·.id)).Nodup := h.ids ▸ List.nodup_range'

theorem Inv.effect (h : Inv s) (he : Effect s s') : Inv s' := by
  cases he with
  | append now args hm hn hc =>
    have hseq : (s.nextMessage now args).seq = (onChannel args.channel s.messages).length + 1 := by
      rw [← h.counter]; rfl
    refine ⟨?_, ?_, hm ▸ h.seqs.append hseq, fun c => ?_⟩
    · rw [hm, List.map_append, h.ids, List.length_append, List.length_singleton, List.range'_concat]
      simp [nextMessage, h.nextId, Nat.add_comm]
    · rw [hn, hm, h.nextId]; simp
    · rw [hm, hc, onChannel_append, onChannel_singleton, List.length_append]
      by_cases hcc : c = args.channel
      · subst hcc
        simp [nextMessage, h.counter]
      · have hne : ¬(s.nextMessage now args).channel = c := Ne.symm hcc
        rw [Dict.getD_set_of_ne hcc, h.counter, if_neg hne, List.length_nil, Nat.add_zero]
  | mark a sel hm hn hc =>
    refine ⟨?_, ?_, hm ▸ h.seqs.markWhere, fun c => ?_⟩
    · rw [hm, markWhere_ids, markWhere_length, h.ids]
    · rw [hn, hm, markWhere_length, h.nextId]
    · rw [hc, hm, onChannel_markWhere_length, h.counter]

theorem Inv.apply (op : StoreOp) (s : MemoryStore) (h : Inv s) : Inv (memoryStore.apply op s) :=
  h.effect (apply_effect op s)

theorem Inv.reachable (ops : List StoreOp) : Inv (memoryStore.applyAll ops MemoryStore.init) :=
  BackingStore.applyAll_invariant Inv.apply ops .init

/-! ### Deliveries -/

theorem mem_drained {m : StoredMessage} (h : m ∈ s.drained a channels max) : m ∈ s.pending a channels :=
  List.mem_of_mem_take (mem_sortMessages.1 h)

theorem drained_ids_nodup (h : Inv s) : ((s.drained a channels max).map (·.id)).Nodup := by
  have htake : (((s.pending a channels).take max.toNat).map (·.id)).Nodup :=
    (inbox_ids_nodup h.ids_nodup).sublist ((List.take_sublist ..).map _)
  exact (((sortMessages_perm _).map _).nodup_iff).2 htake

theorem recv_takes (h : Inv s) : (ledger s.messages).Takes a ((s.recv a channels max).1.map (·.messageId))
    (ledger (s.recv a channels max).2.messages) := by
  simp only [recv_eq, List.map_map]
  refine ledger_drain_takes h.ids_nodup (drained_ids_nodup h) fun m hm => ?_
  obtain ⟨hl, ha, -⟩ := mem_inbox.1 (mem_drained hm)
  exact ⟨hl, ha⟩

theorem unsubscribe_takes (h : Inv s) :
    (ledger s.messages).Takes a ((inbox (s.clearedBy a patterns) a s.messages).map (·.id))
      (ledger (s.unsubscribe a patterns).2.messages) := by
  rw [unsubscribe_eq]
  exact ledger_discard_takes h.ids_nodup

/-- Every operation of the store is a sequence of ledger events. -/
theorem delivers : Delivers memoryStore Inv fun s => ledger s.messages where
  keeps := Inv.apply
  events op s h := by
    -- an operation that leaves the messages alone is no event
    have quiet : (memoryStore.apply op s).messages = s.messages →
      (∀ a, memoryStore.received a op s = []) →
        ∃ es, (ledger s.messages).Steps es (ledger (memoryStore.apply op s).messages) ∧
          ∀ a, Ledger.handed a es = (memoryStore.received a op s).map (·.messageId) := fun hm hr =>
      ⟨[], hm ▸ .nil, fun a => by rw [hr a]; rfl⟩
    have hfresh : ∀ now args, (s.nextMessage now args).id ∉ s.messages.map (·.id) := fun now args => by
      rw [h.ids]; simp [nextMessage, h.nextId]; omega
    cases op with
    | send now args =>
      exact ⟨[.post s.nextId], .single (ledger_append_step (hfresh now args) rfl), fun _ => rfl⟩
    | heartbeat now sendNow a status ttl =>
      exact ⟨[.post s.nextId],
        .single (ledger_append_step (hfresh now (presenceArgs a status now)) rfl), fun _ => rfl⟩
    | recv a channels max =>
      refine ⟨[.hand a ((s.recv a channels max).1.map (·.messageId))],
        .single (.hand (recv_takes h)), fun b => ?_⟩
      show (if a = b then _ else []) ++ [] =
        (if a = b then (s.recv a channels max).1 else []).map (·.messageId)
      split <;> simp
    | unsubscribe a patterns =>
      exact ⟨[.drop a ((inbox (s.clearedBy a patterns) a s.messages).map (·.id))],
        .single (.drop (unsubscribe_takes h)), fun _ => rfl⟩
    | groupInvite now a gid b =>
      refine quiet ?_ fun _ => rfl
      show (s.groupInvite now a gid b).2.messages = s.messages
      rw [groupInvite]
      split <;> rfl
    | subscribe | ack | groupCreate | groupJoin | groupLeave => exact quiet rfl fun _ => rfl

/-! ### The store as a mailbox -/

def mailbox : Mailbox memoryStore where
  messages := MemoryStore.messages
  patterns := patternsFor
  scan := id
  cap := Int.toNat
  Inv := Inv

theorem watchPoll_eq (s : MemoryStore) (a : AgentId) (last : Nat) : s.watchPoll a last =
    ((sortMessages (mailbox.unseen s a last)).map (·.toWire),
      Nat.max last (maxId (mailbox.unseen s a last))) := by
  refine Prod.ext rfl ?_
  show (if (sortMessages (mailbox.unseen s a last)).isEmpty = true then last
    else maxId (sortMessages (mailbox.unseen s a last))) = _
  have hperm := sortMessages_perm (mailbox.unseen s a last)
  rw [maxId_perm hperm]
  split
  · rename_i he
    rw [List.isEmpty_iff.1 he] at hperm
    rw [hperm.nil_eq.symm]
    simp [maxId]
  · rename_i he
    rcases maxId_mem (mailbox.unseen s a last) with ⟨hnil, -⟩ | ⟨m, hm, hid⟩
    · exact absurd (by rw [hnil]; rfl) he
    · have hlt : last < m.id := by
        have h := (List.mem_filter.1 hm).2
        simp only [Bool.and_eq_true, decide_eq_true_eq] at h
        exact h.1
      rw [← hid]
      exact (Nat.max_eq_right hlt.le).symm

theorem mailbox_lawful : mailbox.Lawful where
  keeps := Inv.apply
  scan_perm l := .refl l
  ids s h := by
    show (s.messages.map (·.id)).Pairwise (· < ·)
    rw [h.ids]
    exact List.pairwise_lt_range'
  pos s h m hm := by
    have hid : m.id ∈ s.messages.map (·.id) := List.mem_map_of_mem hm
    rw [h.ids, List.mem_range'_1] at hid
    omega
  send now args s h := by
    refine ⟨s.nextMessage now args, rfl, fun n hn => ?_, rfl, rfl⟩
    have hid : n.id ∈ s.messages.map (·.id) := List.mem_map_of_mem hn
    rw [h.ids, List.mem_range'_1] at hid
    show n.id < s.nextId
    rw [h.nextId]
    omega
  recv a channels max s h := by
    refine ⟨s.drained a channels max, sortMessages_perm _, ?_, ?_, ?_⟩ <;>
      simp only [memoryStore, recv_eq]
    · rfl
    · rfl
  watchStart a s := rfl
  watchPoll a last s := by
    refine ⟨sortMessages (mailbox.unseen s a last), sortMessages_perm _, rfl, ?_⟩
    rw [maxId_perm (sortMessages_perm _)]
    exact congrArg Prod.snd (watchPoll_eq s a last)

/-! ### Pending messages -/

theorem recv_pending_other (hb : b ≠ a) (channels' : Option (List Channel)) :
    ((s.recv a channels max).2.pending b channels').map (·.toWire) =
      (s.pending b channels').map (·.toWire) := by
  simp only [recv_eq]
  exact inbox_markWhere_other hb

theorem patternsFor_addPattern (p : Pattern) : (s.addPattern a p).patternsFor b =
    if b = a then if p ∈ s.patternsFor a then s.patternsFor a else s.patternsFor a ++ [p]
    else s.patternsFor b := by
  split
  · rename_i hb
    subst hb
    exact Dict.getD_set_self
  · rename_i hb
    exact Dict.getD_set_of_ne hb

theorem mem_patternsFor_addPattern {p q : Pattern} :
    p ∈ (s.addPattern a q).patternsFor b ↔ p ∈ s.patternsFor b ∨ (b = a ∧ p = q) := by
  rw [patternsFor_addPattern]
  split
  · rename_i hb
    subst hb
    split
    · rename_i hq
      exact ⟨.inl, fun h => h.elim id fun hp => hp.2 ▸ hq⟩
    · rw [List.mem_append, List.mem_singleton]
      simp
  · rename_i hb
    exact (or_iff_left fun h => hb h.1).symm

theorem patternsFor_unsubscribe_self :
    (s.unsubscribe a patterns).2.patternsFor a = (s.patternsFor a).filter (· ∉ patterns) := by
  rw [unsubscribe_eq]
  exact Dict.getD_set_self

theorem patternsFor_unsubscribe_other (hb : b ≠ a) :
    (s.unsubscribe a patterns).2.patternsFor b = s.patternsFor b := by
  rw [unsubscribe_eq]
  exact Dict.getD_set_of_ne hb

theorem unsubscribe_pending_other (hb : b ≠ a) (channels' : Option (List Channel)) :
    ((s.unsubscribe a patterns).2.pending b channels').map (·.toWire) =
      (s.pending b channels').map (·.toWire) := by
  rw [pending, patternsFor_unsubscribe_other hb, unsubscribe_eq]
  exact inbox_markWhere_other hb

theorem recv_pending_self (h : Inv s) :
    (s.recv a channels max).2.pending a channels = (s.pending a channels).drop max.toNat := by
  have hperm : ((s.drained a channels max).map (·.id)).Perm
    (((s.pending a channels).take max.toNat).map (·.id)) :=
    (sortMessages_perm _).map _
  simp only [recv_eq]
  rw [markDelivered_perm hperm]
  exact inbox_markDelivered_take h.ids_nodup max.toNat

/-- Draining returns everything pending, once, and leaves nothing pending. -/
theorem drain_eq (h : Inv s) (hmax : 1 ≤ max) {fuel : Nat}
    (hfuel : (s.pending a channels).length < fuel) :
    ∃ out t, memoryStore.drain a channels max fuel s = some (out, t) ∧
      out.Perm ((s.pending a channels).map (·.toWire)) ∧ t.pending a channels = [] := by
  induction fuel generalizing s with
  | zero => omega
  | succ fuel ih =>
    have hout : (s.recv a channels max).1.Perm
      (((s.pending a channels).take max.toNat).map (·.toWire)) := by
      rw [recv_eq]
      exact (sortMessages_perm _).map _
    have hI : Inv (s.recv a channels max).2 := h.apply (.recv a channels max) s
    have hrest : (s.recv a channels max).2.pending a channels = (s.pending a channels).drop max.toNat :=
      recv_pending_self h
    by_cases he : s.pending a channels = []
    · have hnil : (s.recv a channels max).1 = [] := by simpa [he] using hout
      refine ⟨[], (s.recv a channels max).2, ?_, by simp [he], by simp [hrest, he]⟩
      simp [BackingStore.drain, memoryStore, hnil]
    · have hpos : 0 < (s.pending a channels).length := List.length_pos_iff.2 he
      have hne : (s.recv a channels max).1 ≠ [] := fun hnil => by
        have hlen := hout.length_eq
        simp only [hnil, List.length_nil, List.length_map, List.length_take] at hlen
        omega
      obtain ⟨out, t, hd, hp, ht⟩ := ih hI (by rw [hrest, List.length_drop]; omega)
      refine ⟨(s.recv a channels max).1 ++ out, t, ?_, ?_, ht⟩
      · simp only [BackingStore.drain]
        show (if (s.recv a channels max).1.isEmpty = true then _ else _) = _
        rw [if_neg (by simpa using hne)]
        show Option.map _ (memoryStore.drain a channels max fuel (s.recv a channels max).2) = _
        rw [hd]
        rfl
      · rw [hrest] at hp
        have happ := hout.append hp
        rwa [← List.map_append, List.take_append_drop] at happ

theorem pending_ids_nodup (h : Inv s) :
    (((s.pending a channels).map (·.toWire)).map (·.messageId)).Nodup := by
  rw [List.map_map]
  exact inbox_ids_nodup h.ids_nodup

/-- Delivery in the in-memory store, for every history from the empty store: `recv` returns no
message to an agent twice; nobody's `recv` or `unsubscribe` changes what another agent has
pending; sequence numbers are 1, …, n on every channel; and draining returns everything pending
exactly once. -/
theorem memory_delivery (ops : List StoreOp) :
    (∀ a, ((memoryStore.receivedAll a ops MemoryStore.init).map (·.messageId)).Nodup) ∧
    (∀ a b, b ≠ a → ∀ channels',
      let s := memoryStore.applyAll ops MemoryStore.init
      (∀ channels max, ((s.recv a channels max).2.pending b channels').map (·.toWire) =
        (s.pending b channels').map (·.toWire)) ∧
      (∀ patterns, ((s.unsubscribe a patterns).2.pending b channels').map (·.toWire) =
        (s.pending b channels').map (·.toWire))) ∧
    Gapless (memoryStore.applyAll ops MemoryStore.init).messages ∧
    (∀ a channels max, 1 ≤ max → ∀ fuel,
      let s := memoryStore.applyAll ops MemoryStore.init
      (s.pending a channels).length < fuel →
        ∃ out t, memoryStore.drain a channels max fuel s = some (out, t) ∧
          out.Perm ((s.pending a channels).map (·.toWire)) ∧ (out.map (·.messageId)).Nodup ∧
          t.pending a channels = []) := by
  have hI := Inv.reachable ops
  refine ⟨fun a => delivers.receivedAll_nodup a ops .init, ?_, hI.seqs, ?_⟩
  · exact fun a b hb channels' =>
      ⟨fun _ _ => recv_pending_other hb channels', fun _ => unsubscribe_pending_other hb channels'⟩
  · intro a channels max hmax fuel s hfuel
    obtain ⟨out, t, hd, hp, ht⟩ := drain_eq hI hmax hfuel
    exact ⟨out, t, hd, hp, ((hp.map _).nodup_iff).2 (pending_ids_nodup hI), ht⟩

theorem memory_delivery_bob :
    let ops : List StoreOp := [.subscribe "bob" "ticket:*",
      .send 3 ⟨"ticket:2", "alice", .empty, none, none⟩,
      .heartbeat 4 4 "alice" "online" none, .send 5 ⟨"ticket:1", "alice", .empty, none, none⟩]
    let s := memoryStore.applyAll ops MemoryStore.init
    ∃ out t, memoryStore.drain "bob" none 1 3 s = some (out, t) ∧
      out.Perm ((s.pending "bob" none).map (·.toWire)) ∧ (out.map (·.messageId)).Nodup ∧
        t.pending "bob" none = [] :=
  (memory_delivery _).2.2.2 "bob" none 1 (by decide) 3 (by decide)

end MemoryStore

end Sox
