import Sox.SqliteStore
import Sox.Delivery

/-!
# Delivery in the SQLite store

The equations of the operations on messages, the invariant of a database that a single process works
on (`Inv`: `AUTOINCREMENT` ids), gapless sequence numbers, and the store as a delivery ledger and as
a mailbox. The interleavings of several processes, in which the sequence numbers and the deliveries
fail, start from the statements of `SqliteDb` again.
-/

namespace Sox

namespace SqliteDb

variable {db db' : SqliteDb} {a b : AgentId} {c : Channel} {channels : Option (List Channel)} {max : Int}
  {patterns : List Pattern} {p : List StoredMessage} {row : StoredMessage}

/-- Ids are positive and increase in storage order, and the counter is past all of them. -/
structure Inv (db : SqliteDb) : Prop where
  ids : (db.messages.map (·.id)).Pairwise (· < ·)
  top : ∀ m ∈ db.messages, m.id ≤ db.autoincrement
  pos : ∀ m ∈ db.messages, 0 < m.id

theorem Inv.ids_nodup (h : Inv db) : (db.messages.map (·.id)).Nodup := h.ids.imp Nat.ne_of_lt

/-! ### What the operations do -/

theorem recvLoop_eq (sel : StoredMessage → Bool) (max : Int) (acc rows : List StoredMessage)
    (hacc : acc.length < Nat.max max.toNat 1) :
    recvLoop sel max acc rows = acc ++ (rows.filter sel).take (Nat.max max.toNat 1 - acc.length) := by
  induction rows generalizing acc with
  | nil => simp [recvLoop]
  | cons row rest ih =>
    by_cases hrow : sel row = true
    · obtain ⟨k, hk⟩ : ∃ k, Nat.max max.toNat 1 - acc.length = k + 1 :=
        ⟨_, (Nat.succ_pred_eq_of_pos (by omega)).symm⟩
      simp only [recvLoop, hrow, ↓reduceIte, List.filter_cons, hk, List.take_succ_cons]
      split
      · rename_i hmax
        -- the row just taken fills the quota
        have hk0 : k = 0 := by
          have hmax' : max.toNat ≤ acc.length + 1 := by simpa using hmax
          have : Nat.max max.toNat 1 ≤ acc.length + 1 := Nat.max_le.2 ⟨hmax', by omega⟩
          omega
        simp [hk0]
      · rename_i hmax
        have hlt : (acc ++ [row]).length < Nat.max max.toNat 1 :=
          lt_of_lt_of_le (by omega) (Nat.le_max_left max.toNat 1)
        rw [ih _ hlt, List.length_append, List.length_singleton,
          show Nat.max max.toNat 1 - (acc.length + 1) = k by omega]
        simp
    · simp [recvLoop, hrow, ih acc hacc]

theorem eligibleRows_eq (a : AgentId) (channels : Option (List Channel)) (patterns : List Pattern)
    (max : Int) (rows : List StoredMessage) : eligibleRows a channels patterns max rows =
      (inbox (wants channels patterns) a rows).take (Nat.max max.toNat 1) := by
  rw [eligibleRows, recvLoop_eq _ _ _ _ (Nat.lt_of_lt_of_le Nat.one_pos (Nat.le_max_right ..)),
    List.nil_append]
  rfl

/-- One `UPDATE` with the list as it was read delivers the row to the agent, if the row still has
that list. -/
theorem markRow_eq (hfresh : ∀ m ∈ db.messages, m.id = row.id → m.deliveredTo = row.deliveredTo)
    (ha : a ∉ row.deliveredTo) :
    db.markRow a row = { db with messages := markDelivered a [row.id] db.messages } := by
  simp only [markRow, updateDelivered, markDelivered, markWhere, List.mem_singleton, decide_eq_true_eq,
    SqliteDb.mk.injEq, and_true]
  refine List.map_congr_left fun m hm => ?_
  split
  · rename_i hid
    have hlist := hfresh m hm hid
    rw [StoredMessage.deliver, if_neg (hlist ▸ ha), hlist]
  · rfl

theorem foldl_markRow (hnd : (db.messages.map (·.id)).Nodup) (hp : (p.map (·.id)).Nodup)
    (hsub : ∀ m ∈ p, m ∈ db.messages ∧ a ∉ m.deliveredTo) :
    p.foldl (markRow a) db = { db with messages := markDelivered a (p.map (·.id)) db.messages } := by
  induction p generalizing db with
  | nil => simp [markDelivered, markWhere]
  | cons row p ih =>
    obtain ⟨hrow, ha⟩ := hsub row (by simp)
    have hmark : db.markRow a row = _ :=
      markRow_eq (fun m hm hid => List.inj_on_of_nodup_map hnd hm hrow hid ▸ rfl) ha
    rw [List.map_cons, List.nodup_cons] at hp
    rw [List.foldl_cons, ih ?_ hp.2 ?_, hmark]
    · simp only [SqliteDb.mk.injEq, and_true, List.map_cons, markDelivered]
      rw [markWhere_markWhere _ _ fun _ => by simp]
      simp [Bool.decide_or]
    · rw [hmark]
      simpa only [markDelivered, markWhere_ids] using hnd
    · -- the other rows still stand as they were read
      intro m hm
      obtain ⟨hm', ham⟩ := hsub m (by simp [hm])
      have hne : m.id ≠ row.id := fun he => hp.1 (he ▸ List.mem_map_of_mem hm)
      refine ⟨?_, ham⟩
      rw [hmark]
      exact List.mem_map.2 ⟨m, hm', by simp [hne]⟩

def pending (db : SqliteDb) (a : AgentId) (channels : Option (List Channel)) : List StoredMessage :=
  inbox (wants channels (db.patternsFor a)) a (sortMessages db.messages)

theorem mem_pending {m : StoredMessage} (h : m ∈ db.pending a channels) :
    m ∈ db.messages ∧ a ∉ m.deliveredTo := by
  obtain ⟨hm, ha, -⟩ := mem_inbox.1 h
  exact ⟨mem_sortMessages.1 hm, ha⟩

theorem pending_ids_nodup (hnd : (db.messages.map (·.id)).Nodup) :
    ((db.pending a channels).map (·.id)).Nodup :=
  inbox_ids_nodup ((((sortMessages_perm _).map _).nodup_iff).2 hnd)

/-- What one `recv` takes; one that asks for no message takes one. -/
def drained (db : SqliteDb) (a : AgentId) (channels : Option (List Channel)) (max : Int) :
    List StoredMessage :=
  (db.pending a channels).take (Nat.max max.toNat 1)

theorem drained_ids_nodup (hnd : (db.messages.map (·.id)).Nodup) :
    ((db.drained a channels max).map (·.id)).Nodup :=
  (pending_ids_nodup hnd).sublist ((List.take_sublist ..).map _)

theorem recv_eq (hnd : (db.messages.map (·.id)).Nodup) : db.recv a channels max =
    ((db.drained a channels max).map (·.toWire),
      { db with messages := markDelivered a ((db.drained a channels max).map (·.id)) db.messages }) := by
  have hrows : ∀ patterns, wants channels patterns = wants channels (db.patternsFor a) →
      eligibleRows a channels patterns max (sortMessages db.messages) = db.drained a channels max := by
    intro patterns hw
    rw [eligibleRows_eq, hw]
    rfl
  have hmark : (db.drained a channels max).foldl (markRow a) db = _ :=
    foldl_markRow hnd (drained_ids_nodup hnd) fun m hm => mem_pending (List.mem_of_mem_take hm)
  cases channels with
  | some cs =>
    simp only [recv, Option.isNone_some, Bool.false_eq_true, ↓reduceIte, Bool.false_and]
    rw [hrows [] rfl, hmark]
  | none =>
    simp only [recv, Option.isNone_none, ↓reduceIte, Bool.true_and]
    split
    · -- without patterns nothing is pending
      rename_i he
      have hnone : db.drained a none max = [] := by
        simp [drained, pending, inbox, StoredMessage.awaits, wants, List.isEmpty_iff.1 he]
      simp [hnone, markDelivered, markWhere]
    · rw [hrows _ rfl, hmark]

theorem clearRows_eq (removed : List Pattern) (rows : List StoredMessage) (db : SqliteDb) :
    clearRows a removed rows db =
      ((inbox (fun ch => removed.any (Glob.fnmatchcase ch)) a rows).length,
        (inbox (fun ch => removed.any (Glob.fnmatchcase ch)) a rows).foldl (markRow a) db) := by
  suffices ∀ (rows : List StoredMessage) (n : Nat) (db : SqliteDb),
      rows.foldl (fun (x : Nat × SqliteDb) row =>
        if row.awaits (fun ch => removed.any (Glob.fnmatchcase ch)) a then
          (x.1 + 1, x.2.markRow a row)
        else x) (n, db) =
        (n + (inbox (fun ch => removed.any (Glob.fnmatchcase ch)) a rows).length,
          (inbox (fun ch => removed.any (Glob.fnmatchcase ch)) a rows).foldl (markRow a) db) by
    simpa [clearRows] using this rows 0 db
  intro rows
  induction rows with
  | nil => simp [inbox]
  | cons row rest ih =>
    intro n db
    rw [List.foldl_cons]
    by_cases hrow : row.awaits (fun ch => removed.any (Glob.fnmatchcase ch)) a = true
    · simp only [hrow, ↓reduceIte, ih, inbox, List.filter_cons, List.length_cons, List.foldl_cons]
      rw [Nat.add_assoc, Nat.add_comm 1]
    · simp only [hrow, Bool.false_eq_true, ↓reduceIte, ih, inbox, List.filter_cons]

theorem foldl_deleteSubscription (removed : List Pattern) (db : SqliteDb) :
    removed.foldl (fun db p => db.deleteSubscription a p) db =
      { db with subscriptions := db.subscriptions.filter fun row =>
        !(row.1 == a && removed.contains row.2) } := by
  induction removed generalizing db with
  | nil => simp
  | cons p removed ih =>
    rw [List.foldl_cons, ih, deleteSubscription]
    simp only [SqliteDb.mk.injEq, and_true, true_and, List.filter_filter]
    refine List.filter_congr fun row _ => ?_
    obtain ⟨b, q⟩ := row
    by_cases hb : b = a <;> by_cases hq : q = p <;> simp [hb, hq]

/-- Whether `unsubscribe` discards what is pending on the channel: a removed pattern matches it. -/
def clearedBy (db : SqliteDb) (a : AgentId) (patterns : List Pattern) (c : Channel) : Bool :=
  ((db.patternsFor a).filter (· ∈ patterns)).any (Glob.fnmatchcase c)

theorem unsubscribe_eq (hnd : (db.messages.map (·.id)).Nodup) : db.unsubscribe a patterns =
    let cleared := inbox (db.clearedBy a patterns) a db.messages
    let removed := (db.patternsFor a).filter (· ∈ patterns)
    ((removed, cleared.length),
      { db with
        messages := markDelivered a (cleared.map (·.id)) db.messages
        subscriptions := db.subscriptions.filter fun row =>
          !(row.1 == a && removed.contains row.2) }) := by
  simp only [unsubscribe]
  split
  · rename_i he
    have hnil := List.isEmpty_iff.1 he
    have hcl : inbox (db.clearedBy a patterns) a db.messages = [] := by
      simp [inbox, StoredMessage.awaits, clearedBy, hnil]
    simp [hnil, hcl, markDelivered, markWhere]
  · rw [clearRows_eq, foldl_deleteSubscription]
    refine Prod.ext rfl ?_
    exact foldl_markRow hnd (inbox_ids_nodup hnd) fun m hm => ⟨(mem_inbox.1 hm).1, (mem_inbox.1 hm).2.1⟩

/-- What an operation does to the messages and their counter. -/
inductive Effect (db : SqliteDb) : SqliteDb → Prop
  | append {db' : SqliteDb} (now : ℚ) (args : SendArgs)
      (messages : db'.messages = db.messages ++ [db.newRow now args (db.nextSeq args.channel)])
      (counter : db'.autoincrement = db.autoincrement + 1) : Effect db db'
  | mark {db' : SqliteDb} (a : AgentId) (sel : StoredMessage → Bool)
      (messages : db'.messages = markWhere a sel db.messages)
      (counter : db'.autoincrement = db.autoincrement) : Effect db db'

theorem Effect.of_same (hm : db'.messages = db.messages)
    (hc : db'.autoincrement = db.autoincrement) : Effect db db' :=
  .mark "" (fun _ => false) (hm.trans markWhere_none.symm) hc

theorem newRow_fresh (h : Inv db) (now : ℚ) (args : SendArgs) (seq : Nat) :
    ∀ m ∈ db.messages, m.id < (db.newRow now args seq).id := fun m hm => Nat.lt_succ_of_le (h.top m hm)

/-- A row with the next id is stored, whatever its sequence number. -/
theorem Inv.append (h : Inv db) {now : ℚ} {args : SendArgs} {seq : Nat}
    (hm : db'.messages = db.messages ++ [db.newRow now args seq])
    (hc : db'.autoincrement = db.autoincrement + 1) : Inv db' := by
  have hlt := newRow_fresh h now args seq
  refine ⟨?_, ?_, ?_⟩
  · rw [hm, List.map_append, List.pairwise_append]
    refine ⟨h.ids, List.pairwise_singleton .., ?_⟩
    intro i hi j hj
    obtain ⟨m, hmm, rfl⟩ := List.mem_map.1 hi
    rw [List.mem_singleton.1 hj]
    exact hlt m hmm
  · rw [hm, hc]
    intro m hmm
    rcases List.mem_append.1 hmm with hmm | hmm
    · exact (h.top m hmm).trans (Nat.le_succ _)
    · exact List.mem_singleton.1 hmm ▸ Nat.le_refl _
  · rw [hm]
    intro m hmm
    rcases List.mem_append.1 hmm with hmm | hmm
    · exact h.pos m hmm
    · exact List.mem_singleton.1 hmm ▸ Nat.succ_pos _

theorem Inv.effect (h : Inv db) (he : Effect db db') : Inv db' := by
  cases he with
  | append now args hm hc => exact h.append hm hc
  | mark a sel hm hc =>
    have hids : ∀ m ∈ db'.messages, ∃ n ∈ db.messages, n.id = m.id := by
      rw [hm]
      intro m hmm
      exact List.mem_map.1 (markWhere_ids ▸ List.mem_map_of_mem (f := (·.id)) hmm)
    refine ⟨by rw [hm, markWhere_ids]; exact h.ids, fun m hmm => ?_, fun m hmm => ?_⟩
    · obtain ⟨n, hn, hid⟩ := hids m hmm
      exact hc ▸ hid ▸ h.top n hn
    · obtain ⟨n, hn, hid⟩ := hids m hmm
      exact hid ▸ h.pos n hn

theorem nextSeq_eq (h : Gapless db.messages) : db.nextSeq c = (onChannel c db.messages).length + 1 := by
  rw [nextSeq, h c]
  cases (onChannel c db.messages).length with
  | zero => rfl
  | succ n => rw [foldr_max_range']; omega

theorem gapless_effect (h : Gapless db.messages) (he : Effect db db') : Gapless db'.messages := by
  cases he with
  | append now args hm hc => exact hm ▸ h.append (nextSeq_eq h)
  | mark a sel hm hc => exact hm ▸ h.markWhere

@[simp] theorem insertSubscription_messages (p : Pattern) :
    (db.insertSubscription a p).messages = db.messages := by
  rw [insertSubscription]
  split <;> rfl

@[simp] theorem insertSubscription_autoincrement (p : Pattern) :
    (db.insertSubscription a p).autoincrement = db.autoincrement := by
  rw [insertSubscription]
  split <;> rfl

theorem insertSubscription_effect (p : Pattern) : Effect db (db.insertSubscription a p) :=
  .of_same (insertSubscription_messages p) (insertSubscription_autoincrement p)

/-! ### Patterns -/

theorem mem_patternsFor {p : Pattern} : p ∈ db.patternsFor a ↔ (a, p) ∈ db.subscriptions := by
  simp [patternsFor]

theorem patternsFor_insertSubscription (p : Pattern) : (db.insertSubscription a p).patternsFor b =
    if b = a then if p ∈ db.patternsFor a then db.patternsFor a else db.patternsFor a ++ [p]
    else db.patternsFor b := by
  by_cases hb : b = a
  · subst hb
    rw [if_pos rfl, insertSubscription]
    by_cases hp : (b, p) ∈ db.subscriptions
    · rw [if_pos hp, if_pos (mem_patternsFor.2 hp)]
    · rw [if_neg hp, if_neg (mt mem_patternsFor.1 hp)]
      simp [patternsFor]
  · rw [if_neg hb, insertSubscription]
    split
    · rfl
    · simp [patternsFor, Ne.symm hb]

theorem mem_patternsFor_insertSubscription {p q : Pattern} :
    p ∈ (db.insertSubscription a q).patternsFor b ↔ p ∈ db.patternsFor b ∨ (b = a ∧ p = q) := by
  rw [mem_patternsFor, mem_patternsFor, insertSubscription]
  split
  · rename_i hq
    exact ⟨.inl, fun h => h.elim id fun hp => by rw [hp.1, hp.2]; exact hq⟩
  · simp

theorem mem_patternsFor_deleteSubscription {p q : Pattern} :
    p ∈ (db.deleteSubscription a q).patternsFor b ↔ p ∈ db.patternsFor b ∧ ¬(b = a ∧ p = q) := by
  rw [mem_patternsFor, mem_patternsFor, deleteSubscription, List.mem_filter,
    decide_eq_true_eq, ne_eq, Prod.mk.injEq]

theorem patternsFor_unsubscribe_self (hnd : (db.messages.map (·.id)).Nodup) :
    (db.unsubscribe a patterns).2.patternsFor a = (db.patternsFor a).filter (· ∉ patterns) := by
  -- a row of the agent stays when its pattern is not among the removed ones
  have hkeep : ∀ row ∈ db.subscriptions, row.1 = a →
      (row.2 ∈ (db.patternsFor a).filter (· ∈ patterns) ↔ row.2 ∈ patterns) := by
    intro row hrow ha
    have hp : row.2 ∈ db.patternsFor a := mem_patternsFor.2 (ha ▸ hrow)
    simp [hp]
  rw [unsubscribe_eq hnd]
  generalize (db.patternsFor a).filter (· ∈ patterns) = removed at hkeep
  simp only [patternsFor, List.filter_filter, List.filter_map]
  congr 1
  refine List.filter_congr fun row hrow => ?_
  by_cases ha : row.1 = a
  · simp [ha, hkeep row hrow ha]
  · simp [ha]

theorem patternsFor_unsubscribe_other (hnd : (db.messages.map (·.id)).Nodup) (hb : b ≠ a) :
    (db.unsubscribe a patterns).2.patternsFor b = db.patternsFor b := by
  rw [unsubscribe_eq hnd]
  simp only [patternsFor, List.filter_filter]
  congr 1
  refine List.filter_congr fun row _ => ?_
  by_cases hrow : row.1 = b
  · simp [hrow, hb]
  · simp [hrow]

end SqliteDb

namespace SqliteStore

open SqliteDb

variable {s : SqliteStore} {a : AgentId} {channels : Option (List Channel)} {max : Int}

theorem apply_effect (op : StoreOp) (s : SqliteStore) (h : s.db.Inv) :
    s.db.Effect (sqliteStore.apply op s).db := by
  cases op with
  | send now args => exact .append now args rfl rfl
  | heartbeat now sendNow a status ttl => exact .append sendNow (presenceArgs a status now) rfl rfl
  | recv a channels max =>
    show s.db.Effect (s.db.recv a channels max).2
    rw [recv_eq h.ids_nodup]
    exact .mark a _ rfl rfl
  | unsubscribe a patterns =>
    show s.db.Effect (s.db.unsubscribe a patterns).2
    rw [unsubscribe_eq h.ids_nodup]
    exact .mark a _ rfl rfl
  | groupInvite now a gid b =>
    show s.db.Effect (s.groupInvite now a gid b).2.db
    rw [groupInvite]
    split <;> exact .of_same rfl rfl
  | subscribe a p => exact insertSubscription_effect p
  | groupCreate now a gid => exact insertSubscription_effect _
  | groupJoin now a gid => exact insertSubscription_effect gid
  | ack | groupLeave => exact .of_same rfl rfl

theorem inv_apply (op : StoreOp) (s : SqliteStore) (h : s.db.Inv) : (sqliteStore.apply op s).db.Inv :=
  h.effect (apply_effect op s h)

theorem inv_init : SqliteStore.init.db.Inv := ⟨.nil, by simp [init, opened], by simp [init, opened]⟩

theorem inv_reachable (ops : List StoreOp) : (sqliteStore.applyAll ops SqliteStore.init).db.Inv :=
  BackingStore.applyAll_invariant (I := fun s : SqliteStore => s.db.Inv) inv_apply ops inv_init

/-- A single process numbers the messages of every channel 1, …, n. -/
theorem gapless_reachable (ops : List StoreOp) :
    Gapless (sqliteStore.applyAll ops SqliteStore.init).db.messages := by
  have hstep : ∀ op (s : SqliteStore), s.db.Inv ∧ Gapless s.db.messages →
      (sqliteStore.apply op s).db.Inv ∧ Gapless (sqliteStore.apply op s).db.messages := by
    rintro op s ⟨hinv, hgap⟩
    exact ⟨inv_apply op s hinv, gapless_effect hgap (apply_effect op s hinv)⟩
  exact (BackingStore.applyAll_invariant (I := fun s : SqliteStore => s.db.Inv ∧ Gapless s.db.messages)
    hstep ops ⟨inv_init, fun _ => rfl⟩).2

/-! ### Deliveries -/

theorem recv_takes (h : s.db.Inv) :
    (ledger s.db.messages).Takes a ((s.db.recv a channels max).1.map (·.messageId))
    (ledger (s.db.recv a channels max).2.messages) := by
  simp only [recv_eq h.ids_nodup, List.map_map]
  exact ledger_drain_takes h.ids_nodup (drained_ids_nodup h.ids_nodup) fun m hm =>
    mem_pending (List.mem_of_mem_take hm)

theorem unsubscribe_takes (h : s.db.Inv) (patterns : List Pattern) :
    (ledger s.db.messages).Takes a ((inbox (s.db.clearedBy a patterns) a s.db.messages).map (·.id))
      (ledger (s.db.unsubscribe a patterns).2.messages) := by
  rw [unsubscribe_eq h.ids_nodup]
  exact ledger_drain_takes h.ids_nodup (inbox_ids_nodup h.ids_nodup) fun m hm =>
    ⟨(mem_inbox.1 hm).1, (mem_inbox.1 hm).2.1⟩

/-- Every operation of a process that has the database to itself is a sequence of ledger events. -/
theorem delivers : Delivers sqliteStore (fun s : SqliteStore => s.db.Inv) fun s : SqliteStore =>
    ledger s.db.messages where
  keeps := inv_apply
  events op s h := by
    have quiet : (sqliteStore.apply op s).db.messages = s.db.messages →
      (∀ a, sqliteStore.received a op s = []) →
        ∃ es, (ledger s.db.messages).Steps es (ledger (sqliteStore.apply op s).db.messages) ∧
          ∀ a, Ledger.handed a es = (sqliteStore.received a op s).map (·.messageId) := fun hm hr =>
      ⟨[], hm ▸ .nil, fun a => by rw [hr a]; rfl⟩
    have hfresh : ∀ now args seq, (s.db.newRow now args seq).id ∉ s.db.messages.map (·.id) := by
      intro now args seq hmem
      obtain ⟨m, hm, he⟩ := List.mem_map.1 hmem
      exact absurd (newRow_fresh h now args seq m hm) (he ▸ Nat.lt_irrefl _)
    cases op with
    | send now args =>
      exact ⟨[.post (s.db.autoincrement + 1)],
        .single (ledger_append_step (hfresh now args _) rfl), fun _ => rfl⟩
    | heartbeat now sendNow a status ttl =>
      exact ⟨[.post (s.db.autoincrement + 1)],
        .single (ledger_append_step (hfresh sendNow (presenceArgs a status now) _) rfl), fun _ => rfl⟩
    | recv a channels max =>
      refine ⟨[.hand a ((s.db.recv a channels max).1.map (·.messageId))],
        .single (.hand (recv_takes h)), fun b => ?_⟩
      show (if a = b then _ else []) ++ [] =
        (if a = b then (s.db.recv a channels max).1 else []).map (·.messageId)
      split <;> simp
    | unsubscribe a patterns =>
      exact ⟨[.drop a ((inbox (s.db.clearedBy a patterns) a s.db.messages).map (·.id))],
        .single (.drop (unsubscribe_takes h patterns)), fun _ => rfl⟩
    | groupInvite now a gid b =>
      refine quiet ?_ fun _ => rfl
      show (s.groupInvite now a gid b).2.db.messages = s.db.messages
      rw [groupInvite]
      split <;> rfl
    | subscribe | groupCreate | groupJoin => exact quiet (insertSubscription_messages _) fun _ => rfl
    | ack | groupLeave => exact quiet rfl fun _ => rfl

/-! ### The store as a mailbox -/

def mailbox : Mailbox sqliteStore where
  messages s := s.db.messages
  patterns s := s.db.patternsFor
  scan := sortMessages
  cap max := Nat.max max.toNat 1
  Inv s := s.db.Inv

theorem fetchNew_perm (s : SqliteStore) (a : AgentId) (last : Nat) :
    (s.db.fetchNew a last).Perm (mailbox.unseen s a last) := by
  have hsort : ((sortMessages (s.db.messages.filter fun m => decide (last < m.id))).filter
      (·.awaits (wants none (s.db.patternsFor a)) a)).Perm (mailbox.unseen s a last) := by
    have hunseen : mailbox.unseen s a last = (s.db.messages.filter fun m => decide (last < m.id)).filter
        (·.awaits (wants none (s.db.patternsFor a)) a) := by
      rw [List.filter_filter]
      exact List.filter_congr fun m _ => Bool.and_comm ..
    rw [hunseen]
    exact (sortMessages_perm _).filter _
  simp only [fetchNew]
  split
  · rename_i he
    have hnil : mailbox.unseen s a last = [] := by
      have hp : mailbox.patterns s a = [] := List.isEmpty_iff.1 he
      simp [Mailbox.unseen, StoredMessage.awaits, wants, hp]
    rw [hnil]
  · exact hsort

theorem foldl_mark (l : List StoredMessage) (last : Nat) :
    (l.map (·.toWire)).foldl (fun last m => if last < m.messageId then m.messageId else last) last =
      Nat.max last (maxId l) := by
  induction l generalizing last with
  | nil => simp [maxId]
  | cons m l ih =>
    have hstep : (if last < m.toWire.messageId then m.toWire.messageId else last) =
      Nat.max last m.id := by
      rw [StoredMessage.toWire_messageId]
      split
      · rename_i h; exact (Nat.max_eq_right h.le).symm
      · rename_i h; exact (Nat.max_eq_left (not_lt.1 h)).symm
    rw [List.map_cons, List.foldl_cons, hstep, ih]
    exact Nat.max_assoc ..

theorem mailbox_lawful : mailbox.Lawful where
  keeps := inv_apply
  scan_perm := sortMessages_perm
  ids _ h := h.ids
  pos _ h := h.pos
  send now args s h := ⟨_, rfl, newRow_fresh h now args _, rfl, rfl⟩
  recv a channels max s h := by
    refine ⟨s.db.drained a channels max, .refl _, ?_⟩
    have heq : s.db.recv a channels max = _ := recv_eq h.ids_nodup
    exact ⟨congrArg Prod.fst heq, congrArg (fun r => r.2.messages) heq,
      funext fun b => congrArg (fun r => r.2.patternsFor b) heq⟩
  watchStart a s := rfl
  watchPoll a last s := ⟨s.db.fetchNew a last, fetchNew_perm s a last, rfl, foldl_mark _ _⟩

end SqliteStore

end Sox
