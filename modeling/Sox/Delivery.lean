import Sox.BackingStore
import Sox.Lib.Ledger

/-!
# Stores as delivery ledgers

`ledger l` reads a message list as a `Ledger`: what is posted, and per agent what is marked
delivered. `Delivers B I L` says that every operation of the store `B`, from a state with the
invariant `I`, is a sequence of ledger events that hands to each agent exactly what the operation
returns to it. Exactly-once delivery over whole histories is then the ledger's
(`Delivers.receivedAll_nodup`).

`Mailbox B` reads a store as a list of messages with patterns for each agent, and `Mailbox.Lawful`
says what `send`, `recv` and `watch` do to it. Both stores are lawful mailboxes; the listener, the
restart of `watch` and the stop hook are studied over an arbitrary one.
-/

namespace Sox

def ledger (l : List StoredMessage) : Ledger AgentId Nat where
  posted := {i | i ∈ l.map (·.id)}
  taken := fun a => {i | ∃ m ∈ l, m.id = i ∧ a ∈ m.deliveredTo}

section
variable {a b : AgentId} {sel : StoredMessage → Bool} {want : Channel → Bool} {ids : List Nat}
  {l : List StoredMessage} {m : StoredMessage}

theorem ledger_append_step (hid : m.id ∉ l.map (·.id)) (hm : m.deliveredTo = []) :
    (ledger l).Step (.post m.id) (ledger (l ++ [m])) := by
  refine .post hid ?_ ?_
  · ext i; simp [ledger, or_comm, eq_comm]
  · funext a; ext i; simp [ledger, hm, or_and_right, exists_or]

/-- Marking takes `ids` when these are the ids of the messages selected and not yet delivered. -/
theorem ledger_mark_takes (hnd : ids.Nodup) (hsub : ∀ i ∈ ids, i ∈ l.map (·.id))
    (hsel : ∀ m ∈ l, m.id ∈ ids ↔ sel m = true ∧ a ∉ m.deliveredTo) :
    (ledger l).Takes a ids (ledger (markWhere a sel l)) where
  nodup := hnd
  fresh i hi := by
    refine ⟨hsub i hi, ?_⟩
    rintro ⟨m, hm, rfl, ha⟩
    exact ((hsel m hm).1 hi).2 ha
  posted := by simp [ledger]
  taken i := by
    simp only [ledger, Set.mem_ofPred_eq, exists_markWhere, true_and]
    constructor
    · rintro ⟨m, hm, rfl, h⟩
      by_cases ha : a ∈ m.deliveredTo
      · exact .inl ⟨m, hm, rfl, ha⟩
      · exact .inr ((hsel m hm).2 ⟨h.resolve_left ha, ha⟩)
    · rintro (⟨m, hm, rfl, ha⟩ | hi)
      · exact ⟨m, hm, rfl, .inl ha⟩
      · obtain ⟨m, hm, rfl⟩ := List.mem_map.1 (hsub i hi)
        exact ⟨m, hm, rfl, .inr ((hsel m hm).1 hi).1⟩
  frame b hb := by
    ext i
    simp only [ledger, Set.mem_ofPred_eq, exists_markWhere, hb, false_and, or_false]

theorem id_mem_ids_iff (hnd : (l.map (·.id)).Nodup) (hm : m ∈ l) {p : List StoredMessage} (hp : p ⊆ l) :
    m.id ∈ p.map (·.id) ↔ m ∈ p := by
  refine ⟨fun h => ?_, fun h => List.mem_map_of_mem h⟩
  obtain ⟨n, hn, he⟩ := List.mem_map.1 h
  exact List.inj_on_of_nodup_map hnd (hp hn) hm he ▸ hn

/-- Marking the messages of an inbox by their ids marks what is wanted. -/
theorem markDelivered_inbox (hnd : (l.map (·.id)).Nodup) :
    markDelivered a ((inbox want a l).map (·.id)) l = markWhere a (fun m => want m.channel) l := by
  rw [← markWhere_awaits]
  refine List.map_congr_left fun m hm => ?_
  have hmem : m.id ∈ (inbox want a l).map (·.id) ↔ m.awaits want a = true := by
    rw [id_mem_ids_iff hnd hm inbox_sublist.subset, inbox, List.mem_filter]
    exact and_iff_right hm
  simp only [hmem, Bool.decide_eq_true]

theorem mem_take_iff_idxOf (hnd : (l.map (·.id)).Nodup) (hm : m ∈ l) (k : Nat) :
    m ∈ l.take k ↔ (l.map (·.id)).idxOf m.id < k := by
  rw [← id_mem_ids_iff hnd hm (List.take_subset ..), List.map_take]
  exact List.mem_take_iff_idxOf_lt (List.mem_map_of_mem hm)

theorem ledger_drain_takes (hnd : (l.map (·.id)).Nodup) {p : List StoredMessage}
    (hp : (p.map (·.id)).Nodup) (hsub : ∀ m ∈ p, m ∈ l ∧ a ∉ m.deliveredTo) :
    (ledger l).Takes a (p.map (·.id)) (ledger (markDelivered a (p.map (·.id)) l)) := by
  refine ledger_mark_takes hp ?_ fun m hm => ?_
  · intro i hi
    obtain ⟨n, hn, rfl⟩ := List.mem_map.1 hi
    exact List.mem_map_of_mem (hsub n hn).1
  · rw [decide_eq_true_eq, iff_self_and, id_mem_ids_iff hnd hm fun n hn => (hsub n hn).1]
    exact fun h => (hsub m h).2

theorem ledger_discard_takes (hnd : (l.map (·.id)).Nodup) :
    (ledger l).Takes a ((inbox want a l).map (·.id))
      (ledger (markWhere a (fun m => want m.channel) l)) := by
  refine ledger_mark_takes (inbox_ids_nodup hnd)
    (fun i hi => (inbox_sublist.map _).subset hi) fun m hm => ?_
  rw [id_mem_ids_iff hnd hm inbox_sublist.subset, mem_inbox]
  simp [hm, and_comm]

end

/-! ### Histories -/

/-- One operation as ledger events. -/
structure Delivers {σ : Type} (B : BackingStore σ) (I : σ → Prop) (L : σ → Ledger AgentId Nat) :
    Prop where
  keeps : ∀ op s, I s → I (B.apply op s)
  events : ∀ op s, I s → ∃ es, (L s).Steps es (L (B.apply op s)) ∧
    ∀ a, Ledger.handed a es = (B.received a op s).map (·.messageId)

namespace Delivers

variable {σ : Type} {B : BackingStore σ} {I : σ → Prop} {L : σ → Ledger AgentId Nat}

/-- A history is a sequence of ledger events handing over what its `recv` calls return. -/
theorem history (h : Delivers B I L) (ops : List StoreOp) {s : σ} (hs : I s) :
    ∃ es, (L s).Steps es (L (B.applyAll ops s)) ∧
      ∀ a, Ledger.handed a es = (B.receivedAll a ops s).map (·.messageId) := by
  induction ops generalizing s with
  | nil => exact ⟨[], .nil, fun _ => rfl⟩
  | cons op ops ih =>
    obtain ⟨es, hes, hrecv⟩ := h.events op s hs
    obtain ⟨fs, hfs, hrest⟩ := ih (h.keeps op s hs)
    refine ⟨es ++ fs, hes.append hfs, fun a => ?_⟩
    rw [Ledger.handed, List.flatMap_append, BackingStore.receivedAll, List.map_append]
    exact congrArg₂ _ (hrecv a) (hrest a)

theorem receivedAll_nodup (h : Delivers B I L) (a : AgentId) (ops : List StoreOp) {s : σ} (hs : I s) :
    ((B.receivedAll a ops s).map (·.messageId)).Nodup := by
  obtain ⟨es, hes, hrecv⟩ := h.history ops hs
  exact hrecv a ▸ (hes.handed_nodup a).1

end Delivers

/-! ### Mailboxes -/

structure Mailbox {σ : Type} (B : BackingStore σ) where
  messages : σ → List StoredMessage
  patterns : σ → AgentId → List Pattern
  /-- The order in which `recv` looks at the messages. -/
  scan : List StoredMessage → List StoredMessage
  /-- How many messages a `recv` with the given `max_messages` takes at most. -/
  cap : Int → Nat
  Inv : σ → Prop

namespace Mailbox

variable {σ : Type} {B : BackingStore σ} (X : Mailbox B) {s : σ} {a : AgentId}
  {channels : Option (List Channel)} {max : Int} {last : Nat} {m : StoredMessage}

/-- What the agent can drain with the given `channels` argument, in the order of the scan. -/
def pending (s : σ) (a : AgentId) (channels : Option (List Channel)) : List StoredMessage :=
  inbox (wants channels (X.patterns s a)) a (X.scan (X.messages s))

/-- What a poll of `watch` with the mark `last` yields. -/
def unseen (s : σ) (a : AgentId) (last : Nat) : List StoredMessage :=
  (X.messages s).filter fun m => decide (last < m.id) && m.awaits (wants none (X.patterns s a)) a

structure Lawful : Prop where
  keeps : ∀ op s, X.Inv s → X.Inv (B.apply op s)
  scan_perm : ∀ l, (X.scan l).Perm l
  ids : ∀ s, X.Inv s → ((X.messages s).map (·.id)).Pairwise (· < ·)
  pos : ∀ s, X.Inv s → ∀ m ∈ X.messages s, 0 < m.id
  send : ∀ now args s, X.Inv s → ∃ m, X.messages (B.send now args s).2 = X.messages s ++ [m] ∧
    (∀ n ∈ X.messages s, n.id < m.id) ∧ m.deliveredTo = [] ∧
    X.patterns (B.send now args s).2 = X.patterns s
  recv : ∀ a channels max s, X.Inv s → ∃ p : List StoredMessage,
    p.Perm ((X.pending s a channels).take (X.cap max)) ∧
    (B.recv a channels max s).1 = p.map (·.toWire) ∧
    X.messages (B.recv a channels max s).2 = markDelivered a (p.map (·.id)) (X.messages s) ∧
    X.patterns (B.recv a channels max s).2 = X.patterns s
  watchStart : ∀ a s, B.watchStart a s = maxId ((X.messages s).filter fun m => decide (a ∈ m.deliveredTo))
  watchPoll : ∀ a last s, ∃ p : List StoredMessage, p.Perm (X.unseen s a last) ∧
    (B.watchPoll a last s).1 = p.map (·.toWire) ∧
    (B.watchPoll a last s).2 = Nat.max last (maxId p)

end Mailbox

theorem maxId_perm {l l' : List StoredMessage} (h : l.Perm l') : maxId l = maxId l' :=
  (h.map StoredMessage.id).foldr_eq' (fun x _ y _ z => Nat.max_left_comm y x z) 0

theorem le_maxId {l : List StoredMessage} {m : StoredMessage} (h : m ∈ l) : m.id ≤ maxId l := by
  induction l with
  | nil => simp at h
  | cons n l ih =>
    simp only [maxId, List.map_cons, List.foldr_cons]
    rcases List.mem_cons.1 h with rfl | h
    · exact Nat.le_max_left ..
    · exact (ih h).trans (Nat.le_max_right ..)

theorem maxId_lt {l : List StoredMessage} {k : Nat} (hk : 0 < k) (h : ∀ m ∈ l, m.id < k) :
    maxId l < k := by
  induction l with
  | nil => exact hk
  | cons n l ih =>
    simp only [maxId, List.map_cons, List.foldr_cons]
    exact max_lt (h n (by simp)) (ih fun m hm => h m (by simp [hm]))

theorem maxId_mem (l : List StoredMessage) : l = [] ∧ maxId l = 0 ∨ ∃ m ∈ l, m.id = maxId l := by
  induction l with
  | nil => exact .inl ⟨rfl, rfl⟩
  | cons n l ih =>
    refine .inr ?_
    simp only [maxId, List.map_cons, List.foldr_cons] at ih ⊢
    rcases Nat.le_total n.id ((l.map (·.id)).foldr max 0) with hle | hle
    · rw [Nat.max_eq_right hle]
      rcases ih with ⟨rfl, -⟩ | ⟨m, hm, he⟩
      · exact ⟨n, by simp, by simpa using hle⟩
      · exact ⟨m, by simp [hm], he⟩
    · exact ⟨n, by simp, (Nat.max_eq_left hle).symm⟩

end Sox
