import Sox.MemoryInv
import Sox.SqliteInv

/-!
# Restarting `watch`

A new `watch` starts above the highest id delivered to the agent so far. `watchUntilQuiet` polls it
until a poll yields nothing. What the restarted watch owes is everything the agent has pending, once
(`WatchComplete`); it pays exactly when no pending message is older than a delivered one, since
`recv` by channel, a `max_messages` smaller than the inbox or a later subscription deliver out of id
order.
-/

namespace Sox

variable {σ : Type} {B : BackingStore σ}

/-- Polls with the mark `last` until a poll yields nothing; `none` when `fuel` polls are not
enough. -/
def BackingStore.watchUntilQuiet (B : BackingStore σ) (a : AgentId) (s : σ) : Nat → Nat →
    Option (List Message)
  | 0, _ => none
  | fuel + 1, last =>
    let (msgs, last') := B.watchPoll a last s
    if msgs.isEmpty then some [] else (B.watchUntilQuiet a s fuel last').map (msgs ++ ·)

namespace Mailbox

variable {X : Mailbox B} {s : σ} {a : AgentId}

/-- A watch started now and polled until it is quiet yields everything pending, once. -/
def WatchComplete (X : Mailbox B) (fuel : Nat) (a : AgentId) (s : σ) : Prop :=
  ∃ out, B.watchUntilQuiet a s fuel (B.watchStart a s) = some out ∧
    out.Perm ((X.pending s a none).map (·.toWire))

/-- No message that the agent has pending has an id below that of a message delivered to it. -/
def DeliveredInOrder (X : Mailbox B) (a : AgentId) (s : σ) : Prop :=
  ∀ m ∈ X.pending s a none, ∀ n ∈ X.messages s, a ∈ n.deliveredTo → n.id < m.id

instance : Decidable (X.DeliveredInOrder a s) := by unfold DeliveredInOrder; infer_instance

theorem pending_perm (hX : X.Lawful) :
    (X.pending s a none).Perm (inbox (wants none (X.patterns s a)) a (X.messages s)) :=
  inbox_perm (hX.scan_perm _)

theorem mem_pending (hX : X.Lawful) {m : StoredMessage} {channels : Option (List Channel)} :
    m ∈ X.pending s a channels ↔
      m ∈ X.messages s ∧ a ∉ m.deliveredTo ∧ wants channels (X.patterns s a) m.channel = true := by
  rw [pending, mem_inbox, (hX.scan_perm _).mem_iff]

/-- What a `recv` does to the messages, `p` being those it takes: they are marked delivered to the
agent, and nothing else about any message changes. -/
theorem recv_marks (hX : X.Lawful) (hs : X.Inv s) (a : AgentId) (channels : Option (List Channel))
    (max : Int) :
    ∃ p : List StoredMessage, p.Perm ((X.pending s a channels).take (X.cap max)) ∧
      (X.messages (B.recv a channels max s).2).map (·.id) = (X.messages s).map (·.id) ∧
      X.patterns (B.recv a channels max s).2 = X.patterns s ∧
      (∀ m' ∈ X.messages (B.recv a channels max s).2, ∃ m ∈ X.messages s, m'.id = m.id ∧
        m'.channel = m.channel ∧ (a ∈ m'.deliveredTo ↔ a ∈ m.deliveredTo ∨ m ∈ p)) ∧
      ∀ m ∈ p, m.deliver a ∈ X.messages (B.recv a channels max s).2 := by
  obtain ⟨p, hp, -, hmsgs, hpat⟩ := hX.recv a channels max s hs
  have hnd : ((X.messages s).map (·.id)).Nodup := (hX.ids s hs).imp Nat.ne_of_lt
  have hsub : ∀ m ∈ p, m ∈ X.messages s := by
    intro m hm
    have hpend : m ∈ X.pending s a channels := List.mem_of_mem_take (hp.mem_iff.1 hm)
    exact ((mem_pending hX).1 hpend).1
  refine ⟨p, hp, ?_, hpat, ?_, ?_⟩
  · rw [hmsgs, markDelivered, markWhere_ids]
  · intro m' hm'
    rw [hmsgs] at hm'
    obtain ⟨m, hm, rfl⟩ := List.mem_map.1 hm'
    have hiff : m.id ∈ p.map (·.id) ↔ m ∈ p := id_mem_ids_iff hnd hm hsub
    refine ⟨m, hm, ?_, ?_, ?_⟩ <;> by_cases hmp : m ∈ p <;> simp [hiff, hmp]
  · intro m hm
    have hid : m.id ∈ p.map (·.id) := List.mem_map_of_mem hm
    rw [hmsgs]
    exact List.mem_map.2 ⟨m, hsub m hm, by simp only [hid, decide_true, ↓reduceIte]⟩

theorem unseen_eq (last : Nat) :
    X.unseen s a last = (inbox (wants none (X.patterns s a)) a (X.messages s)).filter fun m =>
      decide (last < m.id) := by
  rw [inbox, List.filter_filter]
  rfl

theorem watchUntilQuiet_eq (hX : X.Lawful) (fuel last : Nat) :
    ∃ p : List StoredMessage, p.Perm (X.unseen s a last) ∧
      B.watchUntilQuiet a s (fuel + 2) last = some (p.map (·.toWire)) := by
  obtain ⟨p, hp, hmsgs, hlast⟩ := hX.watchPoll a last s
  obtain ⟨q, hq, hmsgs', -⟩ := hX.watchPoll a (Nat.max last (maxId p)) s
  -- everything above the new mark would have been above the old one
  have hnil : X.unseen s a (Nat.max last (maxId p)) = [] := by
    refine List.filter_eq_nil_iff.2 fun m hm hsel => ?_
    simp only [Bool.and_eq_true, decide_eq_true_eq] at hsel
    obtain ⟨hlt, haw⟩ := hsel
    have hmem : m ∈ p := hp.mem_iff.2 (List.mem_filter.2
      ⟨hm, by simp [haw, Nat.lt_of_le_of_lt (Nat.le_max_left ..) hlt]⟩)
    exact absurd (le_maxId hmem) (Nat.not_le.2 (Nat.lt_of_le_of_lt (Nat.le_max_right ..) hlt))
  rw [hnil] at hq
  have hquiet : B.watchUntilQuiet a s (fuel + 1) (Nat.max last (maxId p)) = some [] := by
    rw [BackingStore.watchUntilQuiet]
    simp [hmsgs', List.Perm.eq_nil hq]
  refine ⟨p, hp, ?_⟩
  rw [BackingStore.watchUntilQuiet]
  simp only [hmsgs, hlast, hquiet]
  split
  · rename_i he
    rw [List.isEmpty_iff.1 he]
  · simp

/-- A restarted watch is complete exactly when deliveries to the agent have been in id order. -/
theorem watchComplete_iff (hX : X.Lawful) (hs : X.Inv s) (fuel : Nat) :
    X.WatchComplete (fuel + 2) a s ↔ X.DeliveredInOrder a s := by
  obtain ⟨p, hp, hrun⟩ := watchUntilQuiet_eq hX (s := s) (a := a) fuel (B.watchStart a s)
  have hpend := pending_perm (s := s) (a := a) hX
  have hperm : X.WatchComplete (fuel + 2) a s ↔
      ∀ m ∈ inbox (wants none (X.patterns s a)) a (X.messages s), B.watchStart a s < m.id := by
    simp only [WatchComplete, hrun, Option.some.injEq, exists_eq_left']
    constructor
    · intro h m hm
      have hlen : (X.unseen s a (B.watchStart a s)).length =
          (inbox (wants none (X.patterns s a)) a (X.messages s)).length := by
        rw [← hp.length_eq, ← hpend.length_eq]
        simpa using h.length_eq
      rw [unseen_eq, List.length_filter_eq_length_iff] at hlen
      simpa using hlen m hm
    · intro h
      have hall : X.unseen s a (B.watchStart a s) =
        inbox (wants none (X.patterns s a)) a (X.messages s) := by
        rw [unseen_eq, List.filter_eq_self]
        simpa using h
      exact (hp.trans (hall ▸ hpend.symm)).map _
  rw [hperm]
  constructor
  · intro h m hm n hn ha
    have hle : n.id ≤ B.watchStart a s := by
      rw [hX.watchStart]
      exact le_maxId (List.mem_filter.2 ⟨hn, by simpa using ha⟩)
    exact hle.trans_lt (h m (hpend.mem_iff.1 hm))
  · intro h m hm
    have hmem := (mem_inbox.1 hm).1
    rw [hX.watchStart]
    rcases maxId_mem ((X.messages s).filter fun m => decide (a ∈ m.deliveredTo)) with
      ⟨-, h0⟩ | ⟨n, hn, hid⟩
    · rw [h0]
      exact hX.pos s hs m hmem
    · obtain ⟨hn, ha⟩ := List.mem_filter.1 hn
      rw [← hid]
      exact h m (hpend.mem_iff.2 hm) n hn (by simpa using ha)

end Mailbox

/-- After every history of either store, a restarted watch yields everything pending for the agent
exactly once if and only if no message pending for it is older than one already delivered to it. -/
theorem watch_restart_complete (ops : List StoreOp) (a : AgentId) (fuel : Nat) :
    (MemoryStore.mailbox.WatchComplete (fuel + 2) a (memoryStore.applyAll ops MemoryStore.init) ↔
      MemoryStore.mailbox.DeliveredInOrder a (memoryStore.applyAll ops MemoryStore.init)) ∧
    (SqliteStore.mailbox.WatchComplete (fuel + 2) a (sqliteStore.applyAll ops SqliteStore.init) ↔
      SqliteStore.mailbox.DeliveredInOrder a (sqliteStore.applyAll ops SqliteStore.init)) := by
  constructor
  · exact Mailbox.watchComplete_iff MemoryStore.mailbox_lawful (MemoryStore.Inv.reachable ops) fuel
  · exact Mailbox.watchComplete_iff SqliteStore.mailbox_lawful (SqliteStore.inv_reachable ops) fuel

def drainSecond : List StoreOp :=
  [.subscribe "bob" "ticket:*", .send 1 ⟨"ticket:1", "alice", .empty, none, none⟩,
    .send 2 ⟨"ticket:2", "alice", .empty, none, none⟩, .recv "bob" (some ["ticket:2"]) 50]

/-- A watch started then never yields the first, in either store. -/
theorem watch_restart_skips :
    ¬(∀ ops a fuel, MemoryStore.mailbox.WatchComplete (fuel + 2) a
      (memoryStore.applyAll ops MemoryStore.init)) ∧
    ¬(∀ ops a fuel, SqliteStore.mailbox.WatchComplete (fuel + 2) a
      (sqliteStore.applyAll ops SqliteStore.init)) := by
  constructor
  · intro h
    have hc := (Mailbox.watchComplete_iff MemoryStore.mailbox_lawful
      (MemoryStore.Inv.reachable drainSecond) 0).1
      (h drainSecond "bob" 0)
    exact absurd hc (by decide)
  · intro h
    have hc := (Mailbox.watchComplete_iff SqliteStore.mailbox_lawful
      (SqliteStore.inv_reachable drainSecond) 0).1
      (h drainSecond "bob" 0)
    exact absurd hc (by decide)

end Sox
