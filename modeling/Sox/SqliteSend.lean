import Sox.Lib.System
import Sox.Lib.Txn
import Sox.SqliteInv

/-!
# Concurrent `send` on one SQLite database

Tasks `(p, k)`: coroutine `k` of process `p`. The coroutines of a process share its connection and
so its open transaction. A step is one awaited statement of `SqliteStore.send`, or of the
`heartbeat` around it: nothing holds a lock between the `SELECT` of the next sequence number and the
`INSERT` that uses it. The numbering stays exact along runs in which every `INSERT` uses the number
that the `SELECT` would still give (`FreshSeq`).
-/

namespace Sox

/-- On every channel the sequence numbers are 1, 2, …, n, each once. -/
def SeqsExact (l : List StoredMessage) : Prop :=
  ∀ c, ((onChannel c l).map (·.seq)).Perm (List.range' 1 (onChannel c l).length)

theorem Gapless.seqsExact {l : List StoredMessage} (h : Gapless l) : SeqsExact l := fun c => by rw [h c]

theorem SeqsExact.nodup {l : List StoredMessage} (h : SeqsExact l) (c : Channel) :
    ((onChannel c l).map (·.seq)).Nodup := (h c).nodup_iff.2 List.nodup_range'

theorem SeqsExact.nextSeq_eq {db : SqliteDb} (h : SeqsExact db.messages) (c : Channel) :
    db.nextSeq c = (onChannel c db.messages).length + 1 := by
  have hmax : ((onChannel c db.messages).map (·.seq)).foldr max 0 =
      (List.range' 1 (onChannel c db.messages).length).foldr max 0 :=
    (h c).foldr_eq' (fun x _ y _ z => Nat.max_left_comm y x z) 0
  rw [SqliteDb.nextSeq, hmax]
  cases (onChannel c db.messages).length with
  | zero => rfl
  | succ n => rw [foldr_max_range']; omega

/-- Storing a message with the next sequence number keeps the numbering exact. -/
theorem SeqsExact.insertMessage {db : SqliteDb} (h : SeqsExact db.messages) (now : ℚ) (args : SendArgs) :
    SeqsExact (db.insertMessage now args (db.nextSeq args.channel)).messages := by
  intro c
  simp only [SqliteDb.insertMessage, onChannel_append, onChannel_singleton]
  split
  · rename_i hc
    have hc' : args.channel = c := hc
    rw [List.map_append, List.length_append, List.length_singleton, List.range'_concat]
    refine (h c).append ?_
    simp [SqliteDb.newRow, hc', h.nextSeq_eq, Nat.add_comm]
  · simpa using h c

/-- Where a task is. A `send` made by a `heartbeat` carries the heartbeat's receipt. -/
inductive SendPc where
  | beat (now : ℚ) (agentId : AgentId) (status : String) (ttl : Option Int)
  | beatUpserted (now : ℚ) (agentId : AgentId) (status : String) (receipt : HeartbeatReceipt)
  | ready (now : ℚ) (args : SendArgs) (beat : Option HeartbeatReceipt)
  | haveSeq (now : ℚ) (args : SendArgs) (beat : Option HeartbeatReceipt) (seq : Nat)
  | haveDepth (now : ℚ) (args : SendArgs) (beat : Option HeartbeatReceipt) (seq queueDepth : Nat)
  | inserted (beat : Option HeartbeatReceipt) (receipt : SendReceipt)

structure SendSys (π κ : Type) where
  db : Txn π SqliteDb
  task : π × κ → Option SendPc
  returned : List (SendReceipt ⊕ HeartbeatReceipt)

namespace SendSys

inductive Action (π κ : Type) where
  | send (p : π) (k : κ) (now : ℚ) (args : SendArgs)
  | heartbeat (p : π) (k : κ) (now : ℚ) (agentId : AgentId) (status : String) (ttl : Option Int)
  /-- The next statement of the task; `now` is what the clock shows. -/
  | next (p : π) (k : κ) (now : ℚ)

variable {π κ : Type}

def start (π κ : Type) (db : SqliteDb) : SendSys π κ := ⟨{ committed := db }, fun _ => none, []⟩

variable [DecidableEq π] [DecidableEq κ]

def setTask (s : SendSys π κ) (i : π × κ) (pc : Option SendPc) : SendSys π κ :=
  { s with task := Function.update s.task i pc }

/-- The next statement of the task that is at `pc`; `none` while another process's transaction
blocks it. -/
def next (s : SendSys π κ) (p : π) (k : κ) (now : ℚ) : SendPc → Option (SendSys π κ)
  | .beat beatNow agentId status ttl =>
    let expiresAt := beatNow + effectiveTtl ttl
    (s.db.write p fun db => db.upsertLiveness agentId status beatNow expiresAt).map fun db =>
      { s.setTask (p, k) (some (.beatUpserted beatNow agentId status
          { agentId, status, recordedAt := beatNow, expiresAt })) with db }
  | .beatUpserted beatNow agentId status receipt =>
    -- the commit, after which `send` is called and reads the clock again
    some { s.setTask (p, k) (some (.ready now (presenceArgs agentId status beatNow) (some receipt))) with
      db := s.db.commit p }
  | .ready sentAt args beat =>
    some (s.setTask (p, k) (some (.haveSeq sentAt args beat ((s.db.view p).nextSeq args.channel))))
  | .haveSeq sentAt args beat seq =>
    some (s.setTask (p, k) (some (.haveDepth sentAt args beat seq ((s.db.view p).countOn args.channel))))
  | .haveDepth sentAt args beat seq queueDepth =>
    let receipt : SendReceipt :=
      { messageId := (s.db.view p).autoincrement + 1, sentAt, seq
        backpressure := { queueDepth, threshold, overLimit := threshold ≤ queueDepth } }
    (s.db.write p fun db => db.insertMessage sentAt args seq).map fun db =>
      { s.setTask (p, k) (some (.inserted beat receipt)) with db }
  | .inserted beat receipt =>
    some { s.setTask (p, k) none with
      db := s.db.commit p
      returned := s.returned ++ [match beat with
        | none => .inl receipt
        | some beatReceipt => .inr beatReceipt] }

def step (s : SendSys π κ) : Action π κ → Option (SendSys π κ)
  | .send p k now args =>
    match s.task (p, k) with
    | none => some (s.setTask (p, k) (some (.ready now args none)))
    | some _ => none
  | .heartbeat p k now agentId status ttl =>
    match s.task (p, k) with
    | none => some (s.setTask (p, k) (some (.beat now agentId status ttl)))
    | some _ => none
  | .next p k now => (s.task (p, k)).bind (s.next p k now)

def system (π κ : Type) [DecidableEq π] [DecidableEq κ] : ActionSystem (SendSys π κ) (Action π κ) :=
  ⟨step⟩

/-- An `INSERT` uses the sequence number that the `SELECT` would give now. -/
def FreshSeq (s : SendSys π κ) : Action π κ → Prop
  | .next p k _ => match s.task (p, k) with
    | some (.haveDepth _ args _ seq _) => (s.db.view p).nextSeq args.channel = seq
    | _ => True
  | _ => True

instance (s : SendSys π κ) (act : Action π κ) : Decidable (FreshSeq s act) := by
  unfold FreshSeq
  split
  · split <;> infer_instance
  · infer_instance

variable {s s' : SendSys π κ} {act : Action π κ}

/-- A step whose `INSERT` is fresh keeps the numbering exact, in the database and in the open
transaction. -/
theorem step_exact (h : s.db.All fun db => SeqsExact db.messages) (hfresh : FreshSeq s act)
    (hstep : step s act = some s') : s'.db.All fun db => SeqsExact db.messages := by
  cases act with
  | send p k now args =>
    simp only [step] at hstep
    split at hstep
    · cases hstep; exact h
    · cases hstep
  | heartbeat p k now agentId status ttl =>
    simp only [step] at hstep
    split at hstep
    · cases hstep; exact h
    · cases hstep
  | next p k now =>
    obtain ⟨pc, hpc, hnext⟩ := Option.bind_eq_some_iff.1 hstep
    cases pc with
    | beat beatNow agentId status ttl =>
      obtain ⟨y, hy, rfl⟩ := Option.map_eq_some_iff.1 hnext
      exact h.write h.view hy
    | beatUpserted => cases hnext; exact h.commit
    | ready => cases hnext; exact h
    | haveSeq => cases hnext; exact h
    | haveDepth sentAt args beat seq depth =>
      simp only [FreshSeq, hpc] at hfresh
      obtain ⟨y, hy, rfl⟩ := Option.map_eq_some_iff.1 hnext
      refine h.write ?_ hy
      rw [← hfresh]
      exact SeqsExact.insertMessage h.view sentAt args
    | inserted => cases hnext; exact h.commit

/-- Sequence numbers under concurrency: from a committed database with exact numbering, in every run
of `send` and `heartbeat` tasks whose `INSERT`s are all fresh, the committed messages of every
channel are numbered exactly 1, …, n. -/
theorem send_seqs_exact (db : SqliteDb) (hdb : SeqsExact db.messages) (as : List (Action π κ))
    (s : SendSys π κ)
    (hr : (system π κ).run (start π κ db) as = some s)
    (hg : (system π κ).Guarded FreshSeq (start π κ db) as) :
    SeqsExact s.db.committed.messages := by
  have hstart : (start π κ db).db.All fun db => SeqsExact db.messages := ⟨hdb, by simp [start]⟩
  have hall : s.db.All fun db => SeqsExact db.messages :=
    ActionSystem.run_invariant (I := fun s : SendSys π κ => s.db.All fun db => SeqsExact db.messages)
      (fun _ _ _ hI hG hstep => step_exact hI hG hstep) hstart hg hr
  exact hall.committed

def statements (p k : Nat) : List (Action Nat Nat) := List.replicate 4 (.next p k 0)

def callSend (p k : Nat) : Action Nat Nat := .send p k 1 ⟨"ticket:1", "alice", .empty, none, none⟩

theorem send_seqs_exact_turns :
    ∃ s, (system Nat Nat).run (start Nat Nat {})
        (callSend 1 1 :: statements 1 1 ++ callSend 2 1 :: statements 2 1) = some s ∧
      SeqsExact s.db.committed.messages := by
  have hr := ActionSystem.run_final (by decide : ((system Nat Nat).run (start Nat Nat {})
    (callSend 1 1 :: statements 1 1 ++ callSend 2 1 :: statements 2 1)).isSome = true)
  exact ⟨_, hr, send_seqs_exact {} (fun _ => .refl _) _ _ hr (by decide)⟩

/-- Two coroutines of one process that both read the next number before either inserts. -/
theorem send_duplicate_seq :
    ¬∀ (db : SqliteDb), SeqsExact db.messages → ∀ (as : List (Action Nat Nat)) (s : SendSys Nat Nat),
      (system Nat Nat).run (start Nat Nat db) as = some s → SeqsExact s.db.committed.messages := by
  intro h
  have hr := ActionSystem.run_final (by decide : ((system Nat Nat).run (start Nat Nat {})
    (callSend 1 1 :: callSend 1 2 :: .next 1 1 0 :: .next 1 2 0 :: List.replicate 3 (.next 1 1 0) ++
      List.replicate 3 (.next 1 2 0))).isSome = true)
  exact absurd ((h {} (fun _ => .refl _) _ _ hr).nodup "ticket:1") (by decide)

end SendSys

end Sox
