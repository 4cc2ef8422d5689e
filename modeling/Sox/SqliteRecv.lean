import Sox.Lib.System
import Sox.Lib.Txn
import Sox.SqliteInv

/-!
# Concurrent `recv` on one SQLite database

Processes `π` share a database. `_recv_lock` admits one `recv` per process; its awaited statements
are the steps: the patterns, the `SELECT`, one `UPDATE` for each selected row, the `COMMIT`. An
`UPDATE` writes the list that the `SELECT` read, extended by the agent. It is a fresh one
(`FreshUpdate`) when the row still has that list; runs of fresh updates hand messages over as a
delivery ledger does, and a stale one erases the deliveries committed in between.
-/

namespace Sox

inductive RecvPc where
  | start
  | ready (patterns : List Pattern)
  /-- Rows left to update, out of those selected. -/
  | marking (eligible todo : List StoredMessage)

structure RecvTask where
  agentId : AgentId
  channels : Option (List Channel)
  maxMessages : Int
  pc : RecvPc

structure RecvSys (π : Type) where
  db : Txn π SqliteDb
  task : π → Option RecvTask
  returned : List (AgentId × List Message)

namespace RecvSys

inductive Action (π : Type) where
  | call (p : π) (agentId : AgentId) (channels : Option (List Channel)) (maxMessages : Int)
  | readPatterns (p : π)
  | select (p : π)
  | update (p : π)
  | commit (p : π)

variable {π : Type}

def start (π : Type) (db : SqliteDb) : RecvSys π := ⟨{ committed := db }, fun _ => none, []⟩

def returnedTo (s : RecvSys π) (a : AgentId) : List Nat :=
  s.returned.flatMap fun r => if r.1 = a then r.2.map (·.messageId) else []

/-- Every delivery in `db` is in `db'`. -/
def MarksKept (db db' : SqliteDb) : Prop :=
  ∀ m ∈ db.messages, ∀ a ∈ m.deliveredTo, ∃ n ∈ db'.messages, n.id = m.id ∧ a ∈ n.deliveredTo

instance (db db' : SqliteDb) : Decidable (MarksKept db db') := by unfold MarksKept; infer_instance

section
variable [DecidableEq π]

def setTask (s : RecvSys π) (p : π) (t : Option RecvTask) : RecvSys π :=
  { s with task := Function.update s.task p t }

/-- The call ends: the lock is released and the messages are returned. -/
def finish (s : RecvSys π) (p : π) (agentId : AgentId) (messages : List Message) : RecvSys π :=
  { s.setTask p none with returned := s.returned ++ [(agentId, messages)] }

def step (s : RecvSys π) : Action π → Option (RecvSys π)
  | .call p agentId channels maxMessages =>
    match s.task p with
    | some _ => none
    | none =>
      some (s.setTask p (some
        { agentId, channels, maxMessages,
          pc := if channels.isNone then .start else .ready [] }))
  | .readPatterns p =>
    match s.task p with
    | some ⟨agentId, channels, maxMessages, .start⟩ =>
      let patterns := (s.db.view p).patternsFor agentId
      if patterns.isEmpty then some (s.finish p agentId [])
      else some (s.setTask p (some ⟨agentId, channels, maxMessages, .ready patterns⟩))
    | _ => none
  | .select p =>
    match s.task p with
    | some ⟨agentId, channels, maxMessages, .ready patterns⟩ =>
      let eligible := SqliteDb.eligibleRows agentId channels patterns maxMessages
        (sortMessages (s.db.view p).messages)
      if eligible.isEmpty then some (s.finish p agentId [])
      else some (s.setTask p (some ⟨agentId, channels, maxMessages, .marking eligible eligible⟩))
    | _ => none
  | .update p =>
    match s.task p with
    | some ⟨agentId, channels, maxMessages, .marking eligible (row :: todo)⟩ =>
      (s.db.write p fun db => db.markRow agentId row).map fun db =>
        { s.setTask p (some ⟨agentId, channels, maxMessages, .marking eligible todo⟩) with db }
    | _ => none
  | .commit p =>
    match s.task p with
    | some ⟨agentId, _, _, .marking eligible []⟩ =>
      some { s.finish p agentId (eligible.map (·.toWire)) with db := s.db.commit p }
    | _ => none

def system (π : Type) [DecidableEq π] : ActionSystem (RecvSys π) (Action π) := ⟨step⟩

/-- The row about to be updated still has the `delivered_to` that was read. -/
def FreshUpdate (s : RecvSys π) : Action π → Prop
  | .update p => match s.task p with
    | some ⟨_, _, _, .marking _ (row :: _)⟩ =>
      ∀ m ∈ (s.db.view p).messages, m.id = row.id → m.deliveredTo = row.deliveredTo
    | _ => True
  | _ => True

instance (s : RecvSys π) (act : Action π) : Decidable (FreshUpdate s act) := by
  unfold FreshUpdate
  split
  · split <;> infer_instance
  · infer_instance

end

/-! ### The invariant -/

variable {ids : List Nat} {s s' : RecvSys π} {p q : π} {a : AgentId}

/-- What is known of a task of `p` that has selected its rows: it has marked some of them, in its
own open transaction, or none and has no transaction open. -/
structure MarkingOk (ids : List Nat) (x : Txn π SqliteDb) (p : π) (a : AgentId)
    (eligible todo : List StoredMessage) : Prop where
  ne : eligible ≠ []
  nodup : (eligible.map (·.id)).Nodup
  rows : ∀ row ∈ eligible, row.id ∈ ids ∧ a ∉ row.deliveredTo
  marked : ∃ done, eligible = done ++ todo ∧
    (done = [] ∧ (∀ db, x.writer ≠ some (p, db)) ∨
      done ≠ [] ∧ ∃ db, x.writer = some (p, db) ∧
        (ledger x.committed.messages).Takes a (done.map (·.id)) (ledger db.messages))

/-- A task without an open transaction has marked nothing, whatever others write and commit. -/
theorem MarkingOk.idle {x y : Txn π SqliteDb} {el todo : List StoredMessage}
    (h : MarkingOk ids x p a el todo) (hx : ∀ db, x.writer ≠ some (p, db))
    (hy : ∀ db, y.writer ≠ some (p, db)) : MarkingOk ids y p a el todo := by
  obtain ⟨done, hel, hdone⟩ := h.marked
  rcases hdone with ⟨hnil, -⟩ | ⟨-, db, hdb, -⟩
  · exact { h with marked := ⟨done, hel, .inl ⟨hnil, hy⟩⟩ }
  · exact absurd hdb (hx db)

/-- `ids` are the ids of the database, distinct and the same throughout; an open transaction belongs
to a task that has selected its rows. -/
structure Inv (ids : List Nat) (s : RecvSys π) : Prop where
  nodup : ids.Nodup
  sameIds : s.db.All fun db => db.messages.map (·.id) = ids
  marking : ∀ p a channels max eligible todo, s.task p = some ⟨a, channels, max, .marking eligible todo⟩ →
    MarkingOk ids s.db p a eligible todo
  writer : ∀ p db, s.db.writer = some (p, db) →
    ∃ a channels max eligible todo, s.task p = some ⟨a, channels, max, .marking eligible todo⟩

theorem Inv.start (db : SqliteDb) (hnd : (db.messages.map (·.id)).Nodup) :
    Inv (db.messages.map (·.id)) (RecvSys.start π db) :=
  ⟨hnd, ⟨rfl, fun _ _ h => nomatch h⟩, (fun _ _ _ _ _ _ h => nomatch h), (fun _ _ h => nomatch h)⟩

/-- `t` follows `s` by ledger events that hand over what is returned in between. -/
def Follows (s t : RecvSys π) : Prop :=
  ∃ es, (ledger s.db.committed.messages).Steps es (ledger t.db.committed.messages) ∧
    ∀ a, t.returnedTo a = s.returnedTo a ++ Ledger.handed a es

theorem Follows.refl (s : RecvSys π) : Follows s s := ⟨[], .nil, fun _ => (List.append_nil _).symm⟩

theorem Follows.trans {s t u : RecvSys π} : Follows s t → Follows t u → Follows s u := by
  rintro ⟨es, hes, hr⟩ ⟨fs, hfs, hr'⟩
  refine ⟨es ++ fs, hes.append hfs, fun a => ?_⟩
  rw [hr', hr, List.append_assoc, Ledger.handed, Ledger.handed, Ledger.handed, List.flatMap_append]

theorem Follows.of_same (hdb : s'.db.committed = s.db.committed)
    (hr : ∀ a, s'.returnedTo a = s.returnedTo a) :
    Follows s s' := ⟨[], hdb ▸ .nil, fun a => by rw [hr a]; exact (List.append_nil _).symm⟩

variable [DecidableEq π]

/-- The process is not between its `SELECT` and its `COMMIT`. -/
def NotMarking (s : RecvSys π) (p : π) : Prop :=
  ∀ a channels max el todo, s.task p ≠ some ⟨a, channels, max, .marking el todo⟩

/-- A task that has selected no rows, or no task. -/
def Unselected (t : Option RecvTask) : Prop :=
  ∀ a channels max el todo, t ≠ some ⟨a, channels, max, .marking el todo⟩

/-- What a step does. -/
inductive Stepped (s : RecvSys π) : Action π → RecvSys π → Prop
  /-- A call starts, or it has read its patterns. -/
  | wait {act : Action π} {p : π} {t : Option RecvTask} (hp : NotMarking s p) (ht : Unselected t) :
    Stepped s act (s.setTask p t)
  /-- A call finds nothing. -/
  | empty {act : Action π} {p : π} (a : AgentId) (hp : NotMarking s p) :
    Stepped s act (s.finish p a [])
  | select {p : π} {a : AgentId} {channels : Option (List Channel)} {max : Int} {patterns : List Pattern}
    {el : List StoredMessage} (hp : NotMarking s p)
    (hel : el = SqliteDb.eligibleRows a channels patterns max (sortMessages (s.db.view p).messages))
    (hne : el ≠ []) : Stepped s (.select p) (s.setTask p (some ⟨a, channels, max, .marking el el⟩))
  | update {p : π} {a : AgentId} {channels : Option (List Channel)} {max : Int} {row : StoredMessage}
    {el todo : List StoredMessage} {y : Txn π SqliteDb}
    (hp : s.task p = some ⟨a, channels, max, .marking el (row :: todo)⟩)
    (hy : s.db.write p (fun db => db.markRow a row) = some y) :
    Stepped s (.update p) { s.setTask p (some ⟨a, channels, max, .marking el todo⟩) with db := y }
  | commit {p : π} {a : AgentId} {channels : Option (List Channel)} {max : Int}
    {el : List StoredMessage} (hp : s.task p = some ⟨a, channels, max, .marking el []⟩) :
    Stepped s (.commit p) { s.finish p a (el.map (·.toWire)) with db := s.db.commit p }

theorem step_cases {act : Action π} (hstep : step s act = some s') : Stepped s act s' := by
  cases act with
  | call p agentId channels max =>
    simp only [step] at hstep
    split at hstep
    · cases hstep
    rename_i hp
    cases hstep
    refine .wait (fun _ _ _ _ _ he => by rw [hp] at he; cases he) ?_
    cases channels <;> rintro _ _ _ _ _ ⟨⟩
  | readPatterns p =>
    simp only [step] at hstep
    split at hstep
    case h_2 => cases hstep
    rename_i a channels max hp
    have hno : NotMarking s p := fun _ _ _ _ _ he => by rw [hp] at he; cases he
    split at hstep <;> cases hstep
    · exact .empty a hno
    · exact .wait hno (by rintro _ _ _ _ _ ⟨⟩)
  | select p =>
    simp only [step] at hstep
    split at hstep
    case h_2 => cases hstep
    rename_i a channels max patterns hp
    have hno : NotMarking s p := fun _ _ _ _ _ he => by rw [hp] at he; cases he
    split at hstep <;> cases hstep
    · exact .empty a hno
    · rename_i hne
      exact .select hno rfl fun hnil => hne (by rw [hnil]; rfl)
  | update p =>
    simp only [step] at hstep
    split at hstep
    case h_2 => cases hstep
    rename_i a channels max el row todo hp
    obtain ⟨y, hy, rfl⟩ := Option.map_eq_some_iff.1 hstep
    exact .update hp hy
  | commit p =>
    simp only [step] at hstep
    split at hstep
    case h_2 => cases hstep
    rename_i a channels max el hp
    cases hstep
    exact .commit hp

theorem setTask_self (t : Option RecvTask) : (s.setTask p t).task p = t := Function.update_self ..

theorem setTask_of_ne (h : q ≠ p) (t : Option RecvTask) : (s.setTask p t).task q = s.task q :=
  Function.update_of_ne h ..

/-- A task that is not marking rows has no transaction, so it may become any task without one. -/
theorem Inv.setTask (h : Inv ids s) (hp : NotMarking s p) (t : Option RecvTask)
    (ht : ∀ a channels max el todo, t = some ⟨a, channels, max, .marking el todo⟩ →
      MarkingOk ids s.db p a el todo) :
    Inv ids (s.setTask p t) := by
  refine ⟨h.nodup, h.sameIds, fun q a channels max el todo hq => ?_, fun q db hw => ?_⟩
  · by_cases hqp : q = p
    · subst hqp
      exact ht a channels max el todo ((setTask_self t).symm.trans hq)
    · exact h.marking q a channels max el todo ((setTask_of_ne hqp t).symm.trans hq)
  · obtain ⟨a, channels, max, el, todo, hq⟩ := h.writer q db hw
    have hqp : q ≠ p := fun he => hp a channels max el todo (he ▸ hq)
    exact ⟨a, channels, max, el, todo, (setTask_of_ne hqp t).trans hq⟩

theorem Inv.finish (h : Inv ids s) (hp : NotMarking s p) (messages : List Message) :
    Inv ids (s.finish p a messages) := by
  have hset := h.setTask hp none fun _ _ _ _ _ he => nomatch he
  exact ⟨hset.nodup, hset.sameIds, hset.marking, hset.writer⟩

theorem Inv.view_ids (h : Inv ids s) (p : π) : (s.db.view p).messages.map (·.id) = ids := h.sameIds.view

/-- The rows selected are pending for the agent in what the process sees. -/
theorem Inv.select (h : Inv ids s) (hp : NotMarking s p) {channels : Option (List Channel)}
    {patterns : List Pattern} {max : Int} {el : List StoredMessage}
    (hel : el = SqliteDb.eligibleRows a channels patterns max (sortMessages (s.db.view p).messages))
    (hne : el ≠ []) :
    MarkingOk ids s.db p a el el := by
  have hsub : el.Sublist (inbox (wants channels patterns) a (sortMessages (s.db.view p).messages)) :=
    hel ▸ SqliteDb.eligibleRows_eq .. ▸ List.take_sublist ..
  refine ⟨hne, ?_, fun row hrow => ?_, [], rfl, .inl ⟨rfl, fun db hw => ?_⟩⟩
  · have hnd : ((sortMessages (s.db.view p).messages).map (·.id)).Nodup :=
      (((sortMessages_perm _).map _).nodup_iff).2 (h.view_ids p ▸ h.nodup)
    exact (inbox_ids_nodup hnd).sublist (hsub.map _)
  · obtain ⟨hm, ha, -⟩ := mem_inbox.1 (hsub.subset hrow)
    exact ⟨h.view_ids p ▸ List.mem_map_of_mem (mem_sortMessages.1 hm), ha⟩
  · obtain ⟨a', channels', max', el', todo, hq⟩ := h.writer p db hw
    exact hp a' channels' max' el' todo hq

theorem markRow_takes {db : SqliteDb} {row : StoredMessage} (hid : row.id ∈ db.messages.map (·.id))
    (ha : a ∉ row.deliveredTo) (hfresh : ∀ m ∈ db.messages, m.id = row.id →
      m.deliveredTo = row.deliveredTo) :
    (ledger db.messages).Takes a [row.id] (ledger (db.markRow a row).messages) := by
  rw [SqliteDb.markRow_eq hfresh ha]
  refine ledger_mark_takes (List.nodup_singleton _) (by simpa using hid) fun m hm => ?_
  rw [decide_eq_true_eq, iff_self_and]
  exact fun he => hfresh m hm (List.mem_singleton.1 he) ▸ ha

theorem markRow_ids {db : SqliteDb} (row : StoredMessage) :
    (db.markRow a row).messages.map (·.id) = db.messages.map (·.id) := by
  simp only [SqliteDb.markRow, SqliteDb.updateDelivered, List.map_map]
  refine List.map_congr_left fun m _ => ?_
  simp only [Function.comp_apply]
  split <;> rfl

variable {channels : Option (List Channel)} {max : Int} {el todo : List StoredMessage}
  {row : StoredMessage}

theorem Inv.update (h : Inv ids s) (ht : s.task p = some ⟨a, channels, max, .marking el (row :: todo)⟩)
    (hfresh : ∀ m ∈ (s.db.view p).messages, m.id = row.id → m.deliveredTo = row.deliveredTo)
    {y : Txn π SqliteDb} (hy : s.db.write p (fun db => db.markRow a row) = some y) :
    Inv ids { s.setTask p (some ⟨a, channels, max, .marking el todo⟩) with db := y } ∧
      y.committed = s.db.committed := by
  obtain ⟨hc, hw⟩ := Txn.write_eq hy
  obtain ⟨hne, hnd, hrows, done, hel, hdone⟩ := h.marking p a channels max el (row :: todo) ht
  obtain ⟨hid, ha⟩ := hrows row (by simp [hel])
  have hview := h.view_ids p
  have htake := markRow_takes (hview.symm ▸ hid) ha hfresh
  -- the rows marked before, and the row marked now
  have htakes : (ledger s.db.committed.messages).Takes a ((done ++ [row]).map (·.id))
      (ledger ((s.db.view p).markRow a row).messages) := by
    rw [List.map_append]
    rcases hdone with ⟨rfl, hno⟩ | ⟨-, db, hdb, hpre⟩
    · have hcom : s.db.view p = s.db.committed := by
        rcases Txn.writer_of_write hy with hnone | ⟨db, hsome⟩
        · simp [Txn.view, hnone]
        · exact absurd hsome (hno db)
      rw [hcom] at htake ⊢
      exact htake
    · have hdbv : s.db.view p = db := by simp [Txn.view, hdb]
      rw [hdbv] at htake ⊢
      exact hpre.trans htake
  refine ⟨⟨h.nodup, h.sameIds.write ((markRow_ids row).trans hview) hy, ?_, ?_⟩, hc⟩
  · intro q b channels' max' el' todo' hq
    by_cases hqp : q = p
    · subst hqp
      have hq' := (setTask_self _).symm.trans hq
      cases hq'
      refine ⟨hne, hnd, hrows, done ++ [row], by simp [hel], .inr ⟨by simp, _, hw, ?_⟩⟩
      rw [hc]
      exact htakes
    · -- no other process has a transaction open
      have hq' := h.marking q b channels' max' el' todo' ((setTask_of_ne hqp _).symm.trans hq)
      refine hq'.idle (fun db hdb => ?_) fun db hdb => ?_
      · rcases Txn.writer_of_write hy with hnone | ⟨db', hsome⟩
        · rw [hnone] at hdb
          cases hdb
        · rw [hsome] at hdb
          cases hdb
          exact hqp rfl
      · rw [hw] at hdb
        cases hdb
        exact hqp rfl
  · intro q db hq
    obtain rfl : p = q := by rw [hw] at hq; cases hq; rfl
    exact ⟨a, channels, max, el, todo, setTask_self _⟩

theorem Inv.commit (h : Inv ids s) (ht : s.task p = some ⟨a, channels, max, .marking el []⟩) :
    Inv ids { s.finish p a (el.map (·.toWire)) with db := s.db.commit p } ∧
      (ledger s.db.committed.messages).Takes a (el.map (·.id))
      (ledger (s.db.commit p).committed.messages) := by
  obtain ⟨hne, -, -, done, hel, hdone⟩ := h.marking p a channels max el [] ht
  obtain rfl : el = done := by simpa using hel
  obtain ⟨-, db, hdb, htakes⟩ := hdone.resolve_left fun hd => hne hd.1
  have hcommit : s.db.commit p = { committed := db } := by simp [Txn.commit, hdb]
  refine ⟨⟨h.nodup, h.sameIds.commit, ?_, ?_⟩, by rw [hcommit]; exact htakes⟩
  · intro q b channels' max' el' todo' hq
    by_cases hqp : q = p
    · subst hqp
      exact nomatch (setTask_self _).symm.trans hq
    · have hq' := h.marking q b channels' max' el' todo' ((setTask_of_ne hqp _).symm.trans hq)
      refine hq'.idle (fun db' hdb' => ?_) fun db' hdb' => ?_
      · rw [hdb] at hdb'
        cases hdb'
        exact hqp rfl
      · rw [hcommit] at hdb'
        cases hdb'
  · intro q db' hq
    rw [hcommit] at hq
    cases hq

/-! ### Runs -/

theorem returnedTo_finish (messages : List Message) (b : AgentId) :
    (s.finish p a messages).returnedTo b =
      s.returnedTo b ++ if a = b then messages.map (·.messageId) else [] := by
  simp [returnedTo, RecvSys.finish, RecvSys.setTask]

theorem Follows.finish_nil : Follows s (s.finish p a []) := by
  refine .of_same rfl fun b => ?_
  rw [returnedTo_finish]
  simp

/-- Every step with its `UPDATE` fresh keeps the invariant and follows the ledger. -/
theorem step_follows {act : Action π} (h : Inv ids s) (hfresh : FreshUpdate s act)
    (hstep : step s act = some s') : Inv ids s' ∧ Follows s s' := by
  cases step_cases hstep with
  | wait hp ht => exact ⟨h.setTask hp _ fun a channels max el todo he => absurd he (ht a channels max el todo),
      .of_same rfl fun _ => rfl⟩
  | empty a hp => exact ⟨h.finish hp [], .finish_nil⟩
  | select hp hel hne =>
    refine ⟨h.setTask hp _ fun _ _ _ _ _ he => ?_, .of_same rfl fun _ => rfl⟩
    cases he
    exact h.select hp hel hne
  | update hp hy =>
    simp only [FreshUpdate, hp] at hfresh
    obtain ⟨hinv, hcom⟩ := h.update hp hfresh hy
    exact ⟨hinv, .of_same hcom fun _ => rfl⟩
  | @commit p a channels max el hp =>
    obtain ⟨hinv, htakes⟩ := h.commit hp
    refine ⟨hinv, [.hand a (el.map (·.id))], .single (.hand htakes), fun b => ?_⟩
    have hlog : (s.finish p a (el.map (·.toWire))).returnedTo b = _ := returnedTo_finish _ b
    refine hlog.trans ?_
    simp [Ledger.handed]
    rfl

theorem run_follows {as : List (Action π)} {t : RecvSys π} (h : Inv ids s)
    (hg : (system π).Guarded FreshUpdate s as) (hr : (system π).run s as = some t) : Follows s t :=
  ActionSystem.run_rel (I := Inv ids) Follows.refl (fun _ _ _ => Follows.trans)
    (fun _ _ _ hI hG hstep => step_follows hI hG hstep) h hg hr

theorem run_inv {as : List (Action π)} {t : RecvSys π} (h : Inv ids s)
    (hg : (system π).Guarded FreshUpdate s as) (hr : (system π).run s as = some t) : Inv ids t :=
  ActionSystem.run_invariant (I := Inv ids) (fun _ _ _ hI hG hstep => (step_follows hI hG hstep).1)
    h hg hr

/-- Exactly-once `recv` over any number of processes: in every run from a committed database with
distinct ids whose updates are all fresh, a delivery that is committed at some point stays
committed, and no message is returned twice to the same agent. -/
theorem recv_exactly_once (db : SqliteDb) (hnd : (db.messages.map (·.id)).Nodup) (as bs : List (Action π))
    (s t : RecvSys π) (has : (system π).run (start π db) as = some s) (hbs : (system π).run s bs = some t)
    (hg : (system π).Guarded FreshUpdate (start π db) (as ++ bs)) :
    MarksKept s.db.committed t.db.committed ∧ ∀ a, (t.returnedTo a).Nodup := by
  obtain ⟨hga, hgb⟩ := ActionSystem.guarded_append.1 hg
  have hI := Inv.start (π := π) db hnd
  constructor
  · obtain ⟨es, hes, -⟩ := run_follows (run_inv hI hga has) (hgb s has) hbs
    intro m hm a ha
    exact hes.taken_mono a ⟨m, hm, rfl, ha⟩
  · intro a
    obtain ⟨es, hes, hret⟩ := run_follows hI hg (ActionSystem.run_append.2 ⟨s, has, hbs⟩)
    rw [hret a]
    exact (hes.handed_nodup a).1

def sharedDb : SqliteDb :=
  (sqliteStore.applyAll [.subscribe "alice" "ticket:*", .subscribe "bob" "ticket:*",
    .send 1 ⟨"ticket:1", "carol", .empty, none, none⟩] SqliteStore.init).db

def wholeRecv (p : Nat) (a : AgentId) : List (Action Nat) :=
  [.call p a none 50, .readPatterns p, .select p, .update p, .commit p]

theorem recv_exactly_once_turns :
    ∃ s t, (system Nat).run (start Nat sharedDb) (wholeRecv 1 "alice") = some s ∧
      (system Nat).run s (wholeRecv 2 "bob") = some t ∧ MarksKept s.db.committed t.db.committed ∧
      ∀ a, (t.returnedTo a).Nodup := by
  have hs := ActionSystem.run_final
    (by decide : ((system Nat).run (start Nat sharedDb) (wholeRecv 1 "alice")).isSome = true)
  have ht := ActionSystem.run_final (by decide : ((system Nat).run
    ((system Nat).final (start Nat sharedDb) (wholeRecv 1 "alice")) (wholeRecv 2 "bob")).isSome = true)
  exact ⟨_, _, hs, ht, recv_exactly_once sharedDb (by decide) _ _ _ _ hs ht (by decide)⟩

/-- `alice` has drained the message and committed while `bob`'s `recv` is between its `SELECT` and
its `UPDATE`. -/
def aliceDone : List (Action Nat) :=
  [.call 2 "bob" none 50, .readPatterns 2, .select 2] ++ wholeRecv 1 "alice"

/-- `bob`'s stale `UPDATE` then erases the delivery to `alice`, who is given the message again. -/
theorem recv_erases_delivery :
    (¬∀ (db : SqliteDb), (db.messages.map (·.id)).Nodup → ∀ (as bs : List (Action Nat))
      (s t : RecvSys Nat),
      (system Nat).run (start Nat db) as = some s → (system Nat).run s bs = some t →
        MarksKept s.db.committed t.db.committed) ∧
    ¬∀ (db : SqliteDb), (db.messages.map (·.id)).Nodup → ∀ (as : List (Action Nat)) (s : RecvSys Nat),
      (system Nat).run (start Nat db) as = some s → ∀ a, (s.returnedTo a).Nodup := by
  constructor
  · intro h
    have hs := ActionSystem.run_final
      (by decide : ((system Nat).run (start Nat sharedDb) aliceDone).isSome = true)
    have ht := ActionSystem.run_final (by decide : ((system Nat).run
      ((system Nat).final (start Nat sharedDb) aliceDone) [.update 2, .commit 2]).isSome = true)
    exact absurd (h sharedDb (by decide) _ _ _ _ hs ht) (by decide)
  · intro h
    have hs := ActionSystem.run_final (by decide : ((system Nat).run (start Nat sharedDb)
      (aliceDone ++ [.update 2, .commit 2] ++ wholeRecv 1 "alice")).isSome = true)
    exact absurd (h sharedDb (by decide) _ _ hs "alice") (by decide)

end RecvSys

end Sox
