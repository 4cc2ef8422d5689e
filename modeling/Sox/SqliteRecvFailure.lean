import Sox.SqliteRecv
import Sox.SqliteSend

/-!
# A `recv` that fails half way

The coroutines of one process share a connection and its open transaction. A statement of `recv` may
raise, and the coroutine may be cancelled between two statements or while one runs; `recv` rolls
nothing back, so the rows it has marked by then stay marked in the transaction that the next commit of
any coroutine publishes. `owed` are the messages that failed calls had selected and that no call has
returned to their agent since.
-/

namespace Sox

/-- Coroutines `κ` of sends, heartbeats and subscriptions, and the `recv` in progress. -/
structure Connection (κ : Type) where
  recvs : RecvSys Unit
  sends : Unit × κ → Option SendPc := fun _ => none
  receipts : List (SendReceipt ⊕ HeartbeatReceipt) := []
  /-- Coroutines between the `INSERT` of a subscription and its commit. -/
  subscribing : κ → Bool := fun _ => false
  owed : List (AgentId × Nat) := []

namespace Connection

inductive Action (κ : Type) where
  | recv (act : RecvSys.Action Unit)
  /-- The statement that the `recv` is at raises, or the coroutine is cancelled before it. -/
  | fail
  /-- The coroutine is cancelled while the statement runs. -/
  | cancel
  | send (act : SendSys.Action Unit κ)
  | subscribe (k : κ) (agentId : AgentId) (pattern : Pattern)
  | subscribeCommit (k : κ)

variable {κ : Type}

def start (κ : Type) (db : SqliteDb) : Connection κ := { recvs := RecvSys.start Unit db }

def db (s : Connection κ) : SqliteDb := s.recvs.db.view ()

def task (s : Connection κ) : Option RecvTask := s.recvs.task ()

/-- What a call has selected for its agent. -/
def selected : Option RecvTask → List (AgentId × Nat)
  | some ⟨agentId, _, _, .marking eligible _⟩ => eligible.map fun row => (agentId, row.id)
  | _ => []

/-- What is returned in a step from `r` to `r'`. -/
def returnedNow (r r' : RecvSys Unit) : List (AgentId × Nat) :=
  (r'.returned.drop r.returned.length).flatMap fun l => l.2.map fun m => (l.1, m.messageId)

/-- The statement that the task is at. -/
def nextStatement : RecvTask → RecvSys.Action Unit
  | ⟨_, _, _, .start⟩ => .readPatterns ()
  | ⟨_, _, _, .ready _⟩ => .select ()
  | ⟨_, _, _, .marking _ (_ :: _)⟩ => .update ()
  | ⟨_, _, _, .marking _ []⟩ => .commit ()

/-- The call is gone, its lock released, and it has returned nothing. -/
def abandon (s : Connection κ) (db : Txn Unit SqliteDb) : Connection κ :=
  { s with recvs := { s.recvs.setTask () none with db }, owed := s.owed ++ selected s.task }

def step [DecidableEq κ] (s : Connection κ) : Action κ → Option (Connection κ)
  | .recv act => (s.recvs.step act).map fun r =>
    { s with recvs := r, owed := s.owed.filter (· ∉ returnedNow s.recvs r) }
  | .fail => s.task.map fun _ => s.abandon s.recvs.db
  | .cancel => s.task.bind fun task =>
    (s.recvs.step (nextStatement task)).map fun r => s.abandon r.db
  | .send act => (SendSys.step ⟨s.recvs.db, s.sends, s.receipts⟩ act).map fun t =>
    { s with recvs := { s.recvs with db := t.db }, sends := t.task, receipts := t.returned }
  | .subscribe k agentId pattern =>
    if s.subscribing k then none
    else (s.recvs.db.write () fun db => db.insertSubscription agentId pattern).map fun db =>
      { s with recvs := { s.recvs with db }, subscribing := Function.update s.subscribing k true }
  | .subscribeCommit k =>
    if s.subscribing k then
      some
        { s with
          recvs := { s.recvs with db := s.recvs.db.commit () }
          subscribing := Function.update s.subscribing k false }
    else none

def system (κ : Type) [DecidableEq κ] : ActionSystem (Connection κ) (Action κ) := ⟨step⟩

/-- A row with the id, not delivered to the agent. -/
def Undelivered (db : SqliteDb) (o : AgentId × Nat) : Prop :=
  ∃ m ∈ db.messages, m.id = o.2 ∧ o.1 ∉ m.deliveredTo

/-- Every message that a failed call had selected is still pending for its agent, or in the hands of
the call that is under way. -/
def NothingLost (s : Connection κ) : Prop :=
  ∀ o ∈ s.owed, Undelivered s.db o ∨ o ∈ selected s.task

/-- A call fails before its first `UPDATE`. -/
def FailsUnmarked (s : Connection κ) : Action κ → Prop
  | .fail => match s.task with
    | some ⟨_, _, _, .marking eligible todo⟩ => todo.length = eligible.length
    | _ => True
  | .cancel => match s.task with
    | some ⟨_, _, _, .marking _ _⟩ => False
    | _ => True
  | _ => True

instance (db : SqliteDb) (o : AgentId × Nat) : Decidable (Undelivered db o) :=
  inferInstanceAs (Decidable (∃ m ∈ db.messages, _))

instance (s : Connection κ) : Decidable (NothingLost s) :=
  inferInstanceAs (Decidable (∀ o ∈ s.owed, _))

instance (s : Connection κ) (act : Action κ) : Decidable (FailsUnmarked s act) := by
  unfold FailsUnmarked
  split
  · split <;> infer_instance
  · split <;> infer_instance
  · infer_instance

/-! ### The database and the call under way -/

variable {db db' : SqliteDb} {a : AgentId} {channels : Option (List Channel)} {max : Int}
  {eligible todo : List StoredMessage} {row : StoredMessage} {task : Option RecvTask}
  {owed : List (AgentId × Nat)} {o : AgentId × Nat}

/-- A row with the id, delivered to the agent. -/
def Delivered (db : SqliteDb) (o : AgentId × Nat) : Prop :=
  ∃ m ∈ db.messages, m.id = o.2 ∧ o.1 ∈ m.deliveredTo

theorem Delivered.not_undelivered (hdb : db.Inv) (h : Delivered db o) : ¬Undelivered db o := by
  rintro ⟨n, hn, hid, hno⟩
  obtain ⟨m, hm, hid', ha⟩ := h
  obtain rfl := List.inj_on_of_nodup_map hdb.ids_nodup hm hn (hid'.trans hid.symm)
  exact hno ha

/-- The call has marked the rows before `todo`; the rest stand as they were read. -/
structure Marking (db : SqliteDb) (a : AgentId) (eligible todo : List StoredMessage) : Prop where
  ne : eligible ≠ []
  nodup : (eligible.map (·.id)).Nodup
  split : ∃ done, eligible = done ++ todo ∧ ∀ row ∈ done, Delivered db (a, row.id)
  rest : ∀ row ∈ todo, row ∈ db.messages ∧ a ∉ row.deliveredTo

structure Ok (db : SqliteDb) (task : Option RecvTask) : Prop where
  inv : db.Inv
  marking : ∀ a channels max eligible todo,
    task = some ⟨a, channels, max, .marking eligible todo⟩ → Marking db a eligible todo

def NoneLost (db : SqliteDb) (task : Option RecvTask) (owed : List (AgentId × Nat)) : Prop :=
  ∀ o ∈ owed, Undelivered db o ∨ o ∈ selected task

/-- Rows may have been stored, none was touched. -/
structure Extends (db db' : SqliteDb) : Prop where
  messages : ∀ m ∈ db.messages, m ∈ db'.messages
  inv : db.Inv → db'.Inv

theorem Extends.of_same (hm : db'.messages = db.messages) (hc : db'.autoincrement = db.autoincrement) :
    Extends db db' :=
  ⟨fun _ h => hm ▸ h, fun h => h.effect (.of_same hm hc)⟩

theorem Extends.ok (h : Extends db db') (hok : Ok db task) : Ok db' task := by
  refine ⟨h.inv hok.inv, fun a channels max eligible todo ht => ?_⟩
  obtain ⟨hne, hnd, ⟨done, hsplit, hdone⟩, hrest⟩ := hok.marking a channels max eligible todo ht
  refine ⟨hne, hnd, ⟨done, hsplit, fun row hrow => ?_⟩, fun row hrow => ?_⟩
  · obtain ⟨m, hm, hmem⟩ := hdone row hrow
    exact ⟨m, h.messages m hm, hmem⟩
  · exact ⟨h.messages row (hrest row hrow).1, (hrest row hrow).2⟩

theorem Extends.noneLost (h : Extends db db') (hsafe : NoneLost db task owed) :
    NoneLost db' task owed := by
  intro o ho
  refine (hsafe o ho).imp_left ?_
  rintro ⟨m, hm, hmem⟩
  exact ⟨m, h.messages m hm, hmem⟩

theorem selected_of_unselected (ht : RecvSys.Unselected task) : selected task = [] := by
  unfold selected
  split
  · exact absurd rfl (ht _ _ _ _ _)
  · rfl

/-- A call that has selected nothing may become any call, or be gone. -/
theorem NoneLost.of_unselected {task' : Option RecvTask} (ht : RecvSys.Unselected task)
    (h : NoneLost db task owed) : NoneLost db task' owed := by
  intro o ho
  refine (h o ho).imp_right fun hs => ?_
  rw [selected_of_unselected ht] at hs
  cases hs

theorem Ok.unselected {task' : Option RecvTask} (h : Ok db task) (ht : RecvSys.Unselected task') :
    Ok db task' :=
  ⟨h.inv, fun a channels max eligible todo he => absurd he (ht a channels max eligible todo)⟩

/-! ### One `UPDATE` -/

theorem Undelivered.mark {ids : List Nat} (h : Undelivered db o) (ho : o.1 = a → o.2 ∉ ids) :
    Undelivered { db with messages := markDelivered a ids db.messages } o := by
  obtain ⟨m, hm, hid, hno⟩ := h
  refine ⟨_, List.mem_map_of_mem hm, ?_, ?_⟩
  · split <;> simp [hid]
  · split
    · rename_i hsel
      rw [decide_eq_true_eq, hid] at hsel
      rw [StoredMessage.mem_deliver, not_or]
      exact ⟨hno, fun ha => ho ha hsel⟩
    · exact hno

theorem Delivered.mark {ids : List Nat} (h : Delivered db o) :
    Delivered { db with messages := markDelivered a ids db.messages } o := by
  obtain ⟨m, hm, hid, ha⟩ := h
  exact exists_markWhere.2 ⟨m, hm, hid, .inl ha⟩

theorem Marking.markRow_eq (h : Marking db a eligible (row :: todo)) (hdb : db.Inv) :
    db.markRow a row = { db with messages := markDelivered a [row.id] db.messages } := by
  obtain ⟨hrow, ha⟩ := h.rest row (by simp)
  refine SqliteDb.markRow_eq (fun m hm hid => ?_) ha
  rw [List.inj_on_of_nodup_map hdb.ids_nodup hm hrow hid]

theorem Marking.update (h : Marking db a eligible (row :: todo)) (hdb : db.Inv) :
    (db.markRow a row).Inv ∧ Marking (db.markRow a row) a eligible todo := by
  obtain ⟨hrow, ha⟩ := h.rest row (by simp)
  rw [h.markRow_eq hdb]
  refine ⟨hdb.effect (.mark a (fun m => decide (m.id ∈ [row.id])) rfl rfl), h.ne, h.nodup, ?_, ?_⟩
  · obtain ⟨done, hsplit, hdone⟩ := h.split
    refine ⟨done ++ [row], by simp [hsplit], fun r hr => ?_⟩
    rcases List.mem_append.1 hr with hr | hr
    · exact (hdone r hr).mark
    · obtain rfl := List.mem_singleton.1 hr
      exact exists_markWhere.2 ⟨r, hrow, rfl, .inr ⟨rfl, by simp⟩⟩
  · -- the other rows have other ids
    intro r hr
    obtain ⟨hr', har⟩ := h.rest r (by simp [hr])
    have hne : r.id ≠ row.id := by
      obtain ⟨done, hsplit, -⟩ := h.split
      have hnd := h.nodup
      rw [hsplit, List.map_append, List.nodup_append] at hnd
      have hcons := hnd.2.1
      rw [List.map_cons, List.nodup_cons] at hcons
      exact fun he => hcons.1 (he ▸ List.mem_map_of_mem hr)
    exact ⟨List.mem_map.2 ⟨r, hr', by simp [hne]⟩, har⟩

theorem Marking.update_noneLost (h : Marking db a eligible (row :: todo)) (hdb : db.Inv)
    (hsafe : NoneLost db (some ⟨a, channels, max, .marking eligible (row :: todo)⟩) owed) :
    NoneLost (db.markRow a row) (some ⟨a, channels, max, .marking eligible todo⟩) owed := by
  obtain ⟨done, hsplit, -⟩ := h.split
  intro o ho
  rcases hsafe o ho with hu | hs
  · by_cases hmark : o = (a, row.id)
    · exact .inr (List.mem_map.2 ⟨row, by simp [hsplit], hmark.symm⟩)
    · refine .inl ?_
      rw [h.markRow_eq hdb]
      exact hu.mark fun ha hid => hmark (Prod.ext ha (List.mem_singleton.1 hid))
  · exact .inr hs

/-- The rows that a `SELECT` gives are pending as they are read. -/
theorem Marking.select (hdb : db.Inv) {patterns : List Pattern} (hne : eligible ≠ [])
    (hel : eligible = SqliteDb.eligibleRows a channels patterns max (sortMessages db.messages)) :
    Marking db a eligible eligible := by
  have hsub : eligible.Sublist (inbox (wants channels patterns) a (sortMessages db.messages)) :=
    hel ▸ SqliteDb.eligibleRows_eq .. ▸ List.take_sublist ..
  refine ⟨hne, ?_, ⟨[], rfl, by simp⟩, fun row hrow => ?_⟩
  · have hnd : ((sortMessages db.messages).map (·.id)).Nodup :=
      (((sortMessages_perm _).map _).nodup_iff).2 hdb.ids_nodup
    exact (inbox_ids_nodup hnd).sublist (hsub.map _)
  · obtain ⟨hm, ha, -⟩ := mem_inbox.1 (hsub.subset hrow)
    exact ⟨mem_sortMessages.1 hm, ha⟩

/-! ### Steps -/

theorem mem_returnedNow_finish (r : RecvSys Unit) (messages : List Message) (x : Txn Unit SqliteDb) :
    returnedNow r { r.finish () a messages with db := x } =
      messages.map fun m => (a, m.messageId) := by
  simp [returnedNow, RecvSys.finish, RecvSys.setTask]

theorem NoneLost.filter {p : AgentId × Nat → Bool} (h : NoneLost db task owed) :
    NoneLost db task (owed.filter p) := fun o ho => h o (List.mem_of_mem_filter ho)

variable (owed) in
/-- A step of the `recv` under way keeps the invariant; what it owes is pending, in its hands or
returned. -/
theorem recv_step {r r' : RecvSys Unit} {act : RecvSys.Action Unit}
    (hok : Ok (r.db.view ()) (r.task ())) (hstep : r.step act = some r') :
    Ok (r'.db.view ()) (r'.task ()) ∧ (NoneLost (r.db.view ()) (r.task ()) owed →
      NoneLost (r'.db.view ()) (r'.task ()) (owed.filter (· ∉ returnedNow r r'))) := by
  cases RecvSys.step_cases hstep with
  | wait hp ht =>
    rw [RecvSys.setTask_self]
    exact ⟨hok.unselected ht, fun hsafe => (hsafe.of_unselected hp).filter⟩
  | empty a hp =>
    rw [RecvSys.finish, RecvSys.setTask_self]
    exact ⟨hok.unselected (by rintro _ _ _ _ _ ⟨⟩), fun hsafe => (hsafe.of_unselected hp).filter⟩
  | select hp hel hne =>
    rw [RecvSys.setTask_self]
    refine ⟨⟨hok.inv, fun _ _ _ _ _ he => ?_⟩, fun hsafe => (hsafe.of_unselected hp).filter⟩
    cases he
    exact Marking.select hok.inv hne hel
  | @update p a channels max row eligible todo y hp hy =>
    rw [hp] at hok ⊢
    have hm := hok.marking a channels max eligible (row :: todo) rfl
    obtain ⟨hinv, hmarking⟩ := hm.update hok.inv
    show Ok (y.view ()) ((r.setTask p _).task ()) ∧ (_ → NoneLost (y.view ()) ((r.setTask p _).task ()) _)
    rw [RecvSys.setTask_self, Txn.view_write hy]
    refine ⟨⟨hinv, fun _ _ _ _ _ he => ?_⟩, fun hsafe => ?_⟩
    · cases he
      exact hmarking
    · exact (hm.update_noneLost hok.inv hsafe).filter
  | @commit p a channels max eligible hp =>
    rw [hp] at hok ⊢
    rw [mem_returnedNow_finish]
    show Ok ((r.db.commit p).view ()) ((r.setTask p none).task ()) ∧
      (_ → NoneLost ((r.db.commit p).view ()) ((r.setTask p none).task ()) _)
    rw [RecvSys.setTask_self, Txn.view_commit]
    refine ⟨hok.unselected (by rintro _ _ _ _ _ ⟨⟩), fun hsafe o ho => ?_⟩
    obtain ⟨ho, hnot⟩ := List.mem_filter.1 ho
    refine (hsafe o ho).imp_right fun hs => ?_
    -- what was in the hands of the call is returned
    obtain ⟨row, hrow, rfl⟩ := List.mem_map.1 hs
    rw [decide_eq_true_eq] at hnot
    exact absurd (List.mem_map.2 ⟨row.toWire, List.mem_map_of_mem hrow, rfl⟩) hnot

/-- When a call that has selected its rows ends without returning them, none is lost if and only if it
has marked none. -/
theorem Marking.abandon_iff (h : Marking db a eligible todo) (hdb : db.Inv)
    (hsafe : ∀ o ∈ owed, Undelivered db o ∨ ∃ row ∈ eligible, o = (a, row.id)) :
    NoneLost db none (owed ++ eligible.map fun row => (a, row.id)) ↔
      todo.length = eligible.length := by
  obtain ⟨done, rfl, hdone⟩ := h.split
  rw [List.length_append]
  constructor
  · intro hnone
    cases done with
    | nil => simp
    | cons row done =>
      have hmem : (a, row.id) ∈ owed ++ ((row :: done) ++ todo).map fun row => (a, row.id) := by simp
      exact absurd ((hnone _ hmem).resolve_right fun hs => nomatch hs)
        ((hdone row (by simp)).not_undelivered hdb)
  · intro hlen
    have hnil : done = [] := List.length_eq_zero_iff.1 (by omega)
    subst hnil
    have hpending : ∀ row ∈ todo, Undelivered db (a, row.id) := fun row hrow =>
      ⟨row, (h.rest row hrow).1, rfl, (h.rest row hrow).2⟩
    intro o ho
    refine .inl ?_
    rcases List.mem_append.1 ho with ho | ho
    · rcases hsafe o ho with hu | ⟨row, hrow, rfl⟩
      · exact hu
      · exact hpending row hrow
    · obtain ⟨row, hrow, rfl⟩ := List.mem_map.1 ho
      exact hpending row hrow

theorem NoneLost.hands (h : NoneLost db (some ⟨a, channels, max, .marking eligible todo⟩) owed) :
    ∀ o ∈ owed, Undelivered db o ∨ ∃ row ∈ eligible, o = (a, row.id) := by
  intro o ho
  refine (h o ho).imp_right fun hs => ?_
  obtain ⟨row, hrow, rfl⟩ := List.mem_map.1 hs
  exact ⟨row, hrow, rfl⟩

section
variable {κ : Type} [DecidableEq κ] {s s' : Connection κ}

/-- The other coroutines store rows and touch none. -/
theorem send_extends {t t' : SendSys Unit κ} {act : SendSys.Action Unit κ}
    (hstep : SendSys.step t act = some t') : Extends (t.db.view ()) (t'.db.view ()) := by
  cases act with
  | send p k now args =>
    simp only [SendSys.step] at hstep
    split at hstep <;> cases hstep
    exact .of_same rfl rfl
  | heartbeat p k now agentId status ttl =>
    simp only [SendSys.step] at hstep
    split at hstep <;> cases hstep
    exact .of_same rfl rfl
  | next p k now =>
    obtain ⟨pc, -, hnext⟩ := Option.bind_eq_some_iff.1 hstep
    cases pc with
    | beat beatNow agentId status ttl =>
      obtain ⟨y, hy, rfl⟩ := Option.map_eq_some_iff.1 hnext
      show Extends _ (y.view ())
      rw [Txn.view_write hy]
      exact .of_same rfl rfl
    | beatUpserted =>
      cases hnext
      show Extends _ ((t.db.commit ()).view ())
      rw [Txn.view_commit]
      exact .of_same rfl rfl
    | ready => cases hnext; exact .of_same rfl rfl
    | haveSeq => cases hnext; exact .of_same rfl rfl
    | haveDepth sentAt args beat seq depth =>
      obtain ⟨y, hy, rfl⟩ := Option.map_eq_some_iff.1 hnext
      show Extends _ (y.view ())
      rw [Txn.view_write hy]
      exact ⟨fun m hm => List.mem_append_left _ hm, fun h => h.append rfl rfl⟩
    | inserted =>
      cases hnext
      show Extends _ ((t.db.commit ()).view ())
      rw [Txn.view_commit]
      exact .of_same rfl rfl

omit [DecidableEq κ] in
theorem abandon_task (x : Txn Unit SqliteDb) : (s.abandon x).task = none := by
  show (s.recvs.setTask () none).task () = none
  exact RecvSys.setTask_self none

omit [DecidableEq κ] in
theorem abandon_ok (x : Txn Unit SqliteDb) (hinv : (x.view ()).Inv) :
    Ok (s.abandon x).db (s.abandon x).task := by
  rw [abandon_task]
  exact ⟨hinv, fun _ _ _ _ _ he => nomatch he⟩

omit [DecidableEq κ] in
theorem nothingLost_abandon (x : Txn Unit SqliteDb) :
    NothingLost (s.abandon x) ↔ NoneLost (x.view ()) none (s.owed ++ selected s.task) := by
  rw [NothingLost, abandon_task]
  rfl

omit [DecidableEq κ] in
/-- A call that has selected nothing owes nothing more. -/
theorem nothingLost_abandon_unselected (hsel : selected s.task = []) (hsafe : NothingLost s)
    {x : Txn Unit SqliteDb} (hx : x.view () = s.db) : NothingLost (s.abandon x) := by
  rw [nothingLost_abandon, hsel, List.append_nil, hx]
  intro o ho
  refine (hsafe o ho).imp_right fun hs => ?_
  rw [hsel] at hs
  exact hs

/-- Every step keeps the invariant, and loses nothing if and only if it is no failure after an
`UPDATE`. -/
theorem step_lost {act : Action κ} (hok : Ok s.db s.task) (hsafe : NothingLost s)
    (hstep : s.step act = some s') :
    Ok s'.db s'.task ∧ (FailsUnmarked s act ↔ NothingLost s') := by
  cases act with
  | recv act =>
    obtain ⟨r, hr, rfl⟩ := Option.map_eq_some_iff.1 hstep
    obtain ⟨hok', hsafe'⟩ := recv_step s.owed hok hr
    exact ⟨hok', iff_of_true trivial (hsafe' hsafe)⟩
  | fail =>
    obtain ⟨task, ht, rfl⟩ := Option.map_eq_some_iff.1 hstep
    refine ⟨abandon_ok _ hok.inv, ?_⟩
    obtain ⟨a, channels, max, pc⟩ := task
    unfold FailsUnmarked
    rw [ht]
    cases pc with
    | start => exact iff_of_true trivial (nothingLost_abandon_unselected (by rw [ht]; rfl) hsafe rfl)
    | ready patterns =>
      exact iff_of_true trivial (nothingLost_abandon_unselected (by rw [ht]; rfl) hsafe rfl)
    | marking eligible todo =>
      rw [NothingLost, ht] at hsafe
      have hm := hok.marking a channels max eligible todo ht
      rw [nothingLost_abandon, ht]
      exact (hm.abandon_iff hok.inv (NoneLost.hands hsafe)).symm
  | cancel =>
    obtain ⟨task, ht, hstep⟩ := Option.bind_eq_some_iff.1 hstep
    obtain ⟨r, hr, rfl⟩ := Option.map_eq_some_iff.1 hstep
    obtain ⟨hok', -⟩ := recv_step [] hok hr
    refine ⟨abandon_ok _ hok'.inv, ?_⟩
    obtain ⟨a, channels, max, pc⟩ := task
    have htask : s.recvs.task () = some ⟨a, channels, max, pc⟩ := ht
    unfold FailsUnmarked
    rw [ht]
    cases pc with
    | start =>
      refine iff_of_true trivial (nothingLost_abandon_unselected (by rw [ht]; rfl) hsafe ?_)
      simp only [nextStatement, RecvSys.step, htask] at hr
      split at hr <;> cases hr <;> rfl
    | ready patterns =>
      refine iff_of_true trivial (nothingLost_abandon_unselected (by rw [ht]; rfl) hsafe ?_)
      simp only [nextStatement, RecvSys.step, htask] at hr
      split at hr <;> cases hr <;> rfl
    | marking eligible todo =>
      rw [NothingLost, ht] at hsafe
      have hm := hok.marking a channels max eligible todo ht
      refine iff_of_false id ?_
      rw [nothingLost_abandon, ht]
      cases todo with
      | nil =>
        -- the COMMIT runs with every row marked
        simp only [nextStatement, RecvSys.step, htask, Option.some.injEq] at hr
        subst hr
        rw [show Txn.view _ () = s.db from Txn.view_commit ..]
        intro hnone
        have hlen := (hm.abandon_iff hok.inv (NoneLost.hands hsafe)).1 hnone
        exact hm.ne (List.length_eq_zero_iff.1 hlen.symm)
      | cons row todo =>
        -- the UPDATE runs and marks the row
        simp only [nextStatement, RecvSys.step, htask] at hr
        obtain ⟨y, hy, rfl⟩ := Option.map_eq_some_iff.1 hr
        show ¬NoneLost (y.view ()) none _
        rw [Txn.view_write hy]
        obtain ⟨hinv, hmarked⟩ := hm.update hok.inv
        intro hnone
        have hlen := (hmarked.abandon_iff hinv (hm.update_noneLost hok.inv hsafe).hands).1 hnone
        obtain ⟨done, hsplit, -⟩ := hm.split
        simp only [hsplit, List.length_append, List.length_cons] at hlen
        omega
  | send act =>
    obtain ⟨t, ht, rfl⟩ := Option.map_eq_some_iff.1 hstep
    have hext := send_extends ht
    exact ⟨hext.ok hok, iff_of_true trivial (hext.noneLost hsafe)⟩
  | subscribe k agentId pattern =>
    simp only [step] at hstep
    split at hstep
    · cases hstep
    obtain ⟨y, hy, rfl⟩ := Option.map_eq_some_iff.1 hstep
    have hext : Extends s.db (y.view ()) := by
      rw [Txn.view_write hy]
      exact .of_same (SqliteDb.insertSubscription_messages pattern)
        (SqliteDb.insertSubscription_autoincrement pattern)
    exact ⟨hext.ok hok, iff_of_true trivial (hext.noneLost hsafe)⟩
  | subscribeCommit k =>
    simp only [step] at hstep
    split at hstep <;> cases hstep
    have hext : Extends s.db ((s.recvs.db.commit ()).view ()) := by
      rw [Txn.view_commit]
      exact .of_same rfl rfl
    exact ⟨hext.ok hok, iff_of_true trivial (hext.noneLost hsafe)⟩

/-- From every reachable database and in every run of the coroutines of one connection: a call fails
only before its first `UPDATE` if and only if in every state reached each message that a failed call
had selected is pending for its agent, in the hands of a later call or returned by one. -/
theorem failed_recv_loses_nothing_iff (ops : List StoreOp) (actions : List (Action κ))
    (hrun : (system κ).run (start κ (sqliteStore.applyAll ops SqliteStore.init).db) actions = some s) :
    (system κ).Guarded FailsUnmarked (start κ (sqliteStore.applyAll ops SqliteStore.init).db) actions ↔
      ∀ done t, done <+: actions →
        (system κ).run (start κ (sqliteStore.applyAll ops SqliteStore.init).db) done = some t →
        NothingLost t := by
  refine ActionSystem.guarded_iff (I := fun s => Ok s.db s.task)
    (fun s act s' hok hsafe hstep => step_lost hok hsafe hstep) ?_ (fun _ ho => nomatch ho) hrun
  exact ⟨SqliteStore.inv_reachable ops, fun _ _ _ _ _ he => nomatch he⟩

end

/-- Two messages wait for `bob`. -/
def twoWaiting : List StoreOp :=
  [.subscribe "bob" "ticket:*", .send 1 ⟨"ticket:1", "alice", .empty, none, none⟩,
    .send 2 ⟨"ticket:1", "alice", .empty, none, none⟩]

def bobSelects : List (Action Nat) :=
  [.recv (.call () "bob" none 50), .recv (.readPatterns ()), .recv (.select ())]

def aliceSends : List (Action Nat) :=
  .send (.send () 1 3 ⟨"ticket:1", "alice", .empty, none, none⟩) ::
    List.replicate 4 (.send (.next () 1 3))

/-- `bob`'s call fails after its `SELECT`, `alice` sends, and `bob`'s next call selects all three. -/
theorem failed_recv_loses_nothing_retried :
    let start := start Nat (sqliteStore.applyAll twoWaiting SqliteStore.init).db
    let actions := bobSelects ++ .fail :: aliceSends ++ bobSelects
    ∃ s, (system Nat).run start actions = some s ∧
      ∀ done t, done <+: actions → (system Nat).run start done = some t → NothingLost t := by
  have hrun := ActionSystem.run_final (by decide : ((system Nat).run
    (start Nat (sqliteStore.applyAll twoWaiting SqliteStore.init).db)
    (bobSelects ++ .fail :: aliceSends ++ bobSelects)).isSome = true)
  exact ⟨_, hrun, (failed_recv_loses_nothing_iff twoWaiting _ hrun).1 (by decide)⟩

/-- The second `UPDATE` of `bob`'s call raises, and the commit of `alice`'s send publishes the first:
that message is never returned. -/
theorem failed_recv_loses :
    ¬∀ ops (actions : List (Action Nat)) s,
      (system Nat).run (start Nat (sqliteStore.applyAll ops SqliteStore.init).db) actions = some s →
      NothingLost s := by
  intro h
  have hrun := ActionSystem.run_final (by decide : ((system Nat).run
    (start Nat (sqliteStore.applyAll twoWaiting SqliteStore.init).db)
    (bobSelects ++ .recv (.update ()) :: .fail :: aliceSends)).isSome = true)
  exact absurd (h twoWaiting _ _ hrun) (by decide)

end Connection

end Sox
