import Sox.Lib.Feed
import Sox.OwnAgent

/-!
# Restarts of the SQLite store

A process may die anywhere in an operation, and the next one opens the file again. What has not been
committed is gone; the transactions of an operation are committed one after another (`committed`). Along
any run of calls, restarts and deaths the file is numbered and delivers like that of one process: nothing
sent is lost, nothing is handed out twice, and a batch that a dying `recv` has committed is handed to nobody.
-/

namespace Sox

namespace SqliteStore

/-- What happens to the store: a call that returns, a restart, or the death of the process in a call after
some of its commits, with the restart after it. -/
inductive LifeEvent where
  | call (op : StoreOp)
  | restart
  | killed (op : StoreOp) (commits : Nat)

/-- The file after the given number of commits of the operation. The heartbeat commits the liveness record
before it sends; `unsubscribe` commits the patterns before the marks. -/
def committed : StoreOp → Nat → SqliteDb → SqliteDb
  | _, 0, db => db
  | .heartbeat now _ a status ttl, 1, db => db.upsertLiveness a status now (now + effectiveTtl ttl)
  | .unsubscribe a ps, 1, db => { db with subscriptions := (db.unsubscribe a ps).2.subscriptions }
  | op, _, db => (sqliteStore.apply op (opened db)).db

namespace LifeEvent

def live : LifeEvent → SqliteStore → SqliteStore
  | call op, s => sqliteStore.apply op s
  | restart, s => opened s.db
  | killed op n, s => opened (committed op n s.db)

/-- What the event returns to the agent. -/
def returned (a : AgentId) : LifeEvent → SqliteStore → List Message
  | call op, s => sqliteStore.received a op s
  | _, _ => []

/-- The ids of the messages that the operation takes from the mail of the agent. -/
def takes (a : AgentId) : StoreOp → SqliteDb → List Nat
  | .recv b channels max, db => if b = a then (db.recv b channels max).1.map (·.messageId) else []
  | .unsubscribe b ps, db => if b = a then (inbox (db.clearedBy b ps) b db.messages).map (·.id) else []
  | _, _ => []

/-- What the agent loses: what it discards itself, and what a dying operation of its has committed. -/
def lost (a : AgentId) : LifeEvent → SqliteStore → List Nat
  | call (.unsubscribe b ps), s => takes a (.unsubscribe b ps) s.db
  | killed (.recv b channels max) (_ + 1), s => takes a (.recv b channels max) s.db
  | killed (.unsubscribe b ps) (_ + 2), s => takes a (.unsubscribe b ps) s.db
  | _, _ => []

end LifeEvent

def after (es : List LifeEvent) (s : SqliteStore) : SqliteStore := es.foldl (fun s e => e.live s) s

/-- What the events return to the agent. -/
def returnedAll (a : AgentId) (es : List LifeEvent) (s : SqliteStore) : List Message :=
  Feed.collect ⟨fun e s => (LifeEvent.returned a e s, e.live s)⟩ es s

def lostAll (a : AgentId) (es : List LifeEvent) (s : SqliteStore) : List Nat :=
  Feed.collect ⟨fun e s => (LifeEvent.lost a e s, e.live s)⟩ es s

/-! ### One event -/

/-- The effect of an operation on the messages, as ledger events. -/
def opSteps : StoreOp → SqliteDb → List (Ledger.Event AgentId Nat)
  | .send .., db => [.post (db.autoincrement + 1)]
  | .heartbeat .., db => [.post (db.autoincrement + 1)]
  | .recv a channels max, db => [.hand a ((db.recv a channels max).1.map (·.messageId))]
  | .unsubscribe a ps, db => [.drop a ((inbox (db.clearedBy a ps) a db.messages).map (·.id))]
  | _, _ => []

/-- Whether that many commits of the operation have changed the messages. -/
def reaches : StoreOp → Nat → Bool
  | .heartbeat .., n => decide (2 ≤ n)
  | .unsubscribe .., n => decide (2 ≤ n)
  | _, n => decide (1 ≤ n)

def steps : LifeEvent → SqliteStore → List (Ledger.Event AgentId Nat)
  | .call op, s => opSteps op s.db
  | .restart, _ => []
  | .killed op n, s => if reaches op n then opSteps op s.db else []

variable {s : SqliteStore} {db : SqliteDb} {op : StoreOp} {a : AgentId}

theorem committed_messages (op : StoreOp) (n : Nat) (db : SqliteDb) : (committed op n db).messages =
    if reaches op n then (sqliteStore.apply op (opened db)).db.messages else db.messages := by
  rcases n with _ | _ | n
  · cases op <;> rfl
  · cases op <;> rfl
  · cases op <;> rfl

theorem committed_effect (op : StoreOp) (n : Nat) (h : db.Inv) : SqliteDb.Effect db (committed op n db) := by
  have heffect : SqliteDb.Effect db (sqliteStore.apply op (opened db)).db := apply_effect op (opened db) h
  rcases n with _ | _ | n
  · cases op <;> exact .of_same rfl rfl
  · cases op with
    | heartbeat | unsubscribe => exact .of_same rfl rfl
    | _ => exact heffect
  · cases op <;> exact heffect

theorem opSteps_steps (op : StoreOp) (h : s.db.Inv) :
    (ledger s.db.messages).Steps (opSteps op s.db) (ledger (sqliteStore.apply op s).db.messages) := by
  have hfresh : ∀ now args seq, (s.db.newRow now args seq).id ∉ s.db.messages.map (·.id) := by
    intro now args seq hmem
    obtain ⟨m, hm, he⟩ := List.mem_map.1 hmem
    exact absurd (SqliteDb.newRow_fresh h now args seq m hm) (he ▸ Nat.lt_irrefl _)
  have quiet : (sqliteStore.apply op s).db.messages = s.db.messages →
      (ledger s.db.messages).Steps [] (ledger (sqliteStore.apply op s).db.messages) := fun hm => hm ▸ .nil
  cases op with
  | send now args => exact .single (ledger_append_step (hfresh now args _) rfl)
  | heartbeat now sendNow a status ttl =>
    exact .single (ledger_append_step (hfresh sendNow (presenceArgs a status now) _) rfl)
  | recv a channels max => exact .single (.hand (recv_takes h))
  | unsubscribe a ps => exact .single (.drop (unsubscribe_takes h ps))
  | groupInvite now a g b =>
    refine quiet ?_
    show (s.groupInvite now a g b).2.db.messages = s.db.messages
    rw [groupInvite]
    split <;> rfl
  | subscribe | groupCreate | groupJoin => exact quiet (SqliteDb.insertSubscription_messages _)
  | ack | groupLeave => exact quiet rfl

theorem steps_live (e : LifeEvent) (h : s.db.Inv) :
    (ledger s.db.messages).Steps (steps e s) (ledger (e.live s).db.messages) := by
  cases e with
  | call op => exact opSteps_steps op h
  | restart => exact .nil
  | killed op n =>
    have hop := opSteps_steps (s := opened s.db) op h
    show (ledger s.db.messages).Steps (if reaches op n then opSteps op s.db else [])
      (ledger (committed op n s.db).messages)
    rw [committed_messages]
    split
    · exact hop
    · exact .nil

/-- The agent is given what is returned to it and what it loses. -/
theorem given_steps (a : AgentId) (e : LifeEvent) (s : SqliteStore) :
    Ledger.given a (steps e s) = (e.returned a s).map (·.messageId) ++ e.lost a s := by
  cases e with
  | call op =>
    cases op with
    | recv b channels max =>
      by_cases hb : b = a <;>
        simp [steps, opSteps, Ledger.given, LifeEvent.returned, LifeEvent.lost, BackingStore.received, hb,
          sqliteStore, onDb]
    | _ => simp [steps, opSteps, Ledger.given, LifeEvent.returned, LifeEvent.lost, LifeEvent.takes,
        BackingStore.received]
  | restart => rfl
  | killed op n =>
    rcases n with _ | _ | n <;> cases op <;>
      simp [steps, reaches, opSteps, Ledger.given, LifeEvent.returned, LifeEvent.lost, LifeEvent.takes]

/-! ### Runs -/

/-- The file is in order: ids ascend under the counter, and every channel is numbered 1, …, n. -/
def Sound (s : SqliteStore) : Prop := s.db.Inv ∧ Gapless s.db.messages

theorem Sound.live (h : s.Sound) (e : LifeEvent) : (e.live s).Sound := by
  obtain ⟨hinv, hgap⟩ := h
  cases e with
  | call op => exact ⟨inv_apply op s hinv, SqliteDb.gapless_effect hgap (apply_effect op s hinv)⟩
  | restart => exact ⟨hinv, hgap⟩
  | killed op n =>
    have heffect := committed_effect op n hinv
    exact ⟨hinv.effect heffect, SqliteDb.gapless_effect hgap heffect⟩

theorem Sound.after (h : s.Sound) (es : List LifeEvent) : (s.after es).Sound := by
  induction es generalizing s with
  | nil => exact h
  | cons e es ih => exact ih (h.live e)

theorem sound_init : init.Sound := ⟨inv_init, fun _ => rfl⟩

theorem run_steps (h : s.Sound) (es : List LifeEvent) (a : AgentId) : ∃ ss,
    (ledger s.db.messages).Steps ss (ledger (s.after es).db.messages) ∧
      (Ledger.given a ss).Perm ((returnedAll a es s).map (·.messageId) ++ lostAll a es s) := by
  induction es generalizing s with
  | nil => exact ⟨[], .nil, .nil⟩
  | cons e es ih =>
    obtain ⟨ss, hss, hgiven⟩ := ih (h.live e)
    refine ⟨steps e s ++ ss, (steps_live e h.1).append hss, ?_⟩
    have hreturned : returnedAll a (e :: es) s = e.returned a s ++ returnedAll a es (e.live s) := rfl
    have hlost : lostAll a (e :: es) s = e.lost a s ++ lostAll a es (e.live s) := rfl
    rw [Ledger.given_append, given_steps, hreturned, hlost, List.map_append, List.append_assoc, List.append_assoc]
    refine List.Perm.append_left _ ((hgiven.append_left _).trans ?_)
    rw [← List.append_assoc, ← List.append_assoc]
    exact List.perm_append_comm.append_right _

/-- The messages stay as they are on the wire, in their order. -/
theorem wires_live (e : LifeEvent) (h : s.db.Inv) : wires s.db.messages <+: wires (e.live s).db.messages := by
  have hcall : ∀ op (s : SqliteStore), s.db.Inv → wires s.db.messages <+: wires (sqliteStore.apply op s).db.messages :=
    fun op s h => (appends_apply op h).isPrefix
  cases e with
  | call op => exact hcall op s h
  | restart => exact List.prefix_refl _
  | killed op n =>
    show wires s.db.messages <+: wires (committed op n s.db).messages
    rw [committed_messages]
    split
    · exact hcall op (opened s.db) h
    · exact List.prefix_refl _

theorem wires_after (h : s.Sound) (es : List LifeEvent) : wires s.db.messages <+: wires (s.after es).db.messages := by
  induction es generalizing s with
  | nil => exact List.prefix_refl _
  | cons e es ih => exact (wires_live e h.1).trans (ih (h.live e))

theorem mem_wires_of_returned (h : s.db.Inv) {e : LifeEvent} {m : Message} (hm : m ∈ e.returned a s) :
    m ∈ wires s.db.messages := by
  cases e with
  | call op =>
    cases op with
    | recv b channels max =>
      have hmem : m ∈ if b = a then (s.db.recv b channels max).1 else [] := hm
      split at hmem
      · rw [SqliteDb.recv_eq h.ids_nodup] at hmem
        obtain ⟨x, hx, rfl⟩ := List.mem_map.1 hmem
        exact List.mem_map_of_mem (SqliteDb.mem_pending (List.mem_of_mem_take hx)).1
      · exact absurd hmem List.not_mem_nil
    | _ => exact absurd hm List.not_mem_nil
  | restart | killed => exact absurd hm List.not_mem_nil

theorem mem_wires_of_returnedAll (h : s.Sound) {es : List LifeEvent} {m : Message} (hm : m ∈ returnedAll a es s) :
    m ∈ wires (s.after es).db.messages := by
  induction es generalizing s with
  | nil => exact absurd hm List.not_mem_nil
  | cons e es ih =>
    rcases List.mem_append.1 (show m ∈ e.returned a s ++ returnedAll a es (e.live s) from hm) with hm | hm
    · exact (wires_after h (e :: es)).subset (mem_wires_of_returned h.1 hm)
    · exact ih (h.live e) hm

/-! ### What is kept in memory -/

/-- The calls since the process that lives was started. -/
def callsSince (es : List LifeEvent) : List StoreOp :=
  es.foldl (fun calls e =>
    match e with
    | .call op => calls ++ [op]
    | .restart | .killed .. => []) []

/-- The acknowledgements and the groups. -/
def memory (s : SqliteStore) : Dict String AckRecord × Dict String (List Member) := (s.ackRecords, s.groups)

theorem memory_apply {t : SqliteStore} (h : s.memory = t.memory) (op : StoreOp) :
    (sqliteStore.apply op s).memory = (sqliteStore.apply op t).memory := by
  obtain ⟨db, ackRecords, groups⟩ := s
  obtain ⟨db', ackRecords', groups'⟩ := t
  obtain ⟨rfl, rfl⟩ : ackRecords = ackRecords' ∧ groups = groups' := Prod.mk.inj h
  cases op with
  | groupInvite now b g c =>
    show (groupInvite now b g c _).2.memory = (groupInvite now b g c _).2.memory
    rw [groupInvite, groupInvite]
    split <;> rfl
  | _ => rfl

theorem memory_after (es : List LifeEvent) :
    (init.after es).memory = (sqliteStore.applyAll (callsSince es) init).memory := by
  induction es using List.reverseRecOn with
  | nil => rfl
  | append_singleton es e ih =>
    rw [after, List.foldl_append, ← after]
    rw [callsSince, List.foldl_append, ← callsSince]
    cases e with
    | call op =>
      show (sqliteStore.apply op (init.after es)).memory = (sqliteStore.applyAll (callsSince es ++ [op]) init).memory
      rw [BackingStore.applyAll_append]
      exact memory_apply ih op
    | restart | killed => rfl

/-- What a run is to an agent. -/
structure Delivered (es : List LifeEvent) (a : AgentId) : Prop where
  /-- No message is returned or lost twice. -/
  once : ((returnedAll a es init).map (·.messageId) ++ lostAll a es init).Nodup
  /-- The others wait. -/
  waits : ∀ m ∈ (init.after es).db.messages, a ∉ m.deliveredTo ↔
    m.id ∉ (returnedAll a es init).map (·.messageId) ∧ m.id ∉ lostAll a es init
  /-- What is returned is stored. -/
  intact : ∀ m ∈ returnedAll a es init, m ∈ wires (init.after es).db.messages

theorem delivered (es : List LifeEvent) (a : AgentId) : Delivered es a := by
  obtain ⟨ss, hss, hgiven⟩ := run_steps sound_init es a
  obtain ⟨hnd, -, htaken⟩ := hss.given_spec a
  refine ⟨hgiven.nodup_iff.1 hnd, fun m hm => ?_, fun m hm => mem_wires_of_returnedAll sound_init hm⟩
  have hids := (sound_init.after es).1.ids_nodup
  have hmem : m.id ∈ (ledger (init.after es).db.messages).taken a ↔ a ∈ m.deliveredTo := by
    constructor
    · rintro ⟨n, hn, hid, ha⟩
      rwa [← List.inj_on_of_nodup_map hids hn hm hid]
    · exact fun ha => ⟨m, hm, rfl, ha⟩
  have hnone : m.id ∉ (ledger init.db.messages).taken a := by
    rintro ⟨n, hn, -⟩
    exact absurd hn List.not_mem_nil
  rw [← hmem, htaken, or_iff_right hnone, hgiven.mem_iff, List.mem_append, not_or]

/-- The SQLite store over any run of calls, restarts and deaths of the process in the middle of calls: every
channel stays numbered 1, …, n; every message is returned or lost to an agent at most once, and waits until
then; a `send` that has returned is stored for good, with the id and the number of its receipt; and
acknowledgements and groups are those of the calls since the last restart. -/
theorem sqlite_survives_kills (es : List LifeEvent) :
    Gapless (init.after es).db.messages ∧
    (∀ a, Delivered es a) ∧
    (∀ es₁ now args es₂, es = es₁ ++ .call (.send now args) :: es₂ →
      let receipt := (sqliteStore.send now args (init.after es₁)).1
      ∃ m ∈ wires (init.after es).db.messages, m.messageId = receipt.messageId ∧ m.seq = receipt.seq ∧
        m.sentAt = receipt.sentAt ∧ m.envelope = args.envelope) ∧
    (init.after es).memory = (sqliteStore.applyAll (callsSince es) init).memory := by
  refine ⟨(sound_init.after es).2, delivered es, ?_, memory_after es⟩
  rintro es₁ now args es₂ rfl receipt
  have hsound := (sound_init.after es₁).live (.call (.send now args))
  have hrun : init.after (es₁ ++ .call (.send now args) :: es₂) =
      ((LifeEvent.call (.send now args)).live (init.after es₁)).after es₂ := List.foldl_append
  rw [hrun]
  let m := (init.after es₁).db.newRow now args ((init.after es₁).db.nextSeq args.channel)
  refine ⟨m.toWire, (wires_after hsound es₂).subset ?_, rfl, rfl, rfl, rfl⟩
  exact List.mem_map_of_mem (List.mem_append_right _ (List.mem_singleton_self m))

/-- The process dies after bob's `recv` has committed: bob never sees the ticket. -/
example :
    let es : List LifeEvent := [.call (.send 1 ⟨"ticket:1", "alice", .empty, none, none⟩),
      .killed (.recv "bob" (some ["ticket:1"]) 50) 1, .call (.recv "bob" (some ["ticket:1"]) 50)]
    (returnedAll "bob" es init).length = 0 ∧ lostAll "bob" es init = [1] := by decide +kernel

end SqliteStore

end Sox
