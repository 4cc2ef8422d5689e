import Sox.EnvelopeTrip
import Sox.Groups

/-!
# What an operation does to the other agents

Every operation of the port acts for one agent. It writes a message that nobody has read, or marks
messages as read by its agent, and does neither to anybody else (`Touches`). Along a run without an
operation of an agent, what the agent has read, its patterns and its liveness stay, and its unread mail
grows by what the others write (`Holdings.Lawful.run_alone`).
-/

namespace Sox

namespace StoreOp

/-- The agent on whose behalf the store acts. -/
def agent : StoreOp → AgentId
  | send _ args => args.sender
  | recv a _ _ => a
  | subscribe a _ => a
  | unsubscribe a _ => a
  | ack _ a _ _ _ => a
  | heartbeat _ _ a _ _ => a
  | groupCreate _ a _ => a
  | groupInvite _ a _ _ => a
  | groupJoin _ a _ => a
  | groupLeave _ a _ => a

theorem agent_change (op : StoreOp) : (StoreCall.change op).agent = some op.agent := by cases op <;> rfl

/-- What the readers see of the message that the operation writes. -/
def writes (op : StoreOp) : Option MessageEnvelope := op.sends.map (·.2.envelope)

end StoreOp

/-! ### The messages -/

/-- What an operation of the agent does to the messages. -/
inductive Touches (a : AgentId) (l : List StoredMessage) : Option MessageEnvelope → List StoredMessage → Prop
  | writes (m : StoredMessage) (h : m.deliveredTo = []) : Touches a l (some m.toWire.envelope) (l ++ [m])
  | marks (sel : StoredMessage → Bool) : Touches a l none (markWhere a sel l)

/-- What the readers see of the messages of a store. -/
def envelopes (l : List StoredMessage) : List MessageEnvelope := (wires l).map (·.envelope)

/-- What the agent has not been given. -/
def unread (b : AgentId) (l : List StoredMessage) : List StoredMessage := inbox (fun _ => true) b l

/-- What it has been given, or has discarded. -/
def readBy (b : AgentId) (l : List StoredMessage) : List StoredMessage := l.filter (b ∈ ·.deliveredTo)

/-- The unread mail of the agent has grown by `news`, and it has read nothing. -/
structure Undisturbed (b : AgentId) (news : List MessageEnvelope) (l l' : List StoredMessage) : Prop where
  unread : ∃ new : List Message, wires (unread b l') = wires (unread b l) ++ new ∧
    new.map (·.envelope) = news
  readBy : wires (readBy b l') = wires (readBy b l)

section
variable {a b : AgentId} {w : Option MessageEnvelope} {news news' : List MessageEnvelope}
  {l l' l'' : List StoredMessage} {sel : StoredMessage → Bool}

theorem touches_nothing : Touches a l none l := by
  have hmarks := Touches.marks (a := a) (l := l) fun _ => false
  rwa [markWhere_none] at hmarks

theorem Touches.envelopes (h : Touches a l w l') :
    envelopes l' = envelopes l ++ w.toList := by
  cases h with
  | writes m hm => simp [envelopes, wires]
  | marks sel =>
    rw [envelopes, wires, map_markWhere _ fun m => m.deliver_toWire, Option.toList_none, List.append_nil]
    rfl

theorem readBy_markWhere_other (hb : b ≠ a) : wires (readBy b (markWhere a sel l)) = wires (readBy b l) := by
  induction l with
  | nil => rfl
  | cons m l ih =>
    have hm : (b ∈ (if sel m then m.deliver a else m).deliveredTo ↔ b ∈ m.deliveredTo) ∧
        (if sel m then m.deliver a else m).toWire = m.toWire := by
      split <;> simp [hb]
    simp only [wires, readBy, markWhere, List.map_cons, List.filter_cons, hm.1] at ih ⊢
    split
    · simp only [List.map_cons, hm.2, ih]
    · exact ih

theorem Touches.undisturbed (h : Touches a l w l') (hb : b ≠ a) : Undisturbed b w.toList l l' := by
  cases h with
  | writes m hm =>
    refine ⟨⟨[m.toWire], ?_, rfl⟩, ?_⟩
    · have hunread : m.awaits (fun _ => true) b = true := by simp [StoredMessage.awaits, hm]
      simp [unread, inbox, wires, hunread]
    · simp [readBy, wires, hm]
  | marks sel => exact ⟨⟨[], by rw [List.append_nil]; exact inbox_markWhere_other hb, rfl⟩, readBy_markWhere_other hb⟩

theorem Undisturbed.refl (b : AgentId) (l : List StoredMessage) : Undisturbed b [] l l :=
  ⟨⟨[], (List.append_nil _).symm, rfl⟩, rfl⟩

theorem Undisturbed.trans (h : Undisturbed b news l l') (h' : Undisturbed b news' l' l'') :
    Undisturbed b (news ++ news') l l'' := by
  obtain ⟨new, hnew, rfl⟩ := h.unread
  obtain ⟨new', hnew', rfl⟩ := h'.unread
  refine ⟨⟨new ++ new', ?_, List.map_append⟩, h'.readBy.trans h.readBy⟩
  rw [hnew', hnew, List.append_assoc]

end

/-! ### The stores -/

/-- What a store holds for its agents. -/
structure Holdings (σ : Type) where
  messages : σ → List StoredMessage
  patterns : σ → AgentId → List Pattern
  liveness : σ → AgentId → Option Liveness

namespace Holdings

variable {σ : Type} {B : BackingStore σ} {Inv : σ → Prop}

/-- An operation serves its agent, and takes nothing from another. -/
structure Lawful (X : Holdings σ) (B : BackingStore σ) (Inv : σ → Prop) : Prop where
  keeps : ∀ op s, Inv s → Inv (B.apply op s)
  touches : ∀ op s, Inv s → Touches op.agent (X.messages s) op.writes (X.messages (B.apply op s))
  patterns : ∀ op s b, Inv s → b ≠ op.agent → X.patterns (B.apply op s) b = X.patterns s b
  liveness : ∀ op s b, Inv s → b ≠ op.agent → X.liveness (B.apply op s) b = X.liveness s b

/-- The agent's part of the store is as before, but for news. -/
structure Alone (X : Holdings σ) (b : AgentId) (news : List MessageEnvelope) (s s' : σ) : Prop where
  mail : Undisturbed b news (X.messages s) (X.messages s')
  patterns : X.patterns s' b = X.patterns s b
  liveness : X.liveness s' b = X.liveness s b

namespace Lawful

variable {X : Holdings σ}

theorem run_envelopes (hX : X.Lawful B Inv) (ops : List StoreOp) {s : σ} (hs : Inv s) :
    envelopes (X.messages (B.applyAll ops s)) =
      envelopes (X.messages s) ++ ops.filterMap StoreOp.writes := by
  induction ops generalizing s with
  | nil => simp [BackingStore.applyAll]
  | cons op ops ih =>
    have hrest := ih (hX.keeps op s hs)
    rw [(hX.touches op s hs).envelopes, List.append_assoc] at hrest
    refine hrest.trans (congrArg _ ?_)
    cases hw : op.writes with
    | none => rw [List.filterMap_cons_none hw]; rfl
    | some w => rw [List.filterMap_cons_some hw]; rfl

theorem run_alone (hX : X.Lawful B Inv) {b : AgentId} (ops : List StoreOp) (hops : ∀ op ∈ ops, b ≠ op.agent)
    {s : σ} (hs : Inv s) : X.Alone b (ops.filterMap StoreOp.writes) s (B.applyAll ops s) := by
  induction ops generalizing s with
  | nil => exact ⟨.refl _ _, rfl, rfl⟩
  | cons op ops ih =>
    obtain ⟨hop, hops⟩ := List.forall_mem_cons.1 hops
    obtain ⟨hmail, hpatterns, hliveness⟩ := ih hops (hX.keeps op s hs)
    refine ⟨?_, hpatterns.trans (hX.patterns op s b hs hop), hliveness.trans (hX.liveness op s b hs hop)⟩
    have hfirst := ((hX.touches op s hs).undisturbed hop).trans hmail
    cases hw : op.writes with
    | none =>
      rw [List.filterMap_cons_none hw]
      rwa [hw] at hfirst
    | some w =>
      rw [List.filterMap_cons_some hw]
      rwa [hw] at hfirst

end Lawful

end Holdings

/-! ### Both stores -/

def MemoryStore.holdings : Holdings MemoryStore :=
  ⟨(·.messages), MemoryStore.patternsFor, fun s a => s.liveness.get? a⟩

def SqliteStore.holdings : Holdings SqliteStore :=
  ⟨(·.db.messages), (·.db.patternsFor), fun s a => s.db.liveness.get? a⟩

theorem MemoryStore.holdings_touches (op : StoreOp) (s : MemoryStore) :
    Touches op.agent s.messages op.writes (memoryStore.apply op s).messages := by
  cases op with
  | send now args => exact .writes (s.nextMessage now args) rfl
  | heartbeat now sendNow a status ttl => exact .writes (s.nextMessage now (presenceArgs a status now)) rfl
  | recv a channels max =>
    show Touches a s.messages none (s.recv a channels max).2.messages
    rw [recv_eq]
    exact .marks _
  | unsubscribe a ps =>
    show Touches a s.messages none (s.unsubscribe a ps).2.messages
    rw [unsubscribe_eq]
    exact .marks _
  | groupInvite now a g b =>
    show Touches a s.messages none (s.groupInvite now a g b).2.messages
    rw [groupInvite]
    split <;> exact touches_nothing
  | subscribe | ack | groupCreate | groupJoin | groupLeave => exact touches_nothing

theorem MemoryStore.patternsFor_apply_other (op : StoreOp) (s : MemoryStore) {b : AgentId} (hb : b ≠ op.agent) :
    (memoryStore.apply op s).patternsFor b = s.patternsFor b := by
  cases op with
  | subscribe a p => exact Dict.getD_set_of_ne hb
  | groupCreate now a gid => exact Dict.getD_set_of_ne hb
  | groupJoin now a g => exact Dict.getD_set_of_ne hb
  | groupLeave now a g => exact Dict.getD_set_of_ne hb
  | unsubscribe a ps => exact patternsFor_unsubscribe_other hb
  | groupInvite now a g c =>
    show (s.groupInvite now a g c).2.patternsFor b = _
    rw [groupInvite]
    split <;> rfl
  | send | recv | ack | heartbeat => rfl

theorem MemoryStore.holdings_lawful : holdings.Lawful memoryStore Inv where
  keeps := Inv.apply
  touches op s _ := holdings_touches op s
  patterns op s b _ hb := patternsFor_apply_other op s hb
  liveness op s b _ hb := by
    cases op with
    | heartbeat now sendNow a status ttl => exact Dict.get?_set_of_ne hb
    | groupInvite now a g c =>
      show (s.groupInvite now a g c).2.liveness.get? b = _
      rw [groupInvite]
      split <;> rfl
    | _ => rfl

theorem SqliteStore.holdings_touches (op : StoreOp) {s : SqliteStore} (h : s.db.Inv) :
    Touches op.agent s.db.messages op.writes (sqliteStore.apply op s).db.messages := by
  have hinsert (a : AgentId) (p : Pattern) :
      Touches a s.db.messages none (s.db.insertSubscription a p).messages := by
    rw [SqliteDb.insertSubscription_messages]
    exact touches_nothing
  cases op with
  | send now args => exact .writes (s.db.newRow now args (s.db.nextSeq args.channel)) rfl
  | heartbeat now sendNow a status ttl =>
    let args := presenceArgs a status now
    exact .writes (s.db.newRow sendNow args (s.db.nextSeq args.channel)) rfl
  | recv a channels max =>
    show Touches a s.db.messages none (s.db.recv a channels max).2.messages
    rw [SqliteDb.recv_eq h.ids_nodup]
    exact .marks _
  | unsubscribe a ps =>
    show Touches a s.db.messages none (s.db.unsubscribe a ps).2.messages
    rw [SqliteDb.unsubscribe_eq h.ids_nodup]
    exact .marks _
  | groupInvite now a g b =>
    show Touches a s.db.messages none (s.groupInvite now a g b).2.db.messages
    rw [groupInvite]
    split <;> exact touches_nothing
  | subscribe a p => exact hinsert a p
  | groupCreate now a gid => exact hinsert a _
  | groupJoin now a g => exact hinsert a g
  | ack | groupLeave => exact touches_nothing

theorem SqliteDb.patternsFor_insertSubscription_other {db : SqliteDb} {a b : AgentId} (hb : b ≠ a) (p : Pattern) :
    (db.insertSubscription a p).patternsFor b = db.patternsFor b := by
  rw [patternsFor_insertSubscription, if_neg hb]

theorem SqliteDb.patternsFor_deleteSubscription_other {db : SqliteDb} {a b : AgentId} (hb : b ≠ a) (p : Pattern) :
    (db.deleteSubscription a p).patternsFor b = db.patternsFor b := by
  simp only [patternsFor, deleteSubscription, List.filter_filter]
  refine congrArg (List.map Prod.snd) (List.filter_congr fun row _ => ?_)
  rw [Bool.and_eq_left_iff_imp]
  intro hrow
  rw [decide_eq_true_eq] at hrow ⊢
  rintro rfl
  exact hb hrow.symm

@[simp] theorem SqliteDb.insertSubscription_liveness {db : SqliteDb} {a : AgentId} (p : Pattern) :
    (db.insertSubscription a p).liveness = db.liveness := by
  rw [insertSubscription]
  split <;> rfl

theorem SqliteStore.patternsFor_apply_other (op : StoreOp) {s : SqliteStore} (h : s.db.Inv) {b : AgentId}
    (hb : b ≠ op.agent) : (sqliteStore.apply op s).db.patternsFor b = s.db.patternsFor b := by
  cases op with
  | subscribe a p => exact SqliteDb.patternsFor_insertSubscription_other hb p
  | groupCreate now a gid => exact SqliteDb.patternsFor_insertSubscription_other hb _
  | groupJoin now a g => exact SqliteDb.patternsFor_insertSubscription_other hb g
  | groupLeave now a g => exact SqliteDb.patternsFor_deleteSubscription_other hb g
  | unsubscribe a ps => exact SqliteDb.patternsFor_unsubscribe_other h.ids_nodup hb
  | recv a channels max =>
    show (s.db.recv a channels max).2.patternsFor b = _
    rw [SqliteDb.recv_eq h.ids_nodup]
    rfl
  | groupInvite now a g c =>
    show (s.groupInvite now a g c).2.db.patternsFor b = _
    rw [groupInvite]
    split <;> rfl
  | send | ack | heartbeat => rfl

theorem SqliteStore.holdings_lawful : holdings.Lawful sqliteStore (·.db.Inv) where
  keeps := inv_apply
  touches op s h := holdings_touches op h
  patterns op s b h hb := patternsFor_apply_other op h hb
  liveness op s b h hb := by
    cases op with
    | heartbeat now sendNow a status ttl => exact Dict.get?_set_of_ne hb
    | recv a channels max =>
      show (s.db.recv a channels max).2.liveness.get? b = _
      rw [SqliteDb.recv_eq h.ids_nodup]
      rfl
    | unsubscribe a ps =>
      show (s.db.unsubscribe a ps).2.liveness.get? b = _
      rw [SqliteDb.unsubscribe_eq h.ids_nodup]
      rfl
    | groupInvite now a g c =>
      show (s.groupInvite now a g c).2.db.liveness.get? b = _
      rw [groupInvite]
      split <;> rfl
    | subscribe | groupCreate | groupJoin =>
      exact congrArg (·.get? b) (SqliteDb.insertSubscription_liveness _)
    | send | ack | groupLeave => rfl

end Sox
