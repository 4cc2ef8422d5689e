import Mathlib.Data.List.Chain
import Sox.MemoryStore
import Sox.SqliteStore

/-!
# Acknowledgements

Both stores keep one record for each message id, that of the last acknowledgement of the message, by
whichever agent and of whichever status; none is rejected (`acks_last`). A record for each agent that only
moves forward is thus what they keep of a message that one agent alone acknowledges, never going back
(`acks_forward_iff`).
-/

namespace Sox

/-- What an operation records for the message. -/
def ackOf (messageId : String) : StoreOp → Option AckRecord
  | .ack now agentId mid status reason =>
    if mid = messageId then some { agentId, status, reason, ackedAt := now } else none
  | _ => none

def lastAck (messageId : String) (ops : List StoreOp) : Option AckRecord :=
  ops.reverse.findSome? (ackOf messageId)

/-- The records are those of the last acknowledgements, and every acknowledgement is accepted. -/
structure KeepsLastAck {σ : Type} (B : BackingStore σ) (records : σ → Dict String AckRecord) : Prop where
  accepted : ∀ now agentId messageId status reason s,
    (B.ack now agentId messageId status reason s).1 = { messageId, status, ackedAt := now }
  last : ∀ ops s messageId, (records (B.applyAll ops s)).get? messageId =
    (lastAck messageId ops).or ((records s).get? messageId)
  others : ∀ now agentId messageId status reason s other, other ≠ messageId →
    (records (B.ack now agentId messageId status reason s).2).get? other = (records s).get? other

section
variable {σ : Type} {B : BackingStore σ} {records : σ → Dict String AckRecord}

/-- From what one operation records to what a run records. -/
theorem get?_applyAll (hstep : ∀ op s messageId, (records (B.apply op s)).get? messageId =
      (ackOf messageId op).or ((records s).get? messageId))
    (ops : List StoreOp) (s : σ) (messageId : String) :
    (records (B.applyAll ops s)).get? messageId = (lastAck messageId ops).or ((records s).get? messageId) := by
  induction ops generalizing s with
  | nil => rfl
  | cons op ops ih =>
    have hrest := ih (B.apply op s)
    rw [hstep] at hrest
    rw [lastAck, List.reverse_cons, List.findSome?_append, List.findSome?_singleton, Option.or_assoc]
    exact hrest

theorem KeepsLastAck.of_step (haccepted : ∀ now agentId messageId status reason s,
      (B.ack now agentId messageId status reason s).1 = { messageId, status, ackedAt := now })
    (hstep : ∀ op s messageId, (records (B.apply op s)).get? messageId =
      (ackOf messageId op).or ((records s).get? messageId)) : KeepsLastAck B records where
  accepted := haccepted
  last := get?_applyAll hstep
  others now agentId messageId status reason s other hne := by
    have := hstep (.ack now agentId messageId status reason) s other
    rwa [ackOf, if_neg (Ne.symm hne), Option.none_or] at this

theorem get?_set_ack (records : Dict String AckRecord) (now : ℚ) (agentId : AgentId) (messageId status : String)
    (reason : Option String) (key : String) :
    (records.set messageId { agentId, status, reason, ackedAt := now }).get? key =
      (ackOf key (.ack now agentId messageId status reason)).or (records.get? key) := by
  rw [Dict.get?_set, ackOf]
  by_cases h : messageId = key
  · rw [if_pos h.symm, if_pos h, Option.some_or]
  · rw [if_neg (Ne.symm h), if_neg h, Option.none_or]

end

/-! ### The stores -/

theorem memoryStore_keepsLastAck : KeepsLastAck memoryStore (·.ackRecords) := by
  refine .of_step (fun _ _ _ _ _ _ => rfl) fun op s key => ?_
  cases op with
  | ack now agentId messageId status reason =>
    exact get?_set_ack s.ackRecords now agentId messageId status reason key
  | groupInvite now a gid b =>
    simp only [BackingStore.apply, memoryStore, MemoryStore.groupInvite]
    split <;> rfl
  | _ => rfl

theorem sqliteStore_keepsLastAck : KeepsLastAck sqliteStore (·.ackRecords) := by
  refine .of_step (fun _ _ _ _ _ _ => rfl) fun op s key => ?_
  cases op with
  | ack now agentId messageId status reason =>
    exact get?_set_ack s.ackRecords now agentId messageId status reason key
  | groupInvite now a gid b =>
    simp only [BackingStore.apply, sqliteStore, SqliteStore.groupInvite]
    split <;> rfl
  | _ => rfl

theorem acks_last : KeepsLastAck memoryStore (·.ackRecords) ∧ KeepsLastAck sqliteStore (·.ackRecords) :=
  ⟨memoryStore_keepsLastAck, sqliteStore_keepsLastAck⟩

/-! ### The lifecycle of one agent's acknowledgements -/

def stage : String → Nat
  | "received" => 1
  | "processing" => 2
  | "done" => 3
  | "nack" => 3
  | _ => 0

/-- `pending → received → processing → done | nack`, where only a step forward counts. -/
def furthest (statuses : List String) : String :=
  statuses.foldl (fun reached status => if stage reached < stage status then status else reached) "pending"

/-- The acknowledgements of a message. -/
def acksOf (messageId : String) (ops : List StoreOp) : List AckRecord := ops.filterMap (ackOf messageId)

def statusesOf (agentId : AgentId) (acks : List AckRecord) : List String :=
  acks.filterMap fun r => if r.agentId = agentId then some r.status else none

/-- Each agent that acknowledged the message has a record of it, with the furthest status it reached. -/
def ForwardPerAgent {σ : Type} (B : BackingStore σ) (records : σ → Dict String AckRecord) (init : σ)
    (ops : List StoreOp) (messageId : String) : Prop :=
  ∀ agentId, statusesOf agentId (acksOf messageId ops) ≠ [] →
    ∃ r, (records (B.applyAll ops init)).get? messageId = some r ∧ r.agentId = agentId ∧
      r.status = furthest (statusesOf agentId (acksOf messageId ops))

/-- A step of the lifecycle, or none. -/
def Onward (reached status : String) : Prop := stage reached < stage status ∨ reached = status

/-- The acknowledgements of a message are all by one agent, and each leads on from the one before. -/
structure InOrder (acks : List AckRecord) : Prop where
  oneAgent : ∀ r ∈ acks, ∀ r' ∈ acks, r.agentId = r'.agentId
  onward : ("pending" :: acks.map (·.status)).IsChain Onward

theorem furthest_snoc (statuses : List String) (status : String) : furthest (statuses ++ [status]) =
    if stage (furthest statuses) < stage status then status else furthest statuses := by
  rw [furthest, List.foldl_append]
  rfl

theorem onward_snoc {statuses : List String} {status : String} :
    ("pending" :: (statuses ++ [status])).IsChain Onward ↔ ("pending" :: statuses).IsChain Onward ∧
      ∀ reached ∈ ("pending" :: statuses).getLast?, Onward reached status := by
  rw [← List.cons_append, List.isChain_append]
  simp

/-- Where the statuses lead on, the last is the furthest. -/
theorem getLast?_of_onward {statuses : List String} (h : ("pending" :: statuses).IsChain Onward) :
    ("pending" :: statuses).getLast? = some (furthest statuses) := by
  induction statuses using List.reverseRecOn with
  | nil => rfl
  | append_singleton statuses status ih =>
    obtain ⟨hchain, hlast⟩ := onward_snoc.1 h
    have hstep := hlast _ (ih hchain)
    rw [← List.cons_append, List.getLast?_concat, furthest_snoc]
    split
    · rfl
    · exact congrArg some (hstep.resolve_left ‹_›).symm

theorem inOrder_snoc {acks : List AckRecord} {r : AckRecord} : InOrder (acks ++ [r]) ↔
    InOrder acks ∧ (∀ r' ∈ acks, r'.agentId = r.agentId) ∧
      Onward (furthest (acks.map (·.status))) r.status := by
  have hmap : (acks ++ [r]).map (·.status) = acks.map (·.status) ++ [r.status] := List.map_append
  constructor
  · rintro ⟨hagent, hchain⟩
    rw [hmap, onward_snoc] at hchain
    have hmem {r' : AckRecord} (h : r' ∈ acks) : r' ∈ acks ++ [r] := List.mem_append_left _ h
    refine ⟨⟨fun x hx y hy => hagent x (hmem hx) y (hmem hy), hchain.1⟩, fun x hx => ?_, ?_⟩
    · exact hagent x (hmem hx) r (List.mem_append_right _ List.mem_cons_self)
    · exact hchain.2 _ (getLast?_of_onward hchain.1)
  · rintro ⟨⟨hagent, hchain⟩, hsame, hstep⟩
    refine ⟨fun x hx y hy => ?_, ?_⟩
    · have hall : ∀ x ∈ acks ++ [r], x.agentId = r.agentId := by
        intro x hx
        rcases List.mem_append.1 hx with hx | hx
        · exact hsame x hx
        · rw [List.mem_singleton.1 hx]
      rw [hall x hx, hall y hy]
    · rw [hmap, onward_snoc]
      refine ⟨hchain, fun x hx => ?_⟩
      rw [getLast?_of_onward hchain] at hx
      cases hx
      exact hstep

theorem statusesOf_snoc (agentId : AgentId) (acks : List AckRecord) (r : AckRecord) :
    statusesOf agentId (acks ++ [r]) =
      statusesOf agentId acks ++ if r.agentId = agentId then [r.status] else [] := by
  rw [statusesOf, List.filterMap_append]
  by_cases h : r.agentId = agentId
  · simp [statusesOf, h]
  · simp [statusesOf, h]

theorem statusesOf_same {agentId : AgentId} {acks : List AckRecord} (h : ∀ r ∈ acks, r.agentId = agentId) :
    statusesOf agentId acks = acks.map (·.status) := by
  rw [statusesOf, ← List.filterMap_eq_map]
  refine List.filterMap_congr fun r hr => ?_
  rw [if_pos (h r hr), Function.comp_apply]

theorem statusesOf_ne_nil {acks : List AckRecord} {r : AckRecord} (hr : r ∈ acks) :
    statusesOf r.agentId acks ≠ [] := by
  refine List.ne_nil_of_mem (a := r.status) (List.mem_filterMap.2 ⟨r, hr, if_pos rfl⟩)

/-- What the record of the last acknowledgement says for each agent, in every state of a history. -/
def LastIsFurthest (acks : List AckRecord) : Prop :=
  ∀ agentId, statusesOf agentId acks ≠ [] →
    ∃ r, acks.getLast? = some r ∧ r.agentId = agentId ∧ r.status = furthest (statusesOf agentId acks)

theorem lastIsFurthest_snoc {acks : List AckRecord} {r : AckRecord} : LastIsFurthest (acks ++ [r]) ↔
    (∀ r' ∈ acks, r'.agentId = r.agentId) ∧ Onward (furthest (acks.map (·.status))) r.status := by
  constructor
  · intro h
    have hsame : ∀ r' ∈ acks, r'.agentId = r.agentId := by
      intro r' hr'
      obtain ⟨x, hx, hagent, -⟩ := h r'.agentId (statusesOf_ne_nil (List.mem_append_left _ hr'))
      rw [List.getLast?_concat] at hx
      cases hx
      exact hagent.symm
    obtain ⟨x, hx, -, hstatus⟩ := h r.agentId (statusesOf_ne_nil (List.mem_append_right _ List.mem_cons_self))
    rw [List.getLast?_concat] at hx
    cases hx
    refine ⟨hsame, ?_⟩
    rw [statusesOf_snoc, if_pos rfl, statusesOf_same hsame, furthest_snoc] at hstatus
    split at hstatus
    · exact .inl ‹_›
    · exact .inr hstatus.symm
  · rintro ⟨hsame, hstep⟩ agentId hne
    have hagent : r.agentId = agentId := by
      by_contra hother
      refine hne ?_
      rw [statusesOf_snoc, if_neg hother, List.append_nil]
      refine List.filterMap_eq_nil_iff.2 fun r' hr' => if_neg ?_
      rw [hsame r' hr']
      exact hother
    subst hagent
    refine ⟨r, List.getLast?_concat, rfl, ?_⟩
    rw [statusesOf_snoc, if_pos rfl, statusesOf_same hsame, furthest_snoc]
    split
    · rfl
    · exact (hstep.resolve_left ‹_›).symm

theorem inOrder_iff {acks : List AckRecord} :
    (∀ front, front <+: acks → LastIsFurthest front) ↔ InOrder acks := by
  induction acks using List.reverseRecOn with
  | nil =>
    refine ⟨fun _ => ⟨by simp, by simp⟩, fun _ front hfront agentId hne => ?_⟩
    rw [List.prefix_nil.1 hfront] at hne
    exact absurd rfl hne
  | append_singleton acks r ih =>
    rw [inOrder_snoc, ← ih, ← lastIsFurthest_snoc]
    constructor
    · intro h
      exact ⟨fun front hfront => h front (hfront.trans (List.prefix_append _ _)), h _ (List.prefix_refl _)⟩
    · rintro ⟨hfront, hall⟩ front hprefix
      rcases List.prefix_concat_iff.1 hprefix with rfl | hprefix
      · exact hall
      · exact hfront front hprefix

theorem lastAck_eq (messageId : String) (ops : List StoreOp) :
    lastAck messageId ops = (acksOf messageId ops).getLast? := by
  rw [lastAck, acksOf, List.getLast?_eq_head?_reverse, ← List.filterMap_reverse, List.head?_filterMap]

theorem KeepsLastAck.forward_iff {σ : Type} {B : BackingStore σ} {records : σ → Dict String AckRecord} {init : σ}
    (h : KeepsLastAck B records) (hinit : records init = .empty) (ops : List StoreOp) (messageId : String) :
    (∀ front, front <+: ops → ForwardPerAgent B records init front messageId) ↔
      InOrder (acksOf messageId ops) := by
  have hrecord (ops : List StoreOp) :
      ForwardPerAgent B records init ops messageId ↔ LastIsFurthest (acksOf messageId ops) := by
    have hlast := h.last ops init messageId
    rw [hinit, lastAck_eq, Dict.get?_empty, Option.or_none] at hlast
    rw [ForwardPerAgent, LastIsFurthest, hlast]
  rw [← inOrder_iff]
  constructor
  · intro hall front hfront
    obtain ⟨l, hl, rfl⟩ := List.prefix_filterMap_iff.1 hfront
    exact (hrecord l).1 (hall l hl)
  · intro hall front hfront
    exact (hrecord front).2 (hall _ (hfront.filterMap _))

/-- In every state that a history leads through, each agent's record of a message is the furthest status it
reached, if and only if one agent alone acknowledges the message and never goes back. -/
theorem acks_forward_iff (ops : List StoreOp) (messageId : String) :
    ((∀ front, front <+: ops → ForwardPerAgent memoryStore (·.ackRecords) .init front messageId) ↔
      InOrder (acksOf messageId ops)) ∧
    ((∀ front, front <+: ops → ForwardPerAgent sqliteStore (·.ackRecords) .init front messageId) ↔
      InOrder (acksOf messageId ops)) := by
  obtain ⟨hmemory, hsqlite⟩ := acks_last
  exact ⟨hmemory.forward_iff rfl ops messageId, hsqlite.forward_iff rfl ops messageId⟩

/-- "a" is done with the message and then reports an earlier stage; "b" receives it after that. -/
def backwardAcks : List StoreOp :=
  [.ack 1 "a" "1" "done" none, .ack 2 "a" "1" "received" none, .ack 3 "b" "1" "received" none]

theorem acks_not_forward :
    furthest (statusesOf "a" (acksOf "1" backwardAcks)) = "done" ∧
    (memoryStore.applyAll backwardAcks .init).ackRecords.get? "1" = some ⟨"b", "received", none, 3⟩ ∧
    (sqliteStore.applyAll backwardAcks .init).ackRecords.get? "1" = some ⟨"b", "received", none, 3⟩ ∧
    ¬ForwardPerAgent memoryStore (·.ackRecords) .init backwardAcks "1" ∧
    ¬ForwardPerAgent sqliteStore (·.ackRecords) .init backwardAcks "1" := by
  refine ⟨by decide, rfl, rfl, fun h => ?_, fun h => ?_⟩
  · obtain ⟨r, hr, hagent, -⟩ := h "a" (by decide)
    cases hr
    exact absurd hagent (by decide)
  · obtain ⟨r, hr, hagent, -⟩ := h "a" (by decide)
    cases hr
    exact absurd hagent (by decide)

end Sox
