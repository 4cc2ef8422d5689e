import Sox.MemoryStore
import Sox.SqliteStore

/-!
# Presence

The liveness machine derives an agent's state from its last heartbeat: `offline` if that said so or is
90 seconds old, `stale` once its ttl has elapsed, else what it reported; `sox/presence` is to carry an
event for each change. The stores know no 90 seconds, take a ttl of zero for the default, and send an
event at every heartbeat. `presence_follows_iff` says when this makes no difference.
-/

namespace Sox

structure Beat where
  agentId : AgentId
  status : String
  ttl : Option Int
  now : ℚ
  sendNow : ℚ

def Beat.op (b : Beat) : StoreOp := .heartbeat b.now b.sendNow b.agentId b.status b.ttl

def Beat.expiresAt (b : Beat) : ℚ := b.now + effectiveTtl b.ttl

/-! ### The liveness machine -/

def offlineThreshold : ℚ := 90

/-- The state at `q` of an agent whose last heartbeat is `b`. -/
def Beat.stateAt (b : Beat) (q : ℚ) : String :=
  if b.status = "offline" ∨ b.now + offlineThreshold ≤ q then "offline"
  else if b.now + (b.ttl.getD 30 : Int) ≤ q then "stale"
  else b.status

def lastBeat (agentId : AgentId) (beats : List Beat) : Option Beat :=
  (beats.filter (·.agentId = agentId)).getLast?

def stateOf (agentId : AgentId) (beats : List Beat) (q : ℚ) : Option String :=
  (lastBeat agentId beats).map (·.stateAt q)

/-- The heartbeat after those before it changes the state of its agent. -/
def Changes (before : List Beat) (b : Beat) : Prop :=
  stateOf b.agentId before b.now ≠ some (b.stateAt b.now)

instance (before : List Beat) (b : Beat) : Decidable (Changes before b) := inferInstanceAs (Decidable (¬_))

/-- The state changes of the agent at its heartbeats among those after `before`. -/
def stateChanges (agentId : AgentId) : List Beat → List Beat → Nat
  | _, [] => 0
  | before, b :: rest =>
    (if b.agentId = agentId ∧ Changes before b then 1 else 0) + stateChanges agentId (before ++ [b]) rest

/-- An event of `sox/presence` that names the agent. -/
def isAbout (agentId : AgentId) (m : StoredMessage) : Bool :=
  m.channel == presenceChannel &&
    match m.body.get? "agent_id" with
    | some (.str a) => decide (a = agentId)
    | _ => false

def presenceEvents (agentId : AgentId) (messages : List StoredMessage) : Nat := messages.countP (isAbout agentId)

/-- After the heartbeats the store tells the state of every agent at `q`, and it has sent an event for
each of its changes. -/
structure FollowsLiveness {σ : Type} (B : BackingStore σ) (messages : σ → List StoredMessage) (init : σ)
    (beats : List Beat) (q : ℚ) : Prop where
  reported : ∀ agentId state, (∃ e ∈ B.listAgents q none none (B.applyAll (beats.map Beat.op) init),
    e.agentId = agentId ∧ e.presenceState = state) ↔ stateOf agentId beats q = some state
  events : ∀ agentId, presenceEvents agentId (messages (B.applyAll (beats.map Beat.op) init)) =
    stateChanges agentId [] beats

/-! ### What the stores do -/

section
variable {beats before u v : List Beat} {b : Beat} {agentId : AgentId} {liveness : Dict AgentId Liveness}
  {messages : List StoredMessage} {q : ℚ}

theorem lastBeat_concat : lastBeat agentId (beats ++ [b]) =
    if b.agentId = agentId then some b else lastBeat agentId beats := by
  rw [lastBeat, List.filter_append]
  split
  · rename_i h
    simp [h]
  · rename_i h
    simp [h, lastBeat]

/-- The last heartbeat of every agent, and an event for each. -/
structure Observed (liveness : Dict AgentId Liveness) (messages : List StoredMessage) (beats : List Beat) :
    Prop where
  recorded : ∀ agentId, (liveness.get? agentId).map (fun l => (l.status, l.expiresAt)) =
    (lastBeat agentId beats).map fun b => (b.status, b.expiresAt)
  sent : ∀ agentId, presenceEvents agentId messages = beats.countP (·.agentId = agentId)

theorem Observed.beat (h : Observed liveness messages beats) {m : StoredMessage} {recordedAt : ℚ}
    {ns : Option String} (hchannel : m.channel = presenceChannel)
    (hbody : m.body = presenceBody b.agentId b.status b.now) :
    Observed (liveness.set b.agentId { status := b.status, recordedAt, expiresAt := b.expiresAt, ns })
      (messages ++ [m]) (beats ++ [b]) := by
  refine ⟨fun agentId => ?_, fun agentId => ?_⟩
  · rw [Dict.get?_set, lastBeat_concat]
    by_cases hid : b.agentId = agentId
    · rw [if_pos hid.symm, if_pos hid]
      rfl
    · rw [if_neg (Ne.symm hid), if_neg hid]
      exact h.recorded agentId
  · have hevent : m.body.get? "agent_id" = some (.str b.agentId) := by
      rw [hbody]
      rfl
    have habout : isAbout agentId m = decide (b.agentId = agentId) := by
      unfold isAbout
      rw [hchannel, hevent]
      simp
    rw [presenceEvents, List.countP_append, List.countP_append, List.countP_singleton, List.countP_singleton,
      habout]
    exact congrArg (· + _) (h.sent agentId)

theorem observed_memory (beats : List Beat) :
    Observed (memoryStore.applyAll (beats.map Beat.op) .init).liveness
      (memoryStore.applyAll (beats.map Beat.op) .init).messages beats := by
  induction beats using List.reverseRecOn with
  | nil => exact ⟨fun _ => rfl, fun _ => rfl⟩
  | append_singleton beats b ih =>
    rw [List.map_append, BackingStore.applyAll_append]
    exact ih.beat rfl rfl

theorem observed_sqlite (beats : List Beat) :
    Observed (sqliteStore.applyAll (beats.map Beat.op) .init).db.liveness
      (sqliteStore.applyAll (beats.map Beat.op) .init).db.messages beats := by
  induction beats using List.reverseRecOn with
  | nil => exact ⟨fun _ => rfl, fun _ => rfl⟩
  | append_singleton beats b ih =>
    rw [List.map_append, BackingStore.applyAll_append]
    exact ih.beat rfl rfl

/-- What both stores derive: the state reported by the last heartbeat, or `stale`. -/
theorem listed_memory (s : MemoryStore) (state : String) :
    (∃ e ∈ memoryStore.listAgents q none none s, e.agentId = agentId ∧ e.presenceState = state) ↔
      (s.liveness.get? agentId).map (fun l => presenceOf l.status l.expiresAt q) = some state := by
  rw [Option.map_eq_some_iff]
  constructor
  · rintro ⟨e, he, rfl, rfl⟩
    obtain ⟨⟨a, l⟩, hmem, hentry⟩ := List.mem_filterMap.1 he
    cases hentry
    exact ⟨l, Dict.get?_eq_some.2 hmem, rfl⟩
  · rintro ⟨l, hl, rfl⟩
    exact ⟨_, List.mem_filterMap.2 ⟨(agentId, l), Dict.get?_eq_some.1 hl, rfl⟩, rfl, rfl⟩

theorem listed_sqlite (s : SqliteStore) (state : String) :
    (∃ e ∈ sqliteStore.listAgents q none none s, e.agentId = agentId ∧ e.presenceState = state) ↔
      (s.db.liveness.get? agentId).map (fun l => presenceOf l.status l.expiresAt q) = some state := by
  rw [Option.map_eq_some_iff]
  constructor
  · rintro ⟨e, he, rfl, rfl⟩
    obtain ⟨⟨a, l⟩, hmem, hentry⟩ := List.mem_filterMap.1 he
    cases hentry
    exact ⟨l, Dict.get?_eq_some.2 (List.mem_filter.1 hmem).1, rfl⟩
  · rintro ⟨l, hl, rfl⟩
    exact ⟨_, List.mem_filterMap.2 ⟨(agentId, l), List.mem_filter.2 ⟨Dict.get?_eq_some.1 hl, rfl⟩, rfl⟩,
      rfl, rfl⟩

theorem Observed.presence (h : Observed liveness messages beats) :
    (liveness.get? agentId).map (fun l => presenceOf l.status l.expiresAt q) =
      (lastBeat agentId beats).map fun b => presenceOf b.status b.expiresAt q := by
  have hpair := congrArg (Option.map fun p : String × ℚ => presenceOf p.1 p.2 q) (h.recorded agentId)
  simpa only [Option.map_map, Function.comp_def] using hpair

/-! ### Where they agree -/

/-- Of an agent that is not `offline` the query comes within 90 seconds of the heartbeat; and a ttl of
zero is not taken for 30 seconds by it. -/
def Beat.Plain (b : Beat) (q : ℚ) : Prop :=
  b.status ≠ "offline" → q < b.now + offlineThreshold ∧
    (b.ttl = some 0 → b.status ≠ "stale" → ¬(b.now ≤ q ∧ q < b.now + 30))

theorem presenceOf_eq_stateAt_iff : presenceOf b.status b.expiresAt q = b.stateAt q ↔ b.Plain q := by
  unfold presenceOf Beat.stateAt Beat.Plain Beat.expiresAt
  by_cases hoff : b.status = "offline"
  · simp [hoff]
  by_cases hlate : b.now + offlineThreshold ≤ q
  · -- the machine says `offline`, the store does not
    have hpast : b.status = "offline" ∨ b.now + offlineThreshold ≤ q := .inr hlate
    rw [if_neg hoff, if_pos hpast]
    refine iff_of_false ?_ fun h => absurd (h hoff).1 (not_lt.2 hlate)
    split
    · decide
    · exact hoff
  rw [if_neg hoff, if_neg (not_or.2 ⟨hoff, hlate⟩)]
  have hrest (P : Prop) : (b.status ≠ "offline" → q < b.now + offlineThreshold ∧ P) ↔ P :=
    ⟨fun h => (h hoff).2, fun h _ => ⟨not_le.1 hlate, h⟩⟩
  rw [hrest]
  cases httl : b.ttl with
  | none =>
    refine iff_of_true rfl ?_
    rintro ⟨⟩
  | some t =>
    by_cases ht : t = 0
    · subst ht
      have hzero : b.now + ((0 : Int) : ℚ) ≤ q ↔ b.now ≤ q := by simp
      have hthirty : b.now + ((30 : Int) : ℚ) ≤ q ↔ b.now + 30 ≤ q := by norm_num
      simp only [effectiveTtl, if_true, Option.getD_some, hzero, hthirty, forall_const, not_and, not_lt]
      by_cases hnow : b.now ≤ q <;> by_cases hdefault : b.now + 30 ≤ q
      · simp [hnow, hdefault]
      · simp [hnow, hdefault]
      · exact absurd (le_trans (by norm_num) hdefault) hnow
      · simp [hnow, hdefault]
    · refine iff_of_true (by simp [effectiveTtl, ht]) ?_
      intro h
      exact absurd (Option.some.inj h) ht

theorem stateChanges_le : stateChanges agentId before beats ≤ beats.countP (·.agentId = agentId) := by
  induction beats generalizing before with
  | nil => exact le_rfl
  | cons b beats ih =>
    have hrest := @ih (before ++ [b])
    rw [stateChanges, List.countP_cons]
    by_cases hid : b.agentId = agentId
    · simp only [hid, true_and, decide_true, if_true]
      split <;> omega
    · simp only [hid, false_and, decide_false, Bool.false_eq_true, if_false]
      omega

theorem forall_split_cons {P : List Beat → Beat → Prop} : (∀ u b' v, b :: beats = u ++ b' :: v → P u b') ↔
    P [] b ∧ ∀ u b' v, beats = u ++ b' :: v → P (b :: u) b' := by
  constructor
  · intro h
    exact ⟨h [] b beats rfl, fun u b' v hsplit => h (b :: u) b' v (by rw [hsplit, List.cons_append])⟩
  · rintro ⟨hfirst, hrest⟩ u b' v hsplit
    cases u with
    | nil =>
      obtain ⟨rfl, -⟩ := List.cons.inj hsplit
      exact hfirst
    | cons c u =>
      obtain ⟨rfl, htail⟩ := List.cons.inj hsplit
      exact hrest u b' v htail

/-- There are as many changes as heartbeats exactly when each of them is one. -/
theorem countP_eq_stateChanges_iff : beats.countP (·.agentId = agentId) = stateChanges agentId before beats ↔
    ∀ u b v, beats = u ++ b :: v → b.agentId = agentId → Changes (before ++ u) b := by
  induction beats generalizing before with
  | nil => simp [stateChanges]
  | cons b beats ih =>
    have hrest := @ih (before ++ [b])
    have hle : stateChanges agentId (before ++ [b]) beats ≤ beats.countP (·.agentId = agentId) := stateChanges_le
    have hsplits : (∀ u b' v, b :: beats = u ++ b' :: v → b'.agentId = agentId → Changes (before ++ u) b') ↔ _ :=
      forall_split_cons
    rw [hsplits, stateChanges, List.countP_cons, List.append_nil]
    simp only [List.append_assoc, List.singleton_append] at hrest
    rw [← hrest]
    by_cases hid : b.agentId = agentId
    · by_cases hchange : Changes before b
      · simp only [hid, hchange, and_self, decide_true, if_true, forall_const, true_and]
        omega
      · simp only [hid, hchange, and_false, decide_true, if_true, if_false, forall_const, false_and, iff_false]
        omega
    · simp only [hid, false_and, decide_false, Bool.false_eq_true, if_false, false_implies, true_and]
      omega

/-- From the two facts that both stores provide. -/
theorem followsLiveness_iff {σ : Type} {B : BackingStore σ} {messages : σ → List StoredMessage} {init : σ}
    {liveness : Dict AgentId Liveness}
    (hobserved : Observed liveness (messages (B.applyAll (beats.map Beat.op) init)) beats)
    (hlisted : ∀ agentId state, (∃ e ∈ B.listAgents q none none (B.applyAll (beats.map Beat.op) init),
      e.agentId = agentId ∧ e.presenceState = state) ↔
        (liveness.get? agentId).map (fun l => presenceOf l.status l.expiresAt q) = some state) :
    FollowsLiveness B messages init beats q ↔
      (∀ agentId b, lastBeat agentId beats = some b → b.Plain q) ∧
        ∀ u b v, beats = u ++ b :: v → Changes u b := by
  have hreported : (∀ agentId state, (∃ e ∈ B.listAgents q none none (B.applyAll (beats.map Beat.op) init),
      e.agentId = agentId ∧ e.presenceState = state) ↔ stateOf agentId beats q = some state) ↔
        ∀ agentId b, lastBeat agentId beats = some b → b.Plain q := by
    refine forall_congr' fun agentId => ?_
    simp only [hlisted agentId, hobserved.presence, stateOf]
    cases lastBeat agentId beats with
    | none => simp
    | some b =>
      simp only [Option.map_some, Option.some.injEq, forall_eq', ← presenceOf_eq_stateAt_iff]
      exact ⟨fun h => ((h _).1 rfl).symm, fun h state => by rw [h]⟩
  have hevents : (∀ agentId, presenceEvents agentId (messages (B.applyAll (beats.map Beat.op) init)) =
      stateChanges agentId [] beats) ↔ ∀ u b v, beats = u ++ b :: v → Changes u b := by
    simp only [hobserved.sent, countP_eq_stateChanges_iff, List.nil_append]
    exact ⟨fun h u b v hsplit => h b.agentId u b v hsplit rfl, fun h _ u b v hsplit _ => h u b v hsplit⟩
  rw [← hreported, ← hevents]
  exact ⟨fun h => ⟨h.reported, h.events⟩, fun h => ⟨h.1, h.2⟩⟩

end

/-- After any heartbeats and at any time, a store tells what the machine tells exactly when no agent is
past its 90 seconds, no ttl is zero at the query, and every heartbeat is a change. -/
theorem presence_follows_iff (beats : List Beat) (q : ℚ) :
    (FollowsLiveness memoryStore (·.messages) .init beats q ↔
      (∀ agentId b, lastBeat agentId beats = some b → b.Plain q) ∧
        ∀ u b v, beats = u ++ b :: v → Changes u b) ∧
    (FollowsLiveness sqliteStore (·.db.messages) .init beats q ↔
      (∀ agentId b, lastBeat agentId beats = some b → b.Plain q) ∧
        ∀ u b v, beats = u ++ b :: v → Changes u b) :=
  ⟨followsLiveness_iff (observed_memory beats) fun _ _ => listed_memory _ _,
    followsLiveness_iff (observed_sqlite beats) fun _ _ => listed_sqlite _ _⟩

/-- Two heartbeats ten seconds apart, of an agent that is not heard of again. -/
def twoBeats : List Beat := [⟨"a", "online", none, 0, 0⟩, ⟨"a", "online", none, 10, 10⟩]

theorem presence_late_and_repeated :
    memoryStore.listAgents 200 none none (memoryStore.applyAll (twoBeats.map Beat.op) .init) =
      [⟨"a", "stale", 10000000000, none⟩] ∧
    stateOf "a" twoBeats 200 = some "offline" ∧
    presenceEvents "a" (memoryStore.applyAll (twoBeats.map Beat.op) .init).messages = 2 ∧
    stateChanges "a" [] twoBeats = 1 ∧
    ¬FollowsLiveness memoryStore (·.messages) .init twoBeats 200 ∧
    ¬FollowsLiveness sqliteStore (·.db.messages) .init twoBeats 200 := by
  have hchanges : stateChanges "a" [] twoBeats = 1 := by decide +kernel
  have hmemory : presenceEvents "a" (memoryStore.applyAll (twoBeats.map Beat.op) .init).messages = 2 := by
    decide +kernel
  have hsqlite : presenceEvents "a" (sqliteStore.applyAll (twoBeats.map Beat.op) .init).db.messages = 2 := by
    decide +kernel
  refine ⟨by decide +kernel, by decide +kernel, hmemory, hchanges, fun h => ?_, fun h => ?_⟩
  · have := h.events "a"
    rw [hmemory, hchanges] at this
    omega
  · have := h.events "a"
    rw [hsqlite, hchanges] at this
    omega

end Sox
