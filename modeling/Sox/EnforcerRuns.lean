import Sox.Enforcer
import Sox.Lib.Since

/-!
# Runs of the enforcer

A history of events, each processed as `decide` on the loaded state and then `apply_event`. The three
counters of an agent count its events since its last `channel_recv` event (`counters_processAll`),
whereas `decide` also answers a `tool_used` event that names the recv tool as a drain.
-/

namespace Sox

namespace Enforcer

open History

/-- The events and their decisions so far, and the database: one more event is processed. -/
def processOne (policy : Policy) (acc : List (Event × Decision) × StateDb) (e : Event) :
    List (Event × Decision) × StateDb :=
  (acc.1 ++ [(e, decide e (load e.agentId acc.2) policy)],
    applyEvent e.agentId e.eventType e.timestamp acc.2)

def processFrom (policy : Policy) (db : StateDb) (events : List Event) :
    List (Event × Decision) × StateDb :=
  events.foldl (processOne policy) ([], db)

/-- A history from the empty database. -/
def processAll (policy : Policy) (events : List Event) : List (Event × Decision) × StateDb :=
  processFrom policy .empty events

@[ext] structure Counters where
  toolCalls : Int
  sends : Int
  turns : Int

def State.counters (s : State) : Counters :=
  ⟨s.toolCallsSinceDrain, s.sendsSinceLastDrain, s.turnsSinceLastDrain⟩

def Event.is (t : EventType) (e : Event) : Bool := e.eventType = t

def Event.namesRecv (e : Event) : Bool := isTool recvToolNames e.toolName

def own (a : String) (events : List Event) : List Event := events.filter fun e => e.agentId = a

/-- How many events of each counted kind there are. -/
def counts (events : List Event) : Counters :=
  ⟨events.countP (·.is .toolUsed), events.countP (·.is .channelSend),
    events.countP (·.is .turnStarted)⟩

def sinceRecv (history : List Event) : List Event := since (Event.is .channelRecv) history

def drainReason : String := "channel_recv resets counters"

/-- The events for which `decide` answers that the counters are reset. -/
def Event.drains (e : Event) : Bool := e.is .channelRecv || e.is .toolUsed && e.namesRecv

variable {policy : Policy} {a b : String} {e : Event} {events : List Event} {db : StateDb}

theorem load_applyEvent (a b : String) (t : EventType) (ts : ℚ) (db : StateDb) :
    load a (applyEvent b t ts db) = if a = b then (load b db).after t ts else load a db := by
  unfold applyEvent load
  rw [Dict.get?_set]
  split <;> rfl

theorem processFrom_concat (policy : Policy) (db : StateDb) (events : List Event) (e : Event) :
    processFrom policy db (events ++ [e]) = processOne policy (processFrom policy db events) e := by
  simp [processFrom]

theorem processAll_concat (policy : Policy) (events : List Event) (e : Event) :
    processAll policy (events ++ [e]) = processOne policy (processAll policy events) e :=
  processFrom_concat policy .empty events e

theorem own_concat (a : String) (events : List Event) (e : Event) :
    own a (events ++ [e]) = own a events ++ if e.agentId = a then [e] else [] := by
  unfold own
  rw [List.filter_append]
  by_cases h : e.agentId = a <;> simp [h]

theorem sinceRecv_concat (history : List Event) (e : Event) :
    sinceRecv (history ++ [e]) = if e.is .channelRecv then [] else sinceRecv history ++ [e] :=
  since_concat

theorem counts_concat (events : List Event) (e : Event) :
    counts (events ++ [e]) =
      ⟨(counts events).toolCalls + if e.is .toolUsed then 1 else 0,
        (counts events).sends + if e.is .channelSend then 1 else 0,
        (counts events).turns + if e.is .turnStarted then 1 else 0⟩ := by
  simp only [counts, List.countP_append, List.countP_singleton, Counters.mk.injEq]
  refine ⟨?_, ?_, ?_⟩ <;> split <;> simp

/-- What one event does to the counters of its agent. -/
theorem counters_after (e : Event) (s : State) :
    (s.after e.eventType e.timestamp).counters =
      if e.is .channelRecv then counts []
      else ⟨s.counters.toolCalls + if e.is .toolUsed then 1 else 0,
        s.counters.sends + if e.is .channelSend then 1 else 0,
        s.counters.turns + if e.is .turnStarted then 1 else 0⟩ := by
  unfold Event.is
  cases e.eventType <;> simp [State.after, State.counters, counts]

/-- The counters of an agent count its events since its last `channel_recv` event. -/
theorem counters_processAll (policy : Policy) (a : String) (events : List Event) :
    (load a (processAll policy events).2).counters = counts (sinceRecv (own a events)) := by
  induction events using List.reverseRecOn with
  | nil => rfl
  | append_singleton events e ih =>
    rw [processAll_concat, own_concat]
    show (load a (applyEvent e.agentId e.eventType e.timestamp _)).counters = _
    rw [load_applyEvent]
    by_cases ha : e.agentId = a
    · subst ha
      rw [if_pos rfl, if_pos rfl, counters_after, sinceRecv_concat, ih]
      split
      · rfl
      · rw [counts_concat]
    · rw [if_neg fun h => ha h.symm, if_neg ha, List.append_nil]
      exact ih

/-- The state of an agent is that of its own events. -/
theorem load_processAll_own (policy : Policy) (a : String) (events : List Event) :
    load a (processAll policy events).2 = load a (processAll policy (own a events)).2 := by
  induction events using List.reverseRecOn with
  | nil => rfl
  | append_singleton events e ih =>
    rw [processAll_concat, own_concat]
    show load a (applyEvent e.agentId e.eventType e.timestamp _) = _
    rw [load_applyEvent]
    by_cases ha : e.agentId = a
    · subst ha
      rw [if_pos rfl, if_pos rfl, ih, processAll_concat]
      show _ = load e.agentId (applyEvent e.agentId e.eventType e.timestamp _)
      rw [load_applyEvent, if_pos rfl]
    · rw [if_neg fun h => ha h.symm, if_neg ha, List.append_nil, ih]

/-! ### What counts as a drain -/

theorem ne_drainReason {s : String} {c : Char} (hs : s.toList.head? = some c) (hc : c ≠ 'c') :
    s ≠ drainReason := by
  rintro rfl
  exact hc (Option.some.inj hs).symm

theorem decide_drains_iff (e : Event) (s : State) (policy : Policy) :
    (decide e s policy).reason = some drainReason ↔ e.drains = true := by
  unfold decide Event.drains Event.is Event.namesRecv
  cases e.eventType with
  | toolUsed =>
    by_cases h : isTool recvToolNames e.toolName = true
    · simp [h, noop, drainReason]
    · simp only [h, Bool.false_eq_true, if_false]
      refine iff_of_false ?_ (by simp)
      split
      · exact fun he => ne_drainReason (c := 't') (by simp) (by decide) (Option.some.inj he)
      · exact fun he => ne_drainReason (c := 't') (by simp) (by decide) (Option.some.inj he)
  | channelRecv => simp [noop, drainReason]
  | channelSend =>
    refine iff_of_false ?_ (by simp)
    dsimp only
    split
    · exact fun he => ne_drainReason (c := 's') (by simp) (by decide) (Option.some.inj he)
    · exact fun he => absurd (Option.some.inj he) (by simp [drainReason])
  | turnStarted =>
    refine iff_of_false ?_ (by simp)
    dsimp only
    split
    · exact fun he => ne_drainReason (c := 't') (by simp) (by decide) (Option.some.inj he)
    · exact fun he => ne_drainReason (c := 't') (by simp) (by decide) (Option.some.inj he)
  | stopRequested =>
    refine iff_of_false ?_ (by simp)
    dsimp only
    split <;> exact fun he => absurd (Option.some.inj he) (by simp [drainReason])

/-! ### The counters and the drains -/

/-- The events of an agent since its last drain, told by the decisions the run took. -/
def sinceDrain (a : String) (trace : List (Event × Decision)) : List Event :=
  (since (fun p => p.2.reason = some drainReason) (trace.filter fun p => p.1.agentId = a)).map (·.1)

/-- The numbers of `tool_used` events of other tools, of sends and of turns. -/
def counted (events : List Event) : Counters :=
  { counts events with toolCalls := events.countP fun e => e.is .toolUsed && !e.namesRecv }

/-- After the history the counters of the agent are what happened since its last drain. -/
def CountersAgree (policy : Policy) (a : String) (events : List Event) : Prop :=
  (load a (processAll policy events).2).counters = counted (sinceDrain a (processAll policy events).1)

theorem sinceDrain_processAll (policy : Policy) (a : String) (events : List Event) :
    sinceDrain a (processAll policy events).1 = since Event.drains (own a events) := by
  induction events using List.reverseRecOn with
  | nil => rfl
  | append_singleton events e ih =>
    rw [processAll_concat, own_concat]
    unfold sinceDrain at ih ⊢
    rw [processOne, List.filter_append]
    by_cases ha : e.agentId = a
    · rw [List.filter_cons_of_pos (by simpa using ha), List.filter_nil, if_pos ha, since_concat,
        since_concat]
      by_cases hd : e.drains = true
      · rw [if_pos (by simpa using (decide_drains_iff e _ policy).2 hd), if_pos hd, List.map_nil]
      · rw [if_neg (by simpa using fun h => hd ((decide_drains_iff e _ policy).1 h)), if_neg hd,
          List.map_append, ih]
        rfl
    · rw [List.filter_cons_of_neg (by simpa using ha), List.filter_nil, if_neg ha, List.append_nil,
        List.append_nil, ih]

theorem counted_eq_counts (h : ∀ e ∈ events, e.is .toolUsed = true → e.namesRecv = false) :
    counted events = counts events := by
  have hcount : (events.countP fun e => e.is .toolUsed && !e.namesRecv) =
      events.countP (·.is .toolUsed) := by
    refine List.countP_congr fun e he => ?_
    by_cases ht : e.is .toolUsed = true
    · simp [ht, h e he ht]
    · simp [ht]
  rw [counted, hcount]
  rfl

theorem drains_eq (h : e.is .toolUsed = true → e.namesRecv = false) :
    e.drains = e.is .channelRecv := by
  rw [Event.drains]
  cases ht : e.is .toolUsed with
  | false => simp
  | true => simp [h ht]

theorem mem_own : e ∈ own a events ↔ e ∈ events ∧ e.agentId = a := by simp [own]

theorem is_iff {t : EventType} : e.is t = true ↔ e.eventType = t := decide_eq_true_iff

theorem countersAgree_of_no_recv (policy : Policy)
    (h : ∀ e ∈ events, e.agentId = a → e.eventType = .toolUsed → e.namesRecv = false) :
    CountersAgree policy a events := by
  have hown : ∀ e ∈ own a events, e.is .toolUsed = true → e.namesRecv = false :=
    fun e he ht => h e (mem_own.1 he).1 (mem_own.1 he).2 (is_iff.1 ht)
  rw [CountersAgree, counters_processAll, sinceDrain_processAll,
    since_congr fun e he => drains_eq (hown e he),
    counted_eq_counts fun e he => hown e (since_sublist.subset he)]
  rfl

/-- A `tool_used` event that names the recv tool is answered as a drain and counted as a tool call. -/
theorem not_countersAgree_of_recv (policy : Policy) (ht : e.eventType = .toolUsed)
    (hr : e.namesRecv = true) : ¬CountersAgree policy e.agentId (events ++ [e]) := by
  have hrecv : e.is .channelRecv = false := by simp [Event.is, ht]
  have hdrains : e.drains = true := by simp [Event.drains, is_iff.2 ht, hr]
  rw [CountersAgree, counters_processAll, sinceDrain_processAll, own_concat, if_pos rfl, since_concat,
    sinceRecv_concat, hrecv, if_pos hdrains, if_neg (by simp), counts_concat, if_pos (is_iff.2 ht)]
  intro h
  have hcalls := congrArg Counters.toolCalls h
  simp only [counts, counted, List.countP_nil] at hcalls
  omega

/-- After every step of a history the counters of the agent are what happened since its last drain
if and only if no `tool_used` event of the agent names the recv tool. -/
theorem counters_agree_iff (policy : Policy) (a : String) (events : List Event) :
    (∀ done, done <+: events → CountersAgree policy a done) ↔
      ∀ e ∈ events, e.agentId = a → e.eventType = .toolUsed → e.namesRecv = false := by
  constructor
  · intro h e he ha ht
    obtain ⟨front, back, rfl⟩ := List.append_of_mem he
    rw [Bool.eq_false_iff]
    intro hr
    subst ha
    exact not_countersAgree_of_recv policy ht hr (h (front ++ [e]) ⟨back, by simp⟩)
  · intro h done hpre
    exact countersAgree_of_no_recv policy fun e he => h e (hpre.subset he)

def recvUsed : Event where
  eventType := .toolUsed
  agentId := "bob"
  timestamp := 0
  toolName := .str "channels__recv"

/-- After one `tool_used` event of the recv tool, a drain, one tool call is counted. -/
theorem counters_disagree :
    ¬∀ policy a events, ∀ done, done <+: events → CountersAgree policy a done := by
  intro h
  have hrecv : ¬CountersAgree {} recvUsed.agentId ([] ++ [recvUsed]) :=
    not_countersAgree_of_recv {} rfl (by decide)
  exact hrecv (h {} "bob" [recvUsed] [recvUsed] List.prefix_rfl)

/-! ### Send and stall -/

/-- The events after the last send of those since the last `channel_recv` event. -/
def sinceSend (history : List Event) : List Event := since (Event.is .channelSend) (sinceRecv history)

/-- The agent sent since its last drain, and at least `k` turns started since the last such send. -/
def Stalled (k : Int) (history : List Event) : Prop :=
  (since Event.drains history).any (·.is .channelSend) = true ∧
    k ≤ (since (Event.is .channelSend) (since Event.drains history)).countP (·.is .turnStarted)

/-- The agent sent and at least `k` turns started since its last `channel_recv` event, but since the
last send fewer turns started or the recv tool was used. -/
def Premature (k : Int) (history : List Event) : Prop :=
  (sinceRecv history).any (·.is .channelSend) = true ∧
    k ≤ (sinceRecv history).countP (·.is .turnStarted) ∧
    ((sinceSend history).countP (·.is .turnStarted) < k ∨
      (sinceSend history).any Event.drains = true)

instance (k : Int) (history : List Event) : Decidable (Stalled k history) :=
  inferInstanceAs (Decidable (_ ∧ _))

instance (k : Int) (history : List Event) : Decidable (Premature k history) :=
  inferInstanceAs (Decidable (_ ∧ _ ∧ _))

theorem decide_send_inject_iff (he : e.eventType = .channelSend)
    (hs : policy.suspectSendAndWait = true) (s : State) :
    (decide e s policy).action = .inject ↔
      0 < s.counters.sends ∧ policy.sendFollowedByIdleTurns ≤ s.counters.turns := by
  simp only [decide, he, hs, Bool.true_and, ← Bool.decide_and, decide_eq_true_eq]
  split
  · rename_i h; exact iff_of_true rfl h
  · rename_i h; exact iff_of_false (by rintro ⟨⟩) h

theorem countP_pos_iff_any {p : Event → Bool} :
    (0 : Int) < events.countP p ↔ events.any p = true := by
  rw [Int.natCast_pos, List.countP_pos_iff, List.any_eq_true]

/-- `decide` asks for a send and `k` turns since the last `channel_recv` event. -/
theorem send_inject_iff (he : e.eventType = .channelSend) (hs : policy.suspectSendAndWait = true)
    (events : List Event) :
    (decide e (load e.agentId (processAll policy events).2) policy).action = .inject ↔
      (sinceRecv (own e.agentId events)).any (·.is .channelSend) = true ∧
        policy.sendFollowedByIdleTurns ≤
          (sinceRecv (own e.agentId events)).countP (·.is .turnStarted) := by
  rw [decide_send_inject_iff he hs, counters_processAll]
  exact and_congr_left' countP_pos_iff_any

theorem recv_drains (h : e.is .channelRecv = true) : e.drains = true := by simp [Event.drains, h]

theorem send_not_drains (h : e.is .channelSend = true) : e.drains = false := by
  simp [Event.drains, Event.is, is_iff.1 h]

theorem not_stalled_of_no_send {k : Int} {history : List Event}
    (h : (sinceRecv history).any (·.is .channelSend) = false) :
    ¬Stalled k history := by
  rintro ⟨hany, -⟩
  rw [← since_since fun e => recv_drains] at hany
  obtain ⟨e, he, hsend⟩ := List.any_eq_true.1 hany
  exact List.any_eq_false.1 h e (since_sublist.subset he) hsend

/-- With a send since the last `channel_recv` event, the agent stalled if and only if `k` turns and no
drain came after the last send. -/
theorem stalled_iff {k : Int} {history : List Event}
    (h : (sinceRecv history).any (·.is .channelSend) = true) :
    Stalled k history ↔
      k ≤ (sinceSend history).countP (·.is .turnStarted) ∧
        (sinceSend history).any Event.drains = false := by
  obtain ⟨front, send, hsend, hsplit⟩ := exists_last_mark (List.any_eq_true.1 h)
  have hnosend : ∀ e ∈ sinceSend history, e.is .channelSend = false :=
    fun e he => not_mark_of_mem_since he
  have hdrains : since Event.drains history =
      since Event.drains (front ++ send :: sinceSend history) := by
    rw [← since_since fun e => recv_drains]
    exact congrArg (since Event.drains) hsplit
  rw [Stalled, hdrains]
  by_cases hd : (sinceSend history).any Event.drains = true
  · -- the drain after the last send leaves no send since
    refine iff_of_false ?_ (by simp [hd])
    rintro ⟨hany, -⟩
    have happ : front ++ send :: sinceSend history = (front ++ [send]) ++ sinceSend history := by simp
    rw [happ, since_append_of_any (List.any_eq_true.1 hd)] at hany
    obtain ⟨e, he, hes⟩ := List.any_eq_true.1 hany
    exact absurd hes (by simp [hnosend e (since_sublist.subset he)])
  · have hnodrain : ∀ e ∈ send :: sinceSend history, e.drains = false := by
      intro e he
      rcases List.mem_cons.1 he with rfl | he
      · exact send_not_drains hsend
      · exact Bool.eq_false_iff.2 fun hed => hd (List.any_eq_true.2 ⟨e, he, hed⟩)
    rw [since_append_of_not hnodrain, since_append_cons hsend, since_eq_self hnosend]
    simp [hsend, hd]

/-- At a send of an agent, `decide` injects exactly when the agent stalled, if and only if the history
is not one in which it injects too early. -/
theorem send_inject_stalled_iff (he : e.eventType = .channelSend)
    (hs : policy.suspectSendAndWait = true) (events : List Event) :
    ((decide e (load e.agentId (processAll policy events).2) policy).action = .inject ↔
        Stalled policy.sendFollowedByIdleTurns (own e.agentId events)) ↔
      ¬Premature policy.sendFollowedByIdleTurns (own e.agentId events) := by
  rw [send_inject_iff he hs]
  unfold Premature
  generalize own e.agentId events = history
  cases hany : (sinceRecv history).any (·.is .channelSend) with
  | false => simp [not_stalled_of_no_send hany]
  | true =>
    rw [stalled_iff hany]
    have hle : (sinceSend history).countP (·.is .turnStarted) ≤
        (sinceRecv history).countP (·.is .turnStarted) := since_sublist.countP_le
    cases (sinceSend history).any Event.drains <;> simp; omega

def bobSend : Event where
  eventType := .channelSend
  agentId := "bob"
  timestamp := 0

def bobTurn : Event where
  eventType := .turnStarted
  agentId := "bob"
  timestamp := 0

/-- Three turns between two sends: the second send is answered as it should be. -/
theorem send_inject_stalled_waited :
    (decide bobSend (load "bob" (processAll {} [bobSend, bobTurn, bobTurn, bobTurn]).2) {}).action =
        .inject ↔ Stalled 3 (own "bob" [bobSend, bobTurn, bobTurn, bobTurn]) :=
  (@send_inject_stalled_iff {} bobSend rfl rfl _).2 (by decide)

/-- Three turns, a send and at once another: the agent is told that it sent and waited. -/
theorem send_inject_not_stalled :
    ¬∀ policy events e, e.eventType = .channelSend → policy.suspectSendAndWait = true →
      1 ≤ policy.sendFollowedByIdleTurns →
      ((decide e (load e.agentId (processAll policy events).2) policy).action = .inject ↔
        Stalled policy.sendFollowedByIdleTurns (own e.agentId events)) := by
  intro h
  have hbob := h {} [bobTurn, bobTurn, bobTurn, bobSend] bobSend rfl rfl (by decide)
  have hinject := (@send_inject_iff {} bobSend rfl rfl
    [bobTurn, bobTurn, bobTurn, bobSend]).2 (by decide)
  exact absurd (hbob.1 hinject) (by decide)

end Enforcer

end Sox
