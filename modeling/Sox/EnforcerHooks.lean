import Sox.EnforcerCli
import Sox.EnforcerRuns

/-!
# Runs of the tool hook

A sequence of `post_tool_use` hooks of any agents. A hook is an event of the enforcer
(`states_runHooks`), so the run of the hooks is a history and its counters are those of
`counters_processAll`; a hook whose tool name cannot be hashed raises before it is an event.
-/

namespace Sox

namespace EnforcerCli

open Enforcer History

structure ToolHook where
  env : Env
  clock : Clock
  hookData : JsonDict

namespace ToolHook

def toolName (h : ToolHook) : Json := extractToolName h.hookData

def agentId (h : ToolHook) : String := extractAgentId h.env h.hookData

def isRecv (h : ToolHook) : Bool := isTool ["channels__recv", "mcp__sox__channels__recv"] h.toolName

def isSend (h : ToolHook) : Bool := isTool ["channels__send", "mcp__sox__channels__send"] h.toolName

/-- The name of the tool is hashable, as the lookups ask, and neither that of recv nor that of send. -/
def isGeneric (h : ToolHook) : Bool :=
  (requireHashable h.toolName).isOk && !h.isRecv && !h.isSend

def run (policy : Policy) (h : ToolHook) (w : World) : Except String (Option Output) × World :=
  runWith policy h.env h.clock "post_tool_use" h.hookData w

/-- The event of the hook, unless building it raises. -/
def event? (h : ToolHook) : Option Event :=
  (buildToolUsedEvent h.env h.clock.event h.hookData).toOption

end ToolHook

/-- The world after the hooks, one after another. -/
def runHooks (policy : Policy) (hooks : List ToolHook) (w : World) : World :=
  hooks.foldl (fun w h => (h.run policy w).2) w

def ownHooks (a : String) (hooks : List ToolHook) : List ToolHook :=
  hooks.filter fun h => h.agentId = a

/-- The hook run prints an `inject` decision. -/
def Injects (out : Except String (Option Output)) : Prop :=
  ∃ o, out = .ok (some o) ∧ o.action = "inject"

variable {policy : Policy} {a : String} {h : ToolHook} {hooks : List ToolHook} {w w' : World}

theorem requireHashable_of_isTool {names : List String} {toolName : Json}
    (h : isTool names toolName = true) : requireHashable toolName = .ok () := by
  cases toolName <;> first | rfl | cases h

/-- What the event of a hook is, by the tool's name. -/
theorem event?_eq (h : ToolHook) :
    h.event? =
      if (requireHashable h.toolName).isOk then
        some
          { eventType :=
              if h.isRecv then .channelRecv else if h.isSend then .channelSend else .toolUsed
            agentId := h.agentId, timestamp := h.clock.event, toolName := h.toolName }
      else none := by
  unfold ToolHook.event? buildToolUsedEvent
  show (Except.toOption (requireHashable h.toolName >>= fun _ => _)) = _
  cases requireHashable h.toolName <;> rfl

theorem event?_some {e : Event} (he : h.event? = some e) :
    (requireHashable h.toolName).isOk = true ∧ e.agentId = h.agentId ∧ e.toolName = h.toolName ∧
      e.eventType =
        if h.isRecv then .channelRecv else if h.isSend then .channelSend else .toolUsed := by
  rw [event?_eq] at he
  split at he
  · rename_i hok
    cases he
    exact ⟨hok, rfl, rfl, rfl⟩
  · cases he

theorem event?_isRecv (h : ToolHook) : h.event?.any (·.is .channelRecv) = h.isRecv := by
  rw [event?_eq]
  cases hr : h.isRecv with
  | true => simp [requireHashable_of_isTool hr, Except.isOk, Except.toBool, Event.is]
  | false => split <;> cases h.isSend <;> simp [Event.is]

theorem event?_isGeneric (h : ToolHook) : h.event?.any (·.is .toolUsed) = h.isGeneric := by
  rw [event?_eq, ToolHook.isGeneric]
  split
  · rename_i hok
    rw [hok]
    cases h.isRecv <;> cases h.isSend <;> simp [Event.is]
  · rename_i hok
    simp [hok]

/-- What a hook run prints and does to the states, by its event. -/
theorem run_of_event {e : Event} (he : h.event? = some e) (policy : Policy) (w : World) :
    (h.run policy w).1 = .ok (output (decide e (load e.agentId w.states) policy)) ∧
      (h.run policy w).2.states = applyEvent e.agentId e.eventType e.timestamp w.states := by
  unfold ToolHook.event? at he
  unfold ToolHook.run runWith
  rw [if_pos rfl]
  cases hb : buildToolUsedEvent h.env h.clock.event h.hookData with
  | error msg => rw [hb] at he; cases he
  | ok event =>
    rw [hb] at he
    obtain rfl : event = e := Option.some.inj he
    exact ⟨rfl, rfl⟩

/-- A hook run without an event raises and leaves the world. -/
theorem run_of_no_event (he : h.event? = none) (policy : Policy) (w : World) :
    ∃ msg, h.run policy w = (.error msg, w) ∧
      ∀ w', h.run policy w' = (.error msg, w') := by
  unfold ToolHook.event? at he
  unfold ToolHook.run runWith
  cases hb : buildToolUsedEvent h.env h.clock.event h.hookData with
  | error msg => exact ⟨msg, rfl, fun _ => rfl⟩
  | ok event => rw [hb] at he; cases he

theorem output_inject_iff (d : Decision) : Injects (.ok (output d)) ↔ d.action = .inject := by
  unfold output
  split
  · rename_i hn
    refine iff_of_false ?_ (by simp [hn])
    rintro ⟨o, ho, -⟩
    cases Except.ok.inj ho
  · constructor
    · rintro ⟨o, ho, hact⟩
      obtain rfl := Option.some.inj (Except.ok.inj ho)
      cases hd : d.action with
      | noop => contradiction
      | inject => rfl
      | block =>
        rw [hd] at hact
        exact absurd hact (show Action.block.value ≠ "inject" by decide)
    · intro hi
      exact ⟨_, rfl, by rw [hi]; rfl⟩

/-! ### A run of hooks is a history -/

def events (hooks : List ToolHook) : List Event := hooks.filterMap ToolHook.event?

theorem states_runHooks (policy : Policy) (hooks : List ToolHook) (hw : w.states = .empty) :
    (runHooks policy hooks w).states = (processAll policy (events hooks)).2 := by
  induction hooks using List.reverseRecOn with
  | nil => exact hw
  | append_singleton hooks h ih =>
    rw [runHooks, List.foldl_append, List.foldl_cons, List.foldl_nil, ← runHooks, events,
      List.filterMap_append, ← events]
    cases he : h.event? with
    | none =>
      obtain ⟨msg, hrun, -⟩ := run_of_no_event he policy (runHooks policy hooks w)
      rw [hrun, ih]
      simp [he]
    | some e =>
      rw [(run_of_event he policy _).2, ih]
      simp [he, processAll_concat, processOne]

/-- The events of one agent since its last `channel_recv` are those of its hooks since its last recv
hook. -/
theorem sinceRecv_events (a : String) (hooks : List ToolHook) :
    sinceRecv (own a (events hooks)) = events (since ToolHook.isRecv (ownHooks a hooks)) := by
  induction hooks using List.reverseRecOn with
  | nil => rfl
  | append_singleton hooks h ih =>
    have hown : ownHooks a (hooks ++ [h]) = ownHooks a hooks ++ if h.agentId = a then [h] else [] := by
      unfold ownHooks
      rw [List.filter_append]
      by_cases ha : h.agentId = a <;> simp [ha]
    have hrecv := event?_isRecv h
    rw [hown, events, List.filterMap_append, ← events]
    cases he : h.event? with
    | none =>
      rw [he] at hrecv
      by_cases ha : h.agentId = a
      · rw [if_pos ha, since_concat, ← hrecv]
        simpa [events, he] using ih
      · simp [he, ha, ih]
    | some e =>
      rw [he] at hrecv
      have hnew : List.filterMap ToolHook.event? [h] = [e] := by simp [he]
      rw [hnew, own_concat, (event?_some he).2.1]
      by_cases ha : h.agentId = a
      · rw [if_pos ha, if_pos ha, sinceRecv_concat, since_concat, ← hrecv, ih]
        simp only [Option.any_some]
        split
        · rfl
        · simp [events, he]
      · simp [ha, ih]

/-! ### The reference reminder -/

/-- The policy of the hooks with another threshold. -/
def thresholdPolicy (threshold : Int) : Policy := { reminderThresholdToolCalls := threshold }

theorem run_default (h : ToolHook) (w : World) :
    h.run (thresholdPolicy 5) w = run h.env h.clock "post_tool_use" h.hookData w := rfl

theorem countP_events (p : Event → Bool) (hooks : List ToolHook) :
    (events hooks).countP p = hooks.countP fun h => h.event?.any p := by
  unfold events
  rw [List.countP_filterMap]
  exact List.countP_congr fun h _ => by cases h.event? <;> rfl

theorem toolCalls_runHooks (policy : Policy) (a : String) (hooks : List ToolHook)
    (hw : w.states = .empty) :
    (load a (runHooks policy hooks w).states).toolCallsSinceDrain =
      (since ToolHook.isRecv (ownHooks a hooks)).countP ToolHook.isGeneric := by
  have hcount := congrArg Counters.toolCalls (counters_processAll policy a (events hooks))
  rw [sinceRecv_events] at hcount
  rw [states_runHooks policy hooks hw]
  refine hcount.trans (congrArg Nat.cast ?_)
  rw [countP_events]
  exact List.countP_congr fun h _ => by rw [event?_isGeneric]

/-- No hook starts a turn. -/
theorem turns_runHooks (policy : Policy) (a : String) (hooks : List ToolHook)
    (hw : w.states = .empty) : (load a (runHooks policy hooks w).states).turnsSinceLastDrain = 0 := by
  have hcount := congrArg Counters.turns (counters_processAll policy a (events hooks))
  rw [sinceRecv_events] at hcount
  rw [states_runHooks policy hooks hw]
  refine hcount.trans ?_
  simp only [counts, countP_events, Int.natCast_eq_zero, List.countP_eq_zero]
  intro h _
  rw [event?_eq]
  split
  · cases h.isRecv <;> cases h.isSend <;> simp [Event.is]
  · simp

/-- A hook's event is answered by a reminder exactly when its tool is generic and one more reaches the
threshold. -/
theorem decide_hook_inject_iff {threshold : Int} {e : Event} {s : State} (he : h.event? = some e)
    (hturns : s.turnsSinceLastDrain = 0) :
    (decide e s (thresholdPolicy threshold)).action = .inject ↔
      h.isGeneric = true ∧ threshold ≤ s.toolCallsSinceDrain + 1 := by
  obtain ⟨hok, -, hname, htype⟩ := event?_some he
  unfold Enforcer.decide ToolHook.isGeneric
  rw [htype, hok]
  cases hr : h.isRecv with
  | true => simp [noop]
  | false =>
    cases hs : h.isSend with
    | true => simp [hturns, thresholdPolicy, noop]
    | false =>
      have hnot : isTool recvToolNames e.toolName = false := by rw [hname]; exact hr
      simp only [hnot, Bool.false_eq_true, if_false]
      split
      · rename_i hle; exact iff_of_true rfl ⟨rfl, hle⟩
      · rename_i hle; exact iff_of_false (by rintro ⟨⟩) fun hh => hle hh.2

theorem own_events (a : String) (hooks : List ToolHook) :
    own a (events hooks) = events (ownHooks a hooks) := by
  induction hooks with
  | nil => rfl
  | cons h hooks ih =>
    unfold own events ownHooks at ih ⊢
    rw [List.filter_cons]
    cases he : h.event? with
    | none =>
      rw [List.filterMap_cons_none he, ih]
      split
      · rw [List.filterMap_cons_none he]
      · rfl
    | some e =>
      rw [List.filterMap_cons_some he, List.filter_cons, (event?_some he).2.1, ih]
      split
      · rw [List.filterMap_cons_some he]
      · rfl

/-- What a run prints depends on its hook and its agent's state alone. -/
theorem run_output_congr (policy : Policy) (h : ToolHook)
    (hload : load h.agentId w.states = load h.agentId w'.states) :
    (h.run policy w).1 = (h.run policy w').1 := by
  cases he : h.event? with
  | none =>
    obtain ⟨msg, hrun, hrun'⟩ := run_of_no_event he policy w
    rw [hrun, hrun' w']
  | some e =>
    rw [(run_of_event he policy w).1, (run_of_event he policy w').1, (event?_some he).2.1, hload]

theorem injects_iff_generic {threshold : Int} (h : ToolHook)
    (hturns : (load h.agentId w.states).turnsSinceLastDrain = 0) :
    Injects (h.run (thresholdPolicy threshold) w).1 ↔
      h.isGeneric = true ∧ threshold ≤ (load h.agentId w.states).toolCallsSinceDrain + 1 := by
  cases he : h.event? with
  | none =>
    obtain ⟨msg, hrun, -⟩ := run_of_no_event he (thresholdPolicy threshold) w
    rw [hrun, ← event?_isGeneric, he]
    refine iff_of_false ?_ fun hh => nomatch hh.1
    rintro ⟨o, ho, -⟩
    cases ho
  | some e =>
    rw [(run_of_event he _ w).1, output_inject_iff, (event?_some he).2.1]
    exact decide_hook_inject_iff he hturns

/-- In every sequence of hooks, a run prints a reminder exactly when its tool is generic and at least
`threshold` generic hooks of its agent ran since the agent's last recv hook, this one included, and it
prints what it prints after the agent's own earlier hooks alone. -/
theorem hook_reference (threshold : Int) (before : List ToolHook) (h : ToolHook)
    (db db' : SqliteDb) :
    (Injects (h.run (thresholdPolicy threshold)
        (runHooks (thresholdPolicy threshold) before ⟨db, .empty⟩)).1 ↔
      h.isGeneric = true ∧ threshold ≤
        (since ToolHook.isRecv (ownHooks h.agentId (before ++ [h]))).countP ToolHook.isGeneric) ∧
    (h.run (thresholdPolicy threshold)
        (runHooks (thresholdPolicy threshold) before ⟨db, .empty⟩)).1 =
      (h.run (thresholdPolicy threshold)
        (runHooks (thresholdPolicy threshold) (ownHooks h.agentId before) ⟨db', .empty⟩)).1 := by
  constructor
  · rw [injects_iff_generic h (turns_runHooks _ _ _ rfl), toolCalls_runHooks _ _ _ rfl]
    refine and_congr_right fun hg => ?_
    have hr : h.isRecv = false := by
      cases hr : h.isRecv with
      | false => rfl
      | true => simp [ToolHook.isGeneric, hr] at hg
    have hown : ownHooks h.agentId (before ++ [h]) = ownHooks h.agentId before ++ [h] := by
      simp [ownHooks]
    rw [hown, since_concat, hr]
    simp [hg]
  · refine run_output_congr _ _ ?_
    rw [states_runHooks _ _ rfl, states_runHooks _ _ rfl, load_processAll_own, own_events]

end EnforcerCli

end Sox
