import Sox.Json

/-!
# The cadence enforcer

`core/enforcer`: the pure `decide`, the policy it reads, and the per-agent counters that
`apply_event` keeps in the state database. `decide` sees the counters before the event is applied.
-/

namespace Sox

namespace Enforcer

inductive EventType where
  | toolUsed
  | channelSend
  | channelRecv
  | turnStarted
  | stopRequested
deriving DecidableEq, Repr

/-- `toolName` is `null` when the event has none. -/
structure Event where
  schemaVersion : String := "1.0"
  eventType : EventType
  agentId : String
  timestamp : ℚ
  toolName : Json := .null
  metadata : JsonDict := .empty

inductive Action where
  | noop
  | inject
  | block
deriving DecidableEq, Repr

def Action.value : Action → String
  | .noop => "noop"
  | .inject => "inject"
  | .block => "block"

structure Decision where
  schemaVersion : String := "1.0"
  action : Action
  message : Option String := none
  reason : Option String := none
deriving DecidableEq

structure State where
  agentId : String
  schemaVersion : String := "1.0"
  toolCallsSinceDrain : Int := 0
  lastDrainTs : Option ℚ := none
  lastSendTs : Option ℚ := none
  sendsSinceLastDrain : Int := 0
  turnsSinceLastDrain : Int := 0
deriving DecidableEq

structure Policy where
  schemaVersion : String := "1.0"
  reminderThresholdToolCalls : Int := 5
  reminderThresholdTurns : Int := 3
  forceDrainOnStop : Bool := true
  sendFollowedByIdleTurns : Int := 3
  suspectSendAndWait : Bool := true
  reminderTextDrain : String :=
    "You have not checked the channels inbox in a while. " ++
    "Call \x7b\x7brecv_tool\x7d\x7d before continuing if you may be waiting on input."
  reminderTextDrainOnStop : String :=
    "Inbox not drained. Call \x7b\x7brecv_tool\x7d\x7d and integrate any messages " ++
    "before completing the task."
  reminderTextSendAndWait : String :=
    "You sent a message and have not made progress. Per the discipline, " ++
    "continue under your best-guess interpretation while awaiting reply. " ++
    "Drain the inbox at the next major decision."

def recvToolNames : List String := ["channels__recv", "mcp__sox__channels__recv"]

/-- `tool_name in names`; only a string can be. -/
def isTool (names : List String) : Json → Bool
  | .str s => names.contains s
  | _ => false

def noop (reason : String) : Decision := { action := .noop, reason }

def inject (message reason : String) : Decision := { action := .inject, message, reason }

def block (message reason : String) : Decision := { action := .block, message, reason }

/-- Without the caller's `inbox_non_empty` the inbox is guessed from the outstanding sends. -/
def inboxNonEmpty (event : Event) (state : State) : Bool :=
  match event.metadata.get? "inbox_non_empty" with
  | some v => v.truthy
  | none => decide (0 < state.sendsSinceLastDrain)

def decide (event : Event) (state : State) (policy : Policy) : Decision :=
  match event.eventType with
  | .toolUsed =>
    if isTool recvToolNames event.toolName then noop "channel_recv resets counters"
    else
      let newCount := state.toolCallsSinceDrain + 1
      if policy.reminderThresholdToolCalls ≤ newCount then
        inject policy.reminderTextDrain ("tool_calls_since_drain " ++ toString newCount ++
          " >= reminder_threshold_tool_calls " ++ toString policy.reminderThresholdToolCalls)
      else noop ("tool_calls_since_drain will be " ++ toString newCount)
  | .channelRecv => noop "channel_recv resets counters"
  | .channelSend =>
    if policy.suspectSendAndWait && Decidable.decide (0 < state.sendsSinceLastDrain) &&
        Decidable.decide (policy.sendFollowedByIdleTurns ≤ state.turnsSinceLastDrain) then
      inject policy.reminderTextSendAndWait
        ("sends_since_last_drain=" ++ toString state.sendsSinceLastDrain ++
          ", turns_since_last_drain=" ++ toString state.turnsSinceLastDrain ++
          " >= send_followed_by_idle_turns=" ++ toString policy.sendFollowedByIdleTurns)
    else noop "channel_send recorded"
  | .stopRequested =>
    if inboxNonEmpty event state && policy.forceDrainOnStop then
      block policy.reminderTextDrainOnStop
        "stop_requested with non-empty inbox and force_drain_on_stop=True"
    else noop "stop_requested; inbox empty or force_drain_on_stop=False"
  | .turnStarted =>
    let newTurns := state.turnsSinceLastDrain + 1
    if policy.reminderThresholdTurns ≤ newTurns then
      inject policy.reminderTextDrain ("turns_since_last_drain " ++ toString newTurns ++
        " >= reminder_threshold_turns " ++ toString policy.reminderThresholdTurns)
    else noop ("turns_since_last_drain will be " ++ toString newTurns)

/-! ### The state database -/

/-- The rows of `enforcer_state`. -/
abbrev StateDb := Dict String State

def load (agentId : String) (db : StateDb) : State := (db.get? agentId).getD { agentId }

/-- The mutation of one event. -/
def State.after (eventType : EventType) (timestamp : ℚ) (state : State) : State :=
  match eventType with
  | .channelRecv =>
    { state with
      toolCallsSinceDrain := 0, sendsSinceLastDrain := 0, turnsSinceLastDrain := 0,
      lastDrainTs := some timestamp }
  | .toolUsed => { state with toolCallsSinceDrain := state.toolCallsSinceDrain + 1 }
  | .channelSend =>
    { state with
      lastSendTs := some timestamp, sendsSinceLastDrain := state.sendsSinceLastDrain + 1 }
  | .turnStarted => { state with turnsSinceLastDrain := state.turnsSinceLastDrain + 1 }
  | .stopRequested => state

/-- The row is read, changed and written in one `IMMEDIATE` transaction. -/
def applyEvent (agentId : String) (eventType : EventType) (timestamp : ℚ) (db : StateDb) : StateDb :=
  db.set agentId ((load agentId db).after eventType timestamp)

/-- A stop is blocked exactly when the inbox counts as non-empty and the policy forces the drain. -/
theorem decide_stop_block_iff {event : Event} (h : event.eventType = .stopRequested) (state : State)
    (policy : Policy) :
    (decide event state policy).action = .block ↔
      inboxNonEmpty event state = true ∧ policy.forceDrainOnStop = true := by
  simp only [decide, h, ← Bool.and_eq_true]
  split
  · rename_i hb; exact iff_of_true rfl hb
  · rename_i hb; exact iff_of_false (fun he => nomatch he) hb

theorem decide_block_only_stop {event : Event} {state : State} {policy : Policy}
    (h : (decide event state policy).action = .block) : event.eventType = .stopRequested := by
  unfold decide at h
  split at h
  · split at h
    · cases h
    · dsimp only at h
      split at h <;> cases h
  · cases h
  · split at h <;> cases h
  · assumption
  · dsimp only at h
    split at h <;> cases h

/-- Injecting and blocking decisions carry a message and `noop` carries none. -/
theorem decide_message (event : Event) (state : State) (policy : Policy) :
    (decide event state policy).message = none ↔ (decide event state policy).action = .noop := by
  unfold decide
  split
  · split
    · simp [noop]
    · dsimp only
      split <;> simp [noop, inject]
  · simp [noop]
  · split <;> simp [noop, inject]
  · split <;> simp [noop, block]
  · dsimp only
    split <;> simp [noop, inject]

end Enforcer

end Sox
