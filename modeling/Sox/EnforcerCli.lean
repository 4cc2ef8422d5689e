import Sox.Enforcer
import Sox.SqliteInv

/-!
# The enforcer's hooks

`enforcer/cli.py`: one run of a hook over the agents' database (the SQLite file that the
backing-store URL names) and the enforcer's own state database. The stop hook asks
`_inbox_non_empty`, which is a `recv` of one message: it leaves the database alone exactly when
there is nothing to receive.
-/

namespace Sox

namespace EnforcerCli

open Enforcer

/-- The environment variables the hooks read. -/
structure Env where
  soxBackingStore : Option String := none
  claudeAgentName : Option String := none
  soxAgentId : Option String := none

/-- The databases a hook works on. -/
structure World where
  db : SqliteDb
  states : StateDb

/-- The clock as one hook run reads it. -/
structure Clock where
  event : ℚ
  beat : ℚ
  beatSend : ℚ

def resolveBackingStoreUrl (env : Env) : String := env.soxBackingStore.getD "memory://"

/-- The file that a `sqlite://` URL names; `none` for other schemes, `:memory:` and the empty
path. -/
def resolveSqlitePath (url : String) : Option String :=
  if "sqlite://".toList.isPrefixOf url.toList then
    let rawPath := String.ofList (url.toList.drop 9)
    if rawPath = ":memory:" ∨ rawPath = "/:memory:" then none
    else if rawPath.isEmpty then none
    else some rawPath
  else none

/-- Whether the store has undelivered messages for the agent, asked with a `recv` of one message. -/
def inboxNonEmpty (env : Env) (agentId : String) (db : SqliteDb) : Bool × SqliteDb :=
  let url := resolveBackingStoreUrl env
  if "memory://".toList.isPrefixOf url.toList then (false, db)
  else match resolveSqlitePath url with
    | none => (false, db)
    | some _ =>
      let (messages, db) := db.recv agentId none 1
      (!messages.isEmpty, db)

def autoHeartbeatTtlSeconds : Int := 60

def autoHeartbeat (env : Env) (clock : Clock) (agentId : String) (db : SqliteDb) : SqliteDb :=
  if agentId.isEmpty || agentId == "unknown-agent" then db
  else match resolveSqlitePath (resolveBackingStoreUrl env) with
    | none => db
    | some _ => (db.heartbeat clock.beat clock.beatSend agentId "online" (some autoHeartbeatTtlSeconds)).2

def nonEmpty (s : Option String) : Option String := s.filter fun s => !s.isEmpty

def extractAgentId (env : Env) (hookData : JsonDict) : String :=
  let fromHook := ["agent_name", "session_id", "agentName"].findSome? fun key =>
    match hookData.get? key with
    | some (.str s) => nonEmpty (some s)
    | _ => none
  (fromHook.or ((nonEmpty env.claudeAgentName).or (nonEmpty env.soxAgentId))).getD "unknown-agent"

/-- `hook_data.get("tool_name") or hook_data.get("toolName")` -/
def extractToolName (hookData : JsonDict) : Json :=
  let toolName := hookData.getD "tool_name" .null
  if toolName.truthy then toolName else hookData.getD "toolName" .null

/-- `tool_name in {...}` hashes the name first. -/
def requireHashable : Json → Except String Unit
  | .arr _ => .error "unhashable type: 'list'"
  | .obj _ => .error "unhashable type: 'dict'"
  | _ => .ok ()

def buildToolUsedEvent (env : Env) (now : ℚ) (hookData : JsonDict) : Except String Event := do
  let toolName := extractToolName hookData
  requireHashable toolName
  let eventType :=
    if isTool ["channels__recv", "mcp__sox__channels__recv"] toolName then EventType.channelRecv
    else if isTool ["channels__send", "mcp__sox__channels__send"] toolName then .channelSend
    else .toolUsed
  return { eventType, agentId := extractAgentId env hookData, timestamp := now, toolName }

def buildStopEvent (env : Env) (now : ℚ) (hookData : JsonDict) (inboxNonEmpty : Bool) : Event :=
  { eventType := .stopRequested, agentId := extractAgentId env hookData, timestamp := now
    metadata := Dict.empty.set "inbox_non_empty" (.bool inboxNonEmpty) }

structure Output where
  action : String
  message : Option String
  reason : Option String
  schemaVersion : String

def placeholders : List (String × String) :=
  [("\x7b\x7bsend_tool\x7d\x7d", "mcp__sox__channels__send"),
    ("\x7b\x7brecv_tool\x7d\x7d", "mcp__sox__channels__recv"),
    ("\x7b\x7bsubscribe_tool\x7d\x7d", "mcp__sox__channels__subscribe"),
    ("\x7b\x7blist_tool\x7d\x7d", "mcp__sox__channels__list_channels")]

def output (decision : Decision) : Option Output :=
  if decision.action = .noop then none
  else
    let message := placeholders.foldl (fun m p => m.replace p.1 p.2) (decision.message.getD "")
    some
      { action := decision.action.value, message := nonEmpty (some message), reason := decision.reason
        schemaVersion := decision.schemaVersion }

/-- `load`, `decide`, `apply_event`. -/
def decideAndApply (policy : Policy) (event : Event) (w : World) : Option Output × World :=
  let decision := Enforcer.decide event (load event.agentId w.states) policy
  (output decision,
    { w with states := applyEvent event.agentId event.eventType event.timestamp w.states })

/-- One hook run under a policy; what it raises is an error. -/
def runWith (policy : Policy) (env : Env) (clock : Clock) (hookType : String) (hookData : JsonDict)
    (w : World) : Except String (Option Output) × World :=
  if hookType = "post_tool_use" then
    match buildToolUsedEvent env clock.event hookData with
    | .error e => (.error e, w)
    | .ok event =>
      let (out, w) := decideAndApply policy event
        { w with db := autoHeartbeat env clock event.agentId w.db }
      (.ok out, w)
  else if hookType = "stop" ∨ hookType = "subagent_stop" then
    let (inboxFlag, db) :=
      if policy.forceDrainOnStop then inboxNonEmpty env (extractAgentId env hookData) w.db
        else (false, w.db)
    let (out, w) := decideAndApply policy (buildStopEvent env clock.event hookData inboxFlag)
      { w with db }
    (.ok out, w)
  else (.ok none, w)

/-- `_run`; `Policy()` has the defaults. -/
def run (env : Env) (clock : Clock) (hookType : String) (hookData : JsonDict) (w : World) :
    Except String (Option Output) × World :=
  runWith {} env clock hookType hookData w

/-! ### Stop hooks and the inbox -/

structure StopHook where
  subagent : Bool
  clock : Clock
  hookData : JsonDict

def StopHook.hookType (h : StopHook) : String := if h.subagent then "subagent_stop" else "stop"

/-- The world after the stop hooks, one after another. -/
def runStops (env : Env) (hooks : List StopHook) (w : World) : World :=
  hooks.foldl (fun w h => (run env h.clock h.hookType h.hookData w).2) w

/-- The ids of the messages not delivered to the agent. -/
def undelivered (db : SqliteDb) (b : AgentId) : List Nat :=
  (inbox (fun _ => true) b db.messages).map (·.id)

/-- Every agent has the same messages undelivered, and its next `recv` returns the same. -/
def Unchanged (db db' : SqliteDb) : Prop :=
  ∀ b, undelivered db' b = undelivered db b ∧
    ∀ channels max, (db'.recv b channels max).1 = (db.recv b channels max).1

variable {env : Env} {db : SqliteDb} {a b : AgentId}

theorem run_stop_db (env : Env) (h : StopHook) (w : World) :
    (run env h.clock h.hookType h.hookData w).2.db =
    (inboxNonEmpty env (extractAgentId env h.hookData) w.db).2 := by
  have htype : h.hookType ≠ "post_tool_use" ∧ (h.hookType = "stop" ∨ h.hookType = "subagent_stop") := by
    unfold StopHook.hookType
    split <;> simp
  rw [run, runWith, if_neg htype.1, if_pos htype.2]
  rfl

theorem resolveSqlitePath_memory {url : String} (h : "memory://".toList.isPrefixOf url.toList = true) :
    resolveSqlitePath url = none := by
  refine if_neg fun hsql => ?_
  obtain ⟨t, ht⟩ := List.isPrefixOf_iff_prefix.1 h
  obtain ⟨u, hu⟩ := List.isPrefixOf_iff_prefix.1 hsql
  -- the schemes differ in their first character
  have heq := congrArg List.head? (ht.trans hu.symm)
  simp at heq

theorem inboxNonEmpty_db (env : Env) (a : AgentId) (db : SqliteDb) :
    (inboxNonEmpty env a db).2 =
      if resolveSqlitePath (resolveBackingStoreUrl env) = none then db else (db.recv a none 1).2 := by
  unfold inboxNonEmpty
  dsimp only
  split
  · rename_i hmem
    rw [resolveSqlitePath_memory hmem, if_pos rfl]
  · cases resolveSqlitePath (resolveBackingStoreUrl env) <;> rfl

theorem recv_empty (hnd : (db.messages.map (·.id)).Nodup) (h : db.pending a none = []) :
    (db.recv a none 1).2 = db := by
  rw [SqliteDb.recv_eq hnd]
  simp [SqliteDb.drained, h, markDelivered, markWhere]

theorem undelivered_recv (hnd : (db.messages.map (·.id)).Nodup) (b : AgentId) :
    ∀ i ∈ undelivered (db.recv a none 1).2 b, i ∈ undelivered db b := by
  rw [SqliteDb.recv_eq hnd]
  intro i hi
  by_cases hb : b = a
  · subst hb
    simp only [undelivered, markDelivered, inbox_markWhere_self] at hi
    exact (List.filter_sublist.map _).subset hi
  · have hother : (inbox (fun _ => true) b
      (markDelivered a ((db.drained a none 1).map (·.id)) db.messages)).map
        (·.toWire) = (inbox (fun _ => true) b db.messages).map (·.toWire) := inbox_markWhere_other hb
    have hids := congrArg (List.map (·.messageId)) hother
    rw [List.map_map, List.map_map] at hids
    exact (congrArg (i ∈ ·) hids).mp hi

theorem undelivered_recv_pending (hnd : (db.messages.map (·.id)).Nodup) (h : db.pending a none ≠ []) :
    ∃ i ∈ undelivered db a, i ∉ undelivered (db.recv a none 1).2 a := by
  obtain ⟨m, rest, hp⟩ := List.exists_cons_of_ne_nil h
  obtain ⟨hm, ha⟩ := SqliteDb.mem_pending (hp ▸ List.mem_cons_self : m ∈ db.pending a none)
  have hdrained : db.drained a none 1 = [m] := by simp [SqliteDb.drained, hp]
  refine ⟨m.id, List.mem_map_of_mem (mem_inbox.2 ⟨hm, ha, rfl⟩), fun hi => ?_⟩
  rw [SqliteDb.recv_eq hnd, hdrained] at hi
  simp only [undelivered, markDelivered, inbox_markWhere_self] at hi
  obtain ⟨n, hn, hid⟩ := List.mem_map.1 hi
  simp [hid] at hn

theorem inv_recv (h : db.Inv) : (db.recv a none 1).2.Inv :=
  SqliteStore.inv_apply (.recv a none 1) (SqliteStore.opened db) h

/-- Any number of stop hooks, over a URL that names a file, make no message undelivered. -/
theorem undelivered_runStops (hpath : resolveSqlitePath (resolveBackingStoreUrl env) ≠ none)
    (hooks : List StopHook) {w : World} (h : w.db.Inv) (b : AgentId) :
    ∀ i ∈ undelivered (runStops env hooks w).db b, i ∈ undelivered w.db b := by
  induction hooks generalizing w with
  | nil => exact fun _ hi => hi
  | cons hook hooks ih =>
    intro i hi
    have hdb : (run env hook.clock hook.hookType hook.hookData w).2.db =
        (w.db.recv (extractAgentId env hook.hookData) none 1).2 := by
      rw [run_stop_db, inboxNonEmpty_db, if_neg hpath]
    have hnext := ih (hdb ▸ inv_recv h) i hi
    rw [hdb] at hnext
    exact undelivered_recv h.ids_nodup b i hnext

theorem runStops_unchanged_iff (hpath : resolveSqlitePath (resolveBackingStoreUrl env) ≠ none)
    (hooks : List StopHook) {w : World} (h : w.db.Inv) :
    Unchanged w.db (runStops env hooks w).db ↔
      ∀ hook ∈ hooks, w.db.pending (extractAgentId env hook.hookData) none = [] := by
  induction hooks generalizing w with
  | nil => exact iff_of_true (fun _ => ⟨rfl, fun _ _ => rfl⟩) (fun _ hh => nomatch hh)
  | cons hook hooks ih =>
    have hdb : (run env hook.clock hook.hookType hook.hookData w).2.db =
        (w.db.recv (extractAgentId env hook.hookData) none 1).2 := by
      rw [run_stop_db, inboxNonEmpty_db, if_neg hpath]
    rw [List.forall_mem_cons]
    by_cases hempty : w.db.pending (extractAgentId env hook.hookData) none = []
    · have hsame : (run env hook.clock hook.hookType hook.hookData w).2.db = w.db :=
        hdb.trans (recv_empty h.ids_nodup hempty)
      have hrest := ih (hsame ▸ h : (run env hook.clock hook.hookType hook.hookData w).2.db.Inv)
      rw [hsame] at hrest
      rw [and_iff_right hempty]
      exact hrest
    · refine iff_of_false (fun hun => ?_) fun hall => hempty hall.1
      obtain ⟨i, hi, hgone⟩ := undelivered_recv_pending h.ids_nodup hempty
      rw [← (hun (extractAgentId env hook.hookData)).1] at hi
      have hi' := undelivered_runStops hpath hooks (hdb ▸ inv_recv h) _ i hi
      exact hgone (hdb ▸ hi')

/-- From every reachable state of the database, any number of stop hooks leaves every agent's
undelivered messages and next `recv` as they were if and only if the backing store is no SQLite file
or no hook's agent has anything pending. -/
theorem stop_hooks_unchanged (env : Env) (ops : List StoreOp) (states : StateDb) (hooks : List StopHook) :
    let db := (sqliteStore.applyAll ops SqliteStore.init).db
    Unchanged db (runStops env hooks { db, states }).db ↔
      resolveSqlitePath (resolveBackingStoreUrl env) = none ∨
        ∀ hook ∈ hooks, db.pending (extractAgentId env hook.hookData) none = [] := by
  intro db
  have hinv : db.Inv := SqliteStore.inv_reachable ops
  by_cases hpath : resolveSqlitePath (resolveBackingStoreUrl env) = none
  · have hsame : ∀ (hooks : List StopHook) (w : World), (runStops env hooks w).db = w.db := by
      intro hooks
      induction hooks with
      | nil => exact fun _ => rfl
      | cons hook hooks ih =>
        intro w
        rw [runStops, List.foldl_cons]
        exact (ih _).trans (by rw [run_stop_db, inboxNonEmpty_db, if_pos hpath])
    rw [hsame]
    exact iff_of_true (fun _ => ⟨rfl, fun _ _ => rfl⟩) (.inl hpath)
  · rw [or_iff_right hpath]
    exact runStops_unchanged_iff hpath hooks (w := { db, states }) hinv

def bobStops : StopHook where
  subagent := false
  clock := ⟨5, 5, 5⟩
  hookData := Dict.empty.set "agent_name" (.str "bob")

/-- One stop hook for `bob` while a message waits for it takes the message. -/
theorem stop_hook_consumes :
    ¬∀ env ops states hooks, Unchanged (sqliteStore.applyAll ops SqliteStore.init).db
      (runStops env hooks { db := (sqliteStore.applyAll ops SqliteStore.init).db, states }).db := by
  intro h
  have hbob := (h { soxBackingStore := some "sqlite:///tmp/sox.db" }
    [.subscribe "bob" "ticket:*", .send 1 ⟨"ticket:1", "alice", .empty, none, none⟩] .empty
      [bobStops] "bob").1
  exact absurd hbob (by decide)

end EnforcerCli

end Sox
