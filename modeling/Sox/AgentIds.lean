import Mathlib.Data.List.DropRight
import Sox.EnforcerCli
import Sox.Tools

/-!
# Which agent the server and the hooks act for

The MCP server takes its agent's id from the variables that `SOX_AGENT_ID_SOURCE` puts first, stripped;
a hook takes `session_id` from its payload, else `CLAUDE_AGENT_NAME` or `SOX_AGENT_ID` as they are.
`same_agent_iff` says when the two are one agent.
-/

namespace Sox

namespace AgentIds

/-- `a or b` -/
def pyOr (a b : String) : String := if a = "" then b else a

/-- `(env.get(name) or "").strip()` -/
def read (env : String → Option String) (name : String) : String := strip ((env name).getD "")

/-- The variable that an `env:` source names. -/
def customVar (source : String) : Option String :=
  if "env:".toList.isPrefixOf source.toList then some (strip (String.ofList (source.toList.drop 4)))
    else none

/-- `_resolve_agent_id_from_env`, without its warnings. -/
def resolveAgentIdFromEnv (env : String → Option String) : String :=
  let agentIdSource := read env "SOX_AGENT_ID_SOURCE"
  if agentIdSource = "claude_code_agent_name" then
    pyOr (read env "CLAUDE_AGENT_NAME") (pyOr (read env "SOX_AGENT_ID") "default")
  else match customVar agentIdSource with
    | some custom =>
      pyOr (if custom ≠ "" then read env custom else "")
        (pyOr (read env "SOX_AGENT_ID") (pyOr (read env "CLAUDE_AGENT_NAME") "default"))
    | none => pyOr (read env "SOX_AGENT_ID") (pyOr (read env "CLAUDE_AGENT_NAME") "default")

/-- What a hook sees of the environment. -/
def hookEnv (env : String → Option String) : EnforcerCli.Env where
  soxBackingStore := env "SOX_BACKING_STORE"
  claudeAgentName := env "CLAUDE_AGENT_NAME"
  soxAgentId := env "SOX_AGENT_ID"

/-- The variables in which the server looks, in order. -/
def serverOrder (env : String → Option String) : List String :=
  let agentIdSource := read env "SOX_AGENT_ID_SOURCE"
  if agentIdSource = "claude_code_agent_name" then ["CLAUDE_AGENT_NAME", "SOX_AGENT_ID"]
  else match customVar agentIdSource with
    | some custom => (if custom ≠ "" then [custom] else []) ++ ["SOX_AGENT_ID", "CLAUDE_AGENT_NAME"]
    | none => ["SOX_AGENT_ID", "CLAUDE_AGENT_NAME"]

/-- The first of the variables that is not blank. -/
def firstSet (env : String → Option String) (order : List String) : Option String :=
  order.find? fun name => read env name ≠ ""

/-- The text of a payload's `session_id`. -/
def sessionId (hookData : JsonDict) : Option String :=
  match hookData.get? "session_id" with
  | some (.str s) => EnforcerCli.nonEmpty (some s)
  | _ => none

/-- `value` of the variable has no spaces around it, and the first variable that is set among those the
server prefers to it says the same. -/
def Undisputed (env : String → Option String) (name value : String) : Prop :=
  strip value = value ∧
    ∀ k, firstSet env ((serverOrder env).takeWhile (· ≠ name)) = some k → read env k = value

/-- When the server and a hook mean the same agent. -/
def SameAgent (env : String → Option String) (hookData : JsonDict) : Prop :=
  match sessionId hookData with
  | some s => ∀ k, firstSet env (serverOrder env) = some k → read env k = s
  | none =>
    match EnforcerCli.nonEmpty (env "CLAUDE_AGENT_NAME") with
    | some c => Undisputed env "CLAUDE_AGENT_NAME" c
    | none =>
      match EnforcerCli.nonEmpty (env "SOX_AGENT_ID") with
      | some x => Undisputed env "SOX_AGENT_ID" x
      | none => ∀ k, firstSet env (serverOrder env) = some k → read env k = "unknown-agent"

/-! ### `strip` -/

theorem strip_toList (s : String) :
    (strip s).toList = (s.toList.dropWhile isSpace).rdropWhile isSpace := by
  rw [strip, String.toList_ofList, List.rdropWhile]

theorem strip_strip (s : String) : strip (strip s) = strip s := by
  rw [← String.toList_inj, strip_toList, strip_toList]
  generalize hl : s.toList.dropWhile isSpace = l
  have hhead : ∀ c, l.head? = some c → isSpace c = false := by
    intro c hc
    have hnot := List.head?_dropWhile_not isSpace s.toList
    rw [hl, hc] at hnot
    simpa using hnot
  have hfront : (l.rdropWhile isSpace).dropWhile isSpace = l.rdropWhile isSpace := by
    obtain ⟨back, hback⟩ := List.rdropWhile_prefix isSpace l
    cases hr : l.rdropWhile isSpace with
    | nil => rfl
    | cons c rest =>
      rw [hr] at hback
      have hc := hhead c (by rw [← hback]; rfl)
      rw [List.dropWhile_cons_of_neg (by simp [hc])]
  rw [hfront, List.rdropWhile_idempotent]

/-! ### The server's order -/

variable {env : String → Option String} {hookData : JsonDict} {order : List String}
  {name value : String}

theorem read_strip : strip (read env name) = read env name := strip_strip _

theorem resolve_eq (env : String → Option String) : resolveAgentIdFromEnv env =
    ((firstSet env (serverOrder env)).map (read env)).getD "default" := by
  have hchain : ∀ order : List String, ((firstSet env order).map (read env)).getD "default" =
      order.foldr (fun name rest => pyOr (read env name) rest) "default" := by
    intro order
    induction order with
    | nil => rfl
    | cons name order ih =>
      rw [List.foldr_cons, ← ih, firstSet, List.find?_cons]
      by_cases h : read env name = "" <;> simp [h, pyOr, firstSet]
  rw [hchain, resolveAgentIdFromEnv, serverOrder]
  by_cases hclaude : read env "SOX_AGENT_ID_SOURCE" = "claude_code_agent_name"
  · simp only [hclaude, ↓reduceIte, List.foldr_cons, List.foldr_nil]
  · simp only [hclaude, ↓reduceIte]
    cases customVar (read env "SOX_AGENT_ID_SOURCE") with
    | none => simp only [List.foldr_cons, List.foldr_nil]
    | some custom =>
      by_cases hcustom : custom = ""
      · simp [hcustom, pyOr]
      · simp [hcustom]

theorem mem_serverOrder (env : String → Option String) :
    "CLAUDE_AGENT_NAME" ∈ serverOrder env ∧ "SOX_AGENT_ID" ∈ serverOrder env := by
  rw [serverOrder]
  split
  · simp
  · split <;> simp

theorem firstSet_eq (hname : name ∈ order) (hset : read env name ≠ "") :
    firstSet env order = (firstSet env (order.takeWhile (· ≠ name))).or (some name) := by
  induction order with
  | nil => cases hname
  | cons k order ih =>
    by_cases hk : k = name
    · subst hk
      rw [List.takeWhile_cons_of_neg (by simp), firstSet, List.find?_cons_of_pos (by simpa using hset)]
      rfl
    · have hrest := ih ((List.mem_cons.1 hname).resolve_left (Ne.symm hk))
      rw [List.takeWhile_cons_of_pos (by simpa using hk)]
      simp only [firstSet, List.find?_cons] at hrest ⊢
      by_cases hset : read env k = ""
      · simpa [hset] using hrest
      · simp [hset]

/-- The hook's variable against the server's choice. -/
theorem undisputed_iff {chosen : String} (hname : name ∈ serverOrder env)
    (hvalue : env name = some value)
    (hne : value ≠ "") (hchosen : firstSet env (serverOrder env) = some chosen) :
    value = read env chosen ↔ Undisputed env name value := by
  have hread : read env name = strip value := by rw [read, hvalue, Option.getD_some]
  have hgiven : strip value = value → (value = read env chosen ↔ Undisputed env name value) := by
    intro hstrip
    have hset : read env name ≠ "" := by rwa [hread, hstrip]
    have hfirst := firstSet_eq hname hset
    rw [hchosen] at hfirst
    rw [Undisputed]
    cases hbefore : firstSet env ((serverOrder env).takeWhile (· ≠ name)) with
    | none =>
      rw [hbefore] at hfirst
      cases hfirst
      refine iff_of_true ?_ ⟨hstrip, fun k hk => by cases hk⟩
      rw [hread, hstrip]
    | some k =>
      rw [hbefore] at hfirst
      cases hfirst
      constructor
      · intro h
        exact ⟨hstrip, fun k hk => by cases hk; exact h.symm⟩
      · exact fun h => (h.2 chosen rfl).symm
  constructor
  · intro h
    have hstrip : strip value = value := by rw [h, read_strip]
    exact (hgiven hstrip).1 h
  · exact fun h => (hgiven h.1).2 h

theorem nonEmpty_eq_some {o : Option String} :
    EnforcerCli.nonEmpty o = some value ↔ o = some value ∧ value ≠ "" := by
  simp [EnforcerCli.nonEmpty, Option.filter_eq_some_iff]

theorem extractAgentId_eq (hname : hookData.get? "agent_name" = none)
    (hcamel : hookData.get? "agentName" = none) :
    EnforcerCli.extractAgentId (hookEnv env) hookData =
      ((sessionId hookData).or ((EnforcerCli.nonEmpty (env "CLAUDE_AGENT_NAME")).or
        (EnforcerCli.nonEmpty (env "SOX_AGENT_ID")))).getD "unknown-agent" := by
  rw [EnforcerCli.extractAgentId, sessionId]
  simp only [List.findSome?_cons, hname, hcamel, List.findSome?_nil, hookEnv]
  rcases hsession : hookData.get? "session_id" with - | ⟨- | - | - | - | s | - | -⟩
  case some.str =>
    simp only
    cases EnforcerCli.nonEmpty (some s) <;> rfl
  all_goals rfl

/-- For a payload that names no agent, and an environment that gives the server one. -/
theorem same_agent_iff (env : String → Option String) (hookData : JsonDict)
    (hserver : resolveAgentIdFromEnv env ≠ "default")
    (hname : hookData.get? "agent_name" = none) (hcamel : hookData.get? "agentName" = none) :
    EnforcerCli.extractAgentId (hookEnv env) hookData = resolveAgentIdFromEnv env ↔
      SameAgent env hookData := by
  rw [extractAgentId_eq hname hcamel, resolve_eq, SameAgent]
  rw [resolve_eq] at hserver
  cases hchosen : firstSet env (serverOrder env) with
  | none =>
    rw [hchosen] at hserver
    exact absurd rfl hserver
  | some chosen =>
    simp only [Option.map_some, Option.getD_some, Option.some.injEq, forall_eq']
    obtain ⟨hclaude, hsox⟩ := mem_serverOrder env
    cases sessionId hookData with
    | some s => simp [eq_comm]
    | none =>
      rcases hc : EnforcerCli.nonEmpty (env "CLAUDE_AGENT_NAME") with - | c
      · rcases hx : EnforcerCli.nonEmpty (env "SOX_AGENT_ID") with - | x
        · simp [eq_comm]
        · obtain ⟨hx, hne⟩ := nonEmpty_eq_some.1 hx
          exact undisputed_iff hsox hx hne hchosen
      · obtain ⟨hc, hne⟩ := nonEmpty_eq_some.1 hc
        exact undisputed_iff hclaude hc hne hchosen

/-- Only `SOX_AGENT_ID` is set. -/
def aliceEnv : String → Option String
  | "SOX_AGENT_ID" => some "alice"
  | _ => none

theorem same_agent_iff_alice : EnforcerCli.extractAgentId (hookEnv aliceEnv) .empty =
    resolveAgentIdFromEnv aliceEnv ↔ SameAgent aliceEnv .empty :=
  same_agent_iff aliceEnv .empty (by decide) rfl rfl

/-- The hook acts for the session, the server for alice. -/
theorem not_same_agent_session :
    ¬∀ (env : String → Option String) (hookData : JsonDict), resolveAgentIdFromEnv env ≠ "default" →
      hookData.get? "agent_name" = none → hookData.get? "agentName" = none →
      EnforcerCli.extractAgentId (hookEnv env) hookData = resolveAgentIdFromEnv env := by
  intro h
  have hsame := h aliceEnv (.ofList [("session_id", .str "sess-123")]) (by decide) rfl rfl
  exact absurd hsame (by decide)

end AgentIds

end Sox
