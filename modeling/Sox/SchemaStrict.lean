import Sox.DefaultChain
import Sox.JsonSchema
import Sox.Tools

/-!
# The schema-strict plugin

The input schemas of the operations and the middleware that checks them, in front of everything else.
The schemas are closed and leave the agent out, while most tools dispatch it: with the plugin, a tool
call is let through exactly when it is a `send`, a `replay` or a `list_channels` within the bounds of
its schema (`schema_strict_transparent_iff`).
-/

namespace Sox

/-! ### The operation schemas -/

namespace OperationSchema

def send : Schema :=
  [.type [.object], .required ["channel", "body"], .additionalProperties false, .properties [
    ("channel", [.type [.string], .minLength 1, .maxLength 256]),
    ("body", [.type [.object], .additionalProperties true]),
    ("correlation_id", [.type [.string, .null], .maxLength 128]),
    ("reply_to", [.type [.string, .null]]),
    ("idempotency_key", [.type [.string, .null], .maxLength 256])]]

def recv : Schema :=
  [.type [.object], .additionalProperties false, .properties [
    ("channels", [.type [.array, .null], .items [.type [.string], .minLength 1]]),
    ("max_messages", [.type [.integer], .minimum 1, .maximum 1000]),
    ("thread_depth", [.type [.integer], .minimum (-1)]),
    ("include_meta", [.type [.boolean]])]]

def subscribe : Schema :=
  [.type [.object], .required ["pattern"], .additionalProperties false, .properties [
    ("pattern", [.type [.string], .minLength 1, .maxLength 256, .not [.anyOf [
      [.pattern "^dm/.*\\*" (starBehind "dm/")],
      [.pattern "^group/.*\\*" (starBehind "group/")]]]])]]

def unsubscribe : Schema :=
  [.type [.object], .required ["channels"], .additionalProperties false, .properties [
    ("channels", [.type [.array], .minItems 1, .items [.type [.string], .minLength 1, .maxLength 256]])]]

def listChannels : Schema := [.type [.object], .additionalProperties false, .properties []]

def channelsAck : Schema :=
  [.type [.object], .required ["message_id", "status"], .additionalProperties false, .properties [
    ("message_id", [.type [.string], .minLength 1]),
    ("status", [.type [.string], .enum ["received", "processing", "done", "nack"]]),
    ("reason", [.type [.string, .null], .maxLength 512])]]

def channelsHeartbeat : Schema :=
  [.type [.object], .required ["status"], .additionalProperties false, .properties [
    ("status", [.type [.string], .enum ["online", "busy", "offline"]]),
    ("ttl", [.type [.integer, .null], .minimum 1])]]

def channelsCollect : Schema :=
  [.type [.object], .required ["reply_to", "count", "timeout"], .additionalProperties false, .properties [
    ("reply_to", [.type [.string], .minLength 1]),
    ("count", [.type [.integer], .minimum 1]),
    ("timeout", [.type [.number], .minimum (1 / 10)]),
    ("status_filter", [.type [.array, .null],
      .items [.type [.string], .enum ["received", "processing", "done", "nack"]]])]]

def replay : Schema :=
  [.type [.object], .required ["channel", "since", "limit"], .additionalProperties false, .properties [
    ("channel", [.type [.string], .minLength 1]),
    ("since", [.type [.integer], .minimum 0]),
    ("until", [.type [.integer, .null], .minimum 1]),
    ("limit", [.type [.integer], .minimum 1, .maximum 1000])]]

def listAgents : Schema :=
  [.type [.object], .additionalProperties false, .properties [
    ("status_filter", [.type [.array],
      .items [.type [.string], .enum ["online", "busy", "stale", "offline"]], .minItems 1, .uniqueItems]),
    ("namespace", [.type [.string], .minLength 1, .maxLength 128])]]

def groupCreate : Schema :=
  [.type [.object], .required [], .additionalProperties false, .properties [
    ("group_id", [.type [.string], .minLength 1, .maxLength 128]),
    ("id_mode", [.type [.string], .enum ["client", "server"]]),
    ("display_name", [.type [.string], .maxLength 256]),
    ("namespace", [.type [.string], .minLength 1]),
    ("replay_policy", [.type [.string], .enum ["subscriber", "admin_only", "custom"]])]]

def groupInvite : Schema :=
  [.type [.object], .required ["group_id", "agent_id"], .additionalProperties false, .properties [
    ("group_id", [.type [.string], .minLength 1]),
    ("agent_id", [.type [.string], .minLength 1]),
    ("message", [.type [.string], .maxLength 1024])]]

def groupJoin : Schema :=
  [.type [.object], .required ["group_id"], .additionalProperties false, .properties [
    ("group_id", [.type [.string], .minLength 1]),
    ("namespace", [.type [.string], .minLength 1])]]

def groupLeave : Schema :=
  [.type [.object], .required ["group_id"], .additionalProperties false, .properties [
    ("group_id", [.type [.string], .minLength 1])]]

def groupListMembers : Schema :=
  [.type [.object], .required ["group_id"], .additionalProperties false, .properties [
    ("group_id", [.type [.string], .minLength 1]),
    ("include_presence", [.type [.boolean]])]]

/-- `<op>.input.schema.json` of `spec/operations/`. -/
def ofOperation : String → Option Schema
  | "send" => some send
  | "recv" => some recv
  | "subscribe" => some subscribe
  | "unsubscribe" => some unsubscribe
  | "list_channels" => some listChannels
  | "channels_ack" => some channelsAck
  | "channels_heartbeat" => some channelsHeartbeat
  | "channels_collect" => some channelsCollect
  | "replay" => some replay
  | "list_agents" => some listAgents
  | "group_create" => some groupCreate
  | "group_invite" => some groupInvite
  | "group_join" => some groupJoin
  | "group_leave" => some groupLeave
  | "group_list_members" => some groupListMembers
  | _ => none

end OperationSchema

/-! ### The middleware -/

inductive PathItem where
  | key (name : String)
  | index (i : Nat)

namespace PathItem

def str : PathItem → String
  | key name => name
  | index i => toString i

/-- Python's order on `list(e.path)`; items of one place are of one kind. -/
def le : List PathItem → List PathItem → Bool
  | [], _ => true
  | _ :: _, [] => false
  | key a :: as, key b :: bs => decide (a < b) || (a == b && le as bs)
  | index i :: as, index j :: bs => decide (i < j) || (i == j && le as bs)
  | key _ :: _, index _ :: _ => true
  | index _ :: _, key _ :: _ => false

end PathItem

structure ValidationError where
  path : List PathItem
  message : String

/-- The validator of the `jsonschema` package. Which errors it reports, and in what words, is its own;
it reports none exactly where the schema accepts the instance. -/
structure Draft202012Validator where
  iterErrors : Schema → Json → List ValidationError
  iterErrors_nil_iff : ∀ schema j, iterErrors schema j = [] ↔ schema.isValid j = true

/-- A validator that says no more than that something is wrong. -/
instance : Inhabited Draft202012Validator where
  default :=
    { iterErrors := fun schema j => if schema.isValid j then [] else [⟨[], "not valid"⟩]
      iterErrors_nil_iff := fun schema j => by split <;> simp_all }

namespace SchemaStrict

structure Violation where
  field : String
  issue : String

def buildViolations (V : Draft202012Validator) (schema : Schema) (body : Json) : List Violation :=
  let errors := (V.iterErrors schema body).insertionSort fun e f => PathItem.le e.path f.path = true
  errors.map fun e =>
    let field := ".".intercalate (e.path.map PathItem.str)
    ⟨if field.isEmpty then "<root>" else field, e.message⟩

def makeValidationErrorEnvelope (opName : String) (violations : List Violation) : JsonDict :=
  pyDict [("error_code", .str "validation_error"),
    ("message", .str ("Input does not conform to " ++ opName ++ ".input.schema.json.")),
    ("detail", .obj [("violations", .arr (violations.map fun v =>
      .obj [("field", .str v.field), ("issue", .str v.issue)]))])]

/-- `ctx.input` as the validator sees it; a `SignedRequest` in it is one more property. -/
def checkedInput (ctx : MiddlewareContext) : Json :=
  .obj (ctx.input.entries ++ if ctx.inputCredential.isSome then [("signed_request", .null)] else [])

theorem buildViolations_isEmpty (V : Draft202012Validator) (schema : Schema) (body : Json) :
    (buildViolations V schema body).isEmpty = schema.isValid body := by
  have hperm := List.perm_insertionSort (fun e f : ValidationError => PathItem.le e.path f.path = true)
    (V.iterErrors schema body)
  rw [Bool.eq_iff_iff, ← V.iterErrors_nil_iff, List.isEmpty_iff, buildViolations, List.map_eq_nil_iff]
  refine ⟨fun h => (h ▸ hperm).nil_eq.symm, fun h => ?_⟩
  rw [h]
  rfl

variable {τ : Type} (V : Draft202012Validator)

/-- The plugin over the schemas of its directory. -/
def middleware (schemas : String → Option Schema) : Middleware τ where
  name := "schema_strict"
  kind := some "transformer"
  mustRunBefore := ["store_dispatch"]
  call := fun w =>
    let passOn : MwProg τ := .next w fun w o => .done w o
    match schemas w.ctx.operation with
    | none => passOn
    | some schema =>
      let violations := buildViolations V schema (checkedInput w.ctx)
      if violations.isEmpty then passOn
      else .done w (.shortCircuit (makeValidationErrorEnvelope w.ctx.operation violations))

section
variable {V} {schemas : String → Option Schema} {terminal : Terminal τ} {mws : List (Middleware τ)}
  {w : World τ}

theorem answer_of_valid (h : ∀ schema, schemas w.ctx.operation = some schema →
    schema.isValid (checkedInput w.ctx) = true) :
    Pipeline.answer terminal (middleware V schemas :: mws) w = Pipeline.answer terminal mws w := by
  simp only [Pipeline.answer, middleware]
  cases hs : schemas w.ctx.operation with
  | none => rfl
  | some schema =>
    simp only [buildViolations_isEmpty, h schema hs]
    rfl

theorem answer_of_invalid {schema : Schema} (hs : schemas w.ctx.operation = some schema)
    (h : schema.isValid (checkedInput w.ctx) = false) :
    Pipeline.answer terminal (middleware V schemas :: mws) w =
      (.shortCircuit (makeValidationErrorEnvelope w.ctx.operation
        (buildViolations V schema (checkedInput w.ctx))), w) := by
  simp only [Pipeline.answer, middleware, hs, buildViolations_isEmpty, h]
  rfl

end

/-- The plugin alone, with the schemas of the specification. -/
def registry : Registry τ where
  manifests := [{ id := "io.sox.schema-strict", mustRunBefore := ["store_dispatch"] }]
  distinct := by simp
  factory := fun _ => middleware V OperationSchema.ofOperation

/-- In the default chain it runs first. -/
theorem extend_default (authCall : World τ → MwProg τ) (storeCall : Terminal τ) :
    (Pipeline.buildDefaultPipeline authCall storeCall).extendPipelineWithRegistry (registry V) storeCall =
      .ok ⟨middleware V OperationSchema.ofOperation ::
        (Pipeline.buildDefaultPipeline authCall storeCall).middlewares, storeCall⟩ := rfl

end SchemaStrict

/-! ### Tool calls under the plugin -/

namespace ToolCall

/-- What the call dispatches, if anything, conforms to the input schema of its operation. -/
def Conforms (lc : ToolContext) (c : ToolCall) : Prop :=
  ∀ op input, c.dispatched lc = .ok (op, input) → ∀ schema, OperationSchema.ofOperation op = some schema →
    schema.isValid (.obj input.entries) = true

/-- A `send`, `replay` or `list_channels` within the bounds of the schema, or a `subscribe` that raises
before its dispatch. -/
def WithinSchema : ToolCall → Prop
  | channelsSend channel _ correlationId =>
    1 ≤ channel.length ∧ channel.length ≤ 256 ∧ ∀ s, correlationId = some s → s.length ≤ 128
  | channelsReplay channel since untilSeq limit =>
    1 ≤ channel.length ∧ 0 ≤ since ∧ (∀ n, untilSeq = some n → 1 ≤ n) ∧ 1 ≤ limit ∧ limit ≤ 1000
  | channelsListChannels => True
  | channelsSubscribe pattern => reservedWildcard pattern = true
  | _ => False

section
variable {lc : ToolContext} {c : ToolCall} {op name : String} {fields : List (String × Json)}
  {schema : Schema}

theorem mem_keys_pyDict : name ∈ (pyDict fields).entries.map Prod.fst ↔ name ∈ fields.map Prod.fst :=
  Dict.mem_keys_ofList fields

theorem closed_of_operation (h : OperationSchema.ofOperation op = some schema) :
    Keyword.additionalProperties false ∈ schema := by
  unfold OperationSchema.ofOperation at h
  split at h <;> cases h <;> repeat first | exact List.mem_cons_self | apply List.mem_cons_of_mem

/-- A dispatched property that the schema does not know is refused. -/
theorem not_conforms_of_extra (name : String) (hd : c.dispatched lc = .ok (op, pyDict fields))
    (hs : OperationSchema.ofOperation op = some schema) (hname : name ∉ schema.propertyNames)
    (hfield : name ∈ fields.map Prod.fst) : ¬ c.Conforms lc := by
  intro h
  have hvalid := h op _ hd schema hs
  rw [Schema.not_isValid_of_extra (closed_of_operation hs) hname (mem_keys_pyDict.2 hfield)] at hvalid
  cases hvalid

theorem conforms_of_dispatched {input : JsonDict} (hd : c.dispatched lc = .ok (op, input))
    (hs : OperationSchema.ofOperation op = some schema) :
    c.Conforms lc ↔ schema.isValid (.obj input.entries) = true := by
  refine ⟨fun h => h op input hd schema hs, fun h op' input' hd' schema' hs' => ?_⟩
  cases hd.symm.trans hd'
  cases hs.symm.trans hs'
  exact h

theorem conforms_iff (lc : ToolContext) (c : ToolCall) : c.Conforms lc ↔ c.WithinSchema := by
  cases c with
  | channelsSend channel body correlationId =>
    rw [conforms_of_dispatched rfl rfl]
    cases correlationId <;>
      simp [WithinSchema, OperationSchema.send, Schema.isValid, Schema.accepts, Schema.keywordAccepts,
        Schema.propertiesAccept, Schema.propertyNames, pyDict, Dict.set, Dict.upsert, Dict.empty,
        Json.ofOption, JsonType.admits, Dict.lookup_cons_eq, and_assoc]
  | channelsReplay channel since untilSeq limit =>
    have hmin (n : Int) : (1 : ℚ) ≤ n ↔ 1 ≤ n := by norm_cast
    have hmax (n : Int) : (n : ℚ) ≤ 1000 ↔ n ≤ 1000 := by norm_cast
    rw [conforms_of_dispatched rfl rfl]
    cases untilSeq <;>
      simp [WithinSchema, OperationSchema.replay, Schema.isValid, Schema.accepts, Schema.keywordAccepts,
        Schema.propertiesAccept, Schema.propertyNames, pyDict, Dict.set, Dict.upsert, Dict.empty,
        Json.ofOption, JsonType.admits, Json.number?, Dict.lookup_cons_eq, hmin, hmax]
  | channelsListChannels =>
    rw [conforms_of_dispatched rfl rfl]
    exact iff_of_true rfl trivial
  | channelsSubscribe pattern =>
    by_cases hp : reservedWildcard pattern = true
    · refine iff_of_true (fun op input hd => ?_) hp
      simp [dispatched, channelsSubscribeGuard, hp, bind, Except.bind] at hd
    · have hd : (channelsSubscribe pattern).dispatched lc =
          .ok ("subscribe", pyDict [("agent_id", .str lc.agentId), ("pattern", .str pattern)]) := by
        simp only [dispatched, channelsSubscribeGuard, if_neg hp]
        rfl
      refine iff_of_false (not_conforms_of_extra "agent_id" hd rfl ?_ List.mem_cons_self) hp
      simp [OperationSchema.subscribe, Schema.propertyNames]
  | groupCreate groupId =>
    refine iff_of_false (not_conforms_of_extra "creator_id" rfl rfl ?_ List.mem_cons_self) id
    simp [OperationSchema.groupCreate, Schema.propertyNames]
  | groupInvite groupId agentId =>
    refine iff_of_false (not_conforms_of_extra "inviter_id" rfl rfl ?_ List.mem_cons_self) id
    simp [OperationSchema.groupInvite, Schema.propertyNames]
  | _ =>
    refine iff_of_false (not_conforms_of_extra "agent_id" rfl rfl ?_ List.mem_cons_self) id
    simp [Schema.propertyNames, OperationSchema.recv, OperationSchema.unsubscribe,
      OperationSchema.channelsAck, OperationSchema.channelsHeartbeat, OperationSchema.listAgents,
      OperationSchema.channelsCollect, OperationSchema.groupJoin, OperationSchema.groupLeave,
      OperationSchema.groupListMembers]

/-- The context of a dispatch that the call makes. -/
def Carries (lc : ToolContext) (c : ToolCall) (ctx : MiddlewareContext) : Prop :=
  c.dispatched lc = .ok (ctx.operation, ctx.input) ∧ ctx.inputCredential = none

/-- With the plugin in front, every pipeline ends the call as it does without. -/
def Transparent (V : Draft202012Validator) (lc : ToolContext) (c : ToolCall) : Prop :=
  ∀ {τ : Type} (P : Pipeline τ) (w : World τ), c.Carries lc w.ctx →
    Pipeline.answer P.terminal
        (SchemaStrict.middleware V OperationSchema.ofOperation :: P.middlewares) w =
      Pipeline.answer P.terminal P.middlewares w

theorem checkedInput_of_carries {ctx : MiddlewareContext} (h : c.Carries lc ctx) :
    SchemaStrict.checkedInput ctx = .obj ctx.input.entries := by
  simp [SchemaStrict.checkedInput, h.2]

/-- What does not conform is answered with the violations, and nothing behind the plugin runs. -/
theorem answer_of_not_conforms (V : Draft202012Validator) (h : ¬ c.Conforms lc) {τ : Type}
    (P : Pipeline τ) {w : World τ} (hw : c.Carries lc w.ctx) :
    ∃ violations, Pipeline.answer P.terminal
        (SchemaStrict.middleware V OperationSchema.ofOperation :: P.middlewares) w =
      (.shortCircuit (SchemaStrict.makeValidationErrorEnvelope w.ctx.operation violations), w) := by
  simp only [Conforms, not_forall] at h
  obtain ⟨op, input, hd, schema, hs, hvalid⟩ := h
  cases hd.symm.trans hw.1
  refine ⟨_, SchemaStrict.answer_of_invalid hs ?_⟩
  rw [checkedInput_of_carries hw]
  exact Bool.eq_false_iff.2 hvalid

theorem transparent_of_conforms (V : Draft202012Validator) (h : c.Conforms lc) : c.Transparent V lc := by
  intro τ P w hw
  refine SchemaStrict.answer_of_valid fun schema hs => ?_
  rw [checkedInput_of_carries hw]
  exact h _ _ hw.1 schema hs

theorem conforms_of_transparent (V : Draft202012Validator) (h : c.Transparent V lc) : c.Conforms lc := by
  by_contra hc
  -- the store answers a call that the plugin refuses
  obtain ⟨op, input, hd⟩ : ∃ op input, c.dispatched lc = .ok (op, input) := by
    simp only [Conforms, not_forall] at hc
    obtain ⟨op, input, hd, -⟩ := hc
    exact ⟨op, input, hd⟩
  let P : Pipeline Unit := ⟨[], fun w => (.returned .empty, w)⟩
  let w : World Unit := ⟨{ operation := op, input, connectionId := "stdio" }, ()⟩
  have hw : c.Carries lc w.ctx := ⟨hd, rfl⟩
  obtain ⟨violations, hrefused⟩ := answer_of_not_conforms V hc P hw
  cases congrArg Prod.fst (hrefused.symm.trans (h P w hw))

end

/-- A tool call dispatches what the schema of its operation accepts, and is ended in every pipeline with
the plugin in front as without it, exactly when it is within the schema. Any other call is answered
with a validation error before anything else runs. -/
theorem schema_strict_transparent_iff (V : Draft202012Validator) (lc : ToolContext) (c : ToolCall) :
    (c.Conforms lc ↔ c.WithinSchema) ∧ (c.Transparent V lc ↔ c.WithinSchema) ∧
    (¬ c.WithinSchema → ∀ {τ : Type} (P : Pipeline τ) (w : World τ), c.Carries lc w.ctx →
      ∃ violations, Pipeline.answer P.terminal
          (SchemaStrict.middleware V OperationSchema.ofOperation :: P.middlewares) w =
        (.shortCircuit (SchemaStrict.makeValidationErrorEnvelope w.ctx.operation violations), w)) := by
  have hc := conforms_iff lc c
  refine ⟨hc, ?_, fun h τ P w hw => answer_of_not_conforms V (fun h' => h (hc.1 h')) P hw⟩
  rw [← hc]
  exact ⟨conforms_of_transparent V, transparent_of_conforms V⟩

/-- Every `channels__recv` of an agent is refused, since its input names the agent. -/
theorem schema_strict_refuses_recv :
    let lc : ToolContext := { agentId := "alice", parsers := ⟨fun _ => "", fun _ => none, fun _ => none⟩ }
    let c : ToolCall := .channelsRecv none 50 0 true
    (c.dispatched lc).map Prod.fst = .ok "recv" ∧ ¬ c.Conforms lc ∧ ¬ c.Transparent default lc := by
  intro lc c
  have hc : ¬ c.Conforms lc := fun h => (conforms_iff lc c).1 h
  exact ⟨rfl, hc, fun h => hc (conforms_of_transparent default h)⟩

end ToolCall

end Sox
