import Sox.StoreDispatch
import Sox.MemoryStore

/-!
# The HTTP transport

`_dispatch` of `routes.py` over the default chain: the bearer token is the agent id, the server
registers it under its own key, signs an envelope for the request and sends both through the auth
middleware to the store. The dispatcher takes an `agent_id` of the body before the verified agent,
so `recv` and `subscribe` act for whom the body names; `verified_agent_acts` has the condition under
which the verified agent is the acting one.
-/

namespace Sox

structure HttpServer where
  verifier : IdentityVerifier
  parsers : Parsers
  publicKey : Bytes
  /-- Signs with the key of the server. -/
  sign : Bytes → Bytes
  autoRegister : Bool := true
  /-- The text of the `ValueError` with which `json.dumps(.., allow_nan=False)` refuses a message. The floats of
  the model are finite: a body that holds a NaN or an infinity, as `json.loads` lets them in, is one that is
  refused here. -/
  renderError : Message → Option String := fun _ => none

/-- What the store reads off the clock. -/
structure StoreReadings where
  now : ℚ
  sendNow : ℚ
  drainedAt : ℚ

/-- The fresh nonce of a request and its readings of the clocks. -/
structure Readings where
  nonce : String
  registeredAt : ℚ
  timestamp : ℚ
  now : ℚ
  auditNow : ℚ
  store : StoreReadings

structure HttpState (σ : Type) where
  verifier : VerifierState
  store : σ

structure HttpResponse where
  status : Nat
  content : Except SoxError StoreDispatch.Response

structure HttpRequest where
  operation : String
  body : JsonDict
  token : String
  connectionId : String

namespace HttpServer

variable (H : HttpServer)

def resolveCredential (rd : Readings) (r : HttpRequest) : SignedRequest :=
  let placeholder : SignedRequest :=
    { agentId := r.token
      nonce := rd.nonce
      timestamp := .finite rd.timestamp
      method := r.operation
      bodyHash := computeBodyHash H.verifier.crypto r.body
      signature := [] }
  { placeholder with signature := H.sign (canonicalPayload placeholder) }

/-- Registers the agent on its first request; a `ValueError` escapes. -/
def register (rd : Readings) (token : String) (s : VerifierState) : Except String VerifierState :=
  if H.autoRegister && (s.registry.lookup token).isNone then
    (s.registry.register rd.registeredAt token H.publicKey).map fun registry => { s with registry }
  else .ok s

def context (rd : Readings) (r : HttpRequest) : MiddlewareContext where
  operation := r.operation
  input := r.body
  connectionId := r.connectionId
  connectionCredential := some (H.resolveCredential rd r)
  metadata := Dict.empty.set "_agent_id" (.str r.token)

def authenticated (rd : Readings) (r : HttpRequest) (s : VerifierState) :
    Except Halt MiddlewareContext × VerifierState :=
  AuthMiddleware.call H.verifier rd.now rd.auditNow (H.context rd r) s

/-- The dispatch of a request that the auth middleware passed on. -/
def storeCall (rd : Readings) (ctx : MiddlewareContext) : Except Halt StoreCall :=
  StoreDispatch.storeCall H.parsers rd.store.now rd.store.sendNow ctx

def pipeline {σ : Type} (B : BackingStore σ) (rd : Readings) (r : HttpRequest) (s : HttpState σ) :
    Except Halt StoreDispatch.Response × HttpState σ :=
  match H.authenticated rd r s.verifier with
  | (.error halt, verifier) => (.error halt, { s with verifier })
  | (.ok ctx, verifier) =>
    match H.storeCall rd ctx with
    | .error halt => (.error halt, { s with verifier })
    | .ok call =>
      let (response, store) := StoreDispatch.perform B rd.store.drainedAt call s.store
      (response, { verifier, store })

def statusOf (errorCode : String) : Nat :=
  if errorCode ∈
      ["identity_failure", "missing_credential", "invalid_credential", "unknown_agent"] then 401
  else if errorCode ∈ ["validation_error", "validation_failed", "plugin_capability_conflict"] then 400
  else if errorCode ∈
      ["plugin_ordering_cycle", "plugin_protocol_version_mismatch", "internal_error"] then 500
  else 400

/-- The envelope of an error: what escapes the middlewares reads as an internal error. -/
def errorOf : Halt → SoxError
  | .shortCircuit response => response
  | .raised _ => ⟨"internal_error", "Internal server error"⟩

/-- The answer of `_dispatch` to how the pipeline ended. The `JSONResponse` is built inside its `try`: when it
cannot be rendered the answer is an internal error, and the store has made the call all the same. -/
def answerOf : Except Halt StoreDispatch.Response → HttpResponse
  | .ok response =>
    match response.messages.findSome? H.renderError with
    | none => ⟨200, .ok response⟩
    | some exc => ⟨500, .error ⟨"internal_error", exc⟩⟩
  | .error halt => ⟨statusOf (errorOf halt).errorCode, .error (errorOf halt)⟩

/-- `_dispatch`; `none` when the registration fails. -/
def dispatch {σ : Type} (B : BackingStore σ) (rd : Readings) (r : HttpRequest) (s : HttpState σ) :
    Option HttpResponse × HttpState σ :=
  match H.register rd r.token s.verifier with
  | .error _ => (none, s)
  | .ok verifier =>
    let (result, s) := H.pipeline B rd r { s with verifier }
    (some (H.answerOf result), s)

/-! ### The acting agent -/

/-- The context of a request that registration and the auth middleware let through. -/
def admitted (rd : Readings) (r : HttpRequest) (s : VerifierState) : Option MiddlewareContext :=
  match H.register rd r.token s with
  | .error _ => none
  | .ok s => (H.authenticated rd r s).1.toOption

/-- The agent that the verifier returned. -/
def verifiedAgent (rd : Readings) (r : HttpRequest) (s : VerifierState) : Option AgentId :=
  (H.admitted rd r s).bind (·.agentId)

/-- The call with which the request reaches the store. -/
def reachedCall (rd : Readings) (r : HttpRequest) (s : VerifierState) : Option StoreCall :=
  (H.admitted rd r s).bind fun ctx => (H.storeCall rd ctx).toOption

/-- Where the dispatcher looks at `agent_id`, the body names `agentId` if it names anyone. -/
def NamesOnly (P : Parsers) (r : HttpRequest) (agentId : AgentId) : Prop :=
  r.operation ∈ ["recv", "subscribe"] → ∀ j, r.body.get? "agent_id" = some j →
    StoreDispatch.str P j = agentId

/-- The bodies differ in what the caller says of `sender` and `agent_id` only. -/
def SameButAgents (b₁ b₂ : JsonDict) : Prop := ∀ k, k ≠ "sender" → k ≠ "agent_id" → b₁.get? k = b₂.get? k

/-- The context of a request whose token was verified. -/
def boundContext (rd : Readings) (r : HttpRequest) : MiddlewareContext :=
  { H.context rd r with
    input :=
      if r.operation = "send" then
        (r.body.set "sender" (.str r.token)).set "origin_server" .null
      else r.body
    agentId := some r.token }

section
variable {H} {rd rd₁ rd₂ : Readings} {r r₁ r₂ : HttpRequest} {s s₁ s₂ : VerifierState}
  {ctx : MiddlewareContext} {call : StoreCall}

theorem input_boundContext_send (hop : r.operation = "send") : (H.boundContext rd r).input =
    (r.body.set "sender" (.str r.token)).set "origin_server" .null :=
  if_pos hop

theorem input_boundContext (hop : r.operation ≠ "send") : (H.boundContext rd r).input = r.body :=
  if_neg hop

theorem authenticated_ok (hop : r.operation ∈ AuthMiddleware.identityEnforcedOperations)
    (h : (H.authenticated rd r s).1 = .ok ctx) : ctx = H.boundContext rd r ∧ r.token.isEmpty = false := by
  have hres : (H.context rd r).resolveCredential =
    (some (H.resolveCredential rd r), H.context rd r) := rfl
  have hverify {identity : VerifiedIdentity} : (H.verifier.verify rd.now rd.auditNow r.operation
      (AuthMiddleware.verifiedConnection (H.context rd r)) (H.resolveCredential rd r) s).1 =
        .ok identity ↔ _ :=
    IdentityVerifier.verify_ok_iff
  rw [authenticated, AuthMiddleware.call_enforced hop hres] at h
  split at h
  · cases h
  · rename_i identity s' hv
    obtain ⟨record, hA, rfl⟩ := hverify.1 (congrArg Prod.fst hv)
    simp only [MiddlewareContext.setAgentId_ok_iff] at h
    obtain ⟨-, -, rfl⟩ := h
    have hkeyed : record.agentId = r.token := s.registry.keyed _ _ hA.registered
    simp only [hkeyed]
    exact ⟨rfl, hA.agentId⟩

theorem resolveAgentId_bound {inp : JsonDict} (P : Parsers) (ht : r.token.isEmpty = false) :
    StoreDispatch.resolveAgentId P inp (H.boundContext rd r) =
      ((inp.get? "agent_id").map (StoreDispatch.str P)).getD r.token := by
  unfold StoreDispatch.resolveAgentId
  cases inp.get? "agent_id" with
  | some j => rfl
  | none => simp [boundContext, ht]

theorem resolveAgentId_eq_token_iff {P : Parsers} (ht : r.token.isEmpty = false) :
    StoreDispatch.resolveAgentId P r.body (H.boundContext rd r) = r.token ↔
      ∀ j, r.body.get? "agent_id" = some j → StoreDispatch.str P j = r.token := by
  rw [resolveAgentId_bound P ht]
  cases r.body.get? "agent_id" <;> simp

theorem resolveAgentId_of_namesOnly {P : Parsers} (ht : r.token.isEmpty = false)
    (hop : r.operation ∈ ["recv", "subscribe"]) (h : NamesOnly P r r.token) :
    StoreDispatch.resolveAgentId P r.body (H.boundContext rd r) = r.token :=
  (resolveAgentId_eq_token_iff ht).2 (h hop)

theorem agent_storeCall_iff {P : Parsers} {now sendNow : ℚ}
    (hop : r.operation ∈ AuthMiddleware.identityEnforcedOperations) (ht : r.token.isEmpty = false)
    (h : StoreDispatch.storeCall P now sendNow (H.boundContext rd r) = .ok call) :
    (∀ a, call.agent = some a → a = r.token) ↔ NamesOnly P r r.token := by
  have hresolve : StoreDispatch.resolveAgentId P r.body (H.boundContext rd r) = r.token ↔ _ :=
    resolveAgentId_eq_token_iff ht
  simp only [AuthMiddleware.identityEnforcedOperations, List.mem_cons, List.not_mem_nil, or_false] at hop
  rcases hop with hop | hop | hop | hop
  · rw [StoreDispatch.storeCall_send hop] at h
    cases h
    refine iff_of_true ?_ (by simp [NamesOnly, hop])
    simp only [StoreCall.agent, StoreDispatch.strField]
    rw [input_boundContext_send hop, Dict.getD_set_of_ne (by decide), Dict.getD_set_self]
    rintro a ⟨⟩
    rfl
  · rw [StoreDispatch.storeCall_recv hop, input_boundContext (by simp [hop])] at h
    cases hm : StoreDispatch.intField P r.body "max_messages" 50 with
    | error e => rw [hm] at h; cases h
    | ok maxMessages =>
      rw [hm] at h
      cases h
      simp only [StoreCall.agent, Option.some.injEq, forall_eq', NamesOnly, hop, List.mem_cons,
        true_or, forall_const]
      exact hresolve
  · rw [StoreDispatch.storeCall_subscribe hop, input_boundContext (by simp [hop])] at h
    cases h
    simp only [StoreCall.agent, Option.some.injEq, forall_eq', NamesOnly, hop, List.mem_cons,
      true_or, or_true, forall_const]
    exact hresolve
  · rw [StoreDispatch.storeCall_listAgents hop] at h
    cases h
    exact iff_of_true (by simp [StoreCall.agent]) (by simp [NamesOnly, hop])

/-- Requests of one agent that differ in the agents of their bodies only make the same call, when
these name no other. -/
theorem storeCall_congr {P : Parsers} {now sendNow : ℚ}
    (hop : r₁.operation ∈ AuthMiddleware.identityEnforcedOperations)
    (hsame : r₂.operation = r₁.operation) (htoken : r₂.token = r₁.token) (ht : r₁.token.isEmpty = false)
    (hbody : SameButAgents r₁.body r₂.body) (h₁ : NamesOnly P r₁ r₁.token)
    (h₂ : NamesOnly P r₂ r₁.token) :
    StoreDispatch.storeCall P now sendNow (H.boundContext rd₁ r₁) =
      StoreDispatch.storeCall P now sendNow (H.boundContext rd₂ r₂) := by
  have hfield (k : String) (hs : k ≠ "sender") (ha : k ≠ "agent_id") (v : Json) :
      r₁.body.getD k v = r₂.body.getD k v := by rw [Dict.getD, Dict.getD, hbody k hs ha]
  have hop' := hop
  simp only [AuthMiddleware.identityEnforcedOperations, List.mem_cons, List.not_mem_nil, or_false] at hop'
  rcases hop' with hop' | hop' | hop' | hop'
  · have hop₂ := hsame.trans hop'
    have hbound (k : String) (hs : k ≠ "sender") (ha : k ≠ "agent_id") (ho : k ≠ "origin_server")
        (v : Json) :
        (H.boundContext rd₁ r₁).input.getD k v = (H.boundContext rd₂ r₂).input.getD k v := by
      rw [input_boundContext_send hop', input_boundContext_send hop₂]
      simp only [Dict.getD_set_of_ne ho, Dict.getD_set_of_ne hs, hfield k hs ha]
    have hsender (v : Json) :
        (H.boundContext rd₁ r₁).input.getD "sender" v =
          (H.boundContext rd₂ r₂).input.getD "sender" v := by
      rw [input_boundContext_send hop', input_boundContext_send hop₂,
        Dict.getD_set_of_ne (by decide), Dict.getD_set_self, Dict.getD_set_of_ne (by decide),
        Dict.getD_set_self, htoken]
    have hagent : (H.boundContext rd₁ r₁).agentId = (H.boundContext rd₂ r₂).agentId :=
      congrArg some htoken.symm
    rw [StoreDispatch.storeCall_send hop', StoreDispatch.storeCall_send hop₂]
    simp only [StoreDispatch.strField, StoreDispatch.optStrField, StoreDispatch.bodyField, hagent,
      hsender, hbound "channel" (by decide) (by decide) (by decide),
      hbound "body" (by decide) (by decide) (by decide),
      hbound "correlation_id" (by decide) (by decide) (by decide),
      hbound "reply_to" (by decide) (by decide) (by decide)]
  all_goals
    have hop₂ := hsame.trans hop'
    have hinp₁ : (H.boundContext rd₁ r₁).input = r₁.body := input_boundContext (by simp [hop'])
    have hinp₂ : (H.boundContext rd₂ r₂).input = r₂.body := input_boundContext (by simp [hop₂])
  · rw [StoreDispatch.storeCall_recv hop', StoreDispatch.storeCall_recv hop₂, hinp₁, hinp₂,
      resolveAgentId_of_namesOnly ht (by simp [hop']) h₁,
      resolveAgentId_of_namesOnly (htoken ▸ ht) (by simp [hop₂]) (htoken ▸ h₂), htoken]
    simp only [StoreDispatch.intField, StoreDispatch.strListField,
      hfield "channels" (by decide) (by decide),
      hfield "max_messages" (by decide) (by decide)]
  · rw [StoreDispatch.storeCall_subscribe hop', StoreDispatch.storeCall_subscribe hop₂, hinp₁, hinp₂,
      resolveAgentId_of_namesOnly ht (by simp [hop']) h₁,
      resolveAgentId_of_namesOnly (htoken ▸ ht) (by simp [hop₂]) (htoken ▸ h₂), htoken]
    simp only [StoreDispatch.strField, hfield "pattern" (by decide) (by decide)]
  · rw [StoreDispatch.storeCall_listAgents hop', StoreDispatch.storeCall_listAgents hop₂, hinp₁, hinp₂]
    simp only [StoreDispatch.strListField, StoreDispatch.optStrField,
      hfield "status_filter" (by decide) (by decide),
      hfield "namespace" (by decide) (by decide)]

theorem dispatch_store {σ : Type} (B : BackingStore σ) (st : HttpState σ) :
    (H.dispatch B rd r st).2.store = ((H.reachedCall rd r st.verifier).map fun call =>
      (StoreDispatch.perform B rd.store.drainedAt call st.store).2).getD st.store := by
  unfold dispatch reachedCall admitted
  cases H.register rd r.token st.verifier with
  | error e => rfl
  | ok verifier =>
    simp only [pipeline]
    cases H.authenticated rd r verifier with
    | mk result verifier' =>
      cases result with
      | error halt => rfl
      | ok ctx =>
        simp only [Except.toOption, Option.bind_some]
        cases H.storeCall rd ctx with
        | error halt => rfl
        | ok call => rfl

theorem admitted_some (hop : r.operation ∈ AuthMiddleware.identityEnforcedOperations)
    (h : H.admitted rd r s = some ctx) : ctx = H.boundContext rd r ∧ r.token.isEmpty = false := by
  unfold admitted at h
  split at h
  · cases h
  · rename_i s' hs'
    cases hauth : (H.authenticated rd r s').1 with
    | error halt => rw [hauth] at h; cases h
    | ok ctx' =>
      rw [hauth] at h
      cases h
      exact authenticated_ok hop hauth

theorem verifiedAgent_some {agentId : AgentId}
    (hop : r.operation ∈ AuthMiddleware.identityEnforcedOperations)
    (h : H.verifiedAgent rd r s = some agentId) :
    agentId = r.token ∧ r.token.isEmpty = false ∧ H.admitted rd r s = some (H.boundContext rd r) := by
  obtain ⟨ctx, hctx, hagent⟩ := Option.bind_eq_some_iff.1 h
  obtain ⟨rfl, ht⟩ := admitted_some hop hctx
  exact ⟨(Option.some.inj hagent).symm, ht, hctx⟩

end

/-- An authenticated request that reaches the store acts for the verified agent exactly when, on
`recv` and `subscribe`, its body names no other. Two requests of one verified agent that name no
other, and differ in the agents of their bodies only, have the same effect on the store. -/
theorem verified_agent_acts (H : HttpServer) :
    (∀ rd r s agentId call, r.operation ∈ AuthMiddleware.identityEnforcedOperations →
      H.verifiedAgent rd r s = some agentId → H.reachedCall rd r s = some call →
        ((∀ a, call.agent = some a → a = agentId) ↔ NamesOnly H.parsers r agentId)) ∧
    (∀ {σ : Type} (B : BackingStore σ) rd₁ rd₂ r₁ r₂ (s₁ s₂ : HttpState σ) agentId,
      r₁.operation ∈ AuthMiddleware.identityEnforcedOperations → r₂.operation = r₁.operation →
        rd₁.store = rd₂.store → s₁.store = s₂.store → H.verifiedAgent rd₁ r₁ s₁.verifier = some agentId →
          H.verifiedAgent rd₂ r₂ s₂.verifier = some agentId → SameButAgents r₁.body r₂.body →
            NamesOnly H.parsers r₁ agentId → NamesOnly H.parsers r₂ agentId →
              (H.dispatch B rd₁ r₁ s₁).2.store = (H.dispatch B rd₂ r₂ s₂).2.store) := by
  constructor
  · intro rd r s agentId call hop hv hreach
    obtain ⟨rfl, ht, hctx⟩ := verifiedAgent_some hop hv
    obtain ⟨ctx, hctx', hcall⟩ := Option.bind_eq_some_iff.1 hreach
    obtain rfl := Option.some.inj (hctx.symm.trans hctx')
    cases h : H.storeCall rd (H.boundContext rd r) with
    | error halt => rw [h] at hcall; cases hcall
    | ok c =>
      rw [h] at hcall
      cases hcall
      exact agent_storeCall_iff hop ht h
  · intro σ B rd₁ rd₂ r₁ r₂ s₁ s₂ agentId hop hsame hrd hst hv₁ hv₂ hbody hn₁ hn₂
    obtain ⟨rfl, ht, hctx₁⟩ := verifiedAgent_some hop hv₁
    obtain ⟨htoken, -, hctx₂⟩ := verifiedAgent_some (hsame ▸ hop) hv₂
    have hcall : H.storeCall rd₁ (H.boundContext rd₁ r₁) = H.storeCall rd₂ (H.boundContext rd₂ r₂) := by
      rw [storeCall, storeCall, ← hrd]
      exact storeCall_congr hop hsame htoken.symm ht hbody hn₁ hn₂
    rw [dispatch_store, dispatch_store, reachedCall, reachedCall, hctx₁, hctx₂, Option.bind_some,
      Option.bind_some, hcall, hrd, hst]

/-- A server whose signatures are good when they repeat what is signed. -/
def echoServer : HttpServer where
  verifier := { crypto := ⟨fun _ payload sig => decide (sig = payload), fun _ => "", fun _ => ""⟩ }
  parsers := ⟨fun _ => "", fun _ => none, fun _ => none⟩
  publicKey := List.replicate 32 0
  sign := id

def firstReadings : Readings := ⟨"n1", 0, 0, 0, 0, ⟨0, 0, 0⟩⟩

/-- The token of mallory, and `agent_id` in the body of a `recv`. -/
def recvFor (agentId : String) : HttpRequest :=
  ⟨"recv", Dict.empty.set "agent_id" (.str agentId), "mallory", "c"⟩

/-- A `recv` of mallory's that names nobody. -/
def bareRecv : HttpRequest := ⟨"recv", .empty, "mallory", "c"⟩

/-- A message waits for mallory. -/
def mailed : MemoryStore :=
  (memoryStore.send 0 { channel := "jobs", sender := "alice", body := .empty }
    (memoryStore.subscribe "mallory" "jobs" {}).2).2

/-- A `recv` that names mallory acts for mallory, and drains what one that names nobody drains. -/
theorem verified_agent_acts_mallory :
    (∃ call, echoServer.reachedCall firstReadings (recvFor "mallory") {} = some call ∧
      ∀ a, call.agent = some a → a = "mallory") ∧
    (echoServer.dispatch memoryStore firstReadings (recvFor "mallory") ⟨{}, mailed⟩).2.store =
      (echoServer.dispatch memoryStore firstReadings bareRecv ⟨{}, mailed⟩).2.store := by
  have hreach : (echoServer.reachedCall firstReadings (recvFor "mallory") {}).isSome = true := by
    decide +kernel
  have hnames : NamesOnly echoServer.parsers (recvFor "mallory") "mallory" := by
    rintro - j ⟨⟩
    rfl
  constructor
  · obtain ⟨call, hcall⟩ := Option.isSome_iff_exists.1 hreach
    exact ⟨call, hcall, ((verified_agent_acts echoServer).1 firstReadings (recvFor "mallory") {} "mallory"
      call (by decide) (by decide +kernel) hcall).2 hnames⟩
  · refine (verified_agent_acts echoServer).2 memoryStore firstReadings firstReadings (recvFor "mallory")
      bareRecv ⟨{}, mailed⟩ ⟨{}, mailed⟩ "mallory" (by decide) rfl rfl rfl (by decide +kernel)
      (by decide +kernel) (fun k _ hk => ?_) hnames ?_
    · exact Dict.get?_set_of_ne hk
    · rintro - j ⟨⟩

/-- Mallory drains the mailbox of alice. -/
theorem recv_acts_for_named_agent :
    echoServer.verifiedAgent firstReadings (recvFor "alice") {} = some "mallory" ∧
    (echoServer.reachedCall firstReadings (recvFor "alice") {}).map (·.agent) = some (some "alice") :=
  ⟨by decide +kernel, by decide +kernel⟩

end HttpServer

end Sox
