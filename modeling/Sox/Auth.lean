import Sox.Verifier

/-!
# The authentication middleware

`MiddlewareContext` and `AuthMiddleware`: the credential of the connection, or one inside the input,
is verified and the verified agent becomes the agent of the context. `auth_envelope_only` says what
a request that is passed on has shown. The `method` and the `body_hash` of its envelope are part of
what was signed and are compared with nothing, so the envelope opens every authenticated operation
with every input.
-/

namespace Sox

/-- The whitespace of `str.strip`. -/
def isSpace (c : Char) : Bool :=
  let n := c.toNat
  (9 ≤ n && n ≤ 13) || (28 ≤ n && n ≤ 32) || n == 133 || n == 160 || n == 5760 ||
    (8192 ≤ n && n ≤ 8202) || n == 8232 || n == 8233 || n == 8239 || n == 8287 || n == 12288

def isBlank (s : String) : Bool := s.toList.all isSpace

structure MiddlewareContext where
  operation : String
  /-- The input, without a `SignedRequest` that an in-process caller put under `signed_request`. -/
  input : JsonDict
  inputCredential : Option SignedRequest := none
  connectionId : String
  /-- `metadata["_connection_credential"]`, when it is a `SignedRequest`. -/
  connectionCredential : Option SignedRequest := none
  /-- The other entries of `metadata`. -/
  metadata : JsonDict := .empty
  agentId : Option AgentId := none

/-- A sox-error; its `detail` and `retry_after` are null. -/
structure SoxError where
  errorCode : String
  message : String
deriving DecidableEq

/-- A sox-error with its `detail`; its `retry_after` is null. -/
structure ErrorEnvelope extends SoxError where
  detail : Json := .null

/-- How a middleware ends without a response of its own. -/
inductive Halt where
  | shortCircuit (response : SoxError)
  | raised (message : String)
deriving DecidableEq

namespace MiddlewareContext

/-- The `agent_id` setter. -/
def setAgentId (value : AgentId) (ctx : MiddlewareContext) : Except Halt MiddlewareContext :=
  if ctx.agentId.isSome then
    .error (.raised "agent_id is already set; only the auth middleware may set it")
  else if isBlank value then .error (.raised "agent_id must be a non-empty, non-whitespace string")
  else .ok { ctx with agentId := some value }

/-- `_resolve_credential`: the credential, and the context with a credential taken from the input
stripped. -/
def resolveCredential (ctx : MiddlewareContext) : Option SignedRequest × MiddlewareContext :=
  match ctx.connectionCredential, ctx.inputCredential with
  | some cred, _ => (some cred, ctx)
  | none, some cred => (some cred, { ctx with inputCredential := none })
  | none, none => (none, ctx)

end MiddlewareContext

namespace IdentityVerifier

variable (V : IdentityVerifier)

def bindForSend (now auditNow : ℚ) (req : SignedRequest) (sendInput : JsonDict) (s : VerifierState) :
    Except IdentityFailure JsonDict × VerifierState :=
  match V.verify now auditNow "send" none req s with
  | (.error e, s) => (.error e, s)
  | (.ok identity, s) =>
    (.ok ((sendInput.set "sender" (.str identity.agentId)).set "origin_server"
      ((identity.originServer.map Json.str).getD .null)), s)

end IdentityVerifier

namespace AuthMiddleware

def identityEnforcedOperations : List String := ["send", "recv", "subscribe", "list_agents"]

def makeIdentityError (reason : String) : Halt := .shortCircuit ⟨"identity_failure", reason⟩

/-- `AuthMiddleware.__call__` up to `call_next`: the context that is passed on, or the halt. -/
def call (V : IdentityVerifier) (now auditNow : ℚ) (ctx : MiddlewareContext) (s : VerifierState) :
    Except Halt MiddlewareContext × VerifierState :=
  if ctx.operation ∉ identityEnforcedOperations then (.ok ctx, s)
  else
    match ctx.resolveCredential with
    | (none, _) =>
      (.error (makeIdentityError ("Identity verification required: credential missing. " ++
        "Set SOX_CREDENTIAL in MCP launch parameters.")), s)
    | (some req, ctx) =>
      if ctx.operation = "send" then
        match V.bindForSend now auditNow req ctx.input s with
        | (.error e, s) => (.error (makeIdentityError e.reason), s)
        | (.ok updatedInput, s) =>
          let sender := Json.pyStr V.crypto.floatRepr (updatedInput.getD "sender" (.str ""))
          ({ ctx with input := updatedInput }.setAgentId sender, s)
      else
        match V.verify now auditNow ctx.operation (some ctx.connectionId) req s with
        | (.error e, s) => (.error (makeIdentityError e.reason), s)
        | (.ok identity, s) => (ctx.setAgentId identity.agentId, s)

end AuthMiddleware

/-! ### What a verified envelope has shown -/

/-- The envelope `req` holds at `now` for the agent of `record`. -/
structure Authorised (V : IdentityVerifier) (now : ℚ) (s : VerifierState) (req : SignedRequest)
    (record : CredentialRecord) : Prop where
  agentId : req.agentId.isEmpty = false
  nonce : req.nonce.isEmpty = false
  fresh : V.outsideWindow (IdentityVerifier.age now req.timestamp) = false
  registered : s.registry.lookup req.agentId = some record
  active : record.isRevoked = false
  signed : V.crypto.verifySignature record.publicKey (canonicalPayload req) req.signature = true
  unused : (V.pruneReplayCache now s.seenNonces).get? req.nonce = none

namespace IdentityVerifier

variable {V : IdentityVerifier} {now auditNow : ℚ} {operation : String} {connectionId : Option String}
  {req : SignedRequest} {s s' : VerifierState} {record : CredentialRecord} {identity : VerifiedIdentity}

theorem checkRequest_ok_iff : V.checkRequest now req = .ok () ↔
    req.agentId.isEmpty = false ∧ req.nonce.isEmpty = false ∧
      V.outsideWindow (age now req.timestamp) = false := by
  unfold checkRequest
  cases req.agentId.isEmpty <;> cases req.nonce.isEmpty <;>
    cases V.outsideWindow (age now req.timestamp) <;> simp

theorem checkCredential_ok_iff {found : Option CredentialRecord} :
    V.checkCredential req found = .ok record ↔
    found = some record ∧ record.isRevoked = false ∧
      V.crypto.verifySignature record.publicKey (canonicalPayload req) req.signature = true := by
  unfold checkCredential
  cases found with
  | none => simp
  | some r =>
    by_cases hr : r.isRevoked = true
    · simp only [hr, ↓reduceIte, reduceCtorEq, Option.some.injEq, false_iff]
      rintro ⟨rfl, hrev, -⟩
      rw [hr] at hrev
      cases hrev
    · rw [Bool.not_eq_true] at hr
      by_cases hs : V.crypto.verifySignature r.publicKey (canonicalPayload req) req.signature = true
      · simp only [hr, hs, Bool.false_eq_true, ↓reduceIte, Bool.not_true, Except.ok.injEq,
          Option.some.injEq]
        exact ⟨fun h => ⟨h, h ▸ hr, h ▸ hs⟩, fun h => h.1⟩
      · simp only [hr, hs, Bool.false_eq_true, ↓reduceIte, Bool.not_false, reduceCtorEq,
          Option.some.injEq, false_iff]
        rintro ⟨rfl, -, hsig⟩
        exact hs hsig

theorem checkAndInsertNonce_fst_iff {nonce : String} {seen : Dict String ℚ} :
    (V.checkAndInsertNonce nonce now seen).1 = true ↔
      (V.pruneReplayCache now seen).get? nonce = none := by
  unfold checkAndInsertNonce
  cases (V.pruneReplayCache now seen).get? nonce <;> simp

/-- `verify` answers with the agent of the record exactly when the envelope holds. -/
theorem verify_ok_iff : (V.verify now auditNow operation connectionId req s).1 = .ok identity ↔
    ∃ record, Authorised V now s req record ∧
      identity = { agentId := record.agentId, verifiedAt := now, connectionId } := by
  unfold verify
  cases hreq : V.checkRequest now req with
  | error e =>
    simp only [reduceCtorEq, false_iff]
    rintro ⟨record, hA, -⟩
    rw [checkRequest_ok_iff.2 ⟨hA.agentId, hA.nonce, hA.fresh⟩] at hreq
    cases hreq
  | ok u =>
    obtain ⟨hagent, hnonce, hfresh⟩ := checkRequest_ok_iff.1 hreq
    cases hcred : V.checkCredential req (s.registry.lookup req.agentId) with
    | error e =>
      simp only [reduceCtorEq, false_iff]
      rintro ⟨record, hA, -⟩
      rw [checkCredential_ok_iff.2 ⟨hA.registered, hA.active, hA.signed⟩] at hcred
      cases hcred
    | ok record =>
      obtain ⟨hreg, hactive, hsigned⟩ := checkCredential_ok_iff.1 hcred
      cases hins : (V.checkAndInsertNonce req.nonce now s.seenNonces).1 with
      | false =>
        simp only [conclude, Bool.false_eq_true, ↓reduceIte, reduceCtorEq, false_iff, hins]
        rintro ⟨record', hA, -⟩
        rw [checkAndInsertNonce_fst_iff.2 hA.unused] at hins
        cases hins
      | true =>
        simp only [conclude, ↓reduceIte, Except.ok.injEq, hins]
        constructor
        · rintro rfl
          exact ⟨record, ⟨hagent, hnonce, hfresh, hreg, hactive, hsigned,
            checkAndInsertNonce_fst_iff.1 hins⟩, rfl⟩
        · rintro ⟨record', hA, rfl⟩
          obtain rfl := Option.some.inj (hreg.symm.trans hA.registered)
          rfl

end IdentityVerifier

namespace MiddlewareContext

variable {ctx ctx' ctx₁ : MiddlewareContext} {req : SignedRequest} {value : AgentId}

theorem resolveCredential_some (h : ctx.resolveCredential = (some req, ctx₁)) :
    ∃ c, ctx₁ = { ctx with inputCredential := c } := by
  unfold resolveCredential at h
  split at h
  · cases h; exact ⟨ctx.inputCredential, rfl⟩
  · cases h; exact ⟨none, rfl⟩
  · cases h

theorem setAgentId_ok_iff : ctx.setAgentId value = .ok ctx' ↔
    ctx.agentId = none ∧ isBlank value = false ∧ ctx' = { ctx with agentId := some value } := by
  unfold setAgentId
  cases ha : ctx.agentId with
  | some a => simp
  | none => cases isBlank value <;> simp [eq_comm]

end MiddlewareContext

namespace AuthMiddleware

variable {V : IdentityVerifier} {now auditNow : ℚ} {ctx ctx' ctx₁ : MiddlewareContext}
  {req : SignedRequest} {s s' : VerifierState}

/-- What the verified identity does to the input: on `send` it becomes the sender. -/
def boundInput (operation : String) (identity : VerifiedIdentity) (input : JsonDict) : JsonDict :=
  if operation = "send" then
    (input.set "sender" (.str identity.agentId)).set "origin_server"
      ((identity.originServer.map Json.str).getD .null)
  else input

def verifiedConnection (ctx : MiddlewareContext) : Option String :=
  if ctx.operation = "send" then none else some ctx.connectionId

theorem call_enforced (hop : ctx.operation ∈ identityEnforcedOperations)
    (hres : ctx.resolveCredential = (some req, ctx₁)) : call V now auditNow ctx s =
      match V.verify now auditNow ctx.operation (verifiedConnection ctx) req s with
      | (.error e, s) => (.error (makeIdentityError e.reason), s)
      | (.ok identity, s) =>
        ({ ctx₁ with input := boundInput ctx.operation identity ctx₁.input }.setAgentId
          identity.agentId, s) := by
  obtain ⟨c, rfl⟩ := MiddlewareContext.resolveCredential_some hres
  rw [call, if_neg (not_not.2 hop), hres]
  by_cases hsend : ctx.operation = "send"
  · simp only [hsend, ↓reduceIte, verifiedConnection, boundInput, IdentityVerifier.bindForSend]
    cases V.verify now auditNow "send" none req s with
    | mk result s₁ =>
      cases result with
      | error e => rfl
      | ok identity =>
        have hsender : ((ctx.input.set "sender" (.str identity.agentId)).set "origin_server"
            ((identity.originServer.map Json.str).getD .null)).getD "sender" (.str "") =
              .str identity.agentId := by
          rw [Dict.getD_set_of_ne (by decide), Dict.getD_set_self]
        simp only [hsender, Json.pyStr_str]
  · simp only [hsend, ↓reduceIte, verifiedConnection, boundInput]

theorem call_missing (hop : ctx.operation ∈ identityEnforcedOperations)
    (hres : ctx.resolveCredential.1 = none) : (call V now auditNow ctx s).1 ≠ .ok ctx' := by
  obtain ⟨cred, ctx₁, hctx⟩ : ∃ cred ctx₁, ctx.resolveCredential = (cred, ctx₁) := ⟨_, _, rfl⟩
  rw [hctx] at hres
  subst hres
  rw [call, if_neg (not_not.2 hop), hctx]
  exact nofun

/-- An authenticated operation is passed on for an agent exactly when its envelope holds for that
agent; neither the operation nor the input has a part in it. -/
theorem call_ok_iff (hop : ctx.operation ∈ identityEnforcedOperations) (hnone : ctx.agentId = none)
    (agentId : AgentId) :
    (∃ ctx', (call V now auditNow ctx s).1 = .ok ctx' ∧ ctx'.agentId = some agentId) ↔
      ∃ req record, ctx.resolveCredential.1 = some req ∧ Authorised V now s req record ∧
        record.agentId = agentId ∧ isBlank agentId = false := by
  obtain ⟨cred, ctx₁, hctx⟩ : ∃ cred ctx₁, ctx.resolveCredential = (cred, ctx₁) := ⟨_, _, rfl⟩
  cases cred with
  | none =>
    have hcred : ctx.resolveCredential.1 = none := by rw [hctx]
    constructor
    · rintro ⟨ctx', h, -⟩
      exact absurd h (call_missing hop hcred)
    · rintro ⟨req, record, h, -⟩
      rw [hcred] at h
      cases h
  | some req =>
    have hnone₁ : ctx₁.agentId = none := by
      obtain ⟨c, rfl⟩ := MiddlewareContext.resolveCredential_some hctx
      exact hnone
    have hverify (identity : VerifiedIdentity) :
        (V.verify now auditNow ctx.operation (verifiedConnection ctx) req s).1 = .ok identity ↔ _ :=
      IdentityVerifier.verify_ok_iff
    rw [call_enforced hop hctx]
    cases hres : V.verify now auditNow ctx.operation (verifiedConnection ctx) req s with
    | mk result s₁ =>
      simp only [hres] at hverify
      simp only [hctx, Option.some.injEq]
      cases result with
      | error e =>
        constructor
        · rintro ⟨ctx', h, -⟩
          cases h
        · rintro ⟨_, record, rfl, hA, -⟩
          cases (hverify _).2 ⟨record, hA, rfl⟩
      | ok identity =>
        obtain ⟨record, hA, rfl⟩ := (hverify identity).1 rfl
        simp only [MiddlewareContext.setAgentId_ok_iff, hnone₁, true_and]
        constructor
        · rintro ⟨ctx', ⟨hblank, rfl⟩, hagent⟩
          obtain rfl := Option.some.inj hagent
          exact ⟨req, record, rfl, hA, rfl, hblank⟩
        · rintro ⟨_, record', rfl, hA', rfl, hblank⟩
          obtain rfl := Option.some.inj (hA.registered.symm.trans hA'.registered)
          exact ⟨_, ⟨hblank, rfl⟩, rfl⟩

theorem call_agentId (hop : ctx.operation ∈ identityEnforcedOperations)
    (h : (call V now auditNow ctx s).1 = .ok ctx') : ∃ agentId, ctx'.agentId = some agentId := by
  obtain ⟨cred, ctx₁, hctx⟩ : ∃ cred ctx₁, ctx.resolveCredential = (cred, ctx₁) := ⟨_, _, rfl⟩
  cases cred with
  | none => exact absurd h (call_missing hop (by rw [hctx]))
  | some req =>
    rw [call_enforced hop hctx] at h
    split at h
    · cases h
    · obtain ⟨-, -, rfl⟩ := MiddlewareContext.setAgentId_ok_iff.1 h
      exact ⟨_, rfl⟩

/-- A request that is passed on came with an envelope that its agent's key holder signed, fresh,
unused and of a registered agent that is not revoked. The same envelope would have been passed on
for that agent with any other authenticated operation and any other input. -/
theorem auth_envelope_only (V : IdentityVerifier) (Signed : Bytes → Bytes → Prop)
    (hunf : ∀ key payload sig, V.crypto.verifySignature key payload sig = true → Signed key payload)
    (hop : ctx.operation ∈ identityEnforcedOperations) (hnone : ctx.agentId = none)
    (h : (call V now auditNow ctx s).1 = .ok ctx') :
    ∃ req record, ctx.resolveCredential.1 = some req ∧ Authorised V now s req record ∧
      Signed record.publicKey (canonicalPayload req) ∧ ctx'.agentId = some req.agentId ∧
      ∀ other : MiddlewareContext, other.operation ∈ identityEnforcedOperations → other.agentId = none →
        other.resolveCredential.1 = some req →
          ∃ other', (call V now auditNow other s).1 = .ok other' ∧ other'.agentId = some req.agentId := by
  obtain ⟨agentId, hagent⟩ := call_agentId hop h
  obtain ⟨req, record, hcred, hA, rfl, hblank⟩ := (call_ok_iff hop hnone agentId).1 ⟨ctx', h, hagent⟩
  have hkeyed : record.agentId = req.agentId := s.registry.keyed _ _ hA.registered
  rw [hkeyed] at hagent hblank
  exact ⟨req, record, hcred, hA, hunf _ _ _ hA.signed, hagent, fun other hop' hnone' hcred' =>
    (call_ok_iff hop' hnone' req.agentId).2 ⟨req, record, hcred', hA, hkeyed, hblank⟩⟩

def aliceKey : Bytes := List.replicate 32 0

/-- What alice signed: a `send` with the empty body. -/
def aliceEnvelope : SignedRequest := ⟨"alice", "n1", .finite 0, "send", "\x7b\x7d", []⟩

/-- Only alice's envelope has a good signature. -/
def aliceVerifier : IdentityVerifier where
  crypto :=
    { verifySignature := fun key payload sig =>
        decide (key = aliceKey ∧ payload = canonicalPayload aliceEnvelope ∧ sig = [])
      sha256Hex := fun bytes => String.ofList (bytes.map fun b => Char.ofNat b.toNat)
      floatRepr := fun _ => "" }

def aliceRegistered : VerifierState :=
  { registry := CredentialRegistry.empty.put ⟨"alice", aliceKey, 0, none⟩ }

def recvContext : MiddlewareContext where
  operation := "recv"
  input := Dict.empty.set "max_messages" (.int 1)
  connectionId := "c"
  connectionCredential := some aliceEnvelope

theorem alice_authorised : Authorised aliceVerifier 0 aliceRegistered aliceEnvelope
    ⟨"alice", aliceKey, 0, none⟩ where
  agentId := by decide
  nonce := by decide
  fresh := by decide +kernel
  registered := rfl
  active := rfl
  signed := by simp [aliceVerifier, aliceEnvelope]
  unused := rfl

theorem recv_passed : ∃ ctx', (call aliceVerifier 0 0 recvContext aliceRegistered).1 = .ok ctx' ∧
    ctx'.agentId = some "alice" := by
  rw [call_ok_iff (by decide) rfl "alice"]
  exact ⟨aliceEnvelope, _, rfl, alice_authorised, rfl, by decide⟩

theorem auth_envelope_only_alice :
    ∃ req, recvContext.resolveCredential.1 = some req ∧ req.agentId = "alice" := by
  obtain ⟨ctx', h, -⟩ := recv_passed
  obtain ⟨req, -, hreq, -⟩ := auth_envelope_only aliceVerifier
    (fun key payload => key = aliceKey ∧ payload = canonicalPayload aliceEnvelope)
    (fun _ _ _ hsig => ⟨(of_decide_eq_true hsig).1, (of_decide_eq_true hsig).2.1⟩) (by decide) rfl h
  cases hreq
  exact ⟨_, rfl, rfl⟩

/-- The envelope of an empty `send` opens a `recv` with another body. -/
theorem auth_accepts_other_operation : ∃ ctx',
    (call aliceVerifier 0 0 recvContext aliceRegistered).1 = .ok ctx' ∧
      recvContext.resolveCredential.1 = some aliceEnvelope ∧
        aliceEnvelope.method ≠ recvContext.operation ∧
      aliceEnvelope.bodyHash = computeBodyHash aliceVerifier.crypto .empty ∧
      aliceEnvelope.bodyHash ≠ computeBodyHash aliceVerifier.crypto recvContext.input := by
  obtain ⟨ctx', h, -⟩ := recv_passed
  exact ⟨ctx', h, rfl, by decide, by decide +kernel, by decide +kernel⟩

end AuthMiddleware

end Sox
