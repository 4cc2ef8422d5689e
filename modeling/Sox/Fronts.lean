import Sox.OwnAgent
import Sox.SchemaStrict

/-!
# Runs of the servers

A server in front of a store makes of every event one operation on it or none (`Front`), so a run of the
server is a run of the store. Over HTTP the sender of a message is the token of the request that wrote it;
the agent of any other operation is whom the body names, unless the schema-strict plugin refuses bodies that
name one. Agents registered in advance gate four operations only. The tools of an MCP server act for the
agent of the server.
-/

namespace Sox

/-- The operation of a call that can change the store. -/
def StoreCall.op : StoreCall → Option StoreOp
  | change op => some op
  | _ => none

theorem StoreDispatch.perform_store {σ : Type} (B : BackingStore σ) (drainedAt : ℚ) (call : StoreCall) (s : σ) :
    (perform B drainedAt call s).2 = (call.op.map (B.apply · s)).getD s := by
  cases call with
  | change op =>
    cases op with
    | groupInvite now a g b =>
      simp only [perform, StoreCall.op, BackingStore.apply, Option.map_some, Option.getD_some]
      split <;> rfl
    | _ => rfl
  | _ => rfl

namespace StoreDispatch

variable {P : Parsers} {now sendNow : ℚ} {ctx : MiddlewareContext} {op : StoreOp}

/-- What a `send` with the input is to write. -/
def sendEnvelope (P : Parsers) (sender : AgentId) (inp : JsonDict) : MessageEnvelope where
  channel := strField P inp "channel" ""
  sender := sender
  body := bodyField inp
  correlationId := optStrField P inp "correlation_id"
  replyTo := optStrField P inp "reply_to"

/-- What a heartbeat of the agent with the input is to write. -/
def presenceEnvelope (P : Parsers) (agentId : AgentId) (inp : JsonDict) (now : ℚ) : MessageEnvelope :=
  (presenceArgs agentId (strField P inp "status" "active") now).envelope

theorem storeCall_writes (h : storeCall P now sendNow ctx = .ok (.change op)) : op.writes =
    if ctx.operation = "send" then
      some (sendEnvelope P (strField P ctx.input "sender" (ctx.agentId.getD "")) ctx.input)
    else if ctx.operation = "channels_heartbeat" then
      some (presenceEnvelope P (resolveAgentId P ctx.input ctx) ctx.input now)
    else none := by
  unfold storeCall at h
  dsimp only at h
  split at h
  case h_1 hop | h_8 hop =>
    cases h
    simp [hop, StoreOp.writes, StoreOp.sends]
    rfl
  case h_2 hop | h_9 hop =>
    cases hm : intField P ctx.input "max_messages" 50 with
    | error halt =>
      rw [hm] at h
      cases h
    | ok max =>
      rw [hm] at h
      cases h
      simp [hop, StoreOp.writes, StoreOp.sends]
  case h_5 hop =>
    cases hs : sinceField P ctx.input with
    | error halt =>
      rw [hs] at h
      cases h
    | ok since =>
      rw [hs] at h
      cases h
  case h_3 hop | h_4 hop | h_7 hop | h_11 hop | h_12 hop | h_13 hop | h_14 hop =>
    cases h
    simp [hop, StoreOp.writes, StoreOp.sends]
  case h_6 | h_10 | h_15 | h_16 => cases h

theorem changes_of_storeCall (h : storeCall P now sendNow ctx = .ok (.change op)) :
    ctx.operation ≠ "replay" ∧ ctx.operation ≠ "list_channels" := by
  constructor
  · intro hop
    simp only [storeCall, hop] at h
    cases h
  · intro hop
    simp only [storeCall, hop] at h
    cases hs : sinceField P ctx.input with
    | error halt => rw [hs] at h; cases h
    | ok since => rw [hs] at h; cases h

/-- The entry of the input that names the agent of the operation. -/
def actingKey (operation : String) : String :=
  if operation = "group_create" then "creator_id"
  else if operation = "group_invite" then "inviter_id"
  else "agent_id"

/-- The agent for whom the operation acts. -/
def actingAgent (P : Parsers) (ctx : MiddlewareContext) : AgentId :=
  if ctx.operation = "send" then strField P ctx.input "sender" (ctx.agentId.getD "")
  else if ctx.operation = "group_create" ∨ ctx.operation = "group_invite" then
    resolveFrom P (actingKey ctx.operation) ctx.input ctx
  else resolveAgentId P ctx.input ctx

theorem storeCall_agent {call : StoreCall} (h : storeCall P now sendNow ctx = .ok call) {a : AgentId}
    (ha : call.agent = some a) : a = actingAgent P ctx := by
  unfold storeCall at h
  dsimp only at h
  split at h
  case h_2 hop | h_9 hop =>
    cases hm : intField P ctx.input "max_messages" 50 with
    | error halt =>
      rw [hm] at h
      cases h
    | ok max =>
      rw [hm] at h
      cases h
      cases ha
      simp [actingAgent, hop]
  case h_5 hop =>
    cases hs : sinceField P ctx.input with
    | error halt =>
      rw [hs] at h
      cases h
    | ok since =>
      rw [hs] at h
      cases h
      cases ha
  case h_16 => cases h
  case h_6 | h_10 =>
    cases h
    cases ha
  all_goals
    rename_i hop
    cases h
    cases ha
    simp [actingAgent, actingKey, hop]

end StoreDispatch

/-- A server in front of the store, with events `ε` and states `τ`: what an event does to it, and the call
with which the event reaches the store. -/
structure Front (ε τ : Type) {σ : Type} (B : BackingStore σ) where
  store : τ → σ
  serve : ε → τ → τ
  reach : ε → τ → Option StoreCall
  store_serve : ∀ e t, store (serve e t) = (((reach e t).bind StoreCall.op).map (B.apply · (store t))).getD (store t)

namespace Front

variable {ε τ σ : Type} {B : BackingStore σ} (F : Front ε τ B)

def run (es : List ε) (t : τ) : τ := es.foldl (fun t e => F.serve e t) t

/-- The operation that the event makes. -/
def op (e : ε) (t : τ) : Option StoreOp := (F.reach e t).bind StoreCall.op

variable {F} {I : τ → Prop} {es : List ε} {t : τ}

theorem run_keeps (hI : ∀ e t, I t → I (F.serve e t)) (ht : I t) : I (F.run es t) := by
  induction es generalizing t with
  | nil => exact ht
  | cons e es ih => exact ih (hI e t ht)

theorem run_store (hI : ∀ e t, I t → I (F.serve e t)) (es : List ε) {t : τ} (ht : I t) :
    ∃ ops, F.store (F.run es t) = B.applyAll ops (F.store t) ∧
      List.SublistForall₂ (fun op e => ∃ t, I t ∧ F.op e t = some op) ops es := by
  induction es generalizing t with
  | nil => exact ⟨[], rfl, .nil⟩
  | cons e es ih =>
    obtain ⟨ops, hstore, hops⟩ := ih (hI e t ht)
    have hserve : F.store (F.serve e t) = ((F.op e t).map (B.apply · (F.store t))).getD (F.store t) :=
      F.store_serve e t
    cases hop : F.op e t with
    | none =>
      refine ⟨ops, hstore.trans ?_, .cons_right hops⟩
      rw [hserve, hop]
      rfl
    | some op =>
      refine ⟨op :: ops, hstore.trans ?_, .cons ⟨t, ht, hop⟩ hops⟩
      rw [hserve, hop]
      rfl

theorem sublist_filterMap {α β γ : Type} {R : α → β → Prop} {f : α → Option γ} {g : β → Option γ} {as : List α}
    {bs : List β} (h : List.SublistForall₂ R as bs) (hR : ∀ a b c, R a b → f a = some c → g b = some c) :
    (as.filterMap f).Sublist (bs.filterMap g) := by
  induction h with
  | nil => exact List.nil_sublist _
  | @cons a b as bs hab hrest ih =>
    cases hf : f a with
    | none =>
      rw [List.filterMap_cons_none hf]
      refine ih.trans ?_
      exact (List.sublist_cons_self b bs).filterMap g
    | some c =>
      rw [List.filterMap_cons_some hf, List.filterMap_cons_some (hR a b c hab hf)]
      exact ih.cons_cons c
  | cons_right hrest ih => exact ih.trans ((List.sublist_cons_self _ _).filterMap g)

theorem mem_of_sublistForall₂ {α β : Type} {R : α → β → Prop} {as : List α} {bs : List β}
    (h : List.SublistForall₂ R as bs) {a : α} (ha : a ∈ as) : ∃ b ∈ bs, R a b := by
  induction h with
  | nil => exact absurd ha List.not_mem_nil
  | cons hab hrest ih =>
    rcases List.mem_cons.1 ha with rfl | ha
    · exact ⟨_, List.mem_cons_self, hab⟩
    · obtain ⟨b, hb, hR⟩ := ih ha
      exact ⟨b, List.mem_cons_of_mem _ hb, hR⟩
  | cons_right hrest ih =>
    obtain ⟨b, hb, hR⟩ := ih ha
    exact ⟨b, List.mem_cons_of_mem _ hb, hR⟩

/-- The operations of the events act for the agents `who` and write the messages `writes`. -/
structure ActsFor (F : Front ε τ B) (who : ε → AgentId) (writes : ε → Option MessageEnvelope) : Prop where
  agent : ∀ e t op, F.op e t = some op → op.agent = who e
  message : ∀ e t op, F.op e t = some op → op.writes = writes e

theorem run_messages {X : Holdings σ} {Inv : σ → Prop} (hX : X.Lawful B Inv) {writes : ε → Option MessageEnvelope}
    (hF : ∀ e t op, F.op e t = some op → op.writes = writes e) (es : List ε) {t : τ} (hs : Inv (F.store t)) :
    ∃ new, envelopes (X.messages (F.store (F.run es t))) = envelopes (X.messages (F.store t)) ++ new ∧
      new.Sublist (es.filterMap writes) := by
  obtain ⟨ops, hstore, hops⟩ := F.run_store (I := fun _ => True) (fun _ _ _ => trivial) es (t := t) trivial
  refine ⟨ops.filterMap StoreOp.writes, ?_, sublist_filterMap hops ?_⟩
  · rw [hstore]
    exact hX.run_envelopes ops hs
  · rintro op e w ⟨t, -, hop⟩ hw
    rw [← hF e t op hop, hw]

/-- A run without an event of the agent's leaves it alone. -/
theorem run_alone {X : Holdings σ} {Inv : σ → Prop} (hX : X.Lawful B Inv) {who : ε → AgentId}
    {writes : ε → Option MessageEnvelope} (hF : F.ActsFor who writes) {b : AgentId} (es : List ε)
    (hb : ∀ e ∈ es, who e ≠ b) {t : τ} (hs : Inv (F.store t)) :
    ∃ news, news.Sublist (es.filterMap writes) ∧ X.Alone b news (F.store t) (F.store (F.run es t)) := by
  obtain ⟨ops, hstore, hops⟩ := F.run_store (I := fun _ => True) (fun _ _ _ => trivial) es (t := t) trivial
  refine ⟨ops.filterMap StoreOp.writes, sublist_filterMap hops ?_, ?_⟩
  · rintro op e w ⟨t, -, hop⟩ hw
    rw [← hF.message e t op hop, hw]
  · rw [hstore]
    refine hX.run_alone ops (fun op hmem => ?_) hs
    obtain ⟨e, he, t, -, hop⟩ := mem_of_sublistForall₂ hops hmem
    rw [hF.agent e t op hop]
    exact (hb e he).symm

end Front

/-! ### HTTP -/

namespace HttpServer

variable (H : HttpServer)

abbrev HttpEvent := Readings × HttpRequest

/-- The agent for whom an operation acts that the auth middleware does not look at: whom the body names, or
else the token. -/
def claimedAgent (P : Parsers) (r : HttpRequest) : AgentId :=
  ((r.body.get? "agent_id").map (StoreDispatch.str P)).getD r.token

/-- The message that the request is to write: a `send` writes for its token, a heartbeat for the server. -/
def message (P : Parsers) (e : HttpEvent) : Option MessageEnvelope :=
  if e.2.operation = "send" then some (StoreDispatch.sendEnvelope P e.2.token e.2.body)
  else if e.2.operation = "channels_heartbeat" then
    some (StoreDispatch.presenceEnvelope P (claimedAgent P e.2) e.2.body e.1.store.now)
  else none

def front {σ : Type} (B : BackingStore σ) : Front HttpEvent (HttpState σ) B where
  store := HttpState.store
  serve e s := (H.dispatch B e.1 e.2 s).2
  reach e s := H.reachedCall e.1 e.2 s.verifier
  store_serve e s := by
    rw [dispatch_store]
    cases H.reachedCall e.1 e.2 s.verifier with
    | none => rfl
    | some call => exact StoreDispatch.perform_store B _ call s.store

variable {H} {rd : Readings} {r : HttpRequest} {s : VerifierState} {ctx : MiddlewareContext} {op : StoreOp}

theorem authenticated_open (hop : r.operation ∉ AuthMiddleware.identityEnforcedOperations) (s : VerifierState) :
    H.authenticated rd r s = (.ok (H.context rd r), s) := if_pos hop

theorem admitted_cases (h : H.admitted rd r s = some ctx) :
    (r.operation ∈ AuthMiddleware.identityEnforcedOperations ∧ ctx = H.boundContext rd r ∧
      r.token.isEmpty = false) ∨
    r.operation ∉ AuthMiddleware.identityEnforcedOperations ∧ ctx = H.context rd r := by
  by_cases hop : r.operation ∈ AuthMiddleware.identityEnforcedOperations
  · exact .inl ⟨hop, admitted_some hop h⟩
  · refine .inr ⟨hop, ?_⟩
    unfold admitted at h
    split at h
    · cases h
    · rw [authenticated_open hop] at h
      exact (Option.some.inj h).symm

theorem resolveAgentId_context (P : Parsers) (r : HttpRequest) :
    StoreDispatch.resolveAgentId P r.body (H.context rd r) = claimedAgent P r := by
  unfold StoreDispatch.resolveAgentId claimedAgent
  cases r.body.get? "agent_id" with
  | some j => rfl
  | none =>
    show StoreDispatch.resolveAgentId.hint P (H.context rd r) = r.token
    have hmeta : (H.context rd r).metadata.getD "_agent_id" .null = .str r.token := Dict.getD_set_self
    simp only [StoreDispatch.resolveAgentId.hint, hmeta]
    by_cases ht : r.token = ""
    · simp [ht, Json.truthy]
    · simp [ht, Json.truthy, StoreDispatch.str]

theorem reached_cases (h : (H.reachedCall rd r s).bind StoreCall.op = some op) :
    ∃ ctx, H.admitted rd r s = some ctx ∧ H.storeCall rd ctx = .ok (.change op) := by
  obtain ⟨call, hcall, hop⟩ := Option.bind_eq_some_iff.1 h
  obtain ⟨ctx, hctx, hstore⟩ := Option.bind_eq_some_iff.1 hcall
  refine ⟨ctx, hctx, ?_⟩
  cases hc : H.storeCall rd ctx with
  | error halt =>
    rw [hc] at hstore
    cases hstore
  | ok call' =>
    rw [hc] at hstore
    cases hstore
    cases call <;> cases hop
    rfl

theorem sendEnvelope_bound (P : Parsers) (token sender : AgentId) (body : JsonDict) :
    StoreDispatch.sendEnvelope P sender ((body.set "sender" (.str token)).set "origin_server" .null) =
      StoreDispatch.sendEnvelope P sender body := by
  have hfield (k : String) (hs : k ≠ "sender") (ho : k ≠ "origin_server") (v : Json) :
      ((body.set "sender" (.str token)).set "origin_server" .null).getD k v = body.getD k v := by
    rw [Dict.getD_set_of_ne ho, Dict.getD_set_of_ne hs]
  simp only [StoreDispatch.sendEnvelope, StoreDispatch.strField, StoreDispatch.bodyField,
    StoreDispatch.optStrField, hfield "channel" (by decide) (by decide), hfield "body" (by decide) (by decide),
    hfield "correlation_id" (by decide) (by decide), hfield "reply_to" (by decide) (by decide)]

theorem writes_of_reached (h : (H.reachedCall rd r s).bind StoreCall.op = some op) :
    op.writes = message H.parsers (rd, r) := by
  obtain ⟨ctx, hctx, hcall⟩ := reached_cases h
  rw [StoreDispatch.storeCall_writes hcall]
  unfold message
  rcases admitted_cases hctx with ⟨hop, rfl, -⟩ | ⟨hop, rfl⟩
  · -- the auth middleware has written the sender into the input
    show (if r.operation = "send" then _ else if r.operation = "channels_heartbeat" then _ else _) = _
    by_cases hsend : r.operation = "send"
    · rw [if_pos hsend, if_pos hsend, input_boundContext_send hsend, sendEnvelope_bound, StoreDispatch.strField,
        Dict.getD_set_of_ne (by decide), Dict.getD_set_self]
      rfl
    · have hbeat : r.operation ≠ "channels_heartbeat" := by
        rintro hbeat
        rw [hbeat] at hop
        exact absurd hop (by decide)
      rw [if_neg hsend, if_neg hsend, if_neg hbeat, if_neg hbeat]
  · have hsend : r.operation ≠ "send" := by
      rintro hsend
      rw [hsend] at hop
      exact absurd hop (by decide)
    show (if r.operation = "send" then _ else if r.operation = "channels_heartbeat" then _ else _) = _
    rw [if_neg hsend, if_neg hsend, ← resolveAgentId_context H.parsers r]
    rfl

/-- Over HTTP, whatever the requests and their bodies: the messages of either store are ones that the requests
were to write, in the order of the requests and at most one for each, and those of a `send` bear its token as
their sender. -/
theorem http_messages (H : HttpServer) (es : List HttpEvent) (v : VerifierState) :
    (envelopes ((H.front memoryStore).run es ⟨v, .init⟩).store.messages).Sublist
        (es.filterMap (message H.parsers)) ∧
      (envelopes ((H.front sqliteStore).run es ⟨v, .init⟩).store.db.messages).Sublist
        (es.filterMap (message H.parsers)) ∧
      ∀ e w, message H.parsers e = some w →
        w.sender = e.2.token ∨ w.sender = "__server__" ∧ w.channel = presenceChannel := by
  refine ⟨?_, ?_, fun e w hw => ?_⟩
  · obtain ⟨new, hnew, hsub⟩ := Front.run_messages (F := H.front memoryStore) MemoryStore.holdings_lawful
      (fun _ _ _ hop => writes_of_reached hop) es (t := ⟨v, .init⟩) .init
    exact hnew ▸ hsub
  · obtain ⟨new, hnew, hsub⟩ := Front.run_messages (F := H.front sqliteStore) SqliteStore.holdings_lawful
      (fun _ _ _ hop => writes_of_reached hop) es (t := ⟨v, .init⟩) SqliteStore.inv_init
    exact hnew ▸ hsub
  · unfold message at hw
    split_ifs at hw
    · cases hw
      exact .inl rfl
    · cases hw
      exact .inr ⟨rfl, rfl⟩

/-! ### Agents registered in advance -/

/-- The agent is registered, and not revoked. -/
def isActive (v : VerifierState) (a : AgentId) : Bool := (v.registry.lookup a).any fun record => !record.isRevoked

theorem verify_registry {V : IdentityVerifier} {now auditNow : ℚ} {operation : String} {conn : Option String}
    {req : SignedRequest} : (V.verify now auditNow operation conn req s).2.registry = s.registry := by
  unfold IdentityVerifier.verify
  split
  · rfl
  · split
    · rfl
    · dsimp only
      split <;> rfl

theorem call_registry {V : IdentityVerifier} {now auditNow : ℚ} :
    (AuthMiddleware.call V now auditNow ctx s).2.registry = s.registry := by
  by_cases hop : ctx.operation ∈ AuthMiddleware.identityEnforcedOperations
  · obtain ⟨cred, ctx₁, hctx⟩ : ∃ cred ctx₁, ctx.resolveCredential = (cred, ctx₁) := ⟨_, _, rfl⟩
    cases cred with
    | none => rw [AuthMiddleware.call, if_neg (not_not.2 hop), hctx]
    | some req =>
      rw [AuthMiddleware.call_enforced hop hctx]
      have hkept : (V.verify now auditNow ctx.operation (AuthMiddleware.verifiedConnection ctx) req s).2.registry =
        s.registry := verify_registry
      cases hv : V.verify now auditNow ctx.operation (AuthMiddleware.verifiedConnection ctx) req s with
      | mk result s' =>
        rw [hv] at hkept
        cases result <;> exact hkept
  · rw [AuthMiddleware.call, if_pos hop]

theorem register_closed (hauto : H.autoRegister = false) (token : String) : H.register rd token s = .ok s := by
  rw [register, hauto]
  rfl

theorem dispatch_registry {σ : Type} {B : BackingStore σ} {st : HttpState σ} (hauto : H.autoRegister = false) :
    (H.dispatch B rd r st).2.verifier.registry = st.verifier.registry := by
  have hkept : (AuthMiddleware.call H.verifier rd.now rd.auditNow (H.context rd r) st.verifier).2.registry =
    st.verifier.registry := call_registry
  unfold dispatch
  rw [register_closed hauto]
  simp only [pipeline, authenticated]
  cases hauth : AuthMiddleware.call H.verifier rd.now rd.auditNow (H.context rd r) st.verifier with
  | mk result verifier =>
    rw [hauth] at hkept
    cases result with
    | error halt => exact hkept
    | ok ctx =>
      simp only
      cases H.storeCall rd ctx with
      | error halt => exact hkept
      | ok call =>
        simp only
        cases StoreDispatch.perform B rd.store.drainedAt call st.store with
        | mk response store => cases response <;> exact hkept

/-- With agents registered in advance, a request of an enforced operation is admitted for an active agent. -/
theorem active_of_authenticated (hop : r.operation ∈ AuthMiddleware.identityEnforcedOperations)
    (h : (H.authenticated rd r s).1 = .ok ctx) : isActive s r.token = true := by
  obtain ⟨a, ha⟩ := AuthMiddleware.call_agentId hop h
  obtain ⟨req, record, hreq, hA, -, -⟩ := (AuthMiddleware.call_ok_iff hop rfl a).1 ⟨ctx, h, ha⟩
  obtain rfl : H.resolveCredential rd r = req := Option.some.inj hreq
  have hlookup : s.registry.lookup r.token = some record := hA.registered
  rw [isActive, hlookup, Option.any_some, hA.active]
  rfl

theorem refused_of_inactive (hop : r.operation ∈ AuthMiddleware.identityEnforcedOperations)
    (hinactive : isActive s r.token = false) :
    ∃ reason, (H.authenticated rd r s).1 = .error (AuthMiddleware.makeIdentityError reason) := by
  have hres : (H.context rd r).resolveCredential = (some (H.resolveCredential rd r), H.context rd r) := rfl
  cases hauth : (H.authenticated rd r s).1 with
  | ok ctx =>
    rw [active_of_authenticated hop hauth] at hinactive
    cases hinactive
  | error halt =>
    rw [authenticated, AuthMiddleware.call_enforced hop hres] at hauth
    split at hauth
    · rename_i e _ _
      cases hauth
      exact ⟨e.reason, rfl⟩
    · rename_i identity _ hv
      -- the verifier accepts registered agents only
      exfalso
      obtain ⟨record, hA, -⟩ := IdentityVerifier.verify_ok_iff.1 (congrArg Prod.fst hv)
      have hlookup : s.registry.lookup r.token = some record := hA.registered
      rw [isActive, hlookup, Option.any_some, hA.active] at hinactive
      cases hinactive

theorem admitted_closed (hauto : H.autoRegister = false) :
    H.admitted rd r s = (H.authenticated rd r s).1.toOption := by
  rw [admitted, register_closed hauto]

/-- What a request is to write where the agents are registered in advance. -/
def gatedMessage (P : Parsers) (v : VerifierState) (e : HttpEvent) : Option MessageEnvelope :=
  if e.2.operation = "send" ∧ isActive v e.2.token = false then none else message P e

theorem isActive_congr {v v' : VerifierState} (h : v'.registry = v.registry) (a : AgentId) :
    isActive v' a = isActive v a := by
  rw [isActive, isActive, h]

theorem run_gatedMessages {σ : Type} {B : BackingStore σ} {X : Holdings σ} {Inv : σ → Prop} (hX : X.Lawful B Inv)
    (hauto : H.autoRegister = false) (es : List HttpEvent) (v : VerifierState) {s : σ} (hs : Inv s)
    (hnone : X.messages s = []) :
    (envelopes (X.messages ((H.front B).run es ⟨v, s⟩).store)).Sublist
      (es.filterMap (gatedMessage H.parsers v)) := by
  obtain ⟨ops, hstore, hops⟩ := (H.front B).run_store (I := fun st => st.verifier.registry = v.registry)
    (fun _ _ h => (dispatch_registry hauto).trans h) es (t := ⟨v, s⟩) rfl
  have hrun := hX.run_envelopes ops hs
  rw [hnone] at hrun
  rw [show ((H.front B).run es ⟨v, s⟩).store = B.applyAll ops s from hstore, hrun]
  refine Front.sublist_filterMap hops ?_
  rintro op ⟨rd, r⟩ w ⟨t, ht, hop⟩ hw
  rw [gatedMessage, ← writes_of_reached hop, if_neg, hw]
  rintro ⟨hsend, hinactive⟩
  obtain ⟨ctx, hctx, -⟩ := reached_cases hop
  rw [admitted_closed hauto] at hctx
  cases hauth : (H.authenticated rd r t.verifier).1 with
  | error halt =>
    rw [hauth] at hctx
    cases hctx
  | ok ctx' =>
    have hsend' : r.operation = "send" := hsend
    have hactive := active_of_authenticated (by rw [hsend']; decide) hauth
    rw [isActive_congr ht] at hactive
    exact absurd (hactive.symm.trans hinactive) (by decide)

/-- Agents registered in advance (`SOX_PRE_REGISTERED_AGENTS`), after any requests: an unknown or revoked token
is refused with 401 on the four operations that the auth middleware enforces, and never sends; with every other
operation its requests reach the store like anybody's. -/
theorem preregistered_agents (H : HttpServer) (hauto : H.autoRegister = false) (es : List HttpEvent)
    (v : VerifierState) :
    (envelopes ((H.front memoryStore).run es ⟨v, .init⟩).store.messages).Sublist
      (es.filterMap (gatedMessage H.parsers v)) ∧
    (envelopes ((H.front sqliteStore).run es ⟨v, .init⟩).store.db.messages).Sublist
      (es.filterMap (gatedMessage H.parsers v)) ∧
    ∀ {σ : Type} (B : BackingStore σ) (s : σ) rd r, isActive v r.token = false →
      let st := (H.front B).run es ⟨v, s⟩
      (r.operation ∈ AuthMiddleware.identityEnforcedOperations →
        (∃ reason, (H.dispatch B rd r st).1 = some ⟨401, .error ⟨"identity_failure", reason⟩⟩) ∧
          (H.dispatch B rd r st).2.store = st.store) ∧
      (r.operation ∉ AuthMiddleware.identityEnforcedOperations →
        H.reachedCall rd r st.verifier = (H.storeCall rd (H.context rd r)).toOption) := by
  refine ⟨run_gatedMessages MemoryStore.holdings_lawful hauto es v .init rfl,
    run_gatedMessages SqliteStore.holdings_lawful hauto es v SqliteStore.inv_init rfl,
    fun B s rd r hinactive => ⟨fun hop => ?_, fun hop => ?_⟩⟩
  · have hkept : ((H.front B).run es ⟨v, s⟩).verifier.registry = v.registry :=
      Front.run_keeps (I := fun st : HttpState _ => st.verifier.registry = v.registry)
        (fun _ _ h => (dispatch_registry hauto).trans h) rfl
    have hinactive' := (isActive_congr hkept r.token).trans hinactive
    obtain ⟨reason, hrefused⟩ : ∃ reason, (H.authenticated rd r ((H.front B).run es ⟨v, s⟩).verifier).1 =
      .error (AuthMiddleware.makeIdentityError reason) := refused_of_inactive hop hinactive'
    rw [dispatch, register_closed hauto]
    simp only [pipeline]
    cases hauth : H.authenticated rd r ((H.front B).run es ⟨v, s⟩).verifier with
    | mk result verifier =>
      rw [hauth] at hrefused
      cases hrefused
      exact ⟨⟨reason, rfl⟩, rfl⟩
  · rw [reachedCall, admitted_closed hauto, authenticated_open hop]
    rfl

/-- A server that registers nobody by itself, and knows alice. -/
def closedServer : HttpServer := { echoServer with autoRegister := false }

def aliceKnown : VerifierState :=
  { registry := CredentialRegistry.empty.put ⟨"alice", echoServer.publicKey, 0, none⟩ }

theorem preregistered_mallory :
    let st := (closedServer.front memoryStore).run [(firstReadings, recvFor "alice")] ⟨aliceKnown, .init⟩
    ∃ reason, (closedServer.dispatch memoryStore firstReadings (recvFor "alice") st).1 =
      some ⟨401, .error ⟨"identity_failure", reason⟩⟩ :=
  (((preregistered_agents closedServer rfl [(firstReadings, recvFor "alice")] aliceKnown).2.2 memoryStore .init
    firstReadings (recvFor "alice") (by decide +kernel)).1 (by decide)).1

/-! ### With the schema-strict plugin -/

variable (H) in
/-- The answer of the plugin, in front of everything else, to a request that it refuses; its status is 400. -/
def refusal (V : Draft202012Validator) (rd : Readings) (r : HttpRequest) : Option JsonDict :=
  match OperationSchema.ofOperation r.operation with
  | none => none
  | some schema =>
    let violations := SchemaStrict.buildViolations V schema (SchemaStrict.checkedInput (H.context rd r))
    if violations.isEmpty then none
    else some (SchemaStrict.makeValidationErrorEnvelope r.operation violations)

inductive StrictAnswer where
  | refused (envelope : JsonDict)
  | answered (response : HttpResponse)

variable (H) in
/-- `_dispatch` with the plugin in the pipeline. -/
def strictDispatch {σ : Type} (V : Draft202012Validator) (B : BackingStore σ) (rd : Readings) (r : HttpRequest)
    (s : HttpState σ) : Option StrictAnswer × HttpState σ :=
  match H.register rd r.token s.verifier, H.refusal V rd r with
  | .error _, _ => (none, s)
  | .ok verifier, some envelope => (some (.refused envelope), { s with verifier })
  | .ok _, none =>
    let (response, s) := H.dispatch B rd r s
    (response.map .answered, s)

theorem refusal_answer {τ : Type} (V : Draft202012Validator) (terminal : Terminal τ) (mws : List (Middleware τ))
    (world : τ) :
    Pipeline.answer terminal (SchemaStrict.middleware V OperationSchema.ofOperation :: mws)
        ⟨H.context rd r, world⟩ =
      match H.refusal V rd r with
      | some envelope => (.shortCircuit envelope, ⟨H.context rd r, world⟩)
      | none => Pipeline.answer terminal mws ⟨H.context rd r, world⟩ := by
  unfold refusal
  cases hs : OperationSchema.ofOperation r.operation with
  | none =>
    refine SchemaStrict.answer_of_valid fun schema hs' => ?_
    have hnone : OperationSchema.ofOperation r.operation = some schema := hs'
    rw [hs] at hnone
    cases hnone
  | some schema =>
    simp only [SchemaStrict.buildViolations_isEmpty]
    cases hvalid : schema.isValid (SchemaStrict.checkedInput (H.context rd r)) with
    | false => exact SchemaStrict.answer_of_invalid hs hvalid
    | true =>
      refine SchemaStrict.answer_of_valid fun schema' hs' => ?_
      have hsame : OperationSchema.ofOperation r.operation = some schema' := hs'
      rw [hs] at hsame
      cases hsame
      exact hvalid

theorem actingKey_unknown {operation : String} {schema : Schema}
    (hs : OperationSchema.ofOperation operation = some schema) :
    StoreDispatch.actingKey operation ∉ schema.propertyNames := by
  unfold OperationSchema.ofOperation at hs
  split at hs
  all_goals
    cases hs
    try decide

/-- A body that is let through names no agent to act for. -/
theorem get?_actingKey {V : Draft202012Validator} {schema : Schema}
    (hs : OperationSchema.ofOperation r.operation = some schema) (h : H.refusal V rd r = none) :
    r.body.get? (StoreDispatch.actingKey r.operation) = none := by
  by_contra hfound
  have hmem : StoreDispatch.actingKey r.operation ∈ r.body.entries.map Prod.fst :=
    Dict.isSome_get?_iff.1 (Option.isSome_iff_ne_none.2 hfound)
  have hinvalid : schema.isValid (SchemaStrict.checkedInput (H.context rd r)) = false := by
    refine Schema.not_isValid_of_extra (ToolCall.closed_of_operation hs) (actingKey_unknown hs) ?_
    simpa [context] using hmem
  simp only [refusal, hs, SchemaStrict.buildViolations_isEmpty, hinvalid] at h
  cases h

theorem known_of_storeCall {call : StoreCall} (h : H.storeCall rd ctx = .ok call) :
    ∃ schema, OperationSchema.ofOperation ctx.operation = some schema := by
  unfold storeCall StoreDispatch.storeCall at h
  split at h
  case h_16 => cases h
  all_goals
    rename_i hop
    rw [hop]
    exact ⟨_, rfl⟩

theorem resolveFrom_context {P : Parsers} {key : String} (h : r.body.get? key = none) :
    StoreDispatch.resolveFrom P key r.body (H.context rd r) = r.token := by
  have hkey : r.body.getD key .null = .null := by rw [Dict.getD, h, Option.getD_none]
  have hmeta : (H.context rd r).metadata.getD "_agent_id" .null = .str r.token := Dict.getD_set_self
  have hagent : (H.context rd r).agentId = none := rfl
  simp only [StoreDispatch.resolveFrom, hkey, hmeta, hagent]
  by_cases ht : r.token = ""
  · simp [ht, Json.truthy, StoreDispatch.str]
  · simp [ht, Json.truthy, StoreDispatch.str]

/-- The operation of a request that the plugin lets through acts for the token. -/
theorem agent_of_valid {V : Draft202012Validator} {call : StoreCall} (hvalid : H.refusal V rd r = none)
    (hreached : H.reachedCall rd r s = some call) {a : AgentId} (ha : call.agent = some a) : a = r.token := by
  obtain ⟨ctx, hctx, hstore⟩ := Option.bind_eq_some_iff.1 hreached
  have hcall : H.storeCall rd ctx = .ok call := by
    cases hc : H.storeCall rd ctx with
    | error halt => rw [hc] at hstore; cases hstore
    | ok call' => rw [hc] at hstore; cases hstore; rfl
  obtain ⟨schema, hs⟩ := known_of_storeCall hcall
  rw [StoreDispatch.storeCall_agent hcall ha, StoreDispatch.actingAgent]
  rcases admitted_cases hctx with ⟨hop, rfl, ht⟩ | ⟨hop, rfl⟩
  · have hkey := get?_actingKey hs hvalid
    by_cases hsend : r.operation = "send"
    · refine (if_pos hsend).trans ?_
      rw [input_boundContext_send hsend, StoreDispatch.strField, Dict.getD_set_of_ne (by decide), Dict.getD_set_self]
      rfl
    · have hgroup : ¬(r.operation = "group_create" ∨ r.operation = "group_invite") := by
        rintro (hg | hg) <;> rw [hg] at hop <;> exact absurd hop (by decide)
      refine (if_neg hsend).trans ((if_neg hgroup).trans ?_)
      rw [StoreDispatch.actingKey, if_neg fun h => hgroup (.inl h), if_neg fun h => hgroup (.inr h)] at hkey
      rw [input_boundContext hsend, resolveAgentId_bound _ ht, hkey]
      rfl
  · have hkey := get?_actingKey hs hvalid
    have hsend : r.operation ≠ "send" := by
      rintro hsend
      rw [hsend] at hop
      exact absurd hop (by decide)
    refine (if_neg hsend).trans ?_
    by_cases hgroup : r.operation = "group_create" ∨ r.operation = "group_invite"
    · exact (if_pos hgroup).trans (resolveFrom_context hkey)
    · refine (if_neg hgroup).trans ?_
      rw [StoreDispatch.actingKey, if_neg fun h => hgroup (.inl h), if_neg fun h => hgroup (.inr h)] at hkey
      refine (resolveAgentId_context _ r).trans ?_
      rw [claimedAgent, hkey]
      rfl

variable (H) in
def strictFront {σ : Type} (V : Draft202012Validator) (B : BackingStore σ) : Front HttpEvent (HttpState σ) B where
  store := HttpState.store
  serve e s := (H.strictDispatch V B e.1 e.2 s).2
  reach e s := if (H.refusal V e.1 e.2).isSome then none else H.reachedCall e.1 e.2 s.verifier
  store_serve e s := by
    have hplain := (H.front B).store_serve e s
    unfold strictDispatch
    cases href : H.refusal V e.1 e.2 with
    | some envelope => cases H.register e.1 e.2.token s.verifier <;> rfl
    | none =>
      cases hreg : H.register e.1 e.2.token s.verifier with
      | ok verifier => exact hplain
      | error msg =>
        have hnone : H.reachedCall e.1 e.2 s.verifier = none := by
          rw [reachedCall, admitted, hreg]
          rfl
        simp [hnone]

theorem strictFront_actsFor {σ : Type} (V : Draft202012Validator) (B : BackingStore σ) :
    (H.strictFront V B).ActsFor (fun e => e.2.token) (message H.parsers) := by
  have hplain : ∀ e (t : HttpState σ) op, (H.strictFront V B).op e t = some op →
      H.refusal V e.1 e.2 = none ∧ (H.reachedCall e.1 e.2 t.verifier).bind StoreCall.op = some op := by
    intro e t op hop
    simp only [Front.op, strictFront] at hop
    split at hop
    · cases hop
    · rename_i hvalid
      exact ⟨by simpa using hvalid, hop⟩
  constructor
  · intro e t op hop
    obtain ⟨hvalid, hreached⟩ := hplain e t op hop
    obtain ⟨call, hcall, hcallop⟩ := Option.bind_eq_some_iff.1 hreached
    cases call <;> cases hcallop
    exact agent_of_valid hvalid hcall op.agent_change
  · intro e t op hop
    exact writes_of_reached (hplain e t op hop).2

/-- With the schema-strict plugin, over HTTP: whatever others request, with their own tokens, an agent's
patterns and liveness stay, nothing is taken from its mail, and its unread mail grows by messages of their
requests only. -/
theorem schema_strict_isolates (H : HttpServer) (V : Draft202012Validator) (es : List HttpEvent) (b : AgentId)
    (hb : ∀ e ∈ es, e.2.token ≠ b) (v : VerifierState) (ops : List StoreOp) :
    (∃ news, news.Sublist (es.filterMap (message H.parsers)) ∧
      let s := memoryStore.applyAll ops .init
      MemoryStore.holdings.Alone b news s ((H.strictFront V memoryStore).run es ⟨v, s⟩).store) ∧
    ∃ news, news.Sublist (es.filterMap (message H.parsers)) ∧
      let s := sqliteStore.applyAll ops .init
      SqliteStore.holdings.Alone b news s ((H.strictFront V sqliteStore).run es ⟨v, s⟩).store :=
  ⟨Front.run_alone (F := H.strictFront V memoryStore) MemoryStore.holdings_lawful (strictFront_actsFor V _) es hb
      (t := ⟨v, _⟩) (MemoryStore.Inv.reachable ops),
    Front.run_alone (F := H.strictFront V sqliteStore) SqliteStore.holdings_lawful (strictFront_actsFor V _) es hb
      (t := ⟨v, _⟩) (SqliteStore.inv_reachable ops)⟩

theorem schema_strict_isolates_alice :
    let ops : List StoreOp := [.subscribe "alice" "ticket:*", .send 1 ⟨"ticket:1", "bob", .empty, none, none⟩]
    let s := memoryStore.applyAll ops .init
    let s' := ((echoServer.strictFront default memoryStore).run [(firstReadings, recvFor "alice")] ⟨{}, s⟩).store
    ∃ news, MemoryStore.holdings.Alone "alice" news s s' :=
  (schema_strict_isolates echoServer default [(firstReadings, recvFor "alice")] "alice" (by decide) {}
    [.subscribe "alice" "ticket:*", .send 1 ⟨"ticket:1", "bob", .empty, none, none⟩]).1.imp fun _ h => h.2

end HttpServer

/-! ### MCP -/

namespace McpServer

/-- A call of a tool of the server `who`. -/
structure McpEvent (ι : Type) where
  who : ι
  readings : ToolReadings
  connectionId : String
  call : ToolCall

/-- The store that the servers share, and the verifier of each. -/
structure McpFleet (ι σ : Type) where
  verifiers : ι → VerifierState
  store : σ

section
variable {ι σ : Type} [DecidableEq ι] (S : ι → McpServer) (B : BackingStore σ)

/-- A tool call; a `ValueError` of the tool is the end of it. -/
def serveCall (e : McpEvent ι) (t : McpFleet ι σ) : McpFleet ι σ :=
  match e.call.dispatched (S e.who).tools with
  | .error _ => t
  | .ok (operation, input) =>
    let (_, s) := (S e.who).dispatch B e.readings e.connectionId operation input ⟨t.verifiers e.who, t.store⟩
    { verifiers := Function.update t.verifiers e.who s.verifier, store := s.store }

/-- The call with which a dispatch of the server reaches the store. -/
def reachedCall (S : McpServer) (rd : ToolReadings) (connectionId operation : String) (input : JsonDict)
    (v : VerifierState) : Option StoreCall :=
  (AuthMiddleware.call S.verifier rd.now rd.auditNow (S.context rd connectionId operation input) v).1.toOption.bind
    fun ctx => (StoreDispatch.storeCall S.tools.parsers rd.store.now rd.store.sendNow ctx).toOption

theorem dispatch_store {S : McpServer} {rd : ToolReadings} {connectionId operation : String} {input : JsonDict}
    {s : McpState σ} : (S.dispatch B rd connectionId operation input s).2.store =
      (((S.reachedCall rd connectionId operation input s.verifier).bind StoreCall.op).map
        (B.apply · s.store)).getD s.store := by
  unfold dispatch reachedCall
  cases AuthMiddleware.call S.verifier rd.now rd.auditNow (S.context rd connectionId operation input) s.verifier with
  | mk result verifier =>
    cases result with
    | error halt => rfl
    | ok ctx =>
      simp only [Except.toOption, Option.bind_some]
      cases StoreDispatch.storeCall S.tools.parsers rd.store.now rd.store.sendNow ctx with
      | error halt => rfl
      | ok call => exact StoreDispatch.perform_store B _ call s.store

def front : Front (McpEvent ι) (McpFleet ι σ) B where
  store := McpFleet.store
  serve := serveCall S B
  reach e t := (e.call.dispatched (S e.who).tools).toOption.bind fun d =>
    (S e.who).reachedCall e.readings e.connectionId d.1 d.2 (t.verifiers e.who)
  store_serve e t := by
    unfold serveCall
    cases e.call.dispatched (S e.who).tools with
    | error msg => rfl
    | ok d => exact dispatch_store B

end

/-- The message that the call is to write. -/
def message (lc : ToolContext) (now : ℚ) : ToolCall → Option MessageEnvelope
  | .channelsSend channel body correlationId => some ⟨channel, lc.agentId, body, correlationId, none⟩
  | .channelsHeartbeat status _ => some (presenceArgs lc.agentId status now).envelope
  | _ => none

section
variable {S : McpServer} {rd : ToolReadings} {connectionId operation : String} {input : JsonDict}
  {v : VerifierState} {ctx : MiddlewareContext} {op : StoreOp}

theorem reached_cases (h : (S.reachedCall rd connectionId operation input v).bind StoreCall.op = some op) :
    ∃ ctx, (AuthMiddleware.call S.verifier rd.now rd.auditNow (S.context rd connectionId operation input) v).1 =
        .ok ctx ∧
      StoreDispatch.storeCall S.tools.parsers rd.store.now rd.store.sendNow ctx = .ok (.change op) := by
  obtain ⟨call, hcall, hop⟩ := Option.bind_eq_some_iff.1 h
  obtain ⟨ctx, hctx, hstore⟩ := Option.bind_eq_some_iff.1 hcall
  refine ⟨ctx, ?_, ?_⟩
  · cases hauth : (AuthMiddleware.call S.verifier rd.now rd.auditNow (S.context rd connectionId operation input)
      v).1 with
    | error halt => rw [hauth] at hctx; cases hctx
    | ok ctx' => rw [hauth] at hctx; cases hctx; rfl
  · cases hc : StoreDispatch.storeCall S.tools.parsers rd.store.now rd.store.sendNow ctx with
    | error halt => rw [hc] at hstore; cases hstore
    | ok call' =>
      rw [hc] at hstore
      cases hstore
      cases call <;> cases hop
      rfl

theorem admitted_input (hop : operation ≠ "send")
    (h : (AuthMiddleware.call S.verifier rd.now rd.auditNow (S.context rd connectionId operation input) v).1 =
      .ok ctx) :
    ctx.operation = operation ∧ ctx.input = input ∧
      (operation ∉ AuthMiddleware.identityEnforcedOperations → ctx = S.context rd connectionId operation input) := by
  by_cases henf : operation ∈ AuthMiddleware.identityEnforcedOperations
  · have hres : (S.context rd connectionId operation input).resolveCredential =
        (some (S.resolveCredential rd operation input), S.context rd connectionId operation input) := rfl
    rw [AuthMiddleware.call_enforced henf hres] at h
    split at h
    · cases h
    · dsimp only at h
      obtain ⟨-, -, rfl⟩ := MiddlewareContext.setAgentId_ok_iff.1 h
      exact ⟨rfl, if_neg hop, fun hopen => absurd hopen (not_not.2 henf)⟩
  · have hopen : AuthMiddleware.call S.verifier rd.now rd.auditNow (S.context rd connectionId operation input) v =
        (.ok (S.context rd connectionId operation input), v) := if_pos henf
    rw [hopen] at h
    cases h
    exact ⟨rfl, rfl, fun _ => rfl⟩

theorem agent_of_named (hop : operation ≠ "send")
    (hnamed : input.get? (StoreDispatch.actingKey operation) = some (.str S.tools.agentId))
    (h : (AuthMiddleware.call S.verifier rd.now rd.auditNow (S.context rd connectionId operation input) v).1 =
      .ok ctx)
    (hcall : StoreDispatch.storeCall S.tools.parsers rd.store.now rd.store.sendNow ctx = .ok (.change op)) :
    op.agent = S.tools.agentId := by
  obtain ⟨hoperation, hinput, hopen⟩ := admitted_input hop h
  rw [StoreDispatch.storeCall_agent hcall op.agent_change, StoreDispatch.actingAgent, hoperation, hinput,
    if_neg hop]
  split
  · rename_i hgroup
    have henf : operation ∉ AuthMiddleware.identityEnforcedOperations := by
      rcases hgroup with rfl | rfl <;> decide
    have hkey : input.getD (StoreDispatch.actingKey operation) .null = .str S.tools.agentId := by
      rw [Dict.getD, hnamed, Option.getD_some]
    rw [hopen henf]
    simp only [StoreDispatch.resolveFrom, hkey, context]
    by_cases ha : S.tools.agentId = ""
    · simp [ha, Json.truthy, StoreDispatch.str, Dict.getD]
    · simp [ha, Json.truthy, StoreDispatch.str]
  · rename_i hgroup
    rw [StoreDispatch.actingKey, if_neg fun h => hgroup (.inl h), if_neg fun h => hgroup (.inr h)] at hnamed
    rw [StoreDispatch.resolveAgentId, hnamed]
    exact Json.pyStr_str _ _

theorem sendEnvelope_sendInput (P : Parsers) (sender : AgentId) (channel : Channel) (body : JsonDict)
    (correlationId : Option String) : StoreDispatch.sendEnvelope P sender (sendInput channel body correlationId) =
      ⟨channel, sender, body, correlationId, none⟩ := by
  have hbody := Dict.ofList_entries body
  rw [Dict.ofList] at hbody
  cases correlationId <;>
    simp [StoreDispatch.sendEnvelope, sendInput, pyDict, StoreDispatch.strField, StoreDispatch.bodyField,
      StoreDispatch.optStrField, StoreDispatch.str, Json.ofOption, Dict.getD, Dict.get?_set, hbody]

/-- What a tool dispatches names the agent of the server wherever the store is to act for an agent. -/
theorem named_of_dispatched {lc : ToolContext} {c : ToolCall} (h : c.dispatched lc = .ok (operation, input)) :
    (∃ channel body correlationId, c = .channelsSend channel body correlationId ∧ operation = "send" ∧
      input = sendInput channel body correlationId) ∨
    operation = "replay" ∨ operation = "list_channels" ∨
    operation ≠ "send" ∧ input.get? (StoreDispatch.actingKey operation) = some (.str lc.agentId) ∧
      ∀ P now, message lc now c =
        if operation = "channels_heartbeat" then some (StoreDispatch.presenceEnvelope P lc.agentId input now)
        else none := by
  cases c with
  | channelsSend channel body correlationId =>
    cases h
    exact .inl ⟨channel, body, correlationId, rfl, rfl, rfl⟩
  | channelsHeartbeat status ttl =>
    cases h
    simp [pyDict, StoreDispatch.actingKey, message, StoreDispatch.presenceEnvelope, StoreDispatch.strField,
      StoreDispatch.str, Dict.getD, Dict.get?_set]
  | channelsReplay | channelsListChannels =>
    cases h
    simp
  | channelsSubscribe pattern =>
    simp only [ToolCall.dispatched] at h
    cases hguard : channelsSubscribeGuard pattern with
    | error msg =>
      rw [hguard] at h
      cases h
    | ok u =>
      rw [hguard] at h
      cases h
      simp [pyDict, StoreDispatch.actingKey, message, Dict.get?_set]
  | _ =>
    cases h
    simp [pyDict, StoreDispatch.actingKey, message, Dict.get?_set]

theorem front_actsFor {ι σ : Type} [DecidableEq ι] (S : ι → McpServer) (B : BackingStore σ) :
    (front S B).ActsFor (fun e => (S e.who).tools.agentId)
      (fun e => message (S e.who).tools e.readings.store.now e.call) := by
  have key : ∀ e (t : McpFleet ι σ) op, (front S B).op e t = some op → op.agent = (S e.who).tools.agentId ∧
      op.writes = message (S e.who).tools e.readings.store.now e.call := by
    rintro ⟨who, rd, connectionId, call⟩ t op hop
    simp only [Front.op, front] at hop
    cases hd : call.dispatched (S who).tools with
    | error msg =>
      rw [hd] at hop
      cases hop
    | ok d =>
      obtain ⟨operation, input⟩ := d
      rw [hd] at hop
      obtain ⟨ctx, hauth, hcall⟩ := reached_cases hop
      rcases named_of_dispatched hd with
            ⟨channel, body, correlationId, rfl, rfl, rfl⟩ | rfl | rfl | ⟨hsend, hnamed, hmessage⟩
      · rw [storeCall_authenticated (s := ⟨t.verifiers who, t.store⟩) hauth] at hcall
        cases hcall
        exact ⟨rfl, congrArg some (sendEnvelope_sendInput _ _ channel body correlationId)⟩
      · exact absurd (admitted_input (by simp) hauth).1 (StoreDispatch.changes_of_storeCall hcall).1
      · exact absurd (admitted_input (by simp) hauth).1 (StoreDispatch.changes_of_storeCall hcall).2
      · refine ⟨agent_of_named hsend hnamed hauth hcall, ?_⟩
        obtain ⟨hoperation, hinput, -⟩ := admitted_input hsend hauth
        rw [StoreDispatch.storeCall_writes hcall, hmessage (S who).tools.parsers, hoperation, hinput, if_neg hsend]
        by_cases hbeat : operation = "channels_heartbeat"
        · subst hbeat
          have hagent : StoreDispatch.resolveAgentId (S who).tools.parsers input ctx = (S who).tools.agentId := by
            rw [StoreDispatch.resolveAgentId, show input.get? "agent_id" = _ from hnamed]
            exact Json.pyStr_str _ _
          rw [if_pos rfl, if_pos rfl, hagent]
        · rw [if_neg hbeat, if_neg hbeat]
  exact ⟨fun e t op hop => (key e t op hop).1, fun e t op hop => (key e t op hop).2⟩

/-- MCP servers of any number of agents over one store, in any interleaving of tool calls with any arguments:
what is written is what the calls are to write, at most one message for each and from the agent of the server
called; and to an agent none of whose servers is called nothing else happens. -/
theorem mcp_tools_isolate {ι : Type} [DecidableEq ι] (S : ι → McpServer) (es : List (McpEvent ι))
    (vs : ι → VerifierState) (ops : List StoreOp) :
    (let s := memoryStore.applyAll ops .init
      let s' := ((front S memoryStore).run es ⟨vs, s⟩).store
      (∃ new, envelopes s'.messages = envelopes s.messages ++ new ∧
        new.Sublist (es.filterMap fun e => message (S e.who).tools e.readings.store.now e.call)) ∧
      ∀ b, (∀ e ∈ es, (S e.who).tools.agentId ≠ b) → ∃ news, MemoryStore.holdings.Alone b news s s') ∧
    (let s := sqliteStore.applyAll ops .init
      let s' := ((front S sqliteStore).run es ⟨vs, s⟩).store
      (∃ new, envelopes s'.db.messages = envelopes s.db.messages ++ new ∧
        new.Sublist (es.filterMap fun e => message (S e.who).tools e.readings.store.now e.call)) ∧
      ∀ b, (∀ e ∈ es, (S e.who).tools.agentId ≠ b) → ∃ news, SqliteStore.holdings.Alone b news s s') := by
  have hmemory := front_actsFor S memoryStore
  have hsqlite := front_actsFor S sqliteStore
  refine ⟨⟨?_, fun b hb => ?_⟩, ⟨?_, fun b hb => ?_⟩⟩
  · exact Front.run_messages (F := front S memoryStore) MemoryStore.holdings_lawful hmemory.message es (t := ⟨vs, _⟩)
      (MemoryStore.Inv.reachable ops)
  · obtain ⟨news, -, halone⟩ := Front.run_alone MemoryStore.holdings_lawful hmemory es hb (t := ⟨vs, _⟩)
      (MemoryStore.Inv.reachable ops)
    exact ⟨news, halone⟩
  · exact Front.run_messages (F := front S sqliteStore) SqliteStore.holdings_lawful hsqlite.message es (t := ⟨vs, _⟩)
      (SqliteStore.inv_reachable ops)
  · obtain ⟨news, -, halone⟩ := Front.run_alone SqliteStore.holdings_lawful hsqlite es hb (t := ⟨vs, _⟩)
      (SqliteStore.inv_reachable ops)
    exact ⟨news, halone⟩

theorem mcp_tools_isolate_bob :
    let es : List (McpEvent Unit) := [⟨(), firstReadings, "c", .channelsSend "team" .empty none⟩,
      ⟨(), firstReadings, "c", .channelsRecv none 50 0 true⟩, ⟨(), firstReadings, "c", .groupCreate (some "g")⟩,
      ⟨(), firstReadings, "c", .groupInvite "group/g" "bob"⟩]
    let s := memoryStore.applyAll bobSubscribed .init
    let s' := ((front (fun _ : Unit => aliceServer) memoryStore).run es
      ⟨fun _ => AuthMiddleware.aliceRegistered, s⟩).store
    ∃ news, MemoryStore.holdings.Alone "bob" news s s' :=
  (mcp_tools_isolate (fun _ : Unit => aliceServer) [⟨(), firstReadings, "c", .channelsSend "team" .empty none⟩,
      ⟨(), firstReadings, "c", .channelsRecv none 50 0 true⟩, ⟨(), firstReadings, "c", .groupCreate (some "g")⟩,
      ⟨(), firstReadings, "c", .groupInvite "group/g" "bob"⟩] (fun _ => AuthMiddleware.aliceRegistered)
    bobSubscribed).1.2 "bob" (by decide)

end

end McpServer

end Sox
