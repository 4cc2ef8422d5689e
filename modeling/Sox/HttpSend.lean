import Sox.Http
import Sox.MemoryInv
import Sox.SqliteInv

/-!
# The HTTP send route

The routes dispatch a request and post-process the answer. `op_send` learns the queue depth from the
answer of the send it has made, and turns it into an error when the depth has reached the limit: the
message is stored all the same (`opSend_rejection_iff`).
-/

namespace Sox

/-- A request to one of the operation routes; `body` is `{}` where it was no JSON object. -/
structure OpRequest where
  token : Option String
  body : JsonDict
  connectionId : String

def OpRequest.toDispatch (operation token : String) (q : OpRequest) : HttpRequest where
  operation := operation
  body := q.body
  token := token
  connectionId := q.connectionId

inductive OpContent where
  | dispatched (response : StoreDispatch.Response)
  | sent (receipt : SendReceipt)
  | collected (messages : List Message) (timedOut : Bool)

structure OpResponse where
  status : Nat
  content : Except ErrorEnvelope OpContent

/-- The store with a queue limit of its own for every channel; the stores' own limit is
`threshold`. -/
def BackingStore.withLimit {σ : Type} (limit : Channel → Nat) (B : BackingStore σ) : BackingStore σ :=
  { B with
    send := fun now args s =>
      let (receipt, s) := B.send now args s
      let bp := receipt.backpressure
      ({ receipt with
          backpressure :=
            { bp with
              threshold := limit args.channel
              overLimit := decide (limit args.channel ≤ bp.queueDepth) } }, s) }

namespace HttpServer

variable (H : HttpServer)

def missingToken : OpResponse where
  status := 401
  content := .error
    { errorCode := "missing_credential", message := "Authorization: Bearer <token> header required" }

def passedOn (response : HttpResponse) : OpResponse where
  status := response.status
  content := match response.content with
    | .ok response => .ok (.dispatched response)
    | .error e => .error { toSoxError := e }

/-- The `state` that the stores report is always `ok`. -/
def overLimit (bp : BackpressureInfo) : Bool :=
  bp.state == "over_limit" || decide (bp.threshold ≤ bp.queueDepth)

def overLimitError (channel : String) (bp : BackpressureInfo) : ErrorEnvelope where
  errorCode := "backpressure_over_limit"
  message := "Send rejected: channel '" ++ channel ++ "' queue depth " ++ toString bp.queueDepth ++
    " is at or above threshold " ++ toString bp.threshold ++ "."
  detail := .obj [("queue_depth", .int bp.queueDepth), ("threshold", .int bp.threshold),
    ("mode", .str "enforced")]

/-- What the route makes of the answer to its dispatch. -/
def sendAnswer (q : OpRequest) : HttpResponse → OpResponse
  | ⟨200, .ok (.sent _ receipt)⟩ =>
    if overLimit receipt.backpressure then
      let channel := StoreDispatch.str H.parsers (q.body.getD "channel" (.str ""))
      ⟨429, .error (overLimitError channel receipt.backpressure)⟩
    else ⟨200, .ok (.sent receipt)⟩
  | response => passedOn response

/-- `none` when an exception escapes. -/
def opSend {σ : Type} (B : BackingStore σ) (rd : Readings) (q : OpRequest) (s : HttpState σ) :
    Option OpResponse × HttpState σ :=
  match q.token with
  | none => (some missingToken, s)
  | some token =>
    let (response, s) := H.dispatch B rd (q.toDispatch "send" token) s
    (response.map (H.sendAnswer q), s)

/-! ### How a dispatch ends -/

section
variable {H} {σ : Type} {B : BackingStore σ} {rd : Readings} {r : HttpRequest} {s : HttpState σ}
  {halt : Halt}

theorem statusOf_ne_200 (code : String) : statusOf code ≠ 200 := by
  unfold statusOf
  split_ifs <;> decide

/-- The errors with which the default chain refuses a request. -/
def Refuses (halt : Halt) : Prop := (errorOf halt).errorCode ∈ ["identity_failure", "internal_error"]

theorem setAgentId_refuses {value : AgentId} {ctx : MiddlewareContext}
    (h : ctx.setAgentId value = .error halt) : Refuses halt := by
  unfold MiddlewareContext.setAgentId at h
  split_ifs at h
  all_goals
    cases h
    simp [Refuses, errorOf]

theorem call_refuses {V : IdentityVerifier} {now auditNow : ℚ} {ctx : MiddlewareContext}
    {v : VerifierState} (h : (AuthMiddleware.call V now auditNow ctx v).1 = .error halt) :
    Refuses halt := by
  have hidentity (reason : String) : Refuses (AuthMiddleware.makeIdentityError reason) := by
    simp [Refuses, errorOf, AuthMiddleware.makeIdentityError]
  unfold AuthMiddleware.call at h
  split at h
  · cases h
  · split at h
    · cases h
      exact hidentity _
    · split at h
      · split at h
        · cases h
          exact hidentity _
        · exact setAgentId_refuses h
      · split at h
        · cases h
          exact hidentity _
        · exact setAgentId_refuses h

theorem raised_refuses (exc : String) : Refuses (.raised exc) := by simp [Refuses, errorOf]

theorem intField_refuses {P : Parsers} {inp : JsonDict} {key : String} {default : Int}
    (h : StoreDispatch.intField P inp key default = .error halt) : Refuses halt := by
  unfold StoreDispatch.intField at h
  split at h
  · split at h <;> cases h
    exact raised_refuses _
  · cases h

theorem sinceField_refuses {P : Parsers} {inp : JsonDict}
    (h : StoreDispatch.sinceField P inp = .error halt) : Refuses halt := by
  unfold StoreDispatch.sinceField at h
  split at h
  all_goals try cases h
  split at h <;> cases h
  exact raised_refuses _

theorem storeCall_refuses {P : Parsers} {now sendNow : ℚ} {ctx : MiddlewareContext}
    (h : StoreDispatch.storeCall P now sendNow ctx = .error halt) : Refuses halt := by
  have hbind {α : Type} {x : Except Halt α} {f : α → StoreCall}
      (hx : ∀ halt, x = .error halt → Refuses halt) (h : (x >>= fun a => .ok (f a)) = .error halt) :
      Refuses halt := by
    cases x with
    | error e =>
      cases h
      exact hx _ rfl
    | ok a => cases h
  unfold StoreDispatch.storeCall at h
  dsimp only at h
  split at h
  all_goals first
    | cases h; done
    | exact hbind (fun _ => intField_refuses) h
    | exact hbind (fun _ => sinceField_refuses) h
    | skip
  cases h
  simp [Refuses, errorOf]

theorem dispatch_cases (H : HttpServer) (B : BackingStore σ) (rd : Readings) (r : HttpRequest)
    (s : HttpState σ) :
    (∃ call, H.reachedCall rd r s.verifier = some call ∧
      (H.dispatch B rd r s).1 =
        some (H.answerOf (StoreDispatch.perform B rd.store.drainedAt call s.store).1) ∧
      (H.dispatch B rd r s).2.store = (StoreDispatch.perform B rd.store.drainedAt call s.store).2) ∨
    (H.reachedCall rd r s.verifier = none ∧ (H.dispatch B rd r s).2.store = s.store ∧
      ∀ response, (H.dispatch B rd r s).1 = some response →
        ∃ halt, Refuses halt ∧ response = H.answerOf (.error halt)) := by
  unfold dispatch reachedCall admitted
  cases H.register rd r.token s.verifier with
  | error e => exact .inr ⟨rfl, rfl, by simp⟩
  | ok verifier =>
    simp only [pipeline]
    cases hauth : H.authenticated rd r verifier with
    | mk result verifier' =>
      cases result with
      | error halt =>
        refine .inr ⟨rfl, rfl, ?_⟩
        rintro response ⟨⟩
        exact ⟨halt, call_refuses (congrArg Prod.fst hauth), rfl⟩
      | ok ctx =>
        simp only [Except.toOption, Option.bind_some]
        cases hcall : H.storeCall rd ctx with
        | error halt =>
          refine .inr ⟨rfl, rfl, ?_⟩
          rintro response ⟨⟩
          exact ⟨halt, storeCall_refuses hcall, rfl⟩
        | ok call => exact .inl ⟨call, rfl, rfl, rfl⟩

end

/-! ### Rejected sends -/

section
variable {H} {σ : Type} {B : BackingStore σ} {rd : Readings} {q : OpRequest} {s : HttpState σ}
  {token : String} {call : StoreCall}

theorem reachedCall_send (h : H.reachedCall rd (q.toDispatch "send" token) s.verifier = some call) :
    ∃ args, call = .change (.send rd.store.now args) := by
  obtain ⟨ctx, hctx, hcall⟩ := Option.bind_eq_some_iff.1 h
  obtain ⟨rfl, -⟩ := admitted_some (r := q.toDispatch "send" token) List.mem_cons_self hctx
  rw [storeCall, StoreDispatch.storeCall_send rfl] at hcall
  exact ⟨_, (Option.some.inj hcall).symm⟩

/-- The route makes the send that the dispatch reaches, and looks at the limit afterwards. -/
theorem opSend_reached {args : SendArgs} (htoken : q.token = some token)
    (h : H.reachedCall rd (q.toDispatch "send" token) s.verifier =
      some (.change (.send rd.store.now args))) :
    (H.opSend B rd q s).2.store = (B.send rd.store.now args s.store).2 ∧
    (H.opSend B rd q s).1 = some
      (if overLimit (B.send rd.store.now args s.store).1.backpressure then
        ⟨429, .error (overLimitError (StoreDispatch.str H.parsers (q.body.getD "channel" (.str "")))
          (B.send rd.store.now args s.store).1.backpressure)⟩
      else ⟨200, .ok (.sent (B.send rd.store.now args s.store).1)⟩) := by
  rcases dispatch_cases H B rd (q.toDispatch "send" token) s with ⟨call, hcall, hanswer, hstore⟩ | ⟨hnone, -⟩
  · obtain rfl := Option.some.inj (hcall.symm.trans h)
    simp only [opSend, htoken, hanswer, hstore]
    exact ⟨rfl, rfl⟩
  · rw [hnone] at h
    cases h

def IsOverLimit (response : Option OpResponse) : Prop :=
  ∃ status e, response = some ⟨status, .error e⟩ ∧ e.errorCode = "backpressure_over_limit"

theorem sendAnswer_refused (halt : Halt) :
    H.sendAnswer q (H.answerOf (.error halt)) = passedOn (H.answerOf (.error halt)) := by
  unfold sendAnswer
  split
  · rename_i heq
    cases congrArg HttpResponse.content heq
  · rfl

theorem opSend_not_reached
    (h : ∀ token, q.token = some token → H.reachedCall rd (q.toDispatch "send" token) s.verifier = none) :
    (H.opSend B rd q s).2.store = s.store ∧ ¬ IsOverLimit (H.opSend B rd q s).1 := by
  unfold opSend
  cases htoken : q.token with
  | none =>
    refine ⟨rfl, ?_⟩
    rintro ⟨status, e, heq, hcode⟩
    cases heq
    simp at hcode
  | some token =>
    rcases dispatch_cases H B rd (q.toDispatch "send" token) s with ⟨call, hcall, -⟩ | ⟨-, hstore, hrefused⟩
    · rw [h token htoken] at hcall
      cases hcall
    · refine ⟨hstore, ?_⟩
      rintro ⟨status, e, heq, hcode⟩
      obtain ⟨response, hresponse, hpassed⟩ := Option.map_eq_some_iff.1 heq
      obtain ⟨halt, hhalt, rfl⟩ := hrefused response hresponse
      rw [sendAnswer_refused] at hpassed
      cases hpassed
      rw [Refuses, hcode] at hhalt
      simp at hhalt

/-- A send changes the store, and reports the depth that `depth` reads off the state before it. -/
structure ReportsDepth {σ : Type} (B : BackingStore σ) (depth : Channel → σ → Nat) : Prop where
  reports : ∀ now args s, (B.send now args s).1.backpressure.queueDepth = depth args.channel s ∧
    (B.send now args s).1.backpressure.state = "ok"
  changes : ∀ now args s, (B.send now args s).2 ≠ s

theorem opSend_harmless_iff {depth : Channel → σ → Nat} (hB : ReportsDepth B depth)
    (limit : Channel → Nat) :
    (IsOverLimit (H.opSend (B.withLimit limit) rd q s).1 →
      (H.opSend (B.withLimit limit) rd q s).2.store = s.store) ↔
    ∀ token args, q.token = some token → H.reachedCall rd (q.toDispatch "send" token) s.verifier =
      some (.change (.send rd.store.now args)) → depth args.channel s.store < limit args.channel := by
  by_cases hreach : ∃ token call, q.token = some token ∧
      H.reachedCall rd (q.toDispatch "send" token) s.verifier = some call
  · obtain ⟨token, call, htoken, hcall⟩ := hreach
    obtain ⟨args, rfl⟩ := reachedCall_send hcall
    obtain ⟨hstore, hanswer⟩ := opSend_reached (B := B.withLimit limit) htoken hcall
    obtain ⟨hdepth, hstate⟩ := hB.reports rd.store.now args s.store
    have hlimit : overLimit ((B.withLimit limit).send rd.store.now args s.store).1.backpressure = true ↔
        limit args.channel ≤ depth args.channel s.store := by
      simp [overLimit, BackingStore.withLimit, hdepth, hstate]
    rw [hstore, hanswer]
    constructor
    · intro h token' args' htoken' hcall'
      obtain rfl := Option.some.inj (htoken.symm.trans htoken')
      cases hcall.symm.trans hcall'
      by_contra hle
      rw [if_pos (hlimit.2 (by omega))] at h
      exact hB.changes rd.store.now args s.store (h ⟨_, _, rfl, rfl⟩)
    · intro h hover
      have hlt := h token args htoken hcall
      rw [if_neg (fun hle => by have := hlimit.1 hle; omega)] at hover
      obtain ⟨status, e, heq, -⟩ := hover
      cases heq
  · have hnone : ∀ token, q.token = some token →
        H.reachedCall rd (q.toDispatch "send" token) s.verifier = none := by
      intro token htoken
      by_contra hsome
      obtain ⟨call, hcall⟩ := Option.ne_none_iff_exists'.1 hsome
      exact hreach ⟨token, call, htoken, hcall⟩
    refine iff_of_true (fun hover => absurd hover (opSend_not_reached hnone).2) ?_
    intro token args htoken hcall
    rw [hnone token htoken] at hcall
    cases hcall

theorem memoryStore_reportsDepth : ReportsDepth memoryStore fun channel s =>
    MemoryStore.queueDepth channel s.messages + 1 where
  reports now args s := by
    refine ⟨?_, rfl⟩
    show MemoryStore.queueDepth _ (s.messages ++ [s.nextMessage now args]) = _
    rw [MemoryStore.queueDepth, List.filter_append, List.length_append]
    simp [MemoryStore.queueDepth, MemoryStore.nextMessage]
  changes now args s h := by
    have := congrArg (fun s => s.messages.length) h
    simp [memoryStore, MemoryStore.send, MemoryStore.append] at this

theorem sqliteStore_reportsDepth : ReportsDepth sqliteStore fun channel s => s.db.countOn channel where
  reports now args s := ⟨rfl, rfl⟩
  changes now args s h := by
    have := congrArg (fun s => s.db.messages.length) h
    simp [sqliteStore, SqliteStore.onDb, SqliteDb.send, SqliteDb.insertMessage] at this

end

/-- A send that is answered with the over-limit error leaves the store as it was exactly when the
request does not get to the store, or the depth that the store will report stays below the limit. -/
theorem opSend_rejection_iff (H : HttpServer) (limit : Channel → Nat) (rd : Readings) (q : OpRequest) :
    (∀ s : HttpState MemoryStore,
      (IsOverLimit (H.opSend (memoryStore.withLimit limit) rd q s).1 →
        (H.opSend (memoryStore.withLimit limit) rd q s).2.store = s.store) ↔
      ∀ token args, q.token = some token → H.reachedCall rd (q.toDispatch "send" token) s.verifier =
        some (.change (.send rd.store.now args)) →
          MemoryStore.queueDepth args.channel s.store.messages + 1 < limit args.channel) ∧
    (∀ s : HttpState SqliteStore,
      (IsOverLimit (H.opSend (sqliteStore.withLimit limit) rd q s).1 →
        (H.opSend (sqliteStore.withLimit limit) rd q s).2.store = s.store) ↔
      ∀ token args, q.token = some token → H.reachedCall rd (q.toDispatch "send" token) s.verifier =
        some (.change (.send rd.store.now args)) →
          s.store.db.countOn args.channel < limit args.channel) :=
  ⟨fun _ => opSend_harmless_iff memoryStore_reportsDepth limit,
    fun _ => opSend_harmless_iff sqliteStore_reportsDepth limit⟩

/-- A job of worker 1. -/
def job : SendArgs := { channel := "jobs", sender := "worker-1", body := .empty }

theorem jobs_length (n : Nat) :
    MemoryStore.queueDepth "jobs"
      (memoryStore.applyAll (List.replicate n (.send 0 job)) MemoryStore.init).messages = n ∧
    (memoryStore.applyAll (List.replicate n (.send 0 job)) MemoryStore.init).messages.length = n := by
  induction n with
  | zero => exact ⟨rfl, rfl⟩
  | succ n ih =>
    rw [List.replicate_succ', BackingStore.applyAll_append]
    have hdepth := (memoryStore_reportsDepth.reports 0 job
      (memoryStore.applyAll (List.replicate n (.send 0 job)) MemoryStore.init)).1
    refine ⟨hdepth.trans (congrArg (· + 1) ih.1), ?_⟩
    exact (List.length_append ..).trans (congrArg (· + 1) ih.2)

/-- The thousandth job is refused and stored. -/
theorem rejected_send_is_stored :
    let s : HttpState MemoryStore :=
      ⟨{}, memoryStore.applyAll (List.replicate 999 (.send 0 job)) MemoryStore.init⟩
    let q : OpRequest := ⟨some "mallory", Dict.empty.set "channel" (.str "jobs"), "c"⟩
    IsOverLimit (echoServer.opSend memoryStore firstReadings q s).1 ∧ s.store.messages.length = 999 ∧
      (echoServer.opSend memoryStore firstReadings q s).2.store.messages.length = 1000 := by
  intro s q
  have hchannel : (echoServer.reachedCall firstReadings (q.toDispatch "send" "mallory") {}).map
      (fun
        | .change (.send _ args) => args.channel
        | _ => "") = some "jobs" := by
    decide +kernel
  obtain ⟨call, hcall, hjobs⟩ := Option.map_eq_some_iff.1 hchannel
  obtain ⟨args, rfl⟩ := reachedCall_send (s := s) hcall
  obtain ⟨hstore, hanswer⟩ := opSend_reached (B := memoryStore) (s := s) rfl hcall
  obtain ⟨hdepth, hlength⟩ := jobs_length 999
  obtain ⟨hreports, -⟩ := memoryStore_reportsDepth.reports 0 args s.store
  simp only at hjobs
  rw [hjobs, hdepth] at hreports
  have hover : overLimit (memoryStore.send firstReadings.store.now args s.store).1.backpressure = true := by
    rw [overLimit, Bool.or_eq_true, decide_eq_true_eq]
    exact .inr (Nat.le_of_eq hreports.symm)
  rw [hanswer, hstore, if_pos hover]
  refine ⟨⟨429, _, rfl, rfl⟩, hlength, ?_⟩
  show (_ ++ [_]).length = _
  rw [List.length_append, hlength]
  rfl

end HttpServer

end Sox
