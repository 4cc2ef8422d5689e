import Sox.HttpSend
import Sox.Watch

/-!
# The HTTP collect route

`op_channels_collect` dispatches `channels_collect` once, for the schema check, and throws the
answer away; then it polls `recv` for the caller and keeps, of every batch, the replies to
`reply_to`. Both dispatches drain: what the first one takes, and what a poll takes and does not keep,
is marked delivered and returned to nobody (`collect_consumes_iff`). A run interleaves the polls with
what others do to the store.
-/

namespace Sox

/-- One round of the loop: what others do to the store before it, the clock and the readings of its
dispatch. -/
structure Turn where
  others : List StoreOp
  now : ℚ
  readings : Readings

/-- The state that the handler finds after the others have acted. -/
def Turn.found {σ : Type} (B : BackingStore σ) (t : Turn) (s : HttpState σ) : HttpState σ :=
  { s with store := B.applyAll t.others s.store }

namespace HttpServer

variable (H : HttpServer)

/-- `int(j)`, `none` where it raises. -/
def pyInt (P : Parsers) : Json → Option Int
  | .str s => P.intOfStr s
  | j => StoreDispatch.intOfNumber j

/-- `float(j)`, `none` where it raises. -/
def pyFloat (P : Parsers) : Json → Option ℚ
  | .bool b => some (if b then 1 else 0)
  | .int n => some n
  | .float q => some q
  | .str s => P.floatOfStr s
  | _ => none

/-- The variables of the handler that its loop does not change. -/
structure Collect where
  token : String
  connectionId : String
  replyTo : String
  count : Int
  deadline : ℚ
  /-- `status_filter` is a list. -/
  filtered : Bool

namespace Collect

/-- Whether the loop keeps the message: `m.get("reply_to") or m.get("correlation_id")` is the
`reply_to` of the request, which has no status filter. -/
def isReply (c : Collect) (m : Message) : Bool :=
  let reply := match m.replyTo with
    | some s => if s.isEmpty then m.correlationId else some s
    | none => m.correlationId
  reply == some c.replyTo && !c.filtered

def wantsMore (c : Collect) (collected : List Message) : Bool := decide ((collected.length : Int) < c.count)

def pollRequest (c : Collect) (collected : List Message) : HttpRequest where
  operation := "recv"
  body := Dict.empty.set "max_messages" (.int (c.count - collected.length))
  token := c.token
  connectionId := c.connectionId

def answer (c : Collect) (collected : List Message) : OpResponse :=
  ⟨200, .ok (.collected collected (c.wantsMore collected))⟩

end Collect

inductive CollectEnd where
  | answered (response : OpResponse)
  /-- An exception that the handler does not catch. -/
  | escaped
  /-- The turns are over before the request is. -/
  | polling

/-- One dispatch of a collect request: what was `collected` before it, and which of the messages it
drains the handler `keeps`. -/
structure Dispatched (σ : Type) where
  readings : Readings
  request : HttpRequest
  keeps : Message → Bool
  collected : List Message
  before : HttpState σ
  after : HttpState σ

/-- A collect request as far as it got, with its dispatches in order. -/
structure Collected (σ : Type) where
  ending : CollectEnd
  state : HttpState σ
  steps : List (Dispatched σ)

variable {σ : Type} (B : BackingStore σ)

def dispatched (rd : Readings) (r : HttpRequest) (keeps : Message → Bool) (collected : List Message)
    (s : HttpState σ) : Dispatched σ :=
  ⟨rd, r, keeps, collected, s, (H.dispatch B rd r s).2⟩

def pollLoop (c : Collect) : List Turn → List Message → HttpState σ → Collected σ
  | [], collected, s => ⟨if c.wantsMore collected then .polling else .answered (c.answer collected), s, []⟩
  | t :: turns, collected, s =>
    if c.wantsMore collected then
      let s := t.found B s
      if t.now < c.deadline then
        let r := c.pollRequest collected
        let step := H.dispatched B t.readings r c.isReply collected s
        match (H.dispatch B t.readings r s).1 with
        | some ⟨200, .ok (.drained _ messages)⟩ =>
          let rest := pollLoop c turns (collected ++ messages.filter c.isReply) step.after
          { rest with steps := step :: rest.steps }
        | some response => ⟨.answered (passedOn response), step.after, [step]⟩
        | none =>
          let exc := match H.register t.readings c.token s.verifier with
            | .error e => e
            | .ok _ => ""
          ⟨.answered ⟨500, .error { errorCode := "internal_error", message := exc }⟩, step.after, [step]⟩
      else ⟨.answered (c.answer collected), s, []⟩
    else ⟨.answered (c.answer collected), s, []⟩

/-- The request with its `count` and `timeout` read, `start` being the clock before the loop. -/
def collectOf (q : OpRequest) (token : String) (start : ℚ) : Option Collect := do
  let count ← pyInt H.parsers (q.body.getD "count" (.int 0))
  let timeout ← pyFloat H.parsers (q.body.getD "timeout" (.int 0))
  some
    { token
      connectionId := q.connectionId
      replyTo := StoreDispatch.str H.parsers (q.body.getD "reply_to" (.str ""))
      count
      deadline := start + timeout
      filtered := match q.body.getD "status_filter" .null with
        | .arr _ => true
        | _ => false }

/-- The handler, `rd` being the readings of the dispatch for the schema check. -/
def opChannelsCollect (rd : Readings) (start : ℚ) (turns : List Turn) (q : OpRequest) (s : HttpState σ) :
    Collected σ :=
  match q.token with
  | none => ⟨.answered missingToken, s, []⟩
  | some token =>
    let r := q.toDispatch "channels_collect" token
    let step := H.dispatched B rd r (fun _ => false) [] s
    match (H.dispatch B rd r s).1 with
    | none => ⟨.escaped, step.after, [step]⟩
    | some response =>
      if response.status = 200 then
        match H.collectOf q token start with
        | none => ⟨.escaped, step.after, [step]⟩
        | some c =>
          let run := H.pollLoop B c turns [] step.after
          { run with steps := step :: run.steps }
      else ⟨.answered (passedOn response), step.after, [step]⟩

/-! ### What a collect request consumes -/

/-- The messages of the answer. -/
def Collected.returned (run : Collected σ) : List Message :=
  match run.ending with
  | .answered ⟨_, .ok (.collected messages _)⟩ => messages
  | _ => []

section
variable {H} {B} {X : Mailbox B} {a b token : AgentId} {channels : Option (List Channel)} {max : Int}
  {s s' : σ} {rd : Readings} {r : HttpRequest} {st : HttpState σ} {c : Collect} {call : StoreCall}

/-- The ids of the messages marked delivered to the agent. -/
def marked (X : Mailbox B) (a : AgentId) (s : σ) : Set Nat := (ledger (X.messages s)).taken a

/-- What a `recv` of the agent would take. -/
def takes (X : Mailbox B) (s : σ) (a : AgentId) (channels : Option (List Channel)) (max : Int) :
    List StoredMessage :=
  (X.pending s a channels).take (X.cap max)

/-- The dispatch marks message `i` delivered to the agent. -/
def Dispatched.Marks (X : Mailbox B) (a : AgentId) (d : Dispatched σ) (i : Nat) : Prop :=
  i ∈ marked X a d.after.store ∧ i ∉ marked X a d.before.store

/-- The messages newly marked delivered to the agent by the request are those it returns. -/
def Collected.ConsumesReturned (X : Mailbox B) (a : AgentId) (run : Collected σ) : Prop :=
  ∀ i, (∃ d ∈ run.steps, d.Marks X a i) ↔ i ∈ run.returned.map (·.messageId)

/-- What the dispatch drains for the agent, read off the state before it. -/
def Dispatched.drains (H : HttpServer) (X : Mailbox B) (a : AgentId) (d : Dispatched σ) :
    List StoredMessage :=
  match H.reachedCall d.readings d.request d.before.verifier with
  | some (.change (.recv b channels max)) => if b = a then takes X d.before.store b channels max else []
  | _ => []

/-- The dispatch drains nothing for the agent that the handler does not keep or that the answer cannot
render, and it is not refused after something has been collected. -/
structure Dispatched.Harmless (H : HttpServer) (X : Mailbox B) (a : AgentId) (d : Dispatched σ) :
    Prop where
  keepsAll : ∀ m ∈ d.drains H X a, d.keeps m.toWire = true
  rendersAll : ∀ m ∈ d.drains H X a, H.renderError m.toWire = none
  refused : H.reachedCall d.readings d.request d.before.verifier = none → d.collected = []

instance (a : AgentId) (s : σ) (i : Nat) : Decidable (i ∈ marked X a s) :=
  inferInstanceAs (Decidable (∃ m ∈ X.messages s, m.id = i ∧ a ∈ m.deliveredTo))

instance (a : AgentId) (d : Dispatched σ) (i : Nat) : Decidable (d.Marks X a i) :=
  inferInstanceAs (Decidable (_ ∧ _))

instance (a : AgentId) (d : Dispatched σ) : Decidable (d.Harmless H X a) :=
  decidable_of_iff ((∀ m ∈ d.drains H X a, d.keeps m.toWire = true) ∧
      (∀ m ∈ d.drains H X a, H.renderError m.toWire = none) ∧
      (H.reachedCall d.readings d.request d.before.verifier = none → d.collected = []))
    ⟨fun h => ⟨h.1, h.2.1, h.2.2⟩, fun h => ⟨h.1, h.2, h.3⟩⟩

theorem recv_takes (hX : X.Lawful) (hs : X.Inv s) (a : AgentId) (channels : Option (List Channel))
    (max : Int) : ∃ p : List StoredMessage, p.Perm (takes X s a channels max) ∧ (p.map (·.id)).Nodup ∧
      (B.recv a channels max s).1 = p.map (·.toWire) ∧
      (ledger (X.messages s)).Takes a (p.map (·.id)) (ledger (X.messages (B.recv a channels max s).2)) := by
  obtain ⟨p, hp, hmsgs, hmessages, -⟩ := hX.recv a channels max s hs
  have hnd : ((X.messages s).map (·.id)).Nodup := (hX.ids s hs).imp Nat.ne_of_lt
  have hpend : ((X.pending s a channels).map (·.id)).Nodup :=
    inbox_ids_nodup (((hX.scan_perm _).map _).nodup_iff.2 hnd)
  have htake : ((takes X s a channels max).map (·.id)).Nodup :=
    hpend.sublist ((List.take_sublist ..).map _)
  have hpnd : (p.map (·.id)).Nodup := (hp.map _).nodup_iff.2 htake
  refine ⟨p, hp, hpnd, hmsgs, hmessages ▸ ledger_drain_takes hnd hpnd fun m hm => ?_⟩
  obtain ⟨hmem, hnew, -⟩ := (Mailbox.mem_pending hX).1 (List.mem_of_mem_take (hp.mem_iff.1 hm))
  exact ⟨hmem, hnew⟩

theorem dispatch_drains (hr : H.reachedCall rd r st.verifier = some (.change (.recv b channels max))) :
    (H.dispatch B rd r st).1 =
        some (H.answerOf (.ok (.drained rd.store.drainedAt (B.recv b channels max st.store).1))) ∧
      (H.dispatch B rd r st).2.store = (B.recv b channels max st.store).2 := by
  rcases dispatch_cases H B rd r st with ⟨call, hcall, hanswer, hstore⟩ | ⟨hnone, -⟩
  · obtain rfl := Option.some.inj (hcall.symm.trans hr)
    exact ⟨hanswer, hstore⟩
  · rw [hnone] at hr
    cases hr

theorem dispatch_refused (hr : H.reachedCall rd r st.verifier = none) :
    (H.dispatch B rd r st).2.store = st.store ∧
      ∀ response, (H.dispatch B rd r st).1 = some response → response.status ≠ 200 := by
  rcases dispatch_cases H B rd r st with ⟨call, hcall, -⟩ | ⟨-, hstore, hrefused⟩
  · rw [hr] at hcall
    cases hcall
  · refine ⟨hstore, ?_⟩
    intro response heq
    obtain ⟨halt, -, rfl⟩ := hrefused response heq
    exact statusOf_ne_200 _

theorem admitted_unenforced {v : VerifierState} {ctx : MiddlewareContext}
    (hop : r.operation ∉ AuthMiddleware.identityEnforcedOperations) (h : H.admitted rd r v = some ctx) :
    ctx = H.context rd r := by
  unfold admitted at h
  split at h
  · cases h
  · have hcall : (H.context rd r).operation ∉ AuthMiddleware.identityEnforcedOperations := hop
    rw [authenticated, AuthMiddleware.call, if_pos hcall] at h
    cases h
    rfl

theorem reachedCall_collect {q : OpRequest} {v : VerifierState}
    (h : H.reachedCall rd (q.toDispatch "channels_collect" token) v = some call) :
    ∃ b channels max, call = .change (.recv b channels max) := by
  obtain ⟨ctx, hctx, hcall⟩ := Option.bind_eq_some_iff.1 h
  obtain rfl := admitted_unenforced (r := q.toDispatch "channels_collect" token) (by
    simp [OpRequest.toDispatch, AuthMiddleware.identityEnforcedOperations]) hctx
  simp only [storeCall, StoreDispatch.storeCall, context, OpRequest.toDispatch] at hcall
  cases hmax : StoreDispatch.intField H.parsers q.body "max_messages" 50 with
  | error halt => rw [hmax] at hcall; cases hcall
  | ok max =>
    rw [hmax] at hcall
    cases hcall
    exact ⟨_, _, max, rfl⟩

theorem reachedCall_poll {collected : List Message} {v : VerifierState}
    (h : H.reachedCall rd (c.pollRequest collected) v = some call) :
    call = .change (.recv c.token none (c.count - collected.length)) := by
  obtain ⟨ctx, hctx, hcall⟩ := Option.bind_eq_some_iff.1 h
  obtain ⟨rfl, ht⟩ := admitted_some (r := c.pollRequest collected) (by simp [Collect.pollRequest,
    AuthMiddleware.identityEnforcedOperations]) hctx
  rw [storeCall, StoreDispatch.storeCall_recv rfl, input_boundContext (by simp [Collect.pollRequest]),
    resolveAgentId_bound _ ht] at hcall
  cases hcall
  rfl

/-- What a dispatch does to the marks of the agent: it adds what a `recv` for the agent takes. -/
theorem dispatched_marks (hX : X.Lawful) (hs : X.Inv st.store) {keeps : Message → Bool}
    {collected : List Message}
    (hr : H.reachedCall rd r st.verifier = some (.change (.recv b channels max))) (i : Nat) :
    (H.dispatched B rd r keeps collected st).Marks X a i ↔
      b = a ∧ ∃ m ∈ takes X st.store b channels max, m.id = i := by
  obtain ⟨p, hp, -, -, htakes⟩ := recv_takes hX hs b channels max
  have hmem : i ∈ p.map (·.id) ↔ ∃ m ∈ takes X st.store b channels max, m.id = i := by
    simp only [List.mem_map, hp.mem_iff]
  rw [Dispatched.Marks, dispatched, (dispatch_drains hr).2, marked, marked]
  by_cases hb : b = a
  · subst hb
    rw [htakes.taken, hmem]
    constructor
    · rintro ⟨hold | hnew, hnot⟩
      · exact absurd hold hnot
      · exact ⟨rfl, hnew⟩
    · rintro ⟨-, hnew⟩
      exact ⟨.inr hnew, (htakes.fresh i (hmem.2 hnew)).2⟩
  · rw [htakes.frame a fun h => hb h.symm]
    simp [hb]

theorem dispatched_marks_refused {keeps : Message → Bool} {collected : List Message}
    (hr : H.reachedCall rd r st.verifier = none) (i : Nat) :
    ¬ (H.dispatched B rd r keeps collected st).Marks X a i := by
  rw [Dispatched.Marks, dispatched, (dispatch_refused hr).1]
  exact fun h => h.2 h.1

theorem marked_mono (hD : Delivers B X.Inv fun s => ledger (X.messages s)) (ops : List StoreOp)
    (hs : X.Inv s) : marked X a s ⊆ marked X a (B.applyAll ops s) := by
  obtain ⟨es, hes, -⟩ := hD.history ops hs
  exact hes.taken_mono a

theorem applyAll_inv (hX : X.Lawful) (ops : List StoreOp) (hs : X.Inv s) : X.Inv (B.applyAll ops s) :=
  BackingStore.applyAll_invariant hX.keeps ops hs

theorem returned_passedOn {response : HttpResponse} {steps : List (Dispatched σ)} :
    (⟨.answered (passedOn response), st, steps⟩ : Collected σ).returned = [] := by
  obtain ⟨status, content⟩ := response
  cases content <;> rfl

theorem answerOf_drained {drainedAt : ℚ} {messages : List Message}
    (h : ∀ m ∈ messages, H.renderError m = none) :
    H.answerOf (.ok (.drained drainedAt messages)) = ⟨200, .ok (.drained drainedAt messages)⟩ := by
  have hnone : messages.findSome? H.renderError = none := List.findSome?_eq_none_iff.2 h
  simp only [answerOf, StoreDispatch.Response.messages, hnone]

theorem answerOf_unrendered {drainedAt : ℚ} {messages : List Message}
    (h : ∃ m ∈ messages, H.renderError m ≠ none) :
    ∃ exc, H.answerOf (.ok (.drained drainedAt messages)) = ⟨500, .error ⟨"internal_error", exc⟩⟩ := by
  obtain ⟨m, hm, hne⟩ := h
  cases hfind : messages.findSome? H.renderError with
  | none => exact absurd (List.findSome?_eq_none_iff.1 hfind m hm) hne
  | some exc => exact ⟨exc, by simp only [answerOf, StoreDispatch.Response.messages, hfind]⟩

/-- How a turn ends: the loop is over, its poll is refused, what it drains cannot be rendered, or it
drains and goes on. -/
theorem pollLoop_cases (H : HttpServer) (B : BackingStore σ) (c : Collect) (t : Turn)
    (turns : List Turn) (collected : List Message) (st : HttpState σ) :
    let run := H.pollLoop B c (t :: turns) collected st
    let found := t.found B st
    let step := H.dispatched B t.readings (c.pollRequest collected) c.isReply collected found
    let call := H.reachedCall t.readings (c.pollRequest collected) found.verifier
    (run.steps = [] ∧ run.returned = collected) ∨
    (call = none ∧ run.steps = [step] ∧ run.returned = []) ∨
    (call = some (.change (.recv c.token none (c.count - collected.length))) ∧
      (∃ m ∈ (B.recv c.token none (c.count - collected.length) found.store).1, H.renderError m ≠ none) ∧
        run.steps = [step] ∧ run.returned = []) ∨
    call = some (.change (.recv c.token none (c.count - collected.length))) ∧
      (∀ m ∈ (B.recv c.token none (c.count - collected.length) found.store).1, H.renderError m = none) ∧
      ∃ rest, rest = H.pollLoop B c turns (collected ++
          (B.recv c.token none (c.count - collected.length) found.store).1.filter c.isReply) step.after ∧
        run.steps = step :: rest.steps ∧ run.ending = rest.ending := by
  intro run found step call
  by_cases hmore : c.wantsMore collected = true
  swap
  · refine .inl ⟨?_, ?_⟩ <;> simp [run, pollLoop, hmore, Collected.returned, Collect.answer]
  by_cases hnow : t.now < c.deadline
  swap
  · refine .inl ⟨?_, ?_⟩ <;> simp [run, pollLoop, hmore, hnow, Collected.returned, Collect.answer]
  cases hcall : call with
  | none =>
    refine .inr (.inl ⟨rfl, ?_⟩)
    have hnone : H.reachedCall t.readings (c.pollRequest collected) found.verifier = none := hcall
    obtain ⟨-, hrefused⟩ := dispatch_refused (B := B) hnone
    simp only [run, pollLoop, hmore, hnow, if_true]
    split
    · rename_i drainedAt messages heq
      exact absurd rfl (hrefused _ heq)
    · rename_i response _ heq
      exact ⟨rfl, returned_passedOn⟩
    · exact ⟨rfl, rfl⟩
  | some call' =>
    obtain rfl := reachedCall_poll hcall
    obtain ⟨hanswer, -⟩ : (H.dispatch B t.readings (c.pollRequest collected) found).1 = _ ∧ _ :=
      dispatch_drains hcall
    by_cases hall : ∀ m ∈ (B.recv c.token none (c.count - collected.length) found.store).1,
        H.renderError m = none
    · refine .inr (.inr (.inr ⟨rfl, hall, _, rfl, ?_⟩))
      simp only [run, pollLoop, hmore, hnow, if_true]
      rw [hanswer, answerOf_drained hall]
      exact ⟨rfl, rfl⟩
    · have hsome : ∃ m ∈ (B.recv c.token none (c.count - collected.length) found.store).1,
          H.renderError m ≠ none := by
        simpa using hall
      refine .inr (.inr (.inl ⟨rfl, hsome, ?_⟩))
      obtain ⟨exc, hexc⟩ := answerOf_unrendered hsome
      simp only [run, pollLoop, hmore, hnow, if_true]
      rw [hanswer, hexc]
      exact ⟨rfl, rfl⟩

theorem poll_drains (hX : X.Lawful) (hs : X.Inv st.store) {collected : List Message}
    (hcall : H.reachedCall rd (c.pollRequest collected) st.verifier =
      some (.change (.recv c.token none (c.count - collected.length)))) :
    let step := H.dispatched B rd (c.pollRequest collected) c.isReply collected st
    ∃ p : List StoredMessage, p.Perm (takes X st.store c.token none (c.count - collected.length)) ∧
      (p.map (·.id)).Nodup ∧
      (B.recv c.token none (c.count - collected.length) st.store).1 = p.map (·.toWire) ∧
      X.Inv step.after.store ∧
      (∀ i, step.Marks X c.token i ↔ i ∈ p.map (·.id)) ∧
      ∀ i, i ∈ marked X c.token step.after.store ↔ i ∈ marked X c.token st.store ∨ i ∈ p.map (·.id) := by
  intro step
  obtain ⟨p, hp, hnd, hmsgs, htakes⟩ := recv_takes hX hs c.token none (c.count - collected.length)
  have hafter : step.after.store = (B.recv c.token none (c.count - collected.length) st.store).2 :=
    (dispatch_drains hcall).2
  refine ⟨p, hp, hnd, hmsgs, ?_, ?_, ?_⟩
  · rw [hafter]
    exact hX.keeps (.recv c.token none (c.count - collected.length)) st.store hs
  · intro i
    rw [dispatched_marks hX hs hcall]
    simp only [true_and, List.mem_map, hp.mem_iff]
  · intro i
    rw [hafter]
    exact htakes.taken i

theorem pollLoop_fresh (hX : X.Lawful) (hD : Delivers B X.Inv fun s => ledger (X.messages s))
    (turns : List Turn) (collected : List Message) (hs : X.Inv st.store) :
    ∀ d ∈ (H.pollLoop B c turns collected st).steps, ∀ i, d.Marks X c.token i →
      i ∉ marked X c.token st.store := by
  induction turns generalizing collected st with
  | nil => simp [pollLoop]
  | cons t turns ih =>
    have hfound : X.Inv (t.found B st).store := applyAll_inv hX t.others hs
    have hmono : marked X c.token st.store ⊆ marked X c.token (t.found B st).store :=
      marked_mono hD t.others hs
    intro d hd i hi hold
    rcases pollLoop_cases H B c t turns collected st with ⟨hsteps, -⟩ | ⟨hcall, hsteps, -⟩ |
      ⟨-, -, hsteps, -⟩ | ⟨hcall, -, rest, hrest, hsteps, -⟩
    · rw [hsteps] at hd
      cases hd
    · rw [hsteps, List.mem_singleton] at hd
      exact dispatched_marks_refused hcall i (hd ▸ hi)
    · rw [hsteps, List.mem_singleton] at hd
      subst hd
      exact hi.2 (hmono hold)
    · obtain ⟨p, -, -, -, hafter, hmarks, htaken⟩ := poll_drains hX hfound hcall
      rw [hsteps, List.mem_cons] at hd
      rcases hd with rfl | hd
      · exact hi.2 (hmono hold)
      · exact ih _ hafter d (hrest ▸ hd) i hi ((htaken i).2 (.inl (hmono hold)))

theorem pollLoop_returned (hX : X.Lawful) (turns : List Turn) (collected : List Message)
    (hs : X.Inv st.store) :
    let run := H.pollLoop B c turns collected st
    ∀ i ∈ run.returned.map (·.messageId), i ∈ collected.map (·.messageId) ∨
      ∃ d ∈ run.steps, d.Marks X c.token i := by
  induction turns generalizing collected st with
  | nil =>
    intro run i hi
    by_cases hmore : c.wantsMore collected = true
    · simp [run, pollLoop, hmore, Collected.returned] at hi
    · exact .inl (by simpa [run, pollLoop, hmore, Collected.returned, Collect.answer] using hi)
  | cons t turns ih =>
    intro run i hi
    have hfound : X.Inv (t.found B st).store := applyAll_inv hX t.others hs
    rcases pollLoop_cases H B c t turns collected st with ⟨-, hret⟩ | ⟨-, -, hret⟩ | ⟨-, -, -, hret⟩ |
      ⟨hcall, -, rest, hrest, hsteps, hending⟩
    · exact .inl (hret ▸ hi)
    · rw [hret] at hi
      cases hi
    · rw [hret] at hi
      cases hi
    · obtain ⟨p, -, -, hmsgs, hafter, hmarks, -⟩ := poll_drains hX hfound hcall
      have hret : run.returned = rest.returned := by rw [Collected.returned, hending, Collected.returned]
      rw [hret, hrest] at hi
      rw [hsteps]
      rcases ih _ hafter i hi with hi | ⟨d, hd, hdi⟩
      · rw [List.map_append, List.mem_append] at hi
        refine hi.imp_right fun hi => ⟨_, List.mem_cons_self, (hmarks i).2 ?_⟩
        rw [hmsgs] at hi
        obtain ⟨w, hw, rfl⟩ := List.mem_map.1 hi
        obtain ⟨m, hm, rfl⟩ := List.mem_map.1 (List.mem_of_mem_filter hw)
        exact List.mem_map_of_mem hm
      · exact .inr ⟨d, List.mem_cons_of_mem _ (hrest ▸ hd), hdi⟩

theorem kept_ids_iff {keeps : Message → Bool} {p : List StoredMessage} (hnd : (p.map (·.id)).Nodup) :
    (∀ i ∈ p.map (·.id), i ∈ ((p.map (·.toWire)).filter keeps).map (·.messageId)) ↔
      ∀ m ∈ p, keeps m.toWire = true := by
  constructor
  · intro h m hm
    obtain ⟨w, hw, hid⟩ := List.mem_map.1 (h m.id (List.mem_map_of_mem hm))
    obtain ⟨hw, hkept⟩ := List.mem_filter.1 hw
    obtain ⟨n, hn, rfl⟩ := List.mem_map.1 hw
    obtain rfl := List.inj_on_of_nodup_map hnd hn hm hid
    exact hkept
  · intro h i hi
    obtain ⟨m, hm, rfl⟩ := List.mem_map.1 hi
    exact List.mem_map_of_mem (f := (·.messageId))
      (List.mem_filter.2 ⟨List.mem_map_of_mem hm, h m hm⟩)

theorem drains_eq {keeps : Message → Bool} {collected : List Message}
    (hcall : H.reachedCall rd r st.verifier = some (.change (.recv b channels max))) :
    (H.dispatched B rd r keeps collected st).drains H X a =
      if b = a then takes X st.store b channels max else [] := by
  unfold Dispatched.drains dispatched
  dsimp only
  rw [hcall]

theorem poll_harmless_iff {collected : List Message}
    (hcall : H.reachedCall rd (c.pollRequest collected) st.verifier =
      some (.change (.recv c.token none (c.count - collected.length)))) :
    (H.dispatched B rd (c.pollRequest collected) c.isReply collected st).Harmless H X c.token ↔
      ∀ m ∈ takes X st.store c.token none (c.count - collected.length),
        c.isReply m.toWire = true ∧ H.renderError m.toWire = none := by
  have hdrains : (H.dispatched B rd (c.pollRequest collected) c.isReply collected st).drains H X c.token =
      takes X st.store c.token none (c.count - collected.length) := by
    rw [drains_eq hcall, if_pos rfl]
  refine ⟨fun h m hm => ⟨h.keepsAll m (hdrains ▸ hm), h.rendersAll m (hdrains ▸ hm)⟩,
    fun h => ⟨fun m hm => (h m (hdrains ▸ hm)).1, fun m hm => (h m (hdrains ▸ hm)).2, fun hr => ?_⟩⟩
  cases hcall.symm.trans hr

theorem poll_refused_harmless_iff {collected : List Message}
    (hcall : H.reachedCall rd (c.pollRequest collected) st.verifier = none) :
    (H.dispatched B rd (c.pollRequest collected) c.isReply collected st).Harmless H X c.token ↔
      collected = [] := by
  have hdrains : (H.dispatched B rd (c.pollRequest collected) c.isReply collected st).drains H X c.token =
      [] := by
    simp [Dispatched.drains, dispatched, hcall]
  exact ⟨fun h => h.refused hcall, fun h => ⟨by simp [hdrains], by simp [hdrains], fun _ => h⟩⟩

/-- A step takes `T` and keeps `K` of it, on top of what was collected before, `C`, and what is marked
after it, `N`: the run returns all of it, in `R`, exactly when the step keeps all that it takes and the
rest of the run returns what it owes. -/
theorem returns_all_iff {C T K N R : Nat → Prop} (hkept : ∀ i, K i → T i) (hbefore : ∀ i, T i → ¬ C i)
    (hafter : ∀ i, T i → ¬ N i) (hfrom : ∀ i, R i → (C i ∨ K i) ∨ N i) :
    (∀ i, C i ∨ T i ∨ N i ↔ R i) ↔ (∀ i, T i → K i) ∧ ∀ i, (C i ∨ K i) ∨ N i ↔ R i := by
  constructor
  · intro h
    have hall : ∀ i, T i → K i := fun i hi => by
      rcases hfrom i ((h i).1 (.inr (.inl hi))) with (hC | hK) | hN
      · exact absurd hC (hbefore i hi)
      · exact hK
      · exact absurd hN (hafter i hi)
    refine ⟨hall, fun i => ⟨fun hi => (h i).1 ?_, hfrom i⟩⟩
    rcases hi with (hC | hK) | hN
    · exact .inl hC
    · exact .inr (.inl (hkept i hK))
    · exact .inr (.inr hN)
  · rintro ⟨hall, h⟩ i
    rw [← h i, or_assoc, show T i ↔ K i from ⟨hall i, hkept i⟩]

/-- After a poll that is refused nothing is returned. -/
theorem refused_poll_iff {collected : List Message}
    (hcall : H.reachedCall rd (c.pollRequest collected) st.verifier = none) :
    let d := H.dispatched B rd (c.pollRequest collected) c.isReply collected st
    (∀ i, (i ∈ collected.map (·.messageId) ∨ d.Marks X c.token i) ↔
      i ∈ ([] : List Message).map (·.messageId)) ↔ d.Harmless H X c.token := by
  intro d
  have hnone (i : Nat) : ¬ d.Marks X c.token i := dispatched_marks_refused hcall i
  simp only [hnone, or_false, d, poll_refused_harmless_iff hcall]
  constructor
  · intro h
    by_contra hne
    obtain ⟨m, hm⟩ := List.exists_mem_of_ne_nil _ hne
    cases (h m.messageId).1 (List.mem_map_of_mem hm)
  · rintro rfl i
    rfl

/-- What cannot be rendered has been drained, and is not returned. -/
theorem unrendered_poll_iff (hX : X.Lawful) (hs : X.Inv st.store) {collected : List Message}
    (hcall : H.reachedCall rd (c.pollRequest collected) st.verifier =
      some (.change (.recv c.token none (c.count - collected.length))))
    (hraises : ∃ w ∈ (B.recv c.token none (c.count - collected.length) st.store).1, H.renderError w ≠ none) :
    let d := H.dispatched B rd (c.pollRequest collected) c.isReply collected st
    (∀ i, (i ∈ collected.map (·.messageId) ∨ d.Marks X c.token i) ↔
      i ∈ ([] : List Message).map (·.messageId)) ↔ d.Harmless H X c.token := by
  intro d
  obtain ⟨w, hw, hne⟩ := hraises
  obtain ⟨p, hp, -, hmsgs, -, hmarks, -⟩ := poll_drains hX hs hcall
  obtain ⟨m, hm, rfl⟩ := List.mem_map.1 (hmsgs ▸ hw)
  simp only [d, hmarks, poll_harmless_iff hcall]
  refine iff_of_false (fun h => ?_) fun h => hne (h m (hp.mem_iff.1 hm)).2
  cases (h m.id).1 (.inr (List.mem_map_of_mem hm))

/-- Along the loop: what was collected and what the loop marks is what it returns, exactly when all
its polls are harmless. -/
theorem pollLoop_iff (hX : X.Lawful) (hD : Delivers B X.Inv fun s => ledger (X.messages s))
    (turns : List Turn) (collected : List Message) (hs : X.Inv st.store)
    (hcollected : ∀ i ∈ collected.map (·.messageId), i ∈ marked X c.token st.store)
    (hover : (H.pollLoop B c turns collected st).ending ≠ .polling) :
    let run := H.pollLoop B c turns collected st
    (∀ i, (i ∈ collected.map (·.messageId) ∨ ∃ d ∈ run.steps, d.Marks X c.token i) ↔
        i ∈ run.returned.map (·.messageId)) ↔
      ∀ d ∈ run.steps, d.Harmless H X c.token := by
  induction turns generalizing collected st with
  | nil =>
    have hmore : c.wantsMore collected = false := by
      by_contra h
      exact hover (by simp [pollLoop, h])
    simp [pollLoop, hmore, Collected.returned, Collect.answer]
  | cons t turns ih =>
    intro run
    have hfound : X.Inv (t.found B st).store := applyAll_inv hX t.others hs
    have hmono : marked X c.token st.store ⊆ marked X c.token (t.found B st).store :=
      marked_mono hD t.others hs
    rcases pollLoop_cases H B c t turns collected st with ⟨hsteps, hret⟩ | ⟨hcall, hsteps, hret⟩ |
      ⟨hcall, hraises, hsteps, hret⟩ | ⟨hcall, hall, rest, hrest, hsteps, hending⟩
    · have hsteps : run.steps = [] := hsteps
      have hret : run.returned = collected := hret
      simp [hsteps, hret]
    · have hsteps : run.steps = [_] := hsteps
      have hret : run.returned = [] := hret
      simp only [hsteps, hret, List.mem_singleton, forall_eq, exists_eq_left]
      exact refused_poll_iff hcall
    · have hsteps : run.steps = [_] := hsteps
      have hret : run.returned = [] := hret
      simp only [hsteps, hret, List.mem_singleton, forall_eq, exists_eq_left]
      exact unrendered_poll_iff hX hfound hcall hraises
    · obtain ⟨p, hp, hnd, hmsgs, hafter, hmarks, htaken⟩ := poll_drains hX hfound hcall
      have hsteps : run.steps = _ :: rest.steps := hsteps
      have hret : run.returned = rest.returned := by rw [Collected.returned, hending, Collected.returned]
      have hlive : rest.ending ≠ .polling := hending ▸ hover
      rw [hmsgs] at hrest
      set kept := (p.map (·.toWire)).filter c.isReply with hkept
      have hfresh := pollLoop_fresh (H := H) (c := c) hX hD turns (collected ++ kept) hafter
      have hfrom := pollLoop_returned (H := H) (c := c) hX turns (collected ++ kept) hafter
      have hids (i : Nat) (hi : i ∈ kept.map (·.messageId)) : i ∈ p.map (·.id) := by
        obtain ⟨w, hw, rfl⟩ := List.mem_map.1 hi
        obtain ⟨m, hm, rfl⟩ := List.mem_map.1 (List.mem_of_mem_filter hw)
        exact List.mem_map_of_mem hm
      have hih := ih (collected ++ kept) hafter (fun i hi => by
        rw [List.map_append, List.mem_append] at hi
        exact (htaken i).2 (hi.imp (fun h => hmono (hcollected i h)) (hids i))) (hrest ▸ hlive)
      rw [← hrest] at hfresh hih
      simp only [← hrest, List.map_append, List.mem_append] at hfrom hih
      rw [hsteps, hret]
      have hrendered (m : StoredMessage) (hm : m ∈ p) : H.renderError m.toWire = none :=
        hall _ (hmsgs ▸ List.mem_map_of_mem hm)
      have hharmless : (∀ m ∈ p, c.isReply m.toWire = true ∧ H.renderError m.toWire = none) ↔
          ∀ m ∈ p, c.isReply m.toWire = true :=
        forall₂_congr fun m hm => and_iff_left (hrendered m hm)
      simp only [List.mem_cons, exists_eq_or_imp, forall_eq_or_imp, hmarks, poll_harmless_iff hcall,
        ← hih, ← hp.mem_iff, hharmless, ← kept_ids_iff hnd]
      refine returns_all_iff hids (fun i hT hC => ?_) (fun i hT ⟨d, hd, hdi⟩ => ?_) hfrom
      · exact ((hmarks i).2 hT).2 (hmono (hcollected i hC))
      · exact hfresh d hd i hdi ((htaken i).2 (.inr hT))

theorem collectOf_token {q : OpRequest} {start : ℚ} (h : H.collectOf q token start = some c) :
    c.token = token := by
  unfold collectOf at h
  obtain ⟨count, -, h⟩ := Option.bind_eq_some_iff.1 h
  obtain ⟨timeout, -, h⟩ := Option.bind_eq_some_iff.1 h
  cases h
  rfl

theorem check_harmless_iff {q : OpRequest} (hX : X.Lawful) (hs : X.Inv st.store) :
    (H.dispatched B rd (q.toDispatch "channels_collect" token) (fun _ => false) [] st).Harmless H X token ↔
      ∀ i, ¬ (H.dispatched B rd (q.toDispatch "channels_collect" token) (fun _ => false) [] st).Marks X
        token i := by
  set step := H.dispatched B rd (q.toDispatch "channels_collect" token) (fun _ => false) [] st with hstep
  cases hcall : H.reachedCall rd (q.toDispatch "channels_collect" token) st.verifier with
  | none =>
    have hdrains : step.drains H X token = [] := by simp [hstep, Dispatched.drains, dispatched, hcall]
    exact iff_of_true ⟨by simp [hdrains], by simp [hdrains], fun _ => rfl⟩ (dispatched_marks_refused hcall)
  | some call =>
    obtain ⟨b, channels, max, rfl⟩ := reachedCall_collect hcall
    have hmarks (i : Nat) : step.Marks X token i ↔
        b = token ∧ ∃ m ∈ takes X st.store b channels max, m.id = i := dispatched_marks hX hs hcall i
    have hdrains : step.drains H X token = if b = token then takes X st.store b channels max else [] :=
      drains_eq hcall
    constructor
    · intro h i hi
      obtain ⟨rfl, m, hm, -⟩ := (hmarks i).1 hi
      rw [if_pos rfl] at hdrains
      cases h.keepsAll m (hdrains ▸ hm)
    · intro h
      have hnone : step.drains H X token = [] := by
        rw [hdrains]
        split_ifs with hb
        · exact List.eq_nil_iff_forall_not_mem.2 fun m hm => h m.id ((hmarks m.id).2 ⟨hb, m, hm, rfl⟩)
        · rfl
      exact ⟨by simp [hnone], by simp [hnone], fun _ => rfl⟩

theorem opChannelsCollect_iff {q : OpRequest} (hX : X.Lawful)
    (hD : Delivers B X.Inv fun s => ledger (X.messages s)) (rd : Readings) (start : ℚ)
    (turns : List Turn) (hs : X.Inv st.store) (htoken : q.token = some token)
    (hover : (H.opChannelsCollect B rd start turns q st).ending ≠ .polling) :
    (H.opChannelsCollect B rd start turns q st).ConsumesReturned X token ↔
      ∀ d ∈ (H.opChannelsCollect B rd start turns q st).steps, d.Harmless H X token := by
  set step := H.dispatched B rd (q.toDispatch "channels_collect" token) (fun _ => false) [] st with hstep
  have hcheck : step.Harmless H X token ↔ ∀ i, ¬ step.Marks X token i := check_harmless_iff hX hs
  -- the request ends with its first dispatch
  have hsingle (ending : CollectEnd) (state : HttpState σ)
      (h : (⟨ending, state, [step]⟩ : Collected σ).returned = []) :
      (⟨ending, state, [step]⟩ : Collected σ).ConsumesReturned X token ↔
        ∀ d ∈ (⟨ending, state, [step]⟩ : Collected σ).steps, d.Harmless H X token := by
    simp [Collected.ConsumesReturned, h, hcheck]
  cases hcall : H.reachedCall rd (q.toDispatch "channels_collect" token) st.verifier with
  | none =>
    obtain ⟨-, hrefused⟩ := dispatch_refused (B := B) hcall
    simp only [opChannelsCollect, htoken, ← hstep]
    cases hanswer : (H.dispatch B rd (q.toDispatch "channels_collect" token) st).1 with
    | none => exact hsingle .escaped step.after rfl
    | some response =>
      simp only [if_neg (hrefused response hanswer)]
      exact hsingle (.answered (passedOn response)) step.after returned_passedOn
  | some call =>
    obtain ⟨b, channels, max, rfl⟩ := reachedCall_collect hcall
    obtain ⟨hanswer, hstore⟩ := dispatch_drains (B := B) hcall
    by_cases hall : ∀ m ∈ (B.recv b channels max st.store).1, H.renderError m = none
    swap
    · have hsome : ∃ m ∈ (B.recv b channels max st.store).1, H.renderError m ≠ none := by simpa using hall
      obtain ⟨exc, hexc⟩ := answerOf_unrendered hsome
      rw [hexc] at hanswer
      simp only [opChannelsCollect, htoken, hanswer, ← hstep, if_neg (show (500 : Nat) ≠ 200 by decide)]
      exact hsingle (.answered (passedOn ⟨500, .error ⟨"internal_error", exc⟩⟩)) step.after rfl
    rw [answerOf_drained hall] at hanswer
    simp only [opChannelsCollect, htoken, hanswer, ← hstep, if_true] at hover ⊢
    cases hc : H.collectOf q token start with
    | none => exact hsingle .escaped step.after rfl
    | some c =>
      simp only [hc] at hover ⊢
      obtain rfl : c.token = token := collectOf_token hc
      have hafter : X.Inv step.after.store := by
        rw [hstep, dispatched, hstore]
        exact hX.keeps (.recv b channels max) st.store hs
      have hloop := pollLoop_iff hX hD turns [] hafter (by simp) hover
      have hfresh := pollLoop_fresh (H := H) (c := c) hX hD turns [] hafter
      have hfrom := pollLoop_returned (H := H) (c := c) hX turns [] hafter
      simp only [List.map_nil, List.not_mem_nil, false_or] at hloop hfrom
      have hall := returns_all_iff (C := fun _ => False) (K := fun _ => False)
        (T := step.Marks X c.token) (fun _ h => h.elim) (fun _ _ => id)
        (fun i hi ⟨d, hd, hdi⟩ => hfresh d hd i hdi hi.1) (fun i hi => .inr (hfrom i hi))
      simp only [false_or] at hall
      simp only [Collected.ConsumesReturned, List.mem_cons, exists_eq_or_imp, forall_eq_or_imp, hcheck]
      rw [← hloop]
      exact hall

end

/-- A collect request that is over has marked for its agent exactly the messages that it returns, if
and only if each of its dispatches is harmless: the one for the schema check drains nothing for the
agent, a poll drains replies only that can be rendered, and no poll is refused after replies have been
collected. -/
theorem collect_consumes_iff (H : HttpServer) (rd : Readings) (start : ℚ) (turns : List Turn)
    (q : OpRequest) (token : String) (htoken : q.token = some token) (v : VerifierState)
    (ops : List StoreOp) :
    let memory := H.opChannelsCollect memoryStore rd start turns q
      ⟨v, memoryStore.applyAll ops MemoryStore.init⟩
    let sqlite := H.opChannelsCollect sqliteStore rd start turns q
      ⟨v, sqliteStore.applyAll ops SqliteStore.init⟩
    (memory.ending ≠ .polling → (memory.ConsumesReturned MemoryStore.mailbox token ↔
      ∀ d ∈ memory.steps, d.Harmless H MemoryStore.mailbox token)) ∧
    (sqlite.ending ≠ .polling → (sqlite.ConsumesReturned SqliteStore.mailbox token ↔
      ∀ d ∈ sqlite.steps, d.Harmless H SqliteStore.mailbox token)) :=
  ⟨opChannelsCollect_iff MemoryStore.mailbox_lawful MemoryStore.delivers rd start turns
      (MemoryStore.Inv.reachable ops) htoken,
    opChannelsCollect_iff SqliteStore.mailbox_lawful SqliteStore.delivers rd start turns
      (SqliteStore.inv_reachable ops) htoken⟩

/-- Waits for one reply to `t1`. -/
def collectReply : JsonDict :=
  ((Dict.empty.set "reply_to" (.str "t1")).set "count" (.int 1)).set "timeout" (.int 5)

/-- A message on `jobs`, to which mallory subscribes. -/
def answered (replyTo : Option String) : List StoreOp :=
  [.subscribe "mallory" "jobs", .send 0 { job with replyTo }]

def secondReadings : Readings := { firstReadings with nonce := "n2" }

theorem collect_consumes_reply :
    let q : OpRequest := ⟨some "mallory", collectReply.set "channels" (.arr []), "c"⟩
    let run := echoServer.opChannelsCollect memoryStore firstReadings 0 [⟨[], 0, secondReadings⟩]
      q ⟨{}, memoryStore.applyAll (answered (some "t1")) MemoryStore.init⟩
    run.returned.map (·.messageId) = [1] ∧ run.ConsumesReturned MemoryStore.mailbox "mallory" := by
  intro q run
  have hreturned : run.returned.map (·.messageId) = [1] := by decide +kernel
  have hover : run.ending ≠ .polling := fun h => by
    rw [Collected.returned, h] at hreturned
    cases hreturned
  exact ⟨hreturned, ((collect_consumes_iff echoServer firstReadings 0 [⟨[], 0, secondReadings⟩]
    q "mallory" rfl {} (answered (some "t1"))).1 hover).2 (by decide +kernel)⟩

/-- The dispatch for the schema check drains a job of mallory, and the request returns nothing. -/
theorem collect_swallows_job :
    let run := echoServer.opChannelsCollect memoryStore firstReadings 0 [⟨[], 5, secondReadings⟩]
      ⟨some "mallory", collectReply, "c"⟩ ⟨{}, memoryStore.applyAll (answered none) MemoryStore.init⟩
    ¬ run.ConsumesReturned MemoryStore.mailbox "mallory" ∧ run.returned = [] ∧
      1 ∈ marked MemoryStore.mailbox "mallory" run.state.store := by
  intro run
  have hreturned : run.returned = [] := List.isEmpty_iff.1 (by decide +kernel)
  refine ⟨fun h => ?_, hreturned, by decide +kernel⟩
  have hmarks : ∃ d ∈ run.steps, d.Marks MemoryStore.mailbox "mallory" 1 := by decide +kernel
  have hmem := (h 1).1 hmarks
  rw [hreturned] at hmem
  cases hmem

end HttpServer

end Sox
