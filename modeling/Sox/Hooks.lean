import Sox.Pipeline

/-!
# Hooks around the chain

`HookDispatcher` of `core/middleware/hooks.py`. Both loops leave an exception of a hook to the
dispatch: a pre-hook that raises keeps the chain from running, and a post-hook that raises replaces
the response of a chain that has run. The view of a hook copies `input` and `metadata` shallowly, so
a hook may write into the dicts and lists in them, which the context and a response may share.
`observes_iff` says that this is all that separates the dispatcher from one whose hooks only observe.
-/

namespace Sox

inductive HookDecision.Action where
  | allow
  | deny

structure HookDecision where
  action : HookDecision.Action
  error : Option JsonDict := none

/-- How the call of a hook ends; `shortCircuit` is a `ShortCircuitResponse` that it raises. -/
inductive HookEnd where
  | decided (decision : Option HookDecision)
  | raised (exc : String)
  | shortCircuit (response : JsonDict)

/-- Dicts of which only the dicts and lists in them differ. -/
def SharedOnly (d d' : JsonDict) : Prop :=
  d'.keys = d.keys ∧ ∀ k j, d.get? k = some j → (∀ xs, j ≠ .arr xs) → (∀ fields, j ≠ .obj fields) →
    d'.get? k = some j

/-- What a hook may change: its view, what lies around the context, and the values that it shares
with its view: those in the context and in the response of the chain, when there is one. -/
structure HookReach (τ : Type) where
  view : MiddlewareContext
  world : World τ
  response : Option JsonDict := none

structure Hook (τ : Type) where
  /-- `__name__` -/
  name : String := "unknown"
  call : HookReach τ → HookEnd × HookReach τ
  /-- The context itself is out of reach. -/
  shared : ∀ r, ∃ input metadata, SharedOnly r.world.ctx.input input ∧ SharedOnly r.world.ctx.metadata metadata ∧
    (call r).2.world.ctx = { r.world.ctx with input, metadata }

structure HookDispatcher (τ : Type) where
  pre : Dict String (List (Hook τ)) := .empty
  post : Dict String (List (Hook τ)) := .empty

/-- A loop over hooks: how it ended, when not by its last hook, and how many hooks it called. -/
@[ext]
structure HookRun (τ : Type) where
  ended : Option CallOutcome
  reach : HookReach τ
  calls : Nat

def HookRun.after {τ : Type} (r : HookRun τ) : HookRun τ := { r with calls := r.calls + 1 }

/-- What the post-hooks reach of a chain that returned. -/
def CallOutcome.returns : CallOutcome → Option (Option JsonDict)
  | returned response => some (some response)
  | returnedOther _ => some none
  | _ => none

/-- The outcome after the hooks have left its response as given. -/
def CallOutcome.withResponse (response : Option JsonDict) : CallOutcome → CallOutcome
  | returned before => returned (response.getD before)
  | o => o

namespace HookDispatcher

variable {τ : Type}

def makeDenyError (hookName : String) : JsonDict :=
  (((Dict.empty.set "error_code" (.str "hook_denied")).set "message"
    (.str ("Request denied by hook: " ++ hookName))).set "detail" .null).set "retry_after" .null

/-- The error of a denial. -/
def denial (hook : Hook τ) (decision : HookDecision) : Option JsonDict :=
  match decision.action with
  | .allow => none
  | .deny =>
    match decision.error with
    | some err => some (if err.entries.isEmpty then makeDenyError hook.name else err)
    | none => some (makeDenyError hook.name)

/-- What a post-hook returns is ignored. -/
def ignored (_ : Hook τ) (_ : HookDecision) : Option JsonDict := none

section
variable (denies : Hook τ → HookDecision → Option JsonDict)

/-- Calls the hooks up to the first that denies or raises. -/
def fanOut : List (Hook τ) → HookReach τ → HookRun τ
  | [], r => ⟨none, r, 0⟩
  | hook :: hooks, r =>
    match hook.call r with
    | (.raised exc, r) => ⟨some (.raised exc), r, 1⟩
    | (.shortCircuit response, r) => ⟨some (.shortCircuit response), r, 1⟩
    | (.decided decision, r) =>
      match decision.bind (denies hook) with
      | some err => ⟨some (.shortCircuit err), r, 1⟩
      | none => (fanOut hooks r).after

/-- Calls the hooks up to the first that denies, as if one that raises had returned nothing. -/
def fanOutAlarm : List (Hook τ) → HookReach τ → HookRun τ
  | [], r => ⟨none, r, 0⟩
  | hook :: hooks, r =>
    match hook.call r with
    | (.decided decision, r) =>
      match decision.bind (denies hook) with
      | some err => ⟨some (.shortCircuit err), r, 1⟩
      | none => (fanOutAlarm hooks r).after
    | (_, r) => (fanOutAlarm hooks r).after

/-- No hook up to the first that denies raises. -/
def Quiet : List (Hook τ) → HookReach τ → Prop
  | [], _ => True
  | hook :: hooks, r =>
    match hook.call r with
    | (.decided decision, r) => decision.bind (denies hook) = none → Quiet hooks r
    | _ => False

end

variable (d : HookDispatcher τ)

def preHooks (ctx : MiddlewareContext) : List (Hook τ) := d.pre.getD ctx.operation []

def postHooks (ctx : MiddlewareContext) : List (Hook τ) := d.post.getD ctx.operation []

/-- `__call__`; the post-hooks get the view that the pre-hooks had. -/
def call (w : World τ) : MwProg τ :=
  let before := fanOut denial (d.preHooks w.ctx) ⟨w.ctx, w, none⟩
  match before.ended with
  | some o => .done before.reach.world o
  | none => .next before.reach.world fun w' o =>
    match o.returns with
    | some response =>
      let after := fanOut ignored (d.postHooks w.ctx) ⟨before.reach.view, w', response⟩
      .done after.reach.world (after.ended.getD (o.withResponse after.reach.response))
    | none => .done w' o

def toMiddleware : Middleware τ := { name := "hook_dispatcher", call := d.call }

/-! ### The loops -/

section
variable {denies : Hook τ → HookDecision → Option JsonDict} {hooks : List (Hook τ)} {r : HookReach τ}

theorem fanOutAlarm_ended (denies : Hook τ → HookDecision → Option JsonDict) (hooks : List (Hook τ))
    (r : HookReach τ) :
    (fanOutAlarm denies hooks r).ended = none ∨
      ∃ err, (fanOutAlarm denies hooks r).ended = some (.shortCircuit err) := by
  induction hooks generalizing r with
  | nil => exact .inl rfl
  | cons hook hooks ih =>
    unfold fanOutAlarm
    split
    · split
      · exact .inr ⟨_, rfl⟩
      · exact ih _
    · exact ih _

/-- A loop that a denial ends has called a hook. -/
theorem fanOutAlarm_calls_pos (h : (fanOutAlarm denies hooks r).ended ≠ none) :
    0 < (fanOutAlarm denies hooks r).calls := by
  cases hooks with
  | nil => exact absurd rfl h
  | cons hook hooks =>
    unfold fanOutAlarm
    split
    · split
      · exact Nat.one_pos
      · exact Nat.succ_pos _
    · exact Nat.succ_pos _

theorem fanOut_eq_fanOutAlarm (h : Quiet denies hooks r) :
    fanOut denies hooks r = fanOutAlarm denies hooks r := by
  induction hooks generalizing r with
  | nil => rfl
  | cons hook hooks ih =>
    unfold Quiet at h
    unfold fanOut fanOutAlarm
    generalize hook.call r = p at h ⊢
    rcases p with ⟨decision | exc | response, r'⟩
    · dsimp only at h ⊢
      cases hden : decision.bind (denies hook) with
      | some err => rfl
      | none => exact congrArg HookRun.after (ih (h hden))
    · exact h.elim
    · exact h.elim

/-- When both loops end alike after as many calls, no hook has raised. -/
theorem quiet_of_agree (hended : (fanOut denies hooks r).ended = (fanOutAlarm denies hooks r).ended)
    (hcalls : (fanOut denies hooks r).calls = (fanOutAlarm denies hooks r).calls) :
    Quiet denies hooks r := by
  induction hooks generalizing r with
  | nil => trivial
  | cons hook hooks ih =>
    unfold fanOut fanOutAlarm at hended hcalls
    unfold Quiet
    generalize hook.call r = p at hended hcalls ⊢
    rcases p with ⟨decision | exc | response, r'⟩
    · dsimp only at hended hcalls ⊢
      intro hden
      rw [hden] at hended hcalls
      exact ih hended (Nat.succ_injective hcalls)
    · -- the loop that goes on ends with a denial, if at all
      rcases fanOutAlarm_ended denies hooks r' with hnone | ⟨err, hsome⟩
      · exact absurd (hended.trans hnone) (by simp)
      · exact absurd (hended.trans hsome) (by simp)
    · have hpos : 0 < (fanOutAlarm denies hooks r').calls := fanOutAlarm_calls_pos fun hnone =>
        absurd (hended.trans hnone) (by simp)
      simp only [HookRun.after] at hcalls
      omega

/-- A loop that went through has called no hook that raised. -/
theorem quiet_of_ended_none (h : (fanOut denies hooks r).ended = none) : Quiet denies hooks r := by
  induction hooks generalizing r with
  | nil => trivial
  | cons hook hooks ih =>
    unfold fanOut at h
    unfold Quiet
    generalize hook.call r = p at h ⊢
    rcases p with ⟨decision | exc | response, r'⟩
    · dsimp only at h ⊢
      intro hden
      rw [hden] at h
      exact ih h
    · cases h
    · cases h

theorem fanOut_ne_returns {o : CallOutcome} {response : Option JsonDict} (ho : o.returns = some response) :
    (fanOut denies hooks r).ended ≠ some o := by
  induction hooks generalizing r with
  | nil => simp [fanOut]
  | cons hook hooks ih =>
    have hshort (err : JsonDict) : CallOutcome.shortCircuit err ≠ o := by
      rintro rfl
      cases ho
    unfold fanOut
    rcases hook.call r with ⟨decision | exc | err, r'⟩
    · dsimp only
      cases hden : decision.bind (denies hook) with
      | some err => exact fun h => hshort err (Option.some.inj h)
      | none => exact ih
    · intro h
      rw [← Option.some.inj h] at ho
      cases ho
    · exact fun h => hshort err (Option.some.inj h)

theorem fanOut_ignored_ended (h : Quiet ignored hooks r) : (fanOut ignored hooks r).ended = none := by
  induction hooks generalizing r with
  | nil => rfl
  | cons hook hooks ih =>
    unfold Quiet at h
    unfold fanOut
    have hnone (decision : Option HookDecision) : decision.bind (ignored hook) = none := by
      cases decision <;> rfl
    generalize hook.call r = p at h ⊢
    rcases p with ⟨decision | exc | err, r'⟩
    · dsimp only at h ⊢
      rw [hnone]
      exact ih (h (hnone decision))
    · exact h.elim
    · exact h.elim

end

/-! ### The dispatcher and the chain -/

open Pipeline (answer)

section
variable (d : HookDispatcher τ) (terminal : Terminal τ) (mws : List (Middleware τ)) (w : World τ)

/-- The pre-hooks, none of which keeps the chain from running by raising. -/
def preRun : HookRun τ := fanOutAlarm denial (d.preHooks w.ctx) ⟨w.ctx, w, none⟩

/-- The world in which the chain below runs: its context is that of the request. -/
def handedOn : World τ := { w with env := (d.preRun w).reach.world.env }

/-- What the post-hooks get of a chain that has returned `response`. -/
def postReach (w' : World τ) (response : Option JsonDict) : HookReach τ :=
  ⟨(d.preRun w).reach.view, w', response⟩

/-- The hooks only observe: the first denial is the response, without the chain and the hooks after
it; when nobody denies, the chain runs once, on what was requested, and its response is the
response. -/
structure Observes : Prop where
  denied : ∀ err, (d.preRun w).ended = some (.shortCircuit err) →
    (fanOut denial (d.preHooks w.ctx) ⟨w.ctx, w, none⟩).calls = (d.preRun w).calls ∧
      (d.call w).nextCalls (answer terminal mws) = [] ∧
      ((d.call w).eval (answer terminal mws)).1 = .shortCircuit err ∧
      ((d.call w).eval (answer terminal mws)).2.env = (d.preRun w).reach.world.env
  passed : (d.preRun w).ended = none →
    (d.call w).nextCalls (answer terminal mws) = [d.handedOn w] ∧
      ((d.call w).eval (answer terminal mws)).1 = (answer terminal mws (d.handedOn w)).1

/-- No hook that is called raises, no pre-hook up to the first denial, and no post-hook when nobody
denies and the chain returns; nor do the pre-hooks write into the context that is then handed on, or
the post-hooks into the response. -/
structure HooksLeave : Prop where
  pre : Quiet denial (d.preHooks w.ctx) ⟨w.ctx, w, none⟩
  context : (d.preRun w).ended = none → (d.preRun w).reach.world.ctx = w.ctx
  post : (d.preRun w).ended = none → ∀ response,
    (answer terminal mws (d.handedOn w)).1.returns = some response →
      Quiet ignored (d.postHooks w.ctx) (d.postReach w (answer terminal mws (d.handedOn w)).2 response)
  response : (d.preRun w).ended = none → ∀ response,
    (answer terminal mws (d.handedOn w)).1.returns = some response →
      (answer terminal mws (d.handedOn w)).1.withResponse (fanOut ignored (d.postHooks w.ctx)
        (d.postReach w (answer terminal mws (d.handedOn w)).2 response)).reach.response =
          (answer terminal mws (d.handedOn w)).1

end

section
variable {d : HookDispatcher τ} {terminal : Terminal τ} {mws : List (Middleware τ)} {w : World τ}

theorem call_of_ended {o : CallOutcome}
    (h : (fanOut denial (d.preHooks w.ctx) ⟨w.ctx, w, none⟩).ended = some o) :
    d.call w = .done (fanOut denial (d.preHooks w.ctx) ⟨w.ctx, w, none⟩).reach.world o := by
  simp only [call, h]

theorem nextCalls_of_none (h : (fanOut denial (d.preHooks w.ctx) ⟨w.ctx, w, none⟩).ended = none) :
    (d.call w).nextCalls (answer terminal mws) =
      [(fanOut denial (d.preHooks w.ctx) ⟨w.ctx, w, none⟩).reach.world] := by
  simp only [call, h, MwProg.nextCalls]
  split <;> rfl

/-- What the post-hooks make of how the chain ended. -/
def observed (hooks : List (Hook τ)) (view : MiddlewareContext) (p : CallOutcome × World τ) : CallOutcome :=
  match p.1.returns with
  | some response =>
    let after := fanOut ignored hooks ⟨view, p.2, response⟩
    after.ended.getD (p.1.withResponse after.reach.response)
  | none => p.1

theorem eval_of_none (h : (fanOut denial (d.preHooks w.ctx) ⟨w.ctx, w, none⟩).ended = none) :
    ((d.call w).eval (answer terminal mws)).1 =
      observed (d.postHooks w.ctx) (fanOut denial (d.preHooks w.ctx) ⟨w.ctx, w, none⟩).reach.view
        (answer terminal mws (fanOut denial (d.preHooks w.ctx) ⟨w.ctx, w, none⟩).reach.world) := by
  simp only [call, h, MwProg.eval, observed]
  split <;> rfl

theorem observed_eq_iff {hooks : List (Hook τ)} {view : MiddlewareContext} (p : CallOutcome × World τ) :
    observed hooks view p = p.1 ↔ ∀ response, p.1.returns = some response →
      Quiet ignored hooks ⟨view, p.2, response⟩ ∧
        p.1.withResponse (fanOut ignored hooks ⟨view, p.2, response⟩).reach.response = p.1 := by
  unfold observed
  cases hret : p.1.returns with
  | none => exact iff_of_true rfl fun _ h => by cases h
  | some response =>
    simp only [Option.some.injEq, forall_eq']
    constructor
    · intro h
      cases hended : (fanOut ignored hooks ⟨view, p.2, response⟩).ended with
      | none =>
        rw [hended, Option.getD_none] at h
        exact ⟨quiet_of_ended_none hended, h⟩
      | some o =>
        rw [hended, Option.getD_some] at h
        exact absurd (hended.trans (congrArg some h)) (fanOut_ne_returns hret)
    · rintro ⟨hquiet, hsame⟩
      rw [fanOut_ignored_ended hquiet, Option.getD_none, hsame]

theorem handedOn_eq (hquiet : Quiet denial (d.preHooks w.ctx) ⟨w.ctx, w, none⟩)
    (hctx : (d.preRun w).reach.world.ctx = w.ctx) :
    (fanOut denial (d.preHooks w.ctx) ⟨w.ctx, w, none⟩).reach.world = d.handedOn w := by
  rw [fanOut_eq_fanOutAlarm hquiet]
  exact congrArg (fun ctx => (⟨ctx, (d.preRun w).reach.world.env⟩ : World τ)) hctx

theorem HooksLeave.observes (h : HooksLeave d terminal mws w) : Observes d terminal mws w := by
  have hpre : fanOut denial (d.preHooks w.ctx) ⟨w.ctx, w, none⟩ = d.preRun w := fanOut_eq_fanOutAlarm h.pre
  constructor
  · intro err hended
    rw [← hpre] at hended
    rw [call_of_ended hended, hpre]
    exact ⟨rfl, rfl, rfl, rfl⟩
  · intro hended
    have hthrough := hpre ▸ hended
    have hworld := handedOn_eq h.pre (h.context hended)
    rw [nextCalls_of_none hthrough, eval_of_none hthrough, hworld]
    refine ⟨rfl, (observed_eq_iff _).2 fun response hret => ?_⟩
    rw [hpre]
    exact ⟨h.post hended response hret, h.response hended response hret⟩

theorem Observes.preQuiet (h : Observes d terminal mws w) :
    Quiet denial (d.preHooks w.ctx) ⟨w.ctx, w, none⟩ := by
  cases hended : (fanOut denial (d.preHooks w.ctx) ⟨w.ctx, w, none⟩).ended with
  | none => exact quiet_of_ended_none hended
  | some o =>
    have hcall := call_of_ended hended
    rcases fanOutAlarm_ended denial (d.preHooks w.ctx) ⟨w.ctx, w, none⟩ with
      hnone | ⟨err, hdenied⟩
    · -- a chain that nobody denied has run
      have hnext := (h.passed hnone).1
      rw [hcall] at hnext
      cases hnext
    · obtain ⟨hcalls, -, heval, -⟩ := h.denied err hdenied
      rw [hcall] at heval
      refine quiet_of_agree ?_ hcalls
      rw [hended, hdenied, show o = .shortCircuit err from heval]

theorem Observes.hooksLeave (h : Observes d terminal mws w) : HooksLeave d terminal mws w := by
  have hpre : fanOut denial (d.preHooks w.ctx) ⟨w.ctx, w, none⟩ = d.preRun w :=
    fanOut_eq_fanOutAlarm h.preQuiet
  have hctx (hnone : (d.preRun w).ended = none) : (d.preRun w).reach.world.ctx = w.ctx := by
    have hnext := (h.passed hnone).1
    rw [nextCalls_of_none (hpre ▸ hnone), hpre] at hnext
    have hworld : (d.preRun w).reach.world = d.handedOn w := (List.cons.inj hnext).1
    rw [hworld]
    rfl
  have hpost (hnone : (d.preRun w).ended = none) := by
    have hout := (h.passed hnone).2
    rw [eval_of_none (hpre ▸ hnone), handedOn_eq h.preQuiet (hctx hnone), hpre] at hout
    exact (observed_eq_iff _).1 hout
  exact ⟨h.preQuiet, hctx, fun hnone response hret => (hpost hnone response hret).1,
    fun hnone response hret => (hpost hnone response hret).2⟩

/-- With the dispatcher in front, the chain answers with the first denial or with its own answer. -/
theorem answer_observed (h : HooksLeave d terminal mws w) :
    (answer terminal (d.toMiddleware :: mws) w).1 =
      (d.preRun w).ended.getD (answer terminal mws (d.handedOn w)).1 := by
  change ((d.call w).eval (answer terminal mws)).1 = _
  rcases fanOutAlarm_ended denial (d.preHooks w.ctx) ⟨w.ctx, w, none⟩ with hnone | ⟨err, hdenied⟩
  · rw [(h.observes.passed hnone).2, show (d.preRun w).ended = none from hnone, Option.getD_none]
  · rw [(h.observes.denied err hdenied).2.2.1, show (d.preRun w).ended = _ from hdenied, Option.getD_some]

theorem dispatch_observed (h : HooksLeave d terminal mws w) (now : World τ → ℚ) (uuid : String) :
    ∃ trace, (Pipeline.dispatch ⟨d.toMiddleware :: mws, terminal⟩ now uuid w).1 =
      Pipeline.answered trace (Pipeline.correlationId uuid w.ctx)
        ((d.preRun w).ended.getD (answer terminal mws (d.handedOn w)).1) := by
  rw [← answer_observed h]
  exact ⟨_, Pipeline.dispatch_fst (P := ⟨d.toMiddleware :: mws, terminal⟩)⟩

end

/-- The hooks only observe if and only if no hook that is called raises or writes into what the chain
gets and answers. -/
theorem observes_iff (d : HookDispatcher τ) (terminal : Terminal τ) (mws : List (Middleware τ))
    (w : World τ) : Observes d terminal mws w ↔ HooksLeave d terminal mws w :=
  ⟨Observes.hooksLeave, HooksLeave.observes⟩

/-- A store that keeps what is sent. -/
def keeping : Terminal Nat := fun w =>
  (.returned (Dict.empty.set "ok" (.bool true)), { w with env := w.env + 1 })

/-- An audit after each send, whose log is not reachable. -/
def auditing : HookDispatcher Nat where
  post := Dict.empty.set "send"
    [{ name := "audit"
       call := fun r => (.raised "log unreachable", r)
       shared := fun _ => ⟨_, _, ⟨rfl, fun _ _ h _ _ => h⟩, ⟨rfl, fun _ _ h _ _ => h⟩, rfl⟩ }]

/-- The send is kept, and answered with an error. -/
theorem auditing_alters_response :
    let w : World Nat := ⟨⟨"send", .empty, none, "c", none, .empty, none⟩, 0⟩
    let P : Pipeline Nat := ⟨[auditing.toMiddleware], keeping⟩
    ¬Observes auditing keeping [] w ∧ (P.dispatch (fun _ => 0) "id" w).2.env = 1 ∧
      ∃ response, (P.dispatch (fun _ => 0) "id" w).1 = .returned response ∧
        response.get? "error_code" = some (.str "internal_error") := by
  refine ⟨fun h => ?_, rfl, _, rfl, rfl⟩
  cases (h.passed rfl).2

/-- Empties `ctx_view["input"]["body"]` in place; the response holds the same object. -/
def redacting : HookDispatcher Nat where
  post := Dict.empty.set "send"
    [{ name := "redact"
       call := fun r => (.decided none, { r with
         response := r.response.map fun response => response.set "body" (.obj []) })
       shared := fun _ => ⟨_, _, ⟨rfl, fun _ _ h _ _ => h⟩, ⟨rfl, fun _ _ h _ _ => h⟩, rfl⟩ }]

/-- A chain that answers with the body that it got. -/
def echoing : Terminal Nat := fun w =>
  (.returned (Dict.empty.set "body" (w.ctx.input.getD "body" .null)), w)

theorem redacting_alters_response :
    let input := Dict.empty.set "body" (.obj [("secret", .int 1)])
    let w : World Nat := ⟨⟨"send", input, none, "c", none, .empty, none⟩, 0⟩
    ¬Observes redacting echoing [] w := by
  intro input w h
  have hout := CallOutcome.returned.inj (h.passed rfl).2
  cases congrArg (fun response : JsonDict => response.getD "body" .null) hout

end HookDispatcher

end Sox
