import Mathlib.Data.List.Count
import Sox.Auth

/-!
# The middleware pipeline

`Pipeline.dispatch` builds the call chain around the terminal, catches what escapes it and attaches
the trace. A middleware is any program that may call its `next`, look at how the call ended, and go
on: `MwProg`. No level of the chain stops a middleware from calling `next` again, so a chain is run
once exactly when nobody does (`dispatch_runs_once_iff`). The trace is kept in step with the run by
`callChain`; `dispatch_traced` says what it reports.
-/

namespace Sox

/-- How a call ended. What is returned, or carried by a `ShortCircuitResponse`, need not be a dict:
`returnedOther` and `shortCircuitOther` give the type of a value that is none and has no `get`.
`cancelled` is an exception outside `Exception`, such as the cancellation of the task. -/
inductive CallOutcome where
  | returned (response : JsonDict)
  | returnedOther (typeName : String)
  | shortCircuit (response : JsonDict)
  | shortCircuitOther (typeName : String)
  | raised (exc : String)
  | cancelled

/-- What a middleware can see and change: the context of the dispatch and everything else. -/
structure World (τ : Type) where
  ctx : MiddlewareContext
  env : τ

/-- A called middleware, up to its end or to its next call of `next`. -/
inductive MwProg (τ : Type) where
  | done (w : World τ) (o : CallOutcome)
  | next (w : World τ) (k : World τ → CallOutcome → MwProg τ)

structure Middleware (τ : Type) where
  name : String
  /-- The attribute `kind`, when it is a string. -/
  kind : Option String := none
  mustRunBefore : List String := []
  mustRunAfter : List String := []
  call : World τ → MwProg τ

abbrev Terminal (τ : Type) := World τ → CallOutcome × World τ

structure Pipeline (τ : Type) where
  middlewares : List (Middleware τ)
  terminal : Terminal τ

/-! ### The trace -/

inductive Verdict where
  | passed
  | rejected
  | errored
  | skipped
deriving DecidableEq, Repr

def Verdict.str : Verdict → String
  | passed => "passed"
  | rejected => "rejected"
  | errored => "errored"
  | skipped => "skipped"

structure TraceEntry where
  pluginId : String
  kind : String
  startedAt : ℚ := 0
  finishedAt : ℚ := 0
  verdict : Verdict := .skipped
  errorCode : Json := .null
  correlationId : String

namespace TraceEntry

def toJson (e : TraceEntry) : Json :=
  .obj [("plugin_id", .str e.pluginId), ("kind", .str e.kind), ("started_at", .float e.startedAt),
    ("finished_at", .float e.finishedAt), ("verdict", .str e.verdict.str),
    ("error_code", e.errorCode), ("correlation_id", .str e.correlationId)]

def started (t : ℚ) (e : TraceEntry) : TraceEntry := { e with startedAt := t }

/-- What `_call` notes when the call of its middleware ends; it does not see a cancellation. -/
def finished (t : ℚ) (o : CallOutcome) (e : TraceEntry) : TraceEntry :=
  match o with
  | .returned response =>
    match response.get? "error_code" with
    | some code => { e with finishedAt := t, verdict := .rejected, errorCode := code }
    | none => { e with finishedAt := t, verdict := .passed }
  | .returnedOther _ => { e with finishedAt := t, verdict := .passed }
  | .shortCircuit response =>
    { e with finishedAt := t, verdict := .rejected, errorCode := response.getD "error_code" .null }
  | .shortCircuitOther _ => { e with finishedAt := t, verdict := .rejected, errorCode := .null }
  | .raised _ => { e with finishedAt := t, verdict := .errored }
  | .cancelled => e

/-- What an entry keeps from its allocation on. -/
def ident (e : TraceEntry) : String × String × String := (e.pluginId, e.kind, e.correlationId)

@[simp] theorem ident_started (t : ℚ) (e : TraceEntry) : (e.started t).ident = e.ident := rfl

@[simp] theorem ident_finished (t : ℚ) (o : CallOutcome) (e : TraceEntry) :
    (e.finished t o).ident = e.ident := by
  cases o with
  | returned response =>
    simp only [finished]
    split <;> rfl
  | _ => rfl

end TraceEntry

/-- A dispatch on its way; `ran` are the layers that have run so far. -/
structure DispatchRun (τ : Type) where
  world : World τ
  trace : List TraceEntry
  ran : List Nat := []

namespace DispatchRun

variable {τ : Type}

def update (i : Nat) (f : TraceEntry → TraceEntry) (r : DispatchRun τ) : DispatchRun τ :=
  { r with trace := r.trace.modify i f }

end DispatchRun

def MwProg.evalIn {τ : Type} (next : DispatchRun τ → CallOutcome × DispatchRun τ) :
    MwProg τ → DispatchRun τ → CallOutcome × DispatchRun τ
  | done w o, r => (o, { r with world := w })
  | .next w k, r =>
    let p := next { r with world := w }
    (k p.2.world p.1).evalIn next p.2

/-! ### What a chain answers -/

namespace MwProg

variable {τ : Type}

/-- Runs the program with `next` for its `next`. -/
def eval (next : Terminal τ) : MwProg τ → CallOutcome × World τ
  | done w o => (o, w)
  | .next w k => (k (next w).2 (next w).1).eval next

/-- The worlds in which the program calls `next`, in order. -/
def nextCalls (next : Terminal τ) : MwProg τ → List (World τ)
  | done _ _ => []
  | .next w k => w :: (k (next w).2 (next w).1).nextCalls next

def CallsNext : MwProg τ → Prop
  | done _ _ => False
  | .next _ _ => True

/-- No exception outside `Exception` is its own. -/
def Ordinary : MwProg τ → Prop
  | done _ o => o ≠ .cancelled
  | .next _ k => ∀ w o, o ≠ .cancelled → (k w o).Ordinary

theorem Ordinary.eval {next : Terminal τ} (hnext : ∀ w, (next w).1 ≠ .cancelled) {p : MwProg τ}
    (hp : p.Ordinary) : (p.eval next).1 ≠ .cancelled := by
  induction p with
  | done w o => exact hp
  | next w k ih => exact ih _ _ (hp _ _ (hnext w))

end MwProg

def Middleware.Ordinary {τ : Type} (m : Middleware τ) : Prop := ∀ w, (m.call w).Ordinary

namespace Pipeline

variable {τ : Type} (terminal : Terminal τ)

/-- The answer of the chain. -/
def answer : List (Middleware τ) → Terminal τ
  | [] => terminal
  | m :: mws => fun w => (m.call w).eval (answer mws)

/-- The layers that run, in order: the `j`-th middleware is layer `i + j`, the terminal comes after
the last one. -/
def layers : Nat → List (Middleware τ) → World τ → List Nat
  | i, [], _ => [i]
  | i, m :: mws, w =>
    i :: ((m.call w).nextCalls (answer terminal mws)).flatMap (layers (i + 1) mws)

/-- No middleware that runs calls its `next` a second time. -/
def NoSecondNext : List (Middleware τ) → World τ → Prop
  | [], _ => True
  | m :: mws, w =>
    ((m.call w).nextCalls (answer terminal mws)).length ≤ 1 ∧
      ∀ w' ∈ (m.call w).nextCalls (answer terminal mws), NoSecondNext mws w'

section
variable {terminal} {i j : Nat} {mws : List (Middleware τ)} {w : World τ}

theorem le_of_mem_layers (h : j ∈ layers terminal i mws w) : i ≤ j ∧ j ≤ i + mws.length := by
  induction mws generalizing i w with
  | nil =>
    have := List.mem_singleton.1 h
    simp only [List.length_nil]
    omega
  | cons m mws ih =>
    rw [layers, List.mem_cons, List.mem_flatMap] at h
    rw [List.length_cons]
    rcases h with rfl | ⟨w', -, h⟩
    · omega
    · have := ih h
      omega

theorem mem_layers_self : i ∈ layers terminal i mws w := by
  cases mws <;> simp [layers]

/-- Nothing below a middleware that never calls `next` runs. -/
theorem le_of_mem_layers_append {u v : List (Middleware τ)} {x : Middleware τ}
    (hx : ∀ w, ¬ (x.call w).CallsNext) (h : j ∈ layers terminal i (u ++ x :: v) w) :
    j ≤ i + u.length := by
  induction u generalizing i w with
  | nil =>
    rw [List.nil_append, layers, List.mem_cons] at h
    have hstop := hx w
    cases hcall : x.call w with
    | next w' k =>
      rw [hcall] at hstop
      exact absurd trivial hstop
    | done w' o =>
      rw [hcall] at h
      simp only [MwProg.nextCalls, List.flatMap_nil, List.not_mem_nil, or_false] at h
      omega
  | cons y u ih =>
    rw [List.cons_append, layers, List.mem_cons, List.mem_flatMap] at h
    rw [List.length_cons]
    rcases h with rfl | ⟨w', -, h⟩
    · omega
    · have := ih h
      omega

theorem count_self_layers : (layers terminal i mws w).count i = 1 := by
  cases mws with
  | nil => simp [layers]
  | cons m mws =>
    have hnone : i ∉ ((m.call w).nextCalls (answer terminal mws)).flatMap
        (layers terminal (i + 1) mws) := by
      intro h
      obtain ⟨w', -, h⟩ := List.mem_flatMap.1 h
      have := le_of_mem_layers h
      omega
    rw [layers, List.count_cons_self, List.count_eq_zero_of_not_mem hnone]

/-- Every layer runs at most once exactly when nobody calls `next` a second time. -/
theorem layers_once_iff :
    (∀ j, (layers terminal i mws w).count j ≤ 1) ↔ NoSecondNext terminal mws w := by
  induction mws generalizing i w with
  | nil =>
    refine iff_of_true (fun j => ?_) trivial
    simp only [layers, List.count_singleton]
    split <;> omega
  | cons m mws ih =>
    have hne (j : Nat) (h : j ≠ i) : (layers terminal i (m :: mws) w).count j =
        (((m.call w).nextCalls (answer terminal mws)).flatMap (layers terminal (i + 1) mws)).count j := by
      rw [layers, List.count_cons_of_ne (Ne.symm h)]
    have hself : (layers terminal i (m :: mws) w).count i = 1 := count_self_layers
    rw [NoSecondNext]
    cases hcalls : (m.call w).nextCalls (answer terminal mws) with
    | nil =>
      refine iff_of_true (fun j => ?_) ⟨by simp, by simp⟩
      by_cases h : j = i
      · subst h
        omega
      · have := hne j h
        simp only [hcalls, List.flatMap_nil, List.count_nil] at this
        omega
    | cons w₁ rest =>
      have hfirst : (layers terminal (i + 1) mws w₁).count (i + 1) = 1 := count_self_layers
      cases rest with
      | nil =>
        simp only [hcalls, List.flatMap_cons, List.flatMap_nil, List.append_nil] at hne
        simp only [List.length_singleton, le_refl, List.mem_singleton, forall_eq, true_and]
        rw [← ih (i := i + 1)]
        constructor
        · intro h j
          by_cases hj : j = i
          · have hnone : j ∉ layers terminal (i + 1) mws w₁ := by
              intro hmem
              have := le_of_mem_layers hmem
              omega
            rw [List.count_eq_zero_of_not_mem hnone]
            omega
          · rw [← hne j hj]
            exact h j
        · intro h j
          by_cases hj : j = i
          · subst hj
            omega
          · rw [hne j hj]
            exact h j
      | cons w₂ rest =>
        -- a second call runs the layer below a second time
        refine iff_of_false (fun h => ?_) (fun h => absurd h.1 (by simp))
        have htwice := h (i + 1)
        have hsecond : (layers terminal (i + 1) mws w₂).count (i + 1) = 1 := count_self_layers
        rw [hne _ (by omega), hcalls, List.flatMap_cons, List.flatMap_cons, List.count_append,
          List.count_append] at htwice
        omega

end

/-! ### The run with its trace -/

/-- `_build_call_chain`, `now` being `time.monotonic`. -/
def callChain (now : World τ → ℚ) : Nat → List (Middleware τ) → DispatchRun τ →
    CallOutcome × DispatchRun τ
  | i, [], r =>
    let p := terminal r.world
    (p.1, { r with world := p.2, ran := r.ran ++ [i] })
  | i, m :: mws, r =>
    let r := { r with ran := r.ran ++ [i] }.update i (TraceEntry.started (now r.world))
    let p := (m.call r.world).evalIn (callChain now (i + 1) mws) r
    (p.1, p.2.update i (TraceEntry.finished (now p.2.world) p.1))

/-- The run `p` that started in `r` has passed through the layers `js` and answers `a`. -/
structure Tracks (r : DispatchRun τ) (js : List Nat) (a : CallOutcome × World τ)
    (p : CallOutcome × DispatchRun τ) : Prop where
  outcome : p.1 = a.1
  world : p.2.world = a.2
  ran : p.2.ran = r.ran ++ js
  ident : p.2.trace.map TraceEntry.ident = r.trace.map TraceEntry.ident

section
variable {terminal} {now : World τ → ℚ} {next : Terminal τ}
  {nextIn : DispatchRun τ → CallOutcome × DispatchRun τ} {below : World τ → List Nat}

theorem map_ident_modify (i : Nat) {f : TraceEntry → TraceEntry} (hf : ∀ e, (f e).ident = e.ident)
    (trace : List TraceEntry) :
    (trace.modify i f).map TraceEntry.ident = trace.map TraceEntry.ident := by
  induction trace generalizing i with
  | nil => simp
  | cons e rest ih =>
    cases i with
    | zero => simp [hf]
    | succ i => simp [ih]

theorem evalIn_tracks (hnext : ∀ r, Tracks r (below r.world) (next r.world) (nextIn r)) (p : MwProg τ)
    (r : DispatchRun τ) :
    Tracks r ((p.nextCalls next).flatMap below) (p.eval next) (p.evalIn nextIn r) := by
  induction p generalizing r with
  | done w o => exact ⟨rfl, rfl, by simp [MwProg.evalIn, MwProg.nextCalls], rfl⟩
  | next w k ih =>
    have hcall := hnext { r with world := w }
    have hrest := ih (next w).2 (next w).1 (nextIn { r with world := w }).2
    simp only [MwProg.evalIn, MwProg.eval, MwProg.nextCalls, List.flatMap_cons, hcall.world,
      hcall.outcome]
    refine ⟨hrest.outcome, hrest.world, ?_, hrest.ident.trans hcall.ident⟩
    rw [hrest.ran, hcall.ran, List.append_assoc]

theorem callChain_tracks (i : Nat) (mws : List (Middleware τ)) (r : DispatchRun τ) :
    Tracks r (layers terminal i mws r.world) (answer terminal mws r.world)
      (callChain terminal now i mws r) := by
  induction mws generalizing i r with
  | nil => exact ⟨rfl, rfl, rfl, rfl⟩
  | cons m mws ih =>
    have hrun := evalIn_tracks (ih (i + 1)) (m.call r.world)
      ({ r with ran := r.ran ++ [i] }.update i (TraceEntry.started (now r.world)))
    rw [callChain]
    refine ⟨hrun.outcome, hrun.world, ?_, ?_⟩
    · refine hrun.ran.trans ?_
      simp [DispatchRun.update, layers]
    · refine (map_ident_modify i (fun e => TraceEntry.ident_finished _ _ e) _).trans ?_
      exact hrun.ident.trans (map_ident_modify i (fun e => TraceEntry.ident_started _ e) _)

theorem Tracks.length {r : DispatchRun τ} {js : List Nat} {a : CallOutcome × World τ}
    {p : CallOutcome × DispatchRun τ} (h : Tracks r js a p) : p.2.trace.length = r.trace.length := by
  have := congrArg List.length h.ident
  simpa using this

end

/-! ### The dispatch -/

def makeInternalError (reason : String) : JsonDict :=
  (((Dict.empty.set "error_code" (.str "internal_error")).set "message" (.str reason)).set "detail"
    .null).set "retry_after" .null

/-- The id that the caller put into the metadata, else the fresh one. -/
def correlationId (uuid : String) (ctx : MiddlewareContext) : String :=
  match ctx.metadata.getD "correlation_id" .null with
  | .str s => if s.isEmpty then uuid else s
  | _ => uuid

def skippedEntry (correlationId : String) (m : Middleware τ) : TraceEntry :=
  { pluginId := m.name, kind := m.kind.getD "unknown", correlationId }

def attachTrace (result : JsonDict) (trace : List TraceEntry) (correlationId : String) : JsonDict :=
  let found : JsonDict := match result.get? "metadata" with
    | some (.obj fields) => fields.foldl (fun d f => d.set f.1 f.2) .empty
    | _ => .empty
  let found := found.set "pipeline_trace" (.arr (trace.map TraceEntry.toJson))
  result.set "metadata" (.obj (found.set "correlation_id" (.str correlationId)).entries)

variable (P : Pipeline τ) (now : World τ → ℚ) (uuid : String) (w : World τ)

/-- The chain run from fresh entries, in a world that holds the fresh context. -/
def run : CallOutcome × DispatchRun τ :=
  callChain P.terminal now 0 P.middlewares
    { world := w, trace := P.middlewares.map (skippedEntry (correlationId uuid w.ctx)) }

/-- What `dispatch` does with how the outermost call ended. `_attach_trace` stands outside its `try`: on a
value that is no dict it raises. -/
def answered (trace : List TraceEntry) (correlationId : String) : CallOutcome → CallOutcome
  | .returned response | .shortCircuit response => .returned (attachTrace response trace correlationId)
  | .raised _ => .returned (attachTrace (makeInternalError "Internal server error") trace correlationId)
  | .returnedOther typeName | .shortCircuitOther typeName =>
    .raised ("'" ++ typeName ++ "' object has no attribute 'get'")
  | .cancelled => .cancelled

def dispatch : CallOutcome × World τ :=
  let (outcome, r) := P.run now uuid w
  (answered r.trace (correlationId uuid w.ctx) outcome, r.world)

/-- How often the dispatch runs the `i`-th middleware, or the terminal after the last one. -/
def executions (i : Nat) : Nat := (P.run now uuid w).2.ran.count i

section
variable {P now uuid w}

theorem run_tracks : Tracks
    { world := w, trace := P.middlewares.map (skippedEntry (correlationId uuid w.ctx)) }
    (layers P.terminal 0 P.middlewares w) (answer P.terminal P.middlewares w) (P.run now uuid w) :=
  callChain_tracks 0 P.middlewares _

theorem executions_eq (i : Nat) :
    P.executions now uuid w i = (layers P.terminal 0 P.middlewares w).count i := by
  rw [executions, run_tracks.ran, List.nil_append]

/-- A layer runs, or one in front of it runs and does not call its `next`. -/
theorem executed_or_stopped (n : Nat) : 0 < P.executions now uuid w n ∨
    ∃ i < n, 0 < P.executions now uuid w i ∧ P.executions now uuid w (i + 1) = 0 := by
  induction n with
  | zero =>
    left
    rw [executions_eq, List.count_pos_iff]
    exact mem_layers_self
  | succ n ih =>
    rcases ih with hrun | ⟨i, hi, hstopped⟩
    · rcases Nat.eq_zero_or_pos (P.executions now uuid w (n + 1)) with hzero | hpos
      · exact .inr ⟨n, Nat.lt_succ_self n, hrun, hzero⟩
      · exact .inl hpos
    · exact .inr ⟨i, Nat.lt_succ_of_lt hi, hstopped⟩

theorem dispatch_fst : (P.dispatch now uuid w).1 =
    answered (P.run now uuid w).2.trace (correlationId uuid w.ctx) (answer P.terminal P.middlewares w).1 :=
  congrArg (answered _ _) run_tracks.outcome

end

/-- One dispatch runs every middleware and the terminal at most once exactly when no middleware that
runs calls its `next` a second time. -/
theorem dispatch_runs_once_iff :
    (∀ i ≤ P.middlewares.length, P.executions now uuid w i ≤ 1) ↔
      NoSecondNext P.terminal P.middlewares w := by
  rw [← layers_once_iff (i := 0)]
  refine forall_congr' fun i => ?_
  rw [executions_eq]
  refine ⟨fun h => ?_, fun h _ => h⟩
  by_cases hi : i ≤ P.middlewares.length
  · exact h hi
  · have hnone : i ∉ layers P.terminal 0 P.middlewares w := by
      intro hmem
      have := le_of_mem_layers hmem
      omega
    rw [List.count_eq_zero_of_not_mem hnone]
    omega

/-- Calls `next` once more when it raised. -/
def retrying : Middleware Nat where
  name := "retry"
  call := fun w => .next w fun w o =>
    match o with
    | .raised _ => .next w fun w o => .done w o
    | o => .done w o

/-- A store that writes, and whose connection then breaks. -/
def brokenWrite : Terminal Nat := fun w => (.raised "connection lost", { w with env := w.env + 1 })

theorem dispatch_writes_twice :
    let P : Pipeline Nat := ⟨[retrying], brokenWrite⟩
    let w : World Nat := ⟨⟨"send", .empty, none, "c", none, .empty, none⟩, 0⟩
    P.executions (fun _ => 0) "id" w 1 = 2 ∧ (P.dispatch (fun _ => 0) "id" w).2.env = 2 :=
  ⟨rfl, rfl⟩

end Pipeline

end Sox
