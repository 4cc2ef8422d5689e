import Sox.Lib.FifoSort
import Sox.PluginCycle

/-!
# Assembling a chain

`assemble` instantiates the registered middlewares of the requested order and sorts them by their
constraints. The queue of `_topological_sort` is first-in, first-out: the chain lists the middlewares
by the place of the last one that they have to follow, and those with the same place by name. So a
requested order that meets all constraints comes back only if it is listed that way itself
(`assemble_keeps_iff`).
-/

namespace Sox

open TopoSort

/-! ### The source -/

structure ChainConfigurationError where
  remaining : List String
deriving DecidableEq

def ChainConfigurationError.message (e : ChainConfigurationError) : String :=
  "Middleware ordering cycle or unsatisfiable constraint among: [" ++
    ", ".intercalate (e.remaining.map Json.reprStr) ++ "]"

/-- A fresh object; that it was built under a name tells it from the others. -/
structure Instance (τ : Type) where
  registered : String
  middleware : Middleware τ

structure Assembly (τ : Type) where
  outcome : Except ChainConfigurationError (List (Instance τ))
  warnings : List String

/-- The names of the manifests sorted by the constraints that they declare of each other. -/
def topologicalSort (manifests : List Manifest) : Except ChainConfigurationError (List String) :=
  let names := manifests.map (·.id)
  let result := fifo names (pluginEdges manifests)
  if result.length ≠ names.length then .error ⟨names.filter (· ∉ result)⟩
  else .ok result

namespace MiddlewareRegistry

variable {τ : Type}

/-- `self._factories[name]()` -/
def instantiate (R : MiddlewareRegistry (Middleware τ)) (name : String) : Option (Instance τ) :=
  (R.factories.get? name).map fun mw => ⟨name, mw⟩

/-- The instances of the registered names, in the requested order. -/
def requested (R : MiddlewareRegistry (Middleware τ)) (order : List String) : List (Instance τ) :=
  order.filterMap R.instantiate

def constraints (xs : List (Instance τ)) : List Manifest :=
  xs.map fun x => ⟨x.registered, x.middleware.mustRunBefore, x.middleware.mustRunAfter⟩

def assemble (R : MiddlewareRegistry (Middleware τ)) (order : List String) : Assembly τ where
  outcome := (topologicalSort (constraints (R.requested order))).map fun names => names.filterMap R.instantiate
  warnings := (order.filter fun name => (R.factories.get? name).isNone).map fun name =>
    "Middleware " ++ Json.reprStr name ++ " not registered; skipping in chain assembly."

end MiddlewareRegistry

/-! ### The sort -/

section
variable {manifests : List Manifest} {names : List String}

theorem topologicalSort_ok_iff : topologicalSort manifests = .ok names ↔
    names = fifo (manifests.map (·.id)) (pluginEdges manifests) ∧
      names.length = (manifests.map (·.id)).length := by
  unfold topologicalSort
  dsimp only
  split
  · rename_i hlen
    constructor
    · rintro ⟨⟩
    · rintro ⟨rfl, heq⟩
      exact absurd heq hlen
  · rename_i hlen
    rw [Except.ok.injEq]
    constructor
    · rintro rfl
      exact ⟨rfl, not_not.1 hlen⟩
    · rintro ⟨rfl, -⟩
      rfl

variable (hids : (manifests.map (·.id)).Nodup)
include hids

theorem fifo_manifests_saturated :
    Saturated (manifests.map (·.id)) (pluginEdges manifests)
      (fifo (manifests.map (·.id)) (pluginEdges manifests)) :=
  fifo_saturated hids fun _ he => (Pipeline.pluginEdges_nodes he).2

theorem topologicalSort_perm (h : topologicalSort manifests = .ok names) :
    names.Perm (manifests.map (·.id)) := by
  obtain ⟨rfl, hlen⟩ := topologicalSort_ok_iff.1 h
  have hsat := fifo_manifests_saturated hids
  exact (List.subperm_of_subset hsat.nodup hsat.nodes).perm_of_length_le hlen.ge

theorem topologicalSort_respects (h : topologicalSort manifests = .ok names) :
    Respects (pluginEdges manifests) names := by
  intro e he
  have hin := (topologicalSort_perm hids h).mem_iff.2 (Pipeline.pluginEdges_nodes he).2
  obtain ⟨rfl, -⟩ := topologicalSort_ok_iff.1 h
  exact (fifo_manifests_saturated hids).before e he hin

theorem topologicalSort_arranged (h : topologicalSort manifests = .ok names) :
    Arranged (pluginEdges manifests) names := by
  obtain ⟨rfl, -⟩ := topologicalSort_ok_iff.1 h
  exact fifo_arranged hids fun _ he => (Pipeline.pluginEdges_nodes he).2

theorem topologicalSort_error_iff : (∃ e, topologicalSort manifests = .error e) ↔
    ∃ a, OnCycle (MustPrecede manifests) a := by
  have hiff := (fifo_manifests_saturated hids).length_eq_iff hids fun _ he => Pipeline.pluginEdges_nodes he
  rw [edge_eq_mustPrecede] at hiff
  constructor
  · rintro ⟨e, he⟩
    by_contra hacyclic
    rw [topologicalSort_ok_iff.2 ⟨rfl, hiff.2 (not_exists.1 hacyclic)⟩] at he
    cases he
  · rintro ⟨a, ha⟩
    cases h : topologicalSort manifests with
    | error e => exact ⟨e, rfl⟩
    | ok names =>
      obtain ⟨rfl, hlen⟩ := topologicalSort_ok_iff.1 h
      exact absurd ha (hiff.1 hlen a)

/-- An order that meets the constraints is the sorted one exactly when it is arranged. -/
theorem topologicalSort_eq_iff (hresp : Respects (pluginEdges manifests) (manifests.map (·.id))) :
    topologicalSort manifests = .ok (manifests.map (·.id)) ↔
      Arranged (pluginEdges manifests) (manifests.map (·.id)) := by
  constructor
  · exact topologicalSort_arranged hids
  · intro harr
    cases h : topologicalSort manifests with
    | error e =>
      obtain ⟨a, ha⟩ := (topologicalSort_error_iff hids).1 ⟨e, h⟩
      have hacyclic : ¬OnCycle (Edge (pluginEdges manifests)) a := hresp.not_onCycle hids
      rw [edge_eq_mustPrecede] at hacyclic
      exact absurd ha hacyclic
    | ok names =>
      have hperm := topologicalSort_perm hids h
      rw [harr.unique (topologicalSort_arranged hids h) hperm.symm hids hresp (topologicalSort_respects hids h)]

end

/-! ### The chain -/

namespace MiddlewareRegistry

variable {τ : Type} {R : MiddlewareRegistry (Middleware τ)} {order names : List String}

/-- The requested order meets every constraint among the registered middlewares. -/
def Respected (R : MiddlewareRegistry (Middleware τ)) (order : List String) : Prop :=
  ∀ a b, MustPrecede (constraints (R.requested order)) a b →
    Before ((R.requested order).map (·.registered)) a b

/-- The requested order lists the registered middlewares by the place of the last one that they have
to follow, and those with the same place by name. -/
def ByLastPredecessor (R : MiddlewareRegistry (Middleware τ)) (order : List String) : Prop :=
  Arranged (pluginEdges (constraints (R.requested order))) ((R.requested order).map (·.registered))

/-- One instance of each registered name, in an order that meets the constraints; the requested one
if it does. -/
structure KeepsOrder (R : MiddlewareRegistry (Middleware τ)) (order : List String) : Prop where
  once : ∀ xs, (R.assemble order).outcome = .ok xs → xs.Perm (R.requested order)
  ordered : ∀ xs, (R.assemble order).outcome = .ok xs →
    ∀ a b, MustPrecede (constraints (R.requested order)) a b → Before (xs.map (·.registered)) a b
  raises : (∃ e, (R.assemble order).outcome = .error e) ↔
    ∃ a, OnCycle (MustPrecede (constraints (R.requested order))) a
  kept : R.Respected order → (R.assemble order).outcome = .ok (R.requested order)

theorem instantiate_registered {name : String} {x : Instance τ} (h : R.instantiate name = some x) :
    x.registered = name := by
  obtain ⟨mw, -, rfl⟩ := Option.map_eq_some_iff.1 h
  rfl

theorem constraints_ids (xs : List (Instance τ)) :
    (constraints xs).map (·.id) = xs.map (·.registered) := by
  simp [constraints]

theorem registered_sublist : ((R.requested order).map (·.registered)).Sublist order := by
  unfold requested
  induction order with
  | nil => exact .slnil
  | cons name order ih =>
    cases h : R.instantiate name with
    | none =>
      rw [List.filterMap_cons_none h]
      exact ih.cons name
    | some x =>
      rw [List.filterMap_cons_some h, List.map_cons, instantiate_registered h]
      exact ih.cons_cons name

/-- The instances are those built under their names. -/
theorem filterMap_registered :
    ((R.requested order).map (·.registered)).filterMap R.instantiate = R.requested order := by
  unfold requested
  induction order with
  | nil => rfl
  | cons name order ih =>
    cases h : R.instantiate name with
    | none => rw [List.filterMap_cons_none h, ih]
    | some x =>
      have hname := instantiate_registered h
      rw [List.filterMap_cons_some h, List.map_cons, List.filterMap_cons_some (hname.symm ▸ h), ih]

theorem map_registered (hall : ∀ name ∈ names, name ∈ (R.requested order).map (·.registered)) :
    (names.filterMap R.instantiate).map (·.registered) = names := by
  induction names with
  | nil => rfl
  | cons name names ih =>
    obtain ⟨x, hx, rfl⟩ := List.mem_map.1 (hall name List.mem_cons_self)
    obtain ⟨name', -, hbuilt⟩ := List.mem_filterMap.1 hx
    obtain rfl := instantiate_registered hbuilt
    rw [List.filterMap_cons_some hbuilt, List.map_cons, ih fun n hn => hall n (List.mem_cons_of_mem _ hn)]

theorem assemble_ok_iff {xs : List (Instance τ)} : (R.assemble order).outcome = .ok xs ↔
    ∃ names, topologicalSort (constraints (R.requested order)) = .ok names ∧
      names.filterMap R.instantiate = xs := by
  unfold assemble
  dsimp only
  cases topologicalSort (constraints (R.requested order)) <;> simp [Except.map]

theorem assemble_error_iff : (∃ e, (R.assemble order).outcome = .error e) ↔
    ∃ e, topologicalSort (constraints (R.requested order)) = .error e := by
  unfold assemble
  dsimp only
  cases topologicalSort (constraints (R.requested order)) <;> simp [Except.map]

theorem respected_iff : R.Respected order ↔
    Respects (pluginEdges (constraints (R.requested order))) ((R.requested order).map (·.registered)) := by
  constructor
  · rintro h ⟨a, b⟩ he
    exact h a b (mem_pluginEdges_iff.1 he)
  · intro h a b hab
    exact h _ (mem_pluginEdges_iff.2 hab)

/-- The requested order is kept exactly when it breaks a constraint or is listed as the queue lists. -/
theorem assemble_keeps_iff (R : MiddlewareRegistry (Middleware τ)) (order : List String)
    (horder : order.Nodup) : R.KeepsOrder order ↔ ¬R.Respected order ∨ R.ByLastPredecessor order := by
  have hnames := constraints_ids (R.requested order)
  have hids : ((constraints (R.requested order)).map (·.id)).Nodup := by
    rw [hnames]
    exact horder.sublist registered_sublist
  have hregistered {names : List String} (h : topologicalSort (constraints (R.requested order)) = .ok names) :
      (names.filterMap R.instantiate).map (·.registered) = names := by
    have hall : ∀ name ∈ names, name ∈ (R.requested order).map (·.registered) := by
      intro name hname
      rw [← hnames]
      exact (topologicalSort_perm hids h).mem_iff.1 hname
    exact map_registered hall
  have hkept (hresp : R.Respected order) :
      (R.assemble order).outcome = .ok (R.requested order) ↔ R.ByLastPredecessor order := by
    have hiff := topologicalSort_eq_iff hids (by rw [hnames]; exact respected_iff.1 hresp)
    rw [hnames] at hiff
    rw [ByLastPredecessor, ← hiff, assemble_ok_iff]
    constructor
    · rintro ⟨names, hsort, hbuilt⟩
      rw [hsort, ← hbuilt, hregistered hsort]
    · intro hsort
      exact ⟨_, hsort, filterMap_registered⟩
  constructor
  · intro h
    by_cases hresp : R.Respected order
    · exact .inr ((hkept hresp).1 (h.kept hresp))
    · exact .inl hresp
  · intro h
    refine ⟨?_, ?_, ?_, ?_⟩
    · intro xs hxs
      obtain ⟨names, hsort, rfl⟩ := assemble_ok_iff.1 hxs
      have hperm := (topologicalSort_perm hids hsort).filterMap R.instantiate
      rwa [hnames, filterMap_registered] at hperm
    · intro xs hxs a b hab
      obtain ⟨names, hsort, rfl⟩ := assemble_ok_iff.1 hxs
      rw [hregistered hsort]
      exact topologicalSort_respects hids hsort _ (mem_pluginEdges_iff.2 hab)
    · rw [assemble_error_iff, topologicalSort_error_iff hids]
    · intro hresp
      exact (hkept hresp).2 (h.resolve_left (not_not.2 hresp))

/-! ### The default chain -/

def defaultOrder : List String :=
  ["namespace_resolver", "auth", "rate_limit", "schema_validator", "idempotency", "store_dispatch", "audit_log"]

open Pipeline in
/-- `build_default_pipeline` with no optional link in the registry. -/
def defaultLinks (authCall : World τ → MwProg τ) (storeCall : Terminal τ) : MiddlewareRegistry (Middleware τ) where
  factories := .ofList [("auth", auth authCall), ("store_dispatch", storeDispatch storeCall)]

section
variable (authCall : World τ → MwProg τ) (storeCall : Terminal τ)

theorem constraints_defaultLinks : constraints ((defaultLinks authCall storeCall).requested defaultOrder) =
    [⟨"auth", ["rate_limit", "schema_validator", "idempotency", "store_dispatch"], ["namespace_resolver"]⟩,
      ⟨"store_dispatch", [], []⟩] := rfl

end

theorem assemble_keeps_defaultLinks :
    (defaultLinks (τ := Unit) (fun w => .next w .done) fun w => (.returned .empty, w)).KeepsOrder
      defaultOrder := by
  refine (assemble_keeps_iff _ defaultOrder (by decide)).2 (.inr ?_)
  rw [ByLastPredecessor, constraints_defaultLinks]
  have harranged : ["auth", "store_dispatch"].Pairwise
      (Sooner [("auth", "store_dispatch")] ["auth", "store_dispatch"]) := by decide
  exact harranged

/-- Two optional links of the default chain, without constraints of their own. -/
def optionalLinks : MiddlewareRegistry (Middleware Unit) where
  factories := .ofList [("auth", Pipeline.auth fun w => .next w .done),
    ("schema_validator", Pipeline.passing "schema_validator" [] []),
    ("idempotency", Pipeline.passing "idempotency" [] []),
    ("store_dispatch", Pipeline.storeDispatch fun w => (.returned .empty, w))]

theorem assemble_rearranges : optionalLinks.Respected defaultOrder ∧
    (optionalLinks.requested defaultOrder).map (·.registered) =
      ["auth", "schema_validator", "idempotency", "store_dispatch"] ∧
    (optionalLinks.assemble defaultOrder).outcome.map (List.map (·.registered)) =
      .ok ["auth", "idempotency", "schema_validator", "store_dispatch"] ∧
    ¬optionalLinks.KeepsOrder defaultOrder := by
  have hconstraints : constraints (optionalLinks.requested defaultOrder) =
      [⟨"auth", ["rate_limit", "schema_validator", "idempotency", "store_dispatch"], ["namespace_resolver"]⟩,
        ⟨"schema_validator", [], []⟩, ⟨"idempotency", [], []⟩, ⟨"store_dispatch", [], []⟩] := rfl
  have hnames : (optionalLinks.requested defaultOrder).map (·.registered) =
      ["auth", "schema_validator", "idempotency", "store_dispatch"] := rfl
  have hresp : optionalLinks.Respected defaultOrder := by
    rw [respected_iff, hconstraints, hnames]
    unfold Respects
    decide
  have hsort : (optionalLinks.assemble defaultOrder).outcome.map (List.map (·.registered)) =
      .ok ["auth", "idempotency", "schema_validator", "store_dispatch"] := by
    have hsort : topologicalSort (constraints (optionalLinks.requested defaultOrder)) =
        .ok ["auth", "idempotency", "schema_validator", "store_dispatch"] := by
      rw [hconstraints]
      decide +kernel
    unfold assemble
    rw [hsort]
    rfl
  refine ⟨hresp, hnames, hsort, fun h => ?_⟩
  rw [h.kept hresp, Except.map, hnames] at hsort
  simp at hsort

end MiddlewareRegistry

end Sox
