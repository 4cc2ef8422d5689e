import Sox.Lib.ChainOrder
import Sox.PluginCycle

/-!
# Constraints that name a capability

Entries of `must_run_before` and `must_run_after` may name a capability; the host resolves it to the
plugins that provide it. `_toposort_plugins` builds its edges from plugin ids only. So a provider
stands where the ids put it: on the declared side exactly when, of the chains of constraints that lead
to the two plugins, the lexicographically greatest leads to the later one
(`capabilities_honoured_iff`).
-/

namespace Sox

open TopoSort

/-- The capabilities that step 6 counts as provided. -/
def PluginManifest.capabilities (m : PluginManifest) : List String :=
  (m.pluginCapabilities.flatMap fun cap => cap.map Prod.fst).filter
    fun k => k != "observe_only" && k != "may_short_circuit"

/-- One of two loaded plugins names a capability of the other, which asks for `p` before `q`. -/
def CapabilityPrecedes (loading : Dict String PluginManifest) (p q : String) : Prop :=
  ∃ m ∈ loading.values, ∃ n ∈ loading.values, ∃ capability, m.id ≠ n.id ∧
    capability ∉ loading.values.map (·.id) ∧ capability ∈ n.capabilities ∧
      (m.id = p ∧ n.id = q ∧ capability ∈ m.mustRunBefore ∨
        n.id = p ∧ m.id = q ∧ capability ∈ m.mustRunAfter)

theorem CapabilityPrecedes.loaded {loading : Dict String PluginManifest} {p q : String}
    (h : CapabilityPrecedes loading p q) :
    p ∈ (loading.values.map (·.toManifest)).map (·.id) ∧ q ∈ (loading.values.map (·.toManifest)).map (·.id) := by
  rw [List.map_map]
  obtain ⟨m, hm, n, hn, -, -, -, -, ⟨rfl, rfl, -⟩ | ⟨rfl, rfl, -⟩⟩ := h
  · exact ⟨List.mem_map.2 ⟨m, hm, rfl⟩, List.mem_map.2 ⟨n, hn, rfl⟩⟩
  · exact ⟨List.mem_map.2 ⟨n, hn, rfl⟩, List.mem_map.2 ⟨m, hm, rfl⟩⟩

namespace PluginLoader

variable {φ : Type} {host : PluginHost} {args : LoadArgs} {entryPoints : List (EntryPoint φ)}
  {R : MiddlewareRegistry φ} {loading : Dict String PluginManifest} {p q : String}

/-- The manifests that step 5 sorts. -/
structure Selects (host : PluginHost) (args : LoadArgs) (entryPoints : List (EntryPoint φ))
    (loading : Dict String PluginManifest) : Prop where
  discovery : args.noDiscovery = false
  selected : ∃ d, discover host args (byName entryPoints) = .ok d ∧ missing? args d.manifests = none ∧
    toLoad args d.manifests = loading

/-- Neither a requirement nor a factory stops the load. -/
def Reached (r : LoadResult φ) : Prop := r.outcome = .ok () ∨ ∃ members, r.outcome = .error (.orderingCycle members)

/-- A cycle error, or an order that has every provider on the declared side. -/
def HonoursCapabilities (loading : Dict String PluginManifest) (r : LoadResult φ) : Prop :=
  (∃ members, r.outcome = .error (.orderingCycle members)) ∨
    r.outcome = .ok () ∧ ∃ order, r.registry.resolvedOrder = some order ∧
      ∀ p q, CapabilityPrecedes loading p q → Before order p q

theorem Selects.ids (h : Selects host args entryPoints loading) :
    (loading.values.map (·.toManifest)).map (·.id) = loading.keys := by
  obtain ⟨-, d, hd, -, rfl⟩ := h
  obtain ⟨pairs, -, -, hm, -⟩ := discover_ok hd
  rw [Dict.values, Dict.keys, List.map_map, List.map_map]
  refine List.map_congr_left fun e he => ?_
  have hentry : e ∈ d.manifests.entries := (List.mem_filter.1 he).1
  rw [hm] at hentry
  obtain ⟨pair, -, rfl⟩ := List.mem_map.1 (Dict.mem_of_mem_ofList hentry)
  rfl

theorem registerAll_error {epMap : Dict String (EntryPoint φ)} {ids : List String} {factories : Dict String φ}
    {e : PluginError} (h : (registerAll epMap ids factories).outcome = .error e) (members : List String) :
    e ≠ .orderingCycle members := by
  induction ids generalizing factories with
  | nil => cases h
  | cons id ids ih =>
    unfold registerAll at h
    split at h
    · cases h
      simp
    · split at h
      · cases h
        simp
      · split at h
        · exact ih h
        · split at h
          · cases h
            simp
          · exact ih h

theorem plan_cycle {d : Discovered φ} {members : List String} (hd : discover host args (byName entryPoints) = .ok d)
    (hmissing : missing? args d.manifests = none)
    (h : plan host args entryPoints = .error (.orderingCycle members)) :
    toposortPlugins ((toLoad args d.manifests).values.map (·.toManifest)) = .error ⟨members⟩ := by
  unfold plan at h
  split at h
  · cases h
  rw [hd] at h
  simp only [bind, Except.bind, hmissing] at h
  split at h
  · rename_i cycle hcycle
    cases h
    exact hcycle
  · split at h
    · cases h
    · cases h

/-- A load that gets through step 5 ends with what the sort answers. -/
theorem loadPlugins_sorted (hsel : Selects host args entryPoints loading)
    (hreached : Reached (loadPlugins host args entryPoints R)) :
    (∃ e, toposortPlugins (loading.values.map (·.toManifest)) = .error e ∧
      (loadPlugins host args entryPoints R).outcome = .error (.orderingCycle e.cycleMembers)) ∨
    ∃ order, toposortPlugins (loading.values.map (·.toManifest)) = .ok order ∧
      (loadPlugins host args entryPoints R).outcome = .ok () ∧
      (loadPlugins host args entryPoints R).registry.resolvedOrder = some order := by
  obtain ⟨hdiscovery, d, hd, hmissing, rfl⟩ := hsel
  rcases hreached with hok | ⟨members, hcycle⟩
  · obtain ⟨p, hplan, -, -, hregistry⟩ := loadPlugins_ok hdiscovery (by rw [hok]; rfl)
    obtain ⟨d', hd', -, hsort, -⟩ := plan_ok hplan
    obtain rfl : d = d' := Except.ok.inj (hd.symm.trans hd')
    exact .inr ⟨p.order, hsort, hok, by rw [hregistry]⟩
  · -- no factory raises a cycle error, so the plan has failed
    have hplan : plan host args entryPoints = .error (.orderingCycle members) := by
      unfold loadPlugins at hcycle
      rw [hdiscovery] at hcycle
      simp only [Bool.false_eq_true, if_false] at hcycle
      split at hcycle
      · rename_i e he
        rw [he]
        exact congrArg _ (Except.error.inj hcycle)
      · split at hcycle
        · rename_i e he
          exact absurd (Except.error.inj hcycle) (registerAll_error he members)
        · cases hcycle
    exact .inl ⟨⟨members⟩, plan_cycle hd hmissing hplan, hcycle⟩

/-- The constraints that name a capability are honoured exactly when the ids alone have a cycle or put every
provider on its side. -/
theorem capabilities_honoured_iff (host : PluginHost) (args : LoadArgs) (entryPoints : List (EntryPoint φ))
    (R : MiddlewareRegistry φ) (loading : Dict String PluginManifest)
    (hsel : Selects host args entryPoints loading)
    (hreached : Reached (loadPlugins host args entryPoints R)) :
    HonoursCapabilities loading (loadPlugins host args entryPoints R) ↔
      (∃ a, OnCycle (MustPrecede (loading.values.map (·.toManifest))) a) ∨
        ∀ p q, CapabilityPrecedes loading p q →
          Outranks (MustPrecede (loading.values.map (·.toManifest))) q p := by
  have hids : ((loading.values.map (·.toManifest)).map (·.id)).Nodup := by
    rw [hsel.ids]
    exact loading.nodup
  rcases loadPlugins_sorted hsel hreached with ⟨e, hsort, hout⟩ | ⟨order, hsort, hout, horder⟩
  · -- the sort finds a cycle
    exact iff_of_true (.inl ⟨_, hout⟩) (.inl ((toposortPlugins_cyclic_iff hids).1 ⟨e, hsort⟩))
  · have hacyclic : ¬∃ a, OnCycle (MustPrecede (loading.values.map (·.toManifest))) a := by
      rw [← toposortPlugins_cyclic_iff hids, hsort]
      rintro ⟨e, ⟨⟩⟩
    rw [or_iff_right hacyclic]
    have hrank {p q : String} (h : CapabilityPrecedes loading p q) : Before order p q ↔
        Outranks (MustPrecede (loading.values.map (·.toManifest))) q p := by
      have hperm := toposortPlugins_perm hids hsort
      obtain ⟨hp, hq⟩ := h.loaded
      obtain ⟨rfl, -⟩ := toposortPlugins_ok_iff.1 hsort
      have hedges : ∀ e ∈ pluginEdges (loading.values.map (·.toManifest)),
          e.2 ∈ (loading.values.map (·.toManifest)).map (·.id) := fun e he => (Pipeline.pluginEdges_nodes he).2
      rw [← edge_eq_mustPrecede]
      exact before_iff_outranks (kahn_greedy hids hedges) (kahn_saturated hids hedges)
        (hperm.mem_iff.2 hp) (hperm.mem_iff.2 hq)
    constructor
    · rintro (⟨members, hcycle⟩ | ⟨-, order', horder', hall⟩)
      · rw [hout] at hcycle
        cases hcycle
      · rw [horder] at horder'
        cases horder'
        exact fun p q h => (hrank h).1 (hall p q h)
    · intro hall
      exact .inr ⟨hout, order, horder, fun p q h => (hrank h).2 (hall p q h)⟩

/-- A plugin of the given capabilities that asks to run before others. -/
def pluginOf (id : String) (capabilities mustRunBefore : List String) : PluginManifest :=
  { id, version := "1.0.0", kind := "transformer", protocolVersion := ">=1.0,<2.0"
    pluginCapabilities := capabilities.map fun c => [(c, .str ">=1.0")], mustRunBefore }

def pluginDocument (m : PluginManifest) : Json :=
  .obj [("metadata", .obj [("id", .str m.id), ("version", .str m.version)]),
    ("spec", .obj [("plugin_kind", .str m.kind), ("protocol_version", .str m.protocolVersion),
      ("plugin_capabilities", .arr (m.pluginCapabilities.map .obj)),
      ("must_run_before", .arr (m.mustRunBefore.map .str)), ("signatures", .arr [])])]

def installed (a b : PluginManifest) : List (EntryPoint String) :=
  [.plain "io.sox.a" soxA_named (.ok (pluginDocument a)) (.ok "a"),
    .plain "io.sox.b" soxB_named (.ok (pluginDocument b)) (.ok "b")]

def earlyUser : PluginManifest := pluginOf "io.sox.a" [] ["schema_validator"]
def lateProvider : PluginManifest := pluginOf "io.sox.b" ["schema_validator"] []
def earlyProvider : PluginManifest := pluginOf "io.sox.a" ["schema_validator"] []
def lateUser : PluginManifest := pluginOf "io.sox.b" [] ["schema_validator"]

theorem loadPlugins_ok_of_isOk {r : LoadResult φ} (h : r.outcome.isOk = true) : r.outcome = .ok () := by
  cases hout : r.outcome with
  | error e =>
    rw [hout] at h
    cases h
  | ok u => rfl

/-- Where the ids ask for nothing, a plugin stands before those with a greater id. -/
theorem outranks_of_lt {r : String → String → Prop} (hr : ∀ a b, ¬r a b) (h : p < q) : Outranks r q p := by
  refine ⟨[q], ⟨⟨[], rfl⟩, .singleton q⟩, ?_⟩
  rintro w ⟨⟨u, rfl⟩, hchain⟩
  cases u using List.reverseRecOn with
  | nil => exact List.Lex.rel h
  | append_singleton u z =>
    rw [List.append_assoc, List.singleton_append, List.isChain_split] at hchain
    obtain ⟨b, hzb, -⟩ := Relation.TransGen.head'_iff.1 (List.isChain_pair.1 hchain.2)
    exact absurd hzb (hr z b)

theorem capabilities_honoured_by_id : HonoursCapabilities
    (.ofList [("io.sox.a", earlyUser), ("io.sox.b", lateProvider)])
    (loadPlugins conformingHost {} (installed earlyUser lateProvider) {}) := by
  have hsel : Selects conformingHost {} (installed earlyUser lateProvider)
      (.ofList [("io.sox.a", earlyUser), ("io.sox.b", lateProvider)]) := ⟨rfl, _, rfl, by decide, rfl⟩
  have hok := loadPlugins_ok_of_isOk (r := loadPlugins conformingHost {} (installed earlyUser lateProvider) {})
    (by decide +kernel)
  refine (capabilities_honoured_iff _ _ _ _ _ hsel (.inl hok)).2 (.inr ?_)
  rintro p q ⟨m, hm, n, hn, capability, hne, -, hcap, hside⟩
  have hedges : pluginEdges [earlyUser.toManifest, lateProvider.toManifest] = [] := by decide
  have hnone (a b : String) : ¬MustPrecede [earlyUser.toManifest, lateProvider.toManifest] a b := by
    rw [← mem_pluginEdges_iff, hedges]
    exact List.not_mem_nil
  have hpq : p = "io.sox.a" ∧ q = "io.sox.b" := by
    rcases List.mem_pair.1 hm with rfl | rfl <;> rcases List.mem_pair.1 hn with rfl | rfl
    · exact absurd rfl hne
    · rcases hside with ⟨rfl, rfl, -⟩ | ⟨-, -, h⟩
      · exact ⟨rfl, rfl⟩
      · cases h
    · cases hcap
    · exact absurd rfl hne
  rw [hpq.1, hpq.2]
  exact outranks_of_lt hnone (by decide)

theorem capabilities_ignored :
    CapabilityPrecedes (.ofList [("io.sox.a", earlyProvider), ("io.sox.b", lateUser)]) "io.sox.b" "io.sox.a" ∧
    (loadPlugins conformingHost {} (installed earlyProvider lateUser) {}).registry.resolvedOrder =
      some ["io.sox.a", "io.sox.b"] ∧
    ¬∀ (host : PluginHost) (args : LoadArgs) (entryPoints : List (EntryPoint String))
      (R : MiddlewareRegistry String) (loading : Dict String PluginManifest),
      Selects host args entryPoints loading → Reached (loadPlugins host args entryPoints R) →
        HonoursCapabilities loading (loadPlugins host args entryPoints R) := by
  have hprec : CapabilityPrecedes (.ofList [("io.sox.a", earlyProvider), ("io.sox.b", lateUser)])
      "io.sox.b" "io.sox.a" :=
    ⟨lateUser, List.mem_pair.2 (.inr rfl), earlyProvider, List.mem_pair.2 (.inl rfl), "schema_validator",
      by decide, by decide, by decide, by decide⟩
  have horder : (loadPlugins conformingHost {} (installed earlyProvider lateUser) {}).registry.resolvedOrder =
      some ["io.sox.a", "io.sox.b"] := by decide +kernel
  have hok := loadPlugins_ok_of_isOk (r := loadPlugins conformingHost {} (installed earlyProvider lateUser) {})
    (by decide +kernel)
  refine ⟨hprec, horder, fun hall => ?_⟩
  rcases hall _ _ _ _ _ ⟨rfl, _, rfl, by decide, rfl⟩ (.inl hok) with ⟨members, hcycle⟩ | ⟨-, order, horder', hside⟩
  · rw [hok] at hcycle
    cases hcycle
  · rw [horder] at horder'
    obtain rfl := Option.some.inj horder'
    exact absurd (hside _ _ hprec) (by decide)

end PluginLoader

end Sox
