import Sox.Lib.Cycles
import Sox.PluginOrder

/-!
# What a cycle error names

`PluginOrderingCycle` is to name the plugins of the cycles, in arrow notation. It names the plugins
that the sort could not place, in the order of their ids: also those that only wait for a plugin of a
cycle, and an arrow need not be a constraint. It is right exactly when no cycle keeps another plugin
waiting and a single cycle runs through its plugins in ascending order.
-/

namespace Sox

open TopoSort Relation

/-- Arrow notation repeats the first member to close. -/
def PluginOrderingCycle.closed (e : PluginOrderingCycle) : List String :=
  e.cycleMembers ++ e.cycleMembers.head?.toList

def PluginOrderingCycle.message (e : PluginOrderingCycle) : String :=
  let arrow := if e.cycleMembers = [] then "(empty cycle)" else " -> ".intercalate e.closed
  "plugin_ordering_cycle: " ++ arrow

def PluginOrderingCycle.toEnvelope (e : PluginOrderingCycle) : List (String × String) :=
  [("error_code", "plugin_ordering_cycle"), ("message", e.message), ("cycle", " -> ".intercalate e.closed)]

/-- The members are the plugins of the cycles; where there is one cycle the arrows follow it. -/
structure NamesCycle (manifests : List Manifest) (e : PluginOrderingCycle) : Prop where
  sound : ∀ a ∈ e.cycleMembers, OnCycle (MustPrecede manifests) a
  complete : ∀ a, OnCycle (MustPrecede manifests) a → a ∈ e.cycleMembers
  arrows : (∃! c, SimpleCycle (MustPrecede manifests) c) → e.closed.IsChain (MustPrecede manifests)

/-- No plugin outside the cycles waits for one of theirs. -/
def NoneWaiting (manifests : List Manifest) : Prop :=
  ∀ a b, OnCycle (MustPrecede manifests) a → MustPrecede manifests a b → OnCycle (MustPrecede manifests) b

/-- A cycle that is the only one runs through its plugins in ascending order. -/
def LoneAscends (manifests : List Manifest) : Prop :=
  ∀ c, SimpleCycle (MustPrecede manifests) c → (∀ c', SimpleCycle (MustPrecede manifests) c' → c' = c) →
    ∃ l : List String, l.Pairwise (· < ·) ∧ c = (l : Cycle String)

variable {manifests : List Manifest} {e : PluginOrderingCycle} {a b : String} {l : List String}

theorem edge_eq_mustPrecede : Edge (pluginEdges manifests) = MustPrecede manifests := by
  funext a b
  exact propext mem_pluginEdges_iff

theorem MustPrecede.loaded (h : MustPrecede manifests a b) :
    a ∈ manifests.map (·.id) ∧ b ∈ manifests.map (·.id) :=
  Pipeline.pluginEdges_nodes (mem_pluginEdges_iff.2 h)

theorem OnCycle.loaded (h : OnCycle (MustPrecede manifests) a) : a ∈ manifests.map (·.id) := by
  obtain ⟨b, hab, -⟩ := TransGen.head'_iff.1 h
  exact hab.loaded.1

theorem toposortPlugins_error_iff : toposortPlugins manifests = .error e ↔
    (kahn (manifests.map (·.id)) (pluginEdges manifests)).length ≠ (manifests.map (·.id)).length ∧
      e.cycleMembers = ((manifests.map (·.id)).filter
        (· ∉ kahn (manifests.map (·.id)) (pluginEdges manifests))).insertionSort (· ≤ ·) := by
  obtain ⟨members⟩ := e
  unfold toposortPlugins
  dsimp only
  split
  · rename_i hlen
    rw [Except.error.injEq, PluginOrderingCycle.mk.injEq]
    exact ⟨fun h => ⟨hlen, h.symm⟩, fun h => h.2.symm⟩
  · rename_i hlen
    constructor
    · rintro ⟨⟩
    · rintro ⟨hne, -⟩
      exact absurd hne hlen

section
variable (hids : (manifests.map (·.id)).Nodup)
include hids

/-- The plugins that the sort cannot place are those that a cycle leads to. -/
theorem not_placed_iff (ha : a ∈ manifests.map (·.id)) :
    a ∉ kahn (manifests.map (·.id)) (pluginEdges manifests) ↔
      ∃ z, OnCycle (MustPrecede manifests) z ∧ ReflTransGen (MustPrecede manifests) z a := by
  have hedges : ∀ e ∈ pluginEdges manifests, e.1 ∈ manifests.map (·.id) ∧ e.2 ∈ manifests.map (·.id) :=
    fun e he => Pipeline.pluginEdges_nodes he
  have hiff := (kahn_saturated hids fun e he => (hedges e he).2).not_mem_iff hedges ha
  rwa [edge_eq_mustPrecede] at hiff

theorem mem_cycleMembers_iff (h : toposortPlugins manifests = .error e) : a ∈ e.cycleMembers ↔
    ∃ z, OnCycle (MustPrecede manifests) z ∧ ReflTransGen (MustPrecede manifests) z a := by
  rw [(toposortPlugins_error_iff.1 h).2, List.mem_insertionSort, List.mem_filter, decide_eq_true_eq]
  constructor
  · rintro ⟨hloaded, hout⟩
    exact (not_placed_iff hids hloaded).1 hout
  · rintro ⟨z, hz, hza⟩
    have hloaded : a ∈ manifests.map (·.id) := by
      rcases ReflTransGen.cases_tail hza with rfl | ⟨b, -, hba⟩
      · exact OnCycle.loaded hz
      · exact hba.loaded.2
    exact ⟨hloaded, (not_placed_iff hids hloaded).2 ⟨z, hz, hza⟩⟩

theorem cycleMembers_ascending (h : toposortPlugins manifests = .error e) :
    e.cycleMembers.Pairwise (· < ·) := by
  have hmembers := (toposortPlugins_error_iff.1 h).2
  have hsorted : e.cycleMembers.Pairwise (· ≤ ·) := hmembers ▸ List.pairwise_insertionSort (· ≤ ·) _
  have hnodup : e.cycleMembers.Nodup :=
    hmembers ▸ (List.perm_insertionSort (· ≤ ·) _).nodup_iff.2 (hids.filter _)
  exact hsorted.imp₂ (fun _ _ hle hne => lt_of_le_of_ne hle hne) hnodup

theorem toposortPlugins_cyclic_iff : (∃ e, toposortPlugins manifests = .error e) ↔
    ∃ a, OnCycle (MustPrecede manifests) a := by
  have hedges : ∀ e ∈ pluginEdges manifests, e.1 ∈ manifests.map (·.id) ∧ e.2 ∈ manifests.map (·.id) :=
    fun e he => Pipeline.pluginEdges_nodes he
  have hiff := (kahn_saturated hids fun e he => (hedges e he).2).length_eq_iff hids hedges
  rw [edge_eq_mustPrecede] at hiff
  constructor
  · rintro ⟨e, he⟩
    by_contra hacyclic
    exact (toposortPlugins_error_iff.1 he).1 (hiff.2 (not_exists.1 hacyclic))
  · rintro ⟨a, ha⟩
    exact ⟨⟨_⟩, toposortPlugins_error_iff.2 ⟨fun hlen => hiff.1 hlen a ha, rfl⟩⟩

end

theorem sound_iff_noneWaiting
    (hmem : ∀ a, a ∈ e.cycleMembers ↔
      ∃ z, OnCycle (MustPrecede manifests) z ∧ ReflTransGen (MustPrecede manifests) z a) :
    (∀ a ∈ e.cycleMembers, OnCycle (MustPrecede manifests) a) ↔ NoneWaiting manifests := by
  constructor
  · intro hsound a b ha hab
    exact hsound b ((hmem b).2 ⟨a, ha, .single hab⟩)
  · intro hnone a ha
    obtain ⟨z, hz, hza⟩ := (hmem a).1 ha
    induction hza with
    | refl => exact hz
    | tail hzb hbc ih => exact hnone _ _ (ih ((hmem _).2 ⟨z, hz, hzb⟩)) hbc

theorem closed_cons {as : List String} (h : e.cycleMembers = a :: as) : e.closed = a :: (as ++ [a]) := by
  simp [PluginOrderingCycle.closed, h]

/-- With ascending members the arrows follow a lone cycle exactly when it ascends. -/
theorem arrows_iff_ascending (hmem : ∀ a, a ∈ e.cycleMembers ↔ OnCycle (MustPrecede manifests) a)
    (hsorted : e.cycleMembers.Pairwise (· < ·)) :
    ((∃! c, SimpleCycle (MustPrecede manifests) c) → e.closed.IsChain (MustPrecede manifests)) ↔
      LoneAscends manifests := by
  constructor
  · intro harrows c hc huniq
    refine ⟨e.cycleMembers, hsorted, ?_⟩
    have hchain := harrows ⟨c, hc, huniq⟩
    obtain ⟨a, ha⟩ := hc.exists_mem
    cases hmembers : e.cycleMembers with
    | nil =>
      have := (hmem a).2 (hc.onCycle ha)
      rw [hmembers] at this
      cases this
    | cons b bs =>
      rw [closed_cons hmembers] at hchain
      have hnodup : (b :: bs).Nodup := hmembers ▸ hsorted.imp ne_of_lt
      exact (huniq _ (simpleCycle_coe_cons.2 ⟨hnodup, hchain⟩)).symm
  · rintro hasc ⟨c, hc, huniq⟩
    obtain ⟨l, hl, rfl⟩ := hasc c hc huniq
    -- both list the plugins of the one cycle in ascending order
    have hsame : l = e.cycleMembers := by
      have hnodup : l.Nodup := hl.imp ne_of_lt
      have hperm : l.Perm e.cycleMembers := by
        refine (List.perm_ext_iff_of_nodup hnodup (hsorted.imp ne_of_lt)).2 fun x => ?_
        rw [hmem, onCycle_iff]
        constructor
        · intro hx
          exact ⟨l, hc, Cycle.mem_coe_iff.2 hx⟩
        · rintro ⟨c', hc', hx⟩
          rw [huniq c' hc'] at hx
          exact Cycle.mem_coe_iff.1 hx
      exact hperm.eq_of_pairwise' (r := (· ≤ ·)) (hl.imp le_of_lt) (hsorted.imp le_of_lt)
    cases hmembers : e.cycleMembers with
    | nil =>
      rw [hsame, hmembers] at hc
      exact absurd rfl hc.proper
    | cons b bs =>
      rw [hsame, hmembers] at hc
      rw [closed_cons hmembers]
      exact (simpleCycle_coe_cons.1 hc).2

/-- The error names the cycles exactly when none of them keeps another plugin waiting and a lone one
ascends. The ids of the manifests are the keys of a dictionary. -/
theorem cycle_named_iff (hids : (manifests.map (·.id)).Nodup)
    (hcycle : ∃ a, OnCycle (MustPrecede manifests) a) :
    (∃ e, toposortPlugins manifests = .error e ∧ NamesCycle manifests e) ↔
      NoneWaiting manifests ∧ LoneAscends manifests := by
  obtain ⟨e, he⟩ := (toposortPlugins_cyclic_iff hids).2 hcycle
  have hmem (b : String) := mem_cycleMembers_iff (a := b) hids he
  have hsorted := cycleMembers_ascending hids he
  have hcomplete (b : String) (hb : OnCycle (MustPrecede manifests) b) : b ∈ e.cycleMembers :=
    (hmem b).2 ⟨b, hb, .refl⟩
  constructor
  · rintro ⟨e', he', hsound, -, harrows⟩
    obtain rfl : e = e' := Except.error.inj (he.symm.trans he')
    refine ⟨(sound_iff_noneWaiting hmem).1 hsound, ?_⟩
    exact (arrows_iff_ascending (fun b => ⟨hsound b, hcomplete b⟩) hsorted).1 harrows
  · rintro ⟨hnone, hasc⟩
    have hsound := (sound_iff_noneWaiting hmem).2 hnone
    refine ⟨e, he, hsound, hcomplete, ?_⟩
    exact (arrows_iff_ascending (fun b => ⟨hsound b, hcomplete b⟩) hsorted).2 hasc

/-- "a" and "b" each ask to run before the other; "c" asks for nothing. -/
def rivals : List Manifest := [⟨"a", ["b"], []⟩, ⟨"b", ["a"], []⟩, ⟨"c", [], []⟩]

theorem cycle_named_rivals : ∃ e, toposortPlugins rivals = .error e ∧ NamesCycle rivals e := by
  have hedges : pluginEdges rivals = [("a", "b"), ("b", "a")] := by decide
  have hprec {x y : String} :
      MustPrecede rivals x y ↔ x = "a" ∧ y = "b" ∨ x = "b" ∧ y = "a" := by
    simp [← mem_pluginEdges_iff, hedges]
  have hab : MustPrecede rivals "a" "b" := hprec.2 (.inl ⟨rfl, rfl⟩)
  have hba : MustPrecede rivals "b" "a" := hprec.2 (.inr ⟨rfl, rfl⟩)
  have hcycle : OnCycle (MustPrecede rivals) "a" := .tail (.single hab) hba
  refine (cycle_named_iff (by decide) ⟨"a", hcycle⟩).2 ⟨fun x y _ hxy => ?_, fun c hc huniq => ?_⟩
  · rcases hprec.1 hxy with ⟨-, rfl⟩ | ⟨-, rfl⟩
    · exact .tail (.single hba) hab
    · exact hcycle
  · have hloop : SimpleCycle (MustPrecede rivals) (["a", "b"] : List String) :=
      simpleCycle_coe_cons.2 ⟨by simp, .cons_cons hab (.cons_cons hba (.singleton _))⟩
    exact ⟨["a", "b"], by decide, (huniq _ hloop).symm⟩

/-- "c" runs between "a" and "b", and "a" again after "b"; "d" only waits for "a". -/
def ring : List Manifest := [⟨"a", ["c"], ["b"]⟩, ⟨"b", [], ["c"]⟩, ⟨"c", [], []⟩, ⟨"d", [], ["a"]⟩]

theorem cycle_named_ring : toposortPlugins ring = .error ⟨["a", "b", "c", "d"]⟩ ∧
    OnCycle (MustPrecede ring) "a" ∧ ¬OnCycle (MustPrecede ring) "d" ∧
    (PluginOrderingCycle.mk ["a", "b", "c", "d"]).closed = ["a", "b", "c", "d", "a"] ∧
    ¬MustPrecede ring "a" "b" ∧ ¬NamesCycle ring ⟨["a", "b", "c", "d"]⟩ := by
  have hedges : pluginEdges ring = [("a", "c"), ("b", "a"), ("c", "b"), ("a", "d")] := by decide
  have hprec {x y : String} : MustPrecede ring x y ↔
      (x, y) ∈ [("a", "c"), ("b", "a"), ("c", "b"), ("a", "d")] := hedges ▸ mem_pluginEdges_iff.symm
  have hd : ¬OnCycle (MustPrecede ring) "d" := by
    intro h
    obtain ⟨y, hdy, -⟩ := TransGen.head'_iff.1 h
    simpa using hprec.1 hdy
  have hab : ¬MustPrecede ring "a" "b" := fun h => by simpa using hprec.1 h
  have hac : MustPrecede ring "a" "c" := hprec.2 (by simp)
  have hcb : MustPrecede ring "c" "b" := hprec.2 (by simp)
  have hba : MustPrecede ring "b" "a" := hprec.2 (by simp)
  refine ⟨by decide +kernel, .tail (.tail (.single hac) hcb) hba, hd, rfl, hab, fun h => ?_⟩
  exact hd (h.sound "d" (by simp))

end Sox
