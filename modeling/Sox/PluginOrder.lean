import Sox.PluginLoader

/-!
# The least order of the plugins

`_toposort_plugins` returns the least of the orders that the manifests allow: each place goes to the
least id whose predecessors have all been placed. It raises exactly when they allow none, and what it
answers does not depend on the order in which the manifests were found.
-/

namespace Sox

open TopoSort

/-- A manifest of the two asks for `a` before `b`. -/
def MustPrecede (manifests : List Manifest) (a b : String) : Prop :=
  ∃ m ∈ manifests, ∃ n ∈ manifests, m.id = a ∧ n.id = b ∧ (b ∈ m.mustRunBefore ∨ a ∈ n.mustRunAfter)

def ValidOrder (manifests : List Manifest) (order : List String) : Prop :=
  order.Perm (manifests.map (·.id)) ∧ ∀ a b, MustPrecede manifests a b → Before order a b

/-- Not placed yet, with all its predecessors placed. -/
def Placeable (manifests : List Manifest) (placed : List String) (id : String) : Prop :=
  id ∈ manifests.map (·.id) ∧ id ∉ placed ∧ ∀ a, MustPrecede manifests a id → a ∈ placed

variable {manifests manifests' : List Manifest} {a b id : String} {order placed : List String}

/-- The edges are the constraints between loaded plugins. -/
theorem mem_pluginEdges_iff : (a, b) ∈ pluginEdges manifests ↔ MustPrecede manifests a b := by
  rw [Pipeline.mem_pluginEdges]
  constructor
  · rintro ⟨m, hm, ⟨rfl, hb, hids⟩ | ⟨rfl, ha, hids⟩⟩
    · obtain ⟨n, hn, rfl⟩ := List.mem_map.1 hids
      exact ⟨m, hm, n, hn, rfl, rfl, .inl hb⟩
    · obtain ⟨n, hn, rfl⟩ := List.mem_map.1 hids
      exact ⟨n, hn, m, hm, rfl, rfl, .inr ha⟩
  · rintro ⟨m, hm, n, hn, rfl, rfl, hb | ha⟩
    · exact ⟨m, hm, .inl ⟨rfl, hb, List.mem_map_of_mem hn⟩⟩
    · exact ⟨n, hn, .inr ⟨rfl, ha, List.mem_map_of_mem hm⟩⟩

theorem ready_iff_placeable :
    Ready (manifests.map (·.id)) (pluginEdges manifests) placed id ↔ Placeable manifests placed id := by
  refine and_congr_right fun _ => and_congr_right fun _ => ?_
  constructor
  · exact fun h a ha => h (a, id) (mem_pluginEdges_iff.2 ha) rfl
  · rintro h ⟨a, b⟩ he rfl
    exact h a (mem_pluginEdges_iff.1 he)

theorem MustPrecede.perm (hperm : manifests'.Perm manifests) :
    MustPrecede manifests' a b ↔ MustPrecede manifests a b := by
  simp only [MustPrecede, hperm.mem_iff]

theorem toposortPlugins_ok_iff : toposortPlugins manifests = .ok order ↔
    order = kahn (manifests.map (·.id)) (pluginEdges manifests) ∧
      order.length = (manifests.map (·.id)).length := by
  unfold toposortPlugins
  dsimp only
  split
  · rename_i hlen
    constructor
    · rintro ⟨⟩
    · rintro ⟨rfl, heq⟩
      exact absurd heq hlen
  · rename_i hlen
    rw [Except.ok.injEq]
    constructor
    · rintro rfl
      exact ⟨rfl, not_not.1 hlen⟩
    · rintro ⟨rfl, -⟩
      rfl

section
variable (hids : (manifests.map (·.id)).Nodup)
include hids

theorem toposortPlugins_valid (h : toposortPlugins manifests = .ok order) : ValidOrder manifests order := by
  have hperm := PluginLoader.toposortPlugins_perm hids h
  refine ⟨hperm, fun a b hab => ?_⟩
  obtain ⟨rfl, -⟩ := toposortPlugins_ok_iff.1 h
  have he := mem_pluginEdges_iff.2 hab
  refine kahn_before hids (fun e he => Pipeline.pluginEdges_nodes he) he ?_
  exact hperm.mem_iff.2 (Pipeline.pluginEdges_nodes he).2

theorem toposortPlugins_of_valid (h : ValidOrder manifests order) :
    ∃ result, toposortPlugins manifests = .ok result := by
  obtain ⟨hperm, hrespects⟩ := h
  have hkahn := kahn_perm hids (fun e he => Pipeline.pluginEdges_nodes he) (hperm.nodup_iff.2 hids)
    (fun x hx => hperm.mem_iff.2 hx) fun e he => hrespects e.1 e.2 (mem_pluginEdges_iff.1 he)
  exact ⟨_, toposortPlugins_ok_iff.2 ⟨rfl, hkahn.length_eq⟩⟩

theorem toposortPlugins_congr (hperm : manifests'.Perm manifests) :
    toposortPlugins manifests' = toposortPlugins manifests := by
  have hidsPerm := hperm.map (·.id)
  have hkahn : kahn (manifests'.map (·.id)) (pluginEdges manifests') =
      kahn (manifests.map (·.id)) (pluginEdges manifests) := by
    refine kahn_congr hids (fun e he => (Pipeline.pluginEdges_nodes he).2) hidsPerm ?_
    rintro ⟨a, b⟩
    rw [mem_pluginEdges_iff, mem_pluginEdges_iff, MustPrecede.perm hperm]
  have hcycle (result : List String) :
      ((manifests'.map (·.id)).filter (· ∉ result)).insertionSort (· ≤ ·) =
        ((manifests.map (·.id)).filter (· ∉ result)).insertionSort (· ≤ ·) := by
    refine List.Perm.eq_of_pairwise' (r := (· ≤ ·)) (List.pairwise_insertionSort _ _)
      (List.pairwise_insertionSort _ _) ?_
    refine (List.perm_insertionSort _ _).trans (.trans ?_ (List.perm_insertionSort _ _).symm)
    exact hidsPerm.filter _
  unfold toposortPlugins
  dsimp only
  rw [hkahn, hidsPerm.length_eq, hcycle]

end

/-- The ids of the manifests are the keys of a dictionary. -/
theorem toposort_least (hids : (manifests.map (·.id)).Nodup) :
    (∀ order, toposortPlugins manifests = .ok order → ValidOrder manifests order ∧
      (∀ u id v, order = u ++ id :: v →
        Placeable manifests u id ∧ ∀ id', Placeable manifests u id' → id ≤ id') ∧
      ∀ order', ValidOrder manifests order' → order = order' ∨ List.Lex (· < ·) order order') ∧
    ((∃ e, toposortPlugins manifests = .error e) ↔ ¬∃ order, ValidOrder manifests order) ∧
    ∀ manifests', List.Perm manifests' manifests → toposortPlugins manifests' = toposortPlugins manifests := by
  refine ⟨fun order h => ⟨toposortPlugins_valid hids h, ?_, ?_⟩, ?_,
    fun manifests' hperm => toposortPlugins_congr hids hperm⟩
  · obtain ⟨rfl, -⟩ := toposortPlugins_ok_iff.1 h
    intro u id v huv
    have hgreedy := kahn_greedy hids (fun e he => (Pipeline.pluginEdges_nodes he).2) u id v huv
    simpa only [ready_iff_placeable] using hgreedy
  · rintro order' ⟨hperm', hrespects⟩
    have hperm := PluginLoader.toposortPlugins_perm hids h
    obtain ⟨rfl, -⟩ := toposortPlugins_ok_iff.1 h
    refine (kahn_greedy hids fun e he => (Pipeline.pluginEdges_nodes he).2).least
      (hperm'.trans hperm.symm) (fun x hx => hperm'.mem_iff.1 hx) (hperm'.nodup_iff.2 hids) ?_
    exact fun e he _ => hrespects e.1 e.2 (mem_pluginEdges_iff.1 he)
  · constructor
    · rintro ⟨e, he⟩ ⟨order, hvalid⟩
      obtain ⟨result, hok⟩ := toposortPlugins_of_valid hids hvalid
      rw [hok] at he
      cases he
    · intro hnone
      cases hsort : toposortPlugins manifests with
      | error e => exact ⟨e, rfl⟩
      | ok order => exact absurd ⟨order, toposortPlugins_valid hids hsort⟩ hnone

/-- "a" waits for "c", asked for twice; "x" is not loaded. -/
def threePlugins : List Manifest := [⟨"a", [], ["c", "c", "x"]⟩, ⟨"c", [], []⟩, ⟨"b", [], []⟩]

theorem toposort_least_three : toposortPlugins threePlugins = .ok ["b", "c", "a"] ∧
    ∀ order, ValidOrder threePlugins order →
      ["b", "c", "a"] = order ∨ List.Lex (· < ·) ["b", "c", "a"] order := by
  have hids : (threePlugins.map (·.id)).Nodup := by decide
  have horder : toposortPlugins threePlugins = .ok ["b", "c", "a"] := by decide +kernel
  exact ⟨horder, ((toposort_least hids).1 _ horder).2.2⟩

end Sox
