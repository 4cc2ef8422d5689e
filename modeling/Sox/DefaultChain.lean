import Mathlib.Data.String.Basic
import Sox.Lib.TopoSort
import Sox.Pipeline

/-!
# Plugins in the default chain

The registry orders the loaded plugins by Kahn's sort of what their manifests say of each other;
`extend_pipeline_with_registry` then puts one after the other into the default chain. A plugin goes
as far to the front as the middlewares before it allow, but not behind the first one that its own
`must_run_before` names; one that names nobody in the chain goes last. What the others declare about
the plugin moves it to the back only, so a plugin that goes last may break their constraints
(`extension_iff`), and behind `store_dispatch` it never runs (`plugins_take_part_iff`).
-/

namespace Sox

open TopoSort

/-- What the ordering of the plugins reads of a manifest. -/
structure Manifest where
  id : String
  mustRunBefore : List String := []
  mustRunAfter : List String := []

structure PluginOrderingCycle where
  cycleMembers : List String
deriving DecidableEq

def pluginEdges (manifests : List Manifest) : List (String × String) :=
  let ids := manifests.map (·.id)
  manifests.flatMap fun m =>
    (m.mustRunBefore.filter (· ∈ ids)).map (fun target => (m.id, target)) ++
      (m.mustRunAfter.filter (· ∈ ids)).map (fun source => (source, m.id))

def toposortPlugins (manifests : List Manifest) : Except PluginOrderingCycle (List String) :=
  let ids := manifests.map (·.id)
  let result := kahn ids (pluginEdges manifests)
  if result.length ≠ ids.length then
    .error ⟨(ids.filter (· ∉ result)).insertionSort (· ≤ ·)⟩
  else .ok result

structure Registry (τ : Type) where
  /-- `_loaded_manifests`, a dictionary by id. -/
  manifests : List Manifest
  distinct : (manifests.map (·.id)).Nodup
  /-- What the factory registered under the id builds. -/
  factory : String → Middleware τ

namespace Registry

def plugins {τ : Type} (R : Registry τ) : List (Middleware τ) := R.manifests.map fun m => R.factory m.id

/-- The middleware of every plugin has the plugin's id for its name and declares what the manifest
declares. -/
def DeclaredAlike {τ : Type} (R : Registry τ) : Prop :=
  ∀ m ∈ R.manifests, (R.factory m.id).name = m.id ∧
    (R.factory m.id).mustRunBefore = m.mustRunBefore ∧ (R.factory m.id).mustRunAfter = m.mustRunAfter

def resolvedOrder {τ : Type} (R : Registry τ) : Except PluginOrderingCycle (List String) :=
  toposortPlugins R.manifests

end Registry

namespace Pipeline

variable {τ : Type}

def order (P : Pipeline τ) : List String := P.middlewares.map (·.name)

/-- The index of the first middleware that the plugin names in its `must_run_before`. -/
def latestOk (p : Middleware τ) (chain : List (Middleware τ)) : Option Nat :=
  chain.findIdx? fun x => x.name ∈ p.mustRunBefore

/-- Past the last middleware, counted from `i`, that has to run before the plugin. -/
def earliestOk (p : Middleware τ) : Nat → Nat → List (Middleware τ) → Nat
  | _, earliest, [] => earliest
  | i, earliest, x :: rest =>
    let earliest := if x.name ∈ p.mustRunAfter then i + 1 else earliest
    let earliest := if p.name ∈ x.mustRunBefore then max earliest (i + 1) else earliest
    earliestOk p (i + 1) earliest rest

def insertPlugin (chain : List (Middleware τ)) (p : Middleware τ) : List (Middleware τ) :=
  match latestOk p chain with
  | some latest => chain.insertIdx (min (earliestOk p 0 0 chain) latest) p
  | none => chain ++ [p]

def extendPipelineWithRegistry (base : Pipeline τ) (R : Registry τ) (terminal : Terminal τ) :
    Except PluginOrderingCycle (Pipeline τ) :=
  R.resolvedOrder.map fun ids => ⟨(ids.map R.factory).foldl insertPlugin base.middlewares, terminal⟩

/-- `auth` as the chain sees it, around its call. -/
def auth (call : World τ → MwProg τ) : Middleware τ where
  name := "auth"
  kind := some "auth"
  mustRunBefore := ["rate_limit", "schema_validator", "idempotency", "store_dispatch"]
  mustRunAfter := ["namespace_resolver"]
  call := call

/-- `store_dispatch`, which ignores its `next`. -/
def storeDispatch (call : Terminal τ) : Middleware τ where
  name := "store_dispatch"
  kind := some "store"
  call := fun w => .done (call w).2 (call w).1

/-- The chain of `build_default_pipeline` where no optional link is registered; its terminal is
`store_dispatch` once more. -/
def buildDefaultPipeline (authCall : World τ → MwProg τ) (storeCall : Terminal τ) : Pipeline τ :=
  ⟨[auth authCall, storeDispatch storeCall], storeCall⟩

/-- One of the two declares that `x` runs before `y`. -/
def Precedes (x y : Middleware τ) : Prop := y.name ∈ x.mustRunBefore ∨ x.name ∈ y.mustRunAfter

instance (x y : Middleware τ) : Decidable (Precedes x y) := inferInstanceAs (Decidable (_ ∨ _))

/-! ### One insertion -/

section
variable {p x : Middleware τ} {chain u v : List (Middleware τ)}

theorem latestOk_none (h : latestOk p chain = none) : ∀ x ∈ chain, x.name ∉ p.mustRunBefore := by
  intro x hx
  have := List.findIdx?_eq_none_iff.1 h x hx
  simpa using this

theorem latestOk_some {latest : Nat} (h : latestOk p chain = some latest) :
    ∃ u d v, chain = u ++ d :: v ∧ u.length = latest ∧ d.name ∈ p.mustRunBefore ∧
      ∀ x ∈ u, x.name ∉ p.mustRunBefore := by
  induction chain generalizing latest with
  | nil => simp [latestOk] at h
  | cons x rest ih =>
    rw [latestOk, List.findIdx?_cons] at h
    by_cases hx : x.name ∈ p.mustRunBefore
    · simp only [hx, decide_true, ↓reduceIte, Option.some.injEq] at h
      exact ⟨[], x, rest, rfl, h, hx, by simp⟩
    · simp only [hx, decide_false, Bool.false_eq_true, ↓reduceIte, Option.map_eq_some_iff] at h
      obtain ⟨latest, hrest, rfl⟩ := h
      obtain ⟨u, d, v, rfl, rfl, hd, hu⟩ := ih hrest
      refine ⟨x :: u, d, v, rfl, rfl, hd, ?_⟩
      intro y hy
      rcases List.mem_cons.1 hy with rfl | hy
      · exact hx
      · exact hu y hy

/-- The chain splits past the last middleware that precedes the plugin. -/
theorem earliestOk_split (p : Middleware τ) (i e : Nat) (chain : List (Middleware τ)) (h : e ≤ i) :
    ∃ u v, chain = u ++ v ∧ (∀ x ∈ v, ¬ Precedes x p) ∧
      ((u = [] ∧ earliestOk p i e chain = e) ∨
        ∃ y, u.getLast? = some y ∧ Precedes y p ∧ earliestOk p i e chain = i + u.length) := by
  induction chain generalizing i e with
  | nil => exact ⟨[], [], rfl, by simp, .inl ⟨rfl, rfl⟩⟩
  | cons x rest ih =>
    rw [earliestOk]
    by_cases hx : Precedes x p
    · have hstep : (if p.name ∈ x.mustRunBefore then
          max (if x.name ∈ p.mustRunAfter then i + 1 else e) (i + 1)
          else if x.name ∈ p.mustRunAfter then i + 1 else e) = i + 1 := by
        rcases hx with hx | hx <;> simp only [hx, ↓reduceIte] <;> split <;> omega
      simp only [hstep]
      obtain ⟨u, v, rfl, hv, hu⟩ := ih (i + 1) (i + 1) (le_refl _)
      refine ⟨x :: u, v, rfl, hv, .inr ?_⟩
      rcases hu with ⟨rfl, hu⟩ | ⟨y, hlast, hy, hu⟩
      · exact ⟨x, rfl, hx, by simpa using hu⟩
      · refine ⟨y, by simp [List.getLast?_cons, hlast], hy, ?_⟩
        rw [hu, List.length_cons]
        omega
    · have hx' := hx
      rw [Precedes, not_or] at hx'
      simp only [hx'.1, hx'.2, ↓reduceIte]
      obtain ⟨u, v, rfl, hv, hu⟩ := ih (i + 1) e (by omega)
      rcases hu with ⟨rfl, hu⟩ | ⟨y, hlast, hy, hu⟩
      · refine ⟨[], x :: v, rfl, ?_, .inl ⟨rfl, hu⟩⟩
        intro z hz
        rcases List.mem_cons.1 hz with rfl | hz
        · exact hx
        · exact hv z hz
      · refine ⟨x :: u, v, rfl, hv, .inr ⟨y, by simp [List.getLast?_cons, hlast], hy, ?_⟩⟩
        rw [hu, List.length_cons]
        omega

theorem insertIdx_length (u v : List (Middleware τ)) (p : Middleware τ) :
    (u ++ v).insertIdx u.length p = u ++ p :: v := by
  induction u with
  | nil => rfl
  | cons x u ih => simp [ih]

/-- Where the plugin goes: to the end, right behind the last one that precedes it, or, when that one
stands behind the first that it names, right before the latter. -/
theorem insertPlugin_cases (p : Middleware τ) (chain : List (Middleware τ)) :
    ∃ u v, chain = u ++ v ∧ insertPlugin chain p = u ++ p :: v ∧
      (∀ x ∈ u, x.name ∉ p.mustRunBefore) ∧
      (v = [] ∨
        ((∃ x ∈ v, x.name ∈ p.mustRunBefore) ∧ (∀ x ∈ v, ¬ Precedes x p) ∧
          (u = [] ∨ ∃ y, u.getLast? = some y ∧ Precedes y p)) ∨
        ∃ d b, v = d :: b ∧ d.name ∈ p.mustRunBefore ∧ ∃ x ∈ v, Precedes x p) := by
  unfold insertPlugin
  cases hl : latestOk p chain with
  | none => exact ⟨chain, [], by simp, by simp, latestOk_none hl, .inl rfl⟩
  | some latest =>
    obtain ⟨a, d, b, hchain, rfl, hd, ha⟩ := latestOk_some hl
    obtain ⟨u, v, huv, hv, hu⟩ := earliestOk_split p 0 0 chain (le_refl 0)
    have hearliest : earliestOk p 0 0 chain = u.length := by
      rcases hu with ⟨rfl, hu⟩ | ⟨y, -, -, hu⟩
      · exact hu
      · omega
    have hlast : u = [] ∨ ∃ y, u.getLast? = some y ∧ Precedes y p := by
      rcases hu with ⟨hu, -⟩ | ⟨y, hlast, hy, -⟩
      · exact .inl hu
      · exact .inr ⟨y, hlast, hy⟩
    simp only [hearliest]
    by_cases hle : u.length ≤ a.length
    · rw [min_eq_left hle, huv, insertIdx_length]
      -- the split of the earliest place lies before the named middleware
      obtain ⟨c, rfl, rfl⟩ : ∃ c, a = u ++ c ∧ v = c ++ d :: b := by
        rcases List.append_eq_append_iff.1 (huv.symm.trans hchain) with ⟨c, hc⟩ | ⟨c, hc, hdb⟩
        · exact ⟨c, hc⟩
        · have hnil : c = [] := by
            rw [hc, List.length_append] at hle
            exact List.length_eq_zero_iff.1 (by omega)
          subst hnil
          exact ⟨[], by simpa using hc.symm, by simpa using hdb.symm⟩
      exact ⟨u, c ++ d :: b, rfl, rfl, fun x hx => ha x (List.mem_append_left _ hx),
        .inr (.inl ⟨⟨d, by simp, hd⟩, hv, hlast⟩)⟩
    · rw [min_eq_right (by omega), hchain, insertIdx_length]
      refine ⟨a, d :: b, rfl, rfl, ha, .inr (.inr ⟨d, b, rfl, hd, ?_⟩)⟩
      obtain ⟨c, rfl, hdb⟩ : ∃ c, u = a ++ c ∧ d :: b = c ++ v := by
        rcases List.append_eq_append_iff.1 (hchain.symm.trans huv) with hc | ⟨c, hc, -⟩
        · exact hc
        · simp only [hc, List.length_append] at hle
          omega
      rcases hlast with hnil | ⟨y, hlast, hy⟩
      · simp [hnil] at hle
      · refine ⟨y, ?_, hy⟩
        have hc : c ≠ [] := by
          rintro rfl
          simp at hle
        rw [List.getLast?_append_of_ne_nil a hc] at hlast
        rw [hdb]
        exact List.mem_append_left _ (List.mem_of_getLast? hlast)

/-- A plugin that a middleware up to `sd` holds back, or one that names a later one and that nobody
from `sd` on precedes. -/
def HeldBefore (front : List (Middleware τ)) (sd : Middleware τ) (post : List (Middleware τ))
    (p : Middleware τ) : Prop :=
  (∃ x ∈ front ++ [sd], x.name ∈ p.mustRunBefore) ∨
    (∃ x ∈ post, x.name ∈ p.mustRunBefore) ∧ ∀ x ∈ sd :: post, ¬ Precedes x p

theorem insertPlugin_around (front : List (Middleware τ)) (sd : Middleware τ)
    (post : List (Middleware τ)) (p : Middleware τ) :
    (HeldBefore front sd post p ∧ ∃ a b, front = a ++ b ∧
      insertPlugin (front ++ sd :: post) p = (a ++ p :: b) ++ sd :: post) ∨
    (¬ HeldBefore front sd post p ∧ ∃ a b, post = a ++ b ∧
      insertPlugin (front ++ sd :: post) p = front ++ sd :: (a ++ p :: b)) := by
  obtain ⟨u, v, huv, hins, hu, hcases⟩ := insertPlugin_cases p (front ++ sd :: post)
  rw [hins]
  have hsplit : (∃ c, front = u ++ c ∧ v = c ++ sd :: post) ∨
      ∃ c, u = front ++ sd :: c ∧ post = c ++ v := by
    rcases List.append_eq_append_iff.1 huv with ⟨c, hc, hv⟩ | ⟨c, hc, hv⟩
    · cases c with
      | nil => exact .inl ⟨[], by simpa using hc.symm, by simpa using hv.symm⟩
      | cons z c =>
        rw [List.cons_append, List.cons.injEq] at hv
        obtain ⟨rfl, hv⟩ := hv
        exact .inr ⟨c, hc, hv⟩
    · exact .inl ⟨c, hc, hv⟩
  rcases hsplit with ⟨c, rfl, rfl⟩ | ⟨c, rfl, rfl⟩
  · refine .inl ⟨?_, u, c, rfl, by simp⟩
    rcases hcases with hnil | ⟨⟨x, hx, hxp⟩, hv, -⟩ | ⟨d, b, hd, hdp, -⟩
    · simp at hnil
    · rw [List.mem_append, List.mem_cons] at hx
      rcases hx with hx | rfl | hx
      · exact .inl ⟨x, by simp [hx], hxp⟩
      · exact .inl ⟨x, by simp, hxp⟩
      · exact .inr ⟨⟨x, hx, hxp⟩, fun y hy => hv y (List.mem_append_right _ hy)⟩
    · refine .inl ⟨d, ?_, hdp⟩
      cases c with
      | nil =>
        rw [List.nil_append, List.cons.injEq] at hd
        simp [hd.1]
      | cons z c =>
        rw [List.cons_append, List.cons.injEq] at hd
        simp [hd.1]
  · refine .inr ⟨?_, c, v, rfl, by simp⟩
    rintro (⟨x, hx, hxp⟩ | ⟨⟨x, hx, hxp⟩, hnone⟩)
    · refine hu x ?_ hxp
      rw [List.mem_append, List.mem_singleton] at hx
      rcases hx with hx | rfl <;> simp [*]
    · rcases hcases with rfl | ⟨-, -, hlast⟩ | ⟨d, b, rfl, -, y, hy, hyp⟩
      · refine hu x ?_ hxp
        rw [List.append_nil] at hx
        simp [hx]
      · rcases hlast with hnil | ⟨y, hlast, hyp⟩
        · simp at hnil
        · rw [List.getLast?_append_of_ne_nil front (by simp)] at hlast
          refine hnone y ?_ hyp
          have hmem := List.mem_of_getLast? hlast
          rw [List.mem_cons] at hmem ⊢
          exact hmem.imp_right fun h => List.mem_append_left _ h
      · exact hnone y (List.mem_cons_of_mem _ (List.mem_append_right _ hy)) hyp

theorem insertPlugin_perm (chain : List (Middleware τ)) (p : Middleware τ) :
    (insertPlugin chain p).Perm (p :: chain) := by
  obtain ⟨u, v, rfl, hins, -⟩ := insertPlugin_cases p chain
  rw [hins]
  exact List.perm_middle

theorem insertPlugin_sublist (chain : List (Middleware τ)) (p : Middleware τ) :
    chain.Sublist (insertPlugin chain p) := by
  obtain ⟨u, v, rfl, hins, -⟩ := insertPlugin_cases p chain
  rw [hins]
  exact List.Sublist.append_left (List.sublist_cons_self p v) u

theorem foldl_insertPlugin_perm (chain ps : List (Middleware τ)) :
    (ps.foldl insertPlugin chain).Perm (chain ++ ps) := by
  induction ps generalizing chain with
  | nil => simp
  | cons p ps ih =>
    refine (ih _).trans (((insertPlugin_perm chain p).append_right ps).trans ?_)
    exact List.perm_middle.symm

theorem foldl_insertPlugin_sublist (chain ps : List (Middleware τ)) :
    chain.Sublist (ps.foldl insertPlugin chain) := by
  induction ps generalizing chain with
  | nil => exact .refl _
  | cons p ps ih => exact (insertPlugin_sublist chain p).trans (ih _)

end

/-! ### Behind the store -/

section
variable {sd p : Middleware τ} {front front' post ps : List (Middleware τ)}

theorem HeldBefore.congr (h : HeldBefore front sd post p) (hf : ∀ x, x ∈ front → x ∈ front') :
    HeldBefore front' sd post p := by
  refine h.imp_left fun ⟨x, hx, hxp⟩ => ⟨x, ?_, hxp⟩
  rw [List.mem_append] at hx ⊢
  exact hx.imp_left (hf x)

/-- Inserted first or last, the rest of the fold sees the same plugins in front. -/
theorem perm_inserted (a b u : List (Middleware τ)) (p : Middleware τ) :
    (a ++ b ++ p :: u).Perm (a ++ p :: b ++ u) := by
  have hmiddle : (a ++ p :: b).Perm (p :: (a ++ b)) := List.perm_middle
  exact List.perm_middle.trans (hmiddle.append_right u).symm

theorem foldl_held (h : ∀ u p v, ps = u ++ p :: v → HeldBefore (front ++ u) sd post p) :
    ∃ front', ps.foldl insertPlugin (front ++ sd :: post) = front' ++ sd :: post ∧
      front'.Perm (front ++ ps) := by
  induction ps generalizing front with
  | nil => exact ⟨front, rfl, by simp⟩
  | cons p ps ih =>
    have hp : HeldBefore front sd post p := by simpa using h [] p ps rfl
    rcases insertPlugin_around front sd post p with ⟨-, a, b, rfl, hins⟩ | ⟨hnot, -⟩
    · rw [List.foldl_cons, hins]
      have hperm : (a ++ p :: b).Perm (a ++ b ++ [p]) :=
        List.perm_middle.trans (List.perm_append_singleton p (a ++ b)).symm
      have hrest : ∀ u q v, ps = u ++ q :: v → HeldBefore (a ++ p :: b ++ u) sd post q := by
        intro u q v huv
        refine (h (p :: u) q v (by rw [huv, List.cons_append])).congr fun x hx => ?_
        exact (perm_inserted a b u p).mem_iff.1 hx
      obtain ⟨front', hfold, hfront⟩ := ih hrest
      refine ⟨front', hfold, hfront.trans ((hperm.append_right ps).trans ?_)⟩
      simp
    · exact absurd hp hnot

theorem foldl_not_held (h : ¬ ∀ u p v, ps = u ++ p :: v → HeldBefore (front ++ u) sd post p) :
    ∃ p ∈ ps, [sd, p].Sublist (ps.foldl insertPlugin (front ++ sd :: post)) := by
  induction ps generalizing front with
  | nil => exact absurd (fun u p v huv => by simp at huv) h
  | cons p ps ih =>
    rw [List.foldl_cons]
    rcases insertPlugin_around front sd post p with ⟨hp, a, b, rfl, hins⟩ | ⟨-, a, b, rfl, hins⟩
    · rw [hins]
      have hrest : ¬ ∀ u q v, ps = u ++ q :: v → HeldBefore (a ++ p :: b ++ u) sd post q := by
        intro hall
        refine h fun u q v huv => ?_
        cases u with
        | nil =>
          rw [List.nil_append, List.cons.injEq] at huv
          obtain ⟨rfl, -⟩ := huv
          exact hp.congr fun x hx => by simpa using hx
        | cons z u =>
          rw [List.cons_append, List.cons.injEq] at huv
          obtain ⟨rfl, huv⟩ := huv
          exact (hall u q v huv).congr fun x hx => (perm_inserted a b u p).mem_iff.2 hx
      obtain ⟨q, hq, hsub⟩ := ih hrest
      exact ⟨q, List.mem_cons_of_mem p hq, hsub⟩
    · -- the plugin went behind the store, and stays there
      refine ⟨p, List.mem_cons_self, List.Sublist.trans ?_ (foldl_insertPlugin_sublist _ ps)⟩
      rw [hins]
      refine List.Sublist.trans ?_ (List.sublist_append_right front _)
      exact (List.singleton_sublist.2 (by simp)).cons_cons sd

theorem extend_middlewares {base P : Pipeline τ} {R : Registry τ} {terminal : Terminal τ}
    {ids : List String} (hids : R.resolvedOrder = .ok ids)
    (hP : base.extendPipelineWithRegistry R terminal = .ok P) :
    P.middlewares = (ids.map R.factory).foldl insertPlugin base.middlewares := by
  rw [extendPipelineWithRegistry, hids] at hP
  cases hP
  rfl

theorem order_perm {base P : Pipeline τ} {R : Registry τ} {terminal : Terminal τ}
    {ids : List String} (hids : R.resolvedOrder = .ok ids)
    (hP : base.extendPipelineWithRegistry R terminal = .ok P) :
    P.order.Perm (base.order ++ ids.map fun id => (R.factory id).name) := by
  rw [order, extend_middlewares hids hP]
  refine ((foldl_insertPlugin_perm base.middlewares _).map (·.name)).trans ?_
  rw [List.map_append, List.map_map]
  exact .refl _

/-- One of the first middlewares `u`, not the store, is entered in the dispatch and does not call its `next`. -/
def StoppedIn (P : Pipeline τ) (u : List (Middleware τ)) (now : World τ → ℚ) (uuid : String) (w : World τ) :
    Prop :=
  ∃ i x, u[i]? = some x ∧ x.name ≠ "store_dispatch" ∧ 0 < P.executions now uuid w i ∧
    P.executions now uuid w (i + 1) = 0

theorem executions_zero {P : Pipeline τ} {u v : List (Middleware τ)} {x : Middleware τ} {i : Nat}
    (hP : P.middlewares = u ++ x :: v) (hx : ∀ w, ¬ (x.call w).CallsNext) (hi : u.length < i)
    (now : World τ → ℚ) (uuid : String) (w : World τ) : P.executions now uuid w i = 0 := by
  rw [executions_eq, List.count_eq_zero, hP]
  intro hmem
  have := le_of_mem_layers_append hx hmem
  omega

section
variable {base P : Pipeline τ} {R : Registry τ} {terminal store : Terminal τ} {ids : List String}
  {pre post u v : List (Middleware τ)} {p : Middleware τ}

theorem mem_extended (hids : R.resolvedOrder = .ok ids)
    (hP : base.extendPipelineWithRegistry R terminal = .ok P) {x : Middleware τ} :
    x ∈ P.middlewares ↔ x ∈ base.middlewares ∨ ∃ id ∈ ids, R.factory id = x := by
  rw [extend_middlewares hids hP, (foldl_insertPlugin_perm _ _).mem_iff, List.mem_append, List.mem_map]

/-- All plugins stand before the store exactly when each is held before it as it is inserted. -/
theorem plugins_before_iff (hmws : P.middlewares =
      (ids.map R.factory).foldl insertPlugin (pre ++ storeDispatch store :: post))
    (hnodup : P.order.Nodup) :
    (∀ id ∈ ids, Before P.order (R.factory id).name "store_dispatch") ↔
      ∀ u id v, ids = u ++ id :: v →
        HeldBefore (pre ++ u.map R.factory) (storeDispatch store) post (R.factory id) := by
  constructor
  · intro h
    by_contra hnot
    have hplugins : ¬ ∀ u p v, ids.map R.factory = u ++ p :: v →
        HeldBefore (pre ++ u) (storeDispatch store) post p := by
      intro hall
      refine hnot fun u id v huv => hall _ _ (v.map R.factory) ?_
      rw [huv, List.map_append, List.map_cons]
    obtain ⟨p, hp, hsub⟩ := foldl_not_held hplugins
    obtain ⟨id, hid, rfl⟩ := List.mem_map.1 hp
    have hbehind : Before P.order "store_dispatch" (R.factory id).name := by
      rw [order, hmws]
      exact hsub.map (·.name)
    exact (h id hid).asymm hnodup hbehind
  · intro h id hid
    have hplugins : ∀ u p v, ids.map R.factory = u ++ p :: v →
        HeldBefore (pre ++ u) (storeDispatch store) post p := by
      intro u p v huv
      obtain ⟨u', v', rfl, rfl, hv⟩ := List.map_eq_append_iff.1 huv
      obtain ⟨id, v', rfl, rfl, -⟩ := List.map_eq_cons_iff.1 hv
      exact h u' id v' rfl
    obtain ⟨front, hfold, hperm⟩ := foldl_held hplugins
    have hmem : R.factory id ∈ front :=
      hperm.mem_iff.2 (List.mem_append_right _ (List.mem_map_of_mem (f := R.factory) hid))
    rw [order, hmws, hfold, List.map_append, List.map_cons]
    exact before_append.2
      (.inr (.inr ⟨List.mem_map_of_mem (f := Middleware.name) hmem, List.mem_cons_self⟩))

/-- Before the store a middleware runs, unless one in front of it runs and does not hand the call on. -/
theorem runs_before_store (huv : P.middlewares = u ++ p :: v) (hnodup : P.order.Nodup)
    (hbefore : Before P.order p.name "store_dispatch") (now : World τ → ℚ) (uuid : String) (w : World τ) :
    0 < P.executions now uuid w u.length ∨ P.StoppedIn u now uuid w := by
  have horder : P.order = u.map (·.name) ++ p.name :: v.map (·.name) := by
    rw [order, huv, List.map_append, List.map_cons]
  have hcases : 0 < P.executions now uuid w u.length ∨ _ := executed_or_stopped u.length
  rcases hcases with hrun | ⟨i, hi, hentered, hstopped⟩
  · exact .inl hrun
  · refine .inr ⟨i, u.get ⟨i, hi⟩, List.getElem?_eq_getElem hi, fun hname => ?_, hentered, hstopped⟩
    have hfirst : Before P.order "store_dispatch" p.name := by
      rw [horder, before_insert_right (horder ▸ hnodup), ← hname]
      exact List.mem_map_of_mem (f := Middleware.name) (List.get_mem u ⟨i, hi⟩)
    exact hbefore.asymm hnodup hfirst

theorem never_runs_behind_store (huv : P.middlewares = u ++ p :: v) (hnodup : P.order.Nodup)
    (hsd : storeDispatch store ∈ P.middlewares) (hfirst : Before P.order "store_dispatch" p.name)
    (now : World τ → ℚ) (uuid : String) (w : World τ) : P.executions now uuid w u.length = 0 := by
  have horder : P.order = u.map (·.name) ++ p.name :: v.map (·.name) := by
    rw [order, huv, List.map_append, List.map_cons]
  rw [horder, before_insert_right (horder ▸ hnodup)] at hfirst
  obtain ⟨x, hx, hname⟩ := List.mem_map.1 hfirst
  have hxsd : x = storeDispatch store :=
    List.inj_on_of_nodup_map hnodup (huv ▸ List.mem_append_left _ hx) hsd hname
  obtain ⟨u₁, u₂, rfl⟩ := List.append_of_mem hx
  refine executions_zero (u := u₁) (x := x) (v := u₂ ++ p :: v) (by simp [huv]) ?_ ?_ now uuid w
  · rw [hxsd]
    exact fun w h => h
  · simp

end

/-- In the extended pipeline every plugin stands before `store_dispatch`, and so runs in each dispatch
unless in this dispatch a middleware before it runs and does not call its `next`, exactly when each
one names in its `must_run_before` a default middleware up to `store_dispatch` or a plugin ordered
before it, or else a default middleware behind `store_dispatch`, with none from `store_dispatch` on
declared to precede it. A plugin that stands behind `store_dispatch` runs in no dispatch. -/
theorem plugins_take_part_iff (base : Pipeline τ) (R : Registry τ) (terminal : Terminal τ)
    {ids : List String} {P : Pipeline τ} (hids : R.resolvedOrder = .ok ids)
    (hP : base.extendPipelineWithRegistry R terminal = .ok P) {pre post : List (Middleware τ)}
    {store : Terminal τ} (hbase : base.middlewares = pre ++ storeDispatch store :: post)
    (hnames : (base.order ++ ids.map fun id => (R.factory id).name).Nodup) :
    ((∀ id ∈ ids, Before P.order (R.factory id).name "store_dispatch") ↔
      ∀ u id v, ids = u ++ id :: v →
        HeldBefore (pre ++ u.map R.factory) (storeDispatch store) post (R.factory id)) ∧
    ∀ id ∈ ids, ∃ u v, P.middlewares = u ++ R.factory id :: v ∧
      (Before P.order (R.factory id).name "store_dispatch" → ∀ now uuid w,
        0 < P.executions now uuid w u.length ∨ P.StoppedIn u now uuid w) ∧
      (¬ Before P.order (R.factory id).name "store_dispatch" → ∀ now uuid w,
        P.executions now uuid w u.length = 0) := by
  have hnodup : P.order.Nodup := (order_perm hids hP).nodup_iff.2 hnames
  have hsd : storeDispatch store ∈ P.middlewares :=
    (mem_extended hids hP).2 (.inl (by simp [hbase]))
  refine ⟨plugins_before_iff (by rw [extend_middlewares hids hP, hbase]) hnodup, fun id hid => ?_⟩
  have hplugin : R.factory id ∈ P.middlewares := (mem_extended hids hP).2 (.inr ⟨id, hid, rfl⟩)
  obtain ⟨u, v, huv⟩ := List.append_of_mem hplugin
  refine ⟨u, v, huv, runs_before_store huv hnodup, fun hbehind => ?_⟩
  have hne : (R.factory id).name ≠ "store_dispatch" := by
    intro heq
    have hmem : "store_dispatch" ∈ base.order := by
      rw [order, hbase]
      simp [storeDispatch]
    refine (List.nodup_append.1 hnames).2.2 _ hmem _ ?_ rfl
    exact heq ▸ List.mem_map_of_mem (f := fun id => (R.factory id).name) hid
  have hfirst := (before_or_before (List.mem_map_of_mem (f := Middleware.name) hplugin)
    (List.mem_map_of_mem (f := Middleware.name) hsd) hne).resolve_left hbehind
  exact never_runs_behind_store huv hnodup hsd hfirst

/-- A middleware of the given constraints that hands every call on. -/
def passing (name : String) (mustRunBefore mustRunAfter : List String) : Middleware Unit where
  name := name
  mustRunBefore := mustRunBefore
  mustRunAfter := mustRunAfter
  call := fun w => .next w fun w o => .done w o

def plainPipeline : Pipeline Unit :=
  buildDefaultPipeline (passing "auth" [] []).call fun w => (.returned .empty, w)

/-- Loads plugins that say of themselves what their manifests say. -/
def registryOf (manifests : List Manifest) (distinct : (manifests.map (·.id)).Nodup) : Registry Unit where
  manifests := manifests
  distinct := distinct
  factory := fun id =>
    match manifests.find? (·.id = id) with
    | some m => passing m.id m.mustRunBefore m.mustRunAfter
    | none => passing id [] []

/-- `quota` runs between `auth` and the store, `guard` before both. -/
def guardRegistry : Registry Unit := registryOf
  [{ id := "quota", mustRunBefore := ["store_dispatch"], mustRunAfter := ["auth"] },
    { id := "guard", mustRunBefore := ["quota", "auth"] }] (by decide)

theorem plugins_take_part_guard : ∃ P,
    plainPipeline.extendPipelineWithRegistry guardRegistry plainPipeline.terminal = .ok P ∧
      P.order = ["guard", "auth", "quota", "store_dispatch"] ∧
      Before P.order "guard" "store_dispatch" ∧ Before P.order "quota" "store_dispatch" := by
  have hids : guardRegistry.resolvedOrder = .ok ["guard", "quota"] := rfl
  have hP : plainPipeline.extendPipelineWithRegistry guardRegistry plainPipeline.terminal =
      .ok ⟨[passing "guard" ["quota", "auth"] [], auth (passing "auth" [] []).call,
        passing "quota" ["store_dispatch"] ["auth"], storeDispatch plainPipeline.terminal],
        plainPipeline.terminal⟩ := rfl
  have hbase : plainPipeline.middlewares =
      [auth (passing "auth" [] []).call] ++ storeDispatch plainPipeline.terminal :: [] := rfl
  have h := (plugins_take_part_iff plainPipeline guardRegistry plainPipeline.terminal hids hP hbase
    (by decide)).1.2
  have hheld : ∀ u id v, ["guard", "quota"] = u ++ id :: v →
      HeldBefore ([auth (passing "auth" [] []).call] ++ u.map guardRegistry.factory)
        (storeDispatch plainPipeline.terminal) [] (guardRegistry.factory id) := by
    intro u id v huv
    rcases u with _ | ⟨a, _ | ⟨b, u⟩⟩
    · cases huv
      exact .inl ⟨auth (passing "auth" [] []).call, by simp, by decide⟩
    · cases huv
      exact .inl ⟨storeDispatch plainPipeline.terminal, by simp, by decide⟩
    · simp at huv
  exact ⟨_, hP, rfl, h hheld "guard" (by simp), h hheld "quota" (by simp)⟩

def auditRegistry : Registry Unit := registryOf [{ id := "audit" }] (by decide)

/-- A plugin without constraints never runs. -/
theorem plugin_never_runs : ∃ P,
    plainPipeline.extendPipelineWithRegistry auditRegistry plainPipeline.terminal = .ok P ∧
      P.order = ["auth", "store_dispatch", "audit"] ∧
      ∀ now uuid w, P.executions now uuid w 2 = 0 := by
  refine ⟨⟨plainPipeline.middlewares ++ [passing "audit" [] []], plainPipeline.terminal⟩, rfl, rfl, ?_⟩
  intro now uuid w
  rfl

end

/-! ### All constraints -/

section
variable {x y z p : Middleware τ} {chain chain' defaults done plugins total u v : List (Middleware τ)}

/-- `x` stands before `y`. -/
def Stands (chain : List (Middleware τ)) (x y : Middleware τ) : Prop :=
  Before (chain.map (·.name)) x.name y.name

def Satisfies (chain : List (Middleware τ)) : Prop :=
  ∀ x ∈ chain, ∀ y ∈ chain, Precedes x y → Stands chain x y

instance : Decidable (Satisfies chain) :=
  inferInstanceAs (Decidable (∀ x ∈ chain, ∀ y ∈ chain, Precedes x y →
    Before (chain.map (·.name)) x.name y.name))

/-- An order of the default middlewares and the plugins: each once, the default ones as they stood,
every constraint met. -/
structure IsExtension (defaults plugins chain : List (Middleware τ)) : Prop where
  once : chain.Perm (defaults ++ plugins)
  defaults : defaults.Sublist chain
  ordered : Satisfies chain

/-- Names a default middleware in its `must_run_before`. -/
def Anchored (defaults : List (Middleware τ)) (p : Middleware τ) : Prop :=
  ∃ d ∈ defaults, d.name ∈ p.mustRunBefore

theorem Stands.mono (h : Stands chain x y) (hc : chain.Sublist chain') : Stands chain' x y :=
  Before.mono h (hc.map _)

theorem stands_append (hx : x ∈ u) (hy : y ∈ v) : Stands (u ++ v) x y := by
  rw [Stands, List.map_append]
  exact before_append.2 (.inr (.inr ⟨List.mem_map_of_mem (f := Middleware.name) hx,
    List.mem_map_of_mem (f := Middleware.name) hy⟩))

theorem stands_insert (hx : x.name ≠ p.name) (hy : y.name ≠ p.name) :
    Stands (u ++ p :: v) x y ↔ Stands (u ++ v) x y := by
  simp only [Stands, List.map_append, List.map_cons]
  exact before_insert_of_ne hx hy

theorem stands_or_stands (hx : x ∈ chain) (hy : y ∈ chain) (hne : x.name ≠ y.name) :
    Stands chain x y ∨ Stands chain y x :=
  before_or_before (List.mem_map_of_mem (f := Middleware.name) hx)
    (List.mem_map_of_mem (f := Middleware.name) hy) hne

/-- The default middlewares stand in every order as they stood. -/
theorem Stands.of_defaults (hchain : (chain.map (·.name)).Nodup) (hdef : defaults.Sublist chain)
    (hx : x ∈ defaults) (hy : y ∈ defaults) (h : Stands chain x y) : Stands defaults x y := by
  have hne : x.name ≠ y.name := by
    intro heq
    have hself : Stands chain y x := by
      rw [Stands, ← heq]
      rw [Stands, ← heq] at h
      exact h
    exact Before.asymm hchain h hself
  refine (stands_or_stands hx hy hne).resolve_right fun h' => ?_
  exact Before.asymm hchain h (h'.mono hdef)

/-- What is declared of the plugins that name no default middleware. -/
def LooseGoLast (defaults plugins : List (Middleware τ)) : Prop :=
  ∀ e ∈ plugins, ¬ Anchored defaults e → ∀ x,
    x ∈ defaults ∨ x ∈ plugins ∧ Anchored defaults x → ¬ Precedes e x

/-- The chain after some of the insertions. An anchored plugin stands behind those default
middlewares only behind which it has to stand. -/
structure Placed (defaults total done chain : List (Middleware τ)) : Prop where
  once : chain.Perm (defaults ++ done)
  kept : defaults.Sublist chain
  ordered : Satisfies chain
  justified : ∀ x ∈ done, Anchored defaults x → ∀ d ∈ defaults, Stands chain d x → Stands total d x

/-- A plugin `p` that is to go in next, where `total` meets all constraints. -/
structure Insertable (defaults plugins total done chain : List (Middleware τ)) (p : Middleware τ) :
    Prop where
  extension : IsExtension defaults plugins total
  unique : (total.map (·.name)).Nodup
  names : (chain.map (·.name)).Nodup
  fresh : ∀ x ∈ chain, x.name ≠ p.name
  plugin : p ∈ plugins
  earlier : ∀ x ∈ done, x ∈ plugins ∧ ¬ Precedes p x
  loose : LooseGoLast defaults plugins

section
variable {d : Middleware τ}

theorem Insertable.mem (hs : Insertable defaults plugins total done chain p)
    (h : Placed defaults total done chain) (hx : x ∈ chain) : x ∈ total := by
  refine hs.extension.once.mem_iff.2 ?_
  rcases List.mem_append.1 (h.once.mem_iff.1 hx) with hx | hx
  · exact List.mem_append_left _ hx
  · exact List.mem_append_right _ (hs.earlier x hx).1

/-- A default middleware up to one that precedes an anchored plugin stands before it in every order
that meets all constraints. -/
theorem Placed.stands_total (h : Placed defaults total done chain)
    (hs : Insertable defaults plugins total done chain p) (hp : Anchored defaults p) (hz : z ∈ chain)
    (hzp : Precedes z p) (hd : d ∈ defaults) (hdz : d = z ∨ Stands chain d z) : Stands total d p := by
  have hpt : p ∈ total := hs.extension.once.mem_iff.2 (List.mem_append_right _ hs.plugin)
  have hzt := hs.extension.ordered z (hs.mem h hz) p hpt hzp
  rcases hdz with rfl | hdz
  · exact hzt
  · refine Before.trans hs.unique ?_ hzt
    rcases List.mem_append.1 (h.once.mem_iff.1 hz) with hzd | hzd
    · exact (hdz.of_defaults hs.names h.kept hd hzd).mono hs.extension.defaults
    · have hanchored : Anchored defaults z := by
        by_contra hloose
        exact hs.loose z (hs.earlier z hzd).1 hloose p (.inr ⟨hs.plugin, hp⟩) hzp
      exact h.justified z hzd hanchored d hd hdz

theorem Placed.step (h : Placed defaults total done chain)
    (hs : Insertable defaults plugins total done chain p) :
    Placed defaults total (done ++ [p]) (insertPlugin chain p) := by
  have hpt : p ∈ total := hs.extension.once.mem_iff.2 (List.mem_append_right _ hs.plugin)
  have hself : ¬ Precedes p p := fun hpp =>
    Before.asymm hs.unique (hs.extension.ordered p hpt p hpt hpp) (hs.extension.ordered p hpt p hpt hpp)
  obtain ⟨u, v, rfl, hins, hu, hcases⟩ := insertPlugin_cases p chain
  have hnodup : ((u ++ p :: v).map (·.name)).Nodup := by
    have hmiddle : (u ++ p :: v).Perm (p :: (u ++ v)) := List.perm_middle
    have hperm := hmiddle.map (·.name)
    rw [hperm.nodup_iff, List.map_cons, List.nodup_cons]
    refine ⟨fun hmem => ?_, hs.names⟩
    obtain ⟨x, hx, hname⟩ := List.mem_map.1 hmem
    exact hs.fresh x hx hname
  -- no clash: the plugin goes to the end, or behind the last one that precedes it
  have hplace : (∀ x ∈ v, ¬ Precedes x p) ∧ (Anchored defaults p →
      u = [] ∨ ∃ z, u.getLast? = some z ∧ Precedes z p) := by
    rcases hcases with rfl | ⟨-, hv, hlast⟩ | ⟨d, b, rfl, hdp, x, hx, hxp⟩
    · refine ⟨by simp, fun ⟨d, hd, hdp⟩ => absurd hdp (hu d ?_)⟩
      have := h.kept.subset hd
      rwa [List.append_nil] at this
    · exact ⟨hv, fun _ => hlast⟩
    · have hpd : Precedes p d := .inl hdp
      have hdc : d ∈ u ++ d :: b := by simp
      have hd : d ∈ defaults :=
        (List.mem_append.1 (h.once.mem_iff.1 hdc)).resolve_right fun hd =>
          (hs.earlier d hd).2 hpd
      have hdx : d = x ∨ Stands (u ++ d :: b) d x := by
        rcases List.mem_cons.1 hx with rfl | hx
        · exact .inl rfl
        · refine .inr (Stands.mono (stands_append (u := [d]) (by simp) hx) ?_)
          exact List.sublist_append_right u _
      have hstands := h.stands_total hs ⟨d, hd, hdp⟩ (List.mem_append_right u hx) hxp hd hdx
      exact absurd (hs.extension.ordered p hpt d (hs.mem h hdc) hpd) (Before.asymm hs.unique hstands)
  have hbehind (hp : Anchored defaults p) (d : Middleware τ) (hd : d ∈ defaults) (hdu : d ∈ u) :
      Stands total d p := by
    rcases hplace.2 hp with rfl | ⟨z, hlast, hzp⟩
    · simp at hdu
    · obtain ⟨u', rfl⟩ := List.getLast?_eq_some_iff.1 hlast
      refine h.stands_total hs hp (z := z) (by simp) hzp hd ?_
      rcases List.mem_append.1 hdu with hdu | hdu
      · exact .inr ((stands_append hdu (by simp)).mono (List.sublist_append_left _ v))
      · exact .inl (List.mem_singleton.1 hdu)
  rw [hins]
  refine ⟨?_, h.kept.trans (List.Sublist.append_left (List.sublist_cons_self p v) u), ?_, ?_⟩
  · refine List.perm_middle.trans ((h.once.cons p).trans ?_)
    rw [← List.append_assoc]
    exact (List.perm_append_singleton p _).symm
  · intro x hx y hy hxy
    have hmem {x : Middleware τ} (hx : x ∈ u ++ p :: v) : x = p ∨ x ∈ u ++ v :=
      List.mem_cons.1 (List.perm_middle.mem_iff.1 hx)
    rcases hmem hx with rfl | hx'
    · rcases hmem hy with rfl | hy'
      · exact absurd hxy hself
      · rcases List.mem_append.1 hy' with hyu | hyv
        · -- only a default middleware may stand before one that precedes it
          have hyd : y ∈ defaults := (List.mem_append.1 (h.once.mem_iff.1 hy')).resolve_right
            fun hyd => (hs.earlier y hyd).2 hxy
          by_cases hp : Anchored defaults x
          · exact absurd (hs.extension.ordered x hpt y (hs.mem h hy') hxy)
              (Before.asymm hs.unique (hbehind hp y hyd hyu))
          · exact absurd hxy (hs.loose x hs.plugin hp y (.inl hyd))
        · exact Stands.mono (stands_append (u := [x]) (by simp) hyv) (List.sublist_append_right u _)
    · rcases hmem hy with rfl | hy'
      · rcases List.mem_append.1 hx' with hxu | hxv
        · exact stands_append hxu (by simp)
        · exact absurd hxy (hplace.1 x hxv)
      · rw [stands_insert (hs.fresh x hx') (hs.fresh y hy')]
        exact h.ordered x hx' y hy' hxy
  · intro x hx hanchored d hd hstands
    have hdc := h.kept.subset hd
    rcases List.mem_append.1 hx with hx | hx
    · have hxc : x ∈ u ++ v := h.once.mem_iff.2 (List.mem_append_right _ hx)
      rw [stands_insert (hs.fresh d hdc) (hs.fresh x hxc)] at hstands
      exact h.justified x hx hanchored d hd hstands
    · obtain rfl := List.mem_singleton.1 hx
      refine hbehind hanchored d hd ?_
      rw [Stands, List.map_append, List.map_cons, before_insert_right (by simpa using hnodup)] at hstands
      obtain ⟨y, hy, hname⟩ := List.mem_map.1 hstands
      have hyd : y = d :=
        List.inj_on_of_nodup_map hs.names (List.mem_append_left v hy) hdc hname
      exact hyd ▸ hy

theorem Placed.run {ps : List (Middleware τ)} (h : Placed defaults total done chain)
    (hext : IsExtension defaults plugins total) (hunique : (total.map (·.name)).Nodup)
    (hloose : LooseGoLast defaults plugins) (hnames : ((chain ++ ps).map (·.name)).Nodup)
    (hplugins : ∀ x ∈ done ++ ps, x ∈ plugins)
    (hsorted : (done ++ ps).Pairwise fun x y => ¬ Precedes y x) :
    Placed defaults total (done ++ ps) (ps.foldl insertPlugin chain) := by
  induction ps generalizing done chain with
  | nil => simpa using h
  | cons p ps ih =>
    have hsplit : done ++ p :: ps = (done ++ [p]) ++ ps := by simp
    have hs : Insertable defaults plugins total done chain p := by
      refine ⟨hext, hunique, ?_, ?_, hplugins p (by simp), ?_, hloose⟩
      · rw [List.map_append] at hnames
        exact (List.nodup_append.1 hnames).1
      · intro x hx hname
        rw [List.map_append] at hnames
        exact (List.nodup_append.1 hnames).2.2 _ (List.mem_map_of_mem (f := Middleware.name) hx) _
          (by simp) hname
      · intro x hx
        exact ⟨hplugins x (by simp [hx]), (List.pairwise_append.1 hsorted).2.2 x hx p (by simp)⟩
    have hperm : ((insertPlugin chain p ++ ps).map (·.name)).Perm ((chain ++ p :: ps).map (·.name)) :=
      (((insertPlugin_perm chain p).append_right ps).trans List.perm_middle.symm).map _
    rw [List.foldl_cons, hsplit]
    exact ih (h.step hs) (hperm.nodup_iff.2 hnames) (hsplit ▸ hplugins) (hsplit ▸ hsorted)

end

end

/-! ### The order of the plugins -/

theorem mem_pluginEdges {manifests : List Manifest} {a b : String} :
    (a, b) ∈ pluginEdges manifests ↔ ∃ m ∈ manifests,
      (m.id = a ∧ b ∈ m.mustRunBefore ∧ b ∈ manifests.map (·.id)) ∨
        (m.id = b ∧ a ∈ m.mustRunAfter ∧ a ∈ manifests.map (·.id)) := by
  simp only [pluginEdges, List.mem_flatMap, List.mem_append, List.mem_map, List.mem_filter,
    decide_eq_true_eq, Prod.mk.injEq]
  refine exists_congr fun m => and_congr_right fun _ => or_congr ?_ ?_
  · constructor
    · rintro ⟨target, ⟨hb, hids⟩, rfl, rfl⟩
      exact ⟨rfl, hb, hids⟩
    · rintro ⟨rfl, hb, hids⟩
      exact ⟨b, ⟨hb, hids⟩, rfl, rfl⟩
  · constructor
    · rintro ⟨source, ⟨ha, hids⟩, rfl, rfl⟩
      exact ⟨rfl, ha, hids⟩
    · rintro ⟨rfl, ha, hids⟩
      exact ⟨a, ⟨ha, hids⟩, rfl, rfl⟩

section
variable {R : Registry τ} {a b : String} {defaults total : List (Middleware τ)}

theorem edge_iff (halike : R.DeclaredAlike) (ha : a ∈ R.manifests.map (·.id))
    (hb : b ∈ R.manifests.map (·.id)) :
    (a, b) ∈ pluginEdges R.manifests ↔ Precedes (R.factory a) (R.factory b) := by
  obtain ⟨m, hm, rfl⟩ := List.mem_map.1 ha
  obtain ⟨n, hn, rfl⟩ := List.mem_map.1 hb
  obtain ⟨hmname, hmbefore, -⟩ := halike m hm
  obtain ⟨hnname, -, hnafter⟩ := halike n hn
  have hinj {k l : Manifest} (hk : k ∈ R.manifests) (hl : l ∈ R.manifests) (h : k.id = l.id) : k = l :=
    List.inj_on_of_nodup_map R.distinct hk hl h
  rw [mem_pluginEdges, Precedes, hnname, hmname, hmbefore, hnafter]
  constructor
  · rintro ⟨k, hk, ⟨hid, h, -⟩ | ⟨hid, h, -⟩⟩
    · exact .inl (hinj hk hm hid ▸ h)
    · exact .inr (hinj hk hn hid ▸ h)
  · rintro (h | h)
    · exact ⟨m, hm, .inl ⟨rfl, h, hb⟩⟩
    · exact ⟨n, hn, .inr ⟨rfl, h, ha⟩⟩

theorem pluginEdges_nodes {manifests : List Manifest} {e : String × String}
    (he : e ∈ pluginEdges manifests) :
    e.1 ∈ manifests.map (·.id) ∧ e.2 ∈ manifests.map (·.id) := by
  obtain ⟨m, hm, ⟨hid, -, h⟩ | ⟨hid, -, h⟩⟩ := mem_pluginEdges.1 he
  · exact ⟨hid ▸ List.mem_map_of_mem (f := Manifest.id) hm, h⟩
  · exact ⟨h, hid ▸ List.mem_map_of_mem (f := Manifest.id) hm⟩

/-- Where all constraints can be met the plugins are ordered by what they declare of each other. -/
theorem resolvedOrder_ok (halike : R.DeclaredAlike) (hext : IsExtension defaults R.plugins total)
    (hunique : (total.map (·.name)).Nodup) :
    ∃ ids, R.resolvedOrder = .ok ids ∧ ids.Perm (R.manifests.map (·.id)) ∧
      (ids.map R.factory).Pairwise fun x y => ¬ Precedes y x := by
  have hplugin {id : String} (hid : id ∈ R.manifests.map (·.id)) :
      R.factory id ∈ total ∧ (R.factory id).name = id := by
    obtain ⟨m, hm, rfl⟩ := List.mem_map.1 hid
    exact ⟨hext.once.mem_iff.2 (List.mem_append_right _
      (List.mem_map_of_mem (f := fun m : Manifest => R.factory m.id) hm)), (halike m hm).1⟩
  have hperm := kahn_perm R.distinct (fun e he => pluginEdges_nodes he) hunique
    (fun id hid => by
      obtain ⟨hmem, hname⟩ := hplugin hid
      exact hname ▸ List.mem_map_of_mem (f := Middleware.name) hmem)
    fun e he => by
      obtain ⟨ha, hb⟩ := pluginEdges_nodes he
      have hstands := hext.ordered _ (hplugin ha).1 _ (hplugin hb).1 ((edge_iff halike ha hb).1 he)
      rwa [Stands, (hplugin ha).2, (hplugin hb).2] at hstands
  have hnodup : (kahn (R.manifests.map (·.id)) (pluginEdges R.manifests)).Nodup :=
    hperm.nodup_iff.2 R.distinct
  refine ⟨_, ?_, hperm, ?_⟩
  · rw [Registry.resolvedOrder, toposortPlugins]
    simp only [ne_eq]
    rw [if_neg (not_not.2 hperm.length_eq)]
  · rw [List.pairwise_map, List.pairwise_iff_forall_sublist]
    intro a b hab hprec
    have ha := hperm.mem_iff.1 (Before.left_mem hab)
    have hb := hperm.mem_iff.1 (Before.right_mem hab)
    have hbefore := kahn_before R.distinct (fun e he => pluginEdges_nodes he)
      ((edge_iff halike hb ha).2 hprec) (Before.left_mem hab)
    exact Before.asymm hnodup hab hbefore

end

section
variable {e x : Middleware τ} {chain defaults ps : List (Middleware τ)}

theorem loose_goes_last {chain : List (Middleware τ)} (hloose : ∀ y ∈ chain, y.name ∉ e.mustRunBefore) :
    insertPlugin chain e = chain ++ [e] := by
  obtain ⟨u, v, rfl, hins, -, hcases⟩ := insertPlugin_cases e chain
  rw [hins]
  rcases hcases with rfl | ⟨⟨y, hy, hye⟩, -⟩ | ⟨d, b, rfl, hd, -⟩
  · simp
  · exact absurd hye (hloose y (List.mem_append_right u hy))
  · exact absurd hd (hloose d (by simp))

/-- A plugin that names nobody in the chain goes behind all of it, a later one before its anchor. -/
theorem loose_before_anchored {a b : List (Middleware τ)} (hdef : defaults.Sublist chain)
    (hnames : ((chain ++ (e :: (a ++ x :: b))).map (·.name)).Nodup)
    (hloose : ∀ y ∈ chain, y.name ∉ e.mustRunBefore) (hx : Anchored defaults x) :
    Stands ((e :: (a ++ x :: b)).foldl insertPlugin chain) x e := by
  obtain ⟨d, hd, hdx⟩ := hx
  rw [List.foldl_cons, List.foldl_append, List.foldl_cons, loose_goes_last hloose]
  refine Stands.mono ?_ (foldl_insertPlugin_sublist _ b)
  have hperm := foldl_insertPlugin_perm (chain ++ [e]) a
  have hstands : Stands (a.foldl insertPlugin (chain ++ [e])) d e :=
    Stands.mono (stands_append (hdef.subset hd) (by simp)) (foldl_insertPlugin_sublist _ a)
  have hnodup : ((a.foldl insertPlugin (chain ++ [e])).map (·.name)).Nodup := by
    refine (hperm.map _).nodup_iff.2 (hnames.sublist (List.Sublist.map _ ?_))
    rw [List.append_assoc, List.singleton_append]
    exact List.Sublist.append_left ((List.sublist_append_left a _).cons_cons e) chain
  have hmem : e ∈ a.foldl insertPlugin (chain ++ [e]) := hperm.mem_iff.2 (by simp)
  have hdmem : d ∈ a.foldl insertPlugin (chain ++ [e]) :=
    hperm.mem_iff.2 (by simp [hdef.subset hd])
  obtain ⟨u, v, huv, hins, hu, -⟩ := insertPlugin_cases x (a.foldl insertPlugin (chain ++ [e]))
  rw [huv] at hstands hnodup hmem hdmem
  rw [hins]
  have hdv : d ∈ v := (List.mem_append.1 hdmem).resolve_left fun hdu => hu d hdu hdx
  have hev : e ∈ v := (List.mem_append.1 hmem).resolve_left fun heu =>
    Before.asymm hnodup hstands (stands_append heu hdv)
  exact Stands.mono (stands_append (u := [x]) (by simp) hev) (List.sublist_append_right u _)

end

section
variable {defaults plugins total ps : List (Middleware τ)}

/-- A chain that meets all constraints, after insertions in a resolved order, leaves nothing that a
loose plugin would have to precede. -/
theorem looseGoLast_of_extension (hps : ps.Perm plugins)
    (hnames : ((defaults ++ ps).map (·.name)).Nodup) (hsorted : ps.Pairwise fun x y => ¬ Precedes y x)
    (hgood : IsExtension defaults plugins (ps.foldl insertPlugin defaults)) :
    LooseGoLast defaults plugins := by
  intro e he hloose x hx hprec
  have hfinal : ((ps.foldl insertPlugin defaults).map (·.name)).Nodup :=
    ((foldl_insertPlugin_perm defaults ps).map _).nodup_iff.2 hnames
  have hxall : x ∈ defaults ++ plugins := List.mem_append.2 (hx.imp_right And.left)
  have hstands := hgood.ordered e (hgood.once.mem_iff.2 (List.mem_append_right _ he)) x
    (hgood.once.mem_iff.2 hxall) hprec
  obtain ⟨u, v, rfl⟩ := List.append_of_mem (hps.mem_iff.2 he)
  have hbefore : ∀ y ∈ u, ¬ Precedes e y := fun y hy =>
    (List.pairwise_append.1 hsorted).2.2 y hy e List.mem_cons_self
  have hchain : ∀ y ∈ u.foldl insertPlugin defaults, y.name ∉ e.mustRunBefore := by
    intro y hy hye
    rcases List.mem_append.1 ((foldl_insertPlugin_perm _ u).mem_iff.1 hy) with hy | hy
    · exact hloose ⟨y, hy, hye⟩
    · exact hbefore y hy (.inl hye)
  have hkept := foldl_insertPlugin_sublist defaults u
  rw [List.foldl_append] at hfinal hstands
  refine Before.asymm hfinal hstands ?_
  rcases hx with hx | ⟨hx, hanchored⟩
  · rw [List.foldl_cons, loose_goes_last hchain]
    exact Stands.mono (stands_append (hkept.subset hx) (by simp)) (foldl_insertPlugin_sublist _ v)
  · rcases List.mem_append.1 (hps.mem_iff.2 hx) with hx | hx
    · exact absurd hprec (hbefore x hx)
    · rcases List.mem_cons.1 hx with rfl | hx
      · exact hstands
      · obtain ⟨a, b, rfl⟩ := List.append_of_mem hx
        have hperm := (foldl_insertPlugin_perm defaults u).append_right (e :: (a ++ x :: b))
        rw [List.append_assoc] at hperm
        exact loose_before_anchored hkept ((hperm.map _).nodup_iff.2 hnames) hchain hanchored

theorem extension_of_looseGoLast (hext : IsExtension defaults plugins total)
    (hunique : (total.map (·.name)).Nodup) (hps : ps.Perm plugins)
    (hnames : ((defaults ++ ps).map (·.name)).Nodup) (hsorted : ps.Pairwise fun x y => ¬ Precedes y x)
    (hloose : LooseGoLast defaults plugins) :
    IsExtension defaults plugins (ps.foldl insertPlugin defaults) := by
  have hstart : Placed defaults total [] defaults := by
    refine ⟨by simp, .refl _, fun x hx y hy hxy => ?_, by simp⟩
    have hmem {z : Middleware τ} (hz : z ∈ defaults) : z ∈ total := hext.defaults.subset hz
    exact (hext.ordered x (hmem hx) y (hmem hy) hxy).of_defaults hunique hext.defaults hx hy
  have hrun := hstart.run hext hunique hloose hnames (fun x hx => hps.mem_iff.1 (by simpa using hx))
    (by simpa using hsorted)
  rw [List.nil_append] at hrun
  exact ⟨hrun.once.trans (hps.append_left _), hrun.kept, hrun.ordered⟩

end

/-- When the constraints can be met at all, the pipeline meets them exactly when no plugin whose
`must_run_before` names no default middleware is declared to run before a default middleware, or
before a plugin whose `must_run_before` does name one. -/
theorem extension_iff (base : Pipeline τ) (R : Registry τ) (terminal : Terminal τ)
    (halike : R.DeclaredAlike) (hnames : (base.order ++ R.manifests.map (·.id)).Nodup)
    (hsat : ∃ chain, IsExtension base.middlewares R.plugins chain) :
    (∃ P, base.extendPipelineWithRegistry R terminal = .ok P ∧
      IsExtension base.middlewares R.plugins P.middlewares) ↔
        LooseGoLast base.middlewares R.plugins := by
  obtain ⟨total, hext⟩ := hsat
  have hplugins : R.plugins.map (·.name) = R.manifests.map (·.id) := by
    rw [Registry.plugins, List.map_map]
    exact List.map_congr_left fun m hm => (halike m hm).1
  have hall : ((base.middlewares ++ R.plugins).map (·.name)).Nodup := by
    rw [List.map_append, hplugins]
    exact hnames
  have hunique : (total.map (·.name)).Nodup := (hext.once.map _).nodup_iff.2 hall
  obtain ⟨ids, hids, hperm, hsorted⟩ := resolvedOrder_ok halike hext hunique
  have hps : (ids.map R.factory).Perm R.plugins := by
    have := hperm.map R.factory
    rwa [List.map_map] at this
  have hnames' : ((base.middlewares ++ ids.map R.factory).map (·.name)).Nodup :=
    ((hps.append_left base.middlewares).map _).nodup_iff.2 hall
  rw [extendPipelineWithRegistry, hids]
  simp only [Except.map, Except.ok.injEq, exists_eq_left']
  exact ⟨looseGoLast_of_extension hps hnames' hsorted,
    extension_of_looseGoLast hext hunique hps hnames' hsorted⟩

theorem extension_iff_guard : ∃ P,
    plainPipeline.extendPipelineWithRegistry guardRegistry plainPipeline.terminal = .ok P ∧
      IsExtension plainPipeline.middlewares guardRegistry.plugins P.middlewares := by
  let quota := passing "quota" ["store_dispatch"] ["auth"]
  let guard := passing "guard" ["quota", "auth"] []
  let chain := [guard, auth (passing "auth" [] []).call, quota, storeDispatch plainPipeline.terminal]
  refine (extension_iff plainPipeline guardRegistry plainPipeline.terminal ?_ (by decide)
    ⟨chain, ?_, ?_, (by decide : Satisfies chain)⟩).2 ?_
  · intro m hm
    simp only [guardRegistry, registryOf, List.mem_cons, List.not_mem_nil, or_false] at hm
    rcases hm with rfl | rfl <;> exact ⟨rfl, rfl, rfl⟩
  · show chain.Perm ([auth _, storeDispatch _, quota, guard])
    refine (List.perm_append_singleton guard [auth _, quota, storeDispatch _]).symm.trans ?_
    exact ((List.Perm.swap _ _ _).append_right [guard]).cons _
  · exact .cons _ (.cons_cons _ (.cons _ (.cons_cons _ .slnil)))
  · intro e he hloose
    refine absurd ?_ hloose
    simp only [guardRegistry, Registry.plugins, registryOf, List.map_cons, List.map_nil, List.mem_cons,
      List.not_mem_nil, or_false] at he
    rcases he with rfl | rfl
    · exact ⟨storeDispatch plainPipeline.terminal, by simp [plainPipeline, buildDefaultPipeline], by decide⟩
    · exact ⟨auth (passing "auth" [] []).call, by simp [plainPipeline, buildDefaultPipeline], by decide⟩

def loggerRegistry : Registry Unit := registryOf
  [{ id := "logger", mustRunBefore := ["quota"] }, { id := "quota", mustRunBefore := ["store_dispatch"] }]
  (by decide)

/-- `logger` has to run before `quota`, and goes to the end. -/
theorem extension_breaks_constraint :
    loggerRegistry.DeclaredAlike ∧
    (∃ chain, IsExtension plainPipeline.middlewares loggerRegistry.plugins chain) ∧
    ∃ P, plainPipeline.extendPipelineWithRegistry loggerRegistry plainPipeline.terminal = .ok P ∧
      P.order = ["auth", "quota", "store_dispatch", "logger"] ∧ ¬ Satisfies P.middlewares := by
  refine ⟨?_, ⟨[auth (passing "auth" [] []).call, passing "logger" ["quota"] [],
    passing "quota" ["store_dispatch"] [], storeDispatch fun w => (.returned .empty, w)], ?_, ?_, ?_⟩,
    ⟨[auth (passing "auth" [] []).call, passing "quota" ["store_dispatch"] [],
      storeDispatch fun w => (.returned .empty, w), passing "logger" ["quota"] []],
      plainPipeline.terminal⟩, rfl, rfl, ?_⟩
  · intro m hm
    simp only [loggerRegistry, registryOf, List.mem_cons, List.not_mem_nil, or_false] at hm
    rcases hm with rfl | rfl <;> exact ⟨rfl, rfl, rfl⟩
  · exact (List.perm_append_singleton (storeDispatch _)
      [passing "logger" ["quota"] [], passing "quota" ["store_dispatch"] []]).cons _
  · exact List.Sublist.cons_cons _ (List.sublist_append_right
      [passing "logger" ["quota"] [], passing "quota" ["store_dispatch"] []] _)
  · show Satisfies _
    decide
  · show ¬ Satisfies _
    decide

end Pipeline

end Sox
