import Mathlib.Data.List.Cycle
import Mathlib.Data.Fintype.Card
import Mathlib.Data.Set.Finite.Basic
import Sox.Lib.TopoSort

/-!
# Cycles of a relation

`OnCycle r x`: some walk of one or more steps leads from `x` back to it. Such a walk can be cut down
to one that meets no node twice (`onCycle_iff`). In a finite set where every node has a predecessor,
every node has a cycle behind it (`exists_cycle_behind`); so what a topological sort leaves over are
the nodes that some cycle leads to (`Saturated.not_mem_iff`).
-/

namespace TopoSort

open Relation

section
variable {α : Type*} {r : α → α → Prop} {l s t : List α} {c : Cycle α} {x y : α}

def OnCycle (r : α → α → Prop) (x : α) : Prop := TransGen r x x

/-- A closed walk that meets no node twice. -/
structure SimpleCycle (r : α → α → Prop) (c : Cycle α) : Prop where
  proper : c ≠ Cycle.nil
  nodup : c.Nodup
  chain : c.Chain r

theorem simpleCycle_coe_cons : SimpleCycle r (x :: l : List α) ↔
    (x :: l).Nodup ∧ List.IsChain r (x :: (l ++ [x])) := by
  constructor
  · rintro ⟨-, hnodup, hchain⟩
    exact ⟨Cycle.nodup_coe_iff.1 hnodup, (Cycle.chain_coe_cons r x l).1 hchain⟩
  · rintro ⟨hnodup, hchain⟩
    refine ⟨?_, Cycle.nodup_coe_iff.2 hnodup, (Cycle.chain_coe_cons r x l).2 hchain⟩
    simp [Cycle.coe_eq_nil]

theorem transGen_of_isChain (h : List.IsChain r (x :: (l ++ [y]))) : TransGen r x y := by
  induction l generalizing x with
  | nil => exact .single (List.isChain_pair.1 h)
  | cons z l ih =>
    rw [List.cons_append, List.isChain_cons_cons] at h
    exact .head h.1 (ih h.2)

theorem isChain_of_transGen (h : TransGen r x y) : ∃ l, List.IsChain r (x :: (l ++ [y])) := by
  induction h using TransGen.head_induction_on with
  | single hxy => exact ⟨[], List.isChain_pair.2 hxy⟩
  | @head x z hxz _ ih =>
    obtain ⟨l, hl⟩ := ih
    exact ⟨z :: l, List.isChain_cons_cons.2 ⟨hxz, hl⟩⟩

/-- A walk may leave out what lies between two visits to a node. -/
theorem isChain_cut (h : List.IsChain r (l ++ x :: (s ++ x :: t))) : List.IsChain r (l ++ x :: t) := by
  obtain ⟨hl, hrest⟩ := List.isChain_split.1 h
  rw [← List.cons_append] at hrest
  exact List.isChain_split.2 ⟨hl, (List.isChain_split.1 hrest).2⟩

/-- By induction on the length of the walk: one that meets a node twice can be cut. -/
theorem exists_simple_of_walk (n : Nat) (hn : l.length ≤ n) (h : List.IsChain r (x :: (l ++ [x]))) :
    ∃ l', (x :: l').Nodup ∧ List.IsChain r (x :: (l' ++ [x])) := by
  induction n generalizing l with
  | zero =>
    obtain rfl := List.length_eq_zero_iff.1 (Nat.le_zero.1 hn)
    exact ⟨[], by simp, h⟩
  | succ n ih =>
    by_cases hnodup : (x :: l).Nodup
    · exact ⟨l, hnodup, h⟩
    rw [List.nodup_iff_sublist] at hnodup
    push Not at hnodup
    obtain ⟨y, hy⟩ := hnodup
    obtain ⟨u, v, huv, hyu, hyv⟩ := List.cons_sublist_iff.1 hy
    obtain ⟨a, b, rfl⟩ := List.append_of_mem hyu
    obtain ⟨d, e, rfl⟩ := List.append_of_mem (List.singleton_sublist.1 hyv)
    have hcut : List.IsChain r (a ++ y :: (e ++ [x])) := by
      refine isChain_cut (s := b ++ d) ?_
      rw [← List.cons_append, huv] at h
      simpa using h
    have hlen := congrArg List.length huv
    simp only [List.length_cons, List.length_append] at hlen
    cases a with
    | nil =>
      obtain rfl : x = y := by simpa using congrArg List.head? huv
      exact ih (l := e) (by omega) hcut
    | cons z a =>
      obtain rfl : x = z := by simpa using congrArg List.head? huv
      refine ih (l := a ++ y :: e) ?_ (by simpa using hcut)
      rw [List.length_cons] at hlen
      rw [List.length_append, List.length_cons]
      omega

theorem onCycle_iff : OnCycle r x ↔ ∃ c, SimpleCycle r c ∧ x ∈ c := by
  constructor
  · intro h
    obtain ⟨l, hl⟩ := isChain_of_transGen h
    obtain ⟨l', hl'⟩ := exists_simple_of_walk l.length le_rfl hl
    exact ⟨(x :: l' : List α), simpleCycle_coe_cons.2 hl', by simp⟩
  · rintro ⟨c, hc, hx⟩
    induction c using Quotient.inductionOn with
    | h l =>
      -- the cycle can be read from any of its nodes
      obtain ⟨a, b, rfl⟩ := List.append_of_mem (Cycle.mem_coe_iff.1 hx)
      have hrot : ((a ++ x :: b : List α) : Cycle α) = (x :: (b ++ a) : List α) :=
        Cycle.coe_eq_coe.2 List.isRotated_append
      have hc' : SimpleCycle r ((a ++ x :: b : List α) : Cycle α) := hc
      rw [hrot, simpleCycle_coe_cons] at hc'
      exact transGen_of_isChain hc'.2

theorem SimpleCycle.onCycle (h : SimpleCycle r c) (hx : x ∈ c) : OnCycle r x := onCycle_iff.2 ⟨c, h, hx⟩

theorem SimpleCycle.exists_mem (h : SimpleCycle r c) : ∃ x, x ∈ c := by
  induction c using Quotient.inductionOn with
  | h l =>
    cases l with
    | nil => exact absurd rfl h.proper
    | cons x l => exact ⟨x, Cycle.mem_coe_iff.2 List.mem_cons_self⟩

/-- In a finite set where every node has a predecessor every node has a cycle behind it. -/
theorem exists_cycle_behind (hpred : ∀ y ∈ l, ∃ z ∈ l, r z y) (hx : x ∈ l) :
    ∃ z ∈ l, OnCycle r z ∧ ReflTransGen r z x := by
  by_contra hnone
  push Not at hnone
  let B := { z // z ∈ l ∧ ReflTransGen r z x }
  have : Finite B := ((List.finite_toSet l).subset fun z hz => hz.1).to_subtype
  let R : B → B → Prop := fun a b => TransGen r a.1 b.1
  have : IsTrans B R := ⟨fun _ _ _ h h' => h.trans h'⟩
  have : Std.Irrefl R := ⟨fun a h => hnone a.1 a.2.1 h a.2.2⟩
  -- a first node of those that lead to `x` has no predecessor
  obtain ⟨⟨m, hm, hmx⟩, -, hfirst⟩ :=
    (Finite.wellFounded_of_trans_of_irrefl R).has_min Set.univ ⟨⟨x, hx, .refl⟩, trivial⟩
  obtain ⟨z, hz, hzm⟩ := hpred m hm
  exact hfirst ⟨z, hz, hmx.head hzm⟩ trivial (.single hzm)

end

/-! ### What a sort leaves over -/

variable {α : Type*} {ids order u v : List α} {edges : List (α × α)} {x y : α}

/-- An order of nodes that keeps to the edges and that no further node can join. -/
structure Saturated (ids : List α) (edges : List (α × α)) (order : List α) : Prop where
  nodup : order.Nodup
  nodes : ∀ x ∈ order, x ∈ ids
  before : ∀ e ∈ edges, e.2 ∈ order → Before order e.1 e.2
  stop : ∀ y, ¬Ready ids edges order y

def Edge (edges : List (α × α)) (a b : α) : Prop := (a, b) ∈ edges

/-- Every node comes after its predecessors. -/
def Respects (edges : List (α × α)) (order : List α) : Prop := ∀ e ∈ edges, Before order e.1 e.2

theorem Respects.not_onCycle (h : Respects edges order) (hnodup : order.Nodup) : ¬OnCycle (Edge edges) x := by
  have hbefore {a b : α} (hab : TransGen (Edge edges) a b) : Before order a b := by
    induction hab with
    | single he => exact h _ he
    | tail _ he ih => exact ih.trans hnodup (h _ he)
  exact fun hcycle => (hbefore hcycle).asymm hnodup (hbefore hcycle)

theorem Respects.sources (h : Respects edges (u ++ x :: v)) (hnodup : (u ++ x :: v).Nodup)
    (he : (y, x) ∈ edges) : y ∈ u := (before_insert_right hnodup).1 (h _ he)

theorem Running.saturated [LinearOrder α] {degree : α → Int} (h : Running ids edges degree [] order) :
    Saturated ids edges order where
  nodup := h.nodup
  nodes := h.nodes
  before := h.before
  stop y hready := by cases h.mem_queue_iff.2 hready

theorem kahn_saturated [LinearOrder α] (hids : ids.Nodup) (hedges : ∀ e ∈ edges, e.2 ∈ ids) :
    Saturated ids edges (kahn ids edges) := by
  obtain ⟨degree, h⟩ := kahn_running hids hedges
  exact h.saturated

namespace Saturated

theorem transGen (h : Saturated ids edges order) (hyx : TransGen (Edge edges) y x) (hx : x ∈ order) :
    Before order y x := by
  induction hyx using TransGen.head_induction_on with
  | single he => exact h.before _ he hx
  | head he _ ih => exact (h.before _ he ih.left_mem).trans h.nodup ih

/-- A chain of predecessors is part of what the order lists up to its end. -/
theorem chain_sublist {w : List α} (h : Saturated ids edges order) (horder : order = u ++ x :: v)
    (hchain : (w ++ [x]).IsChain (TransGen (Edge edges))) : (w ++ [x]).Sublist (u ++ [x]) := by
  induction w using List.reverseRecOn generalizing u x v with
  | nil => simp
  | append_singleton w z ih =>
    rw [List.append_assoc, List.singleton_append, List.isChain_split] at hchain
    have hzx : TransGen (Edge edges) z x := List.isChain_pair.1 hchain.2
    have hz := h.transGen hzx (by simp [horder])
    rw [horder, before_insert_right (horder ▸ h.nodup)] at hz
    obtain ⟨s, t, rfl⟩ := List.append_of_mem hz
    have hsub := ih (u := s) (x := z) (v := t ++ x :: v) (by simpa using horder) hchain.1
    refine List.Sublist.append ?_ (.refl [x])
    refine hsub.trans (List.Sublist.append (.refl s) ?_)
    simp

/-- Left over are the nodes that some cycle leads to. -/
theorem not_mem_iff [DecidableEq α] (h : Saturated ids edges order) (hedges : ∀ e ∈ edges, e.1 ∈ ids ∧ e.2 ∈ ids)
    (hx : x ∈ ids) : x ∉ order ↔ ∃ z, OnCycle (Edge edges) z ∧ ReflTransGen (Edge edges) z x := by
  constructor
  · intro hout
    obtain ⟨z, -, hz⟩ := exists_cycle_behind (r := Edge edges) (l := ids.filter (· ∉ order)) (x := x) (by
      intro y hy
      obtain ⟨hids, hleft⟩ := List.mem_filter.1 hy
      have hwait := h.stop y
      unfold Ready at hwait
      push Not at hwait
      obtain ⟨⟨z, y⟩, he, rfl, hz⟩ := hwait hids (by simpa using hleft)
      exact ⟨z, List.mem_filter.2 ⟨(hedges _ he).1, by simpa using hz⟩, he⟩)
      (List.mem_filter.2 ⟨hx, by simpa using hout⟩)
    exact ⟨z, hz⟩
  · rintro ⟨z, hcycle, hzx⟩ hin
    have hz : z ∈ order := by
      rcases reflTransGen_iff_eq_or_transGen.1 hzx with rfl | hzx
      · exact hin
      · exact (h.transGen hzx hin).left_mem
    have hbefore := h.transGen hcycle hz
    exact hbefore.asymm h.nodup hbefore

/-- Nothing is left over exactly when there is no cycle. -/
theorem length_eq_iff [DecidableEq α] (h : Saturated ids edges order) (hids : ids.Nodup)
    (hedges : ∀ e ∈ edges, e.1 ∈ ids ∧ e.2 ∈ ids) :
    order.length = ids.length ↔ ∀ a, ¬OnCycle (Edge edges) a := by
  constructor
  · intro hlen a ha
    obtain ⟨b, hab, -⟩ := TransGen.head'_iff.1 ha
    have hin : a ∈ ids := (hedges _ hab).1
    have hperm := (List.subperm_of_subset h.nodup h.nodes).perm_of_length_le hlen.ge
    exact (h.not_mem_iff hedges hin).2 ⟨a, ha, .refl⟩ (hperm.mem_iff.2 hin)
  · intro hacyclic
    have hall : ids ⊆ order := by
      intro x hx
      by_contra hout
      obtain ⟨z, hz, -⟩ := (h.not_mem_iff hedges hx).1 hout
      exact hacyclic z hz
    exact ((List.subperm_of_subset h.nodup h.nodes).antisymm (List.subperm_of_subset hids hall)).length_eq

end Saturated

end TopoSort
