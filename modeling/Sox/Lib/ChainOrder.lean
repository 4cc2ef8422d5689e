import Mathlib.Data.List.Lex
import Sox.Lib.Cycles

/-!
# Who comes first in the greedy order

In the order that always takes the least free node, `x` stands before `y` exactly when some chain of
predecessors that leads to `y` is lexicographically greater than all that lead to `x`
(`before_iff_outranks`). The greatest chain that leads to a node are the records of the order up to
it: the nodes greater than all that stand between. A record has been waited for by what follows it.
-/

namespace TopoSort

open Relation

variable {α : Type*} [LinearOrder α]

/-! ### Records -/

/-- The elements greater than everything after them. -/
def records : List α → List α
  | [] => []
  | a :: w => if ∀ b ∈ w, b < a then a :: records w else records w

section
variable {u v w : List α} {a b x y : α}

theorem records_concat (u : List α) (x : α) : records (u ++ [x]) = (records u).filter (x < ·) ++ [x] := by
  induction u with
  | nil => simp [records]
  | cons a u ih =>
    rw [List.cons_append, records, ih, records]
    by_cases hx : x < a
    · by_cases hu : ∀ b ∈ u, b < a
      · have hall : ∀ b ∈ u ++ [x], b < a := by
          intro b hb
          rcases List.mem_append.1 hb with hb | hb
          · exact hu b hb
          · exact List.mem_singleton.1 hb ▸ hx
        rw [if_pos hall, if_pos hu, List.filter_cons_of_pos (by simpa using hx), List.cons_append]
      · have hnot : ¬∀ b ∈ u ++ [x], b < a := fun h => hu fun b hb => h b (List.mem_append_left _ hb)
        rw [if_neg hnot, if_neg hu]
    · have hnot : ¬∀ b ∈ u ++ [x], b < a := fun h => hx (h x (by simp))
      rw [if_neg hnot]
      split
      · rw [List.filter_cons_of_neg (by simpa using hx)]
      · rfl

theorem records_sublist (w : List α) : (records w).Sublist w := by
  induction w with
  | nil => exact .slnil
  | cons a w ih =>
    unfold records
    split
    · exact ih.cons_cons a
    · exact ih.cons a

theorem lt_filter_concat (hx : x ∉ w) : w < w.filter (x < ·) ++ [x] := by
  induction w with
  | nil => exact List.nil_lt_cons x []
  | cons a w ih =>
    obtain ⟨ha, hw⟩ := not_or.1 (List.mem_cons.not.1 hx)
    by_cases hxa : x < a
    · rw [List.filter_cons_of_pos (by simpa using hxa), List.cons_append]
      exact List.cons_lt_cons_self.2 (ih hw)
    · -- what stands first now is at least `x`
      rw [List.filter_cons_of_neg (by simpa using hxa)]
      have hax : a < x := lt_of_le_of_ne (not_lt.1 hxa) (Ne.symm ha)
      cases hf : w.filter (x < ·) with
      | nil => exact List.Lex.rel hax
      | cons b w' =>
        have hb : b ∈ w.filter (x < ·) := by simp [hf]
        have hxb : x < b := by simpa using (List.mem_filter.1 hb).2
        exact List.Lex.rel (hax.trans hxb)

/-- The records grow with the list. -/
theorem records_lt_append (hv : v ≠ []) (hnodup : (u ++ v).Nodup) : records u < records (u ++ v) := by
  induction v using List.reverseRecOn with
  | nil => exact absurd rfl hv
  | append_singleton v x ih =>
    rw [← List.append_assoc] at hnodup ⊢
    obtain ⟨huv, -, hdisj⟩ := List.nodup_append.1 hnodup
    have hx : x ∉ records (u ++ v) :=
      fun hmem => hdisj x ((records_sublist _).subset hmem) x (by simp) rfl
    have hlast : records (u ++ v) < records (u ++ v ++ [x]) := by
      rw [records_concat (u ++ v)]
      exact lt_filter_concat hx
    by_cases hv' : v = []
    · subst hv'
      rwa [List.append_nil] at hlast ⊢
    · exact (ih hv' huv).trans hlast

/-- The first record is the greatest element. -/
theorem records_head (hb : b ∈ w) : ∃ a s, records w = a :: s ∧ b ≤ a := by
  induction w generalizing b with
  | nil => cases hb
  | cons c w ih =>
    unfold records
    split
    · rename_i hc
      refine ⟨c, records w, rfl, ?_⟩
      rcases List.mem_cons.1 hb with rfl | hb
      · exact le_rfl
      · exact (hc b hb).le
    · rename_i hc
      push Not at hc
      obtain ⟨d, hd, hcd⟩ := hc
      rcases List.mem_cons.1 hb with rfl | hb
      · obtain ⟨a, s, heq, hle⟩ := ih hd
        exact ⟨a, s, heq, hcd.trans hle⟩
      · exact ih hb

/-- No part of the list that ends with its last element is greater than the records. -/
theorem sublist_le_records (hnodup : (u ++ [y]).Nodup) (h : (w ++ [y]).Sublist (u ++ [y])) :
    w ++ [y] ≤ records (u ++ [y]) := by
  induction u generalizing w with
  | nil =>
    have hw : w = [] := by
      have hlen := h.length_le
      rw [List.length_append, List.length_append, List.length_nil] at hlen
      exact List.length_eq_zero_iff.1 (by omega)
    simp [hw, records]
  | cons a u ih =>
    rw [List.cons_append] at hnodup h ⊢
    obtain ⟨ha, hu⟩ := List.nodup_cons.1 hnodup
    have hrest : records (u ++ [y]) ≤ records (a :: (u ++ [y])) := by
      rw [records]
      split
      · rename_i hrecord
        obtain ⟨b, s, heq, -⟩ := records_head (w := u ++ [y]) (b := y) (by simp)
        have hb : b ∈ u ++ [y] := (records_sublist _).subset (by simp [heq])
        rw [heq]
        exact le_of_lt (List.Lex.rel (hrecord b hb))
      · exact le_rfl
    cases w with
    | nil => exact (ih hu (by simp)).trans hrest
    | cons c w =>
      rw [List.cons_append] at h ⊢
      rcases List.sublist_cons_iff.1 h with h | ⟨r, heq, hr⟩
      · exact (ih (w := c :: w) hu h).trans hrest
      · obtain ⟨rfl, rfl⟩ := List.cons.inj heq
        rw [records]
        split
        · exact List.cons_le_cons c (ih hu hr)
        · rename_i hrecord
          push Not at hrecord
          obtain ⟨d, hd, hcd⟩ := hrecord
          obtain ⟨b, s, heq, hle⟩ := records_head hd
          have hcd' : c < d := lt_of_le_of_ne hcd fun h => ha (h ▸ hd)
          rw [heq]
          exact le_of_lt (List.Lex.rel (hcd'.trans_le hle))

end

/-! ### Chains of predecessors -/

section
variable {r : α → α → Prop} {ids order u v w w' : List α} {edges : List (α × α)} {a x y : α}

/-- Along `w` every node is followed by one that has to wait for it, up to `x`. -/
def LeadsTo (r : α → α → Prop) (w : List α) (x : α) : Prop :=
  (∃ u, w = u ++ [x]) ∧ w.IsChain (TransGen r)

/-- Some chain that leads to `y` is greater than all that lead to `x`. -/
def Outranks (r : α → α → Prop) (y x : α) : Prop :=
  ∃ w, LeadsTo r w y ∧ ∀ w', LeadsTo r w' x → w' < w

theorem records_pairwise {P : α → α → Prop}
    (h : ∀ s a t, w = s ++ a :: t → (∀ b ∈ t, b < a) → ∀ b ∈ t, P a b) : (records w).Pairwise P := by
  induction w with
  | nil => exact .nil
  | cons a w ih =>
    have hrest := ih fun s b t hw => h (a :: s) b t (by simp [hw])
    unfold records
    split
    · rename_i hrecord
      refine List.pairwise_cons.2 ⟨fun b hb => ?_, hrest⟩
      exact h [] a w rfl hrecord b ((records_sublist w).subset hb)
    · exact hrest

/-- What follows a node and is less had to wait for it: the first that had not was free before. -/
theorem Greedy.waits (h : Greedy ids edges order) (hsat : Saturated ids edges order)
    (horder : order = u ++ a :: (w ++ v)) (hless : ∀ b ∈ w, b < a) :
    ∀ b ∈ w, TransGen (Edge edges) a b := by
  induction w using List.reverseRecOn generalizing v with
  | nil => simp
  | append_singleton w z ih =>
    have hw := ih (v := z :: v) (by simpa using horder) fun b hb => hless b (List.mem_append_left _ hb)
    intro b hb
    rcases List.mem_append.1 hb with hb | hb
    · exact hw b hb
    obtain rfl := List.mem_singleton.1 hb
    by_contra hfree
    have horder' : order = (u ++ a :: w) ++ b :: v := by simpa using horder
    have hready : Ready ids edges u b := by
      have hnodup := hsat.nodup
      refine ⟨hsat.nodes b (by simp [horder']), fun hbu => ?_, fun e he heb => ?_⟩
      · rw [horder] at hnodup
        exact (List.nodup_append.1 hnodup).2.2 b hbu b (by simp) rfl
      · have hbefore := hsat.before e he (by simp [horder', heb])
        rw [heb, horder', before_insert_right (horder' ▸ hnodup)] at hbefore
        have hlast : Edge edges e.1 b := heb ▸ he
        rcases List.mem_append.1 hbefore with hu | haw
        · exact hu
        rcases List.mem_cons.1 haw with hea | hew
        · exact absurd (.single (hea ▸ hlast)) hfree
        · exact absurd ((hw _ hew).tail hlast) hfree
    exact absurd ((h u a _ horder).2 b hready) (not_le.2 (hless b (by simp)))

/-- The records up to a node are the greatest chain that leads to it. -/
theorem Greedy.records_leadsTo (h : Greedy ids edges order) (hsat : Saturated ids edges order)
    (horder : order = u ++ x :: v) : LeadsTo (Edge edges) (records (u ++ [x])) x ∧
      ∀ w, LeadsTo (Edge edges) w x → w ≤ records (u ++ [x]) := by
  refine ⟨⟨⟨_, records_concat u x⟩, ?_⟩, ?_⟩
  · refine (records_pairwise fun s a t hst hrecord => ?_).isChain
    refine h.waits hsat (u := s) (v := v) ?_ hrecord
    rw [horder, ← List.singleton_append, ← List.append_assoc, hst, List.append_assoc, List.cons_append]
  · rintro w ⟨⟨w', rfl⟩, hchain⟩
    have hnodup : (u ++ [x]).Nodup := by
      refine (horder ▸ hsat.nodup).sublist (List.Sublist.append (.refl u) ?_)
      simp
    exact sublist_le_records hnodup (hsat.chain_sublist horder hchain)

theorem Greedy.outranks (h : Greedy ids edges order) (hsat : Saturated ids edges order)
    (hxy : Before order x y) : Outranks (Edge edges) y x := by
  obtain ⟨u, v, hx⟩ := List.append_of_mem hxy.left_mem
  obtain ⟨u', v', hy⟩ := List.append_of_mem hxy.right_mem
  rw [hy, before_insert_right (hy ▸ hsat.nodup)] at hxy
  obtain ⟨s, t, rfl⟩ := List.append_of_mem hxy
  have hx : order = s ++ x :: (t ++ y :: v') := by simpa using hy
  refine ⟨_, (h.records_leadsTo hsat hy).1, fun w hw => ?_⟩
  refine ((h.records_leadsTo hsat hx).2 w hw).trans_lt ?_
  have hnodup : ((s ++ [x]) ++ (t ++ [y])).Nodup := by
    refine (hy ▸ hsat.nodup).sublist ?_
    simp
  have hlt := records_lt_append (by simp) hnodup
  simpa using hlt

theorem Outranks.asymm (h : Outranks r y x) : ¬Outranks r x y := by
  obtain ⟨w, hw, hmax⟩ := h
  rintro ⟨w', hw', hmax'⟩
  exact lt_asymm (hmax w' hw') (hmax' w hw)

theorem before_iff_outranks (h : Greedy ids edges order) (hsat : Saturated ids edges order)
    (hx : x ∈ order) (hy : y ∈ order) : Before order x y ↔ Outranks (Edge edges) y x := by
  constructor
  · exact h.outranks hsat
  · intro hout
    by_cases hxy : x = y
    · subst hxy
      exact absurd hout hout.asymm
    · rcases before_or_before hx hy hxy with hbefore | hbefore
      · exact hbefore
      · exact absurd hout (h.outranks hsat hbefore).asymm

end

end TopoSort
