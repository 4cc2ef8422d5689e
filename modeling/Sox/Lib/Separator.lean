import Mathlib.Algebra.GroupWithZero.Nat
import Mathlib.Data.List.Induction
import Mathlib.Tactic.Common

/-!
# Fields joined by a separator

Fields without the separator can be read back from what they are joined to, by as many fields
(`intercalate_inj`): counting the separators says that the other fields are without it too.
-/

namespace Separator

variable {α : Type*} {x : α} {ls ls' : List (List α)}

/-- Two lists that are split at their first separators are equal only part by part. -/
theorem append_cons_inj {l l' r r' : List α} (hl : x ∉ l) (hl' : x ∉ l')
    (h : l ++ x :: r = l' ++ x :: r') : l = l' ∧ r = r' := by
  induction l generalizing l' with
  | nil =>
    cases l' with
    | nil => exact ⟨rfl, (List.cons.inj h).2⟩
    | cons y l' => exact absurd (List.mem_cons.2 (.inl (List.cons.inj h).1)) hl'
  | cons z l ih =>
    cases l' with
    | nil => exact absurd (List.mem_cons.2 (.inl (List.cons.inj h).1.symm)) hl
    | cons y l' =>
      obtain ⟨rfl, htail⟩ := List.cons.inj h
      obtain ⟨rfl, hr⟩ := ih (List.not_mem_of_not_mem_cons hl) (List.not_mem_of_not_mem_cons hl') htail
      exact ⟨rfl, hr⟩

theorem mem_of_mem_intercalate {y : α} (h : y ∈ [x].intercalate ls) : y = x ∨ ∃ l ∈ ls, y ∈ l := by
  induction ls with
  | nil => exact absurd h List.not_mem_nil
  | cons l ls ih =>
    cases ls with
    | nil =>
      rw [List.intercalate_singleton] at h
      exact .inr ⟨l, List.mem_singleton_self l, h⟩
    | cons l' ls =>
      rw [List.intercalate_cons_cons, List.mem_append, List.mem_append, List.mem_singleton] at h
      rcases h with (h | h) | h
      · exact .inr ⟨l, List.mem_cons_self, h⟩
      · exact .inl h
      · rcases ih h with h | ⟨k, hk, hy⟩
        · exact .inl h
        · exact .inr ⟨k, List.mem_cons_of_mem l hk, hy⟩

theorem mem_intercalate_of_mem {l : List α} {y : α} (hl : l ∈ ls) (hy : y ∈ l) : y ∈ [x].intercalate ls := by
  induction ls with
  | nil => cases hl
  | cons k ls ih =>
    cases ls with
    | nil =>
      rw [List.intercalate_singleton]
      exact List.mem_singleton.1 hl ▸ hy
    | cons k' ls =>
      rw [List.intercalate_cons_cons]
      rcases List.mem_cons.1 hl with rfl | hl
      · exact List.mem_append_left _ (List.mem_append_left _ hy)
      · exact List.mem_append_right _ (ih hl)

variable [DecidableEq α]

theorem mem_iff_mem_splitOn {l : List α} {y : α} (hne : y ≠ x) : y ∈ l ↔ ∃ part ∈ l.splitOn x, y ∈ part := by
  have hl : [x].intercalate (l.splitOn x) = l := List.intercalate_splitOn x
  constructor
  · intro hy
    rw [← hl] at hy
    exact (mem_of_mem_intercalate hy).resolve_left hne
  · rintro ⟨part, hpart, hy⟩
    rw [← hl]
    exact mem_intercalate_of_mem hpart hy

/-- One separator between two fields, and those in the fields. -/
theorem count_intercalate (hne : ls ≠ []) :
    ([x].intercalate ls).count x + 1 = ls.length + (ls.map (·.count x)).sum := by
  induction ls with
  | nil => exact absurd rfl hne
  | cons l ls ih =>
    cases ls with
    | nil =>
      rw [List.intercalate_singleton]
      simp [Nat.add_comm]
    | cons l' ls =>
      have hrest := ih (List.cons_ne_nil _ _)
      rw [List.intercalate_cons_cons, List.count_append, List.count_append, List.count_singleton_self,
        List.length_cons, List.map_cons, List.sum_cons]
      omega

theorem intercalate_inj (hlen : ls.length = ls'.length) (hfree : ∀ l ∈ ls, x ∉ l)
    (h : [x].intercalate ls = [x].intercalate ls') : ls = ls' := by
  rcases List.eq_nil_or_concat ls with rfl | ⟨front, last, hls⟩
  · exact (List.length_eq_zero_iff.1 hlen.symm).symm
  have hne : ls ≠ [] := by simp [hls]
  have hne' : ls' ≠ [] := fun hnil => hne (List.length_eq_zero_iff.1 (by rw [hlen, hnil]; rfl))
  -- the joined text has no more separators than the fields need
  have hnone : (ls.map (·.count x)).sum = 0 := by
    refine List.sum_eq_zero_iff_forall_eq_nat.2 fun n hn => ?_
    obtain ⟨l, hl, rfl⟩ := List.mem_map.1 hn
    exact List.count_eq_zero.2 (hfree l hl)
  have hnone' : (ls'.map (·.count x)).sum = 0 := by
    have hcount : ([x].intercalate ls).count x + 1 = _ := count_intercalate hne
    have hcount' : ([x].intercalate ls').count x + 1 = _ := count_intercalate hne'
    rw [h] at hcount
    omega
  have hfree' : ∀ l ∈ ls', x ∉ l := by
    intro l hl
    exact List.count_eq_zero.1 (List.sum_eq_zero_iff_forall_eq_nat.1 hnone' _ (List.mem_map_of_mem hl))
  rw [← List.splitOn_intercalate x hfree hne, h, List.splitOn_intercalate x hfree' hne']

/-- A separator that is no digit is in no numeral. -/
theorem notMem_toDigits {c : Char} (hc : c.isDigit = false) (n : Nat) : c ∉ Nat.toDigits 10 n := by
  intro hmem
  have hdigit : c.isDigit = true := Nat.isDigit_of_mem_toDigits (by decide) (by decide) hmem
  rw [hc] at hdigit
  cases hdigit

end Separator
