import Mathlib.Data.List.DropRight
import Mathlib.Data.List.Infix
import Mathlib.Tactic.Common

/-!
# What a history holds since its last mark

`since mark l` is what comes after the last element of `l` that satisfies `mark`, and all of `l` when
there is none. `withPast l` pairs each element with what precedes it.
-/

namespace History

variable {α : Type*} {mark mark' : α → Bool} {l l₁ l₂ : List α} {x : α}

def since (mark : α → Bool) (l : List α) : List α := l.rtakeWhile fun x => !mark x

@[simp] theorem since_nil : since mark [] = [] := rfl

theorem since_concat : since mark (l ++ [x]) = if mark x then [] else since mark l ++ [x] := by
  rw [since, List.rtakeWhile_concat]
  cases mark x <;> rfl

theorem not_mark_of_mem_since (h : x ∈ since mark l) : mark x = false := by
  simpa using List.mem_rtakeWhile_imp h

theorem since_eq_self (h : ∀ x ∈ l, mark x = false) : since mark l = l :=
  List.rtakeWhile_eq_self_iff.2 fun x hx => by simp [h x hx]

theorem since_congr (h : ∀ x ∈ l, mark x = mark' x) : since mark l = since mark' l := by
  induction l using List.reverseRecOn with
  | nil => rfl
  | append_singleton l y ih =>
    rw [since_concat, since_concat, h y (by simp), ih fun x hx => h x (by simp [hx])]

theorem since_sublist : (since mark l).Sublist l := (List.rtakeWhile_suffix _ l).sublist

theorem since_append_of_not (h : ∀ x ∈ l₂, mark x = false) :
    since mark (l₁ ++ l₂) = since mark l₁ ++ l₂ := by
  induction l₂ using List.reverseRecOn with
  | nil => simp
  | append_singleton l₂ y ih =>
    have hy : mark y = false := h y (by simp)
    rw [← List.append_assoc, since_concat, hy, ih fun x hx => h x (by simp [hx])]
    simp

theorem since_append_cons (h : mark x = true) : since mark (l₁ ++ x :: l₂) = since mark l₂ := by
  induction l₂ using List.reverseRecOn with
  | nil => simp [since_concat, h]
  | append_singleton l₂ y ih =>
    have hassoc : l₁ ++ x :: (l₂ ++ [y]) = l₁ ++ x :: l₂ ++ [y] := by simp
    rw [hassoc, since_concat, since_concat, ih]

/-- A history with a mark splits at its last one. -/
theorem exists_last_mark (h : ∃ x ∈ l, mark x = true) :
    ∃ front x, mark x = true ∧ l = front ++ x :: since mark l := by
  induction l using List.reverseRecOn with
  | nil => obtain ⟨x, hx, -⟩ := h; cases hx
  | append_singleton l y ih =>
    by_cases hy : mark y = true
    · exact ⟨l, y, hy, by simp [since_concat, hy]⟩
    · obtain ⟨x, hx, hm⟩ := h
      have hxl : x ∈ l := by
        rcases List.mem_append.1 hx with hx | hx
        · exact hx
        · exact absurd (List.mem_singleton.1 hx ▸ hm) hy
      obtain ⟨front, z, hz, hl⟩ := ih ⟨x, hxl, hm⟩
      refine ⟨front, z, hz, ?_⟩
      rw [since_concat, if_neg hy]
      calc l ++ [y] = front ++ z :: since mark l ++ [y] := by rw [← hl]
        _ = front ++ z :: (since mark l ++ [y]) := by simp

theorem since_append_of_any (h : ∃ x ∈ l₂, mark x = true) :
    since mark (l₁ ++ l₂) = since mark l₂ := by
  obtain ⟨front, x, hx, hl⟩ := exists_last_mark h
  calc since mark (l₁ ++ l₂) = since mark ((l₁ ++ front) ++ x :: since mark l₂) := by
        rw [List.append_assoc, ← hl]
    _ = since mark (since mark l₂) := since_append_cons hx
    _ = since mark l₂ := since_eq_self fun _ => not_mark_of_mem_since

/-- Forgetting what precedes the last mark of one kind does not matter to a kind that includes it. -/
theorem since_since (h : ∀ x, mark x = true → mark' x = true) :
    since mark' (since mark l) = since mark' l := by
  by_cases hany : ∃ x ∈ l, mark x = true
  · obtain ⟨front, x, hx, hl⟩ := exists_last_mark hany
    conv_rhs => rw [hl, since_append_cons (h x hx)]
  · have hnone : ∀ x ∈ l, mark x = false := fun x hx => Bool.eq_false_iff.2 fun hm => hany ⟨x, hx, hm⟩
    rw [since_eq_self hnone]

/-! ### Each element with its past -/

def withPast (l : List α) : List (List α × α) := l.inits.zip l

@[simp] theorem withPast_nil : withPast ([] : List α) = [] := rfl

theorem withPast_concat : withPast (l ++ [x]) = withPast l ++ [(l, x)] := by
  have hne : l.inits ≠ [] := List.ne_nil_of_length_pos (by rw [List.length_inits]; omega)
  have hlast : l.inits.getLast hne = l := by
    rw [List.getLast_eq_getElem, List.getElem_inits, List.length_inits, Nat.add_sub_cancel, List.take_length]
  have hlen : l.inits.dropLast.length = l.length := by
    rw [List.length_dropLast, List.length_inits, Nat.add_sub_cancel]
  have hinits : l.inits = l.inits.dropLast ++ [l] := by
    conv_lhs => rw [← List.dropLast_append_getLast hne, hlast]
  have hpast : withPast l = l.inits.dropLast.zip l :=
    calc l.inits.zip l = (l.inits.dropLast ++ [l]).zip (l ++ []) := by rw [← hinits, List.append_nil]
      _ = l.inits.dropLast.zip l ++ [l].zip [] := List.zip_append hlen
      _ = l.inits.dropLast.zip l := List.append_nil _
  have hwhole : (l ++ [x]).inits = l.inits.dropLast ++ [l, l ++ [x]] := by
    rw [List.inits_append]
    conv_lhs => rw [hinits]
    simp
  rw [hpast, withPast, hwhole, List.zip_append hlen]
  rfl

end History
