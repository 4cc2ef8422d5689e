import Mathlib.Data.List.Induction
import Mathlib.Tactic.Common

/-!
# The facts that stand after a history

Each action of a history adds facts and takes facts back. A fact stands when an action added it and none
took it back since. `stands_of_steps` is for a state that keeps the facts: what one action does to them
says what they are after a run.
-/

namespace History

variable {α φ σ κ : Type*} {adds drops : α → φ → Prop} {l : List α} {a : α} {x : φ}

def Stands (adds drops : α → φ → Prop) (l : List α) (x : φ) : Prop :=
  ∃ front a back, l = front ++ a :: back ∧ adds a x ∧ ∀ b ∈ back, ¬drops b x

theorem stands_nil : ¬Stands adds drops [] x := by
  rintro ⟨front, a, back, h, -⟩
  simp at h

theorem stands_concat : Stands adds drops (l ++ [a]) x ↔ adds a x ∨ Stands adds drops l x ∧ ¬drops a x := by
  constructor
  · rintro ⟨front, b, back, hsplit, hadds, hkeep⟩
    rcases List.eq_nil_or_concat back with rfl | ⟨back', o, rfl⟩
    · obtain ⟨-, hb⟩ := List.append_inj' hsplit rfl
      obtain rfl := List.singleton_inj.1 hb
      exact .inl hadds
    · have hsplit' : l ++ [a] = (front ++ b :: back') ++ [o] := by simpa using hsplit
      obtain ⟨rfl, ho⟩ := List.append_inj' hsplit' rfl
      obtain rfl := List.singleton_inj.1 ho
      exact .inr ⟨⟨front, b, back', rfl, hadds, fun y hy => hkeep y (by simp [hy])⟩, hkeep a (by simp)⟩
  · rintro (hadds | ⟨⟨front, b, back, rfl, hadds, hkeep⟩, hdrops⟩)
    · exact ⟨l, a, [], rfl, hadds, by simp⟩
    · refine ⟨front, b, back ++ [a], by simp, hadds, fun o ho => ?_⟩
      rcases List.mem_append.1 ho with ho | ho
      · exact hkeep o ho
      · exact List.mem_singleton.1 ho ▸ hdrops

/-- The step of a run may rely on the part of the run before it. -/
theorem stands_of_steps {step : σ → κ → σ} {view : κ → α} {P : σ → φ → Prop} {init : σ}
    (hnone : ∀ x, ¬P init x) (run : List κ)
    (hstep : ∀ u k, u ++ [k] <+: run → ∀ x, P (step (u.foldl step init) k) x ↔
      adds (view k) x ∨ P (u.foldl step init) x ∧ ¬drops (view k) x) (x : φ) :
    P (run.foldl step init) x ↔ Stands adds drops (run.map view) x := by
  induction run using List.reverseRecOn with
  | nil => exact iff_of_false (hnone x) stands_nil
  | append_singleton run k ih =>
    have hbefore := ih fun u k' hu => hstep u k' (hu.trans (List.prefix_append run [k]))
    rw [List.foldl_append, List.map_append, List.map_singleton, stands_concat]
    exact (hstep run k (List.prefix_refl _) x).trans (or_congr_right (and_congr_left fun _ => hbefore))

end History
