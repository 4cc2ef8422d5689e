import Sox.Lib.System

/-!
# Runs with actions taken out

`own s a` is what is left of the action `a` that a run takes in the state `s`: the action itself, another
one that says the same where fewer actions came before, or nothing. `project own s as` is what is left
of a run. A relation between the states of the two runs that every allowed step keeps holds between
their ends; where the guard also allows no step after which the two states look different, the guarded
runs are exactly those that look, throughout, like what is left of them.
-/

namespace ActionSystem

variable {σ α : Type*} {M : ActionSystem σ α} {own : σ → α → Option α} {G : σ → α → Prop}
  {R Alike : σ → σ → Prop} {s s' t t' : σ} {a : α} {as bs : List α}

def project (M : ActionSystem σ α) (own : σ → α → Option α) : σ → List α → List α
  | _, [] => []
  | s, a :: as => (own s a).toList ++ match M.step s a with
    | none => []
    | some t => M.project own t as

theorem project_cons (h : M.step s a = some t) :
    M.project own s (a :: as) = (own s a).toList ++ M.project own t as := by
  rw [project, h]

theorem run_toList_none : M.run s (none : Option α).toList = some t ↔ s = t := by
  simp [run]

theorem run_toList_some : M.run s (some a).toList = some t ↔ M.step s a = some t := by
  simp [run]

theorem guarded_project_iff
    (hstep : ∀ s s' a t, R s s' → M.step s a = some t → G s a →
      ∃ t', M.run s' (own s a).toList = some t' ∧ R t t')
    (hback : ∀ s s' a t t', R s s' → M.step s a = some t → M.run s' (own s a).toList = some t' →
      Alike t t' → G s a)
    (halike : ∀ s s', R s s' → Alike s s') (hs : R s s') (hr : M.run s as = some t) :
    M.Guarded G s as ↔ ∀ bs u, bs <+: as → M.run s bs = some u →
      ∃ u', M.run s' (M.project own s bs) = some u' ∧ Alike u u' := by
  induction as generalizing s s' with
  | nil =>
    refine iff_of_true trivial fun bs u hbs hu => ?_
    rw [List.prefix_nil.1 hbs] at hu ⊢
    cases hu
    exact ⟨s', rfl, halike s s' hs⟩
  | cons a as ih =>
    obtain ⟨s₁, h₁, h₂⟩ := run_cons.1 hr
    rw [guarded_cons]
    constructor
    · rintro ⟨hG, hrest⟩ bs u hbs hu
      cases bs with
      | nil =>
        cases hu
        exact ⟨s', rfl, halike s s' hs⟩
      | cons b bs =>
        obtain ⟨rfl, hpre⟩ := List.cons_prefix_cons.1 hbs
        obtain ⟨s₂, h₃, h₄⟩ := run_cons.1 hu
        obtain rfl : s₁ = s₂ := Option.some.inj (h₁.symm.trans h₃)
        obtain ⟨s₁', hown, hR⟩ := hstep s s' b s₁ hs h₁ hG
        obtain ⟨u', hu', halike'⟩ := (ih hR h₂).1 (hrest s₁ h₁) bs u hpre h₄
        rw [project_cons h₁]
        exact ⟨u', run_append.2 ⟨s₁', hown, hu'⟩, halike'⟩
    · intro h
      have hfirst := h [a] s₁ (by simp) (run_cons.2 ⟨s₁, h₁, rfl⟩)
      rw [project_cons h₁, project, List.append_nil] at hfirst
      obtain ⟨s₁', hown, halike'⟩ := hfirst
      have hG : G s a := hback s s' a s₁ s₁' hs h₁ hown halike'
      obtain ⟨t', ht', hR⟩ := hstep s s' a s₁ hs h₁ hG
      obtain rfl : s₁' = t' := Option.some.inj (hown.symm.trans ht')
      refine ⟨hG, fun s₂ h₃ => ?_⟩
      obtain rfl : s₁ = s₂ := Option.some.inj (h₁.symm.trans h₃)
      refine (ih hR h₂).2 fun bs u hbs hu => ?_
      obtain ⟨u', hu', halike''⟩ := h (a :: bs) u (List.cons_prefix_cons.2 ⟨rfl, hbs⟩)
        (run_cons.2 ⟨s₁, h₁, hu⟩)
      rw [project_cons h₁] at hu'
      obtain ⟨v, hv, hu'⟩ := run_append.1 hu'
      obtain rfl : s₁' = v := Option.some.inj (hown.symm.trans hv)
      exact ⟨u', hu', halike''⟩

end ActionSystem
