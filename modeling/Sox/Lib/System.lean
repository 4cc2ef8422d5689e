import Mathlib.Tactic.Common

/-!
# Deterministic action systems

In each state of an `ActionSystem` an action either gives the next state or is not possible. A run
is a list of actions; interleavings of several parties are runs whose actions name the party taking
the step. `Guarded G` restricts a run to actions that `G` allows in the state they are taken in. The
induction over runs is done once, in `run_invariant` (a property of states) and `run_rel` (a
relation between the first and the last state).
-/

structure ActionSystem (σ α : Type*) where
  step : σ → α → Option σ

namespace ActionSystem

variable {σ α : Type*} {M : ActionSystem σ α} {G : σ → α → Prop} {s t : σ} {a : α} {as bs : List α}

def run (M : ActionSystem σ α) : σ → List α → Option σ
  | s, [] => some s
  | s, a :: as => (M.step s a).bind fun s' => M.run s' as

/-- Every action of the run is taken in a state in which `G` allows it. -/
def Guarded (M : ActionSystem σ α) (G : σ → α → Prop) : σ → List α → Prop
  | _, [] => True
  | s, a :: as => G s a ∧ match M.step s a with
    | none => True
    | some s' => M.Guarded G s' as

instance Guarded.decidable [∀ s a, Decidable (G s a)] : ∀ s as, Decidable (M.Guarded G s as)
  | _, [] => isTrue trivial
  | s, a :: as =>
    have : Decidable (match M.step s a with | none => True | some s' => M.Guarded G s' as) :=
      match M.step s a with
      | none => isTrue trivial
      | some s' => Guarded.decidable s' as
    inferInstanceAs (Decidable (_ ∧ _))

def final (M : ActionSystem σ α) (s : σ) (as : List α) : σ := (M.run s as).getD s

theorem run_final (h : (M.run s as).isSome = true) : M.run s as = some (M.final s as) := by
  rw [final, Option.getD_of_ne_none (Option.isSome_iff_ne_none.1 h)]

theorem run_cons : M.run s (a :: as) = some t ↔ ∃ s', M.step s a = some s' ∧ M.run s' as = some t := by
  simp [run, Option.bind_eq_some_iff]

theorem run_append : M.run s (as ++ bs) = some t ↔ ∃ s', M.run s as = some s' ∧ M.run s' bs = some t := by
  induction as generalizing s with
  | nil => simp [run]
  | cons a as ih =>
    simp only [List.cons_append, run_cons, ih]
    constructor
    · rintro ⟨s₁, h₁, s₂, h₂, h₃⟩; exact ⟨s₂, ⟨s₁, h₁, h₂⟩, h₃⟩
    · rintro ⟨s₂, ⟨s₁, h₁, h₂⟩, h₃⟩; exact ⟨s₁, h₁, s₂, h₂, h₃⟩

theorem run_concat : M.run s (as ++ [a]) = some t ↔ ∃ s', M.run s as = some s' ∧ M.step s' a = some t := by
  simp [run_append, run]

theorem guarded_cons :
    M.Guarded G s (a :: as) ↔ G s a ∧ ∀ s', M.step s a = some s' → M.Guarded G s' as := by
  rw [Guarded]
  cases M.step s a <;> simp

theorem guarded_append :
    M.Guarded G s (as ++ bs) ↔ M.Guarded G s as ∧ ∀ s', M.run s as = some s' → M.Guarded G s' bs := by
  induction as generalizing s with
  | nil => simp [run, Guarded]
  | cons a as ih =>
    simp only [List.cons_append, guarded_cons, run_cons]
    constructor
    · rintro ⟨hG, h⟩
      refine ⟨⟨hG, fun s₁ h₁ => (ih.1 (h s₁ h₁)).1⟩, ?_⟩
      rintro s₂ ⟨s₁, h₁, h₂⟩
      exact (ih.1 (h s₁ h₁)).2 s₂ h₂
    · rintro ⟨⟨hG, h⟩, hbs⟩
      exact ⟨hG, fun s₁ h₁ => ih.2 ⟨h s₁ h₁, fun s₂ h₂ => hbs s₂ ⟨s₁, h₁, h₂⟩⟩⟩

theorem guarded_of_forall (h : ∀ a ∈ as, ∀ s, G s a) : M.Guarded G s as := by
  induction as generalizing s with
  | nil => trivial
  | cons a as ih =>
    exact guarded_cons.2 ⟨h a List.mem_cons_self s, fun s' _ => ih fun b hb => h b (List.mem_cons_of_mem a hb)⟩

/-- A property kept by every step the guard allows holds at the end of every guarded run. -/
theorem run_invariant {I : σ → Prop} (hstep : ∀ s a s', I s → G s a → M.step s a = some s' → I s')
    (hs : I s) (hg : M.Guarded G s as) (hr : M.run s as = some t) : I t := by
  induction as generalizing s with
  | nil => cases hr; exact hs
  | cons a as ih =>
    obtain ⟨s', h₁, h₂⟩ := run_cons.1 hr
    obtain ⟨hG, hrest⟩ := guarded_cons.1 hg
    exact ih (hstep s a s' hs hG h₁) (hrest s' h₁) h₂

/-- When the guard allows exactly the steps that end in a safe state, the guarded runs are exactly
the runs that stay safe throughout. -/
theorem guarded_iff {I Safe : σ → Prop}
    (hstep : ∀ s a s', I s → Safe s → M.step s a = some s' → I s' ∧ (G s a ↔ Safe s'))
    (hs : I s) (hsafe : Safe s) (hr : M.run s as = some t) :
    M.Guarded G s as ↔ ∀ bs u, bs <+: as → M.run s bs = some u → Safe u := by
  induction as generalizing s with
  | nil =>
    refine iff_of_true trivial fun bs u hbs hu => ?_
    rw [List.prefix_nil.1 hbs] at hu
    cases hu
    exact hsafe
  | cons a as ih =>
    obtain ⟨s₁, h₁, h₂⟩ := run_cons.1 hr
    obtain ⟨hI₁, hiff⟩ := hstep s a s₁ hs hsafe h₁
    rw [guarded_cons]
    constructor
    · rintro ⟨hG, hrest⟩ bs u hbs hu
      cases bs with
      | nil => cases hu; exact hsafe
      | cons b bs =>
        obtain ⟨rfl, hpre⟩ := List.cons_prefix_cons.1 hbs
        obtain ⟨s₂, h₃, h₄⟩ := run_cons.1 hu
        obtain rfl : s₁ = s₂ := Option.some.inj (h₁.symm.trans h₃)
        exact (ih hI₁ (hiff.1 hG) h₂).1 (hrest s₁ h₁) bs u hpre h₄
    · intro h
      have hsafe₁ : Safe s₁ := h [a] s₁ (by simp) (run_cons.2 ⟨s₁, h₁, rfl⟩)
      refine ⟨hiff.2 hsafe₁, fun s₂ h₃ => ?_⟩
      obtain rfl : s₁ = s₂ := Option.some.inj (h₁.symm.trans h₃)
      exact (ih hI₁ hsafe₁ h₂).2 fun bs u hbs hu =>
        h (a :: bs) u (List.cons_prefix_cons.2 ⟨rfl, hbs⟩) (run_cons.2 ⟨s₁, h₁, hu⟩)

/-- When the guard allows exactly the steps that do what `Post` says, the guarded runs are exactly the
runs all of whose steps do. -/
theorem guarded_iff_steps {Safe : σ → Prop} {Post : σ → α → σ → Prop}
    (hstep : ∀ s a s', Safe s → M.step s a = some s' → (G s a ↔ Post s a s') ∧ (Post s a s' → Safe s'))
    (hsafe : Safe s) (hr : M.run s as = some t) :
    M.Guarded G s as ↔ ∀ bs a u u', bs ++ [a] <+: as → M.run s bs = some u → M.step u a = some u' →
      Post u a u' := by
  induction as generalizing s with
  | nil =>
    refine iff_of_true trivial fun bs a u u' hbs => ?_
    simp at hbs
  | cons a as ih =>
    obtain ⟨s₁, h₁, h₂⟩ := run_cons.1 hr
    obtain ⟨hiff, hkeep⟩ := hstep s a s₁ hsafe h₁
    rw [guarded_cons]
    constructor
    · rintro ⟨hG, hrest⟩ bs b u u' hbs hu hb
      have hpost := hiff.1 hG
      cases bs with
      | nil =>
        obtain ⟨rfl, -⟩ := List.cons_prefix_cons.1 hbs
        cases hu
        obtain rfl := Option.some.inj (h₁.symm.trans hb)
        exact hpost
      | cons c bs =>
        obtain ⟨rfl, hpre⟩ := List.cons_prefix_cons.1 hbs
        obtain ⟨s₂, h₃, h₄⟩ := run_cons.1 hu
        obtain rfl : s₁ = s₂ := Option.some.inj (h₁.symm.trans h₃)
        exact (ih (hkeep hpost) h₂).1 (hrest s₁ h₁) bs b u u' hpre h₄ hb
    · intro h
      have hpost : Post s a s₁ := h [] a s s₁ (by simp) rfl h₁
      refine ⟨hiff.2 hpost, fun s₂ h₃ => ?_⟩
      obtain rfl : s₁ = s₂ := Option.some.inj (h₁.symm.trans h₃)
      exact (ih (hkeep hpost) h₂).2 fun bs b u u' hbs hu hb =>
        h (a :: bs) b u u' (List.cons_prefix_cons.2 ⟨rfl, hbs⟩) (run_cons.2 ⟨s₁, h₁, hu⟩) hb

/-- A preorder that every allowed step follows from a state with the invariant relates the ends of
every guarded run. -/
theorem run_rel {I : σ → Prop} {R : σ → σ → Prop} (hrefl : ∀ s, R s s)
    (htrans : ∀ s₁ s₂ s₃, R s₁ s₂ → R s₂ s₃ → R s₁ s₃)
    (hstep : ∀ s a s', I s → G s a → M.step s a = some s' → I s' ∧ R s s')
    (hs : I s) (hg : M.Guarded G s as) (hr : M.run s as = some t) : R s t := by
  induction as generalizing s with
  | nil => cases hr; exact hrefl _
  | cons a as ih =>
    obtain ⟨s', h₁, h₂⟩ := run_cons.1 hr
    obtain ⟨hG, hrest⟩ := guarded_cons.1 hg
    obtain ⟨hI, hR⟩ := hstep s a s' hs hG h₁
    exact htrans s s' t hR (ih hI (hrest s' h₁) h₂)

/-- A rank that every allowed step keeps, and that the actions `p` lower, bounds the number of those actions. -/
theorem run_rank {I : σ → Prop} {rank : σ → ℕ} {p : α → Bool}
    (hstep : ∀ s a s', I s → G s a → M.step s a = some s' → I s' ∧ rank s' + (if p a then 1 else 0) ≤ rank s)
    (hs : I s) (hg : M.Guarded G s as) (hr : M.run s as = some t) : I t ∧ as.countP p + rank t ≤ rank s := by
  induction as generalizing s with
  | nil =>
    cases hr
    exact ⟨hs, by simp⟩
  | cons a as ih =>
    obtain ⟨s', h₁, h₂⟩ := run_cons.1 hr
    obtain ⟨hG, hrest⟩ := guarded_cons.1 hg
    obtain ⟨hI, hrank⟩ := hstep s a s' hs hG h₁
    obtain ⟨hend, hcount⟩ := ih hI (hrest s' h₁) h₂
    refine ⟨hend, ?_⟩
    rw [List.countP_cons]
    omega

end ActionSystem
