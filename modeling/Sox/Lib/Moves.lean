import Mathlib.Order.Defs.Unbundled

/-!
# Where a program can go

Programs on a state that keep what they changed when they fail. `Moves R p`: whatever state `p` is run
in, the state it leaves is related to it by `R`. With a reflexive and transitive `R` this composes, so
what a program can do to the state is read off its primitive steps. `Yields R p s r t` compares a program
with a machine whose states `R` relates to its own: it gives what the machine gives, and goes where it goes.
-/

/-- A program on states of type `σ` with errors of type `ε`. -/
abbrev Effect (σ ε α : Type) := ExceptT ε (StateM σ) α

namespace Effect

variable {σ ε α β : Type}

/-- Looks at the state. -/
def look (f : σ → Except ε α) : Effect σ ε α := fun s => (f s, s)

def Moves (R : σ → σ → Prop) (p : Effect σ ε α) : Prop := ∀ s, R s (p s).2

section
variable {R : σ → σ → Prop} {p : Effect σ ε α} {f : α → Effect σ ε β}

theorem bind_apply (p : Effect σ ε α) (f : α → Effect σ ε β) (s : σ) :
    (p >>= f) s = match p s with
      | (.ok a, s') => f a s'
      | (.error e, s') => (.error e, s') := by
  show ExceptT.bindCont f (p s).1 (p s).2 = _
  obtain ⟨r, s'⟩ := p s
  cases r <;> rfl

theorem bind_ok {s s' : σ} {a : α} (h : p s = (.ok a, s')) : (p >>= f) s = f a s' := by
  rw [bind_apply, h]

/-- What only makes an answer leaves the state alone. -/
theorem bind_pure_snd (p : Effect σ ε α) (g : α → β) (s : σ) : ((p >>= fun a => pure (g a)) s).2 = (p s).2 := by
  rw [bind_apply]
  rcases p s with ⟨e | a, s'⟩
  · rfl
  · rfl

theorem moves_look [Std.Refl R] {g : σ → Except ε α} : Moves R (look g) := fun s => refl s

theorem moves_pure [Std.Refl R] {a : α} : Moves R (pure a : Effect σ ε α) := fun s => refl s

theorem moves_throw [Std.Refl R] {e : ε} : Moves R (throw e : Effect σ ε α) := fun s => refl s

theorem Moves.bind [IsTrans σ R] (hp : Moves R p) (hf : ∀ a, Moves R (f a)) : Moves R (p >>= f) := by
  intro s
  have hs := hp s
  rw [bind_apply]
  split
  · rename_i a s' heq
    rw [heq] at hs
    exact IsTrans.trans _ _ _ hs (hf a s')
  · rename_i e s' heq
    rw [heq] at hs
    exact hs

theorem moves_forM [IsPreorder σ R] {l : List α} {f : α → Effect σ ε PUnit} (h : ∀ a ∈ l, Moves R (f a)) :
    Moves R (l.forM f) := by
  induction l with
  | nil => exact moves_pure
  | cons a l ih =>
    exact (h a List.mem_cons_self).bind fun _ => ih fun b hb => h b (List.mem_cons_of_mem a hb)

end

/-! ### Following another machine -/

/-- Run in `s`, the program gives the result `r` and leaves a state that is related to `t`. -/
def Yields {τ : Type} (R : σ → τ → Prop) (p : Effect σ ε α) (s : σ) (r : Except ε α) (t : τ) : Prop :=
  ∃ s', p s = (r, s') ∧ R s' t

section
variable {τ : Type} {R : σ → τ → Prop} {p : Effect σ ε α} {f : α → Effect σ ε β} {s : σ} {t t' : τ} {a : α}
  {r : Except ε β}

theorem yields_pure (h : R s t) : Yields R (pure a : Effect σ ε α) s (.ok a) t := ⟨s, rfl, h⟩

theorem yields_throw {e : ε} (h : R s t) : Yields R (throw e : Effect σ ε α) s (.error e) t := ⟨s, rfl, h⟩

/-- What follows a look starts in the same state. -/
theorem Yields.of_look {g : σ → Except ε α} (hg : g s = .ok a) (h : Yields R (f a) s r t) :
    Yields R (look g >>= f) s r t := by
  obtain ⟨s', hs, hR⟩ := h
  have hlook : look g s = (.ok a, s) := by rw [← hg]; rfl
  exact ⟨s', (bind_ok hlook).trans hs, hR⟩

theorem Yields.bind (hp : Yields R p s (.ok a) t) (hf : ∀ s', R s' t → Yields R (f a) s' r t') :
    Yields R (p >>= f) s r t' := by
  obtain ⟨s', hs, hR⟩ := hp
  obtain ⟨s'', hs', hR'⟩ := hf s' hR
  exact ⟨s'', (bind_ok hs).trans hs', hR'⟩

/-- Steps that each follow the other machine follow it one after the other. -/
theorem yields_forM {γ : Type} {l : List γ} {f : γ → Effect σ ε PUnit} {g : τ → γ → τ}
    (hf : ∀ x ∈ l, ∀ s t, R s t → Yields R (f x) s (.ok ⟨⟩) (g t x)) (h : R s t) :
    Yields R (l.forM f) s (.ok ⟨⟩) (l.foldl g t) := by
  induction l generalizing s t with
  | nil => exact yields_pure h
  | cons x l ih =>
    exact (hf x List.mem_cons_self s t h).bind fun _ h' => ih (fun y hy => hf y (List.mem_cons_of_mem x hy)) h'

end

end Effect
