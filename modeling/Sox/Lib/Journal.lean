import Mathlib.Tactic.Common

/-!
# Programs that commit statement by statement

A `Journal δ` program works on a durable state of type `δ`: each `exec` changes it and is durable at
once, and the program may fail in between. The journal lists the durable states one after another,
so that the states a crash can leave behind are the first state and those of the journal
(`durable`).
-/

structure Journaled (δ : Type) where
  state : δ
  journal : List δ

abbrev Journal (δ α : Type) := ExceptT String (StateM (Journaled δ)) α

namespace Journal

variable {δ α β : Type}

def read : Journal δ δ := fun j => (.ok j.state, j)

/-- One statement; a failing one changes nothing. -/
def exec (stmt : δ → Except String δ) : Journal δ Unit := fun j =>
  match stmt j.state with
  | .ok d => (.ok (), ⟨d, j.journal ++ [d]⟩)
  | .error e => (.error e, j)

/-- A script: its statements in order, each committing on its own. -/
def script : List (δ → Except String δ) → Journal δ Unit
  | [] => pure ()
  | stmt :: rest => do
    exec stmt
    script rest

def start (d : δ) : Journaled δ := ⟨d, []⟩

/-- The state that the program leaves behind when it is not interrupted, or its error. -/
def outcome (p : Journal δ α) (d : δ) : Except String δ :=
  (p (start d)).1.map fun _ => (p (start d)).2.state

/-- The states that a crash of the program can leave behind. -/
def durable (p : Journal δ α) (d : δ) : List δ := d :: (p (start d)).2.journal

/-- `p` run in `d` returns `a` and makes the states `ds` durable, of which `d'` is the last. -/
def Runs (p : Journal δ α) (d : δ) (a : α) (ds : List δ) (d' : δ) : Prop :=
  ∀ j, p ⟨d, j⟩ = (.ok a, ⟨d', j ++ ds⟩)

/-- `p` run in `d` fails with the error `e` after it has made the states `ds` durable. -/
def Fails (p : Journal δ α) (d : δ) (e : String) (ds : List δ) (d' : δ) : Prop :=
  ∀ j, p ⟨d, j⟩ = (.error e, ⟨d', j ++ ds⟩)

section
variable {d d₁ d₂ : δ} {ds es : List δ} {a : α} {b : β} {p : Journal δ α} {f : α → Journal δ β}
  {stmt : δ → Except String δ} {rest : List (δ → Except String δ)}

theorem runs_pure : Runs (pure a) d a [] d := fun j => by rw [List.append_nil]; rfl

theorem runs_read : Runs read d d [] d := fun j => by rw [List.append_nil]; rfl

theorem runs_exec (h : stmt d = .ok d₁) : Runs (exec stmt) d () [d₁] d₁ := fun j => by
  simp only [exec, h]

theorem Runs.bind (hp : Runs p d a ds d₁) (hf : Runs (f a) d₁ b es d₂) :
    Runs (p >>= f) d b (ds ++ es) d₂ := by
  intro j
  have h : (p >>= f) ⟨d, j⟩ = ExceptT.bindCont f (p ⟨d, j⟩).1 (p ⟨d, j⟩).2 := rfl
  rw [h, hp j, ← List.append_assoc, ← hf (j ++ ds)]
  rfl

theorem runs_script_nil : Runs (script []) d () [] d := runs_pure

theorem runs_script_cons (h : stmt d = .ok d₁) (hrest : Runs (script rest) d₁ () ds d₂) :
    Runs (script (stmt :: rest)) d () (d₁ :: ds) d₂ := (runs_exec h).bind hrest

theorem Runs.outcome_eq (h : Runs p d a ds d₁) : p.outcome d = .ok d₁ := by
  simp only [outcome, start, h []]
  rfl

theorem Runs.durable_eq (h : Runs p d a ds d₁) : p.durable d = d :: ds := by
  simp only [durable, start, h []]
  rfl

theorem outcome_eq_ok (h : p.outcome d = .ok d₁) : (p (start d)).2.state = d₁ := by
  unfold outcome at h
  cases hp : (p (start d)).1 with
  | error e => rw [hp] at h; cases h
  | ok a =>
    rw [hp] at h
    exact Except.ok.inj h

theorem fails_throw {e : String} : Fails (throw e : Journal δ α) d e [] d := fun j => by
  rw [List.append_nil]
  rfl

theorem Runs.bind_fails {e : String} (hp : Runs p d a ds d₁) (hf : Fails (f a) d₁ e es d₂) :
    Fails (p >>= f) d e (ds ++ es) d₂ := by
  intro j
  have h : (p >>= f) ⟨d, j⟩ = ExceptT.bindCont f (p ⟨d, j⟩).1 (p ⟨d, j⟩).2 := rfl
  rw [h, hp j, ← List.append_assoc, ← hf (j ++ ds)]
  rfl

theorem Fails.outcome_eq {e : String} (h : Fails p d e ds d₁) : p.outcome d = .error e := by
  simp only [outcome, start, h []]
  rfl

theorem Fails.durable_eq {e : String} (h : Fails p d e ds d₁) : p.durable d = d :: ds := by
  simp only [durable, start, h []]
  rfl

end

/-! ### Invariants -/

section
variable {I : δ → Prop} {d : δ} {p : Journal δ α} {f : α → Journal δ β} {stmt : δ → Except String δ}

/-- Started where `I` holds, `p` leaves no state in which it does not. -/
def Keeps (I : δ → Prop) (p : Journal δ α) : Prop :=
  ∀ j : Journaled δ, I j.state → (∀ d ∈ j.journal, I d) →
    I (p j).2.state ∧ ∀ d ∈ (p j).2.journal, I d

theorem keeps_pure {a : α} : Keeps I (pure a : Journal δ α) := fun _ hstate hjournal => ⟨hstate, hjournal⟩

theorem keeps_read : Keeps I (read : Journal δ δ) := fun _ hstate hjournal => ⟨hstate, hjournal⟩

theorem keeps_throw {e : String} : Keeps I (throw e : Journal δ α) :=
  fun _ hstate hjournal => ⟨hstate, hjournal⟩

theorem keeps_exec (h : ∀ d d', I d → stmt d = .ok d' → I d') : Keeps I (exec stmt) := by
  intro j hstate hjournal
  unfold exec
  cases hstmt : stmt j.state with
  | error e => exact ⟨hstate, hjournal⟩
  | ok d =>
    have hd := h _ _ hstate hstmt
    refine ⟨hd, fun d' hd' => ?_⟩
    rcases List.mem_append.1 hd' with hold | hnew
    · exact hjournal d' hold
    · rw [List.mem_singleton.1 hnew]
      exact hd

theorem Keeps.bind (hp : Keeps I p) (hf : ∀ a, Keeps I (f a)) : Keeps I (p >>= f) := by
  intro j hstate hjournal
  have h : (p >>= f) j = ExceptT.bindCont f (p j).1 (p j).2 := rfl
  have hj := hp j hstate hjournal
  rw [h]
  cases (p j).1 with
  | error e => exact hj
  | ok a => exact hf a _ hj.1 hj.2

theorem keeps_script {sql : List (δ → Except String δ)}
    (h : ∀ stmt ∈ sql, ∀ d d', I d → stmt d = .ok d' → I d') : Keeps I (script sql) := by
  induction sql with
  | nil => exact keeps_pure
  | cons stmt rest ih =>
    have hstmt := keeps_exec (h stmt List.mem_cons_self)
    exact hstmt.bind fun _ => ih fun stmt' hmem => h stmt' (List.mem_cons_of_mem _ hmem)

theorem Keeps.outcome (h : Keeps I p) (hd : I d) {d' : δ} (hp : p.outcome d = .ok d') : I d' := by
  rw [← outcome_eq_ok hp]
  exact (h (start d) hd (fun _ hnil => absurd hnil List.not_mem_nil)).1

theorem Keeps.durable (h : Keeps I p) (hd : I d) : ∀ d' ∈ p.durable d, I d' := by
  intro d' hd'
  rcases List.mem_cons.1 hd' with rfl | hmem
  · exact hd
  · exact (h (start d) hd (fun _ hnil => absurd hnil List.not_mem_nil)).2 d' hmem

end

end Journal
