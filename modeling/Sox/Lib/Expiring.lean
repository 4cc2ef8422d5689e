import Mathlib.Algebra.Order.Group.Basic
import Sox.Lib.Dict

/-!
# Keys that expire

A check of a key at a reading of a clock first drops the entries from before `now - W`, and then
enters the key at `now` unless it is there. The readings of successive checks need not increase.
`Remembered` tells from the log of the checks, newest first, whether a key is still there: some
check entered it, and every reading since is within `W` of the one it was entered at.
-/

namespace Expiring

structure Check (κ τ : Type*) where
  key : κ
  reading : τ
  entered : Bool

variable {κ τ : Type*} [DecidableEq κ] [AddCommGroup τ] [LinearOrder τ] {W now m : τ} {k : κ}
  {d : Dict κ τ} {log : List (Check κ τ)}

def prune (W now : τ) (d : Dict κ τ) : Dict κ τ := d.filter fun _ t => !decide (t < now - W)

/-- Whether the key was entered, and the entries after the check. -/
def check (W : τ) (k : κ) (now : τ) (d : Dict κ τ) : Bool × Dict κ τ :=
  if ((prune W now d).get? k).isSome then (false, prune W now d) else (true, (prune W now d).set k now)

/-- The key was entered and has not expired for a check at `now`. -/
def Remembered (W : τ) (k : κ) : τ → List (Check κ τ) → Prop
  | _, [] => False
  | now, c :: earlier =>
    (c.entered = true ∧ c.key = k ∧ now ≤ c.reading + W) ∨ Remembered W k (max now c.reading) earlier

instance Remembered.decidable (W : τ) (k : κ) : ∀ now log, Decidable (Remembered W k now log)
  | _, [] => isFalse id
  | now, c :: earlier =>
    have := Remembered.decidable W k (max now c.reading) earlier
    inferInstanceAs (Decidable (_ ∨ _))

omit [DecidableEq κ] in
/-- Under readings that never decrease a key is remembered from any check that entered it within `W`. -/
theorem remembered_iff_of_ordered (hlog : log.Pairwise fun c c' => c'.reading ≤ c.reading)
    (hnow : ∀ c ∈ log, c.reading ≤ now) :
    Remembered W k now log ↔ ∃ c ∈ log, c.entered = true ∧ c.key = k ∧ now ≤ c.reading + W := by
  induction log with
  | nil => simp [Remembered]
  | cons c log ih =>
    obtain ⟨-, hlog⟩ := List.pairwise_cons.1 hlog
    have hc : max now c.reading = now := max_eq_left (hnow c List.mem_cons_self)
    rw [Remembered, hc, ih hlog fun c' hc' => hnow c' (List.mem_cons_of_mem _ hc'), List.exists_mem_cons_iff]

/-- The entries are those that the log remembers. -/
def Tracks (W : τ) (d : Dict κ τ) (log : List (Check κ τ)) : Prop :=
  ∀ k now, Remembered W k now log ↔ ∃ t, d.get? k = some t ∧ now - W ≤ t

theorem tracks_empty : Tracks W (.empty : Dict κ τ) [] := fun k now => by simp [Remembered]

theorem get?_prune {t : τ} : (prune W now d).get? k = some t ↔ d.get? k = some t ∧ now - W ≤ t := by
  simp [prune, Dict.get?_filter]

theorem Tracks.entered_iff (h : Tracks W d log) :
    (check W k now d).1 = true ↔ ¬Remembered W k now log := by
  rw [h k now, check]
  cases hk : (prune W now d).get? k with
  | none =>
    simp only [Option.isSome_none, Bool.false_eq_true, ↓reduceIte, true_iff]
    rintro ⟨t, ht⟩
    rw [get?_prune.2 ht] at hk
    cases hk
  | some t =>
    simp only [Option.isSome_some, ↓reduceIte, Bool.false_eq_true, false_iff, not_not]
    exact ⟨t, get?_prune.1 hk⟩

variable [IsOrderedAddMonoid τ]

theorem Tracks.prune (h : Tracks W d log) :
    Remembered W k (max now m) log ↔ ∃ t, (prune W m d).get? k = some t ∧ now - W ≤ t := by
  rw [h k]
  simp only [get?_prune, sub_le_iff_le_add, max_le_iff]
  constructor
  · rintro ⟨t, ht, hnow, hm⟩; exact ⟨t, ⟨ht, hm⟩, hnow⟩
  · rintro ⟨t, ⟨ht, hm⟩, hnow⟩; exact ⟨t, ht, hnow, hm⟩

theorem Tracks.check (h : Tracks W d log) (k : κ) (m : τ) :
    Tracks W (check W k m d).2 (⟨k, m, (check W k m d).1⟩ :: log) := by
  intro j now
  simp only [Remembered, h.prune, Expiring.check]
  cases hk : (Expiring.prune W m d).get? k with
  | some t => simp
  | none =>
    simp only [Option.isSome_none, Bool.false_eq_true, ↓reduceIte, true_and, Dict.get?_set]
    by_cases hj : j = k
    · subst hj
      simp [hk]
    · simp [hj, Ne.symm hj]

end Expiring
