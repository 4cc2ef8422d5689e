import Mathlib.Tactic.Common

/-!
# A database with one write transaction at a time

`Txn π δ`: the committed database and, while some session of `π` has written without committing,
that session's working copy. A session reads its own working copy and every other session reads the
committed database; a write by a session is possible only while no other session has an open
transaction, and it opens one. `commit` publishes the working copy, `rollback` (a crash) drops it.
-/

structure Txn (π δ : Type*) where
  committed : δ
  writer : Option (π × δ) := none

namespace Txn

variable {π δ : Type*} [DecidableEq π] {x y : Txn π δ} {p q : π} {d : δ} {f : δ → δ} {P : δ → Prop}

/-- What a statement of session `p` reads. -/
def view (x : Txn π δ) (p : π) : δ :=
  match x.writer with
  | some (q, d) => if q = p then d else x.committed
  | none => x.committed

/-- A writing statement of session `p`; `none` while another session's transaction is open. -/
def write (x : Txn π δ) (p : π) (f : δ → δ) : Option (Txn π δ) :=
  match x.writer with
  | none => some { x with writer := some (p, f x.committed) }
  | some (q, d) => if q = p then some { x with writer := some (p, f d) } else none

def commit (x : Txn π δ) (p : π) : Txn π δ :=
  match x.writer with
  | some (q, d) => if q = p then { committed := d } else x
  | none => x

def rollback (x : Txn π δ) (p : π) : Txn π δ :=
  match x.writer with
  | some (q, _) => if q = p then { committed := x.committed } else x
  | none => x

/-- `P` holds of the committed database and of an open transaction's working copy. -/
structure All (P : δ → Prop) (x : Txn π δ) : Prop where
  committed : P x.committed
  working : ∀ p d, x.writer = some (p, d) → P d

theorem All.view (h : x.All P) : P (x.view p) := by
  unfold Txn.view
  split
  · rename_i q d hw
    split
    exacts [h.working q d hw, h.committed]
  · exact h.committed

theorem All.commit (h : x.All P) : (x.commit p).All P := by
  unfold Txn.commit
  split
  · rename_i q d hw
    split
    · exact ⟨h.working q d hw, by simp⟩
    · exact h
  · exact h

theorem write_eq (h : x.write p f = some y) :
    y.committed = x.committed ∧ y.writer = some (p, f (x.view p)) := by
  unfold write at h
  unfold view
  split at h
  · rename_i hw; cases h; simp [hw]
  · rename_i q d hw
    split at h
    · rename_i hq; cases h; simp [hw, hq]
    · cases h

theorem view_write (h : x.write p f = some y) : y.view p = f (x.view p) := by
  simp [view, (write_eq h).2]

/-- A commit publishes what its session sees, and changes nothing of it. -/
theorem view_commit (x : Txn π δ) (p : π) : (x.commit p).view p = x.view p := by
  unfold commit
  split
  · rename_i q d hw
    split
    · rename_i hq
      simp [view, hw, hq]
    · rfl
  · rfl

theorem All.write (h : x.All P) (hf : P (f (x.view p))) (hw : x.write p f = some y) : y.All P := by
  obtain ⟨hc, hwr⟩ := write_eq hw
  refine ⟨hc ▸ h.committed, fun q d hd => ?_⟩
  rw [hwr] at hd
  cases hd
  exact hf

theorem writer_of_write (h : x.write p f = some y) : x.writer = none ∨ ∃ d, x.writer = some (p, d) := by
  unfold Txn.write at h
  split at h
  · exact .inl ‹_›
  · rename_i q d hw
    split at h
    · rename_i hq; exact .inr ⟨d, hq ▸ hw⟩
    · cases h

end Txn
