import Mathlib.Algebra.BigOperators.Group.List.Basic
import Mathlib.Tactic.Ring

/-!
# A queue that is served in batches

In every round some items come in and then up to `m` are taken from the front. `place` follows an item
with `k` others ahead of it: what matters of an arrival is whether it goes in front of the item.
`place_eq_none_iff` says in which rounds the item can be taken. A queue that is sorted by `r` has as
many items ahead of one as are before it in `r`.
-/

namespace Batches

variable {m k : ℕ} {ns : List ℕ}

/-- How many are ahead after the rounds, if the item has not been taken; `ns` tells how many came in
ahead of it before each batch. -/
def place (m : ℕ) : ℕ → List ℕ → Option ℕ
  | k, [] => some k
  | k, n :: ns => if k + n < m then none else place m (k + n - m) ns

theorem place_eq_none_iff :
    place m k ns = none ↔ ∃ j < ns.length, k + (ns.take (j + 1)).sum < (j + 1) * m := by
  induction ns generalizing k with
  | nil => simp [place]
  | cons n ns ih =>
    rw [place]
    by_cases hnow : k + n < m
    · rw [if_pos hnow]
      exact iff_of_true rfl ⟨0, by simp, by simpa using hnow⟩
    · rw [if_neg hnow, ih]
      constructor
      · rintro ⟨j, hj, hsum⟩
        refine ⟨j + 1, by simpa using hj, ?_⟩
        have hmul : (j + 1 + 1) * m = (j + 1) * m + m := Nat.succ_mul _ _
        rw [List.take_succ_cons, List.sum_cons, hmul]
        omega
      · rintro ⟨j, hj, hsum⟩
        cases j with
        | zero =>
          rw [List.take_succ_cons, List.sum_cons, List.take_zero, List.sum_nil] at hsum
          omega
        | succ j =>
          have hmul : (j + 1 + 1) * m = (j + 1) * m + m := Nat.succ_mul _ _
          rw [List.take_succ_cons, List.sum_cons, hmul] at hsum
          exact ⟨j, by simpa using hj, by omega⟩

/-- Without arrivals ahead, the item is taken by the round that its place asks for. -/
theorem place_quiet (hm : 0 < m) (hns : ∀ n ∈ ns, n = 0) (hlen : k / m < ns.length) :
    place m k ns = none := by
  refine place_eq_none_iff.2 ⟨k / m, hlen, ?_⟩
  have hzero : (ns.take (k / m + 1)).sum = 0 :=
    List.sum_eq_zero fun n hn => hns n (List.mem_of_mem_take hn)
  rw [hzero, Nat.add_zero, Nat.mul_comm]
  exact Nat.lt_mul_div_succ k hm

/-! ### Sorted queues -/

section
variable {α : Type*} {r : α → α → Bool} {l : List α} {x : α}

theorem mem_take_iff (hasymm : ∀ a b, r a b = true → r b a = false) (hl : l.Pairwise (r · ·))
    (hx : x ∈ l) : x ∈ l.take k ↔ l.countP (r · x) < k := by
  induction l generalizing k with
  | nil => cases hx
  | cons y l ih =>
    obtain ⟨hy, hl⟩ := List.pairwise_cons.1 hl
    by_cases hxy : x = y
    · subst hxy
      have hself : r x x = false := by
        cases h : r x x with
        | false => rfl
        | true => rw [hasymm x x h] at h; cases h
      have hnone : (x :: l).countP (r · x) = 0 := by
        rw [List.countP_eq_zero]
        intro z hz
        rcases List.mem_cons.1 hz with rfl | hz
        · simp [hself]
        · simp [hasymm x z (hy z hz)]
      rw [hnone]
      cases k <;> simp
    · have hxl := (List.mem_cons.1 hx).resolve_left hxy
      rw [List.countP_cons_of_pos (p := fun z => r z x) (hy x hxl)]
      cases k with
      | zero => simp
      | succ k =>
        rw [List.take_succ_cons, List.mem_cons, or_iff_right hxy, ih hl hxl]
        omega

theorem countP_drop (hl : l.Pairwise (r · ·)) (hx : x ∈ l.drop k) :
    (l.drop k).countP (r · x) + k = l.countP (r · x) := by
  have hk : (l.take k).length = k := by
    rw [List.length_take]
    have hpos := List.length_pos_of_mem hx
    rw [List.length_drop] at hpos
    omega
  have hall : (l.take k).countP (r · x) = (l.take k).length := by
    rw [List.countP_eq_length]
    intro y hy
    rw [← List.take_append_drop k l, List.pairwise_append] at hl
    exact hl.2.2 y hy x hx
  conv_rhs => rw [← List.take_append_drop k l, List.countP_append, hall, hk]
  exact Nat.add_comm _ _

end

end Batches
