import Mathlib.Data.List.TakeDrop
import Mathlib.Tactic.Common

/-!
# Reading a growing log page by page

`logs i` is the log when page `i` is read: later logs extend earlier ones and their keys ascend. A page
is the first `limit` elements from the key `since` on, up to an upper bound if there is one; as long as
there were more, the next page starts behind the last key of this one. The pages together are what lies
between the bounds in the log of the last page (`collect_eq`), and there is a last page if the keys that
count are bounded (`collect_terminates`).
-/

namespace Paging

variable {α : Type*} {key : α → Nat} {logs : Nat → List α} {log log' out page rest : List α}
  {since : Int} {top : Option Int} {limit fuel i n : Nat} {x : α}

def inRange (key : α → Nat) (since : Int) (top : Option Int) (x : α) : Bool :=
  decide (since ≤ key x) && top.all fun u => decide ((key x : Int) ≤ u)

def range (key : α → Nat) (since : Int) (top : Option Int) (log : List α) : List α :=
  log.filter (inRange key since top)

/-- The key behind the last element of the page. -/
def next (key : α → Nat) (since : Int) (page : List α) : Int := page.getLast?.elim since fun x => key x + 1

/-- What the pages from page `i` on hold, and the number of the last. -/
def collect (key : α → Nat) (logs : Nat → List α) (top : Option Int) (limit : Nat) :
    Nat → Nat → Int → Option (List α × Nat)
  | 0, _, _ => none
  | fuel + 1, i, since =>
    let found := range key since top (logs i)
    let page := found.take limit
    if limit < found.length then
      (collect key logs top limit fuel (i + 1) (next key since page)).map fun r => (page ++ r.1, r.2)
    else some (page, i)

theorem inRange_iff : inRange key since top x = true ↔ since ≤ key x ∧ ∀ u ∈ top, (key x : Int) ≤ u := by
  cases top <;> simp [inRange]

theorem mem_range : x ∈ range key since top log ↔ x ∈ log ∧ since ≤ key x ∧ ∀ u ∈ top, (key x : Int) ≤ u := by
  rw [range, List.mem_filter, inRange_iff]

theorem range_of_isPrefix (h : log <+: log') : range key since top log <+: range key since top log' := h.filter _

/-- The range from behind an element of it is what follows the element. -/
theorem range_next (hasc : log.Pairwise (key · < key ·)) (hsplit : range key since top log = page ++ rest)
    (hlast : page.getLast? = some x) : range key (key x + 1) top log = rest := by
  have hrange : range key (key x + 1) top log = (range key since top log).filter fun y => decide (key x < key y) := by
    have hx : x ∈ range key since top log := by
      rw [hsplit]
      exact List.mem_append_left _ (List.mem_of_getLast? hlast)
    rw [range, range, List.filter_filter]
    refine List.filter_congr fun y _ => ?_
    rw [Bool.eq_iff_iff, Bool.and_eq_true, inRange_iff, inRange_iff, decide_eq_true_eq]
    have hle := (mem_range.1 hx).2.1
    constructor
    · rintro ⟨hy, htop⟩
      exact ⟨by omega, by omega, htop⟩
    · rintro ⟨hy, -, htop⟩
      exact ⟨by omega, htop⟩
  have hboth : (page ++ rest).Pairwise (key · < key ·) := hsplit ▸ hasc.filter _
  obtain ⟨init, rfl⟩ := List.getLast?_eq_some_iff.1 hlast
  obtain ⟨hpage, -, hcross⟩ := List.pairwise_append.1 hboth
  have hfront : (init ++ [x]).filter (fun y => decide (key x < key y)) = [] := by
    refine List.filter_eq_nil_iff.2 fun y hy => ?_
    rw [decide_eq_true_eq, Nat.not_lt]
    rcases List.mem_append.1 hy with hy | hy
    · exact Nat.le_of_lt ((List.pairwise_append.1 hpage).2.2 y hy x (List.mem_singleton_self x))
    · exact Nat.le_of_eq (congrArg key (List.mem_singleton.1 hy))
  have hback : rest.filter (fun y => decide (key x < key y)) = rest :=
    List.filter_eq_self.2 fun y hy => decide_eq_true (hcross x (by simp) y hy)
  rw [hrange, hsplit, List.filter_append, hfront, hback, List.nil_append]

/-- A full page has a last element. -/
theorem exists_getLast? (hlimit : 1 ≤ limit) (hmore : limit < log.length) :
    ∃ x, (log.take limit).getLast? = some x := by
  have hne : log.take limit ≠ [] := by
    rw [← List.length_pos_iff, List.length_take]
    omega
  exact ⟨_, List.getLast?_eq_some_getLast hne⟩

variable (hasc : ∀ i, (logs i).Pairwise (key · < key ·)) (hgrow : ∀ i, logs i <+: logs (i + 1))
  (hlimit : 1 ≤ limit)

include hgrow in
theorem logs_isPrefix (hin : i ≤ n) : logs i <+: logs n := by
  induction hin with
  | refl => exact List.prefix_refl _
  | step _ ih => exact ih.trans (hgrow _)

include hasc hgrow hlimit in
/-- Nothing is lost and nothing comes twice. -/
theorem collect_eq (h : collect key logs top limit fuel i since = some (out, n)) :
    i ≤ n ∧ out = range key since top (logs n) := by
  induction fuel generalizing i since out with
  | zero => cases h
  | succ fuel ih =>
    rw [collect] at h
    split at h
    · rename_i hmore
      obtain ⟨⟨tail, n'⟩, hrest, heq⟩ := Option.map_eq_some_iff.1 h
      obtain ⟨rfl, rfl⟩ := Prod.mk.inj heq
      obtain ⟨hn, htail⟩ := ih hrest
      -- the page is a beginning of the range in the log of the last page as well
      have hle : i ≤ n' := Nat.le_of_succ_le hn
      obtain ⟨more, hlog⟩ : range key since top (logs i) <+: range key since top (logs n') :=
        range_of_isPrefix (logs_isPrefix hgrow hle)
      refine ⟨hle, ?_⟩
      set found := range key since top (logs i) with hfound
      have hsplit : range key since top (logs n') = found.take limit ++ (found.drop limit ++ more) := by
        rw [← List.append_assoc, List.take_append_drop, hlog]
      obtain ⟨x, hx⟩ := exists_getLast? hlimit hmore
      rw [htail, next, hx, Option.elim_some, range_next (hasc n') hsplit hx, hsplit]
    · rename_i hmore
      obtain ⟨rfl, rfl⟩ := Prod.mk.inj (Option.some.inj h)
      exact ⟨Nat.le_refl i, List.take_of_length_le (Nat.not_lt.1 hmore)⟩

include hlimit in
theorem collect_terminates {bound : Int} (hbound : ∀ i, ∀ x ∈ logs i, (∀ u ∈ top, (key x : Int) ≤ u) → (key x : Int) ≤ bound)
    (hfuel : (bound + 1 - since).toNat < fuel) : ∃ out n, collect key logs top limit fuel i since = some (out, n) := by
  induction fuel generalizing i since with
  | zero => omega
  | succ fuel ih =>
    rw [collect]
    split
    · rename_i hmore
      obtain ⟨x, hx⟩ := exists_getLast? hlimit hmore
      obtain ⟨hmem, hle, htop⟩ := mem_range.1 (List.mem_of_mem_take (List.mem_of_getLast? hx))
      have hkey := hbound i x hmem htop
      rw [next, hx, Option.elim_some]
      have hless : (bound + 1 - ((key x : Int) + 1)).toNat < fuel := by omega
      obtain ⟨out, n, hrest⟩ := @ih (key x + 1) (i + 1) hless
      rw [hrest]
      exact ⟨_, n, rfl⟩
    · exact ⟨_, i, rfl⟩

end Paging
