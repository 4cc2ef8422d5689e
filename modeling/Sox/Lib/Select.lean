import Mathlib.Data.List.Basic

/-!
# Taking from a queue by a property

`select p n l` takes the first `n` elements of `l` that satisfy `p` and leaves the others in their
order. What is taken and what is left keep, for each sort of elements that `p` does not split, the
order of the queue.
-/

namespace Select

variable {α : Type*} {p q : α → Bool} {n : Nat} {l u v r : List α}

def select (p : α → Bool) : Nat → List α → List α × List α
  | 0, l => ([], l)
  | _ + 1, [] => ([], [])
  | n + 1, x :: l =>
    if p x then (x :: (select p n l).1, (select p n l).2)
    else ((select p (n + 1) l).1, x :: (select p (n + 1) l).2)

theorem select_zero : select p 0 l = ([], l) := by
  cases l with
  | nil => rfl
  | cons x l => rfl

theorem select_nil : select p n [] = ([], []) := by
  cases n with
  | zero => rfl
  | succ n => rfl

theorem select_fst : (select p n l).1 = (l.filter p).take n := by
  induction l generalizing n with
  | nil => simp [select_nil]
  | cons x l ih =>
    cases n with
    | zero => simp [select]
    | succ n =>
      unfold select
      split
      · rename_i hx
        rw [List.filter_cons_of_pos hx, List.take_succ_cons, ih]
      · rename_i hx
        rw [List.filter_cons_of_neg hx, ih]

theorem select_of_none (h : ∀ x ∈ l, p x = false) : select p n l = ([], l) := by
  induction l generalizing n with
  | nil => exact select_nil
  | cons x l ih =>
    cases n with
    | zero => rfl
    | succ n =>
      obtain ⟨hx, hl⟩ := List.forall_mem_cons.1 h
      rw [select, if_neg (by simp [hx]), ih hl]

theorem select_snd_of_nil (h : (select p n l).1 = []) : (select p n l).2 = l := by
  cases n with
  | zero => rw [select_zero]
  | succ n =>
    rw [select_fst, List.take_eq_nil_iff, or_iff_right (Nat.succ_ne_zero n),
      List.filter_eq_nil_iff] at h
    rw [select_of_none fun x hx => by simpa using h x hx]

/-- A beginning of the queue in which at most `n` elements satisfy `p` is split by `p`. -/
theorem select_append (hu : (u.filter p).length ≤ n) :
    select p n (u ++ v) = (u.filter p ++ (select p (n - (u.filter p).length) v).1,
      u.filter (fun x => !p x) ++ (select p (n - (u.filter p).length) v).2) := by
  induction u generalizing n with
  | nil => simp
  | cons x u ih =>
    by_cases hx : p x = true
    · rw [List.filter_cons_of_pos hx, List.length_cons] at hu ⊢
      obtain ⟨k, rfl⟩ : ∃ k, n = k + 1 := ⟨n - 1, by omega⟩
      rw [List.cons_append, select, if_pos hx, ih (by omega), List.filter_cons_of_neg (by simp [hx]),
        Nat.add_sub_add_right]
      rfl
    · rw [List.filter_cons_of_neg hx] at hu ⊢
      rw [List.filter_cons_of_pos (by simpa using hx)]
      cases n with
      | zero =>
        have hnone : (u.filter p).length = 0 := by omega
        have hrest : u.filter (fun y => !p y) = u := by
          refine List.filter_eq_self.2 fun y hy => ?_
          have := List.filter_eq_nil_iff.1 (List.length_eq_zero_iff.1 hnone) y hy
          simpa using this
        rw [List.length_eq_zero_iff.1 hnone, hrest, List.length_nil, select_zero, select_zero]
        rfl
      | succ n =>
        rw [List.cons_append, select, if_neg hx, ih hu]
        rfl

/-- Elements of one sort come out in the order of the queue. -/
theorem select_filter (hsame : ∀ x ∈ l, ∀ y ∈ l, q x = true → q y = true → p x = p y) :
    (select p n l).1.filter q ++ (select p n l).2.filter q = l.filter q := by
  induction l generalizing n with
  | nil => simp [select_nil]
  | cons x l ih =>
    cases n with
    | zero => rfl
    | succ n =>
      have hl : ∀ y ∈ l, ∀ z ∈ l, q y = true → q z = true → p y = p z :=
        fun y hy z hz => hsame y (List.mem_cons_of_mem x hy) z (List.mem_cons_of_mem x hz)
      unfold select
      by_cases hx : p x = true
      · rw [if_pos hx]
        by_cases hq : q x = true
        · rw [List.filter_cons_of_pos hq, List.filter_cons_of_pos hq, List.cons_append, ih hl]
        · rw [List.filter_cons_of_neg hq, List.filter_cons_of_neg hq, ih hl]
      · rw [if_neg hx]
        by_cases hq : q x = true
        · -- nothing of the sort of `x` is taken
          have hnone : (select p (n + 1) l).1.filter q = [] := by
            rw [List.filter_eq_nil_iff, select_fst]
            intro y hy hqy
            have hmem := List.mem_filter.1 (List.mem_of_mem_take hy)
            have hxy := hsame x List.mem_cons_self y (List.mem_cons_of_mem x hmem.1) hq hqy
            exact hx (hxy.trans hmem.2)
          have hrest := ih hl (n := n + 1)
          rw [hnone, List.nil_append] at hrest
          rw [List.filter_cons_of_pos hq, List.filter_cons_of_pos hq, hnone, hrest]
          rfl
        · rw [List.filter_cons_of_neg hq, List.filter_cons_of_neg hq, ih hl]

/-- Moving a beginning, reversed, to the end changes nothing only where everything reads the same
backwards. -/
theorem append_reverse_eq_iff (hu : u ≠ []) :
    r ++ u.reverse = u ++ r ↔ r.reverse = r ∧ (u ++ r).reverse = u ++ r := by
  constructor
  · intro h
    have hr : r.reverse = r := by
      induction hn : r.length using Nat.strongRecOn generalizing r with
      | ind n ih =>
        rcases Nat.le_total r.length u.length with hle | hle
        · -- `u = r ++ y`
          obtain ⟨y, rfl⟩ := List.prefix_of_prefix_length_le (h ▸ List.prefix_append r u.reverse)
            (List.prefix_append u r) hle
          have htail : (r ++ y).reverse = y ++ r := by
            rw [List.append_assoc] at h
            exact List.append_cancel_left h
          rw [List.reverse_append] at htail
          exact (List.append_inj' htail (List.length_reverse)).2
        · obtain ⟨r', rfl⟩ := List.prefix_of_prefix_length_le (List.prefix_append u r)
            (h ▸ List.prefix_append r u.reverse) hle
          have htail : r' ++ u.reverse = u ++ r' := by
            rw [List.append_assoc] at h
            exact List.append_cancel_left h
          have hpos := List.length_pos_iff.2 hu
          have hr' := ih r'.length (by rw [← hn, List.length_append]; omega) htail rfl
          rw [List.reverse_append, hr', htail]
    exact ⟨hr, by rw [List.reverse_append, hr, h]⟩
  · rintro ⟨hr, hur⟩
    rw [List.reverse_append, hr] at hur
    exact hur

/-- Popping `n` elements and putting those that fail `p` back at the end, last first: the selection
exactly when all of them satisfy `p`, or when nothing behind them does and the rotation cannot be seen. -/
theorem rotate_eq_select_iff :
    ((l.take n).filter p, l.drop n ++ ((l.take n).filter fun x => !p x).reverse) = select p n l ↔
      (∀ x ∈ l.take n, p x = true) ∨
        ((∀ x ∈ l.drop n, p x = false) ∧ (l.drop n).reverse = l.drop n ∧
          (l.filter fun x => !p x).reverse = l.filter fun x => !p x) := by
  have hlen : (l.take n).length ≤ n := List.length_take_le n l
  have hcount := List.length_eq_length_filter_add (l := l.take n) p
  have hfew : ((l.take n).filter p).length ≤ n := by omega
  have hsel := select_append (v := l.drop n) hfew
  rw [List.take_append_drop] at hsel
  have hfails : l.filter (fun x => !p x) =
      (l.take n).filter (fun x => !p x) ++ (l.drop n).filter fun x => !p x := by
    rw [← List.filter_append, List.take_append_drop]
  have hdrop (hnone : ∀ x ∈ l.drop n, p x = false) : (l.drop n).filter (fun x => !p x) = l.drop n :=
    List.filter_eq_self.2 fun x hx => by simp [hnone x hx]
  have hbehind := select_fst (p := p) (n := n - ((l.take n).filter p).length) (l := l.drop n)
  rw [hsel, Prod.mk.injEq]
  constructor
  · rintro ⟨htaken, hleft⟩
    have hnil : (select p (n - ((l.take n).filter p).length) (l.drop n)).1 = [] :=
      List.self_eq_append_right.1 htaken
    rw [select_snd_of_nil hnil] at hleft
    by_cases hturned : (l.take n).filter (fun x => !p x) = []
    · left
      intro x hx
      simpa using List.filter_eq_nil_iff.1 hturned x hx
    · right
      obtain ⟨hrest, hall⟩ := (append_reverse_eq_iff hturned).1 hleft
      have hpos := List.length_pos_iff.2 hturned
      have hnone : ∀ x ∈ l.drop n, p x = false := by
        rw [hbehind, List.take_eq_nil_iff, or_iff_right (by omega), List.filter_eq_nil_iff] at hnil
        exact fun x hx => by simpa using hnil x hx
      refine ⟨hnone, hrest, ?_⟩
      rw [hfails, hdrop hnone]
      exact hall
  · rintro (hpass | ⟨hnone, hrest, hall⟩)
    · have hturned : (l.take n).filter (fun x => !p x) = [] :=
        List.filter_eq_nil_iff.2 fun x hx => by simp [hpass x hx]
      have hnil : (select p (n - ((l.take n).filter p).length) (l.drop n)).1 = [] := by
        rw [hbehind, List.filter_eq_self.2 hpass, List.take_eq_nil_iff]
        rcases Nat.le_total n l.length with hle | hle
        · left
          rw [List.length_take]
          omega
        · right
          rw [List.drop_of_length_le hle]
          rfl
      rw [hturned, hnil, select_snd_of_nil hnil]
      simp
    · rw [select_of_none hnone]
      refine ⟨by simp, ?_⟩
      by_cases hturned : (l.take n).filter (fun x => !p x) = []
      · simp [hturned]
      · refine (append_reverse_eq_iff hturned).2 ⟨hrest, ?_⟩
        rw [hfails, hdrop hnone] at hall
        exact hall

theorem reverse_eq_self_iff (hl : l.Nodup) : l.reverse = l ↔ l.length ≤ 1 := by
  cases l with
  | nil => simp
  | cons x l =>
    rcases List.eq_nil_or_concat l with rfl | ⟨m, z, rfl⟩
    · simp
    · refine iff_of_false (fun h => ?_) (by simp)
      have hxz : z = x := by simpa using congrArg List.head? h
      exact (List.nodup_cons.1 hl).1 (by simp [hxz])

/-- Two properties select the same of a queue, seen through `f`, when they agree on every element that
is reached before `n` are taken. -/
theorem map_select_eq_iff {β : Type*} {f : α → β} (hp : ∀ x y, f x = f y → p x = p y)
    (hq : ∀ x y, f x = f y → q x = q y) : ((l.filter p).take n).map f = ((l.filter q).take n).map f ↔
      ∀ u x v, l = u ++ x :: v → (u.filter p).length < n → p x = q x := by
  induction l generalizing n with
  | nil => simp
  | cons y l ih =>
    have hsplit : (∀ u x v, y :: l = u ++ x :: v → (u.filter p).length < n → p x = q x) ↔
        (0 < n → p y = q y) ∧
        ∀ u x v, l = u ++ x :: v → ((y :: u).filter p).length < n → p x = q x := by
      constructor
      · intro h
        exact ⟨fun hn => h [] y l rfl hn, fun u x v hl => h (y :: u) x v (by rw [hl, List.cons_append])⟩
      · rintro ⟨hy, hrest⟩ u x v hl hlen
        cases u with
        | nil => obtain ⟨rfl, -⟩ := List.cons.inj hl; exact hy hlen
        | cons z u => obtain ⟨rfl, hl'⟩ := List.cons.inj hl; exact hrest u x v hl' hlen
    rw [hsplit]
    cases n with
    | zero => simp
    | succ n =>
      cases hpy : p y <;> cases hqy : q y
      · have hnp : ¬p y = true := by simp [hpy]
        simp only [List.filter_cons_of_neg hnp, List.filter_cons_of_neg (by simp [hqy] : ¬q y = true),
          implies_true, true_and]
        exact ih
      · refine iff_of_false (fun h => ?_) (by simp)
        rw [List.filter_cons_of_neg (by simp [hpy]), List.filter_cons_of_pos hqy, List.take_succ_cons,
          List.map_cons] at h
        obtain ⟨z, hz, hzy⟩ := List.mem_map.1 (h ▸ List.mem_cons_self : f y ∈ _)
        have hpz := (List.mem_filter.1 (List.mem_of_mem_take hz)).2
        rw [hp z y hzy, hpy] at hpz
        cases hpz
      · refine iff_of_false (fun h => ?_) (by simp)
        rw [List.filter_cons_of_pos hpy, List.filter_cons_of_neg (by simp [hqy]), List.take_succ_cons,
          List.map_cons] at h
        obtain ⟨z, hz, hzy⟩ := List.mem_map.1 (h ▸ List.mem_cons_self : f y ∈ _)
        have hqz := (List.mem_filter.1 (List.mem_of_mem_take hz)).2
        rw [hq z y hzy, hqy] at hqz
        cases hqz
      · simp only [List.filter_cons_of_pos hpy, List.filter_cons_of_pos hqy, List.take_succ_cons,
          List.map_cons,
          List.cons.injEq, true_and, implies_true, List.length_cons, Nat.add_lt_add_iff_right]
        exact ih

end Select
