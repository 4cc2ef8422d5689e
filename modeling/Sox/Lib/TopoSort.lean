import Mathlib.Data.List.Induction
import Mathlib.Data.List.Lex
import Mathlib.Data.List.Sort
import Mathlib.Data.List.Nodup
import Mathlib.Order.Basic
import Mathlib.Logic.Function.Basic

/-!
# Kahn's topological sort

`Before l a b`: `a` stands before `b` in the list `l`. `kahn ids edges` takes, again and again, the
least node without a remaining predecessor. What it returns lists every node after the sources of
its edges (`kahn_before`), and all nodes whenever some order respects the edges (`kahn_perm`).
-/

namespace TopoSort

/-! ### Standing before -/

section
variable {α : Type*} {l l' u v : List α} {a b c p : α}

def Before (l : List α) (a b : α) : Prop := [a, b].Sublist l

instance [DecidableEq α] : Decidable (Before l a b) := inferInstanceAs (Decidable (List.Sublist _ _))

theorem Before.mono (h : Before l a b) (hl : l.Sublist l') : Before l' a b := List.Sublist.trans h hl

theorem Before.left_mem (h : Before l a b) : a ∈ l := h.subset (by simp)

theorem Before.right_mem (h : Before l a b) : b ∈ l := h.subset (by simp)

theorem before_cons : Before (p :: l) a b ↔ Before l a b ∨ a = p ∧ b ∈ l := by
  simp only [Before, List.sublist_cons_iff, List.cons.injEq]
  refine or_congr Iff.rfl ⟨?_, ?_⟩
  · rintro ⟨r, ⟨rfl, rfl⟩, h⟩
    exact ⟨rfl, List.singleton_sublist.1 h⟩
  · rintro ⟨rfl, h⟩
    exact ⟨[b], ⟨rfl, rfl⟩, List.singleton_sublist.2 h⟩

theorem before_append : Before (u ++ v) a b ↔ Before u a b ∨ Before v a b ∨ a ∈ u ∧ b ∈ v := by
  induction u with
  | nil => simp [Before]
  | cons p u ih =>
    rw [List.cons_append, before_cons, ih, before_cons, List.mem_append, List.mem_cons]
    constructor
    · rintro ((h | h | ⟨ha, hb⟩) | ⟨ha, hb | hb⟩)
      · exact .inl (.inl h)
      · exact .inr (.inl h)
      · exact .inr (.inr ⟨.inr ha, hb⟩)
      · exact .inl (.inr ⟨ha, hb⟩)
      · exact .inr (.inr ⟨.inl ha, hb⟩)
    · rintro ((h | ⟨ha, hb⟩) | h | ⟨ha | ha, hb⟩)
      · exact .inl (.inl h)
      · exact .inr ⟨ha, .inl hb⟩
      · exact .inl (.inr (.inl h))
      · exact .inr ⟨ha, .inr hb⟩
      · exact .inl (.inr (.inr ⟨ha, hb⟩))

theorem Before.asymm (hl : l.Nodup) (h : Before l a b) : ¬ Before l b a := by
  induction l with
  | nil => simp [Before] at h
  | cons p l ih =>
    obtain ⟨hp, hl⟩ := List.nodup_cons.1 hl
    rw [before_cons] at h ⊢
    rintro (h' | ⟨rfl, h'⟩)
    · rcases h with h | ⟨rfl, h⟩
      · exact ih hl h h'
      · exact hp h'.right_mem
    · rcases h with h | ⟨rfl, h⟩
      · exact hp h.right_mem
      · exact hp h

theorem Before.trans (hl : l.Nodup) (h : Before l a b) (h' : Before l b c) : Before l a c := by
  induction l with
  | nil => simp [Before] at h
  | cons p l ih =>
    obtain ⟨hp, hl⟩ := List.nodup_cons.1 hl
    rw [before_cons] at h h' ⊢
    rcases h with h | ⟨rfl, h⟩
    · rcases h' with h' | ⟨rfl, h'⟩
      · exact .inl (ih hl h h')
      · exact absurd h.right_mem hp
    · rcases h' with h' | ⟨rfl, h'⟩
      · exact .inr ⟨rfl, h'.right_mem⟩
      · exact absurd h hp

theorem before_or_before (ha : a ∈ l) (hb : b ∈ l) (hab : a ≠ b) : Before l a b ∨ Before l b a := by
  induction l with
  | nil => simp at ha
  | cons p l ih =>
    rw [before_cons, before_cons]
    rcases List.mem_cons.1 ha with ha | ha' <;> rcases List.mem_cons.1 hb with hb | hb'
    · exact absurd (ha.trans hb.symm) hab
    · exact .inl (.inr ⟨ha, hb'⟩)
    · exact .inr (.inr ⟨hb, ha'⟩)
    · exact (ih ha' hb').imp .inl .inl

/-- Where an inserted element stands. -/
theorem before_insert_right (h : (u ++ p :: v).Nodup) : Before (u ++ p :: v) a p ↔ a ∈ u := by
  obtain ⟨-, hpv, hdisj⟩ := List.nodup_append.1 h
  have hpu : p ∉ u := fun hp => hdisj p hp p (by simp) rfl
  have hpv : p ∉ v := (List.nodup_cons.1 hpv).1
  rw [before_append, before_cons]
  constructor
  · rintro (h | (h | ⟨-, h⟩) | ⟨h, -⟩)
    · exact absurd h.right_mem hpu
    · exact absurd h.right_mem hpv
    · exact absurd h hpv
    · exact h
  · intro h
    exact .inr (.inr ⟨h, by simp⟩)

theorem before_insert_of_ne (ha : a ≠ p) (hb : b ≠ p) :
    Before (u ++ p :: v) a b ↔ Before (u ++ v) a b := by
  rw [before_append, before_append, before_cons, List.mem_cons]
  simp [ha, hb]

end

/-! ### The sort -/

variable {α : Type*} [LinearOrder α]

def successors (edges : List (α × α)) (x : α) : List α := (edges.filter (·.1 = x)).map (·.2)

def inDegree (edges : List (α × α)) (y : α) : Int := edges.countP (·.2 = y)

/-- Takes one from the in-degree of each of the nodes in turn; also those that came to zero. -/
def release (degree : α → Int) : List α → (α → Int) × List α
  | [] => (degree, [])
  | y :: ys =>
    let (rest, freed) := release (Function.update degree y (degree y - 1)) ys
    (rest, if degree y - 1 = 0 then y :: freed else freed)

/-- Inserts into a sorted list, to the right of what equals it. -/
def insort (x : α) : List α → List α
  | [] => [x]
  | y :: ys => if x < y then x :: y :: ys else y :: insort x ys

/-- Every round removes a node for good, so the number of nodes is enough fuel. -/
def loop (edges : List (α × α)) : Nat → (α → Int) → List α → List α → List α
  | 0, _, _, result => result
  | _ + 1, _, [], result => result
  | fuel + 1, degree, node :: queue, result =>
    let (degree, freed) := release degree (successors edges node)
    let queue := (freed.insertionSort (· ≤ ·)).foldl (fun q x => insort x q) queue
    loop edges fuel degree queue (result ++ [node])

def kahn (ids : List α) (edges : List (α × α)) : List α :=
  let queue := (ids.filter fun x => inDegree edges x = 0).insertionSort (· ≤ ·)
  loop edges ids.length (inDegree edges) queue []

theorem insort_perm (x : α) (ys : List α) : (insort x ys).Perm (x :: ys) := by
  induction ys with
  | nil => exact .refl _
  | cons y ys ih =>
    unfold insort
    split
    · exact .refl _
    · exact (ih.cons y).trans (.swap x y ys)

theorem foldl_insort_perm (xs queue : List α) :
    (xs.foldl (fun q x => insort x q) queue).Perm (xs ++ queue) := by
  induction xs generalizing queue with
  | nil => exact .refl _
  | cons x xs ih =>
    refine (ih (insort x queue)).trans ?_
    refine ((insort_perm x queue).append_left xs).trans ?_
    exact List.perm_middle

theorem release_degree (degree : α → Int) (ys : List α) (z : α) :
    (release degree ys).1 z = degree z - ys.count z := by
  induction ys generalizing degree with
  | nil => simp [release]
  | cons y ys ih =>
    simp only [release, ih]
    by_cases h : y = z
    · subst h
      rw [Function.update_self, List.count_cons_self]
      omega
    · rw [Function.update_of_ne (Ne.symm h), List.count_cons_of_ne h]

/-- The nodes that come to zero are those whose in-degree is what is taken from it. -/
theorem release_freed {degree : α → Int} {ys : List α} (h : ∀ z, (ys.count z : Int) ≤ degree z) :
    (release degree ys).2.Nodup ∧
      ∀ z, z ∈ (release degree ys).2 ↔ z ∈ ys ∧ degree z = ys.count z := by
  induction ys generalizing degree with
  | nil => simp [release]
  | cons y ys ih =>
    have hy := h y
    rw [List.count_cons_self] at hy
    have hrest (z : α) : (ys.count z : Int) ≤ Function.update degree y (degree y - 1) z := by
      by_cases hz : z = y
      · subst hz
        rw [Function.update_self]
        omega
      · rw [Function.update_of_ne hz]
        have := h z
        rwa [List.count_cons_of_ne (Ne.symm hz)] at this
    obtain ⟨hnodup, hmem⟩ := ih hrest
    have hself : y ∈ (release (Function.update degree y (degree y - 1)) ys).2 ↔
        y ∈ ys ∧ degree y - 1 = ys.count y := by
      rw [hmem, Function.update_self]
    have hother (z : α) (hz : z ≠ y) :
        z ∈ (release (Function.update degree y (degree y - 1)) ys).2 ↔
          z ∈ y :: ys ∧ degree z = (y :: ys).count z := by
      rw [hmem, Function.update_of_ne hz, List.count_cons_of_ne (Ne.symm hz), List.mem_cons]
      simp [hz]
    simp only [release]
    by_cases hzero : degree y - 1 = 0
    · -- nothing is left of the node for the rest to take
      have hnone : y ∉ ys := by
        intro hmem
        have := List.count_pos_iff.2 hmem
        omega
      rw [if_pos hzero]
      refine ⟨List.nodup_cons.2 ⟨fun hin => hnone (hself.1 hin).1, hnodup⟩, fun z => ?_⟩
      by_cases hz : z = y
      · subst hz
        rw [List.count_cons_self, List.count_eq_zero_of_not_mem hnone]
        refine iff_of_true (by simp) ⟨by simp, by omega⟩
      · rw [List.mem_cons, or_iff_right hz]
        exact hother z hz
    · rw [if_neg hzero]
      refine ⟨hnodup, fun z => ?_⟩
      by_cases hz : z = y
      · subst hz
        rw [hself, List.count_cons_self]
        constructor
        · rintro ⟨-, hdeg⟩
          exact ⟨by simp, by omega⟩
        · rintro ⟨-, hdeg⟩
          have hpos : 0 < ys.count z := by omega
          exact ⟨List.count_pos_iff.1 hpos, by omega⟩
      · exact hother z hz

/-! ### What the loop keeps -/

/-- The sort under way: `queue` are the nodes without a remaining predecessor. -/
structure Running (ids : List α) (edges : List (α × α)) (degree : α → Int) (queue result : List α) :
    Prop where
  nodup : (queue ++ result).Nodup
  nodes : ∀ x ∈ queue ++ result, x ∈ ids
  remaining : ∀ y, degree y = edges.countP fun e => e.2 = y ∧ e.1 ∉ result
  zero : ∀ y ∈ ids, degree y = 0 ↔ y ∈ queue ++ result
  before : ∀ e ∈ edges, e.2 ∈ result → Before result e.1 e.2

section
variable {ids : List α} {edges : List (α × α)} {degree : α → Int} {node : α} {queue result : List α}

theorem count_successors (edges : List (α × α)) (x y : α) :
    (successors edges x).count y = edges.countP fun e => e.1 = x ∧ e.2 = y := by
  induction edges with
  | nil => rfl
  | cons e edges ih =>
    simp only [successors] at ih ⊢
    by_cases hx : e.1 = x <;> by_cases hy : e.2 = y <;> simp [hx, hy, ih]

/-- A node that is taken away takes its edges along. -/
theorem countP_remove (edges : List (α × α)) (y : α) (h : node ∉ result) :
    (edges.countP fun e => e.2 = y ∧ e.1 ∉ result) =
      (edges.countP fun e => e.2 = y ∧ e.1 ∉ result ++ [node]) + (successors edges node).count y := by
  rw [count_successors]
  induction edges with
  | nil => rfl
  | cons e edges ih =>
    simp only [List.countP_cons, ih, decide_eq_true_eq, List.mem_append, List.mem_singleton, not_or]
    by_cases hy : e.2 = y <;> by_cases hn : e.1 = node
    · have : e.1 ∉ result := hn ▸ h
      simp [hy, hn, h]
      omega
    · simp only [hy, hn, true_and, not_false_eq_true, and_true, ↓reduceIte]
      omega
    · simp [hy]
    · simp [hy]

/-- One round, in whatever order it takes the successors and the queue is kept. -/
theorem Running.advance (h : Running ids edges degree (node :: queue) result)
    (hedges : ∀ e ∈ edges, e.2 ∈ ids) {ys queue' : List α} (hys : ys.Perm (successors edges node))
    (hqueue : queue'.Perm ((release degree ys).2 ++ queue)) :
    Running ids edges (release degree ys).1 queue' (result ++ [node]) := by
  have hnodup := h.nodup
  rw [List.cons_append, List.nodup_cons, List.mem_append, not_or] at hnodup
  obtain ⟨⟨hq, hr⟩, hqr⟩ := hnodup
  have hsplit (y : α) := countP_remove edges y hr
  have hcount (y : α) : (ys.count y : Int) ≤ degree y := by
    have := hsplit y
    rw [h.remaining, hys.count_eq]
    omega
  obtain ⟨hfreed, hmem⟩ := release_freed hcount
  have hdegree := release_degree degree ys
  have hsucc {y : α} (hy : y ∈ ys) : y ∈ ids := by
    obtain ⟨e, he, rfl⟩ := List.mem_map.1 (hys.mem_iff.1 hy)
    exact hedges e (List.mem_filter.1 he).1
  have hnew {y : α} (hy : y ∈ (release degree ys).2) :
      y ∉ node :: queue ++ result := by
    intro hin
    obtain ⟨hys, hdeg⟩ := (hmem y).1 hy
    have hpos := List.count_pos_iff.2 hys
    have hzero := (h.zero y (hsucc hys)).2 hin
    omega
  generalize release degree ys = released at *
  have hall : (queue' ++ (result ++ [node])).Perm (released.2 ++ (node :: queue ++ result)) := by
    refine (hqueue.append_right _).trans ?_
    rw [List.append_assoc]
    refine List.Perm.append_left _ ?_
    rw [← List.append_assoc]
    exact List.perm_append_singleton node (queue ++ result)
  refine ⟨hall.nodup_iff.2 (List.nodup_append.2 ⟨hfreed, h.nodup, ?_⟩), ?_, ?_, ?_, ?_⟩
  · rintro y hy _ hy' rfl
    exact hnew hy hy'
  · intro y hy
    rcases List.mem_append.1 (hall.mem_iff.1 hy) with hy | hy
    · exact hsucc ((hmem y).1 hy).1
    · exact h.nodes y hy
  · intro y
    have := hsplit y
    rw [hdegree, h.remaining, hys.count_eq]
    omega
  · intro y hy
    rw [hall.mem_iff, List.mem_append, hmem, hdegree]
    have hzero := h.zero y hy
    have hle := hcount y
    constructor
    · intro hd
      by_cases hold : degree y = 0
      · exact .inr (hzero.1 hold)
      · have hpos : 0 < ys.count y := by omega
        exact .inl ⟨List.count_pos_iff.1 hpos, by omega⟩
    · rintro (⟨-, hd⟩ | hin)
      · omega
      · have := hzero.2 hin
        omega
  · intro e he hin
    rcases List.mem_append.1 hin with hin | hin
    · exact (h.before e he hin).mono (List.sublist_append_left _ _)
    · -- the node is free, so the sources of its edges are out
      obtain rfl := List.mem_singleton.1 hin
      have hfree := (h.zero e.2 (hedges e he)).2 (by simp)
      rw [h.remaining, Int.natCast_eq_zero, List.countP_eq_zero] at hfree
      have hsource : e.1 ∈ result := by
        by_contra hout
        exact hfree e he (by simp [hout])
      exact before_append.2 (.inr (.inr ⟨hsource, by simp⟩))

theorem Running.step (h : Running ids edges degree (node :: queue) result)
    (hedges : ∀ e ∈ edges, e.2 ∈ ids) :
    Running ids edges (release degree (successors edges node)).1
      (((release degree (successors edges node)).2.insertionSort (· ≤ ·)).foldl
        (fun q x => insort x q) queue) (result ++ [node]) := by
  refine h.advance hedges (.refl _) ((foldl_insort_perm _ queue).trans ?_)
  exact (List.perm_insertionSort (· ≤ ·) _).append_right queue

/-- When all nodes are out, none waits. -/
theorem Running.queue_eq_nil (h : Running ids edges degree queue result)
    (hall : ids.length ≤ result.length) : queue = [] := by
  have hlen := (List.subperm_of_subset h.nodup h.nodes).length_le
  rw [List.length_append] at hlen
  exact List.length_eq_zero_iff.1 (by omega)

theorem Running.loop (fuel : Nat) (h : Running ids edges degree queue result)
    (hedges : ∀ e ∈ edges, e.2 ∈ ids) (hfuel : ids.length ≤ fuel + result.length) :
    ∃ degree', Running ids edges degree' [] (loop edges fuel degree queue result) := by
  induction fuel generalizing degree queue result with
  | zero => exact ⟨degree, h.queue_eq_nil (by omega) ▸ h⟩
  | succ fuel ih =>
    cases queue with
    | nil => exact ⟨degree, h⟩
    | cons node queue =>
      refine ih (h.step hedges) ?_
      rw [List.length_append, List.length_singleton]
      omega

theorem running_start (hids : ids.Nodup) :
    Running ids edges (inDegree edges)
      ((ids.filter fun x => inDegree edges x = 0).insertionSort (· ≤ ·)) [] := by
  have hperm := List.perm_insertionSort (· ≤ ·) (ids.filter fun x => inDegree edges x = 0)
  refine ⟨?_, ?_, ?_, ?_, by simp⟩
  · rw [List.append_nil, hperm.nodup_iff]
    exact hids.filter _
  · intro x hx
    rw [List.append_nil, hperm.mem_iff] at hx
    exact (List.mem_filter.1 hx).1
  · intro y
    simp [inDegree]
  · intro y hy
    rw [List.append_nil, hperm.mem_iff, List.mem_filter]
    simp [hy]

theorem kahn_running (hids : ids.Nodup) (hedges : ∀ e ∈ edges, e.2 ∈ ids) :
    ∃ degree, Running ids edges degree [] (kahn ids edges) :=
  (running_start hids).loop ids.length hedges (by simp)

end

section
variable {ids : List α} {edges : List (α × α)} (hids : ids.Nodup)
  (hedges : ∀ e ∈ edges, e.1 ∈ ids ∧ e.2 ∈ ids)
include hids hedges

theorem kahn_nodup : (kahn ids edges).Nodup := by
  obtain ⟨degree, h⟩ := kahn_running hids fun e he => (hedges e he).2
  simpa using h.nodup

theorem kahn_subset {x : α} (hx : x ∈ kahn ids edges) : x ∈ ids := by
  obtain ⟨degree, h⟩ := kahn_running hids fun e he => (hedges e he).2
  exact h.nodes x (by simpa using hx)

/-- A node comes after the sources of its edges. -/
theorem kahn_before {e : α × α} (he : e ∈ edges) (hout : e.2 ∈ kahn ids edges) :
    Before (kahn ids edges) e.1 e.2 := by
  obtain ⟨degree, h⟩ := kahn_running hids fun e he => (hedges e he).2
  exact h.before e he hout

/-- When some order respects the edges every node comes out. -/
theorem kahn_perm {order : List α} (horder : order.Nodup) (hall : ∀ x ∈ ids, x ∈ order)
    (hrespects : ∀ e ∈ edges, Before order e.1 e.2) : (kahn ids edges).Perm ids := by
  obtain ⟨degree, h⟩ := kahn_running hids fun e he => (hedges e he).2
  -- along the order: the sources of a node are out before it
  have hout (u v : List α) (huv : order = u ++ v) : ∀ x ∈ u, x ∈ ids → x ∈ kahn ids edges := by
    induction u using List.reverseRecOn generalizing v with
    | nil => simp
    | append_singleton u y ih =>
      have huv' : order = u ++ y :: v := by simpa using huv
      intro x hx hxids
      rcases List.mem_append.1 hx with hx | hx
      · exact ih (y :: v) huv' x hx hxids
      · obtain rfl := List.mem_singleton.1 hx
        have hfree : degree x = 0 := by
          rw [h.remaining, Int.natCast_eq_zero, List.countP_eq_zero]
          intro e he
          rw [decide_eq_true_eq]
          rintro ⟨rfl, hsource⟩
          have hbefore := hrespects e he
          rw [huv', before_insert_right (huv' ▸ horder)] at hbefore
          exact hsource (ih _ huv' e.1 hbefore (hedges e he).1)
        simpa using (h.zero x hxids).1 hfree
  have hsub : ids ⊆ kahn ids edges := fun x hx => hout order [] (by simp) x (hall x hx) hx
  refine (List.subperm_of_subset (kahn_nodup hids hedges) fun x hx =>
    kahn_subset hids hedges hx).antisymm (List.subperm_of_subset hids hsub)

end

/-! ### The least of the orders -/

/-- A node that may come next after `placed`. -/
def Ready (ids : List α) (edges : List (α × α)) (placed : List α) (x : α) : Prop :=
  x ∈ ids ∧ x ∉ placed ∧ ∀ e ∈ edges, e.2 = x → e.1 ∈ placed

/-- Each node is the least of those that may come next. -/
def Greedy (ids : List α) (edges : List (α × α)) (order : List α) : Prop :=
  ∀ u x v, order = u ++ x :: v →
    Ready ids edges u x ∧ ∀ y, Ready ids edges u y → x ≤ y

section
variable {ids ids' : List α} {edges edges' : List (α × α)} {degree : α → Int} {node x y : α}
  {queue result order order' placed : List α}

theorem greedy_nil : Greedy ids edges [] := by
  intro u x v h
  simp at h

theorem Greedy.concat (h : Greedy ids edges order) (hx : Ready ids edges order x)
    (hleast : ∀ y, Ready ids edges order y → x ≤ y) : Greedy ids edges (order ++ [x]) := by
  intro u y v huv
  rcases List.eq_nil_or_concat v with rfl | ⟨v', z, rfl⟩
  · obtain ⟨rfl, hy⟩ := List.append_inj' huv rfl
    obtain rfl := List.singleton_inj.1 hy
    exact ⟨hx, hleast⟩
  · have huv' : order ++ [x] = (u ++ y :: v') ++ [z] := by simpa using huv
    exact h u y v' (List.append_inj' huv' rfl).1

/-- Two greedy orders that went on as long as they could are the same. -/
theorem Greedy.unique (h : Greedy ids edges order) (h' : Greedy ids' edges' order')
    (hready : ∀ placed x, Ready ids edges placed x ↔ Ready ids' edges' placed x)
    (hstop : ∀ y, ¬Ready ids edges order y) (hstop' : ∀ y, ¬Ready ids' edges' order' y) :
    order = order' := by
  -- after a common beginning `u` both go on alike
  suffices hrest : ∀ v v' u, order = u ++ v → order' = u ++ v' → v = v' from
    hrest order order' [] rfl rfl
  intro v
  induction v with
  | nil =>
    intro v' u hu hu'
    cases v' with
    | nil => rfl
    | cons x' v' =>
      have hnext := (hready u x').2 (h' u x' v' hu').1
      rw [List.append_nil] at hu
      exact absurd hnext (hu ▸ hstop x')
  | cons x v ih =>
    intro v' u hu hu'
    obtain ⟨hx, hleast⟩ := h u x v hu
    cases v' with
    | nil =>
      rw [List.append_nil] at hu'
      exact absurd ((hready u x).1 hx) (hu' ▸ hstop' x)
    | cons x' v' =>
      obtain ⟨hx', hleast'⟩ := h' u x' v' hu'
      have hle := hleast x' ((hready u x').2 hx')
      have hle' := hleast' x ((hready u x).1 hx)
      obtain rfl := le_antisymm hle hle'
      rw [ih v' (u ++ [x]) (by simpa using hu) (by simpa using hu')]

omit [LinearOrder α] in
/-- Two lists of one length are equal, or there is a first place where they differ. -/
theorem eq_or_first_difference (hlen : order.length = order'.length) :
    order = order' ∨ ∃ u x x' v v', order = u ++ x :: v ∧ order' = u ++ x' :: v' ∧ x ≠ x' := by
  induction order generalizing order' with
  | nil => exact .inl (List.length_eq_zero_iff.1 hlen.symm).symm
  | cons x order ih =>
    cases order' with
    | nil => cases hlen
    | cons x' order' =>
      by_cases hx : x = x'
      · subst hx
        rcases ih (Nat.succ_inj.1 hlen) with rfl | ⟨u, y, y', v, v', rfl, rfl, hy⟩
        · exact .inl rfl
        · exact .inr ⟨x :: u, y, y', v, v', rfl, rfl, hy⟩
      · exact .inr ⟨[], x, x', order, order', rfl, rfl, hx⟩

/-- No order of the nodes that respects the edges is less than the greedy one. -/
theorem Greedy.least (h : Greedy ids edges order) (hperm : order'.Perm order)
    (hids : ∀ x ∈ order', x ∈ ids) (hnodup : order'.Nodup)
    (hrespects : ∀ e ∈ edges, e.2 ∈ ids → Before order' e.1 e.2) :
    order = order' ∨ List.Lex (· < ·) order order' := by
  refine (eq_or_first_difference hperm.length_eq.symm).imp_right ?_
  rintro ⟨u, x, x', v, v', hu, hu', hx⟩
  have hx' : x' ∈ order' := by simp [hu']
  have hnext : Ready ids edges u x' := by
    refine ⟨hids x' hx', ?_, fun e he hex => ?_⟩
    · rw [hu'] at hnodup
      exact fun hmem => (List.nodup_append.1 hnodup).2.2 x' hmem x' List.mem_cons_self rfl
    · have hbefore := hrespects e he (by rw [hex]; exact hids x' hx')
      rw [hex, hu'] at hbefore
      exact (before_insert_right (hu' ▸ hnodup)).1 hbefore
  have hlt : x < x' := lt_of_le_of_ne ((h u x v hu).2 x' hnext) hx
  rw [hu, hu']
  exact List.Lex.append_left (· < ·) (.rel hlt) u

theorem pairwise_insort (x : α) {ys : List α} (h : ys.Pairwise (· ≤ ·)) :
    (insort x ys).Pairwise (· ≤ ·) := by
  induction ys with
  | nil => simp [insort]
  | cons y ys ih =>
    obtain ⟨hy, hys⟩ := List.pairwise_cons.1 h
    unfold insort
    split
    · rename_i hlt
      refine List.pairwise_cons.2 ⟨fun z hz => ?_, h⟩
      rcases List.mem_cons.1 hz with rfl | hz
      · exact hlt.le
      · exact hlt.le.trans (hy z hz)
    · rename_i hge
      refine List.pairwise_cons.2 ⟨fun z hz => ?_, ih hys⟩
      rcases List.mem_cons.1 ((insort_perm x ys).mem_iff.1 hz) with rfl | hz
      · exact not_lt.1 hge
      · exact hy z hz

theorem pairwise_foldl_insort (xs : List α) (h : queue.Pairwise (· ≤ ·)) :
    (xs.foldl (fun q x => insort x q) queue).Pairwise (· ≤ ·) := by
  induction xs generalizing queue with
  | nil => exact h
  | cons x xs ih => exact ih (pairwise_insort x h)

theorem Running.mem_queue_iff (h : Running ids edges degree queue result) :
    y ∈ queue ↔ Ready ids edges result y := by
  have hsources : degree y = 0 ↔ ∀ e ∈ edges, e.2 = y → e.1 ∈ result := by
    rw [h.remaining, Int.natCast_eq_zero, List.countP_eq_zero]
    refine forall₂_congr fun e _ => ?_
    simp
  constructor
  · intro hy
    have hids := h.nodes y (List.mem_append_left _ hy)
    have hout : y ∉ result := fun hmem => (List.nodup_append.1 h.nodup).2.2 y hy y hmem rfl
    exact ⟨hids, hout, hsources.1 ((h.zero y hids).2 (List.mem_append_left _ hy))⟩
  · rintro ⟨hids, hout, hin⟩
    have hmem := (h.zero y hids).1 (hsources.2 hin)
    exact (List.mem_append.1 hmem).resolve_right hout

theorem Running.greedy (fuel : Nat) (h : Running ids edges degree queue result)
    (hedges : ∀ e ∈ edges, e.2 ∈ ids) (hsorted : queue.Pairwise (· ≤ ·))
    (hgreedy : Greedy ids edges result) : Greedy ids edges (TopoSort.loop edges fuel degree queue result) := by
  induction fuel generalizing degree queue result with
  | zero => exact hgreedy
  | succ fuel ih =>
    cases queue with
    | nil => exact hgreedy
    | cons node queue =>
      obtain ⟨hhead, htail⟩ := List.pairwise_cons.1 hsorted
      refine ih (h.step hedges) (pairwise_foldl_insort _ htail) ?_
      refine hgreedy.concat (h.mem_queue_iff.1 List.mem_cons_self) fun y hy => ?_
      rcases List.mem_cons.1 (h.mem_queue_iff.2 hy) with rfl | hmem
      · exact le_rfl
      · exact hhead y hmem

theorem kahn_greedy (hids : ids.Nodup) (hedges : ∀ e ∈ edges, e.2 ∈ ids) :
    Greedy ids edges (kahn ids edges) :=
  (running_start hids).greedy ids.length hedges (List.pairwise_insertionSort (· ≤ ·) _) greedy_nil

theorem kahn_stop (hids : ids.Nodup) (hedges : ∀ e ∈ edges, e.2 ∈ ids) :
    ¬Ready ids edges (kahn ids edges) y := by
  obtain ⟨degree, h⟩ := kahn_running hids hedges
  intro hready
  cases h.mem_queue_iff.2 hready

/-- The order does not depend on the order in which nodes and edges are listed. -/
theorem kahn_congr (hids : ids.Nodup) (hedges : ∀ e ∈ edges, e.2 ∈ ids) (hperm : ids'.Perm ids)
    (hsame : ∀ e, e ∈ edges' ↔ e ∈ edges) : kahn ids' edges' = kahn ids edges := by
  have hids' : ids'.Nodup := hperm.nodup_iff.2 hids
  have hedges' : ∀ e ∈ edges', e.2 ∈ ids' := fun e he => hperm.mem_iff.2 (hedges e ((hsame e).1 he))
  refine (kahn_greedy hids' hedges').unique (kahn_greedy hids hedges) ?_
    (fun y => kahn_stop hids' hedges') fun y => kahn_stop hids hedges
  intro placed x
  unfold Ready
  rw [hperm.mem_iff]
  refine and_congr_right fun _ => and_congr_right fun _ => ?_
  exact ⟨fun h e he => h e ((hsame e).2 he), fun h e he => h e ((hsame e).1 he)⟩

end

end TopoSort
