import Mathlib.Data.List.Nodup
import Mathlib.Data.List.Sort

/-!
# Reading by calls

A `Feed` is read by calls, each of which returns some items; `collect` is what a sequence of calls
returns. A feed that `Drains` what waits hands all of it out in as many calls as there are items. A feed
that `Serves` several queues returns of each queue a beginning: the order in which one queue comes out of
a whole sequence of calls is then the order in which it waits, for the queues whose items no call turns
round (`Settled`).
-/

structure Feed (σ κ α : Type*) where
  call : κ → σ → List α × σ

namespace Feed

variable {σ κ α γ : Type*} {F : Feed σ κ α} {I : σ → Prop} {allowed : κ → Prop} {k : κ} {ks : List κ}
  {s : σ}

def collect (F : Feed σ κ α) : List κ → σ → List α
  | [], _ => []
  | k :: ks, s => (F.call k s).1 ++ F.collect ks (F.call k s).2

theorem collect_singleton : F.collect [k] s = (F.call k s).1 := List.append_nil _

theorem collect_concat : F.collect (ks ++ [k]) s =
    F.collect ks s ++ (F.call k (ks.foldl (fun s k => (F.call k s).2) s)).1 := by
  induction ks generalizing s with
  | nil => exact collect_singleton
  | cons k' ks ih => rw [List.cons_append, collect, ih, collect, List.append_assoc, List.foldl_cons]

/-- A call returns part of what waits, something if anything does, and leaves the rest. -/
structure Drains (F : Feed σ κ α) (I : σ → Prop) (allowed : κ → Prop) (waiting : σ → List α) : Prop where
  keeps : ∀ k s, I s → allowed k → I (F.call k s).2
  splits : ∀ k s, I s → allowed k → ((F.call k s).1 ++ waiting (F.call k s).2).Perm (waiting s)
  progress : ∀ k s, I s → allowed k → (F.call k s).1 = [] → waiting s = []

theorem Drains.collect_perm {waiting : σ → List α} (h : F.Drains I allowed waiting) (hs : I s)
    (hks : ∀ k ∈ ks, allowed k) (hlen : (waiting s).length ≤ ks.length) :
    (F.collect ks s).Perm (waiting s) := by
  induction ks generalizing s with
  | nil =>
    rw [List.eq_nil_of_length_eq_zero (Nat.le_zero.1 hlen)]
    exact .refl _
  | cons k ks ih =>
    obtain ⟨hk, hrest⟩ := List.forall_mem_cons.1 hks
    have hsplit := h.splits k s hs hk
    refine (List.Perm.append_left _ (ih (h.keeps k s hs hk) hrest ?_)).trans hsplit
    have hcount := hsplit.length_eq
    rw [List.length_append] at hcount
    rw [List.length_cons] at hlen
    by_cases hout : (F.call k s).1 = []
    · have hnone := h.progress k s hs hk hout
      rw [hnone, List.length_nil] at hcount
      omega
    · have hpos := List.length_pos_iff.2 hout
      omega

/-- A call takes a beginning of every queue, and returns it as it stood if the queue is settled. -/
structure Serves (F : Feed σ κ α) (I : σ → Prop) (allowed : κ → Prop) (queue : γ → α → Bool)
    (waiting : γ → σ → List α) (Settled : List α → Prop) : Prop where
  keeps : ∀ k s, I s → allowed k → I (F.call k s).2
  takes : ∀ k s c, I s → allowed k → ∃ n, waiting c (F.call k s).2 = (waiting c s).drop n ∧
    (Settled (waiting c s) → (F.call k s).1.filter (queue c) = (waiting c s).take n)
  drop : ∀ l n, Settled l → Settled (l.drop n)

theorem Serves.collect_take {queue : γ → α → Bool} {waiting : γ → σ → List α} {Settled : List α → Prop}
    (h : F.Serves I allowed queue waiting Settled) {c : γ} (hs : I s) (hks : ∀ k ∈ ks, allowed k)
    (hset : Settled (waiting c s)) :
    ∃ n, (F.collect ks s).filter (queue c) = (waiting c s).take n := by
  induction ks generalizing s with
  | nil => exact ⟨0, rfl⟩
  | cons k ks ih =>
    obtain ⟨hk, hrest⟩ := List.forall_mem_cons.1 hks
    obtain ⟨n, hleft, hout⟩ := h.takes k s c hs hk
    have hset' : Settled (waiting c (F.call k s).2) := hleft ▸ h.drop _ n hset
    obtain ⟨m, hm⟩ := ih (h.keeps k s hs hk) hrest hset'
    refine ⟨n + m, ?_⟩
    rw [collect, List.filter_append, hout hset, hm, hleft, List.take_add]

/-! ### Beginnings of queues -/

/-- A beginning of the whole is a beginning of every part, and leaves the rest of it. -/
theorem exists_filter_take (p : α → Bool) (l : List α) (k : Nat) :
    ∃ n, (l.take k).filter p = (l.filter p).take n ∧ (l.drop k).filter p = (l.filter p).drop n := by
  refine ⟨((l.take k).filter p).length, ?_⟩
  have hsplit : l.filter p = (l.take k).filter p ++ (l.drop k).filter p := by
    rw [← List.filter_append, List.take_append_drop]
  rw [hsplit, List.take_left, List.drop_left]
  exact ⟨rfl, rfl⟩

/-- A stable sort leaves a part alone that is sorted already. -/
theorem filter_insertionSort {r : α → α → Prop} [DecidableRel r] {p : α → Bool} {l : List α}
    (h : (l.filter p).Pairwise r) : (l.insertionSort r).filter p = l.filter p := by
  have hsub : (l.filter p).Sublist ((l.insertionSort r).filter p) := by
    have hp := (List.sublist_insertionSort (r := r) h List.filter_sublist).filter p
    rwa [List.filter_filter, List.filter_congr fun x _ => Bool.and_self (p x)] at hp
  exact (hsub.eq_of_length ((List.perm_insertionSort r l).filter p).length_eq.symm).symm

/-- Two relations that both order a list order any two of its elements alike. -/
theorem pairwise_both {R S : α → α → Prop} {l : List α} (hR : l.Pairwise R) (hS : l.Pairwise S) {x y : α}
    (hx : x ∈ l) (hy : y ∈ l) : x = y ∨ (R x y ∧ S x y) ∨ (R y x ∧ S y x) := by
  have hboth := hR.and hS
  refine List.Pairwise.forall_of_forall_of_flip (R := fun x y => x = y ∨ (R x y ∧ S x y) ∨ (R y x ∧ S y x))
    ?_ ?_ ?_ hx hy
  · exact fun _ _ => .inl rfl
  · exact hboth.imp fun h => .inr (.inl h)
  · exact hboth.imp fun h => .inr (.inr h)

/-- The queues `f c` laid end to end, each item with its queue. -/
def endToEnd (f : γ → List α) (cs : List γ) : List (γ × α) := cs.flatMap fun c => (f c).map (Prod.mk c)

theorem mem_endToEnd {f : γ → List α} {cs : List γ} {c : γ} {x : α} :
    (c, x) ∈ endToEnd f cs ↔ c ∈ cs ∧ x ∈ f c := by
  simp only [endToEnd, List.mem_flatMap, List.mem_map, Prod.mk.injEq]
  constructor
  · rintro ⟨d, hd, y, hy, rfl, rfl⟩
    exact ⟨hd, hy⟩
  · rintro ⟨hc, hx⟩
    exact ⟨c, hc, x, hx, rfl, rfl⟩

theorem filter_map_mk [DecidableEq γ] (l : List α) (c d : γ) :
    (l.map (Prod.mk d)).filter (fun e => e.1 = c) = if d = c then l.map (Prod.mk d) else [] := by
  by_cases hdc : d = c
  · rw [if_pos hdc, List.filter_eq_self]
    intro e he
    obtain ⟨x, -, rfl⟩ := List.mem_map.1 he
    exact decide_eq_true hdc
  · rw [if_neg hdc, List.filter_eq_nil_iff]
    intro e he
    obtain ⟨x, -, rfl⟩ := List.mem_map.1 he
    simpa using hdc

theorem endToEnd_filter [DecidableEq γ] {f : γ → List α} {cs : List γ} (hcs : cs.Nodup) (c : γ) :
    (endToEnd f cs).filter (fun e => e.1 = c) = if c ∈ cs then (f c).map (Prod.mk c) else [] := by
  induction cs with
  | nil => rfl
  | cons d cs ih =>
    obtain ⟨hd, hnd⟩ := List.nodup_cons.1 hcs
    rw [endToEnd, List.flatMap_cons, List.filter_append, ← endToEnd, ih hnd, filter_map_mk]
    by_cases hdc : d = c
    · subst hdc
      rw [if_neg hd, if_pos rfl, if_pos List.mem_cons_self, List.append_nil]
    · rw [if_neg hdc, List.nil_append]
      simp [Ne.symm hdc]

theorem endToEnd_filter_items (f : γ → List α) (cs : List γ) (p : γ × α → Bool) :
    endToEnd (fun c => (f c).filter fun x => p (c, x)) cs = (endToEnd f cs).filter p := by
  simp only [endToEnd, List.filter_flatMap, List.filter_map, Function.comp_def]

theorem endToEnd_nodup {β : Type*} {f : γ → List α} {cs : List γ} (g : α → β) (hcs : cs.Nodup)
    (hf : ∀ c ∈ cs, ((f c).map g).Nodup) : ((endToEnd f cs).map fun e => (e.1, g e.2)).Nodup := by
  induction cs with
  | nil => exact List.nodup_nil
  | cons c cs ih =>
    obtain ⟨hc, hnd⟩ := List.nodup_cons.1 hcs
    obtain ⟨hfc, hfcs⟩ := List.forall_mem_cons.1 hf
    rw [endToEnd, List.flatMap_cons, List.map_append, List.map_map, ← endToEnd]
    refine List.nodup_append'.2 ⟨?_, ih hnd hfcs, ?_⟩
    · show ((f c).map (Prod.mk c ∘ g)).Nodup
      rw [← List.map_map]
      exact hfc.map (Prod.mk_right_injective c)
    · intro e he he'
      obtain ⟨x, -, rfl⟩ := List.mem_map.1 he
      obtain ⟨⟨d, y⟩, hy, heq⟩ := List.mem_map.1 he'
      obtain ⟨rfl, -⟩ := (Prod.mk.injEq ..).mp heq
      exact hc (mem_endToEnd.1 hy).1

theorem endToEnd_filter_queues (f : γ → List α) (cs : List γ) (q : γ → Bool) :
    (endToEnd f cs).filter (fun e => q e.1) = endToEnd f (cs.filter q) := by
  induction cs with
  | nil => rfl
  | cons c cs ih =>
    have hsplit : endToEnd f (c :: cs) = (f c).map (Prod.mk c) ++ endToEnd f cs := List.flatMap_cons
    rw [hsplit, List.filter_append, ih, List.filter_map]
    by_cases hc : q c = true
    · simp [hc, endToEnd, Function.comp_def]
    · simp [hc, Function.comp_def]

/-- The same queues in another order, with more or fewer empty ones. -/
theorem endToEnd_perm {f : γ → List α} {cs ds : List γ} (hcs : cs.Nodup) (hds : ds.Nodup)
    (hf : ∀ c, (f c).Nodup) (h : ∀ c, f c ≠ [] → (c ∈ cs ↔ c ∈ ds)) :
    (endToEnd f cs).Perm (endToEnd f ds) := by
  have hnd : ∀ es : List γ, es.Nodup → (endToEnd f es).Nodup := fun es hes =>
    .of_map _ (endToEnd_nodup id hes fun c _ => by rw [List.map_id]; exact hf c)
  refine (List.perm_ext_iff_of_nodup (hnd cs hcs) (hnd ds hds)).2 fun e => ?_
  obtain ⟨c, x⟩ := e
  rw [mem_endToEnd, mem_endToEnd]
  exact and_congr_left fun hx => h c (List.ne_nil_of_mem hx)

end Feed
