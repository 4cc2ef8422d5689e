import Mathlib.Data.List.DropRight
import Sox.Lib.Cycles

/-!
# Kahn's sort with a first-in, first-out queue

`fifo ids edges` appends the nodes that a round frees at the end of the queue, in ascending order. So
it lists the nodes by the place of the last of their predecessors, and those with the same place in
ascending order (`fifo_arranged`); no other order of them does (`Arranged.unique`).
-/

namespace TopoSort

/-! ### The place of the last predecessor -/

variable {α : Type*} [LinearOrder α] {ids order order' u v queue result : List α} {edges : List (α × α)}
  {degree : α → Int} {x y node : α}

/-- Counted from one; a node without predecessors has place zero. -/
def place (edges : List (α × α)) (order : List α) (x : α) : Nat :=
  (order.rdropWhile fun y => (y, x) ∉ edges).length

@[simp] theorem place_nil : place edges [] x = 0 := by
  simp [place]

theorem place_concat (h : (y, x) ∈ edges) : place edges (u ++ [y]) x = u.length + 1 := by
  rw [place, List.rdropWhile_concat_neg _ _ _ (by simpa using h), List.length_append, List.length_singleton]

theorem place_append (h : ∀ y ∈ v, (y, x) ∉ edges) : place edges (u ++ v) x = place edges u x := by
  induction v using List.reverseRecOn with
  | nil => rw [List.append_nil]
  | append_singleton v y ih =>
    have hy := h y (by simp)
    rw [← List.append_assoc, place, List.rdropWhile_concat_pos _ _ _ (by simpa using hy)]
    exact ih fun z hz => h z (List.mem_append_left _ hz)

/-- What comes behind all its predecessors does not move a node's place. -/
theorem place_of_sources (h : ∀ y, (y, x) ∈ edges → y ∈ u) (hnodup : (u ++ v).Nodup) :
    place edges (u ++ v) x = place edges u x := by
  refine place_append fun y hy he => ?_
  exact (List.nodup_append.1 hnodup).2.2 y (h y he) y hy rfl

theorem place_le : place edges order x ≤ order.length := (List.rdropWhile_prefix _ _).length_le

/-- The last predecessor of `x` comes before that of `y`, or it is the same and `x` is less. -/
def Sooner (edges : List (α × α)) (order : List α) (x y : α) : Prop :=
  place edges order x < place edges order y ∨ place edges order x = place edges order y ∧ x < y

instance : Decidable (Sooner edges order x y) := inferInstanceAs (Decidable (_ ∨ _))

theorem Sooner.asymm (h : Sooner edges order x y) : ¬Sooner edges order y x := by
  rintro (hlt | ⟨heq, hlt⟩)
  · rcases h with h | ⟨h, -⟩ <;> omega
  · rcases h with h | ⟨-, h⟩
    · omega
    · exact lt_asymm h hlt

theorem Sooner.congr (hx : place edges order x = place edges order' x)
    (hy : place edges order y = place edges order' y) :
    Sooner edges order x y ↔ Sooner edges order' x y := by
  rw [Sooner, Sooner, hx, hy]

def Arranged (edges : List (α × α)) (order : List α) : Prop := order.Pairwise (Sooner edges order)

/-- After a common beginning, what both orders put next has its predecessors there. -/
theorem Arranged.unique (h : Arranged edges order) (h' : Arranged edges order') (hperm : order.Perm order')
    (hnodup : order.Nodup) (hresp : Respects edges order) (hresp' : Respects edges order') :
    order = order' := by
  have hnodup' : order'.Nodup := hperm.nodup_iff.1 hnodup
  rcases eq_or_first_difference hperm.length_eq with heq | ⟨u, x, x', v, v', hu, hu', hx⟩
  · exact heq
  exfalso
  have hrests : (x :: v).Perm (x' :: v') := by
    rw [hu, hu'] at hperm
    exact (List.perm_append_left_iff u).1 hperm
  have hv : x' ∈ v :=
    (List.mem_cons.1 (hrests.mem_iff.2 List.mem_cons_self)).resolve_left (Ne.symm hx)
  have hv' : x ∈ v' := (List.mem_cons.1 (hrests.mem_iff.1 List.mem_cons_self)).resolve_left hx
  have hsources (y : α) (he : (y, x) ∈ edges) : y ∈ u := (hu ▸ hresp).sources (hu ▸ hnodup) he
  have hsources' (y : α) (he : (y, x') ∈ edges) : y ∈ u := (hu' ▸ hresp').sources (hu' ▸ hnodup') he
  subst hu hu'
  have hsooner : Sooner edges (u ++ x :: v) x x' :=
    (List.pairwise_cons.1 (List.pairwise_append.1 h).2.1).1 x' hv
  have hsooner' : Sooner edges (u ++ x' :: v') x' x :=
    (List.pairwise_cons.1 (List.pairwise_append.1 h').2.1).1 x hv'
  rw [Sooner.congr (place_of_sources hsources hnodup) (place_of_sources hsources' hnodup)] at hsooner
  rw [Sooner.congr (place_of_sources hsources' hnodup') (place_of_sources hsources hnodup')] at hsooner'
  exact hsooner.asymm hsooner'

/-! ### The sort -/

/-- Every round removes a node for good, so the number of nodes is enough fuel. -/
def fifoLoop (edges : List (α × α)) : Nat → (α → Int) → List α → List α → List α
  | 0, _, _, result => result
  | _ + 1, _, [], result => result
  | fuel + 1, degree, node :: queue, result =>
    let (degree, freed) := release degree ((successors edges node).insertionSort (· ≤ ·))
    fifoLoop edges fuel degree (queue ++ freed) (result ++ [node])

def fifo (ids : List α) (edges : List (α × α)) : List α :=
  let queue := (ids.filter fun x => inDegree edges x = 0).insertionSort (· ≤ ·)
  fifoLoop edges ids.length (inDegree edges) queue []

theorem release_sublist (degree : α → Int) (ys : List α) : (release degree ys).2.Sublist ys := by
  induction ys generalizing degree with
  | nil => exact .slnil
  | cons y ys ih =>
    simp only [release]
    split
    · exact (ih _).cons_cons y
    · exact (ih _).cons y

theorem Running.sources (h : Running ids edges degree queue result) (hx : x ∈ queue ++ result)
    (he : (y, x) ∈ edges) : y ∈ result := by
  rcases List.mem_append.1 hx with hx | hx
  · exact (h.mem_queue_iff.1 hx).2.2 _ he rfl
  · exact (h.before _ he hx).left_mem

/-- The queue continues the result as arranged. -/
structure Fifo (ids : List α) (edges : List (α × α)) (degree : α → Int) (queue result : List α) : Prop where
  running : Running ids edges degree queue result
  arranged : (result ++ queue).Pairwise (Sooner edges result)

theorem Fifo.step (h : Fifo ids edges degree (node :: queue) result) (hedges : ∀ e ∈ edges, e.2 ∈ ids) :
    Fifo ids edges (release degree ((successors edges node).insertionSort (· ≤ ·))).1
      (queue ++ (release degree ((successors edges node).insertionSort (· ≤ ·))).2) (result ++ [node]) := by
  have hsorted := List.pairwise_insertionSort (· ≤ ·) (successors edges node)
  have hperm := List.perm_insertionSort (· ≤ ·) (successors edges node)
  have hfreed := release_sublist degree ((successors edges node).insertionSort (· ≤ ·))
  have hrun := h.running.advance hedges hperm List.perm_append_comm
  have hold := h.running.nodup
  generalize release degree ((successors edges node).insertionSort (· ≤ ·)) = released at *
  refine ⟨hrun, ?_⟩
  have hplace {x : α} (hx : x ∈ result ++ node :: queue) :
      place edges (result ++ [node]) x = place edges result x := by
    refine place_append fun y hy he => ?_
    obtain rfl := List.mem_singleton.1 hy
    have hin := h.running.sources (List.perm_append_comm.mem_iff.1 hx) he
    exact (List.nodup_append.1 hold).2.2 y List.mem_cons_self y hin rfl
  have hnew {z : α} (hz : z ∈ released.2) : place edges (result ++ [node]) z = result.length + 1 := by
    obtain ⟨e, hmem, rfl⟩ := List.mem_map.1 (hperm.mem_iff.1 (hfreed.subset hz))
    rw [List.mem_filter, decide_eq_true_eq] at hmem
    obtain ⟨he, rfl⟩ := hmem
    exact place_concat he
  have hstrict : released.2.Pairwise (· < ·) := by
    have hnodup : released.2.Nodup := by
      have := hrun.nodup
      rw [List.append_assoc] at this
      exact (List.nodup_append.1 (List.nodup_append.1 this).2.1).1
    exact (hsorted.sublist hfreed).imp₂ (fun _ _ hle hne => lt_of_le_of_ne hle hne) hnodup
  have hsplit : result ++ [node] ++ (queue ++ released.2) = (result ++ node :: queue) ++ released.2 := by
    simp
  rw [hsplit, List.pairwise_append]
  refine ⟨?_, ?_, ?_⟩
  · exact h.arranged.imp_of_mem fun hx hy hxy => (Sooner.congr (hplace hx) (hplace hy)).2 hxy
  · exact hstrict.imp_of_mem fun hx hy hxy => .inr ⟨(hnew hx).trans (hnew hy).symm, hxy⟩
  · intro x hx y hy
    left
    have hle : place edges result x ≤ result.length := place_le
    rw [hplace hx, hnew hy]
    omega

theorem Fifo.loop (fuel : Nat) (h : Fifo ids edges degree queue result)
    (hedges : ∀ e ∈ edges, e.2 ∈ ids) (hfuel : ids.length ≤ fuel + result.length) :
    ∃ degree', Fifo ids edges degree' [] (fifoLoop edges fuel degree queue result) := by
  induction fuel generalizing degree queue result with
  | zero => exact ⟨degree, h.running.queue_eq_nil (by omega) ▸ h⟩
  | succ fuel ih =>
    cases queue with
    | nil => exact ⟨degree, h⟩
    | cons node queue =>
      refine ih (h.step hedges) ?_
      rw [List.length_append, List.length_singleton]
      omega

theorem fifo_start (hids : ids.Nodup) :
    Fifo ids edges (inDegree edges)
      ((ids.filter fun x => inDegree edges x = 0).insertionSort (· ≤ ·)) [] := by
  have hrun : Running ids edges (inDegree edges)
      ((ids.filter fun x => inDegree edges x = 0).insertionSort (· ≤ ·)) [] := running_start hids
  have hnodup := hrun.nodup
  rw [List.append_nil] at hnodup
  have hsorted := List.pairwise_insertionSort (· ≤ ·) (ids.filter fun x => inDegree edges x = 0)
  refine ⟨hrun, ?_⟩
  rw [List.nil_append]
  exact hsorted.imp₂ (fun _ _ hle hne => .inr ⟨by simp, lt_of_le_of_ne hle hne⟩) hnodup

section
variable (hids : ids.Nodup) (hedges : ∀ e ∈ edges, e.2 ∈ ids)
include hids hedges

theorem fifo_saturated : Saturated ids edges (fifo ids edges) := by
  obtain ⟨degree, h⟩ := (fifo_start hids).loop ids.length hedges (by simp)
  exact h.running.saturated

theorem fifo_arranged : Arranged edges (fifo ids edges) := by
  obtain ⟨degree, h⟩ := (fifo_start hids).loop ids.length hedges (by simp)
  have harranged := h.arranged
  rwa [List.append_nil] at harranged

end

end TopoSort
