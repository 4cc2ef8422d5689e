import Mathlib.Data.Set.Insert
import Mathlib.Data.List.Nodup
import Mathlib.Tactic.Common

/-!
# Delivery ledgers

What a mailbox server is for, in its own terms: items `ι` are posted once, and each receiver `κ`
takes items from what is posted. `taken a` is what receiver `a` will not be given (again); an item
leaves the pending set of `a` by being handed to `a` or by being dropped for `a`, and in no other
way. Along any sequence of events no item is handed to a receiver twice (`Steps.handed_nodup`), and
what one receiver takes does not touch another (`Step.frame`).
-/

structure Ledger (κ ι : Type*) where
  posted : Set ι
  taken : κ → Set ι

namespace Ledger

variable {κ ι : Type*}

inductive Event (κ ι : Type*) where
  | post (i : ι)
  | hand (a : κ) (l : List ι)
  | drop (a : κ) (l : List ι)

/-- The items posted, of interest to `a` and not yet taken by `a`. -/
def pending (L : Ledger κ ι) (interest : Set ι) (a : κ) : Set ι :=
  {i | i ∈ L.posted ∧ i ∈ interest ∧ i ∉ L.taken a}

/-- `L'` is `L` after receiver `a` took the items of `l`, all posted and none taken before. -/
structure Takes (L : Ledger κ ι) (a : κ) (l : List ι) (L' : Ledger κ ι) : Prop where
  nodup : l.Nodup
  fresh : ∀ i ∈ l, i ∈ L.posted ∧ i ∉ L.taken a
  posted : L'.posted = L.posted
  taken : ∀ i, i ∈ L'.taken a ↔ i ∈ L.taken a ∨ i ∈ l
  frame : ∀ b, b ≠ a → L'.taken b = L.taken b

inductive Step (L : Ledger κ ι) : Event κ ι → Ledger κ ι → Prop
  | post {i : ι} {L' : Ledger κ ι} (hi : i ∉ L.posted) (hp : L'.posted = insert i L.posted)
      (ht : L'.taken = L.taken) : Step L (.post i) L'
  | hand {a : κ} {l : List ι} {L' : Ledger κ ι} (h : L.Takes a l L') : Step L (.hand a l) L'
  | drop {a : κ} {l : List ι} {L' : Ledger κ ι} (h : L.Takes a l L') : Step L (.drop a l) L'

inductive Steps : Ledger κ ι → List (Event κ ι) → Ledger κ ι → Prop
  | nil {L : Ledger κ ι} : Steps L [] L
  | cons {L L' L'' : Ledger κ ι} {e : Event κ ι} {es : List (Event κ ι)} (h : Step L e L')
      (hs : Steps L' es L'') : Steps L (e :: es) L''

variable {L L' L'' : Ledger κ ι} {a b : κ} {i : ι} {l : List ι}

/-- The items handed to `a`, in order. -/
def handed [DecidableEq κ] (a : κ) (es : List (Event κ ι)) : List ι :=
  es.flatMap fun
    | .hand b l => if b = a then l else []
    | _ => []

theorem Steps.append {es fs : List (Event κ ι)} (h : Steps L es L') (h' : Steps L' fs L'') :
    Steps L (es ++ fs) L'' := by
  induction h with
  | nil => exact h'
  | cons hstep _ ih => exact .cons hstep (ih h')

theorem Steps.single {e : Event κ ι} (h : Step L e L') : Steps L [e] L' := .cons h .nil

theorem Takes.nil (h : L'.posted = L.posted) (ht : L'.taken = L.taken) : L.Takes a [] L' :=
  ⟨List.nodup_nil, by simp, h, by simp [ht], fun _ _ => by rw [ht]⟩

theorem Takes.trans {l' : List ι} (h : L.Takes a l L') (h' : L'.Takes a l' L'') :
    L.Takes a (l ++ l') L'' where
  nodup := List.nodup_append.2 ⟨h.nodup, h'.nodup, by
    rintro i hi j hj rfl
    exact (h'.fresh i hj).2 ((h.taken i).2 (.inr hi))⟩
  fresh i hi := by
    rcases List.mem_append.1 hi with hi | hi
    · exact h.fresh i hi
    · obtain ⟨hp, ht⟩ := h'.fresh i hi
      exact ⟨h.posted ▸ hp, fun hL => ht ((h.taken i).2 (.inl hL))⟩
  posted := h'.posted.trans h.posted
  taken i := by rw [h'.taken, h.taken, List.mem_append, or_assoc]
  frame b hb := (h'.frame b hb).trans (h.frame b hb)

theorem Step.taken_mono {e : Event κ ι} (h : Step L e L') (b : κ) : L.taken b ⊆ L'.taken b := by
  have key : ∀ {a l}, L.Takes a l L' → L.taken b ⊆ L'.taken b := fun {a l} h => by
    by_cases hb : b = a
    · exact fun i hi => hb ▸ (h.taken i).2 (.inl (hb ▸ hi))
    · exact (h.frame b hb).ge
  cases h with
  | post _ _ ht => exact (congrFun ht b).ge
  | hand h => exact key h
  | drop h => exact key h

theorem Steps.taken_mono {es : List (Event κ ι)} (h : Steps L es L') (b : κ) :
    L.taken b ⊆ L'.taken b := by
  induction h with
  | nil => exact subset_rfl
  | cons hstep _ ih => exact (hstep.taken_mono b).trans ih

/-- Nothing is handed to a receiver twice: the items handed along the events are pairwise distinct,
were not taken before, and are taken after. -/
theorem Steps.handed_nodup [DecidableEq κ] {es : List (Event κ ι)} (h : Steps L es L') (a : κ) :
    (handed a es).Nodup ∧ ∀ i ∈ handed a es, i ∉ L.taken a ∧ i ∈ L'.taken a := by
  induction h with
  | nil => simp [handed]
  | @cons L L' L'' e es hstep hs ih =>
    obtain ⟨ihn, iht⟩ := ih
    have hmono := hstep.taken_mono a
    -- events other than a hand-over to `a` add nothing to the list
    have skip : handed a (e :: es) = handed a es →
        (handed a (e :: es)).Nodup ∧
          ∀ i ∈ handed a (e :: es), i ∉ L.taken a ∧ i ∈ L''.taken a := fun he =>
      ⟨he ▸ ihn, fun i hi => ⟨fun hL => (iht i (he ▸ hi)).1 (hmono hL), (iht i (he ▸ hi)).2⟩⟩
    cases hstep with
    | post => exact skip (by simp [handed])
    | drop => exact skip (by simp [handed])
    | @hand c l _ h =>
      by_cases hc : c = a
      · subst hc
        have he : handed c (.hand c l :: es) = l ++ handed c es := by simp [handed]
        rw [he]
        refine ⟨List.nodup_append.2 ⟨h.nodup, ihn, ?_⟩, fun i hi => ?_⟩
        · rintro i hi j hj rfl
          exact (iht i hj).1 ((h.taken i).2 (.inr hi))
        · rcases List.mem_append.1 hi with hi | hi
          · exact ⟨(h.fresh i hi).2, hs.taken_mono c ((h.taken i).2 (.inr hi))⟩
          · exact ⟨fun hL => (iht i hi).1 (hmono hL), (iht i hi).2⟩
      · exact skip (by simp [handed, hc])

/-- The items handed to `a` or dropped for it, in order. -/
def given [DecidableEq κ] (a : κ) (es : List (Event κ ι)) : List ι :=
  es.flatMap fun
    | .hand b l | .drop b l => if b = a then l else []
    | .post _ => []

theorem given_append [DecidableEq κ] (a : κ) (es fs : List (Event κ ι)) :
    given a (es ++ fs) = given a es ++ given a fs := List.flatMap_append

/-- Along the events `a` takes what it is given and nothing else, all of it once. -/
theorem Steps.given_spec [DecidableEq κ] {es : List (Event κ ι)} (h : Steps L es L') (a : κ) :
    (given a es).Nodup ∧ (∀ i ∈ given a es, i ∉ L.taken a) ∧
      ∀ i, i ∈ L'.taken a ↔ i ∈ L.taken a ∨ i ∈ given a es := by
  induction h with
  | nil => simp [given]
  | @cons L L' L'' e es hstep hs ih =>
    obtain ⟨hnd, hfresh, htaken⟩ := ih
    have key : ∀ c l, L.Takes c l L' → given a (e :: es) = (if c = a then l else []) ++ given a es →
        (given a (e :: es)).Nodup ∧ (∀ i ∈ given a (e :: es), i ∉ L.taken a) ∧
          ∀ i, i ∈ L''.taken a ↔ i ∈ L.taken a ∨ i ∈ given a (e :: es) := by
      intro c l ht he
      rw [he]
      by_cases hc : c = a
      · subst hc
        rw [if_pos rfl]
        refine ⟨List.nodup_append.2 ⟨ht.nodup, hnd, ?_⟩, fun i hi => ?_, fun i => ?_⟩
        · rintro i hi j hj rfl
          exact hfresh i hj ((ht.taken i).2 (.inr hi))
        · rcases List.mem_append.1 hi with hi | hi
          · exact (ht.fresh i hi).2
          · exact fun hL => hfresh i hi ((ht.taken i).2 (.inl hL))
        · rw [htaken, ht.taken, List.mem_append, or_assoc]
      · have hframe := ht.frame a (Ne.symm hc)
        rw [if_neg hc, List.nil_append, ← hframe]
        exact ⟨hnd, hfresh, htaken⟩
    cases hstep with
    | post _ _ ht =>
      have hsame := congrFun ht a
      rw [← hsame]
      exact ⟨hnd, hfresh, htaken⟩
    | @hand c l _ h => exact key c l h rfl
    | @drop c l _ h => exact key c l h rfl

end Ledger
