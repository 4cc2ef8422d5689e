import Mathlib.Data.List.Infix
import Sox.Lib.Dict

/-!
# Edits in place

An `Edit` of a dictionary gives its key a default value, unless the key is there, and changes the
value; the change may fail. Edits of different keys do not see each other, so a list of them is
followed value by value (`applyAll_spec`), and it does nothing when no edit has anything left to do
(`applyAll_fixed`).
-/

structure Edit (κ ν : Type*) where
  key : κ
  initial : ν
  change : ν → Option ν

namespace Edit

variable {κ ν : Type*} [DecidableEq κ] {d : Dict κ ν} {e : Edit κ ν} {es : List (Edit κ ν)} {v : ν}

/-- `d.setdefault(key, initial)`, and then the value is changed where it stands. -/
def apply (e : Edit κ ν) (d : Dict κ ν) : Option (Dict κ ν) :=
  (e.change (d.getD e.key e.initial)).map (d.set e.key)

def applyAll (es : List (Edit κ ν)) (d : Dict κ ν) : Option (Dict κ ν) :=
  es.foldlM (fun d e => e.apply d) d

/-- The old keys stay where they are, what no edit is about keeps its value, and every edit has
changed the value it found at the start. -/
structure Edited (es : List (Edit κ ν)) (d d' : Dict κ ν) : Prop where
  keys : d.keys <+: d'.keys
  others : ∀ k ∉ es.map key, d'.get? k = d.get? k
  values : ∀ e ∈ es, d'.get? e.key = e.change (d.getD e.key e.initial)

theorem prefix_ite {α : Type*} {p : Prop} [Decidable p] (l new : List α) :
    l <+: if p then l else l ++ new := by
  split
  · exact List.prefix_rfl
  · exact List.prefix_append ..

theorem keys_prefix_set (d : Dict κ ν) (k : κ) (v : ν) : d.keys <+: (d.set k v).keys := by
  rw [Dict.keys_set]
  exact prefix_ite ..

theorem applyAll_spec (hkeys : (es.map key).Nodup)
    (h : ∀ e ∈ es, ∃ v, e.change (d.getD e.key e.initial) = some v) :
    ∃ d', applyAll es d = some d' ∧ Edited es d d' := by
  induction es generalizing d with
  | nil => exact ⟨d, rfl, List.prefix_rfl, fun _ _ => rfl, fun _ he => absurd he List.not_mem_nil⟩
  | cons e es ih =>
    rw [List.map_cons, List.nodup_cons] at hkeys
    obtain ⟨v, hv⟩ := h e List.mem_cons_self
    have happly : e.apply d = some (d.set e.key v) := by rw [apply, hv]; rfl
    -- the later edits find what they would have found before
    have hsame : ∀ f ∈ es, (d.set e.key v).getD f.key f.initial = d.getD f.key f.initial := by
      intro f hf
      refine Dict.getD_set_of_ne fun hk => hkeys.1 ?_
      rw [← hk]
      exact List.mem_map_of_mem hf
    obtain ⟨d', hd', hed⟩ := ih (d := d.set e.key v) hkeys.2 fun f hf => by
      rw [hsame f hf]
      exact h f (List.mem_cons_of_mem _ hf)
    refine ⟨d', ?_, (keys_prefix_set d e.key v).trans hed.keys, ?_, ?_⟩
    · rw [applyAll, List.foldlM_cons, happly]
      exact hd'
    · intro k hk
      rw [List.map_cons, List.mem_cons, not_or] at hk
      rw [hed.others k hk.2, Dict.get?_set_of_ne hk.1]
    · intro f hf
      rcases List.mem_cons.1 hf with rfl | hf
      · rw [hed.others f.key hkeys.1, Dict.get?_set_self, hv]
      · rw [hed.values f hf, hsame f hf]

theorem applyAll_fixed (h : ∀ e ∈ es, ∃ v, d.get? e.key = some v ∧ e.change v = some v) :
    applyAll es d = some d := by
  induction es with
  | nil => rfl
  | cons e es ih =>
    obtain ⟨v, hv, hchange⟩ := h e List.mem_cons_self
    have happly : e.apply d = some d := by
      rw [apply, Dict.getD, hv, Option.getD_some, hchange, Option.map_some, Dict.set_of_get? hv]
    rw [applyAll, List.foldlM_cons, happly]
    exact ih fun f hf => h f (List.mem_cons_of_mem _ hf)

/-- Edits that leave every value as it was leave the dictionary as it was. -/
theorem Edited.eq_of_same {d' : Dict κ ν} (h : Edited es d d') (hkeys : d'.keys = d.keys)
    (hvalues : ∀ e ∈ es, ∀ v v', d.get? e.key = some v → d'.get? e.key = some v' → v' = v) :
    d' = d := by
  refine Dict.ext_keys hkeys fun k hk => ?_
  by_cases hk' : k ∈ es.map key
  · obtain ⟨e, he, rfl⟩ := List.mem_map.1 hk'
    obtain ⟨v', hv'⟩ := Option.isSome_iff_exists.1 (Dict.isSome_get?_iff.2 hk)
    obtain ⟨v, hv⟩ := Option.isSome_iff_exists.1 (Dict.isSome_get?_iff.2 (hkeys ▸ hk))
    rw [hv', hv, hvalues e he v v' hv hv']
  · exact h.others k hk'

end Edit
