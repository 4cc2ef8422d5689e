import Mathlib.Data.List.Induction
import Mathlib.Data.List.Nodup

/-!
# Insertion-ordered dictionaries

`Dict κ ν`: the key-value pairs in order of first insertion, with pairwise distinct keys.
Overwriting a key keeps its place, a new key goes last.
-/

@[ext]
structure Dict (κ ν : Type*) where
  entries : List (κ × ν)
  nodup : (entries.map Prod.fst).Nodup
deriving DecidableEq

namespace Dict

variable {κ ν : Type*} [DecidableEq κ] {d : Dict κ ν} {k j : κ} {v : ν}

def empty : Dict κ ν := ⟨[], List.nodup_nil⟩

instance : Inhabited (Dict κ ν) := ⟨empty⟩

def keys (d : Dict κ ν) : List κ := d.entries.map Prod.fst

def values (d : Dict κ ν) : List ν := d.entries.map Prod.snd

def get? (d : Dict κ ν) (k : κ) : Option ν := d.entries.lookup k

def getD (d : Dict κ ν) (k : κ) (v : ν) : ν := (d.get? k).getD v

/-- Overwrites the pair of `k` in place, or puts it last. -/
def upsert (k : κ) (v : ν) : List (κ × ν) → List (κ × ν)
  | [] => [(k, v)]
  | (j, w) :: rest => if j = k then (j, v) :: rest else (j, w) :: upsert k v rest

theorem upsert_keys (k : κ) (v : ν) (l : List (κ × ν)) :
    (upsert k v l).map Prod.fst =
      if k ∈ l.map Prod.fst then l.map Prod.fst else l.map Prod.fst ++ [k] := by
  induction l with
  | nil => simp [upsert]
  | cons p rest ih =>
    obtain ⟨j, w⟩ := p
    by_cases hj : j = k
    · simp [upsert, hj]
    · simp only [upsert, hj, ↓reduceIte, List.map_cons, ih, List.mem_cons, Ne.symm hj, false_or]
      split <;> simp

def set (d : Dict κ ν) (k : κ) (v : ν) : Dict κ ν where
  entries := upsert k v d.entries
  nodup := by
    rw [upsert_keys]
    split
    · exact d.nodup
    · rename_i hk
      exact List.nodup_append.2 ⟨d.nodup, by simp, by rintro a ha _ hb rfl; simp_all⟩

/-- The pairs set one after the other. -/
def ofList (l : List (κ × ν)) : Dict κ ν := l.foldl (fun d p => d.set p.1 p.2) empty

/-- The value of a key that is there is left alone. -/
def setdefault (d : Dict κ ν) (k : κ) (v : ν) : Dict κ ν := if (d.get? k).isSome then d else d.set k v

/-- `f` on the value of `k`, if there is one. -/
def modify (d : Dict κ ν) (k : κ) (f : ν → ν) : Dict κ ν :=
  match d.get? k with
  | some v => d.set k (f v)
  | none => d

/-- `del d[k]` for every key that fails `p`. -/
def filter (d : Dict κ ν) (p : κ → ν → Bool) : Dict κ ν where
  entries := d.entries.filter fun e => p e.1 e.2
  nodup := d.nodup.sublist (List.filter_sublist.map _)

theorem lookup_cons_eq (i j : κ) (w : ν) (rest : List (κ × ν)) :
    ((i, w) :: rest).lookup j = if j = i then some w else rest.lookup j := by
  rw [List.lookup_cons]
  by_cases h : j = i
  · simp [h]
  · simp [h, beq_eq_false_iff_ne.2 h]

theorem lookup_upsert (k j : κ) (v : ν) (l : List (κ × ν)) :
    (upsert k v l).lookup j = if j = k then some v else l.lookup j := by
  induction l with
  | nil => simp [upsert, lookup_cons_eq]
  | cons p rest ih =>
    obtain ⟨i, w⟩ := p
    by_cases hi : i = k
    · simp only [upsert, hi, ↓reduceIte, lookup_cons_eq]
      split <;> rfl
    · simp only [upsert, hi, ↓reduceIte, lookup_cons_eq, ih]
      by_cases h : j = i
      · subst h; simp [hi]
      · simp [h]

@[simp] theorem get?_empty : (empty : Dict κ ν).get? k = none := rfl

theorem keys_set : (d.set k v).keys = if k ∈ d.keys then d.keys else d.keys ++ [k] :=
  upsert_keys k v d.entries

theorem get?_set : (d.set k v).get? j = if j = k then some v else d.get? j :=
  lookup_upsert k j v d.entries

@[simp] theorem get?_set_self : (d.set k v).get? k = some v := by simp [get?_set]

theorem get?_set_of_ne (h : j ≠ k) : (d.set k v).get? j = d.get? j := by simp [get?_set, h]

@[simp] theorem getD_set_self {w : ν} : (d.set k v).getD k w = v := by simp [getD]

theorem getD_set_of_ne {w : ν} (h : j ≠ k) : (d.set k v).getD j w = d.getD j w := by
  simp [getD, get?_set_of_ne h]

/-- As a function from keys. -/
theorem getD_set_eq_update {w : ν} :
    (fun j => (d.set k v).getD j w) = Function.update (fun j => d.getD j w) k v := by
  funext j
  by_cases hj : j = k
  · subst hj
    rw [Function.update_self, getD_set_self]
  · rw [Function.update_of_ne hj, getD_set_of_ne hj]

theorem get?_setdefault :
    (d.setdefault k v).get? j = if j = k then some (d.getD k v) else d.get? j := by
  rw [setdefault, getD]
  by_cases hj : j = k
  · subst hj
    cases hk : d.get? j <;> simp [hk]
  · rw [if_neg hj]
    split
    · rfl
    · rw [get?_set, if_neg hj]

theorem get?_modify {f : ν → ν} :
    (d.modify k f).get? j = if j = k then (d.get? k).map f else d.get? j := by
  rw [modify]
  by_cases hj : j = k
  · subst hj
    cases hk : d.get? j <;> simp [hk]
  · cases hk : d.get? k <;> simp [hj, get?_set]

theorem getD_setdefault_modify {f : ν → ν} {w : ν} :
    ((d.setdefault k v).modify k f).getD j w = if j = k then f (d.getD k v) else d.getD j w := by
  rw [getD, get?_modify]
  by_cases hj : j = k
  · rw [if_pos hj, if_pos hj, get?_setdefault, if_pos rfl]
    rfl
  · rw [if_neg hj, if_neg hj, get?_setdefault, if_neg hj]
    rfl

theorem getD_modify {f : ν → ν} {w : ν} (hf : f w = w) :
    (d.modify k f).getD j w = if j = k then f (d.getD j w) else d.getD j w := by
  simp only [getD, get?_modify]
  by_cases hj : j = k
  · subst hj
    cases d.get? j <;> simp [hf]
  · simp [hj]

theorem get?_eq_some : d.get? k = some v ↔ (k, v) ∈ d.entries := by
  obtain ⟨l, hl⟩ := d
  simp only [get?]
  induction l with
  | nil => simp
  | cons p rest ih =>
    obtain ⟨i, w⟩ := p
    simp only [List.map_cons, List.nodup_cons] at hl
    by_cases hi : k = i
    · subst hi
      have hk : (k, v) ∉ rest := fun h => hl.1 (List.mem_map_of_mem (f := Prod.fst) h)
      simp [hk, eq_comm]
    · simp [lookup_cons_eq, hi, ih hl.2]

theorem upsert_upsert (k : κ) (v w : ν) (l : List (κ × ν)) :
    upsert k w (upsert k v l) = upsert k w l := by
  induction l with
  | nil => simp [upsert]
  | cons p rest ih =>
    obtain ⟨j, u⟩ := p
    by_cases hj : j = k <;> simp [upsert, hj, ih]

@[simp] theorem set_set {w : ν} : (d.set k v).set k w = d.set k w := by
  simp only [set, upsert_upsert]

theorem ofList_concat (l : List (κ × ν)) (p : κ × ν) : ofList (l ++ [p]) = (ofList l).set p.1 p.2 := by
  simp [ofList]

theorem mem_keys_ofList (l : List (κ × ν)) : k ∈ (ofList l).keys ↔ k ∈ l.map Prod.fst := by
  induction l using List.reverseRecOn with
  | nil => exact Iff.rfl
  | append_singleton l p ih =>
    rw [ofList_concat, keys_set, List.map_append, List.mem_append, ← ih]
    split
    · rename_i hp
      refine ⟨.inl, fun h => h.elim id fun hk => ?_⟩
      rw [List.mem_singleton.1 hk]
      exact hp
    · simp

theorem mem_of_mem_ofList {l : List (κ × ν)} {e : κ × ν} (h : e ∈ (ofList l).entries) : e ∈ l := by
  obtain ⟨k, v⟩ := e
  rw [← get?_eq_some] at h
  induction l using List.reverseRecOn with
  | nil => cases h
  | append_singleton l p ih =>
    rw [ofList_concat, get?_set] at h
    split at h
    · rename_i hk
      rw [← Option.some.inj h, hk]
      simp
    · exact List.mem_append_left _ (ih h)

theorem upsert_of_notMem {l : List (κ × ν)} (h : k ∉ l.map Prod.fst) :
    upsert k v l = l ++ [(k, v)] := by
  induction l with
  | nil => rfl
  | cons p rest ih =>
    obtain ⟨j, w⟩ := p
    rw [List.map_cons, List.mem_cons, not_or] at h
    rw [upsert, if_neg (Ne.symm h.1), ih h.2]
    rfl

theorem entries_set_of_notMem (h : k ∉ d.keys) : (d.set k v).entries = d.entries ++ [(k, v)] :=
  upsert_of_notMem h

theorem entries_ofList {l : List (κ × ν)} (h : (l.map Prod.fst).Nodup) : (ofList l).entries = l := by
  induction l using List.reverseRecOn with
  | nil => rfl
  | append_singleton l p ih =>
    rw [List.map_append, List.nodup_append] at h
    have hl := ih h.1
    have hp : p.1 ∉ l.map Prod.fst := fun hmem => h.2.2 p.1 hmem p.1 (by simp) rfl
    rw [ofList_concat]
    rw [entries_set_of_notMem (by rwa [keys, hl]), hl]

@[simp] theorem ofList_entries (d : Dict κ ν) : ofList d.entries = d := Dict.ext (entries_ofList d.nodup)

theorem isSome_get?_iff : (d.get? k).isSome = true ↔ k ∈ d.keys := by
  rw [Option.isSome_iff_exists, keys, List.mem_map]
  constructor
  · rintro ⟨v, hv⟩
    exact ⟨(k, v), get?_eq_some.1 hv, rfl⟩
  · rintro ⟨⟨j, v⟩, hmem, rfl⟩
    exact ⟨v, get?_eq_some.2 hmem⟩

/-- Dictionaries with the same keys in the same order and the same values. -/
theorem ext_keys {d' : Dict κ ν} (hkeys : d.keys = d'.keys)
    (hvalues : ∀ k ∈ d.keys, d.get? k = d'.get? k) :
    d = d' := by
  have hlen : d.entries.length = d'.entries.length := by
    simpa [keys] using congrArg List.length hkeys
  refine Dict.ext (List.ext_getElem hlen fun i hi hi' => ?_)
  have hkey : d.entries[i].1 = d'.entries[i].1 := by
    have h := List.getElem_of_eq hkeys (by simpa [keys] using hi)
    simpa [keys] using h
  have hmem : d.entries[i] ∈ d.entries := List.getElem_mem hi
  have hmem' : d'.entries[i] ∈ d'.entries := List.getElem_mem hi'
  have hv : d.get? d.entries[i].1 = some d.entries[i].2 := get?_eq_some.2 hmem
  have hv' : d'.get? d'.entries[i].1 = some d'.entries[i].2 := get?_eq_some.2 hmem'
  rw [← hkey, ← hvalues _ (List.mem_map_of_mem hmem), hv] at hv'
  exact Prod.ext hkey (Option.some.inj hv')

theorem set_of_get? (h : d.get? k = some v) : d.set k v = d := by
  have hkey : k ∈ d.keys := isSome_get?_iff.1 (by rw [h]; rfl)
  refine ext_keys (by rw [keys_set, if_pos hkey]) fun j _ => ?_
  rw [get?_set]
  split
  · rename_i hj
    rw [hj, h]
  · rfl

theorem getD_of_notMem {w : ν} (h : k ∉ d.keys) : d.getD k w = w := by
  rw [← isSome_get?_iff, Bool.not_eq_true, Option.isSome_eq_false_iff, Option.isNone_iff_eq_none] at h
  rw [getD, h, Option.getD_none]

theorem get?_filter {p : κ → ν → Bool} :
    (d.filter p).get? k = some v ↔ d.get? k = some v ∧ p k v = true := by
  simp [get?_eq_some, filter]

end Dict
