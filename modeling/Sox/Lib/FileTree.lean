import Sox.Lib.Dict

/-!
# A tree of directories and files

`FileTree ν γ`: directories and files with contents in `γ`, by location; a location is the list of the
names from the top down, and everything there is lies in a directory. `walk` follows a path as POSIX
does: each step is taken in a directory that is there, `..` leads back. The host may refuse a name
(`accepts`). There are no links.
-/

inductive FileNode (γ : Type*) where
  | dir
  | file (content : γ)
deriving DecidableEq

instance FileNode.decidableEqDir {γ : Type*} : (o : Option (FileNode γ)) → Decidable (o = some .dir)
  | none => isFalse fun h => by cases h
  | some (.file _) => isFalse fun h => by cases h
  | some .dir => isTrue rfl

/-- A component of a path. -/
inductive PathStep (ν : Type*) where
  | up
  | down (name : ν)
deriving DecidableEq

/-- The `OSError` of a path that cannot be used. -/
inductive FileError where
  | notFound
  | notADirectory
  | isADirectory
  | fileExists
  | nameRefused
deriving DecidableEq

structure FileTree (ν γ : Type*) [DecidableEq ν] where
  entries : Dict (List ν) (FileNode γ)
  top : entries.get? [] = none
  inDir : ∀ p n, (entries.get? (p ++ [n])).isSome → p = [] ∨ entries.get? p = some .dir

namespace FileTree

variable {ν γ : Type*} [DecidableEq ν] {accepts : ν → Bool} {t : FileTree ν γ} {p q : List ν} {n : ν}
  {x : FileNode γ} {steps rest : List (PathStep ν)}

def empty : FileTree ν γ := ⟨.empty, rfl, fun _ _ h => by cases h⟩

/-- What is at a location. -/
def node (t : FileTree ν γ) (p : List ν) : Option (FileNode γ) :=
  if p = [] then some .dir else t.entries.get? p

@[simp] theorem node_nil : t.node [] = some .dir := if_pos rfl

theorem node_append : t.node (p ++ [n]) = t.entries.get? (p ++ [n]) := if_neg (by simp)

theorem node_parent (h : t.node (p ++ [n]) = some x) : t.node p = some .dir := by
  rw [node_append] at h
  rcases t.inDir p n (by rw [h]; rfl) with rfl | hp
  · exact node_nil
  · unfold node
    split
    · rfl
    · exact hp

/-- What leads to a directory are directories. -/
theorem node_above (h : t.node (p ++ q) = some .dir) : t.node p = some .dir := by
  induction q using List.reverseRecOn with
  | nil => rwa [List.append_nil] at h
  | append_singleton q n ih =>
    rw [← List.append_assoc] at h
    exact ih (node_parent h)

/-- Puts a node into a directory, in the place of a file or, if it is a directory, of anything. -/
def put (t : FileTree ν γ) (p : List ν) (n : ν) (x : FileNode γ) (hp : t.node p = some .dir)
    (hx : x = .dir ∨ t.node (p ++ [n]) ≠ some .dir) : FileTree ν γ where
  entries := t.entries.set (p ++ [n]) x
  top := by
    rw [Dict.get?_set_of_ne (by simp)]
    exact t.top
  inDir := by
    intro q m h
    rw [Dict.get?_set] at h
    by_cases hq : q = []
    · exact .inl hq
    · refine .inr ?_
      have hdir : t.entries.get? q = some .dir := by
        split at h
        · rename_i heq
          have hqp : q = p := (List.append_inj' heq rfl).1
          rw [← hqp, node, if_neg hq] at hp
          exact hp
        · exact (t.inDir q m h).resolve_left hq
      rw [Dict.get?_set]
      split
      · rename_i heq
        rcases hx with rfl | hx
        · rfl
        · rw [node_append, ← heq] at hx
          exact absurd hdir hx
      · exact hdir

theorem node_put (hp : t.node p = some .dir) (hx : x = .dir ∨ t.node (p ++ [n]) ≠ some .dir) :
    (t.put p n x hp hx).node q = if q = p ++ [n] then some x else t.node q := by
  unfold node
  by_cases hq : q = []
  · subst hq
    simp
  · rw [if_neg hq, if_neg hq]
    exact Dict.get?_set

/-! ### Following a path -/

section
variable (accepts : ν → Bool)

def walk (t : FileTree ν γ) : List ν → List (PathStep ν) → Except FileError (List ν)
  | p, [] => .ok p
  | p, step :: rest =>
    match t.node p with
    | none => .error .notFound
    | some (.file _) => .error .notADirectory
    | some .dir =>
      match step with
      | .up => walk t p.dropLast rest
      | .down n => if accepts n then walk t (p ++ [n]) rest else .error .nameRefused

/-- What a path from `p` on leads to. -/
def stat (t : FileTree ν γ) (p : List ν) (steps : List (PathStep ν)) : Except FileError (FileNode γ) :=
  match t.walk accepts p steps with
  | .error e => .error e
  | .ok q =>
    match t.node q with
    | none => .error .notFound
    | some x => .ok x

def read (t : FileTree ν γ) (steps : List (PathStep ν)) : Except FileError γ :=
  match t.stat accepts [] steps with
  | .error e => .error e
  | .ok .dir => .error .isADirectory
  | .ok (.file content) => .ok content

/-- The name in the directory at `p` of what is at `q`. -/
def nameIn (p q : List ν) : Option ν := if q.dropLast = p then q.getLast? else none

/-- The entries of a directory. -/
def list (t : FileTree ν γ) (p : List ν) : List (ν × FileNode γ) :=
  t.entries.entries.filterMap fun e => (nameIn p e.1).map fun n => (n, e.2)

/-- Where a path leads if everything on it is there. -/
def lead : List ν → List (PathStep ν) → List ν
  | p, [] => p
  | p, .up :: rest => lead p.dropLast rest
  | p, .down n :: rest => lead (p ++ [n]) rest

/-- All the names of a path are accepted. -/
def Usable (steps : List (PathStep ν)) : Prop := ∀ n, .down n ∈ steps → accepts n = true

/-- A path from `p` on comes to `q`, if what is on it are directories. -/
def Reaches (p : List ν) (steps : List (PathStep ν)) (q : List ν) : Prop :=
  ∃ front, front <+: steps ∧ Usable accepts front ∧ lead p front = q

/-- `mkdir -p` from a directory on; what was made before a failure stays. -/
def mkdirs (t : FileTree ν γ) : List ν → List (PathStep ν) → Except FileError (List ν) × FileTree ν γ
  | p, [] => (.ok p, t)
  | p, .up :: rest => mkdirs t p.dropLast rest
  | p, .down n :: rest =>
    if !accepts n then (.error .nameRefused, t)
    else match t.node (p ++ [n]) with
      | some .dir => mkdirs t (p ++ [n]) rest
      | some (.file _) => (.error (if rest.isEmpty then .fileExists else .notADirectory), t)
      | none =>
        if hp : t.node p = some .dir then mkdirs (t.put p n .dir hp (.inl rfl)) (p ++ [n]) rest
        else (.error .notFound, t)

/-- `os.replace` of a new file in the directory at `p`. -/
def replace (t : FileTree ν γ) (p : List ν) (n : ν) (content : γ) : Except FileError Unit × FileTree ν γ :=
  if !accepts n then (.error .nameRefused, t)
  else if h : t.node p = some .dir ∧ t.node (p ++ [n]) ≠ some .dir then
    (.ok (), t.put p n (.file content) h.1 (.inr h.2))
  else (.error .isADirectory, t)

end

theorem walk_append : t.walk accepts p (steps ++ rest) =
    (t.walk accepts p steps).bind fun q => t.walk accepts q rest := by
  induction steps generalizing p with
  | nil => rfl
  | cons step steps ih =>
    simp only [List.cons_append, walk]
    cases t.node p with
    | none => rfl
    | some x =>
      cases x with
      | file content => rfl
      | dir =>
        cases step with
        | up => exact ih
        | down n =>
          show (if accepts n then _ else _) = Except.bind (if accepts n then _ else _) _
          split
          · exact ih
          · rfl

theorem walk_up (hp : t.node p = some .dir) :
    t.walk accepts p (.up :: rest) = t.walk accepts p.dropLast rest := by
  rw [walk, hp]

theorem walk_down (hp : t.node p = some .dir) (hn : accepts n = true) :
    t.walk accepts p (.down n :: rest) = t.walk accepts (p ++ [n]) rest := by
  rw [walk, hp]
  exact if_pos hn

/-- A directory's own location leads to it. -/
theorem walk_dir (h : t.node (p ++ q) = some .dir) (hq : ∀ n ∈ q, accepts n = true) :
    t.walk accepts p (q.map .down) = .ok (p ++ q) := by
  induction q generalizing p with
  | nil => rw [List.append_nil]; rfl
  | cons n q ih =>
    rw [List.append_cons] at h
    have hp := node_parent (node_above h)
    rw [List.map_cons, walk_down hp (hq n List.mem_cons_self),
      ih h fun m hm => hq m (List.mem_cons_of_mem n hm), ← List.append_cons]

theorem walk_eq_lead (h : t.walk accepts p steps = .ok q) : q = lead p steps := by
  induction steps generalizing p with
  | nil =>
    cases h
    rfl
  | cons step steps ih =>
    unfold walk at h
    split at h
    · cases h
    · cases h
    · split at h
      · exact ih h
      · split at h
        · exact ih h
        · cases h

omit [DecidableEq ν] in
theorem lead_append : lead p (steps ++ rest) = lead (lead p steps) rest := by
  induction steps generalizing p with
  | nil => rfl
  | cons step steps ih =>
    cases step with
    | up => exact ih
    | down n => exact ih

omit [DecidableEq ν] in
theorem lead_down {names : List ν} : lead p (names.map .down) = p ++ names := by
  induction names generalizing p with
  | nil => rw [List.append_nil]; rfl
  | cons n names ih => rw [List.append_cons]; exact ih

/-- Down a path of accepted names, a walk can only come to something missing or to a file. -/
theorem walk_down_error {names : List ν} {e : FileError} (hnames : ∀ n ∈ names, accepts n = true)
    (h : t.walk accepts p (names.map .down) = .error e) : e = .notFound ∨ e = .notADirectory := by
  induction names generalizing p with
  | nil => cases h
  | cons n names ih =>
    rw [List.map_cons, walk] at h
    split at h
    · cases h
      exact .inl rfl
    · cases h
      exact .inr rfl
    · rw [if_pos (hnames n List.mem_cons_self)] at h
      exact ih (fun m hm => hnames m (List.mem_cons_of_mem n hm)) h

theorem stat_append (h : t.walk accepts p steps = .ok q) :
    t.stat accepts p (steps ++ rest) = t.stat accepts q rest := by
  rw [stat, walk_append, h]
  rfl

theorem stat_refused (hp : t.node p = some .dir) (hn : accepts n = false) :
    t.stat accepts p (.down n :: rest) = .error .nameRefused := by
  rw [stat, walk, hp]
  simp only [hn, Bool.false_eq_true, ↓reduceIte]

theorem stat_down (hp : t.node p = some .dir) (hn : accepts n = true) :
    t.stat accepts p (.down n :: rest) = t.stat accepts (p ++ [n]) rest := by
  rw [stat, walk_down hp hn, stat]

/-- Nothing at the end of a path of accepted names, and no file on it. -/
theorem stat_missing {names : List ν} (hnames : ∀ n ∈ names, accepts n = true)
    (hfree : ∀ q, q <+: names → t.node (p ++ q) = some .dir ∨ t.node (p ++ q) = none)
    (hlast : t.node (p ++ names) = none) : t.stat accepts p (names.map .down) = .error .notFound := by
  induction names generalizing p with
  | nil =>
    rw [List.append_nil] at hlast
    show (match t.node p with | none => _ | some x => _) = _
    rw [hlast]
  | cons n names ih =>
    have hp := hfree [] List.nil_prefix
    rw [List.append_nil] at hp
    rcases hp with hp | hp
    · rw [List.map_cons, stat_down hp (hnames n List.mem_cons_self)]
      refine ih (fun m hm => hnames m (List.mem_cons_of_mem n hm)) (fun q hq => ?_) ?_
      · rw [← List.append_cons]
        exact hfree (n :: q) (List.cons_prefix_cons.2 ⟨rfl, hq⟩)
      · rw [← List.append_cons]
        exact hlast
    · rw [stat, List.map_cons, walk, hp]

theorem read_file {c : γ} (h : t.walk accepts [] steps = .ok p) (hn : accepts n = true)
    (hfile : t.node (p ++ [n]) = some (.file c)) : t.read accepts (steps ++ [.down n]) = .ok c := by
  rw [read, stat_append h, stat_down (node_parent hfile) hn, stat, walk]
  simp only [hfile]

omit [DecidableEq ν] in
theorem usable_up : Usable accepts (.up :: steps) ↔ Usable accepts steps := by
  simp [Usable]

omit [DecidableEq ν] in
theorem usable_down : Usable accepts (.down n :: steps) ↔ accepts n = true ∧ Usable accepts steps := by
  simp [Usable]

omit [DecidableEq ν] in
theorem Reaches.up (h : Reaches accepts p.dropLast steps q) : Reaches accepts p (.up :: steps) q := by
  obtain ⟨front, hfront, hnames, hlead⟩ := h
  exact ⟨.up :: front, List.cons_prefix_cons.2 ⟨rfl, hfront⟩, usable_up.2 hnames, hlead⟩

omit [DecidableEq ν] in
theorem Reaches.down (hn : accepts n = true) (h : Reaches accepts (p ++ [n]) steps q) :
    Reaches accepts p (.down n :: steps) q := by
  obtain ⟨front, hfront, hnames, hlead⟩ := h
  exact ⟨.down n :: front, List.cons_prefix_cons.2 ⟨rfl, hfront⟩, usable_down.2 ⟨hn, hnames⟩, hlead⟩

omit [DecidableEq ν] in
theorem Reaches.of_prefix (h : Reaches accepts p steps q) (hsteps : steps <+: rest) : Reaches accepts p rest q := by
  obtain ⟨front, hfront, hnames, hlead⟩ := h
  exact ⟨front, hfront.trans hsteps, hnames, hlead⟩

/-- A tree in which some directories on the way are new: each of them is left again, to a name. -/
def NewOnWay (accepts : ν → Bool) (t t' : FileTree ν γ) (p : List ν) (steps : List (PathStep ν)) : Prop :=
  ∀ front, front <+: steps → Usable accepts front → t'.node (lead p front) = t.node (lead p front) ∨
    t.node (lead p front) = none ∧ t'.node (lead p front) = some .dir ∧
      ∃ n, accepts n = true ∧ front ++ [.down n] <+: steps

section
variable {t' : FileTree ν γ}

theorem NewOnWay.start (h : NewOnWay accepts t t' p steps) : t'.node p = t.node p ∨
    t.node p = none ∧ t'.node p = some .dir ∧ ∃ n, accepts n = true ∧ [.down n] <+: steps :=
  h [] List.nil_prefix fun _ hn => absurd hn List.not_mem_nil

theorem NewOnWay.up (h : NewOnWay accepts t t' p (.up :: steps)) : NewOnWay accepts t t' p.dropLast steps := by
  intro front hfront hnames
  rcases h (.up :: front) (List.cons_prefix_cons.2 ⟨rfl, hfront⟩) (usable_up.2 hnames) with
    heq | ⟨hnone, hdir, m, hm, hnext⟩
  · exact .inl heq
  · exact .inr ⟨hnone, hdir, m, hm, (List.cons_prefix_cons.1 hnext).2⟩

theorem NewOnWay.down (h : NewOnWay accepts t t' p (.down n :: steps)) (hn : accepts n = true) :
    NewOnWay accepts t t' (p ++ [n]) steps := by
  intro front hfront hnames
  rcases h (.down n :: front) (List.cons_prefix_cons.2 ⟨rfl, hfront⟩) (usable_down.2 ⟨hn, hnames⟩) with
    heq | ⟨hnone, hdir, m, hm, hnext⟩
  · exact .inl heq
  · exact .inr ⟨hnone, hdir, m, hm, (List.cons_prefix_cons.1 hnext).2⟩

theorem stat_none (h : t.node p = none) : t.stat accepts p steps = .error .notFound := by
  cases steps with
  | nil =>
    rw [stat, walk]
    simp only [h]
  | cons step steps =>
    rw [stat]
    unfold walk
    rw [h]

theorem node_below_none (h : t.node p = none) : t.node (p ++ [n]) = none := by
  cases hx : t.node (p ++ [n]) with
  | none => rfl
  | some x =>
    rw [node_parent hx] at h
    cases h

/-- Below a directory that is new, there is nothing but new directories. -/
theorem NewOnWay.stat_none (h : NewOnWay accepts t t' p steps) (hp : t.node p = none) :
    t'.stat accepts p steps = .error .notFound := by
  induction steps generalizing p with
  | nil =>
    rcases h.start with heq | ⟨-, -, n, -, hnext⟩
    · exact FileTree.stat_none (heq.trans hp)
    · exact absurd (List.prefix_nil.1 hnext) (List.cons_ne_nil _ _)
  | cons step steps ih =>
    rcases h.start with heq | ⟨-, hdir, n, hn, hnext⟩
    · exact FileTree.stat_none (heq.trans hp)
    · obtain ⟨rfl, -⟩ := List.cons_prefix_cons.1 hnext
      rw [stat_down hdir hn]
      exact ih (h.down hn) (node_below_none hp)

/-- New directories on the way do not change what is found at its end. -/
theorem NewOnWay.stat_eq (h : NewOnWay accepts t t' p steps) :
    t'.stat accepts p steps = t.stat accepts p steps := by
  induction steps generalizing p with
  | nil =>
    rcases h.start with heq | ⟨-, -, n, -, hnext⟩
    · rw [stat, stat, walk, walk]
      dsimp only
      rw [heq]
    · exact absurd (List.prefix_nil.1 hnext) (List.cons_ne_nil _ _)
  | cons step steps ih =>
    rcases h.start with heq | ⟨hnone, -, -⟩
    · cases hx : t.node p with
      | none => rw [FileTree.stat_none hx, FileTree.stat_none (heq.trans hx)]
      | some x =>
        have hx' := heq.trans hx
        cases x with
        | file c =>
          rw [stat, stat]
          unfold walk
          rw [hx, hx']
        | dir =>
          cases step with
          | up =>
            rw [stat, stat, walk_up hx, walk_up hx', ← stat, ← stat]
            exact ih h.up
          | down n =>
            by_cases hn : accepts n = true
            · rw [stat_down hx hn, stat_down hx' hn]
              exact ih (h.down hn)
            · rw [Bool.not_eq_true] at hn
              rw [stat_refused hx hn, stat_refused hx' hn]
    · rw [h.stat_none hnone, FileTree.stat_none hnone]

end

theorem nameIn_eq_some : nameIn p q = some n ↔ q = p ++ [n] := by
  unfold nameIn
  constructor
  · intro h
    split at h
    · rename_i hq
      rw [← hq, ← List.dropLast_append_getLast? n h]
      simp
    · cases h
  · rintro rfl
    simp

theorem mem_list : (n, x) ∈ t.list p ↔ t.node (p ++ [n]) = some x := by
  simp only [list, List.mem_filterMap, Option.map_eq_some_iff, nameIn_eq_some, node_append,
    Dict.get?_eq_some]
  constructor
  · rintro ⟨⟨q, y⟩, hmem, m, rfl, h⟩
    cases h
    exact hmem
  · intro h
    exact ⟨_, h, n, rfl, rfl⟩

theorem list_eq_nil (h : t.node p ≠ some .dir) : t.list p = [] := by
  refine List.eq_nil_iff_forall_not_mem.2 fun e he => h ?_
  obtain ⟨n, x⟩ := e
  exact node_parent (mem_list.1 he)

theorem list_nodup : ((t.list p).map (·.1)).Nodup := by
  have hnames : (t.list p).map (·.1) = t.entries.keys.filterMap (nameIn p) := by
    simp only [list, List.map_filterMap, Dict.keys, List.filterMap_map]
    refine List.filterMap_congr fun e _ => ?_
    simp [Function.comp_def]
  rw [hnames]
  refine List.Nodup.filterMap (fun q q' n h h' => ?_) t.entries.nodup
  rw [nameIn_eq_some.1 h, nameIn_eq_some.1 h']

/-! ### Making directories and files -/

/-- What a directory on the way is missing is made, and nothing else changes. -/
theorem mkdirs_node (accepts : ν → Bool) (t : FileTree ν γ) (p q : List ν) (steps : List (PathStep ν)) :
    let t' := (t.mkdirs accepts p steps).2
    t'.node q = t.node q ∨ t.node q = none ∧ t'.node q = some .dir ∧ Reaches accepts p steps q := by
  induction steps generalizing t p with
  | nil => exact .inl rfl
  | cons step steps ih =>
    cases step with
    | up => exact (ih t p.dropLast).imp_right fun h => ⟨h.1, h.2.1, h.2.2.up⟩
    | down m =>
      by_cases hm : accepts m = true
      · have hdown {t' : FileTree ν γ} (h : t'.node q = t.node q) :
            let t'' := (t'.mkdirs accepts (p ++ [m]) steps).2
            t''.node q = t.node q ∨
              t.node q = none ∧ t''.node q = some .dir ∧ Reaches accepts p (.down m :: steps) q := by
          rcases ih t' (p ++ [m]) with h' | ⟨hnone, hdir, hq⟩
          · exact .inl (h'.trans h)
          · exact .inr ⟨h ▸ hnone, hdir, hq.down hm⟩
        rw [mkdirs, hm, Bool.not_true, if_neg Bool.false_ne_true]
        split
        · exact hdown rfl
        · exact .inl rfl
        · rename_i hnone
          split
          · rename_i hp
            by_cases hq : q = p ++ [m]
            · subst hq
              have hput : (t.put p m .dir hp (.inl rfl)).node (p ++ [m]) = some .dir := by
                rw [node_put, if_pos rfl]
              have hhere : Reaches accepts (p ++ [m]) steps (p ++ [m]) :=
                ⟨[], List.nil_prefix, fun _ hn => absurd hn List.not_mem_nil, rfl⟩
              refine .inr ⟨hnone, ?_, hhere.down hm⟩
              rcases ih (t.put p m .dir hp (.inl rfl)) (p ++ [m]) with h | ⟨_, hdir, _⟩
              · exact h.trans hput
              · exact hdir
            · exact hdown (by rw [node_put, if_neg hq])
          · exact .inl rfl
      · rw [Bool.not_eq_true] at hm
        rw [mkdirs, hm, Bool.not_false, if_pos rfl]
        exact .inl rfl

theorem mkdirs_append {t' : FileTree ν γ} (h : t.mkdirs accepts p steps = (.ok q, t')) :
    t.mkdirs accepts p (steps ++ rest) = t'.mkdirs accepts q rest := by
  induction steps generalizing t p with
  | nil =>
    cases h
    rfl
  | cons step steps ih =>
    cases step with
    | up => exact ih h
    | down m =>
      rw [mkdirs] at h
      rw [List.cons_append, mkdirs]
      split at h
      · cases h
      · rename_i hm
        rw [if_neg hm]
        split at h
        · exact ih h
        · cases h
        · split at h
          · rename_i hp
            rw [dif_pos hp]
            exact ih h
          · cases h

theorem mkdirs_usable {t' : FileTree ν γ} (h : t.mkdirs accepts p steps = (.ok q, t')) : Usable accepts steps := by
  induction steps generalizing t p with
  | nil => exact fun _ hn => absurd hn List.not_mem_nil
  | cons step steps ih =>
    cases step with
    | up => exact usable_up.2 (ih h)
    | down m =>
      rw [mkdirs] at h
      split at h
      · cases h
      · rename_i hm
        rw [Bool.not_eq_true, Bool.not_eq_false'] at hm
        refine usable_down.2 ⟨hm, ?_⟩
        split at h
        · exact ih h
        · cases h
        · split at h
          · exact ih h
          · cases h

/-- Where a path leads already, there is nothing to make. -/
theorem mkdirs_walk (h : t.walk accepts p steps = .ok q) (hq : t.node q = some .dir) :
    t.mkdirs accepts p steps = (.ok q, t) := by
  induction steps generalizing p with
  | nil =>
    cases h
    rfl
  | cons step steps ih =>
    unfold walk at h
    split at h
    · cases h
    · cases h
    · split at h
      · exact ih h
      · rename_i m
        split at h
        · rename_i hm
          have hdir : t.node (p ++ [m]) = some .dir := by
            cases steps with
            | nil =>
              cases h
              exact hq
            | cons step steps =>
              unfold walk at h
              split at h
              · cases h
              · cases h
              · assumption
          rw [mkdirs, hm, Bool.not_true, if_neg Bool.false_ne_true, hdir]
          exact ih h
        · cases h

theorem mkdirs_eq_lead {t' : FileTree ν γ} (h : t.mkdirs accepts p steps = (.ok q, t')) :
    q = lead p steps := by
  induction steps generalizing t p with
  | nil =>
    cases h
    rfl
  | cons step steps ih =>
    cases step with
    | up => exact ih h
    | down m =>
      rw [mkdirs] at h
      split at h
      · cases h
      · split at h
        · exact ih h
        · cases h
        · split at h
          · exact ih h
          · cases h

theorem mkdirs_dir {t' : FileTree ν γ} (hp : t.node p = some .dir)
    (h : t.mkdirs accepts p steps = (.ok q, t')) : t'.node q = some .dir := by
  induction steps generalizing t p with
  | nil =>
    cases h
    exact hp
  | cons step steps ih =>
    cases step with
    | up =>
      refine ih ?_ h
      rcases List.eq_nil_or_concat p with rfl | ⟨r, n, rfl⟩
      · exact hp
      · rw [List.concat_eq_append] at hp ⊢
        rw [List.dropLast_concat]
        exact node_parent hp
    | down m =>
      rw [mkdirs] at h
      split at h
      · cases h
      · split at h
        · rename_i hdir
          exact ih hdir h
        · cases h
        · exact ih (by rw [node_put, if_pos rfl]) h

/-- `mkdir -p` below a directory, no file being in the way. -/
theorem mkdirs_down {names : List ν} (hp : t.node p = some .dir) (hnames : ∀ n ∈ names, accepts n = true)
    (hfree : ∀ q, q <+: p ++ names → t.node q = some .dir ∨ t.node q = none) :
    ∃ t', t.mkdirs accepts p (names.map .down) = (.ok (p ++ names), t') ∧
      ∀ q, t'.node q = if q <+: p ++ names then some .dir else t.node q := by
  induction names generalizing t p with
  | nil =>
    rw [List.append_nil]
    refine ⟨t, rfl, fun q => ?_⟩
    split
    · rename_i hq
      obtain ⟨r, rfl⟩ := hq
      exact node_above hp
    · rfl
  | cons n names ih =>
    rw [List.append_cons] at hfree ⊢
    have hn := hnames n List.mem_cons_self
    have hrest : ∀ m ∈ names, accepts m = true := fun m hm => hnames m (List.mem_cons_of_mem n hm)
    rw [List.map_cons, mkdirs, hn, Bool.not_true, if_neg Bool.false_ne_true]
    rcases hfree (p ++ [n]) (List.prefix_append _ _) with hdir | hnone
    · rw [hdir]
      exact ih hdir hrest hfree
    · rw [hnone]
      show ∃ t', dite _ _ _ = _ ∧ _
      rw [dif_pos hp]
      have hput (q : List ν) : (t.put p n .dir hp (.inl rfl)).node q =
          if q = p ++ [n] then some .dir else t.node q := node_put hp (.inl rfl)
      obtain ⟨t', ht', hnode⟩ := ih (t := t.put p n .dir hp (.inl rfl)) (by rw [hput, if_pos rfl]) hrest
        fun q hq => by
          rw [hput]
          split
          · exact .inl rfl
          · exact hfree q hq
      refine ⟨t', ht', fun q => ?_⟩
      rw [hnode, hput]
      split
      · rfl
      · rename_i hq
        have hne : q ≠ p ++ [n] := by
          rintro rfl
          exact hq (List.prefix_append _ _)
        rw [if_neg hne]

theorem replace_node (accepts : ν → Bool) (t : FileTree ν γ) (p q : List ν) (n : ν) (c : γ) :
    (t.replace accepts p n c).2.node q = t.node q ∨ q = p ++ [n] ∧ accepts n = true ∧
      t.node q ≠ some .dir ∧ (t.replace accepts p n c).2.node q = some (.file c) := by
  unfold replace
  split
  · exact .inl rfl
  · rename_i hn
    rw [Bool.not_eq_true, Bool.not_eq_false'] at hn
    split
    · rename_i hfree
      rw [node_put]
      split
      · rename_i hq
        exact .inr ⟨hq, hn, hq ▸ hfree.2, rfl⟩
      · exact .inl rfl
    · exact .inl rfl

theorem replace_ok {c : γ} (hn : accepts n = true) (hp : t.node p = some .dir)
    (hfree : t.node (p ++ [n]) ≠ some .dir) : ∃ t', t.replace accepts p n c = (.ok (), t') ∧
      ∀ q, t'.node q = if q = p ++ [n] then some (.file c) else t.node q := by
  refine ⟨t.put p n (.file c) hp (.inr hfree), ?_, fun q => node_put hp (.inr hfree)⟩
  rw [replace, hn, Bool.not_true, if_neg Bool.false_ne_true, dif_pos ⟨hp, hfree⟩]

end FileTree
