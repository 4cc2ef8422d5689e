import Mathlib.Data.List.TakeWhile
import Sox.EnforcerCli
import Sox.FilesystemLayout
import Sox.Lib.Separator

/-!
# The database a URL names

The server, the enforcer, `upgrade` and `config` each take the SQLite file out of `SOX_BACKING_STORE`:
the first two cut off `sqlite://`, the others ask `urlparse`. `StoreUrl.agree_iff` says for which URLs
they mean one database.
-/

namespace Sox

open PathStore (parsePath joinPath parsePath_of_noSlash)

namespace StoreUrl

def hasScheme (scheme url : String) : Bool := scheme.toList.isPrefixOf url.toList

def afterScheme (scheme url : String) : String := String.ofList (url.toList.drop scheme.toList.length)

def isAbsolute (path : String) : Bool := path.toList.head? = some '/'

/-! ### The server -/

inductive BuiltStore where
  | memory
  | sqlite (dbPath : String)
  | filesystem (root : String)

def buildStore (uri : String) : Except String BuiltStore :=
  if hasScheme "memory://" uri then .ok .memory
  else if hasScheme "sqlite://" uri then
    let rawPath := afterScheme "sqlite://" uri
    let dbPath :=
      if isAbsolute rawPath then rawPath
      else if rawPath = ":memory:" then ":memory:"
      else rawPath
    .ok (.sqlite dbPath)
  else if hasScheme "file://" uri then .ok (.filesystem (afterScheme "file://" uri))
  else .error ("Unrecognised SOX_BACKING_STORE URI: " ++ Json.reprStr uri ++ ".  " ++
    "Supported schemes: sqlite://, memory://, file://")

/-! ### `urlparse` -/

/-- What is read of a URL with an authority. -/
structure ParsedUrl where
  netloc : String
  path : String

/-- Characters that `urlparse` takes out of the URL. -/
def isUnsafe (c : Char) : Bool := c = '\t' || c = '\r' || c = '\n'

def endsNetloc (c : Char) : Bool := c = '/' || c = '?' || c = '#'

def endsPath (c : Char) : Bool := c = '?' || c = '#'

section
variable (netlocOk : String → Bool)

/-- An authority with one kind of square bracket is refused; `netlocOk` tells about the text between two
of them, and about characters that are not ASCII. -/
def checkNetloc (netloc : String) : Bool :=
  if netloc.toList.contains '[' != netloc.toList.contains ']' then false
  else if netloc.toList.contains '[' || netloc.toList.any fun c => 128 ≤ c.toNat then netlocOk netloc
  else true

/-- `urlparse` of a URL that starts with `sqlite://`: such a URL has no parameters. -/
def urlparse (url : String) : Option ParsedUrl :=
  let rest := (afterScheme "sqlite://" url).toList.filter fun c => !isUnsafe c
  let netloc := String.ofList (rest.takeWhile fun c => !endsNetloc c)
  let path := String.ofList ((rest.dropWhile fun c => !endsNetloc c).takeWhile fun c => !endsPath c)
  if checkNetloc netlocOk netloc then some { netloc, path } else none

/-! ### `upgrade` and `config` -/

/-- `mcpUrl` is what `.mcp.json` has, `envUrl` is in the environment; the result is absolute. -/
def discoverDbPath (projectDir : List String) (mcpUrl envUrl : Option String) :
    Except String (Option StorePath) :=
  match (EnforcerCli.nonEmpty mcpUrl).or (EnforcerCli.nonEmpty envUrl) with
  | none => .ok none
  | some url =>
    if !hasScheme "sqlite://" url then .ok none
    else match urlparse netlocOk url with
      | none => .error "ValueError"
      | some parsed =>
        let s := parsed.path
        if s = "" ∨ s = "/:memory:" ∨ s = ":memory:" then .ok none
        else
          let s := if "//".toList.isPrefixOf s.toList then String.ofList (s.toList.drop 1) else s
          if isAbsolute s then .ok (some (parsePath s))
          else
            let stripped := String.ofList (s.toList.dropWhile (· = '/'))
            .ok (some (joinPath (projectDir.map .down) stripped))

structure DbReport where
  scheme : Option String
  path : Option String
  present : Bool := false

def resolveDbPath (isFile : String → Bool) (uri : String) : Except String DbReport :=
  if !hasScheme "sqlite://" uri then
    let scheme :=
      if uri.toList.contains ':' then some (String.ofList (uri.toList.takeWhile (· ≠ ':'))) else none
    .ok { scheme, path := none }
  else match urlparse netlocOk uri with
    | none => .error "ValueError"
    | some parsed =>
      let rawPath := if parsed.path = "" then afterScheme "sqlite://" uri else parsed.path
      if rawPath = "/:memory:" ∨ rawPath = ":memory:" then
        .ok { scheme := some "sqlite", path := some ":memory:" }
      else
        .ok { scheme := some "sqlite", path := some rawPath, present := rawPath ≠ "" && isFile rawPath }

end

/-! ### One database -/

/-- A database of the process's own, or a file. Two files with the same steps are one, whatever links
the host has; at the top `..` leads nowhere. A way into a directory and back by `..` is one of its own:
where it leads depends on the disk. -/
inductive Place where
  | own
  | file (steps : StorePath)
deriving DecidableEq

def fileAt (steps : StorePath) : Place := .file (steps.dropWhile (· = .up))

/-- SQLite keeps a database named `:memory:` or not named at all to itself. -/
def placeOf (cwd : List String) (path : String) : Place :=
  if path = ":memory:" ∨ path = "" then .own else fileAt (joinPath (cwd.map .down) path)

def serverPlace (cwd : List String) (url : String) : Option Place :=
  match buildStore url with
  | .ok (.sqlite dbPath) => some (placeOf cwd dbPath)
  | _ => none

def enforcerPlace (cwd : List String) (url : String) : Place :=
  match EnforcerCli.resolveSqlitePath url with
  | none => .own
  | some path => fileAt (joinPath (cwd.map .down) path)

variable (netlocOk : String → Bool) (isFile : String → Bool)

def upgradePlace (cwd : List String) (url : String) : Option Place :=
  match discoverDbPath netlocOk cwd none (some url) with
  | .error _ => none
  | .ok none => some .own
  | .ok (some steps) => some (fileAt steps)

def configPlace (cwd : List String) (url : String) : Option Place :=
  match resolveDbPath netlocOk isFile url with
  | .error _ => none
  | .ok report => some (match report.path with
    | none => .own
    | some path => placeOf cwd path)

/-- All four mean one database. -/
def Agree (cwd : List String) (url : String) : Prop :=
  ∃ place, serverPlace cwd url = some place ∧ enforcerPlace cwd url = place ∧
    upgradePlace netlocOk cwd url = some place ∧ configPlace netlocOk isFile cwd url = some place

/-- The path has no character that `urlparse` takes out or stops at. -/
def Plain (raw : String) : Prop := ∀ c ∈ raw.toList, isUnsafe c = false ∧ endsPath c = false

instance (raw : String) : Decidable (Plain raw) := inferInstanceAs (Decidable (∀ c ∈ raw.toList, _))

/-- A path from `.` or `..` on: at the top of the file system it is as good as absolute. -/
def FromTop (raw : String) : Prop :=
  (hasScheme "./" raw = true ∧ raw ≠ "./:memory:") ∨ (hasScheme "../" raw = true ∧ raw ≠ "../:memory:")

/-! ### Paths and their steps -/

section
variable {raw scheme rest : String} {a b : List Char} {c : Char} {steps : StorePath} {cwd : List String}

theorem hasScheme_append : hasScheme scheme (scheme ++ rest) = true := by
  rw [hasScheme, List.isPrefixOf_iff_prefix, String.toList_append]
  exact List.prefix_append _ _

theorem afterScheme_append (scheme rest : String) : afterScheme scheme (scheme ++ rest) = rest := by
  rw [afterScheme, String.toList_append, List.drop_left, String.ofList_toList]

theorem parsePath_join : parsePath (String.ofList (a ++ '/' :: b)) =
    parsePath (String.ofList a) ++ parsePath (String.ofList b) := by
  simp only [parsePath, String.toList_ofList, List.splitOn_append_cons_self, List.map_append,
    List.filterMap_append]

theorem parsePath_slash : parsePath (String.ofList ('/' :: b)) = parsePath (String.ofList b) :=
  parsePath_join (a := [])

/-- A character other than those of `/`, `.` and `..` is in a path when it is in a name on it. -/
theorem mem_parsePath (hslash : c ≠ '/') (hdot : c ≠ '.') :
    c ∈ raw.toList ↔ ∃ name, .down name ∈ parsePath raw ∧ c ∈ name.toList := by
  rw [Separator.mem_iff_mem_splitOn hslash]
  simp only [parsePath, List.mem_filterMap, List.mem_map]
  constructor
  · rintro ⟨part, hpart, hc⟩
    have hne : String.ofList part ≠ "" ∧ String.ofList part ≠ "." ∧ String.ofList part ≠ ".." := by
      refine ⟨fun h => ?_, fun h => ?_, fun h => ?_⟩ <;>
      · rw [← String.toList_inj, String.toList_ofList] at h
        rw [h] at hc
        simp [hdot] at hc
    refine ⟨String.ofList part, ⟨_, ⟨part, hpart, rfl⟩, ?_⟩, by rwa [String.toList_ofList]⟩
    rw [if_neg (by rintro (h | h); exacts [hne.1 h, hne.2.1 h]), if_neg hne.2.2]
  · rintro ⟨name, ⟨_, ⟨part, hpart, rfl⟩, hstep⟩, hc⟩
    split at hstep
    · cases hstep
    · split at hstep
      · cases hstep
      · cases hstep
        exact ⟨part, hpart, by rwa [String.toList_ofList] at hc⟩

theorem mem_dropWhile_up {name : String} (h : .down name ∈ steps) :
    .down name ∈ steps.dropWhile (· = .up) := by
  induction steps with
  | nil => cases h
  | cons step steps ih =>
    cases step with
    | up => exact ih ((List.mem_cons.1 h).resolve_left (by simp))
    | down n => exact h

theorem joinPath_of_absolute (h : isAbsolute raw = true) (path : StorePath) :
    joinPath path raw = parsePath raw :=
  if_pos (of_decide_eq_true h)

theorem joinPath_of_relative (h : isAbsolute raw = false) (path : StorePath) :
    joinPath path raw = path ++ parsePath raw :=
  if_neg (of_decide_eq_false h)

theorem mem_joinPath {name : String} (path : StorePath) (h : .down name ∈ parsePath raw) :
    .down name ∈ joinPath path raw := by
  rw [joinPath]
  split
  · exact h
  · exact List.mem_append_right _ h

end

/-! ### What the four make of `sqlite://` and a path -/

section
variable {raw : String} {c : Char} {cwd : List String} {netlocOk : String → Bool}
  {isFile : String → Bool}

def cleaned (raw : String) : List Char := raw.toList.filter fun c => !isUnsafe c

def netlocOf (raw : String) : String := String.ofList ((cleaned raw).takeWhile fun c => !endsNetloc c)

def pathOf (raw : String) : String :=
  String.ofList (((cleaned raw).dropWhile fun c => !endsNetloc c).takeWhile fun c => !endsPath c)

theorem urlparse_sqlite : urlparse netlocOk ("sqlite://" ++ raw) =
    if checkNetloc netlocOk (netlocOf raw) then some { netloc := netlocOf raw, path := pathOf raw }
    else none := by
  simp only [urlparse, afterScheme_append]
  rfl

theorem mem_pathOf (h : c ∈ (pathOf raw).toList) :
    c ∈ raw.toList ∧ isUnsafe c = false ∧ endsPath c = false := by
  rw [pathOf, String.toList_ofList] at h
  have hclean := (List.dropWhile_sublist _).subset ((List.takeWhile_sublist _).subset h)
  obtain ⟨hraw, hsafe⟩ := List.mem_filter.1 hclean
  exact ⟨hraw, by simpa using hsafe, by simpa using List.mem_takeWhile_imp h⟩

/-- What follows the authority is empty or starts with a slash. -/
theorem pathOf_cases (raw : String) : pathOf raw = "" ∨ ∃ t, (pathOf raw).toList = '/' :: t := by
  rw [pathOf, String.toList_ofList]
  rcases hrest : (cleaned raw).dropWhile fun c => !endsNetloc c with - | ⟨c, rest⟩
  · exact .inl rfl
  · have hends : endsNetloc c = true := by
      have hhead := List.head?_dropWhile_not (fun c => !endsNetloc c) (cleaned raw)
      rw [hrest] at hhead
      simpa using hhead
    by_cases hslash : c = '/'
    · subst hslash
      exact .inr ⟨_, List.takeWhile_cons_of_pos rfl⟩
    · refine .inl ?_
      have hpath : endsPath c = true := by simpa [endsNetloc, endsPath, hslash] using hends
      rw [List.takeWhile_cons_of_neg (by simp [hpath])]

theorem isAbsolute_pathOf (h : pathOf raw ≠ "") : isAbsolute (pathOf raw) = true := by
  obtain ⟨t, ht⟩ := (pathOf_cases raw).resolve_left h
  simp [isAbsolute, ht]

theorem hasScheme_memory : hasScheme "memory://" ("sqlite://" ++ raw) = false := by
  rw [hasScheme, String.toList_append]
  rfl

theorem serverPlace_sqlite : serverPlace cwd ("sqlite://" ++ raw) = some (placeOf cwd raw) := by
  have hbuilt : buildStore ("sqlite://" ++ raw) = .ok (.sqlite raw) := by
    rw [buildStore, if_neg (by simp [hasScheme_memory]), if_pos hasScheme_append, afterScheme_append]
    by_cases habs : isAbsolute raw = true
    · simp [habs]
    · by_cases hmem : raw = ":memory:" <;> simp [hmem, habs]
  rw [serverPlace, hbuilt]

theorem enforcerPlace_sqlite : enforcerPlace cwd ("sqlite://" ++ raw) =
    if raw = ":memory:" ∨ raw = "/:memory:" ∨ raw = "" then .own
    else fileAt (joinPath (cwd.map .down) raw) := by
  have hafter : String.ofList (("sqlite://" ++ raw).toList.drop 9) = raw :=
    afterScheme_append "sqlite://" raw
  have hscheme : "sqlite://".toList.isPrefixOf ("sqlite://" ++ raw).toList = true := hasScheme_append
  rw [enforcerPlace, EnforcerCli.resolveSqlitePath, if_pos hscheme, hafter]
  by_cases hmem : raw = ":memory:" ∨ raw = "/:memory:"
  · rw [if_pos hmem, if_pos (by rcases hmem with h | h <;> simp [h])]
  · by_cases hempty : raw = ""
    · simp [hempty]
    · have hne : ¬(raw = ":memory:" ∨ raw = "/:memory:" ∨ raw = "") := by
        rintro (h | h | h)
        exacts [hmem (.inl h), hmem (.inr h), hempty h]
      rw [if_neg hmem, if_neg hne, if_neg (by simpa using hempty)]

theorem upgradePlace_sqlite : upgradePlace netlocOk cwd ("sqlite://" ++ raw) =
    if checkNetloc netlocOk (netlocOf raw) then
      some (if pathOf raw = "" ∨ pathOf raw = "/:memory:" then .own
        else fileAt (parsePath (pathOf raw)))
    else none := by
  have hurl : (EnforcerCli.nonEmpty none).or (EnforcerCli.nonEmpty (some ("sqlite://" ++ raw))) =
      some ("sqlite://" ++ raw) := by
    simp [EnforcerCli.nonEmpty]
  rw [upgradePlace, discoverDbPath, hurl]
  simp only [hasScheme_append, Bool.not_true, Bool.false_eq_true, ↓reduceIte, urlparse_sqlite]
  by_cases hcheck : checkNetloc netlocOk (netlocOf raw) = true
  · simp only [hcheck, ↓reduceIte]
    by_cases hpath : pathOf raw = "" ∨ pathOf raw = "/:memory:"
    · have hnone : pathOf raw = "" ∨ pathOf raw = "/:memory:" ∨ pathOf raw = ":memory:" :=
        hpath.imp id .inl
      rw [if_pos hpath, if_pos hnone]
    · obtain ⟨t, ht⟩ := (pathOf_cases raw).resolve_left fun h => hpath (.inl h)
      have hmem : pathOf raw ≠ ":memory:" := fun h => by
        rw [h] at ht
        simp at ht
      have hsome : ¬(pathOf raw = "" ∨ pathOf raw = "/:memory:" ∨ pathOf raw = ":memory:") := by
        rintro (h | h | h)
        exacts [hpath (.inl h), hpath (.inr h), hmem h]
      rw [if_neg hpath, if_neg hsome]
      have hofList : pathOf raw = String.ofList ('/' :: t) := by rw [← ht, String.ofList_toList]
      -- a second slash in front makes no difference to the steps
      by_cases hslashes : "//".toList.isPrefixOf (pathOf raw).toList = true
      · have hdrop : (pathOf raw).toList.drop 1 = t := by rw [ht]; rfl
        have habs : isAbsolute (String.ofList t) = true := by
          rw [ht] at hslashes
          have hprefix : ['/', '/'] <+: '/' :: t := List.isPrefixOf_iff_prefix.1 hslashes
          obtain ⟨t', ht'⟩ := (List.cons_prefix_cons.1 hprefix).2
          rw [isAbsolute, String.toList_ofList, ← ht']
          rfl
        rw [if_pos hslashes, hdrop, if_pos habs, hofList, parsePath_slash]
      · rw [if_neg hslashes, if_pos (by rw [isAbsolute, ht]; rfl)]
  · simp only [hcheck, Bool.false_eq_true, ↓reduceIte]

theorem configPlace_sqlite : configPlace netlocOk isFile cwd ("sqlite://" ++ raw) =
    if checkNetloc netlocOk (netlocOf raw) then
      some (if pathOf raw = "" then (if raw = "/:memory:" then .own else placeOf cwd raw)
        else if pathOf raw = "/:memory:" then .own else fileAt (parsePath (pathOf raw)))
    else none := by
  rw [configPlace, resolveDbPath, hasScheme_append, urlparse_sqlite, afterScheme_append]
  by_cases hcheck : checkNetloc netlocOk (netlocOf raw) = true
  · simp only [hcheck, ↓reduceIte, Bool.not_true, Bool.false_eq_true]
    by_cases hpath : pathOf raw = ""
    · by_cases hmem : raw = "/:memory:" ∨ raw = ":memory:"
      · rcases hmem with rfl | rfl <;> simp [hpath, placeOf]
      · obtain ⟨h1, h2⟩ := not_or.1 hmem
        simp [hpath, h1, h2]
    · have habs := isAbsolute_pathOf hpath
      have hmem : pathOf raw ≠ ":memory:" := fun h => by
        rw [h] at habs
        exact absurd habs (by decide)
      by_cases htop : pathOf raw = "/:memory:"
      · simp [htop, placeOf]
      · simp [hpath, htop, hmem, placeOf, joinPath_of_absolute habs]
  · simp only [hcheck, Bool.not_true, Bool.false_eq_true, ↓reduceIte]

/-! ### When they agree -/

/-- For a path that SQLite does not keep to itself. -/
theorem agree_file (hown : ¬(raw = ":memory:" ∨ raw = "")) :
    Agree netlocOk isFile cwd ("sqlite://" ++ raw) ↔
      raw ≠ "/:memory:" ∧ checkNetloc netlocOk (netlocOf raw) = true ∧ pathOf raw ≠ "" ∧
      pathOf raw ≠ "/:memory:" ∧
        fileAt (parsePath (pathOf raw)) = fileAt (joinPath (cwd.map .down) raw) := by
  simp only [Agree, serverPlace_sqlite, enforcerPlace_sqlite, upgradePlace_sqlite, configPlace_sqlite,
    placeOf, if_neg hown, Option.some.injEq]
  have hne : ∀ steps, fileAt steps ≠ .own := fun steps h => by cases h
  obtain ⟨hmem, hempty⟩ := not_or.1 hown
  by_cases htop : raw = "/:memory:"
  · refine iff_of_false ?_ fun h => h.1 htop
    rintro ⟨place, rfl, henforcer, -⟩
    rw [if_pos (.inr (.inl htop))] at henforcer
    exact hne _ henforcer.symm
  · have hfile : ¬(raw = ":memory:" ∨ raw = "/:memory:" ∨ raw = "") := by
      rintro (h | h | h)
      exacts [hmem h, htop h, hempty h]
    rw [if_neg hfile]
    by_cases hcheck : checkNetloc netlocOk (netlocOf raw) = true
    · by_cases hpath : pathOf raw = "" ∨ pathOf raw = "/:memory:"
      · refine iff_of_false ?_ fun h => hpath.elim h.2.2.1 h.2.2.2.1
        rintro ⟨place, rfl, -, hupgrade, -⟩
        rw [if_pos hcheck, if_pos hpath] at hupgrade
        exact hne _ (Option.some.inj hupgrade).symm
      · obtain ⟨hnonempty, hplain⟩ := not_or.1 hpath
        simp only [hcheck, ↓reduceIte, if_neg hpath, if_neg hnonempty, if_neg hplain, Option.some.injEq]
        constructor
        · rintro ⟨place, rfl, -, hsame, -⟩
          exact ⟨htop, trivial, hnonempty, hplain, hsame⟩
        · rintro ⟨-, -, -, -, hsame⟩
          exact ⟨_, rfl, rfl, hsame, hsame⟩
    · refine iff_of_false ?_ fun h => hcheck h.2.1
      rintro ⟨place, -, -, hupgrade, -⟩
      rw [if_neg hcheck] at hupgrade
      cases hupgrade

theorem cleaned_of_plain (h : Plain raw) : cleaned raw = raw.toList :=
  List.filter_eq_self.2 fun c hc => by simp [(h c hc).1]

/-- A plain path is the part before its first slash and the rest. -/
theorem netlocOf_append_pathOf (h : Plain raw) :
    (netlocOf raw).toList ++ (pathOf raw).toList = raw.toList := by
  have hrest : ∀ c ∈ (cleaned raw).dropWhile fun c => !endsNetloc c, (!endsPath c) = true :=
    fun c hc => by
    rw [cleaned_of_plain h] at hc
    simp [(h c ((List.dropWhile_sublist _).subset hc)).2]
  rw [netlocOf, pathOf, String.toList_ofList, String.toList_ofList, List.takeWhile_eq_self_iff.2 hrest,
    List.takeWhile_append_dropWhile, cleaned_of_plain h]

theorem slash_notMem_netlocOf : '/' ∉ (netlocOf raw).toList := by
  intro h
  rw [netlocOf, String.toList_ofList] at h
  exact absurd (List.mem_takeWhile_imp h) (by decide)

/-- A character that `urlparse` drops stays in the server's path and is missing in the others'. -/
theorem plain_of_fileAt (h : fileAt (parsePath (pathOf raw)) = fileAt (joinPath (cwd.map .down) raw)) :
    Plain raw := by
  intro c hc
  by_contra hspecial
  have hkind : isUnsafe c = true ∨ endsPath c = true := by
    by_contra hnot
    obtain ⟨h1, h2⟩ := not_or.1 hnot
    exact hspecial ⟨by simpa using h1, by simpa using h2⟩
  have hslash : c ≠ '/' := by rintro rfl; exact absurd hkind (by decide)
  have hdot : c ≠ '.' := by rintro rfl; exact absurd hkind (by decide)
  obtain ⟨name, hname, hcname⟩ := (mem_parsePath hslash hdot).1 hc
  have hserver := mem_dropWhile_up (mem_joinPath (cwd.map .down) hname)
  rw [← (Place.file.inj h)] at hserver
  have hother : c ∈ (pathOf raw).toList :=
    (mem_parsePath hslash hdot).2 ⟨name, (List.dropWhile_sublist _).subset hserver, hcname⟩
  obtain ⟨-, hsafe, hpath⟩ := mem_pathOf hother
  rcases hkind with hk | hk
  · rw [hsafe] at hk
    cases hk
  · rw [hpath] at hk
    cases hk

theorem netlocOf_of_absolute (h : isAbsolute raw = true) (hplain : Plain raw) :
    netlocOf raw = "" ∧ pathOf raw = raw := by
  have hnetloc : netlocOf raw = "" := by
    rw [netlocOf, cleaned_of_plain hplain]
    have hhead : raw.toList.head? = some '/' := of_decide_eq_true h
    rcases hl : raw.toList with - | ⟨c, l⟩
    · rw [hl] at hhead
      cases hhead
    · rw [hl] at hhead
      cases hhead
      rfl
  refine ⟨hnetloc, ?_⟩
  have hsplit := netlocOf_append_pathOf hplain
  rw [hnetloc, String.toList_empty, List.nil_append] at hsplit
  exact String.toList_inj.1 hsplit

theorem length_dropWhile_le (steps : StorePath) : (steps.dropWhile (· = .up)).length ≤ steps.length :=
  (List.dropWhile_sublist _).length_le

/-- A path that does not start at the top names the file of what follows its first component only from
the top and through `.` or `..`. -/
theorem fileAt_relative {netloc : String} {path : StorePath} (hne : netloc ≠ "")
    (hslash : '/' ∉ netloc.toList) :
    fileAt path = fileAt (cwd.map .down ++ (parsePath netloc ++ path)) ↔
      cwd = [] ∧ (netloc = "." ∨ netloc = "..") := by
  rw [parsePath_of_noSlash hslash]
  cases cwd with
  | cons n cwd =>
    refine iff_of_false (fun h => ?_) (by simp)
    have hlen := congrArg List.length (Place.file.inj h)
    have hle := length_dropWhile_le path
    rw [List.map_cons, List.cons_append, List.dropWhile_cons_of_neg (by simp), List.length_cons,
      List.length_append, List.length_append] at hlen
    omega
  | nil =>
    by_cases hdot : netloc = "."
    · simp [hdot]
    · rw [if_neg (by rintro (h | h); exacts [hne h, hdot h])]
      by_cases hup : netloc = ".."
      · simp [hup, fileAt]
      · refine iff_of_false (fun h => ?_) (by simp [hdot, hup])
        have hlen := congrArg List.length (Place.file.inj h)
        have hle := length_dropWhile_le path
        rw [if_neg hup, List.map_nil, List.nil_append, List.singleton_append,
          List.dropWhile_cons_of_neg (by simp), List.length_cons] at hlen
        omega

theorem hasScheme_iff {scheme url : String} :
    hasScheme scheme url = true ↔ ∃ t, url.toList = scheme.toList ++ t := by
  rw [hasScheme, List.isPrefixOf_iff_prefix]
  exact ⟨fun ⟨t, ht⟩ => ⟨t, ht.symm⟩, fun ⟨t, ht⟩ => ⟨t, ht.symm⟩⟩

theorem eq_append_iff {url front back : String} (h : url.toList = front.toList ++ back.toList)
    (other : String) :
    url = front ++ other ↔ back = other := by
  rw [← String.toList_inj, ← String.toList_inj, h, String.toList_append, List.append_cancel_left_eq]

/-- A plain path that is relative: its steps are those of its first component and of the rest. -/
theorem relative_split (cwd : List String) (hplain : Plain raw) (hrelative : isAbsolute raw = false)
    (hpath : pathOf raw ≠ "") :
    netlocOf raw ≠ "" ∧ joinPath (cwd.map .down) raw =
      cwd.map .down ++ (parsePath (netlocOf raw) ++ parsePath (pathOf raw)) := by
  obtain ⟨t, ht⟩ := (pathOf_cases raw).resolve_left hpath
  have hsplit := netlocOf_append_pathOf hplain
  refine ⟨fun hempty => ?_, ?_⟩
  · rw [hempty, ht] at hsplit
    rw [isAbsolute, ← hsplit] at hrelative
    exact absurd hrelative (by simp)
  · have hraw : raw = String.ofList ((netlocOf raw).toList ++ '/' :: t) := by
      rw [← ht, hsplit, String.ofList_toList]
    have hsteps : parsePath (pathOf raw) = parsePath (String.ofList t) := by
      rw [← parsePath_slash, ← ht, String.ofList_toList]
    rw [joinPath_of_relative hrelative]
    conv_lhs => rw [hraw, parsePath_join, String.ofList_toList]
    rw [hsteps]

theorem fromTop_iff (hplain : Plain raw) (hpath : pathOf raw ≠ "") :
    FromTop raw ↔ (netlocOf raw = "." ∨ netlocOf raw = "..") ∧ pathOf raw ≠ "/:memory:" := by
  have hsplit := netlocOf_append_pathOf hplain
  obtain ⟨t, ht⟩ := (pathOf_cases raw).resolve_left hpath
  have hone : ∀ dots : String, (dots = "." ∨ dots = "..") →
      (hasScheme (dots ++ "/") raw = true ∧ raw ≠ dots ++ "/" ++ ":memory:" ↔
        netlocOf raw = dots ∧ pathOf raw ≠ "/:memory:") := by
    intro dots hdots
    have hnetloc : hasScheme (dots ++ "/") raw = true ↔ netlocOf raw = dots := by
      rw [hasScheme_iff]
      constructor
      · rintro ⟨t', ht'⟩
        rw [netlocOf, cleaned_of_plain hplain, ht']
        rcases hdots with rfl | rfl <;> rfl
      · intro h
        exact ⟨t, by rw [← hsplit, ht, h, String.toList_append, List.append_assoc]; rfl⟩
    rw [hnetloc]
    refine and_congr_right fun h => not_congr ?_
    rw [String.append_assoc]
    exact eq_append_iff (by rw [← hsplit, h]) _
  rw [FromTop, or_and_right]
  exact or_congr (hone "." (.inl rfl)) (hone ".." (.inr rfl))

/-- The four mean one database exactly when the URL names none, or the path is plain and absolute, or
the process is at the top of the file system and the path starts from there. -/
theorem agree_iff (netlocOk : String → Bool) (isFile : String → Bool) (cwd : List String)
    (raw : String) :
    Agree netlocOk isFile cwd ("sqlite://" ++ raw) ↔
      raw = "" ∨ raw = ":memory:" ∨
      Plain raw ∧ (isAbsolute raw = true ∧ raw ≠ "/:memory:" ∨ cwd = [] ∧ FromTop raw) := by
  by_cases hown : raw = ":memory:" ∨ raw = ""
  · refine iff_of_true ⟨.own, ?_⟩ (hown.elim (fun h => .inr (.inl h)) .inl)
    rw [serverPlace_sqlite, enforcerPlace_sqlite, upgradePlace_sqlite, configPlace_sqlite, placeOf]
    rcases hown with rfl | rfl <;> exact ⟨rfl, rfl, rfl, rfl⟩
  · obtain ⟨hmem, hempty⟩ := not_or.1 hown
    rw [agree_file hown]
    simp only [hmem, hempty, false_or]
    constructor
    · rintro ⟨htop, -, hpath, hpathTop, hsame⟩
      have hplain := plain_of_fileAt hsame
      refine ⟨hplain, ?_⟩
      by_cases habs : isAbsolute raw = true
      · exact .inl ⟨habs, htop⟩
      · obtain ⟨hnetloc, hjoin⟩ := relative_split cwd hplain (by simpa using habs) hpath
        rw [hjoin] at hsame
        obtain ⟨hcwd, hdots⟩ := (fileAt_relative hnetloc slash_notMem_netlocOf).1 hsame
        exact .inr ⟨hcwd, (fromTop_iff hplain hpath).2 ⟨hdots, hpathTop⟩⟩
    · rintro ⟨hplain, ⟨habs, htop⟩ | ⟨hcwd, hfrom⟩⟩
      · obtain ⟨hnetloc, hpath⟩ := netlocOf_of_absolute habs hplain
        rw [hnetloc, hpath, joinPath_of_absolute habs]
        exact ⟨htop, rfl, hempty, htop, rfl⟩
      · have hpath : pathOf raw ≠ "" := by
          intro h
          have hsplit := netlocOf_append_pathOf hplain
          have hslash : '/' ∈ raw.toList := by
            rcases hfrom with ⟨h, -⟩ | ⟨h, -⟩ <;>
            · obtain ⟨t, ht⟩ := hasScheme_iff.1 h
              simp [ht]
          rw [← hsplit, h] at hslash
          exact slash_notMem_netlocOf (by simpa using hslash)
        obtain ⟨hdots, hpathTop⟩ := (fromTop_iff hplain hpath).1 hfrom
        have hrelative : isAbsolute raw = false := by
          rcases hfrom with ⟨h, -⟩ | ⟨h, -⟩ <;>
          · obtain ⟨t, ht⟩ := hasScheme_iff.1 h
            rw [isAbsolute, ht]
            rfl
        obtain ⟨hnetloc, hjoin⟩ := relative_split cwd hplain hrelative hpath
        refine ⟨fun h => ?_, ?_, hpath, hpathTop, ?_⟩
        · rw [h] at hrelative
          exact absurd hrelative (by decide)
        · rcases hdots with h | h <;> rw [h] <;> rfl
        · rw [hjoin]
          exact (fileAt_relative hnetloc slash_notMem_netlocOf).2 ⟨hcwd, hdots⟩

end

/-- The relative form: `urlparse` takes `foo` for the authority, and `upgrade` goes to `/bar.db`. -/
theorem not_agree_relative :
    ¬∀ (netlocOk : String → Bool) (isFile : String → Bool) (cwd : List String) (raw : String),
      Agree netlocOk isFile cwd ("sqlite://" ++ raw) := by
  intro h
  obtain ⟨place, hserver, -, hupgrade, -⟩ :=
    h (fun _ => true) (fun _ => true) ["home", "project"] "foo/bar.db"
  rw [← hserver] at hupgrade
  exact absurd hupgrade (by decide)

end StoreUrl

end Sox
