import Mathlib.Data.List.TakeWhile
import Sox.Lib.SemVer
import Sox.PluginLoader
import Sox.Tools

/-!
# The protocol versions of a plugin

`check_protocol_version` of `plugin_loader.py`: the declared range is read by `SpecifierSet`, or, when
it does not parse, after the npm forms are translated to PEP 440. The translation bounds every caret
range by the next major version. For a range of major version 0 that is too wide, and
`check_npm_range_iff` says for which hosts. Numerals that are too long for `int` are not modelled.
-/

namespace Sox
open SemVer Separator

/-- What is used of `packaging`. -/
structure Packaging (ρ ν : Type) where
  /-- `SpecifierSet(s)`, or nothing when it is an `InvalidSpecifier`. -/
  specifierSet : String → Option ρ
  /-- `SpecifierSet(str(specifier), prereleases=True)` -/
  withPrereleases : ρ → ρ
  /-- The operators and the versions of the clauses, as they are iterated. -/
  clauses : ρ → List (String × String)
  contains : ρ → ν → Bool
  /-- `Version(s)`, or the text of the `InvalidVersion`. -/
  version : String → Except String ν
  isPrerelease : ν → Bool
  le : ν → ν → Bool

namespace VersionRange

/-! ### The numerals of a pattern -/

/-- Where the runs of ten decimal digits begin in Unicode. -/
def zeros : List ℕ :=
  [48, 1632, 1776, 1984, 2406, 2534, 2662, 2790, 2918, 3046, 3174, 3302, 3430, 3558, 3664, 3792,
   3872, 4160, 4240, 6112, 6160, 6470, 6608, 6784, 6800, 6992, 7088, 7232, 7248, 42528, 43216,
   43264, 43472, 43504, 43600, 44016, 65296, 66720, 68912, 69734, 69872, 69942, 70096, 70384,
   70736, 70864, 71248, 71360, 71472, 71904, 72016, 72784, 73040, 73120, 92768, 92864, 93008,
   120782, 120792, 120802, 120812, 120822, 123200, 123632, 125264, 130032]

def digitValue? (c : Char) : Option ℕ :=
  (zeros.find? fun z => z ≤ c.toNat && c.toNat < z + 10).map (c.toNat - ·)

/-- `\d+` -/
def isNumeral (cs : List Char) : Bool := !cs.isEmpty && cs.all fun c => (digitValue? c).isSome

/-- `int(cs)` of a numeral. -/
def intOf (cs : List Char) : ℕ := cs.foldl (fun n c => 10 * n + (digitValue? c).getD 0) 0

/-- `f"{int(cs) + 1}"` -/
def next (cs : List Char) : List Char := Nat.toDigits 10 (intOf cs + 1)

/-- As many numerals, with points between them. -/
def numerals (n : ℕ) (cs : List Char) : Option (List (List Char)) :=
  let parts := cs.splitOn '.'
  if parts.length = n ∧ parts.all isNumeral then some parts else none

/-- `(-[0-9A-Za-z.-]+)?` -/
def isPre : List Char → Bool
  | [] => true
  | c :: tag => c == '-' && !tag.isEmpty && tag.all fun c => c.isAlphanum || c == '.' || c == '-'

/-- Three numerals, and the pre-release tag, which begins at the first hyphen. -/
def release (cs : List Char) : Option (List (List Char) × List Char) :=
  let pre := cs.dropWhile (· != '-')
  if isPre pre then (numerals 3 (cs.takeWhile (· != '-'))).map (·, pre) else none

/-- `[xX*]` as the last component, after as many numerals. -/
def wildcards (n : ℕ) (cs : List Char) : Option (List (List Char)) :=
  let parts := cs.splitOn '.'
  if parts.length = n + 1 ∧ parts.getLast? ∈ [some ['x'], some ['X'], some ['*']] ∧
      parts.dropLast.all isNumeral then some parts.dropLast
  else none

/-- `_NPM_CARET_RE` -/
def npmCaretRe : List Char → Option (List (List Char) × List Char)
  | '^' :: cs => release cs
  | _ => none

/-- `_NPM_CARET_MINOR_RE` -/
def npmCaretMinorRe : List Char → Option (List (List Char))
  | '^' :: cs => numerals 2 cs
  | _ => none

/-- `_NPM_CARET_MAJOR_RE` -/
def npmCaretMajorRe : List Char → Option (List (List Char))
  | '^' :: cs => numerals 1 cs
  | _ => none

/-- `_NPM_TILDE_RE` -/
def npmTildeRe : List Char → Option (List (List Char) × List Char)
  | '~' :: cs => release cs
  | _ => none

/-- `_NPM_WILDCARD_RE` -/
def npmWildcardRe : List Char → Option (List (List Char)) := wildcards 2

/-- `_NPM_MAJOR_WILDCARD_RE` -/
def npmMajorWildcardRe : List Char → Option (List (List Char)) := wildcards 1

/-- `_NPM_BARE_VERSION_RE` -/
def npmBareVersionRe : List Char → Option (List (List Char)) := numerals 3

def join : List (List Char) → List Char := ['.'].intercalate

/-- `f">={lower},<{upper}"` -/
def between (lower upper : List Char) : List Char := '>' :: '=' :: lower ++ ',' :: '<' :: upper

def normalizeNpmCaret (s : String) : Option String :=
  let stripped := (strip s).toList
  if stripped ∈ [['*'], ['x'], ['X']] then some ">=0.0.0"
  else Option.map String.ofList <|
    match npmCaretRe stripped with
    | some ([major, minor, patch], pre) =>
      some (between (join [major, minor, patch] ++ pre) (join [next major, ['0'], ['0']]))
    | _ =>
    match npmCaretMinorRe stripped with
    | some [major, minor] =>
      some (between (join [major, minor, ['0']]) (join [next major, ['0'], ['0']]))
    | _ =>
    match npmCaretMajorRe stripped with
    | some [major] => some (between (join [major, ['0'], ['0']]) (join [next major, ['0'], ['0']]))
    | _ =>
    match npmTildeRe stripped with
    | some ([major, minor, patch], pre) =>
      some (between (join [major, minor, patch] ++ pre) (join [major, next minor, ['0']]))
    | _ =>
    match npmWildcardRe stripped with
    | some [major, minor] =>
      some (between (join [major, minor, ['0']]) (join [major, next minor, ['0']]))
    | _ =>
    match npmMajorWildcardRe stripped with
    | some [major] => some (between (join [major, ['0'], ['0']]) (join [next major, ['0'], ['0']]))
    | _ =>
    match npmBareVersionRe stripped with
    | some _ => some ('=' :: '=' :: stripped)
    | none => none

end VersionRange

namespace Packaging
open VersionRange
variable {ρ ν : Type} (P : Packaging ρ ν)

/-! ### The check -/

def parseVersionRange (s : String) : Except PluginError ρ :=
  let stripped := strip s
  match P.specifierSet stripped with
  | some specifier => .ok specifier
  | none =>
    match (normalizeNpmCaret stripped).bind P.specifierSet with
    | some specifier => .ok specifier
    | none => .error (.manifestInvalid "<unknown>"
        ("protocol_version " ++ Json.reprStr s ++
          " is not a valid PEP 440 specifier or npm semver range")
        "spec.protocol_version")

/-- What a clause with a bound on the wrong side of the host suggests. -/
def remediation (host : String) (hostVer : ν) (operator bound : String) : Option String :=
  match P.version bound with
  | .error _ => none
  | .ok limit =>
    if operator ∈ ["<", "<="] ∧ P.le limit hostVer then
      some ("upgrade plugin to a version supporting protocol >=" ++ host)
    else if operator ∈ [">", ">="] ∧ !P.le limit hostVer then
      some ("upgrade host to protocol version >=" ++ bound ++
        " or use a plugin version supporting " ++ host)
    else none

def buildRemediation (declares host : String) : String :=
  let hint :=
    match P.version host, P.specifierSet declares with
    | .ok hostVer, some specifier =>
      (P.clauses specifier).findSome? fun (operator, bound) => P.remediation host hostVer operator bound
    | _, _ => none
  hint.getD "check protocol_version compatibility between plugin and host"

def checkProtocolVersion (manifest : PluginManifest) (host : String) : Except PluginError Unit := do
  let specifier ← P.parseVersionRange manifest.protocolVersion
  match P.version host with
  | .error exc => .error (.manifestInvalid manifest.id
      ("host_protocol_version " ++ Json.reprStr host ++ " is not a valid version: " ++ exc) "")
  | .ok hostVer =>
    let specifier := if P.isPrerelease hostVer then P.withPrereleases specifier else specifier
    if P.contains specifier hostVer then .ok ()
    else .error (.protocolVersionMismatch manifest.id manifest.protocolVersion host
      (P.buildRemediation manifest.protocolVersion host))

end Packaging

/-! ### Clauses of PEP 440 -/

inductive Clause where
  | atLeast (v : Version)
  | below (v : Version)
  | equal (v : Version)

namespace Clause

def text : Clause → List Char
  | atLeast v => '>' :: '=' :: v.text
  | below v => '<' :: v.text
  | equal v => '=' :: '=' :: v.text

def Holds (v : Version) : Clause → Prop
  | atLeast w => w ≤ v
  | below w => v < w
  | equal w => v = w

instance (v : Version) : (c : Clause) → Decidable (c.Holds v)
  | atLeast w => inferInstanceAs (Decidable (w ≤ v))
  | below w => inferInstanceAs (Decidable (v < w))
  | equal w => inferInstanceAs (Decidable (v = w))

def listText (cs : List Clause) : String := String.ofList ([','].intercalate (cs.map text))

end Clause

/-- The comparison operators, with which a clause begins. -/
def comparisons : List String := ["~=", "==", "!=", "<=", ">=", "<", ">", "==="]

/-- What PEP 440 says of clauses and versions without a pre-release tag. -/
structure Packaging.Pep440 {ρ ν : Type} (P : Packaging ρ ν) : Prop where
  unmarked : ∀ s : List Char, s ≠ [] → ',' ∉ s → (∀ c ∈ s, isSpace c = false) →
    (∀ op ∈ comparisons, ¬op.toList <+: s) → P.specifierSet (String.ofList s) = none
  clauses : ∀ cs : List Clause, ∃ specifier, P.specifierSet (Clause.listText cs) = some specifier ∧
    ∀ v x, P.version (String.ofList v.text) = .ok x →
      (P.contains specifier x = true ↔ ∀ c ∈ cs, c.Holds v)
  release : ∀ v : Version, ∃ x, P.version (String.ofList v.text) = .ok x ∧ P.isPrerelease x = false

namespace VersionRange

/-! ### Numerals read back -/

theorem toNat_of_isDigit {c : Char} (hc : c.isDigit = true) : 48 ≤ c.toNat ∧ c.toNat ≤ 57 := by
  simpa [Char.isDigit, UInt32.le_iff_toNat_le] using hc

theorem digitValue?_of_isDigit {c : Char} (hc : c.isDigit = true) :
    digitValue? c = some (c.toNat - 48) := by
  have hrange := toNat_of_isDigit hc
  rw [digitValue?, zeros, List.find?_cons_of_pos]
  · rfl
  · simp only [Bool.and_eq_true, decide_eq_true_eq]
    omega

theorem isDigit_of_mem {c : Char} {n : ℕ} (h : c ∈ Nat.toDigits 10 n) : c.isDigit = true :=
  Nat.isDigit_of_mem_toDigits (by decide) (by decide) h

theorem isNumeral_toDigits (n : ℕ) : isNumeral (Nat.toDigits 10 n) = true := by
  rw [isNumeral, Bool.and_eq_true, Bool.not_eq_true', List.isEmpty_eq_false_iff, List.all_eq_true]
  refine ⟨Nat.toDigits_ne_nil, fun c hc => ?_⟩
  rw [digitValue?_of_isDigit (isDigit_of_mem hc)]
  rfl

theorem intOf_toDigits (n : ℕ) : intOf (Nat.toDigits 10 n) = n := by
  have hfold : ∀ (cs : List Char) (a : ℕ), (∀ c ∈ cs, c.isDigit = true) →
      cs.foldl (fun n c => 10 * n + (digitValue? c).getD 0) a = Nat.ofDigitChars 10 cs a := by
    intro cs
    induction cs with
    | nil => exact fun _ _ => (Nat.ofDigitChars_nil).symm
    | cons c cs ih =>
      intro a hcs
      rw [List.forall_mem_cons] at hcs
      rw [List.foldl_cons, ih _ hcs.2, Nat.ofDigitChars_cons, digitValue?_of_isDigit hcs.1]
      rfl
  rw [intOf, hfold _ _ fun c => isDigit_of_mem, Nat.ofDigitChars_ten_toDigits]

theorem next_toDigits (n : ℕ) : next (Nat.toDigits 10 n) = Nat.toDigits 10 (n + 1) := by
  rw [next, intOf_toDigits]

/-- Numerals, and a sign for any number. -/
def starred (ns : List ℕ) (w : Wildcard) : List Char := join (ns.map (Nat.toDigits 10) ++ [[w.char]])

theorem splitOn_dotted {ns : List ℕ} (hne : ns ≠ []) :
    (dotted ns).splitOn '.' = ns.map (Nat.toDigits 10) := by
  refine List.splitOn_intercalate '.' (fun p hp => ?_) (by simpa using hne)
  obtain ⟨n, -, rfl⟩ := List.mem_map.1 hp
  exact notMem_toDigits rfl n

theorem splitOn_starred (ns : List ℕ) (w : Wildcard) :
    (starred ns w).splitOn '.' = ns.map (Nat.toDigits 10) ++ [[w.char]] := by
  refine List.splitOn_intercalate '.' (fun p hp => ?_) (by simp)
  rcases List.mem_append.1 hp with hp | hp
  · obtain ⟨n, -, rfl⟩ := List.mem_map.1 hp
    exact notMem_toDigits rfl n
  · rw [List.mem_singleton.1 hp]
    cases w <;> decide

theorem all_isNumeral (ns : List ℕ) : (ns.map (Nat.toDigits 10)).all isNumeral = true := by
  rw [List.all_map, List.all_eq_true]
  exact fun n _ => isNumeral_toDigits n

section
variable {ns : List ℕ} {w : Wildcard} {n : ℕ} {c : Char}

theorem notMem_dotted (hc : c.isDigit = false) (hdot : c ≠ '.') : c ∉ dotted ns := by
  intro hmem
  rcases mem_of_mem_intercalate hmem with h | ⟨p, hp, h⟩
  · exact hdot h
  · obtain ⟨n, -, rfl⟩ := List.mem_map.1 hp
    exact notMem_toDigits hc n h

theorem notMem_starred (hc : c.isDigit = false) (hdot : c ≠ '.') (hw : c ≠ w.char) :
    c ∉ starred ns w := by
  intro hmem
  rcases mem_of_mem_intercalate hmem with h | ⟨p, hp, h⟩
  · exact hdot h
  · rcases List.mem_append.1 hp with hp | hp
    · obtain ⟨n, -, rfl⟩ := List.mem_map.1 hp
      exact notMem_toDigits hc n h
    · rw [List.mem_singleton.1 hp, List.mem_singleton] at h
      exact hw h

theorem numerals_dotted (hne : ns ≠ []) :
    numerals n (dotted ns) = if ns.length = n then some (ns.map (Nat.toDigits 10)) else none := by
  simp only [numerals, splitOn_dotted hne, List.length_map, all_isNumeral, and_true]

theorem wildcards_starred :
    wildcards n (starred ns w) = if ns.length = n then some (ns.map (Nat.toDigits 10)) else none := by
  have hlast : some [w.char] ∈ [some ['x'], some ['X'], some ['*']] := by cases w <;> decide
  simp only [wildcards, splitOn_starred, List.length_append, List.length_map, List.length_singleton,
    Nat.add_right_cancel_iff, List.getLast?_concat, hlast, List.dropLast_concat, all_isNumeral,
    and_true]

theorem wildcards_dotted (hne : ns ≠ []) : wildcards n (dotted ns) = none := by
  have hlast : (ns.map (Nat.toDigits 10)).getLast? ∉ [some ['x'], some ['X'], some ['*']] := by
    obtain ⟨front, last, rfl⟩ := (List.eq_nil_or_concat ns).resolve_left hne
    intro hmem
    rw [List.concat_eq_append, List.map_append, List.map_singleton, List.getLast?_concat] at hmem
    have hnumeral := isNumeral_toDigits last
    simp only [List.mem_cons, Option.some.injEq, List.not_mem_nil, or_false] at hmem
    rcases hmem with h | h | h <;> rw [h] at hnumeral <;> exact absurd hnumeral (by decide)
  simp only [wildcards, splitOn_dotted hne, hlast, false_and, and_false, ↓reduceIte]

/-- Without a hyphen there is no pre-release tag. -/
theorem release_dotted (hne : ns ≠ []) :
    release (dotted ns) = if ns.length = 3 then some (ns.map (Nat.toDigits 10), []) else none := by
  have hall : ∀ c ∈ dotted ns, (c != '-') = true := by
    intro c hc
    exact bne_iff_ne.2 fun hdash => notMem_dotted rfl (by decide) (hdash ▸ hc)
  rw [release, List.takeWhile_eq_self_iff.2 hall, List.dropWhile_eq_nil_iff.2 hall, numerals_dotted hne,
    if_pos (by decide)]
  split <;> rfl

theorem dotted_ne (hne : ns ≠ []) : dotted ns ∉ [['*'], ['x'], ['X']] := by
  intro hmem
  have hnone := @wildcards_dotted ns 0 hne
  simp only [List.mem_cons, List.not_mem_nil, or_false] at hmem
  rcases hmem with h | h | h <;> rw [h] at hnone <;> exact absurd hnone (by decide)

theorem starred_ne (hne : ns ≠ []) : starred ns w ∉ [['*'], ['x'], ['X']] := by
  intro hmem
  have hlength : ((starred ns w).splitOn '.').length = ns.length + 1 := by simp [splitOn_starred]
  have hpos : 0 < ns.length := List.length_pos_iff.2 hne
  simp only [List.mem_cons, List.not_mem_nil, or_false] at hmem
  rcases hmem with h | h | h <;> rw [h] at hlength <;>
    exact absurd (hlength.symm.trans (by decide : _ = 1)) (by omega)

end

/-- A text without a caret or a tilde matches none of their patterns. -/
theorem unmarked_res {cs : List Char} (hcaret : '^' ∉ cs) (htilde : '~' ∉ cs) :
    npmCaretRe cs = none ∧ npmCaretMinorRe cs = none ∧ npmCaretMajorRe cs = none ∧
      npmTildeRe cs = none := by
  cases cs with
  | nil => exact ⟨rfl, rfl, rfl, rfl⟩
  | cons c cs =>
    have hc : c ≠ '^' := fun h => hcaret (h ▸ List.mem_cons_self)
    have hc' : c ≠ '~' := fun h => htilde (h ▸ List.mem_cons_self)
    simp [npmCaretRe, npmCaretMinorRe, npmCaretMajorRe, npmTildeRe, hc, hc']

theorem starred_res (ns : List ℕ) (w : Wildcard) :
    npmCaretRe (starred ns w) = none ∧ npmCaretMinorRe (starred ns w) = none ∧
      npmCaretMajorRe (starred ns w) = none ∧ npmTildeRe (starred ns w) = none := by
  refine unmarked_res (notMem_starred rfl (by decide) ?_) (notMem_starred rfl (by decide) ?_)
  · cases w <;> decide
  · cases w <;> decide

/-! ### What the translation of a range says -/

/-- The last component that the upper bound keeps. -/
def bounded : NpmRange → ℕ
  | .tilde .. | .minorX .. => 2
  | _ => 1

def read : NpmRange → List Clause
  | .any _ => [.atLeast ⟨0, 0, 0⟩]
  | .exact major minor patch => [.equal ⟨major, minor, patch⟩]
  | r => [.atLeast r.floor, .below (r.floor.bump (bounded r))]

theorem listText_between (v w : Version) : Clause.listText [.atLeast v, .below w] =
    String.ofList (between
      (join [Nat.toDigits 10 v.major, Nat.toDigits 10 v.minor, Nat.toDigits 10 v.patch])
      (join [Nat.toDigits 10 w.major, Nat.toDigits 10 w.minor, Nat.toDigits 10 w.patch])) := by
  simp [Clause.listText, Clause.text, between, List.intercalate_cons_cons, Version.text, Version.parts,
    dotted, join]

theorem text_eq (r : NpmRange) : r.text =
    match r with
    | .caretMajor a => '^' :: dotted [a]
    | .caretMinor a b => '^' :: dotted [a, b]
    | .caret a b c => '^' :: dotted [a, b, c]
    | .tilde a b c => '~' :: dotted [a, b, c]
    | .majorX a w => starred [a] w
    | .minorX a b w => starred [a, b] w
    | .exact a b c => dotted [a, b, c]
    | .any w => starred [] w := by
  cases r <;> rfl

theorem mem_text {r : NpmRange} {c : Char} (h : c ∈ r.text) :
    c.isDigit = true ∨ c ∈ ['^', '~', '.', 'x', 'X', '*'] := by
  by_contra hnot
  simp only [List.mem_cons, List.not_mem_nil, or_false, not_or, Bool.not_eq_true] at hnot
  obtain ⟨hdigit, hcaret, htilde, hdot, hx, hX, hstar⟩ := hnot
  have hw : ∀ w : Wildcard, c ≠ w.char := by
    intro w
    cases w
    exacts [hx, hX, hstar]
  rw [text_eq] at h
  cases r with
  | caretMajor | caretMinor | caret =>
    rcases List.mem_cons.1 h with h | h
    · exact hcaret h
    · exact notMem_dotted hdigit hdot h
  | tilde =>
    rcases List.mem_cons.1 h with h | h
    · exact htilde h
    · exact notMem_dotted hdigit hdot h
  | exact => exact notMem_dotted hdigit hdot h
  | majorX a w | minorX a b w | any w => exact notMem_starred hdigit hdot (hw w) h

theorem strip_of_isSpace {cs : List Char} (h : ∀ c ∈ cs, isSpace c = false) :
    strip (String.ofList cs) = String.ofList cs := by
  have hdrop : ∀ ds : List Char, (∀ c ∈ ds, isSpace c = false) → ds.dropWhile isSpace = ds := by
    intro ds hds
    cases ds with
    | nil => rfl
    | cons d ds => exact List.dropWhile_cons_of_neg (by simp [hds d List.mem_cons_self])
  rw [strip, String.toList_ofList, hdrop cs h, hdrop _ fun c hc => h c (List.mem_reverse.1 hc),
    List.reverse_reverse]

theorem isSpace_of_mem_text {r : NpmRange} {c : Char} (h : c ∈ r.text) : isSpace c = false := by
  rcases mem_text h with hdigit | hmem
  · have hrange := toNat_of_isDigit hdigit
    simp [isSpace]
    omega
  · simp only [List.mem_cons, List.not_mem_nil, or_false] at hmem
    rcases hmem with rfl | rfl | rfl | rfl | rfl | rfl <;> rfl

theorem normalizeNpmCaret_text (r : NpmRange) :
    normalizeNpmCaret (String.ofList r.text) = some (Clause.listText (read r)) := by
  unfold normalizeNpmCaret
  rw [strip_of_isSpace fun c => isSpace_of_mem_text, String.toList_ofList, text_eq]
  cases r with
  | caretMajor a =>
    rw [if_neg (by simp)]
    simp [npmCaretRe, npmCaretMinorRe, npmCaretMajorRe, release_dotted, numerals_dotted, next_toDigits]
    simp [read, listText_between, NpmRange.floor, NpmRange.named, bounded, Version.bump]
  | caretMinor a b =>
    rw [if_neg (by simp)]
    simp [npmCaretRe, npmCaretMinorRe, release_dotted, numerals_dotted, next_toDigits]
    simp [read, listText_between, NpmRange.floor, NpmRange.named, bounded, Version.bump]
  | caret a b c =>
    rw [if_neg (by simp)]
    simp [npmCaretRe, release_dotted, next_toDigits]
    simp [read, listText_between, NpmRange.floor, NpmRange.named, bounded, Version.bump]
  | tilde a b c =>
    rw [if_neg (by simp)]
    simp [npmCaretRe, npmCaretMinorRe, npmCaretMajorRe, npmTildeRe, release_dotted, next_toDigits]
    simp [read, listText_between, NpmRange.floor, NpmRange.named, bounded, Version.bump]
  | majorX a w =>
    obtain ⟨h₁, h₂, h₃, h₄⟩ := starred_res [a] w
    rw [if_neg (starred_ne (by simp)), h₁, h₂, h₃, h₄]
    simp [npmWildcardRe, npmMajorWildcardRe, wildcards_starred, next_toDigits]
    simp [read, listText_between, NpmRange.floor, NpmRange.named, bounded, Version.bump]
  | minorX a b w =>
    obtain ⟨h₁, h₂, h₃, h₄⟩ := starred_res [a, b] w
    rw [if_neg (starred_ne (by simp)), h₁, h₂, h₃, h₄]
    simp [npmWildcardRe, wildcards_starred, next_toDigits]
    simp [read, listText_between, NpmRange.floor, NpmRange.named, bounded, Version.bump]
  | exact a b c =>
    obtain ⟨h₁, h₂, h₃, h₄⟩ := @unmarked_res (dotted [a, b, c])
      (notMem_dotted rfl (by decide)) (notMem_dotted rfl (by decide))
    rw [if_neg (dotted_ne (by simp)), h₁, h₂, h₃, h₄]
    simp [npmWildcardRe, npmMajorWildcardRe, npmBareVersionRe, wildcards_dotted, numerals_dotted]
    simp [read, Clause.listText, Clause.text, Version.text, Version.parts]
  | any w => cases w <;> rfl

theorem text_ne_nil (r : NpmRange) : r.text ≠ [] := by
  intro h
  have hnormal := normalizeNpmCaret_text r
  rw [h] at hnormal
  exact absurd hnormal (by simp [show normalizeNpmCaret (String.ofList []) = none from by decide])

/-- No range begins with a comparison. -/
theorem not_comparison (r : NpmRange) : ∀ op ∈ comparisons, ¬op.toList <+: r.text := by
  have hsigns : ∀ op ∈ comparisons, '=' ∈ op.toList ∨ '<' ∈ op.toList ∨ '>' ∈ op.toList := by
    simp [comparisons]
  intro op hop hbegins
  rcases hsigns op hop with h | h | h
  · exact absurd (mem_text (hbegins.subset h)) (by decide)
  · exact absurd (mem_text (hbegins.subset h)) (by decide)
  · exact absurd (mem_text (hbegins.subset h)) (by decide)

end VersionRange

open VersionRange

section
variable {ρ ν : Type} {P : Packaging ρ ν} {r : NpmRange} {s : String}

theorem parseVersionRange_npm (hP : P.Pep440) (hs : strip s = String.ofList r.text) :
    ∃ specifier, P.parseVersionRange s = .ok specifier ∧
      ∀ v x, P.version (String.ofList v.text) = .ok x →
        (P.contains specifier x = true ↔ ∀ c ∈ read r, c.Holds v) := by
  obtain ⟨specifier, hparse, hholds⟩ := hP.clauses (read r)
  refine ⟨specifier, ?_, hholds⟩
  have hnone : P.specifierSet (String.ofList r.text) = none := by
    refine hP.unmarked r.text (text_ne_nil r) (fun hcomma => ?_) (fun c => isSpace_of_mem_text)
      (not_comparison r)
    exact absurd (mem_text hcomma) (by decide)
  simp only [Packaging.parseVersionRange, hs, hnone, normalizeNpmCaret_text, Option.bind_some, hparse]

theorem checkProtocolVersion_npm (hP : P.Pep440) {m : PluginManifest}
    (hs : strip m.protocolVersion = String.ofList r.text) (v : Version) :
    P.checkProtocolVersion m (String.ofList v.text) = .ok () ↔ ∀ c ∈ read r, c.Holds v := by
  obtain ⟨specifier, hparse, hholds⟩ := parseVersionRange_npm hP hs
  obtain ⟨x, hx, hrelease⟩ := hP.release v
  rw [← hholds v x hx, Packaging.checkProtocolVersion, hparse]
  simp only [bind, Except.bind, hx, hrelease, Bool.false_eq_true, ↓reduceIte]
  by_cases h : P.contains specifier x = true
  · rw [if_pos h]
    exact iff_of_true rfl h
  · rw [if_neg h]
    exact iff_of_false (fun hok => by cases hok) h

end

namespace VersionRange

/-- A caret range of major version 0, and a host of that major version which changes a later
component that the caret keeps. -/
def TooWide : NpmRange → Version → Prop
  | .caretMinor 0 minor, v => v.major = 0 ∧ minor < v.minor
  | .caret 0 minor patch, v =>
    v.major = 0 ∧ (minor < v.minor ∨ minor = 0 ∧ v.minor = 0 ∧ patch < v.patch)
  | _, _ => False

theorem holds_between {lower upper v : Version} :
    (∀ c ∈ [Clause.atLeast lower, Clause.below upper], c.Holds v) ↔ lower ≤ v ∧ v < upper := by
  simp only [List.forall_mem_cons, List.not_mem_nil, false_implies, implies_true, and_true,
    Clause.Holds]

/-- The translation is right when its upper bound keeps what the range keeps. -/
theorem holds_read_of_kept {r : NpmRange}
    (hread : read r = [.atLeast r.floor, .below (r.floor.bump (bounded r))]) (hk : r.kept = bounded r)
    (v : Version) : (∀ c ∈ read r, c.Holds v) ↔ r.Contains v := by
  have hpos : 0 < bounded r := by cases r <;> simp [bounded]
  rw [hread, holds_between, NpmRange.contains_iff (hk ▸ hpos), hk]

/-- What it lets in beside the range when its upper bound keeps less. -/
theorem holds_read_of_kept_gt {r : NpmRange}
    (hread : read r = [.atLeast r.floor, .below (r.floor.bump (bounded r))]) (hpos : 0 < r.kept)
    (hle : r.floor.bump r.kept ≤ r.floor.bump (bounded r)) (v : Version) :
    ((∀ c ∈ read r, c.Holds v) ↔ r.Contains v) ↔
      ¬(r.floor.bump r.kept ≤ v ∧ r.floor ≤ v ∧ v < r.floor.bump (bounded r)) := by
  rw [hread, holds_between, NpmRange.contains_iff hpos]
  constructor
  · rintro h ⟨hlow, hin⟩
    exact absurd (h.1 hin).2 (not_lt.2 hlow)
  · intro h
    refine ⟨fun hin => ⟨hin.1, ?_⟩, fun hin => ⟨hin.1, hin.2.trans_le hle⟩⟩
    by_contra hlow
    exact h ⟨not_lt.1 hlow, hin⟩

theorem holds_read_iff (r : NpmRange) (v : Version) :
    ((∀ c ∈ read r, c.Holds v) ↔ r.Contains v) ↔ ¬TooWide r v := by
  cases r with
  | caretMajor a =>
    have hk : (NpmRange.caretMajor a).kept = 1 := by simp [NpmRange.kept, leftmost]
    exact iff_of_true (holds_read_of_kept rfl hk v) id
  | caretMinor a b =>
    rcases a with _ | a
    · have hk : (NpmRange.caretMinor 0 b).kept = 2 := by simp [NpmRange.kept, leftmost]
      rw [holds_read_of_kept_gt rfl (by omega) (Version.bump_le_bump_one _ _), hk]
      simp [Version.le_iff, Version.lt_iff, Version.bump, NpmRange.floor, NpmRange.named, bounded,
        TooWide]
      omega
    · exact iff_of_true (holds_read_of_kept rfl rfl v) id
  | caret a b c =>
    rcases a with _ | a
    · rcases b with _ | b
      · have hk : (NpmRange.caret 0 0 c).kept = 3 := by simp [NpmRange.kept, leftmost]
        rw [holds_read_of_kept_gt rfl (by omega) (Version.bump_le_bump_one _ _), hk]
        simp [Version.le_iff, Version.lt_iff, Version.bump, NpmRange.floor, NpmRange.named, bounded,
          TooWide]
        omega
      · have hk : (NpmRange.caret 0 (b + 1) c).kept = 2 := rfl
        rw [holds_read_of_kept_gt rfl (by omega) (Version.bump_le_bump_one _ _), hk]
        simp [Version.le_iff, Version.lt_iff, Version.bump, NpmRange.floor, NpmRange.named, bounded,
          TooWide]
        omega
    · exact iff_of_true (holds_read_of_kept rfl rfl v) id
  | tilde | majorX | minorX => exact iff_of_true (holds_read_of_kept rfl rfl v) id
  | exact a b c =>
    refine iff_of_true ?_ id
    have hk : (NpmRange.exact a b c).kept = 3 := rfl
    rw [NpmRange.contains_iff (by omega), hk, read, List.forall_mem_singleton]
    obtain ⟨x, y, z⟩ := v
    simp [Clause.Holds, Version.le_iff, Version.lt_iff, Version.bump, NpmRange.floor, NpmRange.named]
    omega
  | any w =>
    refine iff_of_true ?_ id
    rw [read, List.forall_mem_singleton]
    exact (and_iff_left rfl).symm

end VersionRange

open PluginLoader in
/-- A plugin that a successful `load_plugins` records, and that declares an npm range, supports the host
unless the translation of its range is too wide. -/
theorem loadPlugins_in_range {φ ρ ν : Type} {P : Packaging ρ ν} (hP : P.Pep440) {host : PluginHost}
    (hcheck : host.checkProtocolVersion = P.checkProtocolVersion) {args : LoadArgs}
    {entryPoints : List (EntryPoint φ)} {R : MiddlewareRegistry φ}
    (hdiscovery : args.noDiscovery = false)
    (hok : (loadPlugins host args entryPoints R).outcome.isOk = true) {v : Version}
    (hv : args.hostProtocolVersion = String.ofList v.text) {id : String} {m : PluginManifest}
    {r : NpmRange}
    (hm : (loadPlugins host args entryPoints R).registry.loadedManifests.get? id = some m)
    (hr : strip m.protocolVersion = String.ofList r.text) : r.Contains v ∨ TooWide r v := by
  obtain ⟨p, hplan, -, -, hregistry⟩ := loadPlugins_ok hdiscovery hok
  obtain ⟨d, hd, -, -, hloading, -⟩ := plan_ok hplan
  obtain ⟨pairs, -, hchecked, hmanifests, -⟩ := discover_ok hd
  rw [hregistry] at hm
  have hmem : (id, m) ∈ d.manifests.entries :=
    Dict.get?_eq_some.1 (Dict.get?_filter.1 (hloading ▸ hm)).1
  obtain ⟨q, hq, hqm⟩ : ∃ q ∈ pairs, q.1 = m := by
    rw [hmanifests] at hmem
    obtain ⟨q, hq, heq⟩ := List.mem_map.1 (Dict.mem_of_mem_ofList hmem)
    exact ⟨q, hq, (Prod.mk.inj heq).2⟩
  have hpass : P.checkProtocolVersion m (String.ofList v.text) = .ok () := by
    have h := hchecked q hq
    rw [hqm, checkEntryPoint] at h
    obtain ⟨raw, -, h⟩ := except_bind h
    obtain ⟨m', -, h⟩ := except_bind h
    obtain ⟨u, hu, h⟩ := except_bind h
    obtain ⟨u', -, h⟩ := except_bind h
    cases h
    rwa [hcheck, hv] at hu
  by_contra hnot
  rw [not_or] at hnot
  exact hnot.1 (((holds_read_iff r v).2 hnot.2).1 ((checkProtocolVersion_npm hP hr v).1 hpass))

/-! ### A small `packaging` -/

namespace Releases

def version? (cs : List Char) : Option Version :=
  match numerals 3 cs with
  | some [major, minor, patch] => some ⟨intOf major, intOf minor, intOf patch⟩
  | _ => none

def clause? : List Char → Option Clause
  | '>' :: '=' :: cs => (version? cs).map .atLeast
  | '=' :: '=' :: cs => (version? cs).map .equal
  | '<' :: cs => (version? cs).map .below
  | _ => none

def shown : Clause → String × String
  | .atLeast v => (">=", String.ofList v.text)
  | .below v => ("<", String.ofList v.text)
  | .equal v => ("==", String.ofList v.text)

theorem version?_text (v : Version) : version? v.text = some v := by
  have hnumerals := @numerals_dotted v.parts 3 (List.cons_ne_nil _ _)
  simp only [version?, Version.text, hnumerals]
  simp [Version.parts, intOf_toDigits]

theorem clause?_text (c : Clause) : clause? c.text = some c := by
  cases c with
  | atLeast v | equal v => simp [Clause.text, clause?, version?_text]
  | below v =>
    have hne : ∀ cs, v.text ≠ '=' :: cs := by
      intro cs h
      exact notMem_dotted (c := '=') (by decide) (by decide) (h ▸ List.mem_cons_self)
    simp [Clause.text, clause?, version?_text]

theorem clause?_unmarked {s : List Char} (h : ∀ op ∈ comparisons, ¬op.toList <+: s) :
    clause? s = none := by
  unfold clause?
  split
  · exact absurd (List.prefix_append ['>', '='] _) (h ">=" (by decide))
  · exact absurd (List.prefix_append ['=', '='] _) (h "==" (by decide))
  · exact absurd (List.prefix_append ['<'] _) (h "<" (by decide))
  · rfl

theorem comma_notMem_text (c : Clause) : ',' ∉ c.text := by
  have hdotted (v : Version) : ',' ∉ v.text := notMem_dotted rfl (by decide)
  cases c <;> simp [Clause.text, hdotted]

theorem splitOn_texts (cs : List Clause) :
    (([','].intercalate (cs.map Clause.text)).splitOn ',').filter (· ≠ []) = cs.map Clause.text := by
  cases cs with
  | nil => rfl
  | cons c cs =>
    rw [List.splitOn_intercalate ',' _ (by simp), List.filter_eq_self]
    · intro p hp
      obtain ⟨c, -, rfl⟩ := List.mem_map.1 hp
      cases c <;> simp [Clause.text]
    · intro p hp
      obtain ⟨c, -, rfl⟩ := List.mem_map.1 hp
      exact comma_notMem_text c

theorem mapM_texts (cs : List Clause) : (cs.map Clause.text).mapM clause? = some cs := by
  induction cs with
  | nil => rfl
  | cons c cs ih =>
    rw [List.map_cons, List.mapM_cons, clause?_text, ih]
    rfl

end Releases

open Releases in
/-- Clauses on three numbers, with the operators that are translated to. -/
def releases : Packaging (List Clause) Version where
  specifierSet s := ((s.toList.splitOn ',').filter (· ≠ [])).mapM clause?
  withPrereleases := id
  clauses cs := cs.map shown
  contains cs v := cs.all fun c => decide (c.Holds v)
  version s :=
    match version? s.toList with
    | some v => .ok v
    | none => .error ("Invalid version: " ++ Json.reprStr s)
  isPrerelease _ := false
  le v w := decide (v ≤ w)

open Releases in
theorem releases_pep440 : releases.Pep440 where
  unmarked s hne hcomma _ hmarks := by
    have hsplit : s.splitOn ',' = [s] := by
      have h := @List.splitOn_intercalate _ [s] _ _ ',' (by simpa using hcomma) (List.cons_ne_nil _ _)
      rwa [List.intercalate_singleton] at h
    simp only [releases, String.toList_ofList, hsplit]
    simp [hne, clause?_unmarked hmarks]
  clauses cs := by
    refine ⟨cs, ?_, fun v x hx => ?_⟩
    · rw [Clause.listText]
      simp only [releases, String.toList_ofList]
      rw [splitOn_texts, mapM_texts]
    · simp only [releases, String.toList_ofList, version?_text, Except.ok.injEq] at hx
      subst hx
      simp [releases]
  release v := by
    refine ⟨v, ?_, rfl⟩
    simp only [releases, String.toList_ofList, version?_text]

theorem check_npm_range_iff {ρ ν : Type} (P : Packaging ρ ν) (hP : P.Pep440) (m : PluginManifest)
    (r : NpmRange) (hr : strip m.protocolVersion = String.ofList r.text) (v : Version) :
    (P.checkProtocolVersion m (String.ofList v.text) = .ok () ↔ r.Contains v) ↔ ¬TooWide r v := by
  rw [checkProtocolVersion_npm hP hr]
  exact holds_read_iff r v

def auditManifest (protocolVersion : String) : PluginManifest :=
  { id := "org.example.audit", version := "1.0.0", kind := "interceptor", protocolVersion }

/-- `~1.2.3` and a host of version 1.2.5. -/
theorem check_npm_range_tilde :
    (releases.checkProtocolVersion (auditManifest "~1.2.3")
        (String.ofList (⟨1, 2, 5⟩ : Version).text) = .ok () ↔
      (NpmRange.tilde 1 2 3).Contains ⟨1, 2, 5⟩) ↔ ¬TooWide (.tilde 1 2 3) ⟨1, 2, 5⟩ :=
  check_npm_range_iff releases releases_pep440 (auditManifest "~1.2.3") (.tilde 1 2 3) (by decide)
    ⟨1, 2, 5⟩

/-- A host of version 0.2.0 passes a plugin that declares `^0.1.0`. -/
theorem check_caret_zero : releases.Pep440 ∧
    String.ofList (NpmRange.caret 0 1 0).text = "^0.1.0" ∧
    String.ofList (⟨0, 2, 0⟩ : Version).text = "0.2.0" ∧
    releases.checkProtocolVersion (auditManifest "^0.1.0") "0.2.0" = .ok () ∧
      ¬(NpmRange.caret 0 1 0).Contains ⟨0, 2, 0⟩ :=
  ⟨releases_pep440, by decide, by decide, by decide, by decide⟩

end Sox
