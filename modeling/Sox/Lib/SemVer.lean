import Sox.Lib.Separator
import Mathlib.Data.Prod.Lex

/-!
# Semantic versions and the ranges of npm

Versions without a pre-release tag, in their order, and the caret, tilde and wildcard ranges of
`node-semver`. A range names a floor and the number of components that its versions share with it: a
caret keeps those up to the leftmost that is not zero. `Version.bump` is the version where that stops
(`NpmRange.contains_iff`).
-/

namespace SemVer
open Separator

structure Version where
  major : ℕ
  minor : ℕ
  patch : ℕ
deriving DecidableEq

/-- Numbers in decimal, joined by points. -/
def dotted (ns : List ℕ) : List Char := ['.'].intercalate (ns.map (Nat.toDigits 10))

namespace Version

def parts (v : Version) : List ℕ := [v.major, v.minor, v.patch]

def text (v : Version) : List Char := dotted v.parts

def key (v : Version) : ℕ ×ₗ ℕ ×ₗ ℕ := toLex (v.major, toLex (v.minor, v.patch))

theorem key_injective : Function.Injective key := by
  rintro ⟨a, b, c⟩ ⟨x, y, z⟩ h
  simpa [key] using h

instance : LinearOrder Version := LinearOrder.lift' key key_injective

theorem lt_iff {v w : Version} : v < w ↔ v.major < w.major ∨
    v.major = w.major ∧ (v.minor < w.minor ∨ v.minor = w.minor ∧ v.patch < w.patch) := by
  show v.key < w.key ↔ _
  simp [key, Prod.Lex.lt_iff]

theorem le_iff {v w : Version} : v ≤ w ↔ v.major < w.major ∨
    v.major = w.major ∧ (v.minor < w.minor ∨ v.minor = w.minor ∧ v.patch ≤ w.patch) := by
  show v.key ≤ w.key ↔ _
  simp [key, Prod.Lex.le_iff]

/-- The next version with another one of the first `k` components. -/
def bump (v : Version) : ℕ → Version
  | 0 | 1 => ⟨v.major + 1, 0, 0⟩
  | 2 => ⟨v.major, v.minor + 1, 0⟩
  | _ + 3 => ⟨v.major, v.minor, v.patch + 1⟩

theorem take_parts_iff {v w : Version} (hle : w ≤ v) {k : ℕ} (hk : 0 < k) :
    v.parts.take k = w.parts.take k ↔ v < w.bump k := by
  rw [le_iff] at hle
  rcases k with _ | _ | _ | k
  · omega
  · simp [parts, bump, lt_iff]
    omega
  · simp [parts, bump, lt_iff]
    omega
  · simp [parts, bump, lt_iff]
    omega

theorem bump_le_bump_one (v : Version) (k : ℕ) : v.bump k ≤ v.bump 1 := by
  rw [le_iff]
  rcases k with _ | _ | _ | k <;> simp [bump]

end Version

/-- The sign for any number. -/
inductive Wildcard where
  | x | X | star

def Wildcard.char : Wildcard → Char
  | .x => 'x'
  | .X => 'X'
  | .star => '*'

inductive NpmRange where
  /-- `^M` -/
  | caretMajor (major : ℕ)
  /-- `^M.m` -/
  | caretMinor (major minor : ℕ)
  /-- `^M.m.p` -/
  | caret (major minor patch : ℕ)
  /-- `~M.m.p` -/
  | tilde (major minor patch : ℕ)
  /-- `M.x` -/
  | majorX (major : ℕ) (w : Wildcard)
  /-- `M.m.x` -/
  | minorX (major minor : ℕ) (w : Wildcard)
  /-- `M.m.p` -/
  | exact (major minor patch : ℕ)
  /-- `*` -/
  | any (w : Wildcard)

/-- The components up to the leftmost that is not zero, or all. -/
def leftmost : List ℕ → ℕ
  | [] => 0
  | n :: ns => if n = 0 then leftmost ns + 1 else 1

namespace NpmRange

def mark : NpmRange → List Char
  | caretMajor .. | caretMinor .. | caret .. => ['^']
  | tilde .. => ['~']
  | _ => []

def named : NpmRange → List ℕ
  | caretMajor major | majorX major _ => [major]
  | caretMinor major minor | minorX major minor _ => [major, minor]
  | caret major minor patch | tilde major minor patch | exact major minor patch => [major, minor, patch]
  | any _ => []

def wildcard : NpmRange → List Wildcard
  | majorX _ w | minorX _ _ w | any w => [w]
  | _ => []

def pieces (r : NpmRange) : List (List Char) :=
  r.named.map (Nat.toDigits 10) ++ r.wildcard.map fun w => [w.char]

def text (r : NpmRange) : List Char := r.mark ++ ['.'].intercalate r.pieces

/-- The named components, and zeros. -/
def floor (r : NpmRange) : Version := ⟨r.named.getD 0 0, r.named.getD 1 0, r.named.getD 2 0⟩

/-- How many components the versions of the range share. -/
def kept : NpmRange → ℕ
  | caretMajor major => leftmost [major]
  | caretMinor major minor => leftmost [major, minor]
  | caret major minor patch => leftmost [major, minor, patch]
  | tilde .. | minorX .. => 2
  | majorX .. => 1
  | exact .. => 3
  | any _ => 0

def Contains (r : NpmRange) (v : Version) : Prop :=
  r.floor ≤ v ∧ v.parts.take r.kept = r.floor.parts.take r.kept

instance (r : NpmRange) (v : Version) : Decidable (r.Contains v) :=
  inferInstanceAs (Decidable (_ ∧ _))

theorem contains_iff {r : NpmRange} (hk : 0 < r.kept) (v : Version) :
    r.Contains v ↔ r.floor ≤ v ∧ v < r.floor.bump r.kept :=
  and_congr_right fun hle => Version.take_parts_iff hle hk

end NpmRange

end SemVer
