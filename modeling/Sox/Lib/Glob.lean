import Mathlib.Tactic.Common

/-!
# Shell globs

`fnmatchcase name pat`: whether the whole of `name` matches the Unix glob `pat`, case-sensitively.
`*` matches any sequence of characters, `?` any one character, `[seq]` one character of `seq` and
`[!seq]` one character outside it; `a-b` in a class is a range (empty when `b < a`), a `]` that
opens the class is a literal, and a `[` without its `]` matches itself.
-/

namespace Glob

inductive Piece where
  | star
  | any
  | lit (c : Char)
  | cls (negated : Bool) (ranges : List (Char × Char))
deriving DecidableEq, Repr

/-- The ranges of a class body, a single character being a range of one. -/
def ranges : List Char → List (Char × Char)
  | a :: '-' :: b :: rest => (a, b) :: ranges rest
  | a :: rest => (a, a) :: ranges rest
  | [] => []

/-- Splits what follows a `[` into the class and the rest of the pattern; `none` if it never
closes. CPython reads a class whose empty range stands before a `!`, as in `[b-a!x]`, as negated:
it drops the range first. -/
def openClass (cs : List Char) : Option (Piece × List Char) :=
  let (negated, cs) := match cs with
    | '!' :: t => (true, t)
    | t => (false, t)
  let (first, cs) := match cs with
    | ']' :: t => ([']'], t)
    | t => ([], t)
  match cs.span (· != ']') with
  | (body, _ :: rest) => some (.cls negated (ranges (first ++ body)), rest)
  | (_, []) => none

/-- Every step consumes a character, so the pattern's length is enough fuel. -/
def parse : Nat → List Char → List Piece
  | 0, _ => []
  | _ + 1, [] => []
  | fuel + 1, '*' :: cs => .star :: parse fuel cs
  | fuel + 1, '?' :: cs => .any :: parse fuel cs
  | fuel + 1, '[' :: cs =>
    match openClass cs with
    | some (p, rest) => p :: parse fuel rest
    | none => .lit '[' :: parse fuel cs
  | fuel + 1, c :: cs => .lit c :: parse fuel cs

def Piece.accepts : Piece → Char → Bool
  | .star, _ => true
  | .any, _ => true
  | .lit c, d => c == d
  | .cls negated rs, d => negated != rs.any fun r => r.1 ≤ d && d ≤ r.2

/-- Whether `k` accepts some suffix. -/
def anySuffix (k : List Char → Bool) : List Char → Bool
  | [] => k []
  | c :: cs => k (c :: cs) || anySuffix k cs

def accepts : List Piece → List Char → Bool
  | [], cs => cs.isEmpty
  | .star :: ps, cs => anySuffix (accepts ps) cs
  | _ :: _, [] => false
  | p :: ps, c :: cs => p.accepts c && accepts ps cs

def fnmatchcase (name pat : String) : Bool :=
  accepts (parse pat.toList.length pat.toList) name.toList

def pieces (pat : String) : List Piece := parse pat.toList.length pat.toList

example : fnmatchcase "ticket:ENGI-7" "ticket:*-[0-9]" = true := by decide
example : fnmatchcase "dm/a" "[!a-c]m?a" = true := by decide

/-! ### Names with a prefix -/

def Piece.Possible (p : Piece) : Prop := ∃ c, p.accepts c = true

/-- The pieces up to the first star fit the prefix, and no piece is impossible. -/
def Meets : List Char → List Piece → Prop
  | [], ps => ∀ p ∈ ps, p.Possible
  | _ :: _, [] => False
  | _ :: _, .star :: ps => ∀ p ∈ ps, p.Possible
  | c :: cs, p :: ps => p.accepts c = true ∧ Meets cs ps

theorem anySuffix_iff {k : List Char → Bool} {cs : List Char} :
    anySuffix k cs = true ↔ ∃ u v, cs = u ++ v ∧ k v = true := by
  induction cs with
  | nil => simp [anySuffix]
  | cons c cs ih =>
    rw [anySuffix, Bool.or_eq_true, ih]
    constructor
    · rintro (h | ⟨u, v, rfl, h⟩)
      · exact ⟨[], c :: cs, rfl, h⟩
      · exact ⟨c :: u, v, rfl, h⟩
    · rintro ⟨u, v, huv, h⟩
      cases u with
      | nil => exact .inl (huv ▸ h)
      | cons d u =>
        rw [List.cons_append, List.cons.injEq] at huv
        exact .inr ⟨u, v, huv.2, h⟩

theorem accepts_cons {p : Piece} (hp : p ≠ .star) {ps : List Piece} {cs : List Char} :
    accepts (p :: ps) cs = true ↔ ∃ c rest, cs = c :: rest ∧ p.accepts c = true ∧
      accepts ps rest = true := by
  cases p with
  | star => exact absurd rfl hp
  | _ => cases cs <;> simp [accepts]

theorem star_possible : Piece.star.Possible := ⟨'a', rfl⟩

/-- Pieces that are possible one by one accept something together. -/
theorem possible_iff {ps : List Piece} :
    (∀ p ∈ ps, p.Possible) ↔ ∃ cs, accepts ps cs = true := by
  induction ps with
  | nil => exact iff_of_true (by simp) ⟨[], rfl⟩
  | cons p ps ih =>
    rw [List.forall_mem_cons, ih]
    by_cases hp : p = .star
    · subst hp
      rw [and_iff_right star_possible]
      constructor
      · rintro ⟨cs, h⟩
        exact ⟨cs, anySuffix_iff.2 ⟨[], cs, rfl, h⟩⟩
      · rintro ⟨cs, h⟩
        obtain ⟨u, v, -, h⟩ := anySuffix_iff.1 h
        exact ⟨v, h⟩
    · constructor
      · rintro ⟨⟨c, hc⟩, cs, h⟩
        exact ⟨c :: cs, (accepts_cons hp).2 ⟨c, cs, rfl, hc, h⟩⟩
      · rintro ⟨cs, h⟩
        obtain ⟨c, rest, rfl, hc, h⟩ := (accepts_cons hp).1 h
        exact ⟨⟨c, hc⟩, rest, h⟩

/-- The pieces accept a name with the prefix exactly when they meet it. -/
theorem meets_iff {pre : List Char} {ps : List Piece} :
    Meets pre ps ↔ ∃ rest, accepts ps (pre ++ rest) = true := by
  induction pre generalizing ps with
  | nil => exact possible_iff
  | cons c cs ih =>
    cases ps with
    | nil => simp [Meets, accepts]
    | cons p ps =>
      by_cases hp : p = .star
      · -- the star takes the whole prefix
        subst hp
        show (∀ p ∈ ps, p.Possible) ↔ _
        rw [possible_iff]
        constructor
        · rintro ⟨rest, h⟩
          exact ⟨rest, anySuffix_iff.2 ⟨c :: cs, rest, rfl, h⟩⟩
        · rintro ⟨rest, h⟩
          obtain ⟨u, v, -, h⟩ := anySuffix_iff.1 h
          exact ⟨v, h⟩
      · have hmeets : Meets (c :: cs) (p :: ps) ↔ p.accepts c = true ∧ Meets cs ps := by
          cases p with
          | star => exact absurd rfl hp
          | _ => exact Iff.rfl
        rw [hmeets, ih]
        simp only [List.cons_append, accepts_cons hp, List.cons.injEq]
        constructor
        · rintro ⟨hc, rest, h⟩
          exact ⟨rest, c, cs ++ rest, ⟨rfl, rfl⟩, hc, h⟩
        · rintro ⟨rest, _, _, ⟨rfl, rfl⟩, hc, h⟩
          exact ⟨hc, rest, h⟩

end Glob
