import Mathlib.Algebra.Order.Ring.Rat
import Mathlib.Data.List.Sort
import Mathlib.Tactic.Linarith
import Sox.Lib.Dict

/-!
# JSON values and Python's views of them

Bodies, operation inputs and signed payloads are JSON values. A JSON float is its value; how Python
prints a float is the runtime parameter `floatRepr`. `pyStr` is `str(value)`; `dumps` is
`json.dumps(value, sort_keys=True, separators=(",", ":"), ensure_ascii=False)`.
-/

namespace Sox

inductive Json where
  | null
  | bool (b : Bool)
  | int (n : Int)
  | float (q : ℚ)
  | str (s : String)
  | arr (xs : List Json)
  | obj (fields : List (String × Json))

instance : Inhabited Json := ⟨.null⟩

/-- A Python `dict[str, object]`. -/
abbrev JsonDict := Dict String Json

namespace Json

def hexDigit (n : Nat) : Char :=
  if n < 10 then Char.ofNat (48 + n) else Char.ofNat (87 + n)

def hex2 (n : Nat) : String := String.ofList [hexDigit (n / 16), hexDigit (n % 16)]

def escapeChar (c : Char) : String :=
  if c = '"' then "\\\""
  else if c = '\\' then "\\\\"
  else if c = '\n' then "\\n"
  else if c = '\r' then "\\r"
  else if c = '\t' then "\\t"
  else if c = Char.ofNat 8 then "\\b"
  else if c = Char.ofNat 12 then "\\f"
  else if c.toNat < 32 then "\\u00" ++ hex2 c.toNat
  else String.singleton c

def quote (s : String) : String := "\"" ++ String.join (s.toList.map escapeChar) ++ "\""

/-- One character of `repr` of a string in quotes `q`; characters beyond Latin-1 count as
printable. -/
def reprChar (q c : Char) : String :=
  if c = '\\' then "\\\\"
  else if c = q then String.ofList ['\\', q]
  else if c = '\n' then "\\n"
  else if c = '\r' then "\\r"
  else if c = '\t' then "\\t"
  else if c.toNat < 32 ∨ (127 ≤ c.toNat ∧ c.toNat ≤ 160) ∨ c.toNat = 173 then "\\x" ++ hex2 c.toNat
  else String.singleton c

def reprStr (s : String) : String :=
  let q := if s.toList.contains '\'' && !s.toList.contains '"' then '"' else '\''
  String.singleton q ++ String.join (s.toList.map (reprChar q)) ++ String.singleton q

section Printing
variable (floatRepr : ℚ → String)

mutual
def dumps : Json → String
  | .null => "null"
  | .bool b => if b then "true" else "false"
  | .int n => toString n
  | .float q => floatRepr q
  | .str s => quote s
  | .arr xs => "[" ++ ",".intercalate (dumpsList xs) ++ "]"
  | .obj fs =>
    let sorted := (dumpsFields fs).insertionSort fun a b => a.1 ≤ b.1
    "\x7b" ++ ",".intercalate (sorted.map fun f => quote f.1 ++ ":" ++ f.2) ++ "\x7d"

def dumpsList : List Json → List String
  | [] => []
  | x :: xs => dumps x :: dumpsList xs

def dumpsFields : List (String × Json) → List (String × String)
  | [] => []
  | (k, x) :: fs => (k, dumps x) :: dumpsFields fs
end

mutual
def pyRepr : Json → String
  | .null => "None"
  | .bool b => if b then "True" else "False"
  | .int n => toString n
  | .float q => floatRepr q
  | .str s => reprStr s
  | .arr xs => "[" ++ ", ".intercalate (pyReprList xs) ++ "]"
  | .obj fs => "\x7b" ++ ", ".intercalate (pyReprFields fs) ++ "\x7d"

def pyReprList : List Json → List String
  | [] => []
  | x :: xs => pyRepr x :: pyReprList xs

def pyReprFields : List (String × Json) → List String
  | [] => []
  | (k, x) :: fs => (reprStr k ++ ": " ++ pyRepr x) :: pyReprFields fs
end

/-- `str(value)`: a string is itself, every other value prints as its `repr`. -/
def pyStr : Json → String
  | .str s => s
  | j => pyRepr floatRepr j

@[simp] theorem pyStr_str (s : String) : pyStr floatRepr (.str s) = s := rfl

end Printing

/-- `bool(value)`. -/
def truthy : Json → Bool
  | .null => false
  | .bool b => b
  | .int n => n ≠ 0
  | .float q => q ≠ 0
  | .str s => !s.isEmpty
  | .arr xs => !xs.isEmpty
  | .obj fields => !fields.isEmpty

/-- Truncation towards zero, Python's `int` of a float. -/
def truncate (q : ℚ) : Int := q.num.tdiv q.den

end Json

end Sox
