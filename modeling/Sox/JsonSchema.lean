import Sox.Json

/-!
# JSON Schema

The keywords of draft 2020-12 that the operation schemas use, in the order of the file, and which
instances a schema accepts. An annotation such as `title` or `default` is no keyword here.
-/

namespace Sox

inductive JsonType where
  | null
  | boolean
  | integer
  | number
  | string
  | array
  | object
deriving DecidableEq

/-- A number without fractional part counts as an integer. -/
def JsonType.admits : JsonType → Json → Bool
  | null, .null => true
  | boolean, .bool _ => true
  | integer, .int _ => true
  | integer, .float q => q.den == 1
  | number, .int _ => true
  | number, .float _ => true
  | string, .str _ => true
  | array, .arr _ => true
  | object, .obj _ => true
  | _, _ => false

namespace Json

/-- The value of a number. -/
def number? : Json → Option ℚ
  | .int n => some n
  | .float q => some q
  | _ => none

mutual
/-- Equality of JSON values: numbers by value, objects without regard to order. -/
def equal : Json → Json → Bool
  | .null, .null => true
  | .bool a, .bool b => a == b
  | .int a, j => j.number? == some (a : ℚ)
  | .float a, j => j.number? == some a
  | .str a, .str b => a == b
  | .arr xs, .arr ys => equalAll xs ys
  | .obj fs, .obj gs => fs.length == gs.length && equalFields gs fs
  | _, _ => false

def equalAll : List Json → List Json → Bool
  | [], [] => true
  | x :: xs, y :: ys => equal x y && equalAll xs ys
  | _, _ => false

def equalFields (gs : List (String × Json)) : List (String × Json) → Bool
  | [] => true
  | (k, x) :: fs =>
    (match gs.lookup k with
      | some y => equal x y
      | none => false) && equalFields gs fs
end

def uniq : List Json → Bool
  | [] => true
  | x :: xs => xs.all (fun y => !equal x y) && uniq xs

end Json

inductive Keyword where
  | type (types : List JsonType)
  | enum (values : List String)
  | minLength (n : Nat)
  | maxLength (n : Nat)
  /-- The regular expression and its `re.search`. -/
  | pattern (regex : String) (search : String → Bool)
  | minimum (bound : ℚ)
  | maximum (bound : ℚ)
  | minItems (n : Nat)
  | uniqueItems
  | items (schema : List Keyword)
  | required (names : List String)
  | additionalProperties (allowed : Bool)
  | properties (schemas : List (String × List Keyword))
  | not (schema : List Keyword)
  | anyOf (schemas : List (List Keyword))

abbrev Schema := List Keyword

namespace Schema

def propertyNames : Schema → List String
  | [] => []
  | .properties schemas :: _ => schemas.map Prod.fst
  | _ :: ks => propertyNames ks

mutual
/-- A keyword of a schema with the properties `names`, on the instance `j`. -/
def keywordAccepts (names : List String) (j : Json) : Keyword → Bool
  | .type types => types.any (·.admits j)
  | .enum values =>
    match j with
    | .str s => values.contains s
    | _ => false
  | .minLength n =>
    match j with
    | .str s => decide (n ≤ s.length)
    | _ => true
  | .maxLength n =>
    match j with
    | .str s => decide (s.length ≤ n)
    | _ => true
  | .pattern _ search =>
    match j with
    | .str s => search s
    | _ => true
  | .minimum bound => j.number?.all fun q => decide (bound ≤ q)
  | .maximum bound => j.number?.all fun q => decide (q ≤ bound)
  | .minItems n =>
    match j with
    | .arr xs => decide (n ≤ xs.length)
    | _ => true
  | .uniqueItems =>
    match j with
    | .arr xs => Json.uniq xs
    | _ => true
  | .items schema =>
    match j with
    | .arr xs => xs.all fun x => accepts (propertyNames schema) x schema
    | _ => true
  | .required required =>
    match j with
    | .obj fields => required.all fun name => (fields.lookup name).isSome
    | _ => true
  | .additionalProperties allowed =>
    match j with
    | .obj fields => allowed || fields.all fun f => names.contains f.1
    | _ => true
  | .properties schemas =>
    match j with
    | .obj fields => propertiesAccept fields schemas
    | _ => true
  | .not schema => !accepts (propertyNames schema) j schema
  | .anyOf schemas => anyAccepts j schemas

def accepts (names : List String) (j : Json) : List Keyword → Bool
  | [] => true
  | k :: ks => keywordAccepts names j k && accepts names j ks

def propertiesAccept (fields : List (String × Json)) : List (String × List Keyword) → Bool
  | [] => true
  | (name, schema) :: schemas =>
    (match fields.lookup name with
      | some v => accepts (propertyNames schema) v schema
      | none => true) && propertiesAccept fields schemas

def anyAccepts (j : Json) : List (List Keyword) → Bool
  | [] => false
  | schema :: schemas => accepts (propertyNames schema) j schema || anyAccepts j schemas
end

def isValid (schema : Schema) (j : Json) : Bool := accepts (propertyNames schema) j schema

section
variable {schema : Schema} {names : List String} {j : Json} {k : Keyword}

theorem accepts_iff : accepts names j schema = true ↔ ∀ k ∈ schema, keywordAccepts names j k = true := by
  induction schema with
  | nil => simp [accepts]
  | cons k ks ih => simp [accepts, ih]

/-- A closed schema refuses an object with a property that it does not know. -/
theorem not_isValid_of_extra {fields : List (String × Json)} {name : String}
    (hclosed : .additionalProperties false ∈ schema) (hname : name ∉ schema.propertyNames)
    (hfield : name ∈ fields.map Prod.fst) : isValid schema (.obj fields) = false := by
  by_contra h
  have hall := accepts_iff.1 (by simpa [isValid] using h) _ hclosed
  obtain ⟨f, hf, rfl⟩ := List.mem_map.1 hfield
  simp only [keywordAccepts, Bool.false_or, List.all_eq_true] at hall
  exact hname (List.contains_iff_mem.1 (hall f hf))

end

end Schema

end Sox
