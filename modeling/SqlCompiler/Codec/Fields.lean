import SqlCompiler.Json.Basic

/-!
# Reading Fields

The parts of JSON values, read one by one. Reading is all or nothing: `none` means that a part is
missing or has the wrong shape.

## Main definitions

- `text?`, `flag?`, `count?`, `integer?`, `listOf?`, `nullable?`: single shapes
- `Setting`: which alternatives a value stands in
- `name?`: the name of an alternative without parts
- `unrepeated`: no known field stands twice
- `field`, `fieldOr`: a field that has to be there, and one with a default
- `tagIn?`, `tag?`: the field that tells alternatives apart
-/

namespace SqlCompiler.Codec

/-! ## §1 Shapes -/

/-- A string. -/
def text? : Json → Option String
  | .string s => some s
  | _ => none

/-- A boolean. -/
def flag? : Json → Option Bool
  | .bool b => some b
  | _ => none

/-- An unsigned integer of 64 bits. -/
def count? : Json → Option UInt64
  | .integer n => if 0 ≤ n ∧ n < UInt64.size then some (UInt64.ofNat n.toNat) else none
  | _ => none

/-- A signed integer of 64 bits. -/
def integer? : Json → Option Int64
  | .integer n =>
    if Int64.minValue.toInt ≤ n ∧ n ≤ Int64.maxValue.toInt then some (Int64.ofInt n) else none
  | _ => none

/-- A list whose items have a shape. -/
def listOf? {α : Type} (item? : Json → Option α) : Json → Option (List α)
  | .array items => items.mapM item?
  | _ => none

/-- A shape or null. -/
def nullable? {α : Type} (read? : Json → Option α) : Json → Option (Option α)
  | .null => some none
  | v => (read? v).map some

/-! ## §2 Settings -/

/-- What the innermost alternatives around a value are told apart by. Alternatives are looked
through before they are read, and inside of them some parts have further forms. -/
inductive Setting where
  /-- There are no alternatives around the value. -/
  | plain
  /-- They are told apart by their shape. -/
  | byShape
  /-- They are told apart by a tag. -/
  | byTag
deriving DecidableEq, Repr

/-- Whether a tag may be given by its position among all tags. -/
def Setting.countsTags : Setting → Bool
  | .plain => false
  | .byShape | .byTag => true

/-- Whether an empty object may stand for null. -/
def Setting.takesEmpty : Setting → Bool
  | .plain | .byShape => false
  | .byTag => true

/-- The name of an alternative without parts: a string, or the only key of an object with null. -/
def name? (s : Setting) : Json → Option String
  | .string name => some name
  | .object [(name, .null)] => some name
  | .object [(name, .object [])] => if s.takesEmpty then some name else none
  | _ => none

/-! ## §3 Fields -/

/-- Fields of an object. -/
abbrev Fields := List (String × Json)

/-- Whether none of the given keys stands more than once. -/
def unrepeated (keys : List String) (fields : Fields) : Bool :=
  keys.all fun key => (fields.filter fun field => field.1 == key).length ≤ 1

/-- A field that has to be there. -/
def field {α : Type} (read? : Json → Option α) (key : String) (fields : Fields) : Option α :=
  (Json.find? key fields).bind read?

/-- A field with a default. -/
def fieldOr {α : Type} (read? : Json → Option α) (default : α) (key : String) (fields : Fields) :
    Option α :=
  match Json.find? key fields with
  | some v => read? v
  | none => some default

/-- The tag under a key that tells alternatives apart, given all tags in order. It may not stand
twice, and no part of the fields may be unreadable, known or not. -/
def tagIn? (s : Setting) (key : String) (tags : List String) (fields : Fields) :
    Option String := do
  guard (Json.fieldsReadable fields)
  guard (unrepeated [key] fields)
  match ← Json.find? key fields with
  | .string tag => return tag
  | .integer n => if s.countsTags ∧ 0 ≤ n then tags[n.toNat]? else none
  | _ => none

/-- The tag under a key, outside of other alternatives. -/
def tag? (key : String) (fields : Fields) : Option String :=
  tagIn? .plain key [] fields

end SqlCompiler.Codec
