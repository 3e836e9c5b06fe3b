import SqlCompiler.Codec.Fields
import SqlCompiler.Query.Basic

/-!
# Values and Columns in JSON

The JSON forms of values and of the parts of a query that do not nest.

A value is read by its shape. Raw SQL is an object with the one field `raw`, or a list of exactly
one string; every other list or object is a document.

## Main definitions

- `Value.encode`, `Value.decode?`
- `Column.encode`, `Column.decode?`, and so on for the other parts
- `Lock.decodeIn?`, and so on: reading in a setting, where that matters
-/

namespace SqlCompiler

open Codec

/-! ## §1 Values -/

namespace Value

/-- The JSON form of a value. -/
def encode : Value → Json
  | .null => .null
  | .bool b => .bool b
  | .int n => .integer n.toInt
  | .float x => .double x
  | .text s => .string s
  | .raw sql => .object [("raw", .string sql)]
  | .json doc => doc

/-- The SQL of a JSON form that marks a raw expression. -/
def rawMarker? : Json → Option String
  | .object [(key, .string sql)] => if key = "raw" then some sql else none
  | .array [.string sql] => some sql
  | _ => none

/-- The value of a JSON form. An integer beyond 64 signed bits is a double. -/
def decode? (v : Json) : Option Value :=
  match v with
  | .null => some .null
  | .bool b => some (.bool b)
  | .integer n =>
    match integer? v with
    | some n => some (.int n)
    | none => some (.float (Binary64.ofInt n))
  | .double x => some (.float x)
  | .string s => some (.text s)
  | .array _ | .object _ | .unreadable =>
    -- a container is read as a whole before its shape is looked at
    if v.isReadable then
      match rawMarker? v with
      | some sql => some (.raw sql)
      | none => some (.json v.canonical)
    else none

end Value

/-- The JSON form of a list of values. -/
def encodeValues (values : List Value) : Json :=
  .array (values.map Value.encode)

/-- The list of values of a JSON form. -/
def decodeValues? : Json → Option (List Value) :=
  listOf? Value.decode?

/-! ## §2 Raw SQL and columns -/

/-- The fields of raw SQL with its bindings. -/
def encodeSql (sql : String) (bindings : List Value) : Fields :=
  [("sql", .string sql), ("bindings", encodeValues bindings)]

/-- Raw SQL with its bindings, which may be missing. -/
def decodeSql? (fields : Fields) : Option (String × List Value) := do
  guard (unrepeated ["sql", "bindings"] fields)
  return (← field text? "sql" fields, ← fieldOr decodeValues? [] "bindings" fields)

namespace Column

/-- The JSON form of a column. -/
def encode : Column → Json
  | .named name => .string name
  | .raw sql bindings => .object (encodeSql sql bindings)

/-- The column of a JSON form. -/
def decode? : Json → Option Column
  | .string name => some (.named name)
  | .object fields =>
    if Json.fieldsReadable fields then
      (decodeSql? fields).map fun (sql, bindings) => .raw sql bindings
    else none
  | _ => none

end Column

/-- The JSON form of columns. -/
def encodeColumns (columns : List Column) : Json :=
  .array (columns.map Column.encode)

/-- The columns of a JSON form. -/
def decodeColumns? : Json → Option (List Column) :=
  listOf? Column.decode?

/-! ## §3 Distinct, aggregate and order -/

namespace Distinct

/-- The JSON form. -/
def encode : Distinct → Json
  | .off => .string "off"
  | .all => .string "all"
  | .on columns => .object [("on", encodeColumns columns)]

/-- The value of a JSON form in a setting. -/
def decodeIn? (s : Setting) : Json → Option Distinct
  | .object [("on", columns)] => (decodeColumns? columns).map .on
  | v =>
    match name? s v with
    | some "off" => some .off
    | some "all" => some .all
    | _ => none

/-- The value of a JSON form. -/
def decode? : Json → Option Distinct :=
  decodeIn? .plain

end Distinct

namespace Aggregate

/-- The JSON form. -/
def encode (a : Aggregate) : Json :=
  .object [("function", .string a.function), ("columns", encodeColumns a.columns)]

/-- The value of a JSON form. -/
def decode? : Json → Option Aggregate
  | .object fields => do
    guard (unrepeated ["function", "columns"] fields)
    return ⟨← field text? "function" fields, ← field decodeColumns? "columns" fields⟩
  | _ => none

end Aggregate

namespace Direction

/-- The JSON form. -/
def encode (d : Direction) : Json :=
  .string d.keyword

/-- The value of a JSON form in a setting. -/
def decodeIn? (s : Setting) (v : Json) : Option Direction :=
  match name? s v with
  | some "asc" => some .asc
  | some "desc" => some .desc
  | _ => none

end Direction

namespace SortKey

/-- The JSON form. -/
def encode : SortKey → Json
  | .column c direction =>
    .object [("type", .string "column"), ("column", c.encode), ("direction", direction.encode)]
  | .raw sql bindings => .object (("type", .string "raw") :: encodeSql sql bindings)
  | .random seed =>
    .object [("type", .string "random"), ("seed", seed.elim .null .string)]

/-- The tags of sort keys, in order. -/
def tags : List String :=
  ["column", "raw", "random"]

/-- The value of a JSON form in a setting. -/
def decodeIn? (s : Setting) : Json → Option SortKey
  | .object fields => do
    match ← tagIn? s "type" tags fields with
    | "column" =>
      guard (unrepeated ["column", "direction"] fields)
      return .column (← field Column.decode? "column" fields)
        (← fieldOr (Direction.decodeIn? .byTag) .asc "direction" fields)
    | "raw" => (decodeSql? fields).map fun (sql, bindings) => .raw sql bindings
    | "random" =>
      guard (unrepeated ["seed"] fields)
      return .random (← fieldOr (nullable? text?) none "seed" fields)
    | _ => none
  | _ => none

/-- The value of a JSON form. -/
def decode? : Json → Option SortKey :=
  decodeIn? .plain

end SortKey

namespace Lock

/-- The JSON form. -/
def encode : Lock → Json
  | .shared => .string "shared"
  | .exclusive => .string "exclusive"
  | .raw sql => .object [("raw", .string sql)]

/-- The value of a JSON form in a setting. -/
def decodeIn? (s : Setting) : Json → Option Lock
  | .object [("raw", .string sql)] => some (.raw sql)
  | v =>
    match name? s v with
    | some "shared" => some .shared
    | some "exclusive" => some .exclusive
    | _ => none

/-- The value of a JSON form. -/
def decode? : Json → Option Lock :=
  decodeIn? .plain

end Lock

/-! ## §4 Clauses -/

namespace Connective

/-- The connective of its words. -/
def ofWords? : String → Option Connective
  | "and" => some .and
  | "or" => some .or
  | "and not" => some .andNot
  | "or not" => some .orNot
  | _ => none

/-- The JSON form. -/
def encode (c : Connective) : Json :=
  .string c.words

/-- The value of a JSON form in a setting. -/
def decodeIn? (s : Setting) (v : Json) : Option Connective :=
  (name? s v).bind ofWords?

end Connective

/-- The JSON form of a clause, given that of its condition. -/
def encodeClause (connective : Connective) (node : Json) : Json :=
  .object [("boolean", connective.encode), ("node", node)]

/-- The connective of a clause; `and` if there is none. -/
def decodeConnective? (s : Setting) (fields : Fields) : Option Connective := do
  guard (unrepeated ["boolean", "node"] fields)
  fieldOr (Connective.decodeIn? s) .and "boolean" fields

namespace DatePart

/-- The JSON form. -/
def encode (p : DatePart) : Json :=
  .string p.name

/-- The part of a date-time of its name. -/
def ofName? : String → Option DatePart
  | "date" => some .date
  | "time" => some .time
  | "day" => some .day
  | "month" => some .month
  | "year" => some .year
  | _ => none

/-- The value of a JSON form in a setting. -/
def decodeIn? (s : Setting) (v : Json) : Option DatePart :=
  (name? s v).bind ofName?

/-- The value of a JSON form. -/
def decode? : Json → Option DatePart :=
  decodeIn? .plain

end DatePart

namespace JoinKind

/-- The JSON form. -/
def encode (k : JoinKind) : Json :=
  .string k.keyword

/-- The join of its keyword. -/
def ofKeyword? : String → Option JoinKind
  | "inner" => some .inner
  | "left" => some .left
  | "right" => some .right
  | "cross" => some .cross
  | _ => none

/-- The value of a JSON form in a setting. -/
def decodeIn? (s : Setting) (v : Json) : Option JoinKind :=
  (name? s v).bind ofKeyword?

end JoinKind

namespace FullTextOptions

/-- The JSON form. -/
def encode (o : FullTextOptions) : Json :=
  .object [("mode", o.mode.elim .null .string), ("expanded", .bool o.expanded),
    ("language", o.language.elim .null .string)]

/-- The value of a JSON form. -/
def decode? : Json → Option FullTextOptions
  | .object fields => do
    guard (unrepeated ["mode", "expanded", "language"] fields)
    return {
      mode := ← fieldOr (nullable? text?) none "mode" fields
      expanded := ← fieldOr flag? false "expanded" fields
      language := ← fieldOr (nullable? text?) none "language" fields }
  | _ => none

end FullTextOptions

end SqlCompiler
