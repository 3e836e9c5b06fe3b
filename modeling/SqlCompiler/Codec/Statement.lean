import SqlCompiler.Codec.Query
import SqlCompiler.Statement

/-!
# Statements in JSON

The JSON forms of rows, statements, compiled SQL and options.

## Main definitions

- `Row.decode?`, `Rows.decode?`, `UpsertColumn.decode?`: what statements write
- `Statement.encode`, `Statement.decode?`: statements, told apart by their field `kind`
- `Compiled.encode`, `Compiled.decode?`: SQL with its bindings
- `Options.encode`, `Options.decode?`: the options of a compilation
-/

namespace SqlCompiler

open Codec

/-! ## §1 Rows -/

/-- A list of a string and a value. -/
def decodeAssigned? : Json → Option (String × Value)
  | .array [.string column, v] => (Value.decode? v).map fun value => (column, value)
  | _ => none

/-- The JSON form of a column with its value. -/
def encodeAssigned (entry : String × Value) : Json :=
  .array [.string entry.1, entry.2.encode]

namespace Row

/-- The JSON form. -/
def encode (row : Row) : Json :=
  .array (row.entries.map encodeAssigned)

/-- The value of a JSON form; repeated columns stay as they are. -/
def decode? (v : Json) : Option Row :=
  (listOf? decodeAssigned? v).map Row.mk

end Row

namespace Rows

/-- The JSON form. -/
def encode : Rows → Json
  | .single row => row.encode
  | .batch rows => .array (rows.map Row.encode)

/-- The value of a JSON form: one row if it reads as one, a batch otherwise. -/
def decode? (v : Json) : Option Rows :=
  if v.isReadable then
    -- an empty list reads as a row without columns, not as an empty batch
    match Row.decode? v with
    | some row => some (.single row)
    | none => (listOf? Row.decode? v).map .batch
  else none

end Rows

namespace UpsertColumn

/-- The JSON form. -/
def encode : UpsertColumn → Json
  | .incoming column => .string column
  | .value column v => encodeAssigned (column, v)

/-- The value of a JSON form. -/
def decode? (v : Json) : Option UpsertColumn :=
  match v with
  | .string column => some (.incoming column)
  | _ => (decodeAssigned? v).map fun (column, v) => .value column v

end UpsertColumn

/-! ## §2 Statements -/

namespace Statement

/-- The JSON form. -/
def encode : Statement → Json
  | .select => .object [("kind", .string "select")]
  | .hasRows => .object [("kind", .string "exists")]
  | .insert rows => .object [("kind", .string "insert"), ("values", rows.encode)]
  | .insertOrIgnore rows =>
    .object [("kind", .string "insert_or_ignore"), ("values", rows.encode)]
  | .insertGetId rows key =>
    .object [("kind", .string "insert_get_id"), ("values", rows.encode),
      ("sequence", key.elim .null .string)]
  | .insertUsing columns query =>
    .object [("kind", .string "insert_using"), ("columns", encodeColumns columns),
      ("query", query.encode)]
  | .upsert rows uniqueBy columns =>
    .object [("kind", .string "upsert"), ("values", rows.encode),
      ("unique_by", .array (uniqueBy.map .string)),
      ("update", .array (columns.map UpsertColumn.encode))]
  | .update row => .object [("kind", .string "update"), ("values", row.encode)]
  | .delete => .object [("kind", .string "delete")]
  | .truncate => .object [("kind", .string "truncate")]

/-- The value of a JSON form. -/
def decode? : Json → Option Statement
  | .object fields => do
    let rows := field Rows.decode? "values" fields
    match ← tag? "kind" fields with
    | "select" => return .select
    | "exists" => return .hasRows
    | "insert" =>
      guard (unrepeated ["values"] fields)
      return .insert (← rows)
    | "insert_or_ignore" =>
      guard (unrepeated ["values"] fields)
      return .insertOrIgnore (← rows)
    | "insert_get_id" =>
      guard (unrepeated ["values", "sequence"] fields)
      return .insertGetId (← rows) (← fieldOr (nullable? text?) none "sequence" fields)
    | "insert_using" =>
      guard (unrepeated ["columns", "query"] fields)
      return .insertUsing (← fieldOr decodeColumns? [] "columns" fields)
        (← field (Query.decodeIn? .byTag) "query" fields)
    | "upsert" =>
      guard (unrepeated ["values", "unique_by", "update"] fields)
      return .upsert (← rows) (← fieldOr (listOf? text?) [] "unique_by" fields)
        (← fieldOr (listOf? UpsertColumn.decode?) [] "update" fields)
    | "update" =>
      guard (unrepeated ["values"] fields)
      return .update (← field Row.decode? "values" fields)
    | "delete" => return .delete
    | "truncate" => return .truncate
    | _ => none
  | _ => none

end Statement

/-! ## §3 Results and options -/

namespace Compiled

/-- The JSON form. -/
def encode (c : Compiled) : Json :=
  .object [("sql", .string c.sql), ("bindings", encodeValues c.bindings)]

/-- The value of a JSON form. -/
def decode? : Json → Option Compiled
  | .object fields => do
    guard (unrepeated ["sql", "bindings"] fields)
    return ⟨← field text? "sql" fields, ← field decodeValues? "bindings" fields⟩
  | _ => none

end Compiled

namespace Options

/-- The JSON form. -/
def encode (o : Options) : Json :=
  .object [("table_prefix", .string o.tablePrefix), ("cascade_truncate", .bool o.cascadeTruncate),
    ("use_upsert_alias", .bool o.upsertAlias), ("legacy_pagination", .bool o.legacyPagination)]

/-- The value of a JSON form. -/
def decode? : Json → Option Options
  | .object fields => do
    guard (unrepeated
      ["table_prefix", "cascade_truncate", "use_upsert_alias", "legacy_pagination"] fields)
    return {
      tablePrefix := ← fieldOr text? "" "table_prefix" fields
      cascadeTruncate := ← fieldOr flag? false "cascade_truncate" fields
      upsertAlias := ← fieldOr flag? false "use_upsert_alias" fields
      legacyPagination := ← fieldOr flag? false "legacy_pagination" fields }
  | _ => none

end Options

end SqlCompiler
