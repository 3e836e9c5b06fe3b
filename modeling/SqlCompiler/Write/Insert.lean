import SqlCompiler.Bindings.Collect
import SqlCompiler.Statement

/-!
# Inserts

Inserts of given rows, of rows that may be skipped, of rows whose key is reported, and of the rows
of a query; and upserts, which update the rows that already exist.

## Main definitions

- `Target.writeTable`: the table that a statement writes to
- `Target.insert`, `Target.insertOrIgnore`, `Target.insertGetId`: inserts of rows
- `Target.insertUsing`: an insert of the rows of a query
- `Target.upsert`: an insert that updates existing rows
- `Target.insertBindings`, `Target.upsertBindings`: the values that they bind
-/

namespace SqlCompiler

namespace Target

/-! ## §1 Tables and rows -/

/-- The table that a statement writes to. -/
def writeTable (t : Target) (q : Query) : Except Fault Sql :=
  match q.source with
  | some tbl => t.table tbl
  | none => .error .missingTable

/-- The names of columns, separated by commas. -/
def nameList (t : Target) (columns : List String) : Except Fault String := do
  return Text.join ", " (← columns.mapM t.quote)

/-- The values of rows in parentheses, in the order of the given columns. -/
def rowTuples (rows : Rows) (columns : List String) : Sql :=
  .join ", " (rows.toList.map fun row => "(" ++ Sql.parameters (row.valuesIn columns) ++ ")")

/-- An insert of rows into a table, after the given verb. -/
def insertRows (t : Target) (verb : String) (tbl : Sql) (rows : Rows) : Except Fault Sql := do
  let columns ← rows.columns?
  let names ← t.nameList columns
  return verb ++ " into " ++ tbl ++ " (" ++ names ++ ") values " ++ rowTuples rows columns

/-- An insert after the given verb; rows without columns take default values. -/
def insertAs (t : Target) (verb : String) (q : Query) (rows : Rows) : Except Fault Sql := do
  let tbl ← t.writeTable q
  -- a missing table is a fault also where there are no columns
  if rows.isEmpty then
    match t.dialect with
    | .mysql => return verb ++ " into " ++ tbl ++ " () values ()"
    | _ => return verb ++ " into " ++ tbl ++ " default values"
  t.insertRows verb tbl rows

/-! ## §2 Inserts -/

/-- An insert of rows. -/
def insert (t : Target) (q : Query) (rows : Rows) : Except Fault Sql :=
  t.insertAs "insert" q rows

/-- An insert that skips rows which violate a unique constraint. -/
def insertOrIgnore (t : Target) (q : Query) (rows : Rows) : Except Fault Sql :=
  match t.dialect with
  | .mysql => t.insertAs "insert ignore" q rows
  | .sqlite => t.insertAs "insert or ignore" q rows
  | .postgres => do return (← t.insert q rows) ++ " on conflict do nothing"
  | .generic | .sqlserver => t.lacks .insertOrIgnore

/-- An insert that reports the generated key. Only PostgreSQL asks for it in the statement. -/
def insertGetId (t : Target) (q : Query) (rows : Rows) (key : Option String) :
    Except Fault Sql := do
  match t.dialect with
  | .postgres =>
    let insert ← t.insert q rows
    return insert ++ " returning " ++ (← t.quote (key.getD "id"))
  | _ => t.insert q rows

/-- An insert of the rows of a query. -/
def insertUsing (t : Target) (q : Query) (columns : List Column) (rows : Query) :
    Except Fault Sql := do
  let tbl ← t.writeTable q
  let select ← t.select rows
  if columns.isEmpty then return "insert into " ++ tbl ++ " " ++ select
  return "insert into " ++ tbl ++ " (" ++ (← t.columnList columns) ++ ") " ++ select

/-- The values that an insert binds: row after row, in the order of the columns. -/
def insertBindings (rows : Rows) : Except Fault (List Value) := do
  return bound (rows.valuesIn (← rows.columns?))

/-! ## §3 Upserts -/

/-- The name of the incoming row in a MySQL upsert. -/
def incomingAlias : String := "upsert_alias"

/-- The name of the incoming rows in a SQL Server merge. -/
def mergeSource : String := "upsert_source"

/-- What an upsert assigns to a column, given the incoming value of a column. -/
def upsertAssignment (t : Target) (incoming : String → Except Fault String) :
    UpsertColumn → Except Fault Sql
  | .incoming c => do return ((← t.quote c) ++ " = " ++ (← incoming c) : String)
  | .value c v => do return (← t.quote c) ++ " = " ++ Sql.parameter v

/-- The assignments of an upsert. -/
def upsertAssignments (t : Target) (incoming : String → Except Fault String)
    (update : List UpsertColumn) : Except Fault Sql := do
  return .join ", " (← update.mapM (t.upsertAssignment incoming))

/-- The incoming value of a column in MySQL. -/
def duplicateValue (t : Target) (c : String) : Except Fault String := do
  let name ← t.quote c
  if t.options.upsertAlias then return (← t.quote incomingAlias) ++ "." ++ name
  return "values(" ++ name ++ ")"

/-- MySQL: an insert with assignments for duplicate keys. -/
def duplicateKeyUpsert (t : Target) (q : Query) (rows : Rows) (update : List UpsertColumn) :
    Except Fault Sql := do
  let insert ← t.insert q rows
  let asName ←
    if t.options.upsertAlias then do pure (" as " ++ (← t.quote incomingAlias)) else pure ""
  let assignments ← t.upsertAssignments t.duplicateValue update
  return insert ++ asName ++ " on duplicate key update " ++ assignments

/-- PostgreSQL and SQLite: an insert with assignments for conflicting keys. -/
def conflictUpsert (t : Target) (q : Query) (rows : Rows) (uniqueBy : List String)
    (update : List UpsertColumn) : Except Fault Sql := do
  if uniqueBy.isEmpty then throw .upsertWithoutKey
  let keys ← t.nameList uniqueBy
  -- a column of the incoming row is no selector, whatever its name
  let excluded c := .ok (t.quoteIdentifier "excluded" ++ "." ++ t.quoteIdentifier c)
  let assignments ← t.upsertAssignments excluded update
  let insert ← t.insert q rows
  return insert ++ " on conflict (" ++ keys ++ ") do update set " ++ assignments

/-- SQL Server: a merge of rows into a table. -/
def mergeUpsert (t : Target) (q : Query) (rows : Rows) (uniqueBy : List String)
    (update : List UpsertColumn) : Except Fault Sql := do
  match q.source with
  | some (.named name) =>
    if uniqueBy.isEmpty then throw .upsertWithoutKey
    -- the merge goes into the table itself, so an alias of it is left away
    let target := match splitAlias? name with | some (tbl, _) => tbl | none => name
    let columns ← rows.columns?
    let names ← t.nameList columns
    let keys ← uniqueBy.mapM fun c => do
      return (← t.quote (mergeSource ++ "." ++ c)) ++ " = " ++ (← t.quote (target ++ "." ++ c))
    let incoming c := t.quote (mergeSource ++ "." ++ c)
    let assignments ← t.upsertAssignments incoming update
    return "merge " ++ t.quoteTable target ++ " using (values " ++ rowTuples rows columns ++ ") " ++
      t.quoteTable mergeSource ++ " (" ++ names ++ ") on " ++ Text.join " and " keys ++
      " when matched then update set " ++ assignments ++ " when not matched then insert (" ++
      names ++ ") values (" ++ names ++ ");"
  | _ => throw .mergeTarget

/-- An insert that updates rows which already exist. -/
def upsert (t : Target) (q : Query) (rows : Rows) (uniqueBy : List String)
    (update : List UpsertColumn) : Except Fault Sql :=
  match t.dialect with
  | .generic => t.lacks .upsert
  | .mysql => t.duplicateKeyUpsert q rows update
  | .postgres | .sqlite => t.conflictUpsert q rows uniqueBy update
  | .sqlserver => t.mergeUpsert q rows uniqueBy update

/-- The values that an upsert binds: those of the rows, then those of the assignments. -/
def upsertBindings (rows : Rows) (update : List UpsertColumn) : Except Fault (List Value) := do
  return (← insertBindings rows) ++ bound (update.filterMap UpsertColumn.value?)

end Target

end SqlCompiler
