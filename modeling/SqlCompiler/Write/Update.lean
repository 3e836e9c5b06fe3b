import SqlCompiler.Write.Insert

/-!
# Updates and Deletes

Statements that change selected rows. A dialect that cannot put joins or a limit on such a statement
selects the identifiers of the rows instead.

## Main definitions

- `Target.checkWrite`: whether a statement can carry the clauses of a query
- `documentPatches`: the JSON assignments of a row, merged into one document for each column
- `Target.assignments`, `Target.assignedValues`: the assignments of an update and what they bind
- `Target.update`, `Target.delete`: the statements
- `Target.updateBindings`, `Target.deleteBindings`: the values that they bind
-/

namespace SqlCompiler

/-! ## §1 Clauses that a statement can carry -/

/-- The first clause of a query that an update or delete cannot carry. -/
def Query.unrendered? (q : Query) (limitAllowed : Bool) : Option Restriction :=
  -- the clauses are looked at in this order, and the first one is reported
  if !q.groups.isEmpty then some .groupBy
  else if !q.havings.isEmpty then some .having
  else if !q.unions.isEmpty then some .union
  else if 0 < q.skipped then some .offset
  else if q.limit.isSome && !limitAllowed then some .limit
  else none

/-- Whether an update or delete selects its rows by their identifiers. -/
def Dialect.selectsRowIds : Dialect → Bool
  | .postgres | .sqlite => true
  | _ => false

/-- The name of the row identifier. -/
def Dialect.rowId : Dialect → String
  | .sqlite => "rowid"
  | _ => "ctid"

namespace Target

/-- Whether a statement selects the rows of a query by their identifiers. -/
def usesRowIds (t : Target) (q : Query) : Bool :=
  t.dialect.selectsRowIds && q.hasJoinsOrLimit

/-- Whether a statement on the rows of a query can carry a limit of its own. -/
def carriesLimit (t : Target) (q : Query) : Bool :=
  match t.dialect with
  | .mysql => q.joins.isEmpty
  | .sqlserver => true
  | _ => false

/-- Rejects a query with a clause that an update or delete would drop. The select of row
identifiers carries every clause but unions. -/
def checkWrite (t : Target) (q : Query) (write : RowWrite) : Except Fault Unit :=
  if t.usesRowIds q && q.unions.isEmpty then .ok ()
  else
    match q.unrendered? (t.carriesLimit q) with
    | some clause => .error (.unrenderedClause t.dialect write clause)
    | none => .ok ()

/-! ## §2 Assignments -/

end Target

/-- What stands behind the last dot of a key. -/
def unqualified (key : String) : String :=
  Text.afterLast "." key

/-- The column of a JSON assignment and its path: the qualifier ends at the first dot. -/
def patchTarget (key : String) : String × List String :=
  let path := match Text.splitFirst? "." key with | some (_, rest) => rest | none => key
  match Text.splitOn arrow path with
  | root :: steps => (root, steps)
  -- a text has at least one piece, so this is never the case
  | [] => ("", [])

/-- Stores a value under a path in the document of a column; a new column comes last. -/
def patch (root : String) (path : List String) (value : Json) :
    List (String × Json) → List (String × Json)
  | [] => [(root, Json.assign value path .null)]
  | (column, doc) :: patches =>
    if column = root then (column, Json.assign value path doc) :: patches
    else (column, doc) :: patch root path value patches

/-- The JSON assignments of a row, merged into one document for each column, in the order in which
the columns first appear. -/
def documentPatches (row : Row) : List (String × Json) :=
  (row.entries.filter fun (key, _) => isSelector key).foldl (fun patches (key, value) =>
    let (root, path) := patchTarget key
    patch root path value.toJson patches) []

namespace Target

/-- MySQL: an assignment into a document. Booleans stand in the text, and documents are cast from
their text. -/
def setDocument (t : Target) (key : String) (value : Value) : Sql :=
  let (field, path) := t.fieldAndPath key
  let assigned : Sql :=
    match value with
    | .bool b => if b then "true" else "false"
    | _ =>
      if value.isContainer then "cast(" ++ Sql.parameterFor value value.jsonText ++ " as json)"
      else .parameter value
  field ++ " = json_set(" ++ field ++ path ++ ", " ++ assigned ++ ")"

/-- PostgreSQL: an assignment into a document; the value is bound as JSON text. -/
def setJsonb (t : Target) (key : String) (value : Value) : Except Fault Sql := do
  match Text.splitOn arrow key with
  -- a text has at least one piece, so there always is a column
  | [] => return .empty
  | column :: steps =>
    let field ← t.quote column
    let path := Text.join "," (pathAttributes "\"" steps)
    return field ++ " = jsonb_set(" ++ field ++ "::jsonb, '\x7b" ++ path ++ "\x7d', " ++
      Sql.parameterFor value value.jsonText ++ ")"

/-- The value bound for an assignment to a key outside of SQLite's merged documents: documents
become JSON text where the dialect has no type for them. -/
def assignedValue (t : Target) (key : String) (value : Value) : Value :=
  match t.dialect with
  | .mysql => if value.isContainer then value.jsonText else value
  | .postgres =>
    match value with
    | .json _ => value.jsonText
    | .raw _ => value
    | _ => if isSelector key then value.jsonText else value
  | .sqlite =>
    match value with
    | .json _ => value.jsonText
    | _ => value
  | _ => value

/-- An assignment to a column of the given name. -/
def assignment (t : Target) (name key : String) (value : Value) : Except Fault Sql := do
  return (← t.quote name) ++ " = " ++ Sql.parameterFor value (t.assignedValue key value)

/-- SQLite: a document merged into a column. -/
def mergePatch (t : Target) (column : String) (doc : Json) : Except Fault Sql := do
  let column ← t.quote column
  return column ++ " = json_patch(ifnull(" ++ column ++ ", json('\x7b\x7d')), json(" ++
    Sql.parameter (.text doc.compact) ++ "))"

/-- The assignments of an update. SQLite writes merged documents after plain assignments. -/
def assignments (t : Target) (row : Row) : Except Fault Sql := do
  let parts ←
    match t.dialect with
    | .generic | .sqlserver => row.entries.mapM fun (key, value) => t.assignment key key value
    | .mysql => row.entries.mapM fun (key, value) =>
        if isSelector key then .ok (t.setDocument key value) else t.assignment key key value
    -- PostgreSQL and SQLite take no qualified names on the left of an assignment
    | .postgres => row.entries.mapM fun (key, value) =>
        if isSelector key then t.setJsonb (unqualified key) value
        else t.assignment (unqualified key) key value
    | .sqlite => do
        let plain ← (row.entries.filter fun (key, _) => !isSelector key).mapM fun (key, value) =>
          t.assignment (unqualified key) key value
        let merged ← (documentPatches row).mapM fun (column, doc) => t.mergePatch column doc
        pure (plain ++ merged)
  return .join ", " parts

/-- The values that the assignments of an update bind, raw expressions included. -/
def assignedValues (t : Target) (row : Row) : List Value :=
  match t.dialect with
  | .mysql =>
    -- a boolean inside of a document stands in the text, so nothing is bound for it
    let placed := row.entries.filter fun (key, value) =>
      !(isSelector key && (match value with | .bool _ => true | _ => false))
    placed.map fun (key, value) => t.assignedValue key value
  | .sqlite =>
    ((row.entries.filter fun (key, _) => !isSelector key).map fun (key, value) =>
      t.assignedValue key value) ++
      (documentPatches row).map fun (_, doc) => .text doc.compact
  | _ => row.entries.map fun (key, value) => t.assignedValue key value

/-! ## §3 Layout -/

/-- The name that a table goes by in the rest of a statement. -/
def tableAlias : Table → String
  | .named name => (splitAlias? name).elim name Prod.snd
  | .derived _ asName => asName
  | .raw sql _ => (splitAlias? sql).elim sql Prod.snd

/-- The query for the identifiers of the rows that a statement changes. -/
def rowIdQuery (t : Target) (q : Query) (tbl : Table) : Query :=
  { q with columns := some [.named (tableAlias tbl ++ "." ++ t.dialect.rowId)], aggregate := none }

/-- The condition that a row is among those of a query, by its identifier. -/
def rowIdCondition (t : Target) (q : Query) : Except Fault Sql := do
  match q.source with
  | none => throw .missingTable
  | some tbl =>
    let rowId ← t.quote t.dialect.rowId
    return rowId ++ " in (" ++ (← t.select (t.rowIdQuery q tbl)) ++ ")"

/-- SQL Server: the limit of an update or delete. -/
def writeTop (t : Target) (q : Query) : String :=
  match t.dialect, q.limit with
  | .sqlserver, some limit => "top (" ++ toString limit.toNat ++ ") "
  | _, _ => ""

/-- MySQL: order and limit of a statement on a single table. -/
def writeOrder (t : Target) (q : Query) : Except Fault (List Sql) := do
  match t.dialect with
  | .mysql =>
    let orders ← t.ordersClause q.orders
    return [orders, match q.limit with | some limit => t.limitClause limit none | none => ""]
  | _ => return []

/-- The name of a joined target in its own statement: what follows the last alias of its SQL. -/
def joinedTarget (tbl : Sql) : String :=
  Text.afterLast " as " tbl.text

/-- An update of the rows of a query. -/
def update (t : Target) (q : Query) (row : Row) : Except Fault Sql := do
  if row.isEmpty then throw .emptyUpdate
  t.checkWrite q .update
  let tbl ← t.writeTable q
  let assignments ← t.assignments row
  -- the select of row identifiers compiles the conditions once more; a fault of theirs comes here
  let wheres ← t.wheresClause q.wheres
  let sql ←
    if t.usesRowIds q then do
      let rows ← t.rowIdCondition q
      pure ("update " ++ tbl ++ " set " ++ assignments ++ " where " ++ rows)
    else if q.joins.isEmpty then do
      let tail ← t.writeOrder q
      let body := "update " ++ t.writeTop q ++ tbl ++ " set " ++ assignments
      pure (.words (.words [body, wheres] :: tail))
    else do
      let joins ← t.joins q.joins
      match t.dialect with
      | .sqlserver =>
        pure (.words ["update " ++ t.writeTop q ++ joinedTarget tbl ++ " set " ++ assignments ++
          " from " ++ tbl ++ " " ++ joins, wheres])
      | _ => pure (.words ["update " ++ tbl ++ " " ++ joins ++ " set " ++ assignments, wheres])
  return sql.trimEnd

/-- A delete of the rows of a query. -/
def delete (t : Target) (q : Query) : Except Fault Sql := do
  t.checkWrite q .delete
  let tbl ← t.writeTable q
  let wheres ← t.wheresClause q.wheres
  let sql ←
    if t.usesRowIds q then do
      let rows ← t.rowIdCondition q
      pure ("delete from " ++ tbl ++ " where " ++ rows)
    else if q.joins.isEmpty then do
      let tail ← t.writeOrder q
      pure (.words (.words ["delete " ++ t.writeTop q ++ "from " ++ tbl, wheres] :: tail))
    else do
      let joins ← t.joins q.joins
      let body := "delete " ++ t.writeTop q ++ joinedTarget tbl ++ " from " ++ tbl ++ " " ++ joins
      pure (.words [body, wheres])
  return sql.trimEnd

/-! ## §4 Bindings -/

/-- The buckets written after the assignments of an update, or after the table of a delete, where
rows may be selected by their identifiers. -/
def rowIdBuckets (q : Query) : List Bucket :=
  if q.hasJoinsOrLimit then Bucket.afterSelectList else [.wheres]

/-- The values that an update binds, given those of its query. -/
def updateBindings (t : Target) (q : Query) (b : Buckets) (row : Row) : List Value :=
  let values := t.assignedValues row
  match t.dialect with
  | .generic => b.around [.source, .join] values [.wheres]
  | .mysql =>
    b.around [.source, .join] values (if q.joins.isEmpty then [.wheres, .order] else [.wheres])
  | .postgres | .sqlite => b.around [.source] values (rowIdBuckets q)
  | .sqlserver =>
    -- joined tables stand behind the assignments, and the target among them
    if q.joins.isEmpty then b.around [.source] values [.wheres]
    else b.around [] values [.source, .join, .wheres]

/-- The values that a delete binds, given those of its query. -/
def deleteBindings (t : Target) (q : Query) (b : Buckets) : List Value :=
  match t.dialect with
  | .generic | .sqlserver => b.flattenOnly [.source, .join, .wheres]
  | .mysql =>
    if q.joins.isEmpty then b.flattenOnly [.source, .wheres, .order]
    else b.flattenOnly [.source, .join, .wheres]
  | .postgres | .sqlite => b.flattenOnly (.source :: rowIdBuckets q)

end Target

end SqlCompiler
