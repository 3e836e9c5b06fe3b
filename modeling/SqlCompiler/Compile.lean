import SqlCompiler.Write.Update

/-!
# Compilation

Statements of every kind, with their bindings.

## Main definitions

- `Target.truncate`: the statements that empty a table
- `Target.compile`: the statements of a query
-/

namespace SqlCompiler.Target

/-- SQL together with the values that it binds. -/
def pair (sql : Sql) (bindings : List Value) : Compiled :=
  ⟨sql.text, bindings⟩

/-- The statements that empty a table. SQLite also resets its counter. -/
def truncate (t : Target) (q : Query) : Except Fault (List Compiled) := do
  match t.dialect with
  | .postgres =>
    let cascade := if t.options.cascadeTruncate then " cascade" else ""
    return [pair ("truncate " ++ (← t.writeTable q) ++ " restart identity" ++ cascade) []]
  | .sqlite =>
    match q.source with
    | none => throw .missingTable
    | some (.named name) =>
      -- the counter is kept under the name of the table itself
      let tbl := (splitAlias? name).elim name Prod.fst
      return [
        pair "delete from sqlite_sequence where name = ?" [.text (t.options.tablePrefix ++ tbl)],
        pair ("delete from " ++ t.quoteTable tbl) []]
    | some _ => throw .truncateTarget
  | _ => return [pair ("truncate table " ++ (← t.writeTable q)) []]

/-- An insert with its bindings. -/
def compileInsert (t : Target) (q : Query) (rows : Rows) : Except Fault Compiled := do
  let sql ← t.insert q rows
  return pair sql (← insertBindings rows)

/-- The statements of a query. -/
def compile (t : Target) (q : Query) : Statement → Except Fault (List Compiled)
  | .select => do
    let sql ← t.select q
    return [pair sql (t.selectBindings q)]
  | .hasRows => do
    let sql ← t.hasRows q
    return [pair sql (t.hasRowsBindings q)]
  | .insert rows => do return [← t.compileInsert q rows]
  | .insertOrIgnore rows => do
    let sql ← t.insertOrIgnore q rows
    return [pair sql (← insertBindings rows)]
  | .insertGetId rows key => do
    let sql ← t.insertGetId q rows key
    return [pair sql (← insertBindings rows)]
  | .insertUsing columns rows => do
    let sql ← t.insertUsing q columns rows
    return [pair sql (t.selectBindings rows)]
  | .upsert rows uniqueBy update => do
    -- with nothing to update this is a plain insert
    if update.isEmpty then return [← t.compileInsert q rows]
    let sql ← t.upsert q rows uniqueBy update
    return [pair sql (← upsertBindings rows update)]
  | .update row => do
    let sql ← t.update q row
    return [pair sql (t.updateBindings q (t.buckets q) row)]
  | .delete => do
    let sql ← t.delete q
    return [pair sql (t.deleteBindings q (t.buckets q))]
  | .truncate => t.truncate q

end SqlCompiler.Target
