import SqlCompiler.Query.Basic
import SqlCompiler.Row

/-!
# Statements

What is compiled from a query, and what comes out.

## Main definitions

- `Statement`: the kinds of statements with what they need besides a query
- `Compiled`: SQL with the values of its placeholders
-/

namespace SqlCompiler

/-- A kind of statement, with what it needs besides the query that names its table. -/
inductive Statement where
  | select
  /-- Whether the query has any row. -/
  | hasRows
  | insert (rows : Rows)
  /-- An insert that skips rows which violate a unique constraint. -/
  | insertOrIgnore (rows : Rows)
  /-- An insert that reports the generated key, in the column `id` unless another one is named. -/
  | insertGetId (rows : Rows) (key : Option String)
  /-- An insert of the rows of a query, into all columns if none are named. -/
  | insertUsing (columns : List Column) (query : Query)
  /-- An insert that updates rows which already exist. -/
  | upsert (rows : Rows) (uniqueBy : List String) (update : List UpsertColumn)
  | update (row : Row)
  | delete
  | truncate

/-- SQL with the values of its placeholders, in order. -/
structure Compiled where
  sql : String
  bindings : List Value

end SqlCompiler
