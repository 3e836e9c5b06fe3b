import SqlCompiler.Fault
import SqlCompiler.Value

/-!
# Rows

The values that inserts, updates and upserts write.

## Main definitions

- `Row`: columns with their values, in order
- `Row.set`: a column set in place, or added at the end
- `Rows`: one row or a batch of them
- `Rows.columns?`: the columns that all rows share, in the order of the first row
- `UpsertColumn`: what an upsert writes into a row that already exists
-/

namespace SqlCompiler

/-- Columns with their values, in order. -/
structure Row where
  entries : List (String × Value)

namespace Row

/-- A row without columns. -/
def empty : Row := ⟨[]⟩

/-- Sets a column among entries: in place if it is there, at the end otherwise. -/
def setEntry (column : String) (value : Value) : List (String × Value) → List (String × Value)
  | [] => [(column, value)]
  | (c, v) :: entries =>
    if c = column then (c, value) :: entries else (c, v) :: setEntry column value entries

/-- Sets a column: in place if the row has it, at the end otherwise. -/
def set (row : Row) (column : String) (value : Value) : Row :=
  ⟨setEntry column value row.entries⟩

/-- The row that comes from setting columns one after the other. -/
def ofPairs (pairs : List (String × Value)) : Row :=
  pairs.foldl (fun row (column, value) => row.set column value) empty

/-- The first value of a column. -/
def get? (row : Row) (column : String) : Option Value :=
  (row.entries.find? fun entry => entry.1 == column).map Prod.snd

/-- The columns, in order. -/
def columns (row : Row) : List String :=
  row.entries.map Prod.fst

/-- The values, in order. -/
def values (row : Row) : List Value :=
  row.entries.map Prod.snd

/-- The number of entries. -/
def size (row : Row) : Nat :=
  row.entries.length

/-- Whether a row has no columns. -/
def isEmpty (row : Row) : Bool :=
  row.entries.isEmpty

/-- Whether a row has as many entries as there are given columns, and each of these columns. -/
def hasColumns (row : Row) (columns : List String) : Bool :=
  row.size == columns.length && columns.all fun column => (row.get? column).isSome

/-- The values of given columns, in their order. -/
def valuesIn (row : Row) (columns : List String) : List Value :=
  columns.filterMap row.get?

end Row

/-! ## §2 Batches -/

/-- The rows of an insert. -/
inductive Rows where
  | single (row : Row)
  | batch (rows : List Row)

namespace Rows

/-- The rows as a list. -/
def toList : Rows → List Row
  | .single row => [row]
  | .batch rows => rows

/-- Whether no row has a column. -/
def isEmpty (rows : Rows) : Bool :=
  rows.toList.all Row.isEmpty

/-- The columns of the first row, which all the others have to share in some order. -/
def columns? (rows : Rows) : Except Fault (List String) :=
  match rows.toList with
  | [] => .ok []
  | first :: rest =>
    -- the first row is checked too: it may name a column twice
    if (first :: rest).all fun row => row.hasColumns first.columns then .ok first.columns
    else .error .unevenRows

/-- The values of given columns, row after row. -/
def valuesIn (rows : Rows) (columns : List String) : List Value :=
  rows.toList.flatMap fun row => row.valuesIn columns

end Rows

/-- What an upsert writes into a row that already exists. -/
inductive UpsertColumn where
  /-- The incoming value of a column. -/
  | incoming (column : String)
  /-- A value of its own. -/
  | value (column : String) (value : Value)

/-- The value that an upsert column brings along. -/
def UpsertColumn.value? : UpsertColumn → Option Value
  | .incoming _ => none
  | .value _ v => some v

end SqlCompiler
