import SqlCompiler.Value

/-!
# Queries

The description of a query: where its rows come from, which of them it keeps, how they are grouped,
sorted and cut, and which queries it is united with. Queries nest: a table may be derived from a
query, and a predicate may look into one.

## Main definitions

- `Column`: a column name or raw SQL in place of one
- `Predicate`, `HavingPredicate`: conditions on rows and on groups
- `Table`, `Join`, `UnionBranch`, `Query`: the nested parts
-/

namespace SqlCompiler

/-! ## §1 Columns -/

/-- A column: a name, which may be qualified, aliased or a JSON selector, or raw SQL. -/
inductive Column where
  | named (name : String)
  | raw (sql : String) (bindings : List Value)
deriving Inhabited

/-- The values that the raw SQL of a column binds. -/
def Column.bindings : Column → List Value
  | .named _ => []
  | .raw _ bindings => bindings

/-- Whether and over what rows are made distinct. -/
inductive Distinct where
  | off
  | all
  /-- Distinct in the given columns; elsewhere than in PostgreSQL the same as `all`. -/
  | on (columns : List Column)

/-- An aggregate function over columns. -/
structure Aggregate where
  function : String
  columns : List Column

/-! ## §2 Sorting and locking -/

/-- A sort direction. -/
inductive Direction where
  | asc
  | desc
deriving DecidableEq, Repr

/-- The keyword of a sort direction. -/
def Direction.keyword : Direction → String
  | .asc => "asc"
  | .desc => "desc"

/-- What rows are sorted by. -/
inductive SortKey where
  | column (column : Column) (direction : Direction)
  | raw (sql : String) (bindings : List Value)
  | random (seed : Option String)

/-- The values that the raw SQL of a sort key binds. -/
def SortKey.bindings : SortKey → List Value
  | .column c _ => c.bindings
  | .raw _ bindings => bindings
  | .random _ => []

/-- How the selected rows are locked. -/
inductive Lock where
  | shared
  | exclusive
  | raw (sql : String)
deriving DecidableEq, Repr

/-! ## §3 Clauses -/

/-- What connects a clause with the one before it. -/
inductive Connective where
  | and
  | or
  | andNot
  | orNot
deriving DecidableEq, Repr

/-- The words of a connective. -/
def Connective.words : Connective → String
  | .and => "and"
  | .or => "or"
  | .andNot => "and not"
  | .orNot => "or not"

/-- A clause with its connective. -/
structure Clause (α : Type) where
  connective : Connective
  node : α

/-- A part of a date-time. -/
inductive DatePart where
  | date
  | time
  | day
  | month
  | year
deriving DecidableEq, Repr

/-- The name of a part of a date-time. -/
def DatePart.name : DatePart → String
  | .date => "date"
  | .time => "time"
  | .day => "day"
  | .month => "month"
  | .year => "year"

/-- How a full-text search is done. -/
structure FullTextOptions where
  /-- `boolean` for MySQL, `phrase` or `websearch` for PostgreSQL; anything else is a plain
  search. -/
  mode : Option String := none
  /-- MySQL: the search is expanded by the terms of its first results. -/
  expanded : Bool := false
  /-- PostgreSQL: the text search configuration. -/
  language : Option String := none
deriving DecidableEq, Repr

/-- The flavour of a join. -/
inductive JoinKind where
  | inner
  | left
  | right
  | cross
deriving DecidableEq, Repr

/-- The keyword of a join. -/
def JoinKind.keyword : JoinKind → String
  | .inner => "inner"
  | .left => "left"
  | .right => "right"
  | .cross => "cross"

/-- A condition on groups. -/
inductive HavingPredicate where
  | raw (sql : String) (bindings : List Value)
  | compare (column : Column) (operator : String) (value : Value)
  | between (column : Column) (low high : Value) (negated : Bool)
  | isNull (column : Column)
  | isNotNull (column : Column)
  | bitwise (column : Column) (operator : String) (value : Value)
  | expression (sql : String)
  | group (clauses : List (Clause HavingPredicate))

/-! ## §4 Nested parts -/

mutual

/-- Where rows come from: a table name, which may be qualified and aliased, a query, or raw SQL. -/
inductive Table where
  | named (name : String)
  | derived (query : Query) (asName : String)
  | raw (sql : String) (bindings : List Value)

/-- A condition on rows. -/
inductive Predicate where
  | raw (sql : String) (bindings : List Value)
  | compare (column : Column) (operator : String) (value : Value)
  | bitwise (column : Column) (operator : String) (value : Value)
  | jsonBoolean (column operator : String) (value : Bool)
  | like (column : Column) (pattern : Value) (caseSensitive negated : Bool)
  | between (column : Column) (low high : Value) (negated : Bool)
  | betweenColumns (column low high : Column) (negated : Bool)
  | inList (column : Column) (values : List Value) (negated : Bool)
  | inQuery (column : Column) (query : Query) (negated : Bool)
  | inIntegers (column : Column) (values : List Int64) (negated : Bool)
  | isNull (column : Column)
  | isNotNull (column : Column)
  | datePart (part : DatePart) (column : Column) (operator : String) (value : Value)
  | group (clauses : List (Clause Predicate))
  | hasRows (query : Query) (negated : Bool)
  | compareQuery (column : Column) (operator : String) (query : Query)
  | compareColumns (first : Column) (operator : String) (second : Column)
  | rowValues (columns : List Column) (operator : String) (values : List Value)
  | jsonContains (column : String) (value : Value) (negated : Bool)
  | jsonContainsKey (column : String) (negated : Bool)
  | jsonLength (column operator : String) (value : Value)
  | fullText (columns : List Column) (value : Value) (options : FullTextOptions)

/-- A joined table. -/
structure Join where
  kind : JoinKind
  table : Table
  on : List (Clause Predicate)
  /-- Joins inside the parentheses of the joined table. -/
  joins : List Join
  lateral : Bool

/-- A query whose rows are added to those of another one. -/
structure UnionBranch where
  query : Query
  /-- Whether repeated rows are kept. -/
  all : Bool

/-- A query. -/
structure Query where
  source : Option Table
  /-- The selected columns; all of them if there is no list. -/
  columns : Option (List Column)
  distinct : Distinct
  aggregate : Option Aggregate
  joins : List Join
  wheres : List (Clause Predicate)
  groups : List Column
  havings : List (Clause HavingPredicate)
  orders : List SortKey
  limit : Option UInt64
  offset : Option UInt64
  lock : Option Lock
  unions : List UnionBranch
  unionOrders : List SortKey
  unionLimit : Option UInt64
  unionOffset : Option UInt64

end

/-- A query without any part. -/
def Query.empty : Query where
  source := none
  columns := none
  distinct := .off
  aggregate := none
  joins := []
  wheres := []
  groups := []
  havings := []
  orders := []
  limit := none
  offset := none
  lock := none
  unions := []
  unionOrders := []
  unionLimit := none
  unionOffset := none

instance : Inhabited Query := ⟨Query.empty⟩

/-- Whether a table is derived from a query. -/
def Table.isDerived : Table → Bool
  | .derived _ _ => true
  | _ => false

/-- Whether distinct rows are asked for. -/
def Distinct.isEnabled : Distinct → Bool
  | .off => false
  | _ => true

/-- The offset of a query, zero if it has none. -/
def Query.skipped (q : Query) : UInt64 :=
  q.offset.getD 0

/-- Whether a query has joins or a limit, which not every dialect can put on an update or delete. -/
def Query.hasJoinsOrLimit (q : Query) : Bool :=
  !q.joins.isEmpty || q.limit.isSome

end SqlCompiler
