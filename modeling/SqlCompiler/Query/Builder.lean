import SqlCompiler.Query.Basic

/-!
# Building Queries

Queries and their parts put together step by step.

## Main definitions

- `Clauses.add`: a clause at the end of a list of clauses
- `Query.ofTable`, `Query.andWhere`, `Query.join`, …: a query with one part more
- `Predicate.equals`, `SortKey.asc`, `Aggregate.count`, `Join.of`, …: frequent parts
-/

namespace SqlCompiler

/-! ## §1 Parts -/

/-- Raw SQL without bindings as a column. -/
def Column.ofSql (sql : String) : Column :=
  .raw sql []

/-- A comparison for equality. -/
def Predicate.equals (column : Column) (value : Value) : Predicate :=
  .compare column "=" value

/-- Ascending in a column. -/
def SortKey.asc (column : Column) : SortKey :=
  .column column Direction.asc

/-- Descending in a column. -/
def SortKey.desc (column : Column) : SortKey :=
  .column column Direction.desc

/-- Raw SQL without bindings as a sort key. -/
def SortKey.ofSql (sql : String) : SortKey :=
  .raw sql []

/-- The number of rows. -/
def Aggregate.count : Aggregate :=
  ⟨"count", [.named "*"]⟩

/-- A clause at the end of a list of clauses. -/
def Clauses.add {α : Type} (clauses : List (Clause α)) (connective : Connective) (node : α) :
    List (Clause α) :=
  clauses ++ [⟨connective, node⟩]

/-! ## §2 Joins -/

namespace Join

/-- A join without conditions. -/
def of (kind : JoinKind) (table : Table) : Join where
  kind
  table
  on := []
  joins := []
  lateral := false

/-- A join with one condition more. -/
def addOn (join : Join) (connective : Connective) (node : Predicate) : Join :=
  { join with on := Clauses.add join.on connective node }

/-- A join with one comparison of columns more. -/
def addColumns (join : Join) (connective : Connective) (first operator second : String) : Join :=
  join.addOn connective (.compareColumns (.named first) operator (.named second))

end Join

/-! ## §3 Queries -/

namespace Query

/-- All rows of a table. -/
def ofTable (table : Table) : Query :=
  { empty with source := some table }

/-- A query for given columns. -/
def select (q : Query) (columns : List Column) : Query :=
  { q with columns := some columns }

/-- A query with one more condition that has to hold. -/
def andWhere (q : Query) (node : Predicate) : Query :=
  { q with wheres := Clauses.add q.wheres .and node }

/-- A query with one more condition that may hold instead. -/
def orWhere (q : Query) (node : Predicate) : Query :=
  { q with wheres := Clauses.add q.wheres .or node }

/-- A query with one more join. -/
def join (q : Query) (joined : Join) : Query :=
  { q with joins := q.joins ++ [joined] }

/-- A query grouped by further columns. -/
def groupBy (q : Query) (columns : List Column) : Query :=
  { q with groups := q.groups ++ columns }

/-- A query with one more condition on groups. -/
def having (q : Query) (node : HavingPredicate) : Query :=
  { q with havings := Clauses.add q.havings .and node }

/-- A query sorted by a further key. -/
def orderBy (q : Query) (key : SortKey) : Query :=
  { q with orders := q.orders ++ [key] }

/-- A query for at most so many rows. -/
def take (q : Query) (count : UInt64) : Query :=
  { q with limit := some count }

/-- A query past the first rows. -/
def skip (q : Query) (count : UInt64) : Query :=
  { q with offset := some count }

/-- A query that locks its rows. -/
def withLock (q : Query) (lock : Lock) : Query :=
  { q with lock := some lock }

/-- A query with distinct rows. -/
def withDistinct (q : Query) (distinct : Distinct) : Query :=
  { q with distinct }

/-- A query for an aggregate. -/
def withAggregate (q : Query) (aggregate : Aggregate) : Query :=
  { q with aggregate := some aggregate }

/-- A query united with another one. -/
def union (q branch : Query) (all : Bool) : Query :=
  { q with unions := q.unions ++ [⟨branch, all⟩] }

/-- A union sorted by a further key. -/
def unionOrderBy (q : Query) (key : SortKey) : Query :=
  { q with unionOrders := q.unionOrders ++ [key] }

end Query

end SqlCompiler
