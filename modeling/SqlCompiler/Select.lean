import SqlCompiler.Predicate
import SqlCompiler.Query.Builder

/-!
# Selects

The SQL of queries. A query is laid out in two steps: its nested parts become SQL by recursion, and
its own clauses are then put around them. Only the first step is recursive, so that a query may be
laid out with other columns, orders or limits without a second look at its parts.

## Main definitions

- `Component`: the clauses of a select
- `Parts`: the nested parts of a query in SQL
- `Target.layout`: the clauses of a query around its parts
- `Target.select`: the SQL of a query
- `Target.hasRows`: the SQL of the question whether a query has rows
-/

namespace SqlCompiler

/-! ## §1 Components -/

/-- A clause of a select. -/
inductive Component where
  | aggregate
  | columns
  | source
  | joins
  | wheres
  | groups
  | havings
  | orders
  | limit
  | offset
  | lock
deriving DecidableEq, Repr

/-- The order of the clauses of a select. SQL Server puts the offset before the limit. -/
def Dialect.components : Dialect → List Component
  | .sqlserver =>
    [.aggregate, .columns, .source, .joins, .wheres, .groups, .havings, .orders, .offset, .limit,
      .lock]
  | _ =>
    [.aggregate, .columns, .source, .joins, .wheres, .groups, .havings, .orders, .limit, .offset,
      .lock]

/-- The nested parts of a query in SQL. -/
structure Parts where
  source : Except Fault Sql
  joins : Except Fault Sql
  wheres : Except Fault Sql
  branches : Except Fault Sql

namespace Target

/-! ## §2 Select list -/

/-- The aggregate in place of a select list. -/
def aggregateClause (t : Target) (distinct : Distinct) (aggregate : Aggregate) :
    Except Fault Sql := do
  let columns ← t.columnList aggregate.columns
  let columns ←
    match distinct with
    | .on on => do pure ("distinct " ++ (← t.columnList on))
    -- no function takes `distinct *`
    | .all => pure (if columns.text = "*" then columns else "distinct " ++ columns)
    | .off => pure columns
  return "select " ++ aggregate.function ++ "(" ++ columns ++ ") as aggregate"

/-- SQL Server: the limit of a query without offset, in front of the select list. -/
def top (q : Query) : String :=
  match q.limit with
  | some limit => if q.skipped = 0 then "top " ++ toString limit.toNat ++ " " else ""
  | none => ""

/-- The select list. -/
def columnsClause (t : Target) (q : Query) (columns : List Column) : Except Fault Sql := do
  let select : Sql ←
    match t.dialect, q.distinct with
    | .postgres, .on on => do pure ("select distinct on (" ++ (← t.columnList on) ++ ") ")
    -- the other dialects compare whole rows
    | _, distinct => pure (if distinct.isEnabled then "select distinct " else "select ")
  let top := match t.dialect with | .sqlserver => top q | _ => ""
  return select ++ top ++ (← t.columnList columns)

/-! ## §3 Table, groups and order -/

/-- SQL Server: the table hint of a lock. -/
def lockHint : Option Lock → String
  | some .exclusive => "with(rowlock,updlock,holdlock)"
  | some .shared => "with(rowlock,holdlock)"
  | some (.raw sql) => sql
  | none => ""

/-- The table with the keyword in front; in SQL Server with the table hint of the lock. -/
def sourceClause (t : Target) (lock : Option Lock) (table : Sql) : Sql :=
  match t.dialect with
  | .sqlserver => .words ["from " ++ table, lockHint lock]
  | _ => "from " ++ table

/-- The lock at the end of a select. -/
def lockClause (t : Target) (lock : Lock) : String :=
  match t.dialect, lock with
  | .sqlite, _ | .sqlserver, _ => ""
  | _, .raw sql => sql
  | .mysql, .exclusive | .postgres, .exclusive => "for update"
  | .mysql, .shared => "lock in share mode"
  | .postgres, .shared => "for share"
  | .generic, _ => ""

/-- The columns that rows are grouped by. -/
def groupsClause (t : Target) (groups : List Column) : Except Fault Sql := do
  if groups.isEmpty then return .empty
  return "group by " ++ (← t.columnList groups)

/-- The function of a random order. -/
def random (t : Target) (seed : Option String) : String :=
  match t.dialect with
  | .mysql => "RAND(" ++ seed.getD "" ++ ")"
  | .sqlserver => "NEWID()"
  | _ => "RANDOM()"

/-- A sort key. -/
def sortKey (t : Target) : SortKey → Except Fault Sql
  | .column c direction => do return (← t.column c) ++ " " ++ direction.keyword
  | .raw sql bindings => .ok (.fragment sql bindings)
  -- only MySQL has a use for the seed
  | .random seed => .ok (t.random seed)

/-- The keys that rows are sorted by. -/
def ordersClause (t : Target) (orders : List SortKey) : Except Fault Sql := do
  if orders.isEmpty then return .empty
  return "order by " ++ Sql.join ", " (← orders.mapM t.sortKey)

/-! ## §4 Limit and offset -/

/-- The limit. In SQL Server it stands here only behind an offset. -/
def limitClause (t : Target) (limit : UInt64) (offset : Option UInt64) : String :=
  match t.dialect with
  | .sqlserver =>
    if 0 < limit ∧ 0 < offset.getD 0 then "fetch next " ++ toString limit.toNat ++ " rows only"
    else ""
  | _ => "limit " ++ toString limit.toNat

/-- The offset. -/
def offsetClause (t : Target) (offset : UInt64) : String :=
  match t.dialect with
  | .sqlserver => if 0 < offset then "offset " ++ toString offset.toNat ++ " rows" else ""
  | _ => "offset " ++ toString offset.toNat

/-- Limit and offset, each if there is one. -/
def pageClauses (t : Target) (limit offset : Option UInt64) : List Sql :=
  let limitText : Sql := match limit with | some n => t.limitClause n offset | none => ""
  let offsetText : Sql := match offset with | some n => t.offsetClause n | none => ""
  [limitText, offsetText]

/-! ## §5 Unions -/

/-- One side of a union. -/
def unionSide (t : Target) (sql : Sql) : Sql :=
  match t.dialect with
  | .sqlite => "select * from (" ++ sql ++ ")"
  | .sqlserver => "select * from (" ++ sql ++ ") as " ++ t.quoteTable "temp_table"
  | _ => "(" ++ sql ++ ")"

/-- SQL Server: offset and limit of a union, which has no select list to carry its limit. -/
def unionPage (limit offset : Option UInt64) : Except Fault String :=
  let skipped := toString (offset.getD 0).toNat
  match limit with
  | some limit =>
    if limit = 0 then .error .emptyUnionFetch
    else .ok ("offset " ++ skipped ++ " rows fetch next " ++ toString limit.toNat ++ " rows only")
  | none => .ok (if 0 < offset.getD 0 then "offset " ++ skipped ++ " rows" else "")

/-- The branches of a union with its order, limit and offset. SQL Server pages only in some
order. -/
def unionsClause (t : Target) (q : Query) (branches : Except Fault Sql) : Except Fault Sql := do
  match t.dialect with
  | .sqlserver =>
    -- a page that cannot be fetched is reported before anything in the branches
    let page ← unionPage q.unionLimit q.unionOffset
    let orders ← t.ordersClause q.unionOrders
    let orders : Sql :=
      -- a page without an order would be refused by the server
      if orders.isEmpty && !page.isEmpty then .ofString "order by (SELECT 0)" else orders
    return .words [← branches, orders, page]
  | _ =>
    let branches ← branches
    let orders ← t.ordersClause q.unionOrders
    return .words (branches :: orders :: t.pageClauses q.unionLimit q.unionOffset)

/-! ## §6 Layout -/

/-- A clause of a select; empty if the query has none. -/
def component (t : Target) (q : Query) (aggregate : Option Aggregate) (parts : Parts) :
    Component → Except Fault Sql
  | .aggregate =>
    match aggregate with
    | some aggregate => t.aggregateClause q.distinct aggregate
    | none => .ok .empty
  -- an aggregate stands in place of the select list
  | .columns =>
    match aggregate with
    | some _ => .ok .empty
    | none => t.columnsClause q (q.columns.getD [.named "*"])
  | .source =>
    match q.source with
    | some _ => do return t.sourceClause q.lock (← parts.source)
    | none => .ok .empty
  | .joins => parts.joins
  | .wheres => parts.wheres
  | .groups => t.groupsClause q.groups
  | .havings => t.havingClause q.havings
  | .orders => t.ordersClause q.orders
  | .limit =>
    match q.limit with
    | some limit => .ok (t.limitClause limit q.offset)
    | none => .ok .empty
  | .offset =>
    match q.offset with
    | some offset => .ok (t.offsetClause offset)
    | none => .ok .empty
  | .lock =>
    match q.lock with
    | some lock => .ok (t.lockClause lock)
    | none => .ok .empty

/-- The clauses of a select that are not empty. -/
def components (t : Target) (q : Query) (aggregate : Option Aggregate) (parts : Parts) :
    Except Fault (List (Component × Sql)) := do
  let all ← t.dialect.components.mapM fun c => do return (c, ← t.component q aggregate parts c)
  -- all clauses are compiled first, so that a fault in any of them is a fault of the query
  return all.filter fun (_, sql) => !sql.isEmpty

/-- A select followed by the branches united with it. -/
def withUnions (t : Target) (q : Query) (parts : Parts) (sql : Sql) : Except Fault Sql := do
  if q.unions.isEmpty then return sql
  return t.unionSide sql ++ " " ++ (← t.unionsClause q parts.branches)

/-- The clauses of a query in a row. -/
def plainLayout (t : Target) (q : Query) (aggregate : Option Aggregate) (parts : Parts) :
    Except Fault Sql := do
  let clauses ← t.components q aggregate parts
  t.withUnions q parts (.words (clauses.map Prod.snd))

/-- Whether an offset is expressed by row numbers. -/
def numbersRows (t : Target) (q : Query) (aggregate : Option Aggregate) : Bool :=
  -- a page without rows needs no numbers
  t.dialect == .sqlserver && t.options.legacyPagination && aggregate.isNone && 0 < q.skipped &&
    q.limit != some 0

/-- The sum of two counts, or the largest count if it is out of range. -/
def addCounts (a b : UInt64) : Nat :=
  min (a.toNat + b.toNat) (UInt64.size - 1)

/-- The row numbers that a query keeps. -/
def rowNumberRange (q : Query) : String :=
  let start := toString (addCounts q.skipped 1)
  match q.limit with
  | some limit => "between " ++ start ++ " and " ++ toString (addCounts q.skipped limit)
  | none => ">= " ++ start

/-- A query whose rows are numbered in its order, and cut by their numbers. -/
def numberedLayout (t : Target) (q : Query) (parts : Parts) : Except Fault Sql := do
  let clauses ← t.components q none parts
  let orders :=
    match clauses.find? fun (c, _) => c == .orders with
    | some (_, sql) => sql
    | none => "order by (select 0)"
  let inner := clauses.filterMap fun (c, sql) =>
    match c with
    -- these three are what the row numbers stand for
    | .orders | .limit | .offset => none
    | .columns => some (sql ++ ", row_number() over (" ++ orders ++ ") as row_num")
    | _ => some sql
  t.withUnions q parts <|
    "select * from (" ++ Sql.words inner ++ ") as temp_table where row_num " ++ rowNumberRange q ++
      " order by row_num"

/-- The clauses of a query around its parts. SQL Server needs no offset for an empty page, and some
order for any other one. -/
def layout (t : Target) (q : Query) (aggregate : Option Aggregate) (parts : Parts) :
    Except Fault Sql :=
  match t.dialect with
  | .sqlserver =>
    -- an empty page becomes `top 0`, which is only written where no offset is
    if q.limit = some 0 ∧ 0 < q.skipped then
      t.plainLayout { q with offset := none } aggregate parts
    else if t.numbersRows q aggregate then t.numberedLayout q parts
    -- rows are skipped and fetched only in an order, even one that says nothing
    else if 0 < q.skipped ∧ q.orders.isEmpty then
      t.plainLayout { q with orders := [.ofSql "(SELECT 0)"] } aggregate parts
    else t.plainLayout q aggregate parts
  | _ => t.plainLayout q aggregate parts

/-- Whether an aggregate is taken over the rows of a finished select. -/
def aggregatesOverRows (q : Query) : Bool :=
  q.aggregate.isSome && !(q.unions.isEmpty && q.havings.isEmpty)

/-- A query around its parts; an aggregate of united or selected groups looks at the finished
select as a table. -/
def finish (t : Target) (q : Query) (parts : Parts) : Except Fault Sql := do
  match q.aggregate with
  | some aggregate =>
    if aggregatesOverRows q then
      let head ← t.aggregateClause q.distinct aggregate
      return head ++ " from (" ++ (← t.layout q none parts) ++ ") as " ++ t.quoteTable "temp_table"
    else t.layout q (some aggregate) parts
  | none => t.layout q none parts

/-! ## §7 Nested parts -/

/-- A lateral join around its table. -/
def lateralJoin (t : Target) (kind : JoinKind) (table : Sql) : Except Fault Sql :=
  match t.dialect with
  | .mysql | .postgres => .ok (kind.keyword ++ " join lateral " ++ table ++ " on true")
  | .sqlserver =>
    -- only an outer apply keeps the rows that have no match
    .ok ((match kind with | .left => "outer apply " | _ => "cross apply ") ++ table)
  | .generic | .sqlite => t.lacks .lateralJoins

/-- Conditions with a keyword in front; nothing if there are none. -/
def conditions (keyword : String) (clauses : List (Clause Sql)) : Sql :=
  if clauses.isEmpty then .empty else keyword ++ " " ++ Clause.body clauses

mutual

/-- A table. -/
def table (t : Target) : Table → Except Fault Sql
  | .named name => .ok (t.quoteTable name)
  | .raw sql bindings => .ok (.fragment sql bindings)
  | .derived query asName => do return "(" ++ (← t.select query) ++ ") as " ++ t.quoteTable asName

/-- The table of a query; nothing if it has none. -/
def source (t : Target) : Option Table → Except Fault Sql
  | none => .ok .empty
  | some tbl => t.table tbl

/-- A joined table. -/
def join (t : Target) : Join → Except Fault Sql
  | ⟨kind, tbl, on, joins, lateral⟩ => do
    let joined ← t.table tbl
    let inner ← t.joins joins
    let joined := if joins.isEmpty then joined else "(" ++ joined ++ " " ++ inner ++ ")"
    if lateral then
      -- the table is already in SQL, so a fault of its own comes first
      if !tbl.isDerived then throw .lateralTarget
      if !on.isEmpty then throw .lateralCondition
      t.lateralJoin kind joined
    else
      return .words [kind.keyword ++ " join", joined, conditions "on" (← t.clauses on)]

/-- Joined tables. -/
def joins (t : Target) : List Join → Except Fault Sql
  | [] => .ok .empty
  | j :: rest => do
    let first ← t.join j
    let others ← t.joins rest
    return if rest.isEmpty then first else first ++ " " ++ others

/-- The branches of a union. -/
def branches (t : Target) : List UnionBranch → Except Fault Sql
  | [] => .ok .empty
  | ⟨query, all⟩ :: rest => do
    let branch := (if all then "union all " else "union ") ++ t.unionSide (← t.select query)
    let others ← t.branches rest
    return if rest.isEmpty then branch else branch ++ " " ++ others

/-- A condition on rows. -/
def predicate (t : Target) : Predicate → Except Fault Sql
  | .raw sql bindings => .ok (.fragment sql bindings)
  | .compare c operator value => t.compare c operator value
  | .bitwise c operator value => t.bitwise c operator value
  | .jsonBoolean selector operator value => t.jsonBoolean selector operator value
  | .like c pattern caseSensitive negated => t.like c pattern caseSensitive negated
  | .between c low high negated => t.between c low high negated
  | .betweenColumns c low high negated => t.betweenColumns c low high negated
  | .inList c values negated => t.inList c values negated
  | .inQuery c query negated => do
    let left ← t.column c
    return left ++ " " ++ negation negated ++ "in (" ++ (← t.select query) ++ ")"
  | .inIntegers c values negated => t.inIntegers c values negated
  | .isNull c => t.nullTest c true
  | .isNotNull c => t.nullTest c false
  | .datePart part c operator value => t.datePart part c operator value
  | .group inner => do
    if inner.isEmpty then throw .emptyWhereGroup
    return "(" ++ Clause.body (← t.clauses inner) ++ ")"
  | .hasRows query negated => do
    return negation negated ++ "exists (" ++ (← t.select query) ++ ")"
  | .compareQuery c operator query => do
    let left ← t.column c
    return left ++ " " ++ operator ++ " (" ++ (← t.select query) ++ ")"
  | .compareColumns first operator second => t.compareColumns first operator second
  | .rowValues columns operator values => t.rowValues columns operator values
  | .jsonContains selector value negated => t.jsonContains selector value negated
  | .jsonContainsKey selector negated => t.jsonContainsKey selector negated
  | .jsonLength selector operator value => t.jsonLength selector operator value
  | .fullText columns value options => t.fullText columns value options

/-- Clauses whose conditions on rows are in SQL. -/
def clauses (t : Target) : List (Clause Predicate) → Except Fault (List (Clause Sql))
  | [] => .ok []
  | ⟨connective, node⟩ :: rest => do
    return ⟨connective, ← t.predicate node⟩ :: (← t.clauses rest)

/-- The SQL of a query. -/
def select (t : Target) : Query → Except Fault Sql
  | ⟨src, columns, distinct, aggregate, jns, wheres, groups, havings, orders, limit, offset, lock,
      unions, unionOrders, unionLimit, unionOffset⟩ =>
    -- the query is taken apart here, so that the recursion is on its parts
    let parts : Parts :=
      { source := t.source src
        joins := t.joins jns
        wheres := do return conditions "where" (← t.clauses wheres)
        branches := t.branches unions }
    t.finish
      ⟨src, columns, distinct, aggregate, jns, wheres, groups, havings, orders, limit, offset, lock,
        unions, unionOrders, unionLimit, unionOffset⟩ parts

end

/-! ## §8 Whole queries -/

/-- The conditions of a query on rows. -/
def wheresClause (t : Target) (wheres : List (Clause Predicate)) : Except Fault Sql := do
  return conditions "where" (← t.clauses wheres)

/-- The nested parts of a query. -/
def parts (t : Target) (q : Query) : Parts where
  source := t.source q.source
  joins := t.joins q.joins
  wheres := t.wheresClause q.wheres
  branches := t.branches q.unions

/-- A query is laid out around its nested parts. -/
theorem select_eq (t : Target) (q : Query) : t.select q = t.finish q (t.parts q) := by
  cases q
  rfl

/-- SQL Server: the query whose only row tells that a query has rows. -/
def probe (q : Query) : Query :=
  { q with columns := some [.ofSql "1 [exists]"], aggregate := none, limit := some 1 }

/-- The question whether a query has rows. -/
def hasRows (t : Target) (q : Query) : Except Fault Sql :=
  match t.dialect with
  -- SQL Server has no select of a bare `exists`
  | .sqlserver => t.select (probe q)
  | _ => do
    return "select exists(" ++ (← t.select q) ++ ") as " ++ (← t.quote "exists")

end Target

end SqlCompiler
