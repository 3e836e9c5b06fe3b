import SqlCompiler.Bindings.Buckets
import SqlCompiler.Select

/-!
# Collected Bindings

The values that a query binds, gathered clause by clause without a look at its SQL.

## Main definitions

- `Target.buckets`: the values of a query by clause
- `Target.selectBindings`: the values of a query as a select binds them
- `Target.hasRowsBindings`: the values bound by the question whether a query has rows
-/

namespace SqlCompiler

/-- The values that the raw SQL of columns binds. -/
def columnBindings (columns : List Column) : List Value :=
  columns.flatMap Column.bindings

/-- The values that the raw SQL of sort keys binds. -/
def orderBindings (orders : List SortKey) : List Value :=
  orders.flatMap SortKey.bindings

mutual

/-- The values that a condition on groups binds. -/
def HavingPredicate.bindings : HavingPredicate → List Value
  | .raw _ bindings => bindings
  | .compare c _ value => c.bindings ++ [value]
  | .between c low high _ => c.bindings ++ [low, high]
  | .isNull c => c.bindings
  | .isNotNull c => c.bindings
  | .bitwise c _ value => c.bindings ++ [value]
  | .expression _ => []
  | .group clauses => havingBindings clauses

/-- The values that conditions on groups bind. -/
def havingBindings : List (Clause HavingPredicate) → List Value
  | [] => []
  | ⟨_, node⟩ :: rest => node.bindings ++ havingBindings rest

end

/-- The values of a query whose nested parts bind the given values. -/
def Query.bucketsAround (q : Query) (source joins wheres branches : List Value) : Buckets where
  select :=
    bound ((match q.aggregate with
      | some aggregate => columnBindings aggregate.columns
      | none => []) ++
      -- the select list is written unless the aggregate stands in its place
      (if q.aggregate.isNone || !q.unions.isEmpty || !q.havings.isEmpty then
        columnBindings (q.columns.getD [])
      else []))
  source := bound source
  join := bound joins
  wheres := bound wheres
  groupBy := bound (columnBindings q.groups)
  having := bound (havingBindings q.havings)
  order := bound (orderBindings q.orders)
  union := bound branches
  unionOrder := bound (orderBindings q.unionOrders)

namespace Target

/-- The values in the order in which the clauses are written: numbered rows are sorted in the select
list. -/
def arrange (t : Target) (q : Query) (b : Buckets) : Buckets :=
  let aggregate := if aggregatesOverRows q then none else q.aggregate
  if t.numbersRows q aggregate then { b with select := b.select ++ b.order, order := [] } else b

mutual

/-- The values that a table binds. -/
def tableBindings (t : Target) : Table → List Value
  | .named _ => []
  | .raw _ bindings => bindings
  | .derived query _ => t.selectBindings query

/-- The values that the table of a query binds. -/
def sourceBindings (t : Target) : Option Table → List Value
  | none => []
  | some tbl => t.tableBindings tbl

/-- The values that a joined table binds. -/
def joinBindings (t : Target) : Join → List Value
  | ⟨_, tbl, on, joins, _⟩ =>
    -- inner joins stand in the parentheses of the table, in front of the conditions
    t.tableBindings tbl ++ t.joinsBindings joins ++ t.clauseBindings on

/-- The values that joined tables bind. -/
def joinsBindings (t : Target) : List Join → List Value
  | [] => []
  | j :: rest => t.joinBindings j ++ t.joinsBindings rest

/-- The values that the branches of a union bind. -/
def branchBindings (t : Target) : List UnionBranch → List Value
  | [] => []
  | ⟨query, _⟩ :: rest => t.selectBindings query ++ t.branchBindings rest

/-- The values that a condition on rows binds. -/
def predicateBindings (t : Target) : Predicate → List Value
  | .raw _ bindings => bindings
  | .compare c _ value => c.bindings ++ [value]
  | .bitwise c _ value => c.bindings ++ [value]
  | .jsonBoolean _ _ _ => []
  | .like c pattern caseSensitive _ => c.bindings ++ [t.likeBinding pattern caseSensitive]
  | .between c low high _ => c.bindings ++ [low, high]
  | .betweenColumns c low high _ => columnBindings [c, low, high]
  -- membership in nothing is written without the column
  | .inList c values _ => if values.isEmpty then [] else c.bindings ++ values
  | .inQuery c query _ => c.bindings ++ t.selectBindings query
  | .inIntegers c values _ => if values.isEmpty then [] else c.bindings
  -- null tests of MySQL name a selector twice, but never raw SQL
  | .isNull c => c.bindings
  | .isNotNull c => c.bindings
  | .datePart _ c _ value => c.bindings ++ [value]
  | .group inner => t.clauseBindings inner
  | .hasRows query _ => t.selectBindings query
  | .compareQuery c _ query => c.bindings ++ t.selectBindings query
  | .compareColumns first _ second => columnBindings [first, second]
  | .rowValues columns _ values => columnBindings columns ++ values
  | .jsonContains _ value _ => if value.isRaw then [] else [t.jsonBinding value]
  | .jsonContainsKey _ _ => []
  | .jsonLength _ _ value => [value]
  | .fullText columns value _ => columnBindings columns ++ [value]

/-- The values that conditions on rows bind. -/
def clauseBindings (t : Target) : List (Clause Predicate) → List Value
  | [] => []
  | ⟨_, node⟩ :: rest => t.predicateBindings node ++ t.clauseBindings rest

/-- The values of a query as a select binds them. -/
def selectBindings (t : Target) : Query → List Value
  | ⟨src, columns, distinct, aggregate, joins, wheres, groups, havings, orders, limit, offset, lock,
      unions, unionOrders, unionLimit, unionOffset⟩ =>
    let q : Query :=
      ⟨src, columns, distinct, aggregate, joins, wheres, groups, havings, orders, limit, offset,
        lock, unions, unionOrders, unionLimit, unionOffset⟩
    (t.arrange q (q.bucketsAround (t.sourceBindings src) (t.joinsBindings joins)
      (t.clauseBindings wheres) (t.branchBindings unions))).flatten

end

/-- The values of a query by clause. -/
def buckets (t : Target) (q : Query) : Buckets :=
  t.arrange q (q.bucketsAround (t.sourceBindings q.source) (t.joinsBindings q.joins)
    (t.clauseBindings q.wheres) (t.branchBindings q.unions))

/-- A select binds its buckets in their order. -/
theorem selectBindings_eq (t : Target) (q : Query) :
    t.selectBindings q = (t.buckets q).flatten := by
  cases q
  rfl

/-- The values bound by the question whether a query has rows. -/
def hasRowsBindings (t : Target) (q : Query) : List Value :=
  match t.dialect with
  | .sqlserver => t.selectBindings (probe q)
  | _ => t.selectBindings q

end Target

end SqlCompiler
