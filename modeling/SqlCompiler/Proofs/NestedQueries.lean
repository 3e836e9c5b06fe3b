import SqlCompiler.Bindings.Collect

/-!
# Queries Within Queries

A query nests others in its table, its joins, its conditions and its union branches, to any depth.
This module gathers them, and names the queries whose values are all collected where they are
written.

## Main definitions

- `Query.queries`: a query and all queries nested in it
- `Query.Mirrored`: no clause is written without being collected, or collected without being written
-/

namespace SqlCompiler

/-! ## §1 All queries of a query -/

mutual

/-- The queries in a table. -/
def Table.queries : Table → List Query
  | .named _ => []
  | .raw _ _ => []
  | .derived query _ => query.queries

/-- The queries in the table of a query. -/
def sourceQueries : Option Table → List Query
  | none => []
  | some tbl => tbl.queries

/-- The queries in a joined table. -/
def Join.queries : Join → List Query
  | ⟨_, tbl, on, joins, _⟩ => tbl.queries ++ joinsQueries joins ++ clauseQueries on

/-- The queries in joined tables. -/
def joinsQueries : List Join → List Query
  | [] => []
  | j :: rest => j.queries ++ joinsQueries rest

/-- The queries in the branches of a union. -/
def branchQueries : List UnionBranch → List Query
  | [] => []
  | ⟨query, _⟩ :: rest => query.queries ++ branchQueries rest

/-- The queries in a condition on rows. -/
def Predicate.queries : Predicate → List Query
  | .inQuery _ query _ => query.queries
  | .hasRows query _ => query.queries
  | .compareQuery _ _ query => query.queries
  | .group inner => clauseQueries inner
  | _ => []

/-- The queries in conditions on rows. -/
def clauseQueries : List (Clause Predicate) → List Query
  | [] => []
  | ⟨_, node⟩ :: rest => node.queries ++ clauseQueries rest

/-- A query and all queries nested in it. -/
def Query.queries : Query → List Query
  | ⟨src, columns, distinct, aggregate, joins, wheres, groups, havings, orders, limit, offset, lock,
      unions, unionOrders, unionLimit, unionOffset⟩ =>
    ⟨src, columns, distinct, aggregate, joins, wheres, groups, havings, orders, limit, offset, lock,
      unions, unionOrders, unionLimit, unionOffset⟩ ::
      (sourceQueries src ++ joinsQueries joins ++ clauseQueries wheres ++ branchQueries unions)

end

/-- The queries nested in a query. -/
def Query.nested (q : Query) : List Query :=
  sourceQueries q.source ++ joinsQueries q.joins ++ clauseQueries q.wheres ++ branchQueries q.unions

theorem Query.queries_eq (q : Query) : q.queries = q :: q.nested := by
  cases q
  rfl

/-! ## §2 Written and collected -/

/-- The columns that rows are made distinct in. -/
def Distinct.columns : Distinct → List Column
  | .on columns => columns
  | _ => []

/-- The columns of an aggregate whose place is taken by the distinct columns. -/
def Query.displacedColumns (q : Query) : List Column :=
  match q.distinct, q.aggregate with
  | .on _, some aggregate => aggregate.columns
  | _, _ => []

/-- A query whose own values are collected exactly where they are written. Distinct columns are
written but not collected, the columns that they displace are collected but not written, and the
order of a union is collected even if there is no union that it could be written after. -/
structure Query.Mirrored (q : Query) : Prop where
  distinct : bound (columnBindings q.distinct.columns) = []
  displaced : bound (columnBindings q.displacedColumns) = []
  unionOrders : q.unions = [] → bound (orderBindings q.unionOrders) = []

instance (q : Query) : Decidable q.Mirrored :=
  decidable_of_iff
    (bound (columnBindings q.distinct.columns) = [] ∧
      bound (columnBindings q.displacedColumns) = [] ∧
      (q.unions = [] → bound (orderBindings q.unionOrders) = []))
    ⟨fun ⟨h, h', h''⟩ => ⟨h, h', h''⟩, fun ⟨h, h', h''⟩ => ⟨h, h', h''⟩⟩

end SqlCompiler
