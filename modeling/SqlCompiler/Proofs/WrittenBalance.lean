import Mathlib.Algebra.Order.Group.Multiset
import Mathlib.Tactic.Abel
import SqlCompiler.Proofs.WrittenQueries

/-!
# Written and Collected

How far the values that a query writes are from those that it collects: a query writes its distinct
columns without collecting them, and collects the columns that they displace, and the order of a
union that it does not have, without writing them. Apart from that the two agree, at every depth of
nesting.

## Main definitions

- `Query.uncollected`, `Query.unwritten`: what a query only writes, and what it only collects
- `Balanced`: two lists of values differ by what the given queries only write and only collect

## Main statements

- `query_balanced`: the step from the nested parts of a query to the whole query
- `selectBindings_balanced`: the values of a query, by recursion on the query
-/

namespace SqlCompiler

variable {t : Target}

/-! ## §1 What is missed -/

/-- The values that a query writes without collecting them: those of its distinct columns, in the
aggregate and in the select list. -/
def Query.uncollected (t : Target) (q : Query) : List Value :=
  bound (columnBindings (q.aggregate.elim [] fun _ => q.distinct.columns)) ++
    if (placedAggregate q).isNone then bound (columnBindings (writtenDistinct t q.distinct)) else []

/-- The values that a query collects without writing them: those of the columns that distinct
columns displace, and of the order of a union that it does not have. -/
def Query.unwritten (q : Query) : List Value :=
  bound (columnBindings q.displacedColumns) ++
    if q.unions.isEmpty then bound (orderBindings q.unionOrders) else []

/-- What is written and what is collected differ by what the given queries write only, and by what
they collect only. -/
def Balanced (t : Target) (written collected : List Value) (queries : List Query) : Prop :=
  (↑(bound written) + ↑(queries.flatMap Query.unwritten) : Multiset Value) =
    ↑(bound collected) + ↑(queries.flatMap (Query.uncollected t))

/-- Values that are written as they are collected, with no query between them. -/
theorem balanced_refl (values : List Value) : Balanced t values values [] := rfl

/-- What is missed in two parts is missed in both of them together. -/
theorem Balanced.append {ws cs ws' cs' : List Value} {qs qs' : List Query}
    (h : Balanced t ws cs qs) (h' : Balanced t ws' cs' qs') :
    Balanced t (ws ++ ws') (cs ++ cs') (qs ++ qs') := by
  unfold Balanced at h h' ⊢
  simp only [bound_append, List.flatMap_append, ← Multiset.coe_add]
  rw [add_add_add_comm, h, h', add_add_add_comm]

/-- Values that are written as they are collected. -/
theorem Balanced.left {ws cs : List Value} {qs : List Query} (h : Balanced t ws cs qs)
    (values : List Value) : Balanced t (values ++ ws) (values ++ cs) qs :=
  (balanced_refl values).append h

/-- The values of the select list and of the aggregate of a query. -/
def ownBindings (t : Target) (q : Query) : Multiset Value :=
  ↑(outerBindings q) + ↑(componentBindings t q (placedAggregate q) .aggregate) +
    ↑(componentBindings t q (placedAggregate q) .columns)

/-- The values of a query, clause by clause and in no order. -/
theorem coe_selectBindings (t : Target) (q : Query) :
    (↑(t.selectBindings q) : Multiset Value) =
      ownBindings t q + (↑(bound (t.sourceBindings q.source)) +
        ↑(bound (t.joinsBindings q.joins)) + ↑(bound (t.clauseBindings q.wheres)) +
        ↑(bound (t.branchBindings q.unions))) + ↑(bound (orderBindings q.unionOrders)) +
        (↑(bound (columnBindings q.groups)) + ↑(bound (havingBindings q.havings)) +
        ↑(bound (orderBindings q.orders))) := by
  rw [Target.selectBindings_eq, buckets_flatten]
  -- numbering moves the orders to the front, which a multiset does not see
  cases t.numbersRows q (placedAggregate q) <;>
  · simp only [writtenOrder, if_true, Bool.false_eq_true, if_false, List.flatMap_cons,
      List.flatMap_nil, List.append_nil, ← Multiset.coe_add, ownBindings]
    simp only [componentBindings]
    abel

/-! ## §2 One query -/

/-- Distinct columns take the place of the columns of an aggregate. -/
theorem writtenAggregate_balanced {q : Query} {a : Aggregate} (ha : q.aggregate = some a) :
    (↑(bound (columnBindings (writtenAggregate q.distinct a))) +
        ↑(bound (columnBindings q.displacedColumns)) : Multiset Value) =
      ↑(bound (columnBindings a.columns)) + ↑(bound (columnBindings q.distinct.columns)) := by
  unfold Query.displacedColumns
  rw [ha]
  cases q.distinct with
  | on columns => exact add_comm _ _
  | all | off => rfl

/-- The order of a union is collected also where there is no union. -/
theorem writtenUnionOrders_balanced (q : Query) :
    (↑(bound (orderBindings (writtenUnionOrders q.unions q.unionOrders))) +
        ↑(if q.unions.isEmpty then bound (orderBindings q.unionOrders) else []) : Multiset Value) =
      ↑(bound (orderBindings q.unionOrders)) := by
  unfold writtenUnionOrders
  split
  · exact zero_add _
  · exact add_zero _

/-- The written form of a query has its aggregate where the query has it. -/
theorem placedAggregate_written (t : Target) (q : Query) :
    placedAggregate (q.written t) = (placedAggregate q).map (Aggregate.written q.distinct) := by
  unfold placedAggregate
  rw [aggregatesOverRows_written, Query.written_eq]
  split <;> rfl

/-- Select list and aggregate: what is written without being collected stands against what is
displaced. -/
theorem ownBindings_written (t : Target) (q : Query) :
    ownBindings t (q.written t) + ↑(bound (columnBindings q.displacedColumns)) =
      ownBindings t q + ↑(q.uncollected t) := by
  have hcolumns : (q.written t).columns =
      some (writtenDistinct t q.distinct ++ q.columns.getD []) := by rw [Query.written_eq]
  have haggregate : (q.written t).aggregate = q.aggregate.map (Aggregate.written q.distinct) := by
    rw [Query.written_eq]
  unfold ownBindings outerBindings
  rw [aggregatesOverRows_written, placedAggregate_written]
  simp only [componentBindings, hcolumns, haggregate, Query.uncollected, Option.isSome_map,
    Option.getD_some]
  -- an aggregate decides what is written in the place of the columns
  cases ha : q.aggregate with
  | none =>
    have hover : Target.aggregatesOverRows q = false := by
      simp [Target.aggregatesOverRows, ha]
    have hdisplaced : q.displacedColumns = [] := by
      unfold Query.displacedColumns
      rw [ha]
      cases q.distinct <;> rfl
    -- the distinct columns are written in front of the selected ones and collected nowhere
    simpa [placedAggregate, hover, ha, hdisplaced, columnBindings] using List.perm_append_comm
  | some a =>
    have hwritten := writtenAggregate_balanced ha
    -- over rows the aggregate stands around the query, otherwise in its select list
    cases hover : Target.aggregatesOverRows q with
    | true =>
      simp only [placedAggregate, hover, if_true, Option.map_some, Option.map_none,
        Option.elim_some, Option.elim_none, Option.isSome_none, Option.isNone_none,
        Bool.false_eq_true, if_false, columnBindings, List.flatMap_append, List.flatMap_nil,
        bound_append, bound_nil, Multiset.coe_nil, add_zero, ← Multiset.coe_add,
        Aggregate.written] at hwritten ⊢
      rw [add_right_comm, hwritten]
      abel
    | false =>
      simpa only [placedAggregate, hover, ha, Option.map_some, Option.elim_some, Option.isSome_some,
        Option.isNone_some, Bool.false_eq_true, if_true, if_false, columnBindings, List.flatMap_nil,
        bound_nil, Multiset.coe_nil, zero_add, add_zero, ← Multiset.coe_add,
        Aggregate.written] using hwritten

/-- A whole is balanced if its parts are. -/
theorem sum_balanced {own own' nested nested' order order' kept lost stray lostNested strayNested
    lostOrder : Multiset Value} (hown : own' + lost = own + stray)
    (hnested : nested' + lostNested = nested + strayNested) (horder : order' + lostOrder = order) :
    own' + nested' + order' + kept + (lost + lostOrder + lostNested) =
      own + nested + order + kept + (stray + strayNested) :=
  calc own' + nested' + order' + kept + (lost + lostOrder + lostNested)
    _ = own' + lost + (nested' + lostNested) + (order' + lostOrder) + kept := by abel
    _ = own + stray + (nested + strayNested) + order + kept := by rw [hown, hnested, horder]
    _ = own + nested + order + kept + (stray + strayNested) := by abel

/-- What a query writes and collects is balanced if its nested parts are. -/
theorem query_balanced {q : Query}
    (hsource : Balanced t (t.sourceBindings (writtenSource t q.source))
      (t.sourceBindings q.source) (sourceQueries q.source))
    (hjoins : Balanced t (t.joinsBindings (writtenJoins t q.joins)) (t.joinsBindings q.joins)
      (joinsQueries q.joins))
    (hwheres : Balanced t (t.clauseBindings (writtenClauses t q.wheres))
      (t.clauseBindings q.wheres) (clauseQueries q.wheres))
    (hbranches : Balanced t (t.branchBindings (writtenBranches t q.unions))
      (t.branchBindings q.unions) (branchQueries q.unions)) :
    Balanced t (t.selectBindings (q.written t)) (t.selectBindings q) q.queries := by
  have hown := ownBindings_written t q
  have hunion := writtenUnionOrders_balanced q
  -- nested parts are balanced one by one, and what is left belongs to the query itself
  have hnested := ((hsource.append hjoins).append hwheres).append hbranches
  unfold Balanced at hnested ⊢
  rw [bound_selectBindings, bound_selectBindings, coe_selectBindings, coe_selectBindings,
    Query.queries_eq]
  simp only [Query.nested, List.flatMap_cons, bound_append, ← Multiset.coe_add, Query.unwritten,
    Query.written_source, Query.written_joins, Query.written_wheres, Query.written_unions,
    Query.written_unionOrders, Query.written_groups, Query.written_havings,
    Query.written_orders] at hnested ⊢
  exact sum_balanced hown hnested hunion

/-! ## §3 Nested parts -/

mutual

/-- A table misses what its query misses. -/
theorem table_balanced : (tbl : Table) →
    Balanced t (t.tableBindings (tbl.written t)) (t.tableBindings tbl) tbl.queries
  | .named _ | .raw _ _ => balanced_refl _
  | .derived query _ => selectBindings_balanced query

/-- The table of a query, or none. -/
theorem source_balanced : (src : Option Table) →
    Balanced t (t.sourceBindings (writtenSource t src)) (t.sourceBindings src) (sourceQueries src)
  | none => balanced_refl _
  | some tbl => table_balanced tbl

/-- A joined table misses what its table, its inner joins and its conditions miss. -/
theorem join_balanced : (j : Join) →
    Balanced t (t.joinBindings (j.written t)) (t.joinBindings j) j.queries
  | ⟨_, tbl, on, joins, _⟩ =>
    ((table_balanced tbl).append (joins_balanced joins)).append (clauses_balanced on)

/-- Joined tables, one by one. -/
theorem joins_balanced : (joins : List Join) →
    Balanced t (t.joinsBindings (writtenJoins t joins)) (t.joinsBindings joins)
      (joinsQueries joins)
  | [] => balanced_refl _
  | j :: rest => (join_balanced j).append (joins_balanced rest)

/-- The branches of a union, one by one. -/
theorem branches_balanced : (branches : List UnionBranch) →
    Balanced t (t.branchBindings (writtenBranches t branches)) (t.branchBindings branches)
      (branchQueries branches)
  | [] => balanced_refl _
  | ⟨query, _⟩ :: rest => (selectBindings_balanced query).append (branches_balanced rest)

/-- A condition on rows misses what the queries miss that it looks into. -/
theorem predicate_balanced : (p : Predicate) →
    Balanced t (t.predicateBindings (p.written t)) (t.predicateBindings p) p.queries
  | .inQuery c query _ => (selectBindings_balanced query).left c.bindings
  | .hasRows query _ => selectBindings_balanced query
  | .compareQuery c _ query => (selectBindings_balanced query).left c.bindings
  | .group inner => clauses_balanced inner
  | .raw _ _ | .compare _ _ _ | .bitwise _ _ _ | .jsonBoolean _ _ _ | .like _ _ _ _
  | .between _ _ _ _ | .betweenColumns _ _ _ _ | .inList _ _ _ | .inIntegers _ _ _ | .isNull _
  | .isNotNull _ | .datePart _ _ _ _ | .compareColumns _ _ _ | .rowValues _ _ _
  | .jsonContains _ _ _ | .jsonContainsKey _ _ | .jsonLength _ _ _ | .fullText _ _ _ =>
    balanced_refl _

/-- Conditions on rows, one by one. -/
theorem clauses_balanced : (clauses : List (Clause Predicate)) →
    Balanced t (t.clauseBindings (writtenClauses t clauses)) (t.clauseBindings clauses)
      (clauseQueries clauses)
  | [] => balanced_refl _
  | ⟨_, node⟩ :: rest => (predicate_balanced node).append (clauses_balanced rest)

/-- A query writes what it collects, but for what the queries in it write only or collect only. -/
theorem selectBindings_balanced : (q : Query) →
    Balanced t (t.selectBindings (q.written t)) (t.selectBindings q) q.queries
  | ⟨src, _, _, _, joins, wheres, _, _, _, _, _, _, unions, _, _, _⟩ =>
    query_balanced (source_balanced src) (joins_balanced joins) (clauses_balanced wheres)
      (branches_balanced unions)

end

end SqlCompiler
