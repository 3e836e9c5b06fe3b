import SqlCompiler.Proofs.NestedQueries
import SqlCompiler.Proofs.RefusedConstructs

/-!
# Faults of Selects

A query has no SQL exactly if something that is written of it, at any depth, is refused. The
constructs of a query are gathered along its nesting, with the same choices as its text: an
aggregate takes the place of the select list unless it looks at finished rows, a lateral join has no
conditions to write, and the order and the limit of a union are written only after a union.

## Main definitions

- `Target.selectConstructs`: the constructs of a query, those of its nested queries included
- `PartsFailFor`: the nested parts of a query fail for the constructs gathered from them

## Main statements

- `component_failsFor`, `withUnions_failsFor`, `layout_failsFor`: one clause, the unions, a layout
- `finish_failsFor`: the step from the nested parts of a query to the whole query
- `select_failsFor`: a query fails for its constructs, by recursion on its nesting
- `select_error_iff`: the faults of a query, exactly
-/

namespace SqlCompiler

variable {t : Target} {q : Query} {aggregate : Option Aggregate} {parts : Parts}

/-! ## §1 The constructs of a query -/

/-- The constructs of a sort key. -/
def SortKey.constructs : SortKey → List Construct
  | .column c _ => c.constructs
  | .raw _ _ => []
  | .random _ => []

/-- The constructs of sort keys. -/
def orderConstructs (orders : List SortKey) : List Construct :=
  orders.flatMap SortKey.constructs

/-- The constructs of the unions of a query whose branches are made of the given ones. Without a
union neither its order nor its limit are written. -/
def Query.unionConstructs (q : Query) (branches : List Construct) : List Construct :=
  if q.unions.isEmpty then []
  else branches ++ orderConstructs q.unionOrders ++ q.unionLimit.toList.map .unionLimit

/-- The constructs of a query whose nested parts are made of the given ones. The columns of an
aggregate are looked at even where distinct columns take their place in the text. -/
def Query.constructsAround (t : Target) (q : Query)
    (source joins wheres branches : List Construct) : List Construct :=
  (match q.aggregate with
    | some aggregate => columnConstructs (aggregate.columns ++ q.distinct.columns)
    | none => []) ++
    (if q.aggregate.isNone || Target.aggregatesOverRows q then
      columnConstructs (writtenDistinct t q.distinct ++ q.columns.getD [])
    else []) ++
    source ++ joins ++ wheres ++ columnConstructs q.groups ++ havingConstructs q.havings ++
    orderConstructs q.orders ++ q.unionConstructs branches

namespace Target

mutual

/-- The constructs of a table. -/
def tableConstructs (t : Target) : Table → List Construct
  | .named _ => []
  | .raw _ _ => []
  | .derived query _ => t.selectConstructs query

/-- The constructs of the table of a query. -/
def sourceConstructs (t : Target) : Option Table → List Construct
  | none => []
  | some tbl => t.tableConstructs tbl

/-- The constructs of a joined table. The conditions of a lateral join are counted, not written. -/
def joinConstructs (t : Target) : Join → List Construct
  | ⟨_, tbl, on, joins, lateral⟩ =>
    t.tableConstructs tbl ++ t.joinsConstructs joins ++
      if lateral then [.lateralJoin tbl.isDerived on.length, .uses .lateralJoins]
      else t.clauseConstructs on

/-- The constructs of joined tables. -/
def joinsConstructs (t : Target) : List Join → List Construct
  | [] => []
  | j :: rest => t.joinConstructs j ++ t.joinsConstructs rest

/-- The constructs of the branches of a union. -/
def branchConstructs (t : Target) : List UnionBranch → List Construct
  | [] => []
  | ⟨query, _⟩ :: rest => t.selectConstructs query ++ t.branchConstructs rest

/-- The constructs of a condition on rows. -/
def predicateConstructs (t : Target) : Predicate → List Construct
  | .raw _ _ => []
  | .compare c _ _ => c.constructs
  | .bitwise c _ _ => c.constructs
  | .jsonBoolean _ _ _ => [.uses .jsonSelectors]
  | .like c _ caseSensitive _ => likeConstructs caseSensitive ++ c.constructs
  | .between c _ _ _ => c.constructs
  | .betweenColumns c low high _ => columnConstructs [c, low, high]
  | .inList c values _ => if values.isEmpty then [] else c.constructs
  | .inQuery c query _ => c.constructs ++ t.selectConstructs query
  | .inIntegers c values _ => if values.isEmpty then [] else c.constructs
  | .isNull c => c.constructs
  | .isNotNull c => c.constructs
  | .datePart _ c _ _ => c.constructs
  | .group inner => .whereGroup inner.length :: t.clauseConstructs inner
  | .hasRows query _ => t.selectConstructs query
  | .compareQuery c _ query => c.constructs ++ t.selectConstructs query
  | .compareColumns first _ second => columnConstructs [first, second]
  | .rowValues columns _ values =>
    .rowComparison columns.length values.length :: columnConstructs columns
  | .jsonContains _ _ _ => [.uses .jsonContains]
  | .jsonContainsKey _ _ => [.uses .jsonContainsKey]
  | .jsonLength _ _ _ => [.uses .jsonLength]
  | .fullText columns _ _ => .uses .fullTextSearch :: columnConstructs columns

/-- The constructs of conditions on rows. -/
def clauseConstructs (t : Target) : List (Clause Predicate) → List Construct
  | [] => []
  | ⟨_, node⟩ :: rest => t.predicateConstructs node ++ t.clauseConstructs rest

/-- The constructs of a query, those of its nested queries included. -/
def selectConstructs (t : Target) : Query → List Construct
  | ⟨src, columns, distinct, aggregate, joins, wheres, groups, havings, orders, limit, offset, lock,
      unions, unionOrders, unionLimit, unionOffset⟩ =>
    let q : Query :=
      ⟨src, columns, distinct, aggregate, joins, wheres, groups, havings, orders, limit, offset,
        lock, unions, unionOrders, unionLimit, unionOffset⟩
    q.constructsAround t (t.sourceConstructs src) (t.joinsConstructs joins)
      (t.clauseConstructs wheres) (t.branchConstructs unions)

end

/-- The constructs of a query are its own and those of its nested parts. -/
theorem selectConstructs_eq (t : Target) (q : Query) :
    t.selectConstructs q =
      q.constructsAround t (t.sourceConstructs q.source) (t.joinsConstructs q.joins)
        (t.clauseConstructs q.wheres) (t.branchConstructs q.unions) := by
  cases q
  rfl

end Target

/-! ## §2 One clause -/

/-- The nested parts of a query fail for the constructs gathered from them. -/
structure PartsFailFor (t : Target) (q : Query) (parts : Parts) : Prop where
  source : FailsFor t (t.sourceConstructs q.source) parts.source
  joins : FailsFor t (t.joinsConstructs q.joins) parts.joins
  wheres : FailsFor t (t.clauseConstructs q.wheres) parts.wheres
  branches : FailsFor t (t.branchConstructs q.unions) parts.branches

/-- The constructs of one clause of a query with the given aggregate. -/
def componentConstructs (t : Target) (q : Query) (aggregate : Option Aggregate) :
    Component → List Construct
  | .aggregate =>
    aggregate.elim [] fun aggregate => columnConstructs (aggregate.columns ++ q.distinct.columns)
  | .columns =>
    if aggregate.isSome then []
    else columnConstructs (writtenDistinct t q.distinct ++ q.columns.getD [])
  | .source => t.sourceConstructs q.source
  | .joins => t.joinsConstructs q.joins
  | .wheres => t.clauseConstructs q.wheres
  | .groups => columnConstructs q.groups
  | .havings => havingConstructs q.havings
  | .orders => orderConstructs q.orders
  | .limit | .offset | .lock => []

theorem columnConstructs_append (columns others : List Column) :
    columnConstructs (columns ++ others) = columnConstructs columns ++ columnConstructs others :=
  List.flatMap_append

/-- An aggregate looks at its columns and at the columns that are distinct. -/
theorem aggregateClause_failsFor (distinct : Distinct) (aggregate : Aggregate) :
    FailsFor t (columnConstructs (aggregate.columns ++ distinct.columns))
      (t.aggregateClause distinct aggregate) := by
  rw [columnConstructs_append]
  unfold Target.aggregateClause
  refine (columnList_failsFor _).bind fun columns _ => ?_
  cases distinct with
  | on on => exact (columnList_failsFor on).andThen fun _ => .result _
  | all | off => exact .result _

/-- Only PostgreSQL looks at distinct columns in front of a select list. -/
theorem columnsClause_failsFor (q : Query) (columns : List Column) :
    FailsFor t (columnConstructs (writtenDistinct t q.distinct ++ columns))
      (t.columnsClause q columns) := by
  rw [columnConstructs_append]
  unfold Target.columnsClause
  have hlist := columnList_failsFor (t := t) columns
  split
  all_goals
    split
    · rename_i on hpostgres hdistinct
      have hwritten : writtenDistinct t q.distinct = on := by
        unfold writtenDistinct
        rw [hpostgres, hdistinct]
      rw [hwritten]
      exact (columnList_failsFor on).bind fun _ _ => hlist.map _
    · rename_i hother
      rw [writtenDistinct_eq_nil hother]
      exact hlist.map _

theorem groupsClause_failsFor (groups : List Column) :
    FailsFor t (columnConstructs groups) (t.groupsClause groups) := by
  unfold Target.groupsClause
  cases groups with
  | nil => exact .result _
  | cons first rest => exact (columnList_failsFor (first :: rest)).map _

theorem sortKey_failsFor (key : SortKey) : FailsFor t key.constructs (t.sortKey key) := by
  cases key with
  | column c direction => exact (column_failsFor c).map _
  | raw text bindings => exact .result _
  | random seed => exact .result _

/-- An order meets the constructs of all of its keys. -/
theorem ordersClause_failsFor (orders : List SortKey) :
    FailsFor t (orderConstructs orders) (t.ordersClause orders) := by
  unfold Target.ordersClause
  cases orders with
  | nil => exact .result _
  | cons first rest =>
    exact (FailsFor.mapM (first :: rest) fun key _ => sortKey_failsFor key).map _

theorem orderConstructs_accepted (hjson : Feature.jsonSelectors ∉ t.dialect.missing)
    (orders : List SortKey) : ∀ c ∈ orderConstructs orders, ∀ f, ¬t.Refuses c f := by
  intro c hc
  obtain ⟨key, _, hc⟩ := List.mem_flatMap.1 hc
  cases key with
  | column column direction => exact column.constructs_accepted hjson c hc
  | raw text bindings => cases hc
  | random seed => cases hc

/-- A query without a select list selects the star, which is no selector. -/
theorem columnConstructs_getD (columns : Option (List Column)) :
    columnConstructs (columns.getD [.named "*"]) = columnConstructs (columns.getD []) := by
  cases columns with
  | none => rfl
  | some columns => rfl

/-- Each clause meets its own constructs, around nested parts that do. -/
theorem component_failsFor (hparts : PartsFailFor t q parts) (c : Component) :
    FailsFor t (componentConstructs t q aggregate c) (t.component q aggregate parts c) := by
  cases c with
  | aggregate =>
    cases aggregate with
    | none => exact .result _
    | some aggregate => exact aggregateClause_failsFor ..
  | columns =>
    cases aggregate with
    | none =>
      have hlist := columnsClause_failsFor (t := t) q (q.columns.getD [.named "*"])
      rw [columnConstructs_append, columnConstructs_getD, ← columnConstructs_append] at hlist
      exact hlist
    | some aggregate => exact .result _
  | source =>
    unfold Target.component componentConstructs
    cases hsource : q.source with
    | none => exact .result _
    | some tbl =>
      have htable := hparts.source
      rw [hsource] at htable
      exact htable.map _
  | joins => exact hparts.joins
  | wheres => exact hparts.wheres
  | groups => exact groupsClause_failsFor q.groups
  | havings => exact havingClause_failsFor q.havings
  | orders => exact ordersClause_failsFor q.orders
  | limit | offset | lock =>
    -- a page and a lock are written as they are
    rw [Target.component]
    split <;> exact .result _

/-- A lateral join is refused for its table or its conditions before the dialect is asked. -/
theorem lateralJoin_failsFor (kind : JoinKind) (tbl : Table) (on : List (Clause Predicate))
    (joined : Sql) :
    FailsFor t [.lateralJoin tbl.isDerived on.length, .uses .lateralJoins]
      (do
        if !tbl.isDerived then throw .lateralTarget
        if !on.isEmpty then throw .lateralCondition
        t.lateralJoin kind joined) := by
  cases tbl.isDerived with
  | false => exact .fault List.mem_cons_self .lateralTarget
  | true =>
    cases on with
    | cons first rest =>
      exact .fault List.mem_cons_self (.lateralCondition (Nat.succ_pos rest.length))
    | nil =>
      -- nothing is wrong with the join itself, so only the dialect may refuse it
      refine FailsFor.cons (fun f hrefused => ?_) ?_
      · cases hrefused with
        | lateralCondition hpos => exact absurd hpos (Nat.lt_irrefl 0)
      · show FailsFor t _ (t.lateralJoin kind joined)
        unfold Target.lateralJoin
        split <;> rename_i hdialect
        · exact .has (by rw [hdialect]; decide) (.result _)
        · exact .has (by rw [hdialect]; decide) (.result _)
        · exact .has (by rw [hdialect]; decide) (.result _)
        · exact .lacks (by rw [hdialect]; decide) List.mem_cons_self
        · exact .lacks (by rw [hdialect]; decide) List.mem_cons_self

/-! ## §3 Layouts -/

/-- The constructs of the clauses of a query with the given aggregate. -/
def bodyConstructs (t : Target) (q : Query) (aggregate : Option Aggregate) : List Construct :=
  t.dialect.components.flatMap (componentConstructs t q aggregate)

/-- All clauses are compiled, those without text among them. -/
theorem components_failsFor (hparts : PartsFailFor t q parts) :
    FailsFor t (bodyConstructs t q aggregate) (t.components q aggregate parts) :=
  (FailsFor.mapM _ fun c _ => (component_failsFor hparts c).map _).map _

/-- Only SQL Server cannot fetch nothing of a union. -/
theorem unionPage_failsFor (hserver : t.dialect = .sqlserver) (limit offset : Option UInt64) :
    FailsFor t (limit.toList.map .unionLimit) (Target.unionPage limit offset) := by
  unfold Target.unionPage
  split
  · split
    · rename_i hzero
      rw [hzero]
      exact .fault List.mem_cons_self (.emptyUnionFetch hserver)
    · rename_i hlimit
      refine (FailsFor.result _).cons fun f hrefused => ?_
      cases hrefused with
      | emptyUnionFetch => exact hlimit rfl
  · exact .result _

/-- Where rows are united, their page is looked at first in SQL Server, and last elsewhere. -/
theorem withUnions_failsFor (hparts : PartsFailFor t q parts) (sql : Sql) :
    FailsFor t (q.unionConstructs (t.branchConstructs q.unions)) (t.withUnions q parts sql) := by
  have horders := ordersClause_failsFor (t := t) q.unionOrders
  unfold Target.withUnions Query.unionConstructs
  split
  · exact .result _
  · refine FailsFor.map ?_ _
    unfold Target.unionsClause
    split
    · rename_i hserver
      have hpage := unionPage_failsFor hserver q.unionLimit q.unionOffset
      refine (hpage.bind fun _ _ => horders.bind fun _ _ => hparts.branches.map _).congr ?_
      intro c
      simp only [List.mem_append]
      tauto
    · rename_i hother
      refine ((hparts.branches.bind fun _ _ => horders.map _).append fun c hc f hrefused => ?_)
      -- the limit of a union may be anything here
      obtain ⟨limit, _, rfl⟩ := List.mem_map.1 hc
      cases hrefused with
      | emptyUnionFetch hserver => exact hother hserver

/-- A query meets the constructs of its clauses and those of its branches. -/
theorem plainLayout_failsFor (aggregate : Option Aggregate) (hparts : PartsFailFor t q parts) :
    FailsFor t (bodyConstructs t q aggregate ++ q.unionConstructs (t.branchConstructs q.unions))
      (t.plainLayout q aggregate parts) :=
  (components_failsFor hparts).bind fun _ _ => withUnions_failsFor hparts _

theorem numberedLayout_failsFor (hparts : PartsFailFor t q parts) :
    FailsFor t (bodyConstructs t q none ++ q.unionConstructs (t.branchConstructs q.unions))
      (t.numberedLayout q parts) :=
  (components_failsFor hparts).bind fun _ _ => withUnions_failsFor hparts _

/-- However a query is laid out, its clauses are the same, up to an order in raw SQL. -/
theorem layout_failsFor (aggregate : Option Aggregate) (hparts : PartsFailFor t q parts) :
    FailsFor t (bodyConstructs t q aggregate ++ q.unionConstructs (t.branchConstructs q.unions))
      (t.layout q aggregate parts) := by
  have hsame : ∀ {q' : Query}, (∀ c, componentConstructs t q' aggregate c =
      componentConstructs t q aggregate c) → bodyConstructs t q' aggregate =
        bodyConstructs t q aggregate := fun h =>
    congrArg (t.dialect.components.flatMap ·) (funext h)
  -- SQL Server lays out a query without its offset, with numbered rows, or with an order of its
  -- own; none of these changes touches a construct
  unfold Target.layout
  split
  · split
    · have hplain := plainLayout_failsFor (q := { q with offset := none }) aggregate
        ⟨hparts.source, hparts.joins, hparts.wheres, hparts.branches⟩
      rwa [hsame fun c => by cases c <;> rfl] at hplain
    · split
      · rename_i hnumbers
        -- only plain selects are numbered
        have haggregate : aggregate = none := by
          simp only [Target.numbersRows, Bool.and_eq_true] at hnumbers
          simpa using hnumbers.1.1.2
        rw [haggregate]
        exact numberedLayout_failsFor hparts
      · split
        · rename_i hunordered
          have hplain := plainLayout_failsFor (q := { q with orders := [.ofSql "(SELECT 0)"] })
            aggregate ⟨hparts.source, hparts.joins, hparts.wheres, hparts.branches⟩
          have horders : q.orders = [] := List.isEmpty_iff.1 hunordered.2
          rwa [hsame fun c => by
            cases c with
            | orders =>
              rw [componentConstructs, componentConstructs, horders]
              rfl
            | _ => rfl] at hplain
        · exact plainLayout_failsFor aggregate hparts
  · exact plainLayout_failsFor aggregate hparts

/-! ## §4 Whole queries -/

/-- The dialects differ in the order of their clauses only. -/
theorem mem_bodyConstructs {c : Construct} :
    c ∈ bodyConstructs t q aggregate ↔
      c ∈ componentConstructs t q aggregate .aggregate ∨
        c ∈ componentConstructs t q aggregate .columns ∨ c ∈ t.sourceConstructs q.source ∨
        c ∈ t.joinsConstructs q.joins ∨ c ∈ t.clauseConstructs q.wheres ∨
        c ∈ columnConstructs q.groups ∨ c ∈ havingConstructs q.havings ∨
        c ∈ orderConstructs q.orders := by
  unfold bodyConstructs
  cases t.dialect <;> simp [Dialect.components, componentConstructs]

/-- A query fails for the constructs around its nested parts if these fail for their own. -/
theorem finish_failsFor (hparts : PartsFailFor t q parts) :
    FailsFor t (q.constructsAround t (t.sourceConstructs q.source) (t.joinsConstructs q.joins)
      (t.clauseConstructs q.wheres) (t.branchConstructs q.unions)) (t.finish q parts) := by
  unfold Target.finish
  split
  · rename_i aggregate haggregate
    split
    · -- the aggregate looks at a finished select, whose list is written too
      rename_i hover
      have hselect := layout_failsFor none hparts
      refine ((aggregateClause_failsFor q.distinct aggregate).bind fun _ _ =>
        hselect.map _).congr fun c => ?_
      simp only [Query.constructsAround, haggregate, hover, List.mem_append, mem_bodyConstructs]
      simp [componentConstructs]
      tauto
    · -- the aggregate takes the place of the select list
      rename_i hover
      refine (layout_failsFor _ hparts).congr fun c => ?_
      simp only [Query.constructsAround, haggregate, List.mem_append, mem_bodyConstructs]
      simp [componentConstructs, hover]
      tauto
  · rename_i haggregate
    refine (layout_failsFor _ hparts).congr fun c => ?_
    simp only [Query.constructsAround, haggregate, List.mem_append, mem_bodyConstructs]
    simp [componentConstructs]
    tauto

/-! ## §5 Nested parts -/

mutual

/-- A table, by recursion on the query that it is derived from. -/
theorem table_failsFor : (tbl : Table) → FailsFor t (t.tableConstructs tbl) (t.table tbl)
  | .named _ => by
    rw [Target.table, Target.tableConstructs]
    exact .result _
  | .raw _ _ => by
    rw [Target.table, Target.tableConstructs]
    exact .result _
  | .derived query _ => by
    rw [Target.table, Target.tableConstructs]
    exact (select_failsFor query).map _

theorem source_failsFor : (src : Option Table) →
    FailsFor t (t.sourceConstructs src) (t.source src)
  | none => by
    rw [Target.source, Target.sourceConstructs]
    exact .result _
  | some tbl => by
    rw [Target.source, Target.sourceConstructs]
    exact table_failsFor tbl

/-- A joined table; a lateral one is looked at after its table and its inner joins. -/
theorem join_failsFor : (j : Join) → FailsFor t (t.joinConstructs j) (t.join j)
  | ⟨kind, tbl, on, joins, lateral⟩ => by
    rw [Target.join, Target.joinConstructs, List.append_assoc]
    refine (table_failsFor tbl).bind fun joined _ => (joins_failsFor joins).bind fun inner _ => ?_
    -- the conditions of a lateral join are not written, they are counted
    split
    · exact lateralJoin_failsFor ..
    · exact (clauses_failsFor on).map _

theorem joins_failsFor : (joins : List Join) →
    FailsFor t (t.joinsConstructs joins) (t.joins joins)
  | [] => by
    rw [Target.joins, Target.joinsConstructs]
    exact .result _
  | j :: rest => by
    rw [Target.joins, Target.joinsConstructs]
    exact (join_failsFor j).bind fun _ _ => (joins_failsFor rest).map _

theorem branches_failsFor : (branches : List UnionBranch) →
    FailsFor t (t.branchConstructs branches) (t.branches branches)
  | [] => by
    rw [Target.branches, Target.branchConstructs]
    exact .result _
  | ⟨query, _⟩ :: rest => by
    rw [Target.branches, Target.branchConstructs]
    exact (select_failsFor query).bind fun _ _ => (branches_failsFor rest).map _

/-- A condition on rows, by recursion on groups and on the queries that it looks into. -/
theorem predicate_failsFor : (p : Predicate) →
    FailsFor t (t.predicateConstructs p) (t.predicate p)
  | .inQuery c query _ => by
    rw [Target.predicate, Target.predicateConstructs]
    exact (column_failsFor c).bind fun _ _ => (select_failsFor query).map _
  | .hasRows query _ => by
    rw [Target.predicate, Target.predicateConstructs]
    exact (select_failsFor query).map _
  | .compareQuery c _ query => by
    rw [Target.predicate, Target.predicateConstructs]
    exact (column_failsFor c).bind fun _ _ => (select_failsFor query).map _
  | .group inner => by
    rw [Target.predicate, Target.predicateConstructs]
    -- an empty group is refused; any other is as good as its conditions
    cases inner with
    | nil => exact .fault List.mem_cons_self .emptyWhereGroup
    | cons first rest => exact ((clauses_failsFor (first :: rest)).map _).cons nofun
  -- a condition without a query in it is refused by its own function or not at all
  | .raw _ _ => by
    rw [Target.predicate, Target.predicateConstructs]
    exact .result _
  | .compare _ _ _ => by
    rw [Target.predicate, Target.predicateConstructs]
    exact compareOperand_failsFor ..
  | .bitwise _ _ _ => by
    rw [Target.predicate, Target.predicateConstructs]
    exact bitwise_failsFor ..
  | .jsonBoolean _ _ _ => by
    rw [Target.predicate, Target.predicateConstructs]
    exact jsonBoolean_failsFor ..
  | .like _ _ _ _ => by
    rw [Target.predicate, Target.predicateConstructs]
    exact like_failsFor ..
  | .between _ _ _ _ => by
    rw [Target.predicate, Target.predicateConstructs]
    exact between_failsFor ..
  | .betweenColumns _ _ _ _ => by
    rw [Target.predicate, Target.predicateConstructs]
    exact betweenColumns_failsFor ..
  | .inList _ _ _ => by
    rw [Target.predicate, Target.predicateConstructs]
    exact inList_failsFor ..
  | .inIntegers _ _ _ => by
    rw [Target.predicate, Target.predicateConstructs]
    exact inIntegers_failsFor ..
  | .isNull _ => by
    rw [Target.predicate, Target.predicateConstructs]
    exact nullTest_failsFor ..
  | .isNotNull _ => by
    rw [Target.predicate, Target.predicateConstructs]
    exact nullTest_failsFor ..
  | .datePart _ _ _ _ => by
    rw [Target.predicate, Target.predicateConstructs]
    exact datePart_failsFor ..
  | .compareColumns _ _ _ => by
    rw [Target.predicate, Target.predicateConstructs]
    exact compareColumns_failsFor ..
  | .rowValues _ _ _ => by
    rw [Target.predicate, Target.predicateConstructs]
    exact rowValues_failsFor ..
  | .jsonContains _ _ _ => by
    rw [Target.predicate, Target.predicateConstructs]
    exact jsonContains_failsFor ..
  | .jsonContainsKey _ _ => by
    rw [Target.predicate, Target.predicateConstructs]
    exact jsonContainsKey_failsFor ..
  | .jsonLength _ _ _ => by
    rw [Target.predicate, Target.predicateConstructs]
    exact jsonLength_failsFor ..
  | .fullText _ _ _ => by
    rw [Target.predicate, Target.predicateConstructs]
    exact fullText_failsFor ..

/-- Conditions on rows, one by one. -/
theorem clauses_failsFor : (clauses : List (Clause Predicate)) →
    FailsFor t (t.clauseConstructs clauses) (t.clauses clauses)
  | [] => by
    rw [Target.clauses, Target.clauseConstructs]
    exact .result _
  | ⟨_, node⟩ :: rest => by
    rw [Target.clauses, Target.clauseConstructs]
    exact (predicate_failsFor node).bind fun _ _ => (clauses_failsFor rest).map _

/-- A query fails exactly if one of its constructs is refused, and with the fault of one that is. -/
theorem select_failsFor : (q : Query) → FailsFor t (t.selectConstructs q) (t.select q)
  | ⟨src, columns, distinct, aggregate, joins, wheres, groups, havings, orders, limit, offset, lock,
      unions, unionOrders, unionLimit, unionOffset⟩ => by
    rw [Target.selectConstructs, Target.select]
    refine finish_failsFor ⟨?_, ?_, ?_, ?_⟩
    · exact source_failsFor src
    · exact joins_failsFor joins
    · exact (clauses_failsFor wheres).map _
    · exact branches_failsFor unions

end

/-! ## §6 The faults of a query -/

/-- A query has no SQL exactly if something that is written of it, at any depth, is refused; the
fault is then that of something refused. -/
theorem select_error_iff (t : Target) (q : Query) :
    ((∃ f, t.select q = .error f) ↔ ∃ c ∈ t.selectConstructs q, ∃ f, t.Refuses c f) ∧
      ∀ f, t.select q = .error f → ∃ c ∈ t.selectConstructs q, t.Refuses c f :=
  ⟨(select_failsFor q).error_iff, (select_failsFor q).blamed⟩

/-- The users with a post in some language; the selector stands two queries deep. -/
def usersWithLanguage : Query :=
  { Query.empty with
    source := some (.derived
      { Query.empty with
        source := some (.named "users")
        wheres := [⟨.and, .hasRows { Query.empty with
          source := some (.named "posts")
          wheres := [⟨.and, .isNotNull (.named "meta->lang")⟩] } false⟩] } "readers")
    limit := some 10 }

/-- SQL without JSON cannot write the selector, and names it as the reason. -/
theorem usersWithLanguage_faults :
    (∃ f, (⟨.generic, {}⟩ : Target).select usersWithLanguage = .error f) ∧
      (∀ f, (⟨.generic, {}⟩ : Target).select usersWithLanguage = .error f →
        f = .unsupported .generic .jsonSelectors) ∧
      ¬∃ f, (⟨.sqlite, {}⟩ : Target).select usersWithLanguage = .error f := by
  have hconstructs : ∀ t : Target,
      t.selectConstructs usersWithLanguage = [.uses .jsonSelectors] := by
    intro t
    have hselector : isSelector (unaliased "meta->lang") = true := by decide
    simp [usersWithLanguage, Query.empty, Target.selectConstructs, Target.sourceConstructs,
      Target.tableConstructs, Target.joinsConstructs, Target.clauseConstructs,
      Target.predicateConstructs, Query.constructsAround,
      Query.unionConstructs, writtenDistinct, columnConstructs, orderConstructs, havingConstructs,
      Column.constructs, hselector]
  refine ⟨(select_error_iff _ _).1.2 ?_, fun f hf => ?_, fun hfault => ?_⟩
  · refine ⟨.uses .jsonSelectors, ?_, _, .missing (by simp [Dialect.missing])⟩
    rw [hconstructs]
    exact List.mem_cons_self
  · obtain ⟨c, hc, hrefused⟩ := (select_error_iff _ _).2 f hf
    rw [hconstructs, List.mem_singleton] at hc
    subst hc
    cases hrefused
    rfl
  · obtain ⟨c, hc, f, hrefused⟩ := (select_error_iff _ _).1.1 hfault
    rw [hconstructs, List.mem_singleton] at hc
    subst hc
    cases hrefused with
    | missing hmissing => exact absurd hmissing (by decide)

end SqlCompiler
