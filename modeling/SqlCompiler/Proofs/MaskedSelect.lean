import SqlCompiler.Proofs.MaskedPredicates

/-!
# Texts of Masked Queries

Masking a query changes neither its text nor its fault. A query is laid out around its nested parts,
so the layout is compared for parts that agree, and the parts agree by recursion.

## Main statements

- `columnsClause_mask`, `ordersClause_mask`, `unionsClause_mask`, …: the clauses one by one
- `finish_mask`: layout around parts that agree
- `select_mask`: a query, by recursion on it together with its tables, joins and conditions
-/

namespace SqlCompiler

open Sql

variable {t : Target} {q : Query}

/-! ## §1 Clauses -/

/-- Whether the columns of an aggregate are a star, which takes no `distinct`, is told from their
text. -/
theorem aggregateClause_mask (distinct : Distinct) (aggregate : Aggregate) :
    Alike SameText (t.aggregateClause distinct.mask aggregate.mask)
      (t.aggregateClause distinct aggregate) := by
  refine (columnList_mask t aggregate.columns).bind fun columns columns' hcolumns => ?_
  cases distinct with
  | off => exact .pure ⟨by simp [hcolumns.text]⟩
  | all =>
    -- whether all columns are counted is read off their text
    simp only [Distinct.mask]
    rw [hcolumns.text]
    refine .pure ⟨?_⟩
    split <;> simp [hcolumns.text]
  | on on =>
    exact (columnList_mask t on).bind fun list list' hlist => .pure ⟨by simp [hlist.text]⟩

/-- The select list, with `top` of the same limit. -/
theorem columnsClause_mask (q : Query) (columns : List Column) :
    Alike SameText (t.columnsClause q.mask (maskColumns columns)) (t.columnsClause q columns) := by
  have htop : Target.top q.mask = Target.top q := by
    rw [Query.mask_eq]
    rfl
  unfold Target.columnsClause
  rw [Query.distinct_mask, htop]
  cases q.distinct <;> cases t.dialect <;> simp only [Distinct.mask, pure_bind]
  case on.postgres on =>
    -- the only case in which the keyword brings columns of its own
    exact (columnList_mask t on).bind fun keys keys' hkeys =>
      (columnList_mask t columns).bind fun list list' hlist =>
        .pure ⟨by simp [hkeys.text, hlist.text]⟩
  all_goals
    exact (columnList_mask t columns).bind fun list list' hlist =>
      .pure (.append (.refl _) hlist)

/-- The table with the hint of the lock. -/
theorem sourceClause_mask (lock : Option Lock) {table table' : Sql} (h : SameText table table') :
    SameText (t.sourceClause lock table) (t.sourceClause lock table') := by
  unfold Target.sourceClause
  split
  · exact .words (.cons (.append (.refl _) h) (.cons (.refl _) .nil))
  · exact .append (.refl _) h

/-- The columns of groups, left out alike. -/
theorem groupsClause_mask (groups : List Column) :
    Alike SameText (t.groupsClause (maskColumns groups)) (t.groupsClause groups) := by
  unfold Target.groupsClause
  rw [maskColumns_isEmpty]
  split
  · exact alike_refl _
  · exact (columnList_mask t groups).bind fun list list' hlist => .pure ⟨by simp [hlist.text]⟩

/-- A sort key is a column, verbatim SQL or a function without values. -/
theorem sortKey_mask (key : SortKey) : Alike SameText (t.sortKey key.mask) (t.sortKey key) := by
  cases key with
  | column c direction =>
    exact (column_mask t c).bind fun left left' hleft => .pure ⟨by simp [hleft.text]⟩
  | raw text bindings => exact .result ⟨by simp⟩
  | random seed => exact alike_refl _

/-- Sort keys in a row, left out alike. -/
theorem ordersClause_mask (orders : List SortKey) :
    Alike SameText (t.ordersClause (orders.map SortKey.mask)) (t.ordersClause orders) := by
  unfold Target.ordersClause
  rw [List.isEmpty_map]
  split
  · exact alike_refl _
  · exact (Alike.mapM_map orders sortKey_mask).bind fun keys keys' hkeys =>
      .pure (.append (.refl _) (.join ", " hkeys))

theorem unionSide_mask {side side' : Sql} (h : SameText side side') :
    SameText (t.unionSide side) (t.unionSide side') := by
  unfold Target.unionSide
  split <;> exact ⟨by simp [h.text]⟩

/-- The branches of a union agree by assumption; its order and its page belong to the query. -/
theorem unionsClause_mask (q : Query) {branches branches' : Except Fault Sql}
    (h : Alike SameText branches branches') :
    Alike SameText (t.unionsClause q.mask branches) (t.unionsClause q branches') := by
  rw [Query.mask_eq]
  unfold Target.unionsClause
  split
  · -- SQL Server makes up an order for a page if there is none, which is seen in the text
    refine .step _ fun page => ?_
    refine (ordersClause_mask q.unionOrders).bind fun orders orders' horders => ?_
    refine h.bind fun sides sides' hsides => .pure ?_
    rw [horders.isEmpty]
    refine .words (.cons hsides (.cons ?_ (.cons (.refl _) .nil)))
    split
    · exact .refl _
    · exact horders
  · refine h.bind fun sides sides' hsides => ?_
    refine (ordersClause_mask q.unionOrders).bind fun orders orders' horders => .pure ?_
    exact .words (.cons hsides (.cons horders (List.forall₂_same.2 fun _ _ => .refl _)))

/-! ## §2 Layout -/

/-- Nested parts that agree one by one. -/
structure PartsAlike (parts parts' : Parts) : Prop where
  source : Alike SameText parts.source parts'.source
  joins : Alike SameText parts.joins parts'.joins
  wheres : Alike SameText parts.wheres parts'.wheres
  branches : Alike SameText parts.branches parts'.branches

/-- Two clauses of one kind with the same text. -/
inductive SameEntry : Component × Sql → Component × Sql → Prop where
  | entry (c : Component) {a b : Sql} (h : SameText a b) : SameEntry (c, a) (c, b)

section Layout

variable {parts parts' : Parts}

/-- Each clause around nested parts that are alike. -/
theorem component_mask (q : Query) (aggregate : Option Aggregate) (h : PartsAlike parts parts')
    (c : Component) :
    Alike SameText (t.component q.mask (aggregate.map Aggregate.mask) parts c)
      (t.component q aggregate parts' c) := by
  rw [Query.mask_eq]
  cases c with
  | aggregate =>
    cases aggregate with
    | none => exact alike_refl _
    | some aggregate => exact aggregateClause_mask q.distinct aggregate
  | columns =>
    cases aggregate with
    | some aggregate => exact alike_refl _
    | none =>
      -- the select list that stands for a missing one has no values
      have hcolumns : (q.columns.map maskColumns).getD [.named "*"] =
          maskColumns (q.columns.getD [.named "*"]) := by
        cases q.columns <;> rfl
      simp only [Target.component, Option.map_none, hcolumns]
      rw [← Query.mask_eq]
      exact columnsClause_mask q _
  | source =>
    unfold Target.component
    cases q.source with
    | none => exact alike_refl _
    | some tbl =>
      exact h.source.bind fun table table' htable => .pure (sourceClause_mask q.lock htable)
  | joins => exact h.joins
  | wheres => exact h.wheres
  | groups => exact groupsClause_mask q.groups
  | havings => exact havingClause_mask t q.havings
  | orders => exact ordersClause_mask q.orders
  | limit => exact alike_refl _
  | offset => exact alike_refl _
  | lock => exact alike_refl _

/-- The same clauses are left out, since they are empty alike. -/
theorem components_mask (q : Query) (aggregate : Option Aggregate) (h : PartsAlike parts parts') :
    Alike (List.Forall₂ SameEntry)
      (t.components q.mask (aggregate.map Aggregate.mask) parts)
      (t.components q aggregate parts') := by
  refine Alike.bind (R := List.Forall₂ SameEntry) (Alike.mapM (P := Eq) ?_ ?_)
    fun clauses clauses' hclauses => ?_
  · exact List.forall₂_same.2 fun _ _ => rfl
  · rintro c _ rfl
    exact (component_mask q aggregate h c).bind fun sql sql' hsql =>
      .pure (.entry c hsql)
  · -- a clause is dropped for its text alone
    refine .pure (List.rel_filter ?_ hclauses)
    rintro _ _ ⟨c, hsql⟩
    simp [hsql.isEmpty]

/-- A select with its branches behind it, if it has any. -/
theorem withUnions_mask (q : Query) (h : PartsAlike parts parts') {body body' : Sql}
    (hbody : SameText body body') :
    Alike SameText (t.withUnions q.mask parts body) (t.withUnions q parts' body') := by
  unfold Target.withUnions
  rw [Query.unions_mask, maskBranches_isEmpty]
  split
  · exact .pure hbody
  · exact (unionsClause_mask q h.branches).bind fun sides sides' hsides =>
      .pure (((unionSide_mask hbody).append (.refl _)).append hsides)

/-- Clauses in a row. -/
theorem plainLayout_mask (q : Query) (aggregate : Option Aggregate)
    (h : PartsAlike parts parts') :
    Alike SameText (t.plainLayout q.mask (aggregate.map Aggregate.mask) parts)
      (t.plainLayout q aggregate parts') := by
  refine (components_mask q aggregate h).bind fun clauses clauses' hclauses => ?_
  refine withUnions_mask q h (.words ?_)
  rw [List.forall₂_map_left_iff, List.forall₂_map_right_iff]
  refine hclauses.imp ?_
  rintro _ _ ⟨c, hsql⟩
  exact hsql

/-- The order that row numbers go by is found by its kind. -/
theorem find_orders_mask {clauses clauses' : List (Component × Sql)}
    (h : List.Forall₂ SameEntry clauses clauses') :
    SameText
      (match clauses.find? fun (c, _) => c == .orders with
        | some (_, sql) => sql
        | none => "order by (select 0)")
      (match clauses'.find? fun (c, _) => c == .orders with
        | some (_, sql) => sql
        | none => "order by (select 0)") := by
  induction h with
  | nil => exact .refl _
  | cons hab _ ih =>
    obtain ⟨c, hsql⟩ := hab
    simp only [List.find?_cons]
    -- both runs meet the order at the same place
    cases c == Component.orders
    · exact ih
    · exact hsql

/-- Row numbers over an order with the same text. -/
theorem numberedLayout_mask (q : Query) (h : PartsAlike parts parts') :
    Alike SameText (t.numberedLayout q.mask parts) (t.numberedLayout q parts') := by
  have hrange : Target.rowNumberRange q.mask = Target.rowNumberRange q := by
    rw [Query.mask_eq]
    rfl
  unfold Target.numberedLayout
  rw [hrange]
  refine (components_mask q none h).bind fun clauses clauses' hclauses => ?_
  have horders := find_orders_mask hclauses
  extract_lets orders inner orders' inner'
  -- each clause is kept, dropped or extended for its kind
  have hinner : List.Forall₂ SameText inner inner' := by
    refine List.rel_filterMap ?_ hclauses
    rintro _ _ ⟨c, hsql⟩
    cases c with
    | orders | limit | offset => exact .none
    | columns => exact .some (.append (.append (hsql.append (.refl _)) horders) (.refl _))
    | _ => exact .some hsql
  refine withUnions_mask q h ⟨?_⟩
  simp [(SameText.words hinner).text]

/-- A query without its offset is masked like any other one. -/
theorem withoutOffset_mask (q : Query) (aggregate : Option Aggregate)
    (h : PartsAlike parts parts') :
    Alike SameText
      (t.plainLayout { q.mask with offset := none } (aggregate.map Aggregate.mask) parts)
      (t.plainLayout { q with offset := none } aggregate parts') := by
  have hmask : Query.mask { q with offset := none } = { q.mask with offset := none } := by
    cases q
    rfl
  rw [← hmask]
  exact plainLayout_mask _ aggregate h

/-- The order that stands in for a missing one carries no values. -/
theorem withOrder_mask (q : Query) (aggregate : Option Aggregate) (h : PartsAlike parts parts') :
    Alike SameText
      (t.plainLayout { q.mask with orders := [.ofSql "(SELECT 0)"] }
        (aggregate.map Aggregate.mask) parts)
      (t.plainLayout { q with orders := [.ofSql "(SELECT 0)"] } aggregate parts') := by
  have hmask : Query.mask { q with orders := [.ofSql "(SELECT 0)"] } =
      { q.mask with orders := [.ofSql "(SELECT 0)"] } := by
    cases q
    rfl
  rw [← hmask]
  exact plainLayout_mask _ aggregate h

/-- A layout is chosen by limit, offset and aggregate, none of which a mask changes. -/
theorem layout_mask (q : Query) (aggregate : Option Aggregate) (h : PartsAlike parts parts') :
    Alike SameText (t.layout q.mask (aggregate.map Aggregate.mask) parts)
      (t.layout q aggregate parts') := by
  have horders : q.mask.orders.isEmpty = q.orders.isEmpty := by simp
  unfold Target.layout
  -- the layout is chosen by the page, the dialect and the presence of an order
  split
  · by_cases hpage : q.limit = some 0 ∧ 0 < q.skipped
    · rw [if_pos hpage, if_pos (by rwa [Query.limit_mask, Query.skipped_mask])]
      exact withoutOffset_mask q aggregate h
    · rw [if_neg hpage, if_neg (by rwa [Query.limit_mask, Query.skipped_mask]), numbersRows_mask]
      split
      · exact numberedLayout_mask q h
      · by_cases horder : 0 < q.skipped ∧ q.orders.isEmpty = true
        · rw [if_pos horder, if_pos (by rwa [Query.skipped_mask, horders])]
          exact withOrder_mask q aggregate h
        · rw [if_neg horder, if_neg (by rwa [Query.skipped_mask, horders])]
          exact plainLayout_mask q aggregate h
  · exact plainLayout_mask q aggregate h

/-- The aggregate of a query, beside its clauses or over its rows. -/
theorem finish_mask (q : Query) (h : PartsAlike parts parts') :
    Alike SameText (t.finish q.mask parts) (t.finish q parts') := by
  unfold Target.finish
  rw [Query.aggregate_mask, aggregatesOverRows_mask, Query.distinct_mask]
  cases q.aggregate with
  | none => exact layout_mask q none h
  | some aggregate =>
    simp only [Option.map_some]
    split
    · refine (aggregateClause_mask q.distinct aggregate).bind fun head head' hhead => ?_
      exact (layout_mask q none h).bind fun rows rows' hrows =>
        .pure ⟨by simp [hhead.text, hrows.text]⟩
    · exact layout_mask q (some aggregate) h

end Layout

/-! ## §3 Nested parts -/

theorem lateralJoin_mask (kind : JoinKind) {table table' : Sql} (h : SameText table table') :
    Alike SameText (t.lateralJoin kind table) (t.lateralJoin kind table') := by
  unfold Target.lateralJoin
  split
  · exact .result ⟨by simp [h.text]⟩
  · exact .result ⟨by simp [h.text]⟩
  · exact .result (.append (.refl _) h)
  · exact .fault _
  · exact .fault _

/-- Conditions with a keyword in front, left out alike. -/
theorem conditions_mask (keyword : String) {clauses clauses' : List (Clause Sql)}
    (h : List.Forall₂ SameClause clauses clauses') :
    SameText (Target.conditions keyword clauses) (Target.conditions keyword clauses') := by
  unfold Target.conditions
  cases h with
  | nil => exact .refl _
  | cons hfirst hrest => exact .append (.refl _) (.body (.cons hfirst hrest))

mutual

/-- Tables, by recursion on the query that a table is derived from. -/
theorem table_mask (t : Target) : (tbl : Table) → Alike SameText (t.table tbl.mask) (t.table tbl)
  | .named name => by
    simp only [Table.mask, Target.table]
    exact alike_refl _
  | .raw text bindings => by
    simp only [Table.mask, Target.table]
    exact .result ⟨by simp⟩
  | .derived query asName => by
    simp only [Table.mask, Target.table]
    exact (select_mask t query).bind fun select select' hselect => .pure ⟨by simp [hselect.text]⟩

theorem source_mask (t : Target) : (src : Option Table) →
    Alike SameText (t.source (maskSource src)) (t.source src)
  | none => by
    simp only [maskSource, Target.source]
    exact alike_refl _
  | some tbl => by
    simp only [maskSource, Target.source]
    exact table_mask t tbl

/-- A lateral join is refused for its form alone. -/
theorem join_mask (t : Target) : (j : Join) → Alike SameText (t.join j.mask) (t.join j)
  | ⟨kind, tbl, on, inner, lateral⟩ => by
    simp only [Join.mask, Target.join, maskJoins_isEmpty, maskClauses_isEmpty, Table.isDerived_mask]
    refine (table_mask t tbl).bind fun table table' htable => ?_
    refine (joins_mask t inner).bind fun joined joined' hjoined => ?_
    -- inner joins put the table into parentheses, in both runs or in neither
    have htables : SameText (if inner.isEmpty then table else "(" ++ table ++ " " ++ joined ++ ")")
        (if inner.isEmpty then table' else "(" ++ table' ++ " " ++ joined' ++ ")") := by
      split
      · exact htable
      · exact ⟨by simp [htable.text, hjoined.text]⟩
    split
    · split
      · exact .fault _
      · split
        · exact .fault _
        · exact lateralJoin_mask kind htables
    · refine (clauses_mask t on).bind fun conditions conditions' hconditions => .pure ?_
      exact .words (.cons (.refl _) (.cons htables (.cons (conditions_mask "on" hconditions) .nil)))

/-- Joined tables, one by one. -/
theorem joins_mask (t : Target) : (joins : List Join) →
    Alike SameText (t.joins (maskJoins joins)) (t.joins joins)
  | [] => by
    simp only [maskJoins, Target.joins]
    exact alike_refl _
  | j :: rest => by
    simp only [maskJoins, Target.joins, maskJoins_isEmpty]
    refine (join_mask t j).bind fun first first' hfirst => ?_
    refine (joins_mask t rest).bind fun others others' hothers => .pure ?_
    split
    · exact hfirst
    · exact .append (.append hfirst (.refl _)) hothers

/-- The branches of a union, one by one. -/
theorem branches_mask (t : Target) : (branches : List UnionBranch) →
    Alike SameText (t.branches (maskBranches branches)) (t.branches branches)
  | [] => by
    simp only [maskBranches, Target.branches]
    exact alike_refl _
  | ⟨query, all⟩ :: rest => by
    simp only [maskBranches, Target.branches, maskBranches_isEmpty]
    refine (select_mask t query).bind fun select select' hselect => ?_
    refine (branches_mask t rest).bind fun others others' hothers => .pure ?_
    have hside : SameText (t.unionSide select) (t.unionSide select') := unionSide_mask hselect
    split
    · exact .append (.refl _) hside
    · exact .append (.append (.append (.refl _) hside) (.refl _)) hothers

/-- Conditions on rows, by recursion on groups and on the queries that they look into. -/
theorem predicate_mask (t : Target) : (p : Predicate) →
    Alike SameText (t.predicate p.mask) (t.predicate p)
  | .raw text bindings => by
    simp only [Predicate.mask, Target.predicate]
    exact .result ⟨by simp⟩
  | .compare c operator v => by
    simp only [Predicate.mask, Target.predicate]
    exact compare_mask c operator v
  | .bitwise c operator v => by
    simp only [Predicate.mask, Target.predicate]
    exact bitwise_mask c operator v
  | .jsonBoolean selector operator v => by
    simp only [Predicate.mask, Target.predicate]
    exact alike_refl _
  | .like c pattern caseSensitive negated => by
    simp only [Predicate.mask, Target.predicate]
    exact like_mask c pattern caseSensitive negated
  | .between c low high negated => by
    simp only [Predicate.mask, Target.predicate]
    exact between_mask c low high negated
  | .betweenColumns c low high negated => by
    simp only [Predicate.mask, Target.predicate]
    exact betweenColumns_mask c low high negated
  | .inList c values negated => by
    simp only [Predicate.mask, Target.predicate]
    exact inList_mask c values negated
  | .inQuery c query negated => by
    simp only [Predicate.mask, Target.predicate]
    exact (column_mask t c).bind fun left left' hleft =>
      (select_mask t query).bind fun select select' hselect =>
        .pure ⟨by simp [hleft.text, hselect.text]⟩
  | .inIntegers c values negated => by
    simp only [Predicate.mask, Target.predicate]
    exact inIntegers_mask c values negated
  | .isNull c => by
    simp only [Predicate.mask, Target.predicate]
    exact nullTest_mask c true
  | .isNotNull c => by
    simp only [Predicate.mask, Target.predicate]
    exact nullTest_mask c false
  | .datePart part c operator v => by
    simp only [Predicate.mask, Target.predicate]
    exact datePart_mask part c operator v
  | .group inner => by
    simp only [Predicate.mask, Target.predicate, maskClauses_isEmpty]
    split
    · exact .fault _
    · exact (clauses_mask t inner).bind fun clauses clauses' hclauses =>
        .pure ⟨by simp [(SameText.body hclauses).text]⟩
  | .hasRows query negated => by
    simp only [Predicate.mask, Target.predicate]
    exact (select_mask t query).bind fun select select' hselect => .pure ⟨by simp [hselect.text]⟩
  | .compareQuery c operator query => by
    simp only [Predicate.mask, Target.predicate]
    exact (column_mask t c).bind fun left left' hleft =>
      (select_mask t query).bind fun select select' hselect =>
        .pure ⟨by simp [hleft.text, hselect.text]⟩
  | .compareColumns first operator second => by
    simp only [Predicate.mask, Target.predicate]
    exact compareColumns_mask first operator second
  | .rowValues columns operator values => by
    simp only [Predicate.mask, Target.predicate]
    exact rowValues_mask columns operator values
  | .jsonContains selector v negated => by
    simp only [Predicate.mask, Target.predicate]
    exact jsonContains_mask selector v negated
  | .jsonContainsKey selector negated => by
    simp only [Predicate.mask, Target.predicate]
    exact alike_refl _
  | .jsonLength selector operator v => by
    simp only [Predicate.mask, Target.predicate]
    exact jsonLength_mask selector operator v
  | .fullText columns v options => by
    simp only [Predicate.mask, Target.predicate]
    exact fullText_mask columns v options

/-- A list of conditions on rows, one by one. -/
theorem clauses_mask (t : Target) : (clauses : List (Clause Predicate)) →
    Alike (List.Forall₂ SameClause) (t.clauses (maskClauses clauses)) (t.clauses clauses)
  | [] => by
    simp only [maskClauses, Target.clauses]
    exact .result .nil
  | ⟨connective, node⟩ :: rest => by
    simp only [maskClauses, Target.clauses]
    refine (predicate_mask t node).bind fun first first' hfirst => ?_
    exact (clauses_mask t rest).bind fun others others' hothers =>
      .pure (.cons ⟨rfl, hfirst⟩ hothers)

/-- Masking a query changes neither its text nor its fault. -/
theorem select_mask (t : Target) : (q : Query) → Alike SameText (t.select q.mask) (t.select q)
  | ⟨src, columns, distinct, aggregate, joins, wheres, groups, havings, orders, limit, offset, lock,
      unions, unionOrders, unionLimit, unionOffset⟩ => by
    rw [Target.select_eq, Target.select_eq]
    refine finish_mask _ ⟨?_, ?_, ?_, ?_⟩
    · exact source_mask t src
    · exact joins_mask t joins
    · exact (clauses_mask t wheres).bind fun clauses clauses' hclauses =>
        .pure (conditions_mask "where" hclauses)
    · exact branches_mask t unions

end

end SqlCompiler
