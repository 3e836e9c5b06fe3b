import SqlCompiler.Proofs.SelectAlignment

/-!
# Queries as They Are Written

What a query binds is collected without a look at its text, and some clauses are written without
being collected, or collected without being written. The labels of the text are therefore not always
the collected values of the query. They are the collected values of another query, which lists its
clauses as the text has them: with its distinct columns in the select list or in the aggregate, and
with the order of a union only if there is one.

## Main definitions

- `Query.written`: a query that lists its clauses as the text has them, at any depth
- `PartsWritten`: the nested parts of a query carry the values of those parts as they are written

## Main statements

- `finish_written`: the step from the nested parts of a query to the whole query
- `select_written`: the labels of a query are the values collected for the query as it is written
-/

namespace SqlCompiler

open Sql

variable {t : Target} {q : Query} {sql : Sql}

/-! ## §1 Clauses as the text has them -/

/-- An aggregate over the columns that it writes. -/
def Aggregate.written (distinct : Distinct) (aggregate : Aggregate) : Aggregate :=
  { aggregate with columns := writtenAggregate distinct aggregate }

/-- The order of a union, which is not written without a union. -/
def writtenUnionOrders (unions : List UnionBranch) (orders : List SortKey) : List SortKey :=
  if unions.isEmpty then [] else orders

mutual

/-- A table as it is written. -/
def Table.written (t : Target) : Table → Table
  | .named name => .named name
  | .raw sql bindings => .raw sql bindings
  | .derived query asName => .derived (query.written t) asName

/-- The table of a query as it is written. -/
def writtenSource (t : Target) : Option Table → Option Table
  | none => none
  | some tbl => some (tbl.written t)

/-- A joined table as it is written. -/
def Join.written (t : Target) : Join → Join
  | ⟨kind, tbl, on, joins, lateral⟩ =>
    ⟨kind, tbl.written t, writtenClauses t on, writtenJoins t joins, lateral⟩

/-- Joined tables as they are written. -/
def writtenJoins (t : Target) : List Join → List Join
  | [] => []
  | j :: rest => j.written t :: writtenJoins t rest

/-- The branches of a union as they are written. -/
def writtenBranches (t : Target) : List UnionBranch → List UnionBranch
  | [] => []
  | ⟨query, all⟩ :: rest => ⟨query.written t, all⟩ :: writtenBranches t rest

/-- A condition on rows as it is written. -/
def Predicate.written (t : Target) : Predicate → Predicate
  | .inQuery c query negated => .inQuery c (query.written t) negated
  | .hasRows query negated => .hasRows (query.written t) negated
  | .compareQuery c operator query => .compareQuery c operator (query.written t)
  | .group inner => .group (writtenClauses t inner)
  | p => p

/-- Conditions on rows as they are written. -/
def writtenClauses (t : Target) : List (Clause Predicate) → List (Clause Predicate)
  | [] => []
  | ⟨connective, node⟩ :: rest => ⟨connective, node.written t⟩ :: writtenClauses t rest

/-- A query that lists its clauses as the text has them: PostgreSQL writes distinct columns in front
of the select list, and every dialect writes them in place of the columns of an aggregate. -/
def Query.written (t : Target) : Query → Query
  | ⟨src, columns, distinct, aggregate, joins, wheres, groups, havings, orders, limit, offset, lock,
      unions, unionOrders, unionLimit, unionOffset⟩ =>
    ⟨writtenSource t src, some (writtenDistinct t distinct ++ columns.getD []), .off,
      aggregate.map (Aggregate.written distinct), writtenJoins t joins, writtenClauses t wheres,
      groups, havings, orders, limit, offset, lock, writtenBranches t unions,
      writtenUnionOrders unions unionOrders, unionLimit, unionOffset⟩

end

/-- The clauses of a query as it is written. -/
theorem Query.written_eq (t : Target) (q : Query) :
    q.written t =
      { q with
        source := writtenSource t q.source
        columns := some (writtenDistinct t q.distinct ++ q.columns.getD [])
        distinct := .off
        aggregate := q.aggregate.map (Aggregate.written q.distinct)
        joins := writtenJoins t q.joins
        wheres := writtenClauses t q.wheres
        unions := writtenBranches t q.unions
        unionOrders := writtenUnionOrders q.unions q.unionOrders } := by
  cases q
  rfl

section Fields

variable (t : Target) (q : Query)

@[simp] theorem Query.written_source : (q.written t).source = writtenSource t q.source := by
  rw [Query.written_eq]

@[simp] theorem Query.written_columns :
    (q.written t).columns = some (writtenDistinct t q.distinct ++ q.columns.getD []) := by
  rw [Query.written_eq]

@[simp] theorem Query.written_aggregate :
    (q.written t).aggregate = q.aggregate.map (Aggregate.written q.distinct) := by
  rw [Query.written_eq]

@[simp] theorem Query.written_joins : (q.written t).joins = writtenJoins t q.joins := by
  rw [Query.written_eq]

@[simp] theorem Query.written_wheres : (q.written t).wheres = writtenClauses t q.wheres := by
  rw [Query.written_eq]

@[simp] theorem Query.written_groups : (q.written t).groups = q.groups := by
  rw [Query.written_eq]

@[simp] theorem Query.written_havings : (q.written t).havings = q.havings := by
  rw [Query.written_eq]

@[simp] theorem Query.written_orders : (q.written t).orders = q.orders := by
  rw [Query.written_eq]

@[simp] theorem Query.written_unions : (q.written t).unions = writtenBranches t q.unions := by
  rw [Query.written_eq]

@[simp] theorem Query.written_unionOrders :
    (q.written t).unionOrders = writtenUnionOrders q.unions q.unionOrders := by
  rw [Query.written_eq]

end Fields

/-! ## §2 Clauses and layouts -/

/-- The nested parts of a query carry the values of those parts as they are written. -/
structure PartsWritten (t : Target) (q : Query) : Prop where
  source : ∀ {sql : Sql}, t.source q.source = .ok sql →
    sql.labels = bound (t.sourceBindings (writtenSource t q.source))
  joins : ∀ {sql : Sql}, t.joins q.joins = .ok sql →
    sql.labels = bound (t.joinsBindings (writtenJoins t q.joins))
  wheres : ∀ {sql : Sql}, t.wheresClause q.wheres = .ok sql →
    sql.labels = bound (t.clauseBindings (writtenClauses t q.wheres))
  branches : ∀ {sql : Sql}, t.branches q.unions = .ok sql →
    sql.labels = bound (t.branchBindings (writtenBranches t q.unions))

/-- The values of one clause of a query as it is written. -/
def writtenBindings (t : Target) (q : Query) (aggregate : Option Aggregate) :
    Component → List Value :=
  componentBindings t (q.written t) (aggregate.map (Aggregate.written q.distinct))

/-- The labels of any clause, given those of the nested parts. -/
theorem component_written {aggregate : Option Aggregate} {c : Component}
    (hparts : PartsWritten t q) (h : t.component q aggregate (t.parts q) c = .ok sql) :
    sql.labels = writtenBindings t q aggregate c := by
  unfold writtenBindings
  rw [Query.written_eq]
  cases component_eq_ok h with
  | aggregate haggregate hclause =>
    rw [haggregate]
    exact aggregateClause_labels hclause
  | noAggregate haggregate =>
    rw [haggregate]
    rfl
  | columns haggregate hclause =>
    rw [columnsClause_labels hclause, haggregate]
    -- without a list all columns are selected, which binds nothing
    cases q.columns <;> simp [componentBindings, columnBindings, Column.bindings]
  | noColumns haggregate =>
    rw [haggregate]
    rfl
  | source hsource htable => rw [sourceClause_labels, hparts.source htable, componentBindings]
  | noSource hsource => simp [componentBindings, hsource, writtenSource, Target.sourceBindings]
  | joins hjoins => exact hparts.joins hjoins
  | wheres hwheres => exact hparts.wheres hwheres
  | groups hgroups => exact groupsClause_labels hgroups
  | havings hhavings => exact havingClause_labels hhavings
  | orders horders => exact ordersClause_labels horders
  -- a page and a lock bind nothing
  | limit | noLimit | offset | noOffset | lock | noLock => rfl

/-- A union adds the values of its branches and of its order. -/
theorem withUnions_written {body : Sql} (hparts : PartsWritten t q)
    (h : t.withUnions q (t.parts q) body = .ok sql) :
    sql.labels = body.labels ++ bound (t.branchBindings (q.written t).unions) ++
      bound (orderBindings (q.written t).unionOrders) := by
  rw [Query.written_eq]
  obtain ⟨hunions, rfl⟩ | ⟨hunions, unions, hclause, rfl⟩ := withUnions_eq_ok h
  · simp [hunions, writtenBranches, writtenUnionOrders, Target.branchBindings, orderBindings]
  · obtain ⟨sides, hsides, hlabels⟩ := unionsClause_labels hclause
    simp [unionSide_labels, hlabels, hparts.branches hsides, writtenUnionOrders, hunions]

/-- Clauses in a row carry their values in the order of writing. -/
theorem plainLayout_written {aggregate : Option Aggregate} (hparts : PartsWritten t q)
    (h : t.plainLayout q aggregate (t.parts q) = .ok sql) :
    sql.labels = (writtenOrder false).flatMap (writtenBindings t q aggregate) ++
      bound (t.branchBindings (q.written t).unions) ++
      bound (orderBindings (q.written t).unionOrders) := by
  obtain ⟨s, hs, h⟩ := plainLayout_eq_ok h
  rw [withUnions_written hparts h, spokenClauses_labels hs fun c => component_written hparts (hs c)]
  rfl

/-- Where rows are numbered, the order goes into the select list, and its values with it. -/
theorem numberedLayout_written (hparts : PartsWritten t q)
    (h : t.numberedLayout q (t.parts q) = .ok sql) :
    sql.labels = (writtenOrder true).flatMap (writtenBindings t q none) ++
      bound (t.branchBindings (q.written t).unions) ++
      bound (orderBindings (q.written t).unionOrders) := by
  obtain ⟨s, hs, h⟩ := numberedLayout_eq_ok h
  have hbody := numberedClauses_labels hs fun c => component_written hparts (hs c)
  rw [withUnions_written hparts h]
  simp [hbody, writtenBindings]

/-- Every layout writes its values in the order that belongs to it. -/
theorem layout_written {aggregate : Option Aggregate} (hparts : PartsWritten t q)
    (h : t.layout q aggregate (t.parts q) = .ok sql) :
    sql.labels =
      (writtenOrder (t.numbersRows q aggregate)).flatMap (writtenBindings t q aggregate) ++
        bound (t.branchBindings (q.written t).unions) ++
        bound (orderBindings (q.written t).unionOrders) := by
  have hother : ∀ (offset : Option UInt64) (orders : List SortKey),
      PartsWritten t { q with offset := offset, orders := orders } := fun _ _ =>
    ⟨hparts.source, hparts.joins, hparts.wheres, hparts.branches⟩
  cases layout_eq_ok h with
  | plain hnumbers h =>
    rw [hnumbers]
    exact plainLayout_written hparts h
  | emptyPage hnumbers h =>
    rw [hnumbers, plainLayout_written (hother none q.orders) h]
    simp [writtenBindings, Query.written_eq, writtenOrder, componentBindings]
  | madeOrder hnumbers horders h =>
    -- the order that an offset needs binds nothing, as the missing one does
    rw [hnumbers, plainLayout_written (hother q.offset [.ofSql "(SELECT 0)"]) h]
    simp [writtenBindings, Query.written_eq, writtenOrder, componentBindings, horders,
      orderBindings, SortKey.ofSql, SortKey.bindings]
  | numbered hnumbers haggregate h =>
    rw [hnumbers, haggregate]
    exact numberedLayout_written hparts h

/-- What is written of a query decides how it is laid out: its aggregate, its page, and whether it
has unions and conditions on groups. -/
theorem aggregatesOverRows_written (t : Target) (q : Query) :
    Target.aggregatesOverRows (q.written t) = Target.aggregatesOverRows q := by
  have hunions : (writtenBranches t q.unions).isEmpty = q.unions.isEmpty := by
    rcases q.unions with _ | ⟨⟨_, _⟩, _⟩ <;> rfl
  rw [Query.written_eq]
  unfold Target.aggregatesOverRows
  simp only [Option.isSome_map, hunions]

/-- A query whose nested parts carry their values carries the values of its buckets. -/
theorem finish_written (hparts : PartsWritten t q) (h : t.finish q (t.parts q) = .ok sql) :
    sql.labels = (t.buckets (q.written t)).flatten := by
  have haggregate' : (q.written t).aggregate = q.aggregate.map (Aggregate.written q.distinct) := by
    rw [Query.written_eq]
  have hnumbers : ∀ aggregate,
      t.numbersRows (q.written t) aggregate = t.numbersRows q aggregate := by
    rw [Query.written_eq]
    exact fun _ => rfl
  rw [buckets_flatten, hnumbers]
  unfold outerBindings placedAggregate
  rw [aggregatesOverRows_written, haggregate']
  obtain ⟨hover, h⟩ | ⟨hover, aggregate, head, rows, haggregate, hhead, hrows, rfl⟩ :=
    finish_eq_ok h
  · -- whether there is an aggregate decides, not what it is taken over
    have hplaced : t.numbersRows q (q.aggregate.map (Aggregate.written q.distinct)) =
        t.numbersRows q q.aggregate := by
      simp only [Target.numbersRows, Option.isNone_map]
    simp only [hover, Bool.false_eq_true, ↓reduceIte, List.nil_append, hplaced]
    exact layout_written hparts h
  · -- the aggregate over a finished select: its own values, and then those of the select
    rw [if_pos hover, if_pos hover]
    simp [layout_written hparts hrows, haggregate, aggregateClause_labels hhead,
      Aggregate.written, writtenBindings]

/-! ## §3 Nested parts -/

mutual

/-- A table has the labels of its written form, by recursion on the query that it is derived
from. -/
theorem table_written : (tbl : Table) → {sql : Sql} → t.table tbl = .ok sql →
    sql.labels = bound (t.tableBindings (tbl.written t))
  | .named name, _, h => by
    rw [Target.table] at h
    cases h
    simp [Table.written, Target.tableBindings]
  | .raw text bindings, _, h => by
    rw [Target.table] at h
    cases h
    simp [Table.written, Target.tableBindings]
  | .derived query asName, _, h => by
    simp only [Target.table, bind_eq_ok, pure_eq_ok] at h
    obtain ⟨select, hselect, rfl⟩ := h
    simp [select_written query hselect, Table.written, Target.tableBindings, bound_selectBindings]

theorem source_written : (src : Option Table) → {sql : Sql} → t.source src = .ok sql →
    sql.labels = bound (t.sourceBindings (writtenSource t src))
  | none, _, h => by
    rw [Target.source] at h
    cases h
    rfl
  | some tbl, _, h => by
    rw [Target.source] at h
    exact table_written tbl h

/-- A joined table: its table, its inner joins and its conditions. -/
theorem join_written : (j : Join) → {sql : Sql} → t.join j = .ok sql →
    sql.labels = bound (t.joinBindings (j.written t))
  | ⟨kind, tbl, on, inner, lateral⟩, sql, h => by
    obtain ⟨table, joined, htable, hjoined, h⟩ := join_eq_ok h
    have htables : (if inner.isEmpty then table
        else "(" ++ table ++ " " ++ joined ++ ")" : Sql).labels =
          bound (t.tableBindings (tbl.written t) ++ t.joinsBindings (writtenJoins t inner)) := by
      rw [bound_append, ← table_written tbl htable, ← joins_written inner hjoined]
      exact joinedTables_labels table hjoined
    obtain ⟨hnone, hlateral⟩ | ⟨clauses, hclauses, rfl⟩ := h
    · -- a lateral join has no conditions left to collect
      rw [lateralJoin_labels hlateral, htables, Join.written, Target.joinBindings, hnone,
        writtenClauses, Target.clauseBindings, List.append_nil]
    · simp only [labels_words, List.flatMap_cons, List.flatMap_nil, labels_append,
        labels_ofString, htables, conditions_labels, clauses_written on hclauses, Join.written,
        Target.joinBindings, bound_append, List.nil_append, List.append_nil]

/-- Joined tables, one by one. -/
theorem joins_written : (joins : List Join) → {sql : Sql} → t.joins joins = .ok sql →
    sql.labels = bound (t.joinsBindings (writtenJoins t joins))
  | [], _, h => by
    rw [Target.joins] at h
    cases h
    rfl
  | j :: rest, _, h => by
    simp only [Target.joins, bind_eq_ok, pure_eq_ok] at h
    obtain ⟨first, hfirst, others, hothers, rfl⟩ := h
    rw [writtenJoins, Target.joinsBindings, bound_append, ← join_written j hfirst,
      ← joins_written rest hothers]
    refine spaced_labels fun hnone => ?_
    rw [hnone, Target.joins] at hothers
    cases hothers
    rfl

/-- The branches of a union, one by one. -/
theorem branches_written : (branches : List UnionBranch) → {sql : Sql} →
    t.branches branches = .ok sql →
    sql.labels = bound (t.branchBindings (writtenBranches t branches))
  | [], _, h => by
    rw [Target.branches] at h
    cases h
    rfl
  | ⟨query, all⟩ :: rest, _, h => by
    simp only [Target.branches, bind_eq_ok, pure_eq_ok] at h
    obtain ⟨select, hselect, others, hothers, rfl⟩ := h
    rw [writtenBranches, Target.branchBindings, bound_append, bound_selectBindings,
      ← select_written query hselect, ← branches_written rest hothers,
      ← branchSide_labels (t := t) all select]
    refine spaced_labels fun hnone => ?_
    rw [hnone, Target.branches] at hothers
    cases hothers
    rfl

/-- A condition on rows; only the queries that it looks into have a written form of their own. -/
theorem predicate_written : (p : Predicate) → {sql : Sql} → t.predicate p = .ok sql →
    sql.labels = bound (t.predicateBindings (p.written t))
  | .inQuery c query negated, _, h => by
    simp only [Target.predicate, bind_eq_ok, pure_eq_ok] at h
    obtain ⟨left, hleft, select, hselect, rfl⟩ := h
    simp [column_labels hleft, select_written query hselect, Predicate.written,
      Target.predicateBindings, bound_selectBindings]
  | .hasRows query negated, _, h => by
    simp only [Target.predicate, bind_eq_ok, pure_eq_ok] at h
    obtain ⟨select, hselect, rfl⟩ := h
    simp [select_written query hselect, Predicate.written, Target.predicateBindings,
      bound_selectBindings]
  | .compareQuery c operator query, _, h => by
    simp only [Target.predicate, bind_eq_ok, pure_eq_ok] at h
    obtain ⟨left, hleft, select, hselect, rfl⟩ := h
    simp [column_labels hleft, select_written query hselect, Predicate.written,
      Target.predicateBindings, bound_selectBindings]
  | .group inner, _, h => by
    obtain ⟨-, clauses, hclauses, rfl⟩ := group_eq_ok h
    simp [body_labels, clauses_written inner hclauses, Predicate.written,
      Target.predicateBindings]
  -- a condition without a query in it is mirrored, and is written as it is
  | .raw _ _, _, h | .compare _ _ _, _, h | .bitwise _ _ _, _, h | .jsonBoolean _ _ _, _, h
  | .like _ _ _ _, _, h | .between _ _ _ _, _, h | .betweenColumns _ _ _ _, _, h
  | .inList _ _ _, _, h | .inIntegers _ _ _, _, h | .isNull _, _, h | .isNotNull _, _, h
  | .datePart _ _ _ _, _, h | .compareColumns _ _ _, _, h | .rowValues _ _ _, _, h
  | .jsonContains _ _ _, _, h | .jsonContainsKey _ _, _, h | .jsonLength _ _ _, _, h
  | .fullText _ _ _, _, h => predicate_labels _ (fun _ hr => absurd hr List.not_mem_nil) h

/-- Conditions on rows, one by one. -/
theorem clauses_written : (clauses : List (Clause Predicate)) → {out : List (Clause Sql)} →
    t.clauses clauses = .ok out →
    (out.flatMap fun c => c.node.labels) = bound (t.clauseBindings (writtenClauses t clauses))
  | [], _, h => by
    rw [Target.clauses] at h
    cases h
    rfl
  | ⟨_, node⟩ :: rest, _, h => by
    simp only [Target.clauses, bind_eq_ok, pure_eq_ok] at h
    obtain ⟨first, hfirst, others, hothers, rfl⟩ := h
    simp [predicate_written node hfirst, clauses_written rest hothers, writtenClauses,
      Target.clauseBindings]

/-- The labels of a query, read from left to right, are the values that are collected for the query
as it is written. -/
theorem select_written : (q : Query) → {sql : Sql} → t.select q = .ok sql →
    sql.labels = t.selectBindings (q.written t)
  | ⟨src, columns, distinct, aggregate, joins, wheres, groups, havings, orders, limit, offset, lock,
      unions, unionOrders, unionLimit, unionOffset⟩, _, h => by
    rw [Target.selectBindings_eq]
    refine finish_written ⟨?_, ?_, ?_, ?_⟩ h
    · exact source_written src
    · exact joins_written joins
    · intro sql hsql
      obtain ⟨clauses, hclauses, rfl⟩ := wheresClause_eq_ok hsql
      rw [conditions_labels, clauses_written wheres hclauses]
    · exact branches_written unions

end

end SqlCompiler
