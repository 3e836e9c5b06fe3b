import SqlCompiler.Compile
import SqlCompiler.Proofs.LayoutLabels

/-!
# Alignment of Selects

The text of a query and its bindings come from two traversals that know nothing of each other.
They agree: read from left to right, the labels of the text are the bindings, for queries nested to
any depth.

## Main statements

- `select_labels`: the labels of a query are its bindings, by recursion on the query
- `hasRows_labels`, `insertUsing_labels`: the same for the statements built on a query
- `compile_reading_aligned`: what is compiled is the labelled text, and its labels
-/

namespace SqlCompiler

open Sql

variable {t : Target} {sql : Sql}

/-! ## §1 Nested parts -/

/-- No raw expression is among the values of a clause. -/
theorem bound_componentBindings (t : Target) (q : Query) (aggregate : Option Aggregate)
    (c : Component) :
    bound (componentBindings t q aggregate c) = componentBindings t q aggregate c := by
  cases c <;> simp only [componentBindings, bound_bound, bound_nil]

/-- Whatever is collected for a query is bound: no raw expression is left. -/
theorem bound_selectBindings (t : Target) (q : Query) :
    bound (t.selectBindings q) = t.selectBindings q := by
  have houter : bound (outerBindings q) = outerBindings q := by
    unfold outerBindings
    split <;> simp only [bound_bound, bound_nil]
  rw [Target.selectBindings_eq, buckets_flatten]
  simp only [bound_append, houter, bound_flatMap, bound_componentBindings, bound_bound]

/-- A keyword in front of conditions has no labels. -/
theorem conditions_labels (keyword : String) (clauses : List (Clause Sql)) :
    (Target.conditions keyword clauses).labels = clauses.flatMap fun c => c.node.labels := by
  unfold Target.conditions
  split
  · rename_i hempty
    rw [List.isEmpty_iff.1 hempty]
    rfl
  · simp [body_labels]

/-- A lateral join adds only words to its table. -/
theorem lateralJoin_labels {kind : JoinKind} {table : Sql}
    (h : t.lateralJoin kind table = .ok sql) : sql.labels = table.labels := by
  obtain rfl | rfl | rfl := lateralJoin_eq_ok h <;> simp

/-- Inner joins bind what they bind behind their table. -/
theorem joinedTables_labels {inner : List Join} {joined : Sql} (table : Sql)
    (h : t.joins inner = .ok joined) :
    (if inner.isEmpty then table else "(" ++ table ++ " " ++ joined ++ ")" : Sql).labels =
      table.labels ++ joined.labels := by
  split
  · -- without inner joins their SQL is empty
    rename_i hempty
    rw [List.isEmpty_iff.1 hempty, Target.joins] at h
    cases h
    simp
  · simp

/-- The blank between two pieces binds nothing, and is left out where nothing follows. -/
theorem spaced_labels {α : Type} {rest : List α} {first others : Sql}
    (h : rest = [] → others.labels = []) :
    (if rest.isEmpty then first else first ++ " " ++ others : Sql).labels =
      first.labels ++ others.labels := by
  split
  · rename_i hempty
    rw [h (List.isEmpty_iff.1 hempty), List.append_nil]
  · simp

/-- The words of a union bind nothing. -/
theorem branchSide_labels (all : Bool) (select : Sql) :
    ((if all then "union all " else "union " : String) ++ t.unionSide select : Sql).labels =
      select.labels := by
  simp [unionSide_labels]

mutual

/-- A table has the labels that it binds, by recursion on the query that it is derived from. -/
theorem table_labels : (tbl : Table) → {sql : Sql} → (∀ r ∈ tbl.queries, r.Mirrored) →
    t.table tbl = .ok sql → sql.labels = bound (t.tableBindings tbl)
  | .named name, _, _, h => by
    rw [Target.table] at h
    cases h
    simp [Target.tableBindings]
  | .raw text bindings, _, _, h => by
    rw [Target.table] at h
    cases h
    simp [Target.tableBindings]
  | .derived query asName, _, hm, h => by
    simp only [Target.table, bind_eq_ok, pure_eq_ok] at h
    obtain ⟨select, hselect, rfl⟩ := h
    simp [select_labels query hm hselect, Target.tableBindings, bound_selectBindings]

theorem source_labels : (src : Option Table) → {sql : Sql} →
    (∀ r ∈ sourceQueries src, r.Mirrored) → t.source src = .ok sql →
    sql.labels = bound (t.sourceBindings src)
  | none, _, _, h => by
    rw [Target.source] at h
    cases h
    rfl
  | some tbl, _, hm, h => by
    rw [Target.source] at h
    exact table_labels tbl hm h

/-- The table of a join comes first, then the joins inside its parentheses, then its conditions. -/
theorem join_labels : (j : Join) → {sql : Sql} → (∀ r ∈ j.queries, r.Mirrored) →
    t.join j = .ok sql → sql.labels = bound (t.joinBindings j)
  | ⟨kind, tbl, on, inner, lateral⟩, sql, hm, h => by
    simp only [Join.queries, List.mem_append, or_imp, forall_and] at hm
    obtain ⟨⟨htbl, hinner⟩, hon⟩ := hm
    obtain ⟨table, joined, htable, hjoined, h⟩ := join_eq_ok h
    have htables : (if inner.isEmpty then table
        else "(" ++ table ++ " " ++ joined ++ ")" : Sql).labels =
          bound (t.tableBindings tbl ++ t.joinsBindings inner) := by
      rw [bound_append, ← table_labels tbl htbl htable, ← joins_labels inner hinner hjoined]
      exact joinedTables_labels table hjoined
    obtain ⟨hnone, hlateral⟩ | ⟨clauses, hclauses, rfl⟩ := h
    · -- a lateral join has no conditions left to collect
      rw [lateralJoin_labels hlateral, htables, Target.joinBindings, hnone,
        Target.clauseBindings, List.append_nil]
    · simp only [labels_words, List.flatMap_cons, List.flatMap_nil, labels_append,
        labels_ofString, htables, conditions_labels, clauses_labels on hon hclauses,
        Target.joinBindings, bound_append, List.nil_append, List.append_nil]

/-- Joined tables, one by one. -/
theorem joins_labels : (joins : List Join) → {sql : Sql} →
    (∀ r ∈ joinsQueries joins, r.Mirrored) → t.joins joins = .ok sql →
    sql.labels = bound (t.joinsBindings joins)
  | [], _, _, h => by
    rw [Target.joins] at h
    cases h
    rfl
  | j :: rest, _, hm, h => by
    simp only [joinsQueries, List.mem_append, or_imp, forall_and] at hm
    simp only [Target.joins, bind_eq_ok, pure_eq_ok] at h
    obtain ⟨first, hfirst, others, hothers, rfl⟩ := h
    rw [Target.joinsBindings, bound_append, ← join_labels j hm.1 hfirst,
      ← joins_labels rest hm.2 hothers]
    refine spaced_labels fun hnone => ?_
    rw [hnone, Target.joins] at hothers
    cases hothers
    rfl

/-- The branches of a union, one by one. -/
theorem branches_labels : (branches : List UnionBranch) → {sql : Sql} →
    (∀ r ∈ branchQueries branches, r.Mirrored) → t.branches branches = .ok sql →
    sql.labels = bound (t.branchBindings branches)
  | [], _, _, h => by
    rw [Target.branches] at h
    cases h
    rfl
  | ⟨query, all⟩ :: rest, _, hm, h => by
    simp only [branchQueries, List.mem_append, or_imp, forall_and] at hm
    simp only [Target.branches, bind_eq_ok, pure_eq_ok] at h
    obtain ⟨select, hselect, others, hothers, rfl⟩ := h
    rw [Target.branchBindings, bound_append, bound_selectBindings,
      ← select_labels query hm.1 hselect, ← branches_labels rest hm.2 hothers,
      ← branchSide_labels (t := t) all select]
    refine spaced_labels fun hnone => ?_
    rw [hnone, Target.branches] at hothers
    cases hothers
    rfl

/-- A condition on rows has the labels that it binds, those of the queries that it looks into among
them. -/
theorem predicate_labels : (p : Predicate) → {sql : Sql} → (∀ r ∈ p.queries, r.Mirrored) →
    t.predicate p = .ok sql → sql.labels = bound (t.predicateBindings p)
  | .raw text bindings, _, _, h => by
    rw [Target.predicate] at h
    cases h
    simp [Target.predicateBindings]
  | .compare _ _ _, _, _, h => by
    rw [Target.predicate] at h
    rw [compare_labels h, Target.predicateBindings]
  | .bitwise _ _ _, _, _, h => by
    rw [Target.predicate] at h
    rw [bitwise_labels h, Target.predicateBindings]
  | .jsonBoolean _ _ _, _, _, h => by
    rw [Target.predicate] at h
    rw [jsonBoolean_labels h, Target.predicateBindings, bound_nil]
  | .like _ _ _ _, _, _, h => by
    rw [Target.predicate] at h
    rw [like_labels h, Target.predicateBindings]
  | .between _ _ _ _, _, _, h => by
    rw [Target.predicate] at h
    rw [between_labels h, Target.predicateBindings]
  | .betweenColumns _ _ _ _, _, _, h => by
    rw [Target.predicate] at h
    rw [betweenColumns_labels h, Target.predicateBindings]
  | .inList _ _ _, _, _, h => by
    rw [Target.predicate] at h
    rw [inList_labels h, Target.predicateBindings]
  | .inQuery c query negated, _, hm, h => by
    simp only [Target.predicate, bind_eq_ok, pure_eq_ok] at h
    obtain ⟨left, hleft, select, hselect, rfl⟩ := h
    simp [column_labels hleft, select_labels query hm hselect, Target.predicateBindings,
      bound_selectBindings]
  | .inIntegers _ _ _, _, _, h => by
    rw [Target.predicate] at h
    rw [inIntegers_labels h, Target.predicateBindings]
  | .isNull _, _, _, h => by
    rw [Target.predicate] at h
    rw [nullTest_labels h, Target.predicateBindings]
  | .isNotNull _, _, _, h => by
    rw [Target.predicate] at h
    rw [nullTest_labels h, Target.predicateBindings]
  | .datePart _ _ _ _, _, _, h => by
    rw [Target.predicate] at h
    rw [datePart_labels h, Target.predicateBindings]
  | .group inner, _, hm, h => by
    obtain ⟨-, clauses, hclauses, rfl⟩ := group_eq_ok h
    simp [body_labels, clauses_labels inner hm hclauses, Target.predicateBindings]
  | .hasRows query negated, _, hm, h => by
    simp only [Target.predicate, bind_eq_ok, pure_eq_ok] at h
    obtain ⟨select, hselect, rfl⟩ := h
    simp [select_labels query hm hselect, Target.predicateBindings, bound_selectBindings]
  | .compareQuery c operator query, _, hm, h => by
    simp only [Target.predicate, bind_eq_ok, pure_eq_ok] at h
    obtain ⟨left, hleft, select, hselect, rfl⟩ := h
    simp [column_labels hleft, select_labels query hm hselect, Target.predicateBindings,
      bound_selectBindings]
  | .compareColumns _ _ _, _, _, h => by
    rw [Target.predicate] at h
    rw [compareColumns_labels h, Target.predicateBindings]
  | .rowValues _ _ _, _, _, h => by
    rw [Target.predicate] at h
    rw [rowValues_labels h, Target.predicateBindings]
  | .jsonContains _ _ _, _, _, h => by
    rw [Target.predicate] at h
    rw [jsonContains_labels h, Target.predicateBindings]
  | .jsonContainsKey _ _, _, _, h => by
    rw [Target.predicate] at h
    rw [jsonContainsKey_labels h, Target.predicateBindings, bound_nil]
  | .jsonLength _ _ _, _, _, h => by
    rw [Target.predicate] at h
    rw [jsonLength_labels h, Target.predicateBindings]
  | .fullText _ _ _, _, _, h => by
    rw [Target.predicate] at h
    rw [fullText_labels h, Target.predicateBindings]

/-- Conditions on rows, one by one. -/
theorem clauses_labels : (clauses : List (Clause Predicate)) → {out : List (Clause Sql)} →
    (∀ r ∈ clauseQueries clauses, r.Mirrored) → t.clauses clauses = .ok out →
    (out.flatMap fun c => c.node.labels) = bound (t.clauseBindings clauses)
  | [], _, _, h => by
    rw [Target.clauses] at h
    cases h
    rfl
  | ⟨_, node⟩ :: rest, _, hm, h => by
    simp only [clauseQueries, List.mem_append, or_imp, forall_and] at hm
    simp only [Target.clauses, bind_eq_ok, pure_eq_ok] at h
    obtain ⟨first, hfirst, others, hothers, rfl⟩ := h
    simp [predicate_labels node hm.1 hfirst, clauses_labels rest hm.2 hothers,
      Target.clauseBindings]

/-- The labels of a query, read from left to right, are the values that are collected for it. -/
theorem select_labels : (q : Query) → {sql : Sql} → (∀ r ∈ q.queries, r.Mirrored) →
    t.select q = .ok sql → sql.labels = t.selectBindings q
  | ⟨src, columns, distinct, aggregate, joins, wheres, groups, havings, orders, limit, offset, lock,
      unions, unionOrders, unionLimit, unionOffset⟩, _, hm, h => by
    simp only [Query.queries, List.mem_cons, List.mem_append, or_imp, forall_and,
      forall_eq] at hm
    obtain ⟨hq, ⟨⟨hsource, hjoins⟩, hwheres⟩, hbranches⟩ := hm
    rw [Target.selectBindings_eq]
    -- the nested parts by recursion, and the layout of this query around them
    refine finish_labels hq ⟨?_, ?_, ?_, ?_⟩ h
    · exact source_labels src hsource
    · exact joins_labels joins hjoins
    · intro sql hsql
      obtain ⟨clauses, hclauses, rfl⟩ := wheresClause_eq_ok hsql
      rw [conditions_labels, clauses_labels wheres hwheres hclauses]
    · exact branches_labels unions hbranches

end

/-! ## §2 Statements built on a query -/

/-- The probe of a query keeps its distinct columns and its unions, and has no aggregate. -/
theorem mirrored_probe {q : Query} (hq : q.Mirrored) : (Target.probe q).Mirrored := by
  have hdisplaced : (Target.probe q).displacedColumns = [] := by
    unfold Query.displacedColumns Target.probe
    cases q.distinct <;> rfl
  refine ⟨hq.distinct, ?_, hq.unionOrders⟩
  rw [hdisplaced]
  rfl

/-- The probe of a query nests what the query nests. -/
theorem mirrored_probe_queries {q : Query} (hm : ∀ r ∈ q.queries, r.Mirrored) :
    ∀ r ∈ (Target.probe q).queries, r.Mirrored := by
  intro r hr
  rw [Query.queries_eq, List.mem_cons] at hr
  rcases hr with rfl | hr
  · exact mirrored_probe (hm q (by rw [Query.queries_eq]; exact List.mem_cons_self ..))
  · exact hm r (by rw [Query.queries_eq]; exact List.mem_cons_of_mem _ hr)

/-- The question for a row binds what its select does. -/
theorem hasRows_labels {q : Query} (hm : ∀ r ∈ q.queries, r.Mirrored)
    (h : t.hasRows q = .ok sql) : sql.labels = t.hasRowsBindings q := by
  unfold Target.hasRows at h
  split at h
  · -- SQL Server selects from the probe of the query
    rename_i hserver
    simp only [Target.hasRowsBindings, hserver]
    exact select_labels (Target.probe q) (mirrored_probe_queries hm) h
  · rename_i hother
    simp only [bind_eq_ok, pure_eq_ok] at h
    obtain ⟨select, hselect, name, _, rfl⟩ := h
    unfold Target.hasRowsBindings
    split
    · exact absurd ‹_› hother
    · simp [select_labels q hm hselect]

theorem writeTable_labels {q : Query} (hm : ∀ r ∈ sourceQueries q.source, r.Mirrored)
    (h : t.writeTable q = .ok sql) : sql.labels = bound (t.sourceBindings q.source) := by
  obtain ⟨tbl, hsource, htable⟩ := writeTable_eq_ok h
  rw [hsource] at hm ⊢
  exact table_labels tbl hm htable

/-- The table and the columns of an insert come before its query, and their values are not
collected. -/
theorem insertUsing_labels {target rows : Query} {columns : List Column}
    (htarget : ∀ r ∈ sourceQueries target.source, r.Mirrored)
    (htable : bound (t.sourceBindings target.source) = [])
    (hcolumns : bound (columnBindings columns) = [])
    (hm : ∀ r ∈ rows.queries, r.Mirrored) (h : t.insertUsing target columns rows = .ok sql) :
    sql.labels = t.selectBindings rows := by
  simp only [Target.insertUsing, bind_eq_ok] at h
  obtain ⟨table, hwrite, select, hselect, h⟩ := h
  have hlabels : table.labels = [] := by
    rw [← htable]
    exact writeTable_labels htarget hwrite
  split at h
  · cases h
    simp [hlabels, select_labels rows hm hselect]
  · simp only [bind_eq_ok, pure_eq_ok] at h
    obtain ⟨names, hnames, rfl⟩ := h
    simp [hlabels, columnList_labels hnames, hcolumns, select_labels rows hm hselect]

/-! ## §3 Compiled statements -/

/-- A labelled text as a statement: the text, which binds its labels from left to right. -/
def Sql.reading (sql : Sql) : Compiled :=
  ⟨sql.text, sql.labels⟩

/-- A statement whose collected values are the labels of its text is read off the text alone. -/
theorem compiled_eq_reading {bindings : List Value} {outcome : Except Fault Sql}
    (h : ∀ sql, outcome = .ok sql → sql.labels = bindings) :
    (do let sql ← outcome; return [Target.pair sql bindings]) =
      outcome.map fun sql => [sql.reading] := by
  cases outcome with
  | error fault => rfl
  | ok sql =>
    have hlabels := h sql rfl
    subst hlabels
    rfl

/-- In every dialect and at every depth of nesting, a select, the question for rows and an insert
from a select compile to the text of their labelled SQL, and bind its labels from left to right. -/
theorem compile_reading_aligned (t : Target) {q : Query} (hm : ∀ r ∈ q.queries, r.Mirrored) :
    (t.compile q .select = (t.select q).map fun sql => [sql.reading]) ∧
    (t.compile q .hasRows = (t.hasRows q).map fun sql => [sql.reading]) ∧
    ∀ (target : Query) (columns : List Column),
      (∀ r ∈ sourceQueries target.source, r.Mirrored) →
      bound (t.sourceBindings target.source) = [] →
      bound (columnBindings columns) = [] →
      t.compile target (.insertUsing columns q) =
        (t.insertUsing target columns q).map fun sql => [sql.reading] := by
  refine ⟨?select, ?hasRows, ?insertUsing⟩
  case select =>
    exact compiled_eq_reading fun sql h => select_labels q hm h
  case hasRows =>
    exact compiled_eq_reading fun sql h => hasRows_labels hm h
  case insertUsing =>
    intro target columns htarget htable hcolumns
    exact compiled_eq_reading fun sql h => insertUsing_labels htarget htable hcolumns hm h

/-- The open orders. -/
def openOrders : Query :=
  { Query.empty with
    source := some (.named "orders")
    wheres := [⟨.and, .compare (.named "state") "=" (.text "open")⟩] }

/-- A page of the open orders with their buyers, united with all open orders: values stand in the
select list, in the derived table, in a nested join, in a nested group, in the order, which the row
numbers move into the select list, in the union and in its order. -/
def orderReport : Query :=
  { Query.empty with
    source := some (.derived openOrders "o")
    columns := some [.named "o.id", .raw "coalesce(o.total, ?)" [.int 0]]
    joins := [
      ⟨.left, .named "users as u",
        [⟨.and, .compareColumns (.named "u.id") "=" (.named "o.user_id")⟩],
        [⟨.inner, .raw "regions(?) as r" [.text "EU"],
          [⟨.and, .compare (.named "r.code") "=" (.raw "u.region")⟩], [], false⟩],
        false⟩]
    wheres := [
      ⟨.and, .group [
        ⟨.and, .inQuery (.named "o.id") openOrders true⟩,
        ⟨.or, .like (.named "u.name") (.text "a%") false false⟩]⟩]
    orders := [.raw "case when o.id = ? then 0 else 1 end" [.int 7]]
    limit := some 10
    offset := some 20
    unions := [⟨openOrders, true⟩]
    unionOrders := [.raw "total + ?" [.int 1]] }

/-- SQL Server with row numbers in place of offsets. -/
def numberingServer : Target :=
  { dialect := .sqlserver, options := { legacyPagination := true } }

/-- A report with numbered rows, asked for in three statements. -/
theorem compile_orderReport_aligned :
    (∀ r ∈ orderReport.queries, r.Mirrored) ∧
    (∀ r ∈ sourceQueries openOrders.source, r.Mirrored) ∧
    bound (numberingServer.sourceBindings openOrders.source) = [] ∧
    bound (columnBindings [.named "id", .named "total"]) = [] ∧
    (numberingServer.select orderReport).isOk = true ∧
    numberingServer.compile orderReport .select =
      (numberingServer.select orderReport).map (fun sql => [sql.reading]) ∧
    numberingServer.compile orderReport .hasRows =
      (numberingServer.hasRows orderReport).map (fun sql => [sql.reading]) ∧
    numberingServer.compile openOrders (.insertUsing [.named "id", .named "total"] orderReport) =
      (numberingServer.insertUsing openOrders [.named "id", .named "total"] orderReport).map
        fun sql => [sql.reading] := by
  have hm : ∀ r ∈ orderReport.queries, r.Mirrored := by decide
  obtain ⟨hselect, hhasRows, hinsert⟩ := compile_reading_aligned numberingServer hm
  refine ⟨hm, by decide, rfl, rfl, by decide +kernel, hselect, hhasRows, ?_⟩
  exact hinsert openOrders [.named "id", .named "total"] (by decide) rfl rfl

end SqlCompiler
