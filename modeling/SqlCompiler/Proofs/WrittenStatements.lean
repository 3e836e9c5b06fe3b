import Mathlib.Data.List.Basic
import SqlCompiler.Proofs.WriteAlignment
import SqlCompiler.Proofs.WrittenBalance

/-!
# Placeholders of Statements

What the text of a statement has placeholders for, in every dialect and layout. Every statement
carries the values of its query as the query is written. An insert also carries the values of its
table and of its list of columns, which it does not bind.

## Main definitions

- `Target.texts`: the labelled texts of a statement
- `Target.carried`: the values that these texts have placeholders for

## Main statements

- `insertAs_written`, `upsert_written`, `update_written`, `delete_written`: the statements one by
  one
- `compile_carries`: the texts of every statement that compiles carry these values
-/

namespace SqlCompiler

open Sql

variable {t : Target} {q : Query} {sql : Sql}

/-! ## §1 Inserts -/

/-- The values of the table that a statement writes to, as the table is written. -/
def Target.carriedByTable (t : Target) (q : Query) : List Value :=
  bound (t.sourceBindings (writtenSource t q.source))

/-- The table of a write has the labels of its written form. -/
theorem writeTable_written (h : t.writeTable q = .ok sql) : sql.labels = t.carriedByTable q := by
  obtain ⟨tbl, hsource, htable⟩ := writeTable_eq_ok h
  rw [Target.carriedByTable, hsource]
  exact table_written tbl htable

/-- Tuples have the values of the rows, row after row. -/
theorem rowTuples_labels (rows : Rows) (columns : List String) :
    (Target.rowTuples rows columns).labels = bound (rows.valuesIn columns) := by
  simp [Target.rowTuples, Rows.valuesIn, List.flatMap_map, bound_flatMap]

/-- Rows that share their columns bind the values in them. -/
theorem insertBindings_of_columns {rows : Rows} {columns : List String}
    (h : rows.columns? = .ok columns) :
    Target.insertBindings rows = .ok (bound (rows.valuesIn columns)) := by
  rw [Target.insertBindings, h]
  rfl

/-- Rows without columns bind nothing. -/
theorem insertBindings_of_isEmpty {rows : Rows} (h : rows.isEmpty = true) :
    Target.insertBindings rows = .ok [] := by
  have hempty : ∀ row ∈ rows.toList, row.entries = [] := fun row hrow =>
    List.isEmpty_iff.1 (List.all_eq_true.1 h row hrow)
  have hcolumns : rows.columns? = .ok [] := by
    unfold Rows.columns?
    split
    · rfl
    · rename_i first rest hrows
      rw [hrows] at hempty
      have hfirst : first.columns = [] := by
        rw [Row.columns, hempty first List.mem_cons_self, List.map_nil]
      rw [hfirst, if_pos]
      refine List.all_eq_true.2 fun row hrow => ?_
      simp [Row.hasColumns, Row.size, hempty row hrow]
  have hnone : rows.valuesIn [] = [] := by simp [Rows.valuesIn, Row.valuesIn]
  rw [insertBindings_of_columns hcolumns, hnone, bound_nil]

/-- An insert carries the values of its table in front of those of its rows. -/
theorem insertAs_written {verb : String} {rows : Rows} (h : t.insertAs verb q rows = .ok sql) :
    ∃ values, Target.insertBindings rows = .ok values ∧
      sql.labels = t.carriedByTable q ++ values := by
  unfold Target.insertAs at h
  rw [bind_eq_ok] at h
  obtain ⟨table, htable, h⟩ := h
  split at h
  · rename_i hempty
    -- rows without columns are written as default values
    refine ⟨[], insertBindings_of_isEmpty hempty, ?_⟩
    split at h
    · rw [pure_eq_ok] at h
      subst h
      simp [writeTable_written htable]
    · rw [pure_eq_ok] at h
      subst h
      simp [writeTable_written htable]
  · simp only [Target.insertRows, bind_eq_ok, pure_eq_ok] at h
    obtain ⟨columns, hcolumns, names, _, rfl⟩ := h
    refine ⟨bound (rows.valuesIn columns), insertBindings_of_columns hcolumns, ?_⟩
    simp [writeTable_written htable, rowTuples_labels]

/-- The word or clause that skips rows has no labels. -/
theorem insertOrIgnore_written {rows : Rows} (h : t.insertOrIgnore q rows = .ok sql) :
    ∃ values, Target.insertBindings rows = .ok values ∧
      sql.labels = t.carriedByTable q ++ values := by
  unfold Target.insertOrIgnore at h
  split at h
  · exact insertAs_written h
  · exact insertAs_written h
  · simp only [bind_eq_ok, pure_eq_ok] at h
    obtain ⟨insert, hinsert, rfl⟩ := h
    obtain ⟨values, hvalues, hlabels⟩ := insertAs_written hinsert
    exact ⟨values, hvalues, by simp [hlabels]⟩
  · cases h
  · cases h

/-- The key that is asked for has no label. -/
theorem insertGetId_written {rows : Rows} {key : Option String}
    (h : t.insertGetId q rows key = .ok sql) :
    ∃ values, Target.insertBindings rows = .ok values ∧
      sql.labels = t.carriedByTable q ++ values := by
  unfold Target.insertGetId at h
  split at h
  · simp only [bind_eq_ok, pure_eq_ok] at h
    obtain ⟨insert, hinsert, name, _, rfl⟩ := h
    obtain ⟨values, hvalues, hlabels⟩ := insertAs_written hinsert
    exact ⟨values, hvalues, by simp [hlabels]⟩
  · exact insertAs_written h

/-- The table and the columns of an insert come before its query. -/
theorem insertUsing_written {columns : List Column} {rows : Query}
    (h : t.insertUsing q columns rows = .ok sql) :
    sql.labels = t.carriedByTable q ++ bound (columnBindings columns) ++
      t.selectBindings (rows.written t) := by
  simp only [Target.insertUsing, bind_eq_ok] at h
  obtain ⟨table, htable, select, hselect, h⟩ := h
  split at h
  · rename_i hempty
    cases h
    simp [writeTable_written htable, select_written rows hselect, List.isEmpty_iff.1 hempty,
      columnBindings]
  · simp only [bind_eq_ok, pure_eq_ok] at h
    obtain ⟨names, hnames, rfl⟩ := h
    simp [writeTable_written htable, select_written rows hselect, columnList_labels hnames]

/-! ## §2 Upserts -/

/-- Assignments have the values that they bring along. -/
theorem upsertAssignments_labels {incoming : String → Except Fault String}
    {update : List UpsertColumn} (h : t.upsertAssignments incoming update = .ok sql) :
    sql.labels = bound (update.filterMap UpsertColumn.value?) := by
  simp only [Target.upsertAssignments, bind_eq_ok, pure_eq_ok] at h
  obtain ⟨parts, hparts, rfl⟩ := h
  -- an incoming value is named, an assigned one is carried
  have hone : ∀ column sql, t.upsertAssignment incoming column = .ok sql →
      sql.labels = bound column.value?.toList := by
    intro column sql hsql
    cases column with
    | incoming c =>
      simp only [Target.upsertAssignment, bind_eq_ok, pure_eq_ok] at hsql
      obtain ⟨name, _, value, _, rfl⟩ := hsql
      rfl
    | value c v =>
      simp only [Target.upsertAssignment, bind_eq_ok, pure_eq_ok] at hsql
      obtain ⟨name, _, rfl⟩ := hsql
      simp [UpsertColumn.value?]
  rw [labels_join, flatMap_labels hparts hone, List.filterMap_eq_flatMap_toList, bound_flatMap]

/-- An upsert binds the assigned values behind those of its rows. -/
theorem upsertBindings_of_inserted {rows : Rows} {values : List Value}
    (h : Target.insertBindings rows = .ok values) (update : List UpsertColumn) :
    Target.upsertBindings rows update =
      .ok (values ++ bound (update.filterMap UpsertColumn.value?)) := by
  rw [Target.upsertBindings, h]
  rfl

/-- An upsert of MySQL has the labels of its rows, then those of its assignments. -/
theorem duplicateKeyUpsert_written {rows : Rows} {update : List UpsertColumn}
    (h : t.duplicateKeyUpsert q rows update = .ok sql) :
    ∃ values, Target.upsertBindings rows update = .ok values ∧
      sql.labels = t.carriedByTable q ++ values := by
  obtain ⟨insert, asName, assignments, hinsert, -, hassignments, rfl⟩ := duplicateKeyUpsert_eq_ok h
  obtain ⟨values, hvalues, hlabels⟩ := insertAs_written hinsert
  refine ⟨_, upsertBindings_of_inserted hvalues update, ?_⟩
  simp [hlabels, upsertAssignments_labels hassignments]

/-- An upsert of PostgreSQL and SQLite: its key is names. -/
theorem conflictUpsert_written {rows : Rows} {uniqueBy : List String} {update : List UpsertColumn}
    (h : t.conflictUpsert q rows uniqueBy update = .ok sql) :
    ∃ values, Target.upsertBindings rows update = .ok values ∧
      sql.labels = t.carriedByTable q ++ values := by
  obtain ⟨-, keys, assignments, insert, -, hassignments, hinsert, rfl⟩ := conflictUpsert_eq_ok h
  obtain ⟨values, hvalues, hlabels⟩ := insertAs_written hinsert
  refine ⟨_, upsertBindings_of_inserted hvalues update, ?_⟩
  simp [hlabels, upsertAssignments_labels hassignments]

/-- A merge goes into a table of a name, which binds nothing. -/
theorem mergeUpsert_written {rows : Rows} {uniqueBy : List String} {update : List UpsertColumn}
    (h : t.mergeUpsert q rows uniqueBy update = .ok sql) :
    ∃ values, Target.upsertBindings rows update = .ok values ∧
      sql.labels = t.carriedByTable q ++ values := by
  obtain ⟨-, name, target, columns, names, keys, assignments, hsource, -, hcolumns, -, -,
    hassignments, rfl⟩ := mergeUpsert_eq_ok h
  have htable : t.carriedByTable q = [] := by
    rw [Target.carriedByTable, hsource]
    rfl
  refine ⟨_, upsertBindings_of_inserted (insertBindings_of_columns hcolumns) update, ?_⟩
  simp [htable, rowTuples_labels, upsertAssignments_labels hassignments]

/-- An upsert in each dialect that has one. -/
theorem upsert_written {rows : Rows} {uniqueBy : List String} {update : List UpsertColumn}
    (h : t.upsert q rows uniqueBy update = .ok sql) :
    ∃ values, Target.upsertBindings rows update = .ok values ∧
      sql.labels = t.carriedByTable q ++ values := by
  unfold Target.upsert at h
  split at h
  · cases h
  · exact duplicateKeyUpsert_written h
  · exact conflictUpsert_written h
  · exact conflictUpsert_written h
  · exact mergeUpsert_written h

/-! ## §3 Updates and deletes -/

/-- The values of a condition on row identifiers: those of the query for them, as it is written. -/
def Target.carriedByRowIds (t : Target) (q : Query) : List Value :=
  match q.source with
  | none => []
  | some tbl => t.selectBindings ((t.rowIdQuery q tbl).written t)

/-- The values that an update has placeholders for. -/
def Target.carriedByUpdate (t : Target) (q : Query) (row : Row) : List Value :=
  if t.usesRowIds q then
    t.carriedByTable q ++ bound (t.assignedValues row) ++ t.carriedByRowIds q
  else t.updateBindings (q.written t) (t.buckets (q.written t)) row

/-- The values that a delete has placeholders for. -/
def Target.carriedByDelete (t : Target) (q : Query) : List Value :=
  if t.usesRowIds q then t.carriedByTable q ++ t.carriedByRowIds q
  else t.deleteBindings (q.written t) (t.buckets (q.written t))

/-- The select for identifiers of rows has the labels of its written form. -/
theorem rowIdCondition_written (h : t.rowIdCondition q = .ok sql) :
    sql.labels = t.carriedByRowIds q := by
  obtain ⟨tbl, rowId, select, hsource, -, hselect, rfl⟩ := rowIdCondition_eq_ok h
  simp [Target.carriedByRowIds, hsource, select_written _ hselect]

theorem writtenJoins_isEmpty (t : Target) (joins : List Join) :
    (writtenJoins t joins).isEmpty = joins.isEmpty := by
  cases joins <;> rfl

/-- A query is joined and limited as it is written. -/
theorem written_layout (t : Target) (q : Query) :
    t.usesRowIds (q.written t) = t.usesRowIds q ∧
      (q.written t).joins.isEmpty = q.joins.isEmpty := by
  rw [Query.written_eq]
  unfold Target.usesRowIds Query.hasJoinsOrLimit
  simp only [writtenJoins_isEmpty, and_self]

section Written

variable {tail : List Sql}

/-- The table has the labels of its bucket in the written form, as joins and conditions have. -/
theorem writeTable_written_bucket (h : t.writeTable q = .ok sql) :
    sql.labels = (t.buckets (q.written t)).source := by
  rw [writeTable_written h, (buckets_written t (q.written t)).1, Query.written_eq]
  rfl

theorem joins_written_bucket (h : t.joins q.joins = .ok sql) :
    sql.labels = (t.buckets (q.written t)).join := by
  rw [joins_written q.joins h, (buckets_written t (q.written t)).2.1, Query.written_eq]

theorem wheresClause_written_bucket (h : t.wheresClause q.wheres = .ok sql) :
    sql.labels = (t.buckets (q.written t)).wheres := by
  obtain ⟨clauses, hclauses, rfl⟩ := wheresClause_eq_ok h
  rw [conditions_labels, clauses_written q.wheres hclauses,
    (buckets_written t (q.written t)).2.2, Query.written_eq]

/-- The order of a query is written as it stands. -/
theorem writeOrder_written_bucket (h : t.writeOrder q = .ok tail) :
    tail.flatMap labels = if t.dialect = .mysql then (t.buckets (q.written t)).order else [] := by
  rw [writeOrder_bucket h]
  split
  · rename_i ht
    have hserver : t.dialect ≠ .sqlserver := by simp [ht]
    rw [buckets_eq hserver, buckets_eq hserver, Query.written_eq]
    rfl
  · rfl

end Written

/-- An update carries its values as its query is written. -/
theorem update_written {row : Row} (h : t.update q row = .ok sql) :
    sql.labels = t.carriedByUpdate q row := by
  obtain ⟨hids', hjoins'⟩ := written_layout t q
  obtain ⟨-, -, table, assigned, wheres, _, htable, hassigned, hwheres, hform, rfl⟩ :=
    update_eq_ok h
  have hset := assignments_labels hassigned
  have hwhere := wheresClause_written_bucket hwheres
  unfold Target.carriedByUpdate
  cases hform with
  | rowIds hrows hids =>
    rw [if_pos hrows]
    simp only [labels_trimEnd, labels_append, labels_ofString, List.nil_append, List.append_nil,
      writeTable_written htable, hset, rowIdCondition_written hids]
  | single hrows hjoins htail =>
    rw [if_neg hrows, updateBindings_single (by rwa [hids']) (hjoins'.trans hjoins)]
    simp only [labels_trimEnd, labels_words, labels_append, labels_ofString, List.flatMap_cons,
      List.flatMap_nil, List.nil_append, List.append_nil, writeTable_written_bucket htable, hset,
      hwhere, writeOrder_written_bucket htail]
  | joinedBehind hrows hjoins hserver hjoined =>
    rw [if_neg hrows, updateBindings_joined (by rwa [hids']) (by rwa [hjoins'])]
    simp [writeTable_written_bucket htable, hset, joins_written_bucket hjoined, hwhere, hserver]
  | joinedBefore hrows hjoins hserver hjoined =>
    rw [if_neg hrows, updateBindings_joined (by rwa [hids']) (by rwa [hjoins']), if_neg hserver]
    simp only [labels_trimEnd, labels_words, labels_append, labels_ofString, List.flatMap_cons,
      List.flatMap_nil, List.nil_append, List.append_nil, writeTable_written_bucket htable, hset,
      joins_written_bucket hjoined, hwhere]

/-- A delete carries its values as its query is written. -/
theorem delete_written (h : t.delete q = .ok sql) : sql.labels = t.carriedByDelete q := by
  obtain ⟨hids', hjoins'⟩ := written_layout t q
  obtain ⟨-, table, wheres, _, htable, hwheres, hform, rfl⟩ := delete_eq_ok h
  have hwhere := wheresClause_written_bucket hwheres
  unfold Target.carriedByDelete
  cases hform with
  | rowIds hrows hids =>
    rw [if_pos hrows]
    simp only [labels_trimEnd, labels_append, labels_ofString, List.nil_append, List.append_nil,
      writeTable_written htable, rowIdCondition_written hids]
  | single hrows hjoins htail =>
    rw [if_neg hrows, deleteBindings_single (by rwa [hids']) (hjoins'.trans hjoins)]
    simp only [labels_trimEnd, labels_words, labels_append, labels_ofString, List.flatMap_cons,
      List.flatMap_nil, List.nil_append, List.append_nil, writeTable_written_bucket htable, hwhere,
      writeOrder_written_bucket htail]
  | joined hrows hjoins hjoined =>
    rw [if_neg hrows, deleteBindings_joined (by rwa [hids']) (by rwa [hjoins'])]
    simp only [labels_trimEnd, labels_words, labels_append, labels_ofString, List.flatMap_cons,
      List.flatMap_nil, List.nil_append, List.append_nil, writeTable_written_bucket htable,
      joins_written_bucket hjoined, hwhere]

/-! ## §4 All statements -/

/-- The labelled texts of a truncate; the name in SQLite's table of counters is a value. -/
def Target.truncateTexts (t : Target) (q : Query) : Except Fault (List Sql) := do
  match t.dialect with
  | .postgres =>
    let cascade := if t.options.cascadeTruncate then " cascade" else ""
    return ["truncate " ++ (← t.writeTable q) ++ " restart identity" ++ cascade]
  | .sqlite =>
    match q.source with
    | none => throw .missingTable
    | some (.named name) =>
      let tbl := (splitAlias? name).elim name Prod.fst
      return ["delete from sqlite_sequence where name = " ++
          Sql.parameter (.text (t.options.tablePrefix ++ tbl)),
        "delete from " ++ t.quoteTable tbl]
    | some _ => throw .truncateTarget
  | _ => return ["truncate table " ++ (← t.writeTable q)]

/-- The labelled texts of a statement. -/
def Target.texts (t : Target) (q : Query) : Statement → Except Fault (List Sql)
  | .select => do return [← t.select q]
  | .hasRows => do return [← t.hasRows q]
  | .insert rows => do return [← t.insert q rows]
  | .insertOrIgnore rows => do return [← t.insertOrIgnore q rows]
  | .insertGetId rows key => do return [← t.insertGetId q rows key]
  | .insertUsing columns rows => do return [← t.insertUsing q columns rows]
  | .upsert rows uniqueBy assigned => do
    if assigned.isEmpty then return [← t.insert q rows]
    return [← t.upsert q rows uniqueBy assigned]
  | .update row => do return [← t.update q row]
  | .delete => do return [← t.delete q]
  | .truncate => t.truncateTexts q

/-- The values that the question whether a query has rows has placeholders for. -/
def Target.carriedByQuestion (t : Target) (q : Query) : List Value :=
  match t.dialect with
  | .sqlserver => t.selectBindings ((Target.probe q).written t)
  | _ => t.selectBindings (q.written t)

/-- The values that a truncate has placeholders for. -/
def Target.carriedByTruncate (t : Target) (q : Query) : List (List Value) :=
  match t.dialect, q.source with
  | .sqlite, some (.named name) =>
    [[.text (t.options.tablePrefix ++ (splitAlias? name).elim name Prod.fst)], []]
  | _, _ => [t.carriedByTable q]

/-- The values that the texts of a statement have placeholders for. -/
def Target.carried (t : Target) (q : Query) : Statement → Except Fault (List (List Value))
  | .select => .ok [t.selectBindings (q.written t)]
  | .hasRows => .ok [t.carriedByQuestion q]
  | .insert rows | .insertOrIgnore rows | .insertGetId rows _ => do
    return [t.carriedByTable q ++ (← insertBindings rows)]
  | .insertUsing columns rows =>
    .ok [t.carriedByTable q ++ bound (columnBindings columns) ++ t.selectBindings (rows.written t)]
  | .upsert rows _ assigned => do
    if assigned.isEmpty then return [t.carriedByTable q ++ (← insertBindings rows)]
    return [t.carriedByTable q ++ (← upsertBindings rows assigned)]
  | .update row => .ok [t.carriedByUpdate q row]
  | .delete => .ok [t.carriedByDelete q]
  | .truncate => .ok (t.carriedByTruncate q)

/-- The question for a row has the labels of the select that it asks. -/
theorem hasRows_written (h : t.hasRows q = .ok sql) : sql.labels = t.carriedByQuestion q := by
  unfold Target.hasRows at h
  split at h
  · rename_i hserver
    simp only [Target.carriedByQuestion, hserver]
    exact select_written (Target.probe q) h
  · rename_i hother
    simp only [bind_eq_ok, pure_eq_ok] at h
    obtain ⟨select, hselect, name, _, rfl⟩ := h
    unfold Target.carriedByQuestion
    split
    · exact absurd ‹_› hother
    · simp [select_written q hselect]

/-- What is compiled are the texts of a statement, and these carry the given values. -/
def Carries (t : Target) (q : Query) (s : Statement) (out : List Compiled) : Prop :=
  ∃ sqls, t.texts q s = .ok sqls ∧ out.map Compiled.sql = sqls.map Sql.text ∧
    t.carried q s = .ok (sqls.map Sql.labels)

section Statements

variable {s : Statement} {bindings : List Value}

/-- A statement of one text. -/
theorem carries_one {outcome : Except Fault Sql} {values : List Value} (h : outcome = .ok sql)
    (htexts : t.texts q s = do return [← outcome]) (hcarried : t.carried q s = .ok [values])
    (hlabels : sql.labels = values) : Carries t q s [Target.pair sql bindings] := by
  subst h hlabels
  exact ⟨[sql], htexts, rfl, hcarried⟩

theorem truncate_carries {out : List Compiled} (h : t.truncate q = .ok out) :
    Carries t q .truncate out := by
  unfold Carries
  simp only [Target.texts, Target.carried]
  unfold Target.truncate at h
  unfold Target.truncateTexts Target.carriedByTruncate
  cases hdialect : t.dialect with
  | postgres =>
    simp only [hdialect, bind_eq_ok, pure_eq_ok] at h
    obtain ⟨table, htable, rfl⟩ := h
    simp only [htable]
    exact ⟨_, rfl, rfl, by simp [writeTable_written htable]⟩
  | sqlite =>
    simp only [hdialect] at h ⊢
    split at h
    · cases h
    · rename_i name hsource
      cases h
      simp only [hsource]
      -- the counter is looked up by the name, which is bound in both traversals
      exact ⟨_, rfl, by simp [Target.pair, Value.raw?], by simp [bound_singleton, Value.isRaw]⟩
    · cases h
  | _ =>
    simp only [hdialect, bind_eq_ok, pure_eq_ok] at h
    obtain ⟨table, htable, rfl⟩ := h
    simp only [htable]
    exact ⟨_, rfl, rfl, by simp [writeTable_written htable]⟩

/-- An insert carries the values of its table, then those of its rows. -/
theorem insert_carries {rows : Rows} {c : Compiled} (h : t.compileInsert q rows = .ok c)
    (htexts : t.texts q s = do return [← t.insert q rows])
    (hcarried : t.carried q s = do
      return [t.carriedByTable q ++ (← Target.insertBindings rows)]) : Carries t q s [c] := by
  simp only [Target.compileInsert, bind_eq_ok, pure_eq_ok] at h
  obtain ⟨sql, hsql, _, hbindings, rfl⟩ := h
  obtain ⟨values, hvalues, hlabels⟩ := insertAs_written hsql
  rw [hvalues] at hcarried
  exact carries_one hsql htexts hcarried hlabels

end Statements

/-- The texts of every statement that compiles have placeholders for exactly these values: those
that are collected for its query as the query is written, and for an insert also those of its table
and of its list of columns. As a query is written, it has its distinct columns as well, and not the
columns that they displace or the order of a union that it does not have; apart from these, the
values of a query as it is written are the values that are collected for it. -/
theorem compile_carries (t : Target) (q : Query) (s : Statement) :
    (∀ out, t.compile q s = .ok out → Carries t q s out) ∧
    Balanced t (t.selectBindings (q.written t)) (t.selectBindings q) q.queries := by
  refine ⟨fun out h => ?_, selectBindings_balanced q⟩
  cases s with
  | select =>
    simp only [Target.compile, bind_eq_ok, pure_eq_ok] at h
    obtain ⟨sql, hsql, rfl⟩ := h
    exact carries_one hsql rfl rfl (select_written q hsql)
  | hasRows =>
    simp only [Target.compile, bind_eq_ok, pure_eq_ok] at h
    obtain ⟨sql, hsql, rfl⟩ := h
    exact carries_one hsql rfl rfl (hasRows_written hsql)
  | insert rows =>
    simp only [Target.compile, bind_eq_ok, pure_eq_ok] at h
    obtain ⟨c, hc, rfl⟩ := h
    exact insert_carries hc rfl rfl
  | insertOrIgnore rows =>
    simp only [Target.compile, bind_eq_ok, pure_eq_ok] at h
    obtain ⟨sql, hsql, _, _, rfl⟩ := h
    obtain ⟨values, hvalues, hlabels⟩ := insertOrIgnore_written hsql
    exact carries_one hsql rfl (by simp only [Target.carried, hvalues]; rfl) hlabels
  | insertGetId rows key =>
    simp only [Target.compile, bind_eq_ok, pure_eq_ok] at h
    obtain ⟨sql, hsql, _, _, rfl⟩ := h
    obtain ⟨values, hvalues, hlabels⟩ := insertGetId_written hsql
    exact carries_one hsql rfl (by simp only [Target.carried, hvalues]; rfl) hlabels
  | insertUsing columns rows =>
    simp only [Target.compile, bind_eq_ok, pure_eq_ok] at h
    obtain ⟨sql, hsql, rfl⟩ := h
    exact carries_one hsql rfl rfl (insertUsing_written hsql)
  | upsert rows uniqueBy assigned =>
    simp only [Target.compile] at h
    by_cases hempty : assigned.isEmpty = true
    · -- with nothing to assign this is a plain insert
      simp only [hempty, if_true, bind_eq_ok, pure_eq_ok] at h
      obtain ⟨c, hc, rfl⟩ := h
      exact insert_carries hc (by simp only [Target.texts, hempty, if_true])
        (by simp only [Target.carried, hempty, if_true])
    · simp only [hempty, Bool.false_eq_true, if_false, bind_eq_ok, pure_eq_ok] at h
      obtain ⟨sql, hsql, _, _, rfl⟩ := h
      obtain ⟨values, hvalues, hlabels⟩ := upsert_written hsql
      refine carries_one hsql ?_ ?_ hlabels
      · simp only [Target.texts, hempty, Bool.false_eq_true, if_false]
      · simp only [Target.carried, hempty, Bool.false_eq_true, if_false, hvalues]
        rfl
  | update row =>
    simp only [Target.compile, bind_eq_ok, pure_eq_ok] at h
    obtain ⟨sql, hsql, rfl⟩ := h
    exact carries_one hsql rfl rfl (update_written hsql)
  | delete =>
    simp only [Target.compile, bind_eq_ok, pure_eq_ok] at h
    obtain ⟨sql, hsql, rfl⟩ := h
    exact carries_one hsql rfl rfl (delete_written hsql)
  | truncate => exact truncate_carries h

/-- An archive that is written to by way of a function. -/
def archive : Query :=
  { Query.empty with source := some (.raw "archive(?)" [.int 1]) }

/-- A count of distinct names, with columns that are displaced and an order without a union. -/
def countedNames : Query :=
  { Query.empty with
    source := some (.named "users")
    distinct := .on [.raw "lower(name || ?)" [.text "x"]]
    aggregate := some ⟨"count", [.raw "nullif(rank, ?)" [.int 2]]⟩
    unionOrders := [.raw "total + ?" [.int 3]] }

/-- The insert of the count into the archive, which binds other values than it has placeholders
for. -/
def archivedCount : Compiled where
  sql := "insert into archive(?) (id + ?) " ++
    "select count(distinct lower(name || ?)) as aggregate from \x60users\x60"
  bindings := [.int 2, .int 3]

theorem insertUsing_countedNames_carries :
    Target.compile ⟨.mysql, {}⟩ archive (.insertUsing [.raw "id + ?" [.int 4]] countedNames) =
      .ok [archivedCount] ∧
    Target.carried ⟨.mysql, {}⟩ archive (.insertUsing [.raw "id + ?" [.int 4]] countedNames) =
      .ok [[.int 1, .int 4, .text "x"]] ∧
    Carries ⟨.mysql, {}⟩ archive (.insertUsing [.raw "id + ?" [.int 4]] countedNames)
      [archivedCount] :=
  ⟨rfl, rfl, (compile_carries ⟨.mysql, {}⟩ archive
    (.insertUsing [.raw "id + ?" [.int 4]] countedNames)).1 [archivedCount] rfl⟩

/-- The users of different names. -/
def distinctNames : Query :=
  { Query.empty with
    source := some (.named "users")
    distinct := .on [.raw "lower(name || ?)" [.text "x"]] }

/-- The value of a distinct column has a placeholder, and is not bound. -/
theorem distinctNames_unbound :
    ∃ sql, Target.select ⟨.postgres, {}⟩ distinctNames = .ok sql ∧
      sql.text = "select distinct on (lower(name || ?)) * from \"users\"" ∧
      sql.labels = [.text "x"] ∧
      Target.compile ⟨.postgres, {}⟩ distinctNames .select = .ok [⟨sql.text, []⟩] :=
  ⟨_, rfl, by decide +kernel, rfl, rfl⟩

end SqlCompiler
