import SqlCompiler.Proofs.SelectAlignment

/-!
# Alignment of Updates and Deletes

Every dialect lays out its updates and deletes in its own way, and lists in its own way the buckets
that are bound before and after the assignments. Layout and list agree.

## Main statements

- `assignments_labels`: the assignments of an update carry the values that are bound for them
- `rowIdCondition_labels`: a condition on row identifiers carries all buckets after the select list
- `updateBindings_single`, `updateBindings_joined`, …: what is bound in each layout
- `update_labels`, `delete_labels`: the labels of a statement are its bindings
- `compile_write_aligned`: what is compiled is the labelled text, and its labels
-/

namespace SqlCompiler

open Sql

variable {t : Target} {sql : Sql} {q : Query}

/-! ## §1 Assignments -/

/-- A value is bound as it is, or as JSON text; a raw expression is never encoded. -/
theorem isRaw_assignedValue (t : Target) (key : String) (value : Value) :
    (t.assignedValue key value).isRaw = value.isRaw := by
  cases hraw : value.isRaw with
  -- a raw expression is assigned as it is, in every dialect
  | true =>
    cases value with
    | raw sql =>
      unfold Target.assignedValue
      split <;> rfl
    | _ => cases hraw
  | false =>
    have htext : value.jsonText.isRaw = false := rfl
    unfold Target.assignedValue
    split
    · split <;> assumption
    · split
      · rfl
      · exact hraw
      · split <;> assumption
    · split
      · rfl
      · exact hraw
    · exact hraw

/-- What is bound for an assignment is raw exactly if the value is. -/
theorem bound_assignedValue (t : Target) (key : String) (value : Value) :
    bound [t.assignedValue key value] =
      if value.isRaw then [] else [t.assignedValue key value] := by
  rw [bound_singleton, isRaw_assignedValue]

/-- An assignment is labelled with what it binds. -/
theorem assignment_labels {name key : String} {value : Value}
    (h : t.assignment name key value = .ok sql) :
    sql.labels = bound [t.assignedValue key value] := by
  simp only [Target.assignment, bind_eq_ok, pure_eq_ok] at h
  obtain ⟨column, _, rfl⟩ := h
  simp [bound_assignedValue]

/-- Whether MySQL binds the value of an entry: booleans stand in the text of a JSON assignment. -/
def placedEntry : String × Value → Bool := fun (key, value) =>
  !(isSelector key && (match value with | .bool _ => true | _ => false))

/-- The values that MySQL binds for an entry. -/
def placedValues (t : Target) (entry : String × Value) : List Value :=
  if placedEntry entry then bound [t.assignedValue entry.1 entry.2] else []

/-- An assignment into a document of MySQL: a boolean stands in the text and has no label. -/
theorem setDocument_labels {key : String} {value : Value} (ht : t.dialect = .mysql)
    (hkey : isSelector key = true) :
    (t.setDocument key value).labels = placedValues t (key, value) := by
  rw [placedValues, bound_assignedValue]
  cases value with
  | json doc =>
    cases hdoc : doc.isContainer <;>
      simp [Target.setDocument, placedEntry, Target.assignedValue, ht, Value.isContainer,
        Value.isRaw, hdoc, bound_singleton]
  | bool b =>
    cases b <;> simp [Target.setDocument, placedEntry, hkey]
  | _ =>
    simp [Target.setDocument, placedEntry, Target.assignedValue, ht, Value.isContainer,
      Value.isRaw, bound_singleton]

/-- An assignment into a document of PostgreSQL binds JSON text. -/
theorem setJsonb_labels {key column : String} {value : Value} (ht : t.dialect = .postgres)
    (hkey : isSelector key = true) (h : t.setJsonb column value = .ok sql) :
    sql.labels = bound [t.assignedValue key value] := by
  -- an assignment into a document is bound as JSON text, unless it is raw
  have hassigned : t.assignedValue key value = value.jsonText ∨ value.isRaw = true := by
    cases value <;> simp [Target.assignedValue, ht, hkey, Value.isRaw]
  unfold Target.setJsonb at h
  split at h
  · exact absurd ‹_› (Text.splitOn_ne_nil _ _)
  · simp only [bind_eq_ok, pure_eq_ok] at h
    obtain ⟨field, _, rfl⟩ := h
    rw [bound_assignedValue]
    rcases hassigned with hassigned | hraw
    · simp [hassigned]
    · simp [hraw]

/-- A merged document is bound as text. -/
theorem mergePatch_labels {column : String} {doc : Json} (h : t.mergePatch column doc = .ok sql) :
    sql.labels = [.text doc.compact] := by
  simp only [Target.mergePatch, bind_eq_ok, pure_eq_ok] at h
  obtain ⟨field, _, rfl⟩ := h
  simp [bound_singleton, Value.isRaw]

/-- The values of items picked from a list, bound item by item. -/
theorem bound_filter_map {α : Type} (p : α → Bool) (f : α → Value) (xs : List α) :
    bound ((xs.filter p).map f) = xs.flatMap fun x => if p x then bound [f x] else [] := by
  induction xs with
  | nil => rfl
  | cons x xs ih =>
    rw [List.flatMap_cons, ← ih]
    cases hx : p x
    · simp [hx]
    · rw [List.filter_cons_of_pos hx, List.map_cons, bound_cons]
      simp

/-- The values of the items of a list, bound item by item. -/
theorem bound_map {α : Type} (f : α → Value) (xs : List α) :
    bound (xs.map f) = xs.flatMap fun x => bound [f x] := by
  induction xs with
  | nil => rfl
  | cons x xs ih => rw [List.map_cons, bound_cons, ih, List.flatMap_cons]

/-- The assignments of an update carry the values that are bound for them. -/
theorem assignments_labels {row : Row} (h : t.assignments row = .ok sql) :
    sql.labels = bound (t.assignedValues row) := by
  unfold Target.assignments at h
  unfold Target.assignedValues
  cases ht : t.dialect with
  | generic | sqlserver =>
    simp only [ht, bind_eq_ok, pure_eq_ok] at h ⊢
    obtain ⟨parts, hparts, rfl⟩ := h
    rw [labels_join, bound_map]
    exact flatMap_labels hparts fun _ _ => assignment_labels
  | mysql =>
    -- the booleans that are filtered out of the values are those that stand in the text
    simp only [ht, bind_eq_ok, pure_eq_ok] at h ⊢
    obtain ⟨parts, hparts, rfl⟩ := h
    rw [labels_join, bound_filter_map]
    refine flatMap_labels hparts fun entry part hpart => ?_
    obtain ⟨key, value⟩ := entry
    by_cases hkey : isSelector key = true
    · rw [if_pos hkey] at hpart
      cases hpart
      exact setDocument_labels ht hkey
    · rw [if_neg hkey] at hpart
      rw [assignment_labels hpart]
      simp [hkey]
  | postgres =>
    simp only [ht, bind_eq_ok, pure_eq_ok] at h ⊢
    obtain ⟨parts, hparts, rfl⟩ := h
    rw [labels_join, bound_map]
    refine flatMap_labels hparts fun entry part hpart => ?_
    obtain ⟨key, value⟩ := entry
    by_cases hkey : isSelector key = true
    · rw [if_pos hkey] at hpart
      exact setJsonb_labels ht hkey hpart
    · rw [if_neg hkey] at hpart
      exact assignment_labels hpart
  | sqlite =>
    -- merged documents come after plain assignments, in the text as among the values
    simp only [ht, bind_eq_ok, pure_eq_ok] at h ⊢
    obtain ⟨plain, hplain, merged, hmerged, parts, rfl, rfl⟩ := h
    rw [labels_join, List.flatMap_append, bound_append, bound_map, bound_map]
    congr 1
    · exact flatMap_labels hplain fun _ _ => assignment_labels
    · exact flatMap_labels hmerged fun _ _ => mergePatch_labels

/-! ## §2 Parts of a statement -/

/-- A query whose rows are written has to collect what it writes, as any query that is selected
from; its own select list is replaced or left out. -/
structure Query.WriteMirrored (q : Query) : Prop where
  nested : ∀ r ∈ q.nested, r.Mirrored
  distinct : bound (columnBindings q.distinct.columns) = []
  unionOrders : bound (orderBindings q.unionOrders) = []

namespace Query.WriteMirrored

theorem source (hq : q.WriteMirrored) : ∀ r ∈ sourceQueries q.source, r.Mirrored :=
  fun r hr => hq.nested r (by simp [Query.nested, hr])

theorem joins (hq : q.WriteMirrored) : ∀ r ∈ joinsQueries q.joins, r.Mirrored :=
  fun r hr => hq.nested r (by simp [Query.nested, hr])

theorem wheres (hq : q.WriteMirrored) : ∀ r ∈ clauseQueries q.wheres, r.Mirrored :=
  fun r hr => hq.nested r (by simp [Query.nested, hr])

/-- The query for row identifiers has no aggregate, and the rest of the query is kept. -/
theorem rowIdQuery (hq : q.WriteMirrored) (t : Target) (tbl : Table) :
    ∀ r ∈ (t.rowIdQuery q tbl).queries, r.Mirrored := by
  intro r hr
  rw [Query.queries_eq, List.mem_cons] at hr
  rcases hr with rfl | hr
  · refine ⟨hq.distinct, ?_, fun _ => hq.unionOrders⟩
    unfold Query.displacedColumns Target.rowIdQuery
    cases q.distinct <;> rfl
  · exact hq.nested r hr

end Query.WriteMirrored

/-- Row numbers move the order of a query; table, joins and conditions stay in their buckets. -/
theorem buckets_written (t : Target) (q : Query) :
    (t.buckets q).source = bound (t.sourceBindings q.source) ∧
    (t.buckets q).join = bound (t.joinsBindings q.joins) ∧
    (t.buckets q).wheres = bound (t.clauseBindings q.wheres) := by
  dsimp only [Target.buckets, Target.arrange]
  split <;> split <;> exact ⟨rfl, rfl, rfl⟩

/-- Only SQL Server moves the order of a query into its select list. -/
theorem buckets_eq (h : t.dialect ≠ .sqlserver) (q : Query) :
    t.buckets q = q.bucketsAround (t.sourceBindings q.source) (t.joinsBindings q.joins)
      (t.clauseBindings q.wheres) (t.branchBindings q.unions) := by
  simp [Target.buckets, Target.arrange, numbersRows_eq_false h]

/-- The table of a write has the labels of its bucket, and in the same way the joins and the
conditions. -/
theorem writeTable_bucket (hq : q.WriteMirrored) (h : t.writeTable q = .ok sql) :
    sql.labels = (t.buckets q).source := by
  rw [(buckets_written t q).1, writeTable_labels hq.source h]

theorem joins_bucket (hq : q.WriteMirrored) (h : t.joins q.joins = .ok sql) :
    sql.labels = (t.buckets q).join := by
  rw [(buckets_written t q).2.1, joins_labels q.joins hq.joins h]

/-- Without joins their bucket is empty. -/
theorem join_bucket_eq_nil (h : q.joins.isEmpty = true) : (t.buckets q).join = [] := by
  rw [(buckets_written t q).2.1, List.isEmpty_iff.1 h]
  rfl

theorem wheresClause_bucket (hq : q.WriteMirrored) (h : t.wheresClause q.wheres = .ok sql) :
    sql.labels = (t.buckets q).wheres := by
  obtain ⟨clauses, hclauses, rfl⟩ := wheresClause_eq_ok h
  rw [(buckets_written t q).2.2, conditions_labels, clauses_labels q.wheres hq.wheres hclauses]

/-- Order and limit stand on a statement only in MySQL. -/
theorem writeOrder_bucket {tail : List Sql} (h : t.writeOrder q = .ok tail) :
    tail.flatMap labels = if t.dialect = .mysql then (t.buckets q).order else [] := by
  unfold Target.writeOrder at h
  split at h
  · rename_i ht
    simp only [bind_eq_ok, pure_eq_ok] at h
    obtain ⟨orders, horders, rfl⟩ := h
    have hbucket : (t.buckets q).order = orders.labels := by
      rw [buckets_eq (by simp [ht]), ordersClause_labels horders]
      rfl
    cases q.limit <;> simp [ht, hbucket]
  · rename_i ht
    cases h
    -- without an order in the statement the bucket is not read
    rw [if_neg ht]
    rfl

/-- Rows are selected by their identifiers in two dialects, for joins and for a limit. -/
theorem usesRowIds_iff :
    t.usesRowIds q = true ↔
      (t.dialect = .postgres ∨ t.dialect = .sqlite) ∧ q.hasJoinsOrLimit = true := by
  unfold Target.usesRowIds
  cases t.dialect <;> simp [Dialect.selectsRowIds]

/-- Where a statement writes joins of its own, no row identifiers are selected. -/
theorem not_rowId_dialect (hrows : ¬t.usesRowIds q = true) (hjoins : ¬q.joins.isEmpty = true) :
    ¬(t.dialect = .postgres ∨ t.dialect = .sqlite) := by
  rw [usesRowIds_iff] at hrows
  intro hdialect
  exact hrows ⟨hdialect, by simp [Query.hasJoinsOrLimit, hjoins]⟩

/-- The condition on row identifiers carries everything that a select of the query would, but for
the select list. -/
theorem rowIdCondition_labels (hq : q.WriteMirrored) (hrows : t.usesRowIds q = true)
    (h : t.rowIdCondition q = .ok sql) :
    sql.labels = (t.buckets q).flattenOnly Bucket.afterSelectList := by
  have ht : t.dialect ≠ .sqlserver := by
    rcases (usesRowIds_iff.1 hrows).1 with ht | ht <;> simp [ht]
  obtain ⟨tbl, rowId, select, -, -, hselect, rfl⟩ := rowIdCondition_eq_ok h
  -- the select of row identifiers lists a named column, which binds nothing
  have hlabels := select_labels (t.rowIdQuery q tbl) (hq.rowIdQuery t tbl) hselect
  rw [Target.selectBindings_eq, buckets_eq ht] at hlabels
  rw [buckets_eq ht]
  simp only [labels_append, labels_ofString, hlabels, List.nil_append, List.append_nil]
  rfl

/-! ## §3 Lists of buckets -/

section BucketLists

variable {row : Row}

/-- Where rows are selected by their identifiers, the target table is bound before the assignments,
and once more with the rest of the query after them. -/
theorem updateBindings_rowIds (hrows : t.usesRowIds q = true) :
    t.updateBindings q (t.buckets q) row =
      (t.buckets q).source ++ bound (t.assignedValues row) ++
        (t.buckets q).flattenOnly Bucket.afterSelectList := by
  obtain ⟨hdialect, hwide⟩ := usesRowIds_iff.1 hrows
  rcases hdialect with ht | ht <;>
    simp [Target.updateBindings, ht, Target.rowIdBuckets, hwide, Buckets.around,
      Buckets.flattenOnly, Buckets.get]

/-- An update of a single table, with the order behind its conditions in MySQL. -/
theorem updateBindings_single (hrows : ¬t.usesRowIds q = true) (hjoins : q.joins.isEmpty = true) :
    t.updateBindings q (t.buckets q) row =
      (t.buckets q).source ++ bound (t.assignedValues row) ++ (t.buckets q).wheres ++
        if t.dialect = .mysql then (t.buckets q).order else [] := by
  have hnone := join_bucket_eq_nil (t := t) hjoins
  rw [usesRowIds_iff] at hrows
  -- without joins the bucket of joins is empty, whether a dialect lists it or not
  cases ht : t.dialect <;>
    simp_all [Target.updateBindings, Target.rowIdBuckets, Buckets.around, Buckets.flattenOnly,
      Buckets.get]

/-- An update with joins: SQL Server writes them behind the assignments, the other dialects in
front. -/
theorem updateBindings_joined (hrows : ¬t.usesRowIds q = true) (hjoins : ¬q.joins.isEmpty = true) :
    t.updateBindings q (t.buckets q) row =
      if t.dialect = .sqlserver then
        bound (t.assignedValues row) ++ (t.buckets q).source ++ (t.buckets q).join ++
          (t.buckets q).wheres
      else
        (t.buckets q).source ++ (t.buckets q).join ++ bound (t.assignedValues row) ++
          (t.buckets q).wheres := by
  have hdialect := not_rowId_dialect hrows hjoins
  cases ht : t.dialect <;>
    simp_all [Target.updateBindings, Buckets.around, Buckets.flattenOnly, Buckets.get]

/-- A delete that selects identifiers of rows binds all clauses of the select. -/
theorem deleteBindings_rowIds (hrows : t.usesRowIds q = true) :
    t.deleteBindings q (t.buckets q) =
      (t.buckets q).source ++ (t.buckets q).flattenOnly Bucket.afterSelectList := by
  obtain ⟨hdialect, hwide⟩ := usesRowIds_iff.1 hrows
  rcases hdialect with ht | ht <;>
    simp [Target.deleteBindings, ht, Target.rowIdBuckets, hwide, Buckets.flattenOnly, Buckets.get]

theorem deleteBindings_single (hrows : ¬t.usesRowIds q = true) (hjoins : q.joins.isEmpty = true) :
    t.deleteBindings q (t.buckets q) =
      (t.buckets q).source ++ (t.buckets q).wheres ++
        if t.dialect = .mysql then (t.buckets q).order else [] := by
  have hnone := join_bucket_eq_nil (t := t) hjoins
  rw [usesRowIds_iff] at hrows
  cases ht : t.dialect <;>
    simp_all [Target.deleteBindings, Target.rowIdBuckets, Buckets.flattenOnly, Buckets.get]

theorem deleteBindings_joined (hrows : ¬t.usesRowIds q = true) (hjoins : ¬q.joins.isEmpty = true) :
    t.deleteBindings q (t.buckets q) =
      (t.buckets q).source ++ (t.buckets q).join ++ (t.buckets q).wheres := by
  have hdialect := not_rowId_dialect hrows hjoins
  cases ht : t.dialect <;>
    simp_all [Target.deleteBindings, Buckets.flattenOnly, Buckets.get]

end BucketLists

/-! ## §4 Statements -/

/-- An update carries the values that are listed for its layout. -/
theorem update_labels {row : Row} (hq : q.WriteMirrored) (h : t.update q row = .ok sql) :
    sql.labels = t.updateBindings q (t.buckets q) row := by
  obtain ⟨-, -, table, assigned, wheres, _, htable, hassigned, hwheres, hform, rfl⟩ :=
    update_eq_ok h
  have hset := assignments_labels hassigned
  have hwhere := wheresClause_bucket hq hwheres
  cases hform with
  | rowIds hrows hids =>
    -- the table is written twice, first as the target, then in the select of row identifiers
    rw [updateBindings_rowIds hrows]
    simp only [labels_trimEnd, labels_append, labels_ofString, List.nil_append, List.append_nil,
      writeTable_bucket hq htable, hset, rowIdCondition_labels hq hrows hids]
  | single hrows hjoins htail =>
    rw [updateBindings_single hrows hjoins]
    simp only [labels_trimEnd, labels_words, labels_append, labels_ofString, List.flatMap_cons,
      List.flatMap_nil, List.nil_append, List.append_nil, writeTable_bucket hq htable, hset, hwhere,
      writeOrder_bucket htail]
  | joinedBehind hrows hjoins hserver hjoined =>
    -- the name of the target binds nothing, so the table does where it is written in full
    rw [updateBindings_joined hrows hjoins]
    simp [writeTable_bucket hq htable, hset, joins_bucket hq hjoined, hwhere, hserver]
  | joinedBefore hrows hjoins hserver hjoined =>
    rw [updateBindings_joined hrows hjoins, if_neg hserver]
    simp only [labels_trimEnd, labels_words, labels_append, labels_ofString, List.flatMap_cons,
      List.flatMap_nil, List.nil_append, List.append_nil, writeTable_bucket hq htable, hset,
      joins_bucket hq hjoined, hwhere]

/-- A delete carries the values that are listed for its layout. -/
theorem delete_labels (hq : q.WriteMirrored) (h : t.delete q = .ok sql) :
    sql.labels = t.deleteBindings q (t.buckets q) := by
  obtain ⟨-, table, wheres, _, htable, hwheres, hform, rfl⟩ := delete_eq_ok h
  have hwhere := wheresClause_bucket hq hwheres
  cases hform with
  | rowIds hrows hids =>
    rw [deleteBindings_rowIds hrows]
    simp only [labels_trimEnd, labels_append, labels_ofString, List.nil_append, List.append_nil,
      writeTable_bucket hq htable, rowIdCondition_labels hq hrows hids]
  | single hrows hjoins htail =>
    rw [deleteBindings_single hrows hjoins]
    simp only [labels_trimEnd, labels_words, labels_append, labels_ofString, List.flatMap_cons,
      List.flatMap_nil, List.nil_append, List.append_nil, writeTable_bucket hq htable, hwhere,
      writeOrder_bucket htail]
  | joined hrows hjoins hjoined =>
    rw [deleteBindings_joined hrows hjoins]
    simp only [labels_trimEnd, labels_words, labels_append, labels_ofString, List.flatMap_cons,
      List.flatMap_nil, List.nil_append, List.append_nil, writeTable_bucket hq htable,
      joins_bucket hq hjoined, hwhere]

/-- In every dialect, for every assignment of values and every layout, an update and a delete
compile to the text of their labelled SQL, and bind its labels from left to right. -/
theorem compile_write_aligned (t : Target) {q : Query} (hq : q.WriteMirrored) :
    (∀ row : Row, t.compile q (.update row) = (t.update q row).map fun sql => [sql.reading]) ∧
    t.compile q .delete = (t.delete q).map fun sql => [sql.reading] := by
  constructor
  · intro row
    exact compiled_eq_reading fun sql h => update_labels hq h
  · exact compiled_eq_reading fun sql h => delete_labels hq h

/-- Some rows of a derived table, joined with the open orders. -/
def staleRows : Query :=
  { Query.empty with
    source := some (.derived openOrders "s")
    joins := [
      ⟨.left, .derived openOrders "o",
        [⟨.and, .compare (.named "o.kind") "=" (.text "refill")⟩], [], false⟩]
    wheres := [⟨.and, .inQuery (.named "s.id") openOrders true⟩]
    orders := [.raw "abs(s.rank - ?)" [.int 5]] }

/-- A plain value, a document and two paths into one document. -/
def staleRow : Row :=
  ⟨[("s.note->by", .text "cron"), ("s.state", .text "stale"), ("s.note->old", .bool true),
    ("s.count", .raw "count + 1"), ("s.tags", .json (.array [.string "a"]))]⟩

/-- An update and deletes of the same rows, in three layouts. -/
theorem compile_staleRows_aligned :
    staleRows.WriteMirrored ∧
    (Target.update ⟨.sqlite, {}⟩ staleRows staleRow).isOk = true ∧
    Target.compile ⟨.sqlite, {}⟩ staleRows (.update staleRow) =
      (Target.update ⟨.sqlite, {}⟩ staleRows staleRow).map (fun sql => [sql.reading]) ∧
    (Target.update ⟨.sqlserver, {}⟩ staleRows staleRow).isOk = true ∧
    Target.compile ⟨.sqlserver, {}⟩ staleRows (.update staleRow) =
      (Target.update ⟨.sqlserver, {}⟩ staleRows staleRow).map (fun sql => [sql.reading]) ∧
    (Target.delete ⟨.postgres, {}⟩ staleRows).isOk = true ∧
    Target.compile ⟨.postgres, {}⟩ staleRows .delete =
      (Target.delete ⟨.postgres, {}⟩ staleRows).map fun sql => [sql.reading] := by
  have hq : staleRows.WriteMirrored := ⟨by decide, rfl, rfl⟩
  refine ⟨hq, by decide +kernel, ?_, by decide +kernel, ?_, by decide +kernel, ?_⟩
  · exact (compile_write_aligned ⟨.sqlite, {}⟩ hq).1 staleRow
  · exact (compile_write_aligned ⟨.sqlserver, {}⟩ hq).1 staleRow
  · exact (compile_write_aligned ⟨.postgres, {}⟩ hq).2

end SqlCompiler
