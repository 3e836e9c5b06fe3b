import SqlCompiler.Proofs.MaskedBindings
import SqlCompiler.Proofs.MaskedSelect

/-!
# Masked Inserts

Inserts and upserts write and bind as many values for masked rows as for the rows themselves: the
columns, their agreement and the order of the values are a matter of the column names.

## Main statements

- `valuesIn_mask`, `columns?_mask`: the values and the columns of masked rows
- `insert_mask`, `insertUsing_mask`, `upsert_mask`: the texts of inserts
- `insertBindings_mask`, `upsertBindings_mask`: what they bind
-/

namespace SqlCompiler

open Sql

variable {t : Target} {q : Query}

/-! ## §1 Rows -/

/-- What a masked row holds under a column is the mask of what the row holds there. -/
theorem get?_mask (row : Row) (column : String) :
    row.mask.get? column = (row.get? column).map Value.mask := by
  unfold Row.get? Row.mask maskEntries
  rw [List.find?_map, Option.map_map, Option.map_map]
  rfl

/-- Values are looked up by their columns, which a mask keeps. -/
theorem valuesIn_mask (row : Row) (columns : List String) :
    row.mask.valuesIn columns = maskValues (row.valuesIn columns) := by
  unfold Row.valuesIn maskValues
  rw [List.map_filterMap]
  exact congrArg (List.filterMap · columns) (funext fun column => get?_mask row column)

/-- The rows of a masked insert are masked one by one. -/
theorem toList_mask (rows : Rows) : rows.mask.toList = rows.toList.map Row.mask := by
  cases rows <;> rfl

/-- A mask keeps the columns of a row and their order. -/
theorem columns_mask (row : Row) : row.mask.columns = row.columns := by
  simp [Row.columns, Row.mask, maskEntries]

theorem size_mask (row : Row) : row.mask.size = row.size := by
  simp [Row.size, Row.mask, maskEntries]

/-- Whether a row has exactly given columns does not depend on its values. -/
theorem hasColumns_mask (row : Row) (columns : List String) :
    row.mask.hasColumns columns = row.hasColumns columns := by
  simp [Row.hasColumns, get?_mask, size_mask]

theorem isEmpty_mask (row : Row) : row.mask.isEmpty = row.isEmpty := by
  simp [Row.isEmpty, Row.mask, maskEntries]

/-- A masked insert writes default values where the insert does. -/
theorem rows_isEmpty_mask (rows : Rows) : rows.mask.isEmpty = rows.isEmpty := by
  simp [Rows.isEmpty, toList_mask, Function.comp_def, isEmpty_mask]

/-- Whether rows share their columns is seen in the names of the columns. -/
theorem columns?_mask (rows : Rows) : rows.mask.columns? = rows.columns? := by
  unfold Rows.columns?
  rw [toList_mask]
  cases rows.toList with
  | nil => rfl
  | cons first rest => simp [columns_mask, hasColumns_mask, Function.comp_def]

/-- Tuples are placeholders and raw expressions, and a mask keeps both. -/
theorem rowTuples_mask (rows : Rows) (columns : List String) :
    SameText (Target.rowTuples rows.mask columns) (Target.rowTuples rows columns) := by
  unfold Target.rowTuples
  apply SameText.join
  rw [toList_mask, List.map_map, List.forall₂_map_left_iff, List.forall₂_map_right_iff,
    List.forall₂_same]
  intro row _
  refine ⟨?_⟩
  simp [valuesIn_mask, (SameText.parameters (row.valuesIn columns)).text]

/-- Rows bind as many values as their masks. -/
theorem rows_valuesIn_mask (rows : Rows) (columns : List String) :
    rawness (rows.mask.valuesIn columns) = rawness (rows.valuesIn columns) := by
  unfold Rows.valuesIn
  rw [toList_mask]
  induction rows.toList with
  | nil => rfl
  | cons row rest ih => simp [valuesIn_mask, ih]

/-! ## §2 Inserts -/

/-- The table of a write may be derived from a query, whose values are masked with it. -/
theorem writeTable_mask (t : Target) (q : Query) :
    Alike SameText (t.writeTable q.mask) (t.writeTable q) := by
  rw [Query.mask_eq]
  unfold Target.writeTable
  cases q.source with
  | none => exact .fault _
  | some tbl => exact table_mask t tbl

/-- An insert after any verb, with rows or with default values. -/
theorem insertAs_mask (verb : String) (q : Query) (rows : Rows) :
    Alike SameText (t.insertAs verb q.mask rows.mask) (t.insertAs verb q rows) := by
  unfold Target.insertAs
  refine (writeTable_mask t q).bind fun tbl tbl' htbl => ?_
  rw [rows_isEmpty_mask]
  split
  · split
    · exact .pure ⟨by simp [htbl.text]⟩
    · exact .pure ⟨by simp [htbl.text]⟩
  · -- the columns are those of the first row, and the names are the same in both runs
    unfold Target.insertRows
    rw [columns?_mask]
    refine .step _ fun columns => .step _ fun names => .pure ⟨?_⟩
    simp [htbl.text, (rowTuples_mask rows columns).text]

/-- Inserts of rows. -/
theorem insert_mask (q : Query) (rows : Rows) :
    Alike SameText (t.insert q.mask rows.mask) (t.insert q rows) :=
  insertAs_mask "insert" q rows

/-- The dialects put a word or a clause around an insert. -/
theorem insertOrIgnore_mask (q : Query) (rows : Rows) :
    Alike SameText (t.insertOrIgnore q.mask rows.mask) (t.insertOrIgnore q rows) := by
  unfold Target.insertOrIgnore
  split
  · exact insertAs_mask _ q rows
  · exact insertAs_mask _ q rows
  · exact (insert_mask q rows).bind fun insert insert' hinsert => .pure ⟨by simp [hinsert.text]⟩
  · exact .fault _
  · exact .fault _

/-- The key that is asked for is a name, which a mask leaves as it is. -/
theorem insertGetId_mask (q : Query) (rows : Rows) (key : Option String) :
    Alike SameText (t.insertGetId q.mask rows.mask key) (t.insertGetId q rows key) := by
  unfold Target.insertGetId
  split
  · exact (insert_mask q rows).bind fun insert insert' hinsert => .step _ fun name =>
      .pure ⟨by simp [hinsert.text]⟩
  · exact insert_mask q rows

/-- An insert of selected rows: table, query and columns are compiled in this order, and each
alike. -/
theorem insertUsing_mask (q : Query) (columns : List Column) (rows : Query) :
    Alike SameText (t.insertUsing q.mask (maskColumns columns) rows.mask)
      (t.insertUsing q columns rows) := by
  unfold Target.insertUsing
  refine (writeTable_mask t q).bind fun tbl tbl' htbl => ?_
  refine (select_mask t rows).bind fun select select' hselect => ?_
  rw [maskColumns_isEmpty]
  split
  · exact .pure ⟨by simp [htbl.text, hselect.text]⟩
  · exact (columnList_mask t columns).bind fun list list' hlist =>
      .pure ⟨by simp [htbl.text, hselect.text, hlist.text]⟩

/-- A masked insert binds as many values, raw expressions left out alike. -/
theorem insertBindings_mask (rows : Rows) :
    Alike (fun vs ws => rawness vs = rawness ws) (Target.insertBindings rows.mask)
      (Target.insertBindings rows) := by
  unfold Target.insertBindings
  rw [columns?_mask]
  exact .step _ fun columns => .pure (by simp [rows_valuesIn_mask])

/-! ## §3 Upserts -/

/-- An assignment of a value is a placeholder or a raw expression. -/
theorem upsertAssignment_mask (incoming : String → Except Fault String) (column : UpsertColumn) :
    Alike SameText (t.upsertAssignment incoming column.mask)
      (t.upsertAssignment incoming column) := by
  cases column with
  | incoming c => exact alike_refl _
  | value c v =>
    exact .step _ fun name => .pure (.append (.refl _) (.parameter v))

theorem upsertAssignments_mask (incoming : String → Except Fault String)
    (update : List UpsertColumn) :
    Alike SameText (t.upsertAssignments incoming (update.map UpsertColumn.mask))
      (t.upsertAssignments incoming update) :=
  (Alike.mapM_map update (upsertAssignment_mask incoming)).bind fun _ _ hparts =>
    .pure (.join ", " hparts)

/-- Upserts of MySQL: an insert with assignments behind it. -/
theorem duplicateKeyUpsert_mask (q : Query) (rows : Rows) (update : List UpsertColumn) :
    Alike SameText (t.duplicateKeyUpsert q.mask rows.mask (update.map UpsertColumn.mask))
      (t.duplicateKeyUpsert q rows update) := by
  unfold Target.duplicateKeyUpsert
  refine (insert_mask q rows).bind fun insert insert' hinsert => ?_
  -- the same assignments, whether the new row goes by an alias or by the function of MySQL
  have hassignments := upsertAssignments_mask (t := t) t.duplicateValue update
  split
  · exact .step _ fun name => .step _ fun asName =>
      hassignments.bind fun assigned assigned' hassigned =>
        .pure ⟨by simp [hinsert.text, hassigned.text]⟩
  · exact .step _ fun asName => hassignments.bind fun assigned assigned' hassigned =>
      .pure ⟨by simp [hinsert.text, hassigned.text]⟩

/-- Upserts of PostgreSQL and SQLite: the key is checked before the insert is written. -/
theorem conflictUpsert_mask (q : Query) (rows : Rows) (uniqueBy : List String)
    (update : List UpsertColumn) :
    Alike SameText (t.conflictUpsert q.mask rows.mask uniqueBy (update.map UpsertColumn.mask))
      (t.conflictUpsert q rows uniqueBy update) := by
  unfold Target.conflictUpsert
  split
  · -- no key to conflict on
    exact .fault _
  · refine .step _ fun keys => ?_
    refine (upsertAssignments_mask _ update).bind fun assigned assigned' hassigned => ?_
    exact (insert_mask q rows).bind fun insert insert' hinsert =>
      .pure ⟨by simp [hinsert.text, hassigned.text]⟩

/-- Merges of SQL Server: rows are values in the text of the merge. -/
theorem mergeUpsert_mask (q : Query) (rows : Rows) (uniqueBy : List String)
    (update : List UpsertColumn) :
    Alike SameText (t.mergeUpsert q.mask rows.mask uniqueBy (update.map UpsertColumn.mask))
      (t.mergeUpsert q rows uniqueBy update) := by
  rw [Query.mask_eq]
  unfold Target.mergeUpsert
  cases q.source with
  | none => exact .fault _
  | some tbl =>
    cases tbl with
    | derived query asName => exact .fault _
    | raw text bindings => exact .fault _
    | named name =>
      -- only a named table can be merged into, and masking keeps its name
      simp only [maskSource, Table.mask]
      split
      · exact .fault _
      · rw [columns?_mask]
        refine .step _ fun columns => .step _ fun names => .step _ fun keys => ?_
        refine (upsertAssignments_mask _ update).bind fun assigned assigned' hassigned => ?_
        exact .pure ⟨by simp [(rowTuples_mask rows columns).text, hassigned.text]⟩

/-- Each dialect writes an upsert in one of these three ways, or has none. -/
theorem upsert_mask (q : Query) (rows : Rows) (uniqueBy : List String)
    (update : List UpsertColumn) :
    Alike SameText (t.upsert q.mask rows.mask uniqueBy (update.map UpsertColumn.mask))
      (t.upsert q rows uniqueBy update) := by
  unfold Target.upsert
  split
  · exact .fault _
  · exact duplicateKeyUpsert_mask q rows update
  · exact conflictUpsert_mask q rows uniqueBy update
  · exact conflictUpsert_mask q rows uniqueBy update
  · exact mergeUpsert_mask q rows uniqueBy update

/-- The values of the assignments of a masked upsert are those of the upsert, masked. -/
theorem upsertValues_mask (update : List UpsertColumn) :
    (update.map UpsertColumn.mask).filterMap UpsertColumn.value? =
      maskValues (update.filterMap UpsertColumn.value?) := by
  unfold maskValues
  rw [List.filterMap_map, List.map_filterMap]
  refine congrArg (List.filterMap · update) (funext fun column => ?_)
  cases column <;> rfl

/-- An upsert binds rows and assignments, and a mask keeps the number of both. -/
theorem upsertBindings_mask (rows : Rows) (update : List UpsertColumn) :
    Alike (fun vs ws => rawness vs = rawness ws)
      (Target.upsertBindings rows.mask (update.map UpsertColumn.mask))
      (Target.upsertBindings rows update) := by
  unfold Target.upsertBindings
  rw [upsertValues_mask]
  exact (insertBindings_mask rows).bind fun vs ws hbindings => .pure (by simp [hbindings])

end SqlCompiler
