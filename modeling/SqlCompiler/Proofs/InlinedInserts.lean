import SqlCompiler.Proofs.InlinedBindings
import SqlCompiler.Proofs.InlinedSelect

/-!
# Inlined Inserts

Inserts and upserts that differ in nothing but raw expressions. The raw expressions of their rows
stand in the tuples, in the order of the columns that all rows share; those of an upsert follow in
its assignments.

## Main definitions

- `InlinesTable`: the table of a statement in two runs, with the name that it goes by

## Main statements

- `writeTable_inlines`: the table that a statement writes to
- `insert_inlines`, `insertUsing_inlines`, `upsert_inlines`: the statements
- `insertBindings_reworded`, `upsertBindings_reworded`: what they bind
-/

namespace SqlCompiler

open Sql

variable {t : Target} {q q' : Query} {ms ms' : List String} {rows rows' : Rows}

/-! ## §1 Tables -/

namespace Text

/-- What stands in front of an occurrence does not matter for what stands behind the last one. -/
theorem splitLastChars?_append_left {sep cs before after : List Char}
    (h : splitLastChars? sep cs = some (before, after)) (front : List Char) :
    splitLastChars? sep (front ++ cs) = some (front ++ before, after) := by
  induction front with
  | nil => exact h
  | cons c front ih => rw [List.cons_append, splitLastChars?, ih, List.cons_append]

/-- A text that begins with a separator has a last one. -/
theorem splitLastChars?_of_prefix {sep cs : List Char} (h : sep <+: cs) :
    ∃ before after, splitLastChars? sep cs = some (before, after) := by
  cases cs with
  | nil =>
    rw [List.prefix_nil.1 h]
    exact ⟨[], [], rfl⟩
  | cons c cs =>
    rw [splitLastChars?]
    split
    · exact ⟨_, _, rfl⟩
    · exact ⟨_, _, if_pos (List.isPrefixOf_iff_prefix.2 h)⟩

/-- What stands behind the last separator does not depend on what stands in front of another one. -/
theorem afterLast_append_left (sep front after : String) :
    afterLast sep (front ++ (sep ++ after)) = afterLast sep (sep ++ after) := by
  obtain ⟨b, a, hlast⟩ :=
    splitLastChars?_of_prefix (List.prefix_append sep.toList after.toList)
  simp only [afterLast, splitLast?, String.toList_append, hlast,
    splitLastChars?_append_left hlast, Option.map_some]

end Text

/-- The tables of two statements: they have a common frame, and go by the same name. -/
structure InlinesTable (ms ms' : List String) (a b : Sql) : Prop
    extends InlinesPart ms ms' a b where
  name : Target.joinedTarget a = Target.joinedTarget b

/-- The name of a derived table stands behind its query, whatever raw expressions there are. -/
theorem writeTable_inlines (t : Target) (hq : q.Reworded q') :
    Alike (InlinesTable (sourceMarkers q.source) (sourceMarkers q'.source)) (t.writeTable q)
      (t.writeTable q') := by
  have hsource := hq.source
  unfold Target.writeTable
  generalize q.source = src at hsource
  generalize q'.source = src' at hsource
  cases hsource with
  | none => exact .fault _
  | some htable =>
    simp only [sourceMarkers]
    cases htable with
    | named name => exact .refl (fun a => ⟨.same a, rfl⟩) _
    | raw sql bindings => exact .refl (fun a => ⟨.same a, rfl⟩) _
    | derived asName hquery =>
      simp only [Target.table, Table.markers]
      refine (select_inlines t _ hquery).bind fun select select' hselect => .pure ⟨?_, ?_⟩
      · exact ((InlinesPart.headed (by simp [Sql.isEmpty]) hselect).before _).before _
      · -- the last `as` stands behind the select, whatever that is made of
        have hname (inner : Sql) : Target.joinedTarget
            ("(" ++ inner ++ ") as " ++ t.quoteTable asName) =
              Text.afterLast " as " (" as " ++ t.quoteTable asName) := by
          have htext : ("(" ++ inner ++ ") as " ++ t.quoteTable asName : Sql).text =
              ("(" ++ inner.text ++ ")") ++ (" as " ++ t.quoteTable asName) := by
            have hword : (") as " : String) = ")" ++ " as " := by decide
            rw [text_append, text_append, text_append, text_ofString, text_ofString,
              text_ofString, hword]
            simp only [String.append_assoc]
          rw [Target.joinedTarget, htext, Text.afterLast_append_left]
        rw [hname, hname]

/-! ## §2 Rows -/

/-- Tuples have the raw expressions of their values, row after row. -/
theorem rowTuples_inlines (h : rows.Reworded rows') (columns : List String) :
    Inlines (rawTexts (rows.valuesIn columns)) (rawTexts (rows'.valuesIn columns))
      (Target.rowTuples rows columns) (Target.rowTuples rows' columns) := by
  have hrows := h.toList
  unfold Target.rowTuples Rows.valuesIn
  refine .join ", " ?_
  generalize rows.toList = xs at hrows
  generalize rows'.toList = ys at hrows
  induction hrows with
  | nil => exact .nil
  | cons hrow _ ih =>
    simp only [List.flatMap_cons, List.map_cons, rawTexts_append]
    exact .cons (((Inlines.parameters (hrow.valuesIn columns)).after _).before _) ih

/-- Rows without columns have no values. -/
theorem markers_of_isEmpty (h : rows.isEmpty = true) : rows.markers = [] := by
  have hvalues (columns : List String) : rows.valuesIn columns = [] := by
    refine List.flatMap_eq_nil_iff.2 fun row hrow => ?_
    have hnone : row.entries = [] := List.isEmpty_iff.1 (List.all_eq_true.1 h row hrow)
    refine List.filterMap_eq_nil_iff.2 fun column _ => ?_
    simp [Row.get?, hnone]
  unfold Rows.markers
  split
  · rw [hvalues, rawTexts_nil]
  · rfl

/-- Rows with the same columns have the raw expressions of their values in these columns. -/
theorem markers_of_columns {columns : List String} (h : rows.columns? = .ok columns) :
    rows.markers = rawTexts (rows.valuesIn columns) := by
  rw [Rows.markers, h]

/-- An insert of rows into a table: the raw expressions of the table come first. -/
theorem insertRows_inlines (verb : String) (h : rows.Reworded rows') {tbl tbl' : Sql}
    (htable : Inlines ms ms' tbl tbl') :
    Alike (Inlines (ms ++ rows.markers) (ms' ++ rows'.markers)) (t.insertRows verb tbl rows)
      (t.insertRows verb tbl' rows') := by
  unfold Target.insertRows
  cases hcolumns : rows'.columns? with
  | error e =>
    rw [h.columns?, hcolumns]
    exact .fault e
  | ok columns =>
    have hcolumns' := h.columns?.trans hcolumns
    rw [markers_of_columns hcolumns, markers_of_columns hcolumns', hcolumns']
    exact .step (t.nameList columns) fun names => .pure
      (((((htable.after _).before _).before _).before _).append (rowTuples_inlines h columns))

/-! ## §3 Statements -/

/-- An insert behind any verb. -/
theorem insertAs_inlines (verb : String) (hq : q.Reworded q') (h : rows.Reworded rows') :
    Alike (Inlines (sourceMarkers q.source ++ rows.markers)
        (sourceMarkers q'.source ++ rows'.markers)) (t.insertAs verb q rows)
      (t.insertAs verb q' rows') := by
  unfold Target.insertAs
  refine (writeTable_inlines t hq).bind fun tbl tbl' htable => ?_
  rw [h.isEmpty]
  split
  · rename_i hnone
    rw [markers_of_isEmpty hnone, markers_of_isEmpty (h.isEmpty.trans hnone), List.append_nil,
      List.append_nil]
    split <;> exact .pure ((htable.toInlines.after _).before _)
  · exact insertRows_inlines verb h htable.toInlines

theorem insert_inlines (t : Target) (hq : q.Reworded q') (h : rows.Reworded rows') :
    Alike (Inlines (sourceMarkers q.source ++ rows.markers)
        (sourceMarkers q'.source ++ rows'.markers)) (t.insert q rows) (t.insert q' rows') :=
  insertAs_inlines "insert" hq h

/-- The word or clause that skips rows has no raw expressions. -/
theorem insertOrIgnore_inlines (t : Target) (hq : q.Reworded q') (h : rows.Reworded rows') :
    Alike (Inlines (sourceMarkers q.source ++ rows.markers)
        (sourceMarkers q'.source ++ rows'.markers)) (t.insertOrIgnore q rows)
      (t.insertOrIgnore q' rows') := by
  unfold Target.insertOrIgnore
  split
  · exact insertAs_inlines _ hq h
  · exact insertAs_inlines _ hq h
  · exact (insert_inlines t hq h).bind fun sql sql' hsql => .pure (hsql.before _)
  · exact .fault _
  · exact .fault _

/-- The name of a key has none either. -/
theorem insertGetId_inlines (t : Target) (hq : q.Reworded q') (h : rows.Reworded rows')
    (key : Option String) :
    Alike (Inlines (sourceMarkers q.source ++ rows.markers)
        (sourceMarkers q'.source ++ rows'.markers)) (t.insertGetId q rows key)
      (t.insertGetId q' rows' key) := by
  unfold Target.insertGetId
  split
  · exact (insert_inlines t hq h).bind fun sql sql' hsql => .step _ fun name =>
      .pure ((hsql.before _).before _)
  · exact insert_inlines t hq h

/-- An insert of selected rows has the raw expressions of the query. -/
theorem insertUsing_inlines (t : Target) (hq : q.Reworded q') {r r' : Query} (h : r.Reworded r')
    (columns : List Column) :
    Alike (Inlines (sourceMarkers q.source ++ r.markers) (sourceMarkers q'.source ++ r'.markers))
      (t.insertUsing q columns r) (t.insertUsing q' columns r') := by
  unfold Target.insertUsing
  refine (writeTable_inlines t hq).bind fun tbl tbl' htable => ?_
  have hinto := htable.toInlines.after "insert into "
  refine (select_inlines t r h).bind fun select select' hselect => ?_
  split
  · exact .pure ((hinto.before _).append hselect)
  · exact .step _ fun names => .pure ((((hinto.before _).before _).before _).append hselect)

/-- The raw expressions of the values that an upsert assigns. -/
theorem rawTexts_update (update : List UpsertColumn) :
    (update.flatMap fun c => rawTexts c.value?.toList) =
      rawTexts (update.filterMap UpsertColumn.value?) := by
  induction update with
  | nil => rfl
  | cons c rest ih =>
    rw [List.flatMap_cons, ih]
    cases c with
    | incoming column => rfl
    | value column v =>
      exact (rawTexts_cons v _).symm

/-- The values that an upsert assigns, one by one. -/
theorem upsertAssignments_inlines (incoming : String → Except Fault String)
    {update update' : List UpsertColumn} (h : List.Forall₂ UpsertColumn.Reworded update update') :
    Alike (Inlines (rawTexts (update.filterMap UpsertColumn.value?))
        (rawTexts (update'.filterMap UpsertColumn.value?)))
      (t.upsertAssignments incoming update) (t.upsertAssignments incoming update') := by
  rw [← rawTexts_update, ← rawTexts_update]
  unfold Target.upsertAssignments
  refine Alike.bind (Alike.gathered h fun c d hcd => ?_) fun parts parts' hparts =>
    .pure (.join ", " hparts)
  cases hcd with
  | incoming column => exact alike_same _
  | value column hv => exact .step _ fun name => .pure ((Inlines.parameter hv).after _)

/-- An upsert of MySQL: the rows come in front of the assignments. -/
theorem duplicateKeyUpsert_inlines (hq : q.Reworded q') (h : rows.Reworded rows')
    {update update' : List UpsertColumn}
    (hupdate : List.Forall₂ UpsertColumn.Reworded update update') :
    Alike (Inlines
        (sourceMarkers q.source ++ rows.markers ++ rawTexts (update.filterMap UpsertColumn.value?))
        (sourceMarkers q'.source ++ rows'.markers ++
          rawTexts (update'.filterMap UpsertColumn.value?)))
      (t.duplicateKeyUpsert q rows update) (t.duplicateKeyUpsert q' rows' update') := by
  have hassignments := upsertAssignments_inlines (t := t) t.duplicateValue hupdate
  unfold Target.duplicateKeyUpsert
  refine (insert_inlines t hq h).bind fun sql sql' hsql => ?_
  split
  · exact .step _ fun name => .step _ fun asName =>
      hassignments.bind fun assigned assigned' hassigned =>
        .pure (((hsql.before _).before _).append hassigned)
  · exact .step _ fun asName => hassignments.bind fun assigned assigned' hassigned =>
      .pure (((hsql.before _).before _).append hassigned)

/-- An upsert of PostgreSQL and SQLite, with its key between rows and assignments. -/
theorem conflictUpsert_inlines (hq : q.Reworded q') (h : rows.Reworded rows')
    (uniqueBy : List String) {update update' : List UpsertColumn}
    (hupdate : List.Forall₂ UpsertColumn.Reworded update update') :
    Alike (Inlines
        (sourceMarkers q.source ++ rows.markers ++ rawTexts (update.filterMap UpsertColumn.value?))
        (sourceMarkers q'.source ++ rows'.markers ++
          rawTexts (update'.filterMap UpsertColumn.value?)))
      (t.conflictUpsert q rows uniqueBy update) (t.conflictUpsert q' rows' uniqueBy update') := by
  unfold Target.conflictUpsert
  split
  · exact .fault _
  · refine .step _ fun keys => ?_
    refine (upsertAssignments_inlines _ hupdate).bind fun assigned assigned' hassigned => ?_
    exact (insert_inlines t hq h).bind fun sql sql' hsql =>
      .pure ((((hsql.before _).before _).before _).append hassigned)

/-- A merge names its table, and so has no raw expressions in it. -/
theorem mergeUpsert_inlines (hq : q.Reworded q') (h : rows.Reworded rows')
    (uniqueBy : List String) {update update' : List UpsertColumn}
    (hupdate : List.Forall₂ UpsertColumn.Reworded update update') :
    Alike (Inlines
        (sourceMarkers q.source ++ rows.markers ++ rawTexts (update.filterMap UpsertColumn.value?))
        (sourceMarkers q'.source ++ rows'.markers ++
          rawTexts (update'.filterMap UpsertColumn.value?)))
      (t.mergeUpsert q rows uniqueBy update) (t.mergeUpsert q' rows' uniqueBy update') := by
  have hsource := hq.source
  unfold Target.mergeUpsert
  generalize q.source = src at hsource
  generalize q'.source = src' at hsource
  -- a merge needs a table of a name, in which there is no raw expression
  cases hsource with
  | none => exact .fault _
  | some htable =>
    cases htable with
    | derived asName hquery => exact .fault _
    | raw sql bindings => exact .fault _
    | named name =>
      dsimp only
      split
      · exact .fault _
      · cases hcolumns : rows'.columns? with
        | error e =>
          rw [h.columns?, hcolumns]
          exact .fault e
        | ok columns =>
          have hcolumns' := h.columns?.trans hcolumns
          rw [markers_of_columns hcolumns, markers_of_columns hcolumns', hcolumns']
          refine .step (t.nameList columns) fun names => .step _ fun keys => ?_
          refine (upsertAssignments_inlines _ hupdate).bind fun assigned assigned' hassigned => ?_
          refine .pure ?_
          -- names and keys stand behind the assignments, and between these and the rows
          iterate 5 refine Inlines.before ?_ _
          refine .append ?_ hassigned
          iterate 7 refine Inlines.before ?_ _
          exact (rowTuples_inlines h columns).after _

/-- The assignments of an upsert stand behind its rows. -/
theorem upsert_inlines (t : Target) (hq : q.Reworded q') (h : rows.Reworded rows')
    (uniqueBy : List String) {update update' : List UpsertColumn}
    (hupdate : List.Forall₂ UpsertColumn.Reworded update update') :
    Alike (Inlines
        (sourceMarkers q.source ++ rows.markers ++ rawTexts (update.filterMap UpsertColumn.value?))
        (sourceMarkers q'.source ++ rows'.markers ++
          rawTexts (update'.filterMap UpsertColumn.value?)))
      (t.upsert q rows uniqueBy update) (t.upsert q' rows' uniqueBy update') := by
  unfold Target.upsert
  split
  · exact .fault _
  · exact duplicateKeyUpsert_inlines hq h hupdate
  · exact conflictUpsert_inlines hq h uniqueBy hupdate
  · exact conflictUpsert_inlines hq h uniqueBy hupdate
  · exact mergeUpsert_inlines hq h uniqueBy hupdate

/-! ## §4 Bindings -/

/-- An insert binds the same values. -/
theorem insertBindings_reworded (h : rows.Reworded rows') :
    Target.insertBindings rows = Target.insertBindings rows' := by
  unfold Target.insertBindings
  rw [h.columns?]
  cases rows'.columns? with
  | error e => rfl
  | ok columns => exact congrArg Except.ok (bound_reworded (h.valuesIn columns))

theorem upsertValues_reworded {update update' : List UpsertColumn}
    (h : List.Forall₂ UpsertColumn.Reworded update update') :
    ValuesReworded (update.filterMap UpsertColumn.value?)
      (update'.filterMap UpsertColumn.value?) := by
  refine List.rel_filterMap ?_ h
  intro c d hcd
  cases hcd with
  | incoming column => exact .none
  | value column hv => exact .some hv

/-- An upsert binds the same values. -/
theorem upsertBindings_reworded (h : rows.Reworded rows') {update update' : List UpsertColumn}
    (hupdate : List.Forall₂ UpsertColumn.Reworded update update') :
    Target.upsertBindings rows update = Target.upsertBindings rows' update' := by
  unfold Target.upsertBindings
  rw [insertBindings_reworded h, bound_reworded (upsertValues_reworded hupdate)]

/-- No raw expression is bound for a row. -/
theorem isRaw_of_insertBindings {vs : List Value} (h : Target.insertBindings rows = .ok vs) :
    ∀ v ∈ vs, v.isRaw = false := by
  simp only [Target.insertBindings, bind_eq_ok, pure_eq_ok] at h
  obtain ⟨columns, -, rfl⟩ := h
  exact isRaw_of_bound (bound_bound _)

/-- An upsert never binds a raw expression. -/
theorem isRaw_of_upsertBindings {update : List UpsertColumn} {vs : List Value}
    (h : Target.upsertBindings rows update = .ok vs) : ∀ v ∈ vs, v.isRaw = false := by
  simp only [Target.upsertBindings, bind_eq_ok, pure_eq_ok] at h
  obtain ⟨inserted, hinserted, rfl⟩ := h
  rintro v hv
  rcases List.mem_append.1 hv with hv | hv
  · exact isRaw_of_insertBindings hinserted v hv
  · exact isRaw_of_bound (bound_bound _) v hv

end SqlCompiler
