import SqlCompiler.Proofs.WrittenStatements

/-!
# Inserted Rows

The rows of an insert stand in its text as tuples below a list of columns. Whatever the order of the
columns in the single rows, every tuple has a value for every listed column, in the order of the
list, and the placeholders of the statement are those of the tuples, row after row, followed by
those of the assignments of an upsert.

## Main definitions

- `Tabulated`: a list of columns with tuples of the same length
- `Rows.tabulated`: rows below the columns of the first one
- `Inserted`, `Rows.inserted`: what an insert makes of its rows
- `WritesRows`: where the text of an insert has its columns and its tuples

## Main statements

- `hasColumns_iff`, `columns?_eq_ok_iff`: which rows share their columns
- `insertAs_eq`: an insert is its table and what is made of its rows
- `insert_writesRows`, `mergeUpsert_writesRows`, …: the statements one by one
- `compile_insert_aligned`: the text of every insert that compiles, and its bindings
-/

namespace SqlCompiler

open Sql

variable {t : Target} {q : Query} {sql : Sql}

/-! ## §1 Rows and columns -/

namespace Row

variable {row : Row} {columns : List String}

/-- A column has a value if it is one of the columns. -/
theorem get?_isSome_iff {column : String} : (row.get? column).isSome ↔ column ∈ row.columns := by
  simp only [get?, Option.isSome_map, List.find?_isSome, columns, List.mem_map, beq_iff_eq]

/-- A row is accepted below given columns if it has as many entries, and an entry for each. -/
theorem hasColumns_iff :
    row.hasColumns columns = true ↔
      row.size = columns.length ∧ ∀ column ∈ columns, column ∈ row.columns := by
  simp only [hasColumns, Bool.and_eq_true, beq_iff_eq, List.all_eq_true, get?_isSome_iff]

/-- Below columns that the row has, its values stand one by one. -/
theorem valuesIn_below (h : ∀ column ∈ columns, column ∈ row.columns) :
    List.Forall₂ (fun column v => row.get? column = some v) columns (row.valuesIn columns) := by
  induction columns with
  | nil => exact .nil
  | cons column columns ih =>
    obtain ⟨v, hv⟩ := Option.isSome_iff_exists.1 (get?_isSome_iff.2 (h column List.mem_cons_self))
    rw [valuesIn, List.filterMap_cons_some hv]
    exact .cons hv (ih fun c hc => h c (List.mem_cons_of_mem _ hc))

/-- No column of an accepted row is without a value. -/
theorem valuesIn_length (h : row.hasColumns columns = true) :
    (row.valuesIn columns).length = columns.length :=
  (valuesIn_below (hasColumns_iff.1 h).2).length_eq.symm

end Row

namespace Rows

variable {rows : Rows} {columns : List String}

/-- The columns of the first row. -/
def firstColumns (rows : Rows) : List String :=
  (rows.toList.head?.map Row.columns).getD []

/-- The columns of the first row are shared if every row is accepted below them. -/
theorem columns?_eq (rows : Rows) :
    rows.columns? =
      if rows.toList.all fun row => row.hasColumns rows.firstColumns then .ok rows.firstColumns
      else .error .unevenRows := by
  unfold columns? firstColumns
  cases rows.toList <;> rfl

/-- The shared columns are those of the first row, and every row has exactly these. -/
theorem columns?_eq_ok_iff :
    rows.columns? = .ok columns ↔
      columns = rows.firstColumns ∧ ∀ row ∈ rows.toList, row.hasColumns columns = true := by
  rw [columns?_eq]
  split
  · rename_i hall
    rw [List.all_eq_true] at hall
    constructor
    · rintro ⟨⟩
      exact ⟨rfl, hall⟩
    · rintro ⟨rfl, _⟩
      rfl
  · rename_i hall
    constructor
    · rintro ⟨⟩
    · rintro ⟨rfl, haccepted⟩
      exact absurd (List.all_eq_true.2 haccepted) hall

end Rows

/-! ## §2 Tables of values -/

/-- A list of columns, and tuples with a value for each of them. -/
structure Tabulated where
  columns : List String
  tuples : List (List Value)
  rectangular : ∀ tuple ∈ tuples, tuple.length = columns.length

/-- Rows below the columns of the first one, each in the order of these columns. -/
def Rows.tabulated (rows : Rows) : Except Fault Tabulated :=
  match h : rows.columns? with
  | .ok columns =>
    .ok
      { columns
        tuples := rows.toList.map fun row => row.valuesIn columns
        rectangular := by
          intro tuple htuple
          obtain ⟨row, hrow, rfl⟩ := List.mem_map.1 htuple
          exact Row.valuesIn_length ((Rows.columns?_eq_ok_iff.1 h).2 row hrow) }
  | .error f => .error f

/-- A table of rows that is there has the shared columns, and their values in every tuple. -/
theorem Rows.tabulated_eq_ok {rows : Rows} {table : Tabulated} (h : rows.tabulated = .ok table) :
    rows.columns? = .ok table.columns ∧
      table.tuples = rows.toList.map fun row => row.valuesIn table.columns := by
  unfold tabulated at h
  split at h
  · rename_i columns hcolumns
    cases h
    exact ⟨hcolumns, rfl⟩
  · cases h

/-- Rows that make no table share no columns, with the same fault. -/
theorem Rows.columns?_of_tabulated_error {rows : Rows} {f : Fault}
    (h : rows.tabulated = .error f) : rows.columns? = .error f := by
  unfold tabulated at h
  split at h
  · cases h
  · rename_i hcolumns
    cases h
    exact hcolumns

theorem Rows.tabulated_of_columns? {rows : Rows} {columns : List String}
    (h : rows.columns? = .ok columns) :
    ∃ table, rows.tabulated = .ok table ∧ columns = table.columns := by
  unfold tabulated
  split
  · rename_i found hfound
    cases h.symm.trans hfound
    exact ⟨_, rfl, rfl⟩
  · rename_i f hf
    cases h.symm.trans hf

/-- Tuples in parentheses. -/
def tuplesSql (tuples : List (List Value)) : Sql :=
  .join ", " (tuples.map fun tuple => "(" ++ Sql.parameters tuple ++ ")")

/-! ## §3 Inserts -/

/-- What an insert makes of its rows. -/
inductive Inserted where
  /-- A row of default values. -/
  | defaults
  | listed (table : Tabulated)

/-- What an insert makes of its rows: default values if none of them has a column. -/
def Rows.inserted (rows : Rows) : Except Fault Inserted := do
  if rows.isEmpty then return .defaults
  return .listed (← rows.tabulated)

/-- What an insert makes of its rows, behind the table. -/
def Target.insertedSql (t : Target) : Inserted → Except Fault Sql
  | .defaults =>
    match t.dialect with
    | .mysql => .ok " () values ()"
    | _ => .ok " default values"
  | .listed table => do
    return " (" ++ (← t.nameList table.columns) ++ ") values " ++ tuplesSql table.tuples

/-- An insert of listed rows names the columns and then the tuples. -/
theorem insertedSql_listed (t : Target) (table : Tabulated) :
    t.insertedSql (.listed table) = do
      return " (" ++ (← t.nameList table.columns) ++ ") values " ++ tuplesSql table.tuples :=
  rfl

theorem Sql.append_assoc (a b c : Sql) : a ++ b ++ c = a ++ (b ++ c) :=
  congrArg Sql.mk (List.append_assoc a.pieces b.pieces c.pieces)

/-- The tuples of rows are those of their table. -/
theorem rowTuples_eq {rows : Rows} {table : Tabulated} (h : rows.tabulated = .ok table) :
    Target.rowTuples rows table.columns = tuplesSql table.tuples := by
  rw [(Rows.tabulated_eq_ok h).2, tuplesSql, List.map_map]
  rfl

/-- The rows of an insert have SQL, or a fault, for the columns of their table. -/
theorem insertRows_eq (t : Target) (verb : String) (tbl : Sql) (rows : Rows) :
    t.insertRows verb tbl rows = do
      let table ← rows.tabulated
      let body ← t.insertedSql (.listed table)
      return verb ++ " into " ++ tbl ++ body := by
  cases htable : rows.tabulated with
  | error f =>
    rw [Target.insertRows, Rows.columns?_of_tabulated_error htable]
    rfl
  | ok table =>
    rw [Target.insertRows, (Rows.tabulated_eq_ok htable).1]
    show t.nameList table.columns >>= _ = t.insertedSql (.listed table) >>= _
    rw [insertedSql_listed]
    cases t.nameList table.columns with
    | error f => rfl
    | ok names =>
      -- the same pieces in the same order, put together in two ways
      refine congrArg Except.ok ?_
      rw [rowTuples_eq htable]
      simp only [Sql.append_assoc]

/-- An insert is its verb and its table, followed by what is made of its rows. -/
theorem insertAs_eq (t : Target) (verb : String) (q : Query) (rows : Rows) :
    t.insertAs verb q rows = do
      let tbl ← t.writeTable q
      let body ← rows.inserted >>= t.insertedSql
      return verb ++ " into " ++ tbl ++ body := by
  unfold Target.insertAs Rows.inserted
  cases t.writeTable q with
  | error f => rfl
  | ok tbl =>
    cases rows.isEmpty with
    | true =>
      obtain ⟨dialect, options⟩ := t
      cases dialect <;> rfl
    | false =>
      show t.insertRows verb tbl rows = _
      rw [insertRows_eq]
      cases rows.tabulated <;> rfl

/-! ## §4 Columns and tuples in the text -/

/-- Where the text of an insert of rows has its columns and its tuples. No tuple is longer or
shorter than the list of columns. -/
inductive WritesRows (t : Target) (q : Query) (rows : Rows) : String → Prop where
  /-- Rows without columns have neither. -/
  | defaults (verb after : String) {tbl body : Sql} (hnone : rows.isEmpty = true)
      (htbl : t.writeTable q = .ok tbl) (hbody : t.insertedSql .defaults = .ok body) :
      WritesRows t q rows (verb ++ " into " ++ tbl.text ++ body.text ++ after)
  /-- The tuples of an insert stand below its columns. -/
  | listed (verb after : String) {tbl : Sql} {table : Tabulated} {names : List String}
      (htbl : t.writeTable q = .ok tbl) (htable : rows.tabulated = .ok table)
      (hnames : table.columns.mapM t.quote = .ok names)
      (hwidth : ∀ tuple ∈ table.tuples, tuple.length = names.length) :
      WritesRows t q rows (verb ++ " into " ++ tbl.text ++ " (" ++ Text.join ", " names ++
        ") values " ++ (tuplesSql table.tuples).text ++ after)
  /-- The tuples of a merge stand in front of its columns. -/
  | merged (target after : String) {table : Tabulated} {names : List String}
      (htable : rows.tabulated = .ok table) (hnames : table.columns.mapM t.quote = .ok names)
      (hwidth : ∀ tuple ∈ table.tuples, tuple.length = names.length) :
      WritesRows t q rows ("merge " ++ t.quoteTable target ++ " using (values " ++
        (tuplesSql table.tuples).text ++ ") " ++ t.quoteTable Target.mergeSource ++ " (" ++
        Text.join ", " names ++ ") on " ++ after)

/-- The names of columns are as many as the columns, and so as the values of a tuple. -/
theorem nameList_eq_ok {table : Tabulated} {list : String}
    (h : t.nameList table.columns = .ok list) :
    ∃ names, table.columns.mapM t.quote = .ok names ∧ list = Text.join ", " names ∧
      ∀ tuple ∈ table.tuples, tuple.length = names.length := by
  simp only [Target.nameList, bind_eq_ok, pure_eq_ok] at h
  obtain ⟨names, hnames, rfl⟩ := h
  refine ⟨names, hnames, rfl, fun tuple htuple => ?_⟩
  rw [table.rectangular tuple htuple]
  exact (mapM_eq_ok.1 hnames).length_eq

/-- An insert behind any verb writes its rows, whatever stands behind them. -/
theorem insertAs_writesRows {verb : String} {rows : Rows} (h : t.insertAs verb q rows = .ok sql)
    (after : String) : WritesRows t q rows (sql.text ++ after) := by
  rw [insertAs_eq] at h
  simp only [bind_eq_ok, pure_eq_ok] at h
  obtain ⟨tbl, htbl, body, ⟨content, hcontent, hbody⟩, rfl⟩ := h
  unfold Rows.inserted at hcontent
  split at hcontent
  · rename_i hnone
    cases hcontent
    simpa using WritesRows.defaults verb after hnone htbl hbody
  · simp only [bind_eq_ok, pure_eq_ok] at hcontent
    obtain ⟨table, htable, rfl⟩ := hcontent
    rw [insertedSql_listed] at hbody
    simp only [bind_eq_ok, pure_eq_ok] at hbody
    obtain ⟨list, hlist, rfl⟩ := hbody
    obtain ⟨names, hnames, rfl, hwidth⟩ := nameList_eq_ok hlist
    simpa [String.append_assoc] using
      WritesRows.listed verb after htbl htable hnames hwidth

theorem insert_writesRows {rows : Rows} (h : t.insert q rows = .ok sql) :
    WritesRows t q rows sql.text := by
  simpa using insertAs_writesRows h ""

theorem insertOrIgnore_writesRows {rows : Rows} (h : t.insertOrIgnore q rows = .ok sql) :
    WritesRows t q rows sql.text := by
  unfold Target.insertOrIgnore at h
  split at h
  · simpa using insertAs_writesRows h ""
  · simpa using insertAs_writesRows h ""
  · simp only [bind_eq_ok, pure_eq_ok] at h
    obtain ⟨insert, hinsert, rfl⟩ := h
    simpa using insertAs_writesRows hinsert " on conflict do nothing"
  · cases h
  · cases h

/-- The key that is asked for stands behind the rows. -/
theorem insertGetId_writesRows {rows : Rows} {key : Option String}
    (h : t.insertGetId q rows key = .ok sql) : WritesRows t q rows sql.text := by
  unfold Target.insertGetId at h
  split at h
  · simp only [bind_eq_ok, pure_eq_ok] at h
    obtain ⟨insert, hinsert, name, _, rfl⟩ := h
    simpa [String.append_assoc] using insertAs_writesRows hinsert (" returning " ++ name)
  · exact insert_writesRows h

/-- An upsert of MySQL writes its rows in front of the assignments. -/
theorem duplicateKeyUpsert_writesRows {rows : Rows} {update : List UpsertColumn}
    (h : t.duplicateKeyUpsert q rows update = .ok sql) : WritesRows t q rows sql.text := by
  obtain ⟨insert, asName, assignments, hinsert, -, -, rfl⟩ := duplicateKeyUpsert_eq_ok h
  -- what names the incoming row, if anything, stands behind the tuples
  have hrows := insertAs_writesRows hinsert
    (asName ++ " on duplicate key update " ++ assignments.text)
  simpa [String.append_assoc] using hrows

theorem conflictUpsert_writesRows {rows : Rows} {uniqueBy : List String}
    {update : List UpsertColumn} (h : t.conflictUpsert q rows uniqueBy update = .ok sql) :
    WritesRows t q rows sql.text := by
  obtain ⟨-, keys, assignments, insert, -, -, hinsert, rfl⟩ := conflictUpsert_eq_ok h
  have hrows := insertAs_writesRows hinsert
    (" on conflict (" ++ keys ++ ") do update set " ++ assignments.text)
  simpa [String.append_assoc] using hrows

/-- A merge writes its rows as the table that it merges. -/
theorem mergeUpsert_writesRows {rows : Rows} {uniqueBy : List String} {update : List UpsertColumn}
    (h : t.mergeUpsert q rows uniqueBy update = .ok sql) : WritesRows t q rows sql.text := by
  obtain ⟨-, name, target, columns, list, keys, assignments, -, -, hcolumns, hlist, -, -, rfl⟩ :=
    mergeUpsert_eq_ok h
  obtain ⟨table, htable, rfl⟩ := Rows.tabulated_of_columns? hcolumns
  obtain ⟨names, hnames, rfl, hwidth⟩ := nameList_eq_ok hlist
  rw [rowTuples_eq htable]
  simp only [text_append, text_ofString, String.append_assoc]
  have hrows := fun target after => WritesRows.merged (q := q) target after htable hnames hwidth
  simp only [String.append_assoc] at hrows
  exact hrows _ _

theorem upsert_writesRows {rows : Rows} {uniqueBy : List String} {update : List UpsertColumn}
    (h : t.upsert q rows uniqueBy update = .ok sql) : WritesRows t q rows sql.text := by
  unfold Target.upsert at h
  split at h
  · cases h
  · exact duplicateKeyUpsert_writesRows h
  · exact conflictUpsert_writesRows h
  · exact conflictUpsert_writesRows h
  · exact mergeUpsert_writesRows h

/-! ## §5 Bindings of inserts -/

/-- The values that rows bind below the columns of the first one, row after row. -/
def Rows.boundValues (rows : Rows) : List Value :=
  rows.toList.flatMap fun row => bound (row.valuesIn rows.firstColumns)

/-- The values that the assignments of an upsert bring along. -/
def assignedBindings (update : List UpsertColumn) : List Value :=
  bound (update.filterMap UpsertColumn.value?)

/-- What an insert binds are the values of its rows. -/
theorem insertBindings_eq_ok {rows : Rows} {values : List Value}
    (h : Target.insertBindings rows = .ok values) : values = rows.boundValues := by
  simp only [Target.insertBindings, bind_eq_ok, pure_eq_ok] at h
  obtain ⟨columns, hcolumns, rfl⟩ := h
  obtain ⟨rfl, _⟩ := Rows.columns?_eq_ok_iff.1 hcolumns
  rw [Rows.valuesIn, bound_flatMap]
  rfl

/-- What an upsert binds are the values of its rows and then those of its assignments. -/
theorem upsertBindings_eq_ok {rows : Rows} {update : List UpsertColumn} {values : List Value}
    (h : Target.upsertBindings rows update = .ok values) :
    values = rows.boundValues ++ assignedBindings update := by
  simp only [Target.upsertBindings, bind_eq_ok, pure_eq_ok] at h
  obtain ⟨inserted, hinserted, rfl⟩ := h
  rw [insertBindings_eq_ok hinserted, assignedBindings]

/-- A statement whose placeholders stand for the given values, and whose rows stand in its text. -/
structure InsertsAligned (t : Target) (q : Query) (rows : Rows) (update : List UpsertColumn)
    (sql : Sql) : Prop where
  labels : sql.labels = rows.boundValues ++ assignedBindings update
  text : WritesRows t q rows sql.text

/-- Text and bindings of an insert are found apart, and agree. -/
theorem compiled_insert {rows : Rows} {update : List UpsertColumn} {outcome : Except Fault Sql}
    {bindings : Except Fault (List Value)} {c : Compiled}
    (h : (do let sql ← outcome; return Target.pair sql (← bindings)) = .ok c)
    (hvalues : ∀ values, bindings = .ok values →
      values = rows.boundValues ++ assignedBindings update)
    (hlabels : ∀ sql, outcome = .ok sql → ∃ values, bindings = .ok values ∧
      sql.labels = t.carriedByTable q ++ values)
    (htext : ∀ sql, outcome = .ok sql → WritesRows t q rows sql.text)
    (htable : t.carriedByTable q = []) :
    ∃ sql, outcome = .ok sql ∧ c = sql.reading ∧ InsertsAligned t q rows update sql := by
  simp only [bind_eq_ok, pure_eq_ok] at h
  obtain ⟨sql, hsql, values, hbindings, rfl⟩ := h
  -- the bindings that were found are the ones that the labels are compared with
  obtain ⟨values', hbindings', hlabels⟩ := hlabels sql hsql
  cases hbindings.symm.trans hbindings'
  rw [htable, List.nil_append] at hlabels
  refine ⟨sql, hsql, ?_, ?_, htext sql hsql⟩
  · rw [Sql.reading, hlabels]
    rfl
  · rw [hlabels, hvalues values hbindings]

/-- A single statement, with its values beside it. -/
theorem compiled_one {outcome : Except Fault Sql} {bindings : Except Fault (List Value)}
    {out : List Compiled}
    (h : (do let sql ← outcome; return [Target.pair sql (← bindings)]) = .ok out) :
    ∃ c, (do let sql ← outcome; return Target.pair sql (← bindings)) = .ok c ∧ out = [c] := by
  simp only [bind_eq_ok, pure_eq_ok] at h ⊢
  obtain ⟨sql, hsql, values, hvalues, rfl⟩ := h
  exact ⟨_, ⟨sql, hsql, values, hvalues, rfl⟩, rfl⟩

theorem insertBindings_aligned {rows : Rows} (values : List Value)
    (h : Target.insertBindings rows = .ok values) :
    values = rows.boundValues ++ assignedBindings [] := by
  rw [insertBindings_eq_ok h]
  exact (List.append_nil _).symm

/-- A plain insert: its labels are the values of its rows. -/
theorem compileInsert_aligned {rows : Rows} {c : Compiled} (htable : t.carriedByTable q = [])
    (h : t.compileInsert q rows = .ok c) :
    ∃ sql, t.insert q rows = .ok sql ∧ c = sql.reading ∧ InsertsAligned t q rows [] sql :=
  compiled_insert h insertBindings_aligned (fun _ => insertAs_written)
    (fun _ => insert_writesRows) htable

/-- The rows that a statement inserts, and what it assigns to rows that already exist. -/
def Statement.insertion? : Statement → Option (Rows × List UpsertColumn)
  | .insert rows | .insertOrIgnore rows | .insertGetId rows _ => some (rows, [])
  | .upsert rows _ assigned => some (rows, assigned)
  | _ => none

/-- Every insert and upsert of given rows that compiles does so to the text of its labelled SQL, and
binds its labels from left to right: the rows one after the other, each in the order of the columns
of the first row, and then the values of its own that an upsert assigns. Its tuples are as long as
its list of columns. -/
theorem compile_insert_aligned (t : Target) {q : Query} {s : Statement} {rows : Rows}
    {update : List UpsertColumn} {out : List Compiled} (hs : s.insertion? = some (rows, update))
    (htable : t.carriedByTable q = []) (hout : t.compile q s = .ok out) :
    ∃ sql, t.texts q s = .ok [sql] ∧ out = [sql.reading] ∧ InsertsAligned t q rows update sql := by
  cases s with
  | insert rows =>
    cases hs
    simp only [Target.compile, bind_eq_ok, pure_eq_ok] at hout
    obtain ⟨c, hc, rfl⟩ := hout
    obtain ⟨sql, hsql, rfl, haligned⟩ := compileInsert_aligned htable hc
    refine ⟨sql, ?_, rfl, haligned⟩
    rw [Target.texts, hsql]
    rfl
  | insertOrIgnore rows =>
    cases hs
    obtain ⟨c, hc, rfl⟩ := compiled_one hout
    obtain ⟨sql, hsql, rfl, haligned⟩ := compiled_insert hc insertBindings_aligned
      (fun _ => insertOrIgnore_written) (fun _ => insertOrIgnore_writesRows) htable
    refine ⟨sql, ?_, rfl, haligned⟩
    rw [Target.texts, hsql]
    rfl
  | insertGetId rows key =>
    cases hs
    obtain ⟨c, hc, rfl⟩ := compiled_one hout
    obtain ⟨sql, hsql, rfl, haligned⟩ := compiled_insert hc insertBindings_aligned
      (fun _ => insertGetId_written) (fun _ => insertGetId_writesRows) htable
    refine ⟨sql, ?_, rfl, haligned⟩
    rw [Target.texts, hsql]
    rfl
  | upsert rows uniqueBy update =>
    cases hs
    by_cases hempty : update.isEmpty = true
    · -- with nothing to update this is a plain insert
      simp only [Target.compile, hempty, if_true, bind_eq_ok, pure_eq_ok] at hout
      obtain ⟨c, hc, rfl⟩ := hout
      obtain ⟨sql, hsql, rfl, haligned⟩ := compileInsert_aligned htable hc
      rw [← List.isEmpty_iff.1 hempty] at haligned
      refine ⟨sql, ?_, rfl, haligned⟩
      rw [Target.texts, if_pos hempty, hsql]
      rfl
    · rw [Target.compile, if_neg hempty] at hout
      obtain ⟨c, hc, rfl⟩ := compiled_one hout
      obtain ⟨sql, hsql, rfl, haligned⟩ := compiled_insert hc (fun _ => upsertBindings_eq_ok)
        (fun _ => upsert_written) (fun _ => upsert_writesRows) htable
      refine ⟨sql, ?_, rfl, haligned⟩
      rw [Target.texts, if_neg hempty, hsql]
      rfl
  | _ => cases hs

/-- A table of counters. -/
def counters : Query :=
  { Query.empty with source := some (.named "counters") }

/-- Two counters, with their columns in different orders; one has a raw expression. -/
def mixedCounters : Rows :=
  .batch [⟨[("key", .text "a"), ("seen", .raw "now()"), ("hits", .int 1)]⟩,
    ⟨[("hits", .int 2), ("key", .text "b"), ("seen", .text "never")]⟩]

/-- What is written into counters that already exist. -/
def resetHits : List UpsertColumn :=
  [.incoming "seen", .value "hits" (.int 0)]

/-- A merge binds both rows in the order of the first one, without the raw expression, and then the
assigned value. -/
theorem mixedCounters_aligned :
    ∃ sql, Target.texts ⟨.sqlserver, {}⟩ counters (.upsert mixedCounters ["key"] resetHits) =
        .ok [sql] ∧
      Target.compile ⟨.sqlserver, {}⟩ counters (.upsert mixedCounters ["key"] resetHits) =
        .ok [sql.reading] ∧
      sql.labels = [.text "a", .int 1, .text "b", .text "never", .int 2, .int 0] ∧
      WritesRows ⟨.sqlserver, {}⟩ counters mixedCounters sql.text := by
  have hrows : Statement.insertion? (.upsert mixedCounters ["key"] resetHits) =
      some (mixedCounters, resetHits) := rfl
  have hcompiles : ∃ out, Target.compile ⟨.sqlserver, {}⟩ counters
      (.upsert mixedCounters ["key"] resetHits) = .ok out := ⟨_, rfl⟩
  obtain ⟨out, hout⟩ := hcompiles
  obtain ⟨sql, htexts, rfl, haligned⟩ :=
    compile_insert_aligned ⟨.sqlserver, {}⟩ hrows rfl hout
  exact ⟨sql, htexts, hout, haligned.labels, haligned.text⟩

end SqlCompiler
