import SqlCompiler.Proofs.ClosedSelect

/-!
# Closed Inserts

Inserts and upserts are closed if the tables, columns and rows that they write bring in only what
may be brought in.

## Main statements

- `insertAs_closed`, `insertOrIgnore_closed`, `insertGetId_closed`: inserts of rows
- `insertUsing_closed`: an insert of the rows of a query
- `upsert_closed`: an insert that updates existing rows
-/

namespace SqlCompiler

variable {t : Target} {q : Query} {sql : Sql}

/-! ## §1 Inserts -/

/-- The table of a write. -/
theorem writeTable_closed (hp : t.PrefixFits) (hm : t.AdmitsAll (sourceIngredients q.source))
    (h : t.writeTable q = .ok sql) : Closed t.dialect sql := by
  obtain ⟨tbl, hsource, htable⟩ := writeTable_eq_ok h
  rw [hsource] at hm
  exact table_closed hp tbl hm htable

/-- Names of columns, each of them quoted. -/
theorem nameList_closed {columns : List String} {names : String} (hp : t.PrefixFits)
    (hm : ∀ c ∈ columns, t.NameFits c) (h : t.nameList columns = .ok names) :
    TextClosed t.dialect names := by
  simp only [Target.nameList, bind_eq_ok, pure_eq_ok] at h
  obtain ⟨texts, htexts, rfl⟩ := h
  exact textClosed_join comma_closed
    (forall_of_mapM htexts fun c hc _ hs => quote_closed hp (hm c hc) hs)

/-- What a row brings in, entry by entry. -/
theorem admitsAll_row {row : Row} :
    t.AdmitsAll row.ingredients ↔
      ∀ entry ∈ row.entries, t.NameFits entry.1 ∧ t.AdmitsAll entry.2.ingredients := by
  rw [Row.ingredients, admitsAll_flatMap]
  exact forall₂_congr fun _ _ => admitsAll_cons

/-- The columns of rows are those of the first one. -/
theorem columns_fit {rows : Rows} {columns : List String} (hm : t.AdmitsAll rows.ingredients)
    (h : rows.columns? = .ok columns) : ∀ c ∈ columns, t.NameFits c := by
  unfold Rows.columns? at h
  split at h
  · cases h
    exact fun _ hc => absurd hc List.not_mem_nil
  · rename_i first rest hrows
    split at h
    · cases h
      -- the first row gives the columns of all
      intro c hc
      obtain ⟨entry, hentry, rfl⟩ := List.mem_map.1 hc
      have hfirst := admitsAll_flatMap.1 hm first (by rw [hrows]; exact List.mem_cons_self)
      exact (admitsAll_row.1 hfirst entry hentry).1
    · cases h

/-- Tuples of placeholders and raw expressions. -/
theorem rowTuples_closed {rows : Rows} (hm : t.AdmitsAll rows.ingredients)
    (columns : List String) : Closed t.dialect (Target.rowTuples rows columns) := by
  refine closed_join comma_closed fun part hpart => ?_
  obtain ⟨row, hrow, rfl⟩ := List.mem_map.1 hpart
  have hvalues : t.AdmitsAll (valueIngredients (row.valuesIn columns)) := by
    refine admitsAll_flatMap.2 fun value hvalue => ?_
    -- a value of the tuple comes from an entry of the row
    obtain ⟨column, -, hget⟩ := List.mem_filterMap.1 hvalue
    obtain ⟨entry, hentry, rfl⟩ := Option.map_eq_some_iff.1 hget
    exact (admitsAll_row.1 (admitsAll_flatMap.1 hm row hrow) entry
      (List.mem_of_find?_eq_some hentry)).2
  exact fun _ => ((leads rfl rfl).closed (parameters_closed hvalues)).text rfl rfl

/-- An insert behind a closed verb, of rows or of default values. -/
theorem insertAs_closed {verb : String} {rows : Rows} (hp : t.PrefixFits)
    (hverb : TextClosed t.dialect verb) (hq : t.AdmitsAll (sourceIngredients q.source))
    (hm : t.AdmitsAll rows.ingredients) (h : t.insertAs verb q rows = .ok sql) :
    Closed t.dialect sql := by
  unfold Target.insertAs at h
  rw [bind_eq_ok] at h
  obtain ⟨table, htable, h⟩ := h
  have hinto : Closed t.dialect (verb ++ " into " ++ table) := fun depth =>
    ((leads_ofString.2 (hverb depth)).text rfl rfl).closed (writeTable_closed hp hq htable)
  split at h
  · split at h
    · rw [pure_eq_ok] at h
      subst h
      exact fun depth => (hinto depth).text rfl rfl
    · rw [pure_eq_ok] at h
      subst h
      exact fun depth => (hinto depth).text rfl rfl
  · simp only [Target.insertRows, bind_eq_ok, pure_eq_ok] at h
    obtain ⟨columns, hcolumns, names, hnames, rfl⟩ := h
    exact fun depth => ((((hinto depth).text rfl rfl).string
      (nameList_closed hp (columns_fit hm hcolumns) hnames _)).text rfl rfl).closed
        (rowTuples_closed hm columns)

/-- Inserts of rows. -/
theorem insert_closed {rows : Rows} (hp : t.PrefixFits)
    (hq : t.AdmitsAll (sourceIngredients q.source)) (hm : t.AdmitsAll rows.ingredients)
    (h : t.insert q rows = .ok sql) : Closed t.dialect sql :=
  insertAs_closed hp (fun _ => textLeads rfl rfl) hq hm h

/-- An insert that skips rows, by its verb or by a clause behind it. -/
theorem insertOrIgnore_closed {rows : Rows} (hp : t.PrefixFits)
    (hq : t.AdmitsAll (sourceIngredients q.source)) (hm : t.AdmitsAll rows.ingredients)
    (h : t.insertOrIgnore q rows = .ok sql) : Closed t.dialect sql := by
  unfold Target.insertOrIgnore at h
  split at h
  · exact insertAs_closed hp (fun _ => textLeads rfl rfl) hq hm h
  · exact insertAs_closed hp (fun _ => textLeads rfl rfl) hq hm h
  · simp only [bind_eq_ok, pure_eq_ok] at h
    obtain ⟨insert, hinsert, rfl⟩ := h
    exact fun depth => (insert_closed hp hq hm hinsert depth).text rfl rfl
  · cases h
  · cases h

/-- A name without quotes, dots and arrows can be quoted in any dialect. -/
theorem nameFits_of_simple {name : String} (hselector : isSelector name = false)
    (hqualifier : qualifierOf (columnOf name) = "") : t.NameFits name where
  quotes _ h := by
    rw [hselector] at h
    cases h
  qualifier := by
    unfold Target.QualifierFits
    rw [hqualifier]
    exact fun _ => List.not_mem_nil

/-- An insert that reports a key; the key is a quoted name. -/
theorem insertGetId_closed {rows : Rows} {key : Option String} (hp : t.PrefixFits)
    (hq : t.AdmitsAll (sourceIngredients q.source)) (hm : t.AdmitsAll rows.ingredients)
    (hkey : ∀ name, key = some name → t.NameFits name)
    (h : t.insertGetId q rows key = .ok sql) : Closed t.dialect sql := by
  unfold Target.insertGetId at h
  split at h
  · simp only [bind_eq_ok, pure_eq_ok] at h
    obtain ⟨insert, hinsert, name, hname, rfl⟩ := h
    -- the key is `id` if none is given
    have hfits : t.NameFits (key.getD "id") := by
      cases key with
      | none => exact nameFits_of_simple (by decide) (by decide)
      | some name => exact hkey name rfl
    exact fun depth => ((insert_closed hp hq hm hinsert depth).text rfl rfl).string
      (quote_closed hp hfits hname _)
  · exact insert_closed hp hq hm h

/-- An insert of selected rows, with or without a list of columns. -/
theorem insertUsing_closed {columns : List Column} {rows : Query} (hp : t.PrefixFits)
    (hq : t.AdmitsAll (sourceIngredients q.source))
    (hcolumns : t.AdmitsAll (columnIngredients columns)) (hm : t.AdmitsAll rows.ingredients)
    (h : t.insertUsing q columns rows = .ok sql) : Closed t.dialect sql := by
  simp only [Target.insertUsing, bind_eq_ok] at h
  obtain ⟨table, htable, select, hselect, h⟩ := h
  have hinto : Closed t.dialect ("insert into " ++ table) := fun _ =>
    (leads rfl rfl).closed (writeTable_closed hp hq htable)
  have hrows := select_closed hp rows hm hselect
  split at h
  · rw [pure_eq_ok] at h
    subst h
    exact fun depth => ((hinto depth).text rfl rfl).closed hrows
  · simp only [bind_eq_ok, pure_eq_ok] at h
    obtain ⟨names, hnames, rfl⟩ := h
    exact fun depth => ((((hinto depth).text rfl rfl).closed
      (columnList_closed hp hcolumns hnames)).text rfl rfl).closed hrows

/-! ## §2 Upserts -/

/-- The assignments of an upsert are closed if the incoming values of its columns are. -/
theorem upsertAssignments_closed {incoming : String → Except Fault String}
    {update : List UpsertColumn} (hp : t.PrefixFits)
    (hm : t.AdmitsAll (update.flatMap UpsertColumn.ingredients))
    (hincoming : ∀ c, t.NameFits c → ∀ s, incoming c = .ok s → TextClosed t.dialect s)
    (h : t.upsertAssignments incoming update = .ok sql) : Closed t.dialect sql := by
  simp only [Target.upsertAssignments, bind_eq_ok, pure_eq_ok] at h
  obtain ⟨parts, hparts, rfl⟩ := h
  refine closed_join comma_closed (forall_of_mapM hparts fun column hcolumn sql hsql => ?_)
  have hthis := admitsAll_flatMap.1 hm column hcolumn
  cases column with
  | incoming c =>
    simp only [UpsertColumn.ingredients, admitsAll_cons, admitsAll_nil, and_true] at hthis
    simp only [Target.upsertAssignment, bind_eq_ok, pure_eq_ok] at hsql
    obtain ⟨name, hname, value, hvalue, rfl⟩ := hsql
    exact closed_ofString fun depth =>
      ((quote_closed hp hthis hname depth).text rfl rfl).closed (hincoming c hthis value hvalue)
  | value c v =>
    simp only [UpsertColumn.ingredients, admitsAll_cons] at hthis
    simp only [Target.upsertAssignment, bind_eq_ok, pure_eq_ok] at hsql
    obtain ⟨name, hname, rfl⟩ := hsql
    exact fun depth => ((leads_ofString.2 (quote_closed hp hthis.1 hname depth)).text
      rfl rfl).closed (parameter_closed hthis.2)

theorem incomingAlias_closed {name : String} (hp : t.PrefixFits)
    (h : t.quote Target.incomingAlias = .ok name) : TextClosed t.dialect name :=
  quote_closed hp (nameFits_of_simple (by decide) (by decide)) h

/-- An upsert of MySQL, whose incoming row has a name of its own. -/
theorem duplicateKeyUpsert_closed {rows : Rows} {update : List UpsertColumn} (hp : t.PrefixFits)
    (hq : t.AdmitsAll (sourceIngredients q.source)) (hm : t.AdmitsAll rows.ingredients)
    (hupdate : t.AdmitsAll (update.flatMap UpsertColumn.ingredients))
    (h : t.duplicateKeyUpsert q rows update = .ok sql) : Closed t.dialect sql := by
  obtain ⟨insert, asName, assignments, hinsert, hasName, hassignments, rfl⟩ :=
    duplicateKeyUpsert_eq_ok h
  -- the incoming row has an alias, or its values are asked for by a function
  have hincoming : ∀ c, t.NameFits c → ∀ s, t.duplicateValue c = .ok s →
      TextClosed t.dialect s := by
    intro c hc s hs
    simp only [Target.duplicateValue, bind_eq_ok] at hs
    obtain ⟨name, hname, hs⟩ := hs
    have hcolumn := quote_closed hp hc hname
    split at hs
    · simp only [bind_eq_ok, pure_eq_ok] at hs
      obtain ⟨rowName, hrowName, rfl⟩ := hs
      exact fun depth =>
        ((incomingAlias_closed hp hrowName depth).text rfl rfl).closed hcolumn
    · rw [pure_eq_ok] at hs
      subst hs
      exact fun _ => ((textLeads rfl rfl).closed hcolumn).text rfl rfl
  have hclosed : TextClosed t.dialect asName := by
    obtain rfl | ⟨rowName, hrowName, rfl⟩ := hasName
    · exact fun _ => textLeads_empty
    · exact fun _ => (textLeads rfl rfl).closed (incomingAlias_closed hp hrowName)
  exact fun depth =>
    (((insert_closed hp hq hm hinsert depth).string (hclosed _)).text rfl rfl).closed
      (upsertAssignments_closed hp hupdate hincoming hassignments)

/-- An upsert of PostgreSQL and SQLite with the columns of its key in parentheses. -/
theorem conflictUpsert_closed {rows : Rows} {uniqueBy : List String} {update : List UpsertColumn}
    (hp : t.PrefixFits) (hq : t.AdmitsAll (sourceIngredients q.source))
    (hm : t.AdmitsAll rows.ingredients) (hunique : ∀ c ∈ uniqueBy, t.NameFits c)
    (hupdate : t.AdmitsAll (update.flatMap UpsertColumn.ingredients))
    (h : t.conflictUpsert q rows uniqueBy update = .ok sql) : Closed t.dialect sql := by
  obtain ⟨-, keys, assignments, insert, hkeys, hassignments, hinsert, rfl⟩ := conflictUpsert_eq_ok h
  have hassigned := upsertAssignments_closed hp hupdate (fun c _ s hs => by
    cases hs
    exact fun depth => ((quoteIdentifier_closed t "excluded" depth).text rfl rfl).closed
      (quoteIdentifier_closed t c)) hassignments
  exact fun depth => ((((insert_closed hp hq hm hinsert depth).text rfl rfl).string
    (nameList_closed hp hunique hkeys _)).text rfl rfl).closed hassigned

/-- SQL Server: a column of the table of a merge, or of its rows. -/
theorem mergeColumn_closed {table c name : String} (hp : t.PrefixFits)
    (hserver : t.dialect = .sqlserver) (htable : ')' ∉ table.toList)
    (h : t.quote (table ++ "." ++ c) = .ok name) : TextClosed t.dialect name := by
  refine quote_closed hp ⟨fun hpostgres => ?_, fun _ hmem => ?_⟩ h
  · exact absurd (hserver.symm.trans hpostgres) (by decide)
  · exact htable (mem_table_of_mem_qualifier hmem)

/-- SQL Server: the comparison of the keys of a merge. -/
theorem mergeKeys_closed {target : String} {uniqueBy keys : List String} (hp : t.PrefixFits)
    (hserver : t.dialect = .sqlserver) (htarget : t.TableFits target)
    (hkeys : (uniqueBy.mapM fun c => do
      return (← t.quote (Target.mergeSource ++ "." ++ c)) ++ " = " ++
        (← t.quote (target ++ "." ++ c))) = .ok keys) :
    TextClosed t.dialect (Text.join " and " keys) := by
  have hmerge : ')' ∉ Target.mergeSource.toList := by decide
  refine textClosed_join (fun _ => textLeads rfl rfl) (forall_of_mapM hkeys ?_)
  intro c _ s hs
  simp only [bind_eq_ok, pure_eq_ok] at hs
  obtain ⟨left, hleft, right, hright, rfl⟩ := hs
  exact fun depth => ((mergeColumn_closed hp hserver hmerge hleft depth).text
    rfl rfl).closed (mergeColumn_closed hp hserver (htarget hserver) hright)

/-- A merge of SQL Server: its columns are qualified by the target and by the incoming rows. -/
theorem mergeUpsert_closed {rows : Rows} {uniqueBy : List String} {update : List UpsertColumn}
    (hp : t.PrefixFits) (hserver : t.dialect = .sqlserver)
    (hq : t.AdmitsAll (sourceIngredients q.source)) (hm : t.AdmitsAll rows.ingredients)
    (hupdate : t.AdmitsAll (update.flatMap UpsertColumn.ingredients))
    (h : t.mergeUpsert q rows uniqueBy update = .ok sql) : Closed t.dialect sql := by
  obtain ⟨-, name, target, columns, names, keys, assignments, hsource, htarget, hcolumns, hnames,
    hkeys, hassignments, rfl⟩ := mergeUpsert_eq_ok h
  simp only [hsource, sourceIngredients, Table.ingredients, admitsAll_cons, admitsAll_nil,
    and_true] at hq
  -- the table of the merge is the name of the query, without an alias
  have hfits : t.TableFits target := by
    rw [htarget]
    split
    · exact hq.1.unaliased ‹_›
    · exact hq.1
  have hmerge : ')' ∉ Target.mergeSource.toList := by decide
  have hkeysClosed := mergeKeys_closed hp hserver hfits hkeys
  have hnamesClosed := nameList_closed hp (columns_fit hm hcolumns) hnames
  have hassigned := upsertAssignments_closed hp hupdate
    (fun c _ _ hs => mergeColumn_closed hp hserver hmerge hs) hassignments
  have hsourceClosed : TextClosed t.dialect (t.quoteTable Target.mergeSource) :=
    quoteTable_closed hp fun _ => hmerge
  exact fun _ => ((((((((((leads rfl rfl).string (quoteTable_closed hp hfits _)).text
    rfl rfl).closed (rowTuples_closed hm columns)).text rfl rfl).string
    (hsourceClosed _)).text rfl rfl).string (hnamesClosed _)).text rfl rfl).string
    (hkeysClosed _)).text rfl rfl |>.closed hassigned |>.text rfl rfl |>.string
    (hnamesClosed _) |>.text rfl rfl |>.string (hnamesClosed _) |>.text rfl rfl

/-- An upsert in each dialect that has one. -/
theorem upsert_closed {rows : Rows} {uniqueBy : List String} {update : List UpsertColumn}
    (hp : t.PrefixFits) (hq : t.AdmitsAll (sourceIngredients q.source))
    (hm : t.AdmitsAll rows.ingredients) (hunique : ∀ c ∈ uniqueBy, t.NameFits c)
    (hupdate : t.AdmitsAll (update.flatMap UpsertColumn.ingredients))
    (h : t.upsert q rows uniqueBy update = .ok sql) : Closed t.dialect sql := by
  unfold Target.upsert at h
  split at h
  · cases h
  · exact duplicateKeyUpsert_closed hp hq hm hupdate h
  · exact conflictUpsert_closed hp hq hm hunique hupdate h
  · exact conflictUpsert_closed hp hq hm hunique hupdate h
  · exact mergeUpsert_closed hp ‹_› hq hm hupdate h

end SqlCompiler
