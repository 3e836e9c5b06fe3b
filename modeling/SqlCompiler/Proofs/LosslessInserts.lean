import Mathlib.Data.List.Perm.Subperm
import SqlCompiler.Proofs.InsertedRows
import SqlCompiler.Proofs.RefusedConstructs

/-!
# Lossless Inserts

An insert should put into its table one row for every given one, with all of its entries. Whether it
does is a question about the given rows alone. Rows are accepted below the columns of the first one
if they have as many entries and an entry for each column. Of columns without repetition these are
the same columns in some order, and then nothing is lost; a first row that repeats a column also
accepts rows with other columns, whose values are left out.

## Main definitions

- `Inserted.stored`: the rows that reach the table
- `Rows.Lossless`: every given row reaches the table, with each of its entries once
- `Rows.Kept`: the rows for which this holds

## Main statements

- `zip_valuesIn_perm_iff`: when the tuple of a row carries the entries of the row
- `lossless_iff`: what is inserted is lossless exactly for kept rows
- `insert_uneven_iff`: the rows that are rejected
- `insert_lossless_iff`: what an insert loses, and what it rejects
-/

namespace SqlCompiler

variable {t : Target} {q : Query} {rows : Rows}

/-! ## §1 Tuples and entries -/

namespace Row

variable {row : Row} {columns : List String}

/-- Of columns without repetition, a row is accepted below exactly its own, in any order. -/
theorem hasColumns_iff_perm (hdistinct : columns.Nodup) :
    row.hasColumns columns = true ↔ row.columns.Perm columns := by
  rw [hasColumns_iff]
  constructor
  · -- all of the distinct columns are found, and no place is left for others
    rintro ⟨hsize, hall⟩
    have hlength : row.columns.length = columns.length := by
      rw [Row.columns, List.length_map]
      exact hsize
    exact ((hdistinct.subperm hall).perm_of_length_le hlength.le).symm
  · intro hperm
    refine ⟨?_, fun column hcolumn => hperm.mem_iff.2 hcolumn⟩
    rw [← hperm.length_eq, Row.columns, List.length_map]
    rfl

/-- In a row that repeats no column, every entry is found by its column. -/
theorem get?_of_mem (hdistinct : row.columns.Nodup) {entry : String × Value}
    (h : entry ∈ row.entries) : row.get? entry.1 = some entry.2 := by
  -- by induction on the entries: the first one hides no other of the same column
  obtain ⟨entries⟩ := row
  induction entries with
  | nil => cases h
  | cons first entries ih =>
    obtain ⟨hfirst, hrest⟩ := List.nodup_cons.1 hdistinct
    rcases List.mem_cons.1 h with rfl | h
    · simp [get?]
    · have hne : first.1 ≠ entry.1 := fun heq =>
        hfirst (List.mem_map.2 ⟨entry, h, heq.symm⟩)
      have hbehind := ih hrest h
      simpa [get?, hne] using hbehind

/-- Below columns that the row has, its tuple holds the first value of each. -/
theorem zip_valuesIn (h : ∀ column ∈ columns, column ∈ row.columns) :
    columns.zip (row.valuesIn columns) =
      columns.map fun column => (column, (row.get? column).getD .null) := by
  have hvalues : row.valuesIn columns = columns.map fun column => (row.get? column).getD .null := by
    have hbelow := valuesIn_below h
    generalize row.valuesIn columns = values at hbelow
    induction hbelow with
    | nil => rfl
    | cons hv _ ih =>
      rw [List.map_cons, hv, ← ih fun c hc => h c (List.mem_cons_of_mem _ hc)]
      rfl
  rw [hvalues, List.map_prod_left_eq_zip]

/-- The tuple of an accepted row carries every entry of the row exactly once if its columns are the
given ones in some order, and no column has a second value. -/
theorem zip_valuesIn_perm_iff (h : row.hasColumns columns = true) :
    (columns.zip (row.valuesIn columns)).Perm row.entries ↔
      row.columns.Perm columns ∧ ∀ entry ∈ row.entries, row.get? entry.1 = some entry.2 := by
  have hall := (hasColumns_iff.1 h).2
  constructor
  · intro hperm
    constructor
    · -- the columns of the tuple are the given ones
      have hfirst := hperm.map Prod.fst
      rw [List.map_fst_zip (valuesIn_length h).ge] at hfirst
      exact hfirst.symm
    · -- a value in the tuple is the one found by its column
      rintro ⟨column, v⟩ hentry
      have hzip := hperm.mem_iff.2 hentry
      exact (List.forall₂_iff_zip.1 (valuesIn_below hall)).2 hzip
  · rintro ⟨hperm, hvalues⟩
    have hentries : row.entries =
        row.columns.map fun column => (column, (row.get? column).getD .null) := by
      rw [Row.columns, List.map_map]
      refine (List.map_id _).symm.trans (List.map_congr_left fun entry hentry => ?_)
      show entry = (entry.1, (row.get? entry.1).getD .null)
      rw [hvalues entry hentry]
      rfl
    rw [zip_valuesIn hall, hentries]
    exact hperm.symm.map _

end Row

/-! ## §2 Rows that reach the table -/

/-- The rows that reach the table, as entries of columns and values. -/
def Inserted.stored : Inserted → List (List (String × Value))
  | .defaults => [[]]
  | .listed table => table.tuples.map fun tuple => table.columns.zip tuple

namespace Rows

/-- For every given row one row reaches the table, with each entry of the given one exactly once. -/
def Lossless (rows : Rows) (content : Inserted) : Prop :=
  List.Forall₂ (fun row written => written.Perm row.entries) rows.toList content.stored

/-- Rows of which nothing is lost: there are not several rows without columns, they have the columns
of the first row in some order, and where a column is repeated in a row, so is its value. -/
structure Kept (rows : Rows) : Prop where
  count : rows.toList.length = 1 ∨ rows.isEmpty = false
  columns : ∀ row ∈ rows.toList, row.columns.Perm rows.firstColumns
  values : ∀ row ∈ rows.toList, ∀ entry ∈ row.entries, row.get? entry.1 = some entry.2

theorem entries_of_isEmpty (h : rows.isEmpty = true) : ∀ row ∈ rows.toList, row.entries = [] :=
  fun row hrow => List.isEmpty_iff.1 (List.all_eq_true.1 h row hrow)

theorem firstColumns_of_isEmpty (h : rows.isEmpty = true) : rows.firstColumns = [] := by
  have hentries := entries_of_isEmpty h
  unfold firstColumns
  cases hrows : rows.toList with
  | nil => rfl
  | cons first rest =>
    have hfirst : first.entries = [] := hentries first (by rw [hrows]; exact List.mem_cons_self)
    show first.entries.map Prod.fst = []
    rw [hfirst, List.map_nil]

theorem accepted_of_inserted {content : Inserted} (h : rows.inserted = .ok content) :
    ∀ row ∈ rows.toList, row.hasColumns rows.firstColumns = true := by
  unfold inserted at h
  split at h
  · rename_i hnone
    intro row hrow
    rw [firstColumns_of_isEmpty hnone, Row.hasColumns, Row.size, entries_of_isEmpty hnone row hrow]
    rfl
  · simp only [bind_eq_ok, pure_eq_ok] at h
    obtain ⟨table, htable, rfl⟩ := h
    obtain ⟨hfirst, haccepted⟩ := columns?_eq_ok_iff.1 (tabulated_eq_ok htable).1
    rwa [← hfirst]

/-- One row of default values stands for a single row without columns, and for no other number. -/
theorem lossless_defaults_iff (h : rows.isEmpty = true) :
    rows.Lossless .defaults ↔ rows.Kept := by
  have hentries := entries_of_isEmpty h
  have hcolumns : ∀ row ∈ rows.toList, row.columns.Perm rows.firstColumns := by
    intro row hrow
    rw [firstColumns_of_isEmpty h, Row.columns, hentries row hrow, List.map_nil]
  constructor
  · intro hlossless
    have hlength : rows.toList.length = 1 := hlossless.length_eq
    refine ⟨.inl hlength, hcolumns, fun row hrow entry hentry => ?_⟩
    rw [hentries row hrow] at hentry
    cases hentry
  · -- default values store exactly one row
    rintro ⟨hcount | hcount, _, _⟩
    · obtain ⟨row, hrows⟩ := List.length_eq_one_iff.1 hcount
      have hrow : row.entries = [] := hentries row (by rw [hrows]; exact List.mem_cons_self)
      rw [Lossless, hrows]
      exact .cons (by rw [hrow]) .nil
    · rw [h] at hcount
      cases hcount

/-- Below their columns the rows are kept one by one. -/
theorem lossless_listed_iff {table : Tabulated} (h : rows.isEmpty = false)
    (htable : rows.tabulated = .ok table) : rows.Lossless (.listed table) ↔ rows.Kept := by
  obtain ⟨hcolumns, htuples⟩ := tabulated_eq_ok htable
  obtain ⟨hfirst, haccepted⟩ := columns?_eq_ok_iff.1 hcolumns
  have hrows : (Inserted.listed table).stored =
      rows.toList.map fun row => table.columns.zip (row.valuesIn table.columns) := by
    rw [Inserted.stored, htuples, List.map_map]
    rfl
  have hbelow : rows.Lossless (.listed table) ↔ ∀ row ∈ rows.toList,
      row.columns.Perm table.columns ∧ ∀ entry ∈ row.entries, row.get? entry.1 = some entry.2 := by
    rw [Lossless, hrows, List.forall₂_map_right_iff, List.forall₂_same]
    exact forall₂_congr fun row hrow => Row.zip_valuesIn_perm_iff (haccepted row hrow)
  rw [hbelow, hfirst]
  exact ⟨fun hall => ⟨.inr h, fun row hrow => (hall row hrow).1, fun row hrow => (hall row hrow).2⟩,
    fun hkept row hrow => ⟨hkept.columns row hrow, hkept.values row hrow⟩⟩

theorem firstColumns_nodup (h : ∀ row ∈ rows.toList, row.columns.Nodup) :
    rows.firstColumns.Nodup := by
  unfold firstColumns
  cases hrows : rows.toList with
  | nil => exact List.nodup_nil
  | cons first rest => exact h first (by rw [hrows]; exact List.mem_cons_self)

/-- Rows that repeat no column are kept once they are accepted, unless there are several of them
and none has a column. -/
theorem kept_of_nodup {content : Inserted} (hdistinct : ∀ row ∈ rows.toList, row.columns.Nodup)
    (hcount : rows.toList.length = 1 ∨ rows.isEmpty = false) (h : rows.inserted = .ok content) :
    rows.Kept where
  count := hcount
  columns row hrow := by
    rw [← Row.hasColumns_iff_perm (firstColumns_nodup hdistinct)]
    exact accepted_of_inserted h row hrow
  values row hrow entry hentry := Row.get?_of_mem (hdistinct row hrow) hentry

/-- What is made of rows loses none of their entries exactly if they are of this kind. -/
theorem lossless_iff {content : Inserted} (h : rows.inserted = .ok content) :
    rows.Lossless content ↔ rows.Kept := by
  unfold inserted at h
  split at h
  · rename_i hnone
    cases h
    exact lossless_defaults_iff hnone
  · rename_i hsome
    simp only [bind_eq_ok, pure_eq_ok] at h
    obtain ⟨table, htable, rfl⟩ := h
    exact lossless_listed_iff (by simpa using hsome) htable

end Rows

/-! ## §3 Rows that are rejected -/

theorem nameList_error {columns : List String} {f : Fault} (h : t.nameList columns = .error f) :
    f = .unsupported t.dialect .jsonSelectors := by
  have hfails : FailsFor t (columns.flatMap fun c => (Column.named c).constructs)
      (t.nameList columns) := (FailsFor.mapM columns fun c _ => quote_failsFor c).map _
  obtain ⟨c, hc, hrefused⟩ := hfails.blamed f h
  obtain ⟨name, _, hc⟩ := List.mem_flatMap.1 hc
  rw [Column.constructs] at hc
  split at hc
  · rw [List.mem_singleton.1 hc] at hrefused
    cases hrefused
    rfl
  · cases hc

/-- What is made of rows has SQL, or a selector among its columns that the dialect lacks. -/
theorem insertedSql_error {content : Inserted} {f : Fault}
    (h : t.insertedSql content = .error f) : f = .unsupported t.dialect .jsonSelectors := by
  cases content with
  | defaults =>
    obtain ⟨dialect, options⟩ := t
    cases dialect <;> cases h
  | listed table =>
    rw [insertedSql_listed] at h
    cases hnames : t.nameList table.columns with
    | ok names =>
      rw [hnames] at h
      cases h
    | error f' =>
      rw [hnames] at h
      cases h
      exact nameList_error hnames

/-- Rows are rejected for one that is not accepted below the columns of the first one. -/
theorem inserted_error {f : Fault} (h : rows.inserted = .error f) :
    f = .unevenRows ∧ ∃ row ∈ rows.toList, row.hasColumns rows.firstColumns = false := by
  have hcolumns : rows.columns? = .error f := by
    unfold Rows.inserted at h
    split at h
    · cases h
    · refine Rows.columns?_of_tabulated_error ?_
      cases htable : rows.tabulated with
      | ok table =>
        rw [htable] at h
        cases h
      | error f' =>
        rw [htable] at h
        cases h
        rfl
  rw [Rows.columns?_eq] at hcolumns
  split at hcolumns
  · cases hcolumns
  · rename_i hall
    cases hcolumns
    exact ⟨rfl, by simpa using hall⟩

theorem insert_uneven_iff {tbl : Sql} (htbl : t.writeTable q = .ok tbl) :
    t.insert q rows = .error .unevenRows ↔
      ∃ row ∈ rows.toList, row.hasColumns rows.firstColumns = false := by
  rw [Target.insert, insertAs_eq, htbl]
  cases hcontent : rows.inserted with
  | error f =>
    obtain ⟨rfl, hrejected⟩ := inserted_error hcontent
    exact iff_of_true rfl hrejected
  | ok content =>
    refine iff_of_false (fun herror => ?_) ?_
    · -- a fault that comes later is of another kind
      have hbody : t.insertedSql content >>= (fun body => pure
          ("insert" ++ " into " ++ tbl ++ body : Sql)) = .error .unevenRows := herror
      cases hsql : t.insertedSql content with
      | ok body =>
        rw [hsql] at hbody
        cases hbody
      | error f =>
        rw [hsql, insertedSql_error hsql] at hbody
        cases hbody
    · rintro ⟨row, hrow, hrejected⟩
      rw [Rows.accepted_of_inserted hcontent row hrow] at hrejected
      cases hrejected

/-! ## §4 What an insert loses -/

/-- An insert writes what is made of its rows, behind the verb and the table. -/
theorem insert_eq_ok {sql : Sql} (h : t.insert q rows = .ok sql) :
    ∃ tbl content body, t.writeTable q = .ok tbl ∧ rows.inserted = .ok content ∧
      t.insertedSql content = .ok body ∧ sql = "insert" ++ " into " ++ tbl ++ body := by
  rw [Target.insert, insertAs_eq] at h
  simp only [bind_eq_ok, pure_eq_ok] at h
  obtain ⟨tbl, htbl, body, ⟨content, hcontent, hbody⟩, rfl⟩ := h
  exact ⟨tbl, content, body, htbl, hcontent, hbody, rfl⟩

/-- What an insert loses of its rows, and which rows it rejects.

* If it has SQL, then what it makes of its rows is lossless exactly for rows of one kind.
* It rejects its rows exactly if one of them has not as many entries as the first one, or lacks one
  of its columns.
* Of rows that repeat no column it rejects exactly those with a row of other columns than the first
  one, and it loses something only of several rows without columns. -/
theorem insert_lossless_iff (t : Target) (q : Query) (rows : Rows) :
    (∀ sql, t.insert q rows = .ok sql → ∃ tbl content body, t.writeTable q = .ok tbl ∧
      rows.inserted = .ok content ∧ t.insertedSql content = .ok body ∧
      sql = "insert" ++ " into " ++ tbl ++ body ∧ (rows.Lossless content ↔ rows.Kept)) ∧
    (∀ tbl, t.writeTable q = .ok tbl →
      (t.insert q rows = .error .unevenRows ↔ ∃ row ∈ rows.toList,
        row.size ≠ rows.firstColumns.length ∨ ∃ c ∈ rows.firstColumns, c ∉ row.columns)) ∧
    ((∀ row ∈ rows.toList, row.columns.Nodup) →
      (∀ tbl, t.writeTable q = .ok tbl →
        (t.insert q rows = .error .unevenRows ↔
          ∃ row ∈ rows.toList, ¬row.columns.Perm rows.firstColumns)) ∧
      (rows.toList.length = 1 ∨ rows.isEmpty = false →
        ∀ content, rows.inserted = .ok content → rows.Lossless content)) := by
  refine ⟨fun sql hsql => ?_, fun tbl htbl => ?_, fun hdistinct => ⟨fun tbl htbl => ?_, ?_⟩⟩
  · obtain ⟨tbl, content, body, htbl, hcontent, hbody, hshape⟩ := insert_eq_ok hsql
    exact ⟨tbl, content, body, htbl, hcontent, hbody, hshape, Rows.lossless_iff hcontent⟩
  · rw [insert_uneven_iff htbl]
    refine exists_congr fun row => and_congr_right fun _ => ?_
    rw [← Bool.not_eq_true, Row.hasColumns_iff, not_and_or]
    simp only [not_forall, exists_prop, ne_eq]
  · rw [insert_uneven_iff htbl]
    refine exists_congr fun row => and_congr_right fun _ => ?_
    rw [← Bool.not_eq_true, Row.hasColumns_iff_perm (Rows.firstColumns_nodup hdistinct)]
  · exact fun hcount content hcontent =>
      (Rows.lossless_iff hcontent).2 (Rows.kept_of_nodup hdistinct hcount hcontent)

/-- Both rows of counters are accepted and reach the table, although they list their columns in
different orders. -/
theorem mixedCounters_lossless :
    (∃ sql content, Target.insert ⟨.sqlite, {}⟩ counters mixedCounters = .ok sql ∧
      mixedCounters.inserted = .ok content ∧ mixedCounters.Lossless content) ∧
    Target.insert ⟨.sqlite, {}⟩ counters mixedCounters ≠ .error .unevenRows := by
  obtain ⟨hshape, _, hdistinctRows⟩ := insert_lossless_iff ⟨.sqlite, {}⟩ counters mixedCounters
  have hdistinct : ∀ row ∈ mixedCounters.toList, row.columns.Nodup := by decide
  have hsame : ∀ row ∈ mixedCounters.toList, row.columns.Perm mixedCounters.firstColumns := by
    decide
  constructor
  · have hinsert : ∃ sql, Target.insert ⟨.sqlite, {}⟩ counters mixedCounters = .ok sql := ⟨_, rfl⟩
    obtain ⟨sql, hsql⟩ := hinsert
    obtain ⟨_, content, _, _, hcontent, _⟩ := hshape sql hsql
    exact ⟨sql, content, hsql, hcontent, (hdistinctRows hdistinct).2 (.inr rfl) content hcontent⟩
  · intro hrejected
    obtain ⟨row, hrow, hother⟩ := ((hdistinctRows hdistinct).1 _ rfl).1 hrejected
    exact hother (hsame row hrow)

/-- A counter that is given twice, and one that comes with another column instead. -/
def repeatedCounters : Rows :=
  .batch [⟨[("hits", .int 1), ("hits", .int 2)]⟩, ⟨[("hits", .int 3), ("key", .text "b")]⟩]

/-- The second row is accepted although its columns are not those of the first one, and its key is
lost, as is the second value of the first row. -/
theorem repeatedCounters_lossy :
    (∃ sql, Target.insert ⟨.generic, {}⟩ counters repeatedCounters = .ok sql ∧
      sql.text = "insert into \"counters\" (\"hits\", \"hits\") values (?, ?), (?, ?)" ∧
      sql.labels = [.int 1, .int 1, .int 3, .int 3]) ∧
    (∃ row ∈ repeatedCounters.toList, ¬row.columns.Perm repeatedCounters.firstColumns) ∧
    ∀ content, repeatedCounters.inserted = .ok content → ¬repeatedCounters.Lossless content := by
  have hcolumns : ¬["hits", "key"].Perm ["hits", "hits"] := by decide
  refine ⟨⟨_, rfl, by decide +kernel, rfl⟩,
    ⟨_, List.mem_cons_of_mem _ List.mem_cons_self, hcolumns⟩,
    fun content hcontent hlossless => ?_⟩
  have hkept := (Rows.lossless_iff hcontent).1 hlossless
  exact hcolumns (hkept.columns _ (List.mem_cons_of_mem _ List.mem_cons_self))

end SqlCompiler
