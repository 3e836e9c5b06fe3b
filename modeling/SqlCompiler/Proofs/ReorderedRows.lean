import SqlCompiler.Proofs.LosslessInserts

/-!
# Reordered Rows

A row that is made by setting columns holds each of them once, where it was first set, with the
value that it was last set to. A column of such a row has one value, wherever its entry stands. An
insert takes its columns from the first row and looks them up in the others; so the order of the
entries matters in the first row only.

## Main definitions

- `IsLastAssignment`: an assignment that no later one to the same column follows
- `Rows.Reordered`: the same first row, and the same entries in the others in any order
- `Row.ReadAlike`, `Rows.ReadAlike`: what an insert cannot tell apart

## Main statements

- `columns_ofPairs`, `mem_ofPairs_iff`: the columns and the entries of a row that is made by
  assignments
- `get?_eq_of_perm`: a look-up does not depend on the order of distinct columns
- `Rows.Reordered.readAlike`: reordered rows are read alike
- `insertAs_readAlike`, `upsert_readAlike`, …: what is read alike is written alike
- `compile_reordered`: the statements of reordered rows
-/

namespace SqlCompiler

/-! ## §1 Setting columns -/

namespace Row

variable {row : Row} {column : String} {entry : String × Value}

/-- The columns stay where they are, and a new one comes last. -/
theorem columns_set (row : Row) (column : String) (value : Value) :
    (row.set column value).columns =
      if column ∈ row.columns then row.columns else row.columns ++ [column] := by
  obtain ⟨entries⟩ := row
  show (setEntry column value entries).map Prod.fst = _
  rw [Row.columns]
  fun_induction setEntry column value entries with
  | case1 => rfl
  | case2 v entries => simp
  | case3 c v entries hne ih =>
    have hmem : column ∈ c :: entries.map Prod.fst ↔ column ∈ entries.map Prod.fst := by
      simp [Ne.symm hne]
    simp only [List.map_cons, ih, hmem]
    split <;> rfl

/-- Setting a column makes no second one of the same name. -/
theorem nodup_set (h : row.columns.Nodup) (value : Value) :
    (row.set column value).columns.Nodup := by
  rw [columns_set]
  split
  · exact h
  · rename_i hnew
    rw [(List.perm_append_singleton column _).nodup_iff, List.nodup_cons]
    exact ⟨hnew, h⟩

/-- Setting a column replaces its entry, if there is one, and no other. -/
theorem mem_set_iff (h : row.columns.Nodup) {value : Value} :
    entry ∈ (row.set column value).entries ↔
      entry = (column, value) ∨ entry.1 ≠ column ∧ entry ∈ row.entries := by
  obtain ⟨entries⟩ := row
  show entry ∈ setEntry column value entries ↔ _
  rw [Row.columns] at h
  dsimp only at h ⊢
  fun_induction setEntry column value entries with
  | case1 => simp
  | case2 v entries =>
    -- no entry behind the replaced one is of the same column
    have hothers : ∀ other ∈ entries, other.1 ≠ column := fun other hother heq =>
      (List.nodup_cons.1 h).1 (List.mem_map.2 ⟨other, hother, heq⟩)
    rw [List.mem_cons, List.mem_cons]
    refine or_congr_right ⟨fun hentry => ⟨hothers entry hentry, .inr hentry⟩, ?_⟩
    rintro ⟨hne, rfl | hentry⟩
    · exact absurd rfl hne
    · exact hentry
  | case3 c v entries hne ih =>
    -- the first entry is of another column, and stays
    rw [List.mem_cons, List.mem_cons, ih (List.nodup_cons.1 h).2]
    constructor
    · rintro (rfl | hset | ⟨hother, hentry⟩)
      · exact .inr ⟨hne, .inl rfl⟩
      · exact .inl hset
      · exact .inr ⟨hother, .inr hentry⟩
    · rintro (hset | ⟨hother, rfl | hentry⟩)
      · exact .inr (.inl hset)
      · exact .inl rfl
      · exact .inr (.inr ⟨hother, hentry⟩)

/-! ## §2 Rows that are made by assignments -/

/-- The last assignment is set last. -/
theorem ofPairs_concat (pairs : List (String × Value)) (assignment : String × Value) :
    ofPairs (pairs ++ [assignment]) = (ofPairs pairs).set assignment.1 assignment.2 := by
  rw [ofPairs, List.foldl_append]
  rfl

/-- The columns are those of the assignments, each where it was first assigned. -/
theorem columns_ofPairs (pairs : List (String × Value)) :
    (ofPairs pairs).columns = (pairs.map Prod.fst).eraseDups := by
  -- by induction from the last assignment, which meets a row that has all the others
  induction pairs using List.reverseRecOn with
  | nil => rfl
  | append_singleton pairs assignment ih =>
    have hsingle : [assignment.1].eraseDups = [assignment.1] := List.eraseDups_cons
    rw [ofPairs_concat, columns_set, ih, List.map_append, List.eraseDups_append]
    split <;> simp_all [List.removeAll]

/-- A row that is made by assignments has each column once. -/
theorem nodup_ofPairs (pairs : List (String × Value)) : (ofPairs pairs).columns.Nodup := by
  induction pairs using List.reverseRecOn with
  | nil => exact List.nodup_nil
  | append_singleton pairs assignment ih =>
    rw [ofPairs_concat]
    exact nodup_set ih _

end Row

/-- An assignment that no later one to the same column follows. -/
def IsLastAssignment (pairs : List (String × Value)) (assignment : String × Value) : Prop :=
  ∃ before after, pairs = before ++ assignment :: after ∧ assignment.1 ∉ after.map Prod.fst

/-- What is last with one assignment more: that one, and what was last of other columns. -/
theorem isLastAssignment_concat_iff {pairs : List (String × Value)}
    {last assignment : String × Value} :
    IsLastAssignment (pairs ++ [last]) assignment ↔
      assignment = last ∨ assignment.1 ≠ last.1 ∧ IsLastAssignment pairs assignment := by
  constructor
  · rintro ⟨before, after, hpairs, hafter⟩
    rcases List.eq_nil_or_concat after with rfl | ⟨init, final, rfl⟩
    · obtain ⟨-, hsingle⟩ := List.append_inj' hpairs rfl
      exact .inl (List.singleton_inj.1 hsingle.symm)
    · -- the assignment at the end is a later one
      rw [List.concat_eq_append] at hpairs hafter
      rw [← List.cons_append, ← List.append_assoc] at hpairs
      obtain ⟨rfl, hsingle⟩ := List.append_inj' hpairs rfl
      obtain rfl := List.singleton_inj.1 hsingle
      rw [List.map_append, List.mem_append, not_or] at hafter
      exact .inr ⟨fun heq => hafter.2 (List.mem_singleton.2 heq), before, init, rfl, hafter.1⟩
  · rintro (rfl | ⟨hne, before, after, rfl, hafter⟩)
    · exact ⟨pairs, [], rfl, List.not_mem_nil⟩
    · refine ⟨before, after ++ [last], by simp, ?_⟩
      simpa [hne] using hafter

namespace Row

variable {row row' : Row} {column : String} {entry : String × Value}

/-- The entries are the last assignments to their columns. -/
theorem mem_ofPairs_iff {pairs : List (String × Value)} :
    entry ∈ (ofPairs pairs).entries ↔ IsLastAssignment pairs entry := by
  induction pairs using List.reverseRecOn with
  | nil =>
    refine iff_of_false List.not_mem_nil ?_
    rintro ⟨before, after, hpairs, -⟩
    simp at hpairs
  | append_singleton pairs assignment ih =>
    rw [ofPairs_concat, mem_set_iff (nodup_ofPairs pairs), ih, isLastAssignment_concat_iff]

/-- Among distinct columns, a look-up finds the entry of its column. -/
theorem get?_eq_some_iff (h : row.columns.Nodup) {value : Value} :
    row.get? column = some value ↔ (column, value) ∈ row.entries := by
  constructor
  · intro hfound
    obtain ⟨entry, hentry, rfl⟩ := Option.map_eq_some_iff.1 hfound
    have hcolumn : entry.1 = column := by simpa using List.find?_some hentry
    rw [← hcolumn]
    exact List.mem_of_find?_eq_some hentry
  · exact fun hentry => get?_of_mem h hentry

/-! ## §3 The order of entries -/

/-- A look-up does not depend on the order of distinct columns. -/
theorem get?_eq_of_perm (hdistinct : row.columns.Nodup) (h : row.entries.Perm row'.entries)
    (column : String) : row.get? column = row'.get? column := by
  have hdistinct' : row'.columns.Nodup := (h.map Prod.fst).nodup_iff.1 hdistinct
  ext value
  rw [get?_eq_some_iff hdistinct, get?_eq_some_iff hdistinct', h.mem_iff]

/-- Rows that an insert cannot tell apart, unless they come first. -/
structure ReadAlike (row row' : Row) : Prop where
  isEmpty : row.isEmpty = row'.isEmpty
  hasColumns (columns : List String) : row.hasColumns columns = row'.hasColumns columns
  valuesIn (columns : List String) : row.valuesIn columns = row'.valuesIn columns

/-- A row and itself. -/
theorem ReadAlike.refl (row : Row) : ReadAlike row row :=
  ⟨rfl, fun _ => rfl, fun _ => rfl⟩

/-- A row of distinct columns is read by its columns, and so in any order. -/
theorem readAlike_of_perm (hdistinct : row.columns.Nodup) (h : row.entries.Perm row'.entries) :
    ReadAlike row row' := by
  have hget : row.get? = row'.get? := funext (get?_eq_of_perm hdistinct h)
  refine ⟨?_, fun columns => ?_, fun columns => ?_⟩
  · exact h.isEmpty_eq
  · rw [hasColumns, hasColumns, size, size, h.length_eq, hget]
  · rw [valuesIn, valuesIn, hget]

end Row

namespace Rows

variable {rows rows' : Rows}

/-- The same first row, and behind it rows with the same entries in any order. -/
structure Reordered (rows rows' : Rows) : Prop where
  first : rows.toList.head? = rows'.toList.head?
  later : List.Forall₂ (fun row row' => row.entries.Perm row'.entries)
    rows.toList.tail rows'.toList.tail

/-- Rows that an insert cannot tell apart. -/
structure ReadAlike (rows rows' : Rows) : Prop where
  firstColumns : rows.firstColumns = rows'.firstColumns
  each : List.Forall₂ Row.ReadAlike rows.toList rows'.toList

/-- If no row behind the first one repeats a column, reordered rows are read alike. -/
theorem Reordered.readAlike (h : rows.Reordered rows')
    (hdistinct : ∀ row ∈ rows.toList.tail, row.columns.Nodup) : rows.ReadAlike rows' := by
  -- the first row is read alike because it is the same, the others because of their columns
  obtain ⟨hfirst, hlater⟩ := h
  refine ⟨by rw [firstColumns, firstColumns, hfirst], ?_⟩
  generalize rows.toList = list, rows'.toList = list' at hfirst hlater hdistinct
  cases list with
  | nil =>
    rw [List.head?_eq_none_iff.1 hfirst.symm]
    exact .nil
  | cons first rest =>
    obtain ⟨rest', rfl⟩ := List.head?_eq_some_iff.1 hfirst.symm
    have hboth := (List.forall₂_and_left _ _).2 ⟨hdistinct, hlater⟩
    exact .cons (.refl first) (hboth.imp fun _ _ h => Row.readAlike_of_perm h.1 h.2)

namespace ReadAlike

/-- What is found in each of the rows alone is the same for all of them. -/
theorem map_eq {α : Type} (h : rows.ReadAlike rows') {f : Row → α}
    (hf : ∀ row row', Row.ReadAlike row row' → f row = f row') :
    rows.toList.map f = rows'.toList.map f := by
  rw [← List.forall₂_eq_eq_eq, List.forall₂_map_left_iff, List.forall₂_map_right_iff]
  exact h.each.imp hf

/-- What cannot be told of a single row cannot be told of a batch. -/
theorem all_eq (h : rows.ReadAlike rows') {p : Row → Bool}
    (hp : ∀ row row', Row.ReadAlike row row' → p row = p row') :
    rows.toList.all p = rows'.toList.all p := by
  have hall := congrArg (List.all · id) (h.map_eq hp)
  simpa only [List.all_map, Function.id_comp] using hall

theorem isEmpty (h : rows.ReadAlike rows') : rows.isEmpty = rows'.isEmpty :=
  h.all_eq fun _ _ hrow => hrow.isEmpty

/-- The columns that all rows share, or the fault that they do not. -/
theorem columns? (h : rows.ReadAlike rows') : rows.columns? = rows'.columns? := by
  rw [columns?_eq, columns?_eq, h.firstColumns, h.all_eq fun _ _ hrow => hrow.hasColumns _]

/-- The tuples of rows that are read alike are the same, below whatever columns. -/
theorem tuples (h : rows.ReadAlike rows') (columns : List String) :
    (rows.toList.map fun row => row.valuesIn columns) =
      rows'.toList.map fun row => row.valuesIn columns :=
  h.map_eq fun _ _ hrow => hrow.valuesIn columns

/-- The values of given columns, row after row. -/
theorem valuesIn (h : rows.ReadAlike rows') (columns : List String) :
    rows.valuesIn columns = rows'.valuesIn columns := by
  rw [Rows.valuesIn, Rows.valuesIn, List.flatMap_def, List.flatMap_def, h.tuples]

theorem rowTuples (h : rows.ReadAlike rows') (columns : List String) :
    Target.rowTuples rows columns = Target.rowTuples rows' columns := by
  have htuples := congrArg (List.map fun tuple => "(" ++ Sql.parameters tuple ++ ")")
    (h.tuples columns)
  rw [List.map_map, List.map_map] at htuples
  exact congrArg (Sql.join ", ") htuples

end ReadAlike

end Rows

/-! ## §4 Inserts and upserts -/

variable {t : Target} {q : Query} {rows rows' : Rows}

/-- An insert behind any verb looks at columns and values only. -/
theorem insertAs_readAlike (h : rows.ReadAlike rows') (verb : String) :
    t.insertAs verb q rows = t.insertAs verb q rows' := by
  simp only [Target.insertAs, Target.insertRows, h.isEmpty, h.columns?, h.rowTuples]

theorem insert_readAlike (h : rows.ReadAlike rows') : t.insert q rows = t.insert q rows' :=
  insertAs_readAlike h "insert"

/-- An insert that skips rows adds a word or a clause. -/
theorem insertOrIgnore_readAlike (h : rows.ReadAlike rows') :
    t.insertOrIgnore q rows = t.insertOrIgnore q rows' := by
  simp only [Target.insertOrIgnore, insertAs_readAlike h, insert_readAlike h]

/-- An insert that reports a key adds a name. -/
theorem insertGetId_readAlike (h : rows.ReadAlike rows') (key : Option String) :
    t.insertGetId q rows key = t.insertGetId q rows' key := by
  simp only [Target.insertGetId, insert_readAlike h]

/-- An insert binds the values that it writes. -/
theorem insertBindings_readAlike (h : rows.ReadAlike rows') :
    Target.insertBindings rows = Target.insertBindings rows' := by
  simp only [Target.insertBindings, h.columns?, h.valuesIn]

/-- A merge looks at the rows as an insert does. -/
theorem mergeUpsert_readAlike (h : rows.ReadAlike rows') (uniqueBy : List String)
    (update : List UpsertColumn) :
    t.mergeUpsert q rows uniqueBy update = t.mergeUpsert q rows' uniqueBy update := by
  simp only [Target.mergeUpsert, h.columns?, h.rowTuples]

/-- An upsert in each dialect. -/
theorem upsert_readAlike (h : rows.ReadAlike rows') (uniqueBy : List String)
    (update : List UpsertColumn) :
    t.upsert q rows uniqueBy update = t.upsert q rows' uniqueBy update := by
  simp only [Target.upsert, Target.duplicateKeyUpsert, Target.conflictUpsert, insert_readAlike h,
    mergeUpsert_readAlike h]

/-- An upsert binds the values of the rows first. -/
theorem upsertBindings_readAlike (h : rows.ReadAlike rows') (update : List UpsertColumn) :
    Target.upsertBindings rows update = Target.upsertBindings rows' update := by
  simp only [Target.upsertBindings, insertBindings_readAlike h]

theorem compileInsert_readAlike (h : rows.ReadAlike rows') :
    t.compileInsert q rows = t.compileInsert q rows' := by
  simp only [Target.compileInsert, insert_readAlike h, insertBindings_readAlike h]

/-- Setting columns makes rows that can be reordered behind the first one.

* A row that is made by assignments has each assigned column once, in the order in which they were
  first assigned, and in each the value that was last assigned to it.
* If the rows behind the first one are made so, then the order of their entries changes neither the
  text nor the bindings nor the fault of a statement that inserts them. -/
theorem compile_reordered (t : Target) (q : Query) :
    (∀ pairs : List (String × Value),
      (Row.ofPairs pairs).columns.Nodup ∧
      (Row.ofPairs pairs).columns = (pairs.map Prod.fst).eraseDups ∧
      ∀ column value,
        ((column, value) ∈ (Row.ofPairs pairs).entries ↔ IsLastAssignment pairs (column, value)) ∧
        ((Row.ofPairs pairs).get? column = some value ↔ IsLastAssignment pairs (column, value))) ∧
    ∀ rows rows' : Rows, (∀ row ∈ rows.toList.tail, ∃ pairs, row = Row.ofPairs pairs) →
      rows.Reordered rows' →
      t.compile q (.insert rows) = t.compile q (.insert rows') ∧
      t.compile q (.insertOrIgnore rows) = t.compile q (.insertOrIgnore rows') ∧
      (∀ key, t.compile q (.insertGetId rows key) = t.compile q (.insertGetId rows' key)) ∧
      ∀ uniqueBy update, t.compile q (.upsert rows uniqueBy update) =
        t.compile q (.upsert rows' uniqueBy update) := by
  constructor
  · intro pairs
    have hdistinct := Row.nodup_ofPairs pairs
    refine ⟨hdistinct, Row.columns_ofPairs pairs, fun column value => ⟨Row.mem_ofPairs_iff, ?_⟩⟩
    rw [Row.get?_eq_some_iff hdistinct, Row.mem_ofPairs_iff]
  · intro rows rows' hmade hreordered
    -- texts and bindings depend on what is read of the rows, which stays the same
    have halike : rows.ReadAlike rows' := by
      refine hreordered.readAlike fun row hrow => ?_
      obtain ⟨pairs, rfl⟩ := hmade row hrow
      exact Row.nodup_ofPairs pairs
    refine ⟨?_, ?_, fun key => ?_, fun uniqueBy update => ?_⟩
    · simp only [Target.compile, compileInsert_readAlike halike]
    · simp only [Target.compile, insertOrIgnore_readAlike halike, insertBindings_readAlike halike]
    · simp only [Target.compile, insertGetId_readAlike halike, insertBindings_readAlike halike]
    · simp only [Target.compile, compileInsert_readAlike halike, upsert_readAlike halike,
        upsertBindings_readAlike halike]

/-- Two counters, set column by column; the hits of the second one are set again. -/
def countedHits : Rows :=
  .batch [Row.ofPairs [("key", .text "a"), ("hits", .int 1), ("seen", .raw "now()")],
    Row.ofPairs [("hits", .int 2), ("key", .text "b"), ("seen", .null), ("hits", .int 3)]]

/-- The same counters, with the entries of the second one in another order. -/
def recountedHits : Rows :=
  .batch [Row.ofPairs [("key", .text "a"), ("hits", .int 1), ("seen", .raw "now()")],
    ⟨[("seen", .null), ("key", .text "b"), ("hits", .int 3)]⟩]

/-- Both come to the same merge, with the hits that were set last. -/
theorem countedHits_reordered :
    countedHits.Reordered recountedHits ∧
    (Target.compile ⟨.sqlserver, {}⟩ counters (.upsert countedHits ["key"] resetHits)).isOk = true ∧
    Target.compile ⟨.sqlserver, {}⟩ counters (.upsert countedHits ["key"] resetHits) =
      Target.compile ⟨.sqlserver, {}⟩ counters (.upsert recountedHits ["key"] resetHits) := by
  obtain ⟨-, hsame⟩ := compile_reordered ⟨.sqlserver, {}⟩ counters
  have hmade : ∀ row ∈ countedHits.toList.tail, ∃ pairs, row = Row.ofPairs pairs := by
    intro row hrow
    rw [List.mem_singleton.1 hrow]
    exact ⟨_, rfl⟩
  have hreordered : countedHits.Reordered recountedHits :=
    ⟨rfl, .cons (List.reverse_perm _).symm .nil⟩
  obtain ⟨-, -, -, hupsert⟩ := hsame countedHits recountedHits hmade hreordered
  exact ⟨hreordered, rfl, hupsert ["key"] resetHits⟩

end SqlCompiler
