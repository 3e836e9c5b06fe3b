import SqlCompiler.Proofs.Outcome
import SqlCompiler.Write.Insert
import SqlCompiler.Write.Update

/-!
# Written Forms

What has SQL has passed the checks that stand in front of it, and is written in one of a few forms.
The lemmas of this file say once what these forms are, for constructs that may be refused. What is
proved of their SQL is proved form by form.

## Main definitions

- `UpdateForm`, `DeleteForm`: through the identifiers of rows, on a single table, on joined tables

## Main statements

- `rowValues_eq_ok`, `group_eq_ok`, `havingGroup_eq_ok`: conditions that may be refused
- `join_eq_ok`: a lateral join without conditions, or a join with its conditions
- `duplicateKeyUpsert_eq_ok`, `conflictUpsert_eq_ok`, `mergeUpsert_eq_ok`: the upserts of the
  dialects
- `writeTable_eq_ok`, `rowIdCondition_eq_ok`: the table of a write, and the rows that it changes
- `update_eq_ok`, `delete_eq_ok`: a change has one of its forms, and all its clauses have a place
-/

namespace SqlCompiler

variable {t : Target} {q : Query} {sql : Sql}

/-! ## §1 Conditions -/

/-- A row comparison with SQL is as wide on both sides. -/
theorem rowValues_eq_ok {columns : List Column} {operator : String} {values : List Value}
    (h : t.rowValues columns operator values = .ok sql) :
    columns.length = values.length ∧ ∃ list, t.columnList columns = .ok list ∧
      sql = "(" ++ list ++ ") " ++ operator ++ " (" ++ Sql.parameters values ++ ")" := by
  rw [Target.rowValues] at h
  split at h
  · simp only [throw_bind, throw_eq_ok] at h
  · rename_i hwidth
    simp only [bind_eq_ok, pure_eq_ok] at h
    obtain ⟨list, hlist, rfl⟩ := h
    exact ⟨not_not.1 hwidth, list, hlist, rfl⟩

/-- A group with SQL has conditions in it, and stands in parentheses. -/
theorem group_eq_ok {inner : List (Clause Predicate)}
    (h : t.predicate (.group inner) = .ok sql) :
    inner ≠ [] ∧ ∃ clauses, t.clauses inner = .ok clauses ∧
      sql = "(" ++ Clause.body clauses ++ ")" := by
  rw [Target.predicate] at h
  split at h
  · simp only [throw_bind, throw_eq_ok] at h
  · rename_i hnonempty
    simp only [bind_eq_ok, pure_eq_ok] at h
    obtain ⟨clauses, hclauses, rfl⟩ := h
    exact ⟨by simpa using hnonempty, clauses, hclauses, rfl⟩

/-- The same for a group of conditions on groups of rows. -/
theorem havingGroup_eq_ok {inner : List (Clause HavingPredicate)}
    (h : t.having (.group inner) = .ok sql) :
    inner ≠ [] ∧ ∃ clauses, t.havingClauses inner = .ok clauses ∧
      sql = "(" ++ Clause.body clauses ++ ")" := by
  rw [Target.having] at h
  split at h
  · simp only [throw_bind, throw_eq_ok] at h
  · rename_i hnonempty
    simp only [bind_eq_ok, pure_eq_ok] at h
    obtain ⟨clauses, hclauses, rfl⟩ := h
    exact ⟨by simpa using hnonempty, clauses, hclauses, rfl⟩

/-! ## §2 Joins -/

/-- A join with SQL is a lateral one without conditions, or has its conditions behind it. Inner
joins stand in parentheses with its table. -/
theorem join_eq_ok {kind : JoinKind} {tbl : Table} {on : List (Clause Predicate)}
    {inner : List Join} {lateral : Bool} (h : t.join ⟨kind, tbl, on, inner, lateral⟩ = .ok sql) :
    ∃ table joined, t.table tbl = .ok table ∧ t.joins inner = .ok joined ∧
      (on = [] ∧ t.lateralJoin kind
          (if inner.isEmpty then table else "(" ++ table ++ " " ++ joined ++ ")") = .ok sql ∨
        ∃ clauses, t.clauses on = .ok clauses ∧ sql = .words [kind.keyword ++ " join",
          if inner.isEmpty then table else "(" ++ table ++ " " ++ joined ++ ")",
          Target.conditions "on" clauses]) := by
  simp only [Target.join, bind_eq_ok] at h
  obtain ⟨table, htable, joined, hjoined, h⟩ := h
  refine ⟨table, joined, htable, hjoined, ?_⟩
  split at h
  · split at h
    · simp only [throw_bind, throw_eq_ok] at h
    · split at h
      · -- a lateral join with conditions is refused
        simp only [throw_bind, throw_eq_ok] at h
      · rename_i hnone
        exact .inl ⟨by simpa using hnone, h⟩
  · simp only [bind_eq_ok, pure_eq_ok] at h
    obtain ⟨clauses, hclauses, rfl⟩ := h
    exact .inr ⟨clauses, hclauses, rfl⟩

/-! ## §3 Upserts -/

section Upserts

variable {rows : Rows} {uniqueBy : List String} {update : List UpsertColumn}

/-- MySQL: an insert with its assignments, which ask for the incoming row by an alias or not. -/
theorem duplicateKeyUpsert_eq_ok (h : t.duplicateKeyUpsert q rows update = .ok sql) :
    ∃ insert asName assignments, t.insert q rows = .ok insert ∧
      (asName = "" ∨ ∃ name, t.quote Target.incomingAlias = .ok name ∧ asName = " as " ++ name) ∧
      t.upsertAssignments t.duplicateValue update = .ok assignments ∧
      sql = insert ++ asName ++ " on duplicate key update " ++ assignments := by
  simp only [Target.duplicateKeyUpsert, bind_eq_ok] at h
  obtain ⟨insert, hinsert, h⟩ := h
  split at h
  · simp only [bind_eq_ok, pure_eq_ok] at h
    obtain ⟨name, hname, asName, rfl, assignments, hassignments, rfl⟩ := h
    exact ⟨insert, _, assignments, hinsert, .inr ⟨name, hname, rfl⟩, hassignments, rfl⟩
  · simp only [bind_eq_ok, pure_eq_ok] at h
    obtain ⟨_, rfl, assignments, hassignments, rfl⟩ := h
    exact ⟨insert, "", assignments, hinsert, .inl rfl, hassignments, rfl⟩

/-- PostgreSQL and SQLite: an insert with its keys and its assignments. -/
theorem conflictUpsert_eq_ok (h : t.conflictUpsert q rows uniqueBy update = .ok sql) :
    uniqueBy ≠ [] ∧ ∃ keys assignments insert, t.nameList uniqueBy = .ok keys ∧
      t.upsertAssignments
        (fun c => .ok (t.quoteIdentifier "excluded" ++ "." ++ t.quoteIdentifier c)) update =
          .ok assignments ∧
      t.insert q rows = .ok insert ∧
      sql = insert ++ " on conflict (" ++ keys ++ ") do update set " ++ assignments := by
  unfold Target.conflictUpsert at h
  split at h
  · simp only [throw_bind, throw_eq_ok] at h
  · rename_i hkeyed
    simp only [bind_eq_ok, pure_eq_ok] at h
    obtain ⟨keys, hkeys, assignments, hassignments, insert, hinsert, rfl⟩ := h
    exact ⟨by simpa using hkeyed, keys, assignments, insert, hkeys, hassignments, hinsert, rfl⟩

/-- SQL Server: a merge goes into a table of a name, and leaves an alias of it away. -/
theorem mergeUpsert_eq_ok (h : t.mergeUpsert q rows uniqueBy update = .ok sql) :
    uniqueBy ≠ [] ∧ ∃ name target columns names keys assignments,
      q.source = some (.named name) ∧
      target = (match splitAlias? name with | some (tbl, _) => tbl | none => name) ∧
      rows.columns? = .ok columns ∧ t.nameList columns = .ok names ∧
      (uniqueBy.mapM fun c => do
        return (← t.quote (Target.mergeSource ++ "." ++ c)) ++ " = " ++
          (← t.quote (target ++ "." ++ c))) = .ok keys ∧
      t.upsertAssignments (fun c => t.quote (Target.mergeSource ++ "." ++ c)) update =
        .ok assignments ∧
      sql = "merge " ++ t.quoteTable target ++ " using (values " ++
        Target.rowTuples rows columns ++ ") " ++ t.quoteTable Target.mergeSource ++ " (" ++ names ++
        ") on " ++ Text.join " and " keys ++ " when matched then update set " ++ assignments ++
        " when not matched then insert (" ++ names ++ ") values (" ++ names ++ ");" := by
  unfold Target.mergeUpsert at h
  split at h
  · rename_i name hsource
    by_cases hempty : uniqueBy.isEmpty = true
    · simp only [hempty, if_true, throw_bind, throw_eq_ok] at h
    · simp only [hempty, Bool.false_eq_true, if_false, bind_eq_ok, pure_eq_ok] at h
      obtain ⟨columns, hcolumns, names, hnames, keys, hkeys, assignments, hassignments, rfl⟩ := h
      refine ⟨by simpa using hempty, name, _, columns, names, keys, assignments, hsource, rfl,
        hcolumns, hnames, ?_, hassignments, rfl⟩
      exact hkeys
  · cases h

end Upserts

/-! ## §4 Updates and deletes -/

/-- What is written to is the table of the query. -/
theorem writeTable_eq_ok (h : t.writeTable q = .ok sql) :
    ∃ tbl, q.source = some tbl ∧ t.table tbl = .ok sql := by
  unfold Target.writeTable at h
  split at h
  · exact ⟨_, ‹_›, h⟩
  · cases h

/-- Rows are those that a select of their identifiers finds. -/
theorem rowIdCondition_eq_ok (h : t.rowIdCondition q = .ok sql) :
    ∃ tbl rowId select, q.source = some tbl ∧ t.quote t.dialect.rowId = .ok rowId ∧
      t.select (t.rowIdQuery q tbl) = .ok select ∧ sql = rowId ++ " in (" ++ select ++ ")" := by
  unfold Target.rowIdCondition at h
  split at h
  · cases h
  · rename_i tbl hsource
    simp only [bind_eq_ok, pure_eq_ok] at h
    obtain ⟨rowId, hrowId, select, hselect, rfl⟩ := h
    exact ⟨tbl, rowId, select, hsource, hrowId, hselect, rfl⟩

/-- The forms of an update, before its trailing blanks are gone. -/
inductive UpdateForm (t : Target) (q : Query) (table assigned wheres : Sql) : Sql → Prop where
  | rowIds {rows : Sql} (hrows : t.usesRowIds q = true) (h : t.rowIdCondition q = .ok rows) :
      UpdateForm t q table assigned wheres
        ("update " ++ table ++ " set " ++ assigned ++ " where " ++ rows)
  | single {tail : List Sql} (hrows : ¬t.usesRowIds q = true) (hjoins : q.joins.isEmpty = true)
      (h : t.writeOrder q = .ok tail) :
      UpdateForm t q table assigned wheres
        (.words
          (.words ["update " ++ t.writeTop q ++ table ++ " set " ++ assigned, wheres] :: tail))
  /-- SQL Server names its target first, and joins behind the assignments. -/
  | joinedBehind {joins : Sql} (hrows : ¬t.usesRowIds q = true) (hjoins : ¬q.joins.isEmpty = true)
      (hserver : t.dialect = .sqlserver) (h : t.joins q.joins = .ok joins) :
      UpdateForm t q table assigned wheres
        (.words ["update " ++ t.writeTop q ++ Target.joinedTarget table ++ " set " ++ assigned ++
          " from " ++ table ++ " " ++ joins, wheres])
  | joinedBefore {joins : Sql} (hrows : ¬t.usesRowIds q = true) (hjoins : ¬q.joins.isEmpty = true)
      (hserver : t.dialect ≠ .sqlserver) (h : t.joins q.joins = .ok joins) :
      UpdateForm t q table assigned wheres
        (.words ["update " ++ table ++ " " ++ joins ++ " set " ++ assigned, wheres])

/-- The forms of a delete, before its trailing blanks are gone. -/
inductive DeleteForm (t : Target) (q : Query) (table wheres : Sql) : Sql → Prop where
  | rowIds {rows : Sql} (hrows : t.usesRowIds q = true) (h : t.rowIdCondition q = .ok rows) :
      DeleteForm t q table wheres ("delete from " ++ table ++ " where " ++ rows)
  | single {tail : List Sql} (hrows : ¬t.usesRowIds q = true) (hjoins : q.joins.isEmpty = true)
      (h : t.writeOrder q = .ok tail) :
      DeleteForm t q table wheres
        (.words (.words ["delete " ++ t.writeTop q ++ "from " ++ table, wheres] :: tail))
  | joined {joins : Sql} (hrows : ¬t.usesRowIds q = true) (hjoins : ¬q.joins.isEmpty = true)
      (h : t.joins q.joins = .ok joins) :
      DeleteForm t q table wheres
        (.words ["delete " ++ t.writeTop q ++ Target.joinedTarget table ++ " from " ++ table ++
          " " ++ joins, wheres])

/-- An update with SQL assigns something, and is written in one of its forms. -/
theorem update_eq_ok {row : Row} (h : t.update q row = .ok sql) :
    row.isEmpty = false ∧ t.checkWrite q .update = .ok () ∧ ∃ table assigned wheres body,
      t.writeTable q = .ok table ∧ t.assignments row = .ok assigned ∧
      t.wheresClause q.wheres = .ok wheres ∧ UpdateForm t q table assigned wheres body ∧
      sql = body.trimEnd := by
  by_cases hempty : row.isEmpty = true
  · -- nothing to assign is a fault
    simp only [Target.update, hempty, if_true, throw_bind, throw_eq_ok] at h
  refine ⟨Bool.eq_false_iff.2 hempty, ?_⟩
  simp only [Target.update, hempty, Bool.false_eq_true, if_false] at h
  by_cases hrows : t.usesRowIds q = true
  · simp only [hrows, if_true, bind_eq_ok, pure_eq_ok] at h
    obtain ⟨_, hcheck, table, htable, assigned, hassigned, wheres, hwheres, rows, hids, body, rfl,
      rfl⟩ := h
    exact ⟨hcheck, table, assigned, wheres, _, htable, hassigned, hwheres, .rowIds hrows hids, rfl⟩
  simp only [hrows, Bool.false_eq_true, if_false] at h
  by_cases hjoins : q.joins.isEmpty = true
  · simp only [hjoins, if_true, bind_eq_ok, pure_eq_ok] at h
    obtain ⟨_, hcheck, table, htable, assigned, hassigned, wheres, hwheres, tail, htail, body, rfl,
      rfl⟩ := h
    exact ⟨hcheck, table, assigned, wheres, _, htable, hassigned, hwheres,
      .single hrows hjoins htail, rfl⟩
  · simp only [hjoins, Bool.false_eq_true, if_false, bind_eq_ok] at h
    obtain ⟨_, hcheck, table, htable, assigned, hassigned, wheres, hwheres, joins, hjoined, h⟩ := h
    refine ⟨hcheck, table, assigned, wheres, ?_⟩
    split at h
    · rename_i hserver
      simp only [pure_bind, pure_eq_ok] at h
      exact ⟨_, htable, hassigned, hwheres, .joinedBehind hrows hjoins hserver hjoined, h.symm⟩
    · rename_i hserver
      simp only [pure_bind, pure_eq_ok] at h
      exact ⟨_, htable, hassigned, hwheres, .joinedBefore hrows hjoins hserver hjoined, h.symm⟩

/-- A delete with SQL is written in one of its forms. -/
theorem delete_eq_ok (h : t.delete q = .ok sql) :
    t.checkWrite q .delete = .ok () ∧ ∃ table wheres body, t.writeTable q = .ok table ∧
      t.wheresClause q.wheres = .ok wheres ∧ DeleteForm t q table wheres body ∧
      sql = body.trimEnd := by
  unfold Target.delete at h
  by_cases hrows : t.usesRowIds q = true
  · simp only [hrows, if_true, bind_eq_ok, pure_eq_ok] at h
    obtain ⟨_, hcheck, table, htable, wheres, hwheres, rows, hids, body, rfl, rfl⟩ := h
    exact ⟨hcheck, table, wheres, _, htable, hwheres, .rowIds hrows hids, rfl⟩
  simp only [hrows, Bool.false_eq_true, if_false] at h
  by_cases hjoins : q.joins.isEmpty = true
  · simp only [hjoins, if_true, bind_eq_ok, pure_eq_ok] at h
    obtain ⟨_, hcheck, table, htable, wheres, hwheres, tail, htail, body, rfl, rfl⟩ := h
    exact ⟨hcheck, table, wheres, _, htable, hwheres, .single hrows hjoins htail, rfl⟩
  · simp only [hjoins, Bool.false_eq_true, if_false, bind_eq_ok, pure_eq_ok] at h
    obtain ⟨_, hcheck, table, htable, wheres, hwheres, joins, hjoined, body, rfl, rfl⟩ := h
    exact ⟨hcheck, table, wheres, _, htable, hwheres, .joined hrows hjoins hjoined, rfl⟩

end SqlCompiler
