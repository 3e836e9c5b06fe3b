import SqlCompiler.Compile
import SqlCompiler.Proofs.Outcome

/-!
# Aggregates over Rows

An aggregate of united rows, or of groups that are chosen by conditions, cannot stand in the select
list. It is taken over a select of its own: the same query without the aggregate, whose SQL becomes
a derived table. Text and values of such an aggregate are those of its head and of that select, and
neither the layout nor the collector looks at the aggregate a second time.

## Main definitions

- `Query.rows`: the query whose rows are aggregated

## Main statements

- `layout_rows`: the clauses around the parts of a query do not depend on its aggregate
- `select_overRows`: the SQL of an aggregate over rows
- `selectBindings_overRows`: the values of an aggregate over rows
- `compile_overRows`: when there is such a statement, and what it is
-/

namespace SqlCompiler

variable {t : Target} {q : Query}

/-- The query whose rows are aggregated: everything but the aggregate. -/
def Query.rows (q : Query) : Query :=
  { q with aggregate := none }

/-- The queries whose aggregate is taken over a finished select. -/
theorem aggregatesOverRows_iff {a : Aggregate} (ha : q.aggregate = some a) :
    Target.aggregatesOverRows q = true ↔ q.unions ≠ [] ∨ q.havings ≠ [] := by
  simp only [Target.aggregatesOverRows, ha, Option.isSome_some, Bool.true_and, Bool.not_eq_true',
    Bool.and_eq_false_iff, ne_eq, ← List.isEmpty_iff, Bool.not_eq_true]

/-! ## §1 Text -/

theorem plainLayout_rows (q : Query) (parts : Parts) :
    t.plainLayout q.rows none parts = t.plainLayout q none parts := rfl

theorem numberedLayout_rows (q : Query) (parts : Parts) :
    t.numberedLayout q.rows parts = t.numberedLayout q parts := rfl

/-- A layout is chosen and filled by the page, the order and the clauses of a query; the aggregate
is an argument of its own. -/
theorem layout_rows (q : Query) (parts : Parts) :
    t.layout q.rows none parts = t.layout q none parts := by
  unfold Target.layout
  -- layout by layout, since SQL Server lays out the query with another offset or another order
  split
  · rw [numberedLayout_rows, plainLayout_rows]
    rfl
  · exact plainLayout_rows q parts

/-- The rows that are aggregated are the query laid out without an aggregate. -/
theorem select_rows (t : Target) (q : Query) :
    t.select q.rows = t.layout q none (t.parts q) := by
  rw [Target.select_eq]
  exact layout_rows q (t.parts q)

theorem select_overRows {a : Aggregate} (ha : q.aggregate = some a)
    (hrows : Target.aggregatesOverRows q = true) :
    t.select q = (do
      let head ← t.aggregateClause q.distinct a
      let rows ← t.select q.rows
      return head ++ " from (" ++ rows ++ ") as " ++ t.quoteTable "temp_table") := by
  rw [Target.select_eq, Target.finish, select_rows, ha]
  exact if_pos hrows

/-! ## §2 Values -/

/-- The values of the aggregate come in front of those of the select list. -/
theorem bucketsAround_overRows {a : Aggregate} (ha : q.aggregate = some a)
    (hrows : Target.aggregatesOverRows q = true) (source joins wheres branches : List Value) :
    q.bucketsAround source joins wheres branches =
      let b := q.rows.bucketsAround source joins wheres branches
      { b with select := bound (columnBindings a.columns) ++ b.select } := by
  have hwritten : (!q.unions.isEmpty || !q.havings.isEmpty) = true := by
    simpa [Target.aggregatesOverRows, ha, imp_iff_not_or] using hrows
  simp only [Query.bucketsAround, Query.rows, ha, Bool.or_assoc, hwritten, Bool.or_true,
    Option.isNone_none, Bool.true_or, if_true, bound_append, List.nil_append]

/-- Row numbers are a matter of the page, for an aggregate over rows as for the rows themselves. -/
theorem arrange_overRows {a : Aggregate} (hrows : Target.aggregatesOverRows q = true)
    (b : Buckets) :
    t.arrange q { b with select := bound (columnBindings a.columns) ++ b.select } =
      let b' := t.arrange q.rows b
      { b' with select := bound (columnBindings a.columns) ++ b'.select } := by
  have hnumbers : t.numbersRows q none = t.numbersRows q.rows none := rfl
  have hnone : (if Target.aggregatesOverRows q.rows then none else q.rows.aggregate) = none := by
    split <;> rfl
  dsimp only [Target.arrange]
  rw [if_pos hrows, hnumbers, hnone]
  split
  · simp only [List.append_assoc]
  · rfl

theorem selectBindings_overRows {a : Aggregate} (ha : q.aggregate = some a)
    (hrows : Target.aggregatesOverRows q = true) :
    t.selectBindings q = bound (columnBindings a.columns) ++ t.selectBindings q.rows := by
  rw [Target.selectBindings_eq, Target.selectBindings_eq, Target.buckets,
    bucketsAround_overRows ha hrows, arrange_overRows hrows]
  -- the select list is the first bucket of a select
  exact List.append_assoc ..

/-! ## §3 Statements -/

/-- A query that is selected from compiles into one statement. -/
theorem compile_select_eq_ok {out : List Compiled} :
    t.compile q .select = .ok out ↔
      ∃ sql, t.select q = .ok sql ∧ out = [⟨sql.text, t.selectBindings q⟩] := by
  simp only [Target.compile, bind_eq_ok, pure_eq_ok, Target.pair, @eq_comm _ out]

/-- An aggregate over rows has a statement exactly if its head and the rows have one. The statement
selects the head from the rows as a derived table, and binds the values of the aggregated columns
before those of the rows. -/
theorem compile_overRows (t : Target) {q : Query} {a : Aggregate} (ha : q.aggregate = some a)
    (hrows : q.unions ≠ [] ∨ q.havings ≠ []) :
    ((∃ out, t.compile q .select = .ok out) ↔
      (∃ head, t.aggregateClause q.distinct a = .ok head) ∧
        ∃ out, t.compile q.rows .select = .ok out) ∧
    ∀ head rows, t.aggregateClause q.distinct a = .ok head →
      t.compile q.rows .select = .ok [rows] →
      t.compile q .select = .ok [⟨head.text ++ " from (" ++ rows.sql ++ ") as " ++
        t.quoteTable "temp_table", bound (columnBindings a.columns) ++ rows.bindings⟩] := by
  rw [← aggregatesOverRows_iff ha] at hrows
  simp only [compile_select_eq_ok, select_overRows ha hrows, selectBindings_overRows ha hrows,
    bind_eq_ok, pure_eq_ok]
  constructor
  · constructor
    · rintro ⟨_, _, ⟨head, hhead, rows, hselect, rfl⟩, rfl⟩
      exact ⟨⟨head, hhead⟩, _, rows, hselect, rfl⟩
    · rintro ⟨⟨head, hhead⟩, _, rows, hselect, rfl⟩
      exact ⟨_, _, ⟨head, hhead, rows, hselect, rfl⟩, rfl⟩
  · rintro head _ hhead ⟨sql, hselect, hout⟩
    cases hout
    exact ⟨_, ⟨head, hhead, sql, hselect, rfl⟩, by simp⟩

/-- The sum of weighted hits. -/
def weightedHits : Aggregate :=
  ⟨"sum", [.raw "hits * ?" [.int 3, .raw "pi()"]]⟩

/-- The visits of a page of visitors, and of one more visitor, counted with a weight. -/
def weightedVisits : Query :=
  { Query.empty with
    source := some (.named "visits")
    columns := some [.named "visitor", .raw "coalesce(hits, ?)" [.int 0]]
    aggregate := some weightedHits
    orders := [.raw "hits - ?" [.int 1]]
    limit := some 10
    offset := some 20
    unions := [⟨{ Query.empty with
      source := some (.named "visits")
      wheres := [⟨.and, .compare (.named "visitor") "=" (.text "ann")⟩] }, true⟩] }

/-- SQL Server where offsets are expressed by row numbers. -/
def rowNumberServer : Target :=
  ⟨.sqlserver, { legacyPagination := true }⟩

/-- Row numbers move the order of the page in front of the values of the union, and both stand
behind the weight of the aggregate. -/
theorem compile_weightedVisits :
    rowNumberServer.selectBindings weightedVisits.rows = [.int 0, .int 1, .text "ann"] ∧
    ∃ head rows,
      rowNumberServer.aggregateClause .off weightedHits = .ok head ∧
      rowNumberServer.compile weightedVisits.rows .select = .ok [rows] ∧
      rowNumberServer.compile weightedVisits .select = .ok [⟨head.text ++ " from (" ++ rows.sql ++
        ") as " ++ rowNumberServer.quoteTable "temp_table", [.int 3] ++ rows.bindings⟩] := by
  have hhead : ∃ head, rowNumberServer.aggregateClause .off weightedHits = .ok head := ⟨_, rfl⟩
  have hselect : ∃ sql, rowNumberServer.select weightedVisits.rows = .ok sql := ⟨_, rfl⟩
  obtain ⟨head, hhead⟩ := hhead
  obtain ⟨sql, hselect⟩ := hselect
  have hrows := compile_select_eq_ok.2 ⟨sql, hselect, rfl⟩
  have hcompiled := (compile_overRows rowNumberServer (q := weightedVisits) (a := weightedHits) rfl
    (.inl (by simp [weightedVisits]))).2 head _ hhead hrows
  exact ⟨rfl, head, _, hhead, hrows, hcompiled⟩

end SqlCompiler
