import SqlCompiler.Proofs.Pagination
import SqlCompiler.Proofs.WriteAlignment

/-!
# Statements with Row Numbers

Row numbers and offsets bind the same values: rows are numbered in their order, which moves its
values into the select list and nothing else. With the SQL of queries compared already, every
statement of SQL Server is the same for both up to the layout of the selects that skip rows.

## Main definitions

- `SameValues`: the values of two runs
- `Statement.selects`: the selects that are laid out for a statement

## Main statements

- `arrange_perm`: row numbers keep the values of a query
- `selectBindings_paged`: the values of a query, by recursion on it
- `compile_paged`, `compile_rowNumbers`: statements
-/

namespace SqlCompiler

open Target

variable {t : Target} {q : Query} {P Q : Prop}

/-! ## §1 Values of two runs -/

/-- The values of two runs: the same but for their order, and in the same order under a
condition. -/
structure SameValues (P : Prop) (vs ws : List Value) : Prop where
  perm : vs.Perm ws
  same : P → vs = ws

namespace SameValues

/-- A run and itself. -/
theorem refl (vs : List Value) : SameValues P vs vs :=
  ⟨.refl _, fun _ => rfl⟩

/-- The order is the same under a stronger condition, too. -/
theorem weaken {vs ws : List Value} (h : SameValues P vs ws) (hQP : Q → P) :
    SameValues Q vs ws :=
  ⟨h.perm, fun hQ => h.same (hQP hQ)⟩

/-- Values in a row, part by part. -/
theorem append {vs ws vs' ws' : List Value} (h : SameValues P vs ws)
    (h' : SameValues P vs' ws') : SameValues P (vs ++ vs') (ws ++ ws') :=
  ⟨h.perm.append h'.perm, fun hP => by rw [h.same hP, h'.same hP]⟩

/-- What is bound of the values of two runs. -/
theorem bound {vs ws : List Value} (h : SameValues P vs ws) :
    SameValues P (bound vs) (SqlCompiler.bound ws) :=
  ⟨h.perm.filter _, fun hP => by rw [h.same hP]⟩

end SameValues

/-- Buckets that hold the same values one by one hold the same values in a row. -/
theorem flattenOnly_same {b b' : Buckets} (buckets : List Bucket)
    (h : ∀ bucket ∈ buckets, SameValues P (b.get bucket) (b'.get bucket)) :
    SameValues P (b.flattenOnly buckets) (b'.flattenOnly buckets) := by
  induction buckets with
  | nil => exact .refl _
  | cons bucket rest ih =>
    obtain ⟨hfirst, hrest⟩ := List.forall_mem_cons.1 h
    simp only [Buckets.flattenOnly, List.flatMap_cons]
    exact hfirst.append (ih hrest)

/-- The buckets of a query whose nested parts bind the same values in two runs. -/
theorem bucketsAround_same (q : Query) {source joins wheres branches source' joins' wheres'
    branches' : List Value} (hsource : SameValues P source source')
    (hjoins : SameValues P joins joins') (hwheres : SameValues P wheres wheres')
    (hbranches : SameValues P branches branches') (bucket : Bucket) :
    SameValues P ((q.bucketsAround source joins wheres branches).get bucket)
      ((q.bucketsAround source' joins' wheres' branches').get bucket) := by
  cases bucket with
  | source => exact hsource.bound
  | join => exact hjoins.bound
  | wheres => exact hwheres.bound
  | union => exact hbranches.bound
  | _ => exact .refl _

/-! ## §2 Values of queries -/

/-- Row numbers put the values of the order of a select behind those of its columns. -/
theorem arrange_cases (t : Target) (q : Query) (b : Buckets) :
    t.arrange q b = b ∨
      q.laidOut.SkipsRows ∧
        t.arrange q b = { b with select := b.select ++ b.order, order := [] } := by
  -- only numbered rows move the order, and a query whose rows are numbered skips some
  cases hnumbers : t.numbersRows q (if aggregatesOverRows q then none else q.aggregate) with
  | false => exact .inl (by simp [arrange, hnumbers])
  | true =>
    refine .inr ⟨skipsRows_of_numbersRows (t := t) ?_, by simp [arrange, hnumbers]⟩
    unfold Query.laidOut
    split
    · rwa [if_pos ‹_›] at hnumbers
    · rwa [if_neg ‹_›] at hnumbers

/-- Row numbers keep all values of a query. -/
theorem arrange_perm (t : Target) (q : Query) (b : Buckets) :
    (t.arrange q b).flatten.Perm b.flatten := by
  obtain heq | ⟨-, heq⟩ := arrange_cases t q b
  · rw [heq]
  · rw [heq]
    simp only [Buckets.flatten, Buckets.flattenOnly, Bucket.all, Buckets.get, List.flatMap_cons,
      List.flatMap_nil, List.append_nil, List.append_assoc, List.nil_append]
    refine List.Perm.append_left b.select ?_
    -- the order passes over the buckets between the select list and its own place
    have hpassed : (b.order ++ (b.source ++ b.join ++ b.wheres ++ b.groupBy ++ b.having)).Perm
        (b.source ++ b.join ++ b.wheres ++ b.groupBy ++ b.having ++ b.order) :=
      List.perm_append_comm
    simpa only [List.append_assoc] using hpassed.append_right (b.union ++ b.unionOrder)

/-- The order stays in its place where no rows are skipped. -/
theorem arrange_of_not_skipsRows (h : ¬q.laidOut.SkipsRows) (b : Buckets) :
    t.arrange q b = b :=
  (arrange_cases t q b).resolve_right fun hskips => h hskips.1

/-- Offsets never move the order. -/
theorem arrange_paged (t : Target) (q : Query) (b : Buckets) :
    (t.paged false).arrange q b = b := by
  simp [arrange, numbersRows_paged]

/-- The values of a query whose nested parts bind the same in two runs. -/
theorem flatten_paged {b b' : Buckets} (h : ∀ bucket, SameValues P (b.get bucket) (b'.get bucket))
    (hP : P → ¬q.laidOut.SkipsRows) :
    SameValues P ((t.paged true).arrange q b).flatten ((t.paged false).arrange q b').flatten := by
  rw [arrange_paged]
  have hflat : SameValues P b.flatten b'.flatten := flattenOnly_same Bucket.all fun c _ => h c
  exact ⟨(arrange_perm _ q b).trans hflat.perm,
    fun hp => by rw [arrange_of_not_skipsRows (hP hp), hflat.same hp]⟩

mutual

/-- A derived table binds the values of its query. -/
theorem tableBindings_paged (t : Target) : (tbl : Table) →
    SameValues (NoneSkips tbl.queries) ((t.paged true).tableBindings tbl)
      ((t.paged false).tableBindings tbl)
  | .named _ => by
    simp only [tableBindings]
    exact .refl _
  | .raw _ _ => by
    simp only [tableBindings]
    exact .refl _
  | .derived query _ => by
    simp only [tableBindings, Table.queries]
    exact selectBindings_paged t query

theorem sourceBindings_paged (t : Target) : (src : Option Table) →
    SameValues (NoneSkips (sourceQueries src)) ((t.paged true).sourceBindings src)
      ((t.paged false).sourceBindings src)
  | none => by
    simp only [sourceBindings]
    exact .refl _
  | some tbl => by
    simp only [sourceBindings, sourceQueries]
    exact tableBindings_paged t tbl

/-- A joined table with its inner joins and conditions, each under its own part of the condition. -/
theorem joinBindings_paged (t : Target) : (j : Join) →
    SameValues (NoneSkips j.queries) ((t.paged true).joinBindings j)
      ((t.paged false).joinBindings j)
  | ⟨_, tbl, on, joins, _⟩ => by
    simp only [joinBindings, Join.queries]
    have htable := (tableBindings_paged t tbl).weaken fun
      h : NoneSkips (tbl.queries ++ joinsQueries joins ++ clauseQueries on) => h.left.left
    exact (htable.append ((joinsBindings_paged t joins).weaken fun h => h.left.right)).append
      ((clauseBindings_paged t on).weaken NoneSkips.right)

theorem joinsBindings_paged (t : Target) : (joins : List Join) →
    SameValues (NoneSkips (joinsQueries joins)) ((t.paged true).joinsBindings joins)
      ((t.paged false).joinsBindings joins)
  | [] => by
    simp only [joinsBindings]
    exact .refl _
  | j :: rest => by
    simp only [joinsBindings, joinsQueries]
    exact ((joinBindings_paged t j).weaken NoneSkips.left).append
      ((joinsBindings_paged t rest).weaken NoneSkips.right)

/-- The branches of a union, one by one. -/
theorem branchBindings_paged (t : Target) : (branches : List UnionBranch) →
    SameValues (NoneSkips (branchQueries branches)) ((t.paged true).branchBindings branches)
      ((t.paged false).branchBindings branches)
  | [] => by
    simp only [branchBindings]
    exact .refl _
  | ⟨query, _⟩ :: rest => by
    simp only [branchBindings, branchQueries]
    exact ((selectBindings_paged t query).weaken NoneSkips.left).append
      ((branchBindings_paged t rest).weaken NoneSkips.right)

/-- Only a condition that looks into a query can bind its values in another order. -/
theorem predicateBindings_paged (t : Target) : (p : Predicate) →
    SameValues (NoneSkips p.queries) ((t.paged true).predicateBindings p)
      ((t.paged false).predicateBindings p)
  | .inQuery _ query _ => by
    simp only [predicateBindings, Predicate.queries]
    exact (SameValues.refl _).append (selectBindings_paged t query)
  | .hasRows query _ => by
    simp only [predicateBindings, Predicate.queries]
    exact selectBindings_paged t query
  | .compareQuery _ _ query => by
    simp only [predicateBindings, Predicate.queries]
    exact (SameValues.refl _).append (selectBindings_paged t query)
  | .group inner => by
    simp only [predicateBindings, Predicate.queries]
    exact clauseBindings_paged t inner
  | .like _ _ _ _ => by
    simp only [predicateBindings, likeBinding_paged]
    exact .refl _
  | .jsonContains _ _ _ => by
    simp only [predicateBindings, jsonBinding_paged]
    exact .refl _
  | .raw _ _ | .compare _ _ _ | .bitwise _ _ _ | .jsonBoolean _ _ _ | .between _ _ _ _
  | .betweenColumns _ _ _ _ | .inList _ _ _ | .inIntegers _ _ _ | .isNull _ | .isNotNull _
  | .datePart _ _ _ _ | .compareColumns _ _ _ | .rowValues _ _ _ | .jsonContainsKey _ _
  | .jsonLength _ _ _ | .fullText _ _ _ => by
    simp only [predicateBindings]
    exact .refl _

/-- Conditions on rows, one by one. -/
theorem clauseBindings_paged (t : Target) : (clauses : List (Clause Predicate)) →
    SameValues (NoneSkips (clauseQueries clauses)) ((t.paged true).clauseBindings clauses)
      ((t.paged false).clauseBindings clauses)
  | [] => by
    simp only [clauseBindings]
    exact .refl _
  | ⟨_, node⟩ :: rest => by
    simp only [clauseBindings, clauseQueries]
    exact ((predicateBindings_paged t node).weaken NoneSkips.left).append
      ((clauseBindings_paged t rest).weaken NoneSkips.right)

/-- Both ways of skipping rows bind the same values of a query, and in the same order unless a
select skips rows. -/
theorem selectBindings_paged (t : Target) : (q : Query) →
    SameValues (NoneSkips q.queries) ((t.paged true).selectBindings q)
      ((t.paged false).selectBindings q)
  | ⟨src, columns, distinct, aggregate, joins, wheres, groups, havings, orders, limit, offset, lock,
      unions, unionOrders, unionLimit, unionOffset⟩ => by
    rw [selectBindings_eq, selectBindings_eq]
    refine flatten_paged (bucketsAround_same _ ?_ ?_ ?_ ?_) fun h => h _ List.mem_cons_self
    · exact (sourceBindings_paged t src).weaken fun h => h.tail.left.left.left
    · exact (joinsBindings_paged t joins).weaken fun h => h.tail.left.left.right
    · exact (clauseBindings_paged t wheres).weaken fun h => h.tail.left.right
    · exact (branchBindings_paged t unions).weaken fun h => h.tail.right

end

/-! ## §3 Statements -/

/-- The queries in the clauses that an update or delete of SQL Server writes. -/
def Query.writtenQueries (q : Query) : List Query :=
  sourceQueries q.source ++ joinsQueries q.joins ++ clauseQueries q.wheres

/-- The queries that SQL Server lays out for a statement. -/
def Statement.queries (q : Query) : Statement → List Query
  | .select => q.queries
  | .hasRows => (probe q).queries
  | .insertUsing _ rows => sourceQueries q.source ++ rows.queries
  | .update _ | .delete => q.writtenQueries
  | .insert _ | .insertOrIgnore _ | .insertGetId _ _ | .upsert _ _ _ | .truncate =>
    sourceQueries q.source

/-- The selects that SQL Server lays out for a statement: those nested in it, the one inside of an
aggregate over rows, and the one that asks for a row. -/
def Statement.selects (q : Query) (s : Statement) : List Query :=
  (s.queries q).map Query.laidOut

/-- Statements of two runs: they bind the same values but for their order, and are the same under a
condition. -/
structure SameStatements (P : Prop) (cs cs' : List Compiled) : Prop where
  bindings : List.Forall₂ (fun c c' => c.bindings.Perm c'.bindings) cs cs'
  same : P → cs = cs'

/-- SQL with its values beside it. -/
theorem sameStatements_pair {sql sql' : Sql} {vs ws : List Value} (h : SameIf P sql sql')
    (hvalues : SameValues P vs ws) : SameStatements P [pair sql vs] [pair sql' ws] :=
  ⟨.cons hvalues.perm .nil, fun hP => by rw [h hP, hvalues.same hP]⟩

theorem SameStatements.refl (cs : List Compiled) : SameStatements P cs cs :=
  ⟨List.forall₂_same.2 fun _ _ => .refl _, fun _ => rfl⟩

/-- A statement whose values are collected beside its SQL. -/
theorem pairs_same {x y : Except Fault Sql} {vs ws : List Value} (h : Alike (SameIf P) x y)
    (hvalues : SameValues P vs ws) :
    Alike (SameStatements P) (do let sql ← x; return [pair sql vs])
      (do let sql ← y; return [pair sql ws]) :=
  h.bind fun _ _ hsql => .pure (sameStatements_pair hsql hvalues)

/-- A statement that binds the values of rows, which skipped rows of a query do not change. -/
theorem gathered_same {x y : Except Fault Sql} (h : Alike (SameIf P) x y)
    (values : Except Fault (List Value)) :
    Alike (SameStatements P) (do let sql ← x; return [pair sql (← values)])
      (do let sql ← y; return [pair sql (← values)]) :=
  h.bind fun _ _ hsql => .step _ fun vs => .pure (sameStatements_pair hsql (.refl vs))

/-- The table that a statement writes to may be derived from a query that skips rows. -/
theorem writeTable_paged (t : Target) (q : Query) :
    Alike (SameIf (NoneSkips (sourceQueries q.source))) ((t.paged true).writeTable q)
      ((t.paged false).writeTable q) := by
  unfold writeTable
  cases q.source with
  | none => exact .same _
  | some tbl => exact table_paged t tbl

theorem wheresClause_paged (t : Target) (wheres : List (Clause Predicate)) :
    Alike (SameIf (NoneSkips (clauseQueries wheres))) ((t.paged true).wheresClause wheres)
      ((t.paged false).wheresClause wheres) :=
  (clauses_paged t wheres).returns _

/-- An insert of rows, which differs only where its table does. -/
theorem insert_paged (t : Target) (q : Query) (rows : Rows) :
    Alike (SameIf (NoneSkips (sourceQueries q.source))) ((t.paged true).insert q rows)
      ((t.paged false).insert q rows) := by
  unfold Target.insert insertAs
  simp only [dialect_paged, insertRows_paged]
  refine (writeTable_paged t q).bind fun tbl tbl' htable => ?_
  split
  · split <;> exact .pure fun hP => by rw [htable hP]
  · unfold insertRows
    exact .step _ fun columns => .step _ fun names => .pure fun hP => by rw [htable hP]

/-- An insert of selected rows differs where its query does. -/
theorem insertUsing_paged (t : Target) (q rows : Query) (columns : List Column) :
    Alike (SameIf (NoneSkips (sourceQueries q.source ++ rows.queries)))
      ((t.paged true).insertUsing q columns rows) ((t.paged false).insertUsing q columns rows) := by
  unfold insertUsing
  simp only [columnList_paged]
  refine (writeTable_paged t q).nested NoneSkips.left fun tbl tbl' htable => ?_
  refine (select_paged t rows).nested NoneSkips.right fun select select' hselect => ?_
  split
  · exact .pure fun hP => by rw [htable hP, hselect hP]
  · exact .step _ fun names => .pure fun hP => by rw [htable hP, hselect hP]

/-- The values of clauses that an update or delete writes. -/
theorem written_paged (t : Target) (q : Query) (buckets : List Bucket)
    (hwritten : ∀ bucket ∈ buckets, bucket ∈ [Bucket.source, .join, .wheres]) :
    SameValues (NoneSkips q.writtenQueries) (((t.paged true).buckets q).flattenOnly buckets)
      (((t.paged false).buckets q).flattenOnly buckets) := by
  -- the order is not among the buckets that a write uses
  obtain ⟨hsource, hjoin, hwheres⟩ := buckets_written (t.paged true) q
  obtain ⟨hsource', hjoin', hwheres'⟩ := buckets_written (t.paged false) q
  refine flattenOnly_same buckets fun bucket hmem => ?_
  have hcases := hwritten bucket hmem
  simp only [List.mem_cons, List.not_mem_nil, or_false] at hcases
  rcases hcases with rfl | rfl | rfl
  · simp only [Buckets.get, hsource, hsource']
    exact ((sourceBindings_paged t q.source).weaken fun h => h.left.left).bound
  · simp only [Buckets.get, hjoin, hjoin']
    exact ((joinsBindings_paged t q.joins).weaken fun h => h.left.right).bound
  · simp only [Buckets.get, hwheres, hwheres']
    exact ((clauseBindings_paged t q.wheres).weaken NoneSkips.right).bound

section Server

variable (ht : t.dialect = .sqlserver)
include ht

/-- The question for a row is a select with a limit of one. -/
theorem hasRows_paged (q : Query) :
    Alike (SameIf (NoneSkips (probe q).queries)) ((t.paged true).hasRows q)
      ((t.paged false).hasRows q) := by
  simp only [Target.hasRows, dialect_paged, ht]
  exact select_paged t (probe q)

/-- SQL Server never selects the identifiers of rows. -/
theorem usesRowIds_server (legacy : Bool) (q : Query) : (t.paged legacy).usesRowIds q = false := by
  simp [usesRowIds, Dialect.selectsRowIds, ht]

/-- An update lays out no select of its own, only those in its table, its joins and its
conditions. -/
theorem update_paged (q : Query) (row : Row) :
    Alike (SameIf (NoneSkips q.writtenQueries)) ((t.paged true).update q row)
      ((t.paged false).update q row) := by
  unfold Target.update
  simp only [checkWrite_paged, assignments_paged, writeTop_paged, writeOrder_paged, dialect_paged,
    usesRowIds_server ht, ht]
  split
  · exact .fault _
  refine .step _ fun _ => ?_
  refine (writeTable_paged t q).nested (fun h => h.left.left) fun tbl tbl' htable => ?_
  refine .step _ fun assignments => ?_
  refine (wheresClause_paged t q.wheres).nested NoneSkips.right fun wheres wheres' hwheres => ?_
  simp only [Bool.false_eq_true, if_false]
  split
  · exact .step _ fun tail => .pure fun hP => by rw [htable hP, hwheres hP]
  · exact (joins_paged t q.joins).nested (fun h => h.left.right) fun joins joins' hjoins =>
      .pure fun hP => by rw [htable hP, hwheres hP, hjoins hP]

/-- Nor does a delete. -/
theorem delete_paged (q : Query) :
    Alike (SameIf (NoneSkips q.writtenQueries)) ((t.paged true).delete q)
      ((t.paged false).delete q) := by
  unfold Target.delete
  simp only [checkWrite_paged, writeTop_paged, writeOrder_paged, usesRowIds_server ht]
  refine .step _ fun _ => ?_
  refine (writeTable_paged t q).nested (fun h => h.left.left) fun tbl tbl' htable => ?_
  refine (wheresClause_paged t q.wheres).nested NoneSkips.right fun wheres wheres' hwheres => ?_
  simp only [Bool.false_eq_true, if_false]
  split
  · exact .step _ fun tail => .pure fun hP => by rw [htable hP, hwheres hP]
  · exact (joins_paged t q.joins).nested (fun h => h.left.right) fun joins joins' hjoins =>
      .pure fun hP => by rw [htable hP, hwheres hP, hjoins hP]

/-- Assigned values stand among buckets that row numbers leave alone. -/
theorem updateBindings_paged (q : Query) (row : Row) :
    SameValues (NoneSkips q.writtenQueries)
      ((t.paged true).updateBindings q ((t.paged true).buckets q) row)
      ((t.paged false).updateBindings q ((t.paged false).buckets q) row) := by
  simp only [updateBindings, dialect_paged, assignedValues_paged, ht, Buckets.around]
  split
  · exact ((written_paged t q _ (by decide)).append (.refl _)).append
      (written_paged t q _ (by decide))
  · exact ((written_paged t q _ (by decide)).append (.refl _)).append
      (written_paged t q _ (by decide))

/-- A delete binds those buckets and nothing else. -/
theorem deleteBindings_paged (q : Query) :
    SameValues (NoneSkips q.writtenQueries)
      ((t.paged true).deleteBindings q ((t.paged true).buckets q))
      ((t.paged false).deleteBindings q ((t.paged false).buckets q)) := by
  simp only [deleteBindings, dialect_paged, ht]
  exact written_paged t q _ (by decide)

theorem hasRowsBindings_paged (q : Query) :
    SameValues (NoneSkips (probe q).queries) ((t.paged true).hasRowsBindings q)
      ((t.paged false).hasRowsBindings q) := by
  simp only [hasRowsBindings, dialect_paged, ht]
  exact selectBindings_paged t (probe q)

/-- A statement for SQL Server with row numbers and with offsets. -/
theorem compile_paged (q : Query) (s : Statement) :
    Alike (SameStatements (NoneSkips (s.queries q))) ((t.paged true).compile q s)
      ((t.paged false).compile q s) := by
  -- an insert of its own, or an upsert that assigns nothing
  have hinsert (rows : Rows) : Alike (SameStatements (NoneSkips (sourceQueries q.source)))
      (do return [← (t.paged true).compileInsert q rows])
      (do return [← (t.paged false).compileInsert q rows]) := by
    unfold compileInsert
    simpa using gathered_same (insert_paged t q rows) (insertBindings rows)
  cases s with
  | select => exact pairs_same (select_paged t q) (selectBindings_paged t q)
  | hasRows => exact pairs_same (hasRows_paged ht q) (hasRowsBindings_paged ht q)
  | insert rows => exact hinsert rows
  | insertOrIgnore rows =>
    simp only [compile, insertOrIgnore, dialect_paged, ht]
    exact .fault _
  | insertGetId rows key =>
    simp only [compile, insertGetId, dialect_paged, ht]
    exact gathered_same (insert_paged t q rows) _
  | insertUsing columns rows =>
    exact pairs_same (insertUsing_paged t q rows columns)
      ((selectBindings_paged t rows).weaken NoneSkips.right)
  | upsert rows uniqueBy update =>
    simp only [compile, upsert, dialect_paged, ht, mergeUpsert_paged]
    split
    · exact hinsert rows
    · exact .refl (fun _ => .refl _) _
  | update row => exact pairs_same (update_paged ht q row) (updateBindings_paged ht q row)
  | delete => exact pairs_same (delete_paged ht q) (deleteBindings_paged ht q)
  | truncate =>
    simp only [compile, truncate, dialect_paged, ht]
    exact (writeTable_paged t q).bind fun tbl tbl' htable =>
      .pure (sameStatements_pair (fun hP => by rw [htable hP]) (.refl _))

/-- Row numbers and offsets are the same compilation up to layout. One reports a fault exactly if
the other one does, and the same fault; both bind the same values, but for their order; and without
a select that skips rows there is no difference. -/
theorem compile_rowNumbers (q : Query) (s : Statement) :
    Alike (List.Forall₂ fun c c' => c.bindings.Perm c'.bindings)
      ((t.paged true).compile q s) ((t.paged false).compile q s) ∧
    ((∀ r ∈ s.selects q, ¬r.SkipsRows) →
      (t.paged true).compile q s = (t.paged false).compile q s) := by
  have hsame := compile_paged ht q s
  refine ⟨hsame.mono fun _ _ h => h.bindings, fun hskips => ?_⟩
  have hnone : NoneSkips (s.queries q) := fun r hr => hskips _ (List.mem_map_of_mem hr)
  exact (hsame.mono fun _ _ h => h.same hnone).eq

end Server

/-- A page of the visits of a visitor, in the order of their distance to a count. -/
def pagedVisits (visitor : Value) : Query :=
  { Query.empty with
    source := some (.named "visits")
    wheres := [⟨.and, .compare (.named "visitor") "=" visitor⟩]
    orders := [.raw "abs(hits - ?)" [.int 5]]
    limit := some 10
    offset := some 20 }

/-- Row numbers bind the order of a page in front of its conditions, and a count of the rows does
not number them. -/
theorem compile_pagedVisits :
    let t := rowNumberServer
    let page := pagedVisits (.text "ann")
    let count := { page with aggregate := some ⟨"count", [.named "*"]⟩ }
    t.dialect = .sqlserver ∧
    (t.paged true).selectBindings page = [.int 5, .text "ann"] ∧
    (t.paged false).selectBindings page = [.text "ann", .int 5] ∧
    (∃ out, (t.paged true).compile page .select = .ok out) ∧
    Alike (List.Forall₂ fun c c' => c.bindings.Perm c'.bindings)
      ((t.paged true).compile page .select) ((t.paged false).compile page .select) ∧
    (t.paged true).compile count .select = (t.paged false).compile count .select :=
  ⟨rfl, rfl, rfl, ⟨_, rfl⟩, (compile_rowNumbers rfl _ _).1,
    (compile_rowNumbers rfl _ _).2 (by decide)⟩

end SqlCompiler
