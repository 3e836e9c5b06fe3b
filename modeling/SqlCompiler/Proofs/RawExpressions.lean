import SqlCompiler.Compile
import Mathlib.Data.List.Forall2

/-!
# Raw Expressions in Other Words

Two queries, or two statements, that differ at most in the SQL of the raw expressions among their
values: in conditions on rows and on groups at any depth, in the rows of inserts and upserts, and in
assignments. Raw SQL that is no value, such as a raw column, is the same in both, with what it
binds.

## Main definitions

- `Value.Reworded`, `Query.Reworded`, `Statement.Reworded`: what differs at most in raw expressions
- `rawTexts`: the SQL of the raw expressions among values
- `Query.markers`: the raw expressions of a query, in the order of its clauses
- `Statement.markers`: the raw expressions of a statement, in the order in which it is written

## Main statements

- `bound_reworded`: what is bound of values does not depend on raw expressions
- `Rows.Reworded.columns?`, `Rows.Reworded.valuesIn`: the rows of an insert
-/

namespace SqlCompiler

/-! ## §1 Values -/

/-- Values that differ at most in the SQL of a raw expression. -/
inductive Value.Reworded : Value → Value → Prop
  | same (v : Value) : Reworded v v
  | raw (sql sql' : String) : Reworded (.raw sql) (.raw sql')

/-- Values that differ at most in raw expressions, one by one. -/
abbrev ValuesReworded : List Value → List Value → Prop :=
  List.Forall₂ Value.Reworded

/-- The SQL of the raw expressions among values. -/
def rawTexts (values : List Value) : List String :=
  values.filterMap Value.raw?

@[simp] theorem rawTexts_nil : rawTexts [] = [] := rfl

/-- Raw expressions stand in the order of their values. -/
@[simp] theorem rawTexts_append (vs ws : List Value) :
    rawTexts (vs ++ ws) = rawTexts vs ++ rawTexts ws :=
  List.filterMap_append

/-- The raw expressions of a first value come first. -/
theorem rawTexts_cons (v : Value) (vs : List Value) :
    rawTexts (v :: vs) = rawTexts [v] ++ rawTexts vs :=
  rawTexts_append [v] vs

namespace Value.Reworded

variable {v w : Value}

/-- An exchange keeps raw expressions raw and bound values bound. -/
theorem isRaw (h : v.Reworded w) : v.isRaw = w.isRaw := by
  cases h <;> rfl

/-- Other words make a difference to raw expressions alone. -/
theorem eq_of_not_raw (h : v.Reworded w) (hv : v.isRaw = false) : v = w := by
  cases h with
  | same => rfl
  | raw => cases hv

/-- Raw expressions are never bound, so nothing else is bound after an exchange. -/
theorem bound (h : v.Reworded w) : SqlCompiler.bound [v] = SqlCompiler.bound [w] := by
  cases h <;> rfl

/-- What is bound for a value, where something else is bound in its place. -/
theorem bound_map {f : Value → Value} (h : v.Reworded w) (hf : ∀ v, (f v).isRaw = v.isRaw) :
    SqlCompiler.bound [f v] = SqlCompiler.bound [f w] := by
  cases h with
  | same => rfl
  | raw sql sql' =>
    have hraw (sql : String) : (f (.raw sql)).isRaw = true := hf _
    rw [bound_singleton, bound_singleton, if_pos (hraw sql), if_pos (hraw sql')]

/-- A raw expression is no document, whatever its text. -/
theorem isContainer (h : v.Reworded w) : v.isContainer = w.isContainer := by
  cases h <;> rfl

end Value.Reworded

/-- What is bound of values does not depend on raw expressions. -/
theorem bound_reworded {vs ws : List Value} (h : ValuesReworded vs ws) : bound vs = bound ws := by
  induction h with
  | nil => rfl
  | cons hv _ ih => rw [bound_cons, hv.bound, ih, ← bound_cons]

/-! ## §2 Conditions on groups -/

mutual

/-- Conditions on groups that differ at most in raw expressions. -/
inductive HavingPredicate.Reworded : HavingPredicate → HavingPredicate → Prop
  | raw (sql bindings) : HavingPredicate.Reworded (.raw sql bindings) (.raw sql bindings)
  | compare (c operator) {v w} (h : Value.Reworded v w) :
    HavingPredicate.Reworded (.compare c operator v) (.compare c operator w)
  | between (c negated) {low low' high high'} (hlow : Value.Reworded low low')
    (hhigh : Value.Reworded high high') :
    HavingPredicate.Reworded (.between c low high negated) (.between c low' high' negated)
  | isNull (c) : HavingPredicate.Reworded (.isNull c) (.isNull c)
  | isNotNull (c) : HavingPredicate.Reworded (.isNotNull c) (.isNotNull c)
  | bitwise (c operator) {v w} (h : Value.Reworded v w) :
    HavingPredicate.Reworded (.bitwise c operator v) (.bitwise c operator w)
  | expression (sql) : HavingPredicate.Reworded (.expression sql) (.expression sql)
  | group {clauses clauses'} (h : HavingsReworded clauses clauses') :
    HavingPredicate.Reworded (.group clauses) (.group clauses')

/-- Conditions on groups, one by one, that differ at most in raw expressions. -/
inductive HavingsReworded : List (Clause HavingPredicate) → List (Clause HavingPredicate) → Prop
  | nil : HavingsReworded [] []
  | cons (connective) {p p' rest rest'} (h : HavingPredicate.Reworded p p')
    (hrest : HavingsReworded rest rest') :
    HavingsReworded (⟨connective, p⟩ :: rest) (⟨connective, p'⟩ :: rest')

end

mutual

/-- The raw expressions of a condition on groups. -/
def HavingPredicate.markers : HavingPredicate → List String
  | .compare _ _ v => rawTexts [v]
  | .between _ low high _ => rawTexts [low] ++ rawTexts [high]
  | .bitwise _ _ v => rawTexts [v]
  | .group clauses => havingMarkers clauses
  | _ => []

/-- The raw expressions of conditions on groups. -/
def havingMarkers : List (Clause HavingPredicate) → List String
  | [] => []
  | ⟨_, node⟩ :: rest => node.markers ++ havingMarkers rest

end

/-! ## §3 Queries -/

mutual

/-- Tables that differ at most in raw expressions. -/
inductive Table.Reworded : Table → Table → Prop
  | named (name) : Table.Reworded (.named name) (.named name)
  | raw (sql bindings) : Table.Reworded (.raw sql bindings) (.raw sql bindings)
  | derived (asName) {q q'} (h : Query.Reworded q q') :
    Table.Reworded (.derived q asName) (.derived q' asName)

/-- Tables of queries that differ at most in raw expressions. -/
inductive SourceReworded : Option Table → Option Table → Prop
  | none : SourceReworded none none
  | some {tbl tbl'} (h : Table.Reworded tbl tbl') : SourceReworded (some tbl) (some tbl')

/-- Joined tables that differ at most in raw expressions. -/
inductive Join.Reworded : Join → Join → Prop
  | mk (kind lateral) {tbl tbl' on on' joins joins'} (htable : Table.Reworded tbl tbl')
    (hon : ClausesReworded on on') (hjoins : JoinsReworded joins joins') :
    Join.Reworded ⟨kind, tbl, on, joins, lateral⟩ ⟨kind, tbl', on', joins', lateral⟩

/-- Lists of joined tables that differ, one by one, at most in raw expressions. -/
inductive JoinsReworded : List Join → List Join → Prop
  | nil : JoinsReworded [] []
  | cons {j j' rest rest'} (h : Join.Reworded j j') (hrest : JoinsReworded rest rest') :
    JoinsReworded (j :: rest) (j' :: rest')

/-- Branches of a union that differ, one by one, at most in raw expressions. -/
inductive BranchesReworded : List UnionBranch → List UnionBranch → Prop
  | nil : BranchesReworded [] []
  | cons (all) {q q' rest rest'} (h : Query.Reworded q q') (hrest : BranchesReworded rest rest') :
    BranchesReworded (⟨q, all⟩ :: rest) (⟨q', all⟩ :: rest')

/-- Conditions on rows that differ at most in raw expressions. -/
inductive Predicate.Reworded : Predicate → Predicate → Prop
  | raw (sql bindings) : Predicate.Reworded (.raw sql bindings) (.raw sql bindings)
  | compare (c operator) {v w} (h : Value.Reworded v w) :
    Predicate.Reworded (.compare c operator v) (.compare c operator w)
  | bitwise (c operator) {v w} (h : Value.Reworded v w) :
    Predicate.Reworded (.bitwise c operator v) (.bitwise c operator w)
  | jsonBoolean (c operator value) :
    Predicate.Reworded (.jsonBoolean c operator value) (.jsonBoolean c operator value)
  | like (c caseSensitive negated) {v w} (h : Value.Reworded v w) :
    Predicate.Reworded (.like c v caseSensitive negated) (.like c w caseSensitive negated)
  | between (c negated) {low low' high high'} (hlow : Value.Reworded low low')
    (hhigh : Value.Reworded high high') :
    Predicate.Reworded (.between c low high negated) (.between c low' high' negated)
  | betweenColumns (c low high negated) :
    Predicate.Reworded (.betweenColumns c low high negated) (.betweenColumns c low high negated)
  | inList (c negated) {vs ws} (h : ValuesReworded vs ws) :
    Predicate.Reworded (.inList c vs negated) (.inList c ws negated)
  | inQuery (c negated) {q q'} (h : Query.Reworded q q') :
    Predicate.Reworded (.inQuery c q negated) (.inQuery c q' negated)
  | inIntegers (c values negated) :
    Predicate.Reworded (.inIntegers c values negated) (.inIntegers c values negated)
  | isNull (c) : Predicate.Reworded (.isNull c) (.isNull c)
  | isNotNull (c) : Predicate.Reworded (.isNotNull c) (.isNotNull c)
  | datePart (part c operator) {v w} (h : Value.Reworded v w) :
    Predicate.Reworded (.datePart part c operator v) (.datePart part c operator w)
  | group {clauses clauses'} (h : ClausesReworded clauses clauses') :
    Predicate.Reworded (.group clauses) (.group clauses')
  | hasRows (negated) {q q'} (h : Query.Reworded q q') :
    Predicate.Reworded (.hasRows q negated) (.hasRows q' negated)
  | compareQuery (c operator) {q q'} (h : Query.Reworded q q') :
    Predicate.Reworded (.compareQuery c operator q) (.compareQuery c operator q')
  | compareColumns (first operator second) :
    Predicate.Reworded (.compareColumns first operator second)
      (.compareColumns first operator second)
  | rowValues (columns operator) {vs ws} (h : ValuesReworded vs ws) :
    Predicate.Reworded (.rowValues columns operator vs) (.rowValues columns operator ws)
  | jsonContains (c negated) {v w} (h : Value.Reworded v w) :
    Predicate.Reworded (.jsonContains c v negated) (.jsonContains c w negated)
  | jsonContainsKey (c negated) :
    Predicate.Reworded (.jsonContainsKey c negated) (.jsonContainsKey c negated)
  | jsonLength (c operator) {v w} (h : Value.Reworded v w) :
    Predicate.Reworded (.jsonLength c operator v) (.jsonLength c operator w)
  | fullText (columns options) {v w} (h : Value.Reworded v w) :
    Predicate.Reworded (.fullText columns v options) (.fullText columns w options)

/-- Conditions on rows, one by one, that differ at most in raw expressions. -/
inductive ClausesReworded : List (Clause Predicate) → List (Clause Predicate) → Prop
  | nil : ClausesReworded [] []
  | cons (connective) {p p' rest rest'} (h : Predicate.Reworded p p')
    (hrest : ClausesReworded rest rest') :
    ClausesReworded (⟨connective, p⟩ :: rest) (⟨connective, p'⟩ :: rest')

/-- Queries that differ at most in raw expressions. -/
inductive Query.Reworded : Query → Query → Prop
  | mk (columns distinct aggregate groups orders limit offset lock unionOrders unionLimit
      unionOffset) {source source' joins joins' wheres wheres' havings havings' unions unions'}
    (hsource : SourceReworded source source') (hjoins : JoinsReworded joins joins')
    (hwheres : ClausesReworded wheres wheres') (hhavings : HavingsReworded havings havings')
    (hunions : BranchesReworded unions unions') :
    Query.Reworded
      ⟨source, columns, distinct, aggregate, joins, wheres, groups, havings, orders, limit, offset,
        lock, unions, unionOrders, unionLimit, unionOffset⟩
      ⟨source', columns, distinct, aggregate, joins', wheres', groups, havings', orders, limit,
        offset, lock, unions', unionOrders, unionLimit, unionOffset⟩

end

/-- An exchange keeps the number of clauses, and with it whether there are any. -/
theorem HavingsReworded.isEmpty {clauses clauses' : List (Clause HavingPredicate)}
    (h : HavingsReworded clauses clauses') : clauses.isEmpty = clauses'.isEmpty := by
  cases h <;> rfl

theorem JoinsReworded.isEmpty {joins joins' : List Join} (h : JoinsReworded joins joins') :
    joins.isEmpty = joins'.isEmpty := by
  cases h <;> rfl

theorem BranchesReworded.isEmpty {branches branches' : List UnionBranch}
    (h : BranchesReworded branches branches') : branches.isEmpty = branches'.isEmpty := by
  cases h <;> rfl

theorem ClausesReworded.isEmpty {clauses clauses' : List (Clause Predicate)}
    (h : ClausesReworded clauses clauses') : clauses.isEmpty = clauses'.isEmpty := by
  cases h <;> rfl

namespace Query.Reworded

variable {q q' : Query}

/-- The tables of two such queries; the lemmas below do the same for the other nested parts. -/
theorem source (h : q.Reworded q') : SourceReworded q.source q'.source := by
  cases h
  assumption

theorem joins (h : q.Reworded q') : JoinsReworded q.joins q'.joins := by
  cases h
  assumption

theorem wheres (h : q.Reworded q') : ClausesReworded q.wheres q'.wheres := by
  cases h
  assumption

theorem havings (h : q.Reworded q') : HavingsReworded q.havings q'.havings := by
  cases h
  assumption

theorem unions (h : q.Reworded q') : BranchesReworded q.unions q'.unions := by
  cases h
  assumption

/-- What has no raw expressions among its values is the same in both queries. -/
theorem eq_with (h : q.Reworded q') :
    q' = { q with
      source := q'.source
      joins := q'.joins
      wheres := q'.wheres
      havings := q'.havings
      unions := q'.unions } := by
  cases h
  rfl

/-- Another order and offset for both queries. -/
theorem withPage (h : q.Reworded q') (orders : List SortKey) (offset : Option UInt64) :
    Query.Reworded { q with orders := orders, offset := offset }
      { q' with orders := orders, offset := offset } := by
  cases h with
  | mk _ _ _ _ _ _ _ _ _ _ _ hsource hjoins hwheres hhavings hunions =>
    exact .mk _ _ _ _ _ _ _ _ _ _ _ hsource hjoins hwheres hhavings hunions

end Query.Reworded

/-- A derived table stays derived. -/
theorem Table.Reworded.isDerived {tbl tbl' : Table} (h : tbl.Reworded tbl') :
    tbl.isDerived = tbl'.isDerived := by
  cases h <;> rfl

mutual

/-- The raw expressions of a table. -/
def Table.markers : Table → List String
  | .derived query _ => query.markers
  | _ => []

/-- The raw expressions of the table of a query. -/
def sourceMarkers : Option Table → List String
  | none => []
  | some tbl => tbl.markers

/-- The raw expressions of a joined table. -/
def Join.markers : Join → List String
  | ⟨_, tbl, on, joins, _⟩ => tbl.markers ++ joinsMarkers joins ++ clauseMarkers on

/-- The raw expressions of joined tables. -/
def joinsMarkers : List Join → List String
  | [] => []
  | j :: rest => j.markers ++ joinsMarkers rest

/-- The raw expressions of the branches of a union. -/
def branchMarkers : List UnionBranch → List String
  | [] => []
  | ⟨query, _⟩ :: rest => query.markers ++ branchMarkers rest

/-- The raw expressions of a condition on rows. -/
def Predicate.markers : Predicate → List String
  | .compare _ _ v => rawTexts [v]
  | .bitwise _ _ v => rawTexts [v]
  | .like _ pattern _ _ => rawTexts [pattern]
  | .between _ low high _ => rawTexts [low] ++ rawTexts [high]
  | .inList _ values _ => rawTexts values
  | .inQuery _ query _ => query.markers
  | .datePart _ _ _ v => rawTexts [v]
  | .group inner => clauseMarkers inner
  | .hasRows query _ => query.markers
  | .compareQuery _ _ query => query.markers
  | .rowValues _ _ values => rawTexts values
  | .jsonContains _ v _ => rawTexts [v]
  | .jsonLength _ _ v => rawTexts [v]
  | .fullText _ v _ => rawTexts [v]
  | _ => []

/-- The raw expressions of conditions on rows. -/
def clauseMarkers : List (Clause Predicate) → List String
  | [] => []
  | ⟨_, node⟩ :: rest => node.markers ++ clauseMarkers rest

/-- The raw expressions of a query, in the order of its clauses. -/
def Query.markers : Query → List String
  | ⟨src, _, _, _, joins, wheres, _, havings, _, _, _, _, unions, _, _, _⟩ =>
    sourceMarkers src ++ joinsMarkers joins ++ clauseMarkers wheres ++ havingMarkers havings ++
      branchMarkers unions

end

/-- The raw expressions of a query, clause by clause in the order in which they are written. -/
theorem Query.markers_eq (q : Query) :
    q.markers = sourceMarkers q.source ++ joinsMarkers q.joins ++ clauseMarkers q.wheres ++
      havingMarkers q.havings ++ branchMarkers q.unions := by
  cases q
  rfl

/-- Where there are no joined tables there are no raw expressions. -/
theorem JoinsReworded.nothing {joins joins' : List Join} (h : JoinsReworded joins joins')
    (hnone : joins'.isEmpty = true) : joinsMarkers joins = [] ∧ joinsMarkers joins' = [] := by
  cases h with
  | nil => exact ⟨rfl, rfl⟩
  | cons => cases hnone

/-- Without branches there are no raw expressions in either query. -/
theorem BranchesReworded.nothing {branches branches' : List UnionBranch}
    (h : BranchesReworded branches branches') (hnone : branches'.isEmpty = true) :
    branchMarkers branches = [] ∧ branchMarkers branches' = [] := by
  cases h with
  | nil => exact ⟨rfl, rfl⟩
  | cons => cases hnone

/-- Without conditions there are no raw expressions in either query. -/
theorem ClausesReworded.nothing {clauses clauses' : List (Clause Predicate)}
    (h : ClausesReworded clauses clauses') (hnone : clauses'.isEmpty = true) :
    clauseMarkers clauses = [] ∧ clauseMarkers clauses' = [] := by
  cases h with
  | nil => exact ⟨rfl, rfl⟩
  | cons => cases hnone

/-! ## §4 Rows -/

/-- Entries of the same column that differ at most in a raw expression. -/
inductive EntryReworded : String × Value → String × Value → Prop
  | mk (column : String) {v w : Value} (h : v.Reworded w) : EntryReworded (column, v) (column, w)

/-- Rows that differ at most in raw expressions. -/
def Row.Reworded (row row' : Row) : Prop :=
  List.Forall₂ EntryReworded row.entries row'.entries

/-- The rows of two inserts that differ at most in raw expressions. -/
inductive Rows.Reworded : Rows → Rows → Prop
  | single {row row' : Row} (h : row.Reworded row') : Reworded (.single row) (.single row')
  | batch {rows rows' : List Row} (h : List.Forall₂ Row.Reworded rows rows') :
    Reworded (.batch rows) (.batch rows')

/-- Assignments of an upsert that differ at most in raw expressions. -/
inductive UpsertColumn.Reworded : UpsertColumn → UpsertColumn → Prop
  | incoming (column : String) : Reworded (.incoming column) (.incoming column)
  | value (column : String) {v w : Value} (h : v.Reworded w) :
    Reworded (.value column v) (.value column w)

namespace Row.Reworded

variable {row row' : Row}

/-- An exchange touches values only, so the columns of a row stay. -/
theorem columns (h : row.Reworded row') : row.columns = row'.columns := by
  obtain ⟨entries⟩ := row
  obtain ⟨entries'⟩ := row'
  dsimp only [Row.Reworded, Row.columns] at h ⊢
  induction h with
  | nil => rfl
  | cons he _ ih =>
    cases he
    rw [List.map_cons, List.map_cons, ih]

theorem isEmpty (h : row.Reworded row') : row.isEmpty = row'.isEmpty := by
  have hcolumns := congrArg List.isEmpty h.columns
  simpa [Row.columns, Row.isEmpty] using hcolumns

/-- The first value of a column differs at most in a raw expression. -/
theorem get? (h : row.Reworded row') (column : String) :
    Option.Rel Value.Reworded (row.get? column) (row'.get? column) := by
  obtain ⟨entries⟩ := row
  obtain ⟨entries'⟩ := row'
  dsimp only [Row.Reworded, Row.get?] at h ⊢
  induction h with
  | nil => exact .none
  | cons he _ ih =>
    obtain ⟨key, hv⟩ := he
    by_cases hkey : key = column
    · simpa [hkey] using hv
    · simpa [hkey] using ih

/-- Whether a row has exactly given columns is not a matter of raw expressions. -/
theorem hasColumns (h : row.Reworded row') (columns : List String) :
    row.hasColumns columns = row'.hasColumns columns := by
  -- the test reads how many columns there are and which of them are found
  have hsize : row.size = row'.size := List.Forall₂.length_eq h
  have hfound (column : String) : (row.get? column).isSome = (row'.get? column).isSome := by
    have hget := h.get? column
    cases hv : row.get? column <;> cases hw : row'.get? column <;> simp_all
  simp only [Row.hasColumns, hsize, hfound]

/-- The values of given columns, in their order, differ at most in raw expressions. -/
theorem valuesIn (h : row.Reworded row') (columns : List String) :
    ValuesReworded (row.valuesIn columns) (row'.valuesIn columns) := by
  unfold Row.valuesIn
  induction columns with
  | nil => exact .nil
  | cons column rest ih =>
    have hget := h.get? column
    -- a column is missing from both rows or from neither of them
    cases hv : row.get? column <;> cases hw : row'.get? column <;> rw [hv, hw] at hget <;>
      cases hget
    · rw [List.filterMap_cons_none hv, List.filterMap_cons_none hw]
      exact ih
    · rw [List.filterMap_cons_some hv, List.filterMap_cons_some hw]
      exact .cons ‹_› ih

end Row.Reworded

namespace Rows.Reworded

variable {rows rows' : Rows}

/-- The rows of an insert differ one by one. -/
theorem toList (h : rows.Reworded rows') : List.Forall₂ Row.Reworded rows.toList rows'.toList := by
  cases h with
  | single h => exact .cons h .nil
  | batch h => exact h

theorem isEmpty (h : rows.Reworded rows') : rows.isEmpty = rows'.isEmpty := by
  have hrows := h.toList
  unfold Rows.isEmpty
  generalize rows.toList = xs at hrows
  generalize rows'.toList = ys at hrows
  induction hrows with
  | nil => rfl
  | cons hrow _ ih => rw [List.all_cons, List.all_cons, hrow.isEmpty, ih]

/-- Whether rows share their columns is no matter of values. -/
theorem columns? (h : rows.Reworded rows') : rows.columns? = rows'.columns? := by
  -- the columns of the first row are asked of every row
  have hall (columns : List String) {xs ys : List Row} (hrows : List.Forall₂ Row.Reworded xs ys) :
      (xs.all fun row => row.hasColumns columns) = ys.all fun row => row.hasColumns columns := by
    induction hrows with
    | nil => rfl
    | cons hrow _ ih => rw [List.all_cons, List.all_cons, hrow.hasColumns, ih]
  have hrows := h.toList
  unfold Rows.columns?
  generalize rows.toList = xs at hrows
  generalize rows'.toList = ys at hrows
  cases hrows with
  | nil => rfl
  | @cons first first' rest rest' hfirst hrest =>
    simp only [hfirst.columns, hall _ (.cons hfirst hrest)]

/-- The values of a batch, row after row. -/
theorem valuesIn (h : rows.Reworded rows') (columns : List String) :
    ValuesReworded (rows.valuesIn columns) (rows'.valuesIn columns) := by
  have hrows := h.toList
  unfold Rows.valuesIn
  generalize rows.toList = xs at hrows
  generalize rows'.toList = ys at hrows
  induction hrows with
  | nil => exact .nil
  | cons hrow _ ih =>
    rw [List.flatMap_cons, List.flatMap_cons]
    exact List.rel_append (hrow.valuesIn columns) ih

end Rows.Reworded

/-! ## §5 Statements -/

/-- Statements that differ at most in raw expressions. -/
inductive Statement.Reworded : Statement → Statement → Prop
  | select : Reworded .select .select
  | hasRows : Reworded .hasRows .hasRows
  | insert {rows rows' : Rows} (h : rows.Reworded rows') : Reworded (.insert rows) (.insert rows')
  | insertOrIgnore {rows rows' : Rows} (h : rows.Reworded rows') :
    Reworded (.insertOrIgnore rows) (.insertOrIgnore rows')
  | insertGetId (key : Option String) {rows rows' : Rows} (h : rows.Reworded rows') :
    Reworded (.insertGetId rows key) (.insertGetId rows' key)
  | insertUsing (columns : List Column) {rows rows' : Query} (h : rows.Reworded rows') :
    Reworded (.insertUsing columns rows) (.insertUsing columns rows')
  | upsert (uniqueBy : List String) {rows rows' : Rows} {update update' : List UpsertColumn}
    (h : rows.Reworded rows') (hupdate : List.Forall₂ UpsertColumn.Reworded update update') :
    Reworded (.upsert rows uniqueBy update) (.upsert rows' uniqueBy update')
  | update {row row' : Row} (h : row.Reworded row') : Reworded (.update row) (.update row')
  | delete : Reworded .delete .delete
  | truncate : Reworded .truncate .truncate

/-- The raw expressions of rows, in the order in which an insert writes them. -/
def Rows.markers (rows : Rows) : List String :=
  match rows.columns? with
  | .ok columns => rawTexts (rows.valuesIn columns)
  | .error _ => []

/-- The raw expressions that an update writes. SQLite merges the values of JSON assignments into
documents, where a raw expression is a JSON string. -/
def Target.assignedMarkers (t : Target) (row : Row) : List String :=
  match t.dialect with
  | .sqlite => rawTexts ((row.entries.filter fun (key, _) => !isSelector key).map Prod.snd)
  | _ => rawTexts row.values

/-- The raw expressions of a statement, in the order in which it is written. An update of joined
tables in SQL Server names its tables behind the assignments. -/
def Statement.markers (t : Target) (q : Query) : Statement → List String
  | .select | .hasRows => q.markers
  | .insert rows | .insertOrIgnore rows | .insertGetId rows _ =>
    sourceMarkers q.source ++ rows.markers
  | .insertUsing _ rows => sourceMarkers q.source ++ rows.markers
  | .upsert rows _ columns =>
    sourceMarkers q.source ++ rows.markers ++ rawTexts (columns.filterMap UpsertColumn.value?)
  | .update row =>
    if t.usesRowIds q then sourceMarkers q.source ++ t.assignedMarkers row ++ q.markers
    else if t.dialect = .sqlserver ∧ q.joins ≠ [] then
      t.assignedMarkers row ++ sourceMarkers q.source ++ joinsMarkers q.joins ++
        clauseMarkers q.wheres
    else
      sourceMarkers q.source ++ joinsMarkers q.joins ++ t.assignedMarkers row ++
        clauseMarkers q.wheres
  | .delete =>
    if t.usesRowIds q then sourceMarkers q.source ++ q.markers
    else sourceMarkers q.source ++ joinsMarkers q.joins ++ clauseMarkers q.wheres
  | .truncate => sourceMarkers q.source

/-- The documents that an update of SQLite merges into columns. -/
def Statement.patches : Statement → List (String × Json)
  | .update row => documentPatches row
  | _ => []

end SqlCompiler
