import Mathlib.Algebra.GroupWithZero.Nat
import SqlCompiler.Proofs.NestedQueries
import SqlCompiler.Proofs.Placeholders

/-!
# Given Texts and Operators

What a query is given for its text, from left to right: names, SQL that stands in the text as it is,
and operators. A dialect doubles the question marks of some operators and leaves others as they are,
by the kind of the condition that they stand in.

## Main definitions

- `Given`: a text or an operator that is given for a query
- `Target.queryGiven`, `Target.predicateGiven`, `HavingPredicate.given`: all of them, at any depth
- `PlainTexts`: the texts among them have no question marks and bind nothing
- `operatorMarks`: the placeholders that come from the operators among them

## Main statements

- `mirrored_of_plain`: queries of plain texts are collected exactly where they are written
-/

namespace SqlCompiler

/-! ## §1 Texts and operators -/

/-- What is given for the text of a query. -/
inductive Given where
  /-- A name, or SQL that stands in the text as it is, with the values that it binds. -/
  | text (sql : String) (bindings : List Value)
  /-- An operator whose question marks are doubled. -/
  | escaped (operator : String)
  /-- An operator that stands in the text as it is. -/
  | verbatim (operator : String)

/-- The placeholders that an operator brings with it. -/
def Given.marks : Given → Nat
  | .verbatim operator => placeholders operator
  | .text _ _ | .escaped _ => 0

/-- The placeholders that operators bring with them. -/
def operatorMarks (given : List Given) : Nat :=
  (given.map Given.marks).sum

/-- A text without question marks that binds nothing; operators are of any kind. -/
def Given.Plain : Given → Prop
  | .text sql bindings => Unmarked sql ∧ bound bindings = []
  | .escaped _ | .verbatim _ => True

instance : DecidablePred Given.Plain
  | .text sql bindings => inferInstanceAs (Decidable (Unmarked sql ∧ bound bindings = []))
  | .escaped _ | .verbatim _ => inferInstanceAs (Decidable True)

/-- All texts are plain. -/
def PlainTexts (given : List Given) : Prop :=
  ∀ g ∈ given, g.Plain

instance (given : List Given) : Decidable (PlainTexts given) :=
  inferInstanceAs (Decidable (∀ g ∈ given, _))

section Lists

variable {g : Given} {gs hs : List Given}

@[simp] theorem operatorMarks_nil : operatorMarks [] = 0 := rfl

@[simp] theorem operatorMarks_cons : operatorMarks (g :: gs) = g.marks + operatorMarks gs := rfl

/-- The marks of operators add up. -/
@[simp] theorem operatorMarks_append :
    operatorMarks (gs ++ hs) = operatorMarks gs + operatorMarks hs := by
  rw [operatorMarks, List.map_append, List.sum_append]
  rfl

@[simp] theorem plainTexts_nil : PlainTexts [] :=
  fun _ h => absurd h List.not_mem_nil

@[simp] theorem plainTexts_cons : PlainTexts (g :: gs) ↔ g.Plain ∧ PlainTexts gs :=
  List.forall_mem_cons

/-- Texts are plain if both parts are. -/
@[simp] theorem plainTexts_append : PlainTexts (gs ++ hs) ↔ PlainTexts gs ∧ PlainTexts hs :=
  List.forall_mem_append

/-- Texts of several items are plain if those of each item are. -/
theorem plainTexts_flatMap {α : Type} {f : α → List Given} {xs : List α} :
    PlainTexts (xs.flatMap f) ↔ ∀ x ∈ xs, PlainTexts (f x) := by
  simp only [PlainTexts, List.forall_mem_flatMap]

/-- What comes from items without operators has none. -/
theorem operatorMarks_flatMap {α : Type} {f : α → List Given} (h : ∀ x, operatorMarks (f x) = 0)
    (xs : List α) : operatorMarks (xs.flatMap f) = 0 := by
  induction xs with
  | nil => rfl
  | cons x xs ih => rw [List.flatMap_cons, operatorMarks_append, h, ih]

end Lists

/-! ## §2 Values and columns -/

/-- A raw value stands in the text. -/
def Value.given (v : Value) : List Given :=
  v.raw?.toList.map (.text · [])

/-- The texts of raw values. -/
def valueGiven (values : List Value) : List Given :=
  values.flatMap Value.given

/-- The text of a column. -/
def Column.given : Column → List Given
  | .named name => [.text name []]
  | .raw sql bindings => [.text sql bindings]

/-- The texts of columns. -/
def columnGiven (columns : List Column) : List Given :=
  columns.flatMap Column.given

/-- The texts of a sort key. -/
def SortKey.given : SortKey → List Given
  | .column c _ => c.given
  | .raw sql bindings => [.text sql bindings]
  | .random seed => seed.toList.map (.text · [])

/-- The texts of sort keys. -/
def orderGiven (orders : List SortKey) : List Given :=
  orders.flatMap SortKey.given

/-- The texts of an aggregate. -/
def Aggregate.given (aggregate : Aggregate) : List Given :=
  .text aggregate.function [] :: columnGiven aggregate.columns

/-- The text of a lock. -/
def Lock.given : Lock → List Given
  | .raw sql => [.text sql []]
  | .shared | .exclusive => []

/-- Only conditions have operators; values have none. -/
@[simp] theorem operatorMarks_value (v : Value) : operatorMarks v.given = 0 := by
  cases v <;> rfl

@[simp] theorem operatorMarks_values (values : List Value) :
    operatorMarks (valueGiven values) = 0 :=
  operatorMarks_flatMap operatorMarks_value values

/-- A column has no operators, and in the same way an order, an aggregate and a lock. -/
@[simp] theorem operatorMarks_column (c : Column) : operatorMarks c.given = 0 := by
  cases c <;> rfl

@[simp] theorem operatorMarks_columns (columns : List Column) :
    operatorMarks (columnGiven columns) = 0 :=
  operatorMarks_flatMap operatorMarks_column columns

@[simp] theorem operatorMarks_orders (orders : List SortKey) :
    operatorMarks (orderGiven orders) = 0 := by
  refine operatorMarks_flatMap (fun key => ?_) orders
  cases key with
  | column c _ => exact operatorMarks_column c
  | raw _ _ => rfl
  | random seed => cases seed <;> rfl

@[simp] theorem operatorMarks_aggregate (aggregate : Option Aggregate) :
    operatorMarks (aggregate.elim [] Aggregate.given) = 0 := by
  cases aggregate with
  | none => rfl
  | some aggregate => exact (Nat.zero_add _).trans (operatorMarks_columns aggregate.columns)

@[simp] theorem operatorMarks_lock (lock : Option Lock) :
    operatorMarks (lock.elim [] Lock.given) = 0 := by
  rcases lock with _ | (_ | _ | _) <;> rfl

/-! ## §3 Conditions on groups -/

mutual

/-- The texts and operators of a condition on groups. -/
def HavingPredicate.given : HavingPredicate → List Given
  | .raw sql bindings => [.text sql bindings]
  | .expression sql => [.text sql []]
  | .compare c operator value => c.given ++ .verbatim operator :: value.given
  | .between c low high _ => c.given ++ valueGiven [low, high]
  | .isNull c => c.given
  | .isNotNull c => c.given
  | .bitwise c operator value => c.given ++ .verbatim operator :: value.given
  | .group clauses => havingGiven clauses

/-- The texts and operators of conditions on groups. -/
def havingGiven : List (Clause HavingPredicate) → List Given
  | [] => []
  | ⟨_, node⟩ :: rest => node.given ++ havingGiven rest

end

/-! ## §4 Queries -/

namespace Target

/-- The operator between a column and a value that are combined bit by bit, which PostgreSQL writes
in a form of its own. -/
def bitOperator (t : Target) (operator : String) : Given :=
  match t.dialect with
  | .postgres => .verbatim operator
  | _ => .escaped operator

mutual

/-- The texts and operators of a table. -/
def tableGiven (t : Target) : Table → List Given
  | .named name => [.text name []]
  | .raw sql bindings => [.text sql bindings]
  | .derived query asName => t.queryGiven query ++ [.text asName []]

/-- The texts and operators of the table of a query. -/
def sourceGiven (t : Target) : Option Table → List Given
  | none => []
  | some tbl => t.tableGiven tbl

/-- The texts and operators of a joined table. -/
def joinGiven (t : Target) : Join → List Given
  | ⟨_, tbl, on, joins, _⟩ => t.tableGiven tbl ++ t.joinsGiven joins ++ t.clauseGiven on

/-- The texts and operators of joined tables. -/
def joinsGiven (t : Target) : List Join → List Given
  | [] => []
  | j :: rest => t.joinGiven j ++ t.joinsGiven rest

/-- The texts and operators of the branches of a union. -/
def branchGiven (t : Target) : List UnionBranch → List Given
  | [] => []
  | ⟨query, _⟩ :: rest => t.queryGiven query ++ t.branchGiven rest

/-- The texts and operators of a condition on rows. Only comparisons with a value have their
operator escaped. -/
def predicateGiven (t : Target) : Predicate → List Given
  | .raw sql bindings => [.text sql bindings]
  | .compare c operator value => c.given ++ .escaped operator :: value.given
  | .bitwise c operator value => c.given ++ t.bitOperator operator :: value.given
  | .jsonBoolean selector operator _ => [.text selector [], .verbatim operator]
  | .like c pattern _ _ => c.given ++ pattern.given
  | .between c low high _ => c.given ++ valueGiven [low, high]
  | .betweenColumns c low high _ => columnGiven [c, low, high]
  | .inList c values _ => c.given ++ valueGiven values
  | .inQuery c query _ => c.given ++ t.queryGiven query
  | .inIntegers c _ _ => c.given
  | .isNull c => c.given
  | .isNotNull c => c.given
  | .datePart _ c operator value => c.given ++ .verbatim operator :: value.given
  | .group inner => t.clauseGiven inner
  | .hasRows query _ => t.queryGiven query
  | .compareQuery c operator query => c.given ++ .verbatim operator :: t.queryGiven query
  | .compareColumns first operator second => first.given ++ .verbatim operator :: second.given
  | .rowValues columns operator values =>
    columnGiven columns ++ .verbatim operator :: valueGiven values
  | .jsonContains selector value _ => .text selector [] :: value.given
  | .jsonContainsKey selector _ => [.text selector []]
  | .jsonLength selector operator value => .text selector [] :: .verbatim operator :: value.given
  | .fullText columns value _ => columnGiven columns ++ value.given

/-- The texts and operators of conditions on rows. -/
def clauseGiven (t : Target) : List (Clause Predicate) → List Given
  | [] => []
  | ⟨_, node⟩ :: rest => t.predicateGiven node ++ t.clauseGiven rest

/-- The texts and operators of a query, with all queries nested in it. -/
def queryGiven (t : Target) : Query → List Given
  | ⟨src, columns, distinct, aggregate, joins, wheres, groups, havings, orders, _, _, lock, unions,
      unionOrders, _, _⟩ =>
    columnGiven (columns.getD []) ++ columnGiven distinct.columns ++
      aggregate.elim [] Aggregate.given ++ t.sourceGiven src ++ t.joinsGiven joins ++
      t.clauseGiven wheres ++ columnGiven groups ++ havingGiven havings ++ orderGiven orders ++
      lock.elim [] Lock.given ++ t.branchGiven unions ++ orderGiven unionOrders

end

end Target

/-! ## §5 Values bound by plain texts -/

/-- Plain columns bind nothing. -/
theorem bound_columnBindings {columns : List Column} (h : PlainTexts (columnGiven columns)) :
    bound (columnBindings columns) = [] := by
  rw [columnBindings, bound_flatMap, List.flatMap_eq_nil_iff]
  intro c hc
  have hplain := plainTexts_flatMap.1 h c hc
  cases c with
  | named name => rfl
  | raw sql bindings => exact (plainTexts_cons.1 hplain).1.2

/-- Plain sort keys bind nothing. -/
theorem bound_orderBindings {orders : List SortKey} (h : PlainTexts (orderGiven orders)) :
    bound (orderBindings orders) = [] := by
  rw [orderBindings, bound_flatMap, List.flatMap_eq_nil_iff]
  intro key hkey
  have hplain := plainTexts_flatMap.1 h key hkey
  cases key with
  | column c _ =>
    have hcolumn : PlainTexts (columnGiven [c]) := by
      rw [columnGiven, List.flatMap_singleton]
      exact hplain
    have hbound := bound_columnBindings hcolumn
    rwa [columnBindings, List.flatMap_singleton] at hbound
  | raw sql bindings => exact (plainTexts_cons.1 hplain).1.2
  | random seed => rfl

/-- The texts of the clauses of one query. -/
structure OwnPlain (q : Query) : Prop where
  columns : PlainTexts (columnGiven (q.columns.getD []))
  distinct : PlainTexts (columnGiven q.distinct.columns)
  aggregate : PlainTexts (q.aggregate.elim [] Aggregate.given)
  groups : PlainTexts (columnGiven q.groups)
  havings : PlainTexts (havingGiven q.havings)
  orders : PlainTexts (orderGiven q.orders)
  lock : PlainTexts (q.lock.elim [] Lock.given)
  unionOrders : PlainTexts (orderGiven q.unionOrders)

/-- A query of plain texts collects what it writes: only values could be missed, and its own columns
and sort keys have none. -/
theorem OwnPlain.mirrored {q : Query} (h : OwnPlain q) : q.Mirrored where
  distinct := bound_columnBindings h.distinct
  -- distinct columns take the place of those of the aggregate, which are collected all the same
  displaced := by
    unfold Query.displacedColumns
    split
    · rename_i aggregate _ haggregate
      have hplain := h.aggregate
      rw [haggregate] at hplain
      exact bound_columnBindings (plainTexts_cons.1 hplain).2
    · rfl
  unionOrders _ := bound_orderBindings h.unionOrders

/-- The clauses of a query are among what is given for it. -/
theorem ownPlain_of_given {t : Target} {q : Query} (h : PlainTexts (t.queryGiven q)) :
    OwnPlain q := by
  obtain ⟨⟩ := q
  simp only [Target.queryGiven, plainTexts_append] at h
  obtain ⟨⟨⟨⟨⟨⟨⟨⟨⟨⟨⟨hcolumns, hdistinct⟩, haggregate⟩, -⟩, -⟩, -⟩, hgroups⟩, hhavings⟩, horders⟩,
    hlock⟩, -⟩, hunionOrders⟩ := h
  exact ⟨hcolumns, hdistinct, haggregate, hgroups, hhavings, horders, hlock, hunionOrders⟩

section Nested

variable {t : Target} {r : Query}

mutual

/-- The queries in a table. -/
theorem mirrored_table : (tbl : Table) → PlainTexts (t.tableGiven tbl) → r ∈ tbl.queries →
    r.Mirrored
  | .named _, _, hr | .raw _ _, _, hr => absurd hr List.not_mem_nil
  | .derived query _, h, hr => mirrored_of_plain query (plainTexts_append.1 h).1 hr

theorem mirrored_source : (src : Option Table) → PlainTexts (t.sourceGiven src) →
    r ∈ sourceQueries src → r.Mirrored
  | none, _, hr => absurd hr List.not_mem_nil
  | some tbl, h, hr => mirrored_table tbl h hr

/-- The queries in a joined table: in its table, in its inner joins and in its conditions. -/
theorem mirrored_join : (j : Join) → PlainTexts (t.joinGiven j) → r ∈ j.queries → r.Mirrored
  | ⟨_, tbl, on, joins, _⟩, h, hr => by
    simp only [Target.joinGiven, plainTexts_append] at h
    simp only [Join.queries, List.mem_append] at hr
    rcases hr with (hr | hr) | hr
    · exact mirrored_table tbl h.1.1 hr
    · exact mirrored_joins joins h.1.2 hr
    · exact mirrored_clauses on h.2 hr

theorem mirrored_joins : (joins : List Join) → PlainTexts (t.joinsGiven joins) →
    r ∈ joinsQueries joins → r.Mirrored
  | [], _, hr => absurd hr List.not_mem_nil
  | j :: rest, h, hr => by
    rw [Target.joinsGiven, plainTexts_append] at h
    rw [joinsQueries, List.mem_append] at hr
    rcases hr with hr | hr
    · exact mirrored_join j h.1 hr
    · exact mirrored_joins rest h.2 hr

theorem mirrored_branches : (branches : List UnionBranch) → PlainTexts (t.branchGiven branches) →
    r ∈ branchQueries branches → r.Mirrored
  | [], _, hr => absurd hr List.not_mem_nil
  | ⟨query, _⟩ :: rest, h, hr => by
    rw [Target.branchGiven, plainTexts_append] at h
    rw [branchQueries, List.mem_append] at hr
    rcases hr with hr | hr
    · exact mirrored_of_plain query h.1 hr
    · exact mirrored_branches rest h.2 hr

/-- The queries that a condition on rows looks into. -/
theorem mirrored_predicate : (p : Predicate) → PlainTexts (t.predicateGiven p) → r ∈ p.queries →
    r.Mirrored
  | .inQuery _ query _, h, hr => mirrored_of_plain query (plainTexts_append.1 h).2 hr
  | .hasRows query _, h, hr => mirrored_of_plain query h hr
  | .compareQuery _ _ query, h, hr =>
    mirrored_of_plain query (plainTexts_cons.1 (plainTexts_append.1 h).2).2 hr
  | .group inner, h, hr => mirrored_clauses inner h hr
  | .raw _ _, _, hr | .compare _ _ _, _, hr | .bitwise _ _ _, _, hr | .jsonBoolean _ _ _, _, hr
  | .like _ _ _ _, _, hr | .between _ _ _ _, _, hr | .betweenColumns _ _ _ _, _, hr
  | .inList _ _ _, _, hr | .inIntegers _ _ _, _, hr | .isNull _, _, hr | .isNotNull _, _, hr
  | .datePart _ _ _ _, _, hr | .compareColumns _ _ _, _, hr | .rowValues _ _ _, _, hr
  | .jsonContains _ _ _, _, hr | .jsonContainsKey _ _, _, hr | .jsonLength _ _ _, _, hr
  | .fullText _ _ _, _, hr => absurd hr List.not_mem_nil

theorem mirrored_clauses : (clauses : List (Clause Predicate)) →
    PlainTexts (t.clauseGiven clauses) → r ∈ clauseQueries clauses → r.Mirrored
  | [], _, hr => absurd hr List.not_mem_nil
  | ⟨_, node⟩ :: rest, h, hr => by
    rw [Target.clauseGiven, plainTexts_append] at h
    rw [clauseQueries, List.mem_append] at hr
    rcases hr with hr | hr
    · exact mirrored_predicate node h.1 hr
    · exact mirrored_clauses rest h.2 hr

/-- Plain texts bind nothing, so that it does not matter where they are collected. -/
theorem mirrored_of_plain : (q : Query) → PlainTexts (t.queryGiven q) → r ∈ q.queries → r.Mirrored
  | ⟨src, columns, distinct, aggregate, joins, wheres, groups, havings, orders, limit, offset, lock,
      unions, unionOrders, unionLimit, unionOffset⟩, h, hr => by
    have hown := (ownPlain_of_given h).mirrored
    simp only [Target.queryGiven, plainTexts_append] at h
    obtain ⟨⟨⟨⟨⟨⟨⟨⟨⟨-, hsource⟩, hjoins⟩, hwheres⟩, -⟩, -⟩, -⟩, -⟩, hunions⟩, -⟩ := h
    simp only [Query.queries, List.mem_cons, List.mem_append] at hr
    -- the query itself, or one at any depth of a part
    rcases hr with rfl | ((hr | hr) | hr) | hr
    · exact hown
    · exact mirrored_source src hsource hr
    · exact mirrored_joins joins hjoins hr
    · exact mirrored_clauses wheres hwheres hr
    · exact mirrored_branches unions hunions hr

end

end Nested

end SqlCompiler
