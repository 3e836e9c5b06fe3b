import SqlCompiler.Proofs.AggregatedRows
import SqlCompiler.Proofs.NestedQueries
import SqlCompiler.Proofs.PagedClauses

/-!
# Row Numbers in Place of Offsets

SQL Server skips rows by an offset or, on request, by row numbers. Both ways report the same fault
of a query or give it SQL, and where no select skips rows this is the same SQL.

The two runs are compared clause by clause. A result of one run is the same as that of the other
one under a condition `P`, which is that none of the selects concerned skips rows; whether there is
a result does not depend on `P`.

## Main definitions

- `Query.SkipsRows`: a select that is laid out with row numbers where these are asked for
- `SameIf`: results of two runs, the same under a condition

## Main statements

- `layout_paged`, `finish_paged`: a query around parts that agree
- `select_paged`: a query, by recursion on it
-/

namespace SqlCompiler

open Target

/-! ## §1 Selects that skip rows -/

/-- The select that is laid out for a query: an aggregate over rows stands outside of it. -/
def Query.laidOut (q : Query) : Query :=
  if aggregatesOverRows q then q.rows else q

/-- A select without aggregate that skips rows, and asks for some of the others. -/
structure Query.SkipsRows (q : Query) : Prop where
  skipped : 0 < q.skipped
  limit : q.limit ≠ some 0
  aggregate : q.aggregate = none

instance (q : Query) : Decidable q.SkipsRows :=
  decidable_of_iff (0 < q.skipped ∧ q.limit ≠ some 0 ∧ q.aggregate.isNone = true)
    ⟨fun ⟨h, h', h''⟩ => ⟨h, h', Option.isNone_iff_eq_none.1 h''⟩,
      fun ⟨h, h', h''⟩ => ⟨h, h', Option.isNone_iff_eq_none.2 h''⟩⟩

/-- None of the selects that are laid out for the given queries skips rows. -/
def NoneSkips (queries : List Query) : Prop :=
  ∀ q ∈ queries, ¬q.laidOut.SkipsRows

/-- The queries of a part are among those of the whole. -/
theorem NoneSkips.left {qs rs : List Query} (h : NoneSkips (qs ++ rs)) : NoneSkips qs :=
  fun q hq => h q (List.mem_append_left _ hq)

theorem NoneSkips.right {qs rs : List Query} (h : NoneSkips (qs ++ rs)) : NoneSkips rs :=
  fun q hq => h q (List.mem_append_right _ hq)

theorem NoneSkips.tail {q : Query} {qs : List Query} (h : NoneSkips (q :: qs)) : NoneSkips qs :=
  fun r hr => h r (List.mem_cons_of_mem _ hr)

variable {t : Target} {q : Query} {P Q : Prop} {α β ε : Type}

/-- Rows are numbered only in a select that skips rows. -/
theorem skipsRows_of_numbersRows (h : t.numbersRows q.laidOut q.laidOut.aggregate = true) :
    q.laidOut.SkipsRows := by
  simp only [numbersRows, Bool.and_eq_true, decide_eq_true_eq, bne_iff_ne] at h
  exact ⟨h.1.2, h.2, Option.isNone_iff_eq_none.1 h.1.1.2⟩

/-- Rows are numbered only on request. -/
theorem numbersRows_paged (t : Target) (q : Query) (aggregate : Option Aggregate) :
    (t.paged false).numbersRows q aggregate = false := by
  simp [numbersRows, paged]

/-! ## §2 Results of two runs -/

/-- Two results that are the same under a condition. -/
def SameIf (P : Prop) (a b : α) : Prop :=
  P → a = b

namespace Alike

/-- Runs that do not differ. -/
theorem same (x : Except ε α) : Alike (SameIf P) x x :=
  .refl (fun _ _ => rfl) x

/-- Results that are related in one way are related in any weaker one. -/
theorem mono {R S : α → α → Prop} {x y : Except ε α} (h : Alike R x y)
    (hRS : ∀ a b, R a b → S a b) : Alike S x y := by
  cases h with
  | fault e => exact .fault e
  | result hab => exact .result (hRS _ _ hab)

/-- Runs with equal results are equal. -/
theorem eq {x y : Except ε α} (h : Alike Eq x y) : x = y := by
  cases h with
  | fault e => rfl
  | result hab => exact congrArg Except.ok hab

/-- Two runs that agree under a weaker condition do under a stronger one. -/
theorem weaken {x y : Except ε α} (h : Alike (SameIf P) x y) (hQP : Q → P) :
    Alike (SameIf Q) x y :=
  h.mono fun _ _ hab hQ => hab (hQP hQ)

/-- What is made of a result without further steps. -/
theorem returns {x y : Except ε α} (h : Alike (SameIf P) x y) (f : α → β) :
    Alike (SameIf P) (do return f (← x)) (do return f (← y)) :=
  h.bind fun _ _ hab => .pure fun hP => congrArg f (hab hP)

/-- A step that agrees under a condition of its own, and what follows it under a stronger one. -/
theorem nested {x y : Except ε α} {f g : α → Except ε β} (h : Alike (SameIf P) x y) (hQP : Q → P)
    (hfg : ∀ a b, SameIf Q a b → Alike (SameIf Q) (f a) (g b)) :
    Alike (SameIf Q) (x >>= f) (y >>= g) :=
  (h.weaken hQP).bind hfg

/-- A step taken for every item of a list, in two runs. -/
theorem mapM_same {f g : α → Except ε β} (xs : List α)
    (h : ∀ x ∈ xs, Alike (SameIf P) (f x) (g x)) :
    Alike (SameIf P) (xs.mapM f) (xs.mapM g) := by
  induction xs with
  | nil => exact same _
  | cons x xs ih =>
    obtain ⟨hx, hxs⟩ := List.forall_mem_cons.1 h
    rw [List.mapM_cons, List.mapM_cons]
    refine hx.bind fun a b hab => (ih hxs).bind fun as bs hrest => .pure fun hP => ?_
    rw [hab hP, hrest hP]

end Alike

/-! ## §3 Layout -/

/-- Nested parts of a query in two runs. -/
structure PartsSame (P : Prop) (parts parts' : Parts) : Prop where
  source : Alike (SameIf P) parts.source parts'.source
  joins : Alike (SameIf P) parts.joins parts'.joins
  wheres : Alike (SameIf P) parts.wheres parts'.wheres
  branches : Alike (SameIf P) parts.branches parts'.branches

section Layout

variable {parts parts' : Parts} {aggregate : Option Aggregate}

/-- Each clause around nested parts of two runs. -/
theorem component_same (h : PartsSame P parts parts') (q : Query) (c : Component) :
    Alike (SameIf P) (t.component q aggregate parts c) (t.component q aggregate parts' c) := by
  cases c with
  | source =>
    unfold component
    cases q.source with
    | none => exact .same _
    | some tbl => exact h.source.returns _
  | joins => exact h.joins
  | wheres => exact h.wheres
  | _ => exact .same _

/-- The clauses of two queries that agree one by one. -/
theorem components_same {q q' : Query}
    (h : ∀ c, Alike (SameIf P) (t.component q aggregate parts c)
      (t.component q' aggregate parts' c)) :
    Alike (SameIf P) (t.components q aggregate parts) (t.components q' aggregate parts') :=
  (Alike.mapM_same _ fun c _ => (h c).returns _).returns _

/-- A select with its branches. -/
theorem withUnions_same (h : PartsSame P parts parts') (q : Query) {body body' : Sql}
    (hbody : SameIf P body body') :
    Alike (SameIf P) (t.withUnions q parts body) (t.withUnions q parts' body') := by
  have hunions : Alike (SameIf P) (t.unionsClause q parts.branches)
      (t.unionsClause q parts'.branches) := by
    unfold unionsClause
    split
    · exact .step _ fun page => .step _ fun orders => h.branches.returns _
    · exact h.branches.bind fun sides sides' hsides => .step _ fun orders =>
        .pure fun hP => by rw [hsides hP]
  unfold withUnions
  split
  · exact .pure hbody
  · exact hunions.bind fun sides sides' hsides => .pure fun hP => by rw [hbody hP, hsides hP]

/-- The clauses of a query in a row. -/
theorem plainLayout_same (h : PartsSame P parts parts') (q : Query) :
    Alike (SameIf P) (t.plainLayout q aggregate parts) (t.plainLayout q aggregate parts') :=
  (components_same (component_same h q)).bind fun clauses clauses' hclauses =>
    withUnions_same h q fun hP => by rw [hclauses hP]

/-- Rows are numbered in the order that an offset needs, and that order is made up alike where there
is none: whether the clauses have SQL is the same question for both layouts. -/
theorem numberedLayout_plainLayout (h : PartsSame False parts parts') (q : Query) :
    Alike (SameIf False) (t.numberedLayout q parts)
      (if q.orders.isEmpty then
        t.plainLayout { q with orders := [.ofSql "(SELECT 0)"] } none parts'
      else t.plainLayout q none parts') := by
  -- only faults are compared, so the order of the clauses does not matter
  have hlaid {q' : Query} (hunions : ∀ body, t.withUnions q' parts' body =
        t.withUnions q parts' body)
      (hclauses : ∀ c, Alike (SameIf False) (t.component q none parts c)
        (t.component q' none parts' c)) :
      Alike (SameIf False) (t.numberedLayout q parts) (t.plainLayout q' none parts') := by
    refine (components_same hclauses).bind fun clauses clauses' _ => ?_
    rw [hunions]
    exact withUnions_same h q False.elim
  split
  · -- without an order there is a constant one, which has no fault
    rename_i hnone
    refine hlaid (fun _ => rfl) fun c => ?_
    cases c with
    | orders =>
      unfold component ordersClause
      rw [if_pos hnone]
      exact .result False.elim
    | _ => exact component_same h q _
  · exact hlaid (fun _ => rfl) (component_same h q)

/-- Both ways of skipping rows lay out a query alike. -/
theorem layout_paged (h : PartsSame P parts parts') (q : Query)
    (hP : P → (t.paged true).numbersRows q aggregate = false) :
    Alike (SameIf P) ((t.paged true).layout q aggregate parts)
      ((t.paged false).layout q aggregate parts') := by
  unfold layout
  simp only [dialect_paged, plainLayout_paged, numberedLayout_paged, numbersRows_paged,
    Bool.false_eq_true, if_false]
  split
  · split
    · exact plainLayout_same h _
    · cases hnumbers : (t.paged true).numbersRows q aggregate with
      | false =>
        simp only [Bool.false_eq_true, if_false]
        split
        · exact plainLayout_same h _
        · exact plainLayout_same h q
      | true =>
        -- the one place where the runs part: a select that skips rows
        have hP' : P → False := fun hp => by rw [hP hp] at hnumbers; cases hnumbers
        have hparts : PartsSame False parts parts' := by
          refine ⟨h.source.weaken ?_, h.joins.weaken ?_, h.wheres.weaken ?_,
            h.branches.weaken ?_⟩ <;> exact False.elim
        simp only [numbersRows, Bool.and_eq_true, decide_eq_true_eq] at hnumbers
        obtain rfl : aggregate = none := Option.isNone_iff_eq_none.1 hnumbers.1.1.2
        have hboth := (numberedLayout_plainLayout (t := t) hparts q).weaken hP'
        simpa [hnumbers.1.2] using hboth
  · exact plainLayout_same h q

/-- A query around its parts, with its aggregate beside or around them. -/
theorem finish_paged (h : PartsSame P parts parts') (q : Query)
    (hP : P → ¬q.laidOut.SkipsRows) :
    Alike (SameIf P) ((t.paged true).finish q parts) ((t.paged false).finish q parts') := by
  -- rows that are not skipped are not numbered
  have hnumbers (hp : P) :
      (t.paged true).numbersRows q.laidOut q.laidOut.aggregate = false := by
    rw [← Bool.not_eq_true]
    exact mt skipsRows_of_numbersRows (hP hp)
  unfold finish
  simp only [aggregateClause_paged, quoteTable_paged]
  cases ha : q.aggregate with
  | none =>
    have hover : aggregatesOverRows q = false := by simp [aggregatesOverRows, ha]
    refine layout_paged h q fun hp => ?_
    have hq := hnumbers hp
    rwa [Query.laidOut, hover, if_neg Bool.false_ne_true, ha] at hq
  | some a =>
    dsimp only
    split
    · rename_i hover
      refine .step _ fun head => (layout_paged h q fun hp => ?_).returns _
      have hq := hnumbers hp
      rwa [Query.laidOut, if_pos hover] at hq
    · rename_i hover
      refine layout_paged h q fun hp => ?_
      have hq := hnumbers hp
      rwa [Query.laidOut, if_neg hover, ha] at hq

end Layout

/-! ## §4 Nested parts -/

theorem lateralJoin_same (kind : JoinKind) {tbl tbl' : Sql} (h : SameIf P tbl tbl') :
    Alike (SameIf P) (t.lateralJoin kind tbl) (t.lateralJoin kind tbl') := by
  unfold lateralJoin
  split
  · exact .result fun hP => by rw [h hP]
  · exact .result fun hP => by rw [h hP]
  · exact .result fun hP => by rw [h hP]
  · exact .fault _
  · exact .fault _

mutual

/-- A table, by recursion on the query that it is derived from. -/
theorem table_paged (t : Target) : (tbl : Table) →
    Alike (SameIf (NoneSkips tbl.queries)) ((t.paged true).table tbl) ((t.paged false).table tbl)
  | .named _ => by
    simp only [Target.table, quoteTable_paged]
    exact .same _
  | .raw _ _ => by
    simp only [Target.table]
    exact .same _
  | .derived query _ => by
    simp only [Target.table, Table.queries, quoteTable_paged]
    exact (select_paged t query).returns _

theorem source_paged (t : Target) : (src : Option Table) →
    Alike (SameIf (NoneSkips (sourceQueries src))) ((t.paged true).source src)
      ((t.paged false).source src)
  | none => by
    simp only [Target.source]
    exact .same _
  | some tbl => by
    simp only [Target.source, sourceQueries]
    exact table_paged t tbl

/-- A joined table, its inner joins and its conditions, each under its own part of the condition. -/
theorem join_paged (t : Target) : (j : Join) →
    Alike (SameIf (NoneSkips j.queries)) ((t.paged true).join j) ((t.paged false).join j)
  | ⟨kind, tbl, on, inner, lateral⟩ => by
    simp only [Target.join, Join.queries, lateralJoin_paged]
    refine (table_paged t tbl).nested (fun h => h.left.left) fun table table' htable => ?_
    refine (joins_paged t inner).nested (fun h => h.left.right) fun joined joined' hjoined => ?_
    have hall : SameIf (NoneSkips (tbl.queries ++ joinsQueries inner ++ clauseQueries on))
        (if inner.isEmpty then table else "(" ++ table ++ " " ++ joined ++ ")")
        (if inner.isEmpty then table' else "(" ++ table' ++ " " ++ joined' ++ ")") :=
      fun hP => by rw [htable hP, hjoined hP]
    split
    · -- what refuses a lateral join is not looked up in its SQL
      split
      · exact .fault _
      · split
        · exact .fault _
        · exact lateralJoin_same kind hall
    · exact (clauses_paged t on).nested NoneSkips.right fun conditions conditions' hon =>
        .pure fun hP => by rw [hall hP, hon hP]

/-- Joined tables, one by one. -/
theorem joins_paged (t : Target) : (joins : List Join) →
    Alike (SameIf (NoneSkips (joinsQueries joins))) ((t.paged true).joins joins)
      ((t.paged false).joins joins)
  | [] => by
    simp only [Target.joins]
    exact .same _
  | j :: rest => by
    simp only [Target.joins, joinsQueries]
    refine (join_paged t j).nested NoneSkips.left fun first first' hfirst => ?_
    exact (joins_paged t rest).nested NoneSkips.right fun others others' hothers =>
      .pure fun hP => by rw [hfirst hP, hothers hP]

/-- The branches of a union, one by one. -/
theorem branches_paged (t : Target) : (branches : List UnionBranch) →
    Alike (SameIf (NoneSkips (branchQueries branches))) ((t.paged true).branches branches)
      ((t.paged false).branches branches)
  | [] => by
    simp only [Target.branches]
    exact .same _
  | ⟨query, all⟩ :: rest => by
    simp only [Target.branches, branchQueries, unionSide_paged]
    refine (select_paged t query).nested NoneSkips.left fun select select' hselect => ?_
    exact (branches_paged t rest).nested NoneSkips.right fun others others' hothers =>
      .pure fun hP => by rw [hselect hP, hothers hP]

/-- Only a condition that looks into a query can differ in two runs. -/
theorem predicate_paged (t : Target) : (p : Predicate) →
    Alike (SameIf (NoneSkips p.queries)) ((t.paged true).predicate p) ((t.paged false).predicate p)
  | .inQuery _ query _ => by
    simp only [Target.predicate, Predicate.queries, column_paged]
    exact .step _ fun left => (select_paged t query).returns _
  | .hasRows query _ => by
    simp only [Target.predicate, Predicate.queries]
    exact (select_paged t query).returns _
  | .compareQuery _ _ query => by
    simp only [Target.predicate, Predicate.queries, column_paged]
    exact .step _ fun left => (select_paged t query).returns _
  | .group inner => by
    simp only [Target.predicate, Predicate.queries]
    split
    · exact .same _
    · exact (clauses_paged t inner).returns _
  | .raw _ _ => by
    simp only [Target.predicate]
    exact .same _
  | .compare _ _ _ => by
    simp only [Target.predicate, compare_paged]
    exact .same _
  | .bitwise _ _ _ => by
    simp only [Target.predicate, bitwise_paged]
    exact .same _
  | .jsonBoolean _ _ _ => by
    simp only [Target.predicate, jsonBoolean_paged]
    exact .same _
  | .like _ _ _ _ => by
    simp only [Target.predicate, like_paged]
    exact .same _
  | .between _ _ _ _ => by
    simp only [Target.predicate, between_paged]
    exact .same _
  | .betweenColumns _ _ _ _ => by
    simp only [Target.predicate, betweenColumns_paged]
    exact .same _
  | .inList _ _ _ => by
    simp only [Target.predicate, inList_paged]
    exact .same _
  | .inIntegers _ _ _ => by
    simp only [Target.predicate, inIntegers_paged]
    exact .same _
  | .isNull _ => by
    simp only [Target.predicate, nullTest_paged]
    exact .same _
  | .isNotNull _ => by
    simp only [Target.predicate, nullTest_paged]
    exact .same _
  | .datePart _ _ _ _ => by
    simp only [Target.predicate, datePart_paged]
    exact .same _
  | .compareColumns _ _ _ => by
    simp only [Target.predicate, compareColumns_paged]
    exact .same _
  | .rowValues _ _ _ => by
    simp only [Target.predicate, rowValues_paged]
    exact .same _
  | .jsonContains _ _ _ => by
    simp only [Target.predicate, jsonContains_paged]
    exact .same _
  | .jsonContainsKey _ _ => by
    simp only [Target.predicate, jsonContainsKey_paged]
    exact .same _
  | .jsonLength _ _ _ => by
    simp only [Target.predicate, jsonLength_paged]
    exact .same _
  | .fullText _ _ _ => by
    simp only [Target.predicate, fullText_paged]
    exact .same _

/-- Conditions on rows, one by one. -/
theorem clauses_paged (t : Target) : (clauses : List (Clause Predicate)) →
    Alike (SameIf (NoneSkips (clauseQueries clauses))) ((t.paged true).clauses clauses)
      ((t.paged false).clauses clauses)
  | [] => by
    simp only [Target.clauses]
    exact .same _
  | ⟨connective, node⟩ :: rest => by
    simp only [Target.clauses, clauseQueries]
    refine (predicate_paged t node).nested NoneSkips.left fun first first' hfirst => ?_
    exact (clauses_paged t rest).nested NoneSkips.right fun others others' hothers =>
      .pure fun hP => by rw [hfirst hP, hothers hP]

/-- Both ways of skipping rows report the same fault of a query, or give it SQL, which is the same
unless a select skips rows. -/
theorem select_paged (t : Target) : (q : Query) →
    Alike (SameIf (NoneSkips q.queries)) ((t.paged true).select q) ((t.paged false).select q)
  | ⟨src, columns, distinct, aggregate, joins, wheres, groups, havings, orders, limit, offset, lock,
      unions, unionOrders, unionLimit, unionOffset⟩ => by
    rw [Target.select_eq, Target.select_eq]
    -- the query is the first of its queries, and its parts have the others
    refine finish_paged ⟨?_, ?_, ?_, ?_⟩ _ (fun h => h _ List.mem_cons_self)
    · exact (source_paged t src).weaken fun h => h.tail.left.left.left
    · exact (joins_paged t joins).weaken fun h => h.tail.left.left.right
    · exact ((clauses_paged t wheres).returns _).weaken fun h => h.tail.left.right
    · exact (branches_paged t unions).weaken fun h => h.tail.right

end

end SqlCompiler
