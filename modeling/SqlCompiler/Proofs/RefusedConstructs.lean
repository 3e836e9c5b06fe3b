import SqlCompiler.Proofs.ClauseLabels
import SqlCompiler.Proofs.TextPieces

/-!
# Refused Constructs

Some constructs of a query have no SQL in any dialect, such as an empty group of conditions; others
have none in the dialect at hand. This module names the constructs that a dialect may refuse, and
says of columns and of conditions which constructs they are made of when they are written. What is
left out of the text is not gathered: the column of a membership in nothing, for example.

## Main definitions

- `Construct`: what may be refused, with the data that the refusal looks at
- `Target.Refuses`: which constructs have no SQL, and the fault that says so
- `FailsFor`: a run fails exactly if it meets a refused construct, with the fault of one it meets

## Main statements

- `FailsFor.bind`, `FailsFor.mapM`: steps meet the constructs of all of them
- `column_failsFor`, `columnList_failsFor`: columns
- `like_failsFor`, `fullText_failsFor`, …: the conditions that look into no other query
- `havingClause_failsFor`: conditions on groups, by recursion on their groups
-/

namespace SqlCompiler

variable {t : Target} {α β : Type}

/-! ## §1 Constructs -/

/-- The features of queries that a dialect does not have. -/
def Dialect.missing : Dialect → List Feature
  | .generic =>
    [.jsonSelectors, .jsonContains, .jsonContainsKey, .jsonLength, .fullTextSearch,
      .caseSensitiveLike, .lateralJoins]
  | .mysql => [.jsonContains]
  | .postgres => []
  | .sqlite => [.fullTextSearch, .lateralJoins]
  | .sqlserver => [.fullTextSearch, .caseSensitiveLike]

/-- A construct of a query that may have no SQL. -/
inductive Construct where
  /-- Something that only some dialects have. -/
  | uses (feature : Feature)
  /-- A nested group of so many conditions on rows. -/
  | whereGroup (size : Nat)
  /-- A nested group of so many conditions on groups. -/
  | havingGroup (size : Nat)
  /-- So many columns compared with so many values. -/
  | rowComparison (columns values : Nat)
  /-- A lateral join: whether its table is a query, and the number of its conditions. -/
  | lateralJoin (derived : Bool) (conditions : Nat)
  /-- The limit of united rows. -/
  | unionLimit (limit : UInt64)

/-- The constructs without SQL, each with the fault that says so. -/
inductive Target.Refuses (t : Target) : Construct → Fault → Prop where
  | missing {feature : Feature} :
      feature ∈ t.dialect.missing → Refuses t (.uses feature) (.unsupported t.dialect feature)
  | emptyWhereGroup : Refuses t (.whereGroup 0) .emptyWhereGroup
  | emptyHavingGroup : Refuses t (.havingGroup 0) .emptyHavingGroup
  | rowWidth {columns values : Nat} :
      columns ≠ values → Refuses t (.rowComparison columns values) (.rowWidth columns values)
  | lateralTarget {conditions : Nat} : Refuses t (.lateralJoin false conditions) .lateralTarget
  | lateralCondition {derived : Bool} {conditions : Nat} :
      0 < conditions → Refuses t (.lateralJoin derived conditions) .lateralCondition
  | emptyUnionFetch : t.dialect = .sqlserver → Refuses t (.unionLimit 0) .emptyUnionFetch

/-! ## §2 Runs that meet constructs -/

/-- A run that meets the given constructs: it fails if one of them is refused, and only with the
fault of a refused one. -/
structure FailsFor (t : Target) (met : List Construct) (x : Except Fault α) : Prop where
  blamed : ∀ f, x = .error f → ∃ c ∈ met, t.Refuses c f
  refused : ∀ c ∈ met, ∀ f, t.Refuses c f → ∃ f', x = .error f'

namespace FailsFor

variable {met others : List Construct} {x : Except Fault α} {k : α → Except Fault β}

/-- A result meets nothing that is refused. -/
theorem result (a : α) : FailsFor t [] (.ok a) where
  blamed _ h := by cases h
  refused _ h := absurd h List.not_mem_nil

/-- A fault is explained by any refused construct that has it. -/
theorem fault {c : Construct} {f : Fault} (hc : c ∈ met) (h : t.Refuses c f) :
    FailsFor t met (.error f : Except Fault α) where
  blamed f' hf := by
    cases hf
    exact ⟨c, hc, h⟩
  refused _ _ _ _ := ⟨f, rfl⟩

/-- Only the refused constructs matter: the others may be added or forgotten. -/
theorem change (h : FailsFor t met x)
    (hforgotten : ∀ c ∈ met, c ∈ others ∨ ∀ f, ¬t.Refuses c f)
    (hadded : ∀ c ∈ others, c ∈ met ∨ ∀ f, ¬t.Refuses c f) : FailsFor t others x where
  blamed f hf := by
    obtain ⟨c, hc, hrefused⟩ := h.blamed f hf
    rcases hforgotten c hc with hc | hnever
    · exact ⟨c, hc, hrefused⟩
    · exact absurd hrefused (hnever f)
  refused c hc f hrefused := by
    rcases hadded c hc with hc | hnever
    · exact h.refused c hc f hrefused
    · exact absurd hrefused (hnever f)

/-- The order and the number of the constructs do not matter. -/
theorem congr (h : FailsFor t met x) (hsame : ∀ c, c ∈ met ↔ c ∈ others) :
    FailsFor t others x :=
  h.change (fun c hc => .inl ((hsame c).1 hc)) fun c hc => .inl ((hsame c).2 hc)

/-- Constructs that are never refused may be counted in behind the others. -/
theorem append (h : FailsFor t met x) (hothers : ∀ c ∈ others, ∀ f, ¬t.Refuses c f) :
    FailsFor t (met ++ others) x :=
  h.change (fun _ hc => .inl (List.mem_append_left _ hc)) fun c hc =>
    (List.mem_append.1 hc).imp_right (hothers c)

/-- So may a single one in front of them. -/
theorem cons {c : Construct} (hc : ∀ f, ¬t.Refuses c f) (h : FailsFor t met x) :
    FailsFor t (c :: met) x :=
  h.change (fun _ hd => .inl (List.mem_cons_of_mem _ hd)) fun d hd =>
    (List.mem_cons.1 hd).symm.imp_right fun (hdc : d = c) => hdc ▸ hc

/-- A run that meets nothing it could refuse has a result. -/
theorem accepted (h : FailsFor t met x) (hmet : ∀ c ∈ met, ∀ f, ¬t.Refuses c f) :
    FailsFor t [] x :=
  h.change (fun c hc => .inr (hmet c hc)) fun _ hc => absurd hc List.not_mem_nil

/-- A step and what follows it meet the constructs of both, whatever the step results in. -/
theorem bind (h : FailsFor t met x) (hk : ∀ a, x = .ok a → FailsFor t others (k a)) :
    FailsFor t (met ++ others) (x >>= k) := by
  cases x with
  | error e =>
    -- the run has ended before it met the other constructs
    obtain ⟨c, hc, hrefused⟩ := h.blamed e rfl
    exact fault (List.mem_append_left _ hc) hrefused
  | ok a =>
    have hrest : FailsFor t others (k a) := hk a rfl
    refine ⟨fun f hf => ?_, fun c hc f hrefused => ?_⟩
    · obtain ⟨c, hc, hrefused⟩ := hrest.blamed f hf
      exact ⟨c, List.mem_append_right _ hc, hrefused⟩
    · rcases List.mem_append.1 hc with hc | hc
      · obtain ⟨f', hf'⟩ := h.refused c hc f hrefused
        cases hf'
      · exact hrest.refused c hc f hrefused

/-- A step behind a run that never fails. -/
theorem andThen (h : FailsFor t met x) (hk : ∀ a, FailsFor t [] (k a)) :
    FailsFor t met (x >>= k) := by
  have hboth := h.bind fun a _ => hk a
  rwa [List.append_nil] at hboth

/-- What is made of a result meets nothing more. -/
theorem map (h : FailsFor t met x) (g : α → β) : FailsFor t met (x >>= fun a => pure (g a)) :=
  h.andThen fun a => result (g a)

/-- A step taken for every item of a list. -/
theorem mapM {item : Type} {run : item → Except Fault β} {constructs : item → List Construct}
    (xs : List item) (h : ∀ x ∈ xs, FailsFor t (constructs x) (run x)) :
    FailsFor t (xs.flatMap constructs) (xs.mapM run) := by
  induction xs with
  | nil => exact result []
  | cons x xs ih =>
    -- the step for the first item, then those for the rest, and the list of both results
    rw [List.mapM_cons, List.flatMap_cons]
    refine (h x List.mem_cons_self).bind fun b _ => ?_
    exact (ih fun y hy => h y (List.mem_cons_of_mem _ hy)).map _

/-- A feature that the dialect lacks. -/
theorem lacks {feature : Feature} (h : feature ∈ t.dialect.missing)
    (hmet : .uses feature ∈ met) : FailsFor t met (t.lacks feature : Except Fault α) :=
  fault hmet (.missing h)

/-- A feature that the dialect has. -/
theorem has {feature : Feature} (hfeature : feature ∉ t.dialect.missing)
    (h : FailsFor t met x) : FailsFor t (.uses feature :: met) x := by
  refine h.cons fun f hrefused => ?_
  cases hrefused with
  | missing hmissing => exact hfeature hmissing

/-- A run fails exactly if something that it meets is refused. -/
theorem error_iff (h : FailsFor t met x) :
    (∃ f, x = .error f) ↔ ∃ c ∈ met, ∃ f, t.Refuses c f := by
  constructor
  · rintro ⟨f, hf⟩
    obtain ⟨c, hc, hrefused⟩ := h.blamed f hf
    exact ⟨c, hc, f, hrefused⟩
  · rintro ⟨c, hc, f, hrefused⟩
    exact h.refused c hc f hrefused

/-- What a run with a result has met is not refused. -/
theorem accepts {a : α} (h : FailsFor t met x) (hx : x = .ok a) :
    ∀ c ∈ met, ∀ f, ¬t.Refuses c f := by
  rintro c hc f hrefused
  obtain ⟨f', hf'⟩ := h.refused c hc f hrefused
  cases hx.symm.trans hf'

/-- A run that meets nothing refused has a result. -/
theorem exists_ok (h : FailsFor t met x) (hmet : ∀ c ∈ met, ∀ f, ¬t.Refuses c f) :
    ∃ a, x = .ok a := by
  cases x with
  | ok a => exact ⟨a, rfl⟩
  | error f =>
    obtain ⟨c, hc, hrefused⟩ := h.blamed f rfl
    exact absurd hrefused (hmet c hc f)

end FailsFor

/-! ## §3 Columns -/

/-- The constructs of a column: a name that is a selector in front of its alias. -/
def Column.constructs : Column → List Construct
  | .named name => if isSelector (unaliased name) then [.uses .jsonSelectors] else []
  | .raw _ _ => []

/-- The constructs of columns. -/
def columnConstructs (columns : List Column) : List Construct :=
  columns.flatMap Column.constructs

/-- A selector needs a dialect that has selectors. -/
theorem quoteSelector_failsFor (selector : String) :
    FailsFor t [.uses .jsonSelectors] (t.quoteSelector selector) := by
  unfold Target.quoteSelector
  split <;> rename_i hdialect
  · exact .lacks (by rw [hdialect]; decide) List.mem_cons_self
  all_goals exact .has (by rw [hdialect]; decide) (.result _)

/-- A name is a field or a selector, and only a selector can be refused. -/
theorem quoteUnaliased_failsFor (name : String) :
    FailsFor t (if isSelector name then [.uses .jsonSelectors] else [])
      (t.quoteUnaliased name) := by
  unfold Target.quoteUnaliased
  split
  · exact quoteSelector_failsFor name
  · exact .result _

/-- A name with its alias. -/
theorem quote_failsFor (name : String) :
    FailsFor t (Column.named name).constructs (t.quote name) := by
  rw [Target.quote, Column.constructs, unaliased]
  cases splitAlias? name with
  | some sides => exact (quoteUnaliased_failsFor sides.1).map _
  | none => exact quoteUnaliased_failsFor name

/-- Raw SQL is never refused. -/
theorem column_failsFor (c : Column) : FailsFor t c.constructs (t.column c) := by
  cases c with
  | named name => exact (quote_failsFor name).map _
  | raw text bindings =>
    -- a raw column is written as it is
    exact .result _

/-- Columns in a row meet the constructs of all of them. -/
theorem columnList_failsFor (columns : List Column) :
    FailsFor t (columnConstructs columns) (t.columnList columns) :=
  (FailsFor.mapM columns fun c _ => column_failsFor c).map _

/-- A column is refused only where there are no selectors. -/
theorem Column.constructs_accepted (hjson : Feature.jsonSelectors ∉ t.dialect.missing)
    (column : Column) : ∀ c ∈ column.constructs, ∀ f, ¬t.Refuses c f := by
  intro c hc f hrefused
  cases column with
  | named name =>
    rw [Column.constructs] at hc
    split at hc
    · rw [List.mem_singleton.1 hc] at hrefused
      cases hrefused with
      | missing hmissing => exact hjson hmissing
    · cases hc
  | raw text bindings => cases hc

/-- Where there are selectors, every column is accepted. -/
theorem columnConstructs_accepted (hjson : Feature.jsonSelectors ∉ t.dialect.missing)
    (columns : List Column) : ∀ c ∈ columnConstructs columns, ∀ f, ¬t.Refuses c f := by
  intro c hc
  obtain ⟨column, _, hc⟩ := List.mem_flatMap.1 hc
  exact column.constructs_accepted hjson c hc

/-- A document is named by a selector, which such a dialect has. -/
theorem quoteDocument_failsFor (hjson : Feature.jsonSelectors ∉ t.dialect.missing) (name : String) :
    FailsFor t [] (t.quoteDocument name) :=
  ((quote_failsFor name).map _).accepted (Column.constructs_accepted hjson (.named name))

/-! ## §4 Conditions on columns -/

/-- The only part of a comparison that can be refused is its column. -/
theorem compareOperand_failsFor (c : Column) (operator : String) (operand : Sql) :
    FailsFor t c.constructs (t.compareOperand c operator operand) := by
  unfold Target.compareOperand
  split <;> exact (column_failsFor c).map _

theorem bitwise_failsFor (c : Column) (operator : String) (v : Value) :
    FailsFor t c.constructs (t.bitwise c operator v) := by
  unfold Target.bitwise
  split
  · exact (column_failsFor c).map _
  · exact compareOperand_failsFor ..

/-- The constructs of a pattern match. -/
def likeConstructs (caseSensitive : Bool) : List Construct :=
  if caseSensitive then [.uses .caseSensitiveLike] else []

/-- A case-sensitive match is refused before its column is looked at. -/
theorem like_failsFor (c : Column) (pattern : Value) (caseSensitive negated : Bool) :
    FailsFor t (likeConstructs caseSensitive ++ c.constructs)
      (t.like c pattern caseSensitive negated) := by
  have hoperator : FailsFor t (likeConstructs caseSensitive) (t.likeOperator? caseSensitive) := by
    obtain ⟨dialect, options⟩ := t
    cases caseSensitive with
    | false => cases dialect <;> exact .result _
    | true =>
      cases dialect with
      | generic | sqlserver => exact .lacks (by simp [Dialect.missing]) List.mem_cons_self
      | mysql | postgres | sqlite => exact .has (by simp [Dialect.missing]) (.result _)
  exact hoperator.bind fun _ _ => compareOperand_failsFor ..

theorem between_failsFor (c : Column) (low high : Value) (negated : Bool) :
    FailsFor t c.constructs (t.between c low high negated) :=
  (column_failsFor c).map _

/-- Three columns, in the order in which they are written. -/
theorem betweenColumns_failsFor (c low high : Column) (negated : Bool) :
    FailsFor t (columnConstructs [c, low, high]) (t.betweenColumns c low high negated) :=
  (column_failsFor c).bind fun _ _ => (column_failsFor low).bind fun _ _ =>
    ((column_failsFor high).map _).congr fun _ => by simp

/-- Membership in nothing never looks at its column. -/
theorem inList_failsFor (c : Column) (values : List Value) (negated : Bool) :
    FailsFor t (if values.isEmpty then [] else c.constructs) (t.inList c values negated) := by
  unfold Target.inList
  split
  · -- a membership in nothing is written without its column
    exact .result _
  · exact (column_failsFor c).map _

theorem inIntegers_failsFor (c : Column) (values : List Int64) (negated : Bool) :
    FailsFor t (if values.isEmpty then [] else c.constructs) (t.inIntegers c values negated) := by
  unfold Target.inIntegers
  split
  · exact .result _
  · exact (column_failsFor c).map _

/-- A selector is tested in the functions of MySQL, which has selectors. -/
theorem nullTest_failsFor (c : Column) (isNull : Bool) :
    FailsFor t c.constructs (t.nullTest c isNull) := by
  unfold Target.nullTest
  split
  · rename_i name hmysql
    split
    · -- the test on a selector is written by its own function, which MySQL always has
      rw [Column.constructs]
      split
      · exact .has (by rw [hmysql]; decide) (.result _)
      · exact .result _
    · exact (column_failsFor _).map _
  · exact (column_failsFor _).map _

/-- Every dialect has a form for every part of a date. -/
theorem datePart_failsFor (part : DatePart) (c : Column) (operator : String) (v : Value) :
    FailsFor t c.constructs (t.datePart part c operator v) := by
  unfold Target.datePart
  split <;> exact (column_failsFor c).map _

/-- Two columns; the operator is not looked at. -/
theorem compareColumns_failsFor (first : Column) (operator : String) (second : Column) :
    FailsFor t (columnConstructs [first, second]) (t.compareColumns first operator second) :=
  (column_failsFor first).bind fun _ _ => ((column_failsFor second).map _).congr fun _ => by simp

/-- A comparison of rows is refused before its columns are looked at. -/
theorem rowValues_failsFor (columns : List Column) (operator : String) (values : List Value) :
    FailsFor t (.rowComparison columns.length values.length :: columnConstructs columns)
      (t.rowValues columns operator values) := by
  unfold Target.rowValues
  split
  · rename_i hwidth
    exact .fault List.mem_cons_self (.rowWidth hwidth)
  · rename_i hwidth
    refine ((columnList_failsFor columns).map _).cons fun f hrefused => ?_
    cases hrefused with
    | rowWidth hne => exact hwidth hne

/-! ## §5 Conditions on documents and texts -/

/-- A boolean in a document needs selectors. -/
theorem jsonBoolean_failsFor (selector operator : String) (value : Bool) :
    FailsFor t [.uses .jsonSelectors] (t.jsonBoolean selector operator value) := by
  have hselector : FailsFor t [.uses .jsonSelectors] (t.booleanSelector selector) := by
    unfold Target.booleanSelector
    split
    · rename_i hmysql
      exact .has (by rw [hmysql]; decide) (.result _)
    · exact (quoteSelector_failsFor selector).map _
    · exact quoteSelector_failsFor selector
  exact hselector.map _

/-- Containment is a feature of its own, which MySQL lacks although it has selectors. -/
theorem jsonContains_failsFor (selector : String) (v : Value) (negated : Bool) :
    FailsFor t [.uses .jsonContains] (t.jsonContains selector v negated) := by
  refine FailsFor.map ?_ _
  unfold Target.jsonContainsOperand
  split <;> rename_i hdialect
  · exact .lacks (by rw [hdialect]; decide) List.mem_cons_self
  · exact .lacks (by rw [hdialect]; decide) List.mem_cons_self
  · exact .has (by rw [hdialect]; decide)
      ((quoteDocument_failsFor (by rw [hdialect]; decide) selector).map _)
  all_goals exact .has (by rw [hdialect]; decide) (.result _)

/-- A test for a key is a feature of its own. -/
theorem jsonContainsKey_failsFor (selector : String) (negated : Bool) :
    FailsFor t [.uses .jsonContainsKey] (t.jsonContainsKey selector negated) := by
  refine FailsFor.map ?_ _
  unfold Target.containsKey
  split <;> rename_i hdialect
  · exact .lacks (by rw [hdialect]; decide) List.mem_cons_self
  · exact .has (by rw [hdialect]; decide) (.result _)
  · -- whatever the last step is, the document around it has a name in PostgreSQL
    refine .has (by rw [hdialect]; decide) ?_
    refine (quoteDocument_failsFor (by rw [hdialect]; decide) _).andThen fun _ => ?_
    split <;> exact .result _
  all_goals exact .has (by rw [hdialect]; decide) (.result _)

/-- The length of an array is a feature of its own. -/
theorem jsonLength_failsFor (selector operator : String) (v : Value) :
    FailsFor t [.uses .jsonLength] (t.jsonLength selector operator v) := by
  unfold Target.jsonLength Target.jsonLengthOperand
  split <;> rename_i hdialect
  · exact .lacks (by rw [hdialect]; decide) List.mem_cons_self
  · exact .has (by rw [hdialect]; decide) (.result _)
  · exact .has (by rw [hdialect]; decide)
      ((quoteDocument_failsFor (by rw [hdialect]; decide) selector).andThen fun _ => .result _)
  all_goals exact .has (by rw [hdialect]; decide) (.result _)

/-- A search is refused before its columns are looked at. -/
theorem fullText_failsFor (columns : List Column) (v : Value) (options : FullTextOptions) :
    FailsFor t (.uses .fullTextSearch :: columnConstructs columns)
      (t.fullText columns v options) := by
  unfold Target.fullText
  split
  · rename_i hmysql
    exact .has (by rw [hmysql]; decide) ((columnList_failsFor columns).map _)
  · rename_i hpostgres
    refine .has (by rw [hpostgres]; decide) (FailsFor.map ?_ _)
    exact FailsFor.mapM columns fun c _ => (column_failsFor c).map _
  · rename_i hmysql hpostgres
    refine .lacks ?_ List.mem_cons_self
    cases hdialect : t.dialect with
    | generic | sqlite | sqlserver => decide
    | mysql => exact absurd hdialect hmysql
    | postgres => exact absurd hdialect hpostgres

/-! ## §6 Conditions on groups -/

mutual

/-- The constructs of a condition on groups. -/
def HavingPredicate.constructs : HavingPredicate → List Construct
  | .raw _ _ => []
  | .expression _ => []
  | .compare c _ _ => c.constructs
  | .between c _ _ _ => c.constructs
  | .isNull c => c.constructs
  | .isNotNull c => c.constructs
  | .bitwise c _ _ => c.constructs
  | .group clauses => .havingGroup clauses.length :: havingConstructs clauses

/-- The constructs of conditions on groups. -/
def havingConstructs : List (Clause HavingPredicate) → List Construct
  | [] => []
  | ⟨_, node⟩ :: rest => node.constructs ++ havingConstructs rest

end

mutual

/-- A condition on groups meets its own constructs, by recursion on its groups. -/
theorem having_failsFor : (p : HavingPredicate) → FailsFor t p.constructs (t.having p)
  | .raw _ _ => by
    rw [Target.having, HavingPredicate.constructs]
    exact .result _
  | .expression _ => by
    rw [Target.having, HavingPredicate.constructs]
    exact .result _
  | .compare c _ _ => by
    rw [Target.having, HavingPredicate.constructs]
    exact (column_failsFor c).map _
  | .between c _ _ _ => by
    rw [Target.having, HavingPredicate.constructs]
    exact between_failsFor ..
  | .isNull c => by
    rw [Target.having, HavingPredicate.constructs]
    exact nullTest_failsFor ..
  | .isNotNull c => by
    rw [Target.having, HavingPredicate.constructs]
    exact nullTest_failsFor ..
  | .bitwise c _ _ => by
    rw [Target.having, HavingPredicate.constructs]
    exact (column_failsFor c).map _
  | .group clauses => by
    rw [Target.having, HavingPredicate.constructs]
    cases clauses with
    | nil => exact .fault List.mem_cons_self .emptyHavingGroup
    | cons first rest =>
      exact ((havingClauses_failsFor (first :: rest)).map _).cons nofun

/-- Conditions on groups, one by one. -/
theorem havingClauses_failsFor : (clauses : List (Clause HavingPredicate)) →
    FailsFor t (havingConstructs clauses) (t.havingClauses clauses)
  | [] => by
    rw [Target.havingClauses, havingConstructs]
    exact .result _
  | ⟨_, node⟩ :: rest => by
    rw [Target.havingClauses, havingConstructs]
    exact (having_failsFor node).bind fun _ _ => (havingClauses_failsFor rest).map _

end

/-- No clause is no construct. -/
theorem havingClause_failsFor (clauses : List (Clause HavingPredicate)) :
    FailsFor t (havingConstructs clauses) (t.havingClause clauses) := by
  unfold Target.havingClause
  cases clauses with
  | nil => exact .result _
  | cons first rest => exact (havingClauses_failsFor (first :: rest)).map _

end SqlCompiler
