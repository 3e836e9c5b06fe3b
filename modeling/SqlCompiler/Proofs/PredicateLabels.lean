import SqlCompiler.Bindings.Collect
import SqlCompiler.Proofs.SelectForms
import SqlCompiler.Proofs.WrittenForms

/-!
# Labels of Columns and Predicates

Every predicate that looks into no other query is labelled, from left to right, with the values
that are collected for it. The lemmas are read as rules: once the SQL of a predicate has come out,
its labels are known, and no later proof opens the predicate again.

## Main statements

- `column_labels`, `columnList_labels`: columns carry the values of their raw SQL
- `compare_labels`, `like_labels`, `between_labels`, …: the predicates one by one
- `having_labels`, `havingClauses_labels`: conditions on groups, by recursion on their groups
- `body_labels`: connectives add no labels
-/

namespace SqlCompiler

open Sql

variable {t : Target} {sql : Sql}

/-! ## §1 Columns -/

/-- A column has the labels of its raw SQL, a name none. -/
theorem column_labels {c : Column} (h : t.column c = .ok sql) : sql.labels = bound c.bindings := by
  cases c with
  | named name =>
    simp only [Target.column, bind_eq_ok, pure_eq_ok] at h
    obtain ⟨_, _, rfl⟩ := h
    simp [Column.bindings]
  | raw text bindings =>
    rw [Target.column, pure_eq_ok] at h
    subst h
    simp [Column.bindings]

/-- The labels of pieces that come from the items of a list one by one. -/
theorem flatMap_labels {α : Type} {f : α → Except Fault Sql} {values : α → List Value}
    {xs : List α} {parts : List Sql} (h : xs.mapM f = .ok parts)
    (hf : ∀ x s, f x = .ok s → s.labels = values x) :
    parts.flatMap labels = xs.flatMap values := by
  rw [mapM_eq_ok] at h
  induction h with
  | nil => rfl
  | cons hx _ ih => rw [List.flatMap_cons, List.flatMap_cons, hf _ _ hx, ih]

/-- Columns have their labels one after the other. -/
theorem columnList_labels {columns : List Column} (h : t.columnList columns = .ok sql) :
    sql.labels = bound (columnBindings columns) := by
  simp only [Target.columnList, bind_eq_ok, pure_eq_ok] at h
  obtain ⟨parts, hparts, rfl⟩ := h
  rw [labels_join, columnBindings, bound_flatMap]
  exact flatMap_labels hparts fun _ _ => column_labels

/-! ## §2 Clauses -/

/-- Connectives add no labels to the conditions that they connect. -/
theorem body_labels (clauses : List (Clause Sql)) :
    (Clause.body clauses).labels = clauses.flatMap fun c => c.node.labels := by
  cases clauses with
  | nil => rfl
  | cons first rest => simp [Clause.body, List.flatMap_map]

/-! ## §3 Comparisons and patterns -/

/-- An operator has no label of its own. -/
theorem comparison_labels (left : Sql) (operator : String) (right : Sql) :
    (comparison left operator right).labels = left.labels ++ right.labels := by
  simp [comparison]

/-- A comparison has the labels of the column, then those of the operand. -/
theorem compareOperand_labels {c : Column} {operator : String} {operand : Sql}
    (h : t.compareOperand c operator operand = .ok sql) :
    sql.labels = bound c.bindings ++ operand.labels := by
  rw [Target.compareOperand, bind_eq_ok] at h
  obtain ⟨left, hleft, h⟩ := h
  split at h
  · -- the cast of a text comparison stands behind the column and carries no label
    rw [pure_eq_ok] at h
    subst h
    split <;> simp [comparison_labels, column_labels hleft]
  · rw [pure_eq_ok] at h
    subst h
    rw [comparison_labels, column_labels hleft]

/-- A value is bound behind the values of its column. -/
theorem compare_labels {c : Column} {operator : String} {v : Value}
    (h : t.compare c operator v = .ok sql) : sql.labels = bound (c.bindings ++ [v]) := by
  rw [compareOperand_labels h, labels_parameter, bound_append]

theorem bitwise_labels {c : Column} {operator : String} {v : Value}
    (h : t.bitwise c operator v = .ok sql) : sql.labels = bound (c.bindings ++ [v]) := by
  rw [Target.bitwise] at h
  split at h
  · simp only [bind_eq_ok, pure_eq_ok] at h
    obtain ⟨left, hleft, rfl⟩ := h
    simp [column_labels hleft]
  · exact compare_labels h

/-- A pattern is bound in the form that the dialect needs, and stays raw if it is raw. -/
theorem isRaw_likeBinding (t : Target) (pattern : Value) (caseSensitive : Bool) :
    (t.likeBinding pattern caseSensitive).isRaw = pattern.isRaw := by
  unfold Target.likeBinding
  split <;> rfl

/-- What is bound for a pattern is what is collected for it, a glob in SQLite. -/
theorem like_labels {c : Column} {pattern : Value} {caseSensitive negated : Bool}
    (h : t.like c pattern caseSensitive negated = .ok sql) :
    sql.labels = bound (c.bindings ++ [t.likeBinding pattern caseSensitive]) := by
  rw [Target.like, bind_eq_ok] at h
  obtain ⟨operator, _, h⟩ := h
  rw [compareOperand_labels h, labels_parameterFor, bound_append, bound_singleton,
    isRaw_likeBinding]

/-! ## §4 Ranges, lists and nulls -/

/-- The lower bound is bound in front of the upper one. -/
theorem between_labels {c : Column} {low high : Value} {negated : Bool}
    (h : t.between c low high negated = .ok sql) :
    sql.labels = bound (c.bindings ++ [low, high]) := by
  simp only [Target.between, bind_eq_ok, pure_eq_ok] at h
  obtain ⟨left, hleft, rfl⟩ := h
  simp [column_labels hleft, bound_cons low [high]]

/-- Three columns in the order in which they are written. -/
theorem betweenColumns_labels {c low high : Column} {negated : Bool}
    (h : t.betweenColumns c low high negated = .ok sql) :
    sql.labels = bound (columnBindings [c, low, high]) := by
  simp only [Target.betweenColumns, bind_eq_ok, pure_eq_ok] at h
  obtain ⟨left, hleft, lower, hlower, upper, hupper, rfl⟩ := h
  simp [column_labels hleft, column_labels hlower, column_labels hupper, columnBindings]

theorem inNothing_labels (negated : Bool) : (Target.inNothing negated).labels = [] := by
  cases negated <;> rfl

/-- Members are bound behind the values of the column. -/
theorem among_labels {c : Column} {members : Sql} {negated : Bool}
    (h : t.among c members negated = .ok sql) :
    sql.labels = bound c.bindings ++ members.labels := by
  simp only [Target.among, bind_eq_ok, pure_eq_ok] at h
  obtain ⟨left, hleft, rfl⟩ := h
  simp [column_labels hleft]

/-- An empty list is written without its column, and nothing is bound for it. -/
theorem inList_labels {c : Column} {values : List Value} {negated : Bool}
    (h : t.inList c values negated = .ok sql) :
    sql.labels = bound (if values.isEmpty then [] else c.bindings ++ values) := by
  rw [Target.inList] at h
  split at h
  · -- membership in nothing writes neither the column nor a value
    cases h
    rw [if_pos ‹_›, inNothing_labels, bound_nil]
  · rw [if_neg ‹_›, among_labels h, labels_parameters, bound_append]

/-- Integers stand in the text, so only the column has labels. -/
theorem inIntegers_labels {c : Column} {values : List Int64} {negated : Bool}
    (h : t.inIntegers c values negated = .ok sql) :
    sql.labels = bound (if values.isEmpty then [] else c.bindings) := by
  rw [Target.inIntegers] at h
  split at h
  · cases h
    rw [if_pos ‹_›, inNothing_labels, bound_nil]
  · -- integers stand in the text, so that the column alone binds values
    rw [if_neg ‹_›, among_labels h, labels_ofString, List.append_nil]

/-- A null test writes its column once, except for a selector, which has no labels. -/
theorem nullTest_labels {c : Column} {isNull : Bool} (h : t.nullTest c isNull = .ok sql) :
    sql.labels = bound c.bindings := by
  unfold Target.nullTest at h
  split at h
  · split at h
    · -- the selector test of MySQL is text throughout, as a named column is
      rw [pure_eq_ok] at h
      subst h
      simp [Column.bindings]
    · simp only [bind_eq_ok, pure_eq_ok] at h
      obtain ⟨left, hleft, rfl⟩ := h
      simp [column_labels hleft]
  · simp only [bind_eq_ok, pure_eq_ok] at h
    obtain ⟨left, hleft, rfl⟩ := h
    simp [column_labels hleft]

/-! ## §5 Dates, columns and rows -/

/-- A part of a date, in the form of any dialect. -/
theorem datePart_labels {part : DatePart} {c : Column} {operator : String} {v : Value}
    (h : t.datePart part c operator v = .ok sql) : sql.labels = bound (c.bindings ++ [v]) := by
  unfold Target.datePart Target.compareFunction at h
  -- every dialect puts the column in front of the operator and the value behind it
  split at h <;> simp only [bind_eq_ok, pure_eq_ok] at h <;> obtain ⟨left, hleft, rfl⟩ := h <;>
    simp [column_labels hleft]

theorem compareColumns_labels {first second : Column} {operator : String}
    (h : t.compareColumns first operator second = .ok sql) :
    sql.labels = bound (columnBindings [first, second]) := by
  simp only [Target.compareColumns, bind_eq_ok, pure_eq_ok] at h
  obtain ⟨left, hleft, right, hright, rfl⟩ := h
  simp [column_labels hleft, column_labels hright, columnBindings]

/-- Values are bound behind those of all columns. -/
theorem rowValues_labels {columns : List Column} {operator : String} {values : List Value}
    (h : t.rowValues columns operator values = .ok sql) :
    sql.labels = bound (columnBindings columns ++ values) := by
  obtain ⟨-, left, hleft, rfl⟩ := rowValues_eq_ok h
  simp [columnList_labels hleft]

/-! ## §6 JSON and full text -/

/-- A selector and a boolean literal, without a placeholder. -/
theorem jsonBoolean_labels {selector operator : String} {v : Bool}
    (h : t.jsonBoolean selector operator v = .ok sql) : sql.labels = [] := by
  simp only [Target.jsonBoolean, bind_eq_ok, pure_eq_ok] at h
  obtain ⟨_, _, rfl⟩ := h
  simp

/-- What is bound for a value that is not raw is not raw either. -/
theorem isRaw_jsonBinding {v : Value} (h : v.isRaw = false) : (t.jsonBinding v).isRaw = false := by
  unfold Target.jsonBinding
  split
  · rfl
  · rfl
  · exact h
  · exact h
  · rfl

/-- What is bound for a document is what is collected for it. -/
theorem jsonContains_labels {selector : String} {v : Value} {negated : Bool}
    (h : t.jsonContains selector v negated = .ok sql) :
    sql.labels = bound (if v.isRaw then [] else [t.jsonBinding v]) := by
  simp only [Target.jsonContains, bind_eq_ok, pure_eq_ok] at h
  obtain ⟨test, htest, rfl⟩ := h
  -- each dialect that has the test writes the operand once
  have operand : test.labels = (parameterFor v (t.jsonBinding v)).labels := by
    unfold Target.jsonContainsOperand at htest
    split at htest
    · cases htest
    · cases htest
    · simp only [bind_eq_ok, pure_eq_ok] at htest
      obtain ⟨_, _, rfl⟩ := htest
      simp
    · rw [pure_eq_ok] at htest
      subst htest
      simp
    · rw [pure_eq_ok] at htest
      subst htest
      simp
  rw [labels_append, labels_ofString, operand, labels_parameterFor]
  -- a raw operand stands in the text, and then nothing is collected either
  split
  · rfl
  · rename_i hraw
    rw [bound_singleton, isRaw_jsonBinding (by simpa using hraw)]
    rfl

/-- A key stands in the text. -/
theorem jsonContainsKey_labels {selector : String} {negated : Bool}
    (h : t.jsonContainsKey selector negated = .ok sql) : sql.labels = [] := by
  simp only [Target.jsonContainsKey, bind_eq_ok, pure_eq_ok] at h
  obtain ⟨_, _, rfl⟩ := h
  rfl

/-- A selector has no labels, so the length is the only one. -/
theorem jsonLength_labels {selector operator : String} {v : Value}
    (h : t.jsonLength selector operator v = .ok sql) : sql.labels = bound [v] := by
  unfold Target.jsonLength Target.jsonLengthOperand at h
  -- the operand stands behind the length, however the dialect writes that
  split at h <;> simp only [bind_eq_ok, pure_eq_ok] at h <;> obtain ⟨length, _, h⟩ := h
  · rw [← h]
    simp
  · rw [← h]
    simp
  · obtain ⟨_, _, rfl⟩ := h
    simp
  · rw [← h]
    simp
  · rw [← h]
    simp

/-- A search binds its text behind the values of its columns. -/
theorem fullText_labels {columns : List Column} {v : Value} {options : FullTextOptions}
    (h : t.fullText columns v options = .ok sql) :
    sql.labels = bound (columnBindings columns ++ [v]) := by
  unfold Target.fullText at h
  split at h
  · simp only [bind_eq_ok, pure_eq_ok] at h
    obtain ⟨list, hlist, rfl⟩ := h
    simp [columnList_labels hlist]
  · -- PostgreSQL searches a vector for every column
    simp only [bind_eq_ok, pure_eq_ok] at h
    obtain ⟨vectors, hvectors, rfl⟩ := h
    have hvector : vectors.flatMap labels = columns.flatMap fun c => bound c.bindings := by
      refine flatMap_labels hvectors fun c s hs => ?_
      simp only [bind_eq_ok, pure_eq_ok] at hs
      obtain ⟨column, hcolumn, rfl⟩ := hs
      simp [column_labels hcolumn]
    simp [hvector, columnBindings]
  · cases h

/-! ## §7 Conditions on groups -/

mutual

/-- A condition on groups is labelled with its values. -/
theorem having_labels : (p : HavingPredicate) → {sql : Sql} → t.having p = .ok sql →
    sql.labels = bound p.bindings
  | .raw text bindings, _, h => by
    rw [Target.having] at h
    cases h
    simp [HavingPredicate.bindings]
  | .expression text, _, h => by
    rw [Target.having] at h
    cases h
    simp [HavingPredicate.bindings]
  | .compare c operator v, _, h => by
    simp only [Target.having, bind_eq_ok, pure_eq_ok] at h
    obtain ⟨left, hleft, rfl⟩ := h
    simp [column_labels hleft, HavingPredicate.bindings]
  | .between c low high negated, _, h => by
    rw [Target.having] at h
    rw [between_labels h, HavingPredicate.bindings]
  | .isNull c, _, h => by
    rw [Target.having] at h
    rw [nullTest_labels h, HavingPredicate.bindings]
  | .isNotNull c, _, h => by
    rw [Target.having] at h
    rw [nullTest_labels h, HavingPredicate.bindings]
  | .bitwise c operator v, _, h => by
    simp only [Target.having, bind_eq_ok, pure_eq_ok] at h
    obtain ⟨left, hleft, rfl⟩ := h
    simp [column_labels hleft, HavingPredicate.bindings]
  | .group clauses, _, h => by
    obtain ⟨-, inner, hinner, rfl⟩ := havingGroup_eq_ok h
    simp [body_labels, havingClauses_labels clauses hinner, HavingPredicate.bindings]

/-- Conditions on groups are labelled with their values, clause by clause. -/
theorem havingClauses_labels : (clauses : List (Clause HavingPredicate)) →
    {out : List (Clause Sql)} → t.havingClauses clauses = .ok out →
    (out.flatMap fun c => c.node.labels) = bound (havingBindings clauses)
  | [], _, h => by
    rw [Target.havingClauses] at h
    cases h
    rfl
  | ⟨_, node⟩ :: rest, _, h => by
    simp only [Target.havingClauses, bind_eq_ok, pure_eq_ok] at h
    obtain ⟨first, hfirst, others, hothers, rfl⟩ := h
    simp [having_labels node hfirst, havingClauses_labels rest hothers, havingBindings]

end

/-- The clause of conditions on groups has the labels of the conditions. -/
theorem havingClause_labels {clauses : List (Clause HavingPredicate)}
    (h : t.havingClause clauses = .ok sql) : sql.labels = bound (havingBindings clauses) := by
  obtain ⟨rfl, rfl⟩ | ⟨out, hout, rfl⟩ := havingClause_eq_ok h
  · rfl
  · simp [body_labels, havingClauses_labels clauses hout]

end SqlCompiler
