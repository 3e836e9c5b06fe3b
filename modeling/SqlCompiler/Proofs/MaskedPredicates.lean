import SqlCompiler.Proofs.Masking
import SqlCompiler.Proofs.Outcome

/-!
# Texts of Masked Predicates

Masking the values of a column, a predicate or a condition on groups changes neither its text nor
its fault. Every lemma compares two runs of one function, step by step.

## Main definitions

- `SameText`: two pieces of SQL that read alike, whatever they bind

## Main statements

- `SameText.join`, `SameText.words`: layout goes by the texts of the pieces
- `column_mask`, `compare_mask`, `like_mask`, …: the predicates one by one
- `having_mask`, `havingClauses_mask`: conditions on groups, by recursion on their groups
-/

namespace SqlCompiler

open Sql

/-! ## §1 The same text -/

/-- Two pieces of SQL with the same text. -/
structure SameText (a b : Sql) : Prop where
  text : a.text = b.text

/-- Two clauses with the same connective and the same text. -/
structure SameClause (a b : Clause Sql) : Prop where
  connective : a.connective = b.connective
  node : SameText a.node b.node

namespace SameText

/-- The same SQL. -/
theorem refl (a : Sql) : SameText a a :=
  ⟨rfl⟩

/-- Whether a clause is left out depends on its text. -/
theorem isEmpty {a b : Sql} (h : SameText a b) : a.isEmpty = b.isEmpty := by
  rw [Sql.isEmpty, Sql.isEmpty, h.text]

/-- Text is the same piece by piece. -/
theorem append {a b c d : Sql} (h : SameText a b) (h' : SameText c d) :
    SameText (a ++ c) (b ++ d) :=
  ⟨by rw [text_append, text_append, h.text, h'.text]⟩

/-- A placeholder reads alike for all values, and a raw expression stands in its place. -/
theorem parameter (v : Value) : SameText (Sql.parameter v.mask) (Sql.parameter v) :=
  ⟨by simp⟩

/-- Several pieces with a separator between them. -/
theorem join (sep : String) {xs ys : List Sql} (h : List.Forall₂ SameText xs ys) :
    SameText (Sql.join sep xs) (Sql.join sep ys) := by
  induction h with
  | nil => exact refl _
  | cons hxy hrest ih =>
    cases hrest with
    | nil => exact hxy
    | cons => exact (hxy.append (refl _)).append ih

/-- Several pieces in a row, the empty ones left out alike. -/
theorem words {xs ys : List Sql} (h : List.Forall₂ SameText xs ys) :
    SameText (Sql.words xs) (Sql.words ys) := by
  induction h with
  | nil => exact refl _
  | cons hxy _ ih =>
    simp only [Sql.words, hxy.isEmpty, ih.isEmpty]
    split
    · exact hxy.append ih
    · exact (hxy.append (refl _)).append ih

theorem concat {xs ys : List Sql} (h : List.Forall₂ SameText xs ys) :
    SameText (Sql.concat xs) (Sql.concat ys) := by
  induction h with
  | nil => exact refl _
  | @cons x y xs ys hxy _ ih =>
    show SameText (x ++ Sql.concat xs) (y ++ Sql.concat ys)
    exact hxy.append ih

/-- Trailing blanks are those of the text. -/
theorem trimEnd {a b : Sql} (h : SameText a b) : SameText a.trimEnd b.trimEnd :=
  ⟨by rw [text_trimEnd, text_trimEnd, h.text]⟩

/-- Placeholders for a list of values do not show them. -/
theorem parameters (values : List Value) :
    SameText (Sql.parameters (maskValues values)) (Sql.parameters values) := by
  apply join
  rw [maskValues, List.map_map, List.forall₂_map_left_iff, List.forall₂_map_right_iff,
    List.forall₂_same]
  exact fun v _ => parameter v

/-- Clauses read alike if their connectives are the same and their conditions read alike. -/
theorem body {xs ys : List (Clause Sql)} (h : List.Forall₂ SameClause xs ys) :
    SameText (Clause.body xs) (Clause.body ys) := by
  cases h with
  | nil => exact refl _
  | cons hxy hrest =>
    simp only [Clause.body, hxy.connective]
    refine ((refl _).append hxy.node).append (concat ?_)
    rw [List.forall₂_map_left_iff, List.forall₂_map_right_iff]
    exact hrest.imp fun c d h => ⟨by simp [h.connective, h.node.text]⟩

end SameText

/-- What does not look at values at all runs alike. -/
theorem alike_refl (x : Except Fault Sql) : Alike SameText x x :=
  .refl .refl x

variable {t : Target}

/-! ## §2 Columns -/

/-- A column is written without its values, which raw SQL only counts. -/
theorem column_mask (t : Target) (c : Column) : Alike SameText (t.column c.mask) (t.column c) := by
  cases c with
  | named name => exact alike_refl _
  | raw sql bindings => exact .result ⟨by simp⟩

/-- Columns in a row. -/
theorem columnList_mask (t : Target) (columns : List Column) :
    Alike SameText (t.columnList (maskColumns columns)) (t.columnList columns) :=
  (Alike.mapM_map columns (column_mask t)).bind fun _ _ hparts => .pure (.join ", " hparts)

/-! ## §3 Comparisons and patterns -/

/-- A comparison with an operand that has the same text. -/
theorem compareOperand_mask (c : Column) (operator : String) {operand operand' : Sql}
    (h : SameText operand operand') :
    Alike SameText (t.compareOperand c.mask operator operand)
      (t.compareOperand c operator operand') := by
  refine (column_mask t c).bind fun left left' hleft => ?_
  split
  · -- whether PostgreSQL casts the column depends on the operator alone
    refine .pure ⟨?_⟩
    split <;> simp [comparison, hleft.text, h.text]
  · exact .pure ⟨by simp [comparison, hleft.text, h.text]⟩

/-- The placeholder of a value does not show the value. -/
theorem compare_mask (c : Column) (operator : String) (v : Value) :
    Alike SameText (t.compare c.mask operator v.mask) (t.compare c operator v) :=
  compareOperand_mask c operator (.parameter v)

theorem bitwise_mask (c : Column) (operator : String) (v : Value) :
    Alike SameText (t.bitwise c.mask operator v.mask) (t.bitwise c operator v) := by
  unfold Target.bitwise
  split
  · exact (column_mask t c).bind fun left left' hleft => .pure ⟨by simp [hleft.text]⟩
  · exact compare_mask c operator v

/-- The operator of a pattern match is chosen by case sensitivity, never by the pattern. -/
theorem like_mask (c : Column) (pattern : Value) (caseSensitive negated : Bool) :
    Alike SameText (t.like c.mask pattern.mask caseSensitive negated)
      (t.like c pattern caseSensitive negated) := by
  refine .step _ fun operator => ?_
  -- the glob of a pattern is bound in its place, so that the place reads as before
  exact compareOperand_mask c _ ⟨by simp⟩

/-! ## §4 Ranges, lists and nulls -/

/-- Both bounds are placeholders or raw expressions. -/
theorem between_mask (c : Column) (low high : Value) (negated : Bool) :
    Alike SameText (t.between c.mask low.mask high.mask negated)
      (t.between c low high negated) :=
  (column_mask t c).bind fun left left' hleft => .pure ⟨by simp [hleft.text]⟩

/-- Columns as bounds, one after the other. -/
theorem betweenColumns_mask (c low high : Column) (negated : Bool) :
    Alike SameText (t.betweenColumns c.mask low.mask high.mask negated)
      (t.betweenColumns c low high negated) := by
  refine (column_mask t c).bind fun left left' hleft => ?_
  refine (column_mask t low).bind fun lower lower' hlower => ?_
  refine (column_mask t high).bind fun upper upper' hupper => ?_
  exact .pure ⟨by simp [hleft.text, hlower.text, hupper.text]⟩

/-- Membership among members with the same text. -/
theorem among_mask (c : Column) {members members' : Sql} (negated : Bool)
    (h : SameText members members') :
    Alike SameText (t.among c.mask members negated) (t.among c members' negated) :=
  (column_mask t c).bind fun left left' hleft => .pure ⟨by simp [hleft.text, h.text]⟩

/-- A list is empty before it is masked or not at all. -/
theorem inList_mask (c : Column) (values : List Value) (negated : Bool) :
    Alike SameText (t.inList c.mask (maskValues values) negated) (t.inList c values negated) := by
  unfold Target.inList
  rw [maskValues_isEmpty]
  split
  · exact alike_refl _
  · exact among_mask c negated (.parameters values)

/-- Integers stand in the text and are no values. -/
theorem inIntegers_mask (c : Column) (values : List Int64) (negated : Bool) :
    Alike SameText (t.inIntegers c.mask values negated) (t.inIntegers c values negated) := by
  unfold Target.inIntegers
  split
  · exact alike_refl _
  · exact among_mask c negated (.refl _)

/-- A null test names its column and nothing else. -/
theorem nullTest_mask (c : Column) (isNull : Bool) :
    Alike SameText (t.nullTest c.mask isNull) (t.nullTest c isNull) := by
  cases c with
  | named name => exact alike_refl _
  | raw sql bindings =>
    -- raw SQL is no selector, so that both runs test the column itself
    cases ht : t.dialect <;> simp only [Target.nullTest, Column.mask, ht] <;>
      exact (column_mask t (.raw sql bindings)).bind fun left left' hleft =>
        .pure ⟨by simp [hleft.text]⟩

/-! ## §5 Dates, columns and rows -/

theorem compareFunction_mask (function : String) (c : Column) (operator : String) (v : Value) :
    Alike SameText (t.compareFunction function c.mask operator v.mask)
      (t.compareFunction function c operator v) :=
  (column_mask t c).bind fun left left' hleft => .pure ⟨by simp [hleft.text]⟩

/-- A part of a date, in the function or the cast of each dialect. -/
theorem datePart_mask (part : DatePart) (c : Column) (operator : String) (v : Value) :
    Alike SameText (t.datePart part c.mask operator v.mask) (t.datePart part c operator v) := by
  unfold Target.datePart
  split
  case h_7 => exact compareFunction_mask _ c operator v
  all_goals exact (column_mask t c).bind fun left left' hleft => .pure ⟨by simp [hleft.text]⟩

/-- Two columns, one after the other. -/
theorem compareColumns_mask (first : Column) (operator : String) (second : Column) :
    Alike SameText (t.compareColumns first.mask operator second.mask)
      (t.compareColumns first operator second) := by
  refine (column_mask t first).bind fun left left' hleft => ?_
  exact (column_mask t second).bind fun right right' hright =>
    .pure ⟨by simp [hleft.text, hright.text]⟩

/-- A mismatch of widths is reported alike: masking keeps the number of columns and values. -/
theorem rowValues_mask (columns : List Column) (operator : String) (values : List Value) :
    Alike SameText (t.rowValues (maskColumns columns) operator (maskValues values))
      (t.rowValues columns operator values) := by
  unfold Target.rowValues
  simp only [length_maskColumns, length_maskValues]
  split
  · exact .fault _
  · exact (columnList_mask t columns).bind fun left left' hleft =>
      .pure ⟨by simp [hleft.text, (SameText.parameters values).text]⟩

/-! ## §6 JSON and full text -/

theorem jsonContainsOperand_mask (selector : String) {operand operand' : Sql}
    (h : SameText operand operand') :
    Alike SameText (t.jsonContainsOperand selector operand)
      (t.jsonContainsOperand selector operand') := by
  unfold Target.jsonContainsOperand
  split
  · exact .fault _
  · exact .fault _
  · exact .step _ fun document => .pure ⟨by simp [h.text]⟩
  · exact .pure ⟨by simp [h.text]⟩
  · exact .pure ⟨by simp [h.text]⟩

/-- What is looked for is bound as text or as it is; either way it is one placeholder. -/
theorem jsonContains_mask (selector : String) (v : Value) (negated : Bool) :
    Alike SameText (t.jsonContains selector v.mask negated)
      (t.jsonContains selector v negated) := by
  refine (jsonContainsOperand_mask selector ?_).bind fun test test' htest =>
    .pure ⟨by simp [htest.text]⟩
  exact ⟨by simp⟩

/-- A length is compared with one placeholder. -/
theorem jsonLength_mask (selector operator : String) (v : Value) :
    Alike SameText (t.jsonLength selector operator v.mask) (t.jsonLength selector operator v) := by
  unfold Target.jsonLength Target.jsonLengthOperand
  -- the length is written without a look at the value that it is compared with
  split
  case h_3 => exact .step _ fun document => .step _ fun length => .pure ⟨by simp⟩
  all_goals exact .step _ fun length => .pure ⟨by simp⟩

/-- Language and mode of a search are options, not values. -/
theorem fullText_mask (columns : List Column) (v : Value) (options : FullTextOptions) :
    Alike SameText (t.fullText (maskColumns columns) v.mask options)
      (t.fullText columns v options) := by
  unfold Target.fullText
  -- the language and the mode of a search are options, not values
  split
  · exact (columnList_mask t columns).bind fun list list' hlist => .pure ⟨by simp [hlist.text]⟩
  · refine Alike.bind (R := List.Forall₂ SameText) (Alike.mapM_map columns fun c => ?_)
      fun vectors vectors' hvectors => ?_
    · exact (column_mask t c).bind fun left left' hleft => .pure ⟨by simp [hleft.text]⟩
    · exact .pure ⟨by simp [(SameText.join " || " hvectors).text]⟩
  · exact .fault _

/-! ## §7 Conditions on groups -/

mutual

/-- Masking a condition on groups changes neither its text nor its fault. -/
theorem having_mask (t : Target) : (p : HavingPredicate) →
    Alike SameText (t.having p.mask) (t.having p)
  | .raw text bindings => by
    simp only [HavingPredicate.mask, Target.having]
    exact .result ⟨by simp⟩
  | .expression text => by
    simp only [HavingPredicate.mask, Target.having]
    exact alike_refl _
  | .compare c operator v => by
    simp only [HavingPredicate.mask, Target.having]
    exact (column_mask t c).bind fun left left' hleft => .pure ⟨by simp [hleft.text]⟩
  | .between c low high negated => by
    simp only [HavingPredicate.mask, Target.having]
    exact between_mask c low high negated
  | .isNull c => by
    simp only [HavingPredicate.mask, Target.having]
    exact nullTest_mask c true
  | .isNotNull c => by
    simp only [HavingPredicate.mask, Target.having]
    exact nullTest_mask c false
  | .bitwise c operator v => by
    simp only [HavingPredicate.mask, Target.having]
    exact (column_mask t c).bind fun left left' hleft => .pure ⟨by simp [hleft.text]⟩
  | .group clauses => by
    simp only [HavingPredicate.mask, Target.having, maskHavings_isEmpty]
    split
    · exact .fault _
    · exact (havingClauses_mask t clauses).bind fun inner inner' hinner =>
        .pure ⟨by simp [(SameText.body hinner).text]⟩

/-- A list of conditions on groups, one by one. -/
theorem havingClauses_mask (t : Target) : (clauses : List (Clause HavingPredicate)) →
    Alike (List.Forall₂ SameClause) (t.havingClauses (maskHavings clauses))
      (t.havingClauses clauses)
  | [] => by
    simp only [maskHavings, Target.havingClauses]
    exact .result .nil
  | ⟨connective, node⟩ :: rest => by
    simp only [maskHavings, Target.havingClauses]
    refine (having_mask t node).bind fun first first' hfirst => ?_
    exact (havingClauses_mask t rest).bind fun others others' hothers =>
      .pure (.cons ⟨rfl, hfirst⟩ hothers)

end

/-- The clause of conditions on groups, left out alike. -/
theorem havingClause_mask (t : Target) (clauses : List (Clause HavingPredicate)) :
    Alike SameText (t.havingClause (maskHavings clauses)) (t.havingClause clauses) := by
  unfold Target.havingClause
  rw [maskHavings_isEmpty]
  split
  · exact alike_refl _
  · exact (havingClauses_mask t clauses).bind fun inner inner' hinner =>
      .pure ⟨by simp [(SameText.body hinner).text]⟩

end SqlCompiler
