import SqlCompiler.Proofs.GivenTexts
import SqlCompiler.Proofs.UnmarkedNames
import SqlCompiler.Proofs.SelectForms
import SqlCompiler.Proofs.WrittenForms

/-!
# Placeholders of Predicates

Every predicate that looks into no other query has a placeholder for each of its values, and no
others but those of its operator. An operator that is escaped brings none; one that stands in the
text as it is brings its own.

## Main statements

- `column_settled`, `columnList_settled`, `parameter_tallied`: what predicates are made of
- `compare_tallied`, `like_tallied`, …: predicates without placeholders of an operator
- `datePart_tallied`, `rowValues_tallied`, …: predicates with the placeholders of their operator
- `having_tallied`, `havingClauses_tallied`: conditions on groups, by recursion on their groups
-/

namespace SqlCompiler

variable {t : Target} {sql : Sql}

/-! ## §1 Columns and values -/

section Prefixed

variable (hp : Unmarked t.options.tablePrefix)
include hp

/-- A column whose name or raw SQL is plain: nothing in it is a placeholder. -/
theorem column_settled {c : Column} (hm : PlainTexts c.given) (h : t.column c = .ok sql) :
    Settled 0 sql := by
  cases c with
  | named name =>
    obtain ⟨⟨hname, -⟩, -⟩ := plainTexts_cons.1 hm
    simp only [Target.column, bind_eq_ok, pure_eq_ok] at h
    obtain ⟨quoted, hquoted, rfl⟩ := h
    exact settled_words (quote_unmarked hp hname hquoted)
  | raw text bindings =>
    obtain ⟨⟨htext, hbindings⟩, -⟩ := plainTexts_cons.1 hm
    rw [Target.column, pure_eq_ok] at h
    subst h
    exact settled_fragment htext hbindings

/-- Columns in a row. -/
theorem columnList_settled {columns : List Column} (hm : PlainTexts (columnGiven columns))
    (h : t.columnList columns = .ok sql) : Settled 0 sql := by
  simp only [Target.columnList, bind_eq_ok, pure_eq_ok] at h
  obtain ⟨parts, hparts, rfl⟩ := h
  refine settled_join (by decide) (forall_of_mapM hparts fun c hc sql hsql => ?_)
  exact column_settled hp (plainTexts_flatMap.1 hm c hc) hsql

omit hp in
/-- The place of a value, whatever is bound for it. -/
theorem tallied_of_given {v w : Value} (hm : PlainTexts v.given) :
    Tallied 0 (.parameterFor v w) := by
  refine tallied_parameterFor fun s hs => ?_
  rw [Value.given, hs] at hm
  exact (plainTexts_cons.1 hm).1.1

omit hp in
/-- A value has one placeholder, or none if it is a raw expression. -/
theorem parameter_tallied {v : Value} (hm : PlainTexts v.given) : Tallied 0 (.parameter v) :=
  tallied_of_given hm

omit hp in
/-- Values between commas. -/
theorem parameters_tallied {values : List Value} (hm : PlainTexts (valueGiven values)) :
    Tallied 0 (.parameters values) := by
  refine Tallies.join (tallies_zero fun part hpart => ?_) (by decide)
  obtain ⟨v, hv, rfl⟩ := List.mem_map.1 hpart
  exact parameter_tallied (plainTexts_flatMap.1 hm v hv)

omit hp in
theorem unmarked_negation (negated : Bool) : Unmarked (negation negated) := by
  cases negated <;> decide

omit hp in
/-- The words of a test behind a column. -/
theorem Settled.negated {left : Sql} (hleft : Settled 0 left) (negated : Bool) {s : String}
    (hs : Unmarked s) : Settled 0 (left ++ " " ++ negation negated ++ s) :=
  ((hleft.text (by decide)).text (unmarked_negation negated)).text hs

/-! ## §2 Escaped operators -/

omit hp in
/-- An escaped operator between two operands brings no placeholder with it. -/
theorem comparison_tallied {left right : Sql} (hleft : Settled 0 left) (operator : String)
    (hright : Tallied 0 right) : Tallied 0 (comparison left operator right) := by
  have hoperator : Settled 0 (.ofString (escapePlaceholders operator)) :=
    settled_ofString (settles_escaped operator)
  exact (((hleft.text (by decide)).append hoperator).text (by decide)).before hright

/-- A comparison has the placeholders of its operand and no other. -/
theorem compareOperand_tallied {c : Column} {operator : String} {operand : Sql}
    (hc : PlainTexts c.given) (hoperand : Tallied 0 operand)
    (h : t.compareOperand c operator operand = .ok sql) : Tallied 0 sql := by
  rw [Target.compareOperand, bind_eq_ok] at h
  obtain ⟨left, hleft, h⟩ := h
  have hcolumn := column_settled hp hc hleft
  split at h
  · rw [pure_eq_ok] at h
    subst h
    -- PostgreSQL: a column that is compared with a pattern is cast
    refine comparison_tallied ?_ operator hoperand
    split
    · exact hcolumn.text (by decide)
    · exact hcolumn
  · rw [pure_eq_ok] at h
    subst h
    exact comparison_tallied hcolumn operator hoperand

/-- A value behind an escaped operator. -/
theorem compare_tallied {c : Column} {operator : String} {v : Value} (hc : PlainTexts c.given)
    (hv : PlainTexts v.given) (h : t.compare c operator v = .ok sql) : Tallied 0 sql :=
  compareOperand_tallied hp hc (parameter_tallied hv) h

/-- A pattern behind the operator of a match, which is a word. -/
theorem like_tallied {c : Column} {pattern : Value} {caseSensitive negated : Bool}
    (hc : PlainTexts c.given) (hpattern : PlainTexts pattern.given)
    (h : t.like c pattern caseSensitive negated = .ok sql) : Tallied 0 sql := by
  rw [Target.like, bind_eq_ok] at h
  obtain ⟨operator, -, h⟩ := h
  exact compareOperand_tallied hp hc (tallied_of_given hpattern) h

omit hp in
/-- Bits are picked out in parentheses, and the operator stands in them as it is. -/
theorem bits_tallied {left : Sql} (hleft : Settled 0 left) (operator : String) {v : Value}
    (hv : PlainTexts v.given) {s : String} (hs : Delimits s) :
    Tallied (placeholders operator)
      ("(" ++ left ++ " " ++ operator ++ " " ++ Sql.parameter v ++ s) := by
  have hhead : Settled 0 ("(" ++ left ++ " ") := (hleft.behind (by decide)).text (by decide)
  have hvalue := (hhead.operator operator (by decide : Delimits " ")).before (parameter_tallied hv)
  exact (hvalue.text hs).tallied

/-- Only PostgreSQL writes the operator as it is. -/
theorem bitwise_tallied {c : Column} {operator : String} {v : Value} (hc : PlainTexts c.given)
    (hv : PlainTexts v.given) (h : t.bitwise c operator v = .ok sql) :
    Tallied (t.bitOperator operator).marks sql := by
  unfold Target.bitwise at h
  split at h
  · rename_i hpostgres
    simp only [bind_eq_ok, pure_eq_ok] at h
    obtain ⟨left, hleft, rfl⟩ := h
    simp only [Target.bitOperator, hpostgres]
    exact bits_tallied (column_settled hp hc hleft) operator hv (by decide)
  · simp only [Target.bitOperator]
    exact compare_tallied hp hc hv h

/-! ## §3 Ranges, lists and nulls -/

/-- Both bounds have placeholders. -/
theorem between_tallied {c : Column} {low high : Value} {negated : Bool}
    (hm : PlainTexts (c.given ++ valueGiven [low, high]))
    (h : t.between c low high negated = .ok sql) : Tallied 0 sql := by
  obtain ⟨hc, hlow, hhigh⟩ : _ ∧ _ ∧ _ := by simpa [valueGiven] using hm
  simp only [Target.between, bind_eq_ok, pure_eq_ok] at h
  obtain ⟨left, hleft, rfl⟩ := h
  have hwords := (column_settled hp hc hleft).negated negated (by decide : Unmarked "between ")
  have hrange := (hwords.before (parameter_tallied hlow)).text (by decide : Delimits " and ")
  exact hrange.before (parameter_tallied hhigh)

/-- Both bounds are columns. -/
theorem betweenColumns_tallied {c low high : Column} {negated : Bool}
    (hm : PlainTexts (columnGiven [c, low, high]))
    (h : t.betweenColumns c low high negated = .ok sql) : Tallied 0 sql := by
  obtain ⟨hc, hlow, hhigh⟩ : _ ∧ _ ∧ _ := by simpa [columnGiven] using hm
  simp only [Target.betweenColumns, bind_eq_ok, pure_eq_ok] at h
  obtain ⟨left, hleft, lower, hlower, upper, hupper, rfl⟩ := h
  have hwords := (column_settled hp hc hleft).negated negated (by decide : Unmarked "between ")
  have hrange := (hwords.append (column_settled hp hlow hlower)).text (by decide : Unmarked " and ")
  exact (hrange.append (column_settled hp hhigh hupper)).tallied

omit hp in
theorem inNothing_tallied (negated : Bool) : Tallied 0 (Target.inNothing negated) := by
  cases negated with
  | true => exact (settled_words (by decide)).tallied
  | false => exact (settled_words (by decide)).tallied

/-- Members between parentheses. -/
theorem among_tallied {c : Column} {members : Sql} {negated : Bool} (hc : PlainTexts c.given)
    (hmembers : Tallied 0 members) (h : t.among c members negated = .ok sql) : Tallied 0 sql := by
  simp only [Target.among, bind_eq_ok, pure_eq_ok] at h
  obtain ⟨left, hleft, rfl⟩ := h
  have hwords := (column_settled hp hc hleft).negated negated (by decide : Unmarked "in (")
  exact ((hwords.before hmembers).text (by decide)).tallied

/-- Values as members; an empty list has no placeholders and no values. -/
theorem inList_tallied {c : Column} {values : List Value} {negated : Bool}
    (hc : PlainTexts c.given) (hvalues : PlainTexts (valueGiven values))
    (h : t.inList c values negated = .ok sql) : Tallied 0 sql := by
  rw [Target.inList] at h
  split at h
  · cases h
    exact inNothing_tallied negated
  · exact among_tallied hp hc (parameters_tallied hvalues) h

/-- Integers have no marks. -/
theorem inIntegers_tallied {c : Column} {values : List Int64} {negated : Bool}
    (hc : PlainTexts c.given) (h : t.inIntegers c values negated = .ok sql) : Tallied 0 sql := by
  rw [Target.inIntegers] at h
  split at h
  · cases h
    exact inNothing_tallied negated
  · -- integers stand in the text, and are not bound
    have hnumbers : Unmarked (Text.join ", " (values.map fun n => toString n.toInt)) := by
      refine unmarked_join (by decide) fun piece hpiece => ?_
      obtain ⟨n, -, rfl⟩ := List.mem_map.1 hpiece
      exact unmarked_int n.toInt
    exact among_tallied hp hc (settled_words hnumbers).tallied h

/-- MySQL: the test of a selector for nothing or a JSON null. -/
theorem selectorIsNull_unmarked {name : String} (isNull : Bool) (h : Unmarked name) :
    Unmarked (t.selectorIsNull name isNull) := by
  have harguments := selectorArguments_unmarked hp h
  unfold Target.selectorIsNull
  dsimp only
  split
  · simp only [unmarked_append, harguments, and_true]
    decide
  · simp only [unmarked_append, harguments, and_true]
    decide

/-- A null test names its column and has no operator. -/
theorem nullTest_tallied {c : Column} {isNull : Bool} (hc : PlainTexts c.given)
    (h : t.nullTest c isNull = .ok sql) : Tallied 0 sql := by
  have htest : ∀ column, t.column c = .ok column →
      Tallied 0 (column ++ (if isNull then " is null" else " is not null" : String)) := by
    intro column hcolumn
    refine ((column_settled hp hc hcolumn).text ?_).tallied
    cases isNull <;> decide
  unfold Target.nullTest at h
  split at h
  · split at h
    · -- MySQL looks into a selector for a JSON null
      rw [pure_eq_ok] at h
      subst h
      have hname := (plainTexts_cons.1 hc).1.1
      exact (settled_words (selectorIsNull_unmarked hp isNull hname)).tallied
    · simp only [bind_eq_ok, pure_eq_ok] at h
      obtain ⟨column, hcolumn, rfl⟩ := h
      exact htest column hcolumn
  · simp only [bind_eq_ok, pure_eq_ok] at h
    obtain ⟨column, hcolumn, rfl⟩ := h
    exact htest column hcolumn

/-! ## §4 Verbatim operators -/

omit hp in
/-- A verbatim operator between two operands brings its placeholders with it. -/
theorem verbatim_tallied {left right : Sql} (hleft : Settled 0 left) (operator : String)
    (hright : Tallied 0 right) :
    Tallied (placeholders operator) (left ++ " " ++ operator ++ " " ++ right) :=
  ((hleft.text (by decide)).operator operator (by decide)).before hright

omit hp in
theorem unmarked_partName (part : DatePart) : Unmarked part.name := by
  cases part <;> decide

omit hp in
theorem unmarked_partFormat (part : DatePart) : Unmarked (Target.partFormat part) := by
  cases part <;> decide

/-- A part of a date; its operator stands in the text as it is. -/
theorem datePart_tallied {part : DatePart} {c : Column} {operator : String} {v : Value}
    (hc : PlainTexts c.given) (hv : PlainTexts v.given)
    (h : t.datePart part c operator v = .ok sql) : Tallied (placeholders operator) sql := by
  have hname := unmarked_partName part
  have hformat := unmarked_partFormat part
  -- in every dialect the operator stands behind the column, and the value behind the operator
  have hend : ∀ {a : Sql}, Settled 0 a →
      Tallied (placeholders operator) (a ++ operator ++ " " ++ Sql.parameter v) :=
    fun ha => (ha.operator operator (by decide)).before (parameter_tallied hv)
  have hcast : ∀ {a : Sql}, Settled 0 a → Tallied (placeholders operator)
      (a ++ operator ++ " cast(" ++ Sql.parameter v ++ " as text)") := by
    intro a ha
    have hvalue := (ha.operator operator (by decide : Delimits " cast(")).before
      (parameter_tallied hv)
    exact (hvalue.text (by decide)).tallied
  unfold Target.datePart Target.compareFunction at h
  split at h <;> simp only [bind_eq_ok, pure_eq_ok] at h <;> obtain ⟨left, hleft, rfl⟩ := h <;>
    have hcolumn := column_settled hp hc hleft
  · exact hend (((hcolumn.text (by decide)).text hname).text (by decide))
  · exact hend (((hcolumn.text (by decide)).text hname).text (by decide))
  · have hhead := ((settled_words (by decide : Unmarked "extract(")).text hname).text
      (by decide : Unmarked " from ")
    exact hend ((hhead.append hcolumn).text (by decide))
  · have hhead := ((settled_words (by decide : Unmarked "strftime('")).text hformat).text
      (by decide : Unmarked "', ")
    exact hcast ((hhead.append hcolumn).text (by decide))
  · have hhead := (hcolumn.behind (by decide : Unmarked "cast(")).text (by decide : Unmarked " as ")
    exact hend ((hhead.text hname).text (by decide))
  · have hhead := (hcolumn.behind (by decide : Unmarked "cast(")).text (by decide : Unmarked " as ")
    exact hend ((hhead.text hname).text (by decide))
  · have hhead := (settled_words hname).text (by decide : Unmarked "(")
    exact hend ((hhead.append hcolumn).text (by decide))

/-- Two columns with the operator between them as it is, whose marks are not counted by any
value. -/
theorem compareColumns_tallied {first second : Column} {operator : String}
    (hfirst : PlainTexts first.given) (hsecond : PlainTexts second.given)
    (h : t.compareColumns first operator second = .ok sql) :
    Tallied (placeholders operator) sql := by
  simp only [Target.compareColumns, bind_eq_ok, pure_eq_ok] at h
  obtain ⟨left, hleft, right, hright, rfl⟩ := h
  exact verbatim_tallied (column_settled hp hfirst hleft) operator
    (column_settled hp hsecond hright).tallied

/-- Columns and values with the operator between them as it is. -/
theorem rowValues_tallied {columns : List Column} {operator : String} {values : List Value}
    (hcolumns : PlainTexts (columnGiven columns)) (hvalues : PlainTexts (valueGiven values))
    (h : t.rowValues columns operator values = .ok sql) : Tallied (placeholders operator) sql := by
  obtain ⟨-, left, hleft, rfl⟩ := rowValues_eq_ok h
  have hhead : Settled 0 ("(" ++ left ++ ") ") :=
    ((columnList_settled hp hcolumns hleft).behind (by decide)).text (by decide)
  have hrow := (hhead.operator operator (by decide : Delimits " (")).before
    (parameters_tallied hvalues)
  exact (hrow.text (by decide)).tallied

/-! ## §5 JSON and full text -/

/-- A selector and a boolean literal, with the operator as it is. -/
theorem jsonBoolean_tallied {selector operator : String} {v : Bool} (hselector : Unmarked selector)
    (h : t.jsonBoolean selector operator v = .ok sql) : Tallied (placeholders operator) sql := by
  have hliteral : Unmarked (t.booleanLiteral (if v then "true" else "false")) :=
    booleanLiteral_unmarked (by cases v <;> decide)
  simp only [Target.jsonBoolean, bind_eq_ok, pure_eq_ok] at h
  obtain ⟨left, hleft, rfl⟩ := h
  have hcolumn := settled_words (booleanSelector_unmarked hp hselector hleft)
  exact verbatim_tallied hcolumn operator (settled_words hliteral).tallied

/-- Containment is written with operators and functions that have no marks. -/
theorem jsonContainsOperand_tallied {selector : String} {operand : Sql}
    (hselector : Unmarked selector) (hoperand : Tallied 0 operand)
    (h : t.jsonContainsOperand selector operand = .ok sql) : Tallied 0 sql := by
  unfold Target.jsonContainsOperand at h
  split at h
  · cases h
  · cases h
  · simp only [bind_eq_ok, pure_eq_ok] at h
    obtain ⟨document, hdocument, rfl⟩ := h
    have hhead := ((settled_words (by decide : Unmarked "(")).text
      (quoteDocument_unmarked hp hselector hdocument)).text (by decide : Unmarked ")::jsonb @> ")
    exact hhead.before hoperand
  · rw [pure_eq_ok] at h
    subst h
    have hrows : Unmarked (t.quoteIdentifier "json_each") := quoteIdentifier_unmarked (by decide)
    have hvalue : Unmarked (t.quoteIdentifier "value") := quoteIdentifier_unmarked (by decide)
    have hselect := ((settled_words (by decide : Unmarked "exists (select 1 from json_each(")).text
      (selectorArguments_unmarked hp hselector)).text (by decide : Unmarked ") where ")
    have hcolumn := ((hselect.text hrows).text (by decide : Unmarked ".")).text hvalue
    have htest := (hcolumn.text (by decide : Unmarked " is ")).before hoperand
    exact (htest.text (by decide)).tallied
  · rw [pure_eq_ok] at h
    subst h
    have hin := hoperand.text (by decide : Delimits " in (select [value] from ")
    exact ((hin.text (jsonRows_unmarked hp hselector)).text (by decide)).tallied

/-- A document that contains a value. -/
theorem jsonContains_tallied {selector : String} {v : Value} {negated : Bool}
    (hselector : Unmarked selector) (hv : PlainTexts v.given)
    (h : t.jsonContains selector v negated = .ok sql) : Tallied 0 sql := by
  simp only [Target.jsonContains, bind_eq_ok, pure_eq_ok] at h
  obtain ⟨test, htest, rfl⟩ := h
  have hoperand := jsonContainsOperand_tallied hp hselector (tallied_of_given hv) htest
  exact hoperand.behind (unmarked_negation negated)

/-- A key stands in the text, and the operator that tests it is escaped. -/
theorem jsonContainsKey_tallied {selector : String} {negated : Bool} (hselector : Unmarked selector)
    (h : t.jsonContainsKey selector negated = .ok sql) : Tallied 0 sql := by
  simp only [Target.jsonContainsKey, bind_eq_ok, pure_eq_ok] at h
  obtain ⟨test, htest, rfl⟩ := h
  have htest := containsKey_settles hp hselector htest
  exact (settled_ofString ((unmarked_negation negated).settles.append htest)).tallied

/-- A length compared with a value, with the operator as it is. -/
theorem jsonLength_tallied {selector operator : String} {v : Value} (hselector : Unmarked selector)
    (hv : PlainTexts v.given) (h : t.jsonLength selector operator v = .ok sql) :
    Tallied (placeholders operator) sql := by
  have harguments := selectorArguments_unmarked hp hselector
  have hend : ∀ {length : String}, Unmarked length →
      Tallied (placeholders operator) (length ++ " " ++ operator ++ " " ++ Sql.parameter v) :=
    fun hlength => verbatim_tallied (settled_words hlength) operator (parameter_tallied hv)
  unfold Target.jsonLength Target.jsonLengthOperand at h
  split at h <;> simp only [bind_eq_ok, pure_eq_ok] at h
  · obtain ⟨_, hlength, _⟩ := h
    cases hlength
  · obtain ⟨_, rfl, rfl⟩ := h
    refine hend ?_
    simp only [unmarked_append, harguments, and_true]
    decide
  · obtain ⟨document, hdocument, _, rfl, rfl⟩ := h
    refine hend ?_
    simp only [unmarked_append, quoteDocument_unmarked hp hselector hdocument, and_true]
    decide
  · obtain ⟨_, rfl, rfl⟩ := h
    refine hend ?_
    simp only [unmarked_append, harguments, and_true]
    decide
  · obtain ⟨_, rfl, rfl⟩ := h
    refine hend ?_
    simp only [unmarked_append, jsonRows_unmarked hp hselector, and_true]
    decide

omit hp in
theorem unmarked_searchLanguage (options : FullTextOptions) :
    Unmarked (Target.searchLanguage options) := by
  have hall : ∀ language ∈ Target.searchLanguages, Unmarked language := by decide
  unfold Target.searchLanguage
  split
  · split
    · rename_i language _ hlanguage
      exact hall language (by simpa using hlanguage)
    · decide
  · decide

/-- A search has one placeholder behind its columns. -/
theorem fullText_tallied {columns : List Column} {v : Value} {options : FullTextOptions}
    (hcolumns : PlainTexts (columnGiven columns)) (hv : PlainTexts v.given)
    (h : t.fullText columns v options = .ok sql) : Tallied 0 sql := by
  have hvalue := parameter_tallied hv
  unfold Target.fullText at h
  split at h
  · simp only [bind_eq_ok, pure_eq_ok] at h
    obtain ⟨list, hlist, rfl⟩ := h
    have hmode : Delimits (Target.searchMode options) := by
      unfold Target.searchMode
      split
      · decide
      · cases options.expanded <;> decide
    have hhead := ((settled_words (by decide : Unmarked "match (")).append
      (columnList_settled hp hcolumns hlist)).text (by decide : Unmarked ") against (")
    exact (((hhead.before hvalue).text hmode).text (by decide)).tallied
  · simp only [bind_eq_ok, pure_eq_ok] at h
    obtain ⟨vectors, hvectors, rfl⟩ := h
    have hlanguage := unmarked_searchLanguage options
    have hfunction : Unmarked (Target.searchFunction options) := by
      unfold Target.searchFunction
      split <;> decide
    -- every column is searched through a vector of its own
    have hvector : Settled 0 (.join " || " vectors) := by
      refine settled_join (by decide) (forall_of_mapM hvectors fun c hc sql hsql => ?_)
      simp only [bind_eq_ok, pure_eq_ok] at hsql
      obtain ⟨column, hcolumn, rfl⟩ := hsql
      have hhead := ((settled_words (by decide : Unmarked "to_tsvector('")).text hlanguage).text
        (by decide : Unmarked "', ")
      exact (hhead.append (column_settled hp (plainTexts_flatMap.1 hcolumns c hc) hcolumn)).text
        (by decide)
    have hhead := (hvector.behind (by decide : Unmarked "(")).text
      (by decide : Unmarked ") @@ ")
    have hquery := (((hhead.text hfunction).text (by decide : Unmarked "('")).text hlanguage).text
      (by decide : Unmarked "', ")
    exact ((hquery.before hvalue).text (by decide)).tallied
  · cases h

end Prefixed

/-! ## §6 Conditions on groups -/

/-- A tally with the same number written in another way. -/
theorem Tallied.of_eq {n m : Nat} (h : Tallied n sql) (hn : n = m) : Tallied m sql :=
  hn ▸ h

mutual

/-- A condition on groups has a placeholder for each of its values, and those of its operators. -/
theorem having_tallied (hp : Unmarked t.options.tablePrefix) : (p : HavingPredicate) →
    {sql : Sql} → PlainTexts p.given → t.having p = .ok sql → Tallied (operatorMarks p.given) sql
  | .raw text bindings, _, hm, h => by
    rw [Target.having] at h
    cases h
    obtain ⟨⟨htext, hbindings⟩, -⟩ := plainTexts_cons.1 hm
    exact (settled_fragment htext hbindings).tallied
  | .expression text, _, hm, h => by
    rw [Target.having] at h
    cases h
    obtain ⟨⟨htext, -⟩, -⟩ := plainTexts_cons.1 hm
    exact (settled_words htext).tallied
  | .compare c operator v, _, hm, h => by
    obtain ⟨hc, -, hv⟩ : _ ∧ _ ∧ _ := by simpa [HavingPredicate.given] using hm
    simp only [Target.having, bind_eq_ok, pure_eq_ok] at h
    obtain ⟨left, hleft, rfl⟩ := h
    have hcompare := verbatim_tallied (column_settled hp hc hleft) operator (parameter_tallied hv)
    exact hcompare.of_eq (by simp [HavingPredicate.given, Given.marks])
  | .between c low high negated, _, hm, h => by
    rw [Target.having] at h
    rw [HavingPredicate.given] at hm ⊢
    exact (between_tallied hp hm h).of_eq (by simp)
  | .isNull c, _, hm, h => by
    rw [Target.having] at h
    rw [HavingPredicate.given] at hm ⊢
    exact (nullTest_tallied hp hm h).of_eq (by simp)
  | .isNotNull c, _, hm, h => by
    rw [Target.having] at h
    rw [HavingPredicate.given] at hm ⊢
    exact (nullTest_tallied hp hm h).of_eq (by simp)
  | .bitwise c operator v, _, hm, h => by
    obtain ⟨hc, -, hv⟩ : _ ∧ _ ∧ _ := by simpa [HavingPredicate.given] using hm
    simp only [Target.having, bind_eq_ok, pure_eq_ok] at h
    obtain ⟨left, hleft, rfl⟩ := h
    have hbits := bits_tallied (column_settled hp hc hleft) operator hv
      (by decide : Delimits ") != 0")
    exact hbits.of_eq (by simp [HavingPredicate.given, Given.marks])
  | .group clauses, _, hm, h => by
    rw [HavingPredicate.given] at hm ⊢
    obtain ⟨-, inner, hinner, rfl⟩ := havingGroup_eq_ok h
    have hbody := (havingClauses_tallied hp clauses hm hinner).body
    exact ((hbody.behind (by decide)).text (by decide)).tallied

/-- Conditions on groups, clause by clause. -/
theorem havingClauses_tallied (hp : Unmarked t.options.tablePrefix) :
    (clauses : List (Clause HavingPredicate)) → {out : List (Clause Sql)} →
    PlainTexts (havingGiven clauses) → t.havingClauses clauses = .ok out →
    Tallies (operatorMarks (havingGiven clauses)) (out.map Clause.node)
  | [], _, _, h => by
    rw [Target.havingClauses] at h
    cases h
    exact .nil
  | ⟨_, node⟩ :: rest, _, hm, h => by
    rw [havingGiven, plainTexts_append] at hm
    simp only [Target.havingClauses, bind_eq_ok, pure_eq_ok] at h
    obtain ⟨first, hfirst, others, hothers, rfl⟩ := h
    rw [havingGiven, operatorMarks_append]
    exact .cons (having_tallied hp node hm.1 hfirst) (havingClauses_tallied hp rest hm.2 hothers)

end

/-- The clause of conditions on groups, with the marks of all their operators. -/
theorem havingClause_tallied {clauses : List (Clause HavingPredicate)}
    (hp : Unmarked t.options.tablePrefix) (hm : PlainTexts (havingGiven clauses))
    (h : t.havingClause clauses = .ok sql) :
    Tallied (operatorMarks (havingGiven clauses)) sql := by
  obtain ⟨rfl, rfl⟩ | ⟨out, hout, rfl⟩ := havingClause_eq_ok h
  · exact settled_empty.tallied
  · exact (havingClauses_tallied hp clauses hm hout).body.behind (by decide)

end SqlCompiler
