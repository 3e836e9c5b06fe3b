import SqlCompiler.Proofs.Ingredients
import SqlCompiler.Proofs.SelectForms
import SqlCompiler.Proofs.WrittenForms

/-!
# Closed Predicates

Every predicate that looks into no other query is closed if what it brings in may be brought in.
Each lemma follows the text of one predicate from left to right: the words of the compiler, the
columns, the operator and the values.

## Main statements

- `column_closed`, `columnList_closed`, `parameter_closed`: what predicates are made of
- `compare_closed`, `like_closed`, `between_closed`, …: the predicates one by one
- `having_closed`, `havingClauses_closed`: conditions on groups, by recursion on their groups
- `body_closed`: clauses with their connectives
-/

namespace SqlCompiler

variable {t : Target} {sql : Sql}

/-! ## §1 Columns and values -/

/-- A quoted name is closed whatever its characters, and verbatim SQL is admitted as closed. -/
theorem column_closed {c : Column} (hp : t.PrefixFits) (hm : t.AdmitsAll c.ingredients)
    (h : t.column c = .ok sql) : Closed t.dialect sql := by
  cases c with
  | named name =>
    simp only [Column.ingredients, admitsAll_cons, admitsAll_nil, and_true] at hm
    simp only [Target.column, bind_eq_ok, pure_eq_ok] at h
    obtain ⟨quoted, hquoted, rfl⟩ := h
    exact closed_ofString (quote_closed hp hm hquoted)
  | raw text bindings =>
    simp only [Column.ingredients, admitsAll_cons, admitsAll_nil, and_true] at hm
    rw [Target.column, pure_eq_ok] at h
    subst h
    exact closed_fragment (textClosed_of_contained hm)

theorem comma_closed {d : Dialect} : TextClosed d ", " :=
  fun _ => textLeads rfl rfl

/-- Columns and the commas between them. -/
theorem columnList_closed {columns : List Column} (hp : t.PrefixFits)
    (hm : t.AdmitsAll (columnIngredients columns)) (h : t.columnList columns = .ok sql) :
    Closed t.dialect sql := by
  simp only [Target.columnList, bind_eq_ok, pure_eq_ok] at h
  obtain ⟨parts, hparts, rfl⟩ := h
  refine closed_join comma_closed (forall_of_mapM hparts fun c hc sql hsql => ?_)
  exact column_closed hp (admitsAll_flatMap.1 hm c hc) hsql

/-- The place of a value: a placeholder, or raw SQL that may be brought in. -/
theorem parameterFor_closed {value bound : Value} (hm : t.AdmitsAll value.ingredients) :
    Closed t.dialect (.parameterFor value bound) := by
  refine closed_parameterFor fun s hs => ?_
  simp only [Value.ingredients, hs, Option.toList_some, List.map_cons, List.map_nil,
    admitsAll_cons, admitsAll_nil, and_true] at hm
  exact textClosed_of_contained hm

/-- A placeholder is a single mark, and a raw expression is admitted as closed. -/
theorem parameter_closed {value : Value} (hm : t.AdmitsAll value.ingredients) :
    Closed t.dialect (.parameter value) :=
  parameterFor_closed hm

theorem parameters_closed {values : List Value} (hm : t.AdmitsAll (valueIngredients values)) :
    Closed t.dialect (.parameters values) := by
  refine closed_join comma_closed fun part hpart => ?_
  obtain ⟨value, hvalue, rfl⟩ := List.mem_map.1 hpart
  exact parameter_closed (admitsAll_flatMap.1 hm value hvalue)

/-! ## §2 Clauses and operators -/

/-- Connectives are words without quotes and parentheses. -/
theorem connective_closed {d : Dialect} (c : Connective) :
    TextClosed d c.words ∧ TextClosed d c.leadingWords := by
  cases c <;> exact ⟨fun _ => textLeads rfl rfl, fun _ => textLeads rfl rfl⟩

/-- Clauses with their connectives. -/
theorem body_closed {clauses : List (Clause Sql)}
    (h : ∀ c ∈ clauses, Closed t.dialect c.node) : Closed t.dialect (Clause.body clauses) := by
  cases clauses with
  | nil => exact closed_empty
  | cons first rest =>
    obtain ⟨hfirst, hrest⟩ := List.forall_mem_cons.1 h
    have hothers : Closed t.dialect
        (.concat (rest.map fun c => " " ++ c.connective.words ++ " " ++ c.node)) := by
      refine closed_concat fun part hpart => ?_
      obtain ⟨c, hc, rfl⟩ := List.mem_map.1 hpart
      exact fun _ => (((leads rfl rfl).string ((connective_closed c.connective).1 _)).text
        rfl rfl).closed (hrest c hc)
    exact ((closed_ofString (connective_closed first.connective).2).append hfirst).append hothers

/-- A question mark is neither a quote nor a parenthesis: a second one changes nothing. -/
theorem step_mark_twice (d : Dialect) (stage : Stage × Nat) :
    (d.step stage '?').bind (d.step · '?') = d.step stage '?' := by
  obtain ⟨place, depth⟩ := stage
  cases place with
  | between => cases d <;> rfl
  | inside quote => cases quote <;> cases d <;> rfl
  | behind quote => cases quote <;> cases d <;> rfl

/-- Marks that are escaped take a reader where the marks themselves do. -/
theorem read_doubleChars_mark (d : Dialect) (stage : Stage × Nat) (cs : List Char) :
    d.read stage (Text.doubleChars '?' cs) = d.read stage cs := by
  induction cs generalizing stage with
  | nil => rfl
  | cons c cs ih =>
    rw [Text.doubleChars_cons]
    split
    · rename_i hc
      subst hc
      show d.read stage ('?' :: '?' :: Text.doubleChars '?' cs) = d.read stage ('?' :: cs)
      simp only [Dialect.read_cons, ih]
      rw [← Option.bind_assoc, step_mark_twice]
    · show d.read stage (c :: Text.doubleChars '?' cs) = d.read stage (c :: cs)
      simp only [Dialect.read_cons, ih]

/-- An operator is read alike with its question marks single and doubled. -/
theorem escapePlaceholders_closed {d : Dialect} {operator : String} (h : d.Contained operator) :
    TextClosed d (escapePlaceholders operator) := by
  intro depth stage hstage
  obtain ⟨final, hfinal, hrests⟩ := textClosed_of_contained h depth stage hstage
  refine ⟨final, ?_, hrests⟩
  rw [escapePlaceholders, Text.double, String.toList_ofList, read_doubleChars_mark]
  exact hfinal

/-- A negation is a word or nothing. -/
theorem negation_closed {d : Dialect} (negated : Bool) : TextClosed d (negation negated) := by
  cases negated <;> exact fun _ => textLeads rfl rfl

/-! ## §3 Comparisons and patterns -/

/-- Two closed operands with a contained operator between them. -/
theorem comparison_closed {d : Dialect} {left right : Sql} {operator : String}
    (hleft : Closed d left) (hoperator : d.Contained operator) (hright : Closed d right) :
    Closed d (comparison left operator right) :=
  fun depth => ((((hleft depth).text rfl rfl).string
    (escapePlaceholders_closed hoperator depth)).text rfl rfl).closed hright

/-- A cast to text behind a column is closed as well. -/
theorem compareOperand_closed {c : Column} {operator : String} {operand : Sql}
    (hp : t.PrefixFits) (hc : t.AdmitsAll c.ingredients) (hoperator : t.dialect.Contained operator)
    (hoperand : Closed t.dialect operand) (h : t.compareOperand c operator operand = .ok sql) :
    Closed t.dialect sql := by
  rw [Target.compareOperand, bind_eq_ok] at h
  obtain ⟨left, hleft, h⟩ := h
  have hcolumn := column_closed hp hc hleft
  -- PostgreSQL casts the column to text if the operator is a `like`
  split at h
  · rw [pure_eq_ok] at h
    subst h
    refine comparison_closed ?_ hoperator hoperand
    split
    · exact fun depth => (hcolumn depth).text rfl rfl
    · exact hcolumn
  · rw [pure_eq_ok] at h
    subst h
    exact comparison_closed hcolumn hoperator hoperand

/-- A comparison with a value is closed if column, operator and value are admitted. -/
theorem compare_closed {c : Column} {operator : String} {v : Value} (hp : t.PrefixFits)
    (hm : t.AdmitsAll (c.ingredients ++ .fragment operator :: v.ingredients))
    (h : t.compare c operator v = .ok sql) : Closed t.dialect sql := by
  obtain ⟨hc, hoperator, hv⟩ : _ ∧ _ ∧ _ := by simpa using hm
  exact compareOperand_closed hp hc hoperator (parameter_closed hv) h

/-- A bitwise comparison opens a parenthesis around itself and closes it. -/
theorem bitwise_closed {c : Column} {operator : String} {v : Value} (hp : t.PrefixFits)
    (hm : t.AdmitsAll (c.ingredients ++ .fragment operator :: v.ingredients))
    (h : t.bitwise c operator v = .ok sql) : Closed t.dialect sql := by
  rw [Target.bitwise] at h
  split at h
  · obtain ⟨hc, hoperator, hv⟩ : _ ∧ _ ∧ _ := by simpa using hm
    simp only [bind_eq_ok, pure_eq_ok] at h
    obtain ⟨left, hleft, rfl⟩ := h
    exact fun _ => (((((leads rfl rfl).closed (column_closed hp hc hleft)).text rfl rfl).string
      (textClosed_of_contained hoperator _)).text rfl rfl).closed (parameter_closed hv) |>.text
        rfl rfl
  · exact compare_closed hp hm h

/-- The operators of pattern matches are words. -/
theorem likeOperator_contained {caseSensitive negated : Bool} {operator : String}
    (h : t.likeOperator? caseSensitive = .ok operator) (d : Dialect) :
    d.Contained (negation negated ++ operator) := by
  unfold Target.likeOperator? at h
  split at h <;> cases h <;> cases negated <;> cases d <;> decide

/-- A pattern stands behind its operator as a placeholder or a raw expression. -/
theorem like_closed {c : Column} {pattern : Value} {caseSensitive negated : Bool}
    (hp : t.PrefixFits) (hm : t.AdmitsAll (c.ingredients ++ pattern.ingredients))
    (h : t.like c pattern caseSensitive negated = .ok sql) : Closed t.dialect sql := by
  rw [admitsAll_append] at hm
  rw [Target.like, bind_eq_ok] at h
  obtain ⟨operator, hoperator, h⟩ := h
  exact compareOperand_closed hp hm.1 (likeOperator_contained hoperator t.dialect)
    (parameterFor_closed hm.2) h

/-! ## §4 Ranges, lists and nulls -/

/-- Both bounds are values. -/
theorem between_closed {c : Column} {low high : Value} {negated : Bool} (hp : t.PrefixFits)
    (hm : t.AdmitsAll (c.ingredients ++ valueIngredients [low, high]))
    (h : t.between c low high negated = .ok sql) : Closed t.dialect sql := by
  obtain ⟨hc, hlow, hhigh⟩ : _ ∧ _ ∧ _ := by simpa [valueIngredients] using hm
  simp only [Target.between, bind_eq_ok, pure_eq_ok] at h
  obtain ⟨left, hleft, rfl⟩ := h
  exact fun depth => (((((column_closed hp hc hleft depth).text rfl rfl).string
    (negation_closed negated _)).text rfl rfl).closed (parameter_closed hlow)).text rfl rfl
      |>.closed (parameter_closed hhigh)

/-- Both bounds are columns. -/
theorem betweenColumns_closed {c low high : Column} {negated : Bool} (hp : t.PrefixFits)
    (hm : t.AdmitsAll (columnIngredients [c, low, high]))
    (h : t.betweenColumns c low high negated = .ok sql) : Closed t.dialect sql := by
  obtain ⟨hc, hlow, hhigh⟩ : _ ∧ _ ∧ _ := by simpa [columnIngredients] using hm
  simp only [Target.betweenColumns, bind_eq_ok, pure_eq_ok] at h
  obtain ⟨left, hleft, lower, hlower, upper, hupper, rfl⟩ := h
  exact fun depth => (((((column_closed hp hc hleft depth).text rfl rfl).string
    (negation_closed negated _)).text rfl rfl).closed (column_closed hp hlow hlower)).text rfl rfl
      |>.closed (column_closed hp hhigh hupper)

/-- Membership in nothing is one of two comparisons of digits. -/
theorem inNothing_closed {d : Dialect} (negated : Bool) : Closed d (Target.inNothing negated) := by
  cases negated <;> exact fun _ => leads rfl rfl

/-- Closed members between parentheses. -/
theorem among_closed {c : Column} {members : Sql} {negated : Bool} (hp : t.PrefixFits)
    (hc : t.AdmitsAll c.ingredients) (hmembers : Closed t.dialect members)
    (h : t.among c members negated = .ok sql) : Closed t.dialect sql := by
  simp only [Target.among, bind_eq_ok, pure_eq_ok] at h
  obtain ⟨left, hleft, rfl⟩ := h
  exact fun depth => (((((column_closed hp hc hleft depth).text rfl rfl).string
    (negation_closed negated _)).text rfl rfl).closed hmembers).text rfl rfl

/-- Values as members, or nothing. -/
theorem inList_closed {c : Column} {values : List Value} {negated : Bool} (hp : t.PrefixFits)
    (hm : t.AdmitsAll (c.ingredients ++ valueIngredients values))
    (h : t.inList c values negated = .ok sql) : Closed t.dialect sql := by
  rw [admitsAll_append] at hm
  rw [Target.inList] at h
  split at h
  · cases h
    exact inNothing_closed negated
  · exact among_closed hp hm.1 (parameters_closed hm.2) h

/-- Integers are digits with a sign. -/
theorem inIntegers_closed {c : Column} {values : List Int64} {negated : Bool} (hp : t.PrefixFits)
    (hc : t.AdmitsAll c.ingredients) (h : t.inIntegers c values negated = .ok sql) :
    Closed t.dialect sql := by
  rw [Target.inIntegers] at h
  split at h
  · cases h
    exact inNothing_closed negated
  · refine among_closed hp hc
      (closed_ofString (textClosed_join comma_closed fun piece hpiece => ?_)) h
    obtain ⟨n, -, rfl⟩ := List.mem_map.1 hpiece
    exact fun _ => textLeads_int n.toInt

/-- MySQL: the test of a selector for nothing or a JSON null. -/
theorem selectorIsNull_closed {name : String} (isNull : Bool) (hp : t.PrefixFits)
    (h : t.NameFits name) : TextClosed t.dialect (t.selectorIsNull name isNull) := by
  have hextract : TextClosed t.dialect ("json_extract(" ++ t.selectorArguments name ++ ")") :=
    fun _ => ((textLeads rfl rfl).closed (selectorArguments_closed hp h.qualifier)).text rfl rfl
  unfold Target.selectorIsNull
  generalize "json_extract(" ++ t.selectorArguments name ++ ")" = extract at hextract
  dsimp only
  split
  · exact fun _ =>
      (((textLeads rfl rfl).closed hextract).text rfl rfl).closed hextract |>.text rfl rfl
  · exact fun _ =>
      (((textLeads rfl rfl).closed hextract).text rfl rfl).closed hextract |>.text rfl rfl

/-- A null test behind a column, or with the selector in the functions of MySQL. -/
theorem nullTest_closed {c : Column} {isNull : Bool} (hp : t.PrefixFits)
    (hm : t.AdmitsAll c.ingredients) (h : t.nullTest c isNull = .ok sql) :
    Closed t.dialect sql := by
  -- a JSON selector of MySQL has a test of its own, all the others end alike
  have htest : ∀ column, t.column c = .ok column →
      Closed t.dialect (column ++ (if isNull then " is null" else " is not null" : String)) := by
    intro column hcolumn depth
    cases isNull <;> exact (column_closed hp hm hcolumn depth).text rfl rfl
  unfold Target.nullTest at h
  split at h
  · split at h
    · rw [pure_eq_ok] at h
      subst h
      simp only [Column.ingredients, admitsAll_cons, admitsAll_nil, and_true] at hm
      exact closed_ofString (selectorIsNull_closed isNull hp hm)
    · simp only [bind_eq_ok, pure_eq_ok] at h
      obtain ⟨column, hcolumn, rfl⟩ := h
      exact htest column hcolumn
  · simp only [bind_eq_ok, pure_eq_ok] at h
    obtain ⟨column, hcolumn, rfl⟩ := h
    exact htest column hcolumn

/-! ## §5 Dates, columns and rows -/

/-- A format stands inside of a literal and does not end it. -/
theorem partFormat_plain {d : Dialect} {depth : Nat} (part : DatePart) :
    TextLeads d (.inside .literal depth) (Target.partFormat part) (.inside .literal depth) := by
  cases part <;> exact textLeads rfl rfl

theorem partName_closed {d : Dialect} (part : DatePart) : TextClosed d part.name := by
  cases part <;> exact fun _ => textLeads rfl rfl

/-- A part of a date between the words of each dialect. -/
theorem datePart_closed {part : DatePart} {c : Column} {operator : String} {v : Value}
    (hp : t.PrefixFits) (hm : t.AdmitsAll (c.ingredients ++ .fragment operator :: v.ingredients))
    (h : t.datePart part c operator v = .ok sql) : Closed t.dialect sql := by
  obtain ⟨hc, hop, hv⟩ : _ ∧ _ ∧ _ := by simpa using hm
  have hoperator : TextClosed t.dialect operator := textClosed_of_contained hop
  have hvalue := parameter_closed hv
  -- every dialect ends with the operator and the value
  have hend : ∀ {depth : Nat} {a : Sql}, Leads t.dialect (.between depth) a (.between depth) →
      Leads t.dialect (.between depth) (a ++ operator ++ " " ++ Sql.parameter v)
        (.between depth) :=
    fun h => ((h.string (hoperator _)).text rfl rfl).closed hvalue
  unfold Target.datePart Target.compareFunction at h
  split at h <;> simp only [bind_eq_ok, pure_eq_ok] at h <;> obtain ⟨left, hleft, rfl⟩ := h <;>
    have hcolumn := column_closed hp hc hleft
  · exact fun depth =>
      hend ((((hcolumn depth).text rfl rfl).string (partName_closed _ _)).text rfl rfl)
  · exact fun depth =>
      hend ((((hcolumn depth).text rfl rfl).string (partName_closed _ _)).text rfl rfl)
  · exact fun _ => hend (((((leads rfl rfl).string (partName_closed _ _)).text rfl rfl).closed
      hcolumn).text rfl rfl)
  · exact fun _ => ((((((leads rfl rfl).string (partFormat_plain _)).text rfl rfl).closed
      hcolumn).text rfl rfl).string (hoperator _)).text rfl rfl |>.closed hvalue |>.text rfl rfl
  · exact fun _ => hend (((((leads rfl rfl).closed hcolumn).text rfl rfl).string
      (partName_closed _ _)).text rfl rfl)
  · exact fun _ => hend (((((leads rfl rfl).closed hcolumn).text rfl rfl).string
      (partName_closed _ _)).text rfl rfl)
  · exact fun depth => hend ((((leads_ofString.2 (partName_closed _ depth)).text rfl rfl).closed
      hcolumn).text rfl rfl)

/-- Two columns with an admitted operator between them. -/
theorem compareColumns_closed {first second : Column} {operator : String} (hp : t.PrefixFits)
    (hm : t.AdmitsAll (.fragment operator :: columnIngredients [first, second]))
    (h : t.compareColumns first operator second = .ok sql) : Closed t.dialect sql := by
  obtain ⟨hoperator, hfirst, hsecond⟩ : _ ∧ _ ∧ _ := by simpa [columnIngredients] using hm
  simp only [Target.compareColumns, bind_eq_ok, pure_eq_ok] at h
  obtain ⟨left, hleft, right, hright, rfl⟩ := h
  exact fun depth => ((((column_closed hp hfirst hleft depth).text rfl rfl).string
    (textClosed_of_contained hoperator _)).text rfl rfl).closed (column_closed hp hsecond hright)

/-- Columns and values, both between parentheses. -/
theorem rowValues_closed {columns : List Column} {operator : String} {values : List Value}
    (hp : t.PrefixFits)
    (hm : t.AdmitsAll
      (columnIngredients columns ++ .fragment operator :: valueIngredients values))
    (h : t.rowValues columns operator values = .ok sql) : Closed t.dialect sql := by
  obtain ⟨hcolumns, hoperator, hvalues⟩ : _ ∧ _ ∧ _ := by simpa using hm
  obtain ⟨-, left, hleft, rfl⟩ := rowValues_eq_ok h
  exact fun _ => (((((leads rfl rfl).closed (columnList_closed hp hcolumns hleft)).text
    rfl rfl).string (textClosed_of_contained hoperator _)).text rfl rfl).closed
      (parameters_closed hvalues) |>.text rfl rfl

/-! ## §6 JSON and full text -/

/-- A selector beside the words for a boolean. -/
theorem jsonBoolean_closed {selector operator : String} {v : Bool} (hp : t.PrefixFits)
    (hm : t.AdmitsAll [.name selector, .fragment operator])
    (h : t.jsonBoolean selector operator v = .ok sql) : Closed t.dialect sql := by
  obtain ⟨hselector, hoperator⟩ : _ ∧ _ := by simpa using hm
  have hliteral : TextClosed t.dialect (t.booleanLiteral (if v then "true" else "false")) :=
    booleanLiteral_closed (List.all_eq_true.1 (by cases v <;> decide))
  simp only [Target.jsonBoolean, bind_eq_ok, pure_eq_ok] at h
  obtain ⟨left, hleft, rfl⟩ := h
  have hcolumn := booleanSelector_closed hp hselector hleft
  exact fun depth => ((((leads_ofString.2 (hcolumn depth)).text rfl rfl).string
    (textClosed_of_contained hoperator _)).text rfl rfl).string (hliteral _)

/-- A document that contains an operand, in the form of each dialect. -/
theorem jsonContains_closed {selector : String} {v : Value} {negated : Bool} (hp : t.PrefixFits)
    (hm : t.AdmitsAll (.name selector :: v.ingredients))
    (h : t.jsonContains selector v negated = .ok sql) : Closed t.dialect sql := by
  obtain ⟨hselector, hv⟩ : t.NameFits selector ∧ _ := by simpa [Target.Admits] using hm
  have hoperand : Closed t.dialect (.parameterFor v (t.jsonBinding v)) := parameterFor_closed hv
  simp only [Target.jsonContains, bind_eq_ok, pure_eq_ok] at h
  obtain ⟨test, htest, rfl⟩ := h
  refine (closed_ofString (negation_closed negated)).append ?_
  unfold Target.jsonContainsOperand at htest
  split at htest
  · cases htest
  · cases htest
  · simp only [bind_eq_ok, pure_eq_ok] at htest
    obtain ⟨document, hdocument, rfl⟩ := htest
    exact fun _ => (((leads rfl rfl).string
      (quoteDocument_closed hp hselector hdocument _)).text rfl rfl).closed hoperand
  · rw [pure_eq_ok] at htest
    subst htest
    exact fun _ => ((((((leads rfl rfl).string (selectorArguments_closed hp hselector.qualifier
      _)).text rfl rfl).string (quoteIdentifier_closed t "json_each" _)).text rfl rfl).string
        (quoteIdentifier_closed t "value" _)).text rfl rfl |>.closed hoperand |>.text rfl rfl
  · -- the brackets around the column of the rows are quotes in SQL Server alone
    rename_i hserver
    rw [pure_eq_ok] at htest
    subst htest
    have hrows := jsonRows_closed hp hselector.qualifier
    rw [hserver] at hrows hoperand ⊢
    exact fun depth => (((hoperand depth).text rfl rfl).string (hrows _)).text rfl rfl

/-- A key inside of a path or of a literal of its own. -/
theorem jsonContainsKey_closed {selector : String} {negated : Bool} (hp : t.PrefixFits)
    (hm : t.AdmitsAll [.name selector]) (h : t.jsonContainsKey selector negated = .ok sql) :
    Closed t.dialect sql := by
  have hselector : t.NameFits selector := by simpa [Target.Admits] using hm
  simp only [Target.jsonContainsKey, bind_eq_ok, pure_eq_ok] at h
  obtain ⟨test, htest, rfl⟩ := h
  exact closed_ofString ((negation_closed negated).append (containsKey_closed hp hselector htest))

/-- The length of a document compared with a value. -/
theorem jsonLength_closed {selector operator : String} {v : Value} (hp : t.PrefixFits)
    (hm : t.AdmitsAll (.name selector :: .fragment operator :: v.ingredients))
    (h : t.jsonLength selector operator v = .ok sql) : Closed t.dialect sql := by
  obtain ⟨hselector, hoperator, hv⟩ : t.NameFits selector ∧ t.dialect.Contained operator ∧ _ := by
    simpa [Target.Admits] using hm
  have harguments := selectorArguments_closed hp hselector.qualifier
  -- every dialect ends with the operator and the value
  have hend : ∀ {length : String}, TextClosed t.dialect length →
      Closed t.dialect (length ++ " " ++ operator ++ " " ++ Sql.parameter v) :=
    fun h depth => ((((leads_ofString.2 (h depth)).text rfl rfl).string
      (textClosed_of_contained hoperator _)).text rfl rfl).closed (parameter_closed hv)
  unfold Target.jsonLength Target.jsonLengthOperand at h
  split at h <;> simp only [bind_eq_ok, pure_eq_ok] at h
  · obtain ⟨_, hlength, _⟩ := h
    cases hlength
  · obtain ⟨_, rfl, rfl⟩ := h
    exact hend fun _ => ((textLeads rfl rfl).closed harguments).text rfl rfl
  · obtain ⟨document, hdocument, _, rfl, rfl⟩ := h
    exact hend fun _ =>
      ((textLeads rfl rfl).closed (quoteDocument_closed hp hselector hdocument)).text rfl rfl
  · obtain ⟨_, rfl, rfl⟩ := h
    exact hend fun _ => ((textLeads rfl rfl).closed harguments).text rfl rfl
  · obtain ⟨_, rfl, rfl⟩ := h
    exact hend fun _ =>
      ((textLeads rfl rfl).closed (jsonRows_closed hp hselector.qualifier)).text rfl rfl

/-- The text search configurations have names without quotes. -/
theorem searchLanguage_plain (options : FullTextOptions) :
    ∀ c ∈ (Target.searchLanguage options).toList, isPlain c = true := by
  unfold Target.searchLanguage
  split
  · split
    · rename_i language hlanguage
      have hall :
          Target.searchLanguages.all (fun language => language.toList.all isPlain) = true := by
        decide +kernel
      exact List.all_eq_true.1 (List.all_eq_true.1 hall _ (by simpa using hlanguage))
    · exact List.all_eq_true.1 (by decide)
  · exact List.all_eq_true.1 (by decide)

/-- A search over columns; its language is one of a list and its mode a choice of words. -/
theorem fullText_closed {columns : List Column} {v : Value} {options : FullTextOptions}
    (hp : t.PrefixFits) (hm : t.AdmitsAll (columnIngredients columns ++ v.ingredients))
    (h : t.fullText columns v options = .ok sql) : Closed t.dialect sql := by
  rw [admitsAll_append] at hm
  have hvalue := parameter_closed hm.2
  unfold Target.fullText at h
  split at h
  · simp only [bind_eq_ok, pure_eq_ok] at h
    obtain ⟨list, hlist, rfl⟩ := h
    -- the mode is one of a few fixed texts
    have hmode : TextClosed t.dialect (Target.searchMode options) := by
      have hexpansion : TextClosed t.dialect
          (if options.expanded then " with query expansion" else "") := by
        cases options.expanded <;> exact fun _ => textLeads rfl rfl
      unfold Target.searchMode
      split
      · exact fun _ => textLeads rfl rfl
      · exact fun _ => (textLeads rfl rfl).closed hexpansion
    exact fun _ => (((((leads rfl rfl).closed (columnList_closed hp hm.1 hlist)).text
      rfl rfl).closed hvalue).string (hmode _)).text rfl rfl
  · simp only [bind_eq_ok, pure_eq_ok] at h
    obtain ⟨vectors, hvectors, rfl⟩ := h
    -- the language stands inside of a literal, where a plain word changes nothing
    have hlanguage : ∀ {depth : Nat}, TextLeads t.dialect (.inside .literal depth)
        (Target.searchLanguage options) (.inside .literal depth) :=
      textLeads_of_plain (searchLanguage_plain options)
    have hfunction : TextClosed t.dialect (Target.searchFunction options) := by
      intro depth
      unfold Target.searchFunction
      split <;> exact textLeads rfl rfl
    have hbars : TextClosed t.dialect " || " := fun _ => textLeads rfl rfl
    have hvector : Closed t.dialect (.join " || " vectors) := by
      refine closed_join hbars (forall_of_mapM hvectors fun c hc sql hsql => ?_)
      simp only [bind_eq_ok, pure_eq_ok] at hsql
      obtain ⟨column, hcolumn, rfl⟩ := hsql
      exact fun _ => ((((leads rfl rfl).string hlanguage).text rfl rfl).closed
        (column_closed hp (admitsAll_flatMap.1 hm.1 c hc) hcolumn)).text rfl rfl
    exact fun _ => (((((((leads rfl rfl).closed hvector).text rfl rfl).string
      (hfunction _)).text rfl rfl).string hlanguage).text rfl rfl).closed hvalue |>.text rfl rfl
  · cases h

/-! ## §7 Conditions on groups -/

mutual

/-- A condition on groups is closed. -/
theorem having_closed (hp : t.PrefixFits) : (p : HavingPredicate) → {sql : Sql} →
    t.AdmitsAll p.ingredients → t.having p = .ok sql → Closed t.dialect sql
  | .raw text bindings, _, hm, h => by
    rw [Target.having] at h
    cases h
    simp only [HavingPredicate.ingredients, admitsAll_cons, admitsAll_nil, and_true] at hm
    exact closed_fragment (textClosed_of_contained hm)
  | .expression text, _, hm, h => by
    rw [Target.having] at h
    cases h
    simp only [HavingPredicate.ingredients, admitsAll_cons, admitsAll_nil, and_true] at hm
    exact closed_ofString (textClosed_of_contained hm)
  | .compare c operator v, _, hm, h => by
    obtain ⟨hc, hoperator, hv⟩ : _ ∧ _ ∧ _ := by simpa [HavingPredicate.ingredients] using hm
    simp only [Target.having, bind_eq_ok, pure_eq_ok] at h
    obtain ⟨left, hleft, rfl⟩ := h
    exact fun depth => ((((column_closed hp hc hleft depth).text rfl rfl).string
      (textClosed_of_contained hoperator _)).text rfl rfl).closed (parameter_closed hv)
  | .between c low high negated, _, hm, h => by
    rw [Target.having] at h
    rw [HavingPredicate.ingredients] at hm
    exact between_closed hp hm h
  | .isNull c, _, hm, h => by
    rw [Target.having] at h
    rw [HavingPredicate.ingredients] at hm
    exact nullTest_closed hp hm h
  | .isNotNull c, _, hm, h => by
    rw [Target.having] at h
    rw [HavingPredicate.ingredients] at hm
    exact nullTest_closed hp hm h
  | .bitwise c operator v, _, hm, h => by
    obtain ⟨hc, hoperator, hv⟩ : _ ∧ _ ∧ _ := by simpa [HavingPredicate.ingredients] using hm
    simp only [Target.having, bind_eq_ok, pure_eq_ok] at h
    obtain ⟨left, hleft, rfl⟩ := h
    exact fun _ => (((((leads rfl rfl).closed (column_closed hp hc hleft)).text rfl rfl).string
      (textClosed_of_contained hoperator _)).text rfl rfl).closed (parameter_closed hv) |>.text
        rfl rfl
  | .group clauses, _, hm, h => by
    rw [HavingPredicate.ingredients] at hm
    obtain ⟨-, inner, hinner, rfl⟩ := havingGroup_eq_ok h
    exact fun _ =>
      ((leads rfl rfl).closed (body_closed (havingClauses_closed hp clauses hm hinner))).text
        rfl rfl

/-- Conditions on groups are closed, clause by clause. -/
theorem havingClauses_closed (hp : t.PrefixFits) : (clauses : List (Clause HavingPredicate)) →
    {out : List (Clause Sql)} → t.AdmitsAll (havingIngredients clauses) →
    t.havingClauses clauses = .ok out → ∀ c ∈ out, Closed t.dialect c.node
  | [], _, _, h => by
    rw [Target.havingClauses] at h
    cases h
    exact fun _ hc => absurd hc List.not_mem_nil
  | ⟨_, node⟩ :: rest, _, hm, h => by
    rw [havingIngredients, admitsAll_append] at hm
    simp only [Target.havingClauses, bind_eq_ok, pure_eq_ok] at h
    obtain ⟨first, hfirst, others, hothers, rfl⟩ := h
    exact List.forall_mem_cons.2
      ⟨having_closed hp node hm.1 hfirst, havingClauses_closed hp rest hm.2 hothers⟩

end

/-- The clause of conditions on groups, or nothing. -/
theorem havingClause_closed {clauses : List (Clause HavingPredicate)} (hp : t.PrefixFits)
    (hm : t.AdmitsAll (havingIngredients clauses)) (h : t.havingClause clauses = .ok sql) :
    Closed t.dialect sql := by
  obtain ⟨-, rfl⟩ | ⟨out, hout, rfl⟩ := havingClause_eq_ok h
  · exact closed_empty
  · exact fun _ => (leads rfl rfl).closed (body_closed (havingClauses_closed hp clauses hm hout))

end SqlCompiler
