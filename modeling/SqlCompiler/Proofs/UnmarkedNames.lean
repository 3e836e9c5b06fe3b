import SqlCompiler.Proofs.ClosedSelectors
import SqlCompiler.Proofs.Placeholders

/-!
# Unmarked Names

What is made of a name has question marks only where the name or the table prefix has them: names
are cut, put into quotes and taken apart into paths, which adds no question mark. The one test that
PostgreSQL writes with an operator of its own, the test for a key, has that operator escaped.

## Main statements

- `quoteTable_unmarked`, `quoteField_unmarked`: tables and columns
- `selectorArguments_unmarked`, `arrowSelector_unmarked`: selectors
- `quote_unmarked`, `containsKey_settles`: names of any form, and tests on them
-/

namespace SqlCompiler

variable {t : Target}

/-! ## §1 Texts -/

/-- Texts without marks, and a separator without one. -/
theorem unmarked_join {sep : String} {pieces : List String} (hsep : Unmarked sep)
    (h : ∀ piece ∈ pieces, Unmarked piece) : Unmarked (Text.join sep pieces) := by
  intro hmark
  rcases Text.mem_join hmark with hmark | ⟨piece, hpiece, hmark⟩
  · exact hsep hmark
  · exact h piece hpiece hmark

/-- A part of a text without question marks. -/
theorem Unmarked.of_isInfix {part s : String} (h : Unmarked s) (hpart : part.toList <:+: s.toList) :
    Unmarked part :=
  h.of_subset fun _ hc => hpart.subset hc

/-- The pieces of a text without marks have none. -/
theorem Unmarked.of_mem_splitOn {sep s piece : String} (h : Unmarked s) (hsep : sep ≠ "")
    (hpiece : piece ∈ Text.splitOn sep s) : Unmarked piece :=
  h.of_isInfix (Text.infix_of_mem_splitOn hsep hpiece)

/-- Digits are no marks. -/
theorem unmarked_nat (n : Nat) : Unmarked (toString n) := by
  intro hmark
  rw [Nat.toString_eq_repr, Nat.repr, String.toList_ofList] at hmark
  exact absurd (Nat.isDigit_of_mem_toDigits (by decide) (by decide) hmark) (by decide)

/-- Digits with a sign are no marks. -/
theorem unmarked_int (n : Int) : Unmarked (toString n) := by
  cases n with
  | ofNat n => exact unmarked_nat n
  | negSucc n =>
    have hminus : Unmarked "-" := by decide
    exact unmarked_append.2 ⟨hminus, unmarked_nat (n + 1)⟩

/-! ## §2 Tables and columns -/

/-- No dialect quotes with marks. -/
theorem quoteIdentifier_unmarked {name : String} (h : Unmarked name) :
    Unmarked (t.quoteIdentifier name) := by
  intro hmark
  have hquotes : '?' ≠ t.dialect.openQuote ∧ '?' ≠ t.dialect.closeQuote := by
    cases t.dialect <;> decide
  rcases mem_quoteIdentifier hmark with hmark | hmark | hmark
  · exact h hmark
  · exact hquotes.1 hmark
  · exact hquotes.2 hmark

section Prefixed

variable (hp : Unmarked t.options.tablePrefix)
include hp

/-- The table prefix in front of a name. -/
theorem quotePrefixed_unmarked {name : String} (h : Unmarked name) :
    Unmarked (t.quotePrefixed name) :=
  quoteIdentifier_unmarked (unmarked_append.2 ⟨hp, h⟩)

omit hp in
/-- The arguments of a function stand behind the bracket instead of in front of it. -/
theorem argumentsOutside_subset {quoted : List Char} {c : Char}
    (h : c ∈ Target.argumentsOutside quoted) : c ∈ quoted ∨ c ∈ [']', '(', ')'] := by
  unfold Target.argumentsOutside at h
  split at h
  · exact .inl h
  · split at h
    · exact .inl h
    · split at h
      · -- the text ends with the closing parenthesis of the arguments and the bracket behind it
        rename_i first cs _ _ inside hreverse
        have hcs : cs = inside.reverse ++ [')', ']'] := by
          rw [← List.reverse_reverse cs, hreverse]
          simp
        split at h
        · rename_i name arguments hsplit
          rw [hcs, Text.splitFirstChars?_eq_append hsplit]
          simp only [List.mem_append, List.mem_cons, List.not_mem_nil, or_false] at h ⊢
          tauto
        · exact .inl h
      · exact .inl h

omit hp in
/-- Moving the arguments of a function adds brackets and parentheses only. -/
theorem finishTable_unmarked {quoted : String} (h : Unmarked quoted) :
    Unmarked (t.finishTable quoted) := by
  unfold Target.finishTable
  split
  · intro hmark
    rw [String.toList_ofList] at hmark
    rcases argumentsOutside_subset hmark with hmark | hmark
    · exact h hmark
    · exact absurd hmark (by decide)
  · exact h

/-- A schema and a table, both parts of the name. -/
theorem quoteBareTable_unmarked {table : String} (h : Unmarked table) :
    Unmarked (t.quoteBareTable table) := by
  refine finishTable_unmarked ?_
  split
  · -- both sides of the last dot are parts of the name
    rename_i schema name hsplit
    have hsides := Text.splitLast?_eq_append hsplit
    have hschema : Unmarked schema := h.of_subset fun c hc => by simp [hsides, hc]
    have hname : Unmarked name := h.of_subset fun c hc => by simp [hsides, hc]
    have hsegments :
        Unmarked (Text.join "." ((Text.splitOn "." schema).map t.quoteIdentifier)) := by
      refine unmarked_join (by decide) fun piece hpiece => ?_
      obtain ⟨segment, hsegment, rfl⟩ := List.mem_map.1 hpiece
      exact quoteIdentifier_unmarked (hschema.of_mem_splitOn (by decide) hsegment)
    exact unmarked_append.2
      ⟨unmarked_append.2 ⟨hsegments, by decide⟩, quotePrefixed_unmarked hp hname⟩
  · exact quotePrefixed_unmarked hp h

/-- A table and its alias. -/
theorem quoteTable_unmarked {table : String} (h : Unmarked table) :
    Unmarked (t.quoteTable table) := by
  unfold Target.quoteTable
  split
  · rename_i name asName hsplit
    have hname := h.of_isInfix (splitAlias?_name hsplit).1.isInfix
    have hasName := h.of_isInfix (splitAlias?_alias hsplit).1
    refine finishTable_unmarked (unmarked_append.2 ⟨unmarked_append.2 ⟨?_, by decide⟩, ?_⟩)
    · exact quoteBareTable_unmarked hp hname
    · exact quotePrefixed_unmarked hp hasName
  · exact quoteBareTable_unmarked hp h

/-- Segments of a column between dots. -/
theorem quoteSegments_unmarked {column : String} (h : Unmarked column) :
    Unmarked (t.quoteSegments column) := by
  have hsegments : ∀ segment ∈ Text.splitOn "." column, Unmarked segment := fun segment hsegment =>
    h.of_mem_splitOn (by decide) hsegment
  unfold Target.quoteSegments
  split
  · -- with a qualifier the first segment is quoted as a table
    rename_i first second rest hsplit
    rw [hsplit] at hsegments
    obtain ⟨hfirst, hrest⟩ := List.forall_mem_cons.1 hsegments
    refine unmarked_join (by decide) (List.forall_mem_cons.2 ⟨quoteTable_unmarked hp hfirst, ?_⟩)
    intro piece hpiece
    obtain ⟨segment, hsegment, rfl⟩ := List.mem_map.1 hpiece
    exact quoteIdentifier_unmarked (hrest segment hsegment)
  · refine unmarked_join (by decide) fun piece hpiece => ?_
    obtain ⟨segment, hsegment, rfl⟩ := List.mem_map.1 hpiece
    exact quoteIdentifier_unmarked (hsegments segment hsegment)

/-- A column and its alias. -/
theorem quoteField_unmarked {column : String} (h : Unmarked column) :
    Unmarked (t.quoteField column) := by
  unfold Target.quoteField
  split
  · rename_i name asName hsplit
    have hname := h.of_isInfix (splitAlias?_name hsplit).1.isInfix
    have hasName := h.of_isInfix (splitAlias?_alias hsplit).1
    exact unmarked_append.2 ⟨unmarked_append.2
      ⟨quoteSegments_unmarked hp hname, by decide⟩, quoteIdentifier_unmarked hasName⟩
  · exact quoteSegments_unmarked hp h

/-! ## §3 Paths -/

omit hp in
/-- Escaping quotes adds quotes only. -/
theorem mem_escapeQuotes {cs : List Char} {c : Char} (h : c ∈ escapeQuotes cs) : c ∈ cs := by
  induction cs with
  | nil => exact h
  | cons x cs ih =>
    rw [escapeQuotes] at h
    split at h
    · rename_i hx
      -- the escape and the quote behind it
      rcases List.mem_cons.1 h with rfl | h
      · exact hx ▸ List.mem_cons_self
      · rcases List.mem_cons.1 h with rfl | h
        · exact hx ▸ List.mem_cons_self
        · exact List.mem_cons_of_mem _ (ih h)
    · split at h
      · exact List.mem_cons_of_mem _ (ih h)
      · rcases List.mem_cons.1 h with rfl | h
        · exact List.mem_cons_self
        · exact List.mem_cons_of_mem _ (ih h)

omit hp in
/-- A step of a path adds quotes, or leaves away an empty key. -/
theorem mem_pathStep {step : List Char} {c : Char} (h : c ∈ pathStep step) :
    c ∈ step ∨ c = '"' := by
  have hstep := key_append_bracketed step
  unfold pathStep at h
  generalize splitIndices step = parts at h hstep
  obtain ⟨key, indices⟩ := parts
  dsimp only at h hstep
  rw [← hstep, List.mem_append]
  split at h
  · exact .inl (.inr h)
  · simp only [List.cons_append, List.mem_cons, List.mem_append] at h
    tauto

omit hp in
/-- A path has the characters of its steps, quotes, dots and brackets. -/
theorem jsonPath_unmarked {path : String} (h : Unmarked path) : Unmarked (jsonPath path) := by
  have harrow : arrow.toList ≠ [] := by decide
  -- the steps are parts of the path with its quotes escaped
  have hpieces : ∀ step ∈ Text.splitOnChars arrow.toList (escapeQuotes path.toList),
      '?' ∉ step := by
    intro step hstep hmark
    have hpart : step <:+: Text.joinChars arrow.toList
        (Text.splitOnChars arrow.toList (escapeQuotes path.toList)) := Text.infix_joinChars hstep
    rw [Text.joinChars_splitOnChars harrow] at hpart
    exact h (mem_escapeQuotes (hpart.subset hmark))
  -- and are joined by dots, each perhaps in quotes
  have hsteps : '?' ∉ Text.joinChars ['.']
      ((Text.splitOnChars arrow.toList (escapeQuotes path.toList)).map pathStep) := by
    intro hmark
    rcases Text.mem_joinChars hmark with hmark | ⟨piece, hpiece, hmark⟩
    · exact absurd hmark (by decide)
    · obtain ⟨step, hstep, rfl⟩ := List.mem_map.1 hpiece
      rcases mem_pathStep hmark with hmark | hmark
      · exact hpieces step hstep hmark
      · exact absurd hmark (by decide)
  intro hmark
  rw [jsonPath, jsonPathOn, String.toList_ofList] at hmark
  simp only [List.mem_append] at hmark
  rcases hmark with (hmark | hmark) | hmark
  · split at hmark <;> exact absurd hmark (by decide)
  · exact hsteps hmark
  · exact absurd hmark (by decide)

/-- The column of a selector and its path as arguments. -/
theorem fieldAndPath_unmarked {column : String} (h : Unmarked column) :
    Unmarked (t.fieldAndPath column).1 ∧ Unmarked (t.fieldAndPath column).2 := by
  -- field and path are what stands on the two sides of the first arrow
  have hsides : Unmarked (splitSelector column).1 ∧ Unmarked (splitSelector column).2 := by
    unfold splitSelector
    cases hsplit : Text.splitFirst? arrow column with
    | none =>
      have hempty : Unmarked "" := by decide
      exact ⟨h, hempty⟩
    | some sides =>
      have hchars := Text.splitFirst?_eq_append hsplit
      rw [Option.getD_some]
      exact ⟨h.of_subset fun c hc => by simp [hchars, hc],
        h.of_subset fun c hc => by simp [hchars, hc]⟩
  unfold Target.fieldAndPath
  generalize splitSelector column = sides at hsides
  obtain ⟨field, path⟩ := sides
  refine ⟨quoteField_unmarked hp hsides.1, ?_⟩
  dsimp only
  split
  · decide
  · exact unmarked_append.2 ⟨by decide, jsonPath_unmarked hsides.2⟩

theorem selectorArguments_unmarked {column : String} (h : Unmarked column) :
    Unmarked (t.selectorArguments column) :=
  unmarked_append.2 (fieldAndPath_unmarked hp h)

theorem jsonRows_unmarked {column : String} (h : Unmarked column) : Unmarked (t.jsonRows column) :=
  unmarked_append.2
    ⟨unmarked_append.2 ⟨by decide, selectorArguments_unmarked hp h⟩, by decide⟩

/-! ## §4 Expressions -/

omit hp in
theorem pathAttributes_unmarked {steps : List String} (h : ∀ step ∈ steps, Unmarked step) :
    ∀ operand ∈ pathAttributes "'" steps, Unmarked operand := by
  intro operand hoperand
  obtain ⟨part, hpart, rfl⟩ := List.mem_map.1 hoperand
  obtain ⟨step, hstep, hpart⟩ := List.mem_flatMap.1 (List.mem_filter.1 hpart).1
  have hunmarked := (h step hstep).of_isInfix (stepParts_isInfix hpart)
  split
  · exact hunmarked
  · exact unmarked_append.2 ⟨unmarked_append.2 ⟨by decide, hunmarked⟩, by decide⟩

/-- The operators of PostgreSQL between quoted steps. -/
theorem arrowSelector_unmarked {selector : String} (h : Unmarked selector) :
    Unmarked (t.arrowSelector selector) := by
  have hpieces : ∀ step ∈ Text.splitOn arrow selector, Unmarked step := fun step hstep =>
    h.of_mem_splitOn (by decide) hstep
  unfold Target.arrowSelector
  split
  · exact quoteSegments_unmarked hp (by decide)
  · rename_i field steps hsplit
    rw [hsplit] at hpieces
    obtain ⟨hfield, hsteps⟩ := List.forall_mem_cons.1 hpieces
    have hattributes := pathAttributes_unmarked hsteps
    have hcolumn := quoteSegments_unmarked hp hfield
    dsimp only
    split
    · exact hcolumn
    · rename_i last hlast
      -- the last operator is another one, so the last attribute is taken off the join
      have hinit : ∀ operand ∈ (pathAttributes "'" steps).dropLast, Unmarked operand :=
        fun operand hoperand => hattributes operand (List.dropLast_subset _ hoperand)
      have hhead := unmarked_join (by decide : Unmarked arrow)
        (List.forall_mem_cons.2 ⟨hcolumn, hinit⟩)
      exact unmarked_append.2 ⟨unmarked_append.2 ⟨hhead, by decide⟩,
        hattributes last (List.mem_of_getLast? hlast)⟩

/-- A selector in the form of any dialect that has one. -/
theorem quoteSelector_unmarked {selector sql : String} (h : Unmarked selector)
    (hsql : t.quoteSelector selector = .ok sql) : Unmarked sql := by
  have harguments := selectorArguments_unmarked hp h
  unfold Target.quoteSelector at hsql
  split at hsql <;> cases hsql
  · simp only [unmarked_append, harguments, and_true]
    decide
  · exact arrowSelector_unmarked hp h
  · simp only [unmarked_append, harguments, and_true]
    decide
  · simp only [unmarked_append, harguments, and_true]
    decide

/-- A name in front of its alias. -/
theorem quoteUnaliased_unmarked {name sql : String} (h : Unmarked name)
    (hsql : t.quoteUnaliased name = .ok sql) : Unmarked sql := by
  unfold Target.quoteUnaliased at hsql
  split at hsql
  · exact quoteSelector_unmarked hp h hsql
  · cases hsql
    exact quoteSegments_unmarked hp h

/-- A name of any form. -/
theorem quote_unmarked {name sql : String} (h : Unmarked name) (hsql : t.quote name = .ok sql) :
    Unmarked sql := by
  unfold Target.quote at hsql
  split at hsql
  · rename_i before asName hsplit
    have hbefore := h.of_isInfix (splitAlias?_name hsplit).1.isInfix
    have hasName := h.of_isInfix (splitAlias?_alias hsplit).1
    simp only [bind_eq_ok, pure_eq_ok] at hsql
    obtain ⟨column, hcolumn, rfl⟩ := hsql
    exact unmarked_append.2 ⟨unmarked_append.2
      ⟨quoteUnaliased_unmarked hp hbefore hcolumn, by decide⟩, quoteIdentifier_unmarked hasName⟩
  · exact quoteUnaliased_unmarked hp h hsql

omit hp in
theorem replaceArrow_unmarked {s : String} (h : Unmarked s) :
    Unmarked (Text.replaceAll "->>" "->" s) :=
  unmarked_join (by decide) fun _ hpiece => h.of_mem_splitOn (by decide) hpiece

/-- A document, named with the arrow that keeps it one. -/
theorem quoteDocument_unmarked {name sql : String} (h : Unmarked name)
    (hsql : t.quoteDocument name = .ok sql) : Unmarked sql := by
  simp only [Target.quoteDocument, bind_eq_ok, pure_eq_ok] at hsql
  obtain ⟨column, hcolumn, rfl⟩ := hsql
  exact replaceArrow_unmarked (quote_unmarked hp h hcolumn)

/-- A selector that is compared with a boolean. -/
theorem booleanSelector_unmarked {selector sql : String} (h : Unmarked selector)
    (hsql : t.booleanSelector selector = .ok sql) : Unmarked sql := by
  unfold Target.booleanSelector at hsql
  split at hsql
  · cases hsql
    simp only [unmarked_append, selectorArguments_unmarked hp h, and_true]
    decide
  · simp only [bind_eq_ok, pure_eq_ok] at hsql
    obtain ⟨column, hcolumn, rfl⟩ := hsql
    simp only [unmarked_append, replaceArrow_unmarked (quoteSelector_unmarked hp h hcolumn),
      and_true]
    decide
  · exact quoteSelector_unmarked hp h hsql

omit hp in
/-- A boolean literal, cast or not. -/
theorem booleanLiteral_unmarked {literal : String} (h : Unmarked literal) :
    Unmarked (t.booleanLiteral literal) := by
  unfold Target.booleanLiteral
  split
  · exact unmarked_append.2 ⟨unmarked_append.2 ⟨by decide, h⟩, by decide⟩
  · exact unmarked_append.2 ⟨unmarked_append.2 ⟨by decide, h⟩, by decide⟩
  · exact h

/-! ## §5 Tests on keys -/

omit hp in
/-- The last step of a selector, in which quotes are doubled. -/
theorem lastStep_unmarked {column : String} (h : Unmarked column) :
    Unmarked (Text.double '\'' (Target.splitLastStep column).2) := by
  have hlast : Unmarked (Target.splitLastStep column).2 := by
    refine h.of_isInfix ?_
    conv_rhs => rw [← join_splitLastStep column]
    rw [Text.join, String.toList_ofList]
    exact Text.infix_joinChars (by simp)
  intro hmark
  rw [Text.double, String.toList_ofList, Text.mem_doubleChars] at hmark
  exact hlast hmark

/-- PostgreSQL: the operator for keys is escaped, and nothing else has question marks. -/
theorem arrowContainsKey_settles {column sql : String} (h : Unmarked column)
    (hsql : t.arrowContainsKey column = .ok sql) : Settles sql := by
  unfold Target.arrowContainsKey at hsql
  simp only [bind_eq_ok] at hsql
  obtain ⟨document, hdocument, hsql⟩ := hsql
  have hunmarked : Unmarked document := by
    -- whatever the last step is, the document is what stands in front of it
    refine quoteDocument_unmarked hp (h.of_isInfix ?_) hdocument
    split
    · exact (outer_isPrefix column).isInfix
    · rename_i before digits htrailing
      exact (outer_concat_isPrefix (trailingIndex?_isPrefix htrailing)).isInfix
    · exact (outer_isPrefix column).isInfix
  split at hsql
  · rename_i index _
    simp only [pure_eq_ok] at hsql
    obtain rfl := hsql
    have hbound : Unmarked
        (if index < 0 then ">= " ++ toString index.natAbs else "> " ++ toString index) := by
      split
      · exact unmarked_append.2 ⟨by decide, unmarked_nat _⟩
      · exact unmarked_append.2 ⟨by decide, unmarked_int _⟩
    refine Unmarked.settles ?_
    simp only [unmarked_append, hunmarked, hbound, and_true]
    decide
  · simp only [pure_eq_ok] at hsql
    obtain rfl := hsql
    -- the operator stands between the document and the last step, and is the only part with marks
    have hhead : Settles ("coalesce((" ++ document) :=
      (unmarked_append.2 ⟨by decide, hunmarked⟩).settles
    have hoperator : Settles ")::jsonb ?? '" := by
      have hdoubled : escapePlaceholders ")::jsonb ? '" = ")::jsonb ?? '" := by decide
      rw [← hdoubled]
      exact settles_escaped _
    have hend : Unmarked (Text.double '\'' (Target.splitLastStep column).2 ++ "', false)") :=
      unmarked_append.2 ⟨lastStep_unmarked h, by decide⟩
    have hall := (hhead.append hoperator).append hend.settles
    rwa [← String.append_assoc] at hall

/-- SQL Server: the rows of the document around the last step. -/
theorem rowsContainKey_unmarked {column : String} (h : Unmarked column) :
    Unmarked (t.rowsContainKey column) := by
  unfold Target.rowsContainKey
  dsimp only
  split
  · rename_i before digits htrailing
    -- the index is cut off, and what is left begins the last step
    have hbefore := trailingIndex?_isPrefix htrailing
    have hrows := jsonRows_unmarked hp (h.of_isInfix (outer_concat_isPrefix hbefore).isInfix)
    -- a number of digits, with a sign perhaps
    have hindex : Unmarked (String.ofList digits) := by
      intro hmark
      rw [String.toList_ofList] at hmark
      rcases (trailingIndex?_eq_append htrailing).2 _ hmark with hmark | hmark <;>
        exact absurd hmark (by decide)
    simp only [unmarked_append, hindex, hrows, and_true, true_and]
    decide
  · have hrows := jsonRows_unmarked hp (h.of_isInfix (outer_isPrefix column).isInfix)
    simp only [unmarked_append, lastStep_unmarked h, hrows, and_true]
    decide

/-- Whether a document holds a key. -/
theorem containsKey_settles {column sql : String} (h : Unmarked column)
    (hsql : t.containsKey column = .ok sql) : Settles sql := by
  obtain ⟨hfield, hpath⟩ := fieldAndPath_unmarked hp h
  unfold Target.containsKey at hsql
  split at hsql
  · cases hsql
  · dsimp only at hsql
    obtain rfl := Except.ok.inj hsql
    refine Unmarked.settles ?_
    simp only [unmarked_append, hfield, hpath, and_true]
    decide
  · exact arrowContainsKey_settles hp h hsql
  · obtain rfl := Except.ok.inj hsql
    refine Unmarked.settles ?_
    simp only [unmarked_append, selectorArguments_unmarked hp h, and_true]
    decide
  · obtain rfl := Except.ok.inj hsql
    exact (rowsContainKey_unmarked hp h).settles

end Prefixed

end SqlCompiler
