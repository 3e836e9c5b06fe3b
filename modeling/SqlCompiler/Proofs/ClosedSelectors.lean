import SqlCompiler.Proofs.ClosedNames
import SqlCompiler.Proofs.Outcome

/-!
# Closed Selectors

A name that leads into a JSON document becomes an expression around its quoted column. The path of
most dialects is one literal in which quotes are doubled before the path is cut into steps, so that
no cut may separate a doubled quote. PostgreSQL writes a literal for every step and does not double
the quotes, so that there the name of a selector must not contain one.

## Main definitions

- `Paired`: every single quote of a text is doubled
- `Target.NameFits`: a name that the dialect can quote

## Main statements

- `jsonPath_closed`: a path is closed as a literal, whatever it is made of
- `quote_closed`, `containsKey_closed`: names and tests on them
-/

namespace SqlCompiler

variable {d : Dialect} {t : Target}

/-! ## §1 Path literals -/

/-- A text whose single quotes are doubled. -/
inductive Paired : List Char → Prop where
  | nil : Paired []
  | quote {cs : List Char} (h : Paired cs) : Paired ('\'' :: '\'' :: cs)
  | char {c : Char} {cs : List Char} (hc : c ≠ '\'') (h : Paired cs) : Paired (c :: cs)

theorem Paired.append {cs ds : List Char} (h : Paired cs) (h' : Paired ds) :
    Paired (cs ++ ds) := by
  induction h with
  | nil => exact h'
  | quote _ ih => exact .quote ih
  | char hc _ ih => exact .char hc ih

/-- A cut at a character other than the quote separates no doubled quote. -/
theorem Paired.split {cs ds : List Char} {c : Char} (hc : c ≠ '\'') (h : Paired (cs ++ c :: ds)) :
    Paired cs ∧ Paired ds := by
  generalize htext : cs ++ c :: ds = text at h
  induction h generalizing cs with
  | nil => exact absurd htext (by simp)
  | quote h ih =>
    -- the cut is in front of a pair, inside of it, or behind it
    match cs with
    | [] =>
      cases htext
      exact absurd rfl hc
    | [x] =>
      cases htext
      exact absurd rfl hc
    | x :: y :: cs =>
      cases htext
      exact ⟨.quote (ih rfl).1, (ih rfl).2⟩
  | char hx h ih =>
    match cs with
    | [] =>
      cases htext
      exact ⟨.nil, h⟩
    | x :: cs =>
      cases htext
      exact ⟨.char hx (ih rfl).1, (ih rfl).2⟩

theorem paired_of_not_mem {cs : List Char} (h : '\'' ∉ cs) : Paired cs := by
  induction cs with
  | nil => exact .nil
  | cons c cs ih =>
    obtain ⟨hc, hcs⟩ := not_or.1 (mt List.mem_cons.2 h)
    exact .char (Ne.symm hc) (ih hcs)

theorem paired_escapeQuotes (cs : List Char) : Paired (escapeQuotes cs) := by
  induction cs with
  | nil => exact .nil
  | cons c cs ih =>
    rw [escapeQuotes]
    split
    · exact .quote ih
    · split
      · exact ih
      · exact .char ‹_› ih

/-- Behind a text without quotes. -/
theorem Paired.drop {cs ds : List Char} (hcs : '\'' ∉ cs) (h : Paired (cs ++ ds)) : Paired ds := by
  induction cs with
  | nil => exact h
  | cons c cs ih =>
    obtain ⟨hc, hcs⟩ := not_or.1 (mt List.mem_cons.2 hcs)
    have hcons : Paired ([] ++ c :: (cs ++ ds)) := h
    exact ih hcs (hcons.split (Ne.symm hc)).2

theorem paired_joinChars {sep : List Char} {pieces : List (List Char)} (hsep : '\'' ∉ sep)
    (h : ∀ piece ∈ pieces, Paired piece) : Paired (Text.joinChars sep pieces) := by
  fun_induction Text.joinChars sep pieces with
  | case1 => exact .nil
  | case2 piece => exact h piece List.mem_cons_self
  | case3 piece rest _ ih =>
    obtain ⟨hpiece, hrest⟩ := List.forall_mem_cons.1 h
    exact (hpiece.append (paired_of_not_mem hsep)).append (ih hrest)

/-- The pieces of a text whose quotes are doubled, cut at a separator without quotes. -/
theorem paired_of_mem_pieces {sep piece : List Char} {pieces : List (List Char)} (hne : sep ≠ [])
    (hsep : '\'' ∉ sep) (h : Paired (Text.joinChars sep pieces)) (hpiece : piece ∈ pieces) :
    Paired piece := by
  fun_induction Text.joinChars sep pieces with
  | case1 => cases hpiece
  | case2 first =>
    rw [List.mem_singleton.1 hpiece]
    exact h
  | case3 first rest _ ih =>
    -- a separator without quotes does not stand inside of a pair
    have hcut : Paired first ∧ Paired (Text.joinChars sep rest) := by
      obtain ⟨c, cs, rfl⟩ := List.exists_cons_of_ne_nil hne
      obtain ⟨hc, hcs⟩ := not_or.1 (mt List.mem_cons.2 hsep)
      rw [List.append_assoc, List.cons_append] at h
      obtain ⟨hfirst, hrest⟩ := h.split (Ne.symm hc)
      exact ⟨hfirst, hrest.drop hcs⟩
    rcases List.mem_cons.1 hpiece with rfl | hpiece
    · exact hcut.1
    · exact ih hcut.2 hpiece

/-- A step of a path is cut only at brackets. -/
theorem paired_pathStep {step : List Char} (h : Paired step) : Paired (pathStep step) := by
  -- a bracket does not stand inside of a pair either
  have hkey : Paired (splitIndices step).1 ∧ Paired (bracketed (splitIndices step).2) := by
    have hstep := key_append_bracketed step
    cases hindices : (splitIndices step).2 with
    | nil =>
      rw [hindices] at hstep
      rw [← hstep] at h
      exact ⟨by simpa [bracketed] using h, .nil⟩
    | cons index indices =>
      rw [hindices] at hstep
      rw [← hstep, bracketed, List.flatMap_cons, List.cons_append, List.cons_append] at h
      obtain ⟨hkey, hrest⟩ := h.split (by decide)
      exact ⟨hkey, .char (by decide) hrest⟩
  unfold pathStep
  generalize splitIndices step = parts at hkey
  obtain ⟨key, indices⟩ := parts
  dsimp only at hkey ⊢
  split
  · exact hkey.2
  · exact .char (by decide) (hkey.1.append (.char (by decide) hkey.2))

/-- A text whose quotes are doubled stays inside of a literal. -/
theorem reads_paired {depth : Nat} {cs : List Char} (h : Paired cs) :
    Reads d (.inside .literal depth) cs (.inside .literal depth) := by
  induction h with
  | nil => exact .nil
  | quote _ ih => exact reads_doubled.append ih
  | char hc _ ih => exact (reads_inside hc).append ih

/-- A path is closed as a literal, whatever it is made of. -/
theorem jsonPath_closed (path : String) : TextClosed d (jsonPath path) := by
  have harrow : arrow.toList ≠ [] := by decide
  -- all the quotes inside of the literal come in pairs
  have hsteps : Paired (Text.joinChars ['.']
      ((Text.splitOnChars arrow.toList (escapeQuotes path.toList)).map pathStep)) := by
    refine paired_joinChars (by decide) fun piece hpiece => ?_
    obtain ⟨step, hstep, rfl⟩ := List.mem_map.1 hpiece
    refine paired_pathStep (paired_of_mem_pieces harrow (by decide) ?_ hstep)
    rw [Text.joinChars_splitOnChars harrow]
    exact paired_escapeQuotes path.toList
  intro depth
  rw [TextLeads, jsonPath, jsonPathOn, String.toList_ofList]
  have hstart : Reads d (.between depth) ['\'', '$'] (.inside .literal depth) := reads_behind? rfl
  have hpoint : Reads d (.inside .literal depth) ['.'] (.inside .literal depth) := reads_behind? rfl
  have hend : Reads d (.inside .literal depth) ['\''] (.between depth) := reads_behind? rfl
  split
  · exact (hstart.append (reads_paired hsteps)).append hend
  · exact ((hstart.append hpoint).append (reads_paired hsteps)).append hend

/-- The column of a selector and its path as arguments. -/
theorem fieldAndPath_closed {column : String} (hp : t.PrefixFits)
    (h : t.QualifierFits (columnOf column)) :
    TextClosed t.dialect (t.fieldAndPath column).1 ∧
      TextClosed t.dialect (t.fieldAndPath column).2 := by
  have hfield : TextClosed t.dialect (t.quoteField (splitSelector column).1) :=
    quoteField_closed hp (by rwa [unaliased_splitSelector])
  unfold Target.fieldAndPath
  generalize splitSelector column = sides at hfield
  obtain ⟨field, path⟩ := sides
  refine ⟨hfield, fun depth => ?_⟩
  dsimp only
  split
  · exact textLeads_empty
  · exact (textLeads rfl rfl).closed (jsonPath_closed path)

theorem selectorArguments_closed {column : String} (hp : t.PrefixFits)
    (h : t.QualifierFits (columnOf column)) :
    TextClosed t.dialect (t.selectorArguments column) :=
  (fieldAndPath_closed hp h).1.append (fieldAndPath_closed hp h).2

theorem jsonRows_closed {column : String} (hp : t.PrefixFits)
    (h : t.QualifierFits (columnOf column)) : TextClosed t.dialect (t.jsonRows column) :=
  fun _ => ((textLeads rfl rfl).closed (selectorArguments_closed hp h)).text rfl rfl

/-! ## §2 Steps one by one -/

theorem isPlain_of_decimal {c : Char} (h : isDigit c = true) : isPlain c = true :=
  isPlain_of_isDigit (by simpa [isDigit, Char.isDigit, Char.le_def] using h)

/-- An integer is made of digits and of signs. -/
theorem mem_integer {cs : List Char} (h : (integerOfChars? cs).isSome = true) :
    ∀ c ∈ cs, isDigit c = true ∨ c = '-' ∨ c = '+' := by
  unfold integerOfChars? at h
  split at h
  · rename_i negative digits hsign
    split at h
    · rename_i hdigits
      have hall : ∀ c ∈ digits, isDigit c = true ∨ c = '-' ∨ c = '+' := fun c hc =>
        .inl (List.all_eq_true.1 hdigits.2 c hc)
      split at hsign <;> cases hsign
      · exact List.forall_mem_cons.2 ⟨.inr (.inl rfl), hall⟩
      · exact List.forall_mem_cons.2 ⟨.inr (.inr rfl), hall⟩
      · exact hall
    · cases h

/-- An integer has neither quotes nor parentheses. -/
theorem isPlain_of_integer {cs : List Char} (h : (integerOfChars? cs).isSome = true) :
    ∀ c ∈ cs, isPlain c = true := by
  intro c hc
  rcases mem_integer h c hc with hdigit | rfl | rfl
  · exact isPlain_of_decimal hdigit
  · rfl
  · rfl

/-- The parts of a step stand in the step. -/
theorem stepParts_isInfix {step part : String} (h : part ∈ stepParts step) :
    part.toList <:+: step.toList := by
  have hstep := key_append_bracketed step.toList
  have hindex : ∀ index ∈ (splitIndices step.toList).2, index <:+: step.toList := by
    intro index hindex
    have hin : index <:+: bracketed (splitIndices step.toList).2 := by
      obtain ⟨before, after, hmem⟩ := List.append_of_mem hindex
      rw [hmem, bracketed, List.flatMap_append, List.flatMap_cons]
      exact ⟨bracketed before ++ ['['], [']'] ++ bracketed after, by simp [bracketed]⟩
    rw [← hstep]
    exact hin.trans (List.suffix_append _ _).isInfix
  unfold stepParts at h
  obtain ⟨chars, hchars, rfl⟩ := List.mem_map.1 h
  rw [String.toList_ofList]
  split at hchars
  · exact hindex chars hchars
  · rcases List.mem_cons.1 hchars with rfl | hchars
    · exact ⟨[], bracketed (splitIndices step.toList).2, by simpa using hstep⟩
    · exact hindex chars hchars

/-- PostgreSQL: the steps of a path without quotes. -/
theorem pathAttributes_closed {steps : List String}
    (h : ∀ step ∈ steps, '\'' ∉ step.toList) :
    ∀ operand ∈ pathAttributes "'" steps, TextClosed d operand := by
  intro operand hoperand
  obtain ⟨part, hpart, rfl⟩ := List.mem_map.1 hoperand
  obtain ⟨step, hstep, hpart⟩ := List.mem_flatMap.1 (List.mem_filter.1 hpart).1
  split
  · rename_i hinteger
    exact textClosed_of_plain (isPlain_of_integer hinteger)
  · have hquote : '\'' ∉ part.toList := fun hmem =>
      h step hstep ((stepParts_isInfix hpart).subset hmem)
    have hpart : ∀ depth, TextLeads d (.inside .literal depth) part (.inside .literal depth) :=
      fun _ => reads_paired (paired_of_not_mem hquote)
    exact fun depth => ((textLeads rfl rfl).append (hpart depth)).text rfl rfl

/-! ## §3 Expressions -/

/-- A name that the dialect can quote: in PostgreSQL a selector has no quotes, and in SQL Server a
qualifier has no arguments. -/
structure Target.NameFits (t : Target) (name : String) : Prop where
  quotes : t.dialect = .postgres → isSelector name = true → '\'' ∉ name.toList
  qualifier : t.QualifierFits (columnOf name)

theorem isSelector_of_isInfix {part name : String} (h : part.toList <:+: name.toList)
    (hpart : isSelector part = true) : isSelector name = true :=
  isSelector_iff.2 ((isSelector_iff.1 hpart).trans h)

/-- A name fits if it begins a name that fits. -/
theorem Target.NameFits.of_isPrefix {part name : String} (h : t.NameFits name)
    (hpart : part.toList <+: name.toList) : t.NameFits part where
  quotes hpostgres hselector hquote :=
    h.quotes hpostgres (isSelector_of_isInfix hpart.isInfix hselector) (hpart.subset hquote)
  qualifier := by
    unfold Target.QualifierFits qualifierOf Text.splitFirst?
    have hname := h.qualifier
    unfold Target.QualifierFits qualifierOf Text.splitFirst? at hname
    rw [toList_columnOf] at hname ⊢
    cases hdot : Text.splitFirstChars? ".".toList (fieldChars (nameChars part.toList)) with
    | none => exact fun _ => by simp
    | some sides =>
      -- a qualifier in the prefix is that of the whole name
      obtain ⟨after, hsame⟩ := qualifier_of_isPrefix hpart hdot
      have hsame' : Text.splitFirstChars? ".".toList (fieldChars (nameChars name.toList)) =
          some (sides.1, after) := hsame
      rw [hsame'] at hname
      exact hname

theorem Target.QualifierFits.of_postgres (hpostgres : t.dialect = .postgres) (column : String) :
    t.QualifierFits column :=
  fun hserver => absurd (hpostgres.symm.trans hserver) (by decide)

/-- PostgreSQL: a selector whose steps have no quotes. -/
theorem arrowSelector_closed {selector : String} (hp : t.PrefixFits) (h : t.NameFits selector)
    (hpostgres : t.dialect = .postgres) : TextClosed t.dialect (t.arrowSelector selector) := by
  obtain ⟨steps, hsplit, hsteps⟩ :=
    Text.splitOn_eq_cons arrow selector (by decide)
  have hfield : TextClosed t.dialect
      (t.quoteSegments ((Text.splitFirst? arrow selector).elim selector Prod.fst)) :=
    quoteSegments_closed hp (.of_postgres hpostgres _)
  have hclosed : ∀ operand ∈ pathAttributes "'" steps, TextClosed t.dialect operand := by
    refine pathAttributes_closed fun step hstep hquote => ?_
    -- a name with steps is a selector, and has no quotes
    have hselector : isSelector selector = true := by
      rw [isSelector, Option.isSome_iff_ne_none]
      exact fun hnone => absurd (hsteps.2 hnone) (List.ne_nil_of_mem hstep)
    have hmem : step ∈ Text.splitOn arrow selector := by
      rw [hsplit]
      exact List.mem_cons_of_mem _ hstep
    exact h.quotes hpostgres hselector (Text.mem_of_mem_splitOn (by decide) hmem hquote)
  unfold Target.arrowSelector
  rw [hsplit]
  dsimp only
  split
  · exact hfield
  · rename_i last hlast
    have hhead : TextClosed t.dialect (Text.join arrow
        (t.quoteSegments ((Text.splitFirst? arrow selector).elim selector Prod.fst) ::
          (pathAttributes "'" steps).dropLast)) := by
      refine textClosed_join (fun _ => textLeads rfl rfl) (List.forall_mem_cons.2 ⟨hfield, ?_⟩)
      exact fun operand hoperand => hclosed operand (List.dropLast_subset _ hoperand)
    have hlast := hclosed last (List.mem_of_getLast? hlast)
    exact fun depth => ((hhead depth).text rfl rfl).closed hlast

theorem quoteSelector_closed {selector sql : String} (hp : t.PrefixFits) (h : t.NameFits selector)
    (hsql : t.quoteSelector selector = .ok sql) : TextClosed t.dialect sql := by
  have harguments := selectorArguments_closed hp h.qualifier
  unfold Target.quoteSelector at hsql
  split at hsql <;> cases hsql
  · exact fun depth => ((textLeads rfl rfl).closed harguments).text rfl rfl
  · exact arrowSelector_closed hp h ‹_›
  · exact fun depth => ((textLeads rfl rfl).closed harguments).text rfl rfl
  · exact fun depth => ((textLeads rfl rfl).closed harguments).text rfl rfl

/-- A name without alias. -/
theorem quoteUnaliased_closed {name sql : String} (hp : t.PrefixFits) (h : t.NameFits name)
    (halias : unaliased name = name) (hsql : t.quoteUnaliased name = .ok sql) :
    TextClosed t.dialect sql := by
  unfold Target.quoteUnaliased at hsql
  split at hsql
  · exact quoteSelector_closed hp h hsql
  · rename_i hselector
    cases hsql
    have hcolumn : columnOf name = name := by
      rw [columnOf_eq_unaliased, halias]
      rwa [halias, ← Bool.not_eq_true]
    have hqualifier := h.qualifier
    rw [hcolumn] at hqualifier
    exact quoteSegments_closed hp hqualifier

/-- A name of any form that fits is closed. -/
theorem quote_closed {name sql : String} (hp : t.PrefixFits) (h : t.NameFits name)
    (hsql : t.quote name = .ok sql) : TextClosed t.dialect sql := by
  have hfits : t.NameFits (unaliased name) := h.of_isPrefix (unaliased_isPrefix name)
  -- what stands in front of an alias has none itself
  have halias : unaliased (unaliased name) = unaliased name := by
    rw [unaliased, splitAlias?_unaliased, Option.elim_none]
  unfold Target.quote at hsql
  split at hsql
  · rename_i before asName hsplit
    have hbefore : unaliased name = before := by rw [unaliased, hsplit, Option.elim_some]
    rw [hbefore] at hfits halias
    simp only [bind_eq_ok, pure_eq_ok] at hsql
    obtain ⟨column, hcolumn, rfl⟩ := hsql
    have hclosed := quoteUnaliased_closed hp hfits halias hcolumn
    exact fun depth => ((hclosed depth).text rfl rfl).closed (quoteIdentifier_closed t asName)
  · rename_i hsplit
    have hname : unaliased name = name := by rw [unaliased, hsplit, Option.elim_none]
    exact quoteUnaliased_closed hp h hname hsql

/-- An arrow is read alike with one head and with two. -/
theorem read_arrow (d : Dialect) (stage : Stage × Nat) :
    d.read stage "->".toList = d.read stage "->>".toList := by
  obtain ⟨place, depth⟩ := stage
  cases place with
  | between => cases d <;> rfl
  | inside quote => cases quote <;> cases d <;> rfl
  | behind quote => cases quote <;> cases d <;> rfl

theorem read_joinChars_arrow (d : Dialect) (stage : Stage × Nat) (pieces : List (List Char)) :
    d.read stage (Text.joinChars "->".toList pieces) =
      d.read stage (Text.joinChars "->>".toList pieces) := by
  induction pieces generalizing stage with
  | nil => rfl
  | cons piece rest ih =>
    cases rest with
    | nil => rfl
    | cons next rest =>
      simp only [Text.joinChars, Dialect.read_append, read_arrow] at ih ⊢
      simp only [ih]

/-- A shorter arrow is read like the arrow that gives text. -/
theorem replaceArrow_closed {s : String} (h : TextClosed d s) :
    TextClosed d (Text.replaceAll "->>" "->" s) := by
  have hself := Text.join_splitOn "->>" s (by decide)
  intro depth stage hstage
  obtain ⟨final, hfinal, hrests⟩ := h depth stage hstage
  refine ⟨final, ?_, hrests⟩
  rw [← hself, Text.join, String.toList_ofList] at hfinal
  rw [Text.replaceAll, Text.join, String.toList_ofList, read_joinChars_arrow]
  exact hfinal

theorem quoteDocument_closed {name sql : String} (hp : t.PrefixFits) (h : t.NameFits name)
    (hsql : t.quoteDocument name = .ok sql) : TextClosed t.dialect sql := by
  simp only [Target.quoteDocument, bind_eq_ok, pure_eq_ok] at hsql
  obtain ⟨column, hcolumn, rfl⟩ := hsql
  exact replaceArrow_closed (quote_closed hp h hcolumn)

theorem booleanSelector_closed {selector sql : String} (hp : t.PrefixFits)
    (h : t.NameFits selector) (hsql : t.booleanSelector selector = .ok sql) :
    TextClosed t.dialect sql := by
  unfold Target.booleanSelector at hsql
  split at hsql
  · cases hsql
    exact fun depth =>
      ((textLeads rfl rfl).closed (selectorArguments_closed hp h.qualifier)).text rfl rfl
  · simp only [bind_eq_ok, pure_eq_ok] at hsql
    obtain ⟨column, hcolumn, rfl⟩ := hsql
    have hclosed := replaceArrow_closed (quoteSelector_closed hp h hcolumn)
    exact fun depth => ((textLeads rfl rfl).closed hclosed).text rfl rfl
  · exact quoteSelector_closed hp h hsql

theorem booleanLiteral_closed {literal : String} (h : ∀ c ∈ literal.toList, isPlain c = true) :
    TextClosed t.dialect (t.booleanLiteral literal) := by
  intro depth
  unfold Target.booleanLiteral
  split
  · exact ((textLeads rfl rfl).append (textLeads_of_plain h)).text rfl rfl
  · exact ((textLeads rfl rfl).append (textLeads_of_plain h)).text rfl rfl
  · exact textLeads_of_plain h

/-! ## §4 Tests on keys -/

/-- PostgreSQL: the document around the last step is quoted as a selector of its own. -/
theorem arrowContainsKey_closed {column sql : String} (hp : t.PrefixFits) (h : t.NameFits column)
    (hsql : t.arrowContainsKey column = .ok sql) : TextClosed t.dialect sql := by
  unfold Target.arrowContainsKey at hsql
  simp only [bind_eq_ok] at hsql
  obtain ⟨document, hdocument, hsql⟩ := hsql
  -- the document is a beginning of the selector
  have hclosed : TextClosed t.dialect document := by
    refine quoteDocument_closed hp (h.of_isPrefix ?_) hdocument
    split
    · exact outer_isPrefix column
    · rename_i before digits htrailing
      exact outer_concat_isPrefix (trailingIndex?_isPrefix htrailing)
    · exact outer_isPrefix column
  split at hsql
  · rename_i index _
    simp only [pure_eq_ok] at hsql
    obtain rfl := hsql
    have hbound : ∀ p, TextLeads t.dialect p
        (if index < 0 then ">= " ++ toString index.natAbs else "> " ++ toString index) p := by
      intro p
      split
      · exact TextLeads.append (textLeads rfl rfl) (textLeads_nat _)
      · exact TextLeads.append (textLeads rfl rfl) (textLeads_int _)
    exact fun _ => ((((((textLeads rfl rfl).closed hclosed).text rfl rfl).text rfl rfl).closed
      hclosed).text rfl rfl).append (hbound _) |>.text rfl rfl
  · simp only [pure_eq_ok] at hsql
    obtain rfl := hsql
    exact fun _ => ((((textLeads rfl rfl).closed hclosed).text rfl rfl).append
      (textLeads_escaped _)).text rfl rfl

/-- SQL Server: the rows of the document around the last step. -/
theorem rowsContainKey_closed {column : String} (hp : t.PrefixFits) (h : t.NameFits column)
    (hserver : t.dialect = .sqlserver) : TextClosed .sqlserver (t.rowsContainKey column) := by
  have hrows : ∀ {part : String}, part.toList <+: column.toList →
      TextClosed .sqlserver (t.jsonRows part) := by
    intro part hpart
    have hclosed := jsonRows_closed hp (h.of_isPrefix hpart).qualifier
    rwa [hserver] at hclosed
  unfold Target.rowsContainKey
  dsimp only
  split
  · rename_i before digits htrailing
    have hbefore := trailingIndex?_isPrefix htrailing
    have hindex : TextClosed .sqlserver (String.ofList digits) := by
      refine textClosed_of_plain fun c hc => ?_
      rw [String.toList_ofList] at hc
      rcases (trailingIndex?_eq_append htrailing).2 c hc with hc | rfl
      · exact isPlain_of_decimal hc
      · rfl
    exact fun depth =>
      (((hindex depth).text rfl rfl).closed (hrows (outer_concat_isPrefix hbefore))).text rfl rfl
  · exact fun _ => ((((textLeads rfl rfl).append (textLeads_escaped _)).text rfl rfl).closed
      (hrows (outer_isPrefix column))).text rfl rfl

/-- Whether a document holds a key. -/
theorem containsKey_closed {column sql : String} (hp : t.PrefixFits) (h : t.NameFits column)
    (hsql : t.containsKey column = .ok sql) : TextClosed t.dialect sql := by
  obtain ⟨hfield, hpath⟩ := fieldAndPath_closed hp h.qualifier
  unfold Target.containsKey at hsql
  split at hsql
  · cases hsql
  · dsimp only at hsql
    obtain rfl := Except.ok.inj hsql
    exact fun _ => ((((textLeads rfl rfl).closed hfield).text rfl rfl).closed hpath).text rfl rfl
  · exact arrowContainsKey_closed hp h hsql
  · obtain rfl := Except.ok.inj hsql
    exact fun _ =>
      ((textLeads rfl rfl).closed (selectorArguments_closed hp h.qualifier)).text rfl rfl
  · rename_i hserver
    obtain rfl := Except.ok.inj hsql
    rw [hserver]
    exact rowsContainKey_closed hp h hserver

end SqlCompiler
