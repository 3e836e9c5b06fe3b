import SqlCompiler.Predicate
import SqlCompiler.Proofs.SelectorTokens
import SqlCompiler.Write.Update

/-!
# Renderings of PostgreSQL Selectors

Where a selector names a document, the arrow that gives text is replaced by the shorter one, and the
selector stands inside of a cast. As the key of an update, it becomes a column and one literal for
its whole path.

Every rendering has the tokens that are meant exactly if the path has no quote in it and, where an
arrow is replaced, none stands in the column.

## Main definitions

- `Target.ArrowlessColumn`: a column in which no arrow for text stands
- `Target.assignmentTokens`: the tokens in front of the value that is assigned
- `Renders`: a rendering succeeds and has the given tokens

## Main statements

- `lex_document_iff`: when a document is read as it is meant
- `lex_assignment_iff`: when an assignment is read as it is meant
- `selector_renders_iff`: when the renderings of a selector are read as they are meant
-/

namespace SqlCompiler

variable {t : Target}

/-! ## §1 Documents -/

/-- A column in which no arrow for text stands, and so none is lost when the last arrow of a
selector is replaced. -/
def Target.ArrowlessColumn (t : Target) (selector : String) : Prop :=
  ¬ "->>".toList <:+: (t.quoteSegments (splitSelector selector).1).toList

/-- No arrow for text arises where parts are put behind arrows. -/
theorem not_infix_arrows {first : List Char} {parts : List (List Char)}
    (hfirst : ¬ "->>".toList <:+: first)
    (hparts : ∀ part ∈ parts, part.head? ≠ some '>' ∧ ¬ "->>".toList <:+: part) :
    ¬ "->>".toList <:+: first ++ parts.flatMap (arrow.toList ++ ·) := by
  induction parts generalizing first with
  | nil => simpa using hfirst
  | cons part parts ih =>
    obtain ⟨⟨hhead, hpart⟩, hrest⟩ := List.forall_mem_cons.1 hparts
    rw [List.flatMap_cons, ← List.append_assoc]
    refine ih (fun hin => ?_) hrest
    have harrow : arrow.toList = ['-', '>'] := rfl
    have hlong : "->>".toList = ['-', '>', '>'] := rfl
    rw [harrow, hlong, List.cons_append] at hin
    rcases Text.infix_append_first (by decide) hin with hin | hin
    · exact hfirst (hlong ▸ hin)
    · -- an arrow that begins between both ends in the part
      rcases List.infix_cons_iff.1 hin with hin | hin
      · cases part with
        | nil => exact absurd hin (by decide)
        | cons c part =>
          simp only [List.cons_append, List.nil_append, List.cons_prefix_cons, true_and] at hin
          exact hhead (congrArg some hin.1.symm)
      · rcases List.infix_cons_iff.1 hin with hin | hin
        · exact absurd (List.cons_prefix_cons.1 hin).1 (by decide)
        · exact hpart (hlong ▸ hin)

/-- No part has an arrow in it. -/
theorem not_infix_part {selector part : String} (h : part ∈ selectorParts selector) :
    ¬ arrow.toList <:+: part.toList := by
  obtain ⟨step, hstep, hpart⟩ := List.mem_flatMap.1 (List.mem_filter.1 h).1
  intro hin
  exact Text.not_infix_of_mem_splitOn (by decide) (List.mem_of_mem_tail hstep)
    (hin.trans (stepParts_isInfix hpart))

theorem not_infix_quotePart {selector part : String} (h : part ∈ selectorParts selector) :
    (quotePart "'" part).toList.head? ≠ some '>' ∧
      ¬ "->>".toList <:+: (quotePart "'" part).toList := by
  -- a long arrow has a short one in it, at which the steps were cut
  have harrow : ¬ "->>".toList <:+: part.toList := fun hin =>
    not_infix_part h ((show arrow.toList <:+: "->>".toList by decide).trans hin)
  unfold quotePart
  split
  · rename_i hinteger
    refine ⟨fun hhead => ?_, harrow⟩
    have hmem := mem_integer hinteger '>' (List.mem_of_mem_head? hhead)
    exact absurd hmem (by decide)
  · refine ⟨by simp, fun hin => harrow ?_⟩
    simp only [String.toList_append] at hin
    rcases Text.infix_append_cons (c := '\'') (by decide) hin with hin | hin
    · exact Text.infix_of_infix_cons (by decide) hin
    · exact absurd hin (by decide)

theorem not_infix_outerSelector {selector : String} (h : t.ArrowlessColumn selector) :
    ¬ "->>".toList <:+: (t.outerSelector selector).toList ++ arrow.toList := by
  -- an empty part stands for the arrow at the end
  have hparts : ∀ part ∈ (selectorParts selector).dropLast.map
        (String.toList ∘ quotePart "'") ++ [[]],
      part.head? ≠ some '>' ∧ ¬ "->>".toList <:+: part := by
    intro part hpart
    rcases List.mem_append.1 hpart with hpart | hpart
    · obtain ⟨name, hname, rfl⟩ := List.mem_map.1 hpart
      exact not_infix_quotePart (List.dropLast_subset _ hname)
    · rw [List.mem_singleton.1 hpart]
      exact ⟨by simp, by decide⟩
  have houter := not_infix_arrows h hparts
  rw [List.flatMap_append, ← List.append_assoc] at houter
  rw [Target.outerSelector, Text.join, String.toList_ofList, List.map_cons,
    Text.joinChars_eq_flatMap, List.map_map]
  simpa using houter

/-- The document of a selector. -/
def Target.arrowDocument (t : Target) (selector : String) : String :=
  Text.replaceAll "->>" "->" (t.arrowSelector selector)

/-- Only the last arrow of a selector is replaced. -/
theorem arrowDocument_eq {selector : String} (h : t.ArrowlessColumn selector) :
    t.arrowDocument selector = t.outerSelector selector ++
      (selectorParts selector).getLast?.elim "" fun last => arrow ++ quotePart "'" last := by
  have houter := not_infix_outerSelector h
  rw [Target.arrowDocument, arrowSelector_eq]
  -- with a last part there is one long arrow, without one there is none
  cases hlast : (selectorParts selector).getLast? with
  | none =>
    rw [Option.elim_none, Option.elim_none, String.append_empty]
    refine Text.replaceAll_eq_self _ (by decide) fun hin => houter ?_
    exact hin.trans (List.prefix_append _ _).isInfix
  | some last =>
    have hpart := (not_infix_quotePart (List.mem_of_getLast? hlast)).2
    apply String.toList_inj.1
    have hwhole : (t.outerSelector selector ++ ("->>" ++ quotePart "'" last)).toList =
        (t.outerSelector selector).toList ++ "->>".toList ++ (quotePart "'" last).toList := by simp
    rw [Option.elim_some, Option.elim_some,
      Text.replaceAll_once (by decide) hwhole houter hpart]
    simp [arrow]

theorem undoubled_arrowDocument (hpostgres : t.dialect = .postgres) {selector : String}
    (halias : splitAlias? (splitSelector selector).1 = none) (h : t.ArrowlessColumn selector) :
    Undoubled .postgres (t.arrowDocument selector) (t.selectorTokens arrow selector) := by
  rw [arrowDocument_eq h, selectorTokens_eq]
  exact (undoubled_outerSelector hpostgres halias).append (undoubled_lastPart arrow selector)

/-- If an arrow stands in the column, more than the last arrow of the selector is shortened. -/
theorem arrowDocument_length_lt (hpostgres : t.dialect = .postgres) {selector : String}
    (halias : splitAlias? (splitSelector selector).1 = none) (h : ¬ t.ArrowlessColumn selector) :
    (t.arrowDocument selector).toList.length <
      ((t.selectorTokens arrow selector).flatMap (Lexeme.undoubled .postgres)).length := by
  have hcolumn : "->>".toList <:+: (t.outerSelector selector).toList := by
    refine (not_not.1 h).trans ?_
    rw [Target.outerSelector, Text.join, String.toList_ofList]
    exact Text.infix_joinChars List.mem_cons_self
  -- each replacement makes the text shorter by one, and the column has one of its own
  have hreplaced := Text.length_replaceAll "->>" "->" (t.arrowSelector selector) (by decide) rfl
  have houter := undoubled_outerSelector hpostgres halias
  have htokens := houter.append (undoubled_lastPart arrow selector)
  rw [Undoubled] at htokens
  rw [selectorTokens_eq, ← htokens, Target.arrowDocument]
  cases hlast : (selectorParts selector).getLast? with
  | none =>
    have hfound := Text.one_lt_length_splitOnChars (by decide) hcolumn
    simp only [arrowSelector_eq, hlast, Option.elim_none, String.append_empty] at hreplaced ⊢
    omega
  | some last =>
    have hfound := Text.two_lt_length_splitOnChars (quotePart "'" last).toList (by decide) hcolumn
    simp only [arrowSelector_eq, hlast, Option.elim_some, String.toList_append,
      ← List.append_assoc] at hreplaced ⊢
    have harrow : arrow.toList.length = 2 := rfl
    have hlong : "->>".toList.length = 3 := rfl
    simp only [List.length_append, harrow, hlong] at hreplaced ⊢
    omega

/-- A document between texts without quotes is read as it is meant exactly if neither its path has
a quote nor its column an arrow. -/
theorem lex_document_iff (hpostgres : t.dialect = .postgres) {selector rest : String}
    {more : List Lexeme} (halias : splitAlias? (splitSelector selector).1 = none)
    (before after : String) (hbefore : before.toList.all Dialect.postgres.isSign = true)
    (hafter : after.toList.all Dialect.postgres.isSign = true) (hne : after ≠ "")
    (hrest : Dialect.postgres.lex rest = some more) :
    Dialect.postgres.lex (before ++ t.arrowDocument selector ++ after ++ rest) =
        some (signs before ++ t.selectorTokens arrow selector ++ signs after ++ more) ↔
      '\'' ∉ (splitSelector selector).2.toList ∧ t.ArrowlessColumn selector := by
  by_cases hcolumn : t.ArrowlessColumn selector
  · have htext : Undoubled .postgres (before ++ t.arrowDocument selector ++ after)
        (signs before ++ t.selectorTokens arrow selector ++ signs after) :=
      ((undoubled_signs before).append
        (undoubled_arrowDocument hpostgres halias hcolumn)).append (undoubled_signs after)
    have hselector : Readable .postgres (t.selectorTokens arrow selector) :=
      readable_selector t (show arrow.toList = ['-', '>'] from rfl) (by decide) selector
    have hread : Finished .postgres
        (signs before ++ t.selectorTokens arrow selector ++ signs after) :=
      ((finished_signs hbefore).append_readable hselector).append_signs after hafter hne
    rw [lex_append_iff htext hread hrest, quoteless_append, quoteless_append,
      quoteless_selector_iff]
    simp [quoteless_signs, hcolumn]
  · refine iff_of_false (fun hlex => ?_) (fun h => hcolumn h.2)
    -- what is read is longer than the document
    have hspelling := congrArg List.length (spelling_of_lex hlex)
    have hsigns : ∀ s : String, (signs s).flatMap (Lexeme.spelling .postgres) = s.toList := by
      intro s
      rw [signs, List.flatMap_map]
      simp [Lexeme.spelling]
    simp only [String.toList_append, List.flatMap_append, hsigns, ← spelling_of_lex hrest,
      List.length_append] at hspelling
    have hlt := arrowDocument_length_lt hpostgres halias hcolumn
    have hle := undoubled_length_le (d := .postgres) (t.selectorTokens arrow selector)
    omega

/-! ## §2 Assignments -/

/-- A text whose last dot is known is unqualified behind that dot. -/
theorem unqualified_append {key : String} {before after : List Char}
    (hkey : key.toList = before ++ '.' :: after) (hafter : '.' ∉ after) :
    (unqualified key).toList = after := by
  have hsplit : key = String.ofList before ++ "." ++ String.ofList after := by
    apply String.toList_inj.1
    simp [hkey]
  have hlast : ¬ ['.'] <:+: [] ++ (String.ofList after).toList := by
    rw [List.nil_append, String.toList_ofList, List.singleton_infix_iff]
    exact hafter
  rw [unqualified, hsplit, Text.afterLast_append rfl _ hlast, String.toList_ofList]

theorem unqualified_eq_self {key : String} (h : '.' ∉ key.toList) : unqualified key = key :=
  Text.afterLast_eq_self fun hin => h (hin.subset (List.mem_singleton_self '.'))

/-- A selector is its column, an arrow and its path. -/
theorem toList_selector {selector : String} (h : isSelector selector = true) :
    selector.toList = (splitSelector selector).1.toList ++ arrow.toList ++
      (splitSelector selector).2.toList ∧
    ¬ arrow.toList <:+: (splitSelector selector).1.toList ++ arrow.toList.dropLast := by
  obtain ⟨sides, hsides⟩ := Option.isSome_iff_exists.1 h
  obtain ⟨chars, hchars, rfl⟩ := Option.map_eq_some_iff.1 hsides
  rw [splitSelector, hsides, Option.getD_some, String.toList_ofList, String.toList_ofList]
  exact ⟨Text.splitFirstChars?_eq_append hchars,
    Text.not_infix_of_splitFirstChars? (by decide) hchars⟩

/-- A selector without the beginning of its column is a selector with the same path. -/
theorem splitSelector_suffix {key rest : String} {column : List Char} (h : isSelector key = true)
    (hcolumn : column <:+ (splitSelector key).1.toList)
    (hrest : rest.toList = column ++ arrow.toList ++ (splitSelector key).2.toList) :
    isSelector rest = true ∧
      splitSelector rest = (String.ofList column, (splitSelector key).2) := by
  have hsplit : Text.splitFirstChars? arrow.toList rest.toList =
      some (column, (splitSelector key).2.toList) := by
    rw [hrest]
    refine Text.splitFirstChars?_append _ (by decide) fun hin => (toList_selector h).2 ?_
    exact hin.trans (List.suffix_append_self_iff.2 hcolumn).isInfix
  rw [isSelector, splitSelector, Text.splitFirst?, hsplit]
  exact ⟨rfl, by simp⟩

/-- The last dot of a text. -/
theorem exists_last_dot {cs : List Char} (h : '.' ∈ cs) :
    ∃ before after, cs = before ++ '.' :: after ∧ '.' ∉ after := by
  obtain ⟨after, before, hreverse, hafter⟩ :=
    List.eq_append_cons_of_mem (List.mem_reverse.2 h)
  refine ⟨before.reverse, after.reverse, ?_, by simpa using hafter⟩
  rw [← List.reverse_reverse cs, hreverse]
  simp

/-- If no dot stands in the path, a selector is unqualified by unqualifying its column. -/
theorem splitSelector_unqualified {key : String} (h : isSelector key = true)
    (hdot : '.' ∉ (splitSelector key).2.toList) :
    isSelector (unqualified key) = true ∧
      splitSelector (unqualified key) =
        (unqualified (splitSelector key).1, (splitSelector key).2) := by
  have hkey := (toList_selector h).1
  by_cases hcolumn : '.' ∈ (splitSelector key).1.toList
  · obtain ⟨before, after, hsides, hafter⟩ := exists_last_dot hcolumn
    have hname : unqualified (splitSelector key).1 = String.ofList after := by
      rw [← unqualified_append hsides hafter, String.ofList_toList]
    rw [hname]
    rw [hsides, List.append_assoc, List.append_assoc, List.cons_append] at hkey
    refine splitSelector_suffix h ?_ ?_
    · rw [hsides]
      exact ⟨before ++ ['.'], by simp⟩
    · rw [unqualified_append hkey, List.append_assoc]
      simp only [List.mem_append, not_or]
      exact ⟨hafter, by decide, hdot⟩
  · have hself : unqualified key = key := by
      refine unqualified_eq_self ?_
      rw [hkey]
      simp only [List.mem_append, not_or]
      exact ⟨⟨hcolumn, by decide⟩, hdot⟩
    rw [hself, unqualified_eq_self hcolumn]
    exact ⟨h, rfl⟩

theorem selectorParts_unqualified {key : String} (h : isSelector key = true)
    (hdot : '.' ∉ (splitSelector key).2.toList) :
    selectorParts (unqualified key) = selectorParts key := by
  obtain ⟨hselector, hsplit⟩ := splitSelector_unqualified h hdot
  rw [selectorParts, selectorParts, selectorSteps_eq hselector, selectorSteps_eq h, hsplit]

/-- A path as an array of PostgreSQL. -/
def pathArray (key : String) : String :=
  "\x7b" ++ Text.join "," ((selectorParts key).map (quotePart "\"")) ++ "\x7d"

/-- The text in front of the value that is assigned to a key. -/
def Target.assignmentHead (t : Target) (key : String) : String :=
  t.quoteSegments (splitSelector key).1 ++ " = jsonb_set(" ++
    t.quoteSegments (splitSelector key).1 ++ "::jsonb, " ++ ("'" ++ pathArray key ++ "'") ++ ", "

/-- The tokens in front of the value that is assigned to a key. -/
def Target.assignmentTokens (t : Target) (key : String) : List Lexeme :=
  t.columnTokens (splitSelector key).1 ++ signs " = jsonb_set(" ++
    t.columnTokens (splitSelector key).1 ++ signs "::jsonb, " ++
    [.quoted .literal (pathArray key).toList] ++ signs ", "

/-- The column of a selector is none itself. -/
theorem isSelector_column (selector : String) :
    isSelector (splitSelector selector).1 = false := by
  rw [← Bool.not_eq_true, isSelector_iff]
  refine Text.not_infix_of_mem_splitOn (s := selector) (by decide) ?_
  rw [splitOn_arrow]
  exact List.mem_cons_self

/-- A column without alias and arrow is rendered as its segments. -/
theorem quote_column {name : String} (halias : splitAlias? name = none)
    (hselector : isSelector name = false) : t.quote name = .ok (t.quoteSegments name) := by
  rw [Target.quote, halias]
  simp only [Target.quoteUnaliased, hselector, Bool.false_eq_true, if_false]

theorem setJsonb_eq {key : String} (value : Value)
    (halias : splitAlias? (splitSelector key).1 = none) :
    (t.setJsonb key value).map Sql.text =
      .ok (t.assignmentHead key ++ (value.raw?.getD "?" ++ ")")) := by
  have hcolumn := quote_column (t := t) halias (isSelector_column key)
  unfold Target.setJsonb
  rw [splitOn_arrow]
  simp only [hcolumn, pathAttributes_selectorSteps]
  refine congrArg Except.ok (String.toList_inj.1 ?_)
  simp [Target.assignmentHead, pathArray]

theorem quote_mem_pathArray_iff {key : String} :
    '\'' ∈ (pathArray key).toList ↔ '\'' ∈ (splitSelector key).2.toList := by
  have hpart : ∀ part : String, '\'' ∈ (quotePart "\"" part).toList ↔ '\'' ∈ part.toList := by
    intro part
    unfold quotePart
    split <;> simp
  have hjoin : '\'' ∈ (Text.join "," ((selectorParts key).map (quotePart "\""))).toList ↔
      ∃ part ∈ selectorParts key, '\'' ∈ part.toList := by
    constructor
    · intro hmem
      rcases Text.mem_join hmem with hmem | ⟨piece, hpiece, hmem⟩
      · exact absurd hmem (by decide)
      · obtain ⟨part, hmemPart, rfl⟩ := List.mem_map.1 hpiece
        exact ⟨part, hmemPart, (hpart part).1 hmem⟩
    · rintro ⟨part, hmemPart, hmem⟩
      rw [Text.join, String.toList_ofList]
      refine (Text.infix_joinChars (List.mem_map_of_mem
        (List.mem_map_of_mem hmemPart))).subset ((hpart part).2 hmem)
  rw [mem_path_iff_mem_part (by decide) (by decide) (by decide), ← hjoin, pathArray]
  simp

theorem undoubled_assignmentHead (hpostgres : t.dialect = .postgres) {key : String}
    (halias : splitAlias? (splitSelector key).1 = none) :
    Undoubled .postgres (t.assignmentHead key) (t.assignmentTokens key) := by
  have hcolumn := undoubled_column hpostgres halias
  have hpath : Undoubled .postgres ("'" ++ pathArray key ++ "'")
      [.quoted .literal (pathArray key).toList] := by
    simp [Undoubled, Lexeme.undoubled]
  exact ((((hcolumn.append (undoubled_signs _)).append hcolumn).append
    (undoubled_signs _)).append hpath).append (undoubled_signs _)

theorem finished_assignmentTokens (t : Target) (key : String) :
    Finished .postgres (t.assignmentTokens key) := by
  have hcolumn := readable_column (d := .postgres) t (splitSelector key).1
  have hset := hcolumn.append_signs " = jsonb_set(" (by decide) (by decide)
  have hcast := (hset.append_readable hcolumn).append_signs "::jsonb, " (by decide) (by decide)
  exact (hcast.append_readable (readable_quoted .literal _)).append_signs ", "
    (by decide) (by decide)

theorem quoteless_assignment_iff (t : Target) (key : String) :
    Quoteless (t.assignmentTokens key) ↔ '\'' ∉ (splitSelector key).2.toList := by
  have hpath : Quoteless [.quoted .literal (pathArray key).toList] ↔
      '\'' ∉ (splitSelector key).2.toList := by
    rw [← quote_mem_pathArray_iff]
    simp [Quoteless]
  unfold Target.assignmentTokens
  simp only [quoteless_append, quoteless_column, quoteless_signs, hpath, true_and, and_true]

/-! ## §3 All renderings -/

/-- A rendering succeeds, and its text has the given tokens. -/
def Renders (d : Dialect) (rendering : Except Fault String) (tokens : List Lexeme) : Prop :=
  ∃ sql, rendering = .ok sql ∧ d.lex sql = some tokens

theorem renders_ok_iff {d : Dialect} {sql : String} {tokens : List Lexeme} :
    Renders d (.ok sql) tokens ↔ d.lex sql = some tokens := by
  constructor
  · rintro ⟨_, hsql, hlex⟩
    cases hsql
    exact hlex
  · exact fun hlex => ⟨sql, rfl, hlex⟩

/-- A part of a name without alias has none either. -/
theorem splitAlias?_of_isInfix {name part : String} (h : splitAlias? name = none)
    (hpart : part.toList <:+: name.toList) : splitAlias? part = none :=
  splitAlias?_eq_none_iff.2 (splitAs?_eq_none_of_isInfix (splitAlias?_eq_none_iff.1 h) hpart)

theorem quoteDocument_eq (hpostgres : t.dialect = .postgres) {selector : String}
    (halias : splitAlias? selector = none) (hselector : isSelector selector = true) :
    t.quoteDocument selector = .ok (t.arrowDocument selector) := by
  have hquote : t.quote selector = .ok (t.arrowSelector selector) := by
    rw [Target.quote, halias]
    simp only [Target.quoteUnaliased, hselector, if_true, Target.quoteSelector, hpostgres]
  rw [Target.quoteDocument, hquote]
  rfl

/-- What PostgreSQL makes of a selector without alias is read as it is meant exactly if its path
has no quote in it; where an arrow is replaced, also no arrow for text may stand in the column. The
tokens of what follows a selector are taken as they are. The key of an update is cut at its last
dot before it is rendered. -/
theorem selector_renders_iff (t : Target) (selector : String) (hpostgres : t.dialect = .postgres)
    (halias : splitAlias? selector = none) (hselector : isSelector selector = true) :
    (Renders .postgres (t.quoteSelector selector) (t.selectorTokens "->>" selector) ↔
      '\'' ∉ (splitSelector selector).2.toList) ∧
    (Renders .postgres (t.booleanSelector selector)
        (signs "(" ++ t.selectorTokens "->" selector ++ signs ")::jsonb") ↔
      '\'' ∉ (splitSelector selector).2.toList ∧ t.ArrowlessColumn selector) ∧
    (∀ (operand : Sql) (more : List Lexeme), Dialect.postgres.lex operand.text = some more →
      (Renders .postgres ((t.jsonContainsOperand selector operand).map Sql.text)
          (signs "(" ++ t.selectorTokens "->" selector ++ signs ")::jsonb @> " ++ more) ↔
        '\'' ∉ (splitSelector selector).2.toList ∧ t.ArrowlessColumn selector)) ∧
    (∀ (operator : String) (operand : Sql) (more : List Lexeme),
      Dialect.postgres.lex (operator ++ " " ++ operand.text) = some more →
      (Renders .postgres ((t.jsonLengthOperand selector operator operand).map Sql.text)
          (signs "jsonb_array_length((" ++ t.selectorTokens "->" selector ++ signs ")::jsonb) " ++
            more) ↔
        '\'' ∉ (splitSelector selector).2.toList ∧ t.ArrowlessColumn selector)) ∧
    (∀ (value : Value) (more : List Lexeme),
      Dialect.postgres.lex (value.raw?.getD "?" ++ ")") = some more →
      (Renders .postgres ((t.setJsonb (unqualified selector) value).map Sql.text)
          (t.assignmentTokens (unqualified selector) ++ more) ↔
        '\'' ∉ (splitSelector (unqualified selector)).2.toList)) ∧
    ('.' ∉ (splitSelector selector).2.toList →
      selectorParts (unqualified selector) = selectorParts selector) := by
  have hcolumn : ∀ name : String, splitAlias? name = none →
      splitAlias? (splitSelector name).1 = none := fun name hname =>
    splitAlias?_of_isInfix hname (splitSelector_field_isPrefix name).isInfix
  have hfield := hcolumn selector halias
  refine ⟨?_, ?_, ?_, ?_, ?_, selectorParts_unqualified hselector⟩
  · have htext : t.quoteSelector selector = .ok (t.arrowSelector selector) := by
      simp only [Target.quoteSelector, hpostgres]
    have hread : Readable .postgres (t.selectorTokens "->>" selector) :=
      readable_selector t (show "->>".toList = ['-', '>', '>'] from rfl) (by decide) selector
    rw [htext, renders_ok_iff, lex_undoubled_iff (undoubled_arrowSelector hpostgres hfield) hread,
      quoteless_selector_iff]
  · have htext : t.booleanSelector selector =
        .ok ("(" ++ t.arrowDocument selector ++ ")::jsonb" ++ "") := by
      simp [Target.booleanSelector, Target.quoteSelector, hpostgres, Target.arrowDocument]
    have hempty : Dialect.postgres.lex "" = some [] := rfl
    have hlex := lex_document_iff hpostgres hfield "(" ")::jsonb"
      (by decide) (by decide) (by decide) hempty
    rw [htext, renders_ok_iff, ← hlex, List.append_nil]
    rfl
  · intro operand more hmore
    have htext : (t.jsonContainsOperand selector operand).map Sql.text =
        .ok ("(" ++ t.arrowDocument selector ++ ")::jsonb @> " ++ operand.text) := by
      unfold Target.jsonContainsOperand
      simp only [hpostgres, quoteDocument_eq hpostgres halias hselector]
      exact congrArg Except.ok (by simp)
    rw [htext, renders_ok_iff]
    exact lex_document_iff hpostgres hfield "(" ")::jsonb @> " (by decide) (by decide) (by decide)
      hmore
  · intro operator operand more hmore
    have htext : (t.jsonLengthOperand selector operator operand).map Sql.text =
        .ok ("jsonb_array_length((" ++ t.arrowDocument selector ++ ")::jsonb) " ++
          (operator ++ " " ++ operand.text)) := by
      unfold Target.jsonLengthOperand
      simp only [hpostgres, quoteDocument_eq hpostgres halias hselector]
      exact congrArg Except.ok (String.toList_inj.1 (by simp))
    rw [htext, renders_ok_iff]
    exact lex_document_iff hpostgres hfield "jsonb_array_length((" ")::jsonb) " (by decide)
      (by decide) (by decide) hmore
  · intro value more hmore
    have hkey : splitAlias? (splitSelector (unqualified selector)).1 = none :=
      hcolumn _ (splitAlias?_of_isInfix halias (Text.afterLast_suffix "." selector).isInfix)
    rw [setJsonb_eq value hkey, renders_ok_iff,
      lex_append_iff (undoubled_assignmentHead hpostgres hkey)
        (finished_assignmentTokens t _) hmore,
      quoteless_assignment_iff]

/-- PostgreSQL with a table prefix. -/
def prefixingPostgres : Target :=
  { dialect := .postgres, options := { tablePrefix := "shop_" } }

theorem taggedName_renders :
    prefixingPostgres.dialect = .postgres ∧
    splitAlias? "u.meta->tags[0]->name;--" = none ∧
    isSelector "u.meta->tags[0]->name;--" = true ∧
    Renders .postgres (prefixingPostgres.quoteSelector "u.meta->tags[0]->name;--")
      ([.quoted .identifier "shop_u".toList, .sign '.', .quoted .identifier "meta".toList] ++
        signs "->" ++ [.quoted .literal "tags".toList] ++ signs "->0->>" ++
        [.quoted .literal "name;--".toList]) ∧
    Renders .postgres ((prefixingPostgres.setJsonb (unqualified "u.meta->tags[0]->name;--")
        (.bool true)).map Sql.text)
      ([.quoted .identifier "meta".toList] ++ signs " = jsonb_set(" ++
        [.quoted .identifier "meta".toList] ++ signs "::jsonb, " ++
        [.quoted .literal "\x7b\"tags\",0,\"name;--\"\x7d".toList] ++ signs ", ?)") := by
  have hpostgres : prefixingPostgres.dialect = .postgres := rfl
  have halias : splitAlias? "u.meta->tags[0]->name;--" = none := by decide
  have hselector : isSelector "u.meta->tags[0]->name;--" = true := by decide
  have hrenders := selector_renders_iff prefixingPostgres "u.meta->tags[0]->name;--"
    hpostgres halias hselector
  exact ⟨hpostgres, halias, hselector, hrenders.1.2 (by decide),
    (hrenders.2.2.2.2.1 (.bool true) (signs "?)") rfl).2 (by decide)⟩

/-- A quote in a step ends its literal, and the last quote opens one that is never closed. -/
theorem quotedStep_unread :
    ¬ ∃ tokens, Renders .postgres (prefixingPostgres.quoteSelector "meta->it's") tokens := by
  have htext : prefixingPostgres.quoteSelector "meta->it's" = .ok "\"meta\"->>'it's'" := by
    decide +kernel
  rintro ⟨tokens, hrenders⟩
  rw [htext, renders_ok_iff] at hrenders
  have hnone : Dialect.postgres.lex "\"meta\"->>'it's'" = none := by decide
  rw [hnone] at hrenders
  cases hrenders

end SqlCompiler
