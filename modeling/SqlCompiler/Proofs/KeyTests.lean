import SqlCompiler.Proofs.AssignedPlaces
import SqlCompiler.Proofs.LastSteps
import SqlCompiler.Proofs.QuotedNames

/-!
# Tests on Keys

A selector can ask whether a document holds its last step. PostgreSQL and SQL Server cut the last
step off and look for it inside of the container that the other steps lead to.

For PostgreSQL, the test is compared with the tokens that it is meant to consist of. For SQL Server,
the literals in it are read: the key that is looked for, and the JSON path of the container.

## Main definitions

- `Target.arrowTestTokens`: the tokens of a test in PostgreSQL
- `LeadsThrough`: an argument whose JSON path is read as some steps
- `Target.TestsRows`: a test in SQL Server, with what its key and its argument are read as

## Main statements

- `arrowTest_renders_iff`: when PostgreSQL has the tokens that are meant
- `rowsTest_iff`: when SQL Server looks into the container
- `containsKey_tests_iff`: when a test looks for the last step in its container
-/

namespace SqlCompiler

variable {t : Target}

/-! ## §1 Tests of PostgreSQL -/

/-- How the length of an array compares if there is an element at an index. A negative index counts
from the end. -/
def lengthBound (i : Int) : String :=
  if i < 0 then ">= " ++ toString i.natAbs else "> " ++ toString i

/-- Whether there is an element at an index. -/
def arrayTest (document : String) (i : Int) : String :=
  "case when jsonb_typeof((" ++ document ++ ")::jsonb) = 'array' then " ++
    "jsonb_array_length((" ++ document ++ ")::jsonb) " ++ lengthBound i ++ " else false end"

/-- Whether there is a key. -/
def keyTest (document name : String) : String :=
  "coalesce((" ++ document ++ ")::jsonb ?? '" ++ Text.double '\'' name ++ "', false)"

/-- How a document is tested for a last step. An index that does not fit 64 bits is no number; then
the whole step is taken for a key. -/
def LastStep.arrowTest (step document : String) : LastStep → String
  | .index digits =>
    (integerOfChars? digits).elim (keyTest document step) (arrayTest document)
  | .key name => keyTest document name

/-- A column without steps is a document, too. -/
theorem quoteDocument_name (hpostgres : t.dialect = .postgres) {name : String}
    (halias : splitAlias? name = none) : t.quoteDocument name = .ok (t.arrowDocument name) := by
  by_cases hselector : isSelector name = true
  · exact quoteDocument_eq hpostgres halias hselector
  · have hnone : Text.splitFirst? arrow name = none := by simpa [isSelector] using hselector
    obtain ⟨rest, hsplit, hrest⟩ := Text.splitOn_eq_cons arrow name (by decide)
    rw [hrest.2 hnone, hnone] at hsplit
    rw [Bool.not_eq_true] at hselector
    rw [Target.quoteDocument, quote_column halias hselector, Target.arrowDocument,
      Target.arrowSelector, hsplit]
    rfl

/-- A document is made of its column and the parts of its path. -/
theorem arrowDocument_congr {name other : String}
    (hcolumn : (splitSelector name).1 = (splitSelector other).1)
    (hparts : selectorParts name = selectorParts other) :
    t.arrowDocument name = t.arrowDocument other := by
  rw [Target.arrowDocument, Target.arrowDocument, arrowSelector_eq, arrowSelector_eq,
    Target.outerSelector, Target.outerSelector, hcolumn, hparts]

/-- An empty step at the end of a container makes no difference. -/
theorem quoteDocument_outer (hpostgres : t.dialect = .postgres) {selector : String}
    (hselector : isSelector selector = true)
    (halias : splitAlias? (containerName .postgres selector) = none)
    (hlone : IsLoneIndex .postgres (finalStep selector).toList) :
    t.quoteDocument (Text.join arrow ((splitSelector selector).1 ::
        (selectorSteps selector).dropLast)) =
      .ok (t.arrowDocument (containerName .postgres selector)) := by
  -- an empty step has no parts, so that the container leads where the outer steps lead
  have hempty : (stepParts "").filter (!·.isEmpty) = [] := by decide
  obtain ⟨⟨before, digits⟩, hindex, hbefore⟩ := Option.map_eq_some_iff.1 hlone
  obtain rfl : before = [] := hbefore
  have hsteps : containerSteps .postgres selector = (selectorSteps selector).dropLast ++ [""] :=
    containerSteps_index hindex
  have hname : (Text.join arrow ((splitSelector selector).1 ::
      (selectorSteps selector).dropLast)).toList <:+:
        (containerName .postgres selector).toList := by
    rw [containerName, hsteps]
    simp only [Text.join, String.toList_ofList, List.map_cons, List.map_append, List.map_nil]
    exact (Text.joinChars_prefix_concat _ _ _).isInfix
  have houter := column_steps_join (not_infix_column selector) fun step hstep =>
    not_infix_selectorStep (List.dropLast_subset (selectorSteps selector) hstep)
  have hcut := containerName_cut .postgres hselector
  rw [quoteDocument_name hpostgres (splitAlias?_of_isInfix halias hname)]
  refine congrArg Except.ok (arrowDocument_congr (houter.1.trans hcut.1.symm) ?_)
  rw [selectorParts, selectorParts, houter.2, hcut.2, hsteps]
  simp [hempty]

/-- The container is tested for the last step. -/
theorem arrowContainsKey_eq (hpostgres : t.dialect = .postgres) {selector : String}
    (hselector : isSelector selector = true)
    (halias : splitAlias? (containerName .postgres selector) = none) :
    t.arrowContainsKey selector = .ok ((keyPlace .postgres selector).last.arrowTest
      (finalStep selector) (t.arrowDocument (containerName .postgres selector))) := by
  have hdocument := quoteDocument_name hpostgres halias
  simp only [Target.arrowContainsKey, splitLastStep_eq hselector]
  cases hinteger : integerOfChars? (finalStep selector).toList with
  | some i =>
    -- nothing of the last step is pushed back, where an index in brackets leaves an empty step
    have hindex : lastIndex? .postgres (finalStep selector).toList =
        some ([], (finalStep selector).toList) := by
      simp [lastIndex?, hinteger]
    have hlone : IsLoneIndex .postgres (finalStep selector).toList := by
      simp [IsLoneIndex, hindex]
    rw [keyPlace_index hindex]
    simp only [quoteDocument_outer hpostgres hselector halias hlone, LastStep.arrowTest, hinteger]
    rfl
  -- no number as a whole, but it may have an index in brackets behind a key
  | none =>
    have hindex : lastIndex? .postgres (finalStep selector).toList =
        trailingIndex? true (finalStep selector).toList := by
      simp [lastIndex?, hinteger]
    cases htrailing : trailingIndex? true (finalStep selector).toList with
    | none =>
      rw [htrailing] at hindex
      rw [containerName, containerSteps_key hindex] at hdocument ⊢
      rw [keyPlace_key hindex]
      simp only [hdocument]
      rfl
    | some index =>
      obtain ⟨before, digits⟩ := index
      rw [htrailing] at hindex
      rw [containerName, containerSteps_index hindex] at hdocument ⊢
      rw [keyPlace_index hindex]
      simp only [List.cons_append, hdocument, LastStep.arrowTest]
      cases integerOfChars? digits with
      | none => rfl
      | some i => rfl

/-- The tokens of the document that a container is: a column, and parts behind arrows. -/
def Target.documentTokens (t : Target) (place : KeyPlace) : List Lexeme :=
  t.columnTokens place.column ++ arrowTokens arrow (stepsParts place.container)

/-- The tokens around a document that is tested for a key. -/
def keyTestTokens (document : List Lexeme) (name : String) : List Lexeme :=
  signs "coalesce((" ++ document ++ signs ")::jsonb ?? " ++ [.quoted .literal name.toList] ++
    signs ", false)"

/-- The tokens around a document that is tested for an element. -/
def arrayTestTokens (document : List Lexeme) (i : Int) : List Lexeme :=
  signs "case when jsonb_typeof((" ++ document ++ signs ")::jsonb) = " ++
    [.quoted .literal "array".toList] ++ signs " then jsonb_array_length((" ++ document ++
    signs (")::jsonb) " ++ lengthBound i ++ " else false end")

/-- The tokens of a test: the last step is an element of the container or one of its keys. -/
def Target.arrowTestTokens (t : Target) (place : KeyPlace) : List Lexeme :=
  match place.last with
  | .index digits => arrayTestTokens (t.documentTokens place) (indexValue digits)
  | .key name => keyTestTokens (t.documentTokens place) name

theorem lex_keyTest_iff (hpostgres : t.dialect = .postgres) {name : String}
    (halias : splitAlias? (splitSelector name).1 = none) (key : String) :
    Dialect.postgres.lex (keyTest (t.arrowDocument name) key) =
        some (keyTestTokens (t.selectorTokens arrow name) key) ↔
      '\'' ∉ (splitSelector name).2.toList ∧ t.ArrowlessColumn name := by
  have hrest : Dialect.postgres.lex ("'" ++ Text.double '\'' key ++ "', false)") =
      some ([.quoted .literal key.toList] ++ signs ", false)") := by
    refine lex_of_spelling ?_ ?_
    · rw [List.flatMap_append, spelling_signs]
      simp [Lexeme.spelling, Quote.opening, Quote.closing, Text.double]
    · exact ((readable_quoted .literal _).append_signs ", false)" (by decide) (by decide)).readable
  rw [← lex_document_iff hpostgres halias "coalesce((" ")::jsonb ?? " (by decide) (by decide)
    (by decide) hrest, keyTestTokens]
  have htext : keyTest (t.arrowDocument name) key = "coalesce((" ++ t.arrowDocument name ++
      ")::jsonb ?? " ++ ("'" ++ Text.double '\'' key ++ "', false)") := by
    apply String.toList_inj.1
    simp [keyTest]
  rw [htext, List.append_assoc _ [_]]

theorem isSign_lengthBound (i : Int) :
    (")::jsonb) " ++ lengthBound i ++ " else false end").toList.all Dialect.postgres.isSign =
      true := by
  have hnat : ∀ n : Nat, (toString n).toList.all Dialect.postgres.isSign = true := by
    intro n
    rw [Nat.toString_eq_repr, Nat.repr, String.toList_ofList, List.all_eq_true]
    exact fun c hc => isSign_of_isPlain
      (isPlain_of_isDigit (Nat.isDigit_of_mem_toDigits (by decide) (by decide) hc))
  -- either way the bound is an operator and digits
  have hbound : (lengthBound i).toList.all Dialect.postgres.isSign = true := by
    unfold lengthBound
    split
    · rw [String.toList_append, List.all_append, hnat]
      rfl
    · rename_i hpositive
      obtain ⟨n, rfl⟩ := Int.eq_ofNat_of_zero_le (Int.not_lt.1 hpositive)
      rw [String.toList_append, List.all_append]
      exact hnat n
  rw [String.toList_append, String.toList_append, List.all_append, List.all_append, hbound]
  decide

/-- A test for an element, cut where its tokens change. -/
theorem arrayTest_eq (document : String) (i : Int) :
    arrayTest document i = "case when jsonb_typeof((" ++ document ++ ")::jsonb) = " ++ "'array'" ++
      " then jsonb_array_length((" ++ document ++
      (")::jsonb) " ++ lengthBound i ++ " else false end") := by
  -- only the middle is cut differently
  have hmiddle : ")::jsonb) = 'array' then " ++ "jsonb_array_length((" =
      ")::jsonb) = " ++ "'array'" ++ " then jsonb_array_length((" := by decide
  unfold arrayTest
  generalize lengthBound i = bound
  have hframed := congrArg (fun middle => "case when jsonb_typeof((" ++ document ++ middle ++
    (document ++ (")::jsonb) " ++ bound ++ " else false end"))) hmiddle
  simp only [String.append_assoc] at hframed ⊢
  exact hframed

theorem readable_arrayTestTokens (t : Target) (name : String) (i : Int) :
    Readable .postgres (arrayTestTokens (t.selectorTokens arrow name) i) := by
  have hselector : Readable .postgres (t.selectorTokens arrow name) :=
    readable_selector t (show arrow.toList = ['-', '>'] from rfl) (by decide) name
  have hopen : Finished .postgres (signs "case when jsonb_typeof((") := finished_signs (by decide)
  have htyped := (hopen.append_readable hselector).append_signs ")::jsonb) = " (by decide)
    (by decide)
  have hlength := (htyped.append_readable (readable_quoted .literal "array".toList)).append_signs
    " then jsonb_array_length((" (by decide) (by decide)
  exact ((hlength.append_readable hselector).append_signs _ (isSign_lengthBound i)
    (by simp)).readable

theorem lex_arrayTest_iff (hpostgres : t.dialect = .postgres) {name : String}
    (halias : splitAlias? (splitSelector name).1 = none) (i : Int) :
    Dialect.postgres.lex (arrayTest (t.arrowDocument name) i) =
        some (arrayTestTokens (t.selectorTokens arrow name) i) ↔
      '\'' ∉ (splitSelector name).2.toList ∧ t.ArrowlessColumn name := by
  have harray : Undoubled .postgres "'array'" [.quoted .literal "array".toList] := rfl
  by_cases hcolumn : t.ArrowlessColumn name
  · -- both documents and the text around them are written without doubling a quote
    have hdocument := undoubled_arrowDocument hpostgres halias hcolumn
    have hwritten : Undoubled .postgres (arrayTest (t.arrowDocument name) i)
        (arrayTestTokens (t.selectorTokens arrow name) i) := by
      rw [arrayTest_eq]
      exact ((((((undoubled_signs _).append hdocument).append (undoubled_signs _)).append
        harray).append (undoubled_signs _)).append hdocument).append (undoubled_signs _)
    rw [lex_undoubled_iff hwritten (readable_arrayTestTokens t name i), arrayTestTokens]
    simp only [quoteless_append, quoteless_signs, quoteless_selector_iff]
    simp [Quoteless, hcolumn]
  · refine iff_of_false (fun hlex => ?_) (fun h => hcolumn h.2)
    -- both times, what is read is longer than the document
    have hspelling := congrArg List.length (spelling_of_lex hlex)
    rw [arrayTest_eq, arrayTestTokens] at hspelling
    simp only [String.toList_append, List.flatMap_append, spelling_signs, List.length_append]
      at hspelling
    have harray : ([.quoted .literal "array".toList].flatMap (Lexeme.spelling .postgres)).length =
      "'array'".toList.length := rfl
    have hlt := arrowDocument_length_lt hpostgres halias hcolumn
    have hle := undoubled_length_le (d := .postgres) (t.selectorTokens arrow name)
    omega

/-- A key test is no test for an element. -/
theorem lex_keyTest_ne (document name : String) (tokens : List Lexeme) (i : Int) :
    Dialect.postgres.lex (keyTest document name) ≠ some (arrayTestTokens tokens i) := by
  intro hlex
  have hkey : "coalesce((".toList = 'c' :: 'o' :: "alesce((".toList := rfl
  have harray : "case when jsonb_typeof((".toList =
      'c' :: 'a' :: "se when jsonb_typeof((".toList := rfl
  have hspelling := spelling_of_lex hlex
  simp only [keyTest, arrayTestTokens, String.toList_append, List.flatMap_append, spelling_signs,
    hkey, harray, List.cons_append] at hspelling
  exact absurd (List.cons.inj (List.cons.inj hspelling).2).1 (by decide)

/-- What is left of a selector has the tokens of its container. -/
theorem selectorTokens_containerName (t : Target) {selector : String}
    (hselector : isSelector selector = true) :
    t.selectorTokens arrow (containerName .postgres selector) =
      t.documentTokens (keyPlace .postgres selector) := by
  obtain ⟨hcolumn, hsteps⟩ := containerName_cut .postgres hselector
  rw [Target.selectorTokens, Target.documentTokens, hcolumn, keyPlace_column,
    ← stepsParts_containerSteps, ← hsteps]
  rfl

/-- A quote in what is left of a selector stands in a step of its container. -/
theorem quote_not_mem_containerName_iff {selector : String}
    (hselector : isSelector selector = true) :
    '\'' ∉ (splitSelector (containerName .postgres selector)).2.toList ↔
      ∀ step ∈ (keyPlace .postgres selector).container, '\'' ∉ step.toList := by
  rw [mem_path_iff (by decide), (containerName_cut .postgres hselector).2, containerSteps_eq]
  split <;> simp

/-- The test is read as it is meant exactly if an index fits 64 bits, no step of the container has a
quote, and no arrow stands in the column. -/
theorem arrowTest_renders_iff (hpostgres : t.dialect = .postgres) {selector : String}
    (hselector : isSelector selector = true)
    (halias : splitAlias? (containerName .postgres selector) = none) :
    Renders .postgres (t.arrowContainsKey selector)
        (t.arrowTestTokens (keyPlace .postgres selector)) ↔
      (∀ digits, (keyPlace .postgres selector).last = .index digits →
        FitsInt64 (indexValue digits)) ∧
      (∀ step ∈ (keyPlace .postgres selector).container, '\'' ∉ step.toList) ∧
      t.ArrowlessColumn selector := by
  have hcolumnAlias : splitAlias? (splitSelector (containerName .postgres selector)).1 = none :=
    splitAlias?_of_isInfix halias (splitSelector_field_isPrefix _).isInfix
  -- the container has the column of the selector, and its steps are those in front of the last
  have hmeant : '\'' ∉ (splitSelector (containerName .postgres selector)).2.toList ∧
        t.ArrowlessColumn (containerName .postgres selector) ↔
      (∀ step ∈ (keyPlace .postgres selector).container, '\'' ∉ step.toList) ∧
        t.ArrowlessColumn selector := by
    rw [quote_not_mem_containerName_iff hselector, Target.ArrowlessColumn, Target.ArrowlessColumn,
      (containerName_cut .postgres hselector).1]
  rw [arrowContainsKey_eq hpostgres hselector halias, renders_ok_iff, Target.arrowTestTokens,
    ← selectorTokens_containerName t hselector, ← hmeant]
  cases hindex : lastIndex? .postgres (finalStep selector).toList with
  | none =>
    simp only [keyPlace_key hindex, LastStep.arrowTest]
    rw [lex_keyTest_iff hpostgres hcolumnAlias]
    refine (and_iff_right fun digits hkey => ?_).symm
    cases hkey
  | some index =>
    obtain ⟨before, digits⟩ := index
    simp only [keyPlace_index hindex, LastStep.arrowTest, integerOfChars?_lastIndex hindex,
      LastStep.index.injEq, forall_eq']
    by_cases hfits : FitsInt64 (indexValue digits)
    · rw [if_pos hfits, Option.elim_some, lex_arrayTest_iff hpostgres hcolumnAlias]
      exact (and_iff_right hfits).symm
    · -- the index is not read, and the step is taken for a key
      rw [if_neg hfits, Option.elim_none]
      exact iff_of_false (lex_keyTest_ne _ _ _ _) fun h => hfits h.1

/-! ## §2 Tests of SQL Server -/

/-- What a key is compared with is read as a last step. -/
def LastStep.ReadFrom (key : String) : LastStep → Prop
  | .index digits => key = String.ofList digits
  | .key name => Dialect.sqlserver.lex key = some [.quoted .literal name.toList]

/-- The argument behind a document leads through some steps: there is none if there are no steps,
and else a literal with a JSON path that is read as what these steps consist of, apart from the
backslashes in front of quotes, which no path keeps. -/
def LeadsThrough (steps : List String) (argument : String) : Prop :=
  if steps = [] then argument = ""
  else ∃ literal path, argument = ", " ++ literal ∧
    Dialect.sqlserver.lex literal = some [.quoted .literal path] ∧
    pathSteps? path = some (steps.flatMap fun step => stepPath (writtenStep step))

/-- A test for the last step among the keys of what the other steps lead to. -/
def Target.TestsRows (t : Target) (place : KeyPlace) (sql : String) : Prop :=
  ∃ key argument, sql = key ++ " in (select [key] from openjson(" ++
      t.quoteSegments place.column ++ argument ++ "))" ∧
    place.last.ReadFrom key ∧ LeadsThrough place.container argument

theorem LastStep.ReadFrom.unique {last : LastStep} {key other : String} (h : last.ReadFrom key)
    (h' : last.ReadFrom other) : key = other := by
  cases last with
  | index digits => exact h.trans h'.symm
  | key name =>
    apply String.toList_inj.1
    rw [spelling_of_lex h, spelling_of_lex h']

/-- A test that looks for the right step is right if its argument leads to the container. -/
theorem testsRows_iff {place : KeyPlace} {key : String} (hkey : place.last.ReadFrom key)
    (argument : String) :
    t.TestsRows place (key ++ " in (select [key] from openjson(" ++ t.quoteSegments place.column ++
        argument ++ "))") ↔ LeadsThrough place.container argument := by
  constructor
  · rintro ⟨other, found, hsql, hother, hleads⟩
    obtain rfl := hkey.unique hother
    have hchars := congrArg String.toList hsql
    simp only [String.toList_append, List.append_assoc, List.append_cancel_left_eq,
      List.append_cancel_right_eq] at hchars
    rwa [String.toList_inj.1 hchars]
  · exact fun hleads => ⟨key, argument, rfl, hkey, hleads⟩

/-- The path argument of a document. -/
def pathArgument (path : String) : String :=
  if path.isEmpty then "" else ", " ++ jsonPath path

/-- The rows of the document that is left of a selector. -/
theorem jsonRows_containerName {selector : String} (hselector : isSelector selector = true)
    (halias : splitAlias? (splitSelector selector).1 = none) :
    t.jsonRows (containerName .sqlserver selector) = "openjson(" ++
      t.quoteSegments (splitSelector selector).1 ++
      pathArgument (Text.join arrow (containerSteps .sqlserver selector)) ++ ")" := by
  obtain ⟨hcolumn, hsteps⟩ := containerName_cut .sqlserver hselector
  simp only [Target.jsonRows, Target.selectorArguments, Target.fieldAndPath, path_eq_join, hcolumn,
    hsteps, Target.quoteField, halias, pathArgument, String.append_assoc]

/-- The keys of the container are searched for the last step. -/
theorem rowsContainKey_eq {selector : String} (hselector : isSelector selector = true)
    (halias : splitAlias? (splitSelector selector).1 = none) :
    ∃ key, (keyPlace .sqlserver selector).last.ReadFrom key ∧
      t.rowsContainKey selector = key ++ " in (select [key] from openjson(" ++
        t.quoteSegments (keyPlace .sqlserver selector).column ++
        pathArgument (Text.join arrow (containerSteps .sqlserver selector)) ++ "))" := by
  have hrows := jsonRows_containerName (t := t) hselector halias
  -- the two parentheses at the end are written apart
  have hframe : ∀ key rows : String,
      key ++ " in (select [key] from " ++
        ("openjson(" ++ t.quoteSegments (splitSelector selector).1 ++ rows ++ ")") ++ ")" =
      key ++ " in (select [key] from openjson(" ++ t.quoteSegments (splitSelector selector).1 ++
        rows ++ "))" := by
    intro key rows
    apply String.toList_inj.1
    simp
  simp only [Target.rowsContainKey, splitLastStep_eq hselector, keyPlace_column]
  cases hindex : trailingIndex? false (finalStep selector).toList with
  | none =>
    have hlast : lastIndex? .sqlserver (finalStep selector).toList = none := hindex
    have hname : Text.join arrow ((splitSelector selector).1 ::
        (selectorSteps selector).dropLast) = containerName .sqlserver selector := by
      rw [containerName, containerSteps_key hlast]
    refine ⟨"'" ++ Text.double '\'' (finalStep selector) ++ "'", ?_, ?_⟩
    · rw [keyPlace_key hlast]
      refine lex_of_spelling ?_ (readable_quoted .literal _)
      simp [Lexeme.spelling, Quote.opening, Quote.closing, Text.double]
    · rw [← hframe, ← hrows, ← hname]
      apply String.toList_inj.1
      simp
  | some index =>
    obtain ⟨before, digits⟩ := index
    have hlast : lastIndex? .sqlserver (finalStep selector).toList = some (before, digits) := hindex
    have hname : Text.join arrow ((splitSelector selector).1 ::
        (selectorSteps selector).dropLast ++ [String.ofList before]) =
        containerName .sqlserver selector := by
      rw [containerName, containerSteps_index hlast]
      rfl
    refine ⟨String.ofList digits, ?_, ?_⟩
    · rw [keyPlace_index hlast]
      rfl
    · rw [← hframe, ← hrows, ← hname]

/-- An argument leads through steps if the path in its literal does. -/
theorem leadsThrough_pathArgument {steps : List String} (hne : steps ≠ []) {path : String}
    (hpath : path ≠ "") :
    LeadsThrough steps (pathArgument path) ↔
      pathSteps? (writtenPath path) =
        some (steps.flatMap fun step => stepPath (writtenStep step)) := by
  have hlex := lex_jsonPath .sqlserver path
  have hargument : pathArgument path = ", " ++ jsonPath path := by
    rw [pathArgument, if_neg (by simpa using hpath)]
  rw [LeadsThrough, if_neg hne, hargument]
  constructor
  · rintro ⟨literal, text, hliteral, htext, hsteps⟩
    have hchars := congrArg String.toList hliteral
    rw [String.toList_append, String.toList_append, List.append_cancel_left_eq] at hchars
    obtain rfl := String.toList_inj.1 hchars
    rw [hlex] at htext
    cases htext
    exact hsteps
  · exact fun hsteps => ⟨_, _, rfl, hlex, hsteps⟩

/-- Steps that are put together with one that is not empty are not empty. -/
theorem join_arrow_ne_empty {steps : List String} (hne : steps ≠ [])
    (harrow : ∀ step ∈ steps, ¬ arrow.toList <:+: step.toList) (hempty : "" ∉ steps) :
    Text.join arrow steps ≠ "" := by
  intro hnone
  have hsteps := splitOn_join_arrow hne harrow
  rw [hnone] at hsteps
  exact hempty (hsteps ▸ by decide)

/-- A path leads through its steps exactly if no key has a double quote in it and no step but the
first is of indices only. -/
theorem leadsThrough_iff {steps : List String}
    (harrow : ∀ step ∈ steps, ¬ arrow.toList <:+: step.toList) (hempty : "" ∉ steps) :
    LeadsThrough steps (pathArgument (Text.join arrow steps)) ↔
      (∀ step ∈ steps, '"' ∉ (splitIndices (writtenStep step)).1) ∧
        ∀ step ∈ steps.tail, ¬ IsBare (writtenStep step) := by
  by_cases hne : steps = []
  · subst hne
    simp [LeadsThrough, pathArgument, Text.join, Text.joinChars]
  · rw [leadsThrough_pathArgument hne (join_arrow_ne_empty hne harrow hempty),
      writtenPath_leads_iff hne harrow]

theorem empty_not_mem_container (d : Dialect) {selector : String}
    (h : "" ∉ selectorSteps selector) : "" ∉ (keyPlace d selector).container := by
  have houter : "" ∉ (selectorSteps selector).dropLast :=
    fun hmem => h (List.dropLast_subset _ hmem)
  cases hindex : lastIndex? d (finalStep selector).toList with
  | none => rwa [keyPlace_key hindex]
  | some index =>
    obtain ⟨before, digits⟩ := index
    rw [keyPlace_index hindex]
    split
    · simpa using houter
    · rename_i hbefore
      rw [List.mem_append, List.mem_singleton, not_or]
      refine ⟨houter, fun heq => hbefore ?_⟩
      simpa using (congrArg String.toList heq).symm

/-- The test looks into the container exactly if an index that is a step of its own stands behind no
other steps, and the path of the container leads through its steps. -/
theorem rowsTest_iff {selector : String} (hselector : isSelector selector = true)
    (halias : splitAlias? (splitSelector selector).1 = none)
    (hempty : "" ∉ selectorSteps selector) :
    t.TestsRows (keyPlace .sqlserver selector) (t.rowsContainKey selector) ↔
      (IsLoneIndex .sqlserver (finalStep selector).toList →
        (keyPlace .sqlserver selector).container = []) ∧
      (∀ step ∈ (keyPlace .sqlserver selector).container,
        '"' ∉ (splitIndices (writtenStep step)).1) ∧
      ∀ step ∈ (keyPlace .sqlserver selector).container.tail, ¬ IsBare (writtenStep step) := by
  obtain ⟨key, hkey, hsql⟩ := rowsContainKey_eq (t := t) hselector halias
  have hfilled := empty_not_mem_container .sqlserver hempty
  have harrow : ∀ step ∈ (keyPlace .sqlserver selector).container,
      ¬ arrow.toList <:+: step.toList := by
    intro step hstep
    refine not_infix_containerStep (d := .sqlserver) hselector ?_
    rw [containerSteps_eq]
    exact List.mem_append_left _ hstep
  rw [hsql, testsRows_iff hkey, containerSteps_eq]
  -- the path is that of the container, with an empty step behind it if the index stands alone
  by_cases hlone : IsLoneIndex .sqlserver (finalStep selector).toList
  · rw [if_pos hlone]
    by_cases hcontainer : (keyPlace .sqlserver selector).container = []
    · simp [hcontainer, LeadsThrough, pathArgument, Text.join, Text.joinChars]
    · refine iff_of_false (fun hleads => ?_) fun h => hcontainer (h.1 hlone)
      have hpath : Text.join arrow ((keyPlace .sqlserver selector).container ++ [""]) ≠ "" := by
        simp [Text.join_concat _ _ hcontainer, arrow]
      exact writtenPath_append_empty hcontainer hfilled harrow
        ((leadsThrough_pathArgument hcontainer hpath).1 hleads)
  · rw [if_neg hlone, List.append_nil, leadsThrough_iff harrow hfilled]
    exact (and_iff_right fun h => absurd h hlone).symm

/-! ## §3 Tests -/

/-- A test looks for the last step of a selector in the container that the other steps lead to.

PostgreSQL looks for it exactly if an index fits 64 bits, no step of the container has a quote in
it, and no arrow stands in the column. Where an index does not fit, the whole step is taken for a
key, but what stands before the index has gone to the container by then. SQL Server looks for it
exactly if a JSON path can lead through the steps of the container and, where the last step is an
index and nothing else, there are no such steps: what is left of the last step follows them as an
empty key. -/
theorem containsKey_tests_iff (t : Target) {selector : String}
    (hselector : isSelector selector = true) :
    (t.dialect = .postgres → splitAlias? (containerName .postgres selector) = none →
      (Renders .postgres (t.containsKey selector)
          (t.arrowTestTokens (keyPlace .postgres selector)) ↔
        (∀ digits, (keyPlace .postgres selector).last = .index digits →
          FitsInt64 (indexValue digits)) ∧
        (∀ step ∈ (keyPlace .postgres selector).container, '\'' ∉ step.toList) ∧
        t.ArrowlessColumn selector)) ∧
    (t.dialect = .sqlserver → splitAlias? (splitSelector selector).1 = none →
      "" ∉ selectorSteps selector →
      ((∃ sql, t.containsKey selector = .ok sql ∧
          t.TestsRows (keyPlace .sqlserver selector) sql) ↔
        (IsLoneIndex .sqlserver (finalStep selector).toList →
          (keyPlace .sqlserver selector).container = []) ∧
        (∀ step ∈ (keyPlace .sqlserver selector).container,
          '"' ∉ (splitIndices (writtenStep step)).1) ∧
        ∀ step ∈ (keyPlace .sqlserver selector).container.tail, ¬ IsBare (writtenStep step))) := by
  constructor
  · intro hpostgres halias
    have hkey : t.containsKey selector = t.arrowContainsKey selector := by
      simp only [Target.containsKey, hpostgres]
    rw [hkey, arrowTest_renders_iff hpostgres hselector halias]
  · intro hserver halias hempty
    have hkey : t.containsKey selector = .ok (t.rowsContainKey selector) := by
      simp only [Target.containsKey, hserver]
    rw [← rowsTest_iff (t := t) hselector halias hempty, hkey]
    constructor
    · rintro ⟨sql, hsql, htests⟩
      cases hsql
      exact htests
    · exact fun htests => ⟨_, rfl, htests⟩

theorem lastTag_tested :
    Renders .postgres (prefixingPostgres.containsKey "u.meta->tags[-1]")
      (prefixingPostgres.arrowTestTokens ⟨"u.meta", ["tags"], .index "-1".toList⟩) ∧
    ∃ sql, (Target.mk .sqlserver {}).containsKey "options->a->it's[2]" = .ok sql ∧
      (Target.mk .sqlserver {}).TestsRows ⟨"options", ["a", "it's"], .index "2".toList⟩ sql := by
  have hpostgres : keyPlace .postgres "u.meta->tags[-1]" =
      ⟨"u.meta", ["tags"], .index "-1".toList⟩ := by
    decide
  have hserver : keyPlace .sqlserver "options->a->it's[2]" =
      ⟨"options", ["a", "it's"], .index "2".toList⟩ := by
    decide
  rw [← hpostgres, ← hserver]
  constructor
  · refine ((containsKey_tests_iff prefixingPostgres (by decide)).1 rfl (by decide)).2 ⟨?_, ?_, ?_⟩
    · rw [hpostgres]
      rintro _ ⟨rfl⟩
      decide
    · rw [hpostgres]
      decide
    · unfold Target.ArrowlessColumn
      decide
  · refine ((containsKey_tests_iff ⟨.sqlserver, {}⟩ (by decide)).2 rfl (by decide) (by decide)).2
      ⟨?_, ?_, ?_⟩
    · decide
    · rw [hserver]
      decide
    · rw [hserver]
      decide

/-- SQL Server looks for an index into the array `a` under an empty key of it. PostgreSQL looks for
an index beyond 64 bits as a key, in the array and not in what the array stands in. -/
theorem loneIndex_emptyKey :
    (Target.mk .sqlserver {}).containsKey "options->a->[2]" =
      .ok "2 in (select [key] from openjson([options], '$.\"a\".\"\"'))" ∧
    keyPlace .sqlserver "options->a->[2]" = ⟨"options", ["a"], .index ['2']⟩ ∧
    ¬ (Target.mk .sqlserver {}).TestsRows ⟨"options", ["a"], .index ['2']⟩
      "2 in (select [key] from openjson([options], '$.\"a\".\"\"'))" ∧
    (Target.mk .postgres {}).containsKey "meta->a[9223372036854775808]" =
      .ok "coalesce((\"meta\"->'a')::jsonb ?? 'a[9223372036854775808]', false)" ∧
    keyPlace .postgres "meta->a[9223372036854775808]" =
      ⟨"meta", ["a"], .index "9223372036854775808".toList⟩ ∧
    ¬ Renders .postgres ((Target.mk .postgres {}).containsKey "meta->a[9223372036854775808]")
      ((Target.mk .postgres {}).arrowTestTokens
        ⟨"meta", ["a"], .index "9223372036854775808".toList⟩) := by
  have hserver : keyPlace .sqlserver "options->a->[2]" = ⟨"options", ["a"], .index ['2']⟩ := by
    decide
  have hpostgres : keyPlace .postgres "meta->a[9223372036854775808]" =
      ⟨"meta", ["a"], .index "9223372036854775808".toList⟩ := by
    decide
  have hrows : (Target.mk .sqlserver {}).rowsContainKey "options->a->[2]" =
      "2 in (select [key] from openjson([options], '$.\"a\".\"\"'))" := by
    decide +kernel
  refine ⟨by decide +kernel, hserver, ?_, by decide +kernel, hpostgres, ?_⟩
  · rw [← hserver, ← hrows, rowsTest_iff (by decide) (by decide) (by decide), hserver]
    rintro ⟨hlone, -⟩
    exact absurd (hlone (by decide)) (by decide)
  · have hkey : (Target.mk .postgres {}).containsKey "meta->a[9223372036854775808]" =
        (Target.mk .postgres {}).arrowContainsKey "meta->a[9223372036854775808]" := rfl
    rw [← hpostgres, hkey, arrowTest_renders_iff rfl (by decide) (by decide), hpostgres]
    rintro ⟨hfits, -⟩
    exact absurd (hfits _ rfl) (by decide)

end SqlCompiler
