import SqlCompiler.Proofs.ClosedSelectors
import SqlCompiler.Proofs.Spelling

/-!
# Tokens of PostgreSQL Selectors

A selector is meant to become its quoted column, arrows, and one literal or integer for each part of
its path. The quotes in the literals are not doubled, so that these are the tokens of the selector
only if no part has a quote in it.

## Main definitions

- `Target.columnTokens`: the tokens of a column that may be qualified
- `selectorParts`: the keys and indices of a path one by one
- `Target.selectorTokens`: the tokens of a selector

## Main statements

- `mem_path_iff_mem_part`: what stands in a path stands in one of its parts
- `undoubled_arrowSelector`: a selector is written as these tokens, without doubled quotes
- `readable_selector`: the tokens can be told apart
- `quoteless_selector_iff`: the literals have no quotes exactly if the path has none
-/

namespace SqlCompiler

variable {t : Target}

/-! ## §1 Columns -/

/-- The tokens of an identifier. The star is not quoted. -/
def identifierTokens (name : String) : List Lexeme :=
  if name = "*" then signs "*" else [.quoted .identifier name.toList]

/-- The segments of a column, the first of several with the table prefix. -/
def Target.segmentNames (t : Target) (column : String) : List String :=
  match Text.splitOn "." column with
  | first :: second :: rest => (t.options.tablePrefix ++ first) :: second :: rest
  | segments => segments

/-- The tokens of a column that may be qualified. -/
def Target.columnTokens (t : Target) (column : String) : List Lexeme :=
  match t.segmentNames column with
  | [] => []
  | first :: rest =>
    identifierTokens first ++ rest.flatMap fun name => signs "." ++ identifierTokens name

/-- What opens and closes nothing is a sign. -/
theorem isSign_of_isPlain {d : Dialect} {c : Char} (h : isPlain c = true) : d.isSign c = true := by
  refine isSign_iff.2 ⟨?_, isPlain_ne h (isPlain_closing d .identifier)⟩
  unfold Dialect.quoteAt?
  have hliteral : c ≠ '\'' := isPlain_ne h (isPlain_closing d .literal)
  rw [if_neg hliteral, if_neg (isPlain_ne h (isPlain_openQuote d))]

/-- A quoted identifier is one token, spelled without doubling what it holds. -/
theorem undoubled_identifier (t : Target) (name : String) :
    Undoubled t.dialect (t.quoteIdentifier name) (identifierTokens name) := by
  unfold Target.quoteIdentifier identifierTokens
  split
  · rename_i hstar
    rw [hstar]
    exact undoubled_signs "*"
  · simp [Undoubled, Lexeme.undoubled, Lexeme.spelling, Quote.opening, Quote.closing, Text.double]

theorem readable_identifier {d : Dialect} (name : String) : Readable d (identifierTokens name) := by
  unfold identifierTokens
  split
  · have hstar : "*".toList.all isPlain = true := by decide
    exact (finished_signs (List.all_eq_true.2 fun c hc =>
      isSign_of_isPlain (List.all_eq_true.1 hstar c hc))).readable
  · exact readable_quoted .identifier name.toList

/-- Only SQL Server looks for arguments in a table name. -/
theorem tableFits_of_ne (hserver : t.dialect ≠ .sqlserver) (table : String) : t.TableFits table :=
  fun heq => absurd heq hserver

/-- A table name without alias and schema is one identifier. -/
theorem quoteTable_single (hbegins : t.TableFits t.options.tablePrefix) {name : String}
    (hname : t.TableFits name) (halias : splitAlias? name = none) (hdot : '.' ∉ name.toList) :
    t.quoteTable name = t.quoteIdentifier (t.options.tablePrefix ++ name) := by
  have hsplit : Text.splitLast? "." name = none := by
    rw [Text.splitLast?, Option.map_eq_none_iff]
    refine Text.splitLastChars?_eq_none fun hin => hdot (hin.subset ?_)
    exact List.mem_singleton_self '.'
  rw [Target.quoteTable, halias]
  simp only [Target.quoteBareTable, hsplit]
  exact finishTable_eq_self fun hserver => noParen_quotePrefixed (hbegins hserver) (hname hserver)

/-- A column without alias is its segments between quotes, the first one prefixed. -/
theorem quoteSegments_eq (hbegins : t.TableFits t.options.tablePrefix) {column : String}
    (hcolumn : t.TableFits column) (halias : splitAlias? column = none) :
    t.quoteSegments column =
      Text.join "." ((t.segmentNames column).map t.quoteIdentifier) := by
  unfold Target.quoteSegments Target.segmentNames
  cases hsplit : Text.splitOn "." column with
  | nil => rfl
  | cons first more =>
    cases more with
    | nil => rfl
    | cons second rest =>
      have hfirst : first ∈ Text.splitOn "." column := hsplit ▸ List.mem_cons_self
      have hinfix := Text.infix_of_mem_splitOn (by decide) hfirst
      have halias' : splitAlias? first = none :=
        splitAlias?_eq_none_iff.2
          (splitAs?_eq_none_of_isInfix (splitAlias?_eq_none_iff.1 halias) hinfix)
      have hdot := Text.dot_not_mem_segment hfirst
      simp only [quoteTable_single hbegins (hcolumn.mono hinfix) halias' hdot, List.map_cons]

/-- Joined texts have the tokens of the parts, with those of the separator in front of all parts
but the first. -/
theorem undoubled_join {d : Dialect} {α : Type} {first : String} {tokens : List Lexeme}
    {f : α → String} {g : α → List Lexeme} (sep : String) (xs : List α)
    (hfirst : Undoubled d first tokens) (h : ∀ x, Undoubled d (f x) (g x)) :
    Undoubled d (Text.join sep (first :: xs.map f))
      (tokens ++ xs.flatMap fun x => signs sep ++ g x) := by
  rw [Undoubled, Text.join, String.toList_ofList, List.map_cons, Text.joinChars_eq_flatMap, hfirst,
    List.flatMap_append, List.append_cancel_left_eq]
  induction xs with
  | nil => rfl
  | cons x xs ih =>
    have hx := (undoubled_signs (d := d) sep).append (h x)
    rw [Undoubled, String.toList_append] at hx
    simp only [List.map_cons, List.flatMap_cons, List.flatMap_append, ih] at hx ⊢
    rw [hx]

/-- A column is the tokens of its segments with dots between them. -/
theorem undoubled_segments (hserver : t.dialect ≠ .sqlserver) {column : String}
    (halias : splitAlias? column = none) :
    Undoubled t.dialect (t.quoteSegments column) (t.columnTokens column) := by
  rw [quoteSegments_eq (tableFits_of_ne hserver _) (tableFits_of_ne hserver _) halias,
    Target.columnTokens]
  cases t.segmentNames column with
  | nil => rfl
  | cons first rest =>
    exact undoubled_join "." rest (undoubled_identifier t first) (undoubled_identifier t)

theorem readable_column {d : Dialect} (t : Target) (column : String) :
    Readable d (t.columnTokens column) := by
  unfold Target.columnTokens
  split
  · exact (finished_signs (s := "") (by simp)).readable
  · refine readable_flatMap (readable_identifier _) fun name _ => ⟨?_, ?_⟩
    · refine (finished_signs ?_).append_readable (readable_identifier name)
      have hdot : ".".toList.all isPlain = true := by decide
      exact List.all_eq_true.2 fun c hc => isSign_of_isPlain (List.all_eq_true.1 hdot c hc)
    · exact signFirst_signs rfl (isSign_of_isPlain rfl) _

/-- A column has no literals. -/
theorem quoteless_column (t : Target) (column : String) : Quoteless (t.columnTokens column) := by
  -- names are quoted as identifiers, never as literals
  have hname : ∀ name text, .quoted .literal text ∉ identifierTokens name := by
    intro name text
    unfold identifierTokens
    split <;> simp [signs]
  intro text htext
  unfold Target.columnTokens at htext
  split at htext
  · cases htext
  · rename_i first rest _
    rcases List.mem_append.1 htext with htext | htext
    · exact absurd htext (hname first text)
    · obtain ⟨name, -, htext⟩ := List.mem_flatMap.1 htext
      rcases List.mem_append.1 htext with htext | htext
      · simp [signs] at htext
      · exact absurd htext (hname name text)

/-! ## §2 Parts of a path -/

/-- The steps of a selector. -/
def selectorSteps (selector : String) : List String :=
  (Text.splitOn arrow selector).tail

/-- The keys and the indices of a path one by one. -/
def selectorParts (selector : String) : List String :=
  ((selectorSteps selector).flatMap stepParts).filter (!·.isEmpty)

/-- A part as PostgreSQL writes it: what is not an integer stands between quotes. -/
def quotePart (quote part : String) : String :=
  if (integerOfChars? part.toList).isSome then part else quote ++ part ++ quote

/-- The tokens of a part. -/
def partTokens (part : String) : List Lexeme :=
  if (integerOfChars? part.toList).isSome then signs part else [.quoted .literal part.toList]

theorem pathAttributes_selectorSteps (quote selector : String) :
    pathAttributes quote (selectorSteps selector) =
      (selectorParts selector).map (quotePart quote) := rfl

/-- A selector is cut into its column and its steps. -/
theorem splitOn_arrow (selector : String) :
    Text.splitOn arrow selector = (splitSelector selector).1 :: selectorSteps selector := by
  obtain ⟨rest, hsplit, -⟩ := Text.splitOn_eq_cons arrow selector (by decide)
  rw [selectorSteps, hsplit, List.tail_cons, splitSelector]
  cases Text.splitFirst? arrow selector <;> rfl

/-- The steps are what the path is cut into. -/
theorem selectorSteps_eq {selector : String} (h : isSelector selector = true) :
    selectorSteps selector = Text.splitOn arrow (splitSelector selector).2 := by
  have hne : arrow.toList ≠ [] := by decide
  obtain ⟨sides, hsides⟩ := Option.isSome_iff_exists.1 h
  obtain ⟨chars, hchars, rfl⟩ := Option.map_eq_some_iff.1 hsides
  rw [selectorSteps, splitSelector, hsides, Text.splitOn, Text.splitOnChars_eq hne, hchars]
  simp [Text.splitOn]

/-- What stands in the path of a selector stands in one of its steps, arrows apart. -/
theorem mem_path_iff {selector : String} {c : Char} (hc : c ∉ arrow.toList) :
    c ∈ (splitSelector selector).2.toList ↔
      ∃ step ∈ selectorSteps selector, c ∈ step.toList := by
  cases hselector : isSelector selector with
  | false =>
    -- there are neither steps nor a path
    have hnone : Text.splitFirst? arrow selector = none := by
      simpa [isSelector] using hselector
    obtain ⟨rest, hsplit, hrest⟩ := Text.splitOn_eq_cons arrow selector (by decide)
    rw [selectorSteps, hsplit, hrest.2 hnone, splitSelector, hnone]
    simp
  | true =>
    rw [selectorSteps_eq hselector]
    constructor
    · intro hmem
      -- joining the steps again adds nothing but arrows
      rw [← Text.join_splitOn arrow (splitSelector selector).2 (by decide)] at hmem
      exact (Text.mem_join hmem).resolve_left hc
    · rintro ⟨step, hstep, hmem⟩
      exact Text.mem_of_mem_splitOn (by decide) hstep hmem

/-- What stands in a step stands in one of its parts, brackets apart. -/
theorem mem_step_iff {step : String} {c : Char} (hopen : c ≠ '[') (hclose : c ≠ ']') :
    c ∈ step.toList ↔ ∃ part ∈ stepParts step, c ∈ part.toList := by
  constructor
  · intro hmem
    -- a step is its key and its indices, with nothing but brackets between them
    have hparts : ∃ chars ∈ (splitIndices step.toList).1 :: (splitIndices step.toList).2,
        c ∈ chars := by
      rw [← key_append_bracketed step.toList, List.mem_append] at hmem
      rcases hmem with hmem | hmem
      · exact ⟨_, List.mem_cons_self, hmem⟩
      · obtain ⟨index, hindex, hmem⟩ := List.mem_flatMap.1 hmem
        simp only [List.mem_append, List.mem_cons, hopen, hclose, List.not_mem_nil, or_false,
          false_or] at hmem
        exact ⟨index, List.mem_cons_of_mem _ hindex, hmem⟩
    obtain ⟨chars, hchars, hmem⟩ := hparts
    refine ⟨String.ofList chars, ?_, by rwa [String.toList_ofList]⟩
    unfold stepParts
    refine List.mem_map_of_mem ?_
    split
    · -- the key that is left out is empty
      rename_i hkey
      rcases List.mem_cons.1 hchars with rfl | hchars
      · simp only [Bool.and_eq_true, List.isEmpty_iff] at hkey
        rw [hkey.1] at hmem
        cases hmem
      · exact hchars
    · exact hchars
  · rintro ⟨part, hpart, hmem⟩
    exact (stepParts_isInfix hpart).subset hmem

/-- What stands in a path stands in one of its parts, arrows and brackets apart. -/
theorem mem_path_iff_mem_part {selector : String} {c : Char} (hc : c ∉ arrow.toList)
    (hopen : c ≠ '[') (hclose : c ≠ ']') :
    c ∈ (splitSelector selector).2.toList ↔
      ∃ part ∈ selectorParts selector, c ∈ part.toList := by
  rw [mem_path_iff hc]
  simp only [selectorParts, List.mem_filter, List.mem_flatMap]
  constructor
  · rintro ⟨step, hstep, hmem⟩
    obtain ⟨part, hpart, hmem⟩ := (mem_step_iff hopen hclose).1 hmem
    refine ⟨part, ⟨⟨step, hstep, hpart⟩, ?_⟩, hmem⟩
    -- a part that has a character is not dropped
    rw [Bool.not_eq_true', String.isEmpty_eq_false_iff]
    rintro rfl
    cases hmem
  · rintro ⟨part, ⟨⟨step, hstep, hpart⟩, -⟩, hmem⟩
    exact ⟨step, hstep, (stepParts_isInfix hpart).subset hmem⟩

/-- A part of a path is a literal, or an index as signs. -/
theorem undoubled_part (part : String) :
    Undoubled .postgres (quotePart "'" part) (partTokens part) := by
  unfold quotePart partTokens
  split
  · exact undoubled_signs part
  · simp [Undoubled, Lexeme.undoubled]

theorem readable_part (part : String) : Readable .postgres (partTokens part) := by
  unfold partTokens
  split
  · rename_i hinteger
    exact (finished_signs (List.all_eq_true.2 fun c hc =>
      isSign_of_isPlain (isPlain_of_integer hinteger c hc))).readable
  · exact readable_quoted .literal part.toList

/-- The literal of a part has a quote in it if the part has; an integer has none. -/
theorem quoteless_part_iff {part : String} :
    Quoteless (partTokens part) ↔ '\'' ∉ part.toList := by
  unfold partTokens
  split
  · rename_i hinteger
    -- an integer is written without quotes and has none
    refine iff_of_true (fun text htext => ?_) fun hmem => ?_
    · simp [signs] at htext
    · exact absurd (isPlain_of_integer hinteger _ hmem) (by decide)
  · simp [Quoteless]

/-! ## §3 Selectors -/

/-- The tokens of parts behind arrows, the last part behind an arrow of its own. -/
def arrowTokens (lastArrow : String) (parts : List String) : List Lexeme :=
  (parts.dropLast.flatMap fun part => signs arrow ++ partTokens part) ++
    parts.getLast?.elim [] fun last => signs lastArrow ++ partTokens last

/-- The tokens of a selector: its column, and its parts behind arrows. -/
def Target.selectorTokens (t : Target) (lastArrow selector : String) : List Lexeme :=
  t.columnTokens (splitSelector selector).1 ++ arrowTokens lastArrow (selectorParts selector)

/-- The tokens of a selector: its column, its outer parts, and the last one behind its own arrow. -/
theorem selectorTokens_eq (t : Target) (lastArrow selector : String) :
    t.selectorTokens lastArrow selector =
      (t.columnTokens (splitSelector selector).1 ++
        (selectorParts selector).dropLast.flatMap fun part => signs arrow ++ partTokens part) ++
      (selectorParts selector).getLast?.elim [] fun last => signs lastArrow ++ partTokens last := by
  rw [Target.selectorTokens, arrowTokens, List.append_assoc]

theorem undoubled_column (hpostgres : t.dialect = .postgres) {column : String}
    (halias : splitAlias? column = none) :
    Undoubled .postgres (t.quoteSegments column) (t.columnTokens column) := by
  have hserver : t.dialect ≠ .sqlserver := by
    rw [hpostgres]
    decide
  exact hpostgres ▸ undoubled_segments hserver halias

/-- The text of a selector in front of its last arrow. -/
def Target.outerSelector (t : Target) (selector : String) : String :=
  Text.join arrow (t.quoteSegments (splitSelector selector).1 ::
    (selectorParts selector).dropLast.map (quotePart "'"))

/-- A selector is written from the outside, with the arrow for texts in front of its last part. -/
theorem arrowSelector_eq (t : Target) (selector : String) :
    t.arrowSelector selector = t.outerSelector selector ++
      (selectorParts selector).getLast?.elim "" fun last => "->>" ++ quotePart "'" last := by
  unfold Target.arrowSelector Target.outerSelector
  rw [splitOn_arrow]
  dsimp only
  rw [pathAttributes_selectorSteps, List.getLast?_map, ← List.map_dropLast]
  -- the last part stands behind an arrow of its own
  rcases List.eq_nil_or_concat (selectorParts selector) with hparts | ⟨init, last, hparts⟩
  · rw [hparts]
    simp [Text.join, Text.joinChars]
  · rw [hparts, List.concat_eq_append, List.getLast?_concat]
    simp [String.append_assoc]

theorem undoubled_outerSelector (hpostgres : t.dialect = .postgres) {selector : String}
    (halias : splitAlias? (splitSelector selector).1 = none) :
    Undoubled .postgres (t.outerSelector selector)
      (t.columnTokens (splitSelector selector).1 ++
        (selectorParts selector).dropLast.flatMap fun part => signs arrow ++ partTokens part) :=
  undoubled_join arrow _ (undoubled_column hpostgres halias) undoubled_part

/-- What stands behind the outer part of a selector. -/
theorem undoubled_lastPart (lastArrow selector : String) :
    Undoubled .postgres
      ((selectorParts selector).getLast?.elim "" fun last => lastArrow ++ quotePart "'" last)
      ((selectorParts selector).getLast?.elim []
        fun last => signs lastArrow ++ partTokens last) := by
  cases (selectorParts selector).getLast? with
  | none => rfl
  | some last => exact (undoubled_signs lastArrow).append (undoubled_part last)

/-- A selector of PostgreSQL spells its tokens, except that quotes inside of literals are not
doubled. -/
theorem undoubled_arrowSelector (hpostgres : t.dialect = .postgres) {selector : String}
    (halias : splitAlias? (splitSelector selector).1 = none) :
    Undoubled .postgres (t.arrowSelector selector) (t.selectorTokens "->>" selector) := by
  rw [arrowSelector_eq, selectorTokens_eq]
  exact (undoubled_outerSelector hpostgres halias).append (undoubled_lastPart "->>" selector)

/-- The tokens of a selector can be read from their spelling. -/
theorem readable_selector (t : Target) {lastArrow : String} {chars : List Char}
    (harrow : lastArrow.toList = '-' :: chars) (hchars : chars.all Dialect.postgres.isSign = true)
    (selector : String) : Readable .postgres (t.selectorTokens lastArrow selector) := by
  have hpart : ∀ {sep : String} {chars : List Char}, sep.toList = '-' :: chars →
      chars.all Dialect.postgres.isSign = true → ∀ part,
      Readable .postgres (signs sep ++ partTokens part) ∧
        SignFirst .postgres (signs sep ++ partTokens part) := by
    intro sep chars hsep hchars part
    refine ⟨(finished_signs ?_).append_readable (readable_part part),
      signFirst_signs hsep (by decide) _⟩
    rw [hsep, List.all_cons, hchars]
    rfl
  have harrowPart := hpart (show arrow.toList = ['-', '>'] from rfl) (by decide)
  have houter := readable_flatMap (readable_column t (splitSelector selector).1)
    fun part (_ : part ∈ (selectorParts selector).dropLast) => harrowPart part
  rw [selectorTokens_eq]
  cases (selectorParts selector).getLast? with
  | none => rwa [Option.elim_none, List.append_nil]
  | some last => exact houter.append (hpart harrow hchars last).1 (hpart harrow hchars last).2

theorem quoteless_append {tokens more : List Lexeme} :
    Quoteless (tokens ++ more) ↔ Quoteless tokens ∧ Quoteless more := by
  simp only [Quoteless, List.mem_append, or_imp, forall_and]

theorem quoteless_signs (s : String) : Quoteless (signs s) := by
  intro text htext
  simp [signs] at htext

/-- The literals of a selector have no quotes exactly if its path has none. -/
theorem quoteless_selector_iff (t : Target) (lastArrow selector : String) :
    Quoteless (t.selectorTokens lastArrow selector) ↔
      '\'' ∉ (splitSelector selector).2.toList := by
  have hinit : ∀ parts : List String,
      Quoteless (parts.flatMap fun part => signs arrow ++ partTokens part) ↔
        ∀ part ∈ parts, '\'' ∉ part.toList := by
    intro parts
    induction parts with
    | nil => simp [Quoteless]
    | cons part parts ih =>
      rw [List.flatMap_cons, quoteless_append, quoteless_append, quoteless_part_iff, ih,
        List.forall_mem_cons]
      exact and_congr_left' (and_iff_right (quoteless_signs arrow))
  rw [selectorTokens_eq, mem_path_iff_mem_part (by decide) (by decide) (by decide),
    quoteless_append, quoteless_append, hinit]
  rcases List.eq_nil_or_concat (selectorParts selector) with hparts | ⟨init, last, hparts⟩
  · rw [hparts]
    simpa [Quoteless] using quoteless_column t _
  · rw [hparts, List.concat_eq_append, List.dropLast_concat, List.getLast?_concat,
      Option.elim_some, quoteless_append, quoteless_part_iff]
    simp only [quoteless_column, quoteless_signs, true_and, List.mem_append, List.mem_singleton,
      not_exists, not_and, or_imp, forall_and, forall_eq]

end SqlCompiler
