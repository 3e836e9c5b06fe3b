import SqlCompiler.Proofs.PathLiterals
import SqlCompiler.Proofs.SelectorRenderings

/-!
# Assigned Places

An update writes into the place of a document that a select reads under the same selector: into the
same column, and there under the same steps.

MySQL renders the column and the path of a selector in the same way for both. PostgreSQL cuts the
key of an assignment at its last dot, so that no dot may stand in a step. SQLite cuts it at its
first dot and knows no indices in the documents that it merges into a column.

## Main definitions

- `Json.at?`: the part of a document at the end of a path of keys
- `qualifiedTokens`: the tokens of a column behind its qualifiers
- `ArrayKey`, `PatchKey`: selectors that an assignment of PostgreSQL, and of SQLite, can address
- `Target.NamesSamePath`, `Target.NamesSameParts`, `Target.NamesSameKeys`: that a selector and an
  assignment to it name the same place, in the words of each dialect

## Main statements

- `at?_assign`: what is stored under a path stands there
- `columnTokens_eq`: a column is its unqualified name behind its qualifiers
- `patchTarget_eq`: what SQLite takes for column and steps of a key
- `assignment_addresses_selection`: an assignment writes the place that a select reads
-/

namespace SqlCompiler

variable {t : Target}

/-! ## §1 Merged documents -/

namespace Json

/-- The part of a document at the end of a path of keys. -/
def at? : List String → Json → Option Json
  | [], doc => some doc
  | key :: path, doc => (find? key doc.fields).bind (at? path)

theorem find?_put (key : String) (value : Json) (fields : List (String × Json)) :
    find? key (put key value fields) = some value := by
  fun_induction put key value fields with
  | case1 => simp [find?]
  | case2 => simp [find?]
  | case3 => simp [find?]
  | case4 k v fields hne _ ih => rw [find?, if_neg hne, ih]

/-- What is stored under a path stands there. -/
theorem at?_assign (value : Json) (path : List String) (doc : Json) :
    (assign value path doc).at? path = some value := by
  induction path generalizing doc with
  | nil => rfl
  | cons key path ih =>
    rw [assign, at?]
    simp only [fields, find?_put, Option.bind_some, ih]

end Json

/-- The document of a column is among the merged ones, with the value stored in it. -/
theorem mem_patch (root : String) (path : List String) (value : Json)
    (patches : List (String × Json)) :
    ∃ doc, (root, Json.assign value path doc) ∈ patch root path value patches := by
  fun_induction patch root path value patches with
  | case1 => exact ⟨.null, List.mem_singleton_self _⟩
  | case2 doc patches => exact ⟨doc, List.mem_cons_self⟩
  | case3 column doc patches _ ih =>
    obtain ⟨doc, hdoc⟩ := ih
    exact ⟨doc, List.mem_cons_of_mem _ hdoc⟩

/-- The last assignment of a row into a document is found where its key leads. -/
theorem documentPatches_last {row : Row} {before : List (String × Value)} {key : String}
    {value : Value} (hrow : row.entries = before ++ [(key, value)])
    (hselector : isSelector key = true) :
    ∃ doc, ((patchTarget key).1, doc) ∈ documentPatches row ∧
      doc.at? (patchTarget key).2 = some value.toJson := by
  obtain ⟨doc, hdoc⟩ := mem_patch (patchTarget key).1 (patchTarget key).2 value.toJson
    (documentPatches ⟨before⟩)
  refine ⟨_, ?_, Json.at?_assign value.toJson (patchTarget key).2 doc⟩
  rw [documentPatches, hrow, List.filter_append, List.foldl_append]
  simpa only [documentPatches, List.filter_cons, List.filter_nil, hselector, if_true,
    List.foldl_cons, List.foldl_nil] using hdoc

/-! ## §2 Columns -/

/-- The tokens of a column behind its qualifiers. -/
def qualifiedTokens (qualifiers : List String) (column : String) : List Lexeme :=
  (qualifiers.flatMap fun name => identifierTokens name ++ signs ".") ++ identifierTokens column

/-- A text is its segments with dots between them. -/
theorem toList_of_splitOn_dot {s last : String} {front : List String}
    (h : Text.splitOn "." s = front ++ [last]) :
    s.toList = (front.flatMap fun segment => segment.toList ++ ['.']) ++ last.toList := by
  conv_lhs => rw [← Text.join_splitOn "." s (by decide), h]
  rw [Text.join, String.toList_ofList, List.map_append, List.map_singleton, Text.joinChars_concat,
    List.flatMap_map]
  rfl

/-- The segments of a column end in its unqualified name. -/
theorem splitOn_dot (column : String) :
    ∃ qualifiers, Text.splitOn "." column = qualifiers ++ [unqualified column] := by
  obtain ⟨qualifiers, last, hsplit⟩ := Text.splitOn_eq_concat "." column
  have hdot : '.' ∉ last.toList := Text.dot_not_mem_segment (s := column) (by simp [hsplit])
  have hjoin := toList_of_splitOn_dot hsplit
  refine ⟨qualifiers, ?_⟩
  rw [hsplit]
  -- `unqualified` looks for the last dot, which stands behind the last qualifier
  rcases List.eq_nil_or_concat qualifiers with rfl | ⟨init, piece, rfl⟩
  · have hself : column = last := by
      apply String.toList_inj.1
      simpa using hjoin
    rw [hself, unqualified_eq_self hdot]
  · have hcolumn : column.toList =
        ((init.flatMap fun piece => piece.toList ++ ['.']) ++ piece.toList) ++
          '.' :: last.toList := by
      rw [hjoin]
      simp
    rw [String.toList_inj.1 (unqualified_append hcolumn hdot)]

/-- A column is its unqualified name behind its qualifiers. -/
theorem columnTokens_eq (t : Target) (column : String) :
    ∃ qualifiers, t.columnTokens column = qualifiedTokens qualifiers (unqualified column) := by
  -- the dots are counted to the name before them, not to the one behind
  have hgroups : ∀ (first : String) (rest : List String) (last : String),
      identifierTokens first ++ ((rest ++ [last]).flatMap fun name =>
        signs "." ++ identifierTokens name) = qualifiedTokens (first :: rest) last := by
    intro first rest last
    induction rest generalizing first with
    | nil => simp [qualifiedTokens]
    | cons next rest ih =>
      have hnext := ih next
      simp only [qualifiedTokens, List.cons_append, List.flatMap_cons, List.append_assoc] at hnext ⊢
      rw [hnext]
  obtain ⟨qualifiers, hsplit⟩ := splitOn_dot column
  unfold Target.columnTokens Target.segmentNames
  cases qualifiers with
  | nil =>
    rw [hsplit]
    exact ⟨[], by simp [qualifiedTokens]⟩
  | cons first rest =>
    obtain ⟨second, more, hmore⟩ := List.exists_cons_of_ne_nil
      (List.append_ne_nil_of_right_ne_nil rest (List.cons_ne_nil (unqualified column) []))
    rw [hsplit, List.cons_append, hmore]
    refine ⟨(t.options.tablePrefix ++ first) :: rest, ?_⟩
    rw [← hgroups, hmore]

theorem dot_not_mem_unqualified (key : String) : '.' ∉ (unqualified key).toList := by
  by_cases hdot : '.' ∈ key.toList
  · obtain ⟨before, after, hkey, hafter⟩ := exists_last_dot hdot
    rwa [unqualified_append hkey hafter]
  · rwa [unqualified_eq_self hdot]

/-- An unqualified column is a single identifier. -/
theorem columnTokens_unqualified (t : Target) (column : String) :
    t.columnTokens (unqualified column) = identifierTokens (unqualified column) := by
  rw [Target.columnTokens, Target.segmentNames,
    Text.splitOn_dot_eq_singleton (dot_not_mem_unqualified column)]
  simp

/-- A column without its first qualifier has the same unqualified name. -/
theorem unqualified_of_suffix {column rest : String} {qualifier : List Char}
    (h : column.toList = qualifier ++ '.' :: rest.toList) :
    unqualified rest = unqualified column := by
  apply String.toList_inj.1
  by_cases hdot : '.' ∈ rest.toList
  · obtain ⟨before, after, hrest, hafter⟩ := exists_last_dot hdot
    have hcolumn : column.toList = (qualifier ++ '.' :: before) ++ '.' :: after := by
      rw [h, hrest]
      simp
    rw [unqualified_append hrest hafter, unqualified_append hcolumn hafter]
  · rw [unqualified_eq_self hdot, unqualified_append h hdot]

/-! ## §3 Keys of SQLite -/

/-- A key is cut behind the first qualifier of its column. -/
theorem patchTarget_qualified {key : String} (h : isSelector key = true)
    (hcolumn : '.' ∈ (splitSelector key).1.toList) :
    ∃ root qualifier, patchTarget key = (root, selectorSteps key) ∧
      (splitSelector key).1.toList = qualifier ++ '.' :: root.toList := by
  obtain ⟨qualifier, rest, hsides, hqualifier⟩ := List.eq_append_cons_of_mem hcolumn
  have hfirst : Text.splitFirstChars? ['.'] key.toList =
      some (qualifier, rest ++ arrow.toList ++ (splitSelector key).2.toList) := by
    rw [(toList_selector h).1, hsides]
    have hbefore : ¬ ['.'] <:+: qualifier ++ ['.'].dropLast := by
      rwa [List.dropLast_singleton, List.append_nil, List.singleton_infix_iff]
    simpa using Text.splitFirstChars?_append
      (rest ++ arrow.toList ++ (splitSelector key).2.toList) (by decide) hbefore
  have hsuffix : rest <:+ (splitSelector key).1.toList := by
    rw [hsides]
    exact ⟨qualifier ++ ['.'], by simp⟩
  have hchars : (String.ofList (rest ++ arrow.toList ++ (splitSelector key).2.toList)).toList =
      rest ++ arrow.toList ++ (splitSelector key).2.toList := String.toList_ofList
  -- what is left of the key is a selector again, with the same steps
  obtain ⟨hselector, hrest⟩ := splitSelector_suffix h hsuffix hchars
  refine ⟨String.ofList rest, qualifier, ?_, by rw [hsides, String.toList_ofList]⟩
  have hdot : ".".toList = ['.'] := rfl
  unfold patchTarget
  rw [Text.splitFirst?, hdot, hfirst]
  simp only [Option.map_some]
  rw [splitOn_arrow, hrest, selectorSteps_eq hselector, hrest, selectorSteps_eq h]

/-- A key without dots is not cut. -/
theorem patchTarget_dotless {key : String} (h : isSelector key = true)
    (hcolumn : '.' ∉ (splitSelector key).1.toList) (hsteps : '.' ∉ (splitSelector key).2.toList) :
    patchTarget key = ((splitSelector key).1, selectorSteps key) := by
  have hnone : Text.splitFirst? "." key = none := by
    rw [← Option.not_isSome_iff_eq_none, Text.splitFirst?_isSome_iff]
    have hdot : ".".toList = ['.'] := rfl
    rw [hdot, List.singleton_infix_iff, (toList_selector h).1]
    simp only [List.mem_append, not_or]
    exact ⟨⟨hcolumn, by decide⟩, hsteps⟩
  unfold patchTarget
  rw [hnone]
  simp only [splitOn_arrow]

/-- What SQLite takes for column and steps of a key: the column without its first qualifier, and all
steps. Without a qualifier, no dot may stand in a step. -/
theorem patchTarget_eq {key : String} (h : isSelector key = true)
    (hdots : '.' ∈ (splitSelector key).1.toList ∨ '.' ∉ (splitSelector key).2.toList) :
    ∃ root, patchTarget key = (root, selectorSteps key) ∧
      root.toList <:+ (splitSelector key).1.toList ∧
      unqualified root = unqualified (splitSelector key).1 := by
  -- a patch cuts at the first dot of the key, wherever it is
  by_cases hcolumn : '.' ∈ (splitSelector key).1.toList
  · obtain ⟨root, qualifier, htarget, hsides⟩ := patchTarget_qualified h hcolumn
    refine ⟨root, htarget, ?_, unqualified_of_suffix hsides⟩
    rw [hsides]
    exact ⟨qualifier ++ ['.'], by simp⟩
  · exact ⟨_, patchTarget_dotless h hcolumn (hdots.resolve_left hcolumn), List.suffix_rfl, rfl⟩

/-- A column is spelled correctly, since it has no literals. -/
theorem spelling_column {d : Dialect} (hd : t.dialect = d) (hserver : d ≠ .sqlserver)
    {column : String} (halias : splitAlias? column = none) :
    (t.quoteSegments column).toList =
      (t.columnTokens column).flatMap (Lexeme.spelling d) := by
  subst hd
  rw [← flatMap_undoubled_iff.2 (quoteless_column t column)]
  exact undoubled_segments hserver halias

theorem spelling_signs {d : Dialect} (s : String) :
    (signs s).flatMap (Lexeme.spelling d) = s.toList := by
  rw [signs, List.flatMap_map]
  simp [Lexeme.spelling]

/-- SQLite: the tokens of a selector with a path. -/
theorem extraction_renders (hsqlite : t.dialect = .sqlite) {key : String}
    (halias : splitAlias? (splitSelector key).1 = none) (hpath : (splitSelector key).2 ≠ "")
    (hselector : isSelector key = true)
    (hescape : ¬ ['\\', '\''] <:+: (splitSelector key).2.toList) :
    Renders .sqlite (t.quoteSelector key)
      (signs "json_extract(" ++ t.columnTokens (splitSelector key).1 ++ signs ", " ++
        [.quoted .literal (pathText ((selectorSteps key).map String.toList))] ++ signs ")") := by
  have htext : t.quoteSelector key = .ok ("json_extract(" ++
      (t.quoteSegments (splitSelector key).1 ++ (", " ++ jsonPath (splitSelector key).2)) ++
        ")") := by
    have hnonempty : (splitSelector key).2.isEmpty = false := by
      rwa [String.isEmpty_eq_false_iff]
    simp only [Target.quoteSelector, hsqlite, Target.selectorArguments, Target.fieldAndPath,
      Target.quoteField, halias, hnonempty, Bool.false_eq_true, if_false]
  have hcolumn := readable_column (d := .sqlite) t (splitSelector key).1
  rw [htext, renders_ok_iff]
  refine lex_of_spelling ?_ ?_
  · simp only [String.toList_append, List.flatMap_append, spelling_signs, toList_jsonPath hescape,
      spelling_column hsqlite (by decide) halias, ← selectorSteps_eq hselector,
      List.flatMap_singleton, Lexeme.spelling, Quote.opening, Quote.closing, List.append_assoc]
  · have hopen : Finished .sqlite (signs "json_extract(") := finished_signs (by decide)
    have hcomma := (hopen.append_readable hcolumn).append_signs ", " (by decide) (by decide)
    exact ((hcomma.append_readable (readable_quoted .literal _)).append_signs ")" (by decide)
      (by decide)).readable

/-- SQLite: the tokens of a document that is merged into a column. -/
theorem mergePatch_renders (hsqlite : t.dialect = .sqlite) {root : String} (doc : Json)
    (halias : splitAlias? root = none) (hselector : isSelector root = false) :
    Renders .sqlite ((t.mergePatch root doc).map Sql.text)
      (t.columnTokens root ++ signs " = json_patch(ifnull(" ++ t.columnTokens root ++
        signs ", json(" ++ [.quoted .literal "\x7b\x7d".toList] ++ signs ")), json(?))") := by
  have htext : (t.mergePatch root doc).map Sql.text = .ok (t.quoteSegments root ++
      " = json_patch(ifnull(" ++ t.quoteSegments root ++ ", json('\x7b\x7d')), json(?))") := by
    rw [Target.mergePatch, quote_column halias hselector]
    refine congrArg Except.ok (String.toList_inj.1 ?_)
    simp [Value.raw?]
  have hcolumn := readable_column (d := .sqlite) t root
  rw [htext, renders_ok_iff]
  refine lex_of_spelling ?_ ?_
  · simp only [String.toList_append, List.flatMap_append, spelling_signs,
      spelling_column hsqlite (by decide) halias, List.append_assoc]
    rfl
  · have hmerge := hcolumn.append_signs " = json_patch(ifnull(" (by decide) (by decide)
    have hempty := (hmerge.append_readable hcolumn).append_signs ", json(" (by decide) (by decide)
    exact ((hempty.append_readable (readable_quoted .literal _)).append_signs ")), json(?))"
      (by decide) (by decide)).readable

/-! ## §4 Assignments and selections -/

/-- A selector whose place can be written as an array: it has no alias, no dot in its path, at which
the key would be cut, and nothing that ends a literal or is read differently in an array. -/
structure ArrayKey (key : String) : Prop where
  isSelector : isSelector key = true
  unaliased : splitAlias? (splitSelector key).1 = none
  undotted : '.' ∉ (splitSelector key).2.toList
  unquoted : '\'' ∉ (splitSelector key).2.toList
  noDoubleQuote : '"' ∉ (splitSelector key).2.toList
  noBackslash : '\\' ∉ (splitSelector key).2.toList

/-- A selector whose place can be patched: it has no alias, no dot in its path unless there is a
qualifier, a path that is not empty, and steps that are keys whose text needs no escape in a JSON
path. -/
structure PatchKey (key : String) : Prop where
  isSelector : isSelector key = true
  unaliased : splitAlias? (splitSelector key).1 = none
  cutInColumn : '.' ∈ (splitSelector key).1.toList ∨ '.' ∉ (splitSelector key).2.toList
  hasPath : (splitSelector key).2 ≠ ""
  noDoubleQuote : '"' ∉ (splitSelector key).2.toList
  noEscapedQuote : ¬ ['\\', '\''] <:+: (splitSelector key).2.toList
  noIndices : ∀ step ∈ selectorSteps key, (splitIndices step.toList).2 = []

namespace Target

/-- A selector and the assignment to it render the same column and the same path: the one in the
extraction, the other twice around `json_set`. -/
def NamesSamePath (t : Target) (key : String) (value : Value) : Prop :=
  ∃ path assigned,
    t.quoteSelector key = .ok ("json_unquote(json_extract(" ++
      t.quoteField (splitSelector key).1 ++ path ++ "))") ∧
    (t.setDocument key value).text = t.quoteField (splitSelector key).1 ++ " = json_set(" ++
      t.quoteField (splitSelector key).1 ++ path ++ ", " ++ assigned ++ ")"

/-- A selector reads the parts of its path in a column, behind whatever qualifiers; the assignment
to it writes into the column of that name, at an array whose elements are the same parts. `more` is
what stands behind the array. -/
def NamesSameParts (t : Target) (key : String) (value : Value) (more : List Lexeme) : Prop :=
  ∃ qualifiers array,
    Renders .postgres (t.quoteSelector key)
      (qualifiedTokens qualifiers (unqualified (splitSelector key).1) ++
        arrowTokens "->>" (selectorParts key)) ∧
    Renders .postgres ((t.setJsonb (unqualified key) value).map Sql.text)
      (identifierTokens (unqualified (splitSelector key).1) ++ signs " = jsonb_set(" ++
        identifierTokens (unqualified (splitSelector key).1) ++ signs "::jsonb, " ++
        [.quoted .literal array] ++ signs ", " ++ more) ∧
    arrayElements? array = some ((selectorParts key).map String.toList)

/-- A selector reads a path of keys in a column, behind whatever qualifiers; the update of a row
merges one document into the column of that name, bound as its text, which holds the value under the
same keys. -/
def NamesSameKeys (t : Target) (key : String) (row : Row) (value : Value) : Prop :=
  ∃ qualifiers path root others doc,
    Renders .sqlite (t.quoteSelector key)
      (signs "json_extract(" ++ qualifiedTokens qualifiers (unqualified (splitSelector key).1) ++
        signs ", " ++ [.quoted .literal path] ++ signs ")") ∧
    pathSteps? path = some ((selectorSteps key).map fun step => .key step.toList) ∧
    (root, doc) ∈ documentPatches row ∧
    Renders .sqlite ((t.mergePatch root doc).map Sql.text)
      (qualifiedTokens others (unqualified (splitSelector key).1) ++
        signs " = json_patch(ifnull(" ++
        qualifiedTokens others (unqualified (splitSelector key).1) ++ signs ", json(" ++
        [.quoted .literal "\x7b\x7d".toList] ++ signs ")), json(?))") ∧
    (t.mergePatch root doc).map Sql.labels = .ok [.text doc.compact] ∧
    doc.at? (selectorSteps key) = some value.toJson

end Target

/-- MySQL: column and path are the same texts on both sides. -/
theorem mysql_assignment (hmysql : t.dialect = .mysql) (key : String) (value : Value) :
    t.NamesSamePath key value := by
  have htext : ∀ assigned : Sql,
      ((t.fieldAndPath key).1 ++ " = json_set(" ++ (t.fieldAndPath key).1 ++
        (t.fieldAndPath key).2 ++ ", " ++ assigned ++ ")" : Sql).text =
      (t.fieldAndPath key).1 ++ " = json_set(" ++ (t.fieldAndPath key).1 ++
        (t.fieldAndPath key).2 ++ ", " ++ assigned.text ++ ")" := by
    intro assigned
    simp
  refine ⟨(t.fieldAndPath key).2, _, ?_, htext _⟩
  simp only [Target.quoteSelector, hmysql, Target.selectorArguments]
  rw [← String.append_assoc]
  rfl

/-- PostgreSQL: what an assignment addresses, if no dot stands in the path. -/
theorem postgres_assignment (hpostgres : t.dialect = .postgres) {key : String}
    (hkey : ArrayKey key) (value : Value) {more : List Lexeme}
    (hmore : Dialect.postgres.lex (value.raw?.getD "?" ++ ")") = some more) :
    t.NamesSameParts key value more := by
  obtain ⟨hselector, halias, hdot, hquote, hdouble, hescape⟩ := hkey
  -- the assignment drops the qualifiers, which leaves path and parts alone
  obtain ⟨-, hsplit⟩ := splitSelector_unqualified hselector hdot
  have hparts := selectorParts_unqualified hselector hdot
  obtain ⟨qualifiers, hcolumn⟩ := columnTokens_eq t (splitSelector key).1
  have halias' : splitAlias? (splitSelector (unqualified key)).1 = none := by
    rw [hsplit]
    exact splitAlias?_of_isInfix halias (Text.afterLast_suffix "." _).isInfix
  refine ⟨qualifiers, (pathArray (unqualified key)).toList, ?_, ?_, ?_⟩
  · have htext : t.quoteSelector key = .ok (t.arrowSelector key) := by
      simp only [Target.quoteSelector, hpostgres]
    have hread : Readable .postgres (t.selectorTokens "->>" key) :=
      readable_selector t (show "->>".toList = ['-', '>', '>'] from rfl) (by decide) key
    rw [htext, renders_ok_iff, ← hcolumn]
    refine (lex_undoubled_iff (undoubled_arrowSelector hpostgres halias) hread).2 ?_
    rwa [quoteless_selector_iff]
  · have hquoteless : Quoteless (t.assignmentTokens (unqualified key)) := by
      rw [quoteless_assignment_iff, hsplit]
      exact hquote
    have htokens := (lex_append_iff (undoubled_assignmentHead hpostgres halias')
      (finished_assignmentTokens t _) hmore).2 hquoteless
    rw [setJsonb_eq value halias', renders_ok_iff, htokens, Target.assignmentTokens, hsplit,
      columnTokens_unqualified]
  · have hpart : ∀ part ∈ selectorParts key,
        part ≠ "" ∧ '"' ∉ part.toList ∧ '\\' ∉ part.toList := by
      intro part hmem
      have hfilled := (List.mem_filter.1 hmem).2
      rw [mem_path_iff_mem_part (by decide) (by decide) (by decide)] at hdouble hescape
      exact ⟨by simpa using hfilled, fun hc => hdouble ⟨part, hmem, hc⟩,
        fun hc => hescape ⟨part, hmem, hc⟩⟩
    -- both name the same parts
    have hread := arrayElements?_parts hpart
    rw [pathArray, hparts]
    simpa using hread

/-- SQLite: what an assignment addresses, if its steps are keys that can be read from a path. -/
theorem sqlite_assignment (hsqlite : t.dialect = .sqlite) {key : String} (hkey : PatchKey key)
    {row : Row} {before : List (String × Value)} {value : Value}
    (hrow : row.entries = before ++ [(key, value)]) : t.NamesSameKeys key row value := by
  obtain ⟨hselector, halias, hdots, hpath, hdouble, hescape, hindices⟩ := hkey
  obtain ⟨root, htarget, hsuffix, hroot⟩ := patchTarget_eq hselector hdots
  obtain ⟨doc, hdoc, hat⟩ := documentPatches_last hrow hselector
  rw [htarget] at hdoc hat
  obtain ⟨qualifiers, hcolumn⟩ := columnTokens_eq t (splitSelector key).1
  obtain ⟨others, hothers⟩ := columnTokens_eq t root
  rw [hroot] at hothers
  -- a step without indices is a key as a whole
  have hkeys : ∀ step ∈ (selectorSteps key).map String.toList,
      splitIndices step = (step, []) ∧ '"' ∉ step := by
    intro step hstep
    obtain ⟨name, hname, rfl⟩ := List.mem_map.1 hstep
    have hkey := key_append_bracketed name.toList
    rw [hindices name hname] at hkey
    refine ⟨Prod.ext ?_ (hindices name hname), fun hmem => hdouble ?_⟩
    · simpa [bracketed] using hkey
    · exact (mem_path_iff (by decide)).2 ⟨name, hname, hmem⟩
  have hsteps : (selectorSteps key).map String.toList ≠ [] := by
    rw [selectorSteps_eq hselector]
    simpa using Text.splitOn_ne_nil arrow (splitSelector key).2
  have hread := pathSteps?_pathText hsteps hkeys
  rw [List.map_map] at hread
  -- what is patched is a piece of the column that is selected from, so it is quoted in the same way
  have hcolumnInfix : root.toList <:+: (splitSelector key).1.toList := hsuffix.isInfix
  have haliasRoot := splitAlias?_of_isInfix halias hcolumnInfix
  have hselectorRoot : isSelector root = false := by
    rw [← Bool.not_eq_true]
    intro hname
    exact absurd (isSelector_of_isInfix hcolumnInfix hname) (by simp [isSelector_column])
  refine ⟨qualifiers, _, root, others, doc, ?_, hread, hdoc, ?_, ?_, hat⟩
  · rw [← hcolumn]
    exact extraction_renders hsqlite halias hpath hselector hescape
  · rw [← hothers]
    exact mergePatch_renders hsqlite doc haliasRoot hselectorRoot
  · rw [Target.mergePatch, quote_column haliasRoot hselectorRoot]
    refine congrArg Except.ok ?_
    simp [bound, Value.isRaw]

/-- The assignment to a selector writes the place that the selector reads: the same column, behind
whatever qualifiers, and there the same steps.

MySQL has one text for both, whatever the key. PostgreSQL reads the parts of the path one by one and
writes them as the elements of an array. SQLite reads a JSON path and writes a document that is
merged into the column, here the last assignment of a row. -/
theorem assignment_addresses_selection (t : Target) (key : String) :
    (t.dialect = .mysql → ∀ value, t.NamesSamePath key value) ∧
    (t.dialect = .postgres → ArrayKey key → ∀ (value : Value) (more : List Lexeme),
      Dialect.postgres.lex (value.raw?.getD "?" ++ ")") = some more →
      t.NamesSameParts key value more) ∧
    (t.dialect = .sqlite → PatchKey key →
      ∀ (row : Row) (before : List (String × Value)) (value : Value),
      row.entries = before ++ [(key, value)] → t.NamesSameKeys key row value) := by
  refine ⟨?_, ?_, ?_⟩
  · intro hmysql value
    exact mysql_assignment hmysql key value
  · intro hpostgres hkey value more hmore
    exact postgres_assignment hpostgres hkey value hmore
  · intro hsqlite hkey row before value hrow
    exact sqlite_assignment hsqlite hkey hrow

theorem notesOfUser_addressed :
    (∃ path assigned,
      (Target.mk .mysql {}).quoteSelector "u.meta->it's" =
        .ok ("json_unquote(json_extract(" ++ "\x60u\x60.\x60meta\x60" ++ path ++ "))") ∧
      ((Target.mk .mysql {}).setDocument "u.meta->it's" (.bool true)).text =
        "\x60u\x60.\x60meta\x60" ++ " = json_set(" ++ "\x60u\x60.\x60meta\x60" ++ path ++
          ", " ++ assigned ++ ")") ∧
    (∃ qualifiers array,
      Renders .postgres (prefixingPostgres.quoteSelector "u.meta->tags[0]->by")
        (qualifiedTokens qualifiers "meta" ++ arrowTokens "->>" ["tags", "0", "by"]) ∧
      Renders .postgres ((prefixingPostgres.setJsonb (unqualified "u.meta->tags[0]->by")
          (.bool true)).map Sql.text)
        (identifierTokens "meta" ++ signs " = jsonb_set(" ++ identifierTokens "meta" ++
          signs "::jsonb, " ++ [.quoted .literal array] ++ signs ", " ++ signs "?)") ∧
      arrayElements? array = some ["tags".toList, "0".toList, "by".toList]) ∧
    (∃ qualifiers path root others doc,
      Renders .sqlite ((Target.mk .sqlite {}).quoteSelector "u.meta->a.b->it's")
        (signs "json_extract(" ++ qualifiedTokens qualifiers "meta" ++ signs ", " ++
          [.quoted .literal path] ++ signs ")") ∧
      pathSteps? path = some [.key "a.b".toList, .key "it's".toList] ∧
      (root, doc) ∈ documentPatches ⟨[("id", .null), ("u.meta->a.b->it's", .bool true)]⟩ ∧
      Renders .sqlite (((Target.mk .sqlite {}).mergePatch root doc).map Sql.text)
        (qualifiedTokens others "meta" ++ signs " = json_patch(ifnull(" ++
          qualifiedTokens others "meta" ++ signs ", json(" ++
          [.quoted .literal "\x7b\x7d".toList] ++ signs ")), json(?))") ∧
      ((Target.mk .sqlite {}).mergePatch root doc).map Sql.labels = .ok [.text doc.compact] ∧
      doc.at? ["a.b", "it's"] = some (.bool true)) := by
  refine ⟨?_, ?_, ?_⟩
  · exact (assignment_addresses_selection ⟨.mysql, {}⟩ "u.meta->it's").1 rfl (.bool true)
  · have hkey : ArrayKey "u.meta->tags[0]->by" := by constructor <;> decide
    exact (assignment_addresses_selection prefixingPostgres "u.meta->tags[0]->by").2.1 rfl hkey
      (.bool true) (signs "?)") rfl
  · have hkey : PatchKey "u.meta->a.b->it's" := by constructor <;> decide
    exact (assignment_addresses_selection ⟨.sqlite, {}⟩ "u.meta->a.b->it's").2.2 rfl hkey _
      [("id", .null)] (.bool true) rfl

/-- A dot in a step takes the assignment of PostgreSQL to another column, and SQLite takes an index
for a part of its key. -/
theorem dottedStep_assigned_elsewhere :
    prefixingPostgres.quoteSelector "meta->a.b" = .ok "\"meta\"->>'a.b'" ∧
    (prefixingPostgres.setJsonb (unqualified "meta->a.b") (.bool true)).map Sql.text =
      .ok "\"b\" = jsonb_set(\"b\"::jsonb, '\x7b\x7d', ?)" ∧
    (Target.mk .sqlite {}).quoteSelector "meta->tags[0]" =
      .ok "json_extract(\"meta\", '$.\"tags\"[0]')" ∧
    (documentPatches ⟨[("meta->tags[0]", .bool true)]⟩).map (fun patch => patch.2.compact) =
      ["\x7b\"tags[0]\":true\x7d"] := by
  decide +kernel

end SqlCompiler
