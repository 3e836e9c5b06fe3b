import SqlCompiler.Proofs.ClosedUpdates
import SqlCompiler.Proofs.FunctionArguments
import SqlCompiler.Proofs.InlinedInserts
import SqlCompiler.Proofs.WriteRestrictions

/-!
# Joined Targets

A delete or update with joins names its target in front of the joins:
`delete u from users as u ...`. The target is what follows the last ` as ` of the table's SQL. The
rest of a statement refers to the table by its alias, which is cut from the table as it is given, at
the first word `as` in any case and between any blanks. The two agree on names and on derived
tables, as their SQL has the separator that was written for the alias. It may have a further one:
the table prefix can bring it, and a derived table can be given an alias that has an alias itself.
On a raw table they agree only if it is written like SQL that the compiler writes.

## Main definitions

- `ArgumentsReach`: where SQL Server takes the end of an alias for the end of arguments
- `Target.NamesTable`: a target that names its table as FROM does
- `Target.TellsAlias`: the tables that have one alias to be found
- `NamesTargetFirst`: the changes whose target stands in front of FROM

## Main statements

- `afterLast_as_eq_iff`: what stands behind the last separator
- `infix_quoteTable_iff`: the separators in a quoted table
- `quoteTable_aliased`: a quoted table ends in its alias
- `namesTable_named_iff`, `namesTable_derived_iff`, `namesTable_raw_iff`: the kinds of tables
- `change_begins`: where the target and the table of a joined change stand
- `change_names_table_iff`: when a joined change names its table
-/

namespace SqlCompiler

variable {t : Target} {q : Query} {sql : Sql}

/-! ## §1 The last separator -/

namespace Text

/-- There is a last separator exactly if there is one at all. -/
theorem splitLastChars?_eq_none_iff {sep cs : List Char} :
    splitLastChars? sep cs = none ↔ ¬ sep <:+: cs := by
  refine ⟨fun h => ?_, splitLastChars?_eq_none⟩
  induction cs with
  | nil =>
    intro hin
    rw [List.infix_nil.1 hin] at h
    cases h
  | cons c cs ih =>
    rw [splitLastChars?] at h
    split at h
    · cases h
    · rename_i hnone
      split at h
      · cases h
      · rename_i hprefix
        rw [List.infix_cons_iff, not_or]
        exact ⟨by simpa using hprefix, ih hnone⟩

/-- Behind the last separator none stands, not even across its end. -/
theorem not_infix_of_splitLastChars? {c : Char} {sep cs before after : List Char}
    (h : splitLastChars? (c :: sep) cs = some (before, after)) : ¬ c :: sep <:+: sep ++ after := by
  induction cs generalizing before with
  | nil => cases h
  | cons x cs ih =>
    rw [splitLastChars?] at h
    split at h
    · rename_i found hfound
      cases h
      exact ih hfound
    · rename_i hnone
      split at h
      · rename_i hprefix
        -- the cut is here: no separator begins behind its first character
        obtain ⟨rest, hrest⟩ := List.isPrefixOf_iff_prefix.1 hprefix
        obtain ⟨rfl, rfl⟩ := List.cons.inj hrest
        cases h
        simpa [splitLastChars?_eq_none_iff] using hnone
      · cases h

/-- Doubling a character that a separator does not have neither makes nor breaks one. -/
theorem infix_doubleChars_iff {sep cs : List Char} {mark : Char} (hmark : mark ∉ sep) :
    sep <:+: doubleChars mark cs ↔ sep <:+: cs := by
  refine ⟨infix_of_doubleChars hmark, ?_⟩
  rintro ⟨before, after, rfl⟩
  refine ⟨doubleChars mark before, doubleChars mark after, ?_⟩
  rw [doubleChars_append, doubleChars_append, doubleChars_eq_self_iff.2 hmark]

/-- A text without a character stands on one side of that character. -/
theorem infix_append_cons_iff {sep as bs : List Char} {c : Char} (hc : c ∉ sep) :
    sep <:+: as ++ c :: bs ↔ sep <:+: as ∨ sep <:+: bs := by
  refine ⟨infix_append_cons hc, ?_⟩
  rintro (h | h)
  · exact h.trans (List.prefix_append _ _).isInfix
  · exact h.trans ((List.suffix_cons c bs).trans (List.suffix_append _ _)).isInfix

end Text

/-- The last separator is the one that stands in front of a text without separators. -/
theorem afterLast_as_eq_iff {text target : String} :
    Text.afterLast " as " text = target ↔
      (¬ aliasWord <:+: text.toList ∧ text = target) ∨
        ∃ before, text = before ++ " as " ++ target ∧ Unseparated target := by
  constructor
  · rintro rfl
    unfold Text.afterLast
    cases hsplit : Text.splitLast? " as " text with
    | none =>
      exact .inl ⟨Text.splitLastChars?_eq_none_iff.1 (Option.map_eq_none_iff.1 hsplit), rfl⟩
    | some sides =>
      obtain ⟨⟨before, after⟩, hchars, rfl⟩ := Option.map_eq_some_iff.1 hsplit
      refine .inr ⟨String.ofList before, ?_, ?_⟩
      · apply String.toList_inj.1
        simpa using Text.splitLastChars?_eq_append hchars
      · rw [Unseparated, String.toList_ofList]
        exact Text.not_infix_of_splitLastChars? hchars
  · rintro (⟨hfree, rfl⟩ | ⟨before, rfl, htarget⟩)
    · exact Text.afterLast_eq_self hfree
    · exact afterLast_append_of_unseparated htarget before

theorem Unseparated.not_infix {s : String} (h : Unseparated s) : ¬ aliasWord <:+: s.toList :=
  fun hin => h (hin.trans (List.suffix_append _ _).isInfix)

/-- Behind a separator there is less than the text. -/
theorem length_afterLast_lt {text : String} (h : aliasWord <:+: text.toList) :
    (Text.afterLast " as " text).toList.length < text.toList.length := by
  rcases afterLast_as_eq_iff.1 (rfl : Text.afterLast " as " text = _) with ⟨hfree, -⟩ |
    ⟨before, htext, -⟩
  · exact absurd h hfree
  · have hlength := congrArg (fun s => s.toList.length) htext
    simp only [String.toList_append, List.length_append] at hlength
    have hword : " as ".toList.length = 4 := rfl
    omega

/-- A text is its own target exactly if it has no word for an alias. -/
theorem afterLast_eq_self_iff {text : String} :
    Text.afterLast " as " text = text ↔ ¬ aliasWord <:+: text.toList := by
  refine ⟨fun heq hin => ?_, fun hfree => Text.afterLast_eq_self hfree⟩
  have hlt := length_afterLast_lt hin
  rw [heq] at hlt
  exact lt_irrefl _ hlt

/-- A separator in the end of a text is behind all those in front of it. -/
theorem length_afterLast_append_lt {last : String} (before : String)
    (h : aliasWord <:+: last.toList) :
    (Text.afterLast " as " (before ++ last)).toList.length < last.toList.length := by
  -- a separator in `last` is behind all of `before`
  obtain ⟨front, after, hlast⟩ := h
  have hlast' : last = String.ofList front ++ (" as " ++ String.ofList after) := by
    apply String.toList_inj.1
    rw [← hlast]
    simp [aliasWord]
  have hmore : before ++ last =
      (before ++ String.ofList front) ++ (" as " ++ String.ofList after) := by
    rw [hlast', String.append_assoc]
  rw [hmore, Text.afterLast_append_left, ← Text.afterLast_append_left " as " (String.ofList front),
    ← hlast']
  exact length_afterLast_lt ⟨front, after, hlast⟩

/-! ## §2 Separators in quoted names -/

/-- Quotes neither make nor break a word for an alias. -/
theorem infix_quoteIdentifier_iff {name : String} :
    aliasWord <:+: (t.quoteIdentifier name).toList ↔ aliasWord <:+: name.toList := by
  refine ⟨infix_of_quoteIdentifier, fun h => ?_⟩
  by_cases hstar : name = "*"
  · rwa [Target.quoteIdentifier, if_pos hstar]
  · rw [toList_quoteIdentifier t hstar, List.cons_append]
    have hdouble := (Text.infix_doubleChars_iff (mark_not_mem_aliasWord t.dialect).2).2 h
    exact hdouble.trans ((List.prefix_append _ _).isInfix.trans (List.suffix_cons _ _).isInfix)

/-- Where arguments are moved, only brackets and parentheses are. -/
theorem infix_finishTable_iff {quoted : String} :
    aliasWord <:+: (t.finishTable quoted).toList ↔ aliasWord <:+: quoted.toList := by
  rcases finishTable_cases t quoted with hself | ⟨c, name, arguments, -, -, hquoted, hout⟩
  · rw [hself]
  · -- the mark that moves is not in the word, so it splits no occurrence
    have hmarks : '(' ∉ aliasWord ∧ ')' ∉ aliasWord ∧ ']' ∉ aliasWord := by decide
    have hempty : ¬ aliasWord <:+: [] := by decide
    have hclose : ¬ aliasWord <:+: [']'] := by decide
    have hquoted' : quoted.toList = (c :: name) ++ '(' :: (arguments ++ ')' :: [']']) := by
      simp [hquoted]
    have hout' : (t.finishTable quoted).toList =
        (c :: name) ++ ']' :: ([] ++ '(' :: (arguments ++ ')' :: [])) := by
      simp [hout]
    rw [hquoted', hout', Text.infix_append_cons_iff hmarks.1,
      Text.infix_append_cons_iff hmarks.2.1, Text.infix_append_cons_iff hmarks.2.2,
      Text.infix_append_cons_iff hmarks.1, Text.infix_append_cons_iff hmarks.2.1]
    simp only [hempty, hclose, or_false, false_or]

/-- In a table without alias, only the table prefix can bring a separator. -/
theorem infix_quotedSegments_iff {table : String} (halias : splitAlias? table = none) :
    aliasWord <:+: (t.quotedSegments table).toList ↔
      aliasWord <:+: (t.options.tablePrefix ++ unqualified table).toList := by
  obtain ⟨front, hsplit⟩ := splitOn_dot table
  have hfree := not_infix_of_splitAs?_eq_none (splitAlias?_eq_none_iff.1 halias)
  rw [toList_quotedSegments hsplit, Target.quotePrefixed]
  constructor
  · intro hin
    have hdot : '.' ∉ aliasWord := by decide
    -- a segment is a piece of the table, which has no alias word
    have hfront : ∀ segment ∈ front, ¬ aliasWord <:+: segment.toList := by
      intro segment hmem hin
      have hpiece : segment ∈ Text.splitOn "." table := by simp [hsplit, hmem]
      exact hfree (hin.trans (Text.infix_of_mem_splitOn (by decide) hpiece))
    clear hsplit
    induction front with
    | nil => exact infix_quoteIdentifier_iff.1 hin
    | cons segment front ih =>
      obtain ⟨hsegment, hfront⟩ := List.forall_mem_cons.1 hfront
      rw [Target.schemaChars, List.flatMap_cons, List.append_assoc, List.append_assoc,
        List.singleton_append, Text.infix_append_cons_iff hdot] at hin
      exact ih (hin.resolve_left (mt infix_quoteIdentifier_iff.1 hsegment)) hfront
  · intro hin
    exact (infix_quoteIdentifier_iff.2 hin).trans (List.suffix_append _ _).isInfix

/-- A quoted table has a separator if it has an alias, or if the table prefix brings one. -/
theorem infix_quoteTable_iff {table : String} :
    aliasWord <:+: (t.quoteTable table).toList ↔
      splitAlias? table ≠ none ∨
        aliasWord <:+: (t.options.tablePrefix ++ unqualified table).toList := by
  cases hsplit : splitAlias? table with
  | none =>
    rw [quoteTable_eq_finishTable hsplit, infix_finishTable_iff, infix_quotedSegments_iff hsplit]
    simp
  | some sides =>
    simp only [ne_eq, reduceCtorEq, not_false_eq_true, true_or, iff_true]
    simp only [Target.quoteTable, hsplit]
    rw [infix_finishTable_iff, String.toList_append, String.toList_append]
    exact ⟨_, _, rfl⟩

/-! ## §3 Quoted aliases -/

/-- A text that begins neither like a separator nor like arguments. -/
def BeginsQuoted (s : String) : Prop :=
  ∃ c, s.toList.head? = some c ∧ c ≠ 'a' ∧ c ≠ '('

/-- What begins with a quote still does with more behind it. -/
theorem BeginsQuoted.append {s : String} (h : BeginsQuoted s) (more : String) :
    BeginsQuoted (s ++ more) := by
  obtain ⟨c, hhead, hc⟩ := h
  exact ⟨c, by rw [String.toList_append, List.head?_append, hhead, Option.some_or], hc⟩

/-- Behind a word for an alias, a text that begins with a quote completes no other one. -/
theorem BeginsQuoted.unseparated_iff {s : String} (h : BeginsQuoted s) :
    Unseparated s ↔ ¬ aliasWord <:+: s.toList := by
  obtain ⟨c, hhead, hc, -⟩ := h
  refine ⟨Unseparated.not_infix, fun hfree => unseparated_of hfree ?_⟩
  rw [hhead]
  simpa using hc

/-- An identifier begins with its quote; the star, which has none, begins with itself. -/
theorem quoteIdentifier_begins (t : Target) (name : String) :
    BeginsQuoted (t.quoteIdentifier name) := by
  by_cases hstar : name = "*"
  · rw [Target.quoteIdentifier, if_pos hstar, hstar]
    exact ⟨'*', rfl, by decide⟩
  · refine ⟨t.dialect.openQuote, by rw [toList_quoteIdentifier t hstar]; rfl, ?_⟩
    cases t.dialect <;> decide

theorem quotedSegments_begins (t : Target) (table : String) :
    BeginsQuoted (t.quotedSegments table) := by
  obtain ⟨front, hsplit⟩ := splitOn_dot table
  cases front with
  | nil =>
    have hself : t.quotedSegments table = t.quotePrefixed (unqualified table) := by
      apply String.toList_inj.1
      rw [toList_quotedSegments hsplit]
      rfl
    rw [hself]
    exact quoteIdentifier_begins t _
  | cons segment front =>
    have hself : t.quotedSegments table = t.quoteIdentifier segment ++ String.ofList
        ('.' :: (t.schemaChars front ++ (t.quotePrefixed (unqualified table)).toList)) := by
      apply String.toList_inj.1
      rw [toList_quotedSegments hsplit]
      simp [Target.schemaChars]
    rw [hself]
    exact (quoteIdentifier_begins t segment).append _

/-- Moving arguments out of the quotes leaves the beginning. -/
theorem BeginsQuoted.finishTable {quoted : String} (h : BeginsQuoted quoted) :
    BeginsQuoted (t.finishTable quoted) := by
  rcases finishTable_cases t quoted with hself | ⟨c, name, arguments, -, -, hquoted, hout⟩
  · rwa [hself]
  · obtain ⟨first, hhead, hfirst⟩ := h
    refine ⟨first, ?_, hfirst⟩
    rw [hout]
    simpa [hquoted] using hhead

theorem quoteBareTable_begins (t : Target) (table : String) :
    BeginsQuoted (t.quoteBareTable table) :=
  (quotedSegments_begins t table).finishTable

/-- A table begins with the quote of its first segment. -/
theorem quoteTable_begins (t : Target) (table : String) : BeginsQuoted (t.quoteTable table) := by
  unfold Target.quoteTable
  split
  · rw [String.append_assoc]
    exact ((quoteBareTable_begins t _).append _).finishTable
  · exact quoteBareTable_begins t table

/-- Behind the separator of a quoted name there is no more than the name. -/
theorem length_afterLast_le {last : String} (h : BeginsQuoted last) (before : String) :
    (Text.afterLast " as " (before ++ " as " ++ last)).toList.length ≤ last.toList.length := by
  by_cases hin : aliasWord <:+: last.toList
  · exact (length_afterLast_append_lt _ hin).le
  · rw [afterLast_append_of_unseparated (h.unseparated_iff.2 hin)]

/-! ## §4 Arguments across an alias -/

theorem mem_quoteIdentifier_iff {name : String} {c : Char} (hc : c = '(' ∨ c = '\n') :
    c ∈ (t.quoteIdentifier name).toList ↔ c ∈ name.toList := by
  have hquotes : c ≠ t.dialect.openQuote ∧ c ≠ t.dialect.closeQuote := by
    rcases hc with rfl | rfl <;> cases t.dialect <;> decide
  by_cases hstar : name = "*"
  · rw [Target.quoteIdentifier, if_pos hstar]
  · rw [toList_quoteIdentifier t hstar]
    simp [Text.mem_doubleChars, hquotes]

/-- Moving arguments neither adds nor drops a character. -/
theorem mem_finishTable_iff {quoted : String} {c : Char} :
    c ∈ (t.finishTable quoted).toList ↔ c ∈ quoted.toList := by
  rcases finishTable_cases t quoted with hself | ⟨x, name, arguments, -, -, hquoted, hout⟩
  · rw [hself]
  · rw [hquoted, hout]
    simp only [List.mem_append, List.mem_cons, List.not_mem_nil, or_false]
    tauto

/-- The parentheses and line feeds of a quoted table are those of its name and of the prefix. -/
theorem mem_quoteBareTable_iff {table : String} {c : Char} (hc : c = '(' ∨ c = '\n') :
    c ∈ (t.quoteBareTable table).toList ↔ c ∈ (t.options.tablePrefix ++ table).toList := by
  obtain ⟨front, hsplit⟩ := splitOn_dot table
  have hdot : c ≠ '.' := by rcases hc with rfl | rfl <;> decide
  show c ∈ (t.finishTable (t.quotedSegments table)).toList ↔ _
  rw [mem_finishTable_iff, toList_quotedSegments hsplit, String.toList_append,
    toList_of_splitOn_dot hsplit, Target.quotePrefixed]
  simp only [Target.schemaChars, List.mem_append, List.mem_flatMap, List.mem_singleton, hdot,
    or_false, mem_quoteIdentifier_iff hc, String.toList_append]
  exact or_left_comm

/-- Where SQL Server takes the end of an alias for the end of arguments: it looks for arguments in
a table and its alias at once, and finds them to begin in the table. -/
structure ArgumentsReach (t : Target) (name asName : String) : Prop where
  server : t.dialect = .sqlserver
  opened : '(' ∈ (t.options.tablePrefix ++ name).toList
  closed : (t.options.tablePrefix ++ asName).toList.getLast? = some ')'
  line : '\n' ∉ (t.options.tablePrefix ++ name).toList ++ (t.options.tablePrefix ++ asName).toList

/-- A quoted name ends like arguments if its last character is a parenthesis. -/
theorem closed_of_quotePrefixed {asName : String} (hserver : t.dialect = .sqlserver)
    {front cs : List Char} (h : front ++ (t.quotePrefixed asName).toList = cs ++ [')', ']']) :
    (t.options.tablePrefix ++ asName).toList.getLast? = some ')' := by
  -- a star is written without quotes and does not end in a bracket
  have hstar : t.options.tablePrefix ++ asName ≠ "*" := by
    intro hstar
    have hend := congrArg List.getLast? h
    simp [Target.quotePrefixed, Target.quoteIdentifier, hstar] at hend
  rw [Target.quotePrefixed, toList_quoteIdentifier_brackets hserver hstar, ← List.append_assoc,
    show cs ++ [')', ']'] = (cs ++ [')']) ++ [']'] by simp] at h
  have hinner := congrArg List.getLast? (List.append_cancel_right h)
  rw [List.getLast?_concat, List.getLast?_append_of_ne_nil _ (List.cons_ne_nil _ _)] at hinner
  rw [← getLast?_doubleChars ']']
  cases hdouble : Text.doubleChars ']' (t.options.tablePrefix ++ asName).toList with
  | nil =>
    rw [hdouble] at hinner
    simp at hinner
  | cons c rest => rwa [hdouble, List.getLast?_cons_cons] at hinner

/-- An alias that ends in a parenthesis ends so inside of its brackets. -/
theorem quotePrefixed_of_closed {asName : String} (hserver : t.dialect = .sqlserver)
    (h : (t.options.tablePrefix ++ asName).toList.getLast? = some ')') :
    ∃ cs, (t.quotePrefixed asName).toList = '[' :: cs ++ [')', ']'] := by
  have hstar : t.options.tablePrefix ++ asName ≠ "*" := by
    intro hstar
    rw [hstar] at h
    cases h
  rw [← getLast?_doubleChars ']', List.getLast?_eq_some_iff] at h
  obtain ⟨cs, hcs⟩ := h
  refine ⟨cs, ?_⟩
  rw [Target.quotePrefixed, toList_quoteIdentifier_brackets hserver hstar, hcs]
  simp

/-- Arguments are moved within one line. -/
theorem line_not_mem_of_moved {quoted : String} (h : t.finishTable quoted ≠ quoted) :
    '\n' ∉ quoted.toList := by
  intro hmem
  refine h ?_
  unfold Target.finishTable
  split
  · rw [argumentsOutside_of_mem_line hmem, String.ofList_toList]
  · rfl

theorem finishTable_of_server (h : t.dialect = .sqlserver) (quoted : String) :
    (t.finishTable quoted).toList = Target.argumentsOutside quoted.toList := by
  simp only [Target.finishTable, h, String.toList_ofList]

/-- Arguments that begin behind a text are found there without it. -/
theorem finishTable_append {before after : String} (hopened : '(' ∉ before.toList)
    (hafter : BeginsQuoted after) (hmoved : t.finishTable (before ++ after) ≠ before ++ after) :
    t.finishTable (before ++ after) = before ++ t.finishTable after := by
  obtain ⟨c, front, arguments, hserver, hfront, hquoted, hout⟩ :=
    (finishTable_cases t _).resolve_left hmoved
  have hline := line_not_mem_of_moved hmoved
  obtain ⟨first, hhead, -, hfirst⟩ := hafter
  have hbegins : ∀ rest : List Char, after.toList ≠ '(' :: rest := by
    intro rest hrest
    rw [hrest] at hhead
    exact hfirst (Option.some.inj hhead).symm
  rw [String.toList_append] at hquoted hline
  rw [List.append_assoc] at hquoted
  -- the parenthesis that is moved stands in `after`
  rcases List.append_eq_append_iff.1 hquoted with ⟨inner, hinner, htail⟩ | ⟨rest, hrest, htail⟩
  · have hne : inner ≠ [] := by
      rintro rfl
      exact hbegins _ htail
    -- the first character of the text is skipped, and it is no parenthesis either
    have hfree : '(' ∉ inner := by
      intro hmem
      cases hbefore : before.toList with
      | nil =>
        obtain ⟨x, rest, rfl⟩ := List.exists_cons_of_ne_nil hne
        rw [hbefore, List.nil_append] at hinner
        rcases List.mem_cons.1 hmem with rfl | hmem
        · exact hbegins _ htail
        · exact hfront ((List.cons.inj hinner).2 ▸ hmem)
      | cons x rest =>
        rw [hbefore, List.cons_append] at hinner
        exact hfront ((List.cons.inj hinner).2 ▸ List.mem_append_right rest hmem)
    rw [← List.append_assoc] at htail
    have hcallLine : '\n' ∉ inner ++ '(' :: arguments ++ [')', ']'] :=
      htail ▸ fun hmem => hline (List.mem_append_right _ hmem)
    have hcall := argumentsOutside_call hne hfree hcallLine
    apply String.toList_inj.1
    rw [hout, hinner, String.toList_append, finishTable_of_server hserver, htail, hcall]
    simp
  · exfalso
    cases rest with
    | nil => exact hbegins _ htail.symm
    | cons x rest =>
      obtain ⟨rfl, -⟩ := List.cons.inj htail
      exact hopened (by simp [hrest])

/-- A line feed in the text comes from the name or from the alias. -/
theorem line_mem_aliased_iff {name asName : String} :
    '\n' ∈ (t.quoteBareTable name ++ " as " ++ t.quotePrefixed asName).toList ↔
      '\n' ∈
        (t.options.tablePrefix ++ name).toList ++ (t.options.tablePrefix ++ asName).toList := by
  have hword : '\n' ∉ " as ".toList := by decide
  rw [String.toList_append, String.toList_append, List.mem_append, List.mem_append,
    List.mem_append, mem_quoteBareTable_iff (.inr rfl), Target.quotePrefixed,
    mem_quoteIdentifier_iff (.inr rfl)]
  simp only [hword, or_false]

/-- A quoted table ends in its alias, unless arguments reach into that. -/
theorem quoteTable_aliased {table name asName : String}
    (hsplit : splitAlias? table = some (name, asName)) (hreach : ¬ ArgumentsReach t name asName) :
    ∃ written, t.quoteTable table = t.quoteBareTable name ++ " as " ++ written ∧
      (written = t.quotePrefixed asName ∨ written = t.finishTable (t.quotePrefixed asName)) := by
  have htable : t.quoteTable table =
      t.finishTable (t.quoteBareTable name ++ " as " ++ t.quotePrefixed asName) := by
    simp only [Target.quoteTable, hsplit]
  -- what is moved, if anything, is inside of the alias
  by_cases hself : t.finishTable (t.quoteBareTable name ++ " as " ++ t.quotePrefixed asName) =
      t.quoteBareTable name ++ " as " ++ t.quotePrefixed asName
  · exact ⟨_, htable.trans hself, .inl rfl⟩
  obtain ⟨c, front, arguments, hserver, -, hquoted, -⟩ :=
    (finishTable_cases t _).resolve_left hself
  have hline := mt line_mem_aliased_iff.2 (line_not_mem_of_moved hself)
  have hopened : '(' ∉ (t.quoteBareTable name).toList := fun hmem =>
    hreach ⟨hserver, (mem_quoteBareTable_iff (.inl rfl)).1 hmem,
      closed_of_quotePrefixed hserver ((String.toList_append ..).symm.trans hquoted), hline⟩
  refine ⟨_, htable.trans (finishTable_append ?_ (quoteIdentifier_begins t _) hself), .inr rfl⟩
  simpa using hopened

/-- Where arguments reach into the alias, less than the alias is left behind the separator. -/
theorem length_joinedTarget_lt {table name asName : String}
    (hsplit : splitAlias? table = some (name, asName)) (hreach : ArgumentsReach t name asName) :
    (Text.afterLast " as " (t.quoteTable table)).toList.length <
      (t.quotePrefixed asName).toList.length := by
  obtain ⟨inner, hinner⟩ := quotePrefixed_of_closed hreach.server hreach.closed
  obtain ⟨front, arguments, hname, hfront⟩ :=
    List.eq_append_cons_of_mem ((mem_quoteBareTable_iff (.inl rfl)).2 hreach.opened)
  have hne : front ≠ [] := by
    rintro rfl
    obtain ⟨c, hhead, -, hc⟩ := quoteBareTable_begins t name
    rw [hname] at hhead
    exact hc (Option.some.inj hhead).symm
  have hquoted : (t.quoteBareTable name ++ " as " ++ t.quotePrefixed asName).toList =
      front ++ '(' :: (arguments ++ " as ".toList ++ '[' :: inner) ++ [')', ']'] := by
    simp [hname, hinner]
  have hline :
      '\n' ∉ front ++ '(' :: (arguments ++ " as ".toList ++ '[' :: inner) ++ [')', ']'] := by
    rw [← hquoted]
    exact mt line_mem_aliased_iff.1 hreach.line
  -- the bracket behind the alias is moved to the name, so the alias is cut short
  have htable : t.quoteTable table =
      String.ofList (front ++ [']', '('] ++ arguments) ++ " as " ++
        String.ofList ('[' :: inner ++ [')']) := by
    apply String.toList_inj.1
    simp only [Target.quoteTable, hsplit]
    rw [finishTable_of_server hreach.server, hquoted, argumentsOutside_call hne hfront hline]
    simp
  have hbegins : BeginsQuoted (String.ofList ('[' :: inner ++ [')'])) :=
    ⟨'[', by simp, by decide⟩
  have hle := length_afterLast_le hbegins (String.ofList (front ++ [']', '('] ++ arguments))
  rw [htable, hinner]
  simp only [String.toList_ofList, List.length_append, List.length_cons, List.length_nil] at hle ⊢
  omega

/-! ## §5 Raw aliases -/

/-- What stands around the first word for an alias, letter by letter. -/
theorem splitAs?_eq_some {cs before after : List Char} (h : splitAs? cs = some (before, after)) :
    ∃ blanks a s b tail, IsAsWord blanks a s b ∧ cs = before ++ (blanks ++ [a, s, b]) ++ tail ∧
      after = Text.dropBlanks tail := by
  induction cs generalizing before with
  | nil => cases h
  | cons c cs ih =>
    obtain ⟨rfl, hword⟩ | ⟨found, rfl, -, hfound⟩ := splitAs?_cons_eq_some h
    · obtain ⟨blanks, a, s, b, tail, his, hcs, hrest⟩ := afterAs?_eq_some_iff.1 hword
      exact ⟨blanks, a, s, b, tail, his, by simpa using hcs, hrest⟩
    · obtain ⟨blanks, a, s, b, tail, his, hcs, hrest⟩ := ih hfound
      exact ⟨blanks, a, s, b, tail, his, by simp [hcs], hrest⟩

/-- An alias begins behind a word and the blanks after it. -/
theorem splitAlias?_behind {text name asName : String}
    (h : splitAlias? text = some (name, asName)) :
    ∃ before blanks a s b tail, IsAsWord blanks a s b ∧
      text.toList = before ++ (blanks ++ [a, s, b]) ++ tail ∧
      asName.toList <+: Text.dropBlanks tail := by
  obtain ⟨⟨before, after⟩, hcut, heq⟩ := Option.map_eq_some_iff.1 h
  cases heq
  obtain ⟨blanks, a, s, b, tail, hword, htext, rfl⟩ := splitAs?_eq_some hcut
  refine ⟨before, blanks, a, s, b, tail, hword, htext, ?_⟩
  rw [String.toList_ofList]
  split
  · rename_i hfirst
    exact (splitAs?_sides hfirst).1
  · exact List.prefix_rfl

/-- The beginning of a text without leading blanks has none. -/
theorem dropBlanks_of_isPrefix {cs tail : List Char} (h : cs <+: Text.dropBlanks tail) :
    Text.dropBlanks cs = cs := by
  cases cs with
  | nil => rfl
  | cons c cs =>
    obtain ⟨rest, hrest⟩ := h
    have hc : Text.isBlank c = false := by
      have hhead := List.head?_dropWhile_not Text.isBlank tail
      rw [Text.dropBlanks] at hrest
      rw [← hrest] at hhead
      simpa using hhead
    simp [Text.dropBlanks, hc]

/-- A text is longer than its alias, also without the blanks in front of it. -/
theorem length_alias_lt {text name asName : String} (h : splitAlias? text = some (name, asName)) :
    asName.toList.length < (Text.dropBlanks text.toList).length := by
  obtain ⟨before, blanks, a, s, b, tail, hword, htext, hprefix⟩ := splitAlias?_behind h
  have ha : Text.isBlank a = false := by
    rcases hword.first with rfl | rfl <;> decide
  -- the word in front of the alias begins with no blank and stays
  have hkept : a :: s :: b :: tail <:+ Text.dropBlanks text.toList := by
    rw [htext, show before ++ (blanks ++ [a, s, b]) ++ tail =
      (before ++ blanks) ++ a :: s :: b :: tail by simp]
    generalize before ++ blanks = front
    induction front with
    | nil => simp [Text.dropBlanks, ha]
    | cons c front ih =>
      rw [Text.dropBlanks, List.cons_append, List.dropWhile_cons]
      split
      · exact ih
      · exact (List.suffix_append front _).trans (List.suffix_cons c _)
  have hlength := hkept.length_le
  have htail : (Text.dropBlanks tail).length ≤ tail.length :=
    (List.dropWhile_suffix Text.isBlank).length_le
  have hasName := hprefix.length_le
  simp only [List.length_cons] at hlength
  omega

/-! ## §6 Tables and their targets -/

/-- A target names its table as FROM does: with the alias that the rest of a statement knows, or
with all of a table without alias. The alias of a name stands in its quotes, in SQL Server perhaps
with arguments behind them; a raw one stands as it is, behind any blanks. -/
def Target.NamesTable (t : Target) (tbl : Table) (written target : String) : Prop :=
  match tbl with
  | .named table =>
    if (splitAlias? table).isSome then
      (∃ before, written = before ++ " as " ++ target) ∧
        (target = t.quotePrefixed (Target.tableAlias tbl) ∨
          target = t.finishTable (t.quotePrefixed (Target.tableAlias tbl)))
    else target = written
  | .derived _ _ => target = t.quoteTable (Target.tableAlias tbl)
  | .raw text _ =>
    if (splitAlias? text).isSome then
      Text.dropBlanks target.toList = (Target.tableAlias tbl).toList
    else target = written

/-- The tables that have one alias to be found. The table prefix brings no separator into the last
name, nor do arguments reach across one; a derived table is given an alias that has none itself; and
a raw table ends in its alias behind a separator as the compiler writes it. -/
def Target.TellsAlias (t : Target) (tbl : Table) : Prop :=
  match tbl with
  | .named table =>
    match splitAlias? table with
    | some (name, asName) =>
      ¬ aliasWord <:+: (t.options.tablePrefix ++ asName).toList ∧ ¬ ArgumentsReach t name asName
    | none => ¬ aliasWord <:+: (t.options.tablePrefix ++ unqualified table).toList
  | .derived _ asName =>
    splitAlias? asName = none ∧
      ¬ aliasWord <:+: (t.options.tablePrefix ++ unqualified asName).toList
  | .raw text _ =>
    match splitAlias? text with
    | some (_, asName) =>
      ∃ before blanks : String, (∀ c ∈ blanks.toList, Text.isBlank c = true) ∧
        text = before ++ " as " ++ (blanks ++ asName) ∧ Unseparated (blanks ++ asName)
    | none => True

section Written

variable {asName written : String}
variable (h : written = t.quotePrefixed asName ∨ written = t.finishTable (t.quotePrefixed asName))
include h

/-- The written alias has a word for an alias exactly if the alias has one. -/
theorem infix_written_iff :
    aliasWord <:+: written.toList ↔ aliasWord <:+: (t.options.tablePrefix ++ asName).toList := by
  rcases h with rfl | rfl
  · exact infix_quoteIdentifier_iff
  · rw [infix_finishTable_iff]
    exact infix_quoteIdentifier_iff

theorem written_begins : BeginsQuoted written := by
  rcases h with rfl | rfl
  · exact quoteIdentifier_begins t _
  · exact (quoteIdentifier_begins t _).finishTable

theorem length_written : written.toList.length = (t.quotePrefixed asName).toList.length := by
  rcases h with rfl | rfl
  · rfl
  · exact length_finishTable t _

end Written

/-- What stands behind the last separator of a table is its alias exactly if the alias has no
separator in it and no arguments reach into it. -/
theorem namesTable_named_iff {table : String} :
    t.NamesTable (.named table) (t.quoteTable table)
        (Text.afterLast " as " (t.quoteTable table)) ↔
      t.TellsAlias (.named table) := by
  unfold Target.NamesTable Target.TellsAlias Target.tableAlias
  cases hsplit : splitAlias? table with
  | none =>
    have hiff : aliasWord <:+: (t.quoteTable table).toList ↔ _ := infix_quoteTable_iff
    simp only [hsplit, ne_eq, not_true_eq_false, false_or] at hiff
    simp only [Option.isSome_none, Bool.false_eq_true, if_false, hsplit, afterLast_eq_self_iff,
      hiff]
  | some sides =>
    obtain ⟨name, asName⟩ := sides
    simp only [Option.isSome_some, if_true, hsplit, Option.elim_some]
    -- arguments that reach into the alias leave less than its name
    by_cases hreach : ArgumentsReach t name asName
    · refine iff_of_false (fun hnames => ?_) fun htells => htells.2 hreach
      have hlt := length_joinedTarget_lt hsplit hreach
      rw [length_written hnames.2] at hlt
      exact lt_irrefl _ hlt
    · obtain ⟨written, htable, hwritten⟩ := quoteTable_aliased hsplit hreach
      rw [htable, ← infix_written_iff hwritten, ← (written_begins hwritten).unseparated_iff]
      constructor
      · -- a word inside of the alias would cut the target off behind it
        rintro ⟨-, hspelled⟩
        refine ⟨?_, hreach⟩
        rw [(written_begins hwritten).unseparated_iff]
        intro hin
        have hlt := length_afterLast_append_lt (t.quoteBareTable name ++ " as ") hin
        rw [length_written hspelled, length_written hwritten] at hlt
        exact lt_irrefl _ hlt
      · rintro ⟨hfree, -⟩
        rw [afterLast_append_of_unseparated hfree]
        exact ⟨⟨_, rfl⟩, hwritten⟩

/-- What stands behind the last separator of a derived table is its alias exactly if the quoted
alias has no separator in it. -/
theorem namesTable_derived_iff {query : Query} {asName : String} (select : String) :
    t.NamesTable (.derived query asName) ("(" ++ select ++ ")" ++ " as " ++ t.quoteTable asName)
        (Text.afterLast " as " ("(" ++ select ++ ")" ++ " as " ++ t.quoteTable asName)) ↔
      t.TellsAlias (.derived query asName) := by
  have hiff : t.TellsAlias (.derived query asName) ↔
      ¬ aliasWord <:+: (t.quoteTable asName).toList := by
    rw [infix_quoteTable_iff, not_or, not_ne_iff]
    rfl
  rw [hiff]
  unfold Target.NamesTable Target.tableAlias
  constructor
  · intro hspelled hin
    have hlt := length_afterLast_append_lt ("(" ++ select ++ ")" ++ " as ") hin
    rw [hspelled] at hlt
    exact lt_irrefl _ hlt
  · intro hfree
    exact afterLast_append_of_unseparated ((quoteTable_begins t asName).unseparated_iff.2 hfree) _

/-- What stands behind the last separator of a raw table is its alias exactly if the table ends in a
separator and the alias. -/
theorem namesTable_raw_iff {text : String} {bindings : List Value} :
    t.NamesTable (.raw text bindings) text (Text.afterLast " as " text) ↔
      t.TellsAlias (.raw text bindings) := by
  unfold Target.NamesTable Target.TellsAlias Target.tableAlias
  cases hsplit : splitAlias? text with
  | none =>
    have hfree := not_infix_of_splitAs?_eq_none (splitAlias?_eq_none_iff.1 hsplit)
    have hself : Text.afterLast " as " text = text := Text.afterLast_eq_self hfree
    simp [hself, hsplit]
  | some sides =>
    obtain ⟨name, asName⟩ := sides
    simp only [Option.isSome_some, if_true, hsplit, Option.elim_some]
    constructor
    · intro hspelled
      rcases afterLast_as_eq_iff.1 (rfl : Text.afterLast " as " text = _) with ⟨-, hself⟩ |
        ⟨before, htext, hfree⟩
      · -- all of the text is longer than its alias
        have hlt := length_alias_lt hsplit
        rw [← hself] at hspelled
        rw [hspelled] at hlt
        exact absurd hlt (lt_irrefl _)
      · generalize Text.afterLast " as " text = target at hspelled htext hfree
        have htarget : target =
            String.ofList (target.toList.takeWhile Text.isBlank) ++ asName := by
          apply String.toList_inj.1
          rw [String.toList_append, String.toList_ofList, ← hspelled]
          exact List.takeWhile_append_dropWhile.symm
        refine ⟨before, String.ofList (target.toList.takeWhile Text.isBlank), ?_,
          by rwa [← htarget], by rwa [← htarget]⟩
        rw [String.toList_ofList]
        exact fun c hc => List.mem_takeWhile_imp hc
    · rintro ⟨before, blanks, hblanks, htext, hfree⟩
      obtain ⟨-, -, -, -, -, tail, -, -, hprefix⟩ := splitAlias?_behind hsplit
      have htarget : Text.afterLast " as " text = blanks ++ asName := by
        rw [htext, afterLast_append_of_unseparated hfree]
      rw [htarget, String.toList_append, Text.dropBlanks, List.dropWhile_append_of_pos hblanks]
      exact dropBlanks_of_isPrefix hprefix

/-- In each of its three kinds, a table is named exactly if its alias can be told. -/
theorem namesTable_iff {tbl : Table} {table : Sql} (h : t.table tbl = .ok table) :
    t.NamesTable tbl table.text (Target.joinedTarget table) ↔ t.TellsAlias tbl := by
  unfold Target.joinedTarget
  cases tbl with
  | named name =>
    cases h
    rw [Sql.text_ofString]
    exact namesTable_named_iff
  | derived query asName =>
    simp only [Target.table, bind_eq_ok, pure_eq_ok] at h
    obtain ⟨select, -, rfl⟩ := h
    have htext : ("(" ++ select ++ ") as " ++ t.quoteTable asName : Sql).text =
        "(" ++ select.text ++ ")" ++ " as " ++ t.quoteTable asName := by
      apply String.toList_inj.1
      simp
    rw [htext]
    exact namesTable_derived_iff select.text
  | raw text bindings =>
    cases h
    rw [Sql.text_fragment]
    exact namesTable_raw_iff

/-! ## §7 Joined changes -/

/-- The changes whose target stands in front of FROM. The other dialects join inside of the query
that selects the rows, or in front of the assignments. -/
def NamesTargetFirst (t : Target) (q : Query) (c : RowChange) : Prop :=
  q.joins ≠ [] ∧
    match c with
    | .update _ => t.dialect = .sqlserver
    | .delete => t.dialect = .generic ∨ t.dialect = .mysql ∨ t.dialect = .sqlserver

/-- What stands between the target of a joined change and FROM. -/
def Target.setClause (t : Target) : RowChange → Except Fault String
  | .update row => do return " set " ++ (← t.assignments row).text
  | .delete => .ok ""

/-- What an update writes between its target and its conditions. -/
theorem setClause_update {row : Row} {assigned : Sql} (h : t.assignments row = .ok assigned) :
    t.setClause (.update row) = .ok (" set " ++ assigned.text) := by
  simp only [Target.setClause, h]
  rfl

/-- A row of words is its first one and more. -/
theorem text_words_cons (first : Sql) (others : List Sql) :
    ∃ rest, (Sql.words (first :: others)).text = first.text ++ rest := by
  obtain ⟨rest, hrest⟩ := prefix_words first others
  refine ⟨String.ofList rest, ?_⟩
  apply String.toList_inj.1
  simp [hrest]

/-- A joined change begins with its verb and its target. Its table follows in FROM. -/
theorem change_begins {c : RowChange} {tbl : Table} (hjoined : NamesTargetFirst t q c)
    (hsource : q.source = some tbl) (h : t.change q c = .ok sql) :
    ∃ table set rest, t.table tbl = .ok table ∧ t.setClause c = .ok set ∧
      sql.text = Text.trimEnd (c.write.keyword ++ " " ++ t.writeTop q ++
        Target.joinedTarget table ++ set ++ " from " ++ table.text ++ " " ++ rest) := by
  obtain ⟨hjoins, hplace⟩ := hjoined
  have hempty : ¬q.joins.isEmpty = true := mt List.isEmpty_iff.1 hjoins
  cases c with
  | update row =>
    have hserver : t.dialect = .sqlserver := hplace
    have hrows : ¬t.usesRowIds q = true := by
      simp [Target.usesRowIds, Dialect.selectsRowIds, hserver]
    obtain ⟨-, -, table, assigned, wheres, _, htable, hassigned, -, hform, rfl⟩ := update_eq_ok h
    rw [Target.writeTable, hsource] at htable
    cases hform with
    | rowIds hids => exact absurd hids hrows
    | single _ hnone => exact absurd hnone hempty
    | joinedBefore _ _ hother => exact absurd hserver hother
    | @joinedBehind joins _ _ _ _ =>
      obtain ⟨rest, hrest⟩ := text_words_cons ("update " ++ t.writeTop q ++
        Target.joinedTarget table ++ " set " ++ assigned ++ " from " ++ table ++ " " ++ joins)
          [wheres]
      refine ⟨table, _, joins.text ++ rest, htable, setClause_update hassigned, ?_⟩
      rw [Sql.text_trimEnd, hrest]
      refine congrArg Text.trimEnd ?_
      apply String.toList_inj.1
      simp [RowChange.write, RowWrite.keyword]
  | delete =>
    have hrows : ¬t.usesRowIds q = true := by
      rcases hplace with hd | hd | hd <;> simp [Target.usesRowIds, Dialect.selectsRowIds, hd]
    obtain ⟨-, table, wheres, _, htable, -, hform, rfl⟩ := delete_eq_ok h
    rw [Target.writeTable, hsource] at htable
    cases hform with
    | rowIds hids => exact absurd hids hrows
    | single _ hnone => exact absurd hnone hempty
    | @joined joins _ _ _ =>
      obtain ⟨rest, hrest⟩ := text_words_cons ("delete " ++ t.writeTop q ++
        Target.joinedTarget table ++ " from " ++ table ++ " " ++ joins) [wheres]
      refine ⟨table, "", joins.text ++ rest, htable, rfl, ?_⟩
      rw [Sql.text_trimEnd, hrest]
      refine congrArg Text.trimEnd ?_
      apply String.toList_inj.1
      simp [RowChange.write, RowWrite.keyword]

/-- The target of a joined change, behind its verb, names the table in FROM exactly if that table
has one alias to be found. -/
theorem change_names_table_iff {c : RowChange} {tbl : Table} (hjoined : NamesTargetFirst t q c)
    (hsource : q.source = some tbl) (h : t.change q c = .ok sql) :
    ∃ table set rest, t.table tbl = .ok table ∧ t.setClause c = .ok set ∧
      sql.text = Text.trimEnd (c.write.keyword ++ " " ++ t.writeTop q ++
        Target.joinedTarget table ++ set ++ " from " ++ table.text ++ " " ++ rest) ∧
      (t.NamesTable tbl table.text (Target.joinedTarget table) ↔ t.TellsAlias tbl) := by
  obtain ⟨table, set, rest, htable, hset, htext⟩ := change_begins hjoined hsource h
  exact ⟨table, set, rest, htable, hset, htext, namesTable_iff htable⟩

/-- A table joined with posts. -/
def joinedPosts (tbl : Table) : Query :=
  { Query.empty with source := some tbl, joins := [⟨.inner, .named "posts", [], [], false⟩] }

/-- An update of a joined table whose alias is given in capitals behind a tab. -/
theorem tabbedUsers_named :
    ∃ sql table set rest,
      appServer.change (joinedPosts (.named "dbo.users\tAS u"))
        (.update ⟨[("u.open", .bool false)]⟩) = .ok sql ∧
      appServer.table (.named "dbo.users\tAS u") = .ok table ∧
      sql.text = Text.trimEnd ("update " ++ Target.joinedTarget table ++ set ++ " from " ++
        table.text ++ " " ++ rest) ∧
      appServer.NamesTable (.named "dbo.users\tAS u") table.text (Target.joinedTarget table) ∧
      Target.joinedTarget table = "[app_u]" ∧ table.text = "[dbo].[app_users] as [app_u]" := by
  have hjoined : NamesTargetFirst appServer (joinedPosts (.named "dbo.users\tAS u"))
      (.update ⟨[("u.open", .bool false)]⟩) := ⟨by simp [joinedPosts], rfl⟩
  have htext : (appServer.change (joinedPosts (.named "dbo.users\tAS u"))
      (.update ⟨[("u.open", .bool false)]⟩)).map Sql.text =
        .ok ("update [app_u] set [app_u].[open] = ? from [dbo].[app_users] as [app_u] " ++
          "inner join [app_posts]") := by decide +kernel
  cases hchange : appServer.change (joinedPosts (.named "dbo.users\tAS u"))
      (.update ⟨[("u.open", .bool false)]⟩) with
  | error f =>
    rw [hchange] at htext
    cases htext
  | ok sql =>
    obtain ⟨table, set, rest, htable, -, hsql, hnames⟩ :=
      change_names_table_iff hjoined rfl hchange
    have htells : appServer.TellsAlias (.named "dbo.users\tAS u") := by
      refine ⟨by decide, fun hreach => ?_⟩
      exact absurd hreach.opened (by decide)
    refine ⟨sql, table, set, rest, rfl, htable, hsql, hnames.2 htells, ?_⟩
    cases htable
    decide +kernel

/-- A raw table with the word in capitals has an alias for the rest of the statement, and none for
its target: the delete names all of the table where its alias should stand. And where there are two
separators, as in the alias of a derived table or from the table prefix, the target is what stands
behind the last one. -/
theorem capitalAlias_unnamed :
    NamesTargetFirst ⟨.mysql, {}⟩ (joinedPosts (.raw "users AS u" [])) .delete ∧
    ((Target.mk .mysql {}).delete (joinedPosts (.raw "users AS u" []))).map Sql.text =
      .ok "delete users AS u from users AS u inner join \x60posts\x60" ∧
    Target.tableAlias (.raw "users AS u" []) = "u" ∧
    Target.joinedTarget (.fragment "users AS u" []) = "users AS u" ∧
    ¬ (Target.mk .mysql {}).NamesTable (.raw "users AS u" []) "users AS u"
      (Target.joinedTarget (.fragment "users AS u" [])) ∧
    ((Target.mk .generic {}).table (.derived { Query.empty with source := some (.named "users") }
        "u as v")).map Target.joinedTarget = .ok "\"v\"" ∧
    Target.joinedTarget ((Target.mk .generic { tablePrefix := "x as " }).quoteTable "users") =
      "users\"" := by
  refine ⟨⟨by simp [joinedPosts], .inr (.inl rfl)⟩, by decide +kernel, by decide,
    by decide +kernel, ?_, ?_, ?_⟩
  · unfold Target.NamesTable
    decide +kernel
  all_goals decide +kernel

end SqlCompiler
