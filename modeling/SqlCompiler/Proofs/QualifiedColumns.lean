import SqlCompiler.Compile
import SqlCompiler.Proofs.QuotedNames

/-!
# Qualified Columns

A column is qualified by writing its table and a dot in front of it. The table prefix then stands in
front of the first segment, while a table by itself has it in front of its last one. So the
qualified column names the table exactly if there is no table prefix or the table has no schema.

The identifiers of the rows of an update or delete, and the columns that a merge compares, are
qualified in this way. With a table prefix, those of a table with a schema name another table.

## Main statements

- `splitAlias?_qualified`, `isSelector_qualified`: a qualified column has no alias and no path
- `finishTable_cases`: what SQL Server makes of a table name
- `qualifier_eq_iff`: when the qualifier of a column is its table
- `qualified_column_iff`: when a qualified column names its table
-/

namespace SqlCompiler

variable {t : Target}

/-! ## §1 Names that are put together -/

/-- A text has no alias if the word occurs nowhere in it. -/
theorem splitAs?_eq_none_iff_not_infix {cs : List Char} :
    splitAs? cs = none ↔
      ∀ blanks a s b, IsAsWord blanks a s b → ¬ blanks ++ [a, s, b] <:+: cs := by
  rw [splitAs?_eq_none_iff]
  constructor
  · rintro h blanks a s b hword ⟨before, after, rfl⟩
    have hnone := h (blanks ++ [a, s, b] ++ after) ⟨before, by simp⟩
    rw [afterAs?_eq_some_iff.2 ⟨blanks, a, s, b, after, hword, rfl, rfl⟩] at hnone
    cases hnone
  · intro h tail htail
    cases hafter : afterAs? tail with
    | none => rfl
    | some rest =>
      obtain ⟨blanks, a, s, b, more, hword, rfl, -⟩ := afterAs?_eq_some_iff.1 hafter
      exact absurd ((List.prefix_append _ more).isInfix.trans htail.isInfix) (h blanks a s b hword)

theorem splitAlias?_qualified {table column : String} (h : splitAlias? table = none)
    (h' : splitAlias? column = none) : splitAlias? (table ++ "." ++ column) = none := by
  rw [splitAlias?_eq_none_iff, splitAs?_eq_none_iff_not_infix] at *
  intro blanks a s b hword hin
  have hchars : (table ++ "." ++ column).toList = table.toList ++ '.' :: column.toList := by simp
  rw [hchars] at hin
  -- the word has no dot and stands on one side of it
  rcases Text.infix_append_cons (hword.not_mem (by decide) (by decide)) hin with hin | hin
  · exact h blanks a s b hword hin
  · exact h' blanks a s b hword hin

theorem isSelector_qualified {table column : String} (h : isSelector table = false)
    (h' : isSelector column = false) : isSelector (table ++ "." ++ column) = false := by
  rw [← Bool.not_eq_true, isSelector_iff] at *
  have hchars : (table ++ "." ++ column).toList = table.toList ++ '.' :: column.toList := by simp
  rw [hchars]
  intro hin
  rcases Text.infix_append_cons (by decide) hin with hin | hin
  · exact h hin
  · exact h' hin

/-- A column behind a table is quoted behind the segments of the table. -/
theorem quoteSegments_qualified {table column first : String} {rest : List String}
    (hsplit : Text.splitOn "." table = first :: rest) (hdot : '.' ∉ column.toList) :
    t.quoteSegments (table ++ "." ++ column) =
      Text.join "." (t.quoteTable first :: rest.map t.quoteIdentifier) ++ "." ++
        t.quoteIdentifier column := by
  have hpieces : Text.splitOn "." (table ++ "." ++ column) = first :: (rest ++ [column]) := by
    rw [Text.splitOn_append_dot, hsplit, Text.splitOn_dot_eq_singleton hdot, List.cons_append]
  have hquoted : t.quoteSegments (table ++ "." ++ column) =
      Text.join "." (t.quoteTable first :: (rest ++ [column]).map t.quoteIdentifier) := by
    unfold Target.quoteSegments
    rw [hpieces]
    cases rest <;> rfl
  rw [hquoted, List.map_append, List.map_singleton, ← List.cons_append]
  exact Text.join_concat "." _ (List.cons_ne_nil _ _)

/-! ## §2 Arguments of table-valued functions -/

/-- SQL Server either leaves a quoted table as it is, or moves its last bracket in front of its
first parenthesis. -/
theorem argumentsOutside_cases (quoted : List Char) :
    Target.argumentsOutside quoted = quoted ∨
      ∃ c name arguments, '(' ∉ name ∧
        quoted = c :: name ++ '(' :: arguments ++ [')', ']'] ∧
        Target.argumentsOutside quoted = c :: name ++ [']', '('] ++ arguments ++ [')'] := by
  unfold Target.argumentsOutside
  split
  · exact .inl rfl
  · rename_i c cs
    split
    · exact .inl rfl
    · split
      · rename_i inside hreverse
        split
        · rename_i name arguments hsplit
          refine .inr ⟨c, name, arguments, ?_, ?_, rfl⟩
          · exact Text.not_mem_of_splitFirstChars? hsplit
          · have hinside := Text.splitFirstChars?_eq_append hsplit
            have hcs : cs = inside.reverse ++ [')', ']'] := by
              rw [← List.reverse_reverse cs, hreverse]
              simp
            rw [hcs, hinside]
            simp
        · exact .inl rfl
      · exact .inl rfl

theorem finishTable_cases (t : Target) (quoted : String) :
    t.finishTable quoted = quoted ∨
      ∃ c name arguments, t.dialect = .sqlserver ∧ '(' ∉ name ∧
        quoted.toList = c :: name ++ '(' :: arguments ++ [')', ']'] ∧
        (t.finishTable quoted).toList = c :: name ++ [']', '('] ++ arguments ++ [')'] := by
  unfold Target.finishTable
  split
  · rename_i hserver
    rcases argumentsOutside_cases quoted.toList with hself | ⟨c, name, arguments, h, hcs, hout⟩
    · exact .inl (by rw [hself, String.ofList_toList])
    · exact .inr ⟨c, name, arguments, hserver, h, hcs, by rw [String.toList_ofList, hout]⟩
  · exact .inl rfl

/-! ## §3 Qualifiers -/

theorem toList_quoteIdentifier (t : Target) {name : String} (h : name ≠ "*") :
    (t.quoteIdentifier name).toList =
      t.dialect.openQuote :: Text.doubleChars t.dialect.closeQuote name.toList ++
        [t.dialect.closeQuote] := by
  simp [Target.quoteIdentifier, h, Text.double]

/-- A name of SQL Server stands in brackets. -/
theorem toList_quoteIdentifier_brackets (hserver : t.dialect = .sqlserver) {name : String}
    (h : name ≠ "*") :
    (t.quoteIdentifier name).toList = '[' :: Text.doubleChars ']' name.toList ++ [']'] := by
  rw [toList_quoteIdentifier t h, hserver]
  rfl

theorem quoteIdentifier_ne_nil (t : Target) (name : String) :
    (t.quoteIdentifier name).toList ≠ [] := by
  by_cases hstar : name = "*"
  · simp [hstar, Target.quoteIdentifier]
  · simp [toList_quoteIdentifier t hstar]

/-- A bracket in front of a parenthesis does not end an empty name in front of a dot: in the name
all brackets are doubled. -/
theorem bracket_ne_dot {cs name rest more after : List Char}
    (h : Text.doubleChars ']' cs = name ++ '(' :: rest) :
    name ++ ']' :: '(' :: more ≠ ']' :: '.' :: after := by
  intro heq
  cases name with
  | nil => simp at heq
  | cons c name =>
    obtain ⟨rfl, htail⟩ := List.cons.inj heq
    cases cs with
    | nil => cases h
    | cons x cs =>
      rw [Text.doubleChars_cons] at h
      split at h
      · -- the second bracket of the pair would have to be the dot
        cases name <;> simp_all
      · exact absurd (List.cons.inj h).1 ‹_›

theorem getLast?_doubleChars (mark : Char) (cs : List Char) :
    (Text.doubleChars mark cs).getLast? = cs.getLast? := by
  rcases List.eq_nil_or_concat cs with rfl | ⟨init, last, rfl⟩
  · rfl
  · rw [List.concat_eq_append, Text.doubleChars, List.flatMap_append, List.flatMap_singleton]
    split <;> simp

/-- If arguments are moved out of the first segment of a table, they end the table prefix, and the
segment itself is empty. -/
theorem eq_empty_of_arguments {first : String} (hserver : t.dialect = .sqlserver)
    (hfits : ')' ∉ first.toList) {c : Char} {name arguments : List Char}
    (h : (t.quotePrefixed first).toList = c :: name ++ '(' :: arguments ++ [')', ']']) :
    first = "" ∧ c = '[' ∧
      Text.doubleChars ']' t.options.tablePrefix.toList = name ++ '(' :: arguments ++ [')'] := by
  have hstar : t.options.tablePrefix ++ first ≠ "*" := by
    intro hstar
    simp [Target.quotePrefixed, Target.quoteIdentifier, hstar] at h
  rw [Target.quotePrefixed, toList_quoteIdentifier_brackets hserver hstar] at h
  obtain ⟨rfl, hrest⟩ := List.cons.inj h
  have hdouble : Text.doubleChars ']' (t.options.tablePrefix ++ first).toList =
      name ++ '(' :: arguments ++ [')'] := by
    have hend : Text.doubleChars ']' (t.options.tablePrefix ++ first).toList ++ [']'] =
        name ++ '(' :: arguments ++ [')'] ++ [']'] := by simpa using hrest
    exact List.append_cancel_right hend
  -- otherwise the text would end in the last character of `first`
  have hempty : first.toList = [] := by
    by_contra hne
    have hlast := getLast?_doubleChars ']' (t.options.tablePrefix ++ first).toList
    rw [hdouble, List.getLast?_concat, String.toList_append,
      List.getLast?_append_of_ne_nil _ hne] at hlast
    exact hfits (List.mem_of_getLast? hlast.symm)
  have hfirst : first = "" := String.toList_eq_nil_iff.1 hempty
  rw [hfirst, String.append_empty] at hdouble
  exact ⟨hfirst, rfl, hdouble⟩

/-- A qualifier whose arguments are moved out is not the table without arguments. -/
theorem arguments_ne_joined {first : String} {names others : List String}
    (hserver : t.dialect = .sqlserver) (hfits : ')' ∉ first.toList) (hnames : names ≠ [])
    {c : Char} {name arguments : List Char}
    (hquoted : (t.quotePrefixed first).toList = c :: name ++ '(' :: arguments ++ [')', ']'])
    (hout : (t.finishTable (t.quotePrefixed first)).toList =
      c :: name ++ [']', '('] ++ arguments ++ [')']) :
    Text.join "." (t.finishTable (t.quotePrefixed first) :: others) ≠
      Text.join "." ((first :: names).map t.quoteIdentifier) := by
  obtain ⟨rfl, rfl, hdouble⟩ := eq_empty_of_arguments hserver hfits hquoted
  obtain ⟨next, rest, rfl⟩ := List.exists_cons_of_ne_nil hnames
  have hempty : (t.quoteIdentifier "").toList = ['[', ']'] := by
    rw [toList_quoteIdentifier_brackets hserver (by decide)]
    rfl
  intro heq
  -- behind the first bracket one text goes on with a dot and the other with a parenthesis
  have hchars := congrArg String.toList heq
  simp only [Text.join, String.toList_ofList, List.map_cons, Text.joinChars_eq_flatMap, hout,
    hempty, List.flatMap_cons, List.cons_append, List.nil_append, List.append_assoc] at hchars
  rw [List.append_assoc, List.cons_append] at hdouble
  exact bracket_ne_dot hdouble (List.cons.inj hchars).2

/-- A quoted segment does not end in the parenthesis of arguments. -/
theorem joined_ne_arguments {pieces : List String} {last s : String} {cs : List Char}
    (hfits : ')' ∉ last.toList) (hs : s.toList = cs ++ [')']) :
    Text.join "." (pieces ++ [t.quoteIdentifier last]) ≠ s := by
  rintro rfl
  have hend := congrArg List.getLast? hs
  rw [Text.join, String.toList_ofList, List.map_append, List.map_cons, List.map_nil,
    Text.joinChars_concat, List.getLast?_append_of_ne_nil _ (quoteIdentifier_ne_nil t last),
    List.getLast?_concat] at hend
  exact noParen_quoteIdentifier hfits (List.mem_of_getLast? hend)

/-- With the table prefix on the first segment and on the last one, the texts are the same only if
there is no prefix. -/
theorem noPrefix_of_qualifier_eq {first last : String} {middle : List String}
    (hfirst : t.TableFits first) (hlast : t.TableFits last)
    (h : Text.join "." (t.finishTable (t.quotePrefixed first) ::
        (middle ++ [last]).map t.quoteIdentifier) =
      t.finishTable (Text.join "." ((first :: (middle ++ [t.options.tablePrefix ++ last])).map
        t.quoteIdentifier))) : t.options.tablePrefix = "" := by
  rcases finishTable_cases t (Text.join "." ((first :: (middle ++
      [t.options.tablePrefix ++ last])).map t.quoteIdentifier)) with
    htable | ⟨c, name, arguments, hserver, -, -, hout⟩
  · rw [htable] at h
    rcases finishTable_cases t (t.quotePrefixed first) with
      hself | ⟨c, name, arguments, hserver, -, hquoted, hout⟩
    · rw [hself] at h
      -- both are names with dots between them, from which the names can be read back
      have hsame : (t.options.tablePrefix ++ first) :: (middle ++ [last]) =
          first :: (middle ++ [t.options.tablePrefix ++ last]) :=
        joined_injective (List.cons_ne_nil _ _) (List.cons_ne_nil _ _) h
      have hlength := congrArg String.length (List.cons.inj hsame).1
      rw [String.length_append] at hlength
      exact String.length_eq_zero_iff.1 (by omega)
    · exact absurd h (arguments_ne_joined hserver (hfirst hserver) (by simp) hquoted hout)
  · rw [List.map_append, ← List.cons_append] at h
    exact absurd h (joined_ne_arguments (hlast hserver) hout)

/-- The segments of a table, the first one quoted as a table by itself, are the table exactly if
there is no table prefix or no schema. -/
theorem qualifier_eq_iff {table first : String} {rest : List String}
    (halias : splitAlias? table = none) (hfits : t.TableFits table)
    (hsplit : Text.splitOn "." table = first :: rest) :
    Text.join "." (t.quoteTable first :: rest.map t.quoteIdentifier) = t.quoteTable table ↔
      t.options.tablePrefix = "" ∨ rest = [] := by
  have hinfix : ∀ segment ∈ first :: rest, segment.toList <:+: table.toList := fun segment hmem =>
    Text.infix_of_mem_splitOn (by decide) (hsplit ▸ hmem)
  have hfirst := hinfix first List.mem_cons_self
  have halias' := splitAlias?_of_isInfix halias hfirst
  have hmem : first ∈ Text.splitOn "." table := hsplit ▸ List.mem_cons_self
  have hdot := Text.dot_not_mem_segment hmem
  rcases List.eq_nil_or_concat rest with rfl | ⟨middle, last, rfl⟩
  · -- a table without schema is its own qualifier
    have hself := Text.join_splitOn "." table (by decide)
    rw [hsplit, Text.join_singleton] at hself
    rw [hself, List.map_nil, Text.join_singleton]
    exact iff_of_true rfl (.inr rfl)
  rw [List.concat_eq_append] at hsplit hinfix ⊢
  have hlast := hinfix last (by simp)
  have hnames : t.tableNames table = first :: (middle ++ [t.options.tablePrefix ++ last]) := by
    rw [tableNames_concat (by rw [hsplit, List.cons_append]), List.cons_append]
  constructor
  · intro heq
    have hpiece : Text.splitOn "." first = [] ++ [first] := Text.splitOn_dot_eq_singleton hdot
    rw [quoteTable_unaliased halias, hnames, quoteTable_unaliased halias',
      tableNames_concat hpiece, List.nil_append, List.map_singleton, Text.join_singleton] at heq
    exact .inl (noPrefix_of_qualifier_eq (hfits.mono hfirst) (hfits.mono hlast) heq)
  · rintro (hbare | hempty)
    · have hbegins : t.TableFits t.options.tablePrefix := by
        rw [hbare]
        exact fun _ => List.not_mem_nil
      rw [quoteTable_plain hbegins halias hfits, hnames,
        quoteTable_single hbegins (hfits.mono hfirst) halias' hdot, hbare]
      simp
    · simp at hempty

/-- A qualified column names its table exactly if there is no table prefix or the table has no
schema. -/
theorem qualified_column_iff (t : Target) {table column : String} (htable : t.PlainName table)
    (halias : splitAlias? column = none) (hpath : isSelector column = false)
    (hdot : '.' ∉ column.toList) :
    t.quote (table ++ "." ++ column) =
        .ok (t.quoteTable table ++ "." ++ t.quoteIdentifier column) ↔
      t.options.tablePrefix = "" ∨ '.' ∉ table.toList := by
  obtain ⟨rest, hsplit, hrest⟩ := Text.splitOn_eq_cons "." table (by decide)
  have hschema : rest = [] ↔ '.' ∉ table.toList := by
    rw [hrest, ← Option.not_isSome_iff_eq_none, Text.splitFirst?_isSome_iff,
      show ".".toList = ['.'] from rfl, List.singleton_infix_iff]
  rw [quote_column (splitAlias?_qualified htable.noAlias halias)
      (isSelector_qualified htable.noPath hpath),
    quoteSegments_qualified hsplit hdot, Except.ok.injEq, ← hschema,
    ← qualifier_eq_iff htable.noAlias htable.fits hsplit]
  constructor
  · intro heq
    apply String.toList_inj.1
    have hchars := congrArg String.toList heq
    simp only [String.toList_append, List.append_assoc] at hchars
    exact List.append_cancel_right hchars
  · intro heq
    rw [heq]

theorem archivedLogs_qualified :
    (Target.mk .sqlserver {}).quote ("dbo.old logs" ++ "." ++ "at(utc)") =
      .ok ((Target.mk .sqlserver {}).quoteTable "dbo.old logs" ++ "." ++
        (Target.mk .sqlserver {}).quoteIdentifier "at(utc)") ∧
    prefixingPostgres.quote ("logs" ++ "." ++ "ctid") =
      .ok (prefixingPostgres.quoteTable "logs" ++ "." ++
        prefixingPostgres.quoteIdentifier "ctid") := by
  refine ⟨?_, ?_⟩
  · have htable : (Target.mk .sqlserver {}).PlainName "dbo.old logs" :=
      ⟨by decide, by decide, fun _ => by decide⟩
    exact (qualified_column_iff _ htable (by decide) (by decide) (by decide)).2 (.inl rfl)
  · have htable : prefixingPostgres.PlainName "logs" := ⟨by decide, by decide, fun _ => by decide⟩
    exact (qualified_column_iff _ htable (by decide) (by decide) (by decide)).2 (.inr (by decide))

/-- With a table prefix, a column that is qualified with a table in a schema names another table:
the prefix moves to the schema. The identifiers of the rows of a delete are selected from a table
that stands nowhere in the statement. -/
theorem schemaLogs_misnamed :
    prefixingPostgres.quote ("public.logs" ++ "." ++ "ctid") ≠
      .ok (prefixingPostgres.quoteTable "public.logs" ++ "." ++
        prefixingPostgres.quoteIdentifier "ctid") ∧
    prefixingPostgres.quoteTable "public.logs" = "\"public\".\"shop_logs\"" ∧
    prefixingPostgres.quote "public.logs.ctid" = .ok "\"shop_public\".\"logs\".\"ctid\"" ∧
    (prefixingPostgres.delete
        { Query.empty with source := some (.named "public.logs"), limit := some 5 }).map Sql.text =
      .ok ("delete from \"public\".\"shop_logs\" where \"ctid\" in " ++
        "(select \"shop_public\".\"logs\".\"ctid\" from \"public\".\"shop_logs\" limit 5)") := by
  decide +kernel

end SqlCompiler
