import Mathlib.Data.Bool.AllAny
import SqlCompiler.Proofs.AssignedPlaces
import SqlCompiler.Proofs.QualifiedColumns

/-!
# Function Arguments

In SQL Server a table can be a function with arguments, `dbo.fn_users(1)`. The function is quoted
like a table and its arguments follow the last bracket. But the name is cut at its dots and its
brackets are doubled before the arguments are told from it. So the arguments stay as they are
exactly if no dot and no closing bracket stands in them.

## Main definitions

- `call`: a function with arguments
- `Target.schemaChars`: the quoted segments in front of the last one

## Main statements

- `argumentsOutside_call`: where the arguments of a quoted name begin
- `toList_quotedSegments_call`: a call whose arguments have no dot, before they are told from it
- `length_lt_quotedSegments_call`: a dot in the arguments puts further brackets around them
- `quoteTable_call_iff`: when the arguments of a function are kept
-/

namespace SqlCompiler

variable {t : Target}

/-! ## §1 Calls -/

/-- A function with arguments. -/
def call (path arguments : String) : String :=
  path ++ "(" ++ arguments ++ ")"

theorem toList_call (path arguments : String) :
    (call path arguments).toList = path.toList ++ '(' :: arguments.toList ++ [')'] := by
  simp [call]

/-- A call has no alias if neither the function nor the arguments have one. -/
theorem splitAlias?_call {path arguments : String} (hpath : splitAlias? path = none)
    (harguments : splitAlias? arguments = none) : splitAlias? (call path arguments) = none := by
  rw [splitAlias?_eq_none_iff, splitAs?_eq_none_iff_not_infix] at *
  intro blanks a s b hword hin
  rw [toList_call, List.append_assoc, List.cons_append] at hin
  rcases Text.infix_append_cons (hword.not_mem (by decide) (by decide)) hin with hin | hin
  · exact hpath blanks a s b hword hin
  · rcases Text.infix_append_cons (hword.not_mem (by decide) (by decide)) hin with hin | hin
    · exact harguments blanks a s b hword hin
    · simp at hin

/-- A text goes on in the last of its segments. -/
theorem splitOn_dot_append {s last : String} {front : List String}
    (h : Text.splitOn "." s = front ++ [last]) (more : String) :
    Text.splitOn "." (s ++ more) = front ++ Text.splitOn "." (last ++ more) := by
  by_cases hdot : '.' ∈ s.toList
  · -- behind the last dot nothing is cut any more, so `more` belongs to the last piece
    obtain ⟨before, after, hs, hafter⟩ := exists_last_dot hdot
    have hjoined : s = String.ofList before ++ "." ++ String.ofList after := by
      apply String.toList_inj.1
      simp [hs]
    have hpiece : Text.splitOn "." (String.ofList after) = [String.ofList after] :=
      Text.splitOn_dot_eq_singleton (by rwa [String.toList_ofList])
    rw [hjoined, Text.splitOn_append_dot, hpiece] at h
    obtain ⟨rfl, hlast⟩ := List.append_inj' h rfl
    obtain rfl := List.singleton_inj.1 hlast
    rw [hjoined, String.append_assoc, Text.splitOn_append_dot]
  · rw [Text.splitOn_dot_eq_singleton hdot, ← List.nil_append [s]] at h
    obtain ⟨rfl, hlast⟩ := List.append_inj' h rfl
    obtain rfl := List.singleton_inj.1 hlast
    rfl

/-! ## §2 Arguments behind brackets -/

/-- The arguments of a quoted name begin at its first parenthesis. -/
theorem argumentsOutside_call {name arguments : List Char} (hne : name ≠ []) (hname : '(' ∉ name)
    (hline : '\n' ∉ name ++ '(' :: arguments ++ [')', ']']) :
    Target.argumentsOutside (name ++ '(' :: arguments ++ [')', ']']) =
      name ++ [']', '('] ++ arguments ++ [')'] := by
  obtain ⟨c, rest, rfl⟩ := List.exists_cons_of_ne_nil hne
  have hrest : '(' ∉ rest := fun hmem => hname (List.mem_cons_of_mem c hmem)
  have hreverse : (rest ++ '(' :: arguments ++ [')', ']']).reverse =
      ']' :: ')' :: (rest ++ '(' :: arguments).reverse := by simp
  -- the first parenthesis behind the first character is the one in front of the arguments
  have hsplit : Text.splitFirstChars? ['('] (rest ++ ['('] ++ arguments) = some (rest, arguments) :=
    Text.splitFirstChars?_append arguments (by decide)
      (by rwa [List.dropLast_singleton, List.append_nil, List.singleton_infix_iff])
  rw [List.append_assoc, List.singleton_append] at hsplit
  have hcontains : ((c :: rest ++ '(' :: arguments ++ [')', ']']).contains '\n') = false := by
    simpa [List.contains_iff_mem] using hline
  unfold Target.argumentsOutside
  simp only [List.cons_append] at hcontains ⊢
  rw [hcontains, if_neg Bool.false_ne_true, hreverse]
  simp only [List.reverse_reverse, hsplit]

/-- A line feed hides the arguments. -/
theorem argumentsOutside_of_mem_line {quoted : List Char} (h : '\n' ∈ quoted) :
    Target.argumentsOutside quoted = quoted := by
  unfold Target.argumentsOutside
  split
  · rfl
  · rw [if_pos (List.contains_iff_mem.2 h)]

/-- Arguments are moved, nothing is added or dropped. -/
theorem length_finishTable (t : Target) (quoted : String) :
    (t.finishTable quoted).toList.length = quoted.toList.length := by
  rcases finishTable_cases t quoted with hself | ⟨c, name, arguments, -, -, hquoted, hout⟩
  · rw [hself]
  · rw [hquoted, hout]
    simp

/-! ## §3 Quoted calls -/

/-- The quoted segments in front of the last one, each with a dot behind it. -/
def Target.schemaChars (t : Target) (front : List String) : List Char :=
  front.flatMap fun segment => (t.quoteIdentifier segment).toList ++ ['.']

/-- A table in its quotes is its last segment, with the table prefix, behind the others. -/
theorem toList_quotedSegments {table last : String} {front : List String}
    (h : Text.splitOn "." table = front ++ [last]) :
    (t.quotedSegments table).toList =
      t.schemaChars front ++ (t.quotePrefixed last).toList := by
  rw [quotedSegments_eq, tableNames_concat h, Text.join, String.toList_ofList, List.map_append,
    List.map_append, List.map_singleton, List.map_singleton, Text.joinChars_concat, List.map_map,
    List.flatMap_map]
  rfl

theorem mem_schemaChars {front : List String} {c : Char} (h : c ∈ t.schemaChars front) :
    c = '.' ∨ c = t.dialect.openQuote ∨ c = t.dialect.closeQuote ∨
      ∃ segment ∈ front, c ∈ segment.toList := by
  obtain ⟨segment, hsegment, hmem⟩ := List.mem_flatMap.1 h
  rcases List.mem_append.1 hmem with hmem | hmem
  · rcases mem_quoteIdentifier hmem with hmem | hmem | hmem
    · exact .inr (.inr (.inr ⟨segment, hsegment, hmem⟩))
    · exact .inr (.inl hmem)
    · exact .inr (.inr (.inl hmem))
  · exact .inl (List.mem_singleton.1 hmem)

/-- A name with a parenthesis is no star. -/
theorem ne_star_of_mem {name : String} {c : Char} (hc : c ≠ '*') (h : c ∈ name.toList) :
    name ≠ "*" := by
  rintro rfl
  exact hc (List.mem_singleton.1 h)

/-- A call whose arguments have no dot, in its quotes. -/
theorem toList_quotedSegments_call {path last arguments : String} {front : List String}
    (h : Text.splitOn "." path = front ++ [last]) (hdot : '.' ∉ arguments.toList) :
    (t.quotedSegments (call path arguments)).toList =
      t.schemaChars front ++ t.dialect.openQuote ::
        Text.doubleChars t.dialect.closeQuote
          (t.options.tablePrefix ++ call last arguments).toList ++ [t.dialect.closeQuote] := by
  have hlast : '.' ∉ last.toList := Text.dot_not_mem_segment (s := path) (by simp [h])
  have hcall : '.' ∉ (call last arguments).toList := by
    simp [toList_call, hlast, hdot]
  have hsplit : Text.splitOn "." (call path arguments) = front ++ [call last arguments] := by
    rw [← Text.splitOn_dot_eq_singleton hcall, call, call, String.append_assoc, String.append_assoc,
      String.append_assoc, String.append_assoc]
    exact splitOn_dot_append h _
  have hstar : t.options.tablePrefix ++ call last arguments ≠ "*" :=
    ne_star_of_mem (c := '(') (by decide) (by simp [toList_call])
  rw [toList_quotedSegments hsplit, Target.quotePrefixed, toList_quoteIdentifier t hstar]
  simp

/-! ## §4 Dots in arguments -/

/-- A quoted name is not shorter than the name. -/
theorem length_le_quoteIdentifier (t : Target) (name : String) :
    name.toList.length ≤ (t.quoteIdentifier name).toList.length := by
  by_cases hstar : name = "*"
  · simp [hstar, Target.quoteIdentifier]
  · have hle := length_le_doubleChars t.dialect.closeQuote name.toList
    rw [toList_quoteIdentifier t hstar]
    simp
    omega

theorem quoteIdentifier_length_le (t : Target) (name : String) :
    (t.quoteIdentifier name).toList.length ≤
      (Text.doubleChars t.dialect.closeQuote name.toList).length + 2 := by
  by_cases hstar : name = "*"
  · simp [hstar, Target.quoteIdentifier]
  · rw [toList_quoteIdentifier t hstar]
    simp

theorem length_le_schemaChars (t : Target) (front : List String) :
    (front.flatMap fun segment => segment.toList ++ ['.']).length ≤
      (t.schemaChars front).length := by
  induction front with
  | nil => exact le_rfl
  | cons segment front ih =>
    have hle := length_le_quoteIdentifier t segment
    simp only [Target.schemaChars, List.flatMap_cons, List.length_append] at ih ⊢
    omega

/-- A dot in the arguments cuts the name there, and both sides of it are quoted. -/
theorem length_lt_quotedSegments_call (t : Target) (path : String) {arguments : String}
    (hdot : '.' ∈ arguments.toList) :
    (t.quotedSegments path).toList.length + arguments.toList.length + 2 <
      (t.quotedSegments (call path arguments)).toList.length := by
  -- the dot ends a segment inside of the arguments, and both halves are quoted
  obtain ⟨before, after, harguments, hbefore⟩ := List.eq_append_cons_of_mem hdot
  obtain ⟨front, hpath⟩ := splitOn_dot path
  obtain ⟨middle, hafter⟩ := splitOn_dot (String.ofList after)
  generalize unqualified path = last at hpath
  generalize unqualified (String.ofList after) = final at hafter
  have hlast : '.' ∉ last.toList := Text.dot_not_mem_segment (s := path) (by simp [hpath])
  have hfinal : '.' ∉ final.toList :=
    Text.dot_not_mem_segment (s := String.ofList after) (by simp [hafter])
  have hopened : Text.splitOn "." (path ++ ("(" ++ String.ofList before)) =
      front ++ [last ++ ("(" ++ String.ofList before)] := by
    rw [splitOn_dot_append hpath, Text.splitOn_dot_eq_singleton]
    simpa [hlast] using hbefore
  have hclosed : Text.splitOn "." (String.ofList after ++ ")") = middle ++ [final ++ ")"] := by
    rw [splitOn_dot_append hafter, Text.splitOn_dot_eq_singleton]
    simpa using hfinal
  have hcall : call path arguments =
      (path ++ ("(" ++ String.ofList before)) ++ "." ++ (String.ofList after ++ ")") := by
    apply String.toList_inj.1
    simp [toList_call, harguments]
  have hsplit : Text.splitOn "." (call path arguments) =
      (front ++ [last ++ ("(" ++ String.ofList before)] ++ middle) ++ [final ++ ")"] := by
    rw [hcall, Text.splitOn_append_dot, hopened, hclosed, List.append_assoc _ middle]
  have hfirst : last ++ ("(" ++ String.ofList before) ≠ "*" :=
    ne_star_of_mem (c := '(') (by decide) (by simp)
  have hend : t.options.tablePrefix ++ (final ++ ")") ≠ "*" :=
    ne_star_of_mem (c := ')') (by decide) (by simp)
  -- each side is measured part by part: quoting only makes a part longer
  have hrest := congrArg List.length (toList_of_splitOn_dot hafter)
  have hmiddle := length_le_schemaChars t middle
  have hname := quoteIdentifier_length_le t (t.options.tablePrefix ++ last)
  have hbefore := length_le_doubleChars t.dialect.closeQuote before
  have hfinal := length_le_doubleChars t.dialect.closeQuote final.toList
  rw [toList_quotedSegments hsplit, toList_quotedSegments hpath, Target.quotePrefixed,
    Target.quotePrefixed, toList_quoteIdentifier t hend, harguments]
  simp only [Target.schemaChars, List.flatMap_append, List.flatMap_singleton,
    toList_quoteIdentifier t hfirst, String.toList_append, String.toList_ofList,
    Text.doubleChars_append, List.length_append, List.length_cons, List.length_nil] at *
  have hopen := length_le_doubleChars t.dialect.closeQuote "(".toList
  have hclose := length_le_doubleChars t.dialect.closeQuote ")".toList
  simp only [String.reduceToList, List.length_cons, List.length_nil] at *
  omega

/-! ## §5 Functions of SQL Server -/

/-- A function that SQL Server can tell from arguments: neither its path nor the table prefix has a
parenthesis, and the path is one line without alias. -/
structure Target.FunctionFits (t : Target) (path : String) : Prop where
  server : t.dialect = .sqlserver
  prefixParens : ∀ c ∈ t.options.tablePrefix.toList, c ≠ '(' ∧ c ≠ ')'
  parens : ∀ c ∈ path.toList, c ≠ '(' ∧ c ≠ ')' ∧ c ≠ '\n'
  noAlias : splitAlias? path = none

/-- A table without alias, before SQL Server looks for arguments in it. -/
theorem quoteTable_eq_finishTable {table : String} (halias : splitAlias? table = none) :
    t.quoteTable table = t.finishTable (t.quotedSegments table) := by
  rw [quoteTable_unaliased halias, quotedSegments_eq]

/-- A function without arguments is quoted like a table. -/
theorem quoteTable_path {path : String} (h : t.FunctionFits path) :
    t.quoteTable path = t.quotedSegments path := by
  have hbegins : t.TableFits t.options.tablePrefix := fun _ hmem => (h.prefixParens _ hmem).2 rfl
  have hfits : t.TableFits path := fun _ hmem => (h.parens _ hmem).2.1 rfl
  rw [quoteTable_plain hbegins h.noAlias hfits, quotedSegments_eq]

theorem quoteTable_call_eq {path arguments : String} (h : t.FunctionFits path)
    (halias : splitAlias? arguments = none) :
    (t.quoteTable (call path arguments)).toList =
      Target.argumentsOutside (t.quotedSegments (call path arguments)).toList := by
  rw [quoteTable_eq_finishTable (splitAlias?_call h.noAlias halias), Target.finishTable]
  simp only [h.server, String.toList_ofList]

/-- The quoted segments of a function have neither parentheses nor line feeds. -/
theorem not_mem_schemaChars {path last : String} {front : List String} (h : t.FunctionFits path)
    (hsplit : Text.splitOn "." path = front ++ [last]) {c : Char} (hc : c = '(' ∨ c = '\n') :
    c ∉ t.schemaChars front := by
  intro hmem
  rcases mem_schemaChars hmem with rfl | hmem | hmem | ⟨segment, hsegment, hmem⟩
  · simp at hc
  · rw [h.server] at hmem
    subst hmem
    exact absurd hc (by decide)
  · rw [h.server] at hmem
    subst hmem
    exact absurd hc (by decide)
  · have hsegment : segment ∈ Text.splitOn "." path := by simp [hsplit, hsegment]
    have hfits := h.parens c (Text.mem_of_mem_splitOn (by decide) hsegment hmem)
    rcases hc with rfl | rfl
    · exact hfits.1 rfl
    · exact hfits.2.2 rfl

/-- Arguments without dots follow the last bracket, with their brackets doubled. -/
theorem toList_quoteTable_call {path last arguments : String} {front : List String}
    (h : t.FunctionFits path) (hsplit : Text.splitOn "." path = front ++ [last])
    (halias : splitAlias? arguments = none) (hbreak : '\n' ∉ t.options.tablePrefix.toList)
    (hline : '\n' ∉ arguments.toList) (hdot : '.' ∉ arguments.toList) :
    (t.quoteTable (call path arguments)).toList =
      t.schemaChars front ++ '[' ::
        Text.doubleChars ']' (t.options.tablePrefix ++ last).toList ++ [']', '('] ++
          Text.doubleChars ']' arguments.toList ++ [')'] := by
  have hopen : t.dialect.openQuote = '[' := by rw [h.server]; rfl
  have hclose : t.dialect.closeQuote = ']' := by rw [h.server]; rfl
  have hlast : ∀ c ∈ last.toList, c ≠ '(' ∧ c ≠ '\n' := by
    intro c hc
    have hmem : last ∈ Text.splitOn "." path := by simp [hsplit]
    have hfits := h.parens c (Text.mem_of_mem_splitOn (by decide) hmem hc)
    exact ⟨hfits.1, hfits.2.2⟩
  have hquoted : (t.quotedSegments (call path arguments)).toList =
      (t.schemaChars front ++ '[' ::
        Text.doubleChars ']' (t.options.tablePrefix ++ last).toList) ++
          '(' :: Text.doubleChars ']' arguments.toList ++ [')', ']'] := by
    rw [toList_quotedSegments_call hsplit hdot, hopen, hclose, String.toList_append, toList_call]
    simp [Text.doubleChars_append, Text.doubleChars_cons]
    rfl
  rw [quoteTable_call_eq h halias, hquoted, argumentsOutside_call (by simp)]
  · simp only [List.mem_append, List.mem_cons, Text.mem_doubleChars, String.toList_append, not_or]
    -- no parenthesis before the one that opens the arguments
    refine ⟨not_mem_schemaChars h hsplit (.inl rfl), by decide, fun hmem => ?_, fun hmem => ?_⟩
    · exact (h.prefixParens _ hmem).1 rfl
    · exact (hlast _ hmem).1 rfl
  · simp only [List.mem_append, List.mem_cons, Text.mem_doubleChars, String.toList_append, not_or,
      List.not_mem_nil, not_false_eq_true, and_true]
    -- no line break, which would leave the arguments where they are
    have hschema := not_mem_schemaChars h hsplit (.inr rfl)
    exact ⟨⟨⟨hschema, by decide, hbreak, fun hmem => (hlast _ hmem).2 rfl⟩, by decide, hline⟩,
      by decide, by decide⟩

/-- A line feed in the table prefix stands in the last segment of any table. -/
theorem quotedSegments_of_mem_line (table : String) (h : '\n' ∈ t.options.tablePrefix.toList) :
    ∃ quoted, (t.quotedSegments table).toList = quoted ++ [t.dialect.closeQuote] ∧
      '\n' ∈ (t.quotedSegments table).toList := by
  obtain ⟨front, hsplit⟩ := splitOn_dot table
  have hmem : '\n' ∈ (t.options.tablePrefix ++ unqualified table).toList := by simp [h]
  have hstar := ne_star_of_mem (by decide) hmem
  rw [toList_quotedSegments hsplit, Target.quotePrefixed, toList_quoteIdentifier t hstar]
  refine ⟨t.schemaChars front ++ t.dialect.openQuote ::
    Text.doubleChars t.dialect.closeQuote (t.options.tablePrefix ++ unqualified table).toList,
    by simp, ?_⟩
  simp only [List.mem_append, List.mem_cons, Text.mem_doubleChars, hmem, or_true, true_or]

/-- The arguments of a function are kept behind its quoted name exactly if no dot and no closing
bracket stands in them. The name is quoted also if it is a star, which is none without arguments;
and a line feed in the table prefix hides the arguments. -/
theorem quoteTable_call_iff (t : Target) {path arguments : String} (h : t.FunctionFits path)
    (halias : splitAlias? arguments = none) (hline : '\n' ∉ arguments.toList) :
    t.quoteTable (call path arguments) = t.quoteTable path ++ "(" ++ arguments ++ ")" ↔
      '.' ∉ arguments.toList ∧ ']' ∉ arguments.toList ∧
        t.options.tablePrefix ++ unqualified path ≠ "*" ∧ '\n' ∉ t.options.tablePrefix.toList := by
  obtain ⟨front, hsplit⟩ := splitOn_dot path
  have hclose : t.dialect.closeQuote = ']' := by rw [h.server]; rfl
  have hchars : t.quoteTable (call path arguments) = t.quoteTable path ++ "(" ++ arguments ++ ")" ↔
      (t.quoteTable (call path arguments)).toList = t.schemaChars front ++
        (t.quotePrefixed (unqualified path)).toList ++ '(' :: arguments.toList ++ [')'] := by
    rw [← String.toList_inj, quoteTable_path h]
    simp [toList_quotedSegments hsplit]
  rw [hchars]
  by_cases hprefix : '\n' ∈ t.options.tablePrefix.toList
  · -- the text ends in the bracket of the last segment
    refine iff_of_false (fun heq => ?_) fun hkept => hkept.2.2.2 hprefix
    obtain ⟨quoted, hend, hmem⟩ := quotedSegments_of_mem_line (call path arguments) hprefix
    rw [quoteTable_call_eq h halias, argumentsOutside_of_mem_line hmem, hend, hclose] at heq
    exact absurd (List.append_inj' heq rfl).2 (by decide)
  · by_cases hdot : '.' ∈ arguments.toList
    · refine iff_of_false (fun heq => ?_) fun hkept => hkept.1 hdot
      have hlonger := length_lt_quotedSegments_call t path hdot
      have hlength := congrArg List.length heq
      rw [quoteTable_eq_finishTable (splitAlias?_call h.noAlias halias), length_finishTable,
        ← toList_quotedSegments hsplit] at hlength
      simp only [List.length_append, List.length_cons, List.length_nil] at hlength
      omega
    · rw [toList_quoteTable_call h hsplit halias hprefix hline hdot]
      by_cases hstar : t.options.tablePrefix ++ unqualified path = "*"
      · refine iff_of_false (fun heq => ?_) fun hkept => hkept.2.2.1 hstar
        simp [Target.quotePrefixed, Target.quoteIdentifier, hstar] at heq
      · have hopen : t.dialect.openQuote = '[' := by rw [h.server]; rfl
        rw [Target.quotePrefixed, toList_quoteIdentifier t hstar, hopen, hclose]
        simp [hdot, hstar, hprefix, doubleChars_eq_self_iff]

/-- SQL Server with a table prefix. -/
def appServer : Target :=
  ⟨.sqlserver, { tablePrefix := "app_" }⟩

theorem nestedCall_kept :
    appServer.FunctionFits "reports.odd]name" ∧
    splitAlias? "lower('x), (1')" = none ∧ '\n' ∉ "lower('x), (1')".toList ∧
    appServer.quoteTable (call "reports.odd]name" "lower('x), (1')") =
      appServer.quoteTable "reports.odd]name" ++ "(" ++ "lower('x), (1')" ++ ")" ∧
    appServer.quoteTable "reports.odd]name" = "[reports].[app_odd]]name]" := by
  have hfits : appServer.FunctionFits "reports.odd]name" :=
    ⟨by decide, List.all_iff_forall_prop.1 (by decide), List.all_iff_forall_prop.1 (by decide),
      by decide⟩
  have halias : splitAlias? "lower('x), (1')" = none := by decide
  have hline : '\n' ∉ "lower('x), (1')".toList := by decide
  exact ⟨hfits, halias, hline, (quoteTable_call_iff _ hfits halias hline).2 (by decide +kernel),
    by decide +kernel⟩

/-- A dot in an argument is taken for one between segments: the argument is put into brackets, and
the table prefix stands in it. A bracket in an argument is doubled. -/
theorem decimalArgument_quoted :
    appServer.quoteTable (call "dbo.fn_users" "1.5") = "[dbo].[fn_users](1].[app_5)" ∧
    appServer.quoteTable "dbo.fn_users" ++ "(" ++ "1.5" ++ ")" =
      "[dbo].[app_fn_users](1.5)" ∧
    (Target.mk .sqlserver {}).quoteTable (call "dbo.fn_users" "1.5") =
      "[dbo].[fn_users](1].[5)" ∧
    (Target.mk .sqlserver {}).quoteTable "dbo.fn_users" ++ "(" ++ "1.5" ++ ")" ≠
      (Target.mk .sqlserver {}).quoteTable (call "dbo.fn_users" "1.5") ∧
    (Target.mk .sqlserver {}).quoteTable (call "fn" "[a]") = "[fn]([a]])" ∧
    ((Target.mk .sqlserver {}).select
        { Query.empty with source := some (.named "dbo.fn_users(1.5)") }).map Sql.text =
      .ok "select * from [dbo].[fn_users](1].[5)" := by
  decide +kernel

end SqlCompiler
