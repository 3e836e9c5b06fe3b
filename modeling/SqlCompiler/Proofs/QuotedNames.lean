import SqlCompiler.Proofs.SelectorRenderings

/-!
# Quoted Names

Names of columns and tables are cut at their dots, and every segment is quoted by itself. A reader
of the dialect finds the same segments again, whatever they are made of: quotes, blanks, stars, or
nothing at all. The table prefix stands in front of the first segment of a qualified column, and in
front of the last segment of a table.

So two columns that are written alike are the same column, and two tables the same table.

## Main definitions

- `WrittenName`, `dottedNames?`: a name as it stands in SQL, and the names that tokens consist of
- `Target.tableNames`: the segments of a table, the last one with the table prefix
- `Target.PlainName`: a name that is nothing but its segments

## Main statements

- `names?_joined`: quoted segments between dots are read again
- `joined_injective`: they are written alike only if they are the same
- `quoted_names_roundtrip`: columns and tables are read again as their segments
-/

namespace SqlCompiler

/-! ## §1 Cutting at a character -/

namespace Text

theorem consHead_append (c : Char) {pieces : List (List Char)} (h : pieces ≠ [])
    (more : List (List Char)) : consHead c (pieces ++ more) = consHead c pieces ++ more := by
  obtain ⟨piece, rest, rfl⟩ := List.exists_cons_of_ne_nil h
  rfl

/-- The pieces in front of a separator and those behind it are found apart from each other. -/
theorem splitOnChars_append_cons (sep : Char) (cs ds : List Char) :
    splitOnChars [sep] (cs ++ sep :: ds) = splitOnChars [sep] cs ++ splitOnChars [sep] ds := by
  -- a separator of one character is found without looking ahead
  have hstep : ∀ c cs, splitOnChars [sep] (c :: cs) =
      if c = sep then [] :: splitOnChars [sep] cs else consHead c (splitOnChars [sep] cs) := by
    intro c cs
    have hfirst : [sep].isPrefixOf (c :: cs) = (sep == c) := by simp [List.isPrefixOf]
    show splitFrom [sep] 0 (c :: cs) = _
    rw [splitFrom, hfirst]
    by_cases hc : c = sep
    · rw [if_pos hc, if_pos (beq_iff_eq.2 hc.symm)]
      rfl
    · rw [if_neg hc, if_neg (mt beq_iff_eq.1 (Ne.symm hc))]
      rfl
  induction cs with
  | nil =>
    rw [List.nil_append, hstep, if_pos rfl]
    rfl
  | cons c cs ih =>
    rw [List.cons_append, hstep, hstep, ih]
    split
    · rfl
    · rw [consHead_append c (splitOnChars_ne_nil _ _)]

theorem splitOn_append_dot (r s : String) :
    splitOn "." (r ++ "." ++ s) = splitOn "." r ++ splitOn "." s := by
  have hchars : (r ++ "." ++ s).toList = r.toList ++ '.' :: s.toList := by simp
  rw [splitOn, hchars, show ".".toList = ['.'] from rfl, splitOnChars_append_cons, List.map_append]
  rfl

theorem join_singleton (sep s : String) : join sep [s] = s := by
  simp [join, joinChars]

/-- A last piece, joined to others. -/
theorem join_concat (sep last : String) {pieces : List String} (h : pieces ≠ []) :
    join sep (pieces ++ [last]) = join sep pieces ++ sep ++ last := by
  obtain ⟨first, rest, rfl⟩ := List.exists_cons_of_ne_nil h
  apply String.toList_inj.1
  simp [join, joinChars_eq_flatMap]

end Text

variable {t : Target} {d : Dialect}

/-! ## §2 Reading names -/

/-- A name as it stands in SQL. -/
inductive WrittenName where
  /-- Between quotes, as it is meant: what is doubled in the SQL stands here once. -/
  | quoted (text : String)
  /-- The only name that is written without quotes. -/
  | star
deriving DecidableEq, Repr

/-- What a written name is read as. -/
def WrittenName.text : WrittenName → String
  | .quoted text => text
  | .star => "*"

/-- How a name is written. -/
def WrittenName.of (name : String) : WrittenName :=
  if name = "*" then .star else .quoted name

@[simp] theorem WrittenName.text_of (name : String) : (WrittenName.of name).text = name := by
  unfold WrittenName.of
  split
  · exact (‹name = "*"›).symm
  · rfl

/-- The names of tokens that are names with single dots between them, and nothing else. -/
def dottedNames? : List Lexeme → Option (List WrittenName)
  | [.quoted .identifier text] => some [.quoted (String.ofList text)]
  | .quoted .identifier text :: .sign '.' :: rest =>
    (dottedNames? rest).map (.quoted (String.ofList text) :: ·)
  | [.sign '*'] => some [.star]
  | .sign '*' :: .sign '.' :: rest => (dottedNames? rest).map (.star :: ·)
  | _ => none

/-- The names that a text of a dialect consists of. -/
def Dialect.names? (d : Dialect) (sql : String) : Option (List WrittenName) :=
  (d.lex sql).bind dottedNames?

example : Dialect.sqlserver.names? "[a]].b].*.[]" = some [.quoted "a].b", .star, .quoted ""] := by
  decide

example : Dialect.mysql.names? "\x60a\x60\x60b\x60 c" = none := by decide

/-- The tokens of names with dots between them. -/
def dottedTokens : List String → List Lexeme
  | [] => []
  | first :: rest =>
    identifierTokens first ++ rest.flatMap fun name => signs "." ++ identifierTokens name

theorem dottedTokens_cons_cons (first second : String) (rest : List String) :
    dottedTokens (first :: second :: rest) =
      identifierTokens first ++ .sign '.' :: dottedTokens (second :: rest) := by
  simp [dottedTokens, signs]

/-- The names are found in their tokens again. -/
theorem dottedNames?_dottedTokens {names : List String} (hne : names ≠ []) :
    dottedNames? (dottedTokens names) = some (names.map WrittenName.of) := by
  induction names with
  | nil => exact absurd rfl hne
  | cons first rest ih =>
    cases rest with
    | nil =>
      by_cases hstar : first = "*" <;>
        simp [dottedTokens, identifierTokens, WrittenName.of, hstar, signs, dottedNames?]
    | cons second rest =>
      rw [dottedTokens_cons_cons]
      by_cases hstar : first = "*" <;>
        simp [identifierTokens, WrittenName.of, hstar, signs, dottedNames?, ih]

/-- An identifier is its tokens as they are written. -/
theorem spelling_identifier (t : Target) (name : String) :
    (t.quoteIdentifier name).toList =
      (identifierTokens name).flatMap (Lexeme.spelling t.dialect) := by
  unfold Target.quoteIdentifier identifierTokens
  split
  · rename_i hstar
    rw [hstar]
    rfl
  · simp [Lexeme.spelling, Quote.opening, Quote.closing, Text.double]

/-- Quoted names between dots have the tokens that are meant. -/
theorem lex_joined (t : Target) (names : List String) :
    t.dialect.lex (Text.join "." (names.map t.quoteIdentifier)) = some (dottedTokens names) := by
  cases names with
  | nil => rfl
  | cons first rest =>
    refine lex_of_spelling ?_ ?_
    · rw [Text.join, String.toList_ofList, List.map_cons, List.map_cons, Text.joinChars_eq_flatMap,
        dottedTokens, List.flatMap_append, spelling_identifier, List.flatMap_map, List.flatMap_map,
        List.flatMap_assoc]
      refine congrArg _ (List.flatMap_congr fun name _ => ?_)
      rw [spelling_identifier, List.flatMap_append]
      rfl
    · have hdot : t.dialect.isSign '.' = true := isSign_of_isPlain rfl
      refine readable_flatMap (readable_identifier first) fun name _ => ⟨?_, ?_⟩
      · exact (finished_signs (by simpa using hdot)).append_readable (readable_identifier name)
      · exact signFirst_signs rfl hdot _

/-- Quoted names between dots are read again. -/
theorem names?_joined (t : Target) {names : List String} (hne : names ≠ []) :
    t.dialect.names? (Text.join "." (names.map t.quoteIdentifier)) =
      some (names.map WrittenName.of) := by
  rw [Dialect.names?, lex_joined, Option.bind_some, dottedNames?_dottedTokens hne]

/-- Names that are written alike are the same. -/
theorem joined_injective {names others : List String} (hne : names ≠ []) (hne' : others ≠ [])
    (h : Text.join "." (names.map t.quoteIdentifier) =
      Text.join "." (others.map t.quoteIdentifier)) : names = others := by
  have hread := names?_joined t hne
  rw [h, names?_joined t hne'] at hread
  have htexts := congrArg (List.map WrittenName.text) (Option.some.inj hread)
  simpa [Function.comp_def] using htexts.symm

/-! ## §3 Segments of columns and tables -/

/-- The segments of a table, the last one with the table prefix. -/
def Target.tableNames (t : Target) (table : String) : List String :=
  let segments := Text.splitOn "." table
  segments.dropLast ++ [t.options.tablePrefix ++ segments.getLast?.getD ""]

theorem tableNames_concat {table last : String} {schema : List String}
    (h : Text.splitOn "." table = schema ++ [last]) :
    t.tableNames table = schema ++ [t.options.tablePrefix ++ last] := by
  simp [Target.tableNames, h]

/-- A table in its quotes is its segments, with the table prefix on the last one. -/
theorem quotedSegments_eq (t : Target) (table : String) :
    t.quotedSegments table = Text.join "." ((t.tableNames table).map t.quoteIdentifier) := by
  have hsep : ".".toList = ['.'] := rfl
  unfold Target.quotedSegments
  -- the table is quoted behind its last dot, the names are cut at every dot
  by_cases hdot : '.' ∈ table.toList
  · obtain ⟨before, after, htable, hafter⟩ := exists_last_dot hdot
    have hlast : Text.splitLast? "." table = some (String.ofList before, String.ofList after) := by
      have hchars : Text.splitLastChars? ['.'] (before ++ ['.'] ++ after) = some (before, after) :=
        Text.splitLastChars?_append before (by rwa [List.nil_append, List.singleton_infix_iff])
      rw [Text.splitLast?, hsep, htable, List.append_cons before, hchars]
      rfl
    have hcut : Text.splitOn "." table =
        Text.splitOn "." (String.ofList before) ++ [String.ofList after] := by
      have hjoined : table = String.ofList before ++ "." ++ String.ofList after := by
        apply String.toList_inj.1
        simp [htable]
      have hpiece : Text.splitOn "." (String.ofList after) = [String.ofList after] :=
        Text.splitOn_dot_eq_singleton (by rwa [String.toList_ofList])
      rw [hjoined, Text.splitOn_append_dot, hpiece]
    have hschema : (Text.splitOn "." (String.ofList before)).map t.quoteIdentifier ≠ [] := by
      simpa using Text.splitOn_ne_nil "." (String.ofList before)
    rw [hlast, tableNames_concat hcut, List.map_append]
    exact (Text.join_concat "." _ hschema).symm
  · have hnone : Text.splitLast? "." table = none := by
      rw [Text.splitLast?, Option.map_eq_none_iff, hsep]
      exact Text.splitLastChars?_eq_none (by rwa [List.singleton_infix_iff])
    have hcut : Text.splitOn "." table = [] ++ [table] := Text.splitOn_dot_eq_singleton hdot
    rw [hnone, tableNames_concat hcut]
    exact (Text.join_singleton "." _).symm

theorem tableNames_ne_nil (t : Target) (table : String) : t.tableNames table ≠ [] :=
  List.append_ne_nil_of_right_ne_nil _ (List.cons_ne_nil _ _)

theorem segmentNames_ne_nil (t : Target) (column : String) : t.segmentNames column ≠ [] := by
  unfold Target.segmentNames
  split
  · exact List.cons_ne_nil _ _
  · exact Text.splitOn_ne_nil "." column

/-- With one table prefix, the segments of a column are found in its names again. -/
theorem segmentNames_injective {column other : String}
    (h : t.segmentNames column = t.segmentNames other) : column = other := by
  have hsplit : Text.splitOn "." column = Text.splitOn "." other := by
    unfold Target.segmentNames at h
    -- a name of its own for every list of segments, so that the cases can be told by their lengths
    generalize Text.splitOn "." column = segments at h ⊢
    generalize Text.splitOn "." other = others at h ⊢
    rcases segments with _ | ⟨first, _ | ⟨second, rest⟩⟩ <;>
      rcases others with _ | ⟨first', _ | ⟨second', rest'⟩⟩ <;> simp_all
  rw [← Text.join_splitOn "." column (by decide), hsplit, Text.join_splitOn "." other (by decide)]

/-- With one table prefix, the segments of a table are found in its names again. -/
theorem tableNames_injective {table other : String} (h : t.tableNames table = t.tableNames other) :
    table = other := by
  obtain ⟨schema, last, hsplit⟩ := Text.splitOn_eq_concat "." table
  obtain ⟨schema', last', hsplit'⟩ := Text.splitOn_eq_concat "." other
  rw [tableNames_concat hsplit, tableNames_concat hsplit'] at h
  obtain ⟨rfl, hlast⟩ := List.append_inj' h rfl
  have hlast : last = last' := by simpa using hlast
  rw [← Text.join_splitOn "." table (by decide), hsplit, hlast, ← hsplit',
    Text.join_splitOn "." other (by decide)]

/-! ## §4 Plain names -/

/-- A name that is nothing but its segments: it has no alias and does not lead into a document, and
SQL Server finds no arguments in it. -/
structure Target.PlainName (t : Target) (name : String) : Prop where
  noAlias : splitAlias? name = none
  noPath : isSelector name = false
  fits : t.TableFits name

/-- A plain name as a column. -/
theorem quote_plain (hbegins : t.TableFits t.options.tablePrefix) {column : String}
    (h : t.PlainName column) :
    t.quote column = .ok (Text.join "." ((t.segmentNames column).map t.quoteIdentifier)) := by
  rw [quote_column h.noAlias h.noPath, quoteSegments_eq hbegins h.fits h.noAlias]

/-- A name without alias as a table, before SQL Server looks for arguments in it. -/
theorem quoteTable_unaliased {table : String} (halias : splitAlias? table = none) :
    t.quoteTable table =
      t.finishTable (Text.join "." ((t.tableNames table).map t.quoteIdentifier)) := by
  rw [Target.quoteTable, halias, ← quotedSegments_eq]
  rfl

/-- A name without alias as a table. -/
theorem quoteTable_plain (hbegins : t.TableFits t.options.tablePrefix) {table : String}
    (halias : splitAlias? table = none) (hfits : t.TableFits table) :
    t.quoteTable table = Text.join "." ((t.tableNames table).map t.quoteIdentifier) := by
  rw [quoteTable_unaliased halias, ← quotedSegments_eq]
  exact finishTable_eq_self fun hserver =>
    noParen_quotedSegments (hbegins hserver) (hfits hserver)

/-- Quoting is undone by a reader of the dialect: a column is read as its segments, the first of
several with the table prefix in front, a table as its segments with the table prefix in front of
the last one, and only a segment that is a star is written without quotes. So no two names are
written alike. -/
theorem quoted_names_roundtrip (t : Target) (hbegins : t.TableFits t.options.tablePrefix) :
    (∀ name, t.PlainName name →
      (∃ sql, t.quote name = .ok sql ∧
        t.dialect.names? sql = some ((t.segmentNames name).map WrittenName.of)) ∧
      t.dialect.names? (t.quoteTable name) = some ((t.tableNames name).map WrittenName.of)) ∧
    (∀ name other, t.PlainName name → t.PlainName other →
      (t.quote name = t.quote other → name = other) ∧
      (t.quoteTable name = t.quoteTable other → name = other)) := by
  refine ⟨fun name hname => ⟨⟨_, quote_plain hbegins hname, ?_⟩, ?_⟩,
    fun name other hname hother => ⟨fun heq => ?_, fun heq => ?_⟩⟩
  · exact names?_joined t (segmentNames_ne_nil t name)
  · rw [quoteTable_plain hbegins hname.noAlias hname.fits]
    exact names?_joined t (tableNames_ne_nil t name)
  · rw [quote_plain hbegins hname, quote_plain hbegins hother] at heq
    exact segmentNames_injective (joined_injective (segmentNames_ne_nil t name)
      (segmentNames_ne_nil t other) (Except.ok.inj heq))
  · rw [quoteTable_plain hbegins hname.noAlias hname.fits,
      quoteTable_plain hbegins hother.noAlias hother.fits] at heq
    exact tableNames_injective (joined_injective (tableNames_ne_nil t name)
      (tableNames_ne_nil t other) heq)

/-- A target whose table prefix has the closing bracket in it. -/
def bracketedServer : Target :=
  ⟨.sqlserver, { tablePrefix := "t]_" }⟩

theorem bracketedName_roundtrip :
    ((∃ sql, bracketedServer.quote "dbo.a] b.*" = .ok sql ∧
        bracketedServer.dialect.names? sql =
          some [.quoted "t]_dbo", .quoted "a] b", .star]) ∧
      bracketedServer.dialect.names? (bracketedServer.quoteTable "dbo.a] b.*") =
        some [.quoted "dbo", .quoted "a] b", .quoted "t]_*"]) ∧
    (∀ other, bracketedServer.PlainName other →
      (bracketedServer.quote "dbo.a] b.*" = bracketedServer.quote other → "dbo.a] b.*" = other) ∧
      (bracketedServer.quoteTable "dbo.a] b.*" = bracketedServer.quoteTable other →
        "dbo.a] b.*" = other)) := by
  have hbegins : bracketedServer.TableFits bracketedServer.options.tablePrefix :=
    fun _ => by decide
  have hname : bracketedServer.PlainName "dbo.a] b.*" :=
    ⟨by decide, by decide, fun _ => by decide⟩
  obtain ⟨hread, hinjective⟩ := quoted_names_roundtrip bracketedServer hbegins
  have hcolumn : (bracketedServer.segmentNames "dbo.a] b.*").map WrittenName.of =
      [.quoted "t]_dbo", .quoted "a] b", .star] := by decide
  have htable : (bracketedServer.tableNames "dbo.a] b.*").map WrittenName.of =
      [.quoted "dbo", .quoted "a] b", .quoted "t]_*"] := by decide
  rw [← hcolumn, ← htable]
  exact ⟨hread _ hname, fun other hother => hinjective _ other hname hother⟩

end SqlCompiler
