import SqlCompiler.Proofs.ClosedText
import SqlCompiler.Proofs.TextPieces

/-!
# Closed Names

Quoted identifiers, tables and columns are closed whatever their names are made of: the closing
quote is doubled inside. SQL Server moves the arguments of a table-valued function out of the
quotes, so that there a table name must not end in parentheses.

## Main definitions

- `Target.TableFits`, `Target.PrefixFits`: tables and prefixes that can be quoted
- `Target.QualifierFits`: a column whose qualifier can be quoted

## Main statements

- `quoteIdentifier_closed`, `textLeads_escaped`: single identifiers, and the texts of literals
- `quoteTable_closed`, `quoteField_closed`: tables and columns
-/

namespace SqlCompiler

variable {d : Dialect} {t : Target}

/-! ## §1 Identifiers and literals -/

/-- A text whose closing characters are doubled stays inside of its quotes. -/
theorem reads_doubleChars {quote : Quote} {depth : Nat} (cs : List Char) :
    Reads d (.inside quote depth) (Text.doubleChars (quote.closing d) cs)
      (.inside quote depth) := by
  induction cs with
  | nil => exact .nil
  | cons c cs ih =>
    rw [Text.doubleChars_cons]
    split
    · -- the closing quote stands twice, which leaves the name open
      rename_i hc
      rw [hc]
      exact reads_doubled.append ih
    · exact (reads_inside ‹_›).append ih

/-- A text with its closing quote doubled stays inside of the quotes. -/
theorem textLeads_double {quote : Quote} {depth : Nat} {mark : Char}
    (hmark : mark = quote.closing d) (s : String) :
    TextLeads d (.inside quote depth) (Text.double mark s) (.inside quote depth) := by
  rw [TextLeads, Text.double, String.toList_ofList, hmark]
  exact reads_doubleChars s.toList

/-- A single character as a text. -/
theorem textLeads_char {p q : Position} {c : Char} (h : Reads d p [c] q) :
    TextLeads d p c.toString q := by
  rw [TextLeads, Char.toString_eq_singleton, String.toList_singleton]
  exact h

/-- An identifier is closed, whatever it is made of. -/
theorem quoteIdentifier_closed (t : Target) (name : String) :
    TextClosed t.dialect (t.quoteIdentifier name) := by
  intro depth
  rw [Target.quoteIdentifier]
  split
  · rename_i hstar
    rw [hstar]
    exact textLeads rfl rfl
  · -- opened, the name with its closing quotes doubled, closed
    have hopen : TextLeads t.dialect (.between depth) t.dialect.openQuote.toString
        (.inside .identifier depth) := textLeads_char (reads_open (quoteAt?_openQuote t.dialect))
    have hclose : TextLeads t.dialect (.inside .identifier depth) t.dialect.closeQuote.toString
        (.between depth) := textLeads_char reads_closing
    exact (hopen.append (textLeads_double rfl name)).append hclose

/-- The prefix stands inside of the quotes, with the name. -/
theorem quotePrefixed_closed (t : Target) (name : String) :
    TextClosed t.dialect (t.quotePrefixed name) :=
  quoteIdentifier_closed t _

/-- The text of a literal stays inside of it. -/
theorem textLeads_escaped {depth : Nat} (s : String) :
    TextLeads d (.inside .literal depth) (Text.double '\'' s) (.inside .literal depth) :=
  textLeads_double rfl s

/-- Segments between dots. -/
theorem segments_closed {segments : List String} (h : ∀ s ∈ segments, TextClosed d s) :
    TextClosed d (Text.join "." segments) :=
  textClosed_join (fun _ => textLeads rfl rfl) h

/-! ## §2 Tables -/

/-- A table name that ends in no arguments, which SQL Server would move out of the quotes. -/
def Target.TableFits (t : Target) (table : String) : Prop :=
  t.dialect = .sqlserver → ')' ∉ table.toList

/-- A table prefix that can stand in front of any name: it is one word, and on SQL Server it closes
no parenthesis. -/
structure Target.PrefixFits (t : Target) : Prop where
  noBlank : ∀ c ∈ t.options.tablePrefix.toList, Text.isBlank c = false
  fits : t.TableFits t.options.tablePrefix

/-- A quoted name has the characters of the name and quotes. -/
theorem mem_quoteIdentifier {name : String} {c : Char}
    (h : c ∈ (t.quoteIdentifier name).toList) :
    c ∈ name.toList ∨ c = t.dialect.openQuote ∨ c = t.dialect.closeQuote := by
  rw [Target.quoteIdentifier] at h
  split at h
  · exact .inl h
  · simp only [String.toList_append, List.mem_append, Char.toString_eq_singleton,
      String.toList_singleton, List.mem_singleton, Text.double, String.toList_ofList,
      Text.mem_doubleChars] at h
    rcases h with (h | h) | h
    · exact .inr (.inl h)
    · exact .inl h
    · exact .inr (.inr h)

/-- No dialect quotes with parentheses. -/
theorem noParen_quoteIdentifier {name : String} (h : ')' ∉ name.toList) :
    ')' ∉ (t.quoteIdentifier name).toList := by
  intro hmem
  rcases mem_quoteIdentifier hmem with hmem | hmem | hmem
  · exact h hmem
  · cases hd : t.dialect <;> rw [hd] at hmem <;> exact absurd hmem (by decide)
  · cases hd : t.dialect <;> rw [hd] at hmem <;> exact absurd hmem (by decide)

theorem noParen_quotePrefixed {name : String} (hbegins : ')' ∉ t.options.tablePrefix.toList)
    (h : ')' ∉ name.toList) : ')' ∉ (t.quotePrefixed name).toList := by
  refine noParen_quoteIdentifier ?_
  rw [String.toList_append, List.mem_append, not_or]
  exact ⟨hbegins, h⟩

/-- The arguments of a function end in a parenthesis. -/
theorem argumentsOutside_eq_self {cs : List Char} (h : ')' ∉ cs) :
    Target.argumentsOutside cs = cs := by
  unfold Target.argumentsOutside
  split
  · rfl
  · split
    · rfl
    · split
      · -- the last but one character is a parenthesis
        rename_i c cs _ _ inside hreverse
        have hmem : ')' ∈ cs.reverse := by simp [hreverse]
        exact absurd (List.mem_cons_of_mem c (List.mem_reverse.1 hmem)) h
      · rfl

/-- A name without closing parentheses has no arguments that could be moved. -/
theorem finishTable_eq_self {quoted : String} (h : t.TableFits quoted) :
    t.finishTable quoted = quoted := by
  unfold Target.finishTable
  split
  · rename_i hserver
    rw [argumentsOutside_eq_self (h hserver), String.ofList_toList]
  · rfl

/-- A table name in its quotes, before SQL Server looks for arguments. -/
def Target.quotedSegments (t : Target) (table : String) : String :=
  match Text.splitLast? "." table with
  | some (schema, name) =>
    Text.join "." ((Text.splitOn "." schema).map t.quoteIdentifier) ++ "." ++ t.quotePrefixed name
  | none => t.quotePrefixed table

/-- Schema and table, each between quotes of its own, are closed. -/
theorem quotedSegments_closed (t : Target) (table : String) :
    TextClosed t.dialect (t.quotedSegments table) := by
  unfold Target.quotedSegments
  split
  · rename_i schema name _
    have hschema : TextClosed t.dialect
        (Text.join "." ((Text.splitOn "." schema).map t.quoteIdentifier)) :=
      segments_closed (by simpa using fun s _ => quoteIdentifier_closed t s)
    exact fun depth => ((hschema depth).text rfl rfl).closed (quotePrefixed_closed t name)
  · exact quotePrefixed_closed t table

theorem noParen_quotedSegments {table : String} (hbegins : ')' ∉ t.options.tablePrefix.toList)
    (h : ')' ∉ table.toList) : ')' ∉ (t.quotedSegments table).toList := by
  unfold Target.quotedSegments
  split
  · rename_i schema name hsplit
    rw [Text.splitLast?_eq_append hsplit] at h
    simp only [List.mem_append, not_or] at h
    intro hmem
    simp only [String.toList_append, List.mem_append] at hmem
    -- the schema, the dot, the name of the table
    rcases hmem with (hmem | hmem) | hmem
    · rcases Text.mem_join hmem with hmem | ⟨piece, hpiece, hmem⟩
      · exact absurd hmem (by decide)
      · obtain ⟨segment, hsegment, rfl⟩ := List.mem_map.1 hpiece
        refine noParen_quoteIdentifier (fun hmem => ?_) hmem
        exact h.1.1 (Text.mem_of_mem_splitOn (by decide) hsegment hmem)
    · exact absurd hmem (by decide)
    · exact noParen_quotePrefixed hbegins h.2 hmem
  · exact noParen_quotePrefixed hbegins h

/-- A table that fits is its segments between quotes. -/
theorem quoteBareTable_eq {table : String} (hp : t.PrefixFits) (h : t.TableFits table) :
    t.quoteBareTable table = t.quotedSegments table :=
  finishTable_eq_self fun hserver => noParen_quotedSegments (hp.fits hserver) (h hserver)

/-- A part of a name that fits does. -/
theorem Target.TableFits.mono {table part : String} (h : t.TableFits table)
    (hpart : part.toList <:+: table.toList) : t.TableFits part :=
  fun hserver hmem => h hserver (hpart.subset hmem)

/-- The table in front of an alias fits where the two do. -/
theorem Target.TableFits.unaliased {table name asName : String} (h : t.TableFits table)
    (hsplit : splitAlias? table = some (name, asName)) : t.TableFits name :=
  h.mono (splitAlias?_name hsplit).1.isInfix

/-- A table is its quoted segments, followed by its quoted alias if it has one. -/
theorem quoteTable_eq {table : String} (hp : t.PrefixFits) (h : t.TableFits table) :
    t.quoteTable table =
      match splitAlias? table with
      | some (name, asName) => t.quotedSegments name ++ " as " ++ t.quotePrefixed asName
      | none => t.quotedSegments table := by
  unfold Target.quoteTable
  cases hsplit : splitAlias? table with
  | none => exact quoteBareTable_eq hp h
  | some sides =>
    obtain ⟨name, asName⟩ := sides
    have hname := h.unaliased hsplit
    have hasName := h.mono (splitAlias?_alias hsplit).1
    show t.finishTable (t.quoteBareTable name ++ " as " ++ t.quotePrefixed asName) = _
    rw [quoteBareTable_eq hp hname, finishTable_eq_self]
    -- without a closing parenthesis in any of the parts there are no arguments to move outside
    intro hserver hmem
    simp only [String.toList_append, List.mem_append] at hmem
    rcases hmem with (hmem | hmem) | hmem
    · exact noParen_quotedSegments (hp.fits hserver) (hname hserver) hmem
    · exact absurd hmem (by decide)
    · exact noParen_quotePrefixed (hp.fits hserver) (hasName hserver) hmem

/-- A table and its alias are closed. -/
theorem quoteTable_closed {table : String} (hp : t.PrefixFits) (h : t.TableFits table) :
    TextClosed t.dialect (t.quoteTable table) := by
  rw [quoteTable_eq hp h]
  split
  · rename_i name asName _
    exact fun depth =>
      ((quotedSegments_closed t name depth).text rfl rfl).closed (quotePrefixed_closed t asName)
  · exact quotedSegments_closed t table

/-! ## §3 Columns -/

/-- A qualified column whose qualifier can be quoted as a table. -/
def Target.QualifierFits (t : Target) (column : String) : Prop :=
  t.TableFits (qualifierOf column)

/-- A qualified column is closed; its qualifier is a table. -/
theorem quoteSegments_closed {column : String} (hp : t.PrefixFits) (h : t.QualifierFits column) :
    TextClosed t.dialect (t.quoteSegments column) := by
  obtain ⟨rest, hsplit, hrest⟩ := Text.splitOn_eq_cons "." column (by decide)
  unfold Target.quoteSegments
  split
  · rename_i first second more hmore
    -- there are several segments, so the first one is the qualifier
    rw [hsplit] at hmore
    cases hmore
    refine segments_closed fun s hs => ?_
    rcases List.mem_cons.1 hs with rfl | hs
    · refine quoteTable_closed hp ?_
      rw [Target.QualifierFits, qualifierOf] at h
      -- no first dot would mean that there is a single segment
      cases hfirst : Text.splitFirst? "." column with
      | none => exact absurd (hrest.2 hfirst) (List.cons_ne_nil _ _)
      | some sides =>
        rw [hfirst] at h
        exact h
    · obtain ⟨name, -, rfl⟩ := List.mem_map.1 hs
      exact quoteIdentifier_closed t name
  · exact segments_closed (by simpa using fun s _ => quoteIdentifier_closed t s)

/-- A column and its alias are closed. -/
theorem quoteField_closed {column : String} (hp : t.PrefixFits)
    (h : t.QualifierFits (unaliased column)) : TextClosed t.dialect (t.quoteField column) := by
  unfold Target.quoteField
  unfold unaliased at h
  split
  · rename_i name asName hsplit
    rw [hsplit] at h
    exact fun depth =>
      ((quoteSegments_closed hp h depth).text rfl rfl).closed (quoteIdentifier_closed t asName)
  · rename_i hsplit
    rw [hsplit] at h
    exact quoteSegments_closed hp h

end SqlCompiler
