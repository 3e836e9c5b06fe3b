import SqlCompiler.Proofs.ClosedText
import SqlCompiler.Proofs.SelectFaults
import SqlCompiler.Proofs.WriteAlignment

/-!
# Restrictions of Updates and Deletes

An update or delete that left out a clause of its query would change more rows than were asked for.
Every dialect checks which clauses it can carry, and writes its statements elsewhere; this module
shows that check and text agree: what passes the check is written, and what is not written does not
pass.

## Main definitions

- `RowChange`, `Target.change`: an update or a delete of the rows of a query
- `NeedsRowIds`: where rows are selected by their identifiers
- `Target.CannotCarry`: the clauses that a statement of a dialect has no place for
- `ChangesByRowIds`, `ChangesInPlace`: how the text restricts its rows in either case
- `Changeable`: a change whose clauses have SQL one by one

## Main statements

- `checkWrite_eq_ok_iff`: the check rejects exactly what cannot be carried
- `update_restricted`, `delete_restricted`: the text carries what has passed the check
- `rowIdQuery_compiles`: the select of row identifiers has SQL if its clauses have
- `change_restrictions`: no restricting clause is dropped, and none is rejected without need
-/

namespace SqlCompiler

open Sql

variable {t : Target} {q : Query} {sql : Sql}

/-! ## §1 Ends of texts -/

theorem prefix_words (first : Sql) (rest : List Sql) :
    first.text.toList <+: (words (first :: rest)).text.toList := by
  dsimp only [words]
  split
  · rw [text_append, String.toList_append]
    exact List.prefix_append ..
  · rw [text_append, text_append, String.toList_append, String.toList_append, List.append_assoc]
    exact List.prefix_append ..

theorem suffix_words_cons (first : Sql) (rest : List Sql) :
    (words rest).text.toList <:+ (words (first :: rest)).text.toList := by
  dsimp only [words]
  split <;>
  · rw [text_append, String.toList_append]
    exact List.suffix_append ..

/-- Every piece of a row of words stands in it. -/
theorem infix_words {s : Sql} {parts : List Sql} (h : s ∈ parts) :
    s.text.toList <:+: (words parts).text.toList := by
  induction parts with
  | nil => cases h
  | cons first rest ih =>
    rcases List.mem_cons.1 h with rfl | h
    · exact (prefix_words s rest).isInfix
    · exact (ih h).trans (suffix_words_cons first rest).isInfix

theorem trimEndChars_concat {c : Char} (cs : List Char) (h : Text.isBlank c = false) :
    Text.trimEndChars (cs ++ [c]) = cs ++ [c] := by
  rw [Text.trimEndChars_append]
  simp [Text.trimEndChars, h]

/-- Trimming stops in front of the last character that is not blank. -/
theorem prefix_trimEndChars {c : Char} {cs text : List Char} (h : cs ++ [c] <+: text)
    (hc : Text.isBlank c = false) : cs ++ [c] <+: Text.trimEndChars text := by
  obtain ⟨rest, rfl⟩ := h
  rw [Text.trimEndChars_append]
  split
  · rw [trimEndChars_concat cs hc]
  · exact List.prefix_append ..

theorem suffix_trimEndChars {c : Char} {cs text : List Char} (h : cs ++ [c] <:+ text)
    (hc : Text.isBlank c = false) : Text.trimEndChars text = text := by
  obtain ⟨rest, rfl⟩ := h
  rw [← List.append_assoc]
  exact trimEndChars_concat (rest ++ cs) hc

theorem isBlank_of_mem_toString {n : Nat} {c : Char} (h : c ∈ (toString n).toList) :
    Text.isBlank c = false := by
  rw [Nat.toString_eq_repr, Nat.repr, String.toList_ofList] at h
  have hdigit := Nat.isDigit_of_mem_toDigits (by decide) (by decide) h
  have hrange : 48 ≤ c.toNat ∧ c.toNat ≤ 57 := by
    simpa [Char.isDigit, UInt32.le_iff_toNat_le] using hdigit
  simp only [Text.isBlank, Bool.or_eq_false_iff, Bool.and_eq_false_iff, beq_eq_false_iff_ne,
    decide_eq_false_iff_not]
  omega

/-- A number ends with a digit, which no trimming takes away. -/
theorem toString_concat (n : Nat) :
    ∃ digits c, (toString n).toList = digits ++ [c] ∧ Text.isBlank c = false := by
  have hne : (toString n).toList ≠ [] := by
    rw [Nat.toString_eq_repr, Nat.repr, String.toList_ofList]
    exact Nat.toDigits_ne_nil
  exact ⟨_, _, (List.dropLast_append_getLast hne).symm,
    isBlank_of_mem_toString (List.getLast_mem hne)⟩

/-! ## §2 The check -/

/-- Rows are selected by their identifiers in two dialects, for joins and for a limit. -/
def NeedsRowIds (t : Target) (q : Query) : Prop :=
  (t.dialect = .postgres ∨ t.dialect = .sqlite) ∧ (q.joins ≠ [] ∨ q.limit ≠ none)

/-- Where a statement has a place for a limit of its own. -/
def CarriesOwnLimit (t : Target) (q : Query) : Prop :=
  t.dialect = .mysql ∧ q.joins = [] ∨ t.dialect = .sqlserver

/-- The clauses of a query that an update or delete in the dialect has no place for. A select of
row identifiers has a place for all of them but unions. -/
inductive Target.CannotCarry (t : Target) (q : Query) : Restriction → Prop where
  | union : q.unions ≠ [] → CannotCarry t q .union
  | groupBy : ¬NeedsRowIds t q → q.groups ≠ [] → CannotCarry t q .groupBy
  | having : ¬NeedsRowIds t q → q.havings ≠ [] → CannotCarry t q .having
  | offset : ¬NeedsRowIds t q → 0 < q.skipped → CannotCarry t q .offset
  | limit : ¬NeedsRowIds t q → q.limit ≠ none → ¬CarriesOwnLimit t q → CannotCarry t q .limit

theorem usesRowIds_iff_needsRowIds : t.usesRowIds q = true ↔ NeedsRowIds t q := by
  rw [usesRowIds_iff, NeedsRowIds, Query.hasJoinsOrLimit]
  refine and_congr_right fun _ => ?_
  rw [Bool.or_eq_true, Bool.not_eq_true', List.isEmpty_eq_false_iff, Option.isSome_iff_ne_none]

theorem carriesLimit_iff : t.carriesLimit q = true ↔ CarriesOwnLimit t q := by
  unfold Target.carriesLimit CarriesOwnLimit
  cases t.dialect <;> simp

theorem not_pos_skipped_iff : ¬0 < q.skipped ↔ q.skipped = 0 := by
  rw [UInt64.lt_iff_toNat_lt, ← UInt64.toNat_inj]
  simp

theorem unrendered?_eq_none_iff {allowed : Bool} :
    q.unrendered? allowed = none ↔
      q.groups = [] ∧ q.havings = [] ∧ q.unions = [] ∧ q.skipped = 0 ∧
        (q.limit ≠ none → allowed = true) := by
  unfold Query.unrendered?
  cases q.groups <;> cases q.havings <;> cases q.unions <;> simp
  rw [← not_pos_skipped_iff]
  by_cases hpos : 0 < q.skipped
  · simp [hpos]
  · cases q.limit <;> simp [hpos]

theorem unions_eq_nil (h : ∀ clause, ¬t.CannotCarry q clause) : q.unions = [] :=
  by_contra fun hne => h .union (.union hne)

/-- Without row identifiers, a query with a place for its clauses has neither groups nor conditions
on them, and it skips nothing. -/
theorem bare_of_carried (h : ∀ clause, ¬t.CannotCarry q clause) (hrows : ¬NeedsRowIds t q) :
    q.groups = [] ∧ q.havings = [] ∧ q.skipped = 0 ∧ (q.limit ≠ none → CarriesOwnLimit t q) :=
  ⟨by_contra fun hne => h .groupBy (.groupBy hrows hne),
    by_contra fun hne => h .having (.having hrows hne),
    not_pos_skipped_iff.1 fun hpos => h .offset (.offset hrows hpos),
    fun hne => by_contra fun hplace => h .limit (.limit hrows hne hplace)⟩

/-- The check passes exactly if there is a place for every clause that restricts the rows. -/
theorem checkWrite_eq_ok_iff {write : RowWrite} :
    t.checkWrite q write = .ok () ↔ ∀ clause, ¬t.CannotCarry q clause := by
  have hpasses : t.checkWrite q write = .ok () ↔
      NeedsRowIds t q ∧ q.unions = [] ∨ q.unrendered? (t.carriesLimit q) = none := by
    unfold Target.checkWrite
    rw [← usesRowIds_iff_needsRowIds, ← List.isEmpty_iff, ← Bool.and_eq_true]
    split
    · rename_i hrows
      simp [hrows]
    · rename_i hrows
      cases q.unrendered? (t.carriesLimit q) <;> simp [hrows]
  rw [hpasses, unrendered?_eq_none_iff, carriesLimit_iff]
  -- a write by row identifiers passes all but unions, any other is checked for each clause
  constructor
  · rintro (⟨hrows, hunions⟩ | ⟨hgroups, hhavings, hunions, hskipped, hlimit⟩) clause hclause
    · cases hclause <;> contradiction
    · cases hclause with
      | union hne => exact hne hunions
      | groupBy _ hne => exact hne hgroups
      | having _ hne => exact hne hhavings
      | offset _ hpos => exact not_pos_skipped_iff.2 hskipped hpos
      | limit _ hne hplace => exact hplace (hlimit hne)
  · intro hall
    by_cases hrows : NeedsRowIds t q
    · exact .inl ⟨hrows, unions_eq_nil hall⟩
    · obtain ⟨hgroups, hhavings, hskipped, hlimit⟩ := bare_of_carried hall hrows
      exact .inr ⟨hgroups, hhavings, unions_eq_nil hall, hskipped, hlimit⟩

/-- A clause without a place is an invalid option. -/
theorem checkWrite_error (write : RowWrite) {clause : Restriction}
    (hclause : t.CannotCarry q clause) :
    ∃ f, t.checkWrite q write = .error f ∧ f.kind = .invalidOption := by
  cases hcheck : t.checkWrite q write with
  | ok u => exact absurd hclause (checkWrite_eq_ok_iff.1 hcheck clause)
  | error f =>
    refine ⟨f, rfl, ?_⟩
    unfold Target.checkWrite at hcheck
    split at hcheck
    · cases hcheck
    · split at hcheck
      · cases hcheck
        rfl
      · cases hcheck

/-! ## §3 Changes of rows -/

/-- An update or a delete of the rows of a query. -/
inductive RowChange where
  | update (row : Row)
  | delete

/-- The kind of statement that a change is. -/
def RowChange.write : RowChange → RowWrite
  | .update _ => .update
  | .delete => .delete

namespace Target

/-- The statement of a change. -/
def change (t : Target) (q : Query) : RowChange → Except Fault Sql
  | .update row => t.update q row
  | .delete => t.delete q

/-- What stands in front of the condition on row identifiers. -/
def changeHead (t : Target) (q : Query) : RowChange → Except Fault Sql
  | .update row => do return "update " ++ (← t.writeTable q) ++ " set " ++ (← t.assignments row)
  | .delete => do return "delete from " ++ (← t.writeTable q)

end Target

/-- A select writes the clauses that restrict the rows of its query. -/
structure WritesRestrictions (t : Target) (q : Query) (select : Sql) : Prop where
  groups : ∃ s, t.groupsClause q.groups = .ok s ∧ s.text.toList <:+: select.text.toList
  havings : ∃ s, t.havingClause q.havings = .ok s ∧ s.text.toList <:+: select.text.toList
  limit : ∀ n, q.limit = some n →
    ("limit " ++ toString n.toNat).toList <:+: select.text.toList
  offset : ∀ n, q.offset = some n →
    ("offset " ++ toString n.toNat).toList <:+: select.text.toList

/-- A change of the rows whose identifiers a select of the query yields, with all its clauses. -/
def ChangesByRowIds (t : Target) (q : Query) (c : RowChange) (sql : Sql) : Prop :=
  ∃ tbl head select, q.source = some tbl ∧ t.changeHead q c = .ok head ∧
    t.select (t.rowIdQuery q tbl) = .ok select ∧
    sql.text = head.text ++ " where " ++ t.quoteIdentifier t.dialect.rowId ++ " in (" ++
      select.text ++ ")" ∧
    WritesRestrictions t q select

/-- A change of rows without clauses that would restrict them further, but for a limit that the
statement has a place for. -/
structure ChangesInPlace (t : Target) (q : Query) (c : RowChange) (sql : Sql) : Prop where
  groups : q.groups = []
  havings : q.havings = []
  offset : q.skipped = 0
  limit : ∀ n, q.limit = some n →
    (t.dialect = .mysql ∧ q.joins = [] ∧
      ("limit " ++ toString n.toNat).toList <:+ sql.text.toList) ∨
    (t.dialect = .sqlserver ∧
      (c.write.keyword ++ " top (" ++ toString n.toNat ++ ")").toList <+: sql.text.toList)

/-! ## §4 Rows selected by their identifiers -/

theorem quote_rowId (t : Target) :
    t.quote t.dialect.rowId = .ok (t.quoteIdentifier t.dialect.rowId) := by
  have hname : ∀ name ∈ ["rowid", "ctid"], splitAlias? name = none ∧ isSelector name = false ∧
      Text.splitOn "." name = [name] := by decide
  have hrowId : t.dialect.rowId ∈ ["rowid", "ctid"] := by
    unfold Dialect.rowId
    split <;> simp
  obtain ⟨halias, hselector, hsegments⟩ := hname _ hrowId
  rw [Target.quote, halias]
  simp [Target.quoteUnaliased, hselector, Target.quoteSegments, hsegments, Text.join,
    Text.joinChars]

/-- The column of row identifiers stands in front of their select. -/
theorem text_rowIdCondition (h : t.rowIdCondition q = .ok sql) :
    ∃ tbl select, q.source = some tbl ∧ t.select (t.rowIdQuery q tbl) = .ok select ∧
      sql.text = t.quoteIdentifier t.dialect.rowId ++ " in (" ++ select.text ++ ")" := by
  obtain ⟨tbl, rowId, select, hsource, hrowId, hselect, rfl⟩ := rowIdCondition_eq_ok h
  rw [quote_rowId] at hrowId
  cases hrowId
  exact ⟨tbl, select, hsource, hselect, by simp⟩

theorem layout_eq_plainLayout {aggregate : Option Aggregate} {parts : Parts}
    (hserver : t.dialect ≠ .sqlserver) :
    t.layout q aggregate parts = t.plainLayout q aggregate parts := by
  unfold Target.layout
  split
  · exact absurd ‹_› hserver
  · rfl

/-- Without unions, a select outside of SQL Server is a row of its clauses. -/
theorem select_clauses (hserver : t.dialect ≠ .sqlserver) (hunions : q.unions = [])
    (haggregate : q.aggregate = none) (h : t.select q = .ok sql) (c : Component) :
    ∃ s, t.component q none (t.parts q) c = .ok s ∧ s.text.toList <:+: sql.text.toList := by
  rw [Target.select_eq, Target.finish, haggregate] at h
  have hplain : t.plainLayout q none (t.parts q) = .ok sql := by
    rw [← layout_eq_plainLayout hserver]
    exact h
  obtain ⟨s, hs, hplain⟩ := plainLayout_eq_ok hplain
  rw [Target.withUnions, hunions] at hplain
  cases hplain
  refine ⟨s c, hs c, ?_⟩
  -- the text of a select is a row of its clauses that have text
  cases hempty : (s c).isEmpty with
  | true =>
    -- a clause without text stands anywhere
    have hnil : (s c).text.toList = [] := by simpa [isEmpty] using hempty
    rw [hnil]
    exact List.nil_infix
  | false =>
    exact infix_words (List.mem_map.2 ⟨(c, s c), mem_spokenClauses.2 ⟨rfl, hempty⟩, rfl⟩)

theorem rowIdQuery_restrictions {tbl : Table} {select : Sql} (hrows : NeedsRowIds t q)
    (hunions : q.unions = []) (h : t.select (t.rowIdQuery q tbl) = .ok select) :
    WritesRestrictions t q select := by
  have hserver : t.dialect ≠ .sqlserver := by
    rcases hrows.1 with hdialect | hdialect <;> simp [hdialect]
  have hclause := select_clauses (q := t.rowIdQuery q tbl) hserver hunions rfl h
  refine ⟨hclause .groups, hclause .havings, fun n hn => ?_, fun n hn => ?_⟩
  · obtain ⟨s, hs, hinfix⟩ := hclause .limit
    have hlimit : (t.rowIdQuery q tbl).limit = some n := hn
    rw [Target.component, hlimit] at hs
    cases hs
    rcases hrows.1 with hdialect | hdialect <;> simpa [Target.limitClause, hdialect] using hinfix
  · obtain ⟨s, hs, hinfix⟩ := hclause .offset
    have hoffset : (t.rowIdQuery q tbl).offset = some n := hn
    rw [Target.component, hoffset] at hs
    cases hs
    rcases hrows.1 with hdialect | hdialect <;> simpa [Target.offsetClause, hdialect] using hinfix

/-- A statement that ends with the condition on row identifiers is not trimmed. -/
theorem changesByRowIds_of {c : RowChange} {rows : Sql} (head : Sql) (hrows : NeedsRowIds t q)
    (hunions : q.unions = []) (hhead : t.changeHead q c = .ok head)
    (hcondition : t.rowIdCondition q = .ok rows)
    (htext : sql.text = head.text ++ " where " ++ rows.text) :
    ChangesByRowIds t q c sql.trimEnd := by
  obtain ⟨tbl, select, hsource, hselect, hrowsText⟩ := text_rowIdCondition hcondition
  refine ⟨tbl, head, select, hsource, hhead, hselect, ?_,
    rowIdQuery_restrictions hrows hunions hselect⟩
  have hwhole : sql.text = head.text ++ " where " ++ t.quoteIdentifier t.dialect.rowId ++
      " in (" ++ select.text ++ ")" := by
    rw [htext, hrowsText]
    simp only [String.append_assoc]
  apply String.toList_inj.1
  rw [text_trimEnd, Text.trimEnd, String.toList_ofList, hwhole]
  -- the statement ends in a parenthesis, so that nothing is trimmed
  have hends : ([] ++ [')']) <:+ (head.text ++ " where " ++ t.quoteIdentifier t.dialect.rowId ++
      " in (" ++ select.text ++ ")").toList := by
    rw [String.toList_append]
    exact List.suffix_append ..
  exact suffix_trimEndChars hends (by decide)

/-! ## §5 Rows changed in place -/

/-- In MySQL the limit comes last. -/
theorem limit_suffix {body : Sql} {tail : List Sql} {n : UInt64} (hmysql : t.dialect = .mysql)
    (htail : t.writeOrder q = .ok tail) (hlimit : q.limit = some n) :
    ("limit " ++ toString n.toNat).toList <:+ (words (body :: tail)).text.toList := by
  rw [Target.writeOrder, hmysql] at htail
  rw [bind_eq_ok] at htail
  obtain ⟨orders, _, htail⟩ := htail
  cases htail
  have hlast : (words [(t.limitClause n none : Sql)]).text = "limit " ++ toString n.toNat := by
    rw [words, words, if_pos (by simp [isEmpty]), text_append, text_ofString, Target.limitClause,
      hmysql]
    exact String.append_empty
  rw [hlimit, ← hlast]
  exact (suffix_words_cons orders _).trans (suffix_words_cons body _)

/-- In SQL Server the limit follows the keyword. -/
theorem startsWith_top {n : UInt64} (hserver : t.dialect = .sqlserver) (hlimit : q.limit = some n)
    (keyword rest : String) :
    (keyword ++ " top (" ++ toString n.toNat ++ ")").toList <+:
      (keyword ++ " " ++ t.writeTop q ++ rest).toList := by
  have htop : t.writeTop q = "top (" ++ toString n.toNat ++ ") " := by
    rw [Target.writeTop, hserver, hlimit]
  rw [htop]
  exact ⟨(" " ++ rest).toList, by simp⟩

/-- What has passed the check restricts its rows by its conditions, and by a limit if there is a
place for one. -/
theorem changesInPlace_of {c : RowChange} (hcheck : ∀ clause, ¬t.CannotCarry q clause)
    (hrows : ¬NeedsRowIds t q)
    (hmysql : ∀ n, t.dialect = .mysql → q.joins = [] → q.limit = some n →
      ("limit " ++ toString n.toNat).toList <:+ sql.text.toList)
    (hserver : ∀ n, t.dialect = .sqlserver → q.limit = some n →
      (c.write.keyword ++ " top (" ++ toString n.toNat ++ ")").toList <+: sql.text.toList) :
    ChangesInPlace t q c sql.trimEnd := by
  obtain ⟨hgroups, hhavings, hskipped, hplace⟩ := bare_of_carried hcheck hrows
  refine ⟨hgroups, hhavings, hskipped, fun n hn => ?_⟩
  rw [text_trimEnd, Text.trimEnd, String.toList_ofList]
  rcases hplace (by simp [hn]) with ⟨hdialect, hjoins⟩ | hdialect
  · -- the text ends with a digit, so that nothing is trimmed
    refine .inl ⟨hdialect, hjoins, ?_⟩
    have hsuffix := hmysql n hdialect hjoins hn
    obtain ⟨digits, last, hdigits, hblank⟩ := toString_concat n.toNat
    have hends : ("limit ".toList ++ digits) ++ [last] <:+ sql.text.toList := by
      rwa [List.append_assoc, ← hdigits, ← String.toList_append]
    rwa [suffix_trimEndChars hends hblank]
  · refine .inr ⟨hdialect, ?_⟩
    have hprefix := hserver n hdialect hn
    rw [String.toList_append] at hprefix ⊢
    exact prefix_trimEndChars hprefix (by decide)

/-- An update writes every clause that restricts its rows, in the place that its dialect has. -/
theorem update_restricted {row : Row} (h : t.update q row = .ok sql) :
    (∀ clause, ¬t.CannotCarry q clause) ∧
      (NeedsRowIds t q → ChangesByRowIds t q (.update row) sql) ∧
      (¬NeedsRowIds t q → ChangesInPlace t q (.update row) sql) := by
  obtain ⟨-, hcheck, table, assigned, wheres, _, htable, hassigned, -, hform, rfl⟩ := update_eq_ok h
  have hpassed := checkWrite_eq_ok_iff.1 hcheck
  refine ⟨hpassed, ?_⟩
  rw [← usesRowIds_iff_needsRowIds]
  cases hform with
  | rowIds hrowIds hcondition =>
    -- the rows are selected, and the select has a place for every clause
    refine ⟨fun _ => ?_, fun hrows => absurd hrowIds hrows⟩
    refine changesByRowIds_of ("update " ++ table ++ " set " ++ assigned)
      (usesRowIds_iff_needsRowIds.1 hrowIds) (unions_eq_nil hpassed) ?_ hcondition (by simp)
    rw [Target.changeHead, htable, hassigned]
    rfl
  | single hrowIds _ htail =>
    refine ⟨fun hrows => absurd hrows hrowIds, fun _ => ?_⟩
    refine changesInPlace_of hpassed (mt usesRowIds_iff_needsRowIds.2 hrowIds)
      (fun n hmysql _ hlimit => limit_suffix hmysql htail hlimit) fun n hserver hlimit => ?_
    -- the body stands in front of the conditions, and these in front of an order
    refine (startsWith_top hserver hlimit "update" (table.text ++ " set " ++ assigned.text)).trans
      (.trans ?_ ((prefix_words _ _).trans (prefix_words _ _)))
    simp
  | @joinedBehind joins hrowIds hjoins _ _ =>
    -- with joins only SQL Server takes a limit
    refine ⟨fun hrows => absurd hrows hrowIds, fun _ => ?_⟩
    refine changesInPlace_of hpassed (mt usesRowIds_iff_needsRowIds.2 hrowIds)
      (fun n _ hnone _ => absurd (List.isEmpty_iff.2 hnone) hjoins) fun n hserver hlimit => ?_
    refine (startsWith_top hserver hlimit "update" (Target.joinedTarget table ++ " set " ++
      assigned.text ++ " from " ++ table.text ++ " " ++ joins.text)).trans
        (.trans ?_ (prefix_words _ _))
    simp
  | joinedBefore hrowIds hjoins hother _ =>
    refine ⟨fun hrows => absurd hrows hrowIds, fun _ => ?_⟩
    exact changesInPlace_of hpassed (mt usesRowIds_iff_needsRowIds.2 hrowIds)
      (fun n _ hnone _ => absurd (List.isEmpty_iff.2 hnone) hjoins)
      fun n hserver _ => absurd hserver hother

/-- A delete writes every clause that restricts its rows, in the place that its dialect has. -/
theorem delete_restricted (h : t.delete q = .ok sql) :
    (∀ clause, ¬t.CannotCarry q clause) ∧
      (NeedsRowIds t q → ChangesByRowIds t q .delete sql) ∧
      (¬NeedsRowIds t q → ChangesInPlace t q .delete sql) := by
  obtain ⟨hcheck, table, wheres, _, htable, -, hform, rfl⟩ := delete_eq_ok h
  have hpassed := checkWrite_eq_ok_iff.1 hcheck
  refine ⟨hpassed, ?_⟩
  rw [← usesRowIds_iff_needsRowIds]
  cases hform with
  | rowIds hrowIds hcondition =>
    refine ⟨fun _ => ?_, fun hrows => absurd hrowIds hrows⟩
    refine changesByRowIds_of ("delete from " ++ table) (usesRowIds_iff_needsRowIds.1 hrowIds)
      (unions_eq_nil hpassed) ?_ hcondition (by simp)
    rw [Target.changeHead, htable]
    rfl
  | single hrowIds _ htail =>
    refine ⟨fun hrows => absurd hrows hrowIds, fun _ => ?_⟩
    refine changesInPlace_of hpassed (mt usesRowIds_iff_needsRowIds.2 hrowIds)
      (fun n hmysql _ hlimit => limit_suffix hmysql htail hlimit) fun n hserver hlimit => ?_
    refine (startsWith_top hserver hlimit "delete" ("from " ++ table.text)).trans
      (.trans ?_ ((prefix_words _ _).trans (prefix_words _ _)))
    simp
  | @joined joins hrowIds hjoins _ =>
    refine ⟨fun hrows => absurd hrows hrowIds, fun _ => ?_⟩
    refine changesInPlace_of hpassed (mt usesRowIds_iff_needsRowIds.2 hrowIds)
      (fun n _ hnone _ => absurd (List.isEmpty_iff.2 hnone) hjoins) fun n hserver hlimit => ?_
    refine (startsWith_top hserver hlimit "delete" (Target.joinedTarget table ++ " from " ++
      table.text ++ " " ++ joins.text)).trans (.trans ?_ (prefix_words _ _))
    simp

/-! ## §6 Clauses that compile -/

/-- A change whose table and clauses have SQL, one by one. The columns that rows are grouped and
sorted by are no part of this: where a statement writes them, they always have SQL. -/
structure Changeable (t : Target) (q : Query) (c : RowChange) : Prop where
  table : ∃ sql, t.writeTable q = .ok sql
  joins : ∃ sql, t.joins q.joins = .ok sql
  wheres : ∃ sql, t.wheresClause q.wheres = .ok sql
  havings : ∃ sql, t.havingClause q.havings = .ok sql
  assigned : ∀ row, c = .update row →
    row.isEmpty = false ∧ ∃ sql, t.assignments row = .ok sql

/-- The select of row identifiers has SQL if its clauses have. -/
theorem rowIdQuery_compiles {c : RowChange} {tbl : Table} (hc : Changeable t q c)
    (hrows : NeedsRowIds t q) (hunions : q.unions = []) (hsource : q.source = some tbl) :
    ∃ select, t.select (t.rowIdQuery q tbl) = .ok select := by
  have hjson : Feature.jsonSelectors ∉ t.dialect.missing := by
    rcases hrows.1 with hdialect | hdialect <;> rw [hdialect] <;> decide
  obtain ⟨_, htable⟩ := hc.table
  obtain ⟨_, hjoins⟩ := hc.joins
  obtain ⟨_, hwheres⟩ := hc.wheres
  obtain ⟨_, hhavings⟩ := hc.havings
  rw [Target.writeTable, hsource] at htable
  have hwheresFail : FailsFor t (t.clauseConstructs q.wheres) (t.wheresClause q.wheres) :=
    (clauses_failsFor q.wheres).map _
  -- every construct of the select is one of a clause that has SQL, or a column
  refine (select_failsFor (t.rowIdQuery q tbl)).exists_ok fun d hd => ?_
  rw [Target.selectConstructs_eq] at hd
  simp only [Query.constructsAround, Query.unionConstructs, Target.rowIdQuery, hunions, hsource,
    List.isEmpty_nil, if_true, Option.isNone_none, Bool.true_or, Option.getD_some, List.nil_append,
    List.append_nil, List.mem_append] at hd
  rcases hd with (((((hd | hd) | hd) | hd) | hd) | hd) | hd
  · exact columnConstructs_accepted hjson _ d hd
  · exact (table_failsFor tbl).accepts htable d hd
  · exact (joins_failsFor q.joins).accepts hjoins d hd
  · exact hwheresFail.accepts hwheres d hd
  · exact columnConstructs_accepted hjson _ d hd
  · exact (havingClause_failsFor q.havings).accepts hhavings d hd
  · exact orderConstructs_accepted hjson _ d hd

/-- In MySQL, the only dialect that sorts the rows of a statement, any order has SQL. -/
theorem writeOrder_compiles (t : Target) (q : Query) : ∃ tail, t.writeOrder q = .ok tail := by
  unfold Target.writeOrder
  split
  · rename_i hmysql
    have hjson : Feature.jsonSelectors ∉ t.dialect.missing := by
      rw [hmysql]
      decide
    obtain ⟨orders, horders⟩ :=
      (ordersClause_failsFor (t := t) q.orders).exists_ok (orderConstructs_accepted hjson _)
    rw [horders]
    exact ⟨_, rfl⟩
  · exact ⟨_, rfl⟩

theorem rowIdCondition_compiles {c : RowChange} (hc : Changeable t q c) (hrows : NeedsRowIds t q)
    (hunions : q.unions = []) : ∃ rows, t.rowIdCondition q = .ok rows := by
  unfold Target.rowIdCondition
  split
  · rename_i hnone
    obtain ⟨_, htable⟩ := hc.table
    rw [Target.writeTable, hnone] at htable
    cases htable
  · rename_i tbl hsource
    obtain ⟨select, hselect⟩ := rowIdQuery_compiles hc hrows hunions hsource
    rw [quote_rowId, hselect]
    exact ⟨_, rfl⟩

/-- A change with a place for all of its clauses has SQL if these have. -/
theorem change_compiles {c : RowChange} (hc : Changeable t q c)
    (hcarried : ∀ clause, ¬t.CannotCarry q clause) : ∃ sql, t.change q c = .ok sql := by
  have hcheck : t.checkWrite q c.write = .ok () := checkWrite_eq_ok_iff.2 hcarried
  obtain ⟨tbl, htable⟩ := hc.table
  obtain ⟨wheres, hwheres⟩ := hc.wheres
  obtain ⟨joins, hjoins⟩ := hc.joins
  obtain ⟨tail, htail⟩ := writeOrder_compiles t q
  -- the select of row identifiers is tried only where it is needed
  have hrowIds : t.usesRowIds q = true → ∃ rows, t.rowIdCondition q = .ok rows := fun hrows =>
    rowIdCondition_compiles hc (usesRowIds_iff_needsRowIds.1 hrows) (unions_eq_nil hcarried)
  cases c with
  | update row =>
    obtain ⟨hempty, assigned, hassigned⟩ := hc.assigned row rfl
    have hcheck : t.checkWrite q .update = .ok () := hcheck
    simp only [Target.change, Target.update, hempty, hcheck, htable, hassigned, hwheres]
    by_cases hrows : t.usesRowIds q = true
    · obtain ⟨rows, hcondition⟩ := hrowIds hrows
      simp only [hrows, hcondition, if_true]
      exact ⟨_, rfl⟩
    · simp only [hrows, htail, hjoins]
      by_cases hnone : q.joins.isEmpty = true
      · simp only [hnone, if_true]
        exact ⟨_, rfl⟩
      · simp only [hnone]
        cases t.dialect <;> exact ⟨_, rfl⟩
  | delete =>
    have hcheck : t.checkWrite q .delete = .ok () := hcheck
    simp only [Target.change, Target.delete, hcheck, htable, hwheres]
    by_cases hrows : t.usesRowIds q = true
    · obtain ⟨rows, hcondition⟩ := hrowIds hrows
      simp only [hrows, hcondition, if_true]
      exact ⟨_, rfl⟩
    · simp only [hrows, htail, hjoins]
      by_cases hnone : q.joins.isEmpty = true
      · simp only [hnone, if_true]
        exact ⟨_, rfl⟩
      · simp only [hnone]
        exact ⟨_, rfl⟩

/-- A clause without a place is rejected as an invalid option, before anything else but an update
without assignments. -/
theorem change_rejected {c : RowChange} {clause : Restriction}
    (hrow : ∀ row, c = .update row → row.isEmpty = false) (hclause : t.CannotCarry q clause) :
    ∃ f, t.change q c = .error f ∧ f.kind = .invalidOption := by
  obtain ⟨f, hf, hkind⟩ := checkWrite_error c.write hclause
  refine ⟨f, ?_, hkind⟩
  cases c with
  | update row =>
    have hcheck : t.checkWrite q .update = .error f := hf
    simp only [Target.change, Target.update, hrow row rfl, hcheck]
    rfl
  | delete =>
    have hcheck : t.checkWrite q .delete = .error f := hf
    simp only [Target.change, Target.delete, hcheck]
    rfl

/-! ## §7 No restriction is dropped -/

/-- An update or delete that has SQL writes every clause that restricts its rows: all of them in a
select of row identifiers, or else a limit where the statement has a place for it, while there are
no others. With clauses that have SQL, it is rejected exactly for a clause without a place. -/
theorem change_restrictions (t : Target) (q : Query) (c : RowChange) :
    (∀ sql, t.change q c = .ok sql → q.unions = [] ∧
      (NeedsRowIds t q → ChangesByRowIds t q c sql) ∧
      (¬NeedsRowIds t q → ChangesInPlace t q c sql)) ∧
    (Changeable t q c →
      ((∃ f, t.change q c = .error f ∧ f.kind = .invalidOption) ↔
        ∃ clause, t.CannotCarry q clause)) := by
  refine ⟨fun sql hsql => ?_, fun hc => ⟨fun ⟨f, hf, _⟩ => ?_, fun ⟨clause, hclause⟩ => ?_⟩⟩
  · have hrestricted : (∀ clause, ¬t.CannotCarry q clause) ∧
        (NeedsRowIds t q → ChangesByRowIds t q c sql) ∧
        (¬NeedsRowIds t q → ChangesInPlace t q c sql) := by
      cases c with
      | update row => exact update_restricted hsql
      | delete => exact delete_restricted hsql
    exact ⟨unions_eq_nil hrestricted.1, hrestricted.2⟩
  · -- a change without such a clause would have SQL
    by_contra hnone
    obtain ⟨sql, hsql⟩ := change_compiles hc fun clause hclause => hnone ⟨clause, hclause⟩
    cases hf.symm.trans hsql
  · exact change_rejected (fun row hrow => (hc.assigned row hrow).1) hclause

/-- The five oldest jobs. -/
def oldestJobs : Query :=
  { Query.empty with
    source := some (.named "jobs")
    orders := [.column (.named "created_at") .asc]
    limit := some 5 }

/-- PostgreSQL deletes the oldest jobs by their row identifiers; SQL without a place for the limit
deletes nothing rather than all jobs. -/
theorem oldestJobs_restrictions :
    (∃ sql, (⟨.postgres, {}⟩ : Target).change oldestJobs .delete = .ok sql ∧
      ChangesByRowIds ⟨.postgres, {}⟩ oldestJobs .delete sql) ∧
    ∃ f, (⟨.generic, {}⟩ : Target).change oldestJobs .delete = .error f ∧
      f.kind = .invalidOption := by
  have hchangeable : ∀ t : Target, Changeable t oldestJobs .delete := fun t =>
    ⟨⟨_, rfl⟩, ⟨_, rfl⟩, ⟨_, rfl⟩, ⟨_, rfl⟩, nofun⟩
  have hrows : NeedsRowIds ⟨.postgres, {}⟩ oldestJobs := ⟨.inl rfl, .inr (by simp [oldestJobs])⟩
  constructor
  · obtain ⟨sql, hsql⟩ := change_compiles (hchangeable ⟨.postgres, {}⟩) fun clause hclause => by
      cases hclause with
      | union hne => exact hne rfl
      | groupBy hnone | having hnone | offset hnone | limit hnone => exact hnone hrows
    exact ⟨sql, hsql, ((change_restrictions _ _ _).1 sql hsql).2.1 hrows⟩
  · refine ((change_restrictions _ _ _).2 (hchangeable ⟨.generic, {}⟩)).2 ⟨.limit, .limit ?_ ?_ ?_⟩
    · rintro ⟨hdialect | hdialect, _⟩ <;> cases hdialect
    · simp [oldestJobs]
    · rintro (⟨hdialect, _⟩ | hdialect) <;> cases hdialect

end SqlCompiler
