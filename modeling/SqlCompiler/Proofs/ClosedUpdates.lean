import SqlCompiler.Proofs.ClosedInserts
import SqlCompiler.Proofs.WriteAlignment

/-!
# Closed Updates and Deletes

Updates and deletes are closed in every layout. A joined statement names its target by what follows
the last alias of the table's SQL. That is the quoted alias itself: none of the names around it has
an alias left in it.

## Main statements

- `joinedTarget_closed`: the name of a joined target is closed
- `assignments_closed`: the assignments of an update
- `update_closed`, `delete_closed`: the statements
-/

namespace SqlCompiler

variable {t : Target} {q : Query} {sql : Sql}

/-! ## §1 Joined targets -/

/-- The separator in front of an alias. -/
def aliasWord : List Char := [' ', 'a', 's', ' ']

/-- A text without a separator of aliases in it, and not across its beginning. -/
def Unseparated (s : String) : Prop :=
  ¬ aliasWord <:+: ['a', 's', ' '] ++ s.toList

/-- A text that neither contains the word for an alias nor could complete it behind another text. -/
theorem unseparated_of {s : String} (hfree : ¬ aliasWord <:+: s.toList)
    (hhead : s.toList.head? ≠ some 'a') : Unseparated s := by
  intro h
  rcases List.infix_cons_iff.1 h with h | h
  · exact absurd (List.cons_prefix_cons.1 h).1 (by decide)
  · rcases List.infix_cons_iff.1 h with h | h
    · exact absurd (List.cons_prefix_cons.1 h).1 (by decide)
    · rcases List.infix_cons_iff.1 h with h | h
      · -- the separator would go on with the text
        obtain ⟨rest, hrest⟩ := (List.cons_prefix_cons.1 h).2
        exact hhead (by simp [show s.toList = 'a' :: 's' :: ' ' :: rest from hrest.symm])
      · exact hfree h

/-- A text without the word is its own target. -/
theorem afterLast_of_unseparated {s : String} (h : Unseparated s) :
    Text.afterLast " as " s = s :=
  Text.afterLast_eq_self fun hin => h (hin.trans (List.suffix_append _ _).isInfix)

/-- The target is what stands behind the last word for an alias. -/
theorem afterLast_append_of_unseparated {s : String} (h : Unseparated s) (before : String) :
    Text.afterLast " as " (before ++ " as " ++ s) = s :=
  Text.afterLast_append (show " as ".toList = ' ' :: ['a', 's', ' '] from rfl) before h

/-- The word for an alias has no quotes of any dialect. -/
theorem mark_not_mem_aliasWord (d : Dialect) :
    d.openQuote ∉ aliasWord ∧ d.closeQuote ∉ aliasWord := by
  cases d <;> decide

/-- A separator in an identifier stands in its name. -/
theorem infix_of_quoteIdentifier {name : String}
    (h : aliasWord <:+: (t.quoteIdentifier name).toList) : aliasWord <:+: name.toList := by
  obtain ⟨hopen, hclose⟩ := mark_not_mem_aliasWord t.dialect
  have hempty : ¬ aliasWord <:+: [] := by decide
  rw [Target.quoteIdentifier] at h
  split at h
  · exact h
  · rw [String.toList_append, String.toList_append, Char.toString_eq_singleton,
      Char.toString_eq_singleton, String.toList_singleton, String.toList_singleton, Text.double,
      String.toList_ofList] at h
    -- the word has no quotes, and so it is in the name between them
    have hinner := (Text.infix_append_cons hclose h).resolve_right hempty
    have hdouble := Text.infix_of_infix_cons hopen hinner
    exact Text.infix_of_doubleChars hclose hdouble

/-- An identifier is the star or begins with a quote. -/
theorem head_quoteIdentifier (t : Target) (name : String) :
    ∃ c, (t.quoteIdentifier name).toList.head? = some c ∧ c ≠ 'a' := by
  rw [Target.quoteIdentifier]
  split
  · rename_i hstar
    rw [hstar]
    exact ⟨'*', rfl, by decide⟩
  · refine ⟨t.dialect.openQuote, by simp, ?_⟩
    cases t.dialect <;> decide

/-- A separator in a prefixed identifier stands in its name: the prefix is one word. -/
theorem infix_of_quotePrefixed {name : String} (hp : t.PrefixFits)
    (h : aliasWord <:+: (t.quotePrefixed name).toList) : aliasWord <:+: name.toList := by
  have hin := infix_of_quoteIdentifier h
  rw [String.toList_append] at hin
  refine Text.infix_of_not_mem_append (fun hblank => ?_) hin
  have hword := hp.noBlank ' ' hblank
  exact absurd hword (by decide)

/-- A quoted name cannot be taken apart at an alias unless the name can. -/
theorem unseparated_quotePrefixed {name : String} (hp : t.PrefixFits)
    (h : ¬ aliasWord <:+: name.toList) : Unseparated (t.quotePrefixed name) := by
  obtain ⟨c, hhead, hc⟩ := head_quoteIdentifier t (t.options.tablePrefix ++ name)
  refine unseparated_of (fun hin => h (infix_of_quotePrefixed hp hin)) ?_
  rw [Target.quotePrefixed, hhead]
  simpa using hc

theorem unseparated_quotedSegments {table : String} (hp : t.PrefixFits)
    (h : ¬ aliasWord <:+: table.toList) : Unseparated (t.quotedSegments table) := by
  unfold Target.quotedSegments
  split
  · rename_i schema name hsplit
    have htable := Text.splitLast?_eq_append hsplit
    have hpart : ∀ part : List Char, part <:+: table.toList → ¬ aliasWord <:+: part :=
      fun part hin hword => h (hword.trans hin)
    have hdot : '.' ∉ aliasWord := by decide
    -- no word in the schema, and none across the dot behind it
    have hsegments : ¬ aliasWord <:+:
        (Text.join "." ((Text.splitOn "." schema).map t.quoteIdentifier)).toList := by
      intro hin
      rw [Text.join, String.toList_ofList] at hin
      obtain ⟨piece, hpiece, hin⟩ := Text.infix_of_joinChars hdot (by decide) hin
      simp only [List.map_map, List.mem_map, Function.comp_apply] at hpiece
      obtain ⟨segment, hsegment, rfl⟩ := hpiece
      refine hpart segment.toList ?_ (infix_of_quoteIdentifier hin)
      refine (Text.infix_of_mem_splitOn (by decide) hsegment).trans ?_
      rw [htable, List.append_assoc]
      exact (List.prefix_append _ _).isInfix
    refine unseparated_of (fun hin => ?_) ?_
    · rw [String.toList_append, String.toList_append, List.append_assoc] at hin
      rcases Text.infix_append_cons hdot hin with hin | hin
      · exact hsegments hin
      · refine hpart name.toList ?_ (infix_of_quotePrefixed hp hin)
        rw [htable]
        exact (List.suffix_append _ _).isInfix
    · -- the first segment begins the text
      cases hsegment : Text.splitOn "." schema with
      | nil => exact absurd hsegment (Text.splitOn_ne_nil "." schema)
      | cons first rest =>
        obtain ⟨c, hhead, hc⟩ := head_quoteIdentifier t first
        have hfirst : (Text.join "." ((first :: rest).map t.quoteIdentifier)).toList.head? =
            some c := by
          rw [Text.join, String.toList_ofList]
          cases rest <;> simp [Text.joinChars, hhead]
        rw [String.toList_append, String.toList_append, List.append_assoc, List.head?_append,
          hfirst]
        simpa using hc
  · exact unseparated_quotePrefixed hp h

/-- What follows the last alias of a table is closed. -/
theorem quoteTable_last {table : String} (hp : t.PrefixFits) (h : t.TableFits table) :
    ∃ last, TextClosed t.dialect last ∧ Unseparated last ∧
      (t.quoteTable table = last ∨ ∃ before, t.quoteTable table = before ++ " as " ++ last) := by
  rw [quoteTable_eq hp h]
  -- without an alias the table itself comes last
  cases hsplit : splitAlias? table with
  | none =>
    refine ⟨_, quotedSegments_closed t table, unseparated_quotedSegments hp ?_, .inl rfl⟩
    exact not_infix_of_splitAs?_eq_none (splitAlias?_eq_none_iff.1 hsplit)
  | some sides =>
    obtain ⟨name, asName⟩ := sides
    refine ⟨_, quotePrefixed_closed t asName, unseparated_quotePrefixed hp ?_, .inr ⟨_, rfl⟩⟩
    exact not_infix_of_splitAs?_eq_none (splitAlias?_alias hsplit).2

/-- A table that is written by its name or from its query. -/
def Table.isRaw : Table → Bool
  | .raw _ _ => true
  | _ => false

/-- The name of a joined target is closed. -/
theorem joinedTarget_closed {tbl : Table} (hp : t.PrefixFits) (hraw : tbl.isRaw = false)
    (hm : t.AdmitsAll tbl.ingredients) (h : t.table tbl = .ok sql) :
    TextClosed t.dialect (Target.joinedTarget sql) := by
  unfold Target.joinedTarget
  cases tbl with
  | named name =>
    rw [Target.table] at h
    cases h
    simp only [Table.ingredients, admitsAll_cons, admitsAll_nil, and_true] at hm
    rw [Sql.text_ofString]
    obtain ⟨last, hclosed, hlast, htext | ⟨before, htext⟩⟩ := quoteTable_last hp hm.1
    · rw [htext, afterLast_of_unseparated hlast]
      exact hclosed
    · rw [htext, afterLast_append_of_unseparated hlast]
      exact hclosed
  | derived query asName =>
    simp only [Table.ingredients, admitsAll_append, admitsAll_cons, admitsAll_nil, and_true] at hm
    simp only [Target.table, bind_eq_ok, pure_eq_ok] at h
    obtain ⟨select, _, rfl⟩ := h
    -- the alias stands behind the parenthesis of the select
    have hword : ") as " = ")" ++ " as " := by decide
    simp only [Sql.text_append, Sql.text_ofString]
    obtain ⟨last, hclosed, hlast, htext | ⟨before, htext⟩⟩ := quoteTable_last hp hm.2.1
    · rw [htext, hword, ← String.append_assoc, afterLast_append_of_unseparated hlast]
      exact hclosed
    · rw [htext, ← String.append_assoc, ← String.append_assoc,
        afterLast_append_of_unseparated hlast]
      exact hclosed
  | raw text bindings => cases hraw

/-! ## §2 Assignments -/

/-- Part of a name that fits: only SQL Server looks at qualifiers. -/
theorem Target.NameFits.of_isInfix {part name : String} (hserver : t.dialect ≠ .sqlserver)
    (h : t.NameFits name) (hpart : part.toList <:+: name.toList) : t.NameFits part where
  quotes hpostgres hselector hquote :=
    h.quotes hpostgres (isSelector_of_isInfix hpart hselector) (hpart.subset hquote)
  qualifier hdialect := absurd hdialect hserver

/-- The name of a column without its qualifier is a part of the key. -/
theorem unqualified_isInfix (key : String) : (unqualified key).toList <:+: key.toList :=
  (Text.afterLast_suffix "." key).isInfix

/-- An assignment to a column. -/
theorem assignment_closed {name key : String} {value : Value} (hp : t.PrefixFits)
    (hname : t.NameFits name) (hvalue : t.AdmitsAll value.ingredients)
    (h : t.assignment name key value = .ok sql) : Closed t.dialect sql := by
  simp only [Target.assignment, bind_eq_ok, pure_eq_ok] at h
  obtain ⟨column, hcolumn, rfl⟩ := h
  exact fun depth => ((leads_ofString.2 (quote_closed hp hname hcolumn depth)).text
    rfl rfl).closed (parameterFor_closed hvalue)

/-- MySQL: the place of a value in a document. -/
def placedInDocument (value : Value) : Sql :=
  match value with
  | .bool b => if b then "true" else "false"
  | _ =>
    if value.isContainer then "cast(" ++ Sql.parameterFor value value.jsonText ++ " as json)"
    else .parameter value

/-- What is assigned inside of a document: a word, a cast, or the place of a value. -/
theorem placedInDocument_closed {value : Value} (hvalue : t.AdmitsAll value.ingredients) :
    Closed t.dialect (placedInDocument value) := by
  unfold placedInDocument
  split
  · split
    · exact fun _ => leads rfl rfl
    · exact fun _ => leads rfl rfl
  · split
    · exact fun _ => ((leads rfl rfl).closed (parameterFor_closed hvalue)).text rfl rfl
    · exact parameter_closed hvalue

/-- An assignment into a document of MySQL, with its parts by name. -/
theorem setDocument_eq (t : Target) (key : String) (value : Value) :
    t.setDocument key value =
      Sql.ofString (t.fieldAndPath key).1 ++ " = json_set(" ++ (t.fieldAndPath key).1 ++
        (t.fieldAndPath key).2 ++ ", " ++ placedInDocument value ++ ")" := by
  cases value <;> rfl

/-- An assignment into a document of MySQL is closed. -/
theorem setDocument_closed {key : String} {value : Value} (hp : t.PrefixFits)
    (hkey : t.NameFits key) (hvalue : t.AdmitsAll value.ingredients) :
    Closed t.dialect (t.setDocument key value) := by
  obtain ⟨hfield, hpath⟩ := fieldAndPath_closed hp hkey.qualifier
  rw [setDocument_eq]
  exact fun depth => ((((((leads_ofString.2 (hfield depth)).text rfl rfl).string
    (hfield _)).string (hpath _)).text rfl rfl).closed
      (placedInDocument_closed hvalue)).text rfl rfl

/-- The steps of a path that PostgreSQL writes into one literal. -/
theorem textLeads_pathAttributes {d : Dialect} {depth : Nat} {steps : List String}
    (h : ∀ step ∈ steps, '\'' ∉ step.toList) :
    TextLeads d (.inside .literal depth) (Text.join "," (pathAttributes "\"" steps))
      (.inside .literal depth) := by
  refine reads_paired (paired_of_not_mem fun hmem => ?_)
  rcases Text.mem_join hmem with hmem | ⟨operand, hoperand, hmem⟩
  · exact absurd hmem (by decide)
  · obtain ⟨part, hpart, rfl⟩ := List.mem_map.1 hoperand
    obtain ⟨step, hstep, hpart⟩ := List.mem_flatMap.1 (List.mem_filter.1 hpart).1
    have hfree : '\'' ∉ part.toList :=
      fun hmem => h step hstep ((stepParts_isInfix hpart).subset hmem)
    have hmark : '\'' ∉ "\"".toList := by decide
    split at hmem
    · exact hfree hmem
    · simp only [String.toList_append, List.mem_append] at hmem
      rcases hmem with (hmem | hmem) | hmem
      · exact hmark hmem
      · exact hfree hmem
      · exact hmark hmem

/-- PostgreSQL: the path of an assignment has no quotes, as its key has none. -/
theorem setJsonb_closed {key : String} {value : Value} (hp : t.PrefixFits)
    (hpostgres : t.dialect = .postgres) (hquote : '\'' ∉ key.toList)
    (hvalue : t.AdmitsAll value.ingredients) (h : t.setJsonb key value = .ok sql) :
    Closed t.dialect sql := by
  -- neither the column nor a step of the path has a quote
  have hpart : ∀ part ∈ Text.splitOn arrow key, '\'' ∉ part.toList := fun part hpart hmem =>
    hquote (Text.mem_of_mem_splitOn (by decide) hpart hmem)
  unfold Target.setJsonb at h
  split at h
  · exact absurd ‹_› (Text.splitOn_ne_nil _ _)
  · rename_i column steps hsplit
    rw [hsplit, List.forall_mem_cons] at hpart
    simp only [bind_eq_ok, pure_eq_ok] at h
    obtain ⟨field, hfield, rfl⟩ := h
    have hcolumn : t.NameFits column := ⟨fun _ _ => hpart.1, .of_postgres hpostgres _⟩
    have hclosed := quote_closed hp hcolumn hfield
    exact fun depth => ((((((leads_ofString.2 (hclosed depth)).text rfl rfl).string
      (hclosed _)).text rfl rfl).string (textLeads_pathAttributes hpart.2)).text rfl rfl).closed
        (parameterFor_closed hvalue) |>.text rfl rfl

/-- A merged document is bound, so that nothing of it stands in the text. -/
theorem mergePatch_closed {column : String} {doc : Json} (hp : t.PrefixFits)
    (hcolumn : t.NameFits column) (h : t.mergePatch column doc = .ok sql) :
    Closed t.dialect sql := by
  simp only [Target.mergePatch, bind_eq_ok, pure_eq_ok] at h
  obtain ⟨field, hfield, rfl⟩ := h
  have hclosed := quote_closed hp hcolumn hfield
  have hdoc : Closed t.dialect (.parameter (.text doc.compact)) :=
    parameter_closed fun _ hmem => absurd hmem List.not_mem_nil
  exact fun depth => (((((leads_ofString.2 (hclosed depth)).text rfl rfl).string
    (hclosed _)).text rfl rfl).closed hdoc).text rfl rfl

/-- SQLite quotes every name. -/
theorem nameFits_of_sqlite (h : t.dialect = .sqlite) (name : String) : t.NameFits name where
  quotes hpostgres := absurd (h.symm.trans hpostgres) (by decide)
  qualifier hserver := absurd (h.symm.trans hserver) (by decide)

/-- The assignments of an update are closed if its row brings in only what may be brought in. -/
theorem assignments_closed {row : Row} (hp : t.PrefixFits) (hm : t.AdmitsAll row.ingredients)
    (h : t.assignments row = .ok sql) : Closed t.dialect sql := by
  rw [admitsAll_row] at hm
  unfold Target.assignments at h
  cases ht : t.dialect with
  | generic | sqlserver =>
    simp only [ht, bind_eq_ok, pure_eq_ok] at h
    obtain ⟨parts, hparts, rfl⟩ := h
    rw [← ht]
    exact closed_join comma_closed (forall_of_mapM hparts fun entry hentry _ hsql =>
      assignment_closed hp (hm entry hentry).1 (hm entry hentry).2 hsql)
  | mysql =>
    simp only [ht, bind_eq_ok, pure_eq_ok] at h
    obtain ⟨parts, hparts, rfl⟩ := h
    rw [← ht]
    refine closed_join comma_closed (forall_of_mapM hparts fun entry hentry sql hsql => ?_)
    obtain ⟨hkey, hvalue⟩ := hm entry hentry
    split at hsql
    · cases hsql
      exact setDocument_closed hp hkey hvalue
    · exact assignment_closed hp hkey hvalue hsql
  | postgres =>
    simp only [ht, bind_eq_ok, pure_eq_ok] at h
    obtain ⟨parts, hparts, rfl⟩ := h
    rw [← ht]
    refine closed_join comma_closed (forall_of_mapM hparts fun entry hentry sql hsql => ?_)
    obtain ⟨hkey, hvalue⟩ := hm entry hentry
    have hpart := unqualified_isInfix entry.1
    split at hsql
    · rename_i hselector
      have hquote := hkey.quotes ht hselector
      exact setJsonb_closed hp ht (fun hmem => hquote (hpart.subset hmem)) hvalue hsql
    · have hserver : t.dialect ≠ .sqlserver := by simp [ht]
      exact assignment_closed hp (hkey.of_isInfix hserver hpart) hvalue hsql
  | sqlite =>
    simp only [ht, bind_eq_ok, pure_eq_ok] at h
    obtain ⟨plain, hplain, merged, hmerged, parts, rfl, rfl⟩ := h
    rw [← ht]
    -- plain columns first, and then the merged documents
    refine closed_join comma_closed (List.forall_mem_append.2 ⟨?_, ?_⟩)
    · refine forall_of_mapM hplain fun entry hentry sql hsql => ?_
      have hvalue := (hm entry (List.mem_filter.1 hentry).1).2
      exact assignment_closed hp (nameFits_of_sqlite ht _) hvalue hsql
    · exact forall_of_mapM hmerged fun _ _ _ hsql =>
        mergePatch_closed hp (nameFits_of_sqlite ht _) hsql

/-! ## §3 Layout -/

theorem writeTop_closed {d : Dialect} (q : Query) : TextClosed d (t.writeTop q) := by
  unfold Target.writeTop
  split
  · exact fun _ => ((textLeads rfl rfl).closed (toString_closed _)).text rfl rfl
  · exact fun _ => textLeads_empty

/-- Order and limit behind a write. -/
theorem writeOrder_closed {tail : List Sql} (hp : t.PrefixFits)
    (hm : t.AdmitsAll (orderIngredients q.orders)) (h : t.writeOrder q = .ok tail) :
    ∀ part ∈ tail, Closed t.dialect part := by
  unfold Target.writeOrder at h
  split at h
  · simp only [bind_eq_ok, pure_eq_ok] at h
    obtain ⟨orders, horders, rfl⟩ := h
    refine List.forall_mem_cons.2
      ⟨ordersClause_closed hp hm horders, List.forall_mem_singleton.2 ?_⟩
    split
    · exact closed_ofString (limitClause_closed _ none)
    · exact fun _ => leads rfl rfl
  · cases h
    exact fun _ hpart => absurd hpart List.not_mem_nil

theorem wheresClause_closed (hp : t.PrefixFits) (hm : t.AdmitsAll (clauseIngredients q.wheres))
    (h : t.wheresClause q.wheres = .ok sql) : Closed t.dialect sql := by
  obtain ⟨clauses, hclauses, rfl⟩ := wheresClause_eq_ok h
  exact conditions_closed (fun _ => textLeads rfl rfl) (clauses_closed hp q.wheres hm hclauses)

/-- The name of a table in the rest of a statement stands in what the table brings in. -/
theorem tableAlias_fits {tbl : Table} (hraw : tbl.isRaw = false) (hm : t.AdmitsAll tbl.ingredients)
    (hpostgres : t.dialect = .postgres) (hselector : isSelector (Target.tableAlias tbl) = true) :
    '\'' ∉ (Target.tableAlias tbl).toList := by
  cases tbl with
  | named name =>
    simp only [Table.ingredients, admitsAll_cons, admitsAll_nil, and_true] at hm
    unfold Target.tableAlias at hselector ⊢
    have hpart : ((splitAlias? name).elim name Prod.snd).toList <:+: name.toList := by
      cases hsplit : splitAlias? name with
      | none => exact List.infix_rfl
      | some sides => exact (splitAlias?_alias hsplit).1
    have hquote := hm.2 hpostgres (isSelector_of_isInfix hpart hselector)
    exact fun hmem => hquote (hpart.subset hmem)
  | derived query asName =>
    simp only [Table.ingredients, admitsAll_append, admitsAll_cons, admitsAll_nil, and_true] at hm
    exact hm.2.2 hpostgres hselector
  | raw text bindings => cases hraw

/-- The identifier of a row, qualified by its table, can be quoted. -/
theorem rowId_fits {tbl : Table} (hserver : t.dialect ≠ .sqlserver) (hraw : tbl.isRaw = false)
    (hm : t.AdmitsAll tbl.ingredients) :
    t.NameFits (Target.tableAlias tbl ++ "." ++ t.dialect.rowId) := by
  refine ⟨fun hpostgres hselector => ?_, fun hdialect => absurd hdialect hserver⟩
  have hrowId : t.dialect.rowId = "ctid" := by rw [hpostgres]; rfl
  rw [hrowId, isSelector_iff, String.toList_append, String.toList_append,
    List.append_assoc] at hselector
  -- no arrow reaches across the dot, nor stands behind it
  have halias : arrow.toList <:+: (Target.tableAlias tbl).toList :=
    (Text.infix_append_cons (by decide) hselector).resolve_right (by decide)
  have hquote := tableAlias_fits hraw hm hpostgres (isSelector_iff.2 halias)
  rw [hrowId, String.toList_append, String.toList_append]
  simpa using hquote

/-- The condition on identifiers of rows is a select between parentheses. -/
theorem rowIdCondition_closed (hp : t.PrefixFits) (hm : t.AdmitsAll q.ingredients)
    (hserver : t.dialect ≠ .sqlserver) (hraw : ∀ tbl, q.source = some tbl → tbl.isRaw = false)
    (h : t.rowIdCondition q = .ok sql) : Closed t.dialect sql := by
  obtain ⟨tbl, rowId, select, hsource, hrowId, hselect, rfl⟩ := rowIdCondition_eq_ok h
  have hname : t.NameFits t.dialect.rowId := by
    refine nameFits_of_simple ?_ ?_ <;> cases t.dialect <;> decide
  -- the query selects the row identifier, and is the same apart from that
  have hquery : t.AdmitsAll (t.rowIdQuery q tbl).ingredients := by
    rw [Query.ingredients_eq] at hm ⊢
    simp only [admitsAll_append] at hm ⊢
    obtain ⟨⟨⟨⟨⟨⟨⟨⟨⟨⟨⟨hq, -⟩, hdistinct⟩, -⟩, hjoins⟩, hwheres⟩, hgroups⟩, hhavings⟩, horders⟩,
      hlock⟩, hunions⟩, hunionOrders⟩ := hm
    have htbl : t.AdmitsAll tbl.ingredients := by rwa [hsource] at hq
    have hcolumn : t.AdmitsAll [.name (Target.tableAlias tbl ++ "." ++ t.dialect.rowId)] :=
      admitsAll_cons.2 ⟨rowId_fits hserver (hraw tbl hsource) htbl, admitsAll_nil⟩
    exact ⟨⟨⟨⟨⟨⟨⟨⟨⟨⟨⟨hq, hcolumn⟩, hdistinct⟩, admitsAll_nil⟩, hjoins⟩, hwheres⟩, hgroups⟩,
      hhavings⟩, horders⟩, hlock⟩, hunions⟩, hunionOrders⟩
  have hclosed := select_closed hp (t.rowIdQuery q tbl) hquery hselect
  exact fun depth => (((leads_ofString.2 (quote_closed hp hname hrowId depth)).text
    rfl rfl).closed hclosed).text rfl rfl

/-! ## §4 Statements -/

/-- The target of a statement with joins or a limit has to go by a name. -/
def Query.NamesTarget (q : Query) : Prop :=
  q.hasJoinsOrLimit = true → ∀ tbl ∈ q.source, tbl.isRaw = false

theorem Query.NamesTarget.of_joins {tbl : Table} (h : q.NamesTarget)
    (hjoins : ¬q.joins.isEmpty = true) (hsource : q.source = some tbl) : tbl.isRaw = false :=
  h (by simp [Query.hasJoinsOrLimit, hjoins]) tbl hsource

/-- What the clauses of a written query bring in. -/
structure WriteFits (t : Target) (q : Query) : Prop where
  all : t.AdmitsAll q.ingredients
  source : t.AdmitsAll (sourceIngredients q.source)
  joins : t.AdmitsAll (joinsIngredients q.joins)
  wheres : t.AdmitsAll (clauseIngredients q.wheres)
  orders : t.AdmitsAll (orderIngredients q.orders)

theorem writeFits_of_ingredients (hm : t.AdmitsAll q.ingredients) : WriteFits t q := by
  have hall := hm
  rw [Query.ingredients_eq] at hm
  simp only [admitsAll_append] at hm
  obtain ⟨⟨⟨⟨⟨⟨⟨⟨⟨⟨⟨hq, -⟩, -⟩, -⟩, hjoins⟩, hwheres⟩, -⟩, -⟩, horders⟩, -⟩, -⟩, -⟩ := hm
  exact ⟨hall, hq, hjoins, hwheres, horders⟩

/-- Identifiers of rows are selected only where there are joins or a limit, which is where the
target has to be named. -/
theorem rowIdCondition_closed_of_usesRowIds (hp : t.PrefixFits) (hq : WriteFits t q)
    (htarget : q.NamesTarget) (hrows : t.usesRowIds q = true)
    (h : t.rowIdCondition q = .ok sql) : Closed t.dialect sql := by
  obtain ⟨hdialect, hwide⟩ := usesRowIds_iff.1 hrows
  have hserver : t.dialect ≠ .sqlserver := by
    rcases hdialect with ht | ht <;> simp [ht]
  exact rowIdCondition_closed hp hq.all hserver (htarget hwide) h

/-- The target of a joined statement. -/
theorem writeTarget_closed {table : Sql} (hp : t.PrefixFits) (hq : WriteFits t q)
    (htarget : q.NamesTarget) (hjoins : ¬q.joins.isEmpty = true)
    (h : t.writeTable q = .ok table) : TextClosed t.dialect (Target.joinedTarget table) := by
  obtain ⟨tbl, hsource, htable⟩ := writeTable_eq_ok h
  have hm := hq.source
  rw [hsource] at hm
  exact joinedTarget_closed hp (htarget.of_joins hjoins hsource) hm htable

/-- An update is closed in every layout. -/
theorem update_closed {row : Row} (hp : t.PrefixFits) (hm : t.AdmitsAll q.ingredients)
    (hrow : t.AdmitsAll row.ingredients) (htarget : q.NamesTarget)
    (h : t.update q row = .ok sql) : Closed t.dialect sql := by
  have hq := writeFits_of_ingredients hm
  obtain ⟨-, -, table, assigned, wheres, _, htable, hassigned, hwheres, hform, rfl⟩ :=
    update_eq_ok h
  have htbl := writeTable_closed hp hq.source htable
  have hset := assignments_closed hp hrow hassigned
  have hwhere := List.forall_mem_singleton.2 (wheresClause_closed hp hq.wheres hwheres)
  refine closed_trimEnd ?_
  cases hform with
  | rowIds hrows hids =>
    exact fun _ => (((((leads rfl rfl).closed htbl).text rfl rfl).closed hset).text rfl rfl).closed
      (rowIdCondition_closed_of_usesRowIds hp hq htarget hrows hids)
  | single hrows hjoins htail =>
    have hbody : Closed t.dialect
        ("update " ++ t.writeTop q ++ table ++ " set " ++ assigned) := fun _ =>
      ((((leads rfl rfl).string (writeTop_closed q _)).closed htbl).text rfl rfl).closed hset
    have hfirst := closed_words (List.forall_mem_cons.2 ⟨hbody, hwhere⟩)
    exact closed_words (List.forall_mem_cons.2 ⟨hfirst, writeOrder_closed hp hq.orders htail⟩)
  | joinedBehind hrows hjoins hserver hjoined =>
    -- SQL Server names its target in front of the assignments
    have hname := writeTarget_closed hp hq htarget hjoins htable
    have hjoin := joins_closed hp q.joins hq.joins hjoined
    refine closed_words (List.forall_mem_cons.2 ⟨fun _ => ?_, hwhere⟩)
    exact ((((((leads rfl rfl).string (writeTop_closed q _)).string (hname _)).text
      rfl rfl).closed hset).text rfl rfl |>.closed htbl |>.text rfl rfl).closed hjoin
  | joinedBefore hrows hjoins hserver hjoined =>
    have hjoin := joins_closed hp q.joins hq.joins hjoined
    refine closed_words (List.forall_mem_cons.2 ⟨fun _ => ?_, hwhere⟩)
    exact ((((leads rfl rfl).closed htbl).text rfl rfl).closed hjoin |>.text rfl rfl).closed hset

/-- A delete is closed in every layout. -/
theorem delete_closed (hp : t.PrefixFits) (hm : t.AdmitsAll q.ingredients)
    (htarget : q.NamesTarget) (h : t.delete q = .ok sql) : Closed t.dialect sql := by
  have hq := writeFits_of_ingredients hm
  obtain ⟨-, table, wheres, _, htable, hwheres, hform, rfl⟩ := delete_eq_ok h
  have htbl := writeTable_closed hp hq.source htable
  have hwhere := List.forall_mem_singleton.2 (wheresClause_closed hp hq.wheres hwheres)
  refine closed_trimEnd ?_
  cases hform with
  | rowIds hrows hids =>
    exact fun _ => (((leads rfl rfl).closed htbl).text rfl rfl).closed
      (rowIdCondition_closed_of_usesRowIds hp hq htarget hrows hids)
  | single hrows hjoins htail =>
    have hbody : Closed t.dialect ("delete " ++ t.writeTop q ++ "from " ++ table) := fun _ =>
      (((leads rfl rfl).string (writeTop_closed q _)).text rfl rfl).closed htbl
    have hfirst := closed_words (List.forall_mem_cons.2 ⟨hbody, hwhere⟩)
    exact closed_words (List.forall_mem_cons.2 ⟨hfirst, writeOrder_closed hp hq.orders htail⟩)
  | joined hrows hjoins hjoined =>
    have hname := writeTarget_closed hp hq htarget hjoins htable
    have hjoin := joins_closed hp q.joins hq.joins hjoined
    refine closed_words (List.forall_mem_cons.2 ⟨fun _ => ?_, hwhere⟩)
    exact ((((((leads rfl rfl).string (writeTop_closed q _)).string (hname _)).text rfl rfl).closed
      htbl).text rfl rfl).closed hjoin

end SqlCompiler
