import SqlCompiler.Proofs.ClosedUpdates

/-!
# Containment of Statements

Whatever the names in a query and a statement are made of, every compiled text closes its quotes and
balances its parentheses, as long as the fragments that stand in it verbatim do so themselves.

## Main statements

- `hasRows_closed`, `truncate_contained`: the statements that are not selects or writes
- `compile_contained`: every statement that compiles
-/

namespace SqlCompiler

variable {t : Target} {q : Query} {sql : Sql}

/-! ## §1 Questions and truncates -/

/-- The question for a row asks for text of the compiler's own in place of the columns. -/
theorem probe_ingredients (hserver : t.dialect = .sqlserver) (hm : t.AdmitsAll q.ingredients) :
    t.AdmitsAll (Target.probe q).ingredients := by
  rw [Query.ingredients_eq] at hm ⊢
  simp only [admitsAll_append] at hm ⊢
  obtain ⟨⟨⟨⟨⟨⟨⟨⟨⟨⟨⟨hsource, -⟩, hdistinct⟩, -⟩, hjoins⟩, hwheres⟩, hgroups⟩, hhavings⟩, horders⟩,
    hlock⟩, hunions⟩, hunionOrders⟩ := hm
  have hone : t.dialect.Contained "1 [exists]" := by rw [hserver]; decide
  exact ⟨⟨⟨⟨⟨⟨⟨⟨⟨⟨⟨hsource, admitsAll_cons.2 ⟨hone, admitsAll_nil⟩⟩, hdistinct⟩, admitsAll_nil⟩,
    hjoins⟩, hwheres⟩, hgroups⟩, hhavings⟩, horders⟩, hlock⟩, hunions⟩, hunionOrders⟩

/-- The question for a row is a closed select between parentheses, or a closed select. -/
theorem hasRows_closed (hp : t.PrefixFits) (hm : t.AdmitsAll q.ingredients)
    (h : t.hasRows q = .ok sql) : Closed t.dialect sql := by
  unfold Target.hasRows at h
  split at h
  · rename_i hserver
    exact select_closed hp (Target.probe q) (probe_ingredients hserver hm) h
  · simp only [bind_eq_ok, pure_eq_ok] at h
    obtain ⟨select, hselect, name, hname, rfl⟩ := h
    have hexists : t.NameFits "exists" := nameFits_of_simple (by decide) (by decide)
    exact fun _ => (((leads rfl rfl).closed (select_closed hp q hm hselect)).text rfl rfl).string
      (quote_closed hp hexists hname _)

/-- A truncate names a table and nothing else. -/
theorem truncate_contained {out : List Compiled} (hp : t.PrefixFits)
    (hm : t.AdmitsAll (sourceIngredients q.source)) (h : t.truncate q = .ok out) :
    ∀ c ∈ out, t.dialect.Contained c.sql := by
  unfold Target.truncate at h
  split at h
  · simp only [bind_eq_ok, pure_eq_ok] at h
    obtain ⟨table, htable, rfl⟩ := h
    have htbl := writeTable_closed hp hm htable
    refine List.forall_mem_singleton.2 (Closed.contained fun _ => ?_)
    refine (((leads rfl rfl).closed htbl).text rfl rfl).string ?_
    split
    · exact textLeads rfl rfl
    · exact textLeads rfl rfl
  · rename_i hsqlite
    split at h
    · cases h
    · rename_i name hsource
      cases h
      have hcounter : Closed t.dialect "delete from sqlite_sequence where name = ?" :=
        fun _ => leads rfl rfl
      -- only SQL Server moves arguments out of a name
      have hfits : t.TableFits ((splitAlias? name).elim name Prod.fst) := fun hserver =>
        absurd (hsqlite.symm.trans hserver) (by decide)
      have htable := quoteTable_closed hp hfits
      have hdelete : Closed t.dialect
          ("delete from " ++ t.quoteTable ((splitAlias? name).elim name Prod.fst)) :=
        fun _ => (leads rfl rfl).string (htable _)
      exact List.forall_mem_cons.2 ⟨hcounter.contained,
        List.forall_mem_singleton.2 hdelete.contained⟩
    · cases h
  · simp only [bind_eq_ok, pure_eq_ok] at h
    obtain ⟨table, htable, rfl⟩ := h
    have htbl := writeTable_closed hp hm htable
    have hclosed : Closed t.dialect ("truncate table " ++ table) := fun _ =>
      (leads rfl rfl).closed htbl
    exact List.forall_mem_singleton.2 hclosed.contained

/-! ## §2 Statements -/

/-- Whether a statement changes rows that a query selects. -/
def Statement.changesRows : Statement → Bool
  | .update _ | .delete => true
  | _ => false

/-- A statement of one text is contained if the text is closed. -/
theorem contained_of_closed {bindings : List Value} (h : Closed t.dialect sql) :
    ∀ c ∈ [Target.pair sql bindings], t.dialect.Contained c.sql :=
  List.forall_mem_singleton.2 h.contained

theorem compileInsert_contained {rows : Rows} {c : Compiled} (hp : t.PrefixFits)
    (hq : t.AdmitsAll (sourceIngredients q.source)) (hs : t.AdmitsAll rows.ingredients)
    (h : t.compileInsert q rows = .ok c) : ∀ c' ∈ [c], t.dialect.Contained c'.sql := by
  simp only [Target.compileInsert, bind_eq_ok, pure_eq_ok] at h
  obtain ⟨sql, hsql, bindings, _, rfl⟩ := h
  exact contained_of_closed (insert_closed hp hq hs hsql)

/-- Every compiled text closes its quotes and balances its parentheses, in every dialect and for
names of any characters: what a query and a statement bring in verbatim has to do so itself, and
names and prefix have to be such that the dialect can quote them. A target that is written
verbatim must not be joined or limited. -/
theorem compile_contained (t : Target) (q : Query) (s : Statement) (hp : t.PrefixFits)
    (hq : t.AdmitsAll q.ingredients) (hs : t.AdmitsAll s.ingredients)
    (htarget : s.changesRows = true → q.NamesTarget) {out : List Compiled}
    (h : t.compile q s = .ok out) : ∀ c ∈ out, t.dialect.Contained c.sql := by
  have hsource := (writeFits_of_ingredients hq).source
  cases s with
  | select =>
    simp only [Target.compile, bind_eq_ok, pure_eq_ok] at h
    obtain ⟨sql, hsql, rfl⟩ := h
    exact contained_of_closed (select_closed hp q hq hsql)
  | hasRows =>
    simp only [Target.compile, bind_eq_ok, pure_eq_ok] at h
    obtain ⟨sql, hsql, rfl⟩ := h
    exact contained_of_closed (hasRows_closed hp hq hsql)
  | insert rows =>
    simp only [Target.compile, bind_eq_ok, pure_eq_ok] at h
    obtain ⟨c, hc, rfl⟩ := h
    exact compileInsert_contained hp hsource hs hc
  | insertOrIgnore rows =>
    simp only [Target.compile, bind_eq_ok, pure_eq_ok] at h
    obtain ⟨sql, hsql, _, _, rfl⟩ := h
    exact contained_of_closed (insertOrIgnore_closed hp hsource hs hsql)
  | insertGetId rows key =>
    simp only [Target.compile, bind_eq_ok, pure_eq_ok] at h
    obtain ⟨sql, hsql, _, _, rfl⟩ := h
    simp only [Statement.ingredients, admitsAll_append, admitsAll_map] at hs
    have hkey : ∀ name, key = some name → t.NameFits name := fun name hname =>
      hs.2 name (by simp [hname])
    exact contained_of_closed (insertGetId_closed hp hsource hs.1 hkey hsql)
  | insertUsing columns rows =>
    simp only [Target.compile, bind_eq_ok, pure_eq_ok] at h
    obtain ⟨sql, hsql, rfl⟩ := h
    simp only [Statement.ingredients, admitsAll_append] at hs
    exact contained_of_closed (insertUsing_closed hp hsource hs.1 hs.2 hsql)
  | upsert rows uniqueBy assigned =>
    simp only [Statement.ingredients, admitsAll_append, admitsAll_map] at hs
    obtain ⟨⟨hrows, hunique⟩, hassigned⟩ := hs
    simp only [Target.compile] at h
    split at h
    · simp only [bind_eq_ok, pure_eq_ok] at h
      obtain ⟨c, hc, rfl⟩ := h
      exact compileInsert_contained hp hsource hrows hc
    · simp only [bind_eq_ok, pure_eq_ok] at h
      obtain ⟨sql, hsql, _, _, rfl⟩ := h
      exact contained_of_closed (upsert_closed hp hsource hrows hunique hassigned hsql)
  | update row =>
    simp only [Target.compile, bind_eq_ok, pure_eq_ok] at h
    obtain ⟨sql, hsql, rfl⟩ := h
    exact contained_of_closed (update_closed hp hq hs (htarget rfl) hsql)
  | delete =>
    simp only [Target.compile, bind_eq_ok, pure_eq_ok] at h
    obtain ⟨sql, hsql, rfl⟩ := h
    exact contained_of_closed (delete_closed hp hq (htarget rfl) hsql)
  | truncate =>
    exact truncate_contained hp hsource h

/-- Orders with names that are made to break out of their quotes. -/
def hostileOrders : Query :=
  { Query.empty with
    source := some (.named "shop.or]ders as o\"x")
    joins := [
      ⟨.left, .derived { Query.empty with source := some (.named "users") } "u'] --",
        [⟨.and, .compareColumns (.named "u.id") "=" (.named "o.user;id")⟩], [], false⟩]
    wheres := [
      ⟨.and, .jsonContainsKey "o.note->it's[0]->\"by\"" false⟩,
      ⟨.or, .compare (.raw "coalesce(o.[state]]s], 'it''s (')" []) "<>" (.raw "'('")⟩] }

/-- SQL Server with a table prefix that has a quote in it. -/
def prefixingServer : Target :=
  { dialect := .sqlserver, options := { tablePrefix := "p'" } }

/-- The update of a column of these orders. -/
def hostileUpdate : String :=
  "update [p'o\"x] set [p'o].[st]]ate] = ? from [shop].[p'or]]ders] as [p'o\"x] " ++
    "left join (select * from [p'users]) as [p'u']] --] on [p'u].[id] = [p'o].[user;id] " ++
    "where '\"by\"' in (select [key] from openjson([p'o].[note], '$.\"it''s\"[0]')) " ++
    "or coalesce(o.[state]]s], 'it''s (') <> '('"

/-- An update of a table and a column whose names are made to close their quotes. -/
theorem update_hostileOrders_contained :
    prefixingServer.PrefixFits ∧
    prefixingServer.AdmitsAll hostileOrders.ingredients ∧
    prefixingServer.AdmitsAll (Statement.update ⟨[("o.st]ate", .text "x'")]⟩).ingredients ∧
    hostileOrders.NamesTarget ∧
    ∃ out, prefixingServer.compile hostileOrders (.update ⟨[("o.st]ate", .text "x'")]⟩) = .ok out ∧
      out.map Compiled.sql = [hostileUpdate] ∧ ∀ c ∈ out, Dialect.sqlserver.Contained c.sql := by
  have hp : prefixingServer.PrefixFits := by
    have hblanks : prefixingServer.options.tablePrefix.toList.all (!Text.isBlank ·) = true := by
      decide
    exact ⟨fun c hc => by simpa using List.all_eq_true.1 hblanks c hc, by decide⟩
  have hq : prefixingServer.AdmitsAll hostileOrders.ingredients := by decide +kernel
  have hs : prefixingServer.AdmitsAll
      (Statement.update ⟨[("o.st]ate", .text "x'")]⟩).ingredients := by decide +kernel
  have htarget : hostileOrders.NamesTarget := fun _ _ htbl => by cases htbl; rfl
  have htext : (prefixingServer.compile hostileOrders
      (.update ⟨[("o.st]ate", .text "x'")]⟩)).map (List.map Compiled.sql) =
        .ok [hostileUpdate] := by decide +kernel
  cases hout : prefixingServer.compile hostileOrders (.update ⟨[("o.st]ate", .text "x'")]⟩) with
  | error fault =>
    rw [hout] at htext
    cases htext
  | ok out =>
    rw [hout] at htext
    refine ⟨hp, hq, hs, htarget, out, rfl, Except.ok.inj htext, ?_⟩
    exact compile_contained prefixingServer hostileOrders _ hp hq hs (fun _ => htarget) hout

end SqlCompiler
