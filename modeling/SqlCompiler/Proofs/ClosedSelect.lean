import SqlCompiler.Proofs.ClosedPredicates
import SqlCompiler.Proofs.LayoutLabels

/-!
# Closed Selects

A query is closed if everything that it brings in, at any depth, may be brought in. The clauses of
one query come first, for nested parts that are closed; the nested parts follow by recursion.

## Main definitions

- `OwnFits`: what the clauses of one query bring in themselves
- `PartsClosed`: the nested parts of a query are closed

## Main statements

- `finish_closed`: the step from the nested parts of a query to the whole query
- `select_closed`: a query is closed, by recursion on the query
-/

namespace SqlCompiler

variable {t : Target} {q : Query} {sql : Sql}

/-! ## §1 Select list -/

/-- Counts are digits. -/
theorem toString_closed {d : Dialect} (n : Nat) : TextClosed d (toString n) :=
  fun _ => textLeads_nat n

/-- A name without arrow and without dot can be quoted in any dialect. -/
theorem nameFits_star (t : Target) : t.NameFits "*" where
  quotes _ h := absurd h (by decide)
  qualifier _ := by decide

/-- An aggregate closes the parenthesis of its function behind its columns. -/
theorem aggregateClause_closed {distinct : Distinct} {aggregate : Aggregate} (hp : t.PrefixFits)
    (hdistinct : t.AdmitsAll (columnIngredients distinct.columns))
    (haggregate : t.AdmitsAll aggregate.ingredients)
    (h : t.aggregateClause distinct aggregate = .ok sql) : Closed t.dialect sql := by
  rw [Aggregate.ingredients, admitsAll_cons] at haggregate
  have hfunction : TextClosed t.dialect aggregate.function := textClosed_of_contained haggregate.1
  have hword : ∀ {columns : Sql}, Closed t.dialect columns →
      Closed t.dialect ("distinct " ++ columns) :=
    fun h _ => (leads rfl rfl).closed h
  obtain ⟨counted, hcounted, rfl⟩ := aggregateClause_eq_ok h
  have hclosed : Closed t.dialect counted := by
    cases hcounted with
    | columns hlist => exact columnList_closed hp haggregate.2 hlist
    | star hlist => exact columnList_closed hp haggregate.2 hlist
    | distinct hlist => exact hword (columnList_closed hp haggregate.2 hlist)
    | distinctOn hlist => exact hword (columnList_closed hp hdistinct hlist)
  exact fun _ =>
    ((((leads rfl rfl).string (hfunction _)).text rfl rfl).closed hclosed).text rfl rfl

theorem top_closed {d : Dialect} (q : Query) : TextClosed d (Target.top q) := by
  intro depth
  unfold Target.top
  split
  · split
    · exact ((textLeads rfl rfl).closed (toString_closed _)).text rfl rfl
    · exact textLeads_empty
  · exact textLeads_empty

/-- A select list, and the columns that it is distinct in between parentheses. -/
theorem columnsClause_closed {columns : List Column} (hp : t.PrefixFits)
    (hdistinct : t.AdmitsAll (columnIngredients q.distinct.columns))
    (hcolumns : t.AdmitsAll (columnIngredients columns))
    (h : t.columnsClause q columns = .ok sql) : Closed t.dialect sql := by
  obtain ⟨head, top, list, hhead, htop, hlist, rfl⟩ := columnsClause_eq_ok h
  have hhead : Closed t.dialect head := by
    intro depth
    cases hhead with
    | rows => split <;> exact leads rfl rfl
    | distinctOn _ hon hkeys =>
      rw [hon] at hdistinct
      exact ((leads rfl rfl).closed (columnList_closed hp hdistinct hkeys)).text rfl rfl
  have htop : Closed t.dialect top := by
    obtain rfl | ⟨-, rfl⟩ := htop
    · exact fun _ => leads rfl rfl
    · exact closed_ofString (top_closed q)
  exact (hhead.append htop).append (columnList_closed hp hcolumns hlist)

/-! ## §2 Table, groups and order -/

/-- What the clauses of a query bring in themselves. -/
structure OwnFits (t : Target) (q : Query) : Prop where
  columns : t.AdmitsAll (columnIngredients (q.columns.getD []))
  distinct : t.AdmitsAll (columnIngredients q.distinct.columns)
  aggregate : t.AdmitsAll (q.aggregate.elim [] Aggregate.ingredients)
  groups : t.AdmitsAll (columnIngredients q.groups)
  havings : t.AdmitsAll (havingIngredients q.havings)
  orders : t.AdmitsAll (orderIngredients q.orders)
  lock : t.AdmitsAll (q.lock.elim [] Lock.ingredients)
  unionOrders : t.AdmitsAll (orderIngredients q.unionOrders)

/-- A lock of raw SQL is one of the texts that are admitted. -/
theorem lock_contained {lock : Option Lock} (hm : t.AdmitsAll (lock.elim [] Lock.ingredients))
    {sql : String} (h : lock = some (.raw sql)) : TextClosed t.dialect sql := by
  subst h
  simp only [Option.elim_some, Lock.ingredients, admitsAll_cons, admitsAll_nil, and_true] at hm
  exact textClosed_of_contained hm

/-- A table with the hint of a lock behind it. -/
theorem sourceClause_closed {lock : Option Lock} {table : Sql}
    (hlock : t.AdmitsAll (lock.elim [] Lock.ingredients)) (htable : Closed t.dialect table) :
    Closed t.dialect (t.sourceClause lock table) := by
  have hfrom : Closed t.dialect ("from " ++ table) := fun _ => (leads rfl rfl).closed htable
  unfold Target.sourceClause
  split
  · refine closed_words (List.forall_mem_cons.2 ⟨hfrom, List.forall_mem_singleton.2 ?_⟩)
    unfold Target.lockHint
    split
    · exact fun _ => leads rfl rfl
    · exact fun _ => leads rfl rfl
    · exact closed_ofString (lock_contained hlock rfl)
    · exact fun _ => leads rfl rfl
  · exact hfrom

/-- A lock is a choice of words, or raw SQL that is admitted. -/
theorem lockClause_closed {lock : Lock} (hlock : t.AdmitsAll lock.ingredients) :
    TextClosed t.dialect (t.lockClause lock) := by
  unfold Target.lockClause
  split
  · exact fun _ => textLeads rfl rfl
  · exact fun _ => textLeads rfl rfl
  · rw [Lock.ingredients, admitsAll_cons] at hlock
    exact textClosed_of_contained hlock.1
  all_goals exact fun _ => textLeads rfl rfl

/-- The columns of groups, or nothing. -/
theorem groupsClause_closed {groups : List Column} (hp : t.PrefixFits)
    (hm : t.AdmitsAll (columnIngredients groups)) (h : t.groupsClause groups = .ok sql) :
    Closed t.dialect sql := by
  obtain ⟨-, rfl⟩ | ⟨list, hlist, rfl⟩ := groupsClause_eq_ok h
  · exact closed_empty
  · exact fun _ => (leads rfl rfl).closed (columnList_closed hp hm hlist)

theorem direction_closed {d : Dialect} (direction : Direction) :
    TextClosed d direction.keyword := by
  cases direction <;> exact fun _ => textLeads rfl rfl

/-- A sort key is a column, raw SQL, or a function with its arguments in parentheses. -/
theorem sortKey_closed {key : SortKey} (hp : t.PrefixFits) (hm : t.AdmitsAll key.ingredients)
    (h : t.sortKey key = .ok sql) : Closed t.dialect sql := by
  cases key with
  | column c direction =>
    simp only [Target.sortKey, bind_eq_ok, pure_eq_ok] at h
    obtain ⟨column, hcolumn, rfl⟩ := h
    exact fun depth =>
      ((column_closed hp hm hcolumn depth).text rfl rfl).string (direction_closed direction _)
  | raw text bindings =>
    cases h
    simp only [SortKey.ingredients, admitsAll_cons, admitsAll_nil, and_true] at hm
    exact closed_fragment (textClosed_of_contained hm)
  | random seed =>
    cases h
    have hseed : TextClosed t.dialect (seed.getD "") := by
      cases seed with
      | none => exact fun _ => textLeads_empty
      | some seed =>
        simp only [SortKey.ingredients, Option.toList_some, List.map_cons, List.map_nil,
          admitsAll_cons, admitsAll_nil, and_true] at hm
        exact textClosed_of_contained hm
    refine closed_ofString ?_
    unfold Target.random
    split
    · exact fun _ => ((textLeads rfl rfl).closed hseed).text rfl rfl
    · exact fun _ => textLeads rfl rfl
    · exact fun _ => textLeads rfl rfl

/-- Sort keys and the commas between them, or nothing. -/
theorem ordersClause_closed {orders : List SortKey} (hp : t.PrefixFits)
    (hm : t.AdmitsAll (orderIngredients orders)) (h : t.ordersClause orders = .ok sql) :
    Closed t.dialect sql := by
  obtain ⟨-, rfl⟩ | ⟨keys, hkeys, rfl⟩ := ordersClause_eq_ok h
  · exact closed_empty
  · have hlist : Closed t.dialect (.join ", " keys) := by
      refine closed_join comma_closed (forall_of_mapM hkeys fun key hkey sql hsql => ?_)
      exact sortKey_closed hp (admitsAll_flatMap.1 hm key hkey) hsql
    exact fun _ => (leads rfl rfl).closed hlist

/-! ## §3 Pages and unions -/

/-- A limit is words and digits in each dialect; so is an offset. -/
theorem limitClause_closed (limit : UInt64) (offset : Option UInt64) :
    TextClosed t.dialect (t.limitClause limit offset) := by
  unfold Target.limitClause
  split
  · split
    · exact fun _ => ((textLeads rfl rfl).closed (toString_closed _)).text rfl rfl
    · exact fun _ => textLeads_empty
  · exact fun _ => (textLeads rfl rfl).closed (toString_closed _)

theorem offsetClause_closed (offset : UInt64) : TextClosed t.dialect (t.offsetClause offset) := by
  unfold Target.offsetClause
  split
  · split
    · exact fun _ => ((textLeads rfl rfl).closed (toString_closed _)).text rfl rfl
    · exact fun _ => textLeads_empty
  · exact fun _ => (textLeads rfl rfl).closed (toString_closed _)

/-- Limit and offset, each of them or nothing. -/
theorem pageClauses_closed (limit offset : Option UInt64) :
    ∀ part ∈ t.pageClauses limit offset, Closed t.dialect part := by
  refine List.forall_mem_cons.2 ⟨?_, List.forall_mem_singleton.2 ?_⟩
  · cases limit with
    | none => exact fun _ => leads rfl rfl
    | some limit => exact closed_ofString (limitClause_closed limit offset)
  · cases offset with
    | none => exact fun _ => leads rfl rfl
    | some offset => exact closed_ofString (offsetClause_closed offset)

/-- The name of a finished select is quoted like any other table. -/
theorem tempTable_closed (hp : t.PrefixFits) :
    TextClosed t.dialect (t.quoteTable "temp_table") :=
  quoteTable_closed hp fun _ => by decide

/-- One side of a union stands between parentheses. -/
theorem unionSide_closed {side : Sql} (hp : t.PrefixFits) (h : Closed t.dialect side) :
    Closed t.dialect (t.unionSide side) := by
  unfold Target.unionSide
  split
  · exact fun _ => ((leads rfl rfl).closed h).text rfl rfl
  · exact fun _ => (((leads rfl rfl).closed h).text rfl rfl).string (tempTable_closed hp _)
  · exact fun _ => ((leads rfl rfl).closed h).text rfl rfl

/-- The page of a union is words and digits. -/
theorem unionPage_closed {d : Dialect} {limit offset : Option UInt64} {page : String}
    (h : Target.unionPage limit offset = .ok page) : TextClosed d page := by
  obtain rfl | rfl | ⟨count, -, -, rfl⟩ := unionPage_eq_ok h
  · exact fun _ => textLeads_empty
  · exact fun _ => ((textLeads rfl rfl).closed (toString_closed _)).text rfl rfl
  · exact fun _ => ((((textLeads rfl rfl).closed (toString_closed _)).text rfl rfl).closed
      (toString_closed _)).text rfl rfl

/-- Branches, then the order and the page of the union. -/
theorem unionsClause_closed {branches : Except Fault Sql} (hp : t.PrefixFits) (hq : OwnFits t q)
    (hbranches : ∀ sql, branches = .ok sql → Closed t.dialect sql)
    (h : t.unionsClause q branches = .ok sql) : Closed t.dialect sql := by
  obtain ⟨sides, orders, order, page, hsides, horders, horder, hpage, rfl⟩ := unionsClause_eq_ok h
  have horder : Closed t.dialect order := by
    obtain rfl | ⟨-, rfl⟩ := horder
    · exact ordersClause_closed hp hq.unionOrders horders
    · exact fun _ => leads rfl rfl
  have hpage : ∀ part ∈ page, Closed t.dialect part := by
    obtain rfl | ⟨text, htext, rfl⟩ := hpage
    · exact pageClauses_closed _ _
    · exact List.forall_mem_singleton.2 (closed_ofString (unionPage_closed htext))
  exact closed_words (List.forall_mem_cons.2 ⟨hbranches sides hsides,
    List.forall_mem_cons.2 ⟨horder, hpage⟩⟩)

/-! ## §4 Layouts -/

/-- The nested parts of a query are closed. -/
structure PartsClosed (t : Target) (parts : Parts) : Prop where
  source : ∀ sql, parts.source = .ok sql → Closed t.dialect sql
  joins : ∀ sql, parts.joins = .ok sql → Closed t.dialect sql
  wheres : ∀ sql, parts.wheres = .ok sql → Closed t.dialect sql
  branches : ∀ sql, parts.branches = .ok sql → Closed t.dialect sql

section Layout

variable {parts : Parts} {aggregate : Option Aggregate}

/-- Any clause of a query is closed, given its nested parts. -/
theorem component_closed {c : Component} (hp : t.PrefixFits) (hq : OwnFits t q)
    (hparts : PartsClosed t parts) (ha : ∀ a, aggregate = some a → q.aggregate = some a)
    (h : t.component q aggregate parts c = .ok sql) : Closed t.dialect sql := by
  cases component_eq_ok h with
  | aggregate haggregate hclause =>
    have hown := hq.aggregate
    rw [ha _ haggregate] at hown
    exact aggregateClause_closed hp hq.distinct hown hclause
  | columns _ hclause =>
    refine columnsClause_closed hp hq.distinct ?_ hclause
    have hown := hq.columns
    cases hcolumns : q.columns with
    | none =>
      -- a query without columns selects the star
      exact admitsAll_flatMap.2 fun c hc => by
        rw [List.mem_singleton.1 hc]
        exact admitsAll_cons.2 ⟨nameFits_star t, admitsAll_nil⟩
    | some columns =>
      rw [hcolumns] at hown
      exact hown
  | source _ htable => exact sourceClause_closed hq.lock (hparts.source _ htable)
  | joins hjoins => exact hparts.joins sql hjoins
  | wheres hwheres => exact hparts.wheres sql hwheres
  | groups hgroups => exact groupsClause_closed hp hq.groups hgroups
  | havings hhavings => exact havingClause_closed hp hq.havings hhavings
  | orders horders => exact ordersClause_closed hp hq.orders horders
  | limit => exact closed_ofString (limitClause_closed _ _)
  | offset => exact closed_ofString (offsetClause_closed _)
  | lock hlock =>
    have hown := hq.lock
    rw [hlock] at hown
    exact closed_ofString (lockClause_closed hown)
  | noAggregate | noColumns | noSource | noLimit | noOffset | noLock => exact closed_empty

/-- A select with its branches behind it, or alone. -/
theorem withUnions_closed {body : Sql} (hp : t.PrefixFits) (hq : OwnFits t q)
    (hparts : PartsClosed t parts) (hbody : Closed t.dialect body)
    (h : t.withUnions q parts body = .ok sql) : Closed t.dialect sql := by
  obtain ⟨-, rfl⟩ | ⟨-, unions, hunions, rfl⟩ := withUnions_eq_ok h
  · exact hbody
  · have hclosed := unionsClause_closed hp hq hparts.branches hunions
    exact fun depth => ((unionSide_closed hp hbody depth).text rfl rfl).closed hclosed

/-- The clauses of a query in a row. -/
theorem plainLayout_closed (hp : t.PrefixFits) (hq : OwnFits t q) (hparts : PartsClosed t parts)
    (ha : ∀ a, aggregate = some a → q.aggregate = some a)
    (h : t.plainLayout q aggregate parts = .ok sql) : Closed t.dialect sql := by
  obtain ⟨s, hs, h⟩ := plainLayout_eq_ok h
  refine withUnions_closed hp hq hparts (closed_words fun part hpart => ?_) h
  obtain ⟨⟨c, clause⟩, hclause, rfl⟩ := List.mem_map.1 hpart
  obtain rfl := (mem_spokenClauses.1 hclause).1
  exact component_closed hp hq hparts ha (hs c)

theorem rowNumberRange_closed {d : Dialect} (q : Query) :
    TextClosed d (Target.rowNumberRange q) := by
  unfold Target.rowNumberRange
  dsimp only
  split
  · exact fun _ => (((textLeads rfl rfl).closed (toString_closed _)).text rfl rfl).closed
      (toString_closed _)
  · exact fun _ => (textLeads rfl rfl).closed (toString_closed _)

/-- The clauses of a query with row numbers; the order moves into parentheses of its own. -/
theorem numberedLayout_closed (hp : t.PrefixFits) (hq : OwnFits t q)
    (hparts : PartsClosed t parts) (h : t.numberedLayout q parts = .ok sql) :
    Closed t.dialect sql := by
  obtain ⟨s, hs, h⟩ := numberedLayout_eq_ok h
  have hclosed : ∀ c, Closed t.dialect (s c) := fun c =>
    component_closed hp hq hparts (fun _ ha => by cases ha) (hs c)
  -- the order moves into the window of the row number
  have horders : Closed t.dialect (numberingOrder s) := by
    unfold numberingOrder
    split
    · exact fun _ => leads rfl rfl
    · exact hclosed .orders
  -- the select list takes in the row number, limit and offset are left out
  have hinner : Closed t.dialect
      (.words ((spokenClauses t.dialect s).filterMap (numberedClause (numberingOrder s)))) := by
    refine closed_words fun part hpart => ?_
    obtain ⟨⟨c, clause⟩, hclause, hpart⟩ := List.mem_filterMap.1 hpart
    obtain rfl := (mem_spokenClauses.1 hclause).1
    cases c with
    | orders | limit | offset => cases hpart
    | columns =>
      obtain rfl := Option.some.inj hpart
      exact fun depth => (((hclosed .columns depth).text rfl rfl).closed horders).text rfl rfl
    | _ =>
      obtain rfl := Option.some.inj hpart
      exact hclosed _
  refine withUnions_closed hp hq hparts (fun _ => ?_) h
  exact ((((leads rfl rfl).closed hinner).text rfl rfl).string
    (rowNumberRange_closed q _)).text rfl rfl

/-- Each layout is closed around the same parts. The orders that SQL Server adds are verbatim and
closed. -/
theorem layout_closed (hp : t.PrefixFits) (hq : OwnFits t q) (hparts : PartsClosed t parts)
    (ha : ∀ a, aggregate = some a → q.aggregate = some a)
    (h : t.layout q aggregate parts = .ok sql) : Closed t.dialect sql := by
  cases layout_eq_ok h with
  | plain _ h => exact plainLayout_closed hp hq hparts ha h
  | emptyPage _ h =>
    exact plainLayout_closed (q := { q with offset := none }) hp
      ⟨hq.columns, hq.distinct, hq.aggregate, hq.groups, hq.havings, hq.orders, hq.lock,
        hq.unionOrders⟩ hparts ha h
  | madeOrder _ _ h =>
    -- the order that an offset needs is contained in itself
    have horder : t.AdmitsAll (orderIngredients [.ofSql "(SELECT 0)"]) := by
      refine admitsAll_cons.2 ⟨?_, admitsAll_nil⟩
      show t.dialect.Contained "(SELECT 0)"
      cases t.dialect <;> decide
    exact plainLayout_closed (q := { q with orders := [.ofSql "(SELECT 0)"] }) hp
      ⟨hq.columns, hq.distinct, hq.aggregate, hq.groups, hq.havings, horder, hq.lock,
        hq.unionOrders⟩ hparts ha h
  | numbered _ _ h => exact numberedLayout_closed hp hq hparts h

/-- A query around closed parts is closed. -/
theorem finish_closed (hp : t.PrefixFits) (hq : OwnFits t q) (hparts : PartsClosed t parts)
    (h : t.finish q parts = .ok sql) : Closed t.dialect sql := by
  obtain ⟨-, h⟩ | ⟨-, aggregate, head, rows, haggregate, hhead, hrows, rfl⟩ := finish_eq_ok h
  · exact layout_closed hp hq hparts (fun _ ha => ha) h
  · -- over rows, the finished select stands in parentheses as a table
    have hown := hq.aggregate
    rw [haggregate] at hown
    have hclosed := layout_closed hp hq hparts (fun _ ha => by cases ha) hrows
    exact fun depth => ((((aggregateClause_closed hp hq.distinct hown hhead depth).text
      rfl rfl).closed hclosed).text rfl rfl).string (tempTable_closed hp _)

end Layout

/-! ## §5 Nested parts -/

theorem joinKind_closed {d : Dialect} (kind : JoinKind) : TextClosed d kind.keyword := by
  cases kind <;> exact fun _ => textLeads rfl rfl

/-- A lateral join is words around its table. -/
theorem lateralJoin_closed {kind : JoinKind} {table : Sql} (htable : Closed t.dialect table)
    (h : t.lateralJoin kind table = .ok sql) : Closed t.dialect sql := by
  obtain rfl | rfl | rfl := lateralJoin_eq_ok h
  · exact fun depth => (((leads_ofString.2 (joinKind_closed kind depth)).text rfl rfl).closed
      htable).text rfl rfl
  · exact fun _ => (leads rfl rfl).closed htable
  · exact fun _ => (leads rfl rfl).closed htable

/-- Conditions behind a keyword, or nothing. -/
theorem conditions_closed {keyword : String} {clauses : List (Clause Sql)}
    (hkeyword : TextClosed t.dialect keyword) (h : ∀ c ∈ clauses, Closed t.dialect c.node) :
    Closed t.dialect (Target.conditions keyword clauses) := by
  unfold Target.conditions
  split
  · exact closed_empty
  · exact fun depth =>
      ((leads_ofString.2 (hkeyword depth)).text rfl rfl).closed (body_closed h)

/-- What the clauses of a query bring in is part of what the query brings in. -/
theorem ownFits_of_ingredients (hm : t.AdmitsAll q.ingredients) : OwnFits t q := by
  rw [Query.ingredients_eq] at hm
  simp only [admitsAll_append] at hm
  obtain ⟨⟨⟨⟨⟨⟨⟨⟨⟨⟨⟨-, hcolumns⟩, hdistinct⟩, haggregate⟩, -⟩, -⟩, hgroups⟩, hhavings⟩, horders⟩,
    hlock⟩, -⟩, hunionOrders⟩ := hm
  exact ⟨hcolumns, hdistinct, haggregate, hgroups, hhavings, horders, hlock, hunionOrders⟩

mutual

/-- A table; a derived one is a select between parentheses. -/
theorem table_closed (hp : t.PrefixFits) : (tbl : Table) → {sql : Sql} →
    t.AdmitsAll tbl.ingredients → t.table tbl = .ok sql → Closed t.dialect sql
  | .named name, _, hm, h => by
    rw [Target.table] at h
    cases h
    simp only [Table.ingredients, admitsAll_cons, admitsAll_nil, and_true] at hm
    exact closed_ofString (quoteTable_closed hp hm.1)
  | .raw text bindings, _, hm, h => by
    rw [Target.table] at h
    cases h
    simp only [Table.ingredients, admitsAll_cons, admitsAll_nil, and_true] at hm
    exact closed_fragment (textClosed_of_contained hm)
  | .derived query asName, _, hm, h => by
    simp only [Table.ingredients, admitsAll_append, admitsAll_cons, admitsAll_nil, and_true] at hm
    simp only [Target.table, bind_eq_ok, pure_eq_ok] at h
    obtain ⟨select, hselect, rfl⟩ := h
    exact fun _ => (((leads rfl rfl).closed (select_closed hp query hm.1 hselect)).text
      rfl rfl).string (quoteTable_closed hp hm.2.1 _)

theorem source_closed (hp : t.PrefixFits) : (src : Option Table) → {sql : Sql} →
    t.AdmitsAll (sourceIngredients src) → t.source src = .ok sql → Closed t.dialect sql
  | none, _, _, h => by
    rw [Target.source] at h
    cases h
    exact closed_empty
  | some tbl, _, hm, h => by
    rw [Target.source] at h
    exact table_closed hp tbl hm h

/-- A joined table: the inner joins stand in its parentheses, the conditions behind it. -/
theorem join_closed (hp : t.PrefixFits) : (j : Join) → {sql : Sql} →
    t.AdmitsAll j.ingredients → t.join j = .ok sql → Closed t.dialect sql
  | ⟨kind, tbl, on, inner, lateral⟩, sql, hm, h => by
    simp only [Join.ingredients, admitsAll_append] at hm
    obtain ⟨⟨htbl, hinner⟩, hon⟩ := hm
    obtain ⟨table, joined, htable, hjoined, h⟩ := join_eq_ok h
    -- inner joins stand in parentheses with their table
    have htables : Closed t.dialect
        (if inner.isEmpty then table else "(" ++ table ++ " " ++ joined ++ ")") := by
      have hclosed := table_closed hp tbl htbl htable
      have hjoins := joins_closed hp inner hinner hjoined
      split
      · exact hclosed
      · exact fun _ =>
          ((((leads rfl rfl).closed hclosed).text rfl rfl).closed hjoins).text rfl rfl
    obtain ⟨-, hlateral⟩ | ⟨clauses, hclauses, rfl⟩ := h
    · exact lateralJoin_closed htables hlateral
    · have hword : Closed t.dialect (kind.keyword ++ " join") := fun depth =>
        (leads_ofString.2 (joinKind_closed kind depth)).text rfl rfl
      have honWord : TextClosed t.dialect "on" := fun _ => textLeads rfl rfl
      exact closed_words (List.forall_mem_cons.2 ⟨hword, List.forall_mem_cons.2 ⟨htables,
        List.forall_mem_singleton.2
          (conditions_closed honWord (clauses_closed hp on hon hclauses))⟩⟩)

/-- Joined tables with blanks between them. -/
theorem joins_closed (hp : t.PrefixFits) : (joins : List Join) → {sql : Sql} →
    t.AdmitsAll (joinsIngredients joins) → t.joins joins = .ok sql → Closed t.dialect sql
  | [], _, _, h => by
    rw [Target.joins] at h
    cases h
    exact closed_empty
  | j :: rest, _, hm, h => by
    rw [joinsIngredients, admitsAll_append] at hm
    simp only [Target.joins, bind_eq_ok, pure_eq_ok] at h
    obtain ⟨first, hfirst, others, hothers, rfl⟩ := h
    have hjoin := join_closed hp j hm.1 hfirst
    have hjoins := joins_closed hp rest hm.2 hothers
    split
    · exact hjoin
    · exact fun depth => ((hjoin depth).text rfl rfl).closed hjoins

/-- The branches of a union, each a side of its own. -/
theorem branches_closed (hp : t.PrefixFits) : (branches : List UnionBranch) → {sql : Sql} →
    t.AdmitsAll (branchIngredients branches) → t.branches branches = .ok sql →
    Closed t.dialect sql
  | [], _, _, h => by
    rw [Target.branches] at h
    cases h
    exact closed_empty
  | ⟨query, all⟩ :: rest, _, hm, h => by
    rw [branchIngredients, admitsAll_append] at hm
    simp only [Target.branches, bind_eq_ok, pure_eq_ok] at h
    obtain ⟨select, hselect, others, hothers, rfl⟩ := h
    have hside := unionSide_closed hp (select_closed hp query hm.1 hselect)
    have hword : Closed t.dialect
        (Sql.ofString (if all = true then "union all " else "union ")) := by
      cases all <;> exact fun _ => leads rfl rfl
    have hbranch := hword.append hside
    have hbranches := branches_closed hp rest hm.2 hothers
    split
    · exact hbranch
    · exact fun depth => ((hbranch depth).text rfl rfl).closed hbranches

/-- A condition on rows. Groups and queries stand between parentheses of their own. -/
theorem predicate_closed (hp : t.PrefixFits) : (p : Predicate) → {sql : Sql} →
    t.AdmitsAll p.ingredients → t.predicate p = .ok sql → Closed t.dialect sql
  | .raw text bindings, _, hm, h => by
    rw [Target.predicate] at h
    cases h
    simp only [Predicate.ingredients, admitsAll_cons, admitsAll_nil, and_true] at hm
    exact closed_fragment (textClosed_of_contained hm)
  | .compare _ _ _, _, hm, h => by
    rw [Target.predicate] at h
    rw [Predicate.ingredients] at hm
    exact compare_closed hp hm h
  | .bitwise _ _ _, _, hm, h => by
    rw [Target.predicate] at h
    rw [Predicate.ingredients] at hm
    exact bitwise_closed hp hm h
  | .jsonBoolean _ _ _, _, hm, h => by
    rw [Target.predicate] at h
    rw [Predicate.ingredients] at hm
    exact jsonBoolean_closed hp hm h
  | .like _ _ _ _, _, hm, h => by
    rw [Target.predicate] at h
    rw [Predicate.ingredients] at hm
    exact like_closed hp hm h
  | .between _ _ _ _, _, hm, h => by
    rw [Target.predicate] at h
    rw [Predicate.ingredients] at hm
    exact between_closed hp hm h
  | .betweenColumns _ _ _ _, _, hm, h => by
    rw [Target.predicate] at h
    rw [Predicate.ingredients] at hm
    exact betweenColumns_closed hp hm h
  | .inList _ _ _, _, hm, h => by
    rw [Target.predicate] at h
    rw [Predicate.ingredients] at hm
    exact inList_closed hp hm h
  | .inQuery c query negated, _, hm, h => by
    rw [Predicate.ingredients, admitsAll_append] at hm
    simp only [Target.predicate, bind_eq_ok, pure_eq_ok] at h
    obtain ⟨left, hleft, select, hselect, rfl⟩ := h
    exact fun depth => ((((column_closed hp hm.1 hleft depth).text rfl rfl).string
      (negation_closed negated _)).text rfl rfl).closed (select_closed hp query hm.2 hselect)
        |>.text rfl rfl
  | .inIntegers _ _ _, _, hm, h => by
    rw [Target.predicate] at h
    rw [Predicate.ingredients] at hm
    exact inIntegers_closed hp hm h
  | .isNull _, _, hm, h => by
    rw [Target.predicate] at h
    rw [Predicate.ingredients] at hm
    exact nullTest_closed hp hm h
  | .isNotNull _, _, hm, h => by
    rw [Target.predicate] at h
    rw [Predicate.ingredients] at hm
    exact nullTest_closed hp hm h
  | .datePart _ _ _ _, _, hm, h => by
    rw [Target.predicate] at h
    rw [Predicate.ingredients] at hm
    exact datePart_closed hp hm h
  | .group inner, _, hm, h => by
    rw [Predicate.ingredients] at hm
    obtain ⟨-, clauses, hclauses, rfl⟩ := group_eq_ok h
    exact fun _ =>
      ((leads rfl rfl).closed (body_closed (clauses_closed hp inner hm hclauses))).text rfl rfl
  | .hasRows query negated, _, hm, h => by
    rw [Predicate.ingredients] at hm
    simp only [Target.predicate, bind_eq_ok, pure_eq_ok] at h
    obtain ⟨select, hselect, rfl⟩ := h
    exact fun depth => (((leads_ofString.2 (negation_closed negated depth)).text rfl rfl).closed
      (select_closed hp query hm hselect)).text rfl rfl
  | .compareQuery c operator query, _, hm, h => by
    obtain ⟨hc, hoperator, hquery⟩ : _ ∧ _ ∧ _ := by simpa [Predicate.ingredients] using hm
    simp only [Target.predicate, bind_eq_ok, pure_eq_ok] at h
    obtain ⟨left, hleft, select, hselect, rfl⟩ := h
    exact fun depth => ((((column_closed hp hc hleft depth).text rfl rfl).string
      (textClosed_of_contained hoperator _)).text rfl rfl).closed
        (select_closed hp query hquery hselect) |>.text rfl rfl
  | .compareColumns _ _ _, _, hm, h => by
    rw [Target.predicate] at h
    rw [Predicate.ingredients] at hm
    exact compareColumns_closed hp hm h
  | .rowValues _ _ _, _, hm, h => by
    rw [Target.predicate] at h
    rw [Predicate.ingredients] at hm
    exact rowValues_closed hp hm h
  | .jsonContains _ _ _, _, hm, h => by
    rw [Target.predicate] at h
    rw [Predicate.ingredients] at hm
    exact jsonContains_closed hp hm h
  | .jsonContainsKey _ _, _, hm, h => by
    rw [Target.predicate] at h
    rw [Predicate.ingredients] at hm
    exact jsonContainsKey_closed hp hm h
  | .jsonLength _ _ _, _, hm, h => by
    rw [Target.predicate] at h
    rw [Predicate.ingredients] at hm
    exact jsonLength_closed hp hm h
  | .fullText _ _ _, _, hm, h => by
    rw [Target.predicate] at h
    rw [Predicate.ingredients] at hm
    exact fullText_closed hp hm h

/-- Conditions on rows, one by one. -/
theorem clauses_closed (hp : t.PrefixFits) : (clauses : List (Clause Predicate)) →
    {out : List (Clause Sql)} → t.AdmitsAll (clauseIngredients clauses) →
    t.clauses clauses = .ok out → ∀ c ∈ out, Closed t.dialect c.node
  | [], _, _, h => by
    rw [Target.clauses] at h
    cases h
    exact fun _ hc => absurd hc List.not_mem_nil
  | ⟨_, node⟩ :: rest, _, hm, h => by
    rw [clauseIngredients, admitsAll_append] at hm
    simp only [Target.clauses, bind_eq_ok, pure_eq_ok] at h
    obtain ⟨first, hfirst, others, hothers, rfl⟩ := h
    exact List.forall_mem_cons.2
      ⟨predicate_closed hp node hm.1 hfirst, clauses_closed hp rest hm.2 hothers⟩

/-- A query is closed if everything that it brings in, at any depth, may be brought in. -/
theorem select_closed (hp : t.PrefixFits) : (q : Query) → {sql : Sql} →
    t.AdmitsAll q.ingredients → t.select q = .ok sql → Closed t.dialect sql
  | ⟨src, columns, distinct, aggregate, joins, wheres, groups, havings, orders, limit, offset, lock,
      unions, unionOrders, unionLimit, unionOffset⟩, _, hm, h => by
    have hown := ownFits_of_ingredients hm
    simp only [Query.ingredients, admitsAll_append] at hm
    obtain ⟨⟨⟨⟨⟨⟨⟨⟨⟨⟨⟨hsource, -⟩, -⟩, -⟩, hjoins⟩, hwheres⟩, -⟩, -⟩, -⟩, -⟩, hunions⟩, -⟩ := hm
    -- the nested parts by recursion, and the clauses of this query around them
    refine finish_closed hp hown ⟨?_, ?_, ?_, ?_⟩ h
    · exact fun _ => source_closed hp src hsource
    · exact fun _ => joins_closed hp joins hjoins
    · intro sql hsql
      obtain ⟨clauses, hclauses, rfl⟩ := wheresClause_eq_ok hsql
      exact conditions_closed (fun _ => textLeads rfl rfl)
        (clauses_closed hp wheres hwheres hclauses)
    · exact fun _ => branches_closed hp unions hunions

end

end SqlCompiler
