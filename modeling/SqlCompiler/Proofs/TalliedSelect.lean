import SqlCompiler.Proofs.SelectAlignment
import SqlCompiler.Proofs.TalliedPredicates

/-!
# Placeholders of Queries

A query of plain texts has a placeholder for each of its values, and no others but those of its
operators, at any depth. The clauses of one query come first, for nested parts that are tallied; the
nested parts follow by recursion.

## Main definitions

- `componentMarks`, `ownMarks`: the placeholders from operators in the clauses of a query
- `PartsTallied`: the nested parts of a query have the placeholders of their operators

## Main statements

- `finish_tallied`: the step from the nested parts of a query to the whole query
- `select_tallied`, `predicate_tallied`: queries and conditions on rows, by recursion
- `placeholders_of_operators`: conditions have a placeholder for every bound value, and those of the
  operators that stand in the text as they are
-/

namespace SqlCompiler

variable {t : Target} {q : Query} {sql : Sql} {n : Nat}

/-! ## §1 Select list -/

/-- An aggregate of plain columns, whose function is plain as well. -/
theorem aggregateClause_settled {distinct : Distinct} {aggregate : Aggregate}
    (hp : Unmarked t.options.tablePrefix) (hdistinct : PlainTexts (columnGiven distinct.columns))
    (haggregate : PlainTexts aggregate.given) (h : t.aggregateClause distinct aggregate = .ok sql) :
    Settled 0 sql := by
  obtain ⟨⟨hfunction, -⟩, hcolumns⟩ := plainTexts_cons.1 haggregate
  have hselect := ((settled_words (by decide : Unmarked "select ")).text hfunction).text
    (by decide : Unmarked "(")
  have hword : ∀ {columns : Sql}, Settled 0 columns → Settled 0 ("distinct " ++ columns) :=
    fun h => h.behind (by decide)
  obtain ⟨counted, hcounted, rfl⟩ := aggregateClause_eq_ok h
  have hsettled : Settled 0 counted := by
    cases hcounted with
    | columns hlist => exact columnList_settled hp hcolumns hlist
    | star hlist => exact columnList_settled hp hcolumns hlist
    | distinct hlist => exact hword (columnList_settled hp hcolumns hlist)
    | distinctOn hlist => exact hword (columnList_settled hp hdistinct hlist)
  exact (hselect.append hsettled).text (by decide)

/-- Words and digits in front of a select list have no marks. -/
theorem unmarked_top (q : Query) : Unmarked (Target.top q) := by
  unfold Target.top
  split
  · split
    · simp only [unmarked_append, unmarked_nat, and_true]
      decide
    · decide
  · decide

/-- A select list, and the columns that it is distinct in. -/
theorem columnsClause_settled {columns : List Column} (hp : Unmarked t.options.tablePrefix)
    (hdistinct : PlainTexts (columnGiven q.distinct.columns))
    (hcolumns : PlainTexts (columnGiven columns)) (h : t.columnsClause q columns = .ok sql) :
    Settled 0 sql := by
  obtain ⟨head, top, list, hhead, htop, hlist, rfl⟩ := columnsClause_eq_ok h
  have hhead : Settled 0 head := by
    cases hhead with
    | rows =>
      split
      · exact settled_words (by decide)
      · exact settled_words (by decide)
    | distinctOn _ hon hkeys =>
      rw [hon] at hdistinct
      have hword : Settled 0 (.ofString "select distinct on (") := settled_words (by decide)
      exact (hword.append (columnList_settled hp hdistinct hkeys)).text (by decide)
  have htop : Settled 0 top := by
    obtain rfl | ⟨-, rfl⟩ := htop
    · exact settled_words (by decide)
    · exact settled_words (unmarked_top q)
  exact (hhead.append htop).append (columnList_settled hp hcolumns hlist)

/-! ## §2 Table, groups and order -/

/-- A lock of raw SQL is one of the given texts. -/
theorem unmarked_lock {lock : Option Lock} (hm : PlainTexts (lock.elim [] Lock.given))
    {sql : String} (h : lock = some (.raw sql)) : Unmarked sql := by
  subst h
  exact (plainTexts_cons.1 hm).1.1

/-- The keyword and the table hint of SQL Server around a table. -/
theorem sourceClause_tallied {lock : Option Lock} {table : Sql}
    (hlock : PlainTexts (lock.elim [] Lock.given)) (htable : Tallied n table) :
    Tallied n (t.sourceClause lock table) := by
  have hfrom : Tallied n ("from " ++ table) := htable.behind (by decide)
  unfold Target.sourceClause
  split
  · have hhint : Unmarked (Target.lockHint lock) := by
      unfold Target.lockHint
      split
      · decide
      · decide
      · exact unmarked_lock hlock rfl
      · decide
    exact (Tallies.cons hfrom (.cons (settled_words hhint).tallied .nil)).words
  · exact hfrom

theorem unmarked_lockClause {lock : Lock} (hm : PlainTexts lock.given) :
    Unmarked (t.lockClause lock) := by
  unfold Target.lockClause
  split
  · decide
  · decide
  · exact (plainTexts_cons.1 hm).1.1
  all_goals decide

/-- The columns of groups, or nothing. -/
theorem groupsClause_settled {groups : List Column} (hp : Unmarked t.options.tablePrefix)
    (hm : PlainTexts (columnGiven groups)) (h : t.groupsClause groups = .ok sql) :
    Settled 0 sql := by
  obtain ⟨-, rfl⟩ | ⟨list, hlist, rfl⟩ := groupsClause_eq_ok h
  · exact settled_empty
  · exact (columnList_settled hp hm hlist).behind (by decide)

/-- A sort key is a column, raw SQL or a function. -/
theorem sortKey_settled {key : SortKey} (hp : Unmarked t.options.tablePrefix)
    (hm : PlainTexts key.given) (h : t.sortKey key = .ok sql) : Settled 0 sql := by
  cases key with
  | column c direction =>
    have hdirection : Unmarked direction.keyword := by cases direction <;> decide
    simp only [Target.sortKey, bind_eq_ok, pure_eq_ok] at h
    obtain ⟨column, hcolumn, rfl⟩ := h
    exact ((column_settled hp hm hcolumn).text (by decide)).text hdirection
  | raw text bindings =>
    cases h
    obtain ⟨⟨htext, hbindings⟩, -⟩ := plainTexts_cons.1 hm
    exact settled_fragment htext hbindings
  | random seed =>
    cases h
    have hseed : Unmarked (seed.getD "") := by
      cases seed with
      | none => exact (by decide : Unmarked "")
      | some seed => exact (plainTexts_cons.1 hm).1.1
    refine settled_words ?_
    unfold Target.random
    split
    · simp only [unmarked_append, hseed, and_true]
      decide
    · decide
    · decide

/-- Sort keys in a row, or nothing. -/
theorem ordersClause_settled {orders : List SortKey} (hp : Unmarked t.options.tablePrefix)
    (hm : PlainTexts (orderGiven orders)) (h : t.ordersClause orders = .ok sql) :
    Settled 0 sql := by
  obtain ⟨-, rfl⟩ | ⟨keys, hkeys, rfl⟩ := ordersClause_eq_ok h
  · exact settled_empty
  · have hlist : Settled 0 (.join ", " keys) := by
      refine settled_join (by decide) (forall_of_mapM hkeys fun key hkey sql hsql => ?_)
      exact sortKey_settled hp (plainTexts_flatMap.1 hm key hkey) hsql
    exact hlist.behind (by decide)

/-! ## §3 Pages and unions -/

/-- Limits are words and digits, as offsets are. -/
theorem unmarked_limitClause (limit : UInt64) (offset : Option UInt64) :
    Unmarked (t.limitClause limit offset) := by
  unfold Target.limitClause
  split
  · split
    · simp only [unmarked_append, unmarked_nat, and_true]
      decide
    · decide
  · simp only [unmarked_append, unmarked_nat, and_true]
    decide

theorem unmarked_offsetClause (offset : UInt64) : Unmarked (t.offsetClause offset) := by
  unfold Target.offsetClause
  split
  · split
    · simp only [unmarked_append, unmarked_nat, and_true]
      decide
    · decide
  · simp only [unmarked_append, unmarked_nat, and_true]
    decide

/-- A page has no placeholders. -/
theorem pageClauses_tallied (limit offset : Option UInt64) :
    Tallies 0 (t.pageClauses limit offset) := by
  refine tallies_zero (List.forall_mem_cons.2 ⟨?_, List.forall_mem_singleton.2 ?_⟩)
  · cases limit with
    | none => exact (settled_words (by decide)).tallied
    | some limit => exact (settled_words (unmarked_limitClause limit offset)).tallied
  · cases offset with
    | none => exact (settled_words (by decide)).tallied
    | some offset => exact (settled_words (unmarked_offsetClause offset)).tallied

theorem unmarked_tempTable (hp : Unmarked t.options.tablePrefix) :
    Unmarked (t.quoteTable "temp_table") :=
  quoteTable_unmarked hp (by decide)

/-- A side of a union stands in parentheses. -/
theorem unionSide_settled {side : Sql} (hp : Unmarked t.options.tablePrefix)
    (h : Tallied n side) : Settled n (t.unionSide side) := by
  have hselect : Tallied n ("select * from (" ++ side) := h.behind (by decide)
  have hopen : Tallied n ("(" ++ side) := h.behind (by decide)
  unfold Target.unionSide
  split
  · exact hselect.text (by decide)
  · exact (hselect.text (by decide : Delimits ") as ")).text (unmarked_tempTable hp)
  · exact hopen.text (by decide)

theorem unmarked_unionPage {limit offset : Option UInt64} {page : String}
    (h : Target.unionPage limit offset = .ok page) : Unmarked page := by
  obtain rfl | rfl | ⟨count, -, -, rfl⟩ := unionPage_eq_ok h
  · decide
  · simp only [unmarked_append, unmarked_nat, and_true]
    decide
  · simp only [unmarked_append, unmarked_nat, and_true]
    decide

/-- The branches of a union have the placeholders; its order and its page bring none beside their
values. -/
theorem unionsClause_tallied {branches : Except Fault Sql} (hp : Unmarked t.options.tablePrefix)
    (hq : OwnPlain q) (hbranches : ∀ sql, branches = .ok sql → Tallied n sql)
    (h : t.unionsClause q branches = .ok sql) : Tallied n sql := by
  obtain ⟨sides, orders, order, page, hsides, horders, horder, hpage, rfl⟩ := unionsClause_eq_ok h
  -- the order that is made up for a page has no question mark
  have horder : Settled 0 order := by
    obtain rfl | ⟨-, rfl⟩ := horder
    · exact ordersClause_settled hp hq.unionOrders horders
    · exact settled_words (by decide)
  have hpage : Tallies 0 page := by
    obtain rfl | ⟨text, htext, rfl⟩ := hpage
    · exact pageClauses_tallied _ _
    · exact .cons (settled_words (unmarked_unionPage htext)).tallied .nil
  exact (Tallies.cons (hbranches sides hsides) (.cons horder.tallied hpage)).words

/-! ## §4 Clauses in a row -/

/-- The placeholders from operators in one clause of a query. -/
def componentMarks (t : Target) (q : Query) : Component → Nat
  | .source => operatorMarks (t.sourceGiven q.source)
  | .joins => operatorMarks (t.joinsGiven q.joins)
  | .wheres => operatorMarks (t.clauseGiven q.wheres)
  | .havings => operatorMarks (havingGiven q.havings)
  | _ => 0

/-- The placeholders from operators in the clauses of a query, without its union. -/
def ownMarks (t : Target) (q : Query) : Nat :=
  (t.dialect.components.map (componentMarks t q)).sum

/-- The nested parts of a query have the placeholders of their operators. -/
structure PartsTallied (t : Target) (q : Query) (parts : Parts) : Prop where
  source : ∀ sql, parts.source = .ok sql → Tallied (operatorMarks (t.sourceGiven q.source)) sql
  joins : ∀ sql, parts.joins = .ok sql → Tallied (operatorMarks (t.joinsGiven q.joins)) sql
  wheres : ∀ sql, parts.wheres = .ok sql → Tallied (operatorMarks (t.clauseGiven q.wheres)) sql
  branches : ∀ sql, parts.branches = .ok sql → Tallied (operatorMarks (t.branchGiven q.unions)) sql

/-- Only tables, joins and conditions have operators. -/
theorem operatorMarks_query (t : Target) (q : Query) :
    operatorMarks (t.queryGiven q) = ownMarks t q + operatorMarks (t.branchGiven q.unions) := by
  obtain ⟨⟩ := q
  have hown : ∀ q, ownMarks t q = operatorMarks (t.sourceGiven q.source) +
      operatorMarks (t.joinsGiven q.joins) + operatorMarks (t.clauseGiven q.wheres) +
      operatorMarks (havingGiven q.havings) := by
    intro q
    unfold ownMarks
    cases t.dialect <;> simp [Dialect.components, componentMarks] <;> omega
  rw [hown]
  simp only [Target.queryGiven, operatorMarks_append, operatorMarks_columns,
    operatorMarks_aggregate, operatorMarks_orders, operatorMarks_lock]
  omega

section Layout

variable {parts : Parts} {aggregate : Option Aggregate}

/-- Any clause of a query, given its nested parts. -/
theorem component_tallied {c : Component} (hp : Unmarked t.options.tablePrefix) (hq : OwnPlain q)
    (hparts : PartsTallied t q parts) (ha : ∀ a, aggregate = some a → q.aggregate = some a)
    (h : t.component q aggregate parts c = .ok sql) : Tallied (componentMarks t q c) sql := by
  cases component_eq_ok h with
  | aggregate haggregate hclause =>
    have hown := hq.aggregate
    rw [ha _ haggregate] at hown
    exact (aggregateClause_settled hp hq.distinct hown hclause).tallied
  | columns _ hclause =>
    refine (columnsClause_settled hp hq.distinct ?_ hclause).tallied
    have hown := hq.columns
    cases hcolumns : q.columns with
    | none => exact (by decide : PlainTexts (columnGiven [.named "*"]))
    | some columns =>
      rw [hcolumns] at hown
      exact hown
  | source _ htable => exact sourceClause_tallied hq.lock (hparts.source _ htable)
  | noSource hsource =>
    rw [componentMarks, hsource]
    exact settled_empty.tallied
  | joins hjoins => exact hparts.joins sql hjoins
  | wheres hwheres => exact hparts.wheres sql hwheres
  | groups hgroups => exact (groupsClause_settled hp hq.groups hgroups).tallied
  | havings hhavings => exact havingClause_tallied hp hq.havings hhavings
  | orders horders => exact (ordersClause_settled hp hq.orders horders).tallied
  | limit => exact (settled_words (unmarked_limitClause _ _)).tallied
  | offset => exact (settled_words (unmarked_offsetClause _)).tallied
  | lock hlock =>
    have hown := hq.lock
    rw [hlock] at hown
    exact (settled_words (unmarked_lockClause hown)).tallied
  | noAggregate | noColumns | noLimit | noOffset | noLock => exact settled_empty.tallied

/-- What becomes of the clauses that have text. A clause without text has nothing to tally, and so
has a clause that is left out. -/
theorem tallies_spoken {d : Dialect} {s : Component → Sql} {f : Component → Nat}
    {g : Component × Sql → Option Sql} (hs : ∀ c, Tallied (f c) (s c))
    (hg : ∀ c, (g (c, s c)).elim (f c = 0) (Tallied (f c))) :
    Tallies (d.components.map f).sum ((spokenClauses d s).filterMap g) := by
  unfold spokenClauses
  induction d.components with
  | nil => exact .nil
  | cons c rest ih =>
    rw [List.map_cons, List.map_cons, List.sum_cons]
    cases hempty : (s c).isEmpty with
    -- a clause without text has no question marks to count either
    | true =>
      rw [List.filter_cons_of_neg (by simp [hempty]), ((hs c).of_isEmpty hempty).2, Nat.zero_add]
      exact ih
    | false =>
      rw [List.filter_cons_of_pos (by simp [hempty]), List.filterMap_cons]
      have hclause := hg c
      cases hc : g (c, s c) with
      | none =>
        rw [hc, Option.elim_none] at hclause
        rw [hclause, Nat.zero_add]
        exact ih
      | some part =>
        rw [hc, Option.elim_some] at hclause
        exact .cons hclause ih

/-- A select and its branches have the placeholders of both. -/
theorem withUnions_tallied {body : Sql} (hp : Unmarked t.options.tablePrefix) (hq : OwnPlain q)
    (hparts : PartsTallied t q parts) (hbody : Tallied n body)
    (h : t.withUnions q parts body = .ok sql) :
    Tallied (n + operatorMarks (t.branchGiven q.unions)) sql := by
  obtain ⟨hunions, rfl⟩ | ⟨-, unions, hunions, rfl⟩ := withUnions_eq_ok h
  · rw [hunions]
    exact hbody
  · have hside := (unionSide_settled hp hbody).text (by decide : Unmarked " ")
    exact hside.before (unionsClause_tallied hp hq hparts.branches hunions)

/-- The clauses of a query in a row, with the marks of their operators. -/
theorem plainLayout_tallied (hp : Unmarked t.options.tablePrefix) (hq : OwnPlain q)
    (hparts : PartsTallied t q parts) (ha : ∀ a, aggregate = some a → q.aggregate = some a)
    (h : t.plainLayout q aggregate parts = .ok sql) :
    Tallied (ownMarks t q + operatorMarks (t.branchGiven q.unions)) sql := by
  obtain ⟨s, hs, h⟩ := plainLayout_eq_ok h
  have htallied : ∀ c, Tallied (componentMarks t q c) (s c) :=
    fun c => component_tallied hp hq hparts ha (hs c)
  refine withUnions_tallied hp hq hparts (Tallies.words ?_) h
  rw [← List.filterMap_eq_map]
  exact tallies_spoken htallied htallied

theorem unmarked_rowNumberRange (q : Query) : Unmarked (Target.rowNumberRange q) := by
  unfold Target.rowNumberRange
  dsimp only
  split
  · simp only [unmarked_append, unmarked_nat, and_true]
    decide
  · simp only [unmarked_append, unmarked_nat, and_true]
    decide

/-- Row numbers move the order and bring no placeholder. -/
theorem numberedLayout_tallied (hp : Unmarked t.options.tablePrefix) (hq : OwnPlain q)
    (hparts : PartsTallied t q parts) (h : t.numberedLayout q parts = .ok sql) :
    Tallied (ownMarks t q + operatorMarks (t.branchGiven q.unions)) sql := by
  obtain ⟨s, hs, h⟩ := numberedLayout_eq_ok h
  have htallied : ∀ c, Tallied (componentMarks t q c) (s c) :=
    fun c => component_tallied hp hq hparts (fun _ ha => by cases ha) (hs c)
  have horders : Settled 0 (numberingOrder s) := by
    unfold numberingOrder
    split
    · exact settled_words (by decide)
    · exact ordersClause_settled hp hq.orders (hs .orders)
  have hwords : Tallied (ownMarks t q)
      (.words ((spokenClauses t.dialect s).filterMap (numberedClause (numberingOrder s)))) := by
    refine (tallies_spoken htallied fun c => ?_).words
    cases c with
    | orders | limit | offset => rfl
    | columns =>
      have hover := (htallied .columns).text (by decide : Delimits ", row_number() over (")
      exact ((hover.append horders).text (by decide)).tallied
    | _ => exact htallied _
  have hrows := ((hwords.behind (by decide : Unmarked "select * from (")).text
    (by decide : Delimits ") as temp_table where row_num ")).text (unmarked_rowNumberRange q)
  exact withUnions_tallied hp hq hparts (hrows.text (by decide)).tallied h

/-- Each layout has the placeholders of the clauses and of the branches. -/
theorem layout_tallied (hp : Unmarked t.options.tablePrefix) (hq : OwnPlain q)
    (hparts : PartsTallied t q parts) (ha : ∀ a, aggregate = some a → q.aggregate = some a)
    (h : t.layout q aggregate parts = .ok sql) :
    Tallied (ownMarks t q + operatorMarks (t.branchGiven q.unions)) sql := by
  cases layout_eq_ok h with
  | plain _ h => exact plainLayout_tallied hp hq hparts ha h
  | emptyPage _ h =>
    exact plainLayout_tallied (q := { q with offset := none }) hp
      ⟨hq.columns, hq.distinct, hq.aggregate, hq.groups, hq.havings, hq.orders, hq.lock,
        hq.unionOrders⟩
      ⟨hparts.source, hparts.joins, hparts.wheres, hparts.branches⟩ ha h
  | madeOrder _ _ h =>
    -- the order that an offset needs has no question marks
    have horder : PlainTexts (orderGiven [.ofSql "(SELECT 0)"]) := by decide
    exact plainLayout_tallied (q := { q with orders := [.ofSql "(SELECT 0)"] }) hp
      ⟨hq.columns, hq.distinct, hq.aggregate, hq.groups, hq.havings, horder, hq.lock,
        hq.unionOrders⟩
      ⟨hparts.source, hparts.joins, hparts.wheres, hparts.branches⟩ ha h
  | numbered _ _ h => exact numberedLayout_tallied hp hq hparts h

/-- A query around tallied parts. -/
theorem finish_tallied (hp : Unmarked t.options.tablePrefix) (hq : OwnPlain q)
    (hparts : PartsTallied t q parts) (h : t.finish q parts = .ok sql) :
    Tallied (operatorMarks (t.queryGiven q)) sql := by
  rw [operatorMarks_query]
  obtain ⟨-, h⟩ | ⟨-, aggregate, head, rows, haggregate, hhead, hrows, rfl⟩ := finish_eq_ok h
  · exact layout_tallied hp hq hparts (fun _ ha => ha) h
  · -- an aggregate over the rows of the query without it
    have hown := hq.aggregate
    rw [haggregate] at hown
    have hlayout := layout_tallied hp hq hparts (fun _ ha => by cases ha) hrows
    have hfrom := (aggregateClause_settled hp hq.distinct hown hhead).text
      (by decide : Unmarked " from (")
    have htable := (hfrom.leads hlayout).text (by decide : Delimits ") as ")
    exact (htable.text (unmarked_tempTable hp)).tallied

end Layout

/-! ## §5 Nested parts -/

theorem unmarked_joinKind (kind : JoinKind) : Unmarked kind.keyword := by
  cases kind <;> decide

/-- A lateral join has the placeholders of its table. -/
theorem lateralJoin_tallied {kind : JoinKind} {table : Sql} (htable : Tallied n table)
    (h : t.lateralJoin kind table = .ok sql) : Tallied n sql := by
  have hkeyword := (settled_words (unmarked_joinKind kind)).text
    (by decide : Unmarked " join lateral ")
  obtain rfl | rfl | rfl := lateralJoin_eq_ok h
  · exact ((hkeyword.leads htable).text (by decide)).tallied
  · exact htable.behind (by decide)
  · exact htable.behind (by decide)

/-- Conditions behind a keyword, or nothing where there are none. -/
theorem conditions_tallied {keyword : String} {clauses : List (Clause Sql)}
    (hkeyword : Unmarked keyword) (h : Tallies n (clauses.map Clause.node)) :
    Tallied n (Target.conditions keyword clauses) := by
  unfold Target.conditions
  split
  · rename_i hempty
    rw [List.isEmpty_iff.1 hempty] at h
    cases h
    exact settled_empty.tallied
  · exact ((settled_words hkeyword).text (by decide)).leads h.body

mutual

/-- A table; a derived one has the placeholders of its query. -/
theorem table_tallied (hp : Unmarked t.options.tablePrefix) : (tbl : Table) → {sql : Sql} →
    PlainTexts (t.tableGiven tbl) → t.table tbl = .ok sql →
    Tallied (operatorMarks (t.tableGiven tbl)) sql
  | .named name, _, hm, h => by
    rw [Target.table] at h
    cases h
    obtain ⟨⟨hname, -⟩, -⟩ := plainTexts_cons.1 hm
    exact (settled_words (quoteTable_unmarked hp hname)).tallied
  | .raw text bindings, _, hm, h => by
    rw [Target.table] at h
    cases h
    obtain ⟨⟨htext, hbindings⟩, -⟩ := plainTexts_cons.1 hm
    exact (settled_fragment htext hbindings).tallied
  | .derived query asName, _, hm, h => by
    rw [Target.tableGiven, plainTexts_append] at hm
    obtain ⟨⟨hasName, -⟩, -⟩ := plainTexts_cons.1 hm.2
    simp only [Target.table, bind_eq_ok, pure_eq_ok] at h
    obtain ⟨select, hselect, rfl⟩ := h
    have hquery := ((select_tallied hp query hm.1 hselect).behind (by decide : Unmarked "(")).text
      (by decide : Delimits ") as ")
    exact (hquery.text (quoteTable_unmarked hp hasName)).tallied.of_eq
      (by simp [Target.tableGiven, Given.marks])

theorem source_tallied (hp : Unmarked t.options.tablePrefix) : (src : Option Table) →
    {sql : Sql} → PlainTexts (t.sourceGiven src) → t.source src = .ok sql →
    Tallied (operatorMarks (t.sourceGiven src)) sql
  | none, _, _, h => by
    rw [Target.source] at h
    cases h
    exact settled_empty.tallied
  | some tbl, _, hm, h => by
    rw [Target.source] at h
    exact table_tallied hp tbl hm h

/-- A joined table: table, inner joins and conditions. -/
theorem join_tallied (hp : Unmarked t.options.tablePrefix) : (j : Join) → {sql : Sql} →
    PlainTexts (t.joinGiven j) → t.join j = .ok sql → Tallied (operatorMarks (t.joinGiven j)) sql
  | ⟨kind, tbl, on, inner, lateral⟩, sql, hm, h => by
    simp only [Target.joinGiven, plainTexts_append] at hm
    obtain ⟨⟨htbl, hinner⟩, hon⟩ := hm
    obtain ⟨table, joined, htable, hjoined, h⟩ := join_eq_ok h
    -- inner joins are put into parentheses together with their table
    have htables : Tallied (operatorMarks (t.tableGiven tbl) + operatorMarks (t.joinsGiven inner))
        (if inner.isEmpty then table else "(" ++ table ++ " " ++ joined ++ ")") := by
      have htally := table_tallied hp tbl htbl htable
      have hjoins := joins_tallied hp inner hinner hjoined
      split
      · rename_i hempty
        rw [List.isEmpty_iff.1 hempty]
        exact htally
      · have hfirst := (htally.behind (by decide : Unmarked "(")).text (by decide : Delimits " ")
        have hboth := hfirst.before hjoins
        exact (hboth.text (by decide)).tallied
    rw [Target.joinGiven, operatorMarks_append, operatorMarks_append]
    obtain ⟨hnone, hlateral⟩ | ⟨clauses, hclauses, rfl⟩ := h
    · -- a lateral join has no conditions left to count
      rw [hnone]
      exact lateralJoin_tallied htables hlateral
    · have hword : Settled 0 (kind.keyword ++ " join") :=
        (settled_words (unmarked_joinKind kind)).text (by decide)
      have hconditions : Tallied _ (Target.conditions "on" clauses) :=
        conditions_tallied (by decide) (clauses_tallied hp on hon hclauses)
      exact (Tallies.cons hword.tallied (.cons htables (.cons hconditions .nil))).words.of_eq
        (Nat.zero_add _)

/-- Joined tables, one by one. -/
theorem joins_tallied (hp : Unmarked t.options.tablePrefix) : (joins : List Join) →
    {sql : Sql} → PlainTexts (t.joinsGiven joins) → t.joins joins = .ok sql →
    Tallied (operatorMarks (t.joinsGiven joins)) sql
  | [], _, _, h => by
    rw [Target.joins] at h
    cases h
    exact settled_empty.tallied
  | j :: rest, _, hm, h => by
    rw [Target.joinsGiven, plainTexts_append] at hm
    simp only [Target.joins, bind_eq_ok, pure_eq_ok] at h
    obtain ⟨first, hfirst, others, hothers, rfl⟩ := h
    have hjoin := join_tallied hp j hm.1 hfirst
    have hjoins := joins_tallied hp rest hm.2 hothers
    rw [Target.joinsGiven, operatorMarks_append]
    split
    · rename_i hempty
      rw [List.isEmpty_iff.1 hempty]
      exact hjoin
    · exact (hjoin.text (by decide)).before hjoins

/-- The branches of a union, one by one. -/
theorem branches_tallied (hp : Unmarked t.options.tablePrefix) : (branches : List UnionBranch) →
    {sql : Sql} → PlainTexts (t.branchGiven branches) → t.branches branches = .ok sql →
    Tallied (operatorMarks (t.branchGiven branches)) sql
  | [], _, _, h => by
    rw [Target.branches] at h
    cases h
    exact settled_empty.tallied
  | ⟨query, all⟩ :: rest, _, hm, h => by
    rw [Target.branchGiven, plainTexts_append] at hm
    simp only [Target.branches, bind_eq_ok, pure_eq_ok] at h
    obtain ⟨select, hselect, others, hothers, rfl⟩ := h
    -- every side of a union is a query of its own, in parentheses
    have hside := unionSide_settled hp (select_tallied hp query hm.1 hselect)
    have hword : Settled 0 (Sql.ofString (if all = true then "union all " else "union ")) := by
      cases all
      · exact settled_words (by decide)
      · exact settled_words (by decide)
    have hbranch := hword.leads hside.tallied
    have hbranches := branches_tallied hp rest hm.2 hothers
    rw [Target.branchGiven, operatorMarks_append]
    split
    · rename_i hempty
      rw [List.isEmpty_iff.1 hempty]
      exact hbranch
    · exact (hbranch.text (by decide)).before hbranches

/-- A condition on rows has a placeholder for each of its labels, and those of its operators. -/
theorem predicate_tallied (hp : Unmarked t.options.tablePrefix) : (p : Predicate) → {sql : Sql} →
    PlainTexts (t.predicateGiven p) → t.predicate p = .ok sql →
    Tallied (operatorMarks (t.predicateGiven p)) sql
  | .raw text bindings, _, hm, h => by
    rw [Target.predicate] at h
    cases h
    obtain ⟨⟨htext, hbindings⟩, -⟩ := plainTexts_cons.1 hm
    exact (settled_fragment htext hbindings).tallied
  | .compare c operator v, _, hm, h => by
    obtain ⟨hc, -, hv⟩ : _ ∧ _ ∧ _ := by simpa [Target.predicateGiven] using hm
    rw [Target.predicate] at h
    exact (compare_tallied hp hc hv h).of_eq (by simp [Target.predicateGiven, Given.marks])
  | .bitwise c operator v, _, hm, h => by
    obtain ⟨hc, -, hv⟩ : _ ∧ _ ∧ _ := by simpa [Target.predicateGiven] using hm
    rw [Target.predicate] at h
    exact (bitwise_tallied hp hc hv h).of_eq (by simp [Target.predicateGiven])
  | .jsonBoolean selector operator v, _, hm, h => by
    obtain ⟨⟨hselector, -⟩, -⟩ := plainTexts_cons.1 hm
    rw [Target.predicate] at h
    exact (jsonBoolean_tallied hp hselector h).of_eq (by simp [Target.predicateGiven, Given.marks])
  | .like c pattern caseSensitive negated, _, hm, h => by
    obtain ⟨hc, hpattern⟩ := plainTexts_append.1 hm
    rw [Target.predicate] at h
    exact (like_tallied hp hc hpattern h).of_eq (by simp [Target.predicateGiven])
  | .between c low high negated, _, hm, h => by
    rw [Target.predicate] at h
    exact (between_tallied hp hm h).of_eq (by simp [Target.predicateGiven])
  | .betweenColumns c low high negated, _, hm, h => by
    rw [Target.predicate] at h
    exact (betweenColumns_tallied hp hm h).of_eq (by simp [Target.predicateGiven])
  | .inList c values negated, _, hm, h => by
    obtain ⟨hc, hvalues⟩ := plainTexts_append.1 hm
    rw [Target.predicate] at h
    exact (inList_tallied hp hc hvalues h).of_eq (by simp [Target.predicateGiven])
  | .inQuery c query negated, _, hm, h => by
    obtain ⟨hc, hquery⟩ := plainTexts_append.1 hm
    simp only [Target.predicate, bind_eq_ok, pure_eq_ok] at h
    obtain ⟨left, hleft, select, hselect, rfl⟩ := h
    have hwords := (column_settled hp hc hleft).negated negated (by decide : Unmarked "in (")
    have hin := (hwords.leads (select_tallied hp query hquery hselect)).text
      (by decide : Delimits ")")
    exact hin.tallied.of_eq (by simp [Target.predicateGiven])
  | .inIntegers c values negated, _, hm, h => by
    rw [Target.predicate] at h
    exact (inIntegers_tallied hp hm h).of_eq (by simp [Target.predicateGiven])
  | .isNull c, _, hm, h => by
    rw [Target.predicate] at h
    exact (nullTest_tallied hp hm h).of_eq (by simp [Target.predicateGiven])
  | .isNotNull c, _, hm, h => by
    rw [Target.predicate] at h
    exact (nullTest_tallied hp hm h).of_eq (by simp [Target.predicateGiven])
  | .datePart part c operator v, _, hm, h => by
    obtain ⟨hc, -, hv⟩ : _ ∧ _ ∧ _ := by simpa [Target.predicateGiven] using hm
    rw [Target.predicate] at h
    exact (datePart_tallied hp hc hv h).of_eq (by simp [Target.predicateGiven, Given.marks])
  | .group inner, _, hm, h => by
    obtain ⟨-, clauses, hclauses, rfl⟩ := group_eq_ok h
    have hbody := (clauses_tallied hp inner hm hclauses).body
    exact ((hbody.behind (by decide)).text (by decide)).tallied
  | .hasRows query negated, _, hm, h => by
    simp only [Target.predicate, bind_eq_ok, pure_eq_ok] at h
    obtain ⟨select, hselect, rfl⟩ := h
    have hwords := (settled_words (unmarked_negation negated)).text
      (by decide : Unmarked "exists (")
    exact ((hwords.leads (select_tallied hp query hm hselect)).text (by decide)).tallied
  | .compareQuery c operator query, _, hm, h => by
    obtain ⟨hc, -, hquery⟩ : _ ∧ _ ∧ _ := by simpa [Target.predicateGiven] using hm
    simp only [Target.predicate, bind_eq_ok, pure_eq_ok] at h
    obtain ⟨left, hleft, select, hselect, rfl⟩ := h
    -- the operator stands in front of the parenthesis as it is
    have hoperator : Settled _ (left ++ " " ++ operator ++ " (") :=
      ((column_settled hp hc hleft).text (by decide)).operator operator (by decide)
    have hcompare := (hoperator.before (select_tallied hp query hquery hselect)).text
      (by decide : Delimits ")")
    exact hcompare.tallied.of_eq (by simp [Target.predicateGiven, Given.marks])
  | .compareColumns first operator second, _, hm, h => by
    obtain ⟨hfirst, -, hsecond⟩ : _ ∧ _ ∧ _ := by simpa [Target.predicateGiven] using hm
    rw [Target.predicate] at h
    exact (compareColumns_tallied hp hfirst hsecond h).of_eq
      (by simp [Target.predicateGiven, Given.marks])
  | .rowValues columns operator values, _, hm, h => by
    obtain ⟨hcolumns, -, hvalues⟩ : _ ∧ _ ∧ _ := by simpa [Target.predicateGiven] using hm
    rw [Target.predicate] at h
    exact (rowValues_tallied hp hcolumns hvalues h).of_eq
      (by simp [Target.predicateGiven, Given.marks])
  | .jsonContains selector v negated, _, hm, h => by
    obtain ⟨⟨hselector, -⟩, hv⟩ := plainTexts_cons.1 hm
    rw [Target.predicate] at h
    exact (jsonContains_tallied hp hselector hv h).of_eq
      (by simp [Target.predicateGiven, Given.marks])
  | .jsonContainsKey selector negated, _, hm, h => by
    obtain ⟨⟨hselector, -⟩, -⟩ := plainTexts_cons.1 hm
    rw [Target.predicate] at h
    exact jsonContainsKey_tallied hp hselector h
  | .jsonLength selector operator v, _, hm, h => by
    obtain ⟨⟨hselector, -⟩, -, hv⟩ : _ ∧ _ ∧ _ := by simpa [Target.predicateGiven] using hm
    rw [Target.predicate] at h
    exact (jsonLength_tallied hp hselector hv h).of_eq
      (by simp [Target.predicateGiven, Given.marks])
  | .fullText columns v options, _, hm, h => by
    obtain ⟨hcolumns, hv⟩ := plainTexts_append.1 hm
    rw [Target.predicate] at h
    exact (fullText_tallied hp hcolumns hv h).of_eq (by simp [Target.predicateGiven])

/-- Conditions on rows, each with the marks of its own operators. -/
theorem clauses_tallied (hp : Unmarked t.options.tablePrefix) :
    (clauses : List (Clause Predicate)) → {out : List (Clause Sql)} →
    PlainTexts (t.clauseGiven clauses) → t.clauses clauses = .ok out →
    Tallies (operatorMarks (t.clauseGiven clauses)) (out.map Clause.node)
  | [], _, _, h => by
    rw [Target.clauses] at h
    cases h
    exact .nil
  | ⟨_, node⟩ :: rest, _, hm, h => by
    rw [Target.clauseGiven, plainTexts_append] at hm
    simp only [Target.clauses, bind_eq_ok, pure_eq_ok] at h
    obtain ⟨first, hfirst, others, hothers, rfl⟩ := h
    rw [Target.clauseGiven, operatorMarks_append]
    exact .cons (predicate_tallied hp node hm.1 hfirst) (clauses_tallied hp rest hm.2 hothers)

/-- A query has a placeholder for each of its labels, and those of its operators at any depth. -/
theorem select_tallied (hp : Unmarked t.options.tablePrefix) : (q : Query) → {sql : Sql} →
    PlainTexts (t.queryGiven q) → t.select q = .ok sql →
    Tallied (operatorMarks (t.queryGiven q)) sql
  | ⟨src, columns, distinct, aggregate, joins, wheres, groups, havings, orders, limit, offset, lock,
      unions, unionOrders, unionLimit, unionOffset⟩, _, hm, h => by
    have hown := ownPlain_of_given hm
    simp only [Target.queryGiven, plainTexts_append] at hm
    obtain ⟨⟨⟨⟨⟨⟨⟨⟨⟨-, hsource⟩, hjoins⟩, hwheres⟩, -⟩, -⟩, -⟩, -⟩, hunions⟩, -⟩ := hm
    -- the nested parts by recursion, and the clauses of this query around them
    refine finish_tallied hp hown ⟨?_, ?_, ?_, ?_⟩ h
    · exact fun _ => source_tallied hp src hsource
    · exact fun _ => joins_tallied hp joins hjoins
    · intro sql hsql
      obtain ⟨clauses, hclauses, rfl⟩ := wheresClause_eq_ok hsql
      exact conditions_tallied (by decide) (clauses_tallied hp wheres hwheres hclauses)
    · exact fun _ => branches_tallied hp unions hunions

end

/-! ## §6 Operators and placeholders -/

/-- In every dialect and at any depth, a condition whose names and raw texts have no question marks
has a placeholder for every value that it binds. All others come from the operators that stand in
the text as they are: an operator that is escaped brings none. -/
theorem placeholders_of_operators (t : Target) (hp : Unmarked t.options.tablePrefix) :
    (∀ (p : Predicate) (sql : Sql), PlainTexts (t.predicateGiven p) → t.predicate p = .ok sql →
      placeholders sql.text =
        (bound (t.predicateBindings p)).length + operatorMarks (t.predicateGiven p)) ∧
    (∀ (p : HavingPredicate) (sql : Sql), PlainTexts p.given → t.having p = .ok sql →
      placeholders sql.text = (bound p.bindings).length + operatorMarks p.given) := by
  refine ⟨?rows, ?groups⟩
  case rows =>
    intro p sql hm h
    have hmirrored : ∀ r ∈ p.queries, r.Mirrored := fun _ => mirrored_predicate p hm
    rw [← predicate_labels p hmirrored h]
    exact predicate_tallied hp p hm h
  case groups =>
    intro p sql hm h
    rw [← having_labels p h]
    exact having_tallied hp p hm h

/-- PostgreSQL with prefixed tables. -/
def prefixingStore : Target :=
  { dialect := .postgres, options := { tablePrefix := "app_" } }

/-- Documents with one of two tags and all wanted ones, or with a path that some rule looks for. The
first operator is escaped, the other two are not. -/
def taggedDocuments : Predicate :=
  .group [
    ⟨.and, .compare (.named "d.tags") "?|" (.text "{a,b}")⟩,
    ⟨.and, .compareColumns (.named "d.tags") "?&" (.named "d.wanted")⟩,
    ⟨.or, .compareQuery (.named "d.meta") "@?"
      { Query.empty with
        source := some (.named "rules as r")
        columns := some [.named "r.path"]
        wheres := [⟨.and, .compare (.named "r.level") ">" (.int 3)⟩] }⟩]

/-- Groups whose collected tags hold one tag. -/
def taggedGroups : HavingPredicate :=
  .compare (.raw "jsonb_agg(tag)" []) "?" (.text "a")

/-- Operators with marks, in both kinds of conditions: the placeholders are those of the values and
of the operators. -/
theorem taggedDocuments_placeholders :
    ∃ rows groups, Unmarked prefixingStore.options.tablePrefix ∧
      PlainTexts (prefixingStore.predicateGiven taggedDocuments) ∧
      prefixingStore.predicate taggedDocuments = .ok rows ∧
      placeholders rows.text = 2 + 2 ∧
      PlainTexts taggedGroups.given ∧
      prefixingStore.having taggedGroups = .ok groups ∧
      placeholders groups.text = 1 + 1 := by
  have hp : Unmarked prefixingStore.options.tablePrefix := by decide
  have hrows : PlainTexts (prefixingStore.predicateGiven taggedDocuments) := by decide
  have hgroups : PlainTexts taggedGroups.given := by decide
  cases hrendered : prefixingStore.predicate taggedDocuments with
  | error fault =>
    have hok : (prefixingStore.predicate taggedDocuments).isOk = true := by decide +kernel
    rw [hrendered] at hok
    cases hok
  | ok rows =>
    cases hcondition : prefixingStore.having taggedGroups with
    | error fault =>
      cases hcondition
    | ok groups =>
      obtain ⟨hpredicate, hhaving⟩ := placeholders_of_operators prefixingStore hp
      exact ⟨rows, groups, hp, hrows, rfl, hpredicate taggedDocuments rows hrows hrendered,
        hgroups, rfl, hhaving taggedGroups groups hgroups hcondition⟩

/-- PostgreSQL: two columns compared by an operator with a question mark have a placeholder, and
there is no value for it. -/
theorem sharedTags_unbound :
    ∃ sql, (⟨.postgres, {}⟩ : Target).predicate
        (.compareColumns (.named "tags") "?|" (.named "names")) = .ok sql ∧
      sql.text = "\"tags\" ?| \"names\"" ∧ placeholders sql.text = 1 ∧
      (⟨.postgres, {}⟩ : Target).predicateBindings
        (.compareColumns (.named "tags") "?|" (.named "names")) = [] := by
  have htext : ("\"tags\"" ++ " " ++ "?|" ++ " " ++ "\"names\"" : Sql).text =
      "\"tags\" ?| \"names\"" := by simp
  refine ⟨"\"tags\"" ++ " " ++ "?|" ++ " " ++ "\"names\"", rfl, htext, ?_, rfl⟩
  rw [htext]
  decide

end SqlCompiler
