import SqlCompiler.Proofs.ClauseLabels

/-!
# Labels of Layouts

A query is laid out around its nested parts: its clauses stand in a row, or, where rows are
numbered, around each other. Given that the nested parts carry their values, each layout carries
the buckets of the query in the order in which they are flattened.

## Main definitions

- `PartsLabelled`: the nested parts of a query carry the values collected for them
- `componentBindings`: the values of one clause

## Main statements

- `component_labels`, `component_silent`: a clause carries its values, and has text if there are any
- `plainLayout_eq_ok`, `numberedLayout_eq_ok`: what is made of the clauses that have text
- `plainLayout_labels`, `numberedLayout_labels`: the two layouts
- `finish_labels`: the step from the nested parts of a query to the whole query
-/

namespace SqlCompiler

open Sql

variable {t : Target} {q : Query} {sql : Sql}

/-! ## §1 One clause -/

/-- The nested parts of a query carry the values that are collected for them. -/
structure PartsLabelled (t : Target) (q : Query) : Prop where
  source : ∀ {sql : Sql}, t.source q.source = .ok sql →
    sql.labels = bound (t.sourceBindings q.source)
  joins : ∀ {sql : Sql}, t.joins q.joins = .ok sql →
    sql.labels = bound (t.joinsBindings q.joins)
  wheres : ∀ {sql : Sql}, t.wheresClause q.wheres = .ok sql →
    sql.labels = bound (t.clauseBindings q.wheres)
  branches : ∀ {sql : Sql}, t.branches q.unions = .ok sql →
    sql.labels = bound (t.branchBindings q.unions)

/-- The values of one clause of a query with the given aggregate. -/
def componentBindings (t : Target) (q : Query) (aggregate : Option Aggregate) :
    Component → List Value
  | .aggregate => bound (columnBindings (aggregate.elim [] Aggregate.columns))
  | .columns => bound (columnBindings (if aggregate.isSome then [] else q.columns.getD []))
  | .source => bound (t.sourceBindings q.source)
  | .joins => bound (t.joinsBindings q.joins)
  | .wheres => bound (t.clauseBindings q.wheres)
  | .groups => bound (columnBindings q.groups)
  | .havings => bound (havingBindings q.havings)
  | .orders => bound (orderBindings q.orders)
  | .limit | .offset | .lock => []

/-- In a mirrored query the aggregate is labelled with the values of its own columns: where other
columns take their place, neither bind anything. -/
theorem aggregateClause_labels_of_mirrored {aggregate : Aggregate} (hq : q.Mirrored)
    (ha : q.aggregate = some aggregate) (h : t.aggregateClause q.distinct aggregate = .ok sql) :
    sql.labels = bound (columnBindings aggregate.columns) := by
  rw [aggregateClause_labels h]
  cases hdistinct : q.distinct with
  | on on =>
    have hon := hq.distinct
    have hdisplaced := hq.displaced
    simp only [hdistinct, Distinct.columns] at hon
    simp only [Query.displacedColumns, hdistinct, ha] at hdisplaced
    rw [writtenAggregate, hon, hdisplaced]
  | all => rfl
  | off => rfl

theorem columnsClause_labels_of_mirrored {columns : List Column} (hq : q.Mirrored)
    (h : t.columnsClause q columns = .ok sql) : sql.labels = bound (columnBindings columns) := by
  have hnone : bound (columnBindings (writtenDistinct t q.distinct)) = [] := by
    unfold writtenDistinct
    split
    · rename_i hdistinct
      have hon := hq.distinct
      rwa [hdistinct, Distinct.columns] at hon
    · rfl
  rw [columnsClause_labels h, hnone, List.nil_append]

/-- The labels of any clause, given those of the nested parts. -/
theorem component_labels {aggregate : Option Aggregate} {c : Component} (hq : q.Mirrored)
    (hparts : PartsLabelled t q) (ha : ∀ a, aggregate = some a → q.aggregate = some a)
    (h : t.component q aggregate (t.parts q) c = .ok sql) :
    sql.labels = componentBindings t q aggregate c := by
  -- a clause that the text does not have binds nothing, as the query has no such clause either
  cases component_eq_ok h with
  | aggregate haggregate hclause =>
    rw [haggregate]
    exact aggregateClause_labels_of_mirrored hq (ha _ haggregate) hclause
  | noAggregate haggregate =>
    rw [haggregate]
    rfl
  | columns haggregate hclause =>
    rw [columnsClause_labels_of_mirrored hq hclause, haggregate, componentBindings]
    -- without a list all columns are selected, which binds nothing
    cases q.columns <;> rfl
  | noColumns haggregate =>
    rw [haggregate]
    rfl
  | source hsource htable => rw [sourceClause_labels, hparts.source htable, componentBindings]
  | noSource hsource => simp [componentBindings, hsource, Target.sourceBindings]
  | joins hjoins => exact hparts.joins hjoins
  | wheres hwheres => exact hparts.wheres hwheres
  | groups hgroups => exact groupsClause_labels hgroups
  | havings hhavings => exact havingClause_labels hhavings
  | orders horders => exact ordersClause_labels horders
  | limit | noLimit | offset | noOffset | lock | noLock => rfl

/-! ## §2 Clauses without text -/

theorem text_words_cons_eq_empty (s : Sql) (parts : List Sql) :
    (words (s :: parts)).text = "" ↔ s.text = "" ∧ (words parts).text = "" := by
  simp only [words]
  split
  · simp
  · rename_i h
    simp only [isEmpty, Bool.or_eq_true, String.isEmpty_iff, not_or] at h
    simp [h.1]

/-- A joined table has text: at least the keyword of its join. -/
theorem join_hasText {j : Join} (h : t.join j = .ok sql) : sql.isEmpty = false := by
  obtain ⟨kind, tbl, on, joins, lateral⟩ := j
  obtain ⟨table, inner, -, -, ⟨-, h⟩ | ⟨clauses, -, rfl⟩⟩ := join_eq_ok h
  · obtain rfl | rfl | rfl := lateralJoin_eq_ok h <;> simp [isEmpty]
  · simp [text_words_cons_eq_empty, isEmpty]

theorem joins_silent {joins : List Join} (h : t.joins joins = .ok sql)
    (hempty : sql.isEmpty = true) : sql.labels = [] := by
  cases joins with
  | nil =>
    cases h
    rfl
  | cons j rest =>
    simp only [Target.joins, bind_eq_ok, pure_eq_ok] at h
    obtain ⟨first, hfirst, others, _, rfl⟩ := h
    have htext := join_hasText hfirst
    simp only [isEmpty] at htext
    split at hempty <;> simp_all [isEmpty]

theorem columnsClause_hasText {columns : List Column} (h : t.columnsClause q columns = .ok sql) :
    sql.isEmpty = false := by
  obtain ⟨head, top, list, hhead, -, -, rfl⟩ := columnsClause_eq_ok h
  cases hhead with
  | rows => split <;> simp [isEmpty]
  | distinctOn => simp [isEmpty]

theorem aggregateClause_hasText {distinct : Distinct} {aggregate : Aggregate}
    (h : t.aggregateClause distinct aggregate = .ok sql) : sql.isEmpty = false := by
  obtain ⟨counted, -, rfl⟩ := aggregateClause_eq_ok h
  simp [isEmpty]

theorem sourceClause_hasText (lock : Option Lock) (table : Sql) :
    (t.sourceClause lock table).isEmpty = false := by
  unfold Target.sourceClause
  split
  · simp [text_words_cons_eq_empty, isEmpty]
  · simp [isEmpty]

theorem wheresClause_silent {wheres : List (Clause Predicate)} (h : t.wheresClause wheres = .ok sql)
    (hempty : sql.isEmpty = true) : sql.labels = [] := by
  obtain ⟨clauses, -, rfl⟩ := wheresClause_eq_ok h
  unfold Target.conditions at hempty ⊢
  split at hempty
  · rw [if_pos ‹_›]
    rfl
  · simp [isEmpty] at hempty

theorem groupsClause_silent {groups : List Column} (h : t.groupsClause groups = .ok sql)
    (hempty : sql.isEmpty = true) : sql.labels = [] := by
  obtain ⟨-, rfl⟩ | ⟨list, -, rfl⟩ := groupsClause_eq_ok h
  · rfl
  · simp [isEmpty] at hempty

theorem havingClause_silent {havings : List (Clause HavingPredicate)}
    (h : t.havingClause havings = .ok sql) (hempty : sql.isEmpty = true) : sql.labels = [] := by
  obtain ⟨-, rfl⟩ | ⟨clauses, -, rfl⟩ := havingClause_eq_ok h
  · rfl
  · simp [isEmpty] at hempty

/-- A clause without text binds nothing, so a query loses no labels by leaving it out. -/
theorem component_silent {aggregate : Option Aggregate} {c : Component}
    (h : t.component q aggregate (t.parts q) c = .ok sql) (hempty : sql.isEmpty = true) :
    sql.labels = [] := by
  have hnoText : sql.isEmpty = false → sql.labels = [] := by
    intro htext
    rw [htext] at hempty
    cases hempty
  cases component_eq_ok h with
  | aggregate _ hclause => exact hnoText (aggregateClause_hasText hclause)
  | columns _ hclause => exact hnoText (columnsClause_hasText hclause)
  | source => exact hnoText (sourceClause_hasText _ _)
  | joins hjoins => exact joins_silent hjoins hempty
  | wheres hwheres => exact wheresClause_silent hwheres hempty
  | groups hgroups => exact groupsClause_silent hgroups hempty
  | havings hhavings => exact havingClause_silent hhavings hempty
  | orders horders => exact ordersClause_silent horders hempty
  | noAggregate | noColumns | noSource => rfl
  -- a page and a lock bind nothing, whether they have text or not
  | limit | noLimit | offset | noOffset | lock | noLock => rfl

/-! ## §3 Clauses in a row -/

/-- The clauses of a query that have text, each with its name. -/
def spokenClauses (d : Dialect) (s : Component → Sql) : List (Component × Sql) :=
  (d.components.map fun c => (c, s c)).filter fun p => !p.2.isEmpty

theorem mem_components (d : Dialect) (c : Component) : c ∈ d.components := by
  cases d <;> cases c <;> decide

theorem mem_spokenClauses {d : Dialect} {s : Component → Sql} {c : Component} :
    (c, sql) ∈ spokenClauses d s ↔ sql = s c ∧ (s c).isEmpty = false := by
  simp only [spokenClauses, List.mem_filter, List.mem_map, Prod.mk.injEq]
  constructor
  · rintro ⟨⟨_, _, rfl, rfl⟩, hempty⟩
    exact ⟨rfl, by simpa using hempty⟩
  · rintro ⟨rfl, hempty⟩
    exact ⟨⟨c, mem_components d c, rfl, rfl⟩, by simp [hempty]⟩

/-- What is gathered from the clauses with text is gathered from all clauses, as long as those
without text have nothing to give. -/
theorem spokenClauses_flatMap {α : Type} {d : Dialect} {s : Component → Sql}
    {f : Component × Sql → List α} (h : ∀ c, (s c).isEmpty = true → f (c, s c) = []) :
    (spokenClauses d s).flatMap f = d.components.flatMap fun c => f (c, s c) := by
  unfold spokenClauses
  induction d.components with
  | nil => rfl
  | cons c rest ih =>
    rw [List.map_cons, List.flatMap_cons, ← ih]
    cases hempty : (s c).isEmpty with
    | true => rw [List.filter_cons_of_neg (by simp [hempty]), h c hempty, List.nil_append]
    | false => rw [List.filter_cons_of_pos (by simp [hempty]), List.flatMap_cons]

/-- The clauses of a query are those of its components that have text. -/
theorem components_eq_ok {aggregate : Option Aggregate} {parts : Parts}
    {clauses : List (Component × Sql)} (h : t.components q aggregate parts = .ok clauses) :
    ∃ s : Component → Sql, (∀ c, t.component q aggregate parts c = .ok (s c)) ∧
      clauses = spokenClauses t.dialect s := by
  -- the clauses as a function of the component
  have : Inhabited (Component × Sql) := ⟨(.lock, .empty)⟩
  simp only [Target.components, bind_eq_ok, pure_eq_ok] at h
  obtain ⟨all, hall, rfl⟩ := h
  obtain ⟨g, hg, rfl⟩ := exists_map_of_mapM hall
  have hpair : ∀ c ∈ t.dialect.components,
      t.component q aggregate parts c = .ok (g c).2 ∧ g c = (c, (g c).2) := by
    intro c hc
    obtain ⟨sql, hsql, heq⟩ := bind_eq_ok.1 (hg c hc)
    rw [pure_eq_ok] at heq
    rw [← heq]
    exact ⟨hsql, rfl⟩
  refine ⟨fun c => (g c).2, fun c => (hpair c (mem_components _ c)).1, ?_⟩
  rw [spokenClauses, List.map_congr_left fun c hc => (hpair c hc).2]

/-- Clauses in a row are those of the query that have text, with its unions around them. -/
theorem plainLayout_eq_ok {aggregate : Option Aggregate} {parts : Parts}
    (h : t.plainLayout q aggregate parts = .ok sql) :
    ∃ s : Component → Sql, (∀ c, t.component q aggregate parts c = .ok (s c)) ∧
      t.withUnions q parts (words ((spokenClauses t.dialect s).map Prod.snd)) = .ok sql := by
  rw [Target.plainLayout, bind_eq_ok] at h
  obtain ⟨clauses, hclauses, h⟩ := h
  obtain ⟨s, hs, rfl⟩ := components_eq_ok hclauses
  exact ⟨s, hs, h⟩

/-- The order in which a query writes its buckets. Numbered rows are sorted in the select list. -/
def writtenOrder (numbered : Bool) : List Component :=
  if numbered then [.aggregate, .columns, .orders, .source, .joins, .wheres, .groups, .havings]
  else [.aggregate, .columns, .source, .joins, .wheres, .groups, .havings, .orders]

/-- Clauses in a row write their values in one order, whatever the dialect. -/
theorem spokenClauses_labels {q' : Query} {s : Component → Sql}
    {aggregate aggregate' : Option Aggregate}
    (hs : ∀ c, t.component q aggregate (t.parts q) c = .ok (s c))
    (hlabels : ∀ c, (s c).labels = componentBindings t q' aggregate' c) :
    (words ((spokenClauses t.dialect s).map Prod.snd)).labels =
      (writtenOrder false).flatMap (componentBindings t q' aggregate') := by
  -- clauses without text are left out, and bind nothing
  have hbody : (words ((spokenClauses t.dialect s).map Prod.snd)).labels =
      t.dialect.components.flatMap fun c => (s c).labels := by
    rw [labels_words, List.flatMap_map,
      spokenClauses_flatMap fun c hempty => component_silent (hs c) hempty]
  rw [hbody, funext hlabels]
  -- SQL Server puts the offset before the limit, and neither binds anything
  cases t.dialect <;> simp [Dialect.components, writtenOrder, componentBindings]

/-- A union adds the values of its branches and of its order. -/
theorem withUnions_labels {body : Sql} (hq : q.Mirrored) (hparts : PartsLabelled t q)
    (h : t.withUnions q (t.parts q) body = .ok sql) :
    sql.labels = body.labels ++ bound (t.branchBindings q.unions) ++
      bound (orderBindings q.unionOrders) := by
  obtain ⟨hunions, rfl⟩ | ⟨-, unions, hunions, rfl⟩ := withUnions_eq_ok h
  · rw [hq.unionOrders hunions, hunions, Target.branchBindings, bound_nil, List.append_nil,
      List.append_nil]
  · obtain ⟨sides, hsides, hlabels⟩ := unionsClause_labels hunions
    simp [unionSide_labels, hlabels, hparts.branches hsides]

/-- Clauses in a row carry their buckets in the order of writing. -/
theorem plainLayout_labels {aggregate : Option Aggregate} (hq : q.Mirrored)
    (hparts : PartsLabelled t q) (ha : ∀ a, aggregate = some a → q.aggregate = some a)
    (h : t.plainLayout q aggregate (t.parts q) = .ok sql) :
    sql.labels = (writtenOrder false).flatMap (componentBindings t q aggregate) ++
      bound (t.branchBindings q.unions) ++ bound (orderBindings q.unionOrders) := by
  obtain ⟨s, hs, h⟩ := plainLayout_eq_ok h
  rw [withUnions_labels hq hparts h,
    spokenClauses_labels hs fun c => component_labels hq hparts ha (hs c)]

/-! ## §4 Numbered rows -/

/-- What becomes of a clause where rows are numbered in some order. -/
def numberedClause (orders : Sql) : Component × Sql → Option Sql
  | (.orders, _) | (.limit, _) | (.offset, _) => none
  | (.columns, sql) => some (sql ++ ", row_number() over (" ++ orders ++ ") as row_num")
  | (_, sql) => some sql

/-- The values that a clause writes where rows are numbered. -/
def numberedBindings (t : Target) (q : Query) : Component → List Value
  | .orders => []
  | .columns => componentBindings t q none .columns ++ componentBindings t q none .orders
  | c => componentBindings t q none c

theorem numberedClause_labels {orders : Sql} {s : Component → Sql} (c : Component)
    (hs : ∀ c, (s c).labels = componentBindings t q none c)
    (horders : orders.labels = (s .orders).labels) :
    (numberedClause orders (c, s c)).elim [] labels = numberedBindings t q c := by
  cases c <;> simp [numberedClause, numberedBindings, hs, horders] <;> simp [componentBindings]

theorem flatMap_filterMap {α β γ : Type} (f : α → Option β) (g : β → List γ) (xs : List α) :
    (xs.filterMap f).flatMap g = xs.flatMap fun x => (f x).elim [] g := by
  induction xs with
  | nil => rfl
  | cons x xs ih => cases hx : f x <;> simp [hx, ih]

/-- The order in which rows are numbered: that of the query, or one that is made up. -/
def numberingOrder (s : Component → Sql) : Sql :=
  if (s .orders).isEmpty then "order by (select 0)" else s .orders

/-- A query whose rows are numbered, by what becomes of its clauses. -/
theorem numberedLayout_eq (t : Target) (q : Query) (parts : Parts) :
    t.numberedLayout q parts = (do
      let clauses ← t.components q none parts
      let orders := ((clauses.find? fun p => p.1 == .orders).map Prod.snd).getD
        "order by (select 0)"
      t.withUnions q parts ("select * from (" ++
        words (clauses.filterMap (numberedClause orders)) ++
          ") as temp_table where row_num " ++ Target.rowNumberRange q ++ " order by row_num")) := by
  unfold Target.numberedLayout
  refine congrArg (t.components q none parts >>= ·) (funext fun clauses => ?_)
  extract_lets orders inner order
  have horder : orders = order := by
    simp only [orders, order]
    cases clauses.find? fun p => p.1 == .orders <;> rfl
  have hinner : inner = clauses.filterMap (numberedClause orders) := by
    refine congrArg (List.filterMap · _) (funext fun ⟨c, sql⟩ => ?_)
    cases c <;> rfl
  rw [hinner, horder]

theorem find_spokenOrders (d : Dialect) (s : Component → Sql) :
    (((spokenClauses d s).find? fun p => p.1 == .orders).map Prod.snd).getD
      "order by (select 0)" = numberingOrder s := by
  unfold spokenClauses numberingOrder
  rw [List.find?_filter]
  cases hempty : (s .orders).isEmpty <;> cases d <;> simp [Dialect.components, hempty]

/-- Numbered rows are made of the clauses of the query, with the order in the select list. -/
theorem numberedLayout_eq_ok {parts : Parts} (h : t.numberedLayout q parts = .ok sql) :
    ∃ s : Component → Sql, (∀ c, t.component q none parts c = .ok (s c)) ∧
      t.withUnions q parts ("select * from (" ++
        words ((spokenClauses t.dialect s).filterMap (numberedClause (numberingOrder s))) ++
          ") as temp_table where row_num " ++ Target.rowNumberRange q ++ " order by row_num") =
        .ok sql := by
  rw [numberedLayout_eq, bind_eq_ok] at h
  obtain ⟨clauses, hclauses, h⟩ := h
  obtain ⟨s, hs, rfl⟩ := components_eq_ok hclauses
  rw [find_spokenOrders] at h
  exact ⟨s, hs, h⟩

/-- The order that is made up binds nothing, like the one that is missing. -/
theorem numberingOrder_labels {s : Component → Sql}
    (hs : ∀ c, t.component q none (t.parts q) c = .ok (s c)) :
    (numberingOrder s).labels = (s .orders).labels := by
  unfold numberingOrder
  split
  · rw [component_silent (hs .orders) ‹_›, labels_ofString]
  · rfl

/-- Where rows are numbered, the order goes into the select list, and its values with it. -/
theorem numberedClauses_labels {q' : Query} {s : Component → Sql}
    (hs : ∀ c, t.component q none (t.parts q) c = .ok (s c))
    (hlabels : ∀ c, (s c).labels = componentBindings t q' none c) :
    (words ((spokenClauses t.dialect s).filterMap
        (numberedClause (numberingOrder s)))).labels =
      (writtenOrder true).flatMap (componentBindings t q' none) := by
  -- what the filter drops, and what it never sees, binds nothing where it stands
  have hbody : (words ((spokenClauses t.dialect s).filterMap
        (numberedClause (numberingOrder s)))).labels =
      t.dialect.components.flatMap (numberedBindings t q') := by
    rw [labels_words, flatMap_filterMap, spokenClauses_flatMap]
    · exact congrArg (t.dialect.components.flatMap ·)
        (funext fun c => numberedClause_labels c hlabels (numberingOrder_labels hs))
    · intro c hempty
      cases c with
      | columns => exact absurd hempty (by simp [columnsClause_hasText (hs .columns)])
      | orders | limit | offset => rfl
      | _ => exact component_silent (hs _) hempty
  rw [hbody]
  -- the order of the clauses differs between dialects only in clauses that bind nothing
  cases t.dialect <;>
    simp [Dialect.components, writtenOrder, numberedBindings, componentBindings, columnBindings]

theorem numberedLayout_labels (hq : q.Mirrored) (hparts : PartsLabelled t q)
    (h : t.numberedLayout q (t.parts q) = .ok sql) :
    sql.labels = (writtenOrder true).flatMap (componentBindings t q none) ++
      bound (t.branchBindings q.unions) ++ bound (orderBindings q.unionOrders) := by
  obtain ⟨s, hs, h⟩ := numberedLayout_eq_ok h
  have hbody := numberedClauses_labels hs fun c =>
    component_labels hq hparts (fun _ ha => by cases ha) (hs c)
  rw [withUnions_labels hq hparts h]
  simp [hbody]

/-! ## §5 Whole queries -/

/-- Every layout writes its buckets in the order that belongs to it. -/
theorem layout_labels {aggregate : Option Aggregate} (hq : q.Mirrored)
    (hparts : PartsLabelled t q) (ha : ∀ a, aggregate = some a → q.aggregate = some a)
    (h : t.layout q aggregate (t.parts q) = .ok sql) :
    sql.labels =
      (writtenOrder (t.numbersRows q aggregate)).flatMap (componentBindings t q aggregate) ++
        bound (t.branchBindings q.unions) ++ bound (orderBindings q.unionOrders) := by
  cases layout_eq_ok h with
  | plain hnumbers h =>
    rw [hnumbers]
    exact plainLayout_labels hq hparts ha h
  | emptyPage hnumbers h =>
    rw [hnumbers]
    exact plainLayout_labels (q := { q with offset := none })
      ⟨hq.distinct, hq.displaced, hq.unionOrders⟩
      ⟨hparts.source, hparts.joins, hparts.wheres, hparts.branches⟩ ha h
  | madeOrder hnumbers horders h =>
    -- the order that an offset needs binds nothing, as the missing one does
    have hlabels := plainLayout_labels (q := { q with orders := [.ofSql "(SELECT 0)"] })
      ⟨hq.distinct, hq.displaced, hq.unionOrders⟩
      ⟨hparts.source, hparts.joins, hparts.wheres, hparts.branches⟩ ha h
    rw [hlabels, hnumbers]
    simp [writtenOrder, componentBindings, horders, orderBindings, SortKey.ofSql,
      SortKey.bindings]
  | numbered hnumbers haggregate h =>
    rw [hnumbers, haggregate]
    exact numberedLayout_labels hq hparts h

/-- The aggregate that stands in place of the select list, if any. -/
def placedAggregate (q : Query) : Option Aggregate :=
  if Target.aggregatesOverRows q then none else q.aggregate

/-- The values of an aggregate over the rows of a finished select. -/
def outerBindings (q : Query) : List Value :=
  if Target.aggregatesOverRows q then
    bound (columnBindings (q.aggregate.elim [] Aggregate.columns))
  else []

/-- The buckets of a query, flattened, are the values of its clauses in the order of writing. -/
theorem buckets_flatten (t : Target) (q : Query) :
    (t.buckets q).flatten = outerBindings q ++
      (writtenOrder (t.numbersRows q (placedAggregate q))).flatMap
        (componentBindings t q (placedAggregate q)) ++
      bound (t.branchBindings q.unions) ++ bound (orderBindings q.unionOrders) := by
  -- the collector puts both aggregates and the select list into one bucket
  have hselect : (q.bucketsAround (t.sourceBindings q.source) (t.joinsBindings q.joins)
      (t.clauseBindings q.wheres) (t.branchBindings q.unions)).select = outerBindings q ++
        componentBindings t q (placedAggregate q) .aggregate ++
        componentBindings t q (placedAggregate q) .columns := by
    unfold Query.bucketsAround outerBindings placedAggregate Target.aggregatesOverRows
    cases haggregate : q.aggregate with
    | none => simp [componentBindings, columnBindings]
    | some a =>
      cases hrows : (q.unions.isEmpty && q.havings.isEmpty) with
      | true =>
        obtain ⟨hunions, hhavings⟩ := Bool.and_eq_true_iff.1 hrows
        simp [componentBindings, hunions, hhavings, columnBindings]
      | false =>
        rcases Bool.and_eq_false_iff.1 hrows with hrows | hrows <;>
          simp [componentBindings, hrows, columnBindings]
  have hplaced : (if Target.aggregatesOverRows q then none else q.aggregate) =
      placedAggregate q := rfl
  unfold Target.buckets Target.arrange
  simp only [hplaced]
  cases hnumbers : t.numbersRows q (placedAggregate q) <;>
    simp [Buckets.flatten, Buckets.flattenOnly, Bucket.all, Buckets.get, hselect, writtenOrder] <;>
    simp [Query.bucketsAround, componentBindings]

/-- A query whose nested parts carry their values carries the values of its buckets. -/
theorem finish_labels (hq : q.Mirrored) (hparts : PartsLabelled t q)
    (h : t.finish q (t.parts q) = .ok sql) : sql.labels = (t.buckets q).flatten := by
  rw [buckets_flatten]
  unfold outerBindings placedAggregate
  obtain ⟨hover, h⟩ | ⟨hover, aggregate, head, rows, haggregate, hhead, hrows, rfl⟩ :=
    finish_eq_ok h
  · simp only [hover, Bool.false_eq_true, ↓reduceIte, List.nil_append]
    exact layout_labels hq hparts (fun _ ha => ha) h
  · -- the aggregate over a finished select: its own values, and then those of the select
    rw [if_pos hover, if_pos hover]
    simp [layout_labels hq hparts (fun _ ha => by cases ha) hrows, haggregate,
      aggregateClause_labels_of_mirrored hq haggregate hhead]

end SqlCompiler
