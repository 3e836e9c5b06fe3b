import SqlCompiler.Proofs.Outcome
import SqlCompiler.Select

/-!
# Forms of Selects

A select with SQL is written clause by clause, and each clause in one of a few forms. The lemmas of
this file say once what these forms are. What is proved of the SQL of a query is proved form by
form, and no later proof opens the functions again that write it.

## Main definitions

- `CountedForm`, `SelectHead`: what an aggregate is taken over, and the words of a select list
- `ComponentForm`: a clause of a select, or nothing in its place
- `LayoutForm`: the clauses in a row, or in a select with row numbers

## Main statements

- `groupsClause_eq_ok`, `ordersClause_eq_ok`, `wheresClause_eq_ok`, `havingClause_eq_ok`: clauses
  that may be missing
- `aggregateClause_eq_ok`, `columnsClause_eq_ok`: what stands in the place of a select list
- `lateralJoin_eq_ok`, `unionsClause_eq_ok`, `withUnions_eq_ok`: joined and united rows
- `component_eq_ok`, `layout_eq_ok`, `finish_eq_ok`: whole queries
-/

namespace SqlCompiler

variable {t : Target} {q : Query} {sql : Sql}

/-! ## §1 Clauses that may be missing -/

/-- Without columns to group by there is no clause. -/
theorem groupsClause_eq_ok {groups : List Column} (h : t.groupsClause groups = .ok sql) :
    groups = [] ∧ sql = .empty ∨
      ∃ list, t.columnList groups = .ok list ∧ sql = "group by " ++ list := by
  unfold Target.groupsClause at h
  split at h
  · rename_i hempty
    exact .inl ⟨List.isEmpty_iff.1 hempty, (pure_eq_ok.1 h).symm⟩
  · simp only [bind_eq_ok, pure_eq_ok] at h
    obtain ⟨list, hlist, rfl⟩ := h
    exact .inr ⟨list, hlist, rfl⟩

/-- Without keys there is no order. -/
theorem ordersClause_eq_ok {orders : List SortKey} (h : t.ordersClause orders = .ok sql) :
    orders = [] ∧ sql = .empty ∨
      ∃ keys, orders.mapM t.sortKey = .ok keys ∧ sql = "order by " ++ Sql.join ", " keys := by
  unfold Target.ordersClause at h
  split at h
  · rename_i hempty
    exact .inl ⟨List.isEmpty_iff.1 hempty, (pure_eq_ok.1 h).symm⟩
  · simp only [bind_eq_ok, pure_eq_ok] at h
    obtain ⟨keys, hkeys, rfl⟩ := h
    exact .inr ⟨keys, hkeys, rfl⟩

/-- Conditions on rows stand behind their word, which is left out where there are none. -/
theorem wheresClause_eq_ok {wheres : List (Clause Predicate)} (h : t.wheresClause wheres = .ok sql) :
    ∃ clauses, t.clauses wheres = .ok clauses ∧ sql = Target.conditions "where" clauses := by
  simp only [Target.wheresClause, bind_eq_ok, pure_eq_ok] at h
  obtain ⟨clauses, hclauses, rfl⟩ := h
  exact ⟨clauses, hclauses, rfl⟩

/-- Without conditions on groups there is no clause. -/
theorem havingClause_eq_ok {havings : List (Clause HavingPredicate)}
    (h : t.havingClause havings = .ok sql) :
    havings = [] ∧ sql = .empty ∨
      ∃ clauses, t.havingClauses havings = .ok clauses ∧
        sql = "having " ++ Clause.body clauses := by
  unfold Target.havingClause at h
  split at h
  · rename_i hempty
    exact .inl ⟨List.isEmpty_iff.1 hempty, (pure_eq_ok.1 h).symm⟩
  · simp only [bind_eq_ok, pure_eq_ok] at h
    obtain ⟨clauses, hclauses, rfl⟩ := h
    exact .inr ⟨clauses, hclauses, rfl⟩

/-! ## §2 Select list -/

/-- What an aggregate is taken over. -/
inductive CountedForm (t : Target) (aggregate : Aggregate) : Distinct → Sql → Prop where
  | columns {list : Sql} (h : t.columnList aggregate.columns = .ok list) :
      CountedForm t aggregate .off list
  | star {list : Sql} (h : t.columnList aggregate.columns = .ok list) (hstar : list.text = "*") :
      CountedForm t aggregate .all list
  | distinct {list : Sql} (h : t.columnList aggregate.columns = .ok list) :
      CountedForm t aggregate .all ("distinct " ++ list)
  /-- Distinct columns displace those of the aggregate. -/
  | distinctOn {on : List Column} {list : Sql} (h : t.columnList on = .ok list) :
      CountedForm t aggregate (.on on) ("distinct " ++ list)

/-- An aggregate is a function of what it is taken over. -/
theorem aggregateClause_eq_ok {distinct : Distinct} {aggregate : Aggregate}
    (h : t.aggregateClause distinct aggregate = .ok sql) :
    ∃ counted, CountedForm t aggregate distinct counted ∧
      sql = "select " ++ aggregate.function ++ "(" ++ counted ++ ") as aggregate" := by
  unfold Target.aggregateClause at h
  rw [bind_eq_ok] at h
  obtain ⟨columns, hcolumns, h⟩ := h
  -- the columns of the aggregate are looked at in any case, and then perhaps displaced
  cases distinct with
  | on on =>
    simp only [bind_eq_ok, pure_eq_ok] at h
    obtain ⟨list, hlist, _, rfl, rfl⟩ := h
    exact ⟨_, .distinctOn hlist, rfl⟩
  | all =>
    simp only [bind_eq_ok, pure_eq_ok] at h
    obtain ⟨_, rfl, rfl⟩ := h
    refine ⟨_, ?_, rfl⟩
    split
    · exact .star hcolumns ‹_›
    · exact .distinct hcolumns
  | off =>
    simp only [bind_eq_ok, pure_eq_ok] at h
    obtain ⟨_, rfl, rfl⟩ := h
    exact ⟨_, .columns hcolumns, rfl⟩

/-- The words in front of a select list. -/
inductive SelectHead (t : Target) (distinct : Distinct) : Sql → Prop where
  | rows (h : ∀ on, t.dialect = .postgres → distinct = .on on → False) :
      SelectHead t distinct
        (if distinct.isEnabled then .ofString "select distinct " else .ofString "select ")
  /-- Only PostgreSQL compares rows in some of their columns. -/
  | distinctOn {on : List Column} {list : Sql} (hpostgres : t.dialect = .postgres)
      (hdistinct : distinct = .on on) (h : t.columnList on = .ok list) :
      SelectHead t distinct ("select distinct on (" ++ list ++ ") ")

/-- A select list has its words in front, and in SQL Server the limit behind them. -/
theorem columnsClause_eq_ok {columns : List Column} (h : t.columnsClause q columns = .ok sql) :
    ∃ head top list, SelectHead t q.distinct head ∧
      (top = .ofString "" ∨ t.dialect = .sqlserver ∧ top = .ofString (Target.top q)) ∧
      t.columnList columns = .ok list ∧ sql = head ++ top ++ list := by
  unfold Target.columnsClause at h
  extract_lets top rest at h
  have htop : top = .ofString "" ∨ t.dialect = .sqlserver ∧ top = .ofString (Target.top q) := by
    simp only [top]
    split
    · exact .inr ⟨‹_›, rfl⟩
    · exact .inl rfl
  split at h
  · rename_i on hpostgres hdistinct
    simp only [bind_eq_ok, pure_eq_ok, rest] at h
    obtain ⟨distinct, hon, _, rfl, list, hlist, rfl⟩ := h
    exact ⟨_, top, list, .distinctOn hpostgres hdistinct hon, htop, hlist, rfl⟩
  · rename_i hother
    simp only [bind_eq_ok, pure_eq_ok, rest] at h
    obtain ⟨_, rfl, list, hlist, rfl⟩ := h
    exact ⟨_, top, list, .rows hother, htop, hlist, rfl⟩

/-! ## §3 Joined and united rows -/

/-- A lateral join is a join, or an apply of SQL Server. -/
theorem lateralJoin_eq_ok {kind : JoinKind} {table : Sql}
    (h : t.lateralJoin kind table = .ok sql) :
    sql = kind.keyword ++ " join lateral " ++ table ++ " on true" ∨
      sql = "outer apply " ++ table ∨ sql = "cross apply " ++ table := by
  unfold Target.lateralJoin at h
  split at h
  · exact .inl (Except.ok.inj h).symm
  · exact .inl (Except.ok.inj h).symm
  · cases h
    cases kind with
    | left => exact .inr (.inl rfl)
    | inner | right | cross => exact .inr (.inr rfl)
  · cases h
  · cases h

/-- The page of a union in SQL Server is nothing, an offset, or an offset and a limit. -/
theorem unionPage_eq_ok {limit offset : Option UInt64} {page : String}
    (h : Target.unionPage limit offset = .ok page) :
    page = "" ∨ page = "offset " ++ toString (offset.getD 0).toNat ++ " rows" ∨
      ∃ count, limit = some count ∧ count ≠ 0 ∧
        page = "offset " ++ toString (offset.getD 0).toNat ++ " rows fetch next " ++
          toString count.toNat ++ " rows only" := by
  unfold Target.unionPage at h
  dsimp only at h
  split at h
  · split at h
    · cases h
    · rename_i count hcount
      exact .inr (.inr ⟨count, rfl, hcount, (Except.ok.inj h).symm⟩)
  · obtain rfl := Except.ok.inj h
    split
    · exact .inr (.inl rfl)
    · exact .inl rfl

/-- A union ends with its order and its page. SQL Server makes up an order for a page without
one. -/
theorem unionsClause_eq_ok {branches : Except Fault Sql} (h : t.unionsClause q branches = .ok sql) :
    ∃ sides orders order page, branches = .ok sides ∧ t.ordersClause q.unionOrders = .ok orders ∧
      (order = orders ∨ orders.isEmpty = true ∧ order = .ofString "order by (SELECT 0)") ∧
      (page = t.pageClauses q.unionLimit q.unionOffset ∨
        ∃ text, Target.unionPage q.unionLimit q.unionOffset = .ok text ∧
          page = [.ofString text]) ∧
      sql = .words (sides :: order :: page) := by
  unfold Target.unionsClause at h
  split at h
  · simp only [bind_eq_ok, pure_eq_ok] at h
    obtain ⟨text, htext, orders, horders, sides, hsides, rfl⟩ := h
    refine ⟨sides, orders, _, _, hsides, horders, ?_, .inr ⟨text, htext, rfl⟩, rfl⟩
    split
    · rename_i hpage
      exact .inr ⟨(Bool.and_eq_true_iff.1 hpage).1, rfl⟩
    · exact .inl rfl
  · simp only [bind_eq_ok, pure_eq_ok] at h
    obtain ⟨sides, hsides, orders, horders, rfl⟩ := h
    exact ⟨sides, orders, _, _, hsides, horders, .inl rfl, .inl rfl, rfl⟩

/-- Branches stand behind one side of the union; a query without branches is no side. -/
theorem withUnions_eq_ok {parts : Parts} {body : Sql} (h : t.withUnions q parts body = .ok sql) :
    q.unions = [] ∧ sql = body ∨
      ¬q.unions.isEmpty = true ∧ ∃ unions, t.unionsClause q parts.branches = .ok unions ∧
        sql = t.unionSide body ++ " " ++ unions := by
  unfold Target.withUnions at h
  split at h
  · rename_i hempty
    exact .inl ⟨List.isEmpty_iff.1 hempty, (pure_eq_ok.1 h).symm⟩
  · rename_i hunions
    simp only [bind_eq_ok, pure_eq_ok] at h
    obtain ⟨unions, hclause, rfl⟩ := h
    exact .inr ⟨hunions, unions, hclause, rfl⟩

/-! ## §4 Clauses -/

/-- A clause of a select, or nothing in its place. -/
inductive ComponentForm (t : Target) (q : Query) (aggregate : Option Aggregate) (parts : Parts) :
    Component → Sql → Prop where
  | aggregate {a : Aggregate} {sql : Sql} (ha : aggregate = some a)
      (h : t.aggregateClause q.distinct a = .ok sql) :
      ComponentForm t q aggregate parts .aggregate sql
  | noAggregate (ha : aggregate = none) : ComponentForm t q aggregate parts .aggregate .empty
  | columns {sql : Sql} (ha : aggregate = none)
      (h : t.columnsClause q (q.columns.getD [.named "*"]) = .ok sql) :
      ComponentForm t q aggregate parts .columns sql
  | noColumns {a : Aggregate} (ha : aggregate = some a) :
      ComponentForm t q aggregate parts .columns .empty
  | source {tbl : Table} {table : Sql} (hsource : q.source = some tbl)
      (h : parts.source = .ok table) :
      ComponentForm t q aggregate parts .source (t.sourceClause q.lock table)
  | noSource (hsource : q.source = none) : ComponentForm t q aggregate parts .source .empty
  | joins {sql : Sql} (h : parts.joins = .ok sql) : ComponentForm t q aggregate parts .joins sql
  | wheres {sql : Sql} (h : parts.wheres = .ok sql) : ComponentForm t q aggregate parts .wheres sql
  | groups {sql : Sql} (h : t.groupsClause q.groups = .ok sql) :
      ComponentForm t q aggregate parts .groups sql
  | havings {sql : Sql} (h : t.havingClause q.havings = .ok sql) :
      ComponentForm t q aggregate parts .havings sql
  | orders {sql : Sql} (h : t.ordersClause q.orders = .ok sql) :
      ComponentForm t q aggregate parts .orders sql
  | limit {limit : UInt64} (hlimit : q.limit = some limit) :
      ComponentForm t q aggregate parts .limit (t.limitClause limit q.offset)
  | noLimit (hlimit : q.limit = none) : ComponentForm t q aggregate parts .limit .empty
  | offset {offset : UInt64} (hoffset : q.offset = some offset) :
      ComponentForm t q aggregate parts .offset (t.offsetClause offset)
  | noOffset (hoffset : q.offset = none) : ComponentForm t q aggregate parts .offset .empty
  | lock {lock : Lock} (hlock : q.lock = some lock) :
      ComponentForm t q aggregate parts .lock (t.lockClause lock)
  | noLock (hlock : q.lock = none) : ComponentForm t q aggregate parts .lock .empty

section Layouts

variable {aggregate : Option Aggregate} {parts : Parts}

/-- Each clause has one of its forms. -/
theorem component_eq_ok {c : Component} (h : t.component q aggregate parts c = .ok sql) :
    ComponentForm t q aggregate parts c sql := by
  cases c with
  | aggregate =>
    simp only [Target.component] at h
    split at h
    · exact .aggregate rfl h
    · cases h
      exact .noAggregate rfl
  | columns =>
    simp only [Target.component] at h
    split at h
    · cases h
      exact .noColumns rfl
    · exact .columns rfl h
  | source =>
    simp only [Target.component] at h
    split at h
    · rename_i tbl hsource
      simp only [bind_eq_ok, pure_eq_ok] at h
      obtain ⟨table, htable, rfl⟩ := h
      exact .source hsource htable
    · cases h
      exact .noSource ‹_›
  | joins => exact .joins h
  | wheres => exact .wheres h
  | groups => exact .groups h
  | havings => exact .havings h
  | orders => exact .orders h
  | limit =>
    simp only [Target.component] at h
    split at h
    · cases h
      exact .limit ‹_›
    · cases h
      exact .noLimit ‹_›
  | offset =>
    simp only [Target.component] at h
    split at h
    · cases h
      exact .offset ‹_›
    · cases h
      exact .noOffset ‹_›
  | lock =>
    simp only [Target.component] at h
    split at h
    · cases h
      exact .lock ‹_›
    · cases h
      exact .noLock ‹_›

/-! ## §5 Whole queries -/

/-- Only SQL Server numbers rows. -/
theorem numbersRows_eq_false (h : t.dialect ≠ .sqlserver) (aggregate : Option Aggregate) :
    t.numbersRows q aggregate = false := by
  simp [Target.numbersRows, h]

/-- A query around its nested parts. -/
inductive LayoutForm (t : Target) (q : Query) (aggregate : Option Aggregate) (parts : Parts)
    (sql : Sql) : Prop where
  | plain (hnumbers : t.numbersRows q aggregate = false)
      (h : t.plainLayout q aggregate parts = .ok sql)
  /-- SQL Server: an empty page needs no offset. -/
  | emptyPage (hnumbers : t.numbersRows q aggregate = false)
      (h : t.plainLayout { q with offset := none } aggregate parts = .ok sql)
  /-- SQL Server: rows are skipped in some order, even one that says nothing. -/
  | madeOrder (hnumbers : t.numbersRows q aggregate = false) (horders : q.orders = [])
      (h : t.plainLayout { q with orders := [.ofSql "(SELECT 0)"] } aggregate parts = .ok sql)
  | numbered (hnumbers : t.numbersRows q aggregate = true) (haggregate : aggregate = none)
      (h : t.numberedLayout q parts = .ok sql)

/-- Each query has one of these layouts. -/
theorem layout_eq_ok (h : t.layout q aggregate parts = .ok sql) :
    LayoutForm t q aggregate parts sql := by
  unfold Target.layout at h
  split at h
  · split at h
    · rename_i hlimit
      have hnumbers : t.numbersRows q aggregate = false := by
        simp [Target.numbersRows, hlimit.1]
      exact .emptyPage hnumbers h
    · split at h
      · rename_i hnumbers
        -- rows are numbered in a select list, which an aggregate has not
        have haggregate : aggregate.isNone = true := by
          simp only [Target.numbersRows, Bool.and_eq_true] at hnumbers
          exact hnumbers.1.1.2
        exact .numbered hnumbers (Option.isNone_iff_eq_none.1 haggregate) h
      · rename_i hnumbers
        have hplain : t.numbersRows q aggregate = false := Bool.eq_false_iff.2 hnumbers
        split at h
        · rename_i hmissing
          exact .madeOrder hplain (List.isEmpty_iff.1 hmissing.2) h
        · exact .plain hplain h
  · rename_i hdialect
    exact .plain (numbersRows_eq_false hdialect aggregate) h

/-- A query is laid out with its aggregate, or without it in a select over its rows. -/
theorem finish_eq_ok (h : t.finish q parts = .ok sql) :
    Target.aggregatesOverRows q = false ∧ t.layout q q.aggregate parts = .ok sql ∨
      Target.aggregatesOverRows q = true ∧ ∃ aggregate head rows, q.aggregate = some aggregate ∧
        t.aggregateClause q.distinct aggregate = .ok head ∧ t.layout q none parts = .ok rows ∧
        sql = head ++ " from (" ++ rows ++ ") as " ++ t.quoteTable "temp_table" := by
  unfold Target.finish at h
  split at h
  · rename_i aggregate haggregate
    split at h
    · rename_i hover
      simp only [bind_eq_ok, pure_eq_ok] at h
      obtain ⟨head, hhead, rows, hrows, rfl⟩ := h
      exact .inr ⟨hover, aggregate, head, rows, haggregate, hhead, hrows, rfl⟩
    · rename_i hover
      rw [haggregate]
      exact .inl ⟨Bool.eq_false_iff.2 hover, h⟩
  · rename_i haggregate
    rw [haggregate]
    exact .inl ⟨by simp [Target.aggregatesOverRows, haggregate], h⟩

end Layouts

end SqlCompiler
