import SqlCompiler.Proofs.LayoutLabels
import SqlCompiler.Proofs.MaskedPredicates
import SqlCompiler.Proofs.Words

/-!
# Row Windows

SQL Server has no clause for a limit. A limit stands in the select list, behind an offset, or in the
range of row numbers, and an offset needs an order. Whatever form is taken, the select has one
clause for its page, which keeps exactly the rows that limit and offset ask for.

## Main definitions

- `Pagination`: the forms of a page; `Pagination.Keeps`: the rows that are kept
- `Pagination.clause`, `readPagination`: a page as a clause, and a clause as a page
- `InWindow`: the rows that a limit and an offset ask for
- `SelectFrame`: the clauses of a select that have no part in its page
- `Target.pagedText`: a select around its page

## Main statements

- `readPagination_clause`: a clause is read as its page
- `keeps_pageOfSelect`, `keeps_pageOfUnion`: the pages of selects and of unions
- `layout_windows`: queries are laid out around pages that keep the window
-/

namespace SqlCompiler

/-! ## §1 Pages -/

/-- A way to keep some of the rows. -/
inductive Pagination where
  | everything
  | top (count : Nat)
  | skip (offset : Nat)
  | fetch (offset count : Nat)
  | numbersBetween (first last : Nat)
  | numbersFrom (first : Nat)
deriving DecidableEq, Repr

/-- The clause of a select in which a page stands. -/
inductive Place where
  | selectList
  | afterOrder
  | rowNumbers
deriving DecidableEq, Repr

namespace Pagination

/-- Whether the row with the given number, counted from one, is kept. -/
def Keeps : Pagination → Nat → Prop
  | everything, _ => True
  | top count, r => r ≤ count
  | skip offset, r => offset < r
  | fetch offset count, r => offset < r ∧ r ≤ offset + count
  | numbersBetween first last, r => first ≤ r ∧ r ≤ last
  | numbersFrom first, r => first ≤ r

/-- Where a page is written: `top` stands in the select list, offset and limit stand behind the
order, and a range of row numbers around the whole select. -/
def place : Pagination → Place
  | top _ => .selectList
  | everything | skip _ | fetch _ _ => .afterOrder
  | numbersBetween _ _ | numbersFrom _ => .rowNumbers

/-- Whether rows are told apart by their order. -/
def needsOrder : Pagination → Bool
  | everything | top _ => false
  | _ => true

/-- The words of a page. -/
def words : Pagination → List String
  | everything => []
  | top count => ["top", toString count]
  | skip offset => ["offset", toString offset, "rows"]
  | fetch offset count =>
    ["offset", toString offset, "rows", "fetch", "next", toString count, "rows", "only"]
  | numbersBetween first last => ["row_num", "between", toString first, "and", toString last]
  | numbersFrom first => ["row_num", ">=", toString first]

/-- The clause of a page. -/
def clause (page : Pagination) : String :=
  " ".intercalate page.words

end Pagination

/-- A number in decimal digits. -/
def readNumber (s : String) : Option Nat :=
  if s ≠ "" ∧ s.toList.all Char.isDigit then some (Nat.ofDigitChars 10 s.toList 0) else none

/-- The page that a clause stands for. -/
def readPagination (clause : String) : Option Pagination :=
  match wordsOf clause with
  | [] => some .everything
  | [.plain "top", .plain count] => (readNumber count).map .top
  | [.plain "offset", .plain offset, .plain "rows"] => (readNumber offset).map .skip
  | [.plain "offset", .plain offset, .plain "rows", .plain "fetch", .plain "next", .plain count,
      .plain "rows", .plain "only"] => do
    return .fetch (← readNumber offset) (← readNumber count)
  | [.plain "row_num", .plain "between", .plain first, .plain "and", .plain last] => do
    return .numbersBetween (← readNumber first) (← readNumber last)
  | [.plain "row_num", .plain ">=", .plain first] => (readNumber first).map .numbersFrom
  | _ => none

/-! ## §2 Clauses of pages -/

theorem readNumber_repr (n : Nat) : readNumber n.repr = some n := by
  have hall : n.repr.toList.all Char.isDigit = true := by
    rw [Nat.toList_repr, List.all_eq_true]
    intro c hc
    exact Nat.isDigit_of_mem_toDigits (by decide) (by decide) hc
  rw [readNumber, if_pos ⟨Nat.repr_ne_empty, hall⟩, Nat.toList_repr, Nat.ofDigitChars_ten_toDigits]

/-- Words with blanks between them are read as the words. -/
theorem hasWords_intercalate {words : List String}
    (h : ∀ word ∈ words, HasWords word [.plain word]) :
    HasWords (" ".intercalate words) (words.map .plain) := by
  induction words with
  | nil => exact hasWords_empty
  | cons word rest ih =>
    obtain ⟨hword, hrest⟩ := List.forall_mem_cons.1 h
    cases rest with
    | nil => simpa using hword
    | cons next rest =>
      rw [String.intercalate_cons_cons]
      exact hword.blank (ih hrest)

/-- A clause has the words of its page. -/
theorem wordsOf_clause (page : Pagination) : wordsOf page.clause = page.words.map .plain := by
  apply HasWords.wordsOf
  apply hasWords_intercalate
  -- numbers are words by their digits, so only the keywords are left to check
  have hkeyword : ∀ word ∈ ["top", "offset", "rows", "fetch", "next", "only", "row_num",
      "between", "and", ">="], HasWords word [.plain word] := by
    intro word hword
    have hplain : word ≠ "" ∧ isUnbroken word = true := by
      revert word
      decide
    exact hasWords_plain hplain.1 hplain.2
  cases page <;>
    simp only [Pagination.words, List.forall_mem_cons, List.not_mem_nil, false_imp_iff,
      implies_true, and_true, hasWords_nat, true_and] <;>
    simp only [List.forall_mem_cons] at hkeyword <;>
    simp [hkeyword]

/-- A clause is read as its page. -/
theorem readPagination_clause (page : Pagination) :
    readPagination page.clause = some page := by
  rw [readPagination, wordsOf_clause]
  cases page <;> simp [Pagination.words, readNumber_repr]

/-! ## §3 Windows -/

/-- Whether a limit and an offset ask for the row with the given number, counted from one. -/
def InWindow (limit offset : Option UInt64) (r : Nat) : Prop :=
  (offset.getD 0).toNat < r ∧ ∀ count ∈ limit, r ≤ (offset.getD 0).toNat + count.toNat

/-- The largest big integer. -/
def maxBigInt : Nat := 0x7fffffffffffffff

/-- A page keeps the rows that are asked for, among those whose number is a big integer. -/
def Pagination.KeepsWindow (page : Pagination) (limit offset : Option UInt64) : Prop :=
  ∀ r, 1 ≤ r → r ≤ maxBigInt → (page.Keeps r ↔ InWindow limit offset r)

/-- The page of a select. -/
def pageOfSelect (legacy : Bool) (limit offset : Option UInt64) : Pagination :=
  let skipped := offset.getD 0
  match limit with
  | some count =>
    if skipped = 0 then .top count.toNat
    else if count = 0 then .top 0
    else if legacy then
      .numbersBetween (Target.addCounts skipped 1) (Target.addCounts skipped count)
    else .fetch skipped.toNat count.toNat
  | none =>
    if skipped = 0 then .everything
    else if legacy then .numbersFrom (Target.addCounts skipped 1)
    else .skip skipped.toNat

/-- The page of a union. -/
def pageOfUnion (limit offset : Option UInt64) : Pagination :=
  let skipped := offset.getD 0
  match limit with
  | some count => .fetch skipped.toNat count.toNat
  | none => if skipped = 0 then .everything else .skip skipped.toNat

theorem uint64_eq_zero_iff (n : UInt64) : n = 0 ↔ n.toNat = 0 :=
  ⟨fun h => h ▸ rfl, fun h => UInt64.toNat_inj.1 h⟩

/-- A sum is out of range only where no row number is. -/
theorem addCounts_cases (a b : UInt64) :
    Target.addCounts a b = a.toNat + b.toNat ∨
      maxBigInt < Target.addCounts a b ∧ maxBigInt < a.toNat + b.toNat := by
  unfold Target.addCounts maxBigInt
  simp only [UInt64.size]
  omega

theorem keeps_pageOfSelect (legacy : Bool) (limit offset : Option UInt64) :
    (pageOfSelect legacy limit offset).KeepsWindow limit offset := by
  intro r hpos hbig
  have hone : (1 : UInt64).toNat = 1 := rfl
  -- a bound that is out of range lies above every row number
  have hstart := addCounts_cases (offset.getD 0) 1
  simp only [pageOfSelect, InWindow, uint64_eq_zero_iff]
  cases limit with
  | none =>
    simp only [Option.mem_def, reduceCtorEq, false_imp_iff, implies_true, and_true]
    split_ifs <;> simp only [Pagination.Keeps, true_iff] <;> omega
  | some count =>
    have hend := addCounts_cases (offset.getD 0) count
    simp only [Option.mem_def, Option.some.injEq, forall_eq']
    split_ifs <;> simp only [Pagination.Keeps] <;> omega

theorem keeps_pageOfUnion (limit offset : Option UInt64) :
    (pageOfUnion limit offset).KeepsWindow limit offset := by
  intro r hpos hbig
  simp only [pageOfUnion, InWindow, uint64_eq_zero_iff]
  cases limit with
  | none =>
    simp only [Option.mem_def, reduceCtorEq, false_imp_iff, implies_true, and_true]
    split_ifs
    · simp only [Pagination.Keeps, true_iff]
      omega
    · exact Iff.rfl
  | some count =>
    simp only [Option.mem_def, Option.some.injEq, forall_eq', Pagination.Keeps]

/-! ## §4 Selects around pages -/

/-- The clauses of a select that have no part in its page. -/
structure SelectFrame where
  distinct : Bool
  columns : Sql
  source : Sql
  joins : Sql
  wheres : Sql
  groups : Sql
  havings : Sql

/-- The words in front of the select list. -/
def SelectFrame.head (frame : SelectFrame) : Sql :=
  if frame.distinct then "select distinct " else "select "

/-- The clauses between the select list and the order. -/
def SelectFrame.middle (frame : SelectFrame) : List Sql :=
  [frame.source, frame.joins, frame.wheres, frame.groups, frame.havings]

/-- The order of a select; where the page needs one and there is none, an order that leaves open
which row comes first. -/
def Pagination.ordered (page : Pagination) (orders : Sql) : Sql :=
  if page.needsOrder && orders.isEmpty then
    match page.place with
    | .rowNumbers => "order by (select 0)"
    | _ => "order by (SELECT 0)"
  else orders

/-- A select with the clause of its page in its place. -/
def SelectFrame.paged (frame : SelectFrame) (page : Pagination) (orders : Sql) : Sql :=
  match page.place with
  | .selectList =>
    .words ((frame.head ++ page.clause ++ " " ++ frame.columns) :: frame.middle ++ [orders])
  | .afterOrder =>
    .words ((frame.head ++ frame.columns) :: frame.middle ++ [orders, page.clause])
  | .rowNumbers =>
    "select * from (" ++ Sql.words ((frame.head ++ frame.columns ++ ", row_number() over (" ++
      orders ++ ") as row_num") :: frame.middle) ++ ") as temp_table where " ++ page.clause ++
      " order by row_num"

namespace Target

/-- The table of a query, if it has one. -/
def sourcePart (t : Target) (source : Option Table) (lock : Option Lock) (parts : Parts) :
    Except Fault Sql :=
  match source with
  | some _ => do return t.sourceClause lock (← parts.source)
  | none => .ok .empty

/-- The clauses of a query that have no part in its page. -/
def selectFrame (t : Target) (q : Query) (parts : Parts) : Except Fault SelectFrame := do
  let columns ← t.columnList (q.columns.getD [.named "*"])
  let source ← t.sourcePart q.source q.lock parts
  let joins ← parts.joins
  let wheres ← parts.wheres
  let groups ← t.groupsClause q.groups
  let havings ← t.havingClause q.havings
  return ⟨q.distinct.isEnabled, columns, source, joins, wheres, groups, havings⟩

/-- A select with the branches of its union, if it has any, and with the clause of their page. -/
def pagedUnion (t : Target) (q : Query) (parts : Parts) (page : Pagination) (select : Sql) :
    Except Fault Sql := do
  if q.unions.isEmpty then return select
  if q.unionLimit = some 0 then throw .emptyUnionFetch
  let orders ← t.ordersClause q.unionOrders
  let branches ← parts.branches
  return "select * from (" ++ select ++ ") as " ++ t.quoteTable "temp_table" ++ " " ++
    Sql.words [branches, page.ordered orders, page.clause]

/-- A query around the clauses of its pages. -/
def pagedSelect (t : Target) (q : Query) (parts : Parts) (page unionPage : Pagination) :
    Except Fault Sql := do
  let frame ← t.selectFrame q parts
  let orders ← t.ordersClause q.orders
  t.pagedUnion q parts unionPage (frame.paged page (page.ordered orders))

end Target

/-! ## §5 Texts of clauses -/

/-- The clauses of pages, as they are written. -/
theorem Pagination.clause_eq (page : Pagination) :
    page.clause =
      match page with
      | everything => ""
      | top count => "top " ++ toString count
      | skip offset => "offset " ++ toString offset ++ " rows"
      | fetch offset count =>
        "offset " ++ toString offset ++ " rows fetch next " ++ toString count ++ " rows only"
      | numbersBetween first last =>
        "row_num between " ++ toString first ++ " and " ++ toString last
      | numbersFrom first => "row_num >= " ++ toString first := by
  apply String.toList_inj.1
  cases page <;> simp [Pagination.clause, Pagination.words]

namespace Sql

theorem text_words_cons (s : Sql) (rest : List Sql) :
    (words (s :: rest)).text =
      if s.text = "" ∨ (words rest).text = "" then s.text ++ (words rest).text
      else s.text ++ " " ++ (words rest).text := by
  simp only [words, isEmpty, Bool.or_eq_true, String.isEmpty_iff]
  split <;> simp

/-- Clauses without text are as good as left out. -/
theorem text_words_filter (parts : List Sql) :
    (words (parts.filter fun s => !s.isEmpty)).text = (words parts).text := by
  induction parts with
  | nil => rfl
  | cons s rest ih =>
    rw [text_words_cons]
    by_cases hs : s.text = ""
    · have hempty : s.isEmpty = true := String.isEmpty_iff.2 hs
      rw [List.filter_cons_of_neg (by simp [hempty]), ih, if_pos (.inl hs), hs, String.empty_append]
    · have hempty : s.isEmpty = false := Bool.eq_false_iff.2 (mt String.isEmpty_iff.1 hs)
      rw [List.filter_cons_of_pos (by simp [hempty]), text_words_cons, ih]

/-- Clauses in a row have the same text if the last ones have. -/
theorem text_words_append_congr (parts : List Sql) {a b : List Sql}
    (h : (words a).text = (words b).text) :
    (words (parts ++ a)).text = (words (parts ++ b)).text := by
  induction parts with
  | nil => exact h
  | cons s rest ih =>
    rw [List.cons_append, List.cons_append, text_words_cons, text_words_cons, ih]

theorem text_words_cons_congr {s s' : Sql} (rest : List Sql) (h : s.text = s'.text) :
    (words (s :: rest)).text = (words (s' :: rest)).text := by
  rw [text_words_cons, text_words_cons, h]

end Sql

/-! ## §6 Layouts of SQL Server -/

/-- The clauses between the select list and the order, with their names. -/
def SelectFrame.named (frame : SelectFrame) : List (Component × Sql) :=
  [(.source, frame.source), (.joins, frame.joins), (.wheres, frame.wheres),
    (.groups, frame.groups), (.havings, frame.havings)]

namespace Target

variable {t : Target}

/-- The clause of an offset, if there is one. -/
def offsetPart (t : Target) (q : Query) : Sql :=
  match q.offset with
  | some offset => t.offsetClause offset
  | none => .empty

/-- The clause of a limit, if there is one. -/
def limitPart (t : Target) (q : Query) : Sql :=
  match q.limit with
  | some limit => t.limitClause limit q.offset
  | none => .empty

/-- The clauses of a select in SQL Server around those that have no part in its page. -/
def serverClauses (t : Target) (q : Query) (frame : SelectFrame) (orders : Sql) :
    List (Component × Sql) :=
  (.aggregate, .empty) :: (.columns, frame.head ++ top q ++ frame.columns) :: (frame.named ++
    [(.orders, orders), (.offset, t.offsetPart q), (.limit, t.limitPart q), (.lock, .empty)])

/-- The select list begins with the words of the select and the rows from the top. -/
theorem columnsClause_server (ht : t.dialect = .sqlserver) (q : Query) (columns : List Column) :
    t.columnsClause q columns = (do
      let list ← t.columnList columns
      let head : Sql := if q.distinct.isEnabled then "select distinct " else "select "
      return head ++ top q ++ list) := by
  simp only [columnsClause, ht]
  rfl

/-- A lock is a hint of the table, and has no clause. -/
theorem component_lock_server (ht : t.dialect = .sqlserver) (q : Query) (parts : Parts) :
    ∃ lock, t.component q none parts .lock = .ok lock ∧ lock.isEmpty = true := by
  simp only [component]
  cases q.lock with
  | none => exact ⟨_, rfl, rfl⟩
  | some lock => exact ⟨_, rfl, by simp [lockClause, ht, Sql.isEmpty]⟩

theorem components_server (ht : t.dialect = .sqlserver) (q : Query) (parts : Parts) :
    t.components q none parts = (do
      let frame ← t.selectFrame q parts
      let orders ← t.ordersClause q.orders
      return (t.serverClauses q frame orders).filter fun p => !p.2.isEmpty) := by
  have hoffset : t.component q none parts .offset = .ok (t.offsetPart q) := by
    simp only [component, offsetPart]
    cases q.offset <;> rfl
  have hlimit : t.component q none parts .limit = .ok (t.limitPart q) := by
    simp only [component, limitPart]
    cases q.limit <;> rfl
  obtain ⟨lock, hlock, hempty⟩ := component_lock_server ht q parts
  have hcolumns : t.component q none parts .columns = _ :=
    columnsClause_server ht q (q.columns.getD [.named "*"])
  have hsource : t.component q none parts .source = t.sourcePart q.source q.lock parts := rfl
  -- both sides render the same parts in the same order, and end at the first that fails
  simp only [components, Dialect.components, ht, List.mapM_cons, List.mapM_nil, hoffset, hlimit,
    hlock, hcolumns, hsource, selectFrame]
  cases t.columnList (q.columns.getD [.named "*"]) with
  | error e => rfl
  | ok columns =>
  cases t.sourcePart q.source q.lock parts with
  | error e => rfl
  | ok source =>
  simp only [component]
  cases parts.joins with
  | error e => rfl
  | ok joins =>
  cases parts.wheres with
  | error e => rfl
  | ok wheres =>
  cases t.groupsClause q.groups with
  | error e => rfl
  | ok groups =>
  cases t.havingClause q.havings with
  | error e => rfl
  | ok havings =>
  cases t.ordersClause q.orders with
  | error e => rfl
  | ok orders =>
  refine congrArg Except.ok ?_
  simp only [serverClauses, SelectFrame.named, List.cons_append, List.nil_append, List.filter_cons,
    hempty]
  rfl

theorem uint64_pos_iff (n : UInt64) : 0 < n ↔ n ≠ 0 := by
  rw [Ne, uint64_eq_zero_iff, UInt64.lt_iff_toNat_lt]
  exact Nat.pos_iff_ne_zero

theorem unionPage_eq {limit : Option UInt64} (h : limit ≠ some 0) (offset : Option UInt64) :
    unionPage limit offset = .ok (pageOfUnion limit offset).clause := by
  cases limit with
  | none =>
    simp only [unionPage, pageOfUnion, uint64_pos_iff]
    by_cases hzero : offset.getD 0 = 0
    · rw [if_pos hzero, if_neg (not_not_intro hzero)]
      rfl
    · rw [if_neg hzero, if_pos hzero, Pagination.clause_eq]
  | some count =>
    have hcount : count ≠ 0 := fun hzero => h (hzero ▸ rfl)
    simp only [unionPage, pageOfUnion]
    rw [if_neg hcount, Pagination.clause_eq]

/-- Behind an order, the pages that need one are those that have a clause. -/
theorem needsOrder_of_afterOrder {page : Pagination} (h : page.place = .afterOrder) :
    page.needsOrder = !page.clause.isEmpty := by
  rw [Pagination.clause_eq]
  cases page with
  | everything => rfl
  | skip | fetch => simp [Pagination.needsOrder]
  | top | numbersBetween | numbersFrom => cases h

theorem place_pageOfUnion (limit offset : Option UInt64) :
    (pageOfUnion limit offset).place = .afterOrder := by
  unfold pageOfUnion
  cases limit with
  | some count => rfl
  | none => exact apply_ite Pagination.place _ _ _ |>.trans (ite_self _)

/-- The branches of a union stand behind its first select, with one page for all of them. -/
theorem withUnions_server (ht : t.dialect = .sqlserver) (q : Query) (parts : Parts)
    {body body' : Sql} (h : SameText body body') :
    Alike SameText (t.withUnions q parts body)
      (t.pagedUnion q parts (pageOfUnion q.unionLimit q.unionOffset) body') := by
  unfold withUnions pagedUnion
  cases q.unions.isEmpty with
  | true => exact .result h
  | false =>
    by_cases hfetch : q.unionLimit = some 0
    · -- a page without rows is refused before anything else is rendered
      simp only [unionsClause, ht, hfetch, unionPage, if_true, Bool.false_eq_true, if_false]
      exact .fault _
    · have hpage := unionPage_eq hfetch q.unionOffset
      have hplace := place_pageOfUnion q.unionLimit q.unionOffset
      simp only [unionsClause, ht, hpage, hfetch, Bool.false_eq_true, if_false]
      cases t.ordersClause q.unionOrders with
      | error e => exact .fault e
      | ok orders =>
        cases parts.branches with
        | error e => exact .fault e
        | ok branches =>
          refine .result ?_
          -- the layout asks whether a page was written, the plan whether one needs an order
          have hordered : (pageOfUnion q.unionLimit q.unionOffset).ordered orders =
              if orders.isEmpty && !(pageOfUnion q.unionLimit q.unionOffset).clause.isEmpty then
                .ofString "order by (SELECT 0)"
              else orders := by
            rw [Pagination.ordered, needsOrder_of_afterOrder hplace, hplace, Bool.and_comm]
          rw [hordered]
          refine ⟨?_⟩
          simp only [unionSide, ht, Sql.text_append, h.text]

/-- A query whose clauses stand in a row has its page in the select list or behind its order. -/
theorem plainLayout_server (ht : t.dialect = .sqlserver) (q : Query) (parts : Parts) :
    t.plainLayout q none parts = (do
      let frame ← t.selectFrame q parts
      let orders ← t.ordersClause q.orders
      t.withUnions q parts (.words
        (((t.serverClauses q frame orders).filter fun p => !p.2.isEmpty).map Prod.snd))) := by
  rw [plainLayout, components_server ht]
  simp only [bind_assoc, pure_bind]

/-- The text of clauses in a row, of which those without text are left out. -/
theorem text_serverClauses (q : Query) (frame : SelectFrame) (orders : Sql) :
    (Sql.words (((t.serverClauses q frame orders).filter fun p => !p.2.isEmpty).map
      Prod.snd)).text =
      (Sql.words ((frame.head ++ top q ++ frame.columns) :: frame.middle ++
        [orders, t.offsetPart q, t.limitPart q])).text := by
  have hfilter : ((t.serverClauses q frame orders).filter fun p => !p.2.isEmpty).map Prod.snd =
      ((t.serverClauses q frame orders).map Prod.snd).filter fun s => !s.isEmpty := by
    rw [List.filter_map]
    rfl
  have hclauses : (t.serverClauses q frame orders).map Prod.snd =
      .empty :: (((frame.head ++ top q ++ frame.columns) :: frame.middle) ++
        [orders, t.offsetPart q, t.limitPart q, .empty]) := rfl
  -- clauses that are left out for being empty are those that have no text
  rw [hfilter, Sql.text_words_filter, hclauses, Sql.text_words_cons, if_pos (.inl rfl),
    Sql.text_empty, String.empty_append]
  apply Sql.text_words_append_congr
  simp [Sql.text_words_cons]

theorem text_offsetPart (ht : t.dialect = .sqlserver) (q : Query) :
    (t.offsetPart q).text =
      if q.skipped = 0 then "" else "offset " ++ toString q.skipped.toNat ++ " rows" := by
  cases hoffset : q.offset with
  | none => simp [offsetPart, hoffset, Query.skipped]
  | some offset =>
    simp [offsetPart, hoffset, Query.skipped, offsetClause, ht, uint64_pos_iff]

theorem text_limitPart (ht : t.dialect = .sqlserver) {q : Query} {count : UInt64}
    (hlimit : q.limit = some count) :
    (t.limitPart q).text =
      if 0 < count ∧ 0 < q.skipped then "fetch next " ++ toString count.toNat ++ " rows only"
      else "" := by
  rw [limitPart, hlimit, Sql.text_ofString, limitClause, ht]
  rfl

/-- The clauses of limit and offset are those of the page, where rows are not numbered. -/
theorem page_server (ht : t.dialect = .sqlserver) {q : Query}
    (h : q.limit = some 0 → q.skipped = 0) :
    top q = (if (pageOfSelect false q.limit q.offset).place = .selectList then
        (pageOfSelect false q.limit q.offset).clause ++ " " else "") ∧
      (Sql.words [t.offsetPart q, t.limitPart q]).text =
        if (pageOfSelect false q.limit q.offset).place = .afterOrder then
          (pageOfSelect false q.limit q.offset).clause else "" := by
  have hskipped : q.offset.getD 0 = q.skipped := rfl
  have hoffset := text_offsetPart ht q
  simp only [top, pageOfSelect, hskipped, Sql.text_words_cons, hoffset]
  cases hlimit : q.limit with
  | none =>
    have hnone : (t.limitPart q).text = "" := by
      rw [limitPart, hlimit]
      rfl
    by_cases hzero : q.skipped = 0
    · simp [hzero, hnone, Pagination.place, Pagination.clause_eq, Sql.words]
    · simp [hzero, hnone, Pagination.place, Pagination.clause_eq, Sql.words]
  | some count =>
    have hsome := text_limitPart ht hlimit
    by_cases hzero : q.skipped = 0
    · simp [hzero, hsome, Pagination.place, Pagination.clause_eq, Sql.words]
    · -- a limit of no rows never comes with an offset here, so these rows are fetched
      have hcount : count ≠ 0 := by
        rintro rfl
        exact hzero (h hlimit)
      simp [hzero, hsome, hcount, uint64_pos_iff, Pagination.place, Pagination.clause_eq, Sql.words]
      apply String.toList_inj.1
      simp

theorem place_pageOfSelect_ne (limit offset : Option UInt64) :
    (pageOfSelect false limit offset).place ≠ .rowNumbers := by
  simp only [pageOfSelect, Bool.false_eq_true, if_false]
  cases limit with
  | none =>
    dsimp only
    split_ifs <;> simp [Pagination.place]
  | some count =>
    dsimp only
    split_ifs <;> simp [Pagination.place]

/-- A select with its page in the select list or behind its order. -/
theorem text_plain (ht : t.dialect = .sqlserver) {q : Query}
    (h : q.limit = some 0 → q.skipped = 0) (frame : SelectFrame) (orders : Sql) :
    SameText
      (.words (((t.serverClauses q frame orders).filter fun p => !p.2.isEmpty).map Prod.snd))
      (frame.paged (pageOfSelect false q.limit q.offset) orders) := by
  obtain ⟨htop, hend⟩ := page_server ht h
  have hnumbers := place_pageOfSelect_ne q.limit q.offset
  refine ⟨?_⟩
  rw [text_serverClauses, SelectFrame.paged]
  -- what stands behind the order has the text of the page, or none
  have hlast : ∀ last, (Sql.words [t.offsetPart q, t.limitPart q]).text = (Sql.words last).text →
      (Sql.words [orders, t.offsetPart q, t.limitPart q]).text =
        (Sql.words (orders :: last)).text :=
    fun last => Sql.text_words_append_congr [orders]
  cases hplace : (pageOfSelect false q.limit q.offset).place with
  | selectList =>
    rw [hplace, if_pos rfl] at htop
    rw [hplace, if_neg (by decide)] at hend
    rw [Sql.text_words_append_congr _ (hlast [] hend), htop]
    apply Sql.text_words_cons_congr
    simp [String.append_assoc]
  | afterOrder =>
    rw [hplace, if_neg (by decide)] at htop
    rw [hplace, if_pos rfl] at hend
    have hclause : (Sql.words [t.offsetPart q, t.limitPart q]).text =
        (Sql.words [((pageOfSelect false q.limit q.offset).clause : Sql)]).text := by
      rw [hend, Sql.text_words_cons, if_pos (.inr rfl)]
      simp [Sql.words]
    rw [Sql.text_words_append_congr _ (hlast _ hclause), htop]
    apply Sql.text_words_cons_congr
    simp
  | rowNumbers => exact absurd hplace hnumbers

/-- The order of a select whose rows are numbered. -/
theorem find_orders (q : Query) (frame : SelectFrame) (orders : Sql) :
    ((t.serverClauses q frame orders).filter fun p => !p.2.isEmpty).find?
        (fun p => p.1 == .orders) =
      if orders.isEmpty then none else some (.orders, orders) := by
  rw [List.find?_filter]
  cases hempty : orders.isEmpty <;>
    simp [serverClauses, SelectFrame.named, hempty]

/-- The clauses of a select whose rows are numbered. -/
theorem numbered_clauses (q : Query) (frame : SelectFrame) (orders order : Sql) :
    ((t.serverClauses q frame orders).filter fun p => !p.2.isEmpty).filterMap
        (numberedClause order) =
      (frame.head ++ top q ++ frame.columns ++ ", row_number() over (" ++ order ++
        ") as row_num") :: frame.middle.filter fun s => !s.isEmpty := by
  have hcolumns : (frame.head ++ top q ++ frame.columns).isEmpty = false := by
    cases hdistinct : frame.distinct <;> simp [Sql.isEmpty, SelectFrame.head, hdistinct]
  have hnamed : ((frame.named).filter fun p => !p.2.isEmpty).filterMap (numberedClause order) =
      frame.middle.filter fun s => !s.isEmpty := by
    have hkept : ∀ p ∈ frame.named.filter fun p => !p.2.isEmpty,
        numberedClause order p = some p.2 := by
      intro p hp
      have hmem := List.mem_of_mem_filter hp
      simp only [SelectFrame.named, List.mem_cons, List.not_mem_nil, or_false] at hmem
      obtain rfl | rfl | rfl | rfl | rfl := hmem <;> rfl
    have hmiddle : frame.middle = frame.named.map Prod.snd := rfl
    rw [List.filterMap_congr hkept, List.filterMap_eq_map', hmiddle, List.filter_map]
    rfl
  -- order, page and lock are no part of the rows that are numbered
  have hrest : (([(.orders, orders), (.offset, t.offsetPart q), (.limit, t.limitPart q),
      (.lock, .empty)] : List (Component × Sql)).filter fun p => !p.2.isEmpty).filterMap
        (numberedClause order) = [] := by
    rw [List.filterMap_eq_nil_iff]
    intro p hp
    obtain ⟨hmem, hne⟩ := List.mem_filter.1 hp
    simp only [List.mem_cons, List.not_mem_nil, or_false] at hmem
    obtain rfl | rfl | rfl | rfl := hmem
    · rfl
    · rfl
    · rfl
    · cases hne
  rw [serverClauses, List.filter_cons_of_neg (by decide),
    List.filter_cons_of_pos (by simp [hcolumns]), List.filter_append, List.filterMap_cons,
    List.filterMap_append, hnamed, hrest, List.append_nil]
  rfl

theorem clause_numbered {q : Query} (hskipped : q.skipped ≠ 0) (hlimit : q.limit ≠ some 0) :
    "row_num " ++ rowNumberRange q = (pageOfSelect true q.limit q.offset).clause ∧
      (pageOfSelect true q.limit q.offset).place = .rowNumbers ∧
      (pageOfSelect true q.limit q.offset).needsOrder = true := by
  have hoffset : q.offset.getD 0 = q.skipped := rfl
  simp only [rowNumberRange, pageOfSelect, hoffset, if_neg hskipped, if_true]
  cases hcount : q.limit with
  | none =>
    refine ⟨?_, rfl, rfl⟩
    rw [Pagination.clause_eq]
    apply String.toList_inj.1
    simp
  | some count =>
    have hne : count ≠ 0 := fun hzero => hlimit (hzero ▸ hcount)
    simp only [if_neg hne]
    refine ⟨?_, rfl, rfl⟩
    rw [Pagination.clause_eq]
    apply String.toList_inj.1
    simp

/-- Where rows are numbered, the page is a range of their numbers. -/
theorem numberedLayout_server (ht : t.dialect = .sqlserver) {q : Query} (parts : Parts)
    (hskipped : q.skipped ≠ 0) (hlimit : q.limit ≠ some 0) :
    Alike SameText (t.numberedLayout q parts)
      (t.pagedSelect q parts (pageOfSelect true q.limit q.offset)
        (pageOfUnion q.unionLimit q.unionOffset)) := by
  obtain ⟨hclause, hplace, hneeds⟩ := clause_numbered hskipped hlimit
  rw [numberedLayout_eq, components_server ht, pagedSelect]
  simp only [bind_assoc, pure_bind]
  refine .step _ fun frame => ?_
  refine .step _ fun orders => ?_
  refine withUnions_server ht _ _ ?_
  have horder : ((((t.serverClauses q frame orders).filter fun p => !p.2.isEmpty).find?
      fun p => p.1 == .orders).map Prod.snd).getD "order by (select 0)" =
        (pageOfSelect true q.limit q.offset).ordered orders := by
    rw [find_orders, Pagination.ordered, hneeds, hplace, Bool.true_and]
    cases orders.isEmpty <;> rfl
  -- a `top` is written only where no rows are skipped
  have htop : top q = "" := by
    rw [top]
    cases q.limit with
    | none => rfl
    | some count => exact if_neg hskipped
  rw [horder, numbered_clauses, htop, SelectFrame.paged, hplace, ← hclause]
  generalize (pageOfSelect true q.limit q.offset).ordered orders = order
  have hinner : (Sql.words ((frame.head ++ "" ++ frame.columns ++ ", row_number() over (" ++
      order ++ ") as row_num") :: frame.middle.filter fun s => !s.isEmpty)).text =
        (Sql.words ((frame.head ++ frame.columns ++ ", row_number() over (" ++ order ++
          ") as row_num") :: frame.middle)).text := by
    rw [Sql.text_words_cons, Sql.text_words_filter, ← Sql.text_words_cons]
    apply Sql.text_words_cons_congr
    simp
  refine ⟨?_⟩
  simp only [Sql.text_append, Sql.text_ofString, hinner]
  apply String.toList_inj.1
  simp

/-- The page of a select whose clauses stand in a row. -/
theorem pageOfSelect_plain {legacy : Bool} {q : Query}
    (h : q.skipped = 0 ∨ q.limit = some 0 ∨ legacy = false) :
    pageOfSelect legacy q.limit q.offset = pageOfSelect false q.limit q.offset := by
  have hoffset : q.offset.getD 0 = q.skipped := rfl
  simp only [pageOfSelect, hoffset]
  obtain hskipped | hlimit | rfl := h
  · simp [hskipped]
  · simp [hlimit]
  · rfl

/-- A page is rendered in some order exactly if rows are skipped. -/
theorem needsOrder_pageOfSelect (legacy : Bool) {q : Query}
    (h : q.limit = some 0 → q.skipped = 0) :
    (pageOfSelect legacy q.limit q.offset).needsOrder = true ↔ q.skipped ≠ 0 := by
  have hoffset : q.offset.getD 0 = q.skipped := rfl
  simp only [pageOfSelect, hoffset]
  cases hlimit : q.limit with
  | none =>
    dsimp only
    split_ifs <;> simp_all [Pagination.needsOrder]
  | some count =>
    dsimp only
    split_ifs <;> simp_all [Pagination.needsOrder]

/-- An order has text if it has keys. -/
theorem ordersClause_text {orders : List SortKey} {sql : Sql}
    (h : t.ordersClause orders = .ok sql) :
    orders = [] ∧ sql = .empty ∨ orders ≠ [] ∧ ∃ keys, sql.text = "order by " ++ keys := by
  cases orders with
  | nil => exact .inl ⟨rfl, (Except.ok.inj h).symm⟩
  | cons key rest =>
    simp only [ordersClause, List.isEmpty_cons, Bool.false_eq_true, if_false, bind_eq_ok,
      pure_eq_ok] at h
    obtain ⟨keys, -, rfl⟩ := h
    refine .inr ⟨List.cons_ne_nil _ _, (Sql.join ", " keys).text, ?_⟩
    rw [Sql.text_append, Sql.text_ofString]

theorem paged_congr (frame : SelectFrame) (page : Pagination) {orders orders' : Sql}
    (h : orders.text = orders'.text) :
    SameText (frame.paged page orders) (frame.paged page orders') := by
  unfold SelectFrame.paged
  refine ⟨?_⟩
  cases page.place with
  | selectList => exact Sql.text_words_append_congr _ (Sql.text_words_cons_congr _ h)
  | afterOrder => exact Sql.text_words_append_congr _ (Sql.text_words_cons_congr _ h)
  | rowNumbers =>
    have hinner : (Sql.words ((frame.head ++ frame.columns ++ ", row_number() over (" ++ orders ++
        ") as row_num") :: frame.middle)).text =
          (Sql.words ((frame.head ++ frame.columns ++ ", row_number() over (" ++ orders' ++
            ") as row_num") :: frame.middle)).text :=
      Sql.text_words_cons_congr _ (by simp only [Sql.text_append, h])
    simp only [Sql.text_append, hinner]

/-- An order stays as it is where the page needs none, or where it has text. -/
theorem ordered_eq_self {page : Pagination} {orders : Sql}
    (h : page.needsOrder = true → orders.isEmpty = false) : page.ordered orders = orders := by
  rw [Pagination.ordered]
  cases hneeds : page.needsOrder with
  | false => rfl
  | true =>
    rw [h hneeds, Bool.and_false]
    rfl

/-- Without rows none is skipped, so that the offset is dropped. -/
theorem plainLayout_noRows (ht : t.dialect = .sqlserver) {q : Query} (parts : Parts)
    (hlimit : q.limit = some 0) (legacy : Bool) :
    Alike SameText (t.plainLayout { q with offset := none } none parts)
      (t.pagedSelect q parts (pageOfSelect legacy q.limit q.offset)
        (pageOfUnion q.unionLimit q.unionOffset)) := by
  -- with no row left to return, the offset does not matter
  have hpage : pageOfSelect legacy q.limit q.offset = pageOfSelect false q.limit none := by
    rw [pageOfSelect_plain (.inr (.inl hlimit)), hlimit]
    simp [pageOfSelect]
  have hneeds : (pageOfSelect false q.limit none).needsOrder = false := by
    rw [hlimit]
    rfl
  rw [plainLayout_server ht, hpage, pagedSelect]
  refine .step _ fun frame => ?_
  refine .step _ fun orders => ?_
  refine withUnions_server ht _ _ ?_
  rw [ordered_eq_self fun h => by rw [hneeds] at h; cases h]
  exact text_plain ht (q := { q with offset := none }) (fun _ => rfl) frame orders

/-- Where rows are skipped without an order, one is put in. -/
theorem plainLayout_putInOrder (ht : t.dialect = .sqlserver) {q : Query} (parts : Parts)
    (hlimit : q.limit = some 0 → q.skipped = 0) (hskipped : q.skipped ≠ 0)
    (horders : q.orders = []) :
    Alike SameText (t.plainLayout { q with orders := [.ofSql "(SELECT 0)"] } none parts)
      (t.pagedSelect q parts (pageOfSelect false q.limit q.offset)
        (pageOfUnion q.unionLimit q.unionOffset)) := by
  have hnone : t.ordersClause q.orders = .ok .empty := by
    rw [horders]
    rfl
  -- the order that is put in is the one that the page would make up
  have hordered : ((pageOfSelect false q.limit q.offset).ordered .empty).text =
      "order by (SELECT 0)" := by
    have hplace := place_pageOfSelect_ne q.limit q.offset
    rw [Pagination.ordered, (needsOrder_pageOfSelect false hlimit).2 hskipped]
    cases hcase : (pageOfSelect false q.limit q.offset).place with
    | selectList | afterOrder => rfl
    | rowNumbers => exact absurd hcase hplace
  rw [plainLayout_server ht, pagedSelect, hnone]
  refine .step _ fun frame => ?_
  refine withUnions_server ht _ _ ?_
  have hplain := text_plain ht (q := { q with orders := [.ofSql "(SELECT 0)"] }) hlimit frame
  refine ⟨(hplain _).text.trans (paged_congr frame _ ?_).text⟩
  rw [hordered]
  rfl

/-- Where rows are skipped in some order, or none are skipped, the query stays as it is. -/
theorem plainLayout_inOrder (ht : t.dialect = .sqlserver) {q : Query} (parts : Parts)
    (hlimit : q.limit = some 0 → q.skipped = 0) (horders : q.skipped ≠ 0 → q.orders ≠ []) :
    Alike SameText (t.plainLayout q none parts)
      (t.pagedSelect q parts (pageOfSelect false q.limit q.offset)
        (pageOfUnion q.unionLimit q.unionOffset)) := by
  rw [plainLayout_server ht, pagedSelect]
  refine .step _ fun frame => ?_
  cases hclause : t.ordersClause q.orders with
  | error e => exact .fault e
  | ok orders =>
    -- a page that needs an order has one, so none is made up
    have hkept : (pageOfSelect false q.limit q.offset).ordered orders = orders := by
      refine ordered_eq_self fun hneeds => ?_
      have hne := horders ((needsOrder_pageOfSelect false hlimit).1 hneeds)
      obtain ⟨hnil, -⟩ | ⟨-, keys, htext⟩ := ordersClause_text hclause
      · exact absurd hnil hne
      · simp [Sql.isEmpty, htext]
    refine withUnions_server ht _ _ ?_
    rw [hkept]
    exact text_plain ht hlimit frame orders

/-- A query is laid out around its page and around the page of its union. -/
theorem layout_server (ht : t.dialect = .sqlserver) (q : Query) (parts : Parts) :
    Alike SameText (t.layout q none parts)
      (t.pagedSelect q parts (pageOfSelect t.options.legacyPagination q.limit q.offset)
        (pageOfUnion q.unionLimit q.unionOffset)) := by
  unfold layout
  simp only [ht]
  split
  · -- no row is left
    rename_i hnone
    exact plainLayout_noRows ht parts hnone.1 _
  · rename_i hsome
    have hlimit : q.limit = some 0 → q.skipped = 0 := by
      intro hzero
      by_contra hskipped
      exact hsome ⟨hzero, (uint64_pos_iff _).2 hskipped⟩
    split
    · -- rows are skipped by their numbers
      rename_i hnumbers
      simp only [numbersRows, Bool.and_eq_true, bne_iff_ne, decide_eq_true_eq,
        uint64_pos_iff] at hnumbers
      obtain ⟨⟨⟨⟨-, hlegacy⟩, -⟩, hskipped⟩, hlimit⟩ := hnumbers
      rw [hlegacy]
      exact numberedLayout_server ht parts hskipped hlimit
    · rename_i hnumbers
      have hplain : q.skipped = 0 ∨ q.limit = some 0 ∨ t.options.legacyPagination = false := by
        have hlegacy : t.options.legacyPagination = true → q.skipped ≠ 0 → q.limit = some 0 := by
          simpa [numbersRows, ht, uint64_pos_iff] using hnumbers
        by_cases hskipped : q.skipped = 0
        · exact .inl hskipped
        · cases hoption : t.options.legacyPagination with
          | false => exact .inr (.inr rfl)
          | true => exact .inr (.inl (hlegacy hoption hskipped))
      rw [pageOfSelect_plain hplain]
      split
      · rename_i hunordered
        obtain ⟨hskipped, hempty⟩ := hunordered
        exact plainLayout_putInOrder ht parts hlimit ((uint64_pos_iff _).1 hskipped)
          (List.isEmpty_iff.1 hempty)
      · rename_i hordered
        refine plainLayout_inOrder ht parts hlimit fun hskipped hnil => ?_
        exact hordered ⟨(uint64_pos_iff _).2 hskipped, List.isEmpty_iff.2 hnil⟩

/-- A page that needs an order has one. -/
theorem text_ordered {orders : List SortKey} {sql : Sql} (h : t.ordersClause orders = .ok sql)
    {page : Pagination} (hneeds : page.needsOrder = true) :
    ∃ keys, (page.ordered sql).text = "order by " ++ keys := by
  rw [Pagination.ordered, hneeds, Bool.true_and]
  obtain ⟨-, rfl⟩ | ⟨-, keys, htext⟩ := ordersClause_text h
  · cases page.place with
    | rowNumbers => exact ⟨"(select 0)", rfl⟩
    | selectList | afterOrder => exact ⟨"(SELECT 0)", rfl⟩
  · have hempty : sql.isEmpty = false := by simp [Sql.isEmpty, htext]
    rw [hempty, if_neg Bool.false_ne_true]
    exact ⟨keys, htext⟩

end Target

/-! ## §7 Windows of queries -/

/-- A page is rendered as a clause that is read as the page, keeps the rows that a limit and an
offset ask for, and is put behind an order where it needs one. -/
structure Pagination.Denotes (page : Pagination) (t : Target) (limit offset : Option UInt64)
    (orders : List SortKey) : Prop where
  read : readPagination page.clause = some page
  window : page.KeepsWindow limit offset
  ordered : ∀ sql, t.ordersClause orders = .ok sql → page.needsOrder = true →
    ∃ keys, (page.ordered sql).text = "order by " ++ keys

/-- A union cannot have a page without rows. -/
theorem pagedSelect_emptyFetch (t : Target) {q : Query} (parts : Parts)
    (page unionPage : Pagination) (hunions : q.unions ≠ []) (hlimit : q.unionLimit = some 0) :
    ∃ fault, t.pagedSelect q parts page unionPage = .error fault := by
  have hempty : q.unions.isEmpty = false := by simpa using hunions
  unfold Target.pagedSelect
  cases t.selectFrame q parts with
  | error fault => exact ⟨fault, rfl⟩
  | ok frame =>
    cases t.ordersClause q.orders with
    | error fault => exact ⟨fault, rfl⟩
    | ok orders =>
      refine ⟨.emptyUnionFetch, ?_⟩
      show t.pagedUnion q parts unionPage _ = _
      rw [Target.pagedUnion, hempty, hlimit]
      rfl

/-- SQL Server: a query without aggregate is laid out around a page that denotes its limit and its
offset, and around one that denotes those of its union, which stands behind the branches; or both
layouts end in the same fault, as they do where a union is to have no rows. -/
theorem layout_windows (options : Options) (q : Query) (parts : Parts) :
    (∃ page unionPage : Pagination,
      page.Denotes ⟨.sqlserver, options⟩ q.limit q.offset q.orders ∧
      unionPage.Denotes ⟨.sqlserver, options⟩ q.unionLimit q.unionOffset q.unionOrders ∧
      unionPage.place = .afterOrder ∧
      Alike SameText (Target.layout ⟨.sqlserver, options⟩ q none parts)
        (Target.pagedSelect ⟨.sqlserver, options⟩ q parts page unionPage)) ∧
    (q.unions ≠ [] → q.unionLimit = some 0 →
      ∃ fault, Target.layout ⟨.sqlserver, options⟩ q none parts = .error fault) := by
  have hlayout := Target.layout_server (t := ⟨.sqlserver, options⟩) rfl q parts
  constructor
  · exact ⟨pageOfSelect options.legacyPagination q.limit q.offset,
      pageOfUnion q.unionLimit q.unionOffset,
      ⟨readPagination_clause _, keeps_pageOfSelect _ _ _, fun _ h => Target.text_ordered h⟩,
      ⟨readPagination_clause _, keeps_pageOfUnion _ _, fun _ h => Target.text_ordered h⟩,
      Target.place_pageOfUnion _ _, hlayout⟩
  · intro hunions hlimit
    obtain ⟨fault, hfault⟩ := pagedSelect_emptyFetch ⟨.sqlserver, options⟩ parts
      (pageOfSelect options.legacyPagination q.limit q.offset)
      (pageOfUnion q.unionLimit q.unionOffset) hunions hlimit
    -- the layout ends in the same fault as the select around its pages
    rw [hfault] at hlayout
    refine ⟨fault, ?_⟩
    cases hresult : Target.layout ⟨.sqlserver, options⟩ q none parts with
    | error e =>
      rw [hresult] at hlayout
      cases hlayout
      rfl
    | ok sql =>
      rw [hresult] at hlayout
      cases hlayout

example : (Target.layout ⟨.sqlserver, { legacyPagination := true }⟩
    { Query.empty with source := some (.named "t"), limit := some 5, offset := some 10 } none
    ⟨.ok "[t]", .ok .empty, .ok .empty, .ok .empty⟩).map Sql.text =
      .ok ("select * from (select *, row_number() over (order by (select 0)) as row_num from [t]" ++
        ") as temp_table where row_num between 11 and 15 order by row_num") := by rfl

end SqlCompiler
