import Mathlib.Data.List.Nodup
import Mathlib.Data.Option.Basic
import SqlCompiler.Proofs.LegibleForms

/-!
# Reading Back

What is written is read as it was, in every setting, if its values are. Alternatives are told apart
by a tag, or by a shape that no earlier alternative has.

## Main statements

- `Query.decodeIn?_encode`: a query, by recursion on it
- `Statement.decode?_encode`, `Request.decode?_encode`
-/

namespace SqlCompiler

open Codec Json

/-! ## §1 Fields -/

namespace Codec

/-- Among fields without repeated keys no key repeats. -/
theorem unrepeated_of_legible {fields : Fields} (h : Legible (.object fields))
    (keys : List String) : unrepeated keys fields = true := by
  have hnodup := (legible_object.1 h).1
  refine List.all_eq_true.2 fun key _ => decide_eq_true ?_
  have hcount : (fields.map Prod.fst).count key ≤ 1 := List.nodup_iff_count_le_one.1 hnodup key
  rwa [List.count, List.countP_map, List.countP_eq_length_filter] at hcount

/-- A written tag is read in every setting. -/
theorem tagIn?_written {key tag : String} {fields : Fields}
    (h : Legible (.object ((key, .string tag) :: fields))) (s : Setting) (tags : List String) :
    tagIn? s key tags ((key, .string tag) :: fields) = some tag := by
  have hreadable : fieldsReadable ((key, .string tag) :: fields) = true := h.isReadable
  simp [tagIn?, hreadable, unrepeated_of_legible h, find?]

/-- A list whose items come back comes back. -/
theorem listOf?_map {α : Type} {item? : Json → Option α} {f : α → Json} {xs : List α}
    (h : ∀ x ∈ xs, item? (f x) = some x) : listOf? item? (.array (xs.map f)) = some xs := by
  rw [listOf?]
  induction xs with
  | nil => rfl
  | cons x xs ih =>
    rw [List.map_cons, List.mapM_cons, h x List.mem_cons_self,
      ih fun y hy => h y (List.mem_cons_of_mem _ hy)]
    rfl

/-- A text that may be missing comes back. -/
theorem nullable?_text (text : Option String) :
    nullable? text? (text.elim .null .string) = some text := by
  cases text <;> rfl

/-- A count that may be missing comes back; it is in range, since it was a count. -/
theorem nullable?_count (n : Option UInt64) :
    nullable? count? (encodeCount n) = some n := by
  cases n with
  | none => rfl
  | some n =>
    have hbounds : (0 : Int) ≤ n.toNat ∧ (n.toNat : Int) < UInt64.size :=
      ⟨Int.natCast_nonneg _, Int.ofNat_lt.2 n.toNat_lt⟩
    simp only [encodeCount, Option.elim_some, nullable?, count?, if_pos hbounds]
    simp

end Codec

/-! ## §2 Parts that do not nest -/

/-- What comes back has a legible form. -/
theorem Every.legible {values : List Value} (h : Every Value.Stable values) :
    Every Value.Legible values :=
  h.imp fun _ => Value.legible_of_decode?

/-- Stable values come back as they were. -/
theorem decodeValues?_encode {values : List Value} (h : Every Value.Stable values) :
    decodeValues? (encodeValues values) = some values :=
  listOf?_map h

/-- Raw SQL, alone or behind a tag. -/
theorem decodeSql?_encode (sql : String) {bindings : List Value} (h : Every Value.Stable bindings) :
    decodeSql? (encodeSql sql bindings) = some (sql, bindings) ∧
      ∀ tag, decodeSql? (("type", .string tag) :: encodeSql sql bindings) =
        some (sql, bindings) := by
  have hforms := legible_encodeSql sql h.legible
  constructor
  · simp [decodeSql?, unrepeated_of_legible hforms.1]
    simp [encodeSql, field, fieldOr, find?, text?, decodeValues?_encode h]
  · intro tag
    simp [decodeSql?, unrepeated_of_legible (hforms.2 tag)]
    simp [encodeSql, field, fieldOr, find?, text?, decodeValues?_encode h]

/-- A column comes back; a name is never taken for raw SQL. -/
theorem Column.decode?_encode {c : Column} (h : Every Value.Stable c.bindings) :
    decode? c.encode = some c := by
  cases c with
  | named name => rfl
  | raw sql bindings =>
    have hbindings : Every Value.Stable bindings := h
    have hreadable : fieldsReadable (encodeSql sql bindings) = true :=
      (legible_encodeSql sql hbindings.legible).1.isReadable
    simp [encode, decode?, hreadable, (decodeSql?_encode sql hbindings).1]

theorem decodeColumns?_encode {columns : List Column}
    (h : Every Value.Stable (columnBindings columns)) :
    decodeColumns? (encodeColumns columns) = some columns :=
  listOf?_map fun _ hc => Column.decode?_encode (every_flatMap.1 h _ hc)

/-- A list of columns that may be missing comes back: an empty list is not a missing one. -/
theorem nullable?_columns {columns : Option (List Column)}
    (h : Every Value.Stable (columnBindings (columns.getD []))) :
    nullable? decodeColumns? (columns.elim .null encodeColumns) = some columns := by
  cases columns with
  | none => rfl
  | some columns => exact congrArg (Option.map some) (decodeColumns?_encode h)

/-- Distinct rows come back, told apart by their names or by a list. -/
theorem Distinct.decodeIn?_encode {d : Distinct} (h : Every Value.Stable d.values) (s : Setting) :
    decodeIn? s d.encode = some d := by
  cases d with
  | off => rfl
  | all => rfl
  | on columns => simp [encode, decodeIn?, decodeColumns?_encode h]

theorem Aggregate.decode?_encode {a : Aggregate}
    (h : Every Value.Stable (columnBindings a.columns)) : decode? a.encode = some a := by
  have hform := Aggregate.legible_encode h.legible
  rw [encode] at hform
  simp [encode, decode?, unrepeated_of_legible hform, field, find?, text?, decodeColumns?_encode h]

theorem Direction.decodeIn?_encode (d : Direction) (s : Setting) :
    decodeIn? s d.encode = some d := by
  cases d <;> rfl

/-- A sort key comes back, told apart by its tag. -/
theorem SortKey.decodeIn?_encode {key : SortKey} (h : Every Value.Stable key.bindings)
    (s : Setting) : decodeIn? s key.encode = some key := by
  have hform := SortKey.legible_encode h.legible
  cases key with
  | column c direction =>
    rw [encode] at hform
    simp [encode, decodeIn?, tagIn?_written hform, unrepeated_of_legible hform, field, fieldOr,
      find?, Column.decode?_encode h, Direction.decodeIn?_encode]
  | raw sql bindings =>
    have hbindings : Every Value.Stable bindings := h
    rw [encode] at hform
    simp [encode, decodeIn?, tagIn?_written hform, (decodeSql?_encode sql hbindings).2]
  | random seed =>
    rw [encode] at hform
    simp [encode, decodeIn?, tagIn?_written hform, unrepeated_of_legible hform, fieldOr,
      find?, nullable?_text]

theorem decodeOrders?_encode {orders : List SortKey} (h : Every Value.Stable (orderBindings orders))
    (s : Setting) :
    listOf? (SortKey.decodeIn? s) (.array (orders.map SortKey.encode)) = some orders :=
  listOf?_map fun _ hkey => SortKey.decodeIn?_encode (every_flatMap.1 h _ hkey) s

/-- A lock that may be missing comes back. -/
theorem nullable?_lock (lock : Option Lock) (s : Setting) :
    nullable? (Lock.decodeIn? s) (lock.elim .null Lock.encode) = some lock := by
  cases lock with
  | none => rfl
  | some lock => cases lock <;> rfl

theorem Connective.decodeIn?_encode (c : Connective) (s : Setting) :
    decodeIn? s c.encode = some c := by
  cases c <;> rfl

theorem DatePart.decodeIn?_encode (p : DatePart) (s : Setting) :
    decodeIn? s p.encode = some p := by
  cases p <;> rfl

theorem JoinKind.decodeIn?_encode (k : JoinKind) (s : Setting) :
    decodeIn? s k.encode = some k := by
  cases k <;> rfl

/-- The options of a search come back, missing ones included. -/
theorem FullTextOptions.decode?_encode (o : FullTextOptions) : decode? o.encode = some o := by
  have hform := o.legible_encode
  rw [encode] at hform
  simp [encode, decode?, unrepeated_of_legible hform, fieldOr, find?, flag?, nullable?_text]

/-- A clause has its connective and its condition. -/
theorem decodeConnective?_encode (connective : Connective) (node : Json) (s : Setting) :
    decodeConnective? s [("boolean", connective.encode), ("node", node)] = some connective := by
  have hunrepeated :
      unrepeated ["boolean", "node"] [("boolean", connective.encode), ("node", node)] = true := rfl
  simp [decodeConnective?, hunrepeated, fieldOr, find?, Connective.decodeIn?_encode]

/-! ## §3 Conditions on groups -/

/-- Behind its tag a condition that is no group is read for itself. -/
theorem HavingPredicate.decodeIn?_plain {tag : String} {fields : Fields}
    (h : Legible (.object (("type", .string tag) :: fields))) (htag : tag ≠ "nested")
    (s : Setting) :
    HavingPredicate.decodeIn? s (.object (("type", .string tag) :: fields)) =
      decodePlainHaving? tag (("type", .string tag) :: fields) := by
  rw [HavingPredicate.decodeIn?, tagIn?_written h]
  exact if_neg htag

mutual

/-- A condition on groups comes back, by recursion on its groups. -/
theorem HavingPredicate.decodeIn?_encode : (p : HavingPredicate) → Every Value.Stable p.bindings →
    (s : Setting) → HavingPredicate.decodeIn? s p.encode = some p
  | .raw sql bindings, h, s => by
    have hform := HavingPredicate.legible_encode _ h.legible
    have hbindings : Every Value.Stable bindings := h
    rw [HavingPredicate.encode] at hform ⊢
    simp [HavingPredicate.decodeIn?_plain hform (by decide), decodePlainHaving?,
      (decodeSql?_encode sql hbindings).2]
  | .expression _, h, s => by
    have hform := HavingPredicate.legible_encode _ h.legible
    rw [HavingPredicate.encode] at hform ⊢
    simp [HavingPredicate.decodeIn?_plain hform (by decide), decodePlainHaving?,
      unrepeated_of_legible hform, field, find?, text?]
  -- a group is the one form that is not plain: its clauses are read by recursion
  | .group clauses, h, s => by
    have hform := HavingPredicate.legible_encode _ h.legible
    rw [HavingPredicate.encode] at hform ⊢
    simp [HavingPredicate.decodeIn?, tagIn?_written hform, unrepeated_of_legible hform,
      havingsField, decodeHavingsIn?, havingItems_encode clauses h]
  | .compare c _ v, h, s | .bitwise c _ v, h, s => by
    have hform := HavingPredicate.legible_encode _ h.legible
    obtain ⟨hcolumn, hvalue⟩ := every_append.1 h
    have hv : Value.decode? v.encode = some v := hvalue v (by simp)
    rw [HavingPredicate.encode] at hform ⊢
    simp [HavingPredicate.decodeIn?_plain hform (by decide), decodePlainHaving?,
      unrepeated_of_legible hform, field, find?, text?, Column.decode?_encode hcolumn, hv]
  | .between c low high _, h, s => by
    have hform := HavingPredicate.legible_encode _ h.legible
    obtain ⟨hcolumn, hvalues⟩ := every_append.1 h
    have hlow : Value.decode? low.encode = some low := hvalues low (by simp)
    have hhigh : Value.decode? high.encode = some high := hvalues high (by simp)
    rw [HavingPredicate.encode] at hform ⊢
    simp [HavingPredicate.decodeIn?_plain hform (by decide), decodePlainHaving?,
      unrepeated_of_legible hform, field, fieldOr, find?, flag?, Column.decode?_encode hcolumn,
      hlow, hhigh]
  | .isNull c, h, s | .isNotNull c, h, s => by
    have hform := HavingPredicate.legible_encode _ h.legible
    have hcolumn : Every Value.Stable c.bindings := h
    rw [HavingPredicate.encode] at hform ⊢
    simp [HavingPredicate.decodeIn?_plain hform (by decide), decodePlainHaving?,
      unrepeated_of_legible hform, field, find?, Column.decode?_encode hcolumn]

/-- Conditions on groups come back one by one. -/
theorem havingItems_encode : (clauses : List (Clause HavingPredicate)) →
    Every Value.Stable (havingBindings clauses) → (s : Setting) →
    havingItems s (encodeHavings clauses) = some clauses
  | [], _, _ => rfl
  | ⟨connective, node⟩ :: rest, h, s => by
    rw [havingBindings, every_append] at h
    simp [encodeHavings, havingItems, encodeClause, decodeHaving?, decodeConnective?_encode,
      havingNode, node.decodeIn?_encode h.1, havingItems_encode rest h.2]

end

/-! ## §4 Queries -/

/-- Behind its tag a condition that looks into no query and is no group is read for itself. -/
theorem Predicate.decodeIn?_plain {tag : String} {fields : Fields}
    (h : Legible (.object (("type", .string tag) :: fields)))
    (htag : tag ∉ ["in", "nested", "exists", "sub"]) (s : Setting) :
    Predicate.decodeIn? s (.object (("type", .string tag) :: fields)) =
      decodePlainPredicate? tag (("type", .string tag) :: fields) := by
  rw [Predicate.decodeIn?, tagIn?_written h]
  dsimp only [Option.bind_eq_bind, Option.bind_some]
  -- the four other tags may hold nested parts and have readers of their own
  split
  case h_5 => rfl
  all_goals simp at htag

/-- A query is no list of values, so that members given by a query are not read as a list. -/
theorem decodeValues?_encode_query (q : Query) : decodeValues? q.encode = none := by
  cases q
  rfl

mutual

/-- A table comes back: the three kinds of tables differ in shape. -/
theorem Table.decode?_encode : (tbl : Table) → Every Value.Stable tbl.values →
    Table.decode? tbl.encode = some tbl
  | .named _, _ => rfl
  | .raw sql bindings, h => by
    have hbindings : Every Value.Stable bindings := h
    have hreadable : fieldsReadable (encodeSql sql bindings) = true :=
      (legible_encodeSql sql hbindings.legible).1.isReadable
    -- a query is tried first, and a fragment has none
    have hnoQuery : queryField .byShape "query" (encodeSql sql bindings) = some none := by
      simp [encodeSql, queryField]
    simp [Table.encode, Table.decode?, hreadable, hnoQuery, (decodeSql?_encode sql hbindings).1]
  | .derived query asName, h => by
    have hform := Table.legible_encode _ h.legible
    have hquery : Every Value.Stable query.values := h
    rw [Table.encode] at hform ⊢
    have hreadable := hform.isReadable
    rw [isReadable] at hreadable
    simp [Table.decode?, hreadable, unrepeated_of_legible hform, queryField,
      query.decodeIn?_encode hquery, field, find?, text?]

/-- The table of a query comes back from the first field, a missing one from null. -/
theorem sourceField_encode : (source : Option Table) → Every Value.Stable (sourceValues source) →
    (rest : Fields) → sourceField (("from", encodeSource source) :: rest) = some source
  | none, _, _ => rfl
  | some tbl, h, rest => by
    have htable := tbl.decode?_encode h
    cases tbl <;> simp_all [sourceField, encodeSource, Table.encode]

/-- A joined table comes back with its conditions and inner joins. -/
theorem Join.decodeIn?_encode : (j : Join) → Every Value.Stable j.values → (s : Setting) →
    Join.decodeIn? s j.encode = some j
  | ⟨kind, tbl, on, joins, lateral⟩, h, s => by
    have hform := Join.legible_encode _ h.legible
    simp only [Join.values, every_append] at h
    rw [Join.encode] at hform ⊢
    simp [Join.decodeIn?, unrepeated_of_legible hform, fieldOr, find?, kind.decodeIn?_encode,
      tableField, tbl.decode?_encode h.1.1, clausesField, decodeClausesIn?,
      clauseItems_encode on h.1.2, joinsField, decodeJoinsIn?, joinItems_encode joins h.2, flag?]

/-- Joined tables come back one by one. -/
theorem joinItems_encode : (joins : List Join) → Every Value.Stable (joinsValues joins) →
    (s : Setting) → joinItems s (encodeJoins joins) = some joins
  | [], _, _ => rfl
  | j :: rest, h, s => by
    rw [joinsValues, every_append] at h
    simp [encodeJoins, joinItems, j.decodeIn?_encode h.1, joinItems_encode rest h.2]

/-- The branches of a union come back one by one. -/
theorem branchItems_encode : (branches : List UnionBranch) →
    Every Value.Stable (branchValues branches) → (s : Setting) →
    branchItems s (encodeBranches branches) = some branches
  | [], _, _ => rfl
  | ⟨query, all⟩ :: rest, h, s => by
    rw [branchValues, every_append] at h
    have hunrepeated :
        unrepeated ["query", "all"] [("query", query.encode), ("all", .bool all)] = true := rfl
    simp [encodeBranches, branchItems, decodeBranch?, hunrepeated, queryField,
      query.decodeIn?_encode h.1, fieldOr, find?, flag?, branchItems_encode rest h.2]

/-- A condition on rows is read by its tag. -/
theorem Predicate.decodeIn?_encode : (p : Predicate) → Every Value.Stable p.values → (s : Setting) →
    Predicate.decodeIn? s p.encode = some p
  | .raw sql bindings, h, s => by
    have hform := Predicate.legible_encode _ h.legible
    have hbindings : Every Value.Stable bindings := h
    rw [Predicate.encode] at hform ⊢
    simp [Predicate.decodeIn?_plain hform (by decide), decodePlainPredicate?,
      (decodeSql?_encode sql hbindings).2]
  | .compare c _ v, h, s | .bitwise c _ v, h, s | .datePart _ c _ v, h, s => by
    have hform := Predicate.legible_encode _ h.legible
    obtain ⟨hcolumn, hvalue⟩ := every_append.1 h
    have hv : Value.decode? v.encode = some v := hvalue v (by simp)
    rw [Predicate.encode] at hform ⊢
    simp [Predicate.decodeIn?_plain hform (by decide), decodePlainPredicate?,
      unrepeated_of_legible hform, field, find?, text?, DatePart.decodeIn?_encode,
      Column.decode?_encode hcolumn, hv]
  | .jsonBoolean _ _ _, h, s | .jsonContainsKey _ _, h, s => by
    have hform := Predicate.legible_encode _ h.legible
    rw [Predicate.encode] at hform ⊢
    simp [Predicate.decodeIn?_plain hform (by decide), decodePlainPredicate?,
      unrepeated_of_legible hform, field, fieldOr, find?, text?, flag?]
  | .like c v _ _, h, s => by
    have hform := Predicate.legible_encode _ h.legible
    obtain ⟨hcolumn, hvalue⟩ := every_append.1 h
    have hv : Value.decode? v.encode = some v := hvalue v (by simp)
    rw [Predicate.encode] at hform ⊢
    simp [Predicate.decodeIn?_plain hform (by decide), decodePlainPredicate?,
      unrepeated_of_legible hform, field, fieldOr, find?, flag?, Column.decode?_encode hcolumn, hv]
  | .between c low high _, h, s => by
    have hform := Predicate.legible_encode _ h.legible
    obtain ⟨hcolumn, hvalues⟩ := every_append.1 h
    have hlow : Value.decode? low.encode = some low := hvalues low (by simp)
    have hhigh : Value.decode? high.encode = some high := hvalues high (by simp)
    rw [Predicate.encode] at hform ⊢
    simp [Predicate.decodeIn?_plain hform (by decide), decodePlainPredicate?,
      unrepeated_of_legible hform, field, fieldOr, find?, flag?, Column.decode?_encode hcolumn,
      hlow, hhigh]
  | .betweenColumns c low high _, h, s => by
    have hform := Predicate.legible_encode _ h.legible
    have hcolumn {c' : Column} (hc' : c' ∈ [c, low, high]) :=
      Column.decode?_encode (every_flatMap.1 h _ hc')
    rw [Predicate.encode] at hform ⊢
    simp [Predicate.decodeIn?_plain hform (by decide), decodePlainPredicate?,
      unrepeated_of_legible hform, field, fieldOr, find?, flag?, hcolumn]
  | .inList c values _, h, s => by
    have hform := Predicate.legible_encode _ h.legible
    obtain ⟨hcolumn, hvalues⟩ := every_append.1 h
    rw [Predicate.encode] at hform ⊢
    simp [Predicate.decodeIn?, tagIn?_written hform, decodeInList?, unrepeated_of_legible hform,
      field, fieldOr, find?, flag?, Column.decode?_encode hcolumn, decodeValues?_encode hvalues]
  | .inQuery c query _, h, s => by
    -- a list of values has the same tag and is tried first: the form of a query is none
    have hform := Predicate.legible_encode _ h.legible
    obtain ⟨hcolumn, hquery⟩ := every_append.1 h
    rw [Predicate.encode] at hform ⊢
    simp [Predicate.decodeIn?, tagIn?_written hform, decodeInList?, unrepeated_of_legible hform,
      field, fieldOr, find?, flag?, Column.decode?_encode hcolumn, decodeValues?_encode_query,
      queryField, query.decodeIn?_encode hquery]
  | .inIntegers c values _, h, s => by
    have hform := Predicate.legible_encode _ h.legible
    have hcolumn : Every Value.Stable c.bindings := h
    have hvalues : listOf? integer? (.array (values.map fun n => .integer n.toInt)) = some values :=
      listOf?_map fun n _ => Value.integer?_toInt n
    rw [Predicate.encode] at hform ⊢
    simp [Predicate.decodeIn?_plain hform (by decide), decodePlainPredicate?,
      unrepeated_of_legible hform, field, fieldOr, find?, flag?, Column.decode?_encode hcolumn,
      hvalues]
  | .isNull c, h, s | .isNotNull c, h, s => by
    have hform := Predicate.legible_encode _ h.legible
    have hcolumn : Every Value.Stable c.bindings := h
    rw [Predicate.encode] at hform ⊢
    simp [Predicate.decodeIn?_plain hform (by decide), decodePlainPredicate?,
      unrepeated_of_legible hform, field, find?, Column.decode?_encode hcolumn]
  | .group inner, h, s => by
    have hform := Predicate.legible_encode _ h.legible
    rw [Predicate.encode] at hform ⊢
    simp [Predicate.decodeIn?, tagIn?_written hform, unrepeated_of_legible hform, clausesField,
      decodeClausesIn?, clauseItems_encode inner h]
  | .hasRows query _, h, s => by
    have hform := Predicate.legible_encode _ h.legible
    have hquery : Every Value.Stable query.values := h
    rw [Predicate.encode] at hform ⊢
    simp [Predicate.decodeIn?, tagIn?_written hform, unrepeated_of_legible hform, queryField,
      query.decodeIn?_encode hquery, fieldOr, find?, flag?]
  | .compareQuery c _ query, h, s => by
    have hform := Predicate.legible_encode _ h.legible
    obtain ⟨hcolumn, hquery⟩ := every_append.1 h
    rw [Predicate.encode] at hform ⊢
    simp [Predicate.decodeIn?, tagIn?_written hform, unrepeated_of_legible hform, queryField,
      query.decodeIn?_encode hquery, field, find?, text?, Column.decode?_encode hcolumn]
  | .compareColumns first _ second, h, s => by
    have hform := Predicate.legible_encode _ h.legible
    have hcolumn {c : Column} (hc : c ∈ [first, second]) :=
      Column.decode?_encode (every_flatMap.1 h _ hc)
    rw [Predicate.encode] at hform ⊢
    simp [Predicate.decodeIn?_plain hform (by decide), decodePlainPredicate?,
      unrepeated_of_legible hform, field, find?, text?, hcolumn]
  | .rowValues columns _ values, h, s => by
    have hform := Predicate.legible_encode _ h.legible
    obtain ⟨hcolumns, hvalues⟩ := every_append.1 h
    rw [Predicate.encode] at hform ⊢
    simp [Predicate.decodeIn?_plain hform (by decide), decodePlainPredicate?,
      unrepeated_of_legible hform, field, find?, text?, decodeColumns?_encode hcolumns,
      decodeValues?_encode hvalues]
  | .jsonContains _ v _, h, s | .jsonLength _ _ v, h, s => by
    have hform := Predicate.legible_encode _ h.legible
    have hv : Value.decode? v.encode = some v := h v (by simp [Predicate.values])
    rw [Predicate.encode] at hform ⊢
    simp [Predicate.decodeIn?_plain hform (by decide), decodePlainPredicate?,
      unrepeated_of_legible hform, field, fieldOr, find?, text?, flag?, hv]
  | .fullText columns v options, h, s => by
    have hform := Predicate.legible_encode _ h.legible
    obtain ⟨hcolumns, hvalue⟩ := every_append.1 h
    have hv : Value.decode? v.encode = some v := hvalue v (by simp)
    rw [Predicate.encode] at hform ⊢
    simp [Predicate.decodeIn?_plain hform (by decide), decodePlainPredicate?,
      unrepeated_of_legible hform, field, fieldOr, find?, decodeColumns?_encode hcolumns, hv,
      options.decode?_encode]

/-- Conditions on rows come back one by one. -/
theorem clauseItems_encode : (clauses : List (Clause Predicate)) →
    Every Value.Stable (clauseValues clauses) → (s : Setting) →
    clauseItems s (encodeClauses clauses) = some clauses
  | [], _, _ => rfl
  | ⟨connective, node⟩ :: rest, h, s => by
    rw [clauseValues, every_append] at h
    simp [encodeClauses, clauseItems, encodeClause, decodeClause?, decodeConnective?_encode,
      predicateNode, node.decodeIn?_encode h.1, clauseItems_encode rest h.2]

/-- A query comes back from its JSON form, in every setting, if its values do. -/
theorem Query.decodeIn?_encode : (q : Query) → Every Value.Stable q.values → (s : Setting) →
    Query.decodeIn? s q.encode = some q
  | ⟨source, columns, distinct, aggregate, joins, wheres, groups, havings, orders, limit, offset,
      lock, unions, unionOrders, unionLimit, unionOffset⟩, h, s => by
    have hform := Query.legible_encode _ h.legible
    simp only [Query.values, every_append] at h
    obtain ⟨⟨⟨⟨⟨⟨⟨⟨⟨⟨hsource, hcolumns⟩, hdistinct⟩, haggregate⟩, hjoins⟩, hwheres⟩, hgroups⟩,
      hhavings⟩, horders⟩, hunions⟩, hunionOrders⟩ := h
    have haggregate' :
        nullable? Aggregate.decode? (aggregate.elim .null Aggregate.encode) = some aggregate := by
      cases aggregate with
      | none => rfl
      | some aggregate => exact congrArg (Option.map some) (aggregate.decode?_encode haggregate)
    rw [Query.encode] at hform ⊢
    simp [Query.decodeIn?, unrepeated_of_legible hform, fieldOr, find?,
      sourceField_encode source hsource, nullable?_columns hcolumns,
      distinct.decodeIn?_encode hdistinct, haggregate', joinsField, decodeJoinsIn?,
      joinItems_encode joins hjoins, clausesField, decodeClausesIn?,
      clauseItems_encode wheres hwheres, decodeColumns?_encode hgroups, decodeHavingsIn?,
      havingItems_encode havings hhavings, decodeOrders?_encode horders, nullable?_count,
      nullable?_lock, unionsField, decodeBranches?, branchItems_encode unions hunions,
      decodeOrders?_encode hunionOrders]

end

/-! ## §5 Statements -/

/-- A column and its value come back. -/
theorem decodeAssigned?_encode {entry : String × Value} (h : entry.2.Stable) :
    decodeAssigned? (encodeAssigned entry) = some entry := by
  have hv : Value.decode? entry.2.encode = some entry.2 := h
  simp [encodeAssigned, decodeAssigned?, hv]

/-- A row comes back with its entries in order. -/
theorem Row.decode?_encode {row : Row} (h : Every Value.Stable row.values) :
    decode? row.encode = some row := by
  have hentries : listOf? decodeAssigned? row.encode = some row.entries :=
    listOf?_map fun entry hentry => decodeAssigned?_encode (h entry.2 (List.mem_map_of_mem hentry))
  rw [decode?, hentries]
  rfl

/-- A row is a list of lists, and no column with its value. -/
theorem decodeAssigned?_encode_row (row : Row) : decodeAssigned? row.encode = none := by
  obtain ⟨entries⟩ := row
  match entries with
  | [] => rfl
  | _ :: _ => rfl

/-- Rows come back if there is one: an empty batch is written as a row without columns. -/
theorem Rows.decode?_encode {rows : Rows} (h : Every Value.Stable rows.values)
    (hrows : rows ≠ .batch []) : decode? rows.encode = some rows := by
  have hreadable := (Rows.legible_encode h.legible).isReadable
  cases rows with
  | single row =>
    have hrow : Row.decode? row.encode = some row :=
      Row.decode?_encode (every_flatMap.1 h _ (List.mem_singleton_self row))
    rw [encode] at hreadable
    simp [encode, decode?, hreadable, hrow]
  | batch rows =>
    have hall : listOf? Row.decode? (.array (rows.map Row.encode)) = some rows :=
      listOf?_map fun row hrow => Row.decode?_encode (every_flatMap.1 h _ hrow)
    -- a row is tried first, and a batch that has rows is no row
    have hnoRow : Row.decode? (.array (rows.map Row.encode)) = none := by
      cases rows with
      | nil => exact absurd rfl hrows
      | cons row rest => simp [Row.decode?, listOf?, decodeAssigned?_encode_row]
    rw [encode] at hreadable
    simp [encode, decode?, hreadable, hnoRow, hall]

/-- A column of an upsert comes back: a name alone takes the incoming value. -/
theorem UpsertColumn.decode?_encode {c : UpsertColumn} (h : ∀ v, c.value? = some v → v.Stable) :
    decode? c.encode = some c := by
  cases c with
  | incoming column => rfl
  | value column v =>
    have hentry : decodeAssigned? (encodeAssigned (column, v)) = some (column, v) :=
      decodeAssigned?_encode (h v rfl)
    rw [encodeAssigned] at hentry
    simp [encode, encodeAssigned, decode?, hentry]

/-- A statement comes back, provided that its rows are written as rows. -/
theorem Statement.decode?_encode {s : Statement} (h : Every Value.Stable s.values)
    (hrows : s.GivesRows) : decode? s.encode = some s := by
  have hform := Statement.legible_encode h.legible
  cases s with
  | select | hasRows | delete | truncate => rfl
  | insert rows | insertOrIgnore rows =>
    rw [encode] at hform ⊢
    simp [decode?, tag?, tagIn?_written hform, unrepeated_of_legible hform, field, find?,
      Rows.decode?_encode h hrows]
  | insertGetId rows key =>
    rw [encode] at hform ⊢
    simp [decode?, tag?, tagIn?_written hform, unrepeated_of_legible hform, field, fieldOr, find?,
      Rows.decode?_encode h hrows, nullable?_text]
  | insertUsing columns query =>
    obtain ⟨hcolumns, hquery⟩ := every_append.1 h
    rw [encode] at hform ⊢
    simp [decode?, tag?, tagIn?_written hform, unrepeated_of_legible hform, field, fieldOr, find?,
      decodeColumns?_encode hcolumns, query.decodeIn?_encode hquery]
  | upsert rows uniqueBy columns =>
    obtain ⟨hvalues, hupdate⟩ := every_append.1 h
    have hkeys : listOf? text? (.array (uniqueBy.map .string)) = some uniqueBy :=
      listOf?_map fun _ _ => rfl
    have hcolumns : listOf? UpsertColumn.decode? (.array (columns.map UpsertColumn.encode)) =
        some columns :=
      listOf?_map fun c hc => UpsertColumn.decode?_encode fun v hv =>
        hupdate v (List.mem_filterMap.2 ⟨c, hc, hv⟩)
    rw [encode] at hform ⊢
    simp [decode?, tag?, tagIn?_written hform, unrepeated_of_legible hform, field, fieldOr, find?,
      Rows.decode?_encode hvalues hrows, hkeys, hcolumns]
  | update row =>
    rw [encode] at hform ⊢
    simp [decode?, tag?, tagIn?_written hform, unrepeated_of_legible hform, field, find?,
      Row.decode?_encode h]

/-- A request comes back from its JSON form if its values do. -/
theorem Request.decode?_encode {r : Request} (h : Every Value.Stable r.values)
    (hrows : r.statement.GivesRows) : decode? r.encode = some r := by
  have hform := Request.legible_encode h.legible
  obtain ⟨hstatement, hquery⟩ := every_append.1 h
  rw [encode] at hform ⊢
  simp [decode?, unrepeated_of_legible hform, field, fieldOr, find?,
    Statement.decode?_encode hstatement hrows, Query.decode?, r.query.decodeIn?_encode hquery]

end SqlCompiler
