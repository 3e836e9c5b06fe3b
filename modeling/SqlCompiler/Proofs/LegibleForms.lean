import SqlCompiler.Proofs.CarriedValues

/-!
# Legible Written Forms

What is written can be read: the JSON form of a request has no unreadable part and repeats no key,
provided that the JSON forms of its values have not and do not.

## Main statements

- `Query.legible_encode`, `Statement.legible_encode`, `Request.legible_encode`
-/

namespace SqlCompiler

open Codec Json

/-! ## §1 Parts that do not nest -/

/-- A list of legible forms. -/
theorem legible_map {α : Type} {f : α → Json} {xs : List α} (h : ∀ x ∈ xs, Legible (f x)) :
    Legible (.array (xs.map f)) := by
  simpa using h

/-- A list of values is legible if each of them is. -/
theorem legible_encodeValues {values : List Value} (h : Every Value.Legible values) :
    Legible (encodeValues values) :=
  legible_map h

/-- A text that may be missing is a string or null. -/
theorem legible_text (text : Option String) : Legible (text.elim .null .string) := by
  cases text <;> simp

theorem legible_count (n : Option UInt64) : Legible (encodeCount n) := by
  cases n <;> simp [encodeCount]

/-- The fields of raw SQL, alone or behind a tag. -/
theorem legible_encodeSql (sql : String) {bindings : List Value}
    (h : Every Value.Legible bindings) :
    Legible (.object (encodeSql sql bindings)) ∧
      ∀ tag, Legible (.object (("type", .string tag) :: encodeSql sql bindings)) := by
  simp [encodeSql, legible_encodeValues h]

/-- A column is a name, or raw SQL with its values. -/
theorem Column.legible_encode {c : Column} (h : Every Value.Legible c.bindings) :
    Legible c.encode := by
  cases c with
  | named name => exact legible_string name
  | raw sql bindings => exact (legible_encodeSql _ h).1

theorem legible_encodeColumns {columns : List Column}
    (h : Every Value.Legible (columnBindings columns)) : Legible (encodeColumns columns) :=
  legible_map fun _ hc => Column.legible_encode (every_flatMap.1 h _ hc)

/-- Distinct rows, with the columns that they are distinct in. -/
theorem Distinct.legible_encode {d : Distinct} (h : Every Value.Legible d.values) :
    Legible d.encode := by
  cases d with
  | off => exact legible_string _
  | all => exact legible_string _
  | on columns => simp [encode, legible_encodeColumns h]

/-- An aggregate with the columns that it is taken over. -/
theorem Aggregate.legible_encode {a : Aggregate}
    (h : Every Value.Legible (columnBindings a.columns)) : Legible a.encode := by
  simp [encode, legible_encodeColumns h]

/-- A sort key in each of its three forms. -/
theorem SortKey.legible_encode {key : SortKey} (h : Every Value.Legible key.bindings) :
    Legible key.encode := by
  cases key with
  | column c direction => simp [encode, Column.legible_encode h, Direction.encode]
  | raw sql bindings => exact (legible_encodeSql _ h).2 _
  | random seed => simp [encode, legible_text]

theorem legible_orders {orders : List SortKey} (h : Every Value.Legible (orderBindings orders)) :
    Legible (.array (orders.map SortKey.encode)) :=
  legible_map fun _ hkey => SortKey.legible_encode (every_flatMap.1 h _ hkey)

theorem Lock.legible_encode (l : Lock) : Legible l.encode := by
  cases l <;> simp [encode]

/-- Options are texts and flags, always legible. -/
theorem FullTextOptions.legible_encode (o : FullTextOptions) : Legible o.encode := by
  simp [encode, legible_text]

/-- A clause is its condition with the connective beside it. -/
theorem legible_encodeClause (connective : Connective) {node : Json} (h : Legible node) :
    Legible (encodeClause connective node) := by
  simp [encodeClause, Connective.encode, h]

/-! ## §2 Conditions on groups -/

mutual

/-- A condition on groups is legible if its values are, by recursion on its groups. -/
theorem HavingPredicate.legible_encode : (p : HavingPredicate) → Every Value.Legible p.bindings →
    Legible p.encode
  | .raw _ _, h => (legible_encodeSql _ h).2 _
  | .expression _, _ => by simp [HavingPredicate.encode]
  | .group clauses, h => by
    simpa [HavingPredicate.encode] using legible_encodeHavings clauses h
  | .compare _ _ _, h | .bitwise _ _ _, h | .between _ _ _ _, h => by
    simp only [HavingPredicate.bindings, every_append, every_cons] at h
    simp [HavingPredicate.encode, Column.legible_encode h.1, h]
  | .isNull _, h | .isNotNull _, h => by
    simp [HavingPredicate.encode, Column.legible_encode h]

/-- Conditions on groups, each of them with the part of the values that is its own. -/
theorem legible_encodeHavings : (clauses : List (Clause HavingPredicate)) →
    Every Value.Legible (havingBindings clauses) → ∀ v ∈ encodeHavings clauses, Legible v
  | [], _, _, hv => by cases hv
  | ⟨connective, node⟩ :: rest, h, v, hv => by
    rw [havingBindings, every_append] at h
    rw [encodeHavings] at hv
    rcases List.mem_cons.1 hv with rfl | hv
    · exact legible_encodeClause connective (node.legible_encode h.1)
    · exact legible_encodeHavings rest h.2 v hv

end

/-! ## §3 Queries -/

mutual

/-- A table; a derived one holds the form of a query. -/
theorem Table.legible_encode : (tbl : Table) → Every Value.Legible tbl.values → Legible tbl.encode
  | .named name, _ => by simp [Table.encode]
  | .raw _ _, h => (legible_encodeSql _ h).1
  | .derived query asName, h => by
    simp [Table.encode, query.legible_encode h]

theorem legible_encodeSource : (source : Option Table) → Every Value.Legible (sourceValues source) →
    Legible (encodeSource source)
  | none, _ => by simp [encodeSource]
  | some tbl, h => tbl.legible_encode h

/-- A joined table with its conditions and inner joins. -/
theorem Join.legible_encode : (j : Join) → Every Value.Legible j.values → Legible j.encode
  | ⟨kind, tbl, on, joins, lateral⟩, h => by
    simp only [Join.values, every_append] at h
    have htable := tbl.legible_encode h.1.1
    have hon := legible_encodeClauses on h.1.2
    have hjoins := legible_encodeJoins joins h.2
    simpa [Join.encode, JoinKind.encode, htable] using ⟨hon, hjoins⟩

/-- Joined tables, one by one. -/
theorem legible_encodeJoins : (joins : List Join) → Every Value.Legible (joinsValues joins) →
    ∀ v ∈ encodeJoins joins, Legible v
  | [], _, _, hv => by cases hv
  | j :: rest, h, v, hv => by
    rw [joinsValues, every_append] at h
    rw [encodeJoins] at hv
    rcases List.mem_cons.1 hv with rfl | hv
    · exact j.legible_encode h.1
    · exact legible_encodeJoins rest h.2 v hv

/-- The branches of a union, one by one. -/
theorem legible_encodeBranches : (branches : List UnionBranch) →
    Every Value.Legible (branchValues branches) → ∀ v ∈ encodeBranches branches, Legible v
  | [], _, _, hv => by cases hv
  | ⟨query, all⟩ :: rest, h, v, hv => by
    rw [branchValues, every_append] at h
    rw [encodeBranches] at hv
    rcases List.mem_cons.1 hv with rfl | hv
    · simp [query.legible_encode h.1]
    · exact legible_encodeBranches rest h.2 v hv

/-- A condition on rows is legible if its values are, those of the queries that it looks into among
them. -/
theorem Predicate.legible_encode : (p : Predicate) → Every Value.Legible p.values → Legible p.encode
  | .raw _ _, h => (legible_encodeSql _ h).2 _
  | .compare _ _ _, h | .bitwise _ _ _, h | .like _ _ _ _, h | .between _ _ _ _, h
  | .datePart _ _ _ _, h => by
    simp only [Predicate.values, every_append, every_cons] at h
    simp [Predicate.encode, DatePart.encode, Column.legible_encode h.1, h]
  | .jsonBoolean _ _ _, _ | .jsonContainsKey _ _, _ => by simp [Predicate.encode]
  | .betweenColumns c low high _, h | .compareColumns c _ high, h => by
    have hcolumn {c' : Column} (hc' : c' ∈ _) := Column.legible_encode (every_flatMap.1 h _ hc')
    simp [Predicate.encode, hcolumn]
  | .inList _ _ _, h => by
    simp only [Predicate.values, every_append] at h
    simp [Predicate.encode, Column.legible_encode h.1, legible_encodeValues h.2]
  | .inQuery _ query _, h | .compareQuery _ _ query, h => by
    simp only [Predicate.values, every_append] at h
    simp [Predicate.encode, Column.legible_encode h.1, query.legible_encode h.2]
  | .inIntegers _ _ _, h => by
    simp [Predicate.encode, Column.legible_encode h]
  | .isNull _, h | .isNotNull _, h => by
    simp [Predicate.encode, Column.legible_encode h]
  | .group inner, h => by
    simpa [Predicate.encode] using legible_encodeClauses inner h
  | .hasRows query _, h => by
    simp [Predicate.encode, query.legible_encode h]
  | .rowValues _ _ _, h => by
    simp only [Predicate.values, every_append] at h
    simp [Predicate.encode, legible_encodeColumns h.1, legible_encodeValues h.2]
  | .jsonContains _ _ _, h | .jsonLength _ _ _, h => by
    simp only [Predicate.values, every_cons] at h
    simp [Predicate.encode, h]
  | .fullText _ _ options, h => by
    simp only [Predicate.values, every_append, every_cons] at h
    simp [Predicate.encode, legible_encodeColumns h.1, h, options.legible_encode]

/-- Conditions on rows, one by one. -/
theorem legible_encodeClauses : (clauses : List (Clause Predicate)) →
    Every Value.Legible (clauseValues clauses) → ∀ v ∈ encodeClauses clauses, Legible v
  | [], _, _, hv => by cases hv
  | ⟨connective, node⟩ :: rest, h, v, hv => by
    rw [clauseValues, every_append] at h
    rw [encodeClauses] at hv
    rcases List.mem_cons.1 hv with rfl | hv
    · exact legible_encodeClause connective (node.legible_encode h.1)
    · exact legible_encodeClauses rest h.2 v hv

/-- The JSON form of a query is legible, as those of its values are. -/
theorem Query.legible_encode : (q : Query) → Every Value.Legible q.values → Legible q.encode
  | ⟨source, columns, distinct, aggregate, joins, wheres, groups, havings, orders, limit, offset,
      lock, unions, unionOrders, unionLimit, unionOffset⟩, h => by
    simp only [Query.values, every_append] at h
    obtain ⟨⟨⟨⟨⟨⟨⟨⟨⟨⟨hsource, hcolumns⟩, hdistinct⟩, haggregate⟩, hjoins⟩, hwheres⟩, hgroups⟩,
      hhavings⟩, horders⟩, hunions⟩, hunionOrders⟩ := h
    have hcolumns' : Legible (columns.elim .null encodeColumns) := by
      cases columns with
      | none => exact legible_null
      | some columns => exact legible_encodeColumns hcolumns
    have haggregate' : Legible (aggregate.elim .null Aggregate.encode) := by
      cases aggregate with
      | none => exact legible_null
      | some aggregate => exact aggregate.legible_encode haggregate
    have hlock : Legible (lock.elim .null Lock.encode) := by
      cases lock with
      | none => exact legible_null
      | some lock => exact lock.legible_encode
    rw [Query.encode]
    -- the keys of the object are distinct, and its fields are legible one by one
    have hkeys : queryKeys.Nodup := by decide
    refine legible_object.2 ⟨hkeys, ?_⟩
    simp only [List.forall_mem_cons, List.not_mem_nil, false_imp_iff, implies_true, and_true]
    exact ⟨legible_encodeSource source hsource, hcolumns', distinct.legible_encode hdistinct,
      haggregate', legible_array.2 (legible_encodeJoins joins hjoins),
      legible_array.2 (legible_encodeClauses wheres hwheres), legible_encodeColumns hgroups,
      legible_array.2 (legible_encodeHavings havings hhavings), legible_orders horders,
      legible_count limit, legible_count offset, hlock,
      legible_array.2 (legible_encodeBranches unions hunions), legible_orders hunionOrders,
      legible_count unionLimit, legible_count unionOffset⟩

end

/-! ## §4 Statements -/

/-- A column and its value as a list of two items. -/
theorem legible_encodeAssigned {entry : String × Value} (h : Legible entry.2.encode) :
    Legible (encodeAssigned entry) := by
  simp [encodeAssigned, h]

/-- A row is a list of entries, so that its columns are no keys and may repeat. -/
theorem Row.legible_encode {row : Row} (h : Every Value.Legible row.values) : Legible row.encode :=
  legible_map fun entry hentry => legible_encodeAssigned
    (h entry.2 (List.mem_map_of_mem hentry))

/-- One row or a batch. -/
theorem Rows.legible_encode {rows : Rows} (h : Every Value.Legible rows.values) :
    Legible rows.encode := by
  cases rows with
  | single row => exact Row.legible_encode (every_flatMap.1 h _ (List.mem_singleton_self row))
  | batch rows =>
    exact legible_map fun row hrow => Row.legible_encode (every_flatMap.1 h _ hrow)

theorem UpsertColumn.legible_encode {c : UpsertColumn}
    (h : ∀ v, c.value? = some v → Legible v.encode) : Legible c.encode := by
  cases c with
  | incoming column => exact legible_string column
  | value column v => exact legible_encodeAssigned (h v rfl)

/-- A statement with its rows, its assignments or its query. -/
theorem Statement.legible_encode {s : Statement} (h : Every Value.Legible s.values) :
    Legible s.encode := by
  cases s with
  | select | hasRows | delete | truncate => simp [encode]
  | insert rows | insertOrIgnore rows => simp [encode, Rows.legible_encode h]
  | insertGetId rows key => simp [encode, Rows.legible_encode h, legible_text]
  | insertUsing columns query =>
    rw [values, every_append] at h
    simp [encode, legible_encodeColumns h.1, query.legible_encode h.2]
  | upsert rows uniqueBy columns =>
    rw [values, every_append] at h
    have hcolumns : ∀ c ∈ columns, Legible c.encode := fun c hc =>
      UpsertColumn.legible_encode fun v hv => h.2 v (List.mem_filterMap.2 ⟨c, hc, hv⟩)
    simpa [encode, Rows.legible_encode h.1] using hcolumns
  | update row => simp [encode, Row.legible_encode h]

/-- The JSON form of a request is legible, as those of its values are. -/
theorem Request.legible_encode {r : Request} (h : Every Value.Legible r.values) :
    Legible r.encode := by
  rw [values, every_append] at h
  simp [encode, Statement.legible_encode h.1, r.query.legible_encode h.2]

end SqlCompiler
