import SqlCompiler.Compile

/-!
# Masked Queries

A query with its bound values removed. Masking goes into every position that holds a value, at any
depth, and keeps everything else, raw expressions among it. Two queries differ in nothing but their
bound values exactly if they are the same once they are masked.

## Main definitions

- `Value.mask`: a raw expression as it is, and nothing of any other value
- `Query.mask`: a query without its bound values, together with the masks of all nested parts
- `Statement.mask`: a statement without its bound values

## Main statements

- `Value.mask_eq_mask_iff`: what can be told of a value from its mask
- `Query.mask_eq`: a masked query clause by clause
-/

namespace SqlCompiler

/-! ## §1 Values and fragments -/

/-- What is known of a value without its content: a raw expression is no content. -/
def Value.mask : Value → Value
  | .raw sql => .raw sql
  | _ => .null

/-- Values without their contents. -/
def maskValues (values : List Value) : List Value :=
  values.map Value.mask

/-- A column without the contents of the values that its raw SQL binds. -/
def Column.mask : Column → Column
  | .named name => .named name
  | .raw sql bindings => .raw sql (maskValues bindings)

/-- Columns without the contents of their values. -/
def maskColumns (columns : List Column) : List Column :=
  columns.map Column.mask

/-- Distinct rows, with the columns that they are distinct in masked. -/
def Distinct.mask : Distinct → Distinct
  | .off => .off
  | .all => .all
  | .on columns => .on (maskColumns columns)

/-- The same function over masked columns. -/
def Aggregate.mask (aggregate : Aggregate) : Aggregate :=
  ⟨aggregate.function, maskColumns aggregate.columns⟩

/-- A sort key without the contents of its values. The seed of a random order is text. -/
def SortKey.mask : SortKey → SortKey
  | .column c direction => .column c.mask direction
  | .raw sql bindings => .raw sql (maskValues bindings)
  | .random seed => .random seed

mutual

/-- A condition on groups without the contents of its values; its form, its operators and its
verbatim SQL stay. -/
def HavingPredicate.mask : HavingPredicate → HavingPredicate
  | .raw sql bindings => .raw sql (maskValues bindings)
  | .compare c operator value => .compare c.mask operator value.mask
  | .between c low high negated => .between c.mask low.mask high.mask negated
  | .isNull c => .isNull c.mask
  | .isNotNull c => .isNotNull c.mask
  | .bitwise c operator value => .bitwise c.mask operator value.mask
  | .expression sql => .expression sql
  | .group clauses => .group (maskHavings clauses)

/-- Conditions on groups without the contents of their values. -/
def maskHavings : List (Clause HavingPredicate) → List (Clause HavingPredicate)
  | [] => []
  | ⟨connective, node⟩ :: rest => ⟨connective, node.mask⟩ :: maskHavings rest

end

/-! ## §2 Queries -/

mutual

/-- A table without the contents of its values, those of a derived table at any depth. -/
def Table.mask : Table → Table
  | .named name => .named name
  | .raw sql bindings => .raw sql (maskValues bindings)
  | .derived query asName => .derived query.mask asName

/-- The table of a query without the contents of its values. -/
def maskSource : Option Table → Option Table
  | none => none
  | some tbl => some tbl.mask

/-- A joined table without the contents of the values in its table, its conditions and its inner
joins. -/
def Join.mask : Join → Join
  | ⟨kind, tbl, on, joins, lateral⟩ => ⟨kind, tbl.mask, maskClauses on, maskJoins joins, lateral⟩

/-- Joined tables without the contents of their values. -/
def maskJoins : List Join → List Join
  | [] => []
  | j :: rest => j.mask :: maskJoins rest

/-- The branches of a union without the contents of their values. -/
def maskBranches : List UnionBranch → List UnionBranch
  | [] => []
  | ⟨query, all⟩ :: rest => ⟨query.mask, all⟩ :: maskBranches rest

/-- A condition on rows without the contents of its values. Selectors, operators, integer lists and
the boolean of a JSON comparison are text and stay. -/
def Predicate.mask : Predicate → Predicate
  | .raw sql bindings => .raw sql (maskValues bindings)
  | .compare c operator value => .compare c.mask operator value.mask
  | .bitwise c operator value => .bitwise c.mask operator value.mask
  | .jsonBoolean selector operator value => .jsonBoolean selector operator value
  | .like c pattern caseSensitive negated => .like c.mask pattern.mask caseSensitive negated
  | .between c low high negated => .between c.mask low.mask high.mask negated
  | .betweenColumns c low high negated => .betweenColumns c.mask low.mask high.mask negated
  | .inList c values negated => .inList c.mask (maskValues values) negated
  | .inQuery c query negated => .inQuery c.mask query.mask negated
  | .inIntegers c values negated => .inIntegers c.mask values negated
  | .isNull c => .isNull c.mask
  | .isNotNull c => .isNotNull c.mask
  | .datePart part c operator value => .datePart part c.mask operator value.mask
  | .group inner => .group (maskClauses inner)
  | .hasRows query negated => .hasRows query.mask negated
  | .compareQuery c operator query => .compareQuery c.mask operator query.mask
  | .compareColumns first operator second => .compareColumns first.mask operator second.mask
  | .rowValues columns operator values =>
    .rowValues (maskColumns columns) operator (maskValues values)
  | .jsonContains selector value negated => .jsonContains selector value.mask negated
  | .jsonContainsKey selector negated => .jsonContainsKey selector negated
  | .jsonLength selector operator value => .jsonLength selector operator value.mask
  | .fullText columns value options => .fullText (maskColumns columns) value.mask options

/-- Conditions on rows without the contents of their values. -/
def maskClauses : List (Clause Predicate) → List (Clause Predicate)
  | [] => []
  | ⟨connective, node⟩ :: rest => ⟨connective, node.mask⟩ :: maskClauses rest

/-- A query without the contents of its values. -/
def Query.mask : Query → Query
  | ⟨src, columns, distinct, aggregate, joins, wheres, groups, havings, orders, limit, offset, lock,
      unions, unionOrders, unionLimit, unionOffset⟩ =>
    ⟨maskSource src, columns.map maskColumns, distinct.mask, aggregate.map Aggregate.mask,
      maskJoins joins, maskClauses wheres, maskColumns groups, maskHavings havings,
      orders.map SortKey.mask, limit, offset, lock, maskBranches unions,
      unionOrders.map SortKey.mask, unionLimit, unionOffset⟩

end

/-! ## §3 Statements -/

/-- Entries without the contents of their values. -/
def maskEntries (entries : List (String × Value)) : List (String × Value) :=
  entries.map fun (column, value) => (column, value.mask)

/-- A row with its columns and without the contents of their values. -/
def Row.mask (row : Row) : Row :=
  ⟨maskEntries row.entries⟩

/-- The rows of an insert without the contents of their values. -/
def Rows.mask : Rows → Rows
  | .single row => .single row.mask
  | .batch rows => .batch (rows.map Row.mask)

/-- What an upsert writes, without the content of a value of its own. -/
def UpsertColumn.mask : UpsertColumn → UpsertColumn
  | .incoming column => .incoming column
  | .value column v => .value column v.mask

/-- A statement without the contents of its values. -/
def Statement.mask : Statement → Statement
  | .select => .select
  | .hasRows => .hasRows
  | .insert rows => .insert rows.mask
  | .insertOrIgnore rows => .insertOrIgnore rows.mask
  | .insertGetId rows key => .insertGetId rows.mask key
  | .insertUsing columns query => .insertUsing (maskColumns columns) query.mask
  | .upsert rows uniqueBy columns => .upsert rows.mask uniqueBy (columns.map UpsertColumn.mask)
  | .update row => .update row.mask
  | .delete => .delete
  | .truncate => .truncate

/-! ## §4 What a mask keeps -/

/-- Masking keeps the text of a raw expression. -/
@[simp] theorem Value.raw?_mask (v : Value) : v.mask.raw? = v.raw? := by
  cases v <;> rfl

/-- Masking keeps apart what is bound and what is verbatim. -/
@[simp] theorem Value.isRaw_mask (v : Value) : v.mask.isRaw = v.isRaw := by
  cases v <;> rfl

/-- A raw expression is its own mask. -/
theorem Value.mask_of_raw {v : Value} (h : v.isRaw = true) : v.mask = v := by
  cases v with
  | raw sql => rfl
  | _ => cases h

/-- All bound values have the same mask. -/
theorem Value.mask_of_bound {v : Value} (h : v.isRaw = false) : v.mask = .null := by
  cases v with
  | raw sql => cases h
  | _ => rfl

/-- Masks tell apart raw expressions from each other and from the values that are bound, which all
look the same. -/
theorem Value.mask_eq_mask_iff {v w : Value} :
    v.mask = w.mask ↔ v = w ∨ v.isRaw = false ∧ w.isRaw = false := by
  constructor
  · intro h
    have hraw : v.isRaw = w.isRaw := by rw [← Value.isRaw_mask v, h, Value.isRaw_mask]
    cases hv : v.isRaw with
    | true =>
      rw [Value.mask_of_raw hv, Value.mask_of_raw (hraw.symm.trans hv)] at h
      exact .inl h
    -- every bound value is masked by the same null
    | false => exact .inr ⟨rfl, hraw.symm.trans hv⟩
  · rintro (rfl | ⟨hv, hw⟩)
    · rfl
    · rw [Value.mask_of_bound hv, Value.mask_of_bound hw]

/-- There are as many values as before. -/
@[simp] theorem length_maskValues (values : List Value) :
    (maskValues values).length = values.length :=
  List.length_map ..

@[simp] theorem length_maskColumns (columns : List Column) :
    (maskColumns columns).length = columns.length :=
  List.length_map ..

@[simp] theorem maskValues_isEmpty (values : List Value) :
    (maskValues values).isEmpty = values.isEmpty :=
  List.isEmpty_map

@[simp] theorem maskColumns_isEmpty (columns : List Column) :
    (maskColumns columns).isEmpty = columns.isEmpty :=
  List.isEmpty_map

@[simp] theorem maskJoins_isEmpty (joins : List Join) :
    (maskJoins joins).isEmpty = joins.isEmpty := by
  cases joins <;> rfl

@[simp] theorem maskBranches_isEmpty (branches : List UnionBranch) :
    (maskBranches branches).isEmpty = branches.isEmpty := by
  rcases branches with _ | ⟨⟨_, _⟩, _⟩ <;> rfl

/-- A layout asks only whether there are clauses, which a mask does not change. -/
@[simp] theorem maskClauses_isEmpty (clauses : List (Clause Predicate)) :
    (maskClauses clauses).isEmpty = clauses.isEmpty := by
  rcases clauses with _ | ⟨⟨_, _⟩, _⟩ <;> rfl

@[simp] theorem maskHavings_isEmpty (clauses : List (Clause HavingPredicate)) :
    (maskHavings clauses).isEmpty = clauses.isEmpty := by
  rcases clauses with _ | ⟨⟨_, _⟩, _⟩ <;> rfl

@[simp] theorem Table.isDerived_mask (tbl : Table) : tbl.mask.isDerived = tbl.isDerived := by
  cases tbl <;> rfl

@[simp] theorem Aggregate.function_mask (aggregate : Aggregate) :
    aggregate.mask.function = aggregate.function := rfl

/-- The clauses of a masked query are its masked clauses; its page, its lock and its union page are
kept. -/
theorem Query.mask_eq (q : Query) :
    q.mask =
      { q with
        source := maskSource q.source
        columns := q.columns.map maskColumns
        distinct := q.distinct.mask
        aggregate := q.aggregate.map Aggregate.mask
        joins := maskJoins q.joins
        wheres := maskClauses q.wheres
        groups := maskColumns q.groups
        havings := maskHavings q.havings
        orders := q.orders.map SortKey.mask
        unions := maskBranches q.unions
        unionOrders := q.unionOrders.map SortKey.mask } := by
  cases q
  rfl

/-- Counts are no values, so a mask keeps the limit. -/
@[simp] theorem Query.limit_mask (q : Query) : q.mask.limit = q.limit := by
  rw [Query.mask_eq]

/-- A masked query skips as many rows. -/
@[simp] theorem Query.skipped_mask (q : Query) : q.mask.skipped = q.skipped := by
  rw [Query.mask_eq]
  rfl

/-- A query and its mask have an aggregate or not alike. -/
@[simp] theorem Query.aggregate_mask (q : Query) :
    q.mask.aggregate = q.aggregate.map Aggregate.mask := by
  rw [Query.mask_eq]

@[simp] theorem Query.distinct_mask (q : Query) : q.mask.distinct = q.distinct.mask := by
  rw [Query.mask_eq]

/-- The joins of a masked query are those of the query, masked; in the same way its order, its
branches and its conditions on groups. -/
@[simp] theorem Query.joins_mask (q : Query) : q.mask.joins = maskJoins q.joins := by
  rw [Query.mask_eq]

@[simp] theorem Query.orders_mask (q : Query) : q.mask.orders = q.orders.map SortKey.mask := by
  rw [Query.mask_eq]

@[simp] theorem Query.unions_mask (q : Query) : q.mask.unions = maskBranches q.unions := by
  rw [Query.mask_eq]

@[simp] theorem Query.havings_mask (q : Query) : q.mask.havings = maskHavings q.havings := by
  rw [Query.mask_eq]

/-- Whether an aggregate is taken over a finished select is no matter of values. -/
@[simp] theorem aggregatesOverRows_mask (q : Query) :
    Target.aggregatesOverRows q.mask = Target.aggregatesOverRows q := by
  simp [Target.aggregatesOverRows]

/-- Whether rows are numbered is a matter of dialect, page and aggregate alone. -/
@[simp] theorem numbersRows_mask (t : Target) (q : Query) (aggregate : Option Aggregate) :
    t.numbersRows q.mask (aggregate.map Aggregate.mask) = t.numbersRows q aggregate := by
  simp [Target.numbersRows]

/-- Whether a query has joins or a limit is no matter of values. -/
@[simp] theorem Query.hasJoinsOrLimit_mask (q : Query) :
    q.mask.hasJoinsOrLimit = q.hasJoinsOrLimit := by
  simp [Query.hasJoinsOrLimit]

end SqlCompiler
