import SqlCompiler.Proofs.Masking
import SqlCompiler.Proofs.PredicateLabels

/-!
# Bindings of Masked Queries

Masking a query changes what is bound, but not how much is bound. The collector looks at nothing but
whether a value is raw, and so it gathers, bucket by bucket, as many values as before.

## Main definitions

- `rawness`: which values of a list are raw expressions

## Main statements

- `rawness_bound`: what is bound of a list is determined by its rawness
- `clauseBindings_mask`, `selectBindings_mask`: what is collected, by recursion on the query
- `buckets_mask`: the same bucket by bucket
-/

namespace SqlCompiler

variable {t : Target} {q : Query}

/-! ## §1 Raw and bound values -/

/-- Which values of a list are raw expressions. -/
def rawness (values : List Value) : List Bool :=
  values.map Value.isRaw

@[simp] theorem rawness_cons (v : Value) (vs : List Value) :
    rawness (v :: vs) = v.isRaw :: rawness vs := rfl

/-- Values that are all bound. -/
theorem rawness_map_bound {α : Type} {f : α → Value} (hf : ∀ x, (f x).isRaw = false)
    (xs : List α) : rawness (xs.map f) = List.replicate xs.length false := by
  simp [rawness, Function.comp_def, hf]

/-- What is raw in a row of values, part by part. -/
@[simp] theorem rawness_append (vs ws : List Value) :
    rawness (vs ++ ws) = rawness vs ++ rawness ws :=
  List.map_append ..

/-- A mask keeps apart what is raw and what is bound. -/
@[simp] theorem rawness_maskValues (vs : List Value) : rawness (maskValues vs) = rawness vs := by
  simp [rawness, maskValues]

/-- Dropping the raw expressions is seen in the rawness alone. -/
@[simp] theorem rawness_bound (vs : List Value) :
    rawness (bound vs) = (rawness vs).filter fun raw => !raw := by
  rw [rawness, rawness, bound, List.filter_map]
  rfl

/-- Values that are raw at the same places are as many. -/
theorem length_eq_of_rawness {vs ws : List Value} (h : rawness vs = rawness ws) :
    vs.length = ws.length := by
  have hlength := congrArg List.length h
  simpa [rawness] using hlength

/-! ## §2 Columns, orders and groups -/

/-- The values of masked columns. -/
@[simp] theorem columnBindings_mask (columns : List Column) :
    rawness (columnBindings (maskColumns columns)) = rawness (columnBindings columns) := by
  induction columns with
  | nil => rfl
  | cons c rest ih =>
    simp only [columnBindings, maskColumns, List.map_cons, List.flatMap_cons,
      rawness_append] at ih ⊢
    rw [ih]
    cases c <;> simp [Column.mask, Column.bindings]

@[simp] theorem column_bindings_mask (c : Column) :
    rawness c.mask.bindings = rawness c.bindings := by
  cases c <;> simp [Column.mask, Column.bindings]

/-- The values of masked sort keys; a random order has none. -/
@[simp] theorem orderBindings_mask (orders : List SortKey) :
    rawness (orderBindings (orders.map SortKey.mask)) = rawness (orderBindings orders) := by
  induction orders with
  | nil => rfl
  | cons key rest ih =>
    simp only [orderBindings, List.map_cons, List.flatMap_cons, rawness_append] at ih ⊢
    rw [ih]
    cases key <;> simp [SortKey.mask, SortKey.bindings]

mutual

/-- The values of a masked condition on groups, by recursion on its groups. -/
theorem having_bindings_mask : (p : HavingPredicate) →
    rawness p.mask.bindings = rawness p.bindings
  | .raw _ _ => by simp [HavingPredicate.mask, HavingPredicate.bindings]
  | .compare _ _ _ => by simp [HavingPredicate.mask, HavingPredicate.bindings]
  | .between _ _ _ _ => by simp [HavingPredicate.mask, HavingPredicate.bindings]
  | .isNull _ => by simp [HavingPredicate.mask, HavingPredicate.bindings]
  | .isNotNull _ => by simp [HavingPredicate.mask, HavingPredicate.bindings]
  | .bitwise _ _ _ => by simp [HavingPredicate.mask, HavingPredicate.bindings]
  | .expression _ => by simp [HavingPredicate.mask, HavingPredicate.bindings]
  | .group clauses => by
    simp only [HavingPredicate.mask, HavingPredicate.bindings]
    exact havingBindings_mask clauses

theorem havingBindings_mask : (clauses : List (Clause HavingPredicate)) →
    rawness (havingBindings (maskHavings clauses)) = rawness (havingBindings clauses)
  | [] => rfl
  | ⟨_, node⟩ :: rest => by
    simp only [maskHavings, havingBindings, rawness_append]
    rw [having_bindings_mask node, havingBindings_mask rest]

end

/-! ## §3 Buckets -/

/-- As many values in every bucket, and raw expressions in the same places. -/
def SameRawness (b b' : Buckets) : Prop :=
  ∀ bucket, rawness (b.get bucket) = rawness (b'.get bucket)

/-- Buckets that agree one by one agree in a row. -/
theorem SameRawness.flattenOnly {b b' : Buckets} (h : SameRawness b b') (buckets : List Bucket) :
    rawness (b.flattenOnly buckets) = rawness (b'.flattenOnly buckets) := by
  unfold Buckets.flattenOnly
  -- bucket by bucket, in whatever order they are listed
  induction buckets with
  | nil => rfl
  | cons bucket rest ih =>
    rw [List.flatMap_cons, List.flatMap_cons, rawness_append, rawness_append, h bucket, ih]

/-- Assigned values between buckets that agree. -/
theorem SameRawness.around {b b' : Buckets} (h : SameRawness b b') {values values' : List Value}
    (hvalues : rawness values = rawness values') (before after : List Bucket) :
    rawness (b.around before values after) = rawness (b'.around before values' after) := by
  simp only [Buckets.around, rawness_append, rawness_bound, h.flattenOnly, hvalues]

section Around

variable {source source' joins joins' wheres wheres' branches branches' : List Value}

/-- The buckets of a masked query around nested parts that bind as much. -/
theorem bucketsAround_mask (q : Query) (hsource : rawness source = rawness source')
    (hjoins : rawness joins = rawness joins') (hwheres : rawness wheres = rawness wheres')
    (hbranches : rawness branches = rawness branches') :
    SameRawness (q.mask.bucketsAround source joins wheres branches)
      (q.bucketsAround source' joins' wheres' branches') := by
  rw [Query.mask_eq]
  intro bucket
  cases bucket with
  | select =>
    have hcolumns : rawness (columnBindings ((q.columns.map maskColumns).getD [])) =
        rawness (columnBindings (q.columns.getD [])) := by
      -- a missing select list and an empty one bind the same nothing
      cases q.columns <;> simp
    -- whether the columns are collected is no matter of values
    simp only [Buckets.get, Query.bucketsAround, Option.isNone_map, maskBranches_isEmpty,
      maskHavings_isEmpty, rawness_bound, rawness_append]
    congr 2
    · cases q.aggregate with
      | none => rfl
      | some aggregate => exact columnBindings_mask aggregate.columns
    · split
      · exact hcolumns
      · rfl
  | source => simp [Buckets.get, Query.bucketsAround, hsource]
  | join => simp [Buckets.get, Query.bucketsAround, hjoins]
  | wheres => simp [Buckets.get, Query.bucketsAround, hwheres]
  | groupBy => simp [Buckets.get, Query.bucketsAround]
  | having => simp [Buckets.get, Query.bucketsAround, havingBindings_mask]
  | order => simp [Buckets.get, Query.bucketsAround]
  | union => simp [Buckets.get, Query.bucketsAround, hbranches]
  | unionOrder => simp [Buckets.get, Query.bucketsAround]

end Around

/-- Row numbers move the order into the select list for a query exactly if they do for its mask. -/
theorem arrange_mask (q : Query) {b b' : Buckets} (h : SameRawness b b') :
    SameRawness (t.arrange q.mask b) (t.arrange q b') := by
  have hplaced : (if Target.aggregatesOverRows q.mask then none else q.mask.aggregate) =
      (if Target.aggregatesOverRows q then none else q.aggregate).map Aggregate.mask := by
    rw [aggregatesOverRows_mask, Query.aggregate_mask]
    split <;> rfl
  dsimp only [Target.arrange]
  rw [hplaced, numbersRows_mask]
  generalize t.numbersRows q _ = numbered
  split
  · -- numbered rows: the order moves behind the select list, with all its values
    intro bucket
    cases bucket with
    | select =>
      have hselect := h .select
      have horder := h .order
      simp only [Buckets.get] at hselect horder ⊢
      rw [rawness_append, rawness_append, hselect, horder]
    | order => rfl
    | source => exact h .source
    | join => exact h .join
    | wheres => exact h .wheres
    | groupBy => exact h .groupBy
    | having => exact h .having
    | union => exact h .union
    | unionOrder => exact h .unionOrder
  · exact h

/-! ## §4 Nested parts -/

mutual

/-- The values of a table are those of the query that it is derived from, or of its raw SQL. -/
theorem tableBindings_mask (t : Target) : (tbl : Table) →
    rawness (t.tableBindings tbl.mask) = rawness (t.tableBindings tbl)
  | .named _ => by simp [Table.mask, Target.tableBindings]
  | .raw _ _ => by simp [Table.mask, Target.tableBindings]
  | .derived query _ => by
    simp only [Table.mask, Target.tableBindings]
    exact selectBindings_mask t query

theorem sourceBindings_mask (t : Target) : (src : Option Table) →
    rawness (t.sourceBindings (maskSource src)) = rawness (t.sourceBindings src)
  | none => rfl
  | some tbl => by
    simp only [maskSource, Target.sourceBindings]
    exact tableBindings_mask t tbl

/-- The values of a joined table: table, inner joins and conditions. -/
theorem joinBindings_mask (t : Target) : (j : Join) →
    rawness (t.joinBindings j.mask) = rawness (t.joinBindings j)
  | ⟨_, tbl, on, inner, _⟩ => by
    simp only [Join.mask, Target.joinBindings, rawness_append]
    rw [tableBindings_mask t tbl, joinsBindings_mask t inner, clauseBindings_mask t on]

theorem joinsBindings_mask (t : Target) : (joins : List Join) →
    rawness (t.joinsBindings (maskJoins joins)) = rawness (t.joinsBindings joins)
  | [] => rfl
  | j :: rest => by
    simp only [maskJoins, Target.joinsBindings, rawness_append]
    rw [joinBindings_mask t j, joinsBindings_mask t rest]

theorem branchBindings_mask (t : Target) : (branches : List UnionBranch) →
    rawness (t.branchBindings (maskBranches branches)) = rawness (t.branchBindings branches)
  | [] => rfl
  | ⟨query, _⟩ :: rest => by
    simp only [maskBranches, Target.branchBindings, rawness_append]
    rw [selectBindings_mask t query, branchBindings_mask t rest]

/-- The values of a condition on rows. Patterns and documents are bound in a form of their own,
which is raw only if they are. -/
theorem predicateBindings_mask (t : Target) : (p : Predicate) →
    rawness (t.predicateBindings p.mask) = rawness (t.predicateBindings p)
  | .raw _ _ => by simp [Predicate.mask, Target.predicateBindings]
  | .compare _ _ _ => by simp [Predicate.mask, Target.predicateBindings]
  | .bitwise _ _ _ => by simp [Predicate.mask, Target.predicateBindings]
  | .jsonBoolean _ _ _ => rfl
  | .like _ pattern caseSensitive _ => by
    simp [Predicate.mask, Target.predicateBindings, isRaw_likeBinding]
  | .between _ _ _ _ => by simp [Predicate.mask, Target.predicateBindings]
  | .betweenColumns c low high _ => by
    simp only [Predicate.mask, Target.predicateBindings]
    exact columnBindings_mask [c, low, high]
  | .inList _ _ _ => by
    simp only [Predicate.mask, Target.predicateBindings, maskValues_isEmpty]
    split <;> simp
  | .inQuery _ query _ => by
    simp [Predicate.mask, Target.predicateBindings, selectBindings_mask t query]
  | .inIntegers _ _ _ => by
    simp only [Predicate.mask, Target.predicateBindings]
    split <;> simp
  | .isNull _ => by simp [Predicate.mask, Target.predicateBindings]
  | .isNotNull _ => by simp [Predicate.mask, Target.predicateBindings]
  | .datePart _ _ _ _ => by simp [Predicate.mask, Target.predicateBindings]
  | .group inner => by
    simp only [Predicate.mask, Target.predicateBindings]
    exact clauseBindings_mask t inner
  | .hasRows query _ => by
    simp only [Predicate.mask, Target.predicateBindings]
    exact selectBindings_mask t query
  | .compareQuery _ _ query => by
    simp [Predicate.mask, Target.predicateBindings, selectBindings_mask t query]
  | .compareColumns first _ second => by
    simp only [Predicate.mask, Target.predicateBindings]
    exact columnBindings_mask [first, second]
  | .rowValues _ _ _ => by simp [Predicate.mask, Target.predicateBindings]
  | .jsonContains _ v _ => by
    simp only [Predicate.mask, Target.predicateBindings, Value.isRaw_mask]
    split
    · rfl
    · -- whatever is made of a bound value for the search, it stays bound
      rename_i hraw
      have hraw : v.isRaw = false := by simpa using hraw
      simp [isRaw_jsonBinding hraw, isRaw_jsonBinding (v := v.mask) (by simpa using hraw)]
  | .jsonContainsKey _ _ => rfl
  | .jsonLength _ _ _ => by simp [Predicate.mask, Target.predicateBindings]
  | .fullText _ _ _ => by simp [Predicate.mask, Target.predicateBindings]

theorem clauseBindings_mask (t : Target) : (clauses : List (Clause Predicate)) →
    rawness (t.clauseBindings (maskClauses clauses)) = rawness (t.clauseBindings clauses)
  | [] => rfl
  | ⟨_, node⟩ :: rest => by
    simp only [maskClauses, Target.clauseBindings, rawness_append]
    rw [predicateBindings_mask t node, clauseBindings_mask t rest]

/-- A masked query binds as many values as the query itself. -/
theorem selectBindings_mask (t : Target) : (q : Query) →
    rawness (t.selectBindings q.mask) = rawness (t.selectBindings q)
  | ⟨src, columns, distinct, aggregate, joins, wheres, groups, havings, orders, limit, offset, lock,
      unions, unionOrders, unionLimit, unionOffset⟩ => by
    rw [Target.selectBindings_eq, Target.selectBindings_eq]
    refine SameRawness.flattenOnly (arrange_mask _ (bucketsAround_mask _ ?_ ?_ ?_ ?_)) Bucket.all
    · exact sourceBindings_mask t src
    · exact joinsBindings_mask t joins
    · exact clauseBindings_mask t wheres
    · exact branchBindings_mask t unions

end

/-- The buckets of a masked query, clause by clause. -/
theorem buckets_mask (t : Target) (q : Query) : SameRawness (t.buckets q.mask) (t.buckets q) := by
  refine arrange_mask q (bucketsAround_mask q ?_ ?_ ?_ ?_)
  · rw [Query.mask_eq]
    exact sourceBindings_mask t q.source
  · rw [Query.mask_eq]
    exact joinsBindings_mask t q.joins
  · rw [Query.mask_eq]
    exact clauseBindings_mask t q.wheres
  · rw [Query.mask_eq]
    exact branchBindings_mask t q.unions

end SqlCompiler
