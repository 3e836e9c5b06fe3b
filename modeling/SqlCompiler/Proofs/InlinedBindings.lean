import SqlCompiler.Proofs.RawExpressions
import SqlCompiler.Proofs.SelectAlignment

/-!
# Bindings beside Raw Expressions

What a query binds does not depend on its raw expressions, and none of them is bound.

## Main statements

- `predicateBindings_reworded`, `clauseBindings_reworded`: conditions on rows
- `buckets_reworded`, `selectBindings_reworded`: a query, by recursion on it
- `bound_flattenOnly`, `bound_around`: no raw expression is bound
-/

namespace SqlCompiler

variable {t : Target} {q q' : Query}

/-! ## §1 Conditions on groups -/

/-- A column with the values that it is compared with. -/
theorem bound_beside (c : Column) {vs ws : List Value} (h : bound vs = bound ws) :
    bound (c.bindings ++ vs) = bound (c.bindings ++ ws) := by
  rw [bound_append, bound_append, h]

/-- Both bounds of a range. -/
theorem bound_pair {v w v' w' : Value} (h : v.Reworded v') (h' : w.Reworded w') :
    bound [v, w] = bound [v', w'] :=
  bound_reworded (.cons h (.cons h' .nil))

mutual

/-- A condition on groups binds the same. -/
theorem having_bindings_reworded : (p : HavingPredicate) → {p' : HavingPredicate} →
    p.Reworded p' → bound p.bindings = bound p'.bindings
  | .raw _ _, _, h => by
    cases h
    rfl
  | .compare c _ _, _, h => by
    cases h with
    | compare _ _ hv => exact bound_beside c hv.bound
  | .between c _ _ _, _, h => by
    cases h with
    | between _ _ hlow hhigh => exact bound_beside c (bound_pair hlow hhigh)
  | .isNull _, _, h => by
    cases h
    rfl
  | .isNotNull _, _, h => by
    cases h
    rfl
  | .bitwise c _ _, _, h => by
    cases h with
    | bitwise _ _ hv => exact bound_beside c hv.bound
  | .expression _, _, h => by
    cases h
    rfl
  | .group clauses, _, h => by
    cases h with
    | group hclauses => exact havingBindings_reworded clauses hclauses

/-- Conditions on groups, one by one. -/
theorem havingBindings_reworded : (clauses : List (Clause HavingPredicate)) →
    {clauses' : List (Clause HavingPredicate)} → HavingsReworded clauses clauses' →
    bound (havingBindings clauses) = bound (havingBindings clauses')
  | [], _, h => by
    cases h
    rfl
  | ⟨_, node⟩ :: rest, _, h => by
    cases h with
    | cons _ hnode hrest =>
      simp only [havingBindings, bound_append]
      rw [having_bindings_reworded node hnode, havingBindings_reworded rest hrest]

end

/-! ## §2 Queries -/

/-- The buckets of two queries whose nested parts bind the same. -/
theorem bucketsAround_reworded (hq : q.Reworded q') {source source' joins joins' wheres wheres'
    branches branches' : List Value} (hsource : bound source = bound source')
    (hjoins : bound joins = bound joins') (hwheres : bound wheres = bound wheres')
    (hbranches : bound branches = bound branches') :
    q.bucketsAround source joins wheres branches =
      q'.bucketsAround source' joins' wheres' branches' := by
  have hunions := hq.unions.isEmpty
  have hhavings := hq.havings.isEmpty
  have hbound := havingBindings_reworded _ hq.havings
  rw [hq.eq_with]
  simp only [Query.bucketsAround, hsource, hjoins, hwheres, hbranches, hunions, hhavings, hbound]

/-- Row numbers depend on limit, offset and aggregate, which hold no values. -/
theorem arrange_reworded (hq : q.Reworded q') (b : Buckets) :
    t.arrange q b = t.arrange q' b := by
  have hunions := hq.unions.isEmpty
  have hhavings := hq.havings.isEmpty
  rw [hq.eq_with]
  simp only [Target.arrange, Target.aggregatesOverRows, Target.numbersRows, Query.skipped, hunions,
    hhavings]
  rfl

mutual

/-- A table binds the same, by recursion on the query that it is derived from. -/
theorem tableBindings_reworded (t : Target) : (tbl : Table) → {tbl' : Table} →
    tbl.Reworded tbl' → bound (t.tableBindings tbl) = bound (t.tableBindings tbl')
  | .named _, _, h => by
    cases h
    rfl
  | .raw _ _, _, h => by
    cases h
    rfl
  | .derived query _, _, h => by
    cases h with
    | derived _ hquery => exact congrArg bound (selectBindings_reworded t query hquery)

theorem sourceBindings_reworded (t : Target) : (src : Option Table) → {src' : Option Table} →
    SourceReworded src src' → bound (t.sourceBindings src) = bound (t.sourceBindings src')
  | none, _, h => by
    cases h
    rfl
  | some tbl, _, h => by
    cases h with
    | some htable => exact tableBindings_reworded t tbl htable

/-- A joined table with its inner joins and conditions. -/
theorem joinBindings_reworded (t : Target) : (j : Join) → {j' : Join} → j.Reworded j' →
    bound (t.joinBindings j) = bound (t.joinBindings j')
  | ⟨_, tbl, on, joins, _⟩, _, h => by
    cases h with
    | mk _ _ htable hon hjoins =>
      simp only [Target.joinBindings, bound_append]
      rw [tableBindings_reworded t tbl htable, joinsBindings_reworded t joins hjoins,
        clauseBindings_reworded t on hon]

theorem joinsBindings_reworded (t : Target) : (joins : List Join) → {joins' : List Join} →
    JoinsReworded joins joins' → bound (t.joinsBindings joins) = bound (t.joinsBindings joins')
  | [], _, h => by
    cases h
    rfl
  | j :: rest, _, h => by
    cases h with
    | cons hj hrest =>
      simp only [Target.joinsBindings, bound_append]
      rw [joinBindings_reworded t j hj, joinsBindings_reworded t rest hrest]

theorem branchBindings_reworded (t : Target) : (branches : List UnionBranch) →
    {branches' : List UnionBranch} → BranchesReworded branches branches' →
    bound (t.branchBindings branches) = bound (t.branchBindings branches')
  | [], _, h => by
    cases h
    rfl
  | ⟨query, _⟩ :: rest, _, h => by
    cases h with
    | cons _ hquery hrest =>
      simp only [Target.branchBindings, bound_append]
      rw [selectBindings_reworded t query hquery, branchBindings_reworded t rest hrest]

/-- What a condition binds does not depend on its raw expressions. -/
theorem predicateBindings_reworded (t : Target) : (p : Predicate) → {p' : Predicate} →
    p.Reworded p' → bound (t.predicateBindings p) = bound (t.predicateBindings p')
  | .compare c _ _, _, h => by
    cases h with
    | compare _ _ hv => exact bound_beside c hv.bound
  | .bitwise c _ _, _, h => by
    cases h with
    | bitwise _ _ hv => exact bound_beside c hv.bound
  | .like c _ caseSensitive _, _, h => by
    cases h with
    | like _ _ _ hv =>
      exact bound_beside c (hv.bound_map fun v => isRaw_likeBinding t v caseSensitive)
  | .between c _ _ _, _, h => by
    cases h with
    | between _ _ hlow hhigh => exact bound_beside c (bound_pair hlow hhigh)
  | .inList c vs _, _, h => by
    cases h with
    | inList _ _ hvalues =>
      simp only [Target.predicateBindings]
      -- an empty list does not even bind its column
      cases hvalues with
      | nil => rfl
      | cons hv hrest => exact bound_beside c (bound_reworded (.cons hv hrest))
  | .inQuery c query _, _, h => by
    cases h with
    | inQuery _ _ hquery =>
      exact bound_beside c (congrArg bound (selectBindings_reworded t query hquery))
  | .datePart _ c _ _, _, h => by
    cases h with
    | datePart _ _ _ hv => exact bound_beside c hv.bound
  | .group inner, _, h => by
    cases h with
    | group hinner => exact clauseBindings_reworded t inner hinner
  | .hasRows query _, _, h => by
    cases h with
    | hasRows _ hquery => exact congrArg bound (selectBindings_reworded t query hquery)
  | .compareQuery c _ query, _, h => by
    cases h with
    | compareQuery _ _ hquery =>
      exact bound_beside c (congrArg bound (selectBindings_reworded t query hquery))
  | .rowValues _ _ _, _, h => by
    cases h with
    | rowValues _ _ hvalues =>
      simp only [Target.predicateBindings, bound_append, bound_reworded hvalues]
  | .jsonContains _ _ _, _, h => by
    cases h with
    | jsonContains _ _ hv =>
      simp only [Target.predicateBindings]
      cases hv <;> rfl
  | .jsonLength _ _ _, _, h => by
    cases h with
    | jsonLength _ _ hv => exact hv.bound
  | .fullText _ _ _, _, h => by
    cases h with
    | fullText _ _ hv => simp only [Target.predicateBindings, bound_append, hv.bound]
  | .raw _ _, _, h | .jsonBoolean _ _ _, _, h | .betweenColumns _ _ _ _, _, h
  | .inIntegers _ _ _, _, h | .isNull _, _, h | .isNotNull _, _, h
  | .compareColumns _ _ _, _, h | .jsonContainsKey _ _, _, h => by
    cases h
    rfl

/-- Conditions on rows, one by one. -/
theorem clauseBindings_reworded (t : Target) : (clauses : List (Clause Predicate)) →
    {clauses' : List (Clause Predicate)} → ClausesReworded clauses clauses' →
    bound (t.clauseBindings clauses) = bound (t.clauseBindings clauses')
  | [], _, h => by
    cases h
    rfl
  | ⟨_, node⟩ :: rest, _, h => by
    cases h with
    | cons _ hnode hrest =>
      simp only [Target.clauseBindings, bound_append]
      rw [predicateBindings_reworded t node hnode, clauseBindings_reworded t rest hrest]

/-- What a query binds does not depend on its raw expressions. -/
theorem selectBindings_reworded (t : Target) : (q : Query) → {q' : Query} → q.Reworded q' →
    t.selectBindings q = t.selectBindings q'
  | ⟨src, _, _, _, joins, wheres, _, _, _, _, _, _, unions, _, _, _⟩, _, h => by
    rw [Target.selectBindings_eq, Target.selectBindings_eq, Target.buckets, Target.buckets,
      arrange_reworded h]
    congr 2
    exact bucketsAround_reworded h (sourceBindings_reworded t src h.source)
      (joinsBindings_reworded t joins h.joins) (clauseBindings_reworded t wheres h.wheres)
      (branchBindings_reworded t unions h.unions)

end

/-- Clause by clause, two such queries bind the same values. -/
theorem buckets_reworded (t : Target) (h : q.Reworded q') : t.buckets q = t.buckets q' := by
  rw [Target.buckets, Target.buckets, arrange_reworded h]
  congr 1
  exact bucketsAround_reworded h (sourceBindings_reworded t _ h.source)
    (joinsBindings_reworded t _ h.joins) (clauseBindings_reworded t _ h.wheres)
    (branchBindings_reworded t _ h.unions)

/-! ## §3 What is never bound -/

theorem isRaw_of_bound {vs : List Value} (h : bound vs = vs) : ∀ v ∈ vs, v.isRaw = false := by
  intro v hv
  rw [← h] at hv
  simpa using List.of_mem_filter hv

/-- No bucket of a query holds a raw expression. -/
theorem bound_get_buckets (t : Target) (q : Query) (bucket : Bucket) :
    bound ((t.buckets q).get bucket) = (t.buckets q).get bucket := by
  unfold Target.buckets Target.arrange
  dsimp only
  -- numbering moves the orders as a whole, and every bucket was filtered before
  generalize t.numbersRows q _ = numbered
  cases numbered <;> cases bucket <;>
    simp [Buckets.get, Query.bucketsAround]

/-- No raw expression is in a bucket, and none among the values of several. -/
theorem bound_flattenOnly (t : Target) (q : Query) (buckets : List Bucket) :
    bound ((t.buckets q).flattenOnly buckets) = (t.buckets q).flattenOnly buckets := by
  simp only [Buckets.flattenOnly, bound_flatMap, bound_get_buckets]

/-- None is among assigned values between buckets either. -/
theorem bound_around (t : Target) (q : Query) (before after : List Bucket) (values : List Value) :
    bound ((t.buckets q).around before values after) =
      (t.buckets q).around before values after := by
  simp only [Buckets.around, bound_append, bound_flattenOnly, bound_bound]

end SqlCompiler
