import SqlCompiler.Proofs.InlinedPredicates

/-!
# Inlined Selects

Two queries that differ in nothing but raw expressions are laid out alike. Which clauses they have,
and how these are arranged, does not depend on raw expressions: a clause begins with its keyword, so
that it is no empty text whatever its raw expressions are.

## Main definitions

- `InlinesPart`: clauses with a common frame, both of them empty if one is
- `Query.componentMarkers`: the raw expressions of a clause
- `PartsInline`: the nested parts of two queries

## Main statements

- `InlinesPart.words`: clauses in a row
- `layout_inlines`, `finish_inlines`: a query around its parts
- `select_inlines`: a query, by recursion on it
-/

namespace SqlCompiler

open Sql

variable {t : Target} {q q' : Query} {ms ms' ns ns' : List String}

/-! ## §1 Clauses -/

/-- Two clauses with a common frame. Where one is empty the other one is as well, and there is no
raw expression that an empty clause could drop. -/
structure InlinesPart (ms ms' : List String) (a b : Sql) : Prop extends Inlines ms ms' a b where
  isEmpty : a.isEmpty = b.isEmpty
  nothing : a.isEmpty = true → ms = [] ∧ ms' = []

/-- SQL is empty if both of its parts are. -/
theorem Sql.isEmpty_append (a b : Sql) : (a ++ b).isEmpty = (a.isEmpty && b.isEmpty) :=
  Bool.eq_iff_iff.2 (by simp [Sql.isEmpty])

namespace InlinesPart

variable {a b c d : Sql}

/-- A clause beside itself. -/
theorem same (a : Sql) : InlinesPart [] [] a a :=
  ⟨.same a, rfl, fun _ => ⟨rfl, rfl⟩⟩

/-- Two parts of a clause. -/
theorem append (h : InlinesPart ms ms' a b) (h' : InlinesPart ns ns' c d) :
    InlinesPart (ms ++ ns) (ms' ++ ns') (a ++ c) (b ++ d) where
  toInlines := h.toInlines.append h'.toInlines
  isEmpty := by rw [isEmpty_append, isEmpty_append, h.isEmpty, h'.isEmpty]
  nothing := by
    intro hnone
    rw [isEmpty_append, Bool.and_eq_true] at hnone
    obtain ⟨rfl, rfl⟩ := h.nothing hnone.1
    exact h'.nothing hnone.2

/-- The same words in front of both. -/
theorem after (c : Sql) (h : InlinesPart ms ms' a b) : InlinesPart ms ms' (c ++ a) (c ++ b) :=
  (same c).append h

/-- The same words behind both. -/
theorem before (h : InlinesPart ms ms' a b) (c : Sql) : InlinesPart ms ms' (a ++ c) (b ++ c) := by
  simpa using h.append (same c)

/-- Behind something that is not empty there may stand any raw expressions. -/
theorem then_inlines (h : InlinesPart ms ms' a b) (ha : a.isEmpty = false)
    (h' : Inlines ns ns' c d) : InlinesPart (ms ++ ns) (ms' ++ ns') (a ++ c) (b ++ d) where
  toInlines := h.toInlines.append h'
  isEmpty := by
    rw [isEmpty_append, isEmpty_append, ← h.isEmpty, ha, Bool.false_and, Bool.false_and]
  nothing := by
    rw [isEmpty_append, ha]
    exact fun hnone => nomatch hnone

/-- A clause behind its keyword is not empty, whatever raw expressions it consists of. -/
theorem headed {c : Sql} (hc : c.isEmpty = false) (h : Inlines ms ms' a b) :
    InlinesPart ms ms' (c ++ a) (c ++ b) :=
  (same c).then_inlines hc h

/-- Clauses with single blanks between those that are not empty. -/
theorem words {as bs : List Sql} (h : Gathered InlinesPart ms ms' as bs) :
    InlinesPart ms ms' (Sql.words as) (Sql.words bs) := by
  induction h with
  | nil => exact same _
  | cons hab _ ih =>
    simp only [Sql.words, hab.isEmpty, ih.isEmpty]
    split
    · exact hab.append ih
    · exact (hab.before _).append ih

/-- Two clauses in a row. -/
theorem words_pair (h : InlinesPart ms ms' a b) (h' : InlinesPart ns ns' c d) :
    InlinesPart (ms ++ ns) (ms' ++ ns') (Sql.words [a, c]) (Sql.words [b, d]) := by
  have hwords := words (.cons h (.cons h' .nil))
  rwa [List.append_nil, List.append_nil] at hwords

end InlinesPart

/-- What has no raw expressions is compiled once for both. -/
theorem alike_part (x : Except Fault Sql) : Alike (InlinesPart [] []) x x :=
  .refl .same x

/-- Conditions behind their keyword. -/
theorem conditions_inlines {keyword : String} (hkeyword : keyword ≠ "")
    {xs ys : List (Clause Sql)} (h : Gathered InlinesClause ms ms' xs ys) :
    InlinesPart ms ms' (Target.conditions keyword xs) (Target.conditions keyword ys) := by
  unfold Target.conditions
  rw [h.isEmpty]
  split
  · rename_i hnone
    cases h with
    | nil => exact .same _
    | cons => cases hnone
  · exact .headed (by simp [Sql.isEmpty, hkeyword]) (.body h)

/-- The clause of conditions on groups, missing in both queries or in neither. -/
theorem havingClause_inlines {clauses clauses' : List (Clause HavingPredicate)}
    (h : HavingsReworded clauses clauses') :
    Alike (InlinesPart (havingMarkers clauses) (havingMarkers clauses'))
      (t.havingClause clauses) (t.havingClause clauses') := by
  unfold Target.havingClause
  cases h with
  | nil => exact alike_part _
  | cons connective hnode hrest =>
    exact (havingClauses_inlines t _ (.cons connective hnode hrest)).bind fun inner inner' hinner =>
      .pure (.headed (by simp [Sql.isEmpty]) (.body hinner))

/-! ## §2 Layout -/

/-- The raw expressions of a clause of a query. -/
def Query.componentMarkers (q : Query) : Component → List String
  | .source => sourceMarkers q.source
  | .joins => joinsMarkers q.joins
  | .wheres => clauseMarkers q.wheres
  | .havings => havingMarkers q.havings
  | _ => []

/-- The raw expressions of a query outside of the branches of its union. -/
def Query.bodyMarkers (q : Query) : List String :=
  sourceMarkers q.source ++ joinsMarkers q.joins ++ clauseMarkers q.wheres ++
    havingMarkers q.havings

/-- Branches are written behind everything else, and so are their raw expressions. -/
theorem Query.markers_body (q : Query) : q.markers = q.bodyMarkers ++ branchMarkers q.unions :=
  q.markers_eq

/-- Each dialect writes the clauses in its own order, but no raw expressions stand in those that
change places. -/
theorem bodyMarkers_eq (d : Dialect) (q : Query) :
    d.components.flatMap q.componentMarkers = q.bodyMarkers := by
  cases d <;> simp [Dialect.components, Query.componentMarkers, Query.bodyMarkers]

/-- The nested parts of two queries. -/
structure PartsInline (q q' : Query) (parts parts' : Parts) : Prop where
  source : Alike (InlinesPart (sourceMarkers q.source) (sourceMarkers q'.source))
    parts.source parts'.source
  joins : Alike (InlinesPart (joinsMarkers q.joins) (joinsMarkers q'.joins))
    parts.joins parts'.joins
  wheres : Alike (InlinesPart (clauseMarkers q.wheres) (clauseMarkers q'.wheres))
    parts.wheres parts'.wheres
  branches : Alike (InlinesPart (branchMarkers q.unions) (branchMarkers q'.unions))
    parts.branches parts'.branches

/-- The same clause of two queries, with its raw expressions. -/
structure InlinesComponent (q q' : Query) (ms ms' : List String) (x y : Component × Sql) :
    Prop extends InlinesPart ms ms' x.2 y.2 where
  component : x.1 = y.1
  markers : ms = q.componentMarkers x.1
  markers' : ms' = q'.componentMarkers x.1

section Layout

variable {parts parts' : Parts} {aggregate : Option Aggregate}

/-- Each clause around nested parts with common frames. -/
theorem component_inlines (hq : q.Reworded q') (h : PartsInline q q' parts parts')
    (aggregate : Option Aggregate) (c : Component) :
    Alike (InlinesPart (q.componentMarkers c) (q'.componentMarkers c))
      (t.component q aggregate parts c) (t.component q' aggregate parts' c) := by
  cases hq with
  | mk columns distinct _ groups orders limit offset lock _ _ _ hsource _ _ hhavings _ =>
    cases c with
    | source =>
      unfold Target.component
      cases hsource with
      | none => exact alike_part _
      | some htable =>
        refine h.source.bind fun table table' hparts => .pure ?_
        have hfrom := hparts.after "from "
        unfold Target.sourceClause
        split
        · have hhinted := hfrom.words_pair (.same (Target.lockHint lock))
          rwa [List.append_nil, List.append_nil] at hhinted
        · exact hfrom
    | joins => exact h.joins
    | wheres => exact h.wheres
    | havings => exact havingClause_inlines hhavings
    | _ => exact alike_part _

/-- The clauses of both queries: the same ones are left out. -/
theorem components_inlines (hq : q.Reworded q') (h : PartsInline q q' parts parts')
    (aggregate : Option Aggregate) :
    Alike (Gathered (InlinesComponent q q') q.bodyMarkers q'.bodyMarkers)
      (t.components q aggregate parts) (t.components q' aggregate parts') := by
  have hall : Alike (Gathered (InlinesComponent q q')
        (t.dialect.components.flatMap q.componentMarkers)
        (t.dialect.components.flatMap q'.componentMarkers))
      (t.dialect.components.mapM fun c => do return (c, ← t.component q aggregate parts c))
      (t.dialect.components.mapM fun c => do return (c, ← t.component q' aggregate parts' c)) := by
    refine Alike.gathered (List.forall₂_same.2 fun _ _ => rfl) fun c d hcd => ?_
    obtain rfl : c = d := hcd
    exact (component_inlines hq h aggregate c).bind fun sql sql' hsql =>
      .pure ⟨hsql, rfl, rfl, rfl⟩
  rw [bodyMarkers_eq, bodyMarkers_eq] at hall
  refine hall.bind fun clauses clauses' hclauses => .pure ?_
  -- a clause that is dropped for being empty has no raw expressions
  rw [← List.filterMap_eq_filter]
  refine hclauses.filterMap fun {_ _ x y} hxy => ?_
  have hsame : y.2.isEmpty = x.2.isEmpty := hxy.isEmpty.symm
  cases hnone : x.2.isEmpty with
  | true =>
    obtain ⟨rfl, rfl⟩ := hxy.nothing hnone
    exact .inl ⟨rfl, rfl, by simp [Option.guard, hnone], by simp [Option.guard, hsame, hnone]⟩
  | false =>
    exact .inr ⟨x, y, by simp [Option.guard, hnone], by simp [Option.guard, hsame, hnone], hxy⟩

/-- The branches; order and page of a union hold no raw expressions. -/
theorem unionsClause_inlines (hq : q.Reworded q') (h : PartsInline q q' parts parts') :
    Alike (InlinesPart (branchMarkers q.unions) (branchMarkers q'.unions))
      (t.unionsClause q parts.branches) (t.unionsClause q' parts'.branches) := by
  -- orders and page, which stand behind the branches, take nothing from raw expressions
  have hrow {a b : Sql} (hab : InlinesPart (branchMarkers q.unions) (branchMarkers q'.unions) a b)
      (rest : List Sql) : InlinesPart (branchMarkers q.unions) (branchMarkers q'.unions)
        (Sql.words (a :: rest)) (Sql.words (b :: rest)) := by
    have hwords := InlinesPart.words (.cons hab (.same .same rest))
    rwa [List.append_nil, List.append_nil] at hwords
  cases hq
  unfold Target.unionsClause
  split
  · exact .step _ fun page => .step _ fun orders => h.branches.bind fun sides sides' hsides =>
      .pure (hrow hsides _)
  · exact h.branches.bind fun sides sides' hsides => .step _ fun orders => .pure (hrow hsides _)

theorem unionSide_inlines {a b : Sql} (h : Inlines ms ms' a b) :
    Inlines ms ms' (t.unionSide a) (t.unionSide b) := by
  unfold Target.unionSide
  split
  · exact (h.after _).before _
  · exact ((h.after _).before _).before _
  · exact (h.after _).before _

/-- A select and its branches. -/
theorem withUnions_inlines (hq : q.Reworded q') (h : PartsInline q q' parts parts')
    {body body' : Sql} (hbody : Inlines q.bodyMarkers q'.bodyMarkers body body') :
    Alike (Inlines q.markers q'.markers) (t.withUnions q parts body)
      (t.withUnions q' parts' body') := by
  have hunions := hq.unions.isEmpty
  have hside := unionSide_inlines (t := t) hbody
  rw [Query.markers_body, Query.markers_body]
  unfold Target.withUnions
  cases hnone : q.unions.isEmpty with
  | true =>
    rw [hnone] at hunions
    rw [List.isEmpty_iff.1 hnone, List.isEmpty_iff.1 hunions.symm]
    simpa [branchMarkers] using Alike.pure hbody
  | false =>
    rw [hnone] at hunions
    simp only [← hunions, Bool.false_eq_true, if_false]
    exact (unionsClause_inlines hq h).bind fun sides sides' hsides =>
      .pure ((hside.before _).append hsides.toInlines)

/-- The clauses of a query in a row. -/
theorem plainLayout_inlines (hq : q.Reworded q') (h : PartsInline q q' parts parts')
    (aggregate : Option Aggregate) :
    Alike (Inlines q.markers q'.markers) (t.plainLayout q aggregate parts)
      (t.plainLayout q' aggregate parts') :=
  (components_inlines hq h aggregate).bind fun _ _ hclauses =>
    withUnions_inlines hq h
      (InlinesPart.words (hclauses.map fun hc => hc.toInlinesPart)).toInlines

/-- The order that row numbers go by has no raw expressions among its values. -/
theorem find_orders_inlines {clauses clauses' : List (Component × Sql)}
    (h : Gathered (InlinesComponent q q') ms ms' clauses clauses') :
    InlinesPart [] []
      (match clauses.find? fun (c, _) => c == .orders with
        | some (_, sql) => sql
        | none => "order by (select 0)")
      (match clauses'.find? fun (c, _) => c == .orders with
        | some (_, sql) => sql
        | none => "order by (select 0)") := by
  induction h with
  | nil => exact .same _
  | @cons _ _ _ _ x y _ _ hxy _ ih =>
    obtain ⟨c, sql⟩ := x
    obtain ⟨d, sql'⟩ := y
    obtain rfl : c = d := hxy.component
    simp only [List.find?_cons]
    cases hc : c == Component.orders with
    | false => exact ih
    -- an order is the same in both queries, so it has no markers
    | true =>
      obtain rfl : c = .orders := eq_of_beq hc
      obtain rfl : _ = [] := hxy.markers
      obtain rfl : _ = [] := hxy.markers'
      exact hxy.toInlinesPart

/-- Row numbers over the same order. -/
theorem numberedLayout_inlines (hq : q.Reworded q') (h : PartsInline q q' parts parts') :
    Alike (Inlines q.markers q'.markers) (t.numberedLayout q parts)
      (t.numberedLayout q' parts') := by
  have hrange : Target.rowNumberRange q = Target.rowNumberRange q' := by
    cases hq
    rfl
  unfold Target.numberedLayout
  rw [hrange]
  refine (components_inlines hq h none).bind fun clauses clauses' hclauses => ?_
  have horders := find_orders_inlines hclauses
  extract_lets orders inner orders' inner'
  -- each clause is kept, dropped or extended for its kind
  have hinner : Gathered InlinesPart q.bodyMarkers q'.bodyMarkers inner inner' := by
    refine hclauses.filterMap fun {_ _ x y} hxy => ?_
    obtain ⟨c, sql⟩ := x
    obtain ⟨d, sql'⟩ := y
    obtain rfl : c = d := hxy.component
    cases c with
    | orders | limit | offset => exact .inl ⟨hxy.markers, hxy.markers', rfl, rfl⟩
    | columns =>
      refine .inr ⟨_, _, rfl, rfl, ?_⟩
      have hnumbered := ((hxy.toInlinesPart.before ", row_number() over (").append
        horders).before ") as row_num"
      rwa [List.append_nil, List.append_nil] at hnumbered
    | _ => exact .inr ⟨sql, sql', rfl, rfl, hxy.toInlinesPart⟩
  exact withUnions_inlines hq h
    (((((InlinesPart.words hinner).toInlines.after _).before _).before _).before _)

/-- The layout is chosen by the page, the dialect and the presence of an order. -/
theorem layout_inlines (hq : q.Reworded q') (h : PartsInline q q' parts parts')
    (aggregate : Option Aggregate) :
    Alike (Inlines q.markers q'.markers) (t.layout q aggregate parts)
      (t.layout q' aggregate parts') := by
  have hlimit : q'.limit = q.limit := by rw [hq.eq_with]
  have hoffset : q'.offset = q.offset := by rw [hq.eq_with]
  have horders : q'.orders = q.orders := by rw [hq.eq_with]
  have hskipped : q'.skipped = q.skipped := by rw [Query.skipped, Query.skipped, hoffset]
  have hnumbers : t.numbersRows q' aggregate = t.numbersRows q aggregate := by
    rw [Target.numbersRows, Target.numbersRows, hskipped, hlimit]
  -- two of the layouts are plain ones for a query with another order or offset
  have hpaged {orders orders' : List SortKey} {offset offset' : Option UInt64}
      (ho : orders' = orders) (hs : offset' = offset) : Alike (Inlines q.markers q'.markers)
        (t.plainLayout { q with orders := orders, offset := offset } aggregate parts)
        (t.plainLayout { q' with orders := orders', offset := offset' } aggregate parts') := by
    subst ho hs
    have hplain := plainLayout_inlines (t := t) (hq.withPage orders' offset')
      ⟨h.source, h.joins, h.wheres, h.branches⟩ aggregate
    simpa only [Query.markers_eq] using hplain
  -- SQL Server lays pages out in ways of its own; which one it takes depends on no raw expression
  unfold Target.layout
  split
  · by_cases hempty : q.limit = some 0 ∧ 0 < q.skipped
    · have hempty' : q'.limit = some 0 ∧ 0 < q'.skipped := by rwa [hlimit, hskipped]
      rw [if_pos hempty, if_pos hempty']
      exact hpaged horders rfl
    · have hempty' : ¬(q'.limit = some 0 ∧ 0 < q'.skipped) := by rwa [hlimit, hskipped]
      rw [if_neg hempty, if_neg hempty', hnumbers]
      by_cases hnumbered : t.numbersRows q aggregate = true
      · rw [if_pos hnumbered, if_pos hnumbered]
        exact numberedLayout_inlines hq h
      · rw [if_neg hnumbered, if_neg hnumbered]
        by_cases hfree : 0 < q.skipped ∧ q.orders.isEmpty = true
        · have hfree' : 0 < q'.skipped ∧ q'.orders.isEmpty = true := by rwa [hskipped, horders]
          rw [if_pos hfree, if_pos hfree']
          exact hpaged rfl hoffset
        · have hfree' : ¬(0 < q'.skipped ∧ q'.orders.isEmpty = true) := by rwa [hskipped, horders]
          rw [if_neg hfree, if_neg hfree']
          exact plainLayout_inlines hq h aggregate
  · exact plainLayout_inlines hq h aggregate

/-- A query around its parts, with its aggregate beside or around them. -/
theorem finish_inlines (hq : q.Reworded q') (h : PartsInline q q' parts parts') :
    Alike (Inlines q.markers q'.markers) (t.finish q parts) (t.finish q' parts') := by
  have haggregate : q'.aggregate = q.aggregate := by rw [hq.eq_with]
  have hdistinct : q'.distinct = q.distinct := by rw [hq.eq_with]
  have hover : Target.aggregatesOverRows q' = Target.aggregatesOverRows q := by
    rw [Target.aggregatesOverRows, Target.aggregatesOverRows, haggregate, hq.unions.isEmpty,
      hq.havings.isEmpty]
  unfold Target.finish
  rw [haggregate, hdistinct, hover]
  split
  · split
    · exact .step _ fun head => (layout_inlines hq h none).bind fun rows rows' hrows =>
        .pure (((hrows.after _).before _).before _)
    · exact layout_inlines hq h _
  · exact layout_inlines hq h none

end Layout

/-! ## §3 Nested parts -/

/-- A lateral join around its table. -/
theorem lateralJoin_inlines (kind : JoinKind) {tbl tbl' : Sql} (h : InlinesPart ms ms' tbl tbl') :
    Alike (InlinesPart ms ms') (t.lateralJoin kind tbl) (t.lateralJoin kind tbl') := by
  unfold Target.lateralJoin
  split
  · exact .result ((h.after _).before _)
  · exact .result ((h.after _).before _)
  · exact .result (h.after _)
  · exact .fault _
  · exact .fault _

/-- Something that stands alone, or in front of others where there are any. -/
theorem row_inlines {alone : Bool} {a b c d : Sql} (h : InlinesPart ms ms' a b)
    (hrest : InlinesPart ns ns' c d) (hnone : alone = true → ns = [] ∧ ns' = []) :
    InlinesPart (ms ++ ns) (ms' ++ ns') (if alone then a else a ++ " " ++ c)
      (if alone then b else b ++ " " ++ d) := by
  cases alone with
  | true =>
    obtain ⟨rfl, rfl⟩ := hnone rfl
    simpa using h
  | false => exact (h.before " ").append hrest

/-- A joined table, in parentheses with the tables that are joined to it first. -/
theorem joined_inlines {joins joins' : List Join} {tbl tbl' inner inner' : Sql}
    (hjoins : JoinsReworded joins joins') (htable : InlinesPart ms ms' tbl tbl')
    (hinner : InlinesPart (joinsMarkers joins) (joinsMarkers joins') inner inner') :
    InlinesPart (ms ++ joinsMarkers joins) (ms' ++ joinsMarkers joins')
      (if joins'.isEmpty then tbl else "(" ++ tbl ++ " " ++ inner ++ ")")
      (if joins'.isEmpty then tbl' else "(" ++ tbl' ++ " " ++ inner' ++ ")") := by
  split
  · rename_i hnone
    rw [(hjoins.nothing hnone).1, (hjoins.nothing hnone).2, List.append_nil, List.append_nil]
    exact htable
  · exact (((htable.after "(").before " ").append hinner).before ")"

mutual

/-- A table, by recursion on the query that it is derived from. -/
theorem table_inlines (t : Target) : (tbl : Table) → {tbl' : Table} → tbl.Reworded tbl' →
    Alike (InlinesPart tbl.markers tbl'.markers) (t.table tbl) (t.table tbl')
  | .named _, _, h => by
    cases h
    exact alike_part _
  | .raw _ _, _, h => by
    cases h
    exact alike_part _
  | .derived query _, _, h => by
    cases h with
    | derived _ hquery =>
      simp only [Target.table, Table.markers]
      exact (select_inlines t query hquery).bind fun select select' hselect =>
        .pure (((InlinesPart.headed (by simp [Sql.isEmpty]) hselect).before _).before _)

theorem source_inlines (t : Target) : (src : Option Table) → {src' : Option Table} →
    SourceReworded src src' →
    Alike (InlinesPart (sourceMarkers src) (sourceMarkers src')) (t.source src) (t.source src')
  | none, _, h => by
    cases h
    exact alike_part _
  | some tbl, _, h => by
    cases h with
    | some htable =>
      simp only [Target.source, sourceMarkers]
      exact table_inlines t tbl htable

/-- A joined table: the inner joins come in front of the conditions. -/
theorem join_inlines (t : Target) : (j : Join) → {j' : Join} → j.Reworded j' →
    Alike (InlinesPart j.markers j'.markers) (t.join j) (t.join j')
  | ⟨kind, tbl, on, inner, lateral⟩, _, h => by
    cases h with
    | mk _ _ htable hon hinner =>
      simp only [Target.join, Join.markers, hinner.isEmpty, htable.isDerived, hon.isEmpty]
      refine (table_inlines t tbl htable).bind fun table table' htbl => ?_
      refine (joins_inlines t inner hinner).bind fun joins joins' hjoins => ?_
      have hjoined := joined_inlines hinner htbl hjoins
      split
      · split
        · exact .fault _
        · split
          · exact .fault _
          · -- a lateral join has no conditions that could hold raw expressions
            rename_i hbare
            have hnone := hon.nothing (by simpa using hbare)
            rw [hnone.1, hnone.2, List.append_nil, List.append_nil]
            exact lateralJoin_inlines kind hjoined
      · refine (clauses_inlines t on hon).bind fun conditions conditions' hconditions => .pure ?_
        have hrow := InlinesPart.words (.cons (.same (kind.keyword ++ " join"))
          (.cons hjoined (.cons (conditions_inlines (show "on" ≠ "" by decide) hconditions) .nil)))
        rwa [List.append_nil, List.append_nil] at hrow

/-- Joined tables, one by one. -/
theorem joins_inlines (t : Target) : (joins : List Join) → {joins' : List Join} →
    JoinsReworded joins joins' →
    Alike (InlinesPart (joinsMarkers joins) (joinsMarkers joins')) (t.joins joins) (t.joins joins')
  | [], _, h => by
    cases h
    simp only [Target.joins, joinsMarkers]
    exact alike_part _
  | j :: rest, _, h => by
    cases h with
    | cons hj hrest =>
      simp only [Target.joins, joinsMarkers, hrest.isEmpty]
      refine (join_inlines t j hj).bind fun first first' hfirst => ?_
      exact (joins_inlines t rest hrest).bind fun others others' hothers =>
        .pure (row_inlines hfirst hothers hrest.nothing)

/-- The branches of a union, one by one. -/
theorem branches_inlines (t : Target) : (branches : List UnionBranch) →
    {branches' : List UnionBranch} → BranchesReworded branches branches' →
    Alike (InlinesPart (branchMarkers branches) (branchMarkers branches')) (t.branches branches)
      (t.branches branches')
  | [], _, h => by
    cases h
    simp only [Target.branches, branchMarkers]
    exact alike_part _
  | ⟨query, all⟩ :: rest, _, h => by
    cases h with
    | cons _ hquery hrest =>
      simp only [Target.branches, branchMarkers, hrest.isEmpty]
      refine (select_inlines t query hquery).bind fun select select' hselect => ?_
      refine (branches_inlines t rest hrest).bind fun others others' hothers => .pure ?_
      have hbranch := unionSide_inlines (t := t) hselect
      exact row_inlines (.headed (by cases all <;> decide) hbranch) hothers hrest.nothing

/-- The raw expressions of a condition on rows stand verbatim in its SQL. -/
theorem predicate_inlines (t : Target) : (p : Predicate) → {p' : Predicate} → p.Reworded p' →
    Alike (Inlines p.markers p'.markers) (t.predicate p) (t.predicate p')
  | .raw _ _, _, h => by
    cases h
    exact alike_same _
  | .compare c operator _, _, h => by
    cases h with
    | compare _ _ hv => exact compare_inlines c operator hv
  | .bitwise c operator _, _, h => by
    cases h with
    | bitwise _ _ hv => exact bitwise_inlines c operator hv
  | .jsonBoolean _ _ _, _, h => by
    cases h
    exact alike_same _
  | .like c _ caseSensitive negated, _, h => by
    cases h with
    | like _ _ _ hv => exact like_inlines c caseSensitive negated hv
  | .between c _ _ negated, _, h => by
    cases h with
    | between _ _ hlow hhigh => exact between_inlines c negated hlow hhigh
  | .betweenColumns _ _ _ _, _, h => by
    cases h
    exact alike_same _
  | .inList c _ negated, _, h => by
    cases h with
    | inList _ _ hvalues => exact inList_inlines c negated hvalues
  | .inQuery _ query _, _, h => by
    cases h with
    | inQuery _ _ hquery =>
      simp only [Target.predicate, Predicate.markers]
      exact .step _ fun left => (select_inlines t query hquery).bind fun select select' hselect =>
        .pure ((hselect.after _).before _)
  | .inIntegers _ _ _, _, h => by
    cases h
    exact alike_same _
  | .isNull _, _, h => by
    cases h
    exact alike_same _
  | .isNotNull _, _, h => by
    cases h
    exact alike_same _
  | .datePart part c operator _, _, h => by
    cases h with
    | datePart _ _ _ hv => exact datePart_inlines part c operator hv
  | .group inner, _, h => by
    cases h with
    | group hinner =>
      simp only [Target.predicate, Predicate.markers, hinner.isEmpty]
      split
      · exact .fault _
      · exact (clauses_inlines t inner hinner).bind fun body body' hbody =>
          .pure (((Inlines.body hbody).after _).before _)
  | .hasRows query _, _, h => by
    cases h with
    | hasRows _ hquery =>
      simp only [Target.predicate, Predicate.markers]
      exact (select_inlines t query hquery).bind fun select select' hselect =>
        .pure ((hselect.after _).before _)
  | .compareQuery _ _ query, _, h => by
    cases h with
    | compareQuery _ _ hquery =>
      simp only [Target.predicate, Predicate.markers]
      exact .step _ fun left => (select_inlines t query hquery).bind fun select select' hselect =>
        .pure ((hselect.after _).before _)
  | .compareColumns _ _ _, _, h => by
    cases h
    exact alike_same _
  | .rowValues columns operator _, _, h => by
    cases h with
    | rowValues _ _ hvalues => exact rowValues_inlines columns operator hvalues
  | .jsonContains selector _ negated, _, h => by
    cases h with
    | jsonContains _ _ hv => exact jsonContains_inlines selector negated hv
  | .jsonContainsKey _ _, _, h => by
    cases h
    exact alike_same _
  | .jsonLength selector operator _, _, h => by
    cases h with
    | jsonLength _ _ hv => exact jsonLength_inlines selector operator hv
  | .fullText columns _ options, _, h => by
    cases h with
    | fullText _ _ hv => exact fullText_inlines columns options hv

/-- Conditions on rows, one by one. -/
theorem clauses_inlines (t : Target) : (clauses : List (Clause Predicate)) →
    {clauses' : List (Clause Predicate)} → ClausesReworded clauses clauses' →
    Alike (Gathered InlinesClause (clauseMarkers clauses) (clauseMarkers clauses'))
      (t.clauses clauses) (t.clauses clauses')
  | [], _, h => by
    cases h
    simp only [clauseMarkers, Target.clauses]
    exact .result .nil
  | ⟨_, node⟩ :: rest, _, h => by
    cases h with
    | cons _ hnode hrest =>
      simp only [clauseMarkers, Target.clauses]
      refine (predicate_inlines t node hnode).bind fun first first' hfirst => ?_
      exact (clauses_inlines t rest hrest).bind fun others others' hothers =>
        .pure (.cons ⟨rfl, hfirst⟩ hothers)

/-- The raw expressions of a query stand verbatim in its SQL, in a frame that does not depend on
them. -/
theorem select_inlines (t : Target) : (q : Query) → {q' : Query} → q.Reworded q' →
    Alike (Inlines q.markers q'.markers) (t.select q) (t.select q')
  | ⟨src, _, _, _, joins, wheres, _, _, _, _, _, _, unions, _, _, _⟩, _, h => by
    rw [Target.select_eq, Target.select_eq]
    refine finish_inlines h ?_
    refine ⟨?_, ?_, ?_, ?_⟩
    · exact source_inlines t src h.source
    · exact joins_inlines t joins h.joins
    · exact (clauses_inlines t wheres h.wheres).bind fun clauses clauses' hclauses =>
        .pure (conditions_inlines (by decide) hclauses)
    · exact branches_inlines t unions h.unions

end

end SqlCompiler
