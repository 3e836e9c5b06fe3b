import SqlCompiler.Proofs.InlinedInserts
import SqlCompiler.Proofs.WriteAlignment

/-!
# Inlined Statements

A raw expression among the values of a statement stands verbatim in its SQL and is never bound.
Statements that differ in nothing but raw expressions have the same fault, or they bind the same
values and have a common frame, whose holes hold the raw expressions of the one and of the other.

The JSON assignments of SQLite are the exception: their values are merged into a document that is
bound, raw expressions among them as JSON strings.

## Main definitions

- `Statement.closing`: what becomes of the text of a statement at its end
- `InlinesStatement`: two statements that bind the same and have a common frame

## Main statements

- `assignments_inlines`, `update_inlines`, `delete_inlines`: updates and deletes
- `compile_inlines`: statements of every kind
- `rawPatch_bound`: a raw expression among the JSON assignments of SQLite
-/

namespace SqlCompiler

open Sql

variable {t : Target} {q q' : Query} {row row' : Row} {ms ms' ns ns' : List String}

/-! ## §1 Assignments -/

/-- Lists of pieces one behind the other. -/
theorem Gathered.append {α : Type} {R : List String → List String → α → α → Prop}
    {as bs cs ds : List α} (h : Gathered R ms ms' as bs) (h' : Gathered R ns ns' cs ds) :
    Gathered R (ms ++ ns) (ms' ++ ns') (as ++ cs) (bs ++ ds) := by
  induction h with
  | nil => exact h'
  | cons hab _ ih =>
    rw [List.append_assoc, List.append_assoc]
    exact .cons hab ih

/-- An assignment to a column. -/
theorem assignment_inlines (name key : String) {v w : Value} (h : v.Reworded w) :
    Alike (Inlines (rawTexts [v]) (rawTexts [w])) (t.assignment name key v)
      (t.assignment name key w) :=
  .step _ fun _ => .pure ((Inlines.parameterFor h _ _).after _)

/-- What is no raw expression is the same in both statements. -/
theorem inlines_of_place {f : Value → Sql} {before after : Sql}
    (hf : ∀ sql, f (.raw sql) = before ++ Sql.parameter (.raw sql) ++ after) {v w : Value}
    (h : v.Reworded w) : Inlines (rawTexts [v]) (rawTexts [w]) (f v) (f w) := by
  cases h with
  | raw sql sql' =>
    rw [hf, hf]
    exact ((Inlines.parameter (.raw sql sql')).after _).before _
  | same =>
    cases v with
    | raw sql =>
      rw [hf]
      exact ((Inlines.parameter (.same (.raw sql))).after _).before _
    | _ => exact .same _

/-- An assignment into a document of MySQL: a raw expression is no container, so it is not cast. -/
theorem setDocument_inlines (key : String) {v w : Value} (h : v.Reworded w) :
    Inlines (rawTexts [v]) (rawTexts [w]) (t.setDocument key v) (t.setDocument key w) :=
  inlines_of_place (fun _ => rfl) h

/-- An assignment into a document of PostgreSQL. -/
theorem setJsonb_inlines (key : String) {v w : Value} (h : v.Reworded w) :
    Alike (Inlines (rawTexts [v]) (rawTexts [w])) (t.setJsonb key v) (t.setJsonb key w) := by
  unfold Target.setJsonb
  split
  · exact absurd ‹_› (Text.splitOn_ne_nil arrow key)
  · exact .step _ fun field => .pure (((Inlines.parameterFor h _ _).after _).before _)

/-- The raw expressions of entries, one entry at a time. -/
theorem rawTexts_entries (entries : List (String × Value)) :
    (entries.flatMap fun entry => rawTexts [entry.2]) = rawTexts (entries.map Prod.snd) := by
  induction entries with
  | nil => rfl
  | cons entry rest ih =>
    rw [List.flatMap_cons, ih]
    exact (rawTexts_cons entry.2 _).symm

/-- Assignments that are written entry by entry. -/
theorem entries_inlines {f : String × Value → Except Fault Sql} {es es' : List (String × Value)}
    (h : List.Forall₂ EntryReworded es es')
    (hf : ∀ key {v w : Value}, v.Reworded w →
      Alike (Inlines (rawTexts [v]) (rawTexts [w])) (f (key, v)) (f (key, w))) :
    Alike (Gathered Inlines (rawTexts (es.map Prod.snd)) (rawTexts (es'.map Prod.snd)))
      (es.mapM f) (es'.mapM f) := by
  rw [← rawTexts_entries, ← rawTexts_entries]
  refine Alike.gathered h fun e e' he => ?_
  obtain ⟨key, hv⟩ := he
  exact hf key hv

/-- Entries are chosen by their columns. -/
theorem entries_filter {es es' : List (String × Value)} (h : List.Forall₂ EntryReworded es es')
    (p : String → Bool) :
    List.Forall₂ EntryReworded (es.filter fun entry => p entry.1)
      (es'.filter fun entry => p entry.1) := by
  refine List.rel_filter ?_ h
  rintro _ _ ⟨key, _⟩
  exact Iff.rfl

/-- The raw expressions that an update assigns stand verbatim in its SQL, those in the documents of
SQLite left aside. -/
theorem assignments_inlines (h : row.Reworded row')
    (hpatches : t.dialect = .sqlite → documentPatches row = documentPatches row') :
    Alike (Inlines (t.assignedMarkers row) (t.assignedMarkers row')) (t.assignments row)
      (t.assignments row') := by
  unfold Target.assignments Target.assignedMarkers Row.values
  cases ht : t.dialect with
  | generic | sqlserver =>
    exact (entries_inlines h fun key _ _ hv => assignment_inlines key key hv).bind
      fun parts parts' hparts => .pure (.join ", " hparts)
  | mysql =>
    refine (entries_inlines h fun key v w hv => ?_).bind fun parts parts' hparts =>
      .pure (.join ", " hparts)
    dsimp only
    split
    · exact .result (setDocument_inlines key hv)
    · exact assignment_inlines key key hv
  | postgres =>
    refine (entries_inlines h fun key v w hv => ?_).bind fun parts parts' hparts =>
      .pure (.join ", " hparts)
    dsimp only
    split
    · exact setJsonb_inlines _ hv
    · exact assignment_inlines _ key hv
  | sqlite =>
    rw [hpatches ht]
    refine (entries_inlines (entries_filter h fun key => !isSelector key) fun key v w hv =>
      assignment_inlines (unqualified key) key hv).bind fun plain plain' hparts => ?_
    refine .step _ fun merged => .pure (.join ", " ?_)
    have hall := hparts.append (.same .same merged)
    rwa [List.append_nil, List.append_nil] at hall

/-- The values of assignments are bound alike, those in the documents of SQLite left aside. -/
theorem assignedValues_reworded (h : row.Reworded row')
    (hpatches : t.dialect = .sqlite → documentPatches row = documentPatches row') :
    bound (t.assignedValues row) = bound (t.assignedValues row') := by
  -- value by value: a raw expression is bound in neither list, any other value in both
  have hvalues {es es' : List (String × Value)} (hes : List.Forall₂ EntryReworded es es') :
      bound (es.map fun entry => t.assignedValue entry.1 entry.2) =
        bound (es'.map fun entry => t.assignedValue entry.1 entry.2) := by
    induction hes with
    | nil => rfl
    | cons he _ ih =>
      obtain ⟨key, hv⟩ := he
      rw [List.map_cons, List.map_cons, bound_cons, ih]
      exact (congrArg (· ++ _) (hv.bound_map (isRaw_assignedValue t key))).trans
        (bound_cons _ _).symm
  unfold Target.assignedValues
  cases ht : t.dialect with
  | generic | sqlserver | postgres => exact hvalues h
  | mysql =>
    -- a boolean that stands in the text is no raw expression
    refine hvalues (List.rel_filter ?_ h)
    rintro _ _ ⟨key, hv⟩
    cases hv <;> rfl
  | sqlite =>
    rw [bound_append, bound_append, hpatches ht]
    exact congrArg (· ++ _) (hvalues (entries_filter h fun key => !isSelector key))

/-! ## §2 Updates and deletes -/

/-- Whether there are joins or a limit is not a matter of raw expressions. -/
theorem hasJoinsOrLimit_reworded (hq : q.Reworded q') :
    q'.hasJoinsOrLimit = q.hasJoinsOrLimit := by
  have hjoins := hq.joins.isEmpty
  rw [Query.hasJoinsOrLimit, Query.hasJoinsOrLimit, hjoins, hq.eq_with]

/-- So both queries are written with identifiers of rows, or neither is. -/
theorem usesRowIds_reworded (hq : q.Reworded q') : t.usesRowIds q' = t.usesRowIds q := by
  rw [Target.usesRowIds, Target.usesRowIds, hasJoinsOrLimit_reworded hq]

/-- The limit in front of a write is the same. -/
theorem writeTop_reworded (hq : q.Reworded q') : t.writeTop q' = t.writeTop q := by
  have hlimit : q'.limit = q.limit := by rw [hq.eq_with]
  rw [Target.writeTop, Target.writeTop, hlimit]

/-- Order and limit behind a write hold no raw expressions. -/
theorem writeOrder_reworded (hq : q.Reworded q') : t.writeOrder q' = t.writeOrder q := by
  have hlimit : q'.limit = q.limit := by rw [hq.eq_with]
  have horders : q'.orders = q.orders := by rw [hq.eq_with]
  rw [Target.writeOrder, Target.writeOrder, hlimit, horders]

/-- A clause that a statement cannot carry is found for its presence alone. -/
theorem checkWrite_reworded (hq : q.Reworded q') (write : RowWrite) :
    t.checkWrite q' write = t.checkWrite q write := by
  have hjoins := hq.joins.isEmpty
  have hhavings := hq.havings.isEmpty
  have hunions := hq.unions.isEmpty
  have hlimit : q'.limit = q.limit := by rw [hq.eq_with]
  have hgroups : q'.groups = q.groups := by rw [hq.eq_with]
  have hskipped : q'.skipped = q.skipped := by
    rw [hq.eq_with]
    rfl
  simp only [Target.checkWrite, usesRowIds_reworded hq, Query.unrendered?, Target.carriesLimit,
    hjoins, hhavings, hunions, hlimit, hgroups, hskipped]

/-- The conditions of both queries behind their keyword. -/
theorem wheresClause_inlines (t : Target) (hq : q.Reworded q') :
    Alike (InlinesPart (clauseMarkers q.wheres) (clauseMarkers q'.wheres))
      (t.wheresClause q.wheres) (t.wheresClause q'.wheres) :=
  (clauses_inlines t q.wheres hq.wheres).bind fun _ _ hclauses =>
    .pure (conditions_inlines (by decide) hclauses)

/-- The condition that a row is among those of a query holds the raw expressions of the query. -/
theorem rowIdCondition_inlines (t : Target) (hq : q.Reworded q') :
    Alike (Inlines q.markers q'.markers) (t.rowIdCondition q) (t.rowIdCondition q') := by
  -- the select of row identifiers takes over all clauses that can hold raw expressions
  have hids {tbl tbl' : Table} (htable : tbl.Reworded tbl') :
      (t.rowIdQuery q tbl).Reworded (t.rowIdQuery q' tbl') := by
    have hname : Target.tableAlias tbl = Target.tableAlias tbl' := by cases htable <;> rfl
    unfold Target.rowIdQuery
    rw [hname]
    obtain ⟨_, _, _, _, _, _, _, _, _, _, _, hsource, hjoins, hwheres, hhavings, hunions⟩ := hq
    exact .mk _ _ _ _ _ _ _ _ _ _ _ hsource hjoins hwheres hhavings hunions
  have hmarkers (r : Query) (tbl : Table) : (t.rowIdQuery r tbl).markers = r.markers := by
    rw [Query.markers_eq, Query.markers_eq]
    rfl
  have hsource := hq.source
  unfold Target.rowIdCondition
  generalize q.source = src at hsource
  generalize q'.source = src' at hsource
  cases hsource with
  | none => exact .fault _
  | some htable =>
    refine .step _ fun rowId => (select_inlines t _ (hids htable)).bind fun rows rows' hrows => ?_
    rw [hmarkers, hmarkers] at hrows
    exact .pure ((hrows.after _).before _)

/-- Two texts that have a common frame but for trailing blanks. -/
structure InlinesTrimmed (ms ms' : List String) (a b : Sql) : Prop where
  framed : ∃ s s', Framed ms ms' s s' ∧ a.text = Text.trimEnd s ∧ b.text = Text.trimEnd s'

/-- A common frame, up to the trailing blanks of both texts. -/
theorem Inlines.trimEnd {a b : Sql} (h : Inlines ms ms' a b) :
    InlinesTrimmed ms ms' a.trimEnd b.trimEnd :=
  ⟨_, _, h.framed, text_trimEnd a, text_trimEnd b⟩

/-- A statement with the clauses behind its head. -/
theorem clauses_behind {a b c d : Sql} (h : InlinesPart ms ms' a b) (h' : InlinesPart ns ns' c d)
    (tail : List Sql) :
    Inlines (ms ++ ns) (ms' ++ ns') (Sql.words (Sql.words [a, c] :: tail))
      (Sql.words (Sql.words [b, d] :: tail)) := by
  have hwords := InlinesPart.words (.cons (h.words_pair h') (.same .same tail))
  rw [List.append_nil, List.append_nil] at hwords
  exact hwords.toInlines

/-- Two updates whose documents are the same have a common frame with the raw expressions in their
places. -/
theorem update_inlines (t : Target) (hq : q.Reworded q') (h : row.Reworded row')
    (hpatches : t.dialect = .sqlite → documentPatches row = documentPatches row') :
    Alike (InlinesTrimmed ((Statement.update row).markers t q)
        ((Statement.update row').markers t q')) (t.update q row) (t.update q' row') := by
  unfold Target.update Statement.markers
  simp only [checkWrite_reworded hq, usesRowIds_reworded hq, writeTop_reworded hq,
    writeOrder_reworded hq, ← hq.joins.isEmpty, ← h.isEmpty]
  by_cases hnone : row.isEmpty = true
  · simp only [hnone, if_true]
    exact .fault _
  simp only [hnone, Bool.false_eq_true, if_false]
  refine .step _ fun _ => ?_
  refine (writeTable_inlines t hq).bind fun tbl tbl' htable => ?_
  refine (assignments_inlines h hpatches).bind fun assigned assigned' hassigned => ?_
  refine (wheresClause_inlines t hq).bind fun wheres wheres' hwheres => ?_
  have hpart := htable.toInlinesPart
  -- rows are chosen by a query of their ids, or by joins and conditions of the statement itself
  cases hids : t.usesRowIds q with
  | true =>
    simp only [if_true]
    refine (rowIdCondition_inlines t hq).bind fun rows rows' hrows => .pure (Inlines.trimEnd ?_)
    exact ((((hpart.toInlines.after _).before _).append hassigned).before _).append hrows
  | false =>
    simp only [Bool.false_eq_true, if_false]
    cases hsingle : q.joins.isEmpty with
    | true =>
      have hjoins := hq.joins.nothing (hq.joins.isEmpty.symm.trans hsingle)
      have hserver : ¬(t.dialect = .sqlserver ∧ q.joins ≠ []) := fun hj =>
        hj.2 (List.isEmpty_iff.1 hsingle)
      have hserver' : ¬(t.dialect = .sqlserver ∧ q'.joins ≠ []) := fun hj =>
        hj.2 (List.isEmpty_iff.1 (hq.joins.isEmpty.symm.trans hsingle))
      rw [if_neg hserver, if_neg hserver', hjoins.1, hjoins.2, List.append_nil, List.append_nil]
      refine .step _ fun tail => .pure (Inlines.trimEnd ?_)
      exact clauses_behind (((hpart.after _).before _).then_inlines (by simp [Sql.isEmpty])
        hassigned) hwheres tail
    | false =>
      have hjoined : q.joins ≠ [] := fun hj => by simp [hj] at hsingle
      have hjoined' : q'.joins ≠ [] := fun hj => by
        simp [hq.joins.isEmpty, hj] at hsingle
      refine (joins_inlines t q.joins hq.joins).bind fun joins joins' hjoins => ?_
      -- SQL Server writes the joins behind the assignments, the others in front of them
      cases ht : t.dialect with
      | sqlserver =>
        rw [if_pos ⟨rfl, hjoined⟩, if_pos ⟨rfl, hjoined'⟩, htable.name]
        refine .pure (InlinesPart.words_pair ?_ hwheres).toInlines.trimEnd
        exact ((((InlinesPart.headed (by simp [Sql.isEmpty]) hassigned).before _).append
          hpart).before _).append hjoins
      | generic | mysql | postgres | sqlite =>
        rw [if_neg (fun hj => nomatch hj.1), if_neg (fun hj => nomatch hj.1)]
        refine .pure (InlinesPart.words_pair ?_ hwheres).toInlines.trimEnd
        exact ((((hpart.after _).before _).append hjoins).before _).then_inlines
          (by simp [Sql.isEmpty]) hassigned

/-- Two deletes have a common frame. -/
theorem delete_inlines (t : Target) (hq : q.Reworded q') :
    Alike (InlinesTrimmed (Statement.delete.markers t q) (Statement.delete.markers t q'))
      (t.delete q) (t.delete q') := by
  unfold Target.delete Statement.markers
  simp only [checkWrite_reworded hq, usesRowIds_reworded hq, writeTop_reworded hq,
    writeOrder_reworded hq, ← hq.joins.isEmpty]
  refine .step _ fun _ => ?_
  refine (writeTable_inlines t hq).bind fun tbl tbl' htable => ?_
  refine (wheresClause_inlines t hq).bind fun wheres wheres' hwheres => ?_
  have hpart := htable.toInlinesPart
  cases hids : t.usesRowIds q with
  | true =>
    simp only [if_true]
    refine (rowIdCondition_inlines t hq).bind fun rows rows' hrows => .pure (Inlines.trimEnd ?_)
    exact ((hpart.toInlines.after _).before _).append hrows
  | false =>
    simp only [Bool.false_eq_true, if_false]
    cases hsingle : q.joins.isEmpty with
    | true =>
      have hjoins := hq.joins.nothing (hq.joins.isEmpty.symm.trans hsingle)
      rw [hjoins.1, hjoins.2, List.append_nil, List.append_nil]
      exact .step _ fun tail => .pure (clauses_behind (hpart.after _) hwheres tail).trimEnd
    | false =>
      refine (joins_inlines t q.joins hq.joins).bind fun joins joins' hjoins => ?_
      rw [htable.name]
      refine .pure (InlinesPart.words_pair ?_ hwheres).toInlines.trimEnd
      exact ((hpart.after _).before _).append hjoins

/-! ## §3 Bindings of updates and deletes -/

/-- An update binds the same values, if the documents that it binds are the same. -/
theorem updateBindings_reworded (hq : q.Reworded q') (h : row.Reworded row')
    (hpatches : t.dialect = .sqlite → documentPatches row = documentPatches row') :
    t.updateBindings q (t.buckets q) row = t.updateBindings q' (t.buckets q') row' := by
  have haround (b : Buckets) (before after : List Bucket) :
      b.around before (t.assignedValues row) after =
        b.around before (t.assignedValues row') after := by
    rw [Buckets.around, Buckets.around, assignedValues_reworded h hpatches]
  unfold Target.updateBindings Target.rowIdBuckets
  simp only [buckets_reworded t hq, hasJoinsOrLimit_reworded hq, hq.joins.isEmpty, haround]

/-- A delete binds the same values. -/
theorem deleteBindings_reworded (hq : q.Reworded q') :
    t.deleteBindings q (t.buckets q) = t.deleteBindings q' (t.buckets q') := by
  unfold Target.deleteBindings Target.rowIdBuckets
  simp only [buckets_reworded t hq, hasJoinsOrLimit_reworded hq, hq.joins.isEmpty]

/-- No raw expression is bound by an update. -/
theorem isRaw_of_updateBindings (t : Target) (q : Query) (row : Row) :
    ∀ v ∈ t.updateBindings q (t.buckets q) row, v.isRaw = false := by
  refine isRaw_of_bound ?_
  unfold Target.updateBindings
  dsimp only
  split
  case h_5 => split <;> exact bound_around ..
  all_goals exact bound_around ..

/-- A delete binds no raw expression. -/
theorem isRaw_of_deleteBindings (t : Target) (q : Query) :
    ∀ v ∈ t.deleteBindings q (t.buckets q), v.isRaw = false := by
  refine isRaw_of_bound ?_
  unfold Target.deleteBindings
  split
  case h_3 => split <;> exact bound_flattenOnly ..
  all_goals exact bound_flattenOnly ..

/-! ## §4 Questions and truncation -/

/-- Two questions for a row differ as their queries do. -/
theorem probe_reworded (hq : q.Reworded q') :
    (Target.probe q).Reworded (Target.probe q') := by
  cases hq with
  | mk _ _ _ _ _ _ _ _ _ _ _ hsource hjoins hwheres hhavings hunions =>
    exact .mk _ _ _ _ _ _ _ _ _ _ _ hsource hjoins hwheres hhavings hunions

/-- The question for a row has the raw expressions of the query. -/
theorem markers_probe (q : Query) : (Target.probe q).markers = q.markers := by
  rw [Query.markers_eq, Query.markers_eq]
  rfl

/-- Two questions for a row have a common frame. -/
theorem hasRows_inlines (t : Target) (hq : q.Reworded q') :
    Alike (Inlines q.markers q'.markers) (t.hasRows q) (t.hasRows q') := by
  unfold Target.hasRows
  split
  · have hprobe := select_inlines t _ (probe_reworded hq)
    rwa [markers_probe, markers_probe] at hprobe
  · exact (select_inlines t q hq).bind fun rows rows' hrows => .step _ fun name =>
      .pure ((((hrows.after _).before _).before _))

theorem hasRowsBindings_reworded (hq : q.Reworded q') :
    t.hasRowsBindings q = t.hasRowsBindings q' := by
  unfold Target.hasRowsBindings
  rw [selectBindings_reworded t q hq, selectBindings_reworded t _ (probe_reworded hq)]

theorem isRaw_of_hasRowsBindings (t : Target) (q : Query) :
    ∀ v ∈ t.hasRowsBindings q, v.isRaw = false := by
  refine isRaw_of_bound ?_
  unfold Target.hasRowsBindings
  split <;> exact bound_selectBindings ..

/-! ## §5 Statements -/

/-- What becomes of the text of a statement at its end: updates and deletes end in no blanks. -/
def Statement.closing : Statement → String → String
  | .update _ | .delete => Text.trimEnd
  | _ => id

/-- Two statements that bind the same values, no raw expression among them, and whose texts have a
common frame up to what becomes of them at their end. -/
structure InlinesStatement (ms ms' : List String) (close : String → String) (c c' : Compiled) :
    Prop where
  bindings : c.bindings = c'.bindings
  isRaw : ∀ v ∈ c.bindings, v.isRaw = false
  framed : ∃ s s', Framed ms ms' s s' ∧ c.sql = close s ∧ c'.sql = close s'

section Pairs

variable {a b : Sql} {vs vs' : List Value}

/-- A statement with its values beside it. -/
theorem Inlines.pair (h : Inlines ms ms' a b) (hvs : vs = vs') (hraw : ∀ v ∈ vs, v.isRaw = false) :
    InlinesStatement ms ms' id (Target.pair a vs) (Target.pair b vs') :=
  ⟨hvs, hraw, _, _, h.framed, rfl, rfl⟩

/-- The same without trailing blanks. -/
theorem InlinesTrimmed.pair (h : InlinesTrimmed ms ms' a b) (hvs : vs = vs')
    (hraw : ∀ v ∈ vs, v.isRaw = false) :
    InlinesStatement ms ms' Text.trimEnd (Target.pair a vs) (Target.pair b vs') :=
  ⟨hvs, hraw, h.framed⟩

end Pairs

/-- The same values bound, no raw expression among them. -/
structure SameBindings (vs vs' : List Value) : Prop where
  eq : vs = vs'
  isRaw : ∀ v ∈ vs, v.isRaw = false

/-- Bindings may have a fault of their own. -/
theorem alike_bindings {values values' : Except Fault (List Value)} (h : values = values')
    (hraw : ∀ vs, values = .ok vs → ∀ v ∈ vs, v.isRaw = false) :
    Alike SameBindings values values' := by
  subst h
  cases values with
  | error e => exact .fault e
  | ok vs => exact .result ⟨rfl, hraw vs rfl⟩

/-- Inserts report uneven rows alike, and bind the same values. -/
theorem insertBindings_alike {rows rows' : Rows} (h : rows.Reworded rows') :
    Alike SameBindings (Target.insertBindings rows) (Target.insertBindings rows') :=
  alike_bindings (insertBindings_reworded h) fun _ => isRaw_of_insertBindings

/-- An insert of its own. -/
theorem compileInsert_inlines (t : Target) (hq : q.Reworded q') {rows rows' : Rows}
    (h : rows.Reworded rows') :
    Alike (InlinesStatement (sourceMarkers q.source ++ rows.markers)
        (sourceMarkers q'.source ++ rows'.markers) id) (t.compileInsert q rows)
      (t.compileInsert q' rows') :=
  (insert_inlines t hq h).bind fun _ _ hsql =>
    (insertBindings_alike h).bind fun _ _ hvalues => .pure (hsql.pair hvalues.eq hvalues.isRaw)

/-- The table that SQLite empties is named. -/
theorem truncate_inlines (t : Target) (hq : q.Reworded q') :
    Alike (List.Forall₂ (InlinesStatement (sourceMarkers q.source) (sourceMarkers q'.source) id))
      (t.truncate q) (t.truncate q') := by
  have htable := writeTable_inlines t hq
  unfold Target.truncate
  cases t.dialect with
  | postgres =>
    exact htable.bind fun tbl tbl' hwritten => .pure (.cons
      ((((hwritten.toInlines.after _).before _).before _).pair rfl nofun) .nil)
  | sqlite =>
    have hsource := hq.source
    generalize q.source = src at hsource
    generalize q'.source = src' at hsource
    cases hsource with
    | none => exact .fault _
    | some htable =>
      cases htable with
      | raw sql bindings => exact .fault _
      | derived asName hquery => exact .fault _
      | named name =>
        exact .pure (.cons ((Inlines.same _).pair rfl (by simp [Value.isRaw]))
          (.cons ((Inlines.same _).pair rfl nofun) .nil))
  | generic | mysql | sqlserver =>
    exact htable.bind fun tbl tbl' hwritten => .pure (.cons
      ((hwritten.toInlines.after _).pair rfl nofun) .nil)

/-- Statements that differ in nothing but the SQL of raw expressions have the same fault, or their
compilations bind the same values, none of them raw, and have a common frame whose holes hold the
raw expressions of each of them. In SQLite the documents that JSON assignments bind are to be the
same. -/
theorem compile_inlines (t : Target) {s s' : Statement} (hq : q.Reworded q') (hs : s.Reworded s')
    (hpatches : t.dialect = .sqlite → s.patches = s'.patches) :
    Alike (List.Forall₂ (InlinesStatement (s.markers t q) (s'.markers t q') s.closing))
      (t.compile q s) (t.compile q' s') := by
  cases hs with
  | select =>
    exact (select_inlines t q hq).bind fun sql sql' hsql => .pure (.cons
      (hsql.pair (selectBindings_reworded t q hq) (isRaw_of_bound (bound_selectBindings t q)))
      .nil)
  | hasRows =>
    exact (hasRows_inlines t hq).bind fun sql sql' hsql => .pure (.cons
      (hsql.pair (hasRowsBindings_reworded hq) (isRaw_of_hasRowsBindings t q)) .nil)
  | insert h =>
    exact (compileInsert_inlines t hq h).bind fun _ _ hinsert => .pure (.cons hinsert .nil)
  | insertOrIgnore h =>
    exact (insertOrIgnore_inlines t hq h).bind fun sql sql' hsql =>
      (insertBindings_alike h).bind fun vs vs' hvalues => .pure (.cons
        (hsql.pair hvalues.eq hvalues.isRaw) .nil)
  | insertGetId key h =>
    exact (insertGetId_inlines t hq h key).bind fun sql sql' hsql =>
      (insertBindings_alike h).bind fun vs vs' hvalues => .pure (.cons
        (hsql.pair hvalues.eq hvalues.isRaw) .nil)
  | insertUsing columns h =>
    exact (insertUsing_inlines t hq h columns).bind fun sql sql' hsql => .pure (.cons
      (hsql.pair (selectBindings_reworded t _ h) (isRaw_of_bound (bound_selectBindings t _)))
      .nil)
  | @upsert uniqueBy rows rows' update update' h hupdate =>
    unfold Target.compile
    cases hupdate with
    | nil =>
      -- with nothing to update there are no assignments, and no raw expressions in them
      have hinsert := (compileInsert_inlines t hq h).bind
        (S := List.Forall₂ (InlinesStatement _ _ _)) fun _ _ hinsert => .pure (.cons hinsert .nil)
      simpa [Statement.markers, Statement.closing] using hinsert
    | cons hfirst hrest =>
      exact (upsert_inlines t hq h uniqueBy (.cons hfirst hrest)).bind fun sql sql' hsql =>
        (alike_bindings (upsertBindings_reworded h (.cons hfirst hrest))
          fun _ => isRaw_of_upsertBindings).bind fun vs vs' hvalues => .pure (.cons
            (hsql.pair hvalues.eq hvalues.isRaw) .nil)
  | update h =>
    exact (update_inlines t hq h hpatches).bind fun sql sql' hsql => .pure (.cons
      (hsql.pair (updateBindings_reworded hq h hpatches) (isRaw_of_updateBindings t q _)) .nil)
  | delete =>
    exact (delete_inlines t hq).bind fun sql sql' hsql => .pure (.cons
      (hsql.pair (deleteBindings_reworded hq) (isRaw_of_deleteBindings t q)) .nil)
  | truncate => exact truncate_inlines t hq

/-! ## §6 Documents of SQLite -/

/-- Documents in which no raw expression is stored do not depend on raw expressions. -/
theorem documentPatches_reworded (h : row.Reworded row')
    (hraw : ∀ entry ∈ row.entries, isSelector entry.1 = true → entry.2.isRaw = false) :
    documentPatches row = documentPatches row' := by
  have hsame : (row.entries.filter fun entry => isSelector entry.1) =
      row'.entries.filter fun entry => isSelector entry.1 := by
    obtain ⟨entries⟩ := row
    obtain ⟨entries'⟩ := row'
    dsimp only [Row.Reworded] at h hraw ⊢
    induction h with
    | nil => rfl
    | cons he _ ih =>
      obtain ⟨key, hv⟩ := he
      have hrest := ih fun entry hentry => hraw entry (List.mem_cons_of_mem _ hentry)
      rw [List.filter_cons, List.filter_cons, hrest]
      by_cases hkey : isSelector key = true
      · -- stored in a document, the value is no raw expression, so it is the same one
        simp only [hkey, hv.eq_of_not_raw (hraw _ List.mem_cons_self hkey)]
      · simp only [hkey]
        rfl
  exact congrArg (List.foldl _ []) hsame

/-- Sessions that were last seen before some time. -/
def sessionsBefore (time : String) : Query :=
  { Query.empty with
    source := some (.named "sessions")
    wheres := [⟨.and, .compare (.named "seen_at") "<" (.raw time)⟩] }

/-- The end of a session, with a note of it in a document. -/
def endedAt (time : String) : Row :=
  ⟨[("meta->state", .text "ended"), ("ended_at", .raw time)]⟩

/-- Two texts in the place of one raw expression: the update sets the one or the other, and binds
the same. -/
theorem compile_endedAt_inlines :
    let t : Target := ⟨.sqlite, {}⟩
    let run (time past : String) := t.compile (sessionsBefore past) (.update (endedAt time))
    (∃ out, run "datetime()" "'1999'" = .ok out) ∧
    (Statement.update (endedAt "datetime()")).markers t (sessionsBefore "'1999'") =
      ["datetime()", "'1999'"] ∧
    Alike (List.Forall₂ (InlinesStatement ["datetime()", "'1999'"] ["max(seen_at)", "date('now')"]
        Text.trimEnd))
      (run "datetime()" "'1999'") (run "max(seen_at)" "date('now')") := by
  have hquery (past past' : String) : (sessionsBefore past).Reworded (sessionsBefore past') :=
    .mk _ _ _ _ _ _ _ _ _ _ _ (.some (.named _)) .nil
      (.cons _ (.compare _ _ (.raw past past')) .nil) .nil .nil
  have hrow (time time' : String) : (endedAt time).Reworded (endedAt time') :=
    .cons (.mk _ (.same _)) (.cons (.mk _ (.raw time time')) .nil)
  refine ⟨⟨_, rfl⟩, rfl,
    compile_inlines ⟨.sqlite, {}⟩ (hquery _ _) (.update (hrow _ _)) fun _ => ?_⟩
  exact documentPatches_reworded (hrow _ _) (by decide)

/-- Users whose document is updated with a raw expression. -/
def users : Query :=
  { Query.empty with source := some (.named "users") }

/-- A raw expression that SQLite merges into a document is bound as part of it, and does not stand
in the statement. -/
theorem rawPatch_bound :
    let t : Target := ⟨.sqlite, {}⟩
    let patched (sql : String) : Row := ⟨[("meta->a", .raw sql)]⟩
    (patched "now()").Reworded (patched "uuid()") ∧
    ∃ out out', t.compile users (.update (patched "now()")) = .ok [out] ∧
      t.compile users (.update (patched "uuid()")) = .ok [out'] ∧
      out.sql = "update \"users\" set \"meta\" = " ++
        "json_patch(ifnull(\"meta\", json('\x7b\x7d')), json(?))" ∧
      out.bindings = [.text "\x7b\"a\":\"now()\"\x7d"] ∧
      out'.sql = out.sql ∧ out'.bindings = [.text "\x7b\"a\":\"uuid()\"\x7d"] :=
  ⟨.cons (.mk _ (.raw _ _)) .nil, _, _, rfl, rfl, by decide +kernel,
    congrArg (fun doc => [Value.text doc]) (by decide +kernel), by decide +kernel,
    congrArg (fun doc => [Value.text doc]) (by decide +kernel)⟩

end SqlCompiler
