import SqlCompiler.Proofs.MaskedInserts
import SqlCompiler.Proofs.WriteAlignment

/-!
# Independence of the Text from Bound Values

Two runs of the compiler on inputs that differ in bound values alone end alike: with the same fault,
or with the same texts and as many bindings. So no bound value gets into the text of a statement.
The one place where a value is looked at is an assignment into a JSON document in MySQL, which
writes booleans out and casts documents.

## Main definitions

- `DocumentClass`: what MySQL looks at in a value that is assigned into a document
- `SameAssignment`: two assignments to one key that are written alike
- `Compiled.shape`: the text of a statement and the number of its bindings

## Main statements

- `documentPatches_columns`: which documents SQLite merges is a matter of the keys
- `assignments_alike`: the assignments of two rows that agree
- `update_alike`, `delete_mask`: updates and deletes
- `compile_text_independent`: the two-run property of all statements
-/

namespace SqlCompiler

open Sql

variable {t : Target} {q : Query}

/-! ## §1 Assignments that agree -/

/-- What can be told apart of the values assigned into a document in MySQL. -/
inductive DocumentClass where
  | boolean (b : Bool)
  /-- An array or an object. -/
  | container
  | other
deriving DecidableEq, Repr

/-- The class of a value that is assigned into a document. -/
def Value.documentClass (v : Value) : DocumentClass :=
  match v with
  | .bool b => .boolean b
  | _ => if v.isContainer then .container else .other

/-- Whether the value of an entry is bound in MySQL is seen in its class. -/
theorem placedEntry_eq (key : String) (v : Value) :
    placedEntry (key, v) =
      !(isSelector key && (match v.documentClass with | .boolean _ => true | _ => false)) := by
  cases v with
  | json doc =>
    cases hdoc : doc.isContainer <;>
      simp [placedEntry, Value.documentClass, Value.isContainer, hdoc]
  | _ => rfl

/-- The classes of the values that a row assigns into documents. -/
def Row.documentClasses (row : Row) : List (Option DocumentClass) :=
  row.entries.map fun (key, v) => if isSelector key then some v.documentClass else none

/-- Two assignments to one key whose values differ at most in what is bound. -/
inductive SameAssignment (t : Target) : String × Value → String × Value → Prop where
  | assignment (key : String) {v w : Value} (value : v.mask = w.mask)
      (document : t.dialect = .mysql → isSelector key = true → v.documentClass = w.documentClass) :
      SameAssignment t (key, v) (key, w)

/-- Values with the same mask are raw alike. -/
theorem raw?_eq_of_mask {v w : Value} (h : v.mask = w.mask) : v.raw? = w.raw? := by
  rw [← Value.raw?_mask v, h, Value.raw?_mask]

theorem isRaw_eq_of_mask {v w : Value} (h : v.mask = w.mask) : v.isRaw = w.isRaw := by
  rw [← Value.isRaw_mask v, h, Value.isRaw_mask]

/-- Rows that are the same once masked, and whose documents keep their classes in MySQL, agree
assignment by assignment. -/
theorem sameAssignments {row row' : Row} (hmask : row.mask = row'.mask)
    (hclass : t.dialect = .mysql → row.documentClasses = row'.documentClasses) :
    List.Forall₂ (SameAssignment t) row.entries row'.entries := by
  obtain ⟨entries⟩ := row
  obtain ⟨entries'⟩ := row'
  simp only [Row.mask, maskEntries, Row.mk.injEq, Row.documentClasses] at hmask hclass
  induction entries generalizing entries' with
  | nil =>
    cases entries' with
    | nil => exact .nil
    | cons => cases hmask
  | cons e rest ih =>
    cases entries' with
    | nil => cases hmask
    | cons e' rest' =>
      simp only [List.map_cons, List.cons.injEq, Prod.mk.injEq] at hmask hclass
      obtain ⟨key, v⟩ := e
      obtain ⟨key', w⟩ := e'
      obtain ⟨⟨rfl, hvalue⟩, hrest⟩ := hmask
      refine .cons (.assignment key hvalue fun ht hselector => ?_)
        (ih rest' (fun ht => (hclass ht).2) hrest)
      have hfirst := (hclass ht).1
      rw [if_pos hselector, if_pos hselector] at hfirst
      exact Option.some.inj hfirst

/-- Assignments picked by their keys agree. -/
theorem sameAssignments_filter {es es' : List (String × Value)}
    (h : List.Forall₂ (SameAssignment t) es es') (p : String → Bool) :
    List.Forall₂ (SameAssignment t) (es.filter fun (key, _) => p key)
      (es'.filter fun (key, _) => p key) := by
  refine List.rel_filter ?_ h
  rintro _ _ ⟨key, _, _⟩
  exact Iff.rfl

/-! ## §2 Texts of assignments -/

/-- How MySQL writes a value that is assigned into a document. -/
def documentText (cls : DocumentClass) (operand : String) : String :=
  match cls with
  | .boolean b => if b then "true" else "false"
  | .container => "cast(" ++ operand ++ " as json)"
  | .other => operand

theorem text_setDocument (t : Target) (key : String) (v : Value) :
    (t.setDocument key v).text =
      (t.fieldAndPath key).1 ++ " = json_set(" ++ (t.fieldAndPath key).1 ++
        (t.fieldAndPath key).2 ++ ", " ++
        documentText v.documentClass (v.raw?.getD "?") ++ ")" := by
  cases v with
  | json doc =>
    cases hdoc : doc.isContainer <;>
      simp [Target.setDocument, Value.documentClass, documentText, Value.isContainer, Value.raw?,
        hdoc]
  | bool b =>
    cases b <;> simp [Target.setDocument, Value.documentClass, documentText]
  | _ =>
    simp [Target.setDocument, Value.documentClass, documentText, Value.isContainer, Value.raw?]

/-- MySQL writes an assignment into a document by the class of its value. -/
theorem setDocument_alike {key : String} {v w : Value} (hmask : v.mask = w.mask)
    (hclass : v.documentClass = w.documentClass) :
    SameText (t.setDocument key v) (t.setDocument key w) :=
  ⟨by rw [text_setDocument, text_setDocument, hclass, raw?_eq_of_mask hmask]⟩

theorem setJsonb_alike {column : String} {v w : Value} (hmask : v.mask = w.mask) :
    Alike SameText (t.setJsonb column v) (t.setJsonb column w) := by
  unfold Target.setJsonb
  split
  · exact alike_refl _
  · exact .step _ fun field => .pure ⟨by simp [raw?_eq_of_mask hmask]⟩

theorem assignment_alike {name key key' : String} {v w : Value} (hmask : v.mask = w.mask) :
    Alike SameText (t.assignment name key v) (t.assignment name key' w) :=
  .step _ fun column => .pure ⟨by simp [raw?_eq_of_mask hmask]⟩

/-- A merged document is bound as text, whatever it holds. -/
theorem mergePatch_alike (column : String) (doc doc' : Json) :
    Alike SameText (t.mergePatch column doc) (t.mergePatch column doc') :=
  .step _ fun name => .pure ⟨by simp [Value.raw?]⟩

/-- Storing a value changes the columns of merged documents by its column alone. -/
theorem patch_columns (root : String) (path path' : List String) (v w : Json)
    {patches patches' : List (String × Json)} (h : patches.map Prod.fst = patches'.map Prod.fst) :
    (patch root path v patches).map Prod.fst = (patch root path' w patches').map Prod.fst := by
  induction patches generalizing patches' with
  | nil =>
    cases patches' with
    | nil => rfl
    | cons => cases h
  | cons p rest ih =>
    cases patches' with
    | nil => cases h
    | cons p' rest' =>
      -- both runs stop at this column, or both go on to the next one
      simp only [List.map_cons, List.cons.injEq] at h
      obtain ⟨hcolumn, hrest⟩ := h
      simp only [patch, hcolumn]
      split
      · simp [hrest]
      · simp [ih hrest]

/-- Stores an assignment in the merged documents. -/
def addPatch (patches : List (String × Json)) : String × Value → List (String × Json) :=
  fun (key, v) => patch (patchTarget key).1 (patchTarget key).2 v.toJson patches

theorem documentPatches_eq (row : Row) :
    documentPatches row =
      (row.entries.filter fun (key, _) => isSelector key).foldl addPatch [] := rfl

/-- Assignments into documents go to the same columns. -/
theorem documentPatches_columns {row row' : Row}
    (h : List.Forall₂ (SameAssignment t) row.entries row'.entries) :
    (documentPatches row).map Prod.fst = (documentPatches row').map Prod.fst := by
  -- the columns seen so far are the same in both runs, and stay the same with every assignment
  have hfold : ∀ {es es' : List (String × Value)} {done done' : List (String × Json)},
      List.Forall₂ (SameAssignment t) es es' → done.map Prod.fst = done'.map Prod.fst →
      (es.foldl addPatch done).map Prod.fst = (es'.foldl addPatch done').map Prod.fst := by
    intro es es' done done' hes hdone
    induction hes generalizing done done' with
    | nil => exact hdone
    | cons he _ ih =>
      obtain ⟨key, _, _⟩ := he
      exact ih (patch_columns _ _ _ _ _ hdone)
  rw [documentPatches_eq, documentPatches_eq]
  exact hfold (sameAssignments_filter h isSelector) rfl

/-- The assignments of rows that agree read alike. -/
theorem assignments_alike {row row' : Row}
    (h : List.Forall₂ (SameAssignment t) row.entries row'.entries) :
    Alike SameText (t.assignments row) (t.assignments row') := by
  have hjoin : ∀ {x y : Except Fault (List Sql)}, Alike (List.Forall₂ SameText) x y →
      Alike SameText (do return Sql.join ", " (← x)) (do return Sql.join ", " (← y)) :=
    fun hxy => hxy.bind fun _ _ hparts => .pure (.join ", " hparts)
  unfold Target.assignments
  cases ht : t.dialect with
  | generic | sqlserver =>
    refine hjoin (Alike.mapM h ?_)
    rintro _ _ ⟨key, hvalue, _⟩
    exact assignment_alike hvalue
  | mysql =>
    -- the only dialect that writes by the class of a value
    refine hjoin (Alike.mapM h ?_)
    rintro _ _ ⟨key, hvalue, hdocument⟩
    by_cases hkey : isSelector key = true
    · simp only [hkey, if_true]
      exact .result (setDocument_alike hvalue (hdocument ht hkey))
    · simp only [hkey]
      exact assignment_alike hvalue
  | postgres =>
    refine hjoin (Alike.mapM h ?_)
    rintro _ _ ⟨key, hvalue, _⟩
    by_cases hkey : isSelector key = true
    · simp only [hkey, if_true]
      exact setJsonb_alike hvalue
    · simp only [hkey]
      exact assignment_alike hvalue
  | sqlite =>
    have hplain := sameAssignments_filter h fun key => !isSelector key
    have hmerged : List.Forall₂ (fun p p' => p.1 = p'.1) (documentPatches row)
        (documentPatches row') := by
      have hcolumns := documentPatches_columns h
      rw [← List.forall₂_eq_eq_eq, List.forall₂_map_left_iff,
        List.forall₂_map_right_iff] at hcolumns
      exact hcolumns
    refine Alike.bind (R := List.Forall₂ SameText) (Alike.mapM hplain ?plain) fun plain plain' hp =>
      Alike.bind (R := List.Forall₂ SameText) (Alike.mapM hmerged ?merged) fun merged merged' hm =>
        .pure (.join ", " (List.rel_append hp hm))
    case plain =>
      rintro _ _ ⟨key, hvalue, _⟩
      exact assignment_alike hvalue
    case merged =>
      rintro ⟨column, doc⟩ ⟨_, doc'⟩ rfl
      exact mergePatch_alike column doc doc'

/-! ## §3 Values of assignments -/

/-- The values assigned by rows that agree are raw in the same places. -/
theorem assignedValues_alike {row row' : Row}
    (h : List.Forall₂ (SameAssignment t) row.entries row'.entries) :
    rawness (t.assignedValues row) = rawness (t.assignedValues row') := by
  have hvalues : ∀ {es es' : List (String × Value)}, List.Forall₂ (SameAssignment t) es es' →
      rawness (es.map fun (key, v) => t.assignedValue key v) =
        rawness (es'.map fun (key, v) => t.assignedValue key v) := by
    intro es es' hes
    induction hes with
    | nil => rfl
    | cons he _ ih =>
      obtain ⟨key, hvalue, _⟩ := he
      simp only [List.map_cons, rawness_cons, isRaw_assignedValue, isRaw_eq_of_mask hvalue, ih]
  unfold Target.assignedValues
  cases ht : t.dialect with
  | generic | sqlserver | postgres => exact hvalues h
  | mysql =>
    -- a boolean that stands in the text is a boolean in both rows
    refine hvalues (List.rel_filter ?_ h)
    rintro _ _ @⟨key, v, w, _, hdocument⟩
    have hplaced : placedEntry (key, v) = placedEntry (key, w) := by
      by_cases hkey : isSelector key = true
      · rw [placedEntry_eq, placedEntry_eq, hdocument ht hkey]
      · simp [placedEntry, hkey]
    exact Iff.of_eq (congrArg (· = true) hplaced)
  | sqlite =>
    have hplain := sameAssignments_filter h fun key => !isSelector key
    have hmerged : (documentPatches row).length = (documentPatches row').length := by
      have hcolumns := congrArg List.length (documentPatches_columns h)
      simpa using hcolumns
    -- a merged document is bound, whatever it holds
    rw [rawness_append, rawness_append, hvalues hplain,
      rawness_map_bound (fun _ => rfl) (documentPatches row),
      rawness_map_bound (fun _ => rfl) (documentPatches row'), hmerged]

/-! ## §4 Updates and deletes -/

theorem usesRowIds_mask (t : Target) (q : Query) : t.usesRowIds q.mask = t.usesRowIds q := by
  simp [Target.usesRowIds]

/-- A clause that a statement cannot carry is found for its presence alone. -/
theorem checkWrite_mask (t : Target) (q : Query) (write : RowWrite) :
    t.checkWrite q.mask write = t.checkWrite q write := by
  have hunrendered : ∀ limitAllowed,
      q.mask.unrendered? limitAllowed = q.unrendered? limitAllowed := by
    intro limitAllowed
    have hgroups : q.mask.groups.isEmpty = q.groups.isEmpty := by
      rw [Query.mask_eq]
      exact maskColumns_isEmpty q.groups
    simp [Query.unrendered?, hgroups]
  have hcarries : t.carriesLimit q.mask = t.carriesLimit q := by simp [Target.carriesLimit]
  simp [Target.checkWrite, usesRowIds_mask, hunrendered, hcarries]

theorem wheresClause_mask (t : Target) (q : Query) :
    Alike SameText (t.wheresClause q.mask.wheres) (t.wheresClause q.wheres) := by
  rw [Query.mask_eq]
  exact (clauses_mask t q.wheres).bind fun clauses clauses' hclauses =>
    .pure (conditions_mask "where" hclauses)

theorem writeOrder_mask (t : Target) (q : Query) :
    Alike (List.Forall₂ SameText) (t.writeOrder q.mask) (t.writeOrder q) := by
  unfold Target.writeOrder
  split
  · rw [Query.orders_mask, Query.limit_mask]
    exact (ordersClause_mask q.orders).bind fun orders orders' horders =>
      .pure (.cons horders (.cons (.refl _) .nil))
  · exact .pure .nil

/-- The query for row identifiers is masked as the query itself. -/
theorem rowIdQuery_mask (t : Target) (q : Query) (tbl : Table) :
    t.rowIdQuery q.mask tbl.mask = (t.rowIdQuery q tbl).mask := by
  have halias : Target.tableAlias tbl.mask = Target.tableAlias tbl := by cases tbl <;> rfl
  unfold Target.rowIdQuery
  rw [halias]
  cases q
  rfl

theorem rowIdCondition_mask (t : Target) (q : Query) :
    Alike SameText (t.rowIdCondition q.mask) (t.rowIdCondition q) := by
  have hsource : q.mask.source = maskSource q.source := by rw [Query.mask_eq]
  unfold Target.rowIdCondition
  rw [hsource]
  cases q.source with
  | none => exact .fault _
  | some tbl =>
    simp only [maskSource, rowIdQuery_mask]
    exact .step _ fun rowId => (select_mask t _).bind fun rows rows' hselect =>
      .pure (.append (.append (.refl _) hselect) (.refl _))

theorem writeTop_mask (t : Target) (q : Query) : t.writeTop q.mask = t.writeTop q := by
  unfold Target.writeTop
  rw [Query.limit_mask]

theorem update_alike (t : Target) (q : Query) {row row' : Row}
    (h : List.Forall₂ (SameAssignment t) row.entries row'.entries) :
    Alike SameText (t.update q.mask row) (t.update q row') := by
  have hempty : row.isEmpty = row'.isEmpty := by
    unfold Row.isEmpty
    rw [Bool.eq_iff_iff, List.isEmpty_iff_length_eq_zero, List.isEmpty_iff_length_eq_zero,
      h.length_eq]
  unfold Target.update
  rw [checkWrite_mask, hempty, usesRowIds_mask, writeTop_mask, Query.joins_mask, maskJoins_isEmpty]
  by_cases hnone : row'.isEmpty = true
  · simp only [hnone, if_true]
    exact .fault _
  simp only [hnone, Bool.false_eq_true, if_false]
  -- from here on the two runs are taken step by step, and then layout by layout
  refine .step _ fun _ => ?_
  refine (writeTable_mask t q).bind fun tbl tbl' htbl => ?_
  refine (assignments_alike h).bind fun assigned assigned' hassigned => ?_
  refine (wheresClause_mask t q).bind fun wheres wheres' hwheres => ?_
  split
  · exact (rowIdCondition_mask t q).bind fun rows rows' hids =>
      .pure (SameText.trimEnd ⟨by simp [htbl.text, hassigned.text, hids.text]⟩)
  · split
    · refine (writeOrder_mask t q).bind fun tail tail' htail => .pure (SameText.trimEnd ?_)
      refine .words (.cons (.words (.cons ⟨?_⟩ (.cons hwheres .nil))) htail)
      simp [htbl.text, hassigned.text]
    · refine (joins_mask t q.joins).bind fun joins joins' hjoins => ?_
      split
      · refine .pure (SameText.trimEnd (.words (.cons ⟨?_⟩ (.cons hwheres .nil))))
        simp [Target.joinedTarget, htbl.text, hassigned.text, hjoins.text]
      · refine .pure (SameText.trimEnd (.words (.cons ⟨?_⟩ (.cons hwheres .nil))))
        simp [htbl.text, hassigned.text, hjoins.text]

theorem delete_mask (t : Target) (q : Query) :
    Alike SameText (t.delete q.mask) (t.delete q) := by
  unfold Target.delete
  rw [checkWrite_mask, usesRowIds_mask, writeTop_mask, Query.joins_mask, maskJoins_isEmpty]
  refine .step _ fun _ => ?_
  refine (writeTable_mask t q).bind fun tbl tbl' htbl => ?_
  refine (wheresClause_mask t q).bind fun wheres wheres' hwheres => ?_
  split
  · exact (rowIdCondition_mask t q).bind fun rows rows' hids =>
      .pure (SameText.trimEnd ⟨by simp [htbl.text, hids.text]⟩)
  · split
    · refine (writeOrder_mask t q).bind fun tail tail' htail => .pure (SameText.trimEnd ?_)
      refine .words (.cons (.words (.cons ⟨?_⟩ (.cons hwheres .nil))) htail)
      simp [htbl.text]
    · refine (joins_mask t q.joins).bind fun joins joins' hjoins => ?_
      refine .pure (SameText.trimEnd (.words (.cons ⟨?_⟩ (.cons hwheres .nil))))
      simp [Target.joinedTarget, htbl.text, hjoins.text]

/-- As many values are bound for an update, before and after the assigned ones. -/
theorem updateBindings_alike (t : Target) (q : Query) {row row' : Row}
    (h : List.Forall₂ (SameAssignment t) row.entries row'.entries) :
    rawness (t.updateBindings q.mask (t.buckets q.mask) row) =
      rawness (t.updateBindings q (t.buckets q) row') := by
  have hbuckets := buckets_mask t q
  have hvalues := assignedValues_alike h
  unfold Target.updateBindings Target.rowIdBuckets
  simp only [Query.joins_mask, maskJoins_isEmpty, Query.hasJoinsOrLimit_mask]
  split
  · exact hbuckets.around hvalues _ _
  · exact hbuckets.around hvalues _ _
  · exact hbuckets.around hvalues _ _
  · exact hbuckets.around hvalues _ _
  · split
    · exact hbuckets.around hvalues _ _
    · exact hbuckets.around hvalues _ _

theorem deleteBindings_mask (t : Target) (q : Query) :
    rawness (t.deleteBindings q.mask (t.buckets q.mask)) =
      rawness (t.deleteBindings q (t.buckets q)) := by
  have hbuckets := buckets_mask t q
  unfold Target.deleteBindings Target.rowIdBuckets
  simp only [Query.joins_mask, maskJoins_isEmpty, Query.hasJoinsOrLimit_mask]
  split
  · exact hbuckets.flattenOnly _
  · exact hbuckets.flattenOnly _
  · split
    · exact hbuckets.flattenOnly _
    · exact hbuckets.flattenOnly _
  · exact hbuckets.flattenOnly _
  · exact hbuckets.flattenOnly _

/-! ## §5 Statements -/

/-- What of a statement has to be the same in two runs: its text and the number of its bindings. -/
def Compiled.shape (c : Compiled) : String × Nat :=
  (c.sql, c.bindings.length)

/-- Statements with the same texts that bind as many values. -/
def SameShape (cs cs' : List Compiled) : Prop :=
  cs.map Compiled.shape = cs'.map Compiled.shape

/-- Runs that end in statements of the same shape end alike. -/
theorem map_shape_eq {x y : Except Fault (List Compiled)} (h : Alike SameShape x y) :
    x.map (List.map Compiled.shape) = y.map (List.map Compiled.shape) := by
  cases h with
  | fault e => rfl
  | result hshape => exact congrArg Except.ok hshape

theorem sameShape_pair {a b : Sql} (h : SameText a b) {vs ws : List Value}
    (hbindings : rawness vs = rawness ws) :
    SameShape [Target.pair a vs] [Target.pair b ws] := by
  simp [SameShape, Compiled.shape, Target.pair, h.text, length_eq_of_rawness hbindings]

/-- A statement whose values are collected without fault. -/
theorem collected_alike {x y : Except Fault Sql} (h : Alike SameText x y) {vs ws : List Value}
    (hbindings : rawness vs = rawness ws) :
    Alike SameShape (do let sql ← x; return [Target.pair sql vs])
      (do let sql ← y; return [Target.pair sql ws]) :=
  h.bind fun _ _ hsql => .pure (sameShape_pair hsql hbindings)

/-- A statement whose rows have to share their columns before their values are collected. -/
theorem gathered_alike {x y : Except Fault Sql} (h : Alike SameText x y)
    {vs ws : Except Fault (List Value)}
    (hbindings : Alike (fun vs ws => rawness vs = rawness ws) vs ws) :
    Alike SameShape (do let sql ← x; return [Target.pair sql (← vs)])
      (do let sql ← y; return [Target.pair sql (← ws)]) :=
  h.bind fun _ _ hsql => hbindings.bind fun _ _ hvalues => .pure (sameShape_pair hsql hvalues)

/-- The probe of a masked query is the masked probe. -/
theorem probe_mask (q : Query) : Target.probe q.mask = (Target.probe q).mask := by
  cases q
  rfl

theorem hasRows_mask (t : Target) (q : Query) :
    Alike SameText (t.hasRows q.mask) (t.hasRows q) := by
  unfold Target.hasRows
  rw [probe_mask]
  split
  · exact select_mask t (Target.probe q)
  · exact (select_mask t q).bind fun rows rows' hrows => .step _ fun name =>
      .pure ⟨by simp [hrows.text]⟩

theorem hasRowsBindings_mask (t : Target) (q : Query) :
    rawness (t.hasRowsBindings q.mask) = rawness (t.hasRowsBindings q) := by
  unfold Target.hasRowsBindings
  rw [probe_mask]
  split
  · exact selectBindings_mask t (Target.probe q)
  · exact selectBindings_mask t q

/-- A table is emptied by its name. -/
theorem truncate_mask (t : Target) (q : Query) :
    Alike SameShape (t.truncate q.mask) (t.truncate q) := by
  unfold Target.truncate
  split
  · exact (writeTable_mask t q).bind fun tbl tbl' htbl =>
      .pure (sameShape_pair ⟨by simp [htbl.text]⟩ rfl)
  · rw [Query.mask_eq]
    cases q.source with
    | none => exact .fault _
    | some tbl =>
      cases tbl with
      | named name => exact .pure rfl
      | derived query asName => exact .fault _
      | raw text bindings => exact .fault _
  · exact (writeTable_mask t q).bind fun tbl tbl' htbl =>
      .pure (sameShape_pair ⟨by simp [htbl.text]⟩ rfl)

theorem compileInsert_mask (t : Target) (q : Query) (rows : Rows) :
    Alike SameShape (do return [← t.compileInsert q.mask rows.mask])
      (do return [← t.compileInsert q rows]) := by
  unfold Target.compileInsert
  simp only [bind_assoc, pure_bind]
  exact gathered_alike (insert_mask q rows) (insertBindings_mask rows)

/-- Masking changes neither the text of a statement, nor the number of its bindings, nor its
fault. Updates are compared with each other, since masking takes away the classes of documents. -/
theorem compile_mask (t : Target) (q : Query) (s : Statement) (hs : ∀ row, s ≠ .update row) :
    Alike SameShape (t.compile q.mask s.mask) (t.compile q s) := by
  cases s with
  | select => exact collected_alike (select_mask t q) (selectBindings_mask t q)
  | hasRows => exact collected_alike (hasRows_mask t q) (hasRowsBindings_mask t q)
  | insert rows => exact compileInsert_mask t q rows
  | insertOrIgnore rows =>
    exact gathered_alike (insertOrIgnore_mask q rows) (insertBindings_mask rows)
  | insertGetId rows key =>
    exact gathered_alike (insertGetId_mask q rows key) (insertBindings_mask rows)
  | insertUsing columns rows =>
    exact collected_alike (insertUsing_mask q columns rows) (selectBindings_mask t rows)
  | upsert rows uniqueBy columns =>
    simp only [Statement.mask, Target.compile, List.isEmpty_map]
    split
    · exact compileInsert_mask t q rows
    · exact gathered_alike (upsert_mask q rows uniqueBy columns) (upsertBindings_mask rows columns)
  | update row => exact absurd rfl (hs row)
  | delete => exact collected_alike (delete_mask t q) (deleteBindings_mask t q)
  | truncate => exact truncate_mask t q

/-- The classes of the values that a statement assigns into documents; only updates do. -/
def Statement.documentClasses : Statement → List (Option DocumentClass)
  | .update row => row.documentClasses
  | _ => []

/-- Two updates of rows that agree, on queries that are the same once masked. -/
theorem compile_update_alike {q q' : Query} {row row' : Row} (hq : q.mask = q'.mask)
    (hrow : row.mask = row'.mask)
    (hclass : t.dialect = .mysql → row.documentClasses = row'.documentClasses) :
    Alike SameShape (t.compile q (.update row)) (t.compile q' (.update row')) := by
  have hself : List.Forall₂ (SameAssignment t) row.entries row.entries :=
    sameAssignments rfl fun _ => rfl
  have hother := sameAssignments hrow hclass
  -- from the first query to the mask, which both queries share, and on to the second one
  have hfirst : Alike SameShape (t.compile q.mask (.update row)) (t.compile q (.update row)) :=
    collected_alike (update_alike t q hself) (updateBindings_alike t q hself)
  have hsecond : Alike SameShape (t.compile q'.mask (.update row)) (t.compile q' (.update row')) :=
    collected_alike (update_alike t q' hother) (updateBindings_alike t q' hother)
  rw [← hq] at hsecond
  exact (hfirst.symm fun _ _ h => h.symm).trans (fun _ _ _ h h' => h.trans h') hsecond

/-- The text of a statement never depends on a bound value. Two inputs that differ, at any depth,
only in values that are not raw end with the same fault, or with the same texts and as many
bindings; in MySQL, the values assigned into documents have to keep their classes. -/
theorem compile_text_independent (t : Target) {q q' : Query} {s s' : Statement}
    (hq : q.mask = q'.mask) (hs : s.mask = s'.mask)
    (hclass : t.dialect = .mysql → s.documentClasses = s'.documentClasses) :
    (t.compile q s).map (List.map Compiled.shape) =
      (t.compile q' s').map (List.map Compiled.shape) := by
  by_cases hupdate : ∃ row, s = .update row
  · obtain ⟨row, rfl⟩ := hupdate
    obtain ⟨row', rfl, hrow⟩ : ∃ row', s' = .update row' ∧ row.mask = row'.mask := by
      cases s' <;> simp_all [Statement.mask]
    exact map_shape_eq (compile_update_alike hq hrow hclass)
  · have hother : ∀ row, s ≠ .update row := fun row h => hupdate ⟨row, h⟩
    have hother' : ∀ row, s' ≠ .update row := by
      rintro row rfl
      cases s <;> simp_all [Statement.mask]
    rw [← map_shape_eq (compile_mask t q s hother), ← map_shape_eq (compile_mask t q' s' hother'),
      hq, hs]

/-- The orders of a buyer, who is looked for in a join, in a nested group and in a subquery. -/
def ordersOf (buyer : Value) : Query :=
  { Query.empty with
    source := some (.named "orders as o")
    joins := [
      ⟨.left, .raw "buyers(?) as b" [buyer], [⟨.and, .isNull (.named "b.closed")⟩], [], false⟩]
    wheres := [
      ⟨.and, .group [
        ⟨.and, .compare (.named "b.name") "=" buyer⟩,
        ⟨.orNot, .inQuery (.named "o.id")
          { Query.empty with
            source := some (.named "gifts")
            wheres := [⟨.and, .like (.named "receiver") buyer false false⟩] }
          false⟩]⟩] }

/-- A note signed in a document, with its tags beside it. -/
def signedNote (author : Value) (tags : Json) : Row :=
  ⟨[("o.note->by", author), ("o.note->tags", .json tags), ("o.note->seen", .bool true),
    ("o.state", author), ("o.count", .raw "count + 1")]⟩

theorem update_ordersOf_text_independent :
    (ordersOf (.text "ann")).mask = (ordersOf (.text "x' or 1 = 1 --")).mask ∧
    (Statement.update (signedNote (.text "ann") (.array []))).mask =
      (Statement.update (signedNote (.int 7) (.object [("a", .null)]))).mask ∧
    (Statement.update (signedNote (.text "ann") (.array []))).documentClasses =
      (Statement.update (signedNote (.int 7) (.object [("a", .null)]))).documentClasses ∧
    (Target.compile ⟨.mysql, {}⟩ (ordersOf (.text "ann"))
      (.update (signedNote (.text "ann") (.array [])))).isOk = true ∧
    (Target.compile ⟨.mysql, {}⟩ (ordersOf (.text "ann"))
      (.update (signedNote (.text "ann") (.array [])))).map (List.map Compiled.shape) =
    (Target.compile ⟨.mysql, {}⟩ (ordersOf (.text "x' or 1 = 1 --"))
      (.update (signedNote (.int 7) (.object [("a", .null)])))).map (List.map Compiled.shape) := by
  refine ⟨rfl, rfl, by decide, by decide +kernel, ?_⟩
  exact compile_text_independent ⟨.mysql, {}⟩ rfl rfl fun _ => by decide

end SqlCompiler
