import Mathlib.Data.Option.Basic
import SqlCompiler.Proofs.CarriedValues

/-!
# Values That Are Read

Every value of a request that is read comes from a part of its JSON form. What holds of the form and
then of its parts holds of the forms that the values are read from.

## Main definitions

- `ReadFrom`: a value that is read from a form with a property
- `Yields`: what holds of a result, if there is one

## Main statements

- `Query.decodeIn?_yields`: the values of a query, by recursion on its form
- `Statement.decode?_yields`, `Request.decode?_yields`
-/

namespace SqlCompiler

open Codec Json

variable {P : Json → Prop}

/-! ## §1 Results -/

/-- What holds of a result, if there is one. -/
def Yields {α : Type} (Q : α → Prop) (x : Option α) : Prop :=
  ∀ a, x = some a → Q a

namespace Yields

variable {α β : Type} {Q : α → Prop} {R : β → Prop}

/-- Nothing is to be shown where nothing is read. -/
theorem none : Yields Q none :=
  fun _ h => nomatch h

/-- A result that is there. -/
theorem pure {a : α} (h : Q a) : Yields Q (Pure.pure a) :=
  fun _ ha => Option.some.inj ha ▸ h

/-- Nothing is said about the result. -/
theorem any (x : Option α) : Yields (fun _ => True) x :=
  fun _ _ => trivial

/-- What holds of a first result is at hand for the second one. -/
theorem bind {x : Option α} {f : α → Option β} (h : Yields Q x) (hf : ∀ a, Q a → Yields R (f a)) :
    Yields R (x >>= f) := by
  intro b hb
  obtain ⟨a, ha, hb⟩ := Option.bind_eq_some_iff.1 hb
  exact hf a (h a ha) b hb

/-- What holds of a result after a function. -/
theorem map {x : Option α} {f : α → β} (h : Yields Q x) (hf : ∀ a, Q a → R (f a)) :
    Yields R (x.map f) := by
  intro b hb
  obtain ⟨a, ha, rfl⟩ := Option.map_eq_some_iff.1 hb
  exact hf a (h a ha)

/-- A condition that is checked first. -/
theorem checked {p : Prop} [Decidable p] {x : Option α} (h : Yields Q x) :
    Yields Q (guard p >>= fun _ => x) :=
  (any _).bind fun _ _ => h

/-- A result, or a default in its place. -/
theorem getD {x : Option α} {a : α} (h : Yields Q x) (ha : Q a) : Q (x.getD a) := by
  cases x with
  | none => exact ha
  | some b => exact h b rfl

end Yields

/-! ## §2 Shapes and fields -/

section Shapes

variable {α : Type} {Q : α → Prop} {read? : Json → Option α} {d : Json} {fields : Fields}

/-- The items of a list. -/
theorem listOf?_yields (hP : Hereditary P) (hread : ∀ v, P v → Yields Q (read? v)) (h : P d) :
    Yields (fun xs => ∀ x ∈ xs, Q x) (listOf? read? d) := by
  cases d with
  | array items =>
    have hitems := hP.item h
    rw [listOf?]
    clear h
    induction items with
    | nil => exact .pure fun _ hx => nomatch hx
    | cons v vs ih =>
      rw [List.mapM_cons]
      refine (hread v (hitems v List.mem_cons_self)).bind fun x hx => ?_
      refine (ih fun w hw => hitems w (List.mem_cons_of_mem _ hw)).bind fun xs hxs => .pure ?_
      exact List.forall_mem_cons.2 ⟨hx, hxs⟩
  | _ => exact .none

/-- Only an empty list is read as one. -/
theorem eq_of_listOf?_nil (h : listOf? read? d = some []) : d = .array [] := by
  cases d with
  | array items =>
    cases items with
    | nil => rfl
    | cons v vs =>
      rw [listOf?, List.mapM_cons] at h
      obtain ⟨x, -, h⟩ := Option.bind_eq_some_iff.1 h
      obtain ⟨xs, -, h⟩ := Option.bind_eq_some_iff.1 h
      cases h
  | _ => cases h

/-- Null, or a shape with what holds of it. -/
theorem nullable?_yields {R : Option α → Prop} (hnone : R none) (hsome : ∀ a, Q a → R (some a))
    (h : Yields Q (read? d)) : Yields R (nullable? read? d) := by
  cases d with
  | null => exact .pure hnone
  | _ => exact h.map hsome

/-- A field that is found is one of the fields. -/
theorem find?_yields (h : ∀ p ∈ fields, P p.2) (key : String) : Yields P (find? key fields) := by
  induction fields with
  | nil => exact .none
  | cons field fields ih =>
    obtain ⟨k, v⟩ := field
    rw [find?]
    split
    · exact .pure (h (k, v) List.mem_cons_self)
    · exact ih fun p hp => h p (List.mem_cons_of_mem _ hp)

/-- A field that has to be there. -/
theorem field_yields (hread : ∀ v, P v → Yields Q (read? v)) (h : ∀ p ∈ fields, P p.2)
    (key : String) : Yields Q (field read? key fields) :=
  (find?_yields h key).bind hread

/-- A field with a default. -/
theorem fieldOr_yields {a : α} (hread : ∀ v, P v → Yields Q (read? v)) (ha : Q a)
    (h : ∀ p ∈ fields, P p.2) (key : String) : Yields Q (fieldOr read? a key fields) := by
  have hfound := find?_yields h key
  unfold fieldOr
  split
  · exact hread _ (hfound _ ‹_›)
  · exact .pure ha

end Shapes

/-! ## §3 Parts that do not nest -/

/-- A value that is read from a JSON form with a property. -/
def ReadFrom (P : Json → Prop) (v : Value) : Prop :=
  ∃ d, P d ∧ Value.decode? d = some v

/-- A value is read from the form itself. -/
theorem Value.decode?_yields (d : Json) (h : P d) : Yields (ReadFrom P) (decode? d) :=
  fun _ hv => ⟨d, h, hv⟩

section Parts

variable (hP : Hereditary P)
include hP

theorem decodeValues?_yields (d : Json) (h : P d) : Yields (Every (ReadFrom P)) (decodeValues? d) :=
  listOf?_yields hP Value.decode?_yields h

/-- The values of raw SQL are read from its field of bindings. -/
theorem decodeSql?_yields {fields : Fields} (h : ∀ p ∈ fields, P p.2) :
    Yields (fun raw => Every (ReadFrom P) raw.2) (decodeSql? fields) :=
  .checked ((Yields.any _).bind fun _ _ =>
    (fieldOr_yields (decodeValues?_yields hP) every_nil h "bindings").bind fun _ hbindings =>
      .pure hbindings)

/-- A name has no values. -/
theorem Column.decode?_yields (d : Json) (h : P d) :
    Yields (fun c => Every (ReadFrom P) c.bindings) (decode? d) := by
  cases d with
  | string name => exact .pure every_nil
  | object fields =>
    rw [decode?]
    split
    · exact (decodeSql?_yields hP (hP.value h)).map fun _ hbindings => hbindings
    · exact .none
  | _ => exact .none

theorem decodeColumns?_yields (d : Json) (h : P d) :
    Yields (fun columns => Every (ReadFrom P) (columnBindings columns)) (decodeColumns? d) :=
  fun columns hcolumns => every_flatMap.2
    (listOf?_yields hP (Column.decode?_yields hP) h columns hcolumns)

/-- Distinct rows; only a list of columns brings values along. -/
theorem Distinct.decodeIn?_yields (s : Setting) (d : Json) (h : P d) :
    Yields (fun x => Every (ReadFrom P) x.values) (decodeIn? s d) := by
  unfold decodeIn?
  split
  · exact (decodeColumns?_yields hP _ (hP.value h _ List.mem_cons_self)).map fun _ hcolumns =>
      hcolumns
  · split
    · exact .pure every_nil
    · exact .pure every_nil
    · exact .none

/-- An aggregate has the values of its columns. -/
theorem Aggregate.decode?_yields (d : Json) (h : P d) :
    Yields (fun a => Every (ReadFrom P) (columnBindings a.columns)) (decode? d) := by
  cases d with
  | object fields =>
    exact .checked ((Yields.any _).bind fun _ _ =>
      (field_yields (decodeColumns?_yields hP) (hP.value h) "columns").bind fun _ hcolumns =>
        .pure hcolumns)
  | _ => exact .none

/-- A sort key in each setting. -/
theorem SortKey.decodeIn?_yields (s : Setting) (d : Json) (h : P d) :
    Yields (fun key => Every (ReadFrom P) key.bindings) (decodeIn? s d) := by
  cases d with
  | object fields =>
    have hfields := hP.value h
    rw [decodeIn?]
    refine (Yields.any _).bind fun tag _ => ?_
    split
    · exact .checked ((field_yields (Column.decode?_yields hP) hfields "column").bind fun c hc =>
        (Yields.any _).bind fun _ _ => .pure hc)
    · exact (decodeSql?_yields hP hfields).map fun _ hbindings => hbindings
    · exact .checked ((Yields.any _).bind fun _ _ => .pure every_nil)
    · exact .none
  | _ => exact .none

theorem decodeOrders?_yields (s : Setting) (d : Json) (h : P d) :
    Yields (fun orders => Every (ReadFrom P) (orderBindings orders))
      (listOf? (SortKey.decodeIn? s) d) :=
  fun orders horders => every_flatMap.2
    (listOf?_yields hP (SortKey.decodeIn?_yields hP s) h orders horders)

/-! ## §4 Conditions on groups -/

/-- A condition on groups, tag by tag. -/
theorem decodePlainHaving?_yields (tag : String) {fields : Fields} (h : ∀ p ∈ fields, P p.2) :
    Yields (fun p => Every (ReadFrom P) p.bindings) (decodePlainHaving? tag fields) := by
  have hcolumn := field_yields (Column.decode?_yields hP) h "column"
  have hvalue := field_yields (P := P) Value.decode?_yields h
  unfold decodePlainHaving?
  split
  · exact (decodeSql?_yields hP h).map fun _ hbindings => hbindings
  · exact .checked (hcolumn.bind fun c hc => (Yields.any _).bind fun _ _ =>
      (hvalue "value").bind fun v hv => .pure (by simp [HavingPredicate.bindings, hc, hv]))
  · exact .checked (hcolumn.bind fun c hc => (hvalue "min").bind fun low hlow =>
      (hvalue "max").bind fun high hhigh => (Yields.any _).bind fun _ _ =>
        .pure (by simp [HavingPredicate.bindings, hc, hlow, hhigh]))
  · exact .checked (hcolumn.bind fun c hc => .pure hc)
  · exact .checked (hcolumn.bind fun c hc => .pure hc)
  · exact .checked (hcolumn.bind fun c hc => (Yields.any _).bind fun _ _ =>
      (hvalue "value").bind fun v hv => .pure (by simp [HavingPredicate.bindings, hc, hv]))
  · exact .checked ((Yields.any _).bind fun _ _ => .pure every_nil)
  · exact .none

end Parts

mutual

/-- A condition on groups, by recursion on its form: the fields of a group are read in place. -/
theorem HavingPredicate.decodeIn?_yields (hP : Hereditary P) : (d : Json) → P d → (s : Setting) →
    Yields (fun p => Every (ReadFrom P) p.bindings) (HavingPredicate.decodeIn? s d)
  | .object fields, h, s => by
    have hfields := hP.value h
    rw [HavingPredicate.decodeIn?]
    refine (Yields.any _).bind fun tag _ => ?_
    split
    · exact .checked ((havingsField_yields hP fields hfields).bind fun _ hclauses =>
        hclauses.bind fun _ hclauses => .pure hclauses)
    · exact decodePlainHaving?_yields hP tag hfields
  | .null, _, _ | .bool _, _, _ | .integer _, _, _ | .double _, _, _ | .string _, _, _
  | .array _, _, _ | .unreadable, _, _ => .none

/-- The conditions in the field of a group, if it is found. -/
theorem havingsField_yields (hP : Hereditary P) : (fields : List (String × Json)) →
    (∀ p ∈ fields, P p.2) →
    Yields (Yields fun clauses => Every (ReadFrom P) (havingBindings clauses)) (havingsField fields)
  | [], _ => .pure .none
  | (key, v) :: rest, h => by
    obtain ⟨hv, hrest⟩ := List.forall_mem_cons.1 h
    rw [havingsField]
    split
    · exact (decodeHavingsIn?_yields hP v hv .byTag).map fun _ hclauses => .pure hclauses
    · exact havingsField_yields hP rest hrest

theorem decodeHavingsIn?_yields (hP : Hereditary P) : (d : Json) → P d → (s : Setting) →
    Yields (fun clauses => Every (ReadFrom P) (havingBindings clauses)) (decodeHavingsIn? s d)
  | .array items, h, s => by
    rw [decodeHavingsIn?]
    exact havingItems_yields hP items (hP.item h) s
  | .null, _, _ | .bool _, _, _ | .integer _, _, _ | .double _, _, _ | .string _, _, _
  | .object _, _, _ | .unreadable, _, _ => .none

/-- Conditions on groups, item by item. -/
theorem havingItems_yields (hP : Hereditary P) : (items : List Json) → (∀ v ∈ items, P v) →
    (s : Setting) →
    Yields (fun clauses => Every (ReadFrom P) (havingBindings clauses)) (havingItems s items)
  | [], _, _ => .pure every_nil
  | v :: rest, h, s => by
    obtain ⟨hv, hrest⟩ := List.forall_mem_cons.1 h
    rw [havingItems]
    exact (decodeHaving?_yields hP v hv s).bind fun clause hclause =>
      (havingItems_yields hP rest hrest s).bind fun clauses hclauses =>
        .pure (every_append.2 ⟨hclause, hclauses⟩)

theorem decodeHaving?_yields (hP : Hereditary P) : (d : Json) → P d → (s : Setting) →
    Yields (fun clause => Every (ReadFrom P) clause.node.bindings) (decodeHaving? s d)
  | .object fields, h, s => by
    rw [decodeHaving?]
    exact (Yields.any _).bind fun _ _ => (havingNode_yields hP fields (hP.value h) s).bind
      fun _ hnode => hnode.bind fun _ hnode => .pure hnode
  | .null, _, _ | .bool _, _, _ | .integer _, _, _ | .double _, _, _ | .string _, _, _
  | .array _, _, _ | .unreadable, _, _ => .none

/-- The condition in the field of a clause, if it is found. -/
theorem havingNode_yields (hP : Hereditary P) : (fields : List (String × Json)) →
    (∀ p ∈ fields, P p.2) → (s : Setting) →
    Yields (Yields fun p => Every (ReadFrom P) p.bindings) (havingNode s fields)
  | [], _, _ => .pure .none
  | (key, v) :: rest, h, s => by
    obtain ⟨hv, hrest⟩ := List.forall_mem_cons.1 h
    rw [havingNode]
    split
    · exact (HavingPredicate.decodeIn?_yields hP v hv s).map fun _ hnode => .pure hnode
    · exact havingNode_yields hP rest hrest s

end

/-! ## §5 Conditions on rows -/

section Predicates

variable (hP : Hereditary P) {fields : Fields} (h : ∀ p ∈ fields, P p.2)
include hP h

/-- A condition on rows that nests nothing, tag by tag. -/
theorem decodePlainPredicate?_yields (tag : String) :
    Yields (fun p => Every (ReadFrom P) p.values) (decodePlainPredicate? tag fields) := by
  have hcolumn := field_yields (Column.decode?_yields hP) h
  have hcolumns := field_yields (decodeColumns?_yields hP) h
  have hvalue := field_yields (P := P) Value.decode?_yields h
  unfold decodePlainPredicate?
  dsimp only
  split
  · exact (decodeSql?_yields hP h).map fun _ hbindings => hbindings
  · exact .checked ((hcolumn "column").bind fun c hc => (Yields.any _).bind fun _ _ =>
      (hvalue "value").bind fun v hv => .pure (by simp [Predicate.values, hc, hv]))
  · exact .checked ((hcolumn "column").bind fun c hc => (Yields.any _).bind fun _ _ =>
      (hvalue "value").bind fun v hv => .pure (by simp [Predicate.values, hc, hv]))
  · exact .checked ((Yields.any _).bind fun _ _ => (Yields.any _).bind fun _ _ =>
      (Yields.any _).bind fun _ _ => .pure every_nil)
  · exact .checked ((hcolumn "column").bind fun c hc => (hvalue "value").bind fun v hv =>
      (Yields.any _).bind fun _ _ => (Yields.any _).bind fun _ _ =>
        .pure (by simp [Predicate.values, hc, hv]))
  · exact .checked ((hcolumn "column").bind fun c hc => (hvalue "min").bind fun low hlow =>
      (hvalue "max").bind fun high hhigh => (Yields.any _).bind fun _ _ =>
        .pure (by simp [Predicate.values, hc, hlow, hhigh]))
  · exact .checked ((hcolumn "column").bind fun c hc => (hcolumn "min").bind fun low hlow =>
      (hcolumn "max").bind fun high hhigh => (Yields.any _).bind fun _ _ =>
        .pure (by simp [Predicate.values, columnBindings, hc, hlow, hhigh]))
  · exact .checked ((hcolumn "column").bind fun c hc => (Yields.any _).bind fun _ _ =>
      (Yields.any _).bind fun _ _ => .pure hc)
  · exact .checked ((hcolumn "column").bind fun c hc => .pure hc)
  · exact .checked ((hcolumn "column").bind fun c hc => .pure hc)
  · exact .checked ((Yields.any _).bind fun _ _ => (hcolumn "column").bind fun c hc =>
      (Yields.any _).bind fun _ _ => (hvalue "value").bind fun v hv =>
        .pure (by simp [Predicate.values, hc, hv]))
  · exact .checked ((hcolumn "first").bind fun first hfirst => (Yields.any _).bind fun _ _ =>
      (hcolumn "second").bind fun second hsecond =>
        .pure (by simp [Predicate.values, columnBindings, hfirst, hsecond]))
  · exact .checked ((hcolumns "columns").bind fun columns hcolumns =>
      (Yields.any _).bind fun _ _ =>
        (field_yields (decodeValues?_yields hP) h "values").bind fun values hvalues =>
          .pure (every_append.2 ⟨hcolumns, hvalues⟩))
  · exact .checked ((Yields.any _).bind fun _ _ => (hvalue "value").bind fun v hv =>
      (Yields.any _).bind fun _ _ => .pure (by simp [Predicate.values, hv]))
  · exact .checked ((Yields.any _).bind fun _ _ => (Yields.any _).bind fun _ _ =>
      .pure every_nil)
  · exact .checked ((Yields.any _).bind fun _ _ => (Yields.any _).bind fun _ _ =>
      (hvalue "value").bind fun v hv => .pure (by simp [Predicate.values, hv]))
  · exact .checked ((hcolumns "columns").bind fun columns hcolumns =>
      (hvalue "value").bind fun v hv => (Yields.any _).bind fun _ _ =>
        .pure (by simp [Predicate.values, hcolumns, hv]))
  · exact .none

/-- Members given one by one. -/
theorem decodeInList?_yields :
    Yields (fun p => Every (ReadFrom P) p.values) (decodeInList? fields) :=
  (field_yields (Column.decode?_yields hP) h "column").bind fun _ hc =>
    (field_yields (decodeValues?_yields hP) h "values").bind fun _ hvalues =>
      (Yields.any _).bind fun _ _ => .pure (every_append.2 ⟨hc, hvalues⟩)

end Predicates

/-! ## §6 Queries -/

mutual

/-- A table in its three shapes; a derived one is read from the form of a query. -/
theorem Table.decode?_yields (hP : Hereditary P) : (d : Json) → P d →
    Yields (fun tbl => Every (ReadFrom P) tbl.values) (Table.decode? d)
  | .string _, _ => .pure every_nil
  | .object fields, h => by
    have hfields := hP.value h
    rw [Table.decode?]
    split
    · exact .none
    · dsimp only
      -- what has the fields of a query and an alias is a derived table, else it is raw SQL
      split
      · rename_i tbl hderived
        refine .pure ?_
        have hquery : Yields (fun tbl => Every (ReadFrom P) tbl.values) (some tbl) := by
          rw [← hderived]
          exact .checked ((queryField_yields hP fields hfields .byShape "query").bind
            fun _ hquery => hquery.bind fun _ hquery => (Yields.any _).bind fun _ _ =>
              .pure hquery)
        exact hquery tbl rfl
      · exact (decodeSql?_yields hP hfields).map fun _ hbindings => hbindings
  | .null, _ | .bool _, _ | .integer _, _ | .double _, _ | .array _, _ | .unreadable, _ => .none

/-- The query under a key, if it is found. -/
theorem queryField_yields (hP : Hereditary P) : (fields : List (String × Json)) →
    (∀ p ∈ fields, P p.2) → (s : Setting) → (name : String) →
    Yields (Yields fun q => Every (ReadFrom P) q.values) (queryField s name fields)
  | [], _, _, _ => .pure .none
  | (key, v) :: rest, h, s, name => by
    obtain ⟨hv, hrest⟩ := List.forall_mem_cons.1 h
    rw [queryField]
    split
    · exact (Query.decodeIn?_yields hP v hv s).map fun _ hquery => .pure hquery
    · exact queryField_yields hP rest hrest s name

/-- The values of a condition on rows come from parts of its form. -/
theorem Predicate.decodeIn?_yields (hP : Hereditary P) : (d : Json) → P d → (s : Setting) →
    Yields (fun p => Every (ReadFrom P) p.values) (Predicate.decodeIn? s d)
  | .object fields, h, s => by
    have hfields := hP.value h
    have hcolumn := field_yields (Column.decode?_yields hP) hfields "column"
    have hquery (s : Setting) := queryField_yields hP fields hfields s
    rw [Predicate.decodeIn?]
    refine (Yields.any _).bind fun tag _ => ?_
    split
    · refine .checked ?_
      -- a list of values under the tag `in`, or else a query in their place
      split
      · exact .pure (decodeInList?_yields hP hfields _ ‹_›)
      · exact hcolumn.bind fun _ hc => (hquery .byShape "values").bind fun _ hquery =>
          hquery.bind fun _ hquery => (Yields.any _).bind fun _ _ =>
            .pure (every_append.2 ⟨hc, hquery⟩)
    · exact .checked ((clausesField_yields hP fields hfields .byTag "wheres").bind
        fun _ hclauses => hclauses.bind fun _ hclauses => .pure hclauses)
    · exact .checked ((hquery .byTag "query").bind fun _ hquery => hquery.bind fun _ hquery =>
        (Yields.any _).bind fun _ _ => .pure hquery)
    · exact .checked (hcolumn.bind fun _ hc => (Yields.any _).bind fun _ _ =>
        (hquery .byTag "query").bind fun _ hquery => hquery.bind fun _ hquery =>
          .pure (every_append.2 ⟨hc, hquery⟩))
    · exact decodePlainPredicate?_yields hP hfields _
  | .null, _, _ | .bool _, _, _ | .integer _, _, _ | .double _, _, _ | .string _, _, _
  | .array _, _, _ | .unreadable, _, _ => .none

/-- The conditions under a key, if they are found. -/
theorem clausesField_yields (hP : Hereditary P) : (fields : List (String × Json)) →
    (∀ p ∈ fields, P p.2) → (s : Setting) → (name : String) →
    Yields (Yields fun clauses => Every (ReadFrom P) (clauseValues clauses))
      (clausesField s name fields)
  | [], _, _, _ => .pure .none
  | (key, v) :: rest, h, s, name => by
    obtain ⟨hv, hrest⟩ := List.forall_mem_cons.1 h
    rw [clausesField]
    split
    · exact (decodeClausesIn?_yields hP v hv s).map fun _ hclauses => .pure hclauses
    · exact clausesField_yields hP rest hrest s name

theorem decodeClausesIn?_yields (hP : Hereditary P) : (d : Json) → P d → (s : Setting) →
    Yields (fun clauses => Every (ReadFrom P) (clauseValues clauses)) (decodeClausesIn? s d)
  | .array items, h, s => by
    rw [decodeClausesIn?]
    exact clauseItems_yields hP items (hP.item h) s
  | .null, _, _ | .bool _, _, _ | .integer _, _, _ | .double _, _, _ | .string _, _, _
  | .object _, _, _ | .unreadable, _, _ => .none

/-- Conditions on rows, item by item. -/
theorem clauseItems_yields (hP : Hereditary P) : (items : List Json) → (∀ v ∈ items, P v) →
    (s : Setting) →
    Yields (fun clauses => Every (ReadFrom P) (clauseValues clauses)) (clauseItems s items)
  | [], _, _ => .pure every_nil
  | v :: rest, h, s => by
    obtain ⟨hv, hrest⟩ := List.forall_mem_cons.1 h
    rw [clauseItems]
    exact (decodeClause?_yields hP v hv s).bind fun clause hclause =>
      (clauseItems_yields hP rest hrest s).bind fun clauses hclauses =>
        .pure (every_append.2 ⟨hclause, hclauses⟩)

/-- A clause has the values of its condition. -/
theorem decodeClause?_yields (hP : Hereditary P) : (d : Json) → P d → (s : Setting) →
    Yields (fun clause => Every (ReadFrom P) clause.node.values) (decodeClause? s d)
  | .object fields, h, s => by
    rw [decodeClause?]
    exact (Yields.any _).bind fun _ _ => (predicateNode_yields hP fields (hP.value h) s).bind
      fun _ hnode => hnode.bind fun _ hnode => .pure hnode
  | .null, _, _ | .bool _, _, _ | .integer _, _, _ | .double _, _, _ | .string _, _, _
  | .array _, _, _ | .unreadable, _, _ => .none

theorem predicateNode_yields (hP : Hereditary P) : (fields : List (String × Json)) →
    (∀ p ∈ fields, P p.2) → (s : Setting) →
    Yields (Yields fun p => Every (ReadFrom P) p.values) (predicateNode s fields)
  | [], _, _ => .pure .none
  | (key, v) :: rest, h, s => by
    obtain ⟨hv, hrest⟩ := List.forall_mem_cons.1 h
    rw [predicateNode]
    split
    · exact (Predicate.decodeIn?_yields hP v hv s).map fun _ hnode => .pure hnode
    · exact predicateNode_yields hP rest hrest s

/-- A joined table has the values of its table, its inner joins and its conditions. -/
theorem Join.decodeIn?_yields (hP : Hereditary P) : (d : Json) → P d → (s : Setting) →
    Yields (fun j => Every (ReadFrom P) j.values) (Join.decodeIn? s d)
  | .object fields, h, s => by
    have hfields := hP.value h
    rw [Join.decodeIn?]
    exact .checked ((Yields.any _).bind fun _ _ =>
      (tableField_yields hP fields hfields "table").bind fun _ htable =>
      htable.bind fun _ htable =>
      (clausesField_yields hP fields hfields s "on").bind fun _ hon =>
      (joinsField_yields hP fields hfields s).bind fun _ hjoins =>
      (Yields.any _).bind fun _ _ => .pure (every_append.2
        ⟨every_append.2 ⟨htable, hon.getD every_nil⟩, hjoins.getD every_nil⟩))
  | .null, _, _ | .bool _, _, _ | .integer _, _, _ | .double _, _, _ | .string _, _, _
  | .array _, _, _ | .unreadable, _, _ => .none

/-- The table under a key, if it is found. -/
theorem tableField_yields (hP : Hereditary P) : (fields : List (String × Json)) →
    (∀ p ∈ fields, P p.2) → (name : String) →
    Yields (Yields fun tbl => Every (ReadFrom P) tbl.values) (tableField name fields)
  | [], _, _ => .pure .none
  | (key, v) :: rest, h, name => by
    obtain ⟨hv, hrest⟩ := List.forall_mem_cons.1 h
    rw [tableField]
    split
    · exact (Table.decode?_yields hP v hv).map fun _ htable => .pure htable
    · exact tableField_yields hP rest hrest name

theorem joinsField_yields (hP : Hereditary P) : (fields : List (String × Json)) →
    (∀ p ∈ fields, P p.2) → (s : Setting) →
    Yields (Yields fun joins => Every (ReadFrom P) (joinsValues joins)) (joinsField s fields)
  | [], _, _ => .pure .none
  | (key, v) :: rest, h, s => by
    obtain ⟨hv, hrest⟩ := List.forall_mem_cons.1 h
    rw [joinsField]
    split
    · exact (decodeJoinsIn?_yields hP v hv s).map fun _ hjoins => .pure hjoins
    · exact joinsField_yields hP rest hrest s

theorem decodeJoinsIn?_yields (hP : Hereditary P) : (d : Json) → P d → (s : Setting) →
    Yields (fun joins => Every (ReadFrom P) (joinsValues joins)) (decodeJoinsIn? s d)
  | .array items, h, s => by
    rw [decodeJoinsIn?]
    exact joinItems_yields hP items (hP.item h) s
  | .null, _, _ | .bool _, _, _ | .integer _, _, _ | .double _, _, _ | .string _, _, _
  | .object _, _, _ | .unreadable, _, _ => .none

/-- Joined tables, item by item. -/
theorem joinItems_yields (hP : Hereditary P) : (items : List Json) → (∀ v ∈ items, P v) →
    (s : Setting) → Yields (fun joins => Every (ReadFrom P) (joinsValues joins)) (joinItems s items)
  | [], _, _ => .pure every_nil
  | v :: rest, h, s => by
    obtain ⟨hv, hrest⟩ := List.forall_mem_cons.1 h
    rw [joinItems]
    exact (Join.decodeIn?_yields hP v hv s).bind fun j hj =>
      (joinItems_yields hP rest hrest s).bind fun joins hjoins =>
        .pure (every_append.2 ⟨hj, hjoins⟩)

theorem unionsField_yields (hP : Hereditary P) : (fields : List (String × Json)) →
    (∀ p ∈ fields, P p.2) → (s : Setting) →
    Yields (Yields fun branches => Every (ReadFrom P) (branchValues branches))
      (unionsField s fields)
  | [], _, _ => .pure .none
  | (key, v) :: rest, h, s => by
    obtain ⟨hv, hrest⟩ := List.forall_mem_cons.1 h
    rw [unionsField]
    split
    · exact (decodeBranches?_yields hP v hv s).map fun _ hbranches => .pure hbranches
    · exact unionsField_yields hP rest hrest s

theorem decodeBranches?_yields (hP : Hereditary P) : (d : Json) → P d → (s : Setting) →
    Yields (fun branches => Every (ReadFrom P) (branchValues branches)) (decodeBranches? s d)
  | .array items, h, s => by
    rw [decodeBranches?]
    exact branchItems_yields hP items (hP.item h) s
  | .null, _, _ | .bool _, _, _ | .integer _, _, _ | .double _, _, _ | .string _, _, _
  | .object _, _, _ | .unreadable, _, _ => .none

/-- The branches of a union, item by item. -/
theorem branchItems_yields (hP : Hereditary P) : (items : List Json) → (∀ v ∈ items, P v) →
    (s : Setting) →
    Yields (fun branches => Every (ReadFrom P) (branchValues branches)) (branchItems s items)
  | [], _, _ => .pure every_nil
  | v :: rest, h, s => by
    obtain ⟨hv, hrest⟩ := List.forall_mem_cons.1 h
    rw [branchItems]
    exact (decodeBranch?_yields hP v hv s).bind fun ⟨query, all⟩ hquery =>
      (branchItems_yields hP rest hrest s).bind fun branches hbranches =>
        .pure (every_append.2 ⟨hquery, hbranches⟩)

theorem decodeBranch?_yields (hP : Hereditary P) : (d : Json) → P d → (s : Setting) →
    Yields (fun branch => Every (ReadFrom P) branch.query.values) (decodeBranch? s d)
  | .object fields, h, s => by
    rw [decodeBranch?]
    exact .checked ((queryField_yields hP fields (hP.value h) s "query").bind fun _ hquery =>
      hquery.bind fun _ hquery => (Yields.any _).bind fun _ _ => .pure hquery)
  | .null, _, _ | .bool _, _, _ | .integer _, _, _ | .double _, _, _ | .string _, _, _
  | .array _, _, _ | .unreadable, _, _ => .none

/-- The table of a query, which may be missing or null. -/
theorem sourceField_yields (hP : Hereditary P) : (fields : List (String × Json)) →
    (∀ p ∈ fields, P p.2) →
    Yields (fun source => Every (ReadFrom P) (sourceValues source)) (sourceField fields)
  | [], _ => .pure every_nil
  | (key, v) :: rest, h => by
    obtain ⟨hv, hrest⟩ := List.forall_mem_cons.1 h
    unfold sourceField
    split
    · split
      · exact .pure every_nil
      · exact (Table.decode?_yields hP v hv).map fun _ htable => htable
    · exact sourceField_yields hP rest hrest

/-- The values of a query come from parts of its form. -/
theorem Query.decodeIn?_yields (hP : Hereditary P) : (d : Json) → P d → (s : Setting) →
    Yields (fun q => Every (ReadFrom P) q.values) (Query.decodeIn? s d)
  | .object fields, h, s => by
    have hfields := hP.value h
    have hsource := sourceField_yields hP fields hfields
    have hcolumns : Yields (fun columns => Every (ReadFrom P) (columnBindings (columns.getD [])))
        (fieldOr (nullable? decodeColumns?) none "columns" fields) :=
      fieldOr_yields (fun v hv => nullable?_yields every_nil (fun _ hcolumns => hcolumns)
        (decodeColumns?_yields hP v hv)) every_nil hfields "columns"
    have hdistinct : Yields (fun d => Every (ReadFrom P) d.values)
        (fieldOr (Distinct.decodeIn? s) .off "distinct" fields) :=
      fieldOr_yields (Distinct.decodeIn?_yields hP s) every_nil hfields "distinct"
    have haggregate : Yields
        (fun a => Every (ReadFrom P) (columnBindings (a.elim [] Aggregate.columns)))
        (fieldOr (nullable? Aggregate.decode?) none "aggregate" fields) :=
      fieldOr_yields (fun v hv => nullable?_yields every_nil (fun _ haggregate => haggregate)
        (Aggregate.decode?_yields hP v hv)) every_nil hfields "aggregate"
    have hgroups : Yields (fun columns => Every (ReadFrom P) (columnBindings columns))
        (fieldOr decodeColumns? [] "groups" fields) :=
      fieldOr_yields (decodeColumns?_yields hP) every_nil hfields "groups"
    have hhavings : Yields (fun clauses => Every (ReadFrom P) (havingBindings clauses))
        (fieldOr (decodeHavingsIn? s) [] "havings" fields) :=
      fieldOr_yields (fun v hv => decodeHavingsIn?_yields hP v hv s) every_nil hfields "havings"
    have horders (key : String) : Yields (fun orders => Every (ReadFrom P) (orderBindings orders))
        (fieldOr (listOf? (SortKey.decodeIn? s)) [] key fields) :=
      fieldOr_yields (decodeOrders?_yields hP s) every_nil hfields key
    -- an absent list and a null one are both read as none
    have hjoins : Yields (fun joins => Every (ReadFrom P) (joinsValues (joins.getD [])))
        (joinsField s fields) :=
      fun _ hread => (joinsField_yields hP fields hfields s _ hread).getD every_nil
    have hwheres : Yields (fun clauses => Every (ReadFrom P) (clauseValues (clauses.getD [])))
        (clausesField s "wheres" fields) :=
      fun _ hread => (clausesField_yields hP fields hfields s "wheres" _ hread).getD every_nil
    have hunions : Yields (fun branches => Every (ReadFrom P) (branchValues (branches.getD [])))
        (unionsField s fields) :=
      fun _ hread => (unionsField_yields hP fields hfields s _ hread).getD every_nil
    -- the fields are read in the order in which a query lists its values
    rw [Query.decodeIn?]
    exact .checked (hsource.bind fun _ hsource => hcolumns.bind fun _ hcolumns =>
      hdistinct.bind fun _ hdistinct => haggregate.bind fun _ haggregate =>
      hjoins.bind fun _ hjoins => hwheres.bind fun _ hwheres => hgroups.bind fun _ hgroups =>
      hhavings.bind fun _ hhavings => (horders "orders").bind fun _ hordered =>
      (Yields.any _).bind fun _ _ => (Yields.any _).bind fun _ _ => (Yields.any _).bind fun _ _ =>
      hunions.bind fun _ hunions => (horders "union_orders").bind fun _ hunionOrders =>
      (Yields.any _).bind fun _ _ => (Yields.any _).bind fun _ _ => .pure (by
        simp [Query.values, hsource, hcolumns, hdistinct, haggregate, hjoins, hwheres, hgroups,
          hhavings, hordered, hunions, hunionOrders]))
  | .null, _, _ | .bool _, _, _ | .integer _, _, _ | .double _, _, _ | .string _, _, _
  | .array _, _, _ | .unreadable, _, _ => .none

end

/-! ## §7 Statements -/

section Statements

variable (hP : Hereditary P)
include hP

/-- The value of a column that is assigned. -/
theorem decodeAssigned?_yields (d : Json) (h : P d) :
    Yields (fun entry => ReadFrom P entry.2) (decodeAssigned? d) := by
  unfold decodeAssigned?
  split
  · exact (Value.decode?_yields _ (hP.item h _ (by simp))).map fun _ hv => hv
  · exact .none

/-- A row keeps, for each column, one of the values that are read for it. -/
theorem Row.decode?_yields (d : Json) (h : P d) :
    Yields (fun row => Every (ReadFrom P) row.values) (decode? d) :=
  (listOf?_yields hP (decodeAssigned?_yields hP) h).map fun _ hentries =>
    List.forall_mem_map.2 hentries

/-- What is read as rows has a row. -/
theorem Rows.decode?_yields (d : Json) (h : P d) :
    Yields (fun rows => Every (ReadFrom P) rows.values ∧ rows ≠ .batch []) (decode? d) := by
  have hrow := Row.decode?_yields hP d h
  have hrows := listOf?_yields hP (Row.decode?_yields hP) h
  unfold decode?
  split
  · split
    · -- an object, and an empty list as well, is one row
      rename_i row hdecoded
      refine .pure ⟨every_flatMap.2 fun r hr => ?_, nofun⟩
      obtain rfl := List.mem_singleton.1 hr
      exact hrow _ hdecoded
    · rename_i hnoRow
      intro rows hdecoded
      obtain ⟨rows, hlist, rfl⟩ := Option.map_eq_some_iff.1 hdecoded
      refine ⟨every_flatMap.2 (hrows rows hlist), fun hnone => ?_⟩
      obtain rfl : rows = [] := Rows.batch.inj hnone
      -- a list without rows is a row without columns
      rw [eq_of_listOf?_nil hlist] at hnoRow
      cases hnoRow
  · exact .none

/-- A column of an upsert may bring a value along. -/
theorem UpsertColumn.decode?_yields (d : Json) (h : P d) :
    Yields (fun c => ∀ v, c.value? = some v → ReadFrom P v) (decode? d) := by
  unfold decode?
  split
  · exact .pure nofun
  · exact (decodeAssigned?_yields hP d h).map fun _ hv v hvalue => Option.some.inj hvalue ▸ hv

theorem decodeUpdate?_yields (d : Json) (h : P d) :
    Yields (fun columns => Every (ReadFrom P) (columns.filterMap UpsertColumn.value?))
      (listOf? UpsertColumn.decode? d) := by
  intro columns hlist v hv
  obtain ⟨c, hc, hvalue⟩ := List.mem_filterMap.1 hv
  exact listOf?_yields hP (UpsertColumn.decode?_yields hP) h columns hlist c hc v hvalue

/-- The values of a statement come from parts of its form, and what it inserts has a row. -/
theorem Statement.decode?_yields (d : Json) (h : P d) :
    Yields (fun s => Every (ReadFrom P) s.values ∧ s.GivesRows) (decode? d) := by
  cases d with
  | object fields =>
    have hfields := hP.value h
    have hrows := field_yields (Rows.decode?_yields hP) hfields "values"
    have hcolumns : Yields (fun columns => Every (ReadFrom P) (columnBindings columns))
        (fieldOr decodeColumns? [] "columns" fields) :=
      fieldOr_yields (decodeColumns?_yields hP) every_nil hfields "columns"
    have hquery := field_yields (fun v hv => Query.decodeIn?_yields hP v hv .byTag) hfields "query"
    have hupdate :
        Yields (fun columns => Every (ReadFrom P) (columns.filterMap UpsertColumn.value?))
        (fieldOr (listOf? UpsertColumn.decode?) [] "update" fields) :=
      fieldOr_yields (decodeUpdate?_yields hP) every_nil hfields "update"
    have hrow := field_yields (Row.decode?_yields hP) hfields "values"
    rw [decode?]
    refine (Yields.any _).bind fun tag _ => ?_
    split
    · exact .pure ⟨every_nil, trivial⟩
    · exact .pure ⟨every_nil, trivial⟩
    · exact .checked (hrows.bind fun _ hrows => .pure hrows)
    · exact .checked (hrows.bind fun _ hrows => .pure hrows)
    · exact .checked (hrows.bind fun _ hrows => (Yields.any _).bind fun _ _ => .pure hrows)
    · exact .checked (hcolumns.bind fun _ hcolumns => hquery.bind fun _ hquery =>
        .pure ⟨every_append.2 ⟨hcolumns, hquery⟩, trivial⟩)
    · exact .checked (hrows.bind fun _ hrows => (Yields.any _).bind fun _ _ =>
        hupdate.bind fun _ hupdate => .pure ⟨every_append.2 ⟨hrows.1, hupdate⟩, hrows.2⟩)
    · exact .checked (hrow.bind fun _ hrow => .pure ⟨hrow, trivial⟩)
    · exact .pure ⟨every_nil, trivial⟩
    · exact .pure ⟨every_nil, trivial⟩
    · exact .none
  | _ => exact .none

/-- The values of a request come from parts of its form, and what it inserts has a row. -/
theorem Request.decode?_yields (d : Json) (h : P d) :
    Yields (fun r => Every (ReadFrom P) r.values ∧ r.statement.GivesRows) (decode? d) := by
  cases d with
  | object fields =>
    have hfields := hP.value h
    have hselect : Every (ReadFrom P) Statement.select.values ∧ Statement.select.GivesRows :=
      ⟨every_nil, trivial⟩
    have hstatement := fieldOr_yields (Statement.decode?_yields hP) hselect hfields "statement"
    have hquery := field_yields (fun v hv => Query.decodeIn?_yields hP v hv .plain) hfields "query"
    exact .checked (hstatement.bind fun _ hstatement => hquery.bind fun _ hquery =>
      .pure ⟨every_append.2 ⟨hstatement.1, hquery⟩, hstatement.2⟩)
  | _ => exact .none

end Statements

end SqlCompiler
