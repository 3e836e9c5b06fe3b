import SqlCompiler.Proofs.RawMarker
import SqlCompiler.Proofs.UniqueKeys
import SqlCompiler.Request

/-!
# Values in Requests

The values that a request carries, at any depth, whether they are compiled or not. A value comes
back from its JSON form unless it is a document in the form of raw SQL. Such a document is read
where an object has the key `raw` more than once: no raw SQL is marked like that, and the document
that it denotes has the key once.

## Main definitions

- `Query.values`, `Statement.values`, `Request.values`: the values of what is read and written
- `Value.Stable`: a value that comes back from its JSON form
- `Every`: a property of every value of a list

## Main statements

- `Value.stable_iff`: the values that are read and do not come back
- `Value.ne_marker`: no such value is read where no key repeats
-/

namespace SqlCompiler

open Codec Json

/-! ## §1 Single values -/

namespace Value

variable {d : Json} {v : Value}

/-- A value that comes back from its JSON form. -/
def Stable (v : Value) : Prop :=
  decode? v.encode = some v

/-- A value whose JSON form can be read. -/
abbrev Legible (v : Value) : Prop :=
  Json.Legible v.encode

theorem integer?_toInt (n : Int64) : integer? (.integer n.toInt) = some n := by
  have hbounds : Int64.minValue.toInt ≤ n.toInt ∧ n.toInt ≤ Int64.maxValue.toInt :=
    ⟨n.minValue_le_toInt, n.toInt_le⟩
  rw [integer?, if_pos hbounds, Int64.ofInt_toInt]

/-- A value that is no document comes back. -/
theorem stable_of_not_json (h : ∀ doc, v ≠ .json doc) : v.Stable := by
  cases v with
  | json doc => exact absurd rfl (h doc)
  | int n =>
    rw [Stable, encode, decode?, integer?_toInt]
  | _ => rfl

theorem legible_of_not_json (h : ∀ doc, v ≠ .json doc) : v.Legible := by
  cases v with
  | json doc => exact absurd rfl (h doc)
  | raw sql => simp [Legible, encode]
  | _ => simp [Legible, encode]

/-- What is read is no document, or it is the one that a list or an object denotes. -/
theorem decode?_form (h : decode? d = some v) :
    (∀ doc, v ≠ .json doc) ∨
      d.isReadable = true ∧ d.isContainer = true ∧ rawMarker? d = none ∧ v = .json d.canonical := by
  -- only objects and arrays are read as documents
  by_cases hcontainer : d.isContainer = true
  · by_cases hreadable : d.isReadable = true
    · rw [decode?_container hreadable hcontainer] at h
      cases hmarker : rawMarker? d with
      | none =>
        rw [hmarker] at h
        exact .inr ⟨hreadable, hcontainer, rfl, (Option.some.inj h).symm⟩
      | some sql =>
        rw [hmarker] at h
        exact .inl fun doc hdoc => by
          rw [hdoc] at h
          cases h
    · rw [decode?_unreadable (Bool.not_eq_true _ ▸ hreadable)] at h
      cases h
  · refine .inl fun doc hdoc => ?_
    subst hdoc
    cases d with
    | array | object => exact hcontainer rfl
    | integer n =>
      simp only [decode?] at h
      cases hn : integer? (.integer n) <;> rw [hn] at h <;> cases h
    | _ => cases h

theorem legible_of_decode? (h : decode? d = some v) : v.Legible := by
  rcases decode?_form h with hplain | ⟨hreadable, -, -, rfl⟩
  · exact legible_of_not_json hplain
  · exact legible_canonical hreadable

/-- The document that is no marker and denotes one. -/
theorem canonical_marker (hmarker : rawMarker? d = none) {sql : String}
    (h : rawMarker? d.canonical = some sql) :
    d.canonical = .object [("raw", .string sql)] ∧ d.keysOnce = false := by
  rcases rawMarker?_eq_some_iff.1 h with hdoc | hdoc
  · refine ⟨hdoc, ?_⟩
    cases d with
    | object fields =>
      rw [canonical, object.injEq] at hdoc
      -- if every key occurs once, sorting drops none and `d` is a marker itself
      by_contra hkeys
      obtain ⟨hnodup, -⟩ := keysOnce_object.1 (Bool.not_eq_false _ ▸ hkeys)
      rw [eq_of_canonical_single hnodup hdoc] at hmarker
      cases hmarker
    | _ => cases hdoc
  · cases d with
    | array items =>
      rw [canonical, array.injEq] at hdoc
      rw [eq_of_canonicalItems_single hdoc] at hmarker
      cases hmarker
    | _ => cases hdoc

/-- What is read comes back, unless it is a document in the form of raw SQL. -/
theorem stable_iff (h : decode? d = some v) :
    v.Stable ↔ ∀ sql, v ≠ .json (.object [("raw", .string sql)]) := by
  constructor
  · rintro hstable sql rfl
    cases hstable
  · intro hne
    rcases decode?_form h with hplain | ⟨hreadable, hcontainer, hmarker, rfl⟩
    · exact stable_of_not_json hplain
    · have hread : d.canonical.isReadable = true := isReadable_canonical d hreadable
      have hcont : d.canonical.isContainer = true := (isContainer_canonical d).trans hcontainer
      rw [Stable, encode, decode?_container hread hcont, canonical_canonical]
      -- a marker may come about only when repeated keys are dropped
      cases hcanonical : rawMarker? d.canonical with
      | none => rfl
      | some sql =>
        have hdoc := (canonical_marker hmarker hcanonical).1
        exact absurd (congrArg Value.json hdoc) (hne sql)

/-- Where no key repeats no document in the form of raw SQL is read. -/
theorem ne_marker (hkeys : d.keysOnce = true) (h : decode? d = some v) (sql : String) :
    v ≠ .json (.object [("raw", .string sql)]) := by
  rintro rfl
  rcases decode?_form h with hplain | ⟨-, -, hmarker, hdoc⟩
  · exact hplain _ rfl
  · have hcanonical : rawMarker? d.canonical = some sql := by
      rw [← Value.json.inj hdoc]
      rfl
    rw [(canonical_marker hmarker hcanonical).2] at hkeys
    cases hkeys

end Value

/-! ## §2 Lists of values -/

/-- A property of every value of a list. -/
def Every (Q : Value → Prop) (values : List Value) : Prop :=
  ∀ v ∈ values, Q v

section Every

variable {Q : Value → Prop}

@[simp] theorem every_nil : Every Q [] :=
  fun _ hv => nomatch hv

@[simp] theorem every_cons {v : Value} {vs : List Value} :
    Every Q (v :: vs) ↔ Q v ∧ Every Q vs :=
  List.forall_mem_cons

@[simp] theorem every_append {vs ws : List Value} :
    Every Q (vs ++ ws) ↔ Every Q vs ∧ Every Q ws :=
  List.forall_mem_append

theorem every_flatMap {α : Type} {f : α → List Value} {xs : List α} :
    Every Q (xs.flatMap f) ↔ ∀ x ∈ xs, Every Q (f x) := by
  simp only [Every, List.mem_flatMap, forall_exists_index, and_imp]
  exact ⟨fun h x hx v hv => h v x hx hv, fun h v x hx hv => h x hx v hv⟩

theorem Every.imp {Q' : Value → Prop} {values : List Value} (h : Every Q values)
    (himp : ∀ v, Q v → Q' v) : Every Q' values :=
  fun v hv => himp v (h v hv)

end Every

/-! ## §3 Values of queries -/

/-- The values of the columns of a distinct select. -/
def Distinct.values : Distinct → List Value
  | .on columns => columnBindings columns
  | _ => []

mutual

/-- The values of a table. -/
def Table.values : Table → List Value
  | .named _ => []
  | .raw _ bindings => bindings
  | .derived query _ => query.values

/-- The values of the table of a query. -/
def sourceValues : Option Table → List Value
  | none => []
  | some tbl => tbl.values

/-- The values of a joined table. -/
def Join.values : Join → List Value
  | ⟨_, tbl, on, joins, _⟩ => tbl.values ++ clauseValues on ++ joinsValues joins

/-- The values of joined tables. -/
def joinsValues : List Join → List Value
  | [] => []
  | j :: rest => j.values ++ joinsValues rest

/-- The values of the branches of a union. -/
def branchValues : List UnionBranch → List Value
  | [] => []
  | ⟨query, _⟩ :: rest => query.values ++ branchValues rest

/-- The values of a condition on rows. -/
def Predicate.values : Predicate → List Value
  | .raw _ bindings => bindings
  | .compare c _ v => c.bindings ++ [v]
  | .bitwise c _ v => c.bindings ++ [v]
  | .jsonBoolean _ _ _ => []
  | .like c pattern _ _ => c.bindings ++ [pattern]
  | .between c low high _ => c.bindings ++ [low, high]
  | .betweenColumns c low high _ => columnBindings [c, low, high]
  | .inList c values _ => c.bindings ++ values
  | .inQuery c query _ => c.bindings ++ query.values
  | .inIntegers c _ _ => c.bindings
  | .isNull c => c.bindings
  | .isNotNull c => c.bindings
  | .datePart _ c _ v => c.bindings ++ [v]
  | .group inner => clauseValues inner
  | .hasRows query _ => query.values
  | .compareQuery c _ query => c.bindings ++ query.values
  | .compareColumns first _ second => columnBindings [first, second]
  | .rowValues columns _ values => columnBindings columns ++ values
  | .jsonContains _ v _ => [v]
  | .jsonContainsKey _ _ => []
  | .jsonLength _ _ v => [v]
  | .fullText columns v _ => columnBindings columns ++ [v]

/-- The values of conditions on rows. -/
def clauseValues : List (Clause Predicate) → List Value
  | [] => []
  | ⟨_, node⟩ :: rest => node.values ++ clauseValues rest

/-- The values of a query, in the order of its fields. -/
def Query.values : Query → List Value
  | ⟨source, columns, distinct, aggregate, joins, wheres, groups, havings, orders, _, _, _, unions,
      unionOrders, _, _⟩ =>
    sourceValues source ++ columnBindings (columns.getD []) ++ distinct.values ++
      columnBindings (aggregate.elim [] Aggregate.columns) ++ joinsValues joins ++
      clauseValues wheres ++ columnBindings groups ++ havingBindings havings ++
      orderBindings orders ++ branchValues unions ++ orderBindings unionOrders

end

/-! ## §4 Values of statements -/

/-- The values of the rows of an insert. -/
def Rows.values (rows : Rows) : List Value :=
  rows.toList.flatMap Row.values

/-- The values of a statement. -/
def Statement.values : Statement → List Value
  | .insert rows | .insertOrIgnore rows | .insertGetId rows _ => rows.values
  | .insertUsing columns query => columnBindings columns ++ query.values
  | .upsert rows _ columns => rows.values ++ columns.filterMap UpsertColumn.value?
  | .update row => row.values
  | .select | .hasRows | .delete | .truncate => []

/-- A statement that is no insert or upsert of an empty batch. -/
def Statement.GivesRows : Statement → Prop
  | .insert rows | .insertOrIgnore rows | .insertGetId rows _ | .upsert rows _ _ =>
    rows ≠ .batch []
  | _ => True

/-- The values of a request. -/
def Request.values (r : Request) : List Value :=
  r.statement.values ++ r.query.values

end SqlCompiler
