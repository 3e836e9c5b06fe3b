import SqlCompiler.Compile
import SqlCompiler.Proofs.ClosedSelectors
import SqlCompiler.Proofs.NestedQueries

/-!
# Ingredients

What a query and a statement bring into their text: fragments that stand in it as they are, and
names that are quoted. Values are not among them unless they are raw.

## Main definitions

- `Ingredient`: a fragment, the name of a column, or the name of a table
- `Query.ingredients`, `Statement.ingredients`: what is brought in at any depth
- `Target.Admits`: what a text may be made of without losing its quotes and parentheses
-/

namespace SqlCompiler

/-! ## §1 Parts of a text -/

/-- What a query brings into its text. -/
inductive Ingredient where
  /-- SQL that stands in the text as it is. -/
  | fragment (sql : String)
  /-- The name of a column. -/
  | name (name : String)
  /-- The name of a table, or the alias of a query. -/
  | table (name : String)

/-- What may be brought into a text: fragments that are contained themselves, and names that the
dialect can quote. -/
def Target.Admits (t : Target) : Ingredient → Prop
  | .fragment sql => t.dialect.Contained sql
  | .name name => t.NameFits name
  | .table name =>
    t.TableFits name ∧ (t.dialect = .postgres → isSelector name = true → '\'' ∉ name.toList)

instance (t : Target) (table : String) : Decidable (t.TableFits table) :=
  inferInstanceAs (Decidable (_ → _))

instance (t : Target) (name : String) : Decidable (t.NameFits name) :=
  decidable_of_iff
    ((t.dialect = .postgres → isSelector name = true → '\'' ∉ name.toList) ∧
      t.TableFits (qualifierOf (columnOf name)))
    ⟨fun ⟨h, h'⟩ => ⟨h, h'⟩, fun ⟨h, h'⟩ => ⟨h, h'⟩⟩

instance (t : Target) (i : Ingredient) : Decidable (t.Admits i) :=
  match i with
  | .fragment sql => inferInstanceAs (Decidable (t.dialect.Contained sql))
  | .name name => inferInstanceAs (Decidable (t.NameFits name))
  | .table name => inferInstanceAs (Decidable (t.TableFits name ∧ (_ → _ → ¬ _)))

/-- All of this may be brought into a text. -/
def Target.AdmitsAll (t : Target) (ingredients : List Ingredient) : Prop :=
  ∀ i ∈ ingredients, t.Admits i

instance (t : Target) (ingredients : List Ingredient) : Decidable (t.AdmitsAll ingredients) :=
  inferInstanceAs (Decidable (∀ i ∈ ingredients, _))

section AdmitsAll

variable {t : Target} {is js : List Ingredient} {i : Ingredient}

@[simp] theorem admitsAll_nil : t.AdmitsAll [] :=
  fun _ h => absurd h List.not_mem_nil

@[simp] theorem admitsAll_cons : t.AdmitsAll (i :: is) ↔ t.Admits i ∧ t.AdmitsAll is :=
  List.forall_mem_cons

@[simp] theorem admitsAll_append : t.AdmitsAll (is ++ js) ↔ t.AdmitsAll is ∧ t.AdmitsAll js :=
  List.forall_mem_append

theorem admitsAll_flatMap {α : Type} {f : α → List Ingredient} {xs : List α} :
    t.AdmitsAll (xs.flatMap f) ↔ ∀ x ∈ xs, t.AdmitsAll (f x) := by
  simp only [Target.AdmitsAll, List.forall_mem_flatMap]

theorem admitsAll_map {α : Type} {f : α → Ingredient} {xs : List α} :
    t.AdmitsAll (xs.map f) ↔ ∀ x ∈ xs, t.Admits (f x) := by
  simp only [Target.AdmitsAll, List.forall_mem_map]

end AdmitsAll

/-! ## §2 Values and columns -/

/-- A raw value stands in the text. -/
def Value.ingredients (v : Value) : List Ingredient :=
  v.raw?.toList.map .fragment

/-- What values bring in. -/
def valueIngredients (values : List Value) : List Ingredient :=
  values.flatMap Value.ingredients

/-- What a column brings in. -/
def Column.ingredients : Column → List Ingredient
  | .named name => [.name name]
  | .raw sql _ => [.fragment sql]

/-- What columns bring in. -/
def columnIngredients (columns : List Column) : List Ingredient :=
  columns.flatMap Column.ingredients

/-- What a sort key brings in. -/
def SortKey.ingredients : SortKey → List Ingredient
  | .column c _ => c.ingredients
  | .raw sql _ => [.fragment sql]
  | .random seed => seed.toList.map .fragment

/-- What sort keys bring in. -/
def orderIngredients (orders : List SortKey) : List Ingredient :=
  orders.flatMap SortKey.ingredients

/-- What an aggregate brings in. -/
def Aggregate.ingredients (aggregate : Aggregate) : List Ingredient :=
  .fragment aggregate.function :: columnIngredients aggregate.columns

/-- What a lock brings in. -/
def Lock.ingredients : Lock → List Ingredient
  | .raw sql => [.fragment sql]
  | .shared | .exclusive => []

mutual

/-- What a condition on groups brings in. -/
def HavingPredicate.ingredients : HavingPredicate → List Ingredient
  | .raw sql _ => [.fragment sql]
  | .compare c operator value => c.ingredients ++ .fragment operator :: value.ingredients
  | .between c low high _ => c.ingredients ++ valueIngredients [low, high]
  | .isNull c => c.ingredients
  | .isNotNull c => c.ingredients
  | .bitwise c operator value => c.ingredients ++ .fragment operator :: value.ingredients
  | .expression sql => [.fragment sql]
  | .group clauses => havingIngredients clauses

/-- What conditions on groups bring in. -/
def havingIngredients : List (Clause HavingPredicate) → List Ingredient
  | [] => []
  | ⟨_, node⟩ :: rest => node.ingredients ++ havingIngredients rest

end

/-! ## §3 Queries -/

mutual

/-- What a table brings in. -/
def Table.ingredients : Table → List Ingredient
  | .named name => [.table name]
  | .raw sql _ => [.fragment sql]
  | .derived query asName => query.ingredients ++ [.table asName]

/-- What the table of a query brings in. -/
def sourceIngredients : Option Table → List Ingredient
  | none => []
  | some tbl => tbl.ingredients

/-- What a joined table brings in. -/
def Join.ingredients : Join → List Ingredient
  | ⟨_, tbl, on, joins, _⟩ => tbl.ingredients ++ joinsIngredients joins ++ clauseIngredients on

/-- What joined tables bring in. -/
def joinsIngredients : List Join → List Ingredient
  | [] => []
  | j :: rest => j.ingredients ++ joinsIngredients rest

/-- What the branches of a union bring in. -/
def branchIngredients : List UnionBranch → List Ingredient
  | [] => []
  | ⟨query, _⟩ :: rest => query.ingredients ++ branchIngredients rest

/-- What a condition on rows brings in. -/
def Predicate.ingredients : Predicate → List Ingredient
  | .raw sql _ => [.fragment sql]
  | .compare c operator value => c.ingredients ++ .fragment operator :: value.ingredients
  | .bitwise c operator value => c.ingredients ++ .fragment operator :: value.ingredients
  | .jsonBoolean selector operator _ => [.name selector, .fragment operator]
  | .like c pattern _ _ => c.ingredients ++ pattern.ingredients
  | .between c low high _ => c.ingredients ++ valueIngredients [low, high]
  | .betweenColumns c low high _ => columnIngredients [c, low, high]
  | .inList c values _ => c.ingredients ++ valueIngredients values
  | .inQuery c query _ => c.ingredients ++ query.ingredients
  | .inIntegers c _ _ => c.ingredients
  | .isNull c => c.ingredients
  | .isNotNull c => c.ingredients
  | .datePart _ c operator value => c.ingredients ++ .fragment operator :: value.ingredients
  | .group inner => clauseIngredients inner
  | .hasRows query _ => query.ingredients
  | .compareQuery c operator query => c.ingredients ++ .fragment operator :: query.ingredients
  | .compareColumns first operator second =>
    .fragment operator :: columnIngredients [first, second]
  | .rowValues columns operator values =>
    columnIngredients columns ++ .fragment operator :: valueIngredients values
  | .jsonContains selector value _ => .name selector :: value.ingredients
  | .jsonContainsKey selector _ => [.name selector]
  | .jsonLength selector operator value => .name selector :: .fragment operator :: value.ingredients
  | .fullText columns value _ => columnIngredients columns ++ value.ingredients

/-- What conditions on rows bring in. -/
def clauseIngredients : List (Clause Predicate) → List Ingredient
  | [] => []
  | ⟨_, node⟩ :: rest => node.ingredients ++ clauseIngredients rest

/-- What a query brings in, with all queries nested in it. -/
def Query.ingredients : Query → List Ingredient
  | ⟨src, columns, distinct, aggregate, joins, wheres, groups, havings, orders, _, _, lock, unions,
      unionOrders, _, _⟩ =>
    sourceIngredients src ++ columnIngredients (columns.getD []) ++
      columnIngredients distinct.columns ++ aggregate.elim [] Aggregate.ingredients ++
      joinsIngredients joins ++ clauseIngredients wheres ++ columnIngredients groups ++
      havingIngredients havings ++ orderIngredients orders ++ lock.elim [] Lock.ingredients ++
      branchIngredients unions ++ orderIngredients unionOrders

end

/-- What a query brings in, clause by clause. -/
theorem Query.ingredients_eq (q : Query) :
    q.ingredients =
      sourceIngredients q.source ++ columnIngredients (q.columns.getD []) ++
        columnIngredients q.distinct.columns ++ q.aggregate.elim [] Aggregate.ingredients ++
        joinsIngredients q.joins ++ clauseIngredients q.wheres ++ columnIngredients q.groups ++
        havingIngredients q.havings ++ orderIngredients q.orders ++
        q.lock.elim [] Lock.ingredients ++ branchIngredients q.unions ++
        orderIngredients q.unionOrders := by
  cases q
  rfl

/-! ## §4 Statements -/

/-- What a row brings in. -/
def Row.ingredients (row : Row) : List Ingredient :=
  row.entries.flatMap fun (key, value) => .name key :: value.ingredients

/-- What the rows of an insert bring in. -/
def Rows.ingredients (rows : Rows) : List Ingredient :=
  rows.toList.flatMap Row.ingredients

/-- What an upsert column brings in. -/
def UpsertColumn.ingredients : UpsertColumn → List Ingredient
  | .incoming c => [.name c]
  | .value c v => .name c :: v.ingredients

/-- What a statement brings in besides the query that names its table. -/
def Statement.ingredients : Statement → List Ingredient
  | .select | .hasRows | .delete | .truncate => []
  | .insert rows => rows.ingredients
  | .insertOrIgnore rows => rows.ingredients
  | .insertGetId rows key => rows.ingredients ++ key.toList.map .name
  | .insertUsing columns query => columnIngredients columns ++ query.ingredients
  | .upsert rows uniqueBy assigned =>
    rows.ingredients ++ uniqueBy.map .name ++ assigned.flatMap UpsertColumn.ingredients
  | .update row => row.ingredients

end SqlCompiler
