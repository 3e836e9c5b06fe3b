import SqlCompiler.Dialect

/-!
# Faults

Why a query cannot be compiled. Each fault is a cause; its kind and its message follow from it.

## Main definitions

- `Feature`: what a dialect may lack
- `Fault`: the causes
- `Fault.kind`: an unsupported feature, a malformed query, or an invalid option
- `Fault.message`: the wording
-/

namespace SqlCompiler

/-- A feature that a dialect may lack. -/
inductive Feature where
  | lateralJoins
  | caseSensitiveLike
  | jsonSelectors
  | jsonContains
  | jsonContainsKey
  | jsonLength
  | fullTextSearch
  | insertOrIgnore
  | upsert
deriving DecidableEq, Repr

/-- The name of a feature in messages. -/
def Feature.name : Feature → String
  | .lateralJoins => "lateral joins"
  | .caseSensitiveLike => "case-sensitive like"
  | .jsonSelectors => "JSON operations"
  | .jsonContains => "JSON contains"
  | .jsonContainsKey => "JSON contains key"
  | .jsonLength => "JSON length"
  | .fullTextSearch => "full-text search"
  | .insertOrIgnore => "insert or ignore"
  | .upsert => "upsert"

/-- A statement that changes selected rows. -/
inductive RowWrite where
  | update
  | delete
deriving DecidableEq, Repr

/-- The keyword of a statement. -/
def RowWrite.keyword : RowWrite → String
  | .update => "update"
  | .delete => "delete"

/-- A clause that restricts rows, and that an update or delete may be unable to carry. -/
inductive Restriction where
  | groupBy
  | having
  | union
  | offset
  | limit
deriving DecidableEq, Repr

/-- The name of a clause in messages. -/
def Restriction.name : Restriction → String
  | .groupBy => "group by"
  | .having => "having"
  | .union => "union"
  | .offset => "offset"
  | .limit => "limit"

/-- Why a query cannot be compiled. -/
inductive Fault where
  | unsupported (dialect : Dialect) (feature : Feature)
  | missingTable
  | emptyWhereGroup
  | emptyHavingGroup
  | rowWidth (columns values : Nat)
  | emptyUpdate
  | unevenRows
  | unrenderedClause (dialect : Dialect) (write : RowWrite) (clause : Restriction)
  | lateralTarget
  | lateralCondition
  | emptyUnionFetch
  | mergeTarget
  | upsertWithoutKey
  | truncateTarget
  | unknownDialect (name : String)
deriving DecidableEq, Repr

/-- The three kinds of faults. -/
inductive FaultKind where
  | unsupported
  | malformed
  | invalidOption
deriving DecidableEq, Repr

namespace Fault

/-- The kind of a fault. -/
def kind : Fault → FaultKind
  | .unsupported _ _ => .unsupported
  | .missingTable | .emptyWhereGroup | .emptyHavingGroup | .rowWidth _ _ | .emptyUpdate
  | .unevenRows => .malformed
  | .unrenderedClause _ _ _ | .lateralTarget | .lateralCondition | .emptyUnionFetch | .mergeTarget
  | .upsertWithoutKey | .truncateTarget | .unknownDialect _ => .invalidOption

/-- What is wrong, without the kind. -/
def detail : Fault → String
  | .unsupported dialect feature => dialect.name ++ " does not support " ++ feature.name
  | .missingTable => "statement requires a table"
  | .emptyWhereGroup => "nested where group is empty"
  | .emptyHavingGroup => "nested having group is empty"
  | .rowWidth columns values =>
    "row value comparison has " ++ toString columns ++ " columns but " ++ toString values ++
      " values"
  | .emptyUpdate => "update requires at least one column"
  | .unevenRows => "insert records have different column sets"
  | .unrenderedClause dialect write clause =>
    dialect.name ++ " " ++ write.keyword ++ " cannot carry a " ++ clause.name ++ " clause"
  | .lateralTarget => "lateral joins require a sub-select target"
  | .lateralCondition => "lateral joins take no on clause"
  | .emptyUnionFetch => Dialect.sqlserver.name ++ " cannot fetch zero rows of a union"
  | .mergeTarget => "merge requires a plain table name"
  | .upsertWithoutKey => "upsert requires at least one unique column"
  | .truncateTarget => "truncate requires a plain table name"
  | .unknownDialect name => "unknown dialect \x60" ++ name ++ "\x60"

/-- The message of a fault. -/
def message (f : Fault) : String :=
  match f.kind with
  | .unsupported => f.detail
  | .malformed => "Malformed query state: " ++ f.detail
  | .invalidOption => "Invalid option: " ++ f.detail

end Fault

/-- The dialect of a name, in any case of its ASCII letters. -/
def Dialect.ofName (name : String) : Except Fault Dialect :=
  match Dialect.ofName? (lowercase name) with
  | some d => .ok d
  | none => .error (.unknownDialect (lowercase name))

/-- The fault of a feature that the dialect of a target lacks. -/
def Target.lacks {α : Type} (t : Target) (feature : Feature) : Except Fault α :=
  .error (.unsupported t.dialect feature)

end SqlCompiler
