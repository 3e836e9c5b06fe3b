import SqlCompiler.Dialect

/-!
# Savepoints

Places within a transaction that can be returned to. Names stand in the statement as they are given.

## Main definitions

- `Dialect.savepoint`: the statement that creates a savepoint
- `Dialect.rollback`: the statement that returns to one
-/

namespace SqlCompiler.Dialect

/-- Whether a dialect has savepoints, as all of them do. -/
def hasSavepoints (_ : Dialect) : Bool :=
  true

/-- The statement that creates a savepoint. -/
def savepoint (d : Dialect) (name : String) : String :=
  match d with
  | .sqlserver => "SAVE TRANSACTION " ++ name
  | _ => "SAVEPOINT " ++ name

/-- The statement that returns to a savepoint. -/
def rollback (d : Dialect) (name : String) : String :=
  match d with
  | .sqlserver => "ROLLBACK TRANSACTION " ++ name
  | _ => "ROLLBACK TO SAVEPOINT " ++ name

end SqlCompiler.Dialect
