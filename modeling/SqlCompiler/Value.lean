import SqlCompiler.Json.Writer
import SqlCompiler.Text.Split

/-!
# Bindable Values

The values that a statement carries. A value is bound through a placeholder, or, if it is a raw
expression, stands in the SQL text itself.

## Main definitions

- `Value`: null, booleans, numbers, texts, raw expressions and JSON documents
- `Value.toJson`, `Value.jsonText`: a value as a JSON document, and that document as a text value
- `Value.inline`: a value as an SQL literal
-/

namespace SqlCompiler

/-- A value that a statement carries. -/
inductive Value where
  | null
  | bool (b : Bool)
  | int (n : Int64)
  | float (x : Binary64)
  | text (s : String)
  /-- An SQL expression, put into the statement verbatim and never bound. -/
  | raw (sql : String)
  | json (doc : Json)
deriving Inhabited

namespace Value

/-- A raw expression. -/
def isRaw : Value → Bool
  | .raw _ => true
  | _ => false

/-- The SQL of a raw expression. -/
def raw? : Value → Option String
  | .raw sql => some sql
  | _ => none

/-- A JSON array or object. -/
def isContainer : Value → Bool
  | .json doc => doc.isContainer
  | _ => false

/-- A value as a JSON document; raw expressions become strings. -/
def toJson : Value → Json
  | .null => .null
  | .bool b => .bool b
  | .int n => .integer n.toInt
  | .float x => .double x
  | .text s => .string s
  | .raw s => .string s
  | .json doc => doc

/-- The JSON encoding of a value, as a text value. -/
def jsonText (v : Value) : Value :=
  .text v.toJson.compact

/-- A text between single quotes, the quotes inside doubled. -/
def literal (s : String) : String :=
  "'" ++ Text.double '\'' s ++ "'"

/-- A double as an SQL number; also the names of what is not finite. -/
def inlineFloat (x : Binary64) : String :=
  if x.isFinite then x.written NumberFormat.inline
  else if x.isNaN then "NaN"
  else if x.isNegative then "-inf" else "inf"

/-- A value as an SQL literal. -/
def inline : Value → String
  | .null => "NULL"
  | .bool b => if b then "TRUE" else "FALSE"
  | .int n => toString n.toInt
  | .float x => inlineFloat x
  | .text s => literal s
  | .raw sql => sql
  | .json doc => literal doc.compact

end Value

/-- The values of a list that are bound through placeholders. -/
def bound (values : List Value) : List Value :=
  values.filter fun v => !v.isRaw

@[simp] theorem bound_nil : bound [] = [] := rfl

theorem bound_singleton (v : Value) : bound [v] = if v.isRaw then [] else [v] := by
  cases v <;> rfl

@[simp] theorem bound_append (vs ws : List Value) : bound (vs ++ ws) = bound vs ++ bound ws :=
  List.filter_append ..

theorem bound_cons (v : Value) (vs : List Value) : bound (v :: vs) = bound [v] ++ bound vs :=
  bound_append [v] vs

@[simp] theorem bound_bound (vs : List Value) : bound (bound vs) = bound vs := by
  simp [bound]

@[simp] theorem bound_flatMap {α : Type} (f : α → List Value) (xs : List α) :
    bound (xs.flatMap f) = xs.flatMap fun x => bound (f x) :=
  List.filter_flatMap ..

end SqlCompiler
