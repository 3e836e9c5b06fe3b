import SqlCompiler.Calendar
import SqlCompiler.Dialect
import SqlCompiler.Value

/-!
# Bound Dates and Times

Dates and times are bound as texts. The text of a moment depends on the dialect.

## Main definitions

- `Date.value`, `TimeOfDay.value`, `Moment.value`: texts to bind in any dialect
- `Dialect.momentFormat`, `Dialect.momentText`: the form in which a dialect stores moments
-/

namespace SqlCompiler

/-- A date to bind. -/
def Date.value (d : Date) : Value :=
  .text d.text

/-- A time of day to bind, without fractions of a second. -/
def TimeOfDay.value (t : TimeOfDay) : Value :=
  .text t.text

/-- A moment to bind, without fractions of a second. -/
def Moment.value (m : Moment) : Value :=
  .text m.text

namespace Dialect

/-- Whether stored moments have milliseconds. -/
def keepsMilliseconds : Dialect → Bool
  | .sqlserver => true
  | _ => false

/-- The pattern of stored moments. -/
def momentFormat (d : Dialect) : String :=
  "%Y-%m-%d %H:%M:%S" ++ (if d.keepsMilliseconds then "%.3f" else "")

/-- The text of a stored moment. -/
def momentText (d : Dialect) (m : Moment) : String :=
  m.text ++ (if d.keepsMilliseconds then m.time.milliseconds else "")

/-- A stored moment to bind. -/
def momentValue (d : Dialect) (m : Moment) : Value :=
  .text (d.momentText m)

end Dialect

end SqlCompiler
