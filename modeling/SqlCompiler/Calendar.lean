/-!
# Dates and Times

Calendar dates, times of day and their texts.

## Main definitions

- `Date`, `TimeOfDay`, `Moment`: a day of the proleptic Gregorian calendar, a time, both together
- `Date.of?`, `TimeOfDay.of?`: the date or time of given numbers, where they name one
- `Date.text`, `TimeOfDay.text`, `Moment.text`: their texts
-/

namespace SqlCompiler

/-! ## §1 Dates -/

/-- A day of the proleptic Gregorian calendar. -/
structure Date where
  year : Int
  month : Nat
  day : Nat
deriving DecidableEq, Repr

namespace Date

/-- A year with a twenty-ninth of February. -/
def isLeap (year : Int) : Bool :=
  year % 4 == 0 && (year % 100 != 0 || year % 400 == 0)

/-- The number of days of a month; none outside of January to December. -/
def daysIn (year : Int) (month : Nat) : Nat :=
  match month with
  | 1 | 3 | 5 | 7 | 8 | 10 | 12 => 31
  | 4 | 6 | 9 | 11 => 30
  | 2 => if isLeap year then 29 else 28
  | _ => 0

/-- The date of given numbers, for the years from -262143 to 262142. -/
def of? (year : Int) (month day : Nat) : Option Date :=
  if -262143 ≤ year ∧ year ≤ 262142 ∧ 1 ≤ day ∧ day ≤ daysIn year month then
    some ⟨year, month, day⟩
  else none

end Date

/-! ## §2 Times -/

/-- The number of nanoseconds in a second. -/
def nanosPerSecond : Nat := 1000000000

/-- The number of nanoseconds in a millisecond. -/
def nanosPerMilli : Nat := 1000000

/-- A time of day. From one second on, the nanoseconds count within a leap second. -/
structure TimeOfDay where
  hour : Nat
  minute : Nat
  second : Nat
  nanosecond : Nat
deriving DecidableEq, Repr

/-- The time of given numbers. A leap second follows the fifty-ninth second of a minute. -/
def TimeOfDay.of? (hour minute second nanosecond : Nat) : Option TimeOfDay :=
  if hour < 24 ∧ minute < 60 ∧ second < 60 ∧
      nanosecond < (if second = 59 then 2 * nanosPerSecond else nanosPerSecond) then
    some ⟨hour, minute, second, nanosecond⟩
  else none

/-- A date and a time of day. -/
structure Moment where
  date : Date
  time : TimeOfDay
deriving DecidableEq, Repr

/-! ## §3 Texts -/

/-- A number with at least `width` digits. -/
def padded (width n : Nat) : String :=
  let digits := Nat.toDigits 10 n
  String.ofList (List.replicate (width - digits.length) '0' ++ digits)

/-- A year with at least four digits, and with a sign unless it lies between 0 and 9999. -/
def Date.yearText (year : Int) : String :=
  let sign := if year < 0 then "-" else if 9999 < year then "+" else ""
  sign ++ padded 4 year.natAbs

/-- Year, month and day with hyphens between them. -/
def Date.text (d : Date) : String :=
  Date.yearText d.year ++ "-" ++ padded 2 d.month ++ "-" ++ padded 2 d.day

/-- Hour, minute and second with colons between them; a leap second is the sixtieth. -/
def TimeOfDay.text (t : TimeOfDay) : String :=
  padded 2 t.hour ++ ":" ++ padded 2 t.minute ++ ":" ++
    padded 2 (t.second + t.nanosecond / nanosPerSecond)

/-- The point and the full milliseconds of the current second. -/
def TimeOfDay.milliseconds (t : TimeOfDay) : String :=
  "." ++ padded 3 (t.nanosecond % nanosPerSecond / nanosPerMilli)

/-- Date and time with a blank between them. -/
def Moment.text (m : Moment) : String :=
  m.date.text ++ " " ++ m.time.text

end SqlCompiler
