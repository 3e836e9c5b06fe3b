import SqlCompiler.Json.Basic
import SqlCompiler.Numeric.Format

/-!
# Written JSON

JSON values as text, on one line or indented.

## Main definitions

- `Json.quote`: a string literal
- `Json.compact`: a value without any blank
- `Json.pretty`: a value with a line for every item and field
-/

namespace SqlCompiler.Json

/-! ## §1 Scalars -/

/-- The escaped form of one character: a short escape where there is one, four lowercase
hexadecimal digits for any other control character, itself otherwise. -/
def escapeChar (c : Char) : List Char :=
  match c with
  | '"' => ['\\', '"']
  | '\\' => ['\\', '\\']
  | '\n' => ['\\', 'n']
  | '\r' => ['\\', 'r']
  | '\t' => ['\\', 't']
  | '\x08' => ['\\', 'b']
  | '\x0c' => ['\\', 'f']
  | c =>
    if c.toNat < 0x20 then
      let digits := Nat.toDigits 16 c.toNat
      ['\\', 'u'] ++ List.replicate (4 - digits.length) '0' ++ digits
    else [c]

/-- A string literal. -/
def quote (s : String) : String :=
  String.ofList ('"' :: (s.toList.flatMap escapeChar ++ ['"']))

/-- A double; what is not finite is written as null. -/
def writeDouble (x : Binary64) : String :=
  if x.isFinite then x.written NumberFormat.json else "null"

/-! ## §2 Compact text -/

mutual

/-- A value without any blank. -/
def compact : Json → String
  | .null => "null"
  | .bool b => if b then "true" else "false"
  | .integer n => toString n
  | .double x => writeDouble x
  | .string s => quote s
  | .array items => "[" ++ compactItems items ++ "]"
  | .object fields => "\x7b" ++ compactFields fields ++ "\x7d"
  | .unreadable => "null"

/-- Items with commas between them. -/
def compactItems : List Json → String
  | [] => ""
  | [v] => v.compact
  | v :: vs => v.compact ++ "," ++ compactItems vs

/-- Fields with commas between them. -/
def compactFields : List (String × Json) → String
  | [] => ""
  | [(k, v)] => quote k ++ ":" ++ v.compact
  | (k, v) :: fields => quote k ++ ":" ++ v.compact ++ "," ++ compactFields fields

end

/-! ## §3 Indented text -/

/-- The start of a line at a depth: two blanks per level. -/
def newLine (depth : Nat) : String :=
  String.ofList ('\n' :: List.replicate (2 * depth) ' ')

mutual

/-- A value inside `depth` containers, every item and field on a line of its own. -/
def prettyAt (depth : Nat) : Json → String
  | .array [] => "[]"
  | .array items => "[" ++ prettyItems (depth + 1) items ++ newLine depth ++ "]"
  | .object [] => "\x7b\x7d"
  | .object fields => "\x7b" ++ prettyFields (depth + 1) fields ++ newLine depth ++ "\x7d"
  | .null => "null"
  | .bool b => if b then "true" else "false"
  | .integer n => toString n
  | .double x => writeDouble x
  | .string s => quote s
  | .unreadable => "null"

/-- Items, each on its line. -/
def prettyItems (depth : Nat) : List Json → String
  | [] => ""
  | [v] => newLine depth ++ v.prettyAt depth
  | v :: vs => newLine depth ++ v.prettyAt depth ++ "," ++ prettyItems depth vs

/-- Fields, each on its line. -/
def prettyFields (depth : Nat) : List (String × Json) → String
  | [] => ""
  | [(k, v)] => newLine depth ++ quote k ++ ": " ++ v.prettyAt depth
  | (k, v) :: fields =>
    newLine depth ++ quote k ++ ": " ++ v.prettyAt depth ++ "," ++ prettyFields depth fields

end

/-- A value with a line for every item and field. -/
def pretty (v : Json) : String :=
  v.prettyAt 0

end SqlCompiler.Json
