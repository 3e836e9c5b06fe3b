import SqlCompiler.Dialect
import SqlCompiler.Text.Blank
import SqlCompiler.Text.Split

/-!
# Identifiers

Quoted names: single identifiers, qualified columns, and tables with prefix and alias.

## Main definitions

- `splitAlias?`: a name and its alias around the word `as`
- `Target.quoteIdentifier`: one identifier between the quotes of the dialect
- `Target.quoteTable`: a table name, with the table prefix on the table and on its alias
- `Target.quoteSegments`: a column that may be qualified
- `Target.quoteField`: a column that may be qualified and aliased
-/

namespace SqlCompiler

/-! ## §1 Aliases -/

/-- What follows the word `as` between blanks, if a text begins with that. The letters may stand
in any case, the long `ſ` included. -/
def afterAs? (cs : List Char) : Option (List Char) :=
  match cs with
  | [] => none
  | c :: _ =>
    -- the word needs a blank on both sides
    if Text.isBlank c then
      match Text.dropBlanks cs with
      | a :: s :: b :: rest =>
        if (a = 'a' ∨ a = 'A') ∧ (s = 's' ∨ s = 'S' ∨ s = 'ſ') ∧ Text.isBlank b then
          some (Text.dropBlanks rest)
        else none
      | _ => none
    else none

/-- What stands before and after the first word `as` between blanks. -/
def splitAs? : List Char → Option (List Char × List Char)
  | [] => none
  | c :: cs =>
    match afterAs? (c :: cs) with
    | some rest => some ([], rest)
    | none => (splitAs? cs).map fun (before, after) => (c :: before, after)

/-- A name and its alias: what stands before the first word `as`, and what stands between it and
the second one. -/
def splitAlias? (s : String) : Option (String × String) :=
  (splitAs? s.toList).map fun (before, after) =>
    let asName :=
      match splitAs? after with
      | some (asName, _) => asName
      | none => after
    (String.ofList before, String.ofList asName)

/-! ## §2 Single identifiers -/

/-- The opening quote of identifiers. -/
def Dialect.openQuote : Dialect → Char
  | .mysql => '\x60'
  | .sqlserver => '['
  | _ => '"'

/-- The closing quote of identifiers, which is doubled inside. -/
def Dialect.closeQuote : Dialect → Char
  | .mysql => '\x60'
  | .sqlserver => ']'
  | _ => '"'

namespace Target

/-- A single identifier. The star stands for all columns and is not quoted. -/
def quoteIdentifier (t : Target) (name : String) : String :=
  if name = "*" then name
  else
    t.dialect.openQuote.toString ++ Text.double t.dialect.closeQuote name ++
      t.dialect.closeQuote.toString

/-- The identifier of a table or table alias, with the table prefix in front. -/
def quotePrefixed (t : Target) (name : String) : String :=
  t.quoteIdentifier (t.options.tablePrefix ++ name)

/-! ## §3 Tables -/

/-- The arguments of a table-valued function moved behind the closing bracket: `[fn(1)]` becomes
`[fn](1)`. The arguments start at the first parenthesis after the first character and end with the
text; a text with a line feed has none. -/
def argumentsOutside (quoted : List Char) : List Char :=
  match quoted with
  | [] => []
  | c :: cs =>
    if quoted.contains '\n' then quoted
    else
      -- the end of the text decides first: a closing parenthesis in front of the closing bracket
      match cs.reverse with
      | ']' :: ')' :: inside =>
        match Text.splitFirstChars? ['('] inside.reverse with
        | some (name, arguments) => c :: name ++ [']', '('] ++ arguments ++ [')']
        | none => quoted
      | _ => quoted

/-- A quoted table name as the dialect writes it; only SQL Server has table-valued functions. -/
def finishTable (t : Target) (quoted : String) : String :=
  match t.dialect with
  | .sqlserver => String.ofList (argumentsOutside quoted.toList)
  | _ => quoted

/-- A table name without alias: schema segments, and the prefixed name after the last dot. -/
def quoteBareTable (t : Target) (table : String) : String :=
  t.finishTable <|
    match Text.splitLast? "." table with
    | some (schema, name) =>
      Text.join "." ((Text.splitOn "." schema).map t.quoteIdentifier) ++ "." ++ t.quotePrefixed name
    | none => t.quotePrefixed table

/-- A table name that may have an alias. Both get the table prefix. -/
def quoteTable (t : Target) (table : String) : String :=
  match splitAlias? table with
  | some (name, asName) => t.finishTable (t.quoteBareTable name ++ " as " ++ t.quotePrefixed asName)
  | none => t.quoteBareTable table

/-! ## §4 Columns -/

/-- A column that may be qualified; the first of several segments is a table. -/
def quoteSegments (t : Target) (column : String) : String :=
  match Text.splitOn "." column with
  -- the qualifier is a table, so the table prefix goes in front of it
  | first :: second :: rest =>
    Text.join "." (t.quoteTable first :: (second :: rest).map t.quoteIdentifier)
  | segments => Text.join "." (segments.map t.quoteIdentifier)

/-- A column that may be qualified and aliased. -/
def quoteField (t : Target) (column : String) : String :=
  match splitAlias? column with
  | some (name, asName) => t.quoteSegments name ++ " as " ++ t.quoteIdentifier asName
  | none => t.quoteSegments column

end Target

end SqlCompiler
