import SqlCompiler.Query.Basic
import SqlCompiler.Selector
import SqlCompiler.Sql

/-!
# Predicates

The SQL of columns, of clauses, and of those predicates that look into no other query. The value of
a predicate is bound as it is, except where the dialect needs a pattern or a document in a form of
its own.

## Main definitions

- `Target.column`, `Target.columnList`: columns
- `Target.likeBinding`, `Target.jsonBinding`: the values bound for patterns and documents
- `Target.compare`, `Target.like`, `Target.between`, …: the predicates one by one
- `Target.havingClauses`: conditions on groups
- `Clause.body`: clauses with their connectives
-/

namespace SqlCompiler

/-! ## §1 Columns -/

namespace Target

/-- A column: its quoted name, or raw SQL as it is. -/
def column (t : Target) : Column → Except Fault Sql
  | .named name => do return (← t.quote name : String)
  | .raw sql bindings => return .fragment sql bindings

/-- Columns separated by commas. -/
def columnList (t : Target) (columns : List Column) : Except Fault Sql := do
  return .join ", " (← columns.mapM t.column)

end Target

/-! ## §2 Clauses -/

/-- The words of a connective in front of the first clause, where `and` and `or` have nothing to
connect. -/
def Connective.leadingWords : Connective → String
  | .and | .or => ""
  | .andNot | .orNot => "not "

/-- Clauses with their connectives. -/
def Clause.body : List (Clause Sql) → Sql
  | [] => .empty
  | first :: rest =>
    first.connective.leadingWords ++ first.node ++
      Sql.concat (rest.map fun c => " " ++ c.connective.words ++ " " ++ c.node)

/-! ## §3 Comparisons -/

/-- A text in which every question mark is escaped, so that none of them is a placeholder. -/
def escapePlaceholders (operator : String) : String :=
  Text.double '?' operator

/-- The word `not` in front of a negated predicate. -/
def negation (negated : Bool) : String :=
  if negated then "not " else ""

/-- Two operands with an operator between them. -/
def comparison (left : Sql) (operator : String) (right : Sql) : Sql :=
  left ++ " " ++ escapePlaceholders operator ++ " " ++ right

/-- A word within another one, in any case of its ASCII letters. -/
def mentions (word operator : String) : Bool :=
  (Text.splitFirst? word (lowercase operator)).isSome

namespace Target

/-- A column compared with an operand. PostgreSQL compares texts with patterns. -/
def compareOperand (t : Target) (c : Column) (operator : String) (operand : Sql) :
    Except Fault Sql := do
  let left ← t.column c
  match t.dialect with
  | .postgres =>
    -- this covers `ilike`, `not like` and any other spelling of the operator
    let left := if mentions "like" operator then left ++ "::text" else left
    return comparison left operator operand
  | _ => return comparison left operator operand

/-- A column compared with a value. -/
def compare (t : Target) (c : Column) (operator : String) (value : Value) : Except Fault Sql :=
  t.compareOperand c operator (.parameter value)

/-- A column combined with a value bit by bit. -/
def bitwise (t : Target) (c : Column) (operator : String) (value : Value) : Except Fault Sql :=
  match t.dialect with
  | .postgres => do
    return "(" ++ (← t.column c) ++ " " ++ operator ++ " " ++ Sql.parameter value ++ ")::bool"
  | _ => t.compare c operator value

/-! ## §4 Patterns -/

/-- The glob pattern of a like pattern: wildcards are exchanged, and what is a wildcard only in
globs stands in brackets. -/
def globPattern (pattern : String) : String :=
  String.ofList <| pattern.toList.flatMap fun c =>
    match c with
    | '*' => ['[', '*', ']']
    | '?' => ['[', '?', ']']
    | '%' => ['*']
    | '_' => ['?']
    | c => [c]

/-- The value bound for a pattern; SQLite matches case-sensitively by globs. -/
def likeBinding (t : Target) (pattern : Value) (caseSensitive : Bool) : Value :=
  match t.dialect, pattern, caseSensitive with
  | .sqlite, .text s, true => .text (globPattern s)
  | _, _, _ => pattern

/-- The operator of a pattern match, where the dialect has one. -/
def likeOperator? (t : Target) (caseSensitive : Bool) : Except Fault String :=
  match t.dialect, caseSensitive with
  | .mysql, true => .ok "like binary"
  | .postgres, false => .ok "ilike"
  | .postgres, true => .ok "like"
  | .sqlite, true => .ok "glob"
  | _, false => .ok "like"
  | _, true => t.lacks .caseSensitiveLike

/-- A column matched with a pattern. -/
def like (t : Target) (c : Column) (pattern : Value) (caseSensitive negated : Bool) :
    Except Fault Sql := do
  let operator ← t.likeOperator? caseSensitive
  t.compareOperand c (negation negated ++ operator)
    (.parameterFor pattern (t.likeBinding pattern caseSensitive))

/-! ## §5 Ranges, lists and nulls -/

/-- A column between two values. -/
def between (t : Target) (c : Column) (low high : Value) (negated : Bool) : Except Fault Sql := do
  return (← t.column c) ++ " " ++ negation negated ++ "between " ++ Sql.parameter low ++ " and " ++
    Sql.parameter high

/-- A column between two columns. -/
def betweenColumns (t : Target) (c low high : Column) (negated : Bool) : Except Fault Sql := do
  return (← t.column c) ++ " " ++ negation negated ++ "between " ++ (← t.column low) ++ " and " ++
    (← t.column high)

/-- Membership in nothing, which never holds. -/
def inNothing (negated : Bool) : Sql :=
  if negated then "1 = 1" else "0 = 1"

/-- A column among the given members. -/
def among (t : Target) (c : Column) (members : Sql) (negated : Bool) : Except Fault Sql := do
  return (← t.column c) ++ " " ++ negation negated ++ "in (" ++ members ++ ")"

/-- A column among values. -/
def inList (t : Target) (c : Column) (values : List Value) (negated : Bool) : Except Fault Sql :=
  if values.isEmpty then .ok (inNothing negated) else t.among c (.parameters values) negated

/-- A column among integers, which stand in the text. -/
def inIntegers (t : Target) (c : Column) (values : List Int64) (negated : Bool) :
    Except Fault Sql :=
  if values.isEmpty then .ok (inNothing negated)
  else t.among c (Text.join ", " (values.map fun n => toString n.toInt)) negated

/-- MySQL: whether a selector names nothing or a JSON null, and the opposite. -/
def selectorIsNull (t : Target) (name : String) (isNull : Bool) : String :=
  let extract := "json_extract(" ++ t.selectorArguments name ++ ")"
  if isNull then "(" ++ extract ++ " is null OR json_type(" ++ extract ++ ") = 'NULL')"
  else "(" ++ extract ++ " is not null AND json_type(" ++ extract ++ ") != 'NULL')"

/-- Whether a column is null, or is not. -/
def nullTest (t : Target) (c : Column) (isNull : Bool) : Except Fault Sql := do
  match t.dialect, c with
  | .mysql, .named name =>
    -- `is null` is false of a JSON null, which is a value
    if isSelector name then return (t.selectorIsNull name isNull : String)
    else return (← t.column c) ++ (if isNull then " is null" else " is not null")
  | _, _ => return (← t.column c) ++ (if isNull then " is null" else " is not null")

/-! ## §6 Dates, columns and rows -/

/-- A function of a column compared with a value. -/
def compareFunction (t : Target) (function : String) (c : Column) (operator : String)
    (value : Value) : Except Fault Sql := do
  return function ++ "(" ++ (← t.column c) ++ ") " ++ operator ++ " " ++ Sql.parameter value

/-- The format of a part of a date-time for SQLite. -/
def partFormat : DatePart → String
  | .date => "%Y-%m-%d"
  | .time => "%H:%M:%S"
  | .day => "%d"
  | .month => "%m"
  | .year => "%Y"

/-- A part of a date-time compared with a value. -/
def datePart (t : Target) (part : DatePart) (c : Column) (operator : String) (value : Value) :
    Except Fault Sql := do
  match t.dialect, part with
  | .postgres, .date | .postgres, .time =>
    return (← t.column c) ++ "::" ++ part.name ++ " " ++ operator ++ " " ++ Sql.parameter value
  | .postgres, _ =>
    return "extract(" ++ part.name ++ " from " ++ (← t.column c) ++ ") " ++ operator ++ " " ++
      Sql.parameter value
  -- `strftime` gives a text, and a text is never equal to a number
  | .sqlite, _ =>
    return "strftime('" ++ partFormat part ++ "', " ++ (← t.column c) ++ ") " ++ operator ++
      " cast(" ++ Sql.parameter value ++ " as text)"
  | .sqlserver, .date | .sqlserver, .time =>
    return "cast(" ++ (← t.column c) ++ " as " ++ part.name ++ ") " ++ operator ++ " " ++
      Sql.parameter value
  | _, _ => t.compareFunction part.name c operator value

/-- A column compared with a column. -/
def compareColumns (t : Target) (first : Column) (operator : String) (second : Column) :
    Except Fault Sql := do
  return (← t.column first) ++ " " ++ operator ++ " " ++ (← t.column second)

/-- Columns compared with as many values. -/
def rowValues (t : Target) (columns : List Column) (operator : String) (values : List Value) :
    Except Fault Sql := do
  -- the widths are compared before any column is looked at
  if columns.length ≠ values.length then
    throw (.rowWidth columns.length values.length)
  return "(" ++ (← t.columnList columns) ++ ") " ++ operator ++ " (" ++ Sql.parameters values ++ ")"

/-! ## §7 JSON and full text -/

/-- A selector compared with a boolean literal. -/
def jsonBoolean (t : Target) (selector operator : String) (value : Bool) : Except Fault Sql := do
  let selector ← t.booleanSelector selector
  return selector ++ " " ++ operator ++ " " ++ t.booleanLiteral (if value then "true" else "false")

/-- The value bound for a document that is looked for: its JSON encoding, except for scalars that
SQLite and SQL Server compare as they are. -/
def jsonBinding (t : Target) (value : Value) : Value :=
  match t.dialect, value with
  | .sqlite, .bool _ | .sqlserver, .bool _ => value.jsonText
  | .sqlite, _ | .sqlserver, _ => value
  | _, _ => value.jsonText

/-- Whether a document contains an operand. -/
def jsonContainsOperand (t : Target) (selector : String) (operand : Sql) : Except Fault Sql := do
  match t.dialect with
  | .generic | .mysql => t.lacks .jsonContains
  | .postgres => return "(" ++ (← t.quoteDocument selector) ++ ")::jsonb @> " ++ operand
  | .sqlite =>
    return "exists (select 1 from json_each(" ++ t.selectorArguments selector ++ ") where " ++
      t.quoteIdentifier "json_each" ++ "." ++ t.quoteIdentifier "value" ++ " is " ++ operand ++ ")"
  | .sqlserver => return operand ++ " in (select [value] from " ++ t.jsonRows selector ++ ")"

/-- Whether a document contains a value. -/
def jsonContains (t : Target) (selector : String) (value : Value) (negated : Bool) :
    Except Fault Sql := do
  return negation negated ++
    (← t.jsonContainsOperand selector (.parameterFor value (t.jsonBinding value)))

/-- Whether a document holds a key. -/
def jsonContainsKey (t : Target) (selector : String) (negated : Bool) : Except Fault Sql := do
  return (negation negated ++ (← t.containsKey selector) : String)

/-- The length of an array compared with an operand. -/
def jsonLengthOperand (t : Target) (selector operator : String) (operand : Sql) :
    Except Fault Sql := do
  let length : String ←
    match t.dialect with
    | .generic => t.lacks .jsonLength
    | .mysql => pure ("json_length(" ++ t.selectorArguments selector ++ ")")
    | .postgres => do pure ("jsonb_array_length((" ++ (← t.quoteDocument selector) ++ ")::jsonb)")
    | .sqlite => pure ("json_array_length(" ++ t.selectorArguments selector ++ ")")
    | .sqlserver => pure ("(select count(*) from " ++ t.jsonRows selector ++ ")")
  return length ++ " " ++ operator ++ " " ++ operand

/-- The length of an array compared with a value. -/
def jsonLength (t : Target) (selector operator : String) (value : Value) : Except Fault Sql :=
  t.jsonLengthOperand selector operator (.parameter value)

/-- The text search configurations of PostgreSQL. -/
def searchLanguages : List String :=
  ["simple", "arabic", "danish", "dutch", "english", "finnish", "french", "german", "hungarian",
    "indonesian", "irish", "italian", "lithuanian", "nepali", "norwegian", "portuguese", "romanian",
    "russian", "spanish", "swedish", "tamil", "turkish"]

/-- The text search configuration of a search; English if there is no such configuration. -/
def searchLanguage (options : FullTextOptions) : String :=
  match options.language with
  | some language => if searchLanguages.contains language then language else "english"
  | none => "english"

/-- The search in the words of MySQL. -/
def searchMode (options : FullTextOptions) : String :=
  if options.mode = some "boolean" then " in boolean mode"
  -- a boolean search is never expanded
  else " in natural language mode" ++ (if options.expanded then " with query expansion" else "")

/-- The function that reads the terms of a PostgreSQL search. -/
def searchFunction (options : FullTextOptions) : String :=
  match options.mode with
  | some "phrase" => "phraseto_tsquery"
  | some "websearch" => "websearch_to_tsquery"
  | _ => "plainto_tsquery"

/-- A full-text search. -/
def fullText (t : Target) (columns : List Column) (value : Value) (options : FullTextOptions) :
    Except Fault Sql := do
  match t.dialect with
  | .mysql =>
    return "match (" ++ (← t.columnList columns) ++ ") against (" ++ Sql.parameter value ++
      searchMode options ++ ")"
  | .postgres =>
    let language := searchLanguage options
    let vectors ← columns.mapM fun c => do
      return "to_tsvector('" ++ language ++ "', " ++ (← t.column c) ++ ")"
    return "(" ++ Sql.join " || " vectors ++ ") @@ " ++ searchFunction options ++ "('" ++
      language ++ "', " ++ Sql.parameter value ++ ")"
  | _ => t.lacks .fullTextSearch

/-! ## §8 Conditions on groups -/

mutual

/-- A condition on groups. -/
def having (t : Target) : HavingPredicate → Except Fault Sql
  | .raw sql bindings => .ok (.fragment sql bindings)
  -- an expression comes without values, unlike raw SQL
  | .expression sql => .ok sql
  | .compare c operator value => do
    return (← t.column c) ++ " " ++ operator ++ " " ++ Sql.parameter value
  | .between c low high negated => t.between c low high negated
  | .isNull c => t.nullTest c true
  | .isNotNull c => t.nullTest c false
  | .bitwise c operator value => do
    return "(" ++ (← t.column c) ++ " " ++ operator ++ " " ++ Sql.parameter value ++ ") != 0"
  | .group clauses => do
    if clauses.isEmpty then throw .emptyHavingGroup
    return "(" ++ Clause.body (← t.havingClauses clauses) ++ ")"

/-- Clauses whose conditions on groups are in SQL. -/
def havingClauses (t : Target) : List (Clause HavingPredicate) → Except Fault (List (Clause Sql))
  | [] => .ok []
  | ⟨connective, node⟩ :: rest => do
    return ⟨connective, ← t.having node⟩ :: (← t.havingClauses rest)

end

/-- The clause of conditions on groups; nothing if there are none. -/
def havingClause (t : Target) (clauses : List (Clause HavingPredicate)) : Except Fault Sql := do
  if clauses.isEmpty then return .empty
  return "having " ++ Clause.body (← t.havingClauses clauses)

end Target

end SqlCompiler
