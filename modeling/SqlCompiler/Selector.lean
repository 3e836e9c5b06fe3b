import SqlCompiler.Fault
import SqlCompiler.Identifier
import SqlCompiler.Numeric.Numeral

/-!
# JSON Selectors

A selector is a column followed by steps into its JSON document, `options->languages[0]->name`.
A step may end in array indices in brackets.

## Main definitions

- `isSelector`, `splitSelector`: whether a name is a selector; its column and its path
- `splitIndices`: the key and the indices of a step
- `jsonPath`: a path as a JSON path literal, `'$."languages"[0]."name"'`
- `stepParts`, `pathAttributes`: the steps of a path one by one
- `Target.quoteSelector`: a selector as an expression
- `Target.quote`: a column of any form
- `Target.containsKey`: whether a document holds the last step of a selector
-/

namespace SqlCompiler

/-! ## §1 Columns and paths -/

/-- The sign between the steps of a selector. -/
def arrow : String := "->"

/-- Whether a name leads into a JSON document. -/
def isSelector (name : String) : Bool :=
  (Text.splitFirst? arrow name).isSome

/-- The column of a selector and the path after it. -/
def splitSelector (name : String) : String × String :=
  (Text.splitFirst? arrow name).getD (name, "")

/-! ## §2 Array indices -/

/-- The indices of a text that consists of brackets around at least one character each. `current`
holds the characters since the last opening bracket, in reverse, and nothing between indices. -/
def indices? (current : Option (List Char)) : List Char → Option (List (List Char))
  | [] => if current.isNone then some [] else none
  | c :: cs =>
    match current with
    | none => if c = '[' then indices? (some []) cs else none
    | some index =>
      -- empty brackets are no index, and what has them is no list of indices
      if c = ']' then
        if index.isEmpty then none else (indices? none cs).map (index.reverse :: ·)
      else indices? (some (c :: index)) cs

/-- The key of a step and the indices after it: as many indices as possible. -/
def splitIndices : List Char → List Char × List (List Char)
  | [] => ([], [])
  | c :: cs =>
    -- the first bracket behind which there is nothing but indices ends the key
    match (if c = '[' then indices? none (c :: cs) else none) with
    | some indices => ([], indices)
    | none =>
      let (key, indices) := splitIndices cs
      (c :: key, indices)

/-- Indices in brackets. -/
def bracketed (indices : List (List Char)) : List Char :=
  indices.flatMap fun index => '[' :: index ++ [']']

/-- The key of a step, unless it is empty and has indices, and the indices one by one. -/
def stepParts (step : String) : List String :=
  let (key, indices) := splitIndices step.toList
  let parts := if key.isEmpty && !indices.isEmpty then indices else key :: indices
  parts.map String.ofList

/-! ## §3 Path literals -/

/-- A text with its single quotes doubled; backslashes in front of a quote are dropped. -/
def escapeQuotes : List Char → List Char
  | [] => []
  | c :: cs =>
    if c = '\'' then '\'' :: '\'' :: escapeQuotes cs
    -- every backslash of a run sees the same quote behind it, so the whole run goes
    else if c = '\\' ∧ (cs.dropWhile (· = '\\')).head? = some '\'' then escapeQuotes cs
    else c :: escapeQuotes cs

/-- A step of a path literal: the key in double quotes, unless it is empty and has indices, and
the indices in brackets. -/
def pathStep (step : List Char) : List Char :=
  let (key, indices) := splitIndices step
  if key.isEmpty && !indices.isEmpty then bracketed indices
  else '"' :: key ++ '"' :: bracketed indices

/-- A path with the given separator of steps as a JSON path literal. -/
def jsonPathOn (separator path : String) : String :=
  let steps := Text.splitOnChars separator.toList (escapeQuotes path.toList)
  let steps := Text.joinChars ['.'] (steps.map pathStep)
  -- an index follows the root directly, a key after a dot
  let start := if steps.head? = some '[' then ['\'', '$'] else ['\'', '$', '.']
  String.ofList (start ++ steps ++ ['\''])

/-- A path as a JSON path literal. -/
def jsonPath (path : String) : String :=
  jsonPathOn arrow path

/-! ## §4 Attributes -/

/-- The steps of paths one by one; what is not an integer stands between quotes. -/
def pathAttributes (quote : String) (steps : List String) : List String :=
  ((steps.flatMap stepParts).filter (!·.isEmpty)).map fun part =>
    if (integerOfChars? part.toList).isSome then part else quote ++ part ++ quote

/-- An index in brackets at the end of a step, made of digits and, if allowed, a minus sign; also
what stands before it. -/
def trailingIndex? (signed : Bool) : List Char → Option (List Char × List Char)
  | [] => none
  | c :: cs =>
    match trailingIndex? signed cs with
    | some (before, index) => some (c :: before, index)
    | none =>
      let index := cs.dropLast
      let digits := if signed && index.head? == some '-' then index.tail else index
      if c = '[' ∧ cs.getLast? = some ']' ∧ digits ≠ [] ∧ digits.all isDigit then some ([], index)
      else none

namespace Target

/-! ## §5 Expressions -/

/-- The column of a selector, and its path as a further argument: empty, or a comma and a path
literal. -/
def fieldAndPath (t : Target) (column : String) : String × String :=
  let (field, path) := splitSelector column
  (t.quoteField field, if path.isEmpty then "" else ", " ++ jsonPath path)

/-- The column of a selector and its path as arguments of a function. -/
def selectorArguments (t : Target) (column : String) : String :=
  let (field, path) := t.fieldAndPath column
  field ++ path

/-- A PostgreSQL selector: the last step with `->>`, which gives text, the others with `->`. -/
def arrowSelector (t : Target) (selector : String) : String :=
  match Text.splitOn arrow selector with
  -- a text has at least one piece, so there always is a field
  | [] => t.quoteSegments ""
  | field :: steps =>
    let attributes := pathAttributes "'" steps
    match attributes.getLast? with
    | none => t.quoteSegments field
    | some last =>
      Text.join arrow (t.quoteSegments field :: attributes.dropLast) ++ "->>" ++ last

/-- A selector as an expression. -/
def quoteSelector (t : Target) (selector : String) : Except Fault String :=
  match t.dialect with
  | .generic => t.lacks .jsonSelectors
  | .mysql => .ok ("json_unquote(json_extract(" ++ t.selectorArguments selector ++ "))")
  | .postgres => .ok (t.arrowSelector selector)
  | .sqlite => .ok ("json_extract(" ++ t.selectorArguments selector ++ ")")
  | .sqlserver => .ok ("json_value(" ++ t.selectorArguments selector ++ ")")

/-- A column or selector without alias. -/
def quoteUnaliased (t : Target) (name : String) : Except Fault String :=
  if isSelector name then t.quoteSelector name else .ok (t.quoteSegments name)

/-- A column of any form: qualified, aliased, or a selector. -/
def quote (t : Target) (name : String) : Except Fault String :=
  match splitAlias? name with
  | some (name, asName) => do return (← t.quoteUnaliased name) ++ " as " ++ t.quoteIdentifier asName
  | none => t.quoteUnaliased name

/-- A PostgreSQL column or selector that keeps its JSON type. -/
def quoteDocument (t : Target) (name : String) : Except Fault String := do
  -- `->>` gives text, `->` gives JSON
  return Text.replaceAll "->>" "->" (← t.quote name)

/-- A selector that is compared with a boolean. -/
def booleanSelector (t : Target) (selector : String) : Except Fault String := do
  match t.dialect with
  | .mysql => return "json_extract(" ++ t.selectorArguments selector ++ ")"
  | .postgres =>
    return "(" ++ Text.replaceAll "->>" "->" (← t.quoteSelector selector) ++ ")::jsonb"
  | _ => t.quoteSelector selector

/-- A boolean literal that is compared with a selector. -/
def booleanLiteral (t : Target) (literal : String) : String :=
  match t.dialect with
  | .postgres => "'" ++ literal ++ "'::jsonb"
  | .sqlserver => "'" ++ literal ++ "'"
  | _ => literal

/-- The rows of the document that a SQL Server selector names. -/
def jsonRows (t : Target) (column : String) : String :=
  "openjson(" ++ t.selectorArguments column ++ ")"

/-! ## §6 Tests on keys -/

/-- The steps of a selector without the last one, and the last one. -/
def splitLastStep (column : String) : List String × String :=
  let steps := Text.splitOn arrow column
  (steps.dropLast, steps.getLast?.getD "")

/-- PostgreSQL: whether a document holds the last step of a selector. A step that is an integer, or
that ends in one in brackets, is looked up in an array; from the end if it is negative. -/
def arrowContainsKey (t : Target) (column : String) : Except Fault String := do
  let (outer, last) := splitLastStep column
  let trailing := trailingIndex? true last.toList
  let (outer, index) :=
    -- a step that is an integer is an index even without brackets
    match integerOfChars? last.toList, trailing with
    | some i, _ => (outer, some i)
    | none, some (before, digits) => (outer ++ [String.ofList before], integerOfChars? digits)
    | none, none => (outer, none)
  let document ← t.quoteDocument (Text.join arrow outer)
  match index with
  | some i =>
    -- the last item is -1: an array of length one has it, but has no item 1
    let bound := if i < 0 then ">= " ++ toString i.natAbs else "> " ++ toString i
    return "case when jsonb_typeof((" ++ document ++ ")::jsonb) = 'array' then " ++
      "jsonb_array_length((" ++ document ++ ")::jsonb) " ++ bound ++ " else false end"
  | none =>
    -- the operator is `?`, written twice so that it is no placeholder
    return "coalesce((" ++ document ++ ")::jsonb ?? '" ++ Text.double '\'' last ++ "', false)"

/-- SQL Server: whether the last step of a selector is among the keys of what the others name. -/
def rowsContainKey (t : Target) (column : String) : String :=
  let (outer, last) := splitLastStep column
  match trailingIndex? false last.toList with
  | some (before, digits) =>
    String.ofList digits ++ " in (select [key] from " ++
      t.jsonRows (Text.join arrow (outer ++ [String.ofList before])) ++ ")"
  | none =>
    "'" ++ Text.double '\'' last ++ "' in (select [key] from " ++
      t.jsonRows (Text.join arrow outer) ++ ")"

/-- Whether a document holds the last step of a selector. -/
def containsKey (t : Target) (column : String) : Except Fault String :=
  match t.dialect with
  | .generic => t.lacks .jsonContainsKey
  | .mysql =>
    let (field, path) := t.fieldAndPath column
    .ok ("ifnull(json_contains_path(" ++ field ++ ", 'one'" ++ path ++ "), 0)")
  | .postgres => t.arrowContainsKey column
  | .sqlite => .ok ("json_type(" ++ t.selectorArguments column ++ ") is not null")
  | .sqlserver => .ok (t.rowsContainKey column)

end Target

end SqlCompiler
