import SqlCompiler.Json.Basic

/-!
# Reading JSON

The JSON value of a text. A text is first cut into tokens, character by character; the tokens are
then folded over a stack of open containers.

## Main definitions

- `Token`: brackets, separators, string literals and scalars
- `Token.ofChars?`: the tokens of a text
- `Json.unescape?`: the text of a string literal
- `Reader.step?`: one token more on the stack of open containers
- `Json.ofText?`: the value of a text, where the text is JSON
-/

namespace SqlCompiler

/-! ## §1 Tokens -/

/-- A token of a JSON text. The characters of a string literal stand without its quotes and with
its escapes. -/
inductive Token where
  | openArray
  | closeArray
  | openObject
  | closeObject
  | comma
  | colon
  | literal (chars : List Char)
  | scalar (chars : List Char)
deriving DecidableEq, Repr

namespace Token

/-- White space between tokens. -/
def isSpace (c : Char) : Bool :=
  c == ' ' || c == '\t' || c == '\n' || c == '\r'

/-- A character that is a token by itself. -/
def punctuation? : Char → Option Token
  | '[' => some .openArray
  | ']' => some .closeArray
  | '\x7b' => some .openObject
  | '\x7d' => some .closeObject
  | ',' => some .comma
  | ':' => some .colon
  | _ => none

/-- Where in a token the next character stands; gathered characters are in reverse. -/
inductive Place where
  | between
  | inLiteral (gathered : List Char) (escaped : Bool)
  | inScalar (gathered : List Char)

/-- The complete tokens of the characters so far, in reverse, and the place of the next one. -/
structure Scan where
  done : List Token := []
  place : Place := .between

/-- A character between tokens. -/
def Scan.start (done : List Token) (c : Char) : Scan :=
  if isSpace c then { done }
  else if c = '"' then { done, place := .inLiteral [] false }
  else
    match punctuation? c with
    | some t => { done := t :: done }
    | none => { done, place := .inScalar [c] }

/-- One character more. A scalar ends before white space, a bracket, a separator or a quote. -/
def Scan.step (s : Scan) (c : Char) : Scan :=
  match s.place with
  | .between => Scan.start s.done c
  | .inScalar gathered =>
    if isSpace c || c == '"' || (punctuation? c).isSome then
      Scan.start (.scalar gathered.reverse :: s.done) c
    else { s with place := .inScalar (c :: gathered) }
  | .inLiteral gathered true => { s with place := .inLiteral (c :: gathered) false }
  | .inLiteral gathered false =>
    if c = '"' then { done := .literal gathered.reverse :: s.done }
    else { s with place := .inLiteral (c :: gathered) (c = '\\') }

/-- The tokens of a text; nothing if a string literal is not closed. -/
def ofChars? (cs : List Char) : Option (List Token) :=
  let s := cs.foldl Scan.step {}
  match s.place with
  | .between => some s.done.reverse
  | .inScalar gathered => some (.scalar gathered.reverse :: s.done).reverse
  | .inLiteral _ _ => none

end Token

namespace Json

/-! ## §2 String literals and scalars -/

/-- The value of a hexadecimal digit. -/
def hexValue? (c : Char) : Option Nat :=
  if '0' ≤ c ∧ c ≤ '9' then some (c.toNat - 48)
  else if 'a' ≤ c ∧ c ≤ 'f' then some (c.toNat - 87)
  else if 'A' ≤ c ∧ c ≤ 'F' then some (c.toNat - 55)
  else none

/-- The code unit of four hexadecimal digits. -/
def codeUnit? (a b c d : Char) : Option Nat := do
  return ((16 * (← hexValue? a) + (← hexValue? b)) * 16 + (← hexValue? c)) * 16 + (← hexValue? d)

/-- The character of a one-letter escape. -/
def shortEscape? : Char → Option Char
  | '"' => some '"'
  | '\\' => some '\\'
  | '/' => some '/'
  | 'b' => some '\x08'
  | 'f' => some '\x0c'
  | 'n' => some '\n'
  | 'r' => some '\r'
  | 't' => some '\t'
  | _ => none

/-- One piece of a string literal: a character, or a code unit given by its digits. -/
inductive Unit16 where
  | char (c : Char)
  | unit (n : Nat)

/-- The pieces of a string literal; nothing if an escape is malformed or a control character
stands unescaped. -/
def pieces? : List Char → Option (List Unit16)
  | [] => some []
  | '\\' :: 'u' :: a :: b :: c :: d :: cs => do
    let n ← codeUnit? a b c d
    return .unit n :: (← pieces? cs)
  | '\\' :: e :: cs => do
    let c ← shortEscape? e
    return .char c :: (← pieces? cs)
  | c :: cs => if c = '\\' ∨ c.toNat < 0x20 then none else (pieces? cs).map (.char c :: ·)

/-- The characters of pieces; nothing if a surrogate is unpaired. -/
def paired? : List Unit16 → Option (List Char)
  | [] => some []
  | .char c :: ps => (paired? ps).map (c :: ·)
  | .unit h :: ps =>
    if h < 0xD800 ∨ 0xDFFF < h then (paired? ps).map (Char.ofNat h :: ·)
    else if h < 0xDC00 then
      match ps with
      | .unit l :: ps =>
        if 0xDC00 ≤ l ∧ l ≤ 0xDFFF then
          (paired? ps).map (Char.ofNat (0x10000 + (h - 0xD800) * 0x400 + (l - 0xDC00)) :: ·)
        else none
      -- a high surrogate needs a low one right behind it
      | _ => none
    else none

/-- The text of a string literal: outer nothing if it is malformed, inner nothing if a surrogate
is unpaired. -/
def unescape? (cs : List Char) : Option (Option String) :=
  (pieces? cs).map fun ps => (paired? ps).map String.ofList

/-- The value of a scalar token. -/
def ofScalar? (cs : List Char) : Option Json :=
  if cs = ['n', 'u', 'l', 'l'] then some .null
  else if cs = ['t', 'r', 'u', 'e'] then some (.bool true)
  else if cs = ['f', 'a', 'l', 's', 'e'] then some (.bool false)
  else
    (Numeral.ofChars? cs).map fun numeral =>
      match numeral.value? with
      | some (.integer n) => .integer n
      | some (.double x) => .double x
      | none => .unreadable

/-! ## §3 Containers -/

/-- An open container with what it holds so far, in reverse. The fields of an object with an
unreadable key are lost. -/
inductive Frame where
  | array (items : List Json)
  | object (fields : Option (List (String × Json))) (key : Option String)

/-- What may come next. -/
inductive Expect where
  | value
  | itemOrClose
  | key
  | keyOrClose
  | colon
  | separator
  | nothing

/-- The state of a reader: the open containers, innermost first, what may come next, and the value
once it is complete. -/
structure Reader where
  stack : List Frame := []
  expect : Expect := .value
  result : Option Json := none

namespace Reader

/-- The nesting that a document may have. -/
def depthLimit : Nat := 127

/-- Hands a complete value to the innermost open container. -/
def deliver (v : Json) : List Frame → Reader
  | [] => { expect := .nothing, result := some v }
  | .array items :: stack => { stack := .array (v :: items) :: stack, expect := .separator }
  | .object fields key :: stack =>
    -- without a key the field is lost, and with it all the fields
    let fields := do return (← key, v) :: (← fields)
    { stack := .object fields none :: stack, expect := .separator }

/-- A container is out of reach if `depthLimit` or more containers are open around it. -/
def close (v : Json) (outer : List Frame) : Reader :=
  deliver (if (outer.drop (depthLimit - 1)).isEmpty then v else .unreadable) outer

/-- One token more. -/
def step? (r : Reader) (t : Token) : Option Reader :=
  match r.expect, t, r.stack with
  | .value, .openArray, stack | .itemOrClose, .openArray, stack =>
    some { stack := .array [] :: stack, expect := .itemOrClose }
  | .value, .openObject, stack | .itemOrClose, .openObject, stack =>
    some { stack := .object (some []) none :: stack, expect := .keyOrClose }
  | .value, .literal cs, stack | .itemOrClose, .literal cs, stack =>
    (unescape? cs).map fun text =>
      deliver (match text with | some s => .string s | none => .unreadable) stack
  | .value, .scalar cs, stack | .itemOrClose, .scalar cs, stack =>
    (ofScalar? cs).map fun v => deliver v stack
  | .itemOrClose, .closeArray, .array items :: stack
  | .separator, .closeArray, .array items :: stack =>
    some (close (.array items.reverse) stack)
  | .keyOrClose, .closeObject, .object fields _ :: stack
  | .separator, .closeObject, .object fields _ :: stack =>
    some (close (match fields with | some fs => .object fs.reverse | none => .unreadable) stack)
  | .key, .literal cs, .object fields _ :: stack
  | .keyOrClose, .literal cs, .object fields _ :: stack =>
    (unescape? cs).map fun key => { stack := .object fields key :: stack, expect := .colon }
  | .colon, .colon, stack => some { stack := stack, expect := .value }
  | .separator, .comma, .array items :: stack =>
    -- behind a comma another item has to come, so no bracket may close here
    some { stack := .array items :: stack, expect := .value }
  | .separator, .comma, .object fields key :: stack =>
    some { stack := .object fields key :: stack, expect := .key }
  | _, _, _ => none

end Reader

/-- The value of a text, where the text is JSON. -/
def ofText? (text : String) : Option Json := do
  let tokens ← Token.ofChars? text.toList
  let reader ← tokens.foldlM Reader.step? {}
  reader.result

end Json

end SqlCompiler
