import SqlCompiler.Value

/-!
# Inlined Bindings

SQL for reading, with the values in place of the placeholders. Placeholders are not looked for in
string literals, and a doubled question mark is an operator.

## Main definitions

- `inlineChars`: the text from some place on, inside or outside of a literal
- `inlineBindings`: SQL with its bindings inlined
-/

namespace SqlCompiler

/-- The rest of a text with values in place of its placeholders. Doubled quotes, doubled question
marks and quotes behind a backslash stay as they are and neither open nor close a literal. -/
def inlineChars (inLiteral : Bool) (bindings : List Value) : List Char → List Char
  | [] => []
  | '\\' :: '\'' :: cs => '\\' :: '\'' :: inlineChars inLiteral bindings cs
  | '\'' :: '\'' :: cs => '\'' :: '\'' :: inlineChars inLiteral bindings cs
  | '?' :: '?' :: cs => '?' :: '?' :: inlineChars inLiteral bindings cs
  | c :: cs =>
    if c = '\'' then c :: inlineChars (!inLiteral) bindings cs
    else if c = '?' ∧ inLiteral = false then
      match bindings with
      | v :: rest => v.inline.toList ++ inlineChars inLiteral rest cs
      -- placeholders without a value stay
      | [] => c :: inlineChars inLiteral [] cs
    else c :: inlineChars inLiteral bindings cs

/-- SQL with values in place of its placeholders, for reading only. -/
def inlineBindings (sql : String) (bindings : List Value) : String :=
  String.ofList (inlineChars false bindings sql.toList)

end SqlCompiler
