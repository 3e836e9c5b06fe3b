import SqlCompiler.Codec.Statement
import SqlCompiler.Compile
import SqlCompiler.Inline
import SqlCompiler.Json.Reader

/-!
# Requests

A request names a statement and carries the query to compile it from. The compiled statements are
rendered as annotated text or as JSON.

## Main definitions

- `Request`: a statement and a query
- `Request.ofText?`: the request of a JSON text
- `Request.compile`: the statements of a request
- `OutputFormat`, `Dialect.render`: compiled statements as text
-/

namespace SqlCompiler

open Codec

/-! ## §1 Requests -/

/-- A statement and the query to compile it from. -/
structure Request where
  statement : Statement
  query : Query

namespace Request

/-- The JSON form. -/
def encode (r : Request) : Json :=
  .object [("statement", r.statement.encode), ("query", r.query.encode)]

/-- The value of a JSON form; a select if it names no statement. -/
def decode? : Json → Option Request
  | .object fields => do
    guard (unrepeated ["statement", "query"] fields)
    return ⟨← fieldOr Statement.decode? .select "statement" fields,
      ← field Query.decode? "query" fields⟩
  | _ => none

/-- The request of a JSON text. -/
def ofText? (text : String) : Option Request :=
  (Json.ofText? text).bind decode?

/-- The statements of a request. -/
def compile (r : Request) (t : Target) : Except Fault (List Compiled) :=
  t.compile r.query r.statement

end Request

/-! ## §2 Rendering -/

/-- How compiled statements are rendered. -/
inductive OutputFormat where
  /-- SQL that ends in a semicolon, with the bindings in a comment on the next line. -/
  | text
  /-- A JSON document. -/
  | json
deriving DecidableEq, Repr

/-- The format of a name. -/
def OutputFormat.ofName? : String → Option OutputFormat
  | "text" => some .text
  | "json" => some .json
  | _ => none

namespace Compiled

/-- A statement with its bindings inlined. -/
def inlined (c : Compiled) : Compiled :=
  ⟨inlineBindings c.sql c.bindings, []⟩

/-- The lines of a statement. -/
def lines (c : Compiled) : List String :=
  if c.bindings.isEmpty then [c.sql ++ ";"]
  else [c.sql ++ ";", "-- bindings: " ++ (encodeValues c.bindings).compact]

end Compiled

/-- Compiled statements as text; with their bindings inlined if asked for. -/
def Dialect.render (d : Dialect) (statements : List Compiled) (format : OutputFormat)
    (inline : Bool) : String :=
  let statements := if inline then statements.map Compiled.inlined else statements
  match format with
  | .text => Text.join "\n" (statements.flatMap Compiled.lines)
  | .json =>
    (Json.object [("dialect", .string d.name),
      ("statements", .array (statements.map Compiled.encode))]).pretty

end SqlCompiler
