import SqlCompiler.Numeric.Numeral

/-!
# JSON Documents

JSON values as they are written, and documents in which every key stands once and in order.

## Main definitions

- `Json`: a value, with the fields of an object in the order of the text
- `Json.isReadable`: no part of the value is out of reach
- `Json.canonical`: the document a value denotes, keys in order and each with its last value
- `Json.put`: a field set in an object whose keys are in order
- `Json.assign`: a value stored under a path of keys
-/

namespace SqlCompiler

/-- A JSON value. Fields keep the order of the text and may repeat a key. `unreadable` stands for a
part that is well formed and yet denotes nothing: a number beyond the range of doubles, a string
with an unpaired surrogate, an object with such a key, a container nested too deeply. -/
inductive Json where
  | null
  | bool (b : Bool)
  | integer (n : Int)
  | double (x : Binary64)
  | string (s : String)
  | array (items : List Json)
  | object (fields : List (String × Json))
  | unreadable
deriving Inhabited

namespace Json

/-! ## §1 Readability -/

mutual

/-- No part of the value is unreadable. -/
def isReadable : Json → Bool
  | .null | .bool _ | .integer _ | .double _ | .string _ => true
  | .array items => itemsReadable items
  | .object fields => fieldsReadable fields
  | .unreadable => false

/-- No item has an unreadable part. -/
def itemsReadable : List Json → Bool
  | [] => true
  | v :: vs => v.isReadable && itemsReadable vs

/-- No field has an unreadable part. -/
def fieldsReadable : List (String × Json) → Bool
  | [] => true
  | (_, v) :: fields => v.isReadable && fieldsReadable fields

end

/-! ## §2 Documents -/

/-- The value of a key. -/
def find? (key : String) : List (String × Json) → Option Json
  | [] => none
  | (k, v) :: fields => if k = key then some v else find? key fields

/-- Sets a field among fields with keys in order, by code points. -/
def put (key : String) (value : Json) : List (String × Json) → List (String × Json)
  | [] => [(key, value)]
  | (k, v) :: fields =>
    if k = key then (key, value) :: fields
    else if key < k then (key, value) :: (k, v) :: fields
    else (k, v) :: put key value fields

mutual

/-- The document that a value denotes: keys in order, the last value of a repeated key. -/
def canonical : Json → Json
  | .array items => .array (canonicalItems items)
  | .object fields => .object (canonicalFields [] fields)
  | v => v

/-- The documents that items denote. -/
def canonicalItems : List Json → List Json
  | [] => []
  | v :: vs => v.canonical :: canonicalItems vs

/-- Adds fields one after the other to fields with keys in order. -/
def canonicalFields (done : List (String × Json)) : List (String × Json) → List (String × Json)
  | [] => done
  | (k, v) :: fields => canonicalFields (put k v.canonical done) fields

end

/-- An array or an object. -/
def isContainer : Json → Bool
  | .array _ | .object _ => true
  | _ => false

/-- The fields of an object; nothing for any other value. -/
def fields : Json → List (String × Json)
  | .object fields => fields
  | _ => []

/-- Stores a value under a path of keys. Objects are made where the path has none. -/
def assign (value : Json) : List String → Json → Json
  | [], _ => value
  | key :: path, doc =>
    let inner := (find? key doc.fields).getD .null
    .object (put key (assign value path inner) doc.fields)

end Json

end SqlCompiler
