import SqlCompiler.Codec.Value

/-!
# Queries in JSON

The JSON forms of queries and of the parts that nest in them.

## Main definitions

- `HavingPredicate.encode`, `HavingPredicate.decode?`: conditions on groups
- `Predicate.encode`, `Table.encode`, `Join.encode`, `Query.encode`: written forms
- `Predicate.decode?`, `Table.decode?`, `Join.decode?`, `Query.decode?`: reading
- `Query.decodeIn?`, and so on: reading in a setting
-/

namespace SqlCompiler

open Codec

/-! ## §1 Conditions on groups -/

mutual

/-- The JSON form. -/
def HavingPredicate.encode : HavingPredicate → Json
  | .raw sql bindings => .object (("type", .string "raw") :: encodeSql sql bindings)
  | .compare c operator value =>
    .object [("type", .string "basic"), ("column", c.encode), ("operator", .string operator),
      ("value", value.encode)]
  | .between c low high negated =>
    .object [("type", .string "between"), ("column", c.encode), ("min", low.encode),
      ("max", high.encode), ("not", .bool negated)]
  | .isNull c => .object [("type", .string "null"), ("column", c.encode)]
  | .isNotNull c => .object [("type", .string "not_null"), ("column", c.encode)]
  | .bitwise c operator value =>
    .object [("type", .string "bit"), ("column", c.encode), ("operator", .string operator),
      ("value", value.encode)]
  | .expression sql => .object [("type", .string "expression"), ("sql", .string sql)]
  | .group clauses =>
    .object [("type", .string "nested"), ("havings", .array (encodeHavings clauses))]

/-- The JSON forms of clauses. -/
def encodeHavings : List (Clause HavingPredicate) → List Json
  | [] => []
  | ⟨connective, node⟩ :: rest => encodeClause connective node.encode :: encodeHavings rest

end

/-- A condition on groups that is no group of conditions. -/
def decodePlainHaving? (tag : String) (fields : Fields) : Option HavingPredicate :=
  match tag with
  | "raw" => (decodeSql? fields).map fun (sql, bindings) => .raw sql bindings
  | "basic" => do
    guard (unrepeated ["column", "operator", "value"] fields)
    return .compare (← field Column.decode? "column" fields) (← field text? "operator" fields)
      (← field Value.decode? "value" fields)
  | "between" => do
    guard (unrepeated ["column", "min", "max", "not"] fields)
    return .between (← field Column.decode? "column" fields) (← field Value.decode? "min" fields)
      (← field Value.decode? "max" fields) (← fieldOr flag? false "not" fields)
  | "null" => do
    guard (unrepeated ["column"] fields)
    return .isNull (← field Column.decode? "column" fields)
  | "not_null" => do
    guard (unrepeated ["column"] fields)
    return .isNotNull (← field Column.decode? "column" fields)
  | "bit" => do
    guard (unrepeated ["column", "operator", "value"] fields)
    return .bitwise (← field Column.decode? "column" fields) (← field text? "operator" fields)
      (← field Value.decode? "value" fields)
  | "expression" => do
    guard (unrepeated ["sql"] fields)
    return .expression (← field text? "sql" fields)
  | _ => none

/-- The tags of conditions on groups, in order. -/
def HavingPredicate.tags : List String :=
  ["raw", "basic", "between", "null", "not_null", "bit", "expression", "nested"]

mutual

/-- The value of a JSON form in a setting. -/
def HavingPredicate.decodeIn? (s : Setting) : Json → Option HavingPredicate
  | .object fields => do
    let tag ← tagIn? s "type" HavingPredicate.tags fields
    if tag = "nested" then
      guard (unrepeated ["havings"] fields)
      return .group (← (← havingsField fields))
    else decodePlainHaving? tag fields
  | _ => none

/-- The conditions in the field `havings` of a group, if there is one. -/
def havingsField : List (String × Json) → Option (Option (List (Clause HavingPredicate)))
  | [] => some none
  | (key, v) :: rest =>
    if key = "havings" then (decodeHavingsIn? .byTag v).map some else havingsField rest

/-- The clauses of a JSON form in a setting. -/
def decodeHavingsIn? (s : Setting) : Json → Option (List (Clause HavingPredicate))
  | .array items => havingItems s items
  | _ => none

/-- The clauses of JSON forms. -/
def havingItems (s : Setting) : List Json → Option (List (Clause HavingPredicate))
  | [] => some []
  | v :: rest => do return (← decodeHaving? s v) :: (← havingItems s rest)

/-- The clause of a JSON form. -/
def decodeHaving? (s : Setting) : Json → Option (Clause HavingPredicate)
  | .object fields => do
    let connective ← decodeConnective? s fields
    return ⟨connective, ← (← havingNode s fields)⟩
  | _ => none

/-- The condition in the field `node`, if there is one. -/
def havingNode (s : Setting) : List (String × Json) → Option (Option HavingPredicate)
  | [] => some none
  | (key, v) :: rest =>
    if key = "node" then (HavingPredicate.decodeIn? s v).map some else havingNode s rest

end

/-- The value of a JSON form. -/
def HavingPredicate.decode? : Json → Option HavingPredicate :=
  HavingPredicate.decodeIn? .plain

/-- The clauses of a JSON form. -/
def decodeHavings? : Json → Option (List (Clause HavingPredicate)) :=
  decodeHavingsIn? .plain

/-! ## §2 Written queries -/

/-- The JSON form of a count that may be missing. -/
def encodeCount (n : Option UInt64) : Json :=
  n.elim .null fun n => .integer n.toNat

mutual

/-- The JSON form. -/
def Table.encode : Table → Json
  | .named name => .string name
  | .derived query asName => .object [("query", query.encode), ("alias", .string asName)]
  | .raw sql bindings => .object (encodeSql sql bindings)

/-- The JSON form. -/
def Predicate.encode : Predicate → Json
  | .raw sql bindings => .object (("type", .string "raw") :: encodeSql sql bindings)
  | .compare c operator value =>
    .object [("type", .string "basic"), ("column", c.encode), ("operator", .string operator),
      ("value", value.encode)]
  | .bitwise c operator value =>
    .object [("type", .string "bitwise"), ("column", c.encode), ("operator", .string operator),
      ("value", value.encode)]
  | .jsonBoolean selector operator value =>
    .object [("type", .string "json_boolean"), ("column", .string selector),
      ("operator", .string operator), ("value", .bool value)]
  | .like c pattern caseSensitive negated =>
    .object [("type", .string "like"), ("column", c.encode), ("value", pattern.encode),
      ("case_sensitive", .bool caseSensitive), ("not", .bool negated)]
  | .between c low high negated =>
    .object [("type", .string "between"), ("column", c.encode), ("min", low.encode),
      ("max", high.encode), ("not", .bool negated)]
  | .betweenColumns c low high negated =>
    .object [("type", .string "between_columns"), ("column", c.encode), ("min", low.encode),
      ("max", high.encode), ("not", .bool negated)]
  | .inList c values negated =>
    .object [("type", .string "in"), ("column", c.encode), ("values", encodeValues values),
      ("not", .bool negated)]
  | .inQuery c query negated =>
    .object [("type", .string "in"), ("column", c.encode), ("values", query.encode),
      ("not", .bool negated)]
  | .inIntegers c values negated =>
    .object [("type", .string "in_raw"), ("column", c.encode),
      ("values", .array (values.map fun n => .integer n.toInt)), ("not", .bool negated)]
  | .isNull c => .object [("type", .string "null"), ("column", c.encode)]
  | .isNotNull c => .object [("type", .string "not_null"), ("column", c.encode)]
  | .datePart part c operator value =>
    .object [("type", .string "date"), ("part", part.encode), ("column", c.encode),
      ("operator", .string operator), ("value", value.encode)]
  | .group inner => .object [("type", .string "nested"), ("wheres", .array (encodeClauses inner))]
  | .hasRows query negated =>
    .object [("type", .string "exists"), ("query", query.encode), ("not", .bool negated)]
  | .compareQuery c operator query =>
    .object [("type", .string "sub"), ("column", c.encode), ("operator", .string operator),
      ("query", query.encode)]
  | .compareColumns first operator second =>
    .object [("type", .string "column"), ("first", first.encode), ("operator", .string operator),
      ("second", second.encode)]
  | .rowValues columns operator values =>
    .object [("type", .string "row_values"), ("columns", encodeColumns columns),
      ("operator", .string operator), ("values", encodeValues values)]
  | .jsonContains selector value negated =>
    .object [("type", .string "json_contains"), ("column", .string selector),
      ("value", value.encode), ("not", .bool negated)]
  | .jsonContainsKey selector negated =>
    .object [("type", .string "json_contains_key"), ("column", .string selector),
      ("not", .bool negated)]
  | .jsonLength selector operator value =>
    .object [("type", .string "json_length"), ("column", .string selector),
      ("operator", .string operator), ("value", value.encode)]
  | .fullText columns value options =>
    .object [("type", .string "full_text"), ("columns", encodeColumns columns),
      ("value", value.encode), ("options", options.encode)]

/-- The JSON forms of clauses. -/
def encodeClauses : List (Clause Predicate) → List Json
  | [] => []
  | ⟨connective, node⟩ :: rest => encodeClause connective node.encode :: encodeClauses rest

/-- The JSON form. -/
def Join.encode : Join → Json
  | ⟨kind, tbl, on, joins, lateral⟩ =>
    .object [("type", kind.encode), ("table", tbl.encode), ("on", .array (encodeClauses on)),
      ("joins", .array (encodeJoins joins)), ("lateral", .bool lateral)]

/-- The JSON forms of joins. -/
def encodeJoins : List Join → List Json
  | [] => []
  | j :: rest => j.encode :: encodeJoins rest

/-- The JSON forms of the branches of a union. -/
def encodeBranches : List UnionBranch → List Json
  | [] => []
  | ⟨query, all⟩ :: rest =>
    .object [("query", query.encode), ("all", .bool all)] :: encodeBranches rest

/-- The JSON form of the table of a query. -/
def encodeSource : Option Table → Json
  | none => .null
  | some tbl => tbl.encode

/-- The JSON form. -/
def Query.encode : Query → Json
  | ⟨source, columns, distinct, aggregate, joins, wheres, groups, havings, orders, limit, offset,
      lock, unions, unionOrders, unionLimit, unionOffset⟩ =>
    .object [
      ("from", encodeSource source),
      ("columns", columns.elim .null encodeColumns),
      ("distinct", distinct.encode),
      ("aggregate", aggregate.elim .null Aggregate.encode),
      ("joins", .array (encodeJoins joins)),
      ("wheres", .array (encodeClauses wheres)),
      ("groups", encodeColumns groups),
      ("havings", .array (encodeHavings havings)),
      ("orders", .array (orders.map SortKey.encode)),
      ("limit", encodeCount limit),
      ("offset", encodeCount offset),
      ("lock", lock.elim .null Lock.encode),
      ("unions", .array (encodeBranches unions)),
      ("union_orders", .array (unionOrders.map SortKey.encode)),
      ("union_limit", encodeCount unionLimit),
      ("union_offset", encodeCount unionOffset)]

end

/-! ## §3 Reading queries -/

/-- The keys of a query. -/
def queryKeys : List String :=
  ["from", "columns", "distinct", "aggregate", "joins", "wheres", "groups", "havings", "orders",
    "limit", "offset", "lock", "unions", "union_orders", "union_limit", "union_offset"]

/-- A condition on rows that looks into no query and is no group of conditions. -/
def decodePlainPredicate? (tag : String) (fields : Fields) : Option Predicate :=
  let column := field Column.decode? "column" fields
  let selector := field text? "column" fields
  let operator := field text? "operator" fields
  let value := field Value.decode? "value" fields
  let negated := fieldOr flag? false "not" fields
  match tag with
  | "raw" => (decodeSql? fields).map fun (sql, bindings) => .raw sql bindings
  | "basic" => do
    guard (unrepeated ["column", "operator", "value"] fields)
    return .compare (← column) (← operator) (← value)
  | "bitwise" => do
    guard (unrepeated ["column", "operator", "value"] fields)
    return .bitwise (← column) (← operator) (← value)
  | "json_boolean" => do
    guard (unrepeated ["column", "operator", "value"] fields)
    return .jsonBoolean (← selector) (← operator) (← field flag? "value" fields)
  | "like" => do
    guard (unrepeated ["column", "value", "case_sensitive", "not"] fields)
    return .like (← column) (← value) (← fieldOr flag? false "case_sensitive" fields) (← negated)
  | "between" => do
    guard (unrepeated ["column", "min", "max", "not"] fields)
    return .between (← column) (← field Value.decode? "min" fields)
      (← field Value.decode? "max" fields) (← negated)
  | "between_columns" => do
    guard (unrepeated ["column", "min", "max", "not"] fields)
    return .betweenColumns (← column) (← field Column.decode? "min" fields)
      (← field Column.decode? "max" fields) (← negated)
  | "in_raw" => do
    guard (unrepeated ["column", "values", "not"] fields)
    return .inIntegers (← column) (← field (listOf? integer?) "values" fields) (← negated)
  | "null" => do
    guard (unrepeated ["column"] fields)
    return .isNull (← column)
  | "not_null" => do
    guard (unrepeated ["column"] fields)
    return .isNotNull (← column)
  | "date" => do
    guard (unrepeated ["part", "column", "operator", "value"] fields)
    return .datePart (← field (DatePart.decodeIn? .byTag) "part" fields) (← column) (← operator)
      (← value)
  | "column" => do
    guard (unrepeated ["first", "operator", "second"] fields)
    return .compareColumns (← field Column.decode? "first" fields) (← operator)
      (← field Column.decode? "second" fields)
  | "row_values" => do
    guard (unrepeated ["columns", "operator", "values"] fields)
    return .rowValues (← field decodeColumns? "columns" fields) (← operator)
      (← field decodeValues? "values" fields)
  | "json_contains" => do
    guard (unrepeated ["column", "value", "not"] fields)
    return .jsonContains (← selector) (← value) (← negated)
  | "json_contains_key" => do
    guard (unrepeated ["column", "not"] fields)
    return .jsonContainsKey (← selector) (← negated)
  | "json_length" => do
    guard (unrepeated ["column", "operator", "value"] fields)
    return .jsonLength (← selector) (← operator) (← value)
  | "full_text" => do
    guard (unrepeated ["columns", "value", "options"] fields)
    return .fullText (← field decodeColumns? "columns" fields) (← value)
      (← fieldOr FullTextOptions.decode? {} "options" fields)
  | _ => none

/-- Members given by a list of values. -/
def decodeInList? (fields : Fields) : Option Predicate := do
  return .inList (← field Column.decode? "column" fields) (← field decodeValues? "values" fields)
    (← fieldOr flag? false "not" fields)

/-- The tags of conditions on rows, in order. -/
def Predicate.tags : List String :=
  ["raw", "basic", "bitwise", "json_boolean", "like", "between", "between_columns", "in", "in_raw",
    "null", "not_null", "date", "nested", "exists", "sub", "column", "row_values", "json_contains",
    "json_contains_key", "json_length", "full_text"]

mutual

/-- The value of a JSON form. -/
def Table.decode? : Json → Option Table
  | .string name => some (.named name)
  | .object fields =>
    if !Json.fieldsReadable fields then none
    else
      let derived? := do
        guard (unrepeated ["query", "alias"] fields)
        return .derived (← (← queryField .byShape "query" fields)) (← field text? "alias" fields)
      match derived? with
      | some tbl => some tbl
      | none => (decodeSql? fields).map fun (sql, bindings) => .raw sql bindings
  | _ => none

/-- The query under a key, if the key is there. -/
def queryField (s : Setting) (name : String) : List (String × Json) → Option (Option Query)
  | [] => some none
  | (key, v) :: rest =>
    if key = name then (Query.decodeIn? s v).map some else queryField s name rest

/-- The value of a JSON form in a setting. -/
def Predicate.decodeIn? (s : Setting) : Json → Option Predicate
  | .object fields => do
    match ← tagIn? s "type" Predicate.tags fields with
    | "in" =>
      guard (unrepeated ["column", "values", "not"] fields)
      match decodeInList? fields with
      | some p => return p
      | none =>
        return .inQuery (← field Column.decode? "column" fields)
          (← (← queryField .byShape "values" fields)) (← fieldOr flag? false "not" fields)
    | "nested" =>
      guard (unrepeated ["wheres"] fields)
      return .group (← (← clausesField .byTag "wheres" fields))
    | "exists" =>
      guard (unrepeated ["query", "not"] fields)
      return .hasRows (← (← queryField .byTag "query" fields)) (← fieldOr flag? false "not" fields)
    | "sub" =>
      guard (unrepeated ["column", "operator", "query"] fields)
      return .compareQuery (← field Column.decode? "column" fields)
        (← field text? "operator" fields) (← (← queryField .byTag "query" fields))
    | tag => decodePlainPredicate? tag fields
  | _ => none

/-- The clauses under a key, if the key is there. -/
def clausesField (s : Setting) (name : String) :
    List (String × Json) → Option (Option (List (Clause Predicate)))
  | [] => some none
  | (key, v) :: rest =>
    if key = name then (decodeClausesIn? s v).map some else clausesField s name rest

/-- The clauses of a JSON form in a setting. -/
def decodeClausesIn? (s : Setting) : Json → Option (List (Clause Predicate))
  | .array items => clauseItems s items
  | _ => none

/-- The clauses of JSON forms. -/
def clauseItems (s : Setting) : List Json → Option (List (Clause Predicate))
  | [] => some []
  | v :: rest => do return (← decodeClause? s v) :: (← clauseItems s rest)

/-- The clause of a JSON form. -/
def decodeClause? (s : Setting) : Json → Option (Clause Predicate)
  | .object fields => do
    let connective ← decodeConnective? s fields
    return ⟨connective, ← (← predicateNode s fields)⟩
  | _ => none

/-- The condition in the field `node`, if there is one. -/
def predicateNode (s : Setting) : List (String × Json) → Option (Option Predicate)
  | [] => some none
  | (key, v) :: rest =>
    if key = "node" then (Predicate.decodeIn? s v).map some else predicateNode s rest

/-- The value of a JSON form in a setting. -/
def Join.decodeIn? (s : Setting) : Json → Option Join
  | .object fields => do
    guard (unrepeated ["type", "table", "on", "joins", "lateral"] fields)
    return {
      kind := ← fieldOr (JoinKind.decodeIn? s) .inner "type" fields
      table := ← (← tableField "table" fields)
      on := (← clausesField s "on" fields).getD []
      joins := (← joinsField s fields).getD []
      lateral := ← fieldOr flag? false "lateral" fields }
  | _ => none

/-- The table under a key, if the key is there. -/
def tableField (name : String) : List (String × Json) → Option (Option Table)
  | [] => some none
  | (key, v) :: rest => if key = name then (Table.decode? v).map some else tableField name rest

/-- The joins in the field `joins`, if there is one. -/
def joinsField (s : Setting) : List (String × Json) → Option (Option (List Join))
  | [] => some none
  | (key, v) :: rest =>
    if key = "joins" then (decodeJoinsIn? s v).map some else joinsField s rest

/-- The joins of a JSON form in a setting. -/
def decodeJoinsIn? (s : Setting) : Json → Option (List Join)
  | .array items => joinItems s items
  | _ => none

/-- The joins of JSON forms. -/
def joinItems (s : Setting) : List Json → Option (List Join)
  | [] => some []
  | v :: rest => do return (← Join.decodeIn? s v) :: (← joinItems s rest)

/-- The branches in the field `unions`, if there is one. -/
def unionsField (s : Setting) : List (String × Json) → Option (Option (List UnionBranch))
  | [] => some none
  | (key, v) :: rest =>
    if key = "unions" then (decodeBranches? s v).map some else unionsField s rest

/-- The branches of a JSON form. -/
def decodeBranches? (s : Setting) : Json → Option (List UnionBranch)
  | .array items => branchItems s items
  | _ => none

/-- The branches of JSON forms. -/
def branchItems (s : Setting) : List Json → Option (List UnionBranch)
  | [] => some []
  | v :: rest => do return (← decodeBranch? s v) :: (← branchItems s rest)

/-- The branch of a JSON form. -/
def decodeBranch? (s : Setting) : Json → Option UnionBranch
  | .object fields => do
    guard (unrepeated ["query", "all"] fields)
    return ⟨← (← queryField s "query" fields), ← fieldOr flag? false "all" fields⟩
  | _ => none

/-- The table in the field `from`; nothing if it is missing or null. -/
def sourceField : List (String × Json) → Option (Option Table)
  | [] => some none
  | (key, v) :: rest =>
    if key = "from" then
      match v with
      | .null => some none
      | v => (Table.decode? v).map some
    else sourceField rest

/-- The value of a JSON form in a setting. -/
def Query.decodeIn? (s : Setting) : Json → Option Query
  | .object fields => do
    guard (unrepeated queryKeys fields)
    return {
      source := ← sourceField fields
      columns := ← fieldOr (nullable? decodeColumns?) none "columns" fields
      distinct := ← fieldOr (Distinct.decodeIn? s) .off "distinct" fields
      aggregate := ← fieldOr (nullable? Aggregate.decode?) none "aggregate" fields
      joins := (← joinsField s fields).getD []
      wheres := (← clausesField s "wheres" fields).getD []
      groups := ← fieldOr decodeColumns? [] "groups" fields
      havings := ← fieldOr (decodeHavingsIn? s) [] "havings" fields
      orders := ← fieldOr (listOf? (SortKey.decodeIn? s)) [] "orders" fields
      limit := ← fieldOr (nullable? count?) none "limit" fields
      offset := ← fieldOr (nullable? count?) none "offset" fields
      lock := ← fieldOr (nullable? (Lock.decodeIn? s)) none "lock" fields
      unions := (← unionsField s fields).getD []
      unionOrders := ← fieldOr (listOf? (SortKey.decodeIn? s)) [] "union_orders" fields
      unionLimit := ← fieldOr (nullable? count?) none "union_limit" fields
      unionOffset := ← fieldOr (nullable? count?) none "union_offset" fields }
  | _ => none

end

/-- The value of a JSON form. -/
def Predicate.decode? : Json → Option Predicate :=
  Predicate.decodeIn? .plain

/-- The clauses of a JSON form. -/
def decodeClauses? : Json → Option (List (Clause Predicate)) :=
  decodeClausesIn? .plain

/-- The value of a JSON form. -/
def Join.decode? : Json → Option Join :=
  Join.decodeIn? .plain

/-- The joins of a JSON form. -/
def decodeJoins? : Json → Option (List Join) :=
  decodeJoinsIn? .plain

/-- The value of a JSON form. -/
def Query.decode? : Json → Option Query :=
  Query.decodeIn? .plain

end SqlCompiler
