import SqlCompiler.Proofs.ReadValues
import SqlCompiler.Proofs.ReadingBack

/-!
# Requests Written and Read

A request that was read from a document is written as a document again, and is read from that as it
was. Every part of a request is written in a form of its own; only values could be taken for one
another, since raw SQL is told from a document by its shape alone. In a document no value with that
shape is read as anything but raw SQL.

A text may repeat a key, which a document does not. `restored_iff` says which requests come back
whatever they were read from.

## Main statements

- `request_restored`: a request that was read from a document comes back
- `restored_iff`: a request comes back if none of its values is a document in the form of raw SQL
-/

namespace SqlCompiler

open Codec Json

/-- Values that were read come back, unless they are documents in the form of raw SQL. -/
theorem every_stable {values : List Value} (h : Every (ReadFrom fun _ => True) values)
    (hne : ∀ v ∈ values, ∀ sql, v ≠ .json (.object [("raw", .string sql)])) :
    Every Value.Stable values := by
  intro v hv
  obtain ⟨d, -, hd⟩ := h v hv
  exact (Value.stable_iff hd).2 (hne v hv)

/-- Where no key repeats no document in the form of raw SQL is read. -/
theorem ne_marker_of_keysOnce {d : Json} {r : Request} (hkeys : d.keysOnce = true)
    (h : Request.decode? d = some r) :
    ∀ v ∈ r.values, ∀ sql, v ≠ .json (.object [("raw", .string sql)]) := by
  intro v hv
  obtain ⟨hread, -⟩ := Request.decode?_yields hereditary_keysOnce d hkeys r h
  obtain ⟨part, hpart, hvalue⟩ := hread v hv
  exact Value.ne_marker hpart hvalue

/-- What was read is written as a document: it can be read, and repeats no key. -/
theorem legible_encode_of_decode? {d : Json} {r : Request} (h : Request.decode? d = some r) :
    Legible r.encode := by
  obtain ⟨hread, -⟩ := Request.decode?_yields hereditary_true d trivial r h
  apply Request.legible_encode
  exact hread.imp fun _ ⟨_, _, hvalue⟩ => Value.legible_of_decode? hvalue

/-- A request that was read comes back exactly if none of its values is a document in the form of
raw SQL. -/
theorem restored_iff {d : Json} {r : Request} (h : Request.decode? d = some r) :
    Request.decode? r.encode = some r ↔
      ∀ v ∈ r.values, ∀ sql, v ≠ .json (.object [("raw", .string sql)]) := by
  obtain ⟨hread, hrows⟩ := Request.decode?_yields hereditary_true d trivial r h
  constructor
  · -- what is written repeats no key, and so no such document is read from it
    intro hrestored
    exact ne_marker_of_keysOnce (legible_encode_of_decode? h).keysOnce hrestored
  · intro hne
    exact Request.decode?_encode (every_stable hread hne) hrows

/-- A request that was read from a document is written as a document, and comes back from it. -/
theorem request_restored {d : Json} {r : Request} (hkeys : d.keysOnce = true)
    (h : Request.decode? d = some r) :
    Legible r.encode ∧ Request.decode? r.encode = some r := by
  have hne := ne_marker_of_keysOnce hkeys h
  exact ⟨legible_encode_of_decode? h, (restored_iff h).2 hne⟩

/-- An update of posts: raw SQL as an object and as a list, a document, an integer beyond 64 bits,
members given by a query, and a column that raw SQL stands for. -/
def archivedPosts : Json :=
  .object [
    ("query", .object [
      ("limit", .null),
      ("from", .object [("alias", .string "p"), ("query", .object [("from", .string "posts")])]),
      ("wheres", .array [
        .object [("node", .object [
          ("column", .string "id"), ("type", .string "in"),
          ("values", .object [("from", .string "pinned")]), ("not", .bool true)])],
        .object [("boolean", .string "or"), ("node", .object [
          ("type", .string "basic"), ("operator", .string "<"),
          ("column", .object [("sql", .string "age(?)"), ("bindings", .array [.integer 3])]),
          ("value", .array [.string "now()"])])]])]),
    ("statement", .object [
      ("values", .array [
        .array [.string "closed", .object [("raw", .string "now()")]],
        .array [.string "tags", .object [("raw", .array []), ("by", .string "cron")]],
        .array [.string "rank", .integer 18446744073709551616]]),
      ("kind", .string "update")])]

theorem request_restored_archivedPosts :
    archivedPosts.keysOnce = true ∧
    ∃ r, Request.decode? archivedPosts = some r ∧
      r.values = [.raw "now()",
        .json (.object [("by", .string "cron"), ("raw", .array [])]),
        .float (Binary64.ofInt 18446744073709551616), .int 3, .raw "now()"] ∧
      Legible r.encode ∧ Request.decode? r.encode = some r :=
  ⟨rfl, _, rfl, rfl, request_restored (d := archivedPosts) rfl rfl⟩

end SqlCompiler
