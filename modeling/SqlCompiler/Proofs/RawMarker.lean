import SqlCompiler.Codec.Value
import SqlCompiler.Proofs.JsonDocuments

/-!
# Documents Read as Raw SQL

A value in JSON is read by its shape alone, and one shape stands for raw SQL. Two documents have
that shape: the object with the single field `raw`, and the list of exactly one string. Every other
list or object is read as the document that it is. A document that is such a list does not come back
from its written form: it is read as raw SQL.

## Main statements

- `decode?_eq_raw_iff`: the two documents that are read as raw SQL
- `decode?_eq_json_iff`: the lists and objects that are read as documents
- `raw_reading_exact`: both together, the second for documents as they are written
- `document_read_as_raw`: a list of one string, read as raw SQL
-/

namespace SqlCompiler

open Value

/-! ## §1 The marker -/

/-- The SQL of a marker, and the two documents that are one. -/
theorem rawMarker?_eq_some_iff {d : Json} {sql : String} :
    rawMarker? d = some sql ↔ d = .object [("raw", .string sql)] ∨ d = .array [.string sql] := by
  constructor
  · intro h
    unfold rawMarker? at h
    split at h
    · split at h
      · rename_i key text hkey
        cases h
        exact .inl (by rw [hkey])
      · cases h
    · cases h
      exact .inr rfl
    · cases h
  · rintro (rfl | rfl) <;> rfl

/-- A list or an object is read as raw SQL if it is a marker, and else as the document that it
denotes. -/
theorem decode?_container {d : Json} (hreadable : d.isReadable = true)
    (hcontainer : d.isContainer = true) :
    decode? d = some ((rawMarker? d).elim (.json d.canonical) .raw) := by
  cases d with
  | array items =>
    unfold decode?
    simp only [hreadable, if_true]
    cases rawMarker? (.array items) <;> rfl
  | object fields =>
    unfold decode?
    simp only [hreadable, if_true]
    cases rawMarker? (.object fields) <;> rfl
  | _ => cases hcontainer

/-- What is not readable has no value. -/
theorem decode?_unreadable {d : Json} (h : d.isReadable = false) : decode? d = none := by
  cases d with
  | array items =>
    unfold decode?
    simp only [h, Bool.false_eq_true, if_false]
  | object fields =>
    unfold decode?
    simp only [h, Bool.false_eq_true, if_false]
  | unreadable => rfl
  | _ => cases h

/-- Only lists and objects are read as raw SQL. -/
theorem isContainer_of_decode?_raw {d : Json} {sql : String} (h : decode? d = some (.raw sql)) :
    d.isContainer = true := by
  cases d with
  | array _ => rfl
  | object _ => rfl
  | integer n =>
    simp only [decode?] at h
    cases hn : Codec.integer? (.integer n) <;> rw [hn] at h <;> cases h
  | _ => cases h

/-! ## §2 Reading -/

/-- The documents that are read as raw SQL. -/
theorem decode?_eq_raw_iff (d : Json) (sql : String) :
    decode? d = some (.raw sql) ↔
      d = .object [("raw", .string sql)] ∨ d = .array [.string sql] := by
  constructor
  · intro h
    have hcontainer : d.isContainer = true := isContainer_of_decode?_raw h
    have hreadable : d.isReadable = true := by
      by_contra hne
      rw [decode?_unreadable (Bool.not_eq_true _ ▸ hne)] at h
      cases h
    rw [decode?_container hreadable hcontainer] at h
    apply rawMarker?_eq_some_iff.1
    cases hmarker : rawMarker? d with
    | none =>
      rw [hmarker] at h
      cases h
    | some text =>
      rw [hmarker] at h
      cases h
      rfl
  · rintro (rfl | rfl) <;> rfl

/-- A list or an object that is no marker is read as the document it denotes. -/
theorem decode?_eq_json_iff {d : Json} (hreadable : d.isReadable = true)
    (hcontainer : d.isContainer = true) :
    decode? d = some (.json d.canonical) ↔
      ∀ sql, d ≠ .object [("raw", .string sql)] ∧ d ≠ .array [.string sql] := by
  rw [decode?_container hreadable hcontainer]
  constructor
  · intro h sql
    rw [← not_or, ← rawMarker?_eq_some_iff]
    intro hmarker
    rw [hmarker] at h
    cases h
  · intro h
    cases hmarker : rawMarker? d with
    | none => rfl
    | some sql =>
      rcases rawMarker?_eq_some_iff.1 hmarker with hd | hd
      · exact absurd hd (h sql).1
      · exact absurd hd (h sql).2

/-! ## §3 Writing and reading -/

/-- A list or an object denotes a list or an object. -/
theorem isContainer_canonical (d : Json) : d.canonical.isContainer = d.isContainer := by
  cases d <;> rfl

/-- The reading of a document as raw SQL, and the documents that come back as they were written. -/
theorem raw_reading_exact (d : Json) :
    (∀ sql, decode? d = some (.raw sql) ↔
      d = .object [("raw", .string sql)] ∨ d = .array [.string sql]) ∧
    (d.isReadable = true → d.isContainer = true →
      (decode? (encode (.json d.canonical)) = some (.json d.canonical) ↔
        ∀ sql, d.canonical ≠ .object [("raw", .string sql)] ∧
          d.canonical ≠ .array [.string sql])) := by
  refine ⟨decode?_eq_raw_iff d, fun hreadable hcontainer => ?_⟩
  have hread : d.canonical.isReadable = true := Json.isReadable_canonical d hreadable
  have hcont : d.canonical.isContainer = true := (isContainer_canonical d).trans hcontainer
  have hiff := decode?_eq_json_iff hread hcont
  -- a document denotes itself, so what is written is what is read
  rw [Json.canonical_canonical] at hiff
  exact hiff

/-- A list of two texts, and an object whose field `raw` is followed by another. -/
theorem raw_reading_exact_tags :
    decode? (encode (.json (.array [.string "now()", .string "x"]))) =
      some (.json (.array [.string "now()", .string "x"])) ∧
    decode? (encode (.json (.object [("raw", .string "now()"), ("tag", .null)]))) =
      some (.json (.object [("raw", .string "now()"), ("tag", .null)])) := by
  constructor
  · refine ((raw_reading_exact (.array [.string "now()", .string "x"])).2 rfl rfl).2 fun sql => ?_
    constructor <;> (intro h; cases h)
  · refine ((raw_reading_exact
      (.object [("raw", .string "now()"), ("tag", .null)])).2 rfl rfl).2 fun sql => ?_
    constructor <;> (intro h; cases h)

/-- A list of one text is no object, is read as raw SQL, and does not come back. -/
theorem document_read_as_raw :
    decode? (.array [.string "now()"]) = some (.raw "now()") ∧
    (∀ sql, Json.array [.string "now()"] ≠ .object [("raw", .string sql)]) ∧
    decode? (encode (.json (.array [.string "now()"]))) ≠
      some (.json (.array [.string "now()"])) := by
  refine ⟨rfl, fun sql h => ?_, fun h => ?_⟩
  · cases h
  · cases h

end SqlCompiler
