import Mathlib.Data.String.Basic
import SqlCompiler.Json.Basic

/-!
# Canonical Documents

A document has every key once and in order, at every depth. What a value denotes is such a document,
and a document denotes itself.

## Main definitions

- `Json.KeysInOrder`: the keys of fields increase

## Main statements

- `Json.canonicalFields_inOrder`: the fields of a document are in order
- `Json.canonical_canonical`: a document denotes itself
- `Json.isReadable_canonical`: what a readable value denotes is readable
-/

namespace SqlCompiler.Json

/-! ## §1 Fields in order -/

/-- The keys of fields increase. -/
def KeysInOrder (fields : List (String × Json)) : Prop :=
  fields.Pairwise fun p p' => p.1 < p'.1

/-- A key of fields with one more field is the new key or an old one. -/
theorem mem_put {key : String} {v : Json} {fields : List (String × Json)} {p : String × Json}
    (h : p ∈ put key v fields) : p = (key, v) ∨ p ∈ fields := by
  induction fields with
  | nil => exact .inl (List.mem_singleton.1 h)
  | cons field fields ih =>
    obtain ⟨k, w⟩ := field
    rw [put] at h
    split at h
    · rcases List.mem_cons.1 h with h | h
      · exact .inl h
      · exact .inr (List.mem_cons_of_mem _ h)
    · split at h
      · rcases List.mem_cons.1 h with h | h
        · exact .inl h
        · exact .inr h
      · rcases List.mem_cons.1 h with h | h
        · exact .inr (h ▸ List.mem_cons_self ..)
        · rcases ih h with h | h
          · exact .inl h
          · exact .inr (List.mem_cons_of_mem _ h)

/-- A field is put where its key belongs. -/
theorem put_inOrder {key : String} (v : Json) {fields : List (String × Json)}
    (h : KeysInOrder fields) : KeysInOrder (put key v fields) := by
  induction fields with
  | nil => exact List.pairwise_singleton ..
  | cons field fields ih =>
    obtain ⟨k, w⟩ := field
    obtain ⟨hfirst, hrest⟩ := List.pairwise_cons.1 h
    rw [put]
    split
    · -- the first field keeps its key and takes the new value
      rename_i hkey
      subst hkey
      exact List.pairwise_cons.2 ⟨hfirst, hrest⟩
    · rename_i hne
      split
      · rename_i hlt
        refine List.pairwise_cons.2 ⟨fun p hp => ?_, h⟩
        rcases List.mem_cons.1 hp with rfl | hp
        · exact hlt
        · exact lt_trans hlt (hfirst p hp)
      · rename_i hge
        -- the new key belongs behind the first one
        refine List.pairwise_cons.2 ⟨fun p hp => ?_, ih hrest⟩
        rcases mem_put hp with rfl | hp
        · exact lt_of_le_of_ne (not_lt.1 hge) hne
        · exact hfirst p hp

/-- A key behind all others is put at the end. -/
theorem put_last {key : String} (v : Json) {fields : List (String × Json)}
    (h : ∀ p ∈ fields, p.1 < key) : put key v fields = fields ++ [(key, v)] := by
  induction fields with
  | nil => rfl
  | cons field fields ih =>
    obtain ⟨k, w⟩ := field
    have hk : k < key := h (k, w) (List.mem_cons_self ..)
    rw [put, if_neg (ne_of_lt hk), if_neg (not_lt_of_gt hk),
      ih fun p hp => h p (List.mem_cons_of_mem _ hp)]
    rfl

/-- The fields of a document are in order, whatever the order of those that denote it. -/
theorem canonicalFields_inOrder {done : List (String × Json)} (h : KeysInOrder done)
    (fields : List (String × Json)) : KeysInOrder (canonicalFields done fields) := by
  induction fields generalizing done with
  | nil =>
    rw [canonicalFields]
    exact h
  | cons field fields ih =>
    obtain ⟨k, v⟩ := field
    rw [canonicalFields]
    exact ih (put_inOrder v.canonical h)

/-! ## §2 Documents -/

/-- Fields that are in order, and whose values are documents, are added as they are. -/
theorem canonicalFields_of_inOrder {done fields : List (String × Json)}
    (horder : KeysInOrder (done ++ fields)) (hvalues : ∀ p ∈ fields, p.2.canonical = p.2) :
    canonicalFields done fields = done ++ fields := by
  induction fields generalizing done with
  | nil => rw [canonicalFields, List.append_nil]
  | cons field fields ih =>
    obtain ⟨k, v⟩ := field
    -- in order, the next key comes behind all that are there
    have hlast : ∀ p ∈ done, p.1 < k := fun p hp =>
      (List.pairwise_append.1 horder).2.2 p hp (k, v) (List.mem_cons_self ..)
    have hv : v.canonical = v := hvalues (k, v) (List.mem_cons_self ..)
    rw [List.append_cons] at horder
    rw [canonicalFields, hv, put_last v hlast, List.append_cons done (k, v) fields]
    exact ih horder fun p hp => hvalues p (List.mem_cons_of_mem _ hp)

mutual

/-- A document denotes itself. -/
theorem canonical_canonical : (v : Json) → v.canonical.canonical = v.canonical
  | .null => rfl
  | .bool _ => rfl
  | .integer _ => rfl
  | .double _ => rfl
  | .string _ => rfl
  | .unreadable => rfl
  | .array items => by
    simp only [canonical]
    rw [canonicalItems_canonicalItems items]
  | .object fields => by
    simp only [canonical]
    have horder : KeysInOrder (canonicalFields [] fields) := canonicalFields_inOrder .nil fields
    rw [canonicalFields_of_inOrder horder (canonicalFields_values fields (fun _ h => by cases h))]
    rfl

/-- The documents of a list, one by one. -/
theorem canonicalItems_canonicalItems : (items : List Json) →
    canonicalItems (canonicalItems items) = canonicalItems items
  | [] => rfl
  | v :: vs => by
    simp only [canonicalItems]
    rw [canonical_canonical v, canonicalItems_canonicalItems vs]

/-- The values of the fields of a document are documents. -/
theorem canonicalFields_values : (fields : List (String × Json)) →
    {done : List (String × Json)} → (∀ p ∈ done, p.2.canonical = p.2) →
    ∀ p ∈ canonicalFields done fields, p.2.canonical = p.2
  | [], _, hdone => by
    rw [canonicalFields]
    exact hdone
  | (k, v) :: fields, _, hdone => by
    rw [canonicalFields]
    refine canonicalFields_values fields fun p hp => ?_
    rcases mem_put hp with rfl | hp
    · exact canonical_canonical v
    · exact hdone p hp

end

/-! ## §3 Readable documents -/

/-- Fields are readable if each of their values is. -/
theorem fieldsReadable_iff (fields : List (String × Json)) :
    fieldsReadable fields = true ↔ ∀ p ∈ fields, p.2.isReadable = true := by
  induction fields with
  | nil => simp [fieldsReadable]
  | cons field fields ih => simp [fieldsReadable, ih]

mutual

/-- What a readable value denotes is readable. -/
theorem isReadable_canonical : (v : Json) → v.isReadable = true → v.canonical.isReadable = true
  | .null, h => h
  | .bool _, h => h
  | .integer _, h => h
  | .double _, h => h
  | .string _, h => h
  | .unreadable, h => h
  | .array items, h => by
    simp only [canonical, isReadable] at h ⊢
    exact itemsReadable_canonicalItems items h
  | .object fields, h => by
    simp only [canonical, isReadable] at h ⊢
    rw [fieldsReadable_iff]
    exact canonicalFields_readable fields h fun _ hp => by cases hp

theorem itemsReadable_canonicalItems : (items : List Json) → itemsReadable items = true →
    itemsReadable (canonicalItems items) = true
  | [], h => h
  | v :: vs, h => by
    simp only [canonicalItems, itemsReadable, Bool.and_eq_true] at h ⊢
    exact ⟨isReadable_canonical v h.1, itemsReadable_canonicalItems vs h.2⟩

/-- The fields of the document of readable fields, with those that are done already. -/
theorem canonicalFields_readable : (fields : List (String × Json)) →
    {done : List (String × Json)} → fieldsReadable fields = true →
    (∀ p ∈ done, p.2.isReadable = true) →
    ∀ p ∈ canonicalFields done fields, p.2.isReadable = true
  | [], _, _, hdone => by
    rw [canonicalFields]
    exact hdone
  | (k, v) :: fields, _, h, hdone => by
    simp only [fieldsReadable, Bool.and_eq_true] at h
    rw [canonicalFields]
    refine canonicalFields_readable fields h.2 fun p hp => ?_
    rcases mem_put hp with rfl | hp
    · exact isReadable_canonical v h.1
    · exact hdone p hp

end

end SqlCompiler.Json
