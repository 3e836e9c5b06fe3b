import SqlCompiler.Proofs.JsonDocuments

/-!
# Values without Repeated Keys

An object of a JSON text may have a key twice. A document that a value denotes has not, and a value
without repeated keys denotes its own fields, in another order.

## Main definitions

- `Json.keysOnce`: no object has a key twice, at any depth
- `Json.Legible`: what can be written and read, readable and without repeated keys
- `Json.Hereditary`: what holds of the parts of a value as well

## Main statements

- `Json.legible_canonical`: the document that a readable value denotes
- `Json.eq_of_canonical_single`: what denotes an object of a single text
-/

namespace SqlCompiler.Json

/-! ## §1 Keys -/

mutual

/-- No object in the value has a key twice. -/
def keysOnce : Json → Bool
  | .array items => itemsKeysOnce items
  | .object fields => decide (fields.map Prod.fst).Nodup && fieldsKeysOnce fields
  | _ => true

/-- No object in the items has a key twice. -/
def itemsKeysOnce : List Json → Bool
  | [] => true
  | v :: vs => v.keysOnce && itemsKeysOnce vs

/-- No object in the values of fields has a key twice. -/
def fieldsKeysOnce : List (String × Json) → Bool
  | [] => true
  | (_, v) :: fields => v.keysOnce && fieldsKeysOnce fields

end

/-- A list repeats no key if none of its items does. -/
theorem keysOnce_array {items : List Json} :
    (Json.array items).keysOnce = true ↔ ∀ v ∈ items, v.keysOnce = true := by
  rw [keysOnce]
  induction items with
  | nil => simp [itemsKeysOnce]
  | cons v vs ih => simp [itemsKeysOnce, ih]

/-- An object repeats no key if its own keys differ and none of its values repeats one. -/
theorem keysOnce_object {fields : List (String × Json)} :
    (Json.object fields).keysOnce = true ↔
      (fields.map Prod.fst).Nodup ∧ ∀ p ∈ fields, p.2.keysOnce = true := by
  have hvalues : fieldsKeysOnce fields = true ↔ ∀ p ∈ fields, p.2.keysOnce = true := by
    induction fields with
    | nil => simp [fieldsKeysOnce]
    | cons field fields ih => simp [fieldsKeysOnce, ih]
  rw [keysOnce, Bool.and_eq_true, decide_eq_true_iff, hvalues]

/-- Keys in order do not repeat. -/
theorem KeysInOrder.nodup {fields : List (String × Json)} (h : KeysInOrder fields) :
    (fields.map Prod.fst).Nodup :=
  List.pairwise_map.2 (h.imp ne_of_lt)

/-! ## §2 Parts -/

/-- What holds of a value and then of its parts as well. -/
structure Hereditary (P : Json → Prop) : Prop where
  item {items : List Json} (h : P (.array items)) : ∀ v ∈ items, P v
  value {fields : List (String × Json)} (h : P (.object fields)) : ∀ p ∈ fields, P p.2

theorem hereditary_true : Hereditary fun _ => True :=
  ⟨fun _ _ _ => trivial, fun _ _ _ => trivial⟩

/-- Parts of a value without repeated keys have none. -/
theorem hereditary_keysOnce : Hereditary fun v => v.keysOnce = true :=
  ⟨fun h => keysOnce_array.1 h, fun h => (keysOnce_object.1 h).2⟩

/-! ## §3 Documents -/

/-- What holds of the documents that values of fields denote holds of the fields in order. -/
theorem values_canonicalFields {Q : Json → Prop} {done fields : List (String × Json)}
    (hdone : ∀ p ∈ done, Q p.2) (hfields : ∀ p ∈ fields, Q p.2.canonical) :
    ∀ p ∈ canonicalFields done fields, Q p.2 := by
  induction fields generalizing done with
  | nil =>
    rw [canonicalFields]
    exact hdone
  | cons field fields ih =>
    obtain ⟨k, v⟩ := field
    rw [canonicalFields]
    refine ih (fun p hp => ?_) fun p hp => hfields p (List.mem_cons_of_mem _ hp)
    rcases mem_put hp with rfl | hp
    · exact hfields (k, v) List.mem_cons_self
    · exact hdone p hp

mutual

/-- The document that a value denotes has every key once. -/
theorem keysOnce_canonical : (v : Json) → v.canonical.keysOnce = true
  | .null => rfl
  | .bool _ => rfl
  | .integer _ => rfl
  | .double _ => rfl
  | .string _ => rfl
  | .unreadable => rfl
  | .array items => by
    simp only [canonical, keysOnce]
    exact itemsKeysOnce_canonicalItems items
  | .object fields => by
    simp only [canonical]
    have hkeys : KeysInOrder (canonicalFields [] fields) := canonicalFields_inOrder .nil fields
    refine keysOnce_object.2 ⟨hkeys.nodup, ?_⟩
    exact values_canonicalFields (Q := fun v => v.keysOnce = true) (fun _ hp => by cases hp)
      (keysOnce_values fields)

/-- The documents that items denote, one by one. -/
theorem itemsKeysOnce_canonicalItems : (items : List Json) →
    itemsKeysOnce (canonicalItems items) = true
  | [] => rfl
  | v :: vs => by
    rw [canonicalItems, itemsKeysOnce, keysOnce_canonical v, itemsKeysOnce_canonicalItems vs]
    rfl

/-- The documents that values of fields denote, one by one. -/
theorem keysOnce_values : (fields : List (String × Json)) →
    ∀ p ∈ fields, p.2.canonical.keysOnce = true
  | [], _, hp => nomatch hp
  | (_, v) :: fields, p, hp => by
    rcases List.mem_cons.1 hp with rfl | hp
    · exact keysOnce_canonical v
    · exact keysOnce_values fields p hp

end

/-- A field that is put among others is there, and so are the others. -/
theorem mem_keys_put {key k : String} (v : Json) {fields : List (String × Json)}
    (h : k = key ∨ k ∈ fields.map Prod.fst) : k ∈ (put key v fields).map Prod.fst := by
  induction fields with
  | nil => simpa [put] using h
  | cons field fields ih =>
    obtain ⟨key', w⟩ := field
    rw [List.map_cons, List.mem_cons] at h
    rw [put]
    -- the field is replaced, stands in front of a greater key, or goes further back
    split
    · subst ‹key' = key›
      simpa using h
    · split
      · simpa using h
      · rw [List.map_cons, List.mem_cons]
        rcases h with h | h | h
        · exact .inr (ih (.inl h))
        · exact .inl h
        · exact .inr (ih (.inr h))

/-- The document of fields has all their keys. -/
theorem mem_keys_canonicalFields {k : String} {done fields : List (String × Json)}
    (h : k ∈ done.map Prod.fst ∨ k ∈ fields.map Prod.fst) :
    k ∈ (canonicalFields done fields).map Prod.fst := by
  induction fields generalizing done with
  | nil =>
    rw [canonicalFields]
    simpa using h
  | cons field fields ih =>
    obtain ⟨key, v⟩ := field
    rw [List.map_cons, List.mem_cons] at h
    rw [canonicalFields]
    refine ih ?_
    rcases h with h | h | h
    · exact .inl (mem_keys_put _ (.inr h))
    · exact .inl (mem_keys_put _ (.inl h))
    · exact .inr h

/-- Only a text denotes a text. -/
theorem eq_of_canonical_string {v : Json} {s : String} (h : v.canonical = .string s) :
    v = .string s := by
  cases v with
  | string _ => exact h
  | _ => cases h

/-- Without repeated keys only an object of a single text denotes one. -/
theorem eq_of_canonical_single {fields : List (String × Json)} {key s : String}
    (hkeys : (fields.map Prod.fst).Nodup) (h : canonicalFields [] fields = [(key, .string s)]) :
    fields = [(key, .string s)] := by
  have hkey (k : String) (hk : k ∈ fields.map Prod.fst) : k = key := by
    have hmem : k ∈ (canonicalFields [] fields).map Prod.fst := mem_keys_canonicalFields (.inr hk)
    rw [h] at hmem
    simpa using hmem
  -- all keys of the fields are the one key, so that a second field would repeat it
  match fields with
  | [] => exact h
  | [(k, v)] =>
    have hsingle : [(k, v.canonical)] = [(key, Json.string s)] := h
    simp only [List.cons.injEq, Prod.mk.injEq, and_true] at hsingle
    rw [hsingle.1, eq_of_canonical_string hsingle.2]
  | (k, _) :: (k', _) :: _ =>
    have hsame : k = k' := (hkey k (by simp)).trans (hkey k' (by simp)).symm
    simp [hsame] at hkeys

/-- Only a list of a single text denotes one. -/
theorem eq_of_canonicalItems_single {items : List Json} {s : String}
    (h : canonicalItems items = [.string s]) : items = [.string s] := by
  match items with
  | [] => exact h
  | [v] =>
    have hsingle : [v.canonical] = [Json.string s] := h
    rw [eq_of_canonical_string (List.cons.inj hsingle).1]
  | _ :: _ :: _ => simp [canonicalItems] at h

/-! ## §4 Legible values -/

/-- What can be written and read: nothing is unreadable, and no key repeats. -/
structure Legible (v : Json) : Prop where
  isReadable : v.isReadable = true
  keysOnce : v.keysOnce = true

@[simp] theorem legible_null : Legible .null := ⟨rfl, rfl⟩

@[simp] theorem legible_bool (b : Bool) : Legible (.bool b) := ⟨rfl, rfl⟩

@[simp] theorem legible_integer (n : Int) : Legible (.integer n) := ⟨rfl, rfl⟩

@[simp] theorem legible_double (x : Binary64) : Legible (.double x) := ⟨rfl, rfl⟩

@[simp] theorem legible_string (s : String) : Legible (.string s) := ⟨rfl, rfl⟩

/-- A list is readable if each of its items is. -/
theorem itemsReadable_iff (items : List Json) :
    itemsReadable items = true ↔ ∀ v ∈ items, v.isReadable = true := by
  induction items with
  | nil => simp [itemsReadable]
  | cons v vs ih => simp [itemsReadable, ih]

/-- A list is legible if its items are. -/
@[simp] theorem legible_array {items : List Json} :
    Legible (.array items) ↔ ∀ v ∈ items, Legible v := by
  constructor
  · rintro ⟨hreadable, hkeys⟩ v hv
    exact ⟨(itemsReadable_iff items).1 hreadable v hv, keysOnce_array.1 hkeys v hv⟩
  · exact fun h => ⟨(itemsReadable_iff items).2 fun v hv => (h v hv).isReadable,
      keysOnce_array.2 fun v hv => (h v hv).keysOnce⟩

/-- An object is legible if its keys differ and its values are legible. -/
@[simp] theorem legible_object {fields : List (String × Json)} :
    Legible (.object fields) ↔ (fields.map Prod.fst).Nodup ∧ ∀ p ∈ fields, Legible p.2 := by
  constructor
  · rintro ⟨hreadable, hkeys⟩
    obtain ⟨hnodup, hvalues⟩ := keysOnce_object.1 hkeys
    exact ⟨hnodup, fun p hp => ⟨(fieldsReadable_iff fields).1 hreadable p hp, hvalues p hp⟩⟩
  · rintro ⟨hnodup, h⟩
    exact ⟨(fieldsReadable_iff fields).2 fun p hp => (h p hp).isReadable,
      keysOnce_object.2 ⟨hnodup, fun p hp => (h p hp).keysOnce⟩⟩

/-- What a readable value denotes is legible. -/
theorem legible_canonical {v : Json} (h : v.isReadable = true) : Legible v.canonical :=
  ⟨isReadable_canonical v h, keysOnce_canonical v⟩

end SqlCompiler.Json
