import SqlCompiler.Proofs.AssignedPlaces

/-!
# Merged Documents

SQLite merges the assignments of a row into documents, one for each column. An assignment stores a
value under a path of keys: it makes the objects on its way, and replaces what stands at its end.
What it leaves alone are the paths that neither lead to its own path nor go on from it.

So the columns are those of the assignments, each once; an assignment stays unless a later one goes
to a place that leads to it or lies in it; and there is nothing in a document but the ways to
assigned places and what has been stored there.

## Main definitions

- `DocumentAssignment`, `documentAssignments`: an assignment into a document, and those of a row
- `Comparable`: two paths of which one leads to the other

## Main statements

- `Json.at?_assign_of_not_comparable`: an assignment leaves other places alone
- `mergeAll_roots`, `mergeAll_last`, `mergeAll_origin`: what any number of assignments come to
- `documentPatches_lossless`: the same for the assignments of a row
-/

namespace SqlCompiler

/-! ## §1 One assignment to a document -/

/-- Two paths of keys of which one leads to the other. -/
def Comparable (path other : List String) : Prop :=
  path <+: other ∨ other <+: path

/-- Paths that begin alike are comparable if the rest of them is. -/
theorem comparable_cons_iff {key : String} {path other : List String} :
    Comparable (key :: path) (key :: other) ↔ Comparable path other := by
  simp only [Comparable, List.cons_prefix_cons, true_and]

namespace Json

/-- A field that is put leaves those of other keys alone. -/
theorem find?_put_of_ne {key other : String} (h : key ≠ other) (value : Json)
    (fields : List (String × Json)) : find? other (put key value fields) = find? other fields := by
  fun_induction put key value fields with
  | case1 => simp [find?, h]
  | case2 v fields => simp [find?, h]
  | case3 => simp [find?, h]
  | case4 k v fields _ _ ih => rw [find?, find?, ih]

/-- A path in two parts leads through the part of the document that the first one leads to. -/
theorem at?_append (path rest : List String) (doc : Json) :
    doc.at? (path ++ rest) = (doc.at? path).bind (at? rest) := by
  induction path generalizing doc with
  | nil => rfl
  | cons key path ih =>
    rw [List.cons_append, at?, at?, Option.bind_assoc]
    exact congrArg _ (funext fun inner => ih inner)

/-- Inside of what has been stored, there is what was inside of it before. -/
theorem at?_assign_append (value : Json) (path rest : List String) (doc : Json) :
    (assign value path doc).at? (path ++ rest) = value.at? rest := by
  rw [at?_append, at?_assign, Option.bind_some]

/-- An assignment leaves alone what is neither on its way nor at its end. -/
theorem at?_assign_of_not_comparable (value : Json) {path other : List String} (doc : Json)
    (h : ¬ Comparable path other) : (assign value path doc).at? other = doc.at? other := by
  induction path generalizing other doc with
  | nil => exact absurd (.inl List.nil_prefix) h
  | cons key path ih =>
    cases other with
    | nil => exact absurd (.inr List.nil_prefix) h
    | cons next other =>
      rw [assign, at?, at?, fields]
      by_cases hkey : key = next
      · -- the same key: what was there before, or nothing
        subst hkey
        rw [comparable_cons_iff] at h
        rw [find?_put, Option.bind_some, ih _ h]
        cases find? key doc.fields with
        | some inner => rfl
        | none =>
          cases other with
          | nil => exact absurd (.inr List.nil_prefix) h
          | cons next other => rfl
      · rw [find?_put_of_ne hkey]

/-- The empty path is all that a document without fields has. -/
theorem eq_nil_of_at?_null {path : List String} {part : Json} (h : null.at? path = some part) :
    path = [] := by
  cases path with
  | nil => rfl
  | cons key path => cases h

end Json

/-! ## §2 One assignment among documents -/

/-- The columns stay, and a new one comes last. -/
theorem keys_patch (root : String) (path : List String) (value : Json)
    (patches : List (String × Json)) :
    (patch root path value patches).map Prod.fst =
      if root ∈ patches.map Prod.fst then patches.map Prod.fst
      else patches.map Prod.fst ++ [root] := by
  fun_induction patch root path value patches with
  | case1 => rfl
  | case2 doc patches => simp
  | case3 column doc patches hne ih =>
    have hmem : root ∈ column :: patches.map Prod.fst ↔ root ∈ patches.map Prod.fst := by
      simp [Ne.symm hne]
    simp only [List.map_cons, ih, hmem]
    split <;> rfl

/-- An assignment changes the document of its column, or begins one. -/
theorem find?_patch_self (root : String) (path : List String) (value : Json)
    (patches : List (String × Json)) :
    Json.find? root (patch root path value patches) =
      some (Json.assign value path ((Json.find? root patches).getD .null)) := by
  fun_induction patch root path value patches with
  | case1 => simp [Json.find?]
  | case2 doc patches => simp [Json.find?]
  | case3 column doc patches hne ih => rw [Json.find?, if_neg hne, ih, Json.find?, if_neg hne]

/-- An assignment leaves the documents of other columns alone. -/
theorem find?_patch_of_ne {root other : String} (h : root ≠ other) (path : List String)
    (value : Json) (patches : List (String × Json)) :
    Json.find? other (patch root path value patches) = Json.find? other patches := by
  fun_induction patch root path value patches with
  | case1 => simp [Json.find?, h]
  | case2 doc patches => simp [Json.find?, h]
  | case3 column doc patches _ ih => rw [Json.find?, Json.find?, ih]

/-! ## §3 Any number of assignments -/

/-- An assignment into the document of a column. -/
structure DocumentAssignment where
  root : String
  path : List String
  value : Json

/-- The documents that come from assignments, one after the other. -/
def mergeAll (assignments : List DocumentAssignment) : List (String × Json) :=
  assignments.foldl (fun patches a => patch a.root a.path a.value patches) []

theorem mergeAll_concat (assignments : List DocumentAssignment) (a : DocumentAssignment) :
    mergeAll (assignments ++ [a]) = patch a.root a.path a.value (mergeAll assignments) := by
  rw [mergeAll, List.foldl_append]
  rfl

/-- The columns of documents are those of the assignments, in the order in which they first
appear. -/
theorem mergeAll_roots (assignments : List DocumentAssignment) :
    (mergeAll assignments).map Prod.fst =
      (assignments.map DocumentAssignment.root).eraseDups := by
  induction assignments using List.reverseRecOn with
  | nil => rfl
  | append_singleton assignments a ih =>
    have hsingle : [a.root].eraseDups = [a.root] := List.eraseDups_cons
    rw [mergeAll_concat, keys_patch, ih, List.map_append, List.eraseDups_append]
    split <;> simp_all [List.removeAll]

/-- Each column has one document. -/
theorem mergeAll_nodup (assignments : List DocumentAssignment) :
    ((mergeAll assignments).map Prod.fst).Nodup := by
  induction assignments using List.reverseRecOn with
  | nil => exact List.nodup_nil
  | append_singleton assignments a ih =>
    rw [mergeAll_concat, keys_patch]
    split
    · exact ih
    · rw [(List.perm_append_singleton a.root _).nodup_iff, List.nodup_cons]
      exact ⟨‹_›, ih⟩

/-- The last of comparable assignments to a column is found where its path leads. -/
theorem mergeAll_last (before after : List DocumentAssignment) (a : DocumentAssignment)
    (h : ∀ later ∈ after, later.root = a.root → ¬ Comparable later.path a.path) :
    ∃ doc, Json.find? a.root (mergeAll (before ++ a :: after)) = some doc ∧
      doc.at? a.path = some a.value := by
  induction after using List.reverseRecOn with
  | nil =>
    rw [mergeAll_concat]
    exact ⟨_, find?_patch_self _ _ _ _, Json.at?_assign _ _ _⟩
  | append_singleton after later ih =>
    obtain ⟨hlater, hafter⟩ : _ ∧ _ := by simpa [or_imp, forall_and, and_comm] using h
    obtain ⟨doc, hdoc, hat⟩ := ih hafter
    rw [← List.cons_append, ← List.append_assoc, mergeAll_concat]
    -- a later assignment to the same document keeps away from the path
    by_cases hroot : later.root = a.root
    · refine ⟨_, by rw [hroot, find?_patch_self], ?_⟩
      rw [hdoc, Option.getD_some, Json.at?_assign_of_not_comparable _ _ (hlater hroot)]
      exact hat
    · exact ⟨doc, by rw [find?_patch_of_ne hroot, hdoc], hat⟩

/-- A place in a document is on the way to an assigned place, or it is a part of an assigned value
and holds what that part is. -/
theorem mergeAll_origin (assignments : List DocumentAssignment) {root : String} {doc : Json}
    (hdoc : Json.find? root (mergeAll assignments) = some doc) {path : List String} {part : Json}
    (hpart : doc.at? path = some part) :
    ∃ a ∈ assignments, a.root = root ∧
      (path <+: a.path ∨ ∃ rest, path = a.path ++ rest ∧ a.value.at? rest = some part) := by
  -- from the last assignment back to the one that the part comes from
  induction assignments using List.reverseRecOn generalizing doc with
  | nil => cases hdoc
  | append_singleton assignments a ih =>
    rw [mergeAll_concat] at hdoc
    by_cases hroot : a.root = root
    · rw [← hroot, find?_patch_self] at hdoc
      obtain rfl := Option.some.inj hdoc
      by_cases hcomparable : Comparable a.path path
      · refine ⟨a, by simp, hroot, ?_⟩
        rcases hcomparable with ⟨rest, rfl⟩ | hleads
        · rw [Json.at?_assign_append] at hpart
          exact .inr ⟨rest, rfl, hpart⟩
        · exact .inl hleads
      · -- what the assignment leaves alone was there before
        rw [Json.at?_assign_of_not_comparable _ _ hcomparable] at hpart
        cases hbefore : Json.find? a.root (mergeAll assignments) with
        | none =>
          rw [hbefore] at hpart
          rw [Json.eq_nil_of_at?_null hpart] at hcomparable
          exact absurd (.inr List.nil_prefix) hcomparable
        | some doc =>
          rw [hbefore] at hpart
          obtain ⟨origin, hmem, horigin⟩ := ih (hroot ▸ hbefore) hpart
          exact ⟨origin, List.mem_append_left _ hmem, horigin⟩
    · rw [find?_patch_of_ne hroot] at hdoc
      obtain ⟨origin, hmem, horigin⟩ := ih hdoc hpart
      exact ⟨origin, List.mem_append_left _ hmem, horigin⟩

/-! ## §4 The assignments of a row -/

/-- The assignments of a row into documents, in the order of the row. -/
def documentAssignments (row : Row) : List DocumentAssignment :=
  (row.entries.filter fun (key, _) => isSelector key).map fun (key, value) =>
    ⟨(patchTarget key).1, (patchTarget key).2, value.toJson⟩

theorem documentPatches_eq_mergeAll (row : Row) :
    documentPatches row = mergeAll (documentAssignments row) := by
  rw [documentPatches, mergeAll, documentAssignments, List.foldl_map]

/-- Among columns that stand once, a document is the one that is found. -/
theorem find?_eq_some_iff_mem {patches : List (String × Json)}
    (hnodup : (patches.map Prod.fst).Nodup) {root : String} {doc : Json} :
    Json.find? root patches = some doc ↔ (root, doc) ∈ patches := by
  induction patches with
  | nil => simp [Json.find?]
  | cons patch patches ih =>
    obtain ⟨column, other⟩ := patch
    rw [List.map_cons, List.nodup_cons] at hnodup
    rw [Json.find?]
    split
    · rename_i hcolumn
      subst hcolumn
      -- the column occurs once, so the first document is its only one
      have habsent : (column, doc) ∉ patches := fun hmem =>
        hnodup.1 (List.mem_map.2 ⟨_, hmem, rfl⟩)
      simp [habsent, eq_comm]
    · rename_i hcolumn
      rw [ih hnodup.2]
      simp [Ne.symm hcolumn]

/-- The assignments of a row into documents are merged without loss, and the last writer wins. There
is one document for each column, in the order in which the columns first appear; an assignment is
found where its path leads if no later one to that column goes to a place on its way, at its end or
behind it; and every place in a document is on the way to an assigned place, or is a part of an
assigned value. -/
theorem documentPatches_lossless (row : Row) :
    ((documentPatches row).map Prod.fst).Nodup ∧
    (documentPatches row).map Prod.fst =
      ((documentAssignments row).map DocumentAssignment.root).eraseDups ∧
    (∀ before a after, documentAssignments row = before ++ a :: after →
      (∀ later ∈ after, later.root = a.root → ¬ Comparable later.path a.path) →
      ∃ doc, (a.root, doc) ∈ documentPatches row ∧ doc.at? a.path = some a.value) ∧
    (∀ root doc, (root, doc) ∈ documentPatches row → ∀ path part, doc.at? path = some part →
      ∃ a ∈ documentAssignments row, a.root = root ∧
        (path <+: a.path ∨ ∃ rest, path = a.path ++ rest ∧ a.value.at? rest = some part)) := by
  rw [documentPatches_eq_mergeAll]
  have hnodup := mergeAll_nodup (documentAssignments row)
  refine ⟨hnodup, mergeAll_roots _, ?_, ?_⟩
  · intro before a after hrow hlast
    rw [hrow] at hnodup ⊢
    obtain ⟨doc, hdoc, hat⟩ := mergeAll_last before after a hlast
    exact ⟨doc, (find?_eq_some_iff_mem hnodup).1 hdoc, hat⟩
  · intro root doc hmem path part hpart
    exact mergeAll_origin _ ((find?_eq_some_iff_mem hnodup).2 hmem) hpart

/-- A row whose assignments overlap: one goes into a value that another one has stored, and one
replaces what lies behind it. -/
def overlappingRow : Row :=
  ⟨[("options->theme", .json (.object [("color", .string "red")])), ("name", .text "x"),
    ("users.tags->a->b", .bool true), ("users.options->theme->size", .int 2), ("tags->a", .null)]⟩

/-- Assignments to the same document, some below others: the later ones are found, and every part
has an origin. -/
theorem overlappingRow_lossless :
    (documentPatches overlappingRow).map Prod.fst = ["options", "tags"] ∧
    (∃ doc, ("options", doc) ∈ documentPatches overlappingRow ∧
      doc.at? ["theme", "size"] = some (.integer 2)) ∧
    (∃ doc, ("tags", doc) ∈ documentPatches overlappingRow ∧ doc.at? ["a"] = some .null) ∧
    (∀ doc, ("options", doc) ∈ documentPatches overlappingRow →
      ∀ part, doc.at? ["theme", "color"] = some part →
      ∃ a ∈ documentAssignments overlappingRow, a.root = "options" ∧
        (["theme", "color"] <+: a.path ∨
          ∃ rest, ["theme", "color"] = a.path ++ rest ∧ a.value.at? rest = some part)) := by
  obtain ⟨-, hroots, hlast, horigin⟩ := documentPatches_lossless overlappingRow
  refine ⟨?_, ?_, ?_, fun doc hmem => horigin _ doc hmem _⟩
  · rw [hroots]
    decide
  · have hrow : documentAssignments overlappingRow =
        [⟨"options", ["theme"], .object [("color", .string "red")]⟩,
          ⟨"tags", ["a", "b"], .bool true⟩] ++
        ⟨"options", ["theme", "size"], .integer 2⟩ :: [⟨"tags", ["a"], .null⟩] := rfl
    exact hlast _ _ _ hrow (by simp)
  · have hrow : documentAssignments overlappingRow =
        [⟨"options", ["theme"], .object [("color", .string "red")]⟩,
          ⟨"tags", ["a", "b"], .bool true⟩, ⟨"options", ["theme", "size"], .integer 2⟩] ++
        ⟨"tags", ["a"], .null⟩ :: [] := rfl
    exact hlast _ _ _ hrow (by simp)

end SqlCompiler
