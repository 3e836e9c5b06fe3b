import SqlCompiler.Proofs.PathSteps

/-!
# Indices of Steps

A step is cut into its key and its indices. Behind the cut there are only indices, each of them at
least one character between brackets and none of these a closing bracket; and the cut lies as far in
front as this allows. So there is one cut only, whatever brackets are empty, left open or inside of
others.

A step is rendered in two ways, as its parts one by one and as a step of a path literal. Both come
from its cut, and the step can be put together again from either.

## Main definitions

- `IsIndex`: what can stand between the brackets of an index
- `StepCut`: the key of a step, and the longest run of indices at its end
- `indicesIn`: the indices of a text, found one after the other

## Main statements

- `indices?_eq_some_iff`: a text is read as the indices that it consists of
- `splitIndices_eq_iff`: a step is split at its cut
- `indicesIn_bracketed`: in a run of indices each of them is found
- `step_cut_alike`: what the two renderings of a step have in common
-/

namespace SqlCompiler

variable {step key index : List Char} {indices : List (List Char)}

/-! ## §1 Runs of indices -/

/-- What can stand between the brackets of an index. -/
def IsIndex (index : List Char) : Prop :=
  index ≠ [] ∧ ']' ∉ index

theorem bracketed_cons (index : List Char) (indices : List (List Char)) :
    bracketed (index :: indices) = '[' :: (index ++ ']' :: bracketed indices) := by
  simp [bracketed]

/-- An index is read up to the bracket behind it. -/
theorem indices?_index {read : List Char} (hclose : ']' ∉ index) (hne : read ≠ [] ∨ index ≠ [])
    (rest : List Char) :
    indices? (some read) (index ++ ']' :: rest) =
      (indices? none rest).map ((read.reverse ++ index) :: ·) := by
  induction index generalizing read with
  | nil =>
    have hread : read.isEmpty = false := by simpa using hne
    simp [indices?, hread]
  | cons c index ih =>
    rw [List.mem_cons, not_or] at hclose
    rw [List.cons_append, indices?, if_neg (Ne.symm hclose.1),
      ih hclose.2 (.inl (List.cons_ne_nil c read))]
    simp

/-- No index is empty. -/
theorem ne_nil_of_indices? {current : Option (List Char)} {cs : List Char}
    (h : indices? current cs = some indices) : ∀ index ∈ indices, index ≠ [] := by
  induction cs generalizing current indices with
  | nil =>
    cases current with
    | none =>
      cases h
      intro index hindex
      cases hindex
    | some read => cases h
  | cons c cs ih =>
    cases current with
    | none =>
      simp only [indices?] at h
      split at h
      · exact ih h
      · cases h
    | some read =>
      simp only [indices?] at h
      split at h
      · split at h
        · cases h
        · -- an index is closed only if something has been read of it
          rename_i hread
          obtain ⟨rest, hrest, rfl⟩ := Option.map_eq_some_iff.1 h
          exact List.forall_mem_cons.2 ⟨by simpa using hread, ih hrest⟩
      · exact ih h

/-- A text is read as the indices that it consists of. -/
theorem indices?_eq_some_iff {cs : List Char} :
    indices? none cs = some indices ↔
      cs = bracketed indices ∧ ∀ index ∈ indices, IsIndex index := by
  constructor
  · intro h
    have hclose := close_not_mem_indices? h nofun
    exact ⟨(bracketed_indices? h).symm, fun index hindex =>
      ⟨ne_nil_of_indices? h index hindex, hclose index hindex⟩⟩
  · rintro ⟨rfl, hindices⟩
    induction indices with
    | nil => rfl
    | cons index indices ih =>
      obtain ⟨⟨hne, hclose⟩, hindices⟩ := List.forall_mem_cons.1 hindices
      rw [bracketed_cons, indices?, if_pos rfl, indices?_index hclose (.inr hne), ih hindices]
      rfl

/-! ## §2 The cut of a step -/

/-- The key of a step, and the longest run of indices at its end. -/
structure StepCut (step key : List Char) (indices : List (List Char)) : Prop where
  spelled : step = key ++ bracketed indices
  isIndex : ∀ index ∈ indices, IsIndex index
  longest : ∀ before run, step = before ++ bracketed run → (∀ index ∈ run, IsIndex index) →
    bracketed run <:+ bracketed indices

namespace StepCut

/-- A text that consists of indices has no key. -/
theorem whole (h : ∀ index ∈ indices, IsIndex index) : StepCut (bracketed indices) [] indices where
  spelled := rfl
  isIndex := h
  longest before _ hrun _ := ⟨before, hrun.symm⟩

/-- In front of a step, a character belongs to the key unless the whole consists of indices. -/
theorem cons {c : Char} (h : StepCut step key indices)
    (hc : indices? none (c :: step) = none) : StepCut (c :: step) (c :: key) indices where
  spelled := congrArg _ h.spelled
  isIndex := h.isIndex
  longest before run hrun hindices := by
    cases before with
    | nil =>
      -- then the whole would consist of indices
      rw [indices?_eq_some_iff.2 ⟨hrun, hindices⟩] at hc
      cases hc
    | cons first before => exact h.longest before run (List.cons.inj hrun).2 hindices

/-- A step has one cut. -/
theorem unique {key' : List Char} {indices' : List (List Char)} (h : StepCut step key indices)
    (h' : StepCut step key' indices') : key = key' ∧ indices = indices' := by
  -- each of the runs ends in the other, so that they are the same
  have hleft := h'.longest key indices h.spelled h.isIndex
  have hright := h.longest key' indices' h'.spelled h'.isIndex
  have hsame : bracketed indices = bracketed indices' := hleft.eq_of_length_le hright.length_le
  constructor
  · have hspelled := h.spelled.symm.trans h'.spelled
    rw [hsame] at hspelled
    exact List.append_cancel_right hspelled
  · -- the run is read as either of them
    have hread := indices?_eq_some_iff.2 ⟨rfl, h.isIndex⟩
    rw [indices?_eq_some_iff.2 ⟨hsame, h'.isIndex⟩] at hread
    exact (Option.some.inj hread).symm

end StepCut

/-- A step is split at its cut. -/
theorem stepCut_splitIndices (step : List Char) :
    StepCut step (splitIndices step).1 (splitIndices step).2 := by
  fun_induction splitIndices step with
  | case1 =>
    have hnone : ∀ index ∈ ([] : List (List Char)), IsIndex index := List.forall_mem_nil _
    exact .whole hnone
  | case2 c cs indices h =>
    split at h
    · obtain ⟨hcs, hindices⟩ := indices?_eq_some_iff.1 h
      rw [hcs]
      exact .whole hindices
    · cases h
  | case3 c cs h key indices hcut ih =>
    rw [hcut] at ih
    refine ih.cons ?_
    -- what begins with another character than a bracket was not even tried
    split at h
    · exact h
    · rename_i hopen
      rw [indices?, if_neg hopen]

theorem splitIndices_eq_iff :
    splitIndices step = (key, indices) ↔ StepCut step key indices := by
  constructor
  · intro h
    have hcut := stepCut_splitIndices step
    rwa [h] at hcut
  · intro h
    obtain ⟨hkey, hindices⟩ := (stepCut_splitIndices step).unique h
    exact Prod.ext hkey hindices

/-! ## §3 Indices one by one -/

/-- The indices of a text from left to right. Each goes from the first opening bracket that no
closing one follows at once up to the next closing bracket; what stands between them is skipped. -/
def indicesIn : List Char → List (List Char)
  | [] => []
  | c :: cs =>
    if c = '[' ∧ ']' ∈ cs ∧ cs.head? ≠ some ']' then
      cs.takeWhile (· != ']') :: indicesIn (cs.dropWhile (· != ']')).tail
    else indicesIn cs
termination_by cs => cs.length
decreasing_by
  · have hdrop := (List.dropWhile_sublist (l := cs) (· != ']')).length_le
    rw [List.length_tail, List.length_cons]
    omega
  · exact Nat.lt_succ_self _

/-- In a run of indices each of them is found, and nothing is skipped. -/
theorem indicesIn_bracketed (h : ∀ index ∈ indices, IsIndex index) :
    indicesIn (bracketed indices) = indices := by
  induction indices with
  | nil =>
    show indicesIn [] = []
    rw [indicesIn]
  | cons index indices ih =>
    obtain ⟨⟨hne, hclose⟩, hindices⟩ := List.forall_mem_cons.1 h
    have hinner : ∀ c ∈ index, (c != ']') = true := by
      intro c hc
      rw [bne_iff_ne]
      rintro rfl
      exact hclose hc
    have hbegin : (index ++ ']' :: bracketed indices).head? ≠ some ']' := by
      obtain ⟨c, rest, rfl⟩ := List.exists_cons_of_ne_nil hne
      have hc : c ≠ ']' := bne_iff_ne.1 (hinner c List.mem_cons_self)
      simpa using hc
    rw [bracketed_cons, indicesIn, if_pos ⟨rfl, by simp, hbegin⟩,
      List.takeWhile_append_of_pos hinner, List.dropWhile_append_of_pos hinner]
    simp [ih hindices]

/-! ## §4 Parts and path literals -/

/-- A step without indices is its only part; otherwise an empty key is left out. -/
theorem StepCut.parts {step : String} (h : StepCut step.toList key indices) :
    stepParts step =
      if indices = [] then [step]
      else (if key = [] then [] else [String.ofList key]) ++ indices.map String.ofList := by
  rw [stepParts, splitIndices_eq_iff.2 h]
  cases indices with
  | nil =>
    have hkey : step.toList = key := h.spelled.trans (List.append_nil key)
    simp [← hkey]
  | cons index indices => cases key <;> simp

/-- The end of a step stands in the path literal as it is. -/
theorem StepCut.literal (h : StepCut step key indices) :
    pathStep step =
      (if key = [] ∧ indices ≠ [] then [] else '"' :: key ++ ['"']) ++ bracketed indices := by
  simp only [pathStep_eq, IsBare, splitIndices_eq_iff.2 h]

/-- The indices of a step are those that are found behind its key. -/
theorem StepCut.found (h : StepCut step key indices) :
    indicesIn (step.drop key.length) = indices := by
  rw [h.spelled, List.drop_left, indicesIn_bracketed h.isIndex]

/-- Both renderings of a step come from its one cut, and neither loses anything.

* The step is its key followed by its indices in brackets. No index is empty or has a closing
  bracket in it, and no longer end of the step consists of indices. There is no other such cut.
* A step without indices is its only part. Otherwise the parts are the key, unless it is empty, and
  the indices one by one.
* In a path literal there is the key between double quotes, unless it is empty and there are
  indices, and behind it the same indices in the same order.
* The indices are also those that are found one after the other behind the key. -/
theorem step_cut_alike (step : String) :
    ∃ key indices, StepCut step.toList key indices ∧
      (∀ key' indices', StepCut step.toList key' indices' → key' = key ∧ indices' = indices) ∧
      stepParts step =
        (if indices = [] then [step]
        else (if key = [] then [] else [String.ofList key]) ++ indices.map String.ofList) ∧
      pathStep step.toList =
        (if key = [] ∧ indices ≠ [] then [] else '"' :: key ++ ['"']) ++ bracketed indices ∧
      indicesIn (step.toList.drop key.length) = indices := by
  have hcut := stepCut_splitIndices step.toList
  exact ⟨_, _, hcut, fun _ _ hother => hother.unique hcut, hcut.parts, hcut.literal, hcut.found⟩

/-- Brackets around nothing belong to the key, and an opening bracket can stand in an index. -/
example : stepParts "a[][b[0][1]" = ["a[]", "b[0", "1"] := by decide

end SqlCompiler
