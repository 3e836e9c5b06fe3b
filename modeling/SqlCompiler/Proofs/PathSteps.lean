import SqlCompiler.Proofs.LiteralConventions

/-!
# Steps of JSON Paths

The path of a selector is meant to lead through its steps: to the key of each step, and on through
the indices behind it. Whether the path in its literal leads there is seen by reading it. Keys that
are read have no double quote in them, and what begins with an index is preceded by no dot; so the
literal leads through the steps exactly if nothing of this stands in the way. Backslashes in front
of quotes belong to no step; dropping them neither joins steps nor cuts them.

## Main definitions

- `PathStep.spelling`: a step as it is written in a JSON path
- `stepPath`: the key and the indices of a step
- `IsBare`: a step of indices only
- `writtenStep`: what a step is in the literal of a path

## Main statements

- `pathSteps?_eq_some_iff`: a JSON path is read as the steps that spell it
- `pathText_leads_iff`: when a JSON path leads through the steps that it is made of
- `splitOn_join_arrow`: steps that are put together are found again
- `writtenPath_leads_iff`: when the literal of some steps leads through them
- `writtenPath_append_empty`: with an empty step at its end, it leads elsewhere
-/

namespace SqlCompiler

/-! ## §1 Spelling -/

/-- A step as it is written in a JSON path. -/
def PathStep.spelling : PathStep → List Char
  | .key name => '.' :: '"' :: name ++ ['"']
  | .index text => '[' :: text ++ [']']

/-- A step without the character that ends it. -/
def PathStep.IsPlain : PathStep → Prop
  | .key name => '"' ∉ name
  | .index text => ']' ∉ text

/-- What has been read of a step, the last character first. -/
def openedStep : Option PathStep → List Char
  | none => []
  | some (.key name) => '.' :: '"' :: name.reverse
  | some (.index text) => '[' :: text.reverse

/-- A JSON path is the steps that are read, each as it is written. -/
theorem spelling_of_readPath {state : Option PathStep} {cs : List Char} {steps : List PathStep}
    (hstate : ∀ step, state = some step → step.IsPlain) (h : readPath state cs = some steps) :
    openedStep state ++ cs = steps.flatMap PathStep.spelling ∧ ∀ step ∈ steps, step.IsPlain := by
  -- the state of the reader is a step of which the beginning has been read
  fun_induction readPath state cs generalizing steps with
  | case1 =>
    cases h
    exact ⟨rfl, fun _ => nofun⟩
  | case2 cs ih =>
    refine ih ?_ h
    rintro _ ⟨rfl⟩
    exact List.not_mem_nil
  | case3 cs ih =>
    refine ih ?_ h
    rintro _ ⟨rfl⟩
    exact List.not_mem_nil
  | case4 => cases h
  | case5 => cases h
  | case6 name cs ih =>
    obtain ⟨rest, hrest, rfl⟩ := Option.map_eq_some_iff.1 h
    obtain ⟨hcs, hplain⟩ := ih nofun hrest
    have hname : '"' ∉ name := hstate _ rfl
    refine ⟨?_, List.forall_mem_cons.2 ⟨by simpa [PathStep.IsPlain] using hname, hplain⟩⟩
    rw [List.flatMap_cons, ← hcs]
    simp [openedStep, PathStep.spelling]
  | case7 name c cs hc ih =>
    have hname : '"' ∉ name := hstate _ rfl
    obtain ⟨hcs, hplain⟩ := ih (by rintro _ ⟨rfl⟩; simp [PathStep.IsPlain, hname, Ne.symm hc]) h
    exact ⟨by simpa [openedStep] using hcs, hplain⟩
  | case8 text cs ih =>
    obtain ⟨rest, hrest, rfl⟩ := Option.map_eq_some_iff.1 h
    obtain ⟨hcs, hplain⟩ := ih nofun hrest
    have htext : ']' ∉ text := hstate _ rfl
    refine ⟨?_, List.forall_mem_cons.2 ⟨by simpa [PathStep.IsPlain] using htext, hplain⟩⟩
    rw [List.flatMap_cons, ← hcs]
    simp [openedStep, PathStep.spelling]
  | case9 text c cs hc ih =>
    have htext : ']' ∉ text := hstate _ rfl
    obtain ⟨hcs, hplain⟩ := ih (by rintro _ ⟨rfl⟩; simp [PathStep.IsPlain, htext, Ne.symm hc]) h
    exact ⟨by simpa [openedStep] using hcs, hplain⟩

/-- An index is read up to the bracket behind it. -/
theorem readPath_index {text : List Char} (h : ']' ∉ text) (read rest : List Char) :
    readPath (some (.index read)) (text ++ ']' :: rest) =
      (readPath none rest).map (.index (read.reverse ++ text) :: ·) := by
  induction text generalizing read with
  | nil => simp [readPath]
  | cons c text ih =>
    rw [List.mem_cons, not_or] at h
    rw [List.cons_append]
    conv_lhs => rw [readPath, if_neg (Ne.symm h.1), ih h.2]
    simp

theorem readPath_spelling {steps : List PathStep} (h : ∀ step ∈ steps, step.IsPlain) :
    readPath none (steps.flatMap PathStep.spelling) = some steps := by
  induction steps with
  | nil => rfl
  | cons step steps ih =>
    obtain ⟨hstep, hsteps⟩ := List.forall_mem_cons.1 h
    rw [List.flatMap_cons]
    cases step with
    | key name =>
      rw [PathStep.spelling, List.append_assoc, List.cons_append, List.cons_append,
        List.singleton_append, readPath, readPath_key hstep, ih hsteps]
      rfl
    | index text =>
      rw [PathStep.spelling, List.append_assoc, List.cons_append, List.singleton_append, readPath,
        readPath_index hstep, ih hsteps]
      rfl

/-- A JSON path is read as some steps exactly if it is the root and these steps as they are
written. -/
theorem pathSteps?_eq_some_iff {cs : List Char} {steps : List PathStep} :
    pathSteps? cs = some steps ↔
      cs = '$' :: steps.flatMap PathStep.spelling ∧ ∀ step ∈ steps, step.IsPlain := by
  constructor
  · intro h
    unfold pathSteps? at h
    split at h
    · have hstart : ∀ step : PathStep, none = some step → step.IsPlain := nofun
      obtain ⟨hcs, hplain⟩ := spelling_of_readPath hstart h
      exact ⟨congrArg _ hcs, hplain⟩
    · cases h
  · rintro ⟨rfl, hplain⟩
    exact readPath_spelling hplain

/-- A JSON path with an empty key at its end leads to that key. -/
theorem last_of_emptyEnd {cs : List Char} {steps : List PathStep}
    (h : pathSteps? (cs ++ ['.', '"', '"']) = some steps) : steps.getLast? = some (.key []) := by
  obtain ⟨hcs, hplain⟩ := pathSteps?_eq_some_iff.1 h
  rcases List.eq_nil_or_concat steps with rfl | ⟨init, last, rfl⟩
  · -- the root alone is too short
    have hlength := congrArg List.length hcs
    simp at hlength
  · rw [List.concat_eq_append] at hcs hplain ⊢
    rw [List.getLast?_concat]
    have hlast : last.IsPlain := hplain last (by simp)
    rw [List.flatMap_append, List.flatMap_singleton, ← List.cons_append] at hcs
    cases last with
    | index text =>
      -- an index ends in a bracket
      have hend := congrArg List.getLast? hcs
      rw [PathStep.spelling, ← List.append_assoc, List.getLast?_concat,
        List.getLast?_append_of_ne_nil _ (by simp)] at hend
      exact absurd hend (by decide)
    | key name =>
      rcases List.eq_nil_or_concat name with rfl | ⟨front, c, rfl⟩
      · rfl
      · -- the last character of the key would be a quote
        rw [List.concat_eq_append] at hcs hlast
        have hinner : (cs ++ ['.', '"']) ++ ['"'] =
            (('$' :: init.flatMap PathStep.spelling) ++ '.' :: '"' :: (front ++ [c])) ++ ['"'] := by
          rw [List.append_assoc, List.append_assoc]
          simpa [PathStep.spelling] using hcs
        have hend := congrArg List.getLast? (List.append_cancel_right hinner)
        rw [List.getLast?_append_of_ne_nil _ (by simp), ← List.cons_append, ← List.cons_append,
          ← List.append_assoc, List.getLast?_concat] at hend
        obtain rfl : '"' = c := Option.some.inj hend
        exact absurd (List.mem_append_right front List.mem_cons_self) hlast

/-! ## §2 Steps -/

/-- A step of indices only. -/
def IsBare (step : List Char) : Prop :=
  (splitIndices step).1 = [] ∧ (splitIndices step).2 ≠ []

instance (step : List Char) : Decidable (IsBare step) :=
  inferInstanceAs (Decidable (_ ∧ _))

/-- The key of a step, unless it is of indices only, and the indices behind it. -/
def stepPath (step : List Char) : List PathStep :=
  (if IsBare step then [] else [.key (splitIndices step).1]) ++ (splitIndices step).2.map .index

theorem pathStep_eq (step : List Char) :
    pathStep step = (if IsBare step then [] else '"' :: (splitIndices step).1 ++ ['"']) ++
      bracketed (splitIndices step).2 := by
  rcases hparts : splitIndices step with ⟨key, indices⟩
  simp only [pathStep, IsBare, hparts]
  cases key <;> cases indices <;> simp

theorem flatMap_spelling_index (indices : List (List Char)) :
    (indices.map .index).flatMap PathStep.spelling = bracketed indices := by
  rw [List.flatMap_map]
  rfl

/-- A step is written as its key behind a dot and its indices; one of indices only has no dot. -/
theorem spelling_stepPath (step : List Char) :
    (stepPath step).flatMap PathStep.spelling =
      (if IsBare step then [] else ['.']) ++ pathStep step := by
  rw [stepPath, pathStep_eq, List.flatMap_append, flatMap_spelling_index]
  split <;> simp [PathStep.spelling]

theorem head_pathStep (step : List Char) : (pathStep step).head? = some '[' ↔ IsBare step := by
  rw [pathStep_eq]
  split
  · rename_i hbare
    obtain ⟨first, rest, hindices⟩ := List.exists_cons_of_ne_nil hbare.2
    simp [hindices, bracketed, hbare]
  · rename_i hkeyed
    simp [hkeyed]

/-- No index has a closing bracket in it. -/
theorem close_not_mem_indices? {current : Option (List Char)} {cs : List Char}
    {indices : List (List Char)} (h : indices? current cs = some indices)
    (hcurrent : ∀ index, current = some index → ']' ∉ index) :
    ∀ index ∈ indices, ']' ∉ index := by
  -- the index that is being read carries the fact over to the closing bracket
  induction cs generalizing current indices with
  | nil =>
    cases current with
    | none =>
      cases h
      intro index hindex
      cases hindex
    | some index => cases h
  | cons c cs ih =>
    cases current with
    | none =>
      simp only [indices?] at h
      split at h
      · exact ih h (by rintro _ ⟨rfl⟩; exact List.not_mem_nil)
      · cases h
    | some index =>
      simp only [indices?] at h
      have hindex := hcurrent index rfl
      split at h
      · split at h
        · cases h
        · obtain ⟨rest, hrest, rfl⟩ := Option.map_eq_some_iff.1 h
          exact List.forall_mem_cons.2
            ⟨by simpa using hindex, ih hrest fun _ hnone => by cases hnone⟩
      · rename_i hc
        exact ih h (by rintro _ ⟨rfl⟩; simp [hindex, Ne.symm hc])

theorem close_not_mem_splitIndices (step : List Char) :
    ∀ index ∈ (splitIndices step).2, ']' ∉ index := by
  fun_induction splitIndices step with
  | case1 =>
    intro index hindex
    cases hindex
  | case2 c cs indices h =>
    split at h
    · exact close_not_mem_indices? h fun _ hnone => by cases hnone
    · cases h
  | case3 c cs _ key indices hcut ih =>
    rw [hcut] at ih
    exact ih

/-- What leads through a step can be read if its key has no double quote. -/
theorem plain_stepPath_iff {step : List Char} :
    (∀ s ∈ stepPath step, s.IsPlain) ↔ '"' ∉ (splitIndices step).1 := by
  have hindices : ∀ s ∈ (splitIndices step).2.map PathStep.index, s.IsPlain := by
    intro s hs
    obtain ⟨index, hindex, rfl⟩ := List.mem_map.1 hs
    exact close_not_mem_splitIndices step index hindex
  rw [stepPath, List.forall_mem_append, and_iff_left hindices]
  split
  · rename_i hbare
    simp [hbare.1]
  · simp [PathStep.IsPlain]

theorem stepPath_ne_nil (step : List Char) : stepPath step ≠ [] := by
  rw [stepPath]
  split
  · rename_i hbare
    simpa using hbare.2
  · simp

/-- What leads through a step ends in no empty key, unless the step is empty. -/
theorem getLast?_stepPath {step : List Char} (h : step ≠ []) :
    (stepPath step).getLast? ≠ some (.key []) := by
  have hstep := key_append_bracketed step
  rw [stepPath]
  rcases List.eq_nil_or_concat (splitIndices step).2 with hindices | ⟨init, index, hindices⟩
  · have hkey : (splitIndices step).1 = step := by simpa [hindices, bracketed] using hstep
    simp [IsBare, hindices, hkey, h]
  · simp [hindices]

/-! ## §3 Paths -/

/-- A path is its first step behind the root, and a dot in front of each step behind it. -/
theorem pathText_cons (first : List Char) (rest : List (List Char)) :
    pathText (first :: rest) = '$' :: ((stepPath first).flatMap PathStep.spelling ++
      rest.flatMap fun step => '.' :: pathStep step) := by
  -- the dot behind `$` is left out exactly where the text in front of it would begin with a bracket
  have hhead : (Text.joinChars ['.'] ((first :: rest).map pathStep)).head? = some '[' ↔
      IsBare first := by
    rw [← head_pathStep, List.map_cons, Text.joinChars_eq_flatMap]
    obtain ⟨init, last, hlast, -⟩ := pathStep_eq_concat first
    rw [List.head?_append_of_ne_nil _ (by simp [hlast])]
  rw [pathText, spelling_stepPath]
  simp only [hhead]
  rw [List.map_cons, Text.joinChars_eq_flatMap, List.flatMap_map]
  split <;> simp

/-- In front of a bare step stands the one dot that its spelling does not have. -/
theorem dot_pathStep (step : List Char) :
    '.' :: pathStep step =
      (if IsBare step then ['.'] else []) ++ (stepPath step).flatMap PathStep.spelling := by
  rw [spelling_stepPath]
  split <;> rfl

theorem length_spelling_le (steps : List (List Char)) :
    (steps.flatMap fun step => (stepPath step).flatMap PathStep.spelling).length ≤
      (steps.flatMap fun step => '.' :: pathStep step).length := by
  induction steps with
  | nil => exact le_rfl
  | cons step steps ih =>
    rw [List.flatMap_cons, List.flatMap_cons, dot_pathStep, List.length_append, List.length_append,
      List.length_append]
    omega

/-- Steps behind a dot are written as they lead on exactly if none is of indices only. -/
theorem flatMap_pathStep_iff {steps : List (List Char)} :
    (steps.flatMap fun step => '.' :: pathStep step) =
        steps.flatMap (fun step => (stepPath step).flatMap PathStep.spelling) ↔
      ∀ step ∈ steps, ¬ IsBare step := by
  induction steps with
  | nil => simp
  | cons step steps ih =>
    rw [List.forall_mem_cons, List.flatMap_cons, List.flatMap_cons, dot_pathStep]
    by_cases hbare : IsBare step
    · -- the dot is too much, and what is written behind it is never the shorter text
      refine iff_of_false (fun heq => ?_) fun h => h.1 hbare
      have hlength := congrArg List.length heq
      have hrest := length_spelling_le steps
      simp only [if_pos hbare, List.length_append, List.length_cons, List.length_nil] at hlength
      omega
    · rw [if_neg hbare, List.nil_append, List.append_cancel_left_eq]
      exact ⟨fun heq => ⟨hbare, ih.1 heq⟩, fun h => ih.2 h.2⟩

/-- A JSON path leads through the steps that it is made of exactly if no key has a double quote in
it and no step but the first is of indices only. -/
theorem pathText_leads_iff {steps : List (List Char)} (hne : steps ≠ []) :
    pathSteps? (pathText steps) = some (steps.flatMap stepPath) ↔
      (∀ step ∈ steps, '"' ∉ (splitIndices step).1) ∧ ∀ step ∈ steps.tail, ¬ IsBare step := by
  obtain ⟨first, rest, rfl⟩ := List.exists_cons_of_ne_nil hne
  have hplain : (∀ s ∈ (first :: rest).flatMap stepPath, s.IsPlain) ↔
      ∀ step ∈ first :: rest, '"' ∉ (splitIndices step).1 := by
    simp only [List.mem_flatMap, forall_exists_index, and_imp, ← plain_stepPath_iff]
    exact ⟨fun h step hstep s hs => h s step hstep hs, fun h s step hstep hs => h step hstep s hs⟩
  rw [pathSteps?_eq_some_iff, hplain, pathText_cons, List.flatMap_cons, List.flatMap_append,
    List.cons_inj_right, List.append_cancel_left_eq, List.flatMap_assoc, flatMap_pathStep_iff,
    List.tail_cons]
  exact and_comm

/-- An empty step at the end of a path is an empty key. -/
theorem pathText_append_empty {steps : List (List Char)} (hne : steps ≠ []) :
    ∃ cs, pathText (steps ++ [[]]) = cs ++ ['.', '"', '"'] := by
  obtain ⟨first, rest, rfl⟩ := List.exists_cons_of_ne_nil hne
  rw [List.cons_append, pathText_cons, List.flatMap_append, List.flatMap_singleton,
    ← List.append_assoc, ← List.cons_append]
  exact ⟨_, rfl⟩

/-! ## §4 Steps put together -/

/-- Pieces with separators between them are cut there, if no separator begins in a piece. -/
theorem Text.splitOnChars_joinChars {sep : List Char} {pieces : List (List Char)} (hsep : sep ≠ [])
    (hne : pieces ≠ []) (h : ∀ piece ∈ pieces, ¬ sep <:+: piece ++ sep.dropLast) :
    splitOnChars sep (joinChars sep pieces) = pieces := by
  fun_induction joinChars sep pieces with
  | case1 => exact absurd rfl hne
  | case2 piece =>
    have hpiece : ¬ sep <:+: piece := fun hin =>
      h piece List.mem_cons_self (hin.trans (List.prefix_append _ _).isInfix)
    rw [← splitFirstChars?_isSome_iff, Option.not_isSome_iff_eq_none] at hpiece
    rw [splitOnChars_eq hsep, hpiece]
    rfl
  -- no occurrence begins inside of the first piece, so the first one is the separator behind it
  | case3 piece rest hrest ih =>
    obtain ⟨hpiece, hpieces⟩ := List.forall_mem_cons.1 h
    rw [splitOnChars_eq hsep, splitFirstChars?_append _ hsep hpiece, Option.elim_some,
      ih hrest hpieces]

theorem not_infix_arrow_append {piece : List Char} (h : ¬ arrow.toList <:+: piece) :
    ¬ arrow.toList <:+: piece ++ arrow.toList.dropLast := by
  rintro ⟨before, after, hin⟩
  rcases List.eq_nil_or_concat after with rfl | ⟨front, c, rfl⟩
  · have hend := congrArg List.getLast? hin
    rw [List.append_nil, List.getLast?_append_of_ne_nil _ (by decide),
      List.getLast?_append_of_ne_nil _ (by decide)] at hend
    exact absurd hend (by decide)
  · rw [List.concat_eq_append, ← List.append_assoc] at hin
    exact h ⟨before, front, (List.append_inj' hin rfl).1⟩

/-- Steps without arrows are found again in the selector that they make. -/
theorem splitOn_join_arrow {steps : List String} (hne : steps ≠ [])
    (h : ∀ step ∈ steps, ¬ arrow.toList <:+: step.toList) :
    Text.splitOn arrow (Text.join arrow steps) = steps := by
  rw [Text.splitOn, Text.join, String.toList_ofList,
    Text.splitOnChars_joinChars (by decide) (by simpa using hne)]
  · simp [Function.comp_def]
  · intro piece hpiece
    obtain ⟨step, hstep, rfl⟩ := List.mem_map.1 hpiece
    exact not_infix_arrow_append (h step hstep)

/-! ## §5 Literals -/

/-- What is left of a text begins with a quote if nothing but backslashes stood in front of it. -/
theorem head_dropEscapes {cs : List Char} (h : (cs.dropWhile (· = '\\')).head? = some '\'') :
    (dropEscapes cs).head? = some '\'' := by
  induction cs with
  | nil => exact h
  | cons c cs ih =>
    by_cases hescape : c = '\\'
    · rw [List.dropWhile_cons_of_pos (by simpa using hescape)] at h
      rw [dropEscapes, if_pos ⟨hescape, h⟩]
      exact ih h
    · rw [List.dropWhile_cons_of_neg (by simpa using hescape)] at h
      rw [dropEscapes, if_neg fun hdropped => hescape hdropped.1]
      exact h

/-- What is left of a text begins with a quote or as the text does. -/
theorem head_of_dropEscapes {cs : List Char} {c : Char} (h : (dropEscapes cs).head? = some c)
    (hc : c ≠ '\'') : cs.head? = some c := by
  cases cs with
  | nil => exact h
  | cons first cs =>
    rw [dropEscapes] at h
    split at h
    · rename_i hdropped
      rw [head_dropEscapes hdropped.2] at h
      exact absurd (Option.some.inj h).symm hc
    · exact h

theorem dropEscapes_ne_nil {cs : List Char} (h : cs ≠ []) : dropEscapes cs ≠ [] := by
  obtain ⟨c, cs, rfl⟩ := List.exists_cons_of_ne_nil h
  rw [dropEscapes]
  split
  · rename_i hdropped
    intro hnil
    have hquote := head_dropEscapes hdropped.2
    rw [hnil] at hquote
    cases hquote
  · exact List.cons_ne_nil c _

/-- Dropping backslashes makes no arrow. -/
theorem not_infix_arrow_dropEscapes {cs : List Char} (h : ¬ arrow.toList <:+: cs) :
    ¬ arrow.toList <:+: dropEscapes cs := by
  induction cs with
  | nil => exact h
  | cons c cs ih =>
    have hrest := ih fun hin => h (hin.trans (List.suffix_cons c cs).isInfix)
    rw [dropEscapes]
    split
    · exact hrest
    · intro hin
      rcases List.infix_cons_iff.1 hin with hfirst | hin
      · -- an escape that is gone cannot have stood between the two characters of the arrow
        obtain ⟨rfl, more, hmore⟩ := List.cons_prefix_cons.1 hfirst
        have hhead : cs.head? = some '>' := by
          refine head_of_dropEscapes ?_ (by decide)
          rw [← hmore]
          rfl
        obtain ⟨rest, rfl⟩ := List.head?_eq_some_iff.1 hhead
        exact h ⟨[], rest, rfl⟩
      · exact hrest hin

/-- Backslashes in front of an arrow stay. -/
theorem dropEscapes_append_arrow (cs ds : List Char) :
    dropEscapes (cs ++ arrow.toList ++ ds) =
      dropEscapes cs ++ arrow.toList ++ dropEscapes ds := by
  induction cs with
  | nil => rfl
  | cons c cs ih =>
    -- a run of backslashes ends at the arrow at the latest, which begins with no quote
    have hquote : ((cs ++ arrow.toList ++ ds).dropWhile (· = '\\')).head? = some '\'' ↔
        (cs.dropWhile (· = '\\')).head? = some '\'' := by
      rw [List.append_assoc, List.dropWhile_append]
      split
      · rename_i hempty
        rw [List.isEmpty_iff.1 hempty]
        simp [arrow]
      · rename_i hrest
        rw [List.head?_append_of_ne_nil _ (by simpa using hrest)]
    rw [List.cons_append, List.cons_append, dropEscapes, dropEscapes, ih]
    simp only [hquote]
    split <;> rfl

theorem dropEscapes_joinChars (steps : List (List Char)) :
    dropEscapes (Text.joinChars arrow.toList steps) =
      Text.joinChars arrow.toList (steps.map dropEscapes) := by
  fun_induction Text.joinChars arrow.toList steps with
  | case1 => rfl
  | case2 step => rfl
  | case3 step rest hrest ih =>
    rw [dropEscapes_append_arrow, ih, List.map_cons, Text.joinChars_cons (by simpa using hrest)]

/-- What a step is in the literal of a path. -/
def writtenStep (step : String) : List Char :=
  dropEscapes step.toList

/-- The literal of steps that are put together has the JSON path of these steps. -/
theorem writtenPath_join {steps : List String} (hne : steps ≠ [])
    (h : ∀ step ∈ steps, ¬ arrow.toList <:+: step.toList) :
    writtenPath (Text.join arrow steps) = pathText (steps.map writtenStep) := by
  rw [writtenPath, Text.join, String.toList_ofList, dropEscapes_joinChars,
    Text.splitOnChars_joinChars (by decide) (by simpa using hne), List.map_map]
  · rfl
  · intro piece hpiece
    rw [List.map_map] at hpiece
    obtain ⟨step, hstep, rfl⟩ := List.mem_map.1 hpiece
    exact not_infix_arrow_append (not_infix_arrow_dropEscapes (h step hstep))

/-- The literal of steps that are put together leads through them exactly if no key has a double
quote in it and no step but the first is of indices only. -/
theorem writtenPath_leads_iff {steps : List String} (hne : steps ≠ [])
    (h : ∀ step ∈ steps, ¬ arrow.toList <:+: step.toList) :
    pathSteps? (writtenPath (Text.join arrow steps)) =
        some (steps.flatMap fun step => stepPath (writtenStep step)) ↔
      (∀ step ∈ steps, '"' ∉ (splitIndices (writtenStep step)).1) ∧
        ∀ step ∈ steps.tail, ¬ IsBare (writtenStep step) := by
  have hwritten : steps.map writtenStep ≠ [] := by simpa using hne
  have hleads := pathText_leads_iff hwritten
  rw [writtenPath_join hne h]
  simpa only [List.flatMap_map, ← List.map_tail, List.forall_mem_map] using hleads

/-- An empty step at the end of a path is an empty key at the end of its literal, and not what the
other steps lead to. -/
theorem writtenPath_append_empty {steps : List String} (hne : steps ≠ []) (hempty : "" ∉ steps)
    (h : ∀ step ∈ steps, ¬ arrow.toList <:+: step.toList) :
    pathSteps? (writtenPath (Text.join arrow (steps ++ [""]))) ≠
      some (steps.flatMap fun step => stepPath (writtenStep step)) := by
  intro hleads
  have hsteps : ∀ step ∈ steps ++ [""], ¬ arrow.toList <:+: step.toList :=
    List.forall_mem_append.2 ⟨h, by decide⟩
  have hfilled : steps.map writtenStep ≠ [] := by simpa using hne
  obtain ⟨cs, hend⟩ := pathText_append_empty hfilled
  have hwritten : writtenPath (Text.join arrow (steps ++ [""])) = cs ++ ['.', '"', '"'] := by
    rw [writtenPath_join (by simp) hsteps, List.map_append, ← hend]
    rfl
  -- the reader finds an empty key at the end, but the last step that was meant has a name
  rw [hwritten] at hleads
  have hkey := last_of_emptyEnd hleads
  obtain ⟨init, last, rfl⟩ := (List.eq_nil_or_concat steps).resolve_left hne
  rw [List.concat_eq_append] at hkey hempty
  have hlast : writtenStep last ≠ [] := by
    refine dropEscapes_ne_nil fun hnil => hempty ?_
    simp [String.toList_eq_nil_iff.1 hnil]
  rw [List.flatMap_append, List.flatMap_singleton,
    List.getLast?_append_of_ne_nil _ (stepPath_ne_nil _)] at hkey
  exact getLast?_stepPath hlast hkey

end SqlCompiler
