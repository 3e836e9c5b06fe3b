import SqlCompiler.Proofs.PathSteps
import SqlCompiler.Proofs.SelectorRenderings

/-!
# Last Steps

A selector has a last step, and the other steps lead to the container that the last one is looked up
in. An index in brackets at the end of a selector is a step of its own, and what stands before it
belongs to the container; if nothing stands before it, a selector without the index ends in an empty
step.

## Main definitions

- `KeyPlace`, `keyPlace`: the column, the steps of the container and the last step of a selector
- `indexValue`, `FitsInt64`: what the digits of an index denote
- `IsLoneIndex`: a step that is an index and nothing else
- `containerName`: a selector without its last step

## Main statements

- `trailingIndex?_eq_some_iff`: an index at the end of a step
- `integerOfChars?_eq`: what is read as an integer of 64 bits
- `containerName_cut`: the column and the steps of a selector without its last step
- `containerSteps_eq`: the steps that are left are those of the container
-/

namespace SqlCompiler

/-! ## §1 Last steps -/

/-- A step ends in an index exactly if it ends in digits between brackets, however many. -/
theorem trailingIndex?_eq_some_iff {signed : Bool} {cs before digits : List Char} :
    trailingIndex? signed cs = some (before, digits) ↔
      cs = before ++ '[' :: digits ++ [']'] ∧ IsIndexText signed digits := by
  constructor
  · exact indexText_of_trailingIndex?
  · rintro ⟨rfl, hdigits⟩
    induction before with
    | nil =>
      -- an index that begins later would begin with one of the digits
      have hlater : trailingIndex? signed (digits ++ [']']) = none := by
        rw [Option.eq_none_iff_forall_ne_some]
        rintro ⟨before, index⟩ hindex
        have hopen : '[' ∈ digits ++ [']'] := by
          rw [(trailingIndex?_eq_append hindex).1]
          simp
        rcases List.mem_append.1 hopen with hopen | hopen
        · rcases mem_indexText hdigits hopen with hopen | hopen
          · exact absurd hopen (by decide)
          · exact absurd hopen (by decide)
        · exact absurd hopen (by decide)
      obtain ⟨hne, hall⟩ := hdigits
      rw [List.nil_append, List.cons_append, trailingIndex?, hlater]
      simp only [List.dropLast_concat, List.getLast?_concat]
      rw [if_pos ⟨trivial, trivial, hne, hall⟩]
    | cons c before ih =>
      rw [List.cons_append, List.cons_append, trailingIndex?, ih]

/-- The last step of a selector. -/
inductive LastStep where
  | index (digits : List Char)
  | key (name : String)
deriving DecidableEq, Repr

/-- Where the last step of a selector is looked for: in the container that some steps lead to from
a column. -/
structure KeyPlace where
  column : String
  container : List String
  last : LastStep
deriving DecidableEq, Repr

/-- The index that a step ends in, and what stands before it. In PostgreSQL a whole step can be an
integer, and an index can be negative. -/
def lastIndex? (d : Dialect) (step : List Char) : Option (List Char × List Char) :=
  match d with
  | .postgres =>
    if (integerOfChars? step).isSome then some ([], step) else trailingIndex? true step
  | _ => trailingIndex? false step

/-- The last of the steps of a selector. -/
def finalStep (selector : String) : String :=
  (selectorSteps selector).getLast?.getD ""

/-- Where a selector looks for its last step. -/
def keyPlace (d : Dialect) (selector : String) : KeyPlace :=
  let outer := (selectorSteps selector).dropLast
  match lastIndex? d (finalStep selector).toList with
  | some (before, digits) =>
    ⟨(splitSelector selector).1, outer ++ if before = [] then [] else [String.ofList before],
      .index digits⟩
  | none => ⟨(splitSelector selector).1, outer, .key (finalStep selector)⟩

theorem keyPlace_index {d : Dialect} {selector : String} {before digits : List Char}
    (h : lastIndex? d (finalStep selector).toList = some (before, digits)) :
    keyPlace d selector = ⟨(splitSelector selector).1,
      (selectorSteps selector).dropLast ++ if before = [] then [] else [String.ofList before],
      .index digits⟩ := by
  simp only [keyPlace, h]

theorem keyPlace_key {d : Dialect} {selector : String}
    (h : lastIndex? d (finalStep selector).toList = none) :
    keyPlace d selector = ⟨(splitSelector selector).1, (selectorSteps selector).dropLast,
      .key (finalStep selector)⟩ := by
  simp only [keyPlace, h]

@[simp] theorem keyPlace_column (d : Dialect) (selector : String) :
    (keyPlace d selector).column = (splitSelector selector).1 := by
  unfold keyPlace
  split <;> rfl

theorem selectorSteps_ne_nil {selector : String} (h : isSelector selector = true) :
    selectorSteps selector ≠ [] := by
  rw [selectorSteps_eq h]
  exact Text.splitOn_ne_nil arrow _

/-- A selector is cut into its column, the outer steps and the last one. -/
theorem splitLastStep_eq {selector : String} (h : isSelector selector = true) :
    Target.splitLastStep selector =
      ((splitSelector selector).1 :: (selectorSteps selector).dropLast, finalStep selector) := by
  have hne := selectorSteps_ne_nil h
  rw [Target.splitLastStep, splitOn_arrow, List.dropLast_cons_of_ne_nil hne, finalStep,
    List.getLast?_cons]
  cases hlast : (selectorSteps selector).getLast? with
  | none => exact absurd (List.getLast?_eq_none_iff.1 hlast) hne
  | some last => rfl

/-- The steps of a selector have no arrows in them. -/
theorem not_infix_selectorStep {selector step : String} (h : step ∈ selectorSteps selector) :
    ¬ arrow.toList <:+: step.toList :=
  Text.not_infix_of_mem_splitOn (by decide) (List.mem_of_mem_tail h)

/-- The path of a selector is its steps. -/
theorem path_eq_join (selector : String) :
    (splitSelector selector).2 = Text.join arrow (selectorSteps selector) := by
  by_cases hselector : isSelector selector = true
  · rw [selectorSteps_eq hselector, Text.join_splitOn arrow _ (by decide)]
  · have hnone : Text.splitFirst? arrow selector = none := by
      simpa [isSelector] using hselector
    obtain ⟨rest, hsplit, hrest⟩ := Text.splitOn_eq_cons arrow selector (by decide)
    rw [selectorSteps, hsplit, hrest.2 hnone, splitSelector, hnone]
    rfl

/-- A column and steps without arrows are found again in the name that they make. -/
theorem column_steps_join {column : String} {steps : List String}
    (hcolumn : ¬ arrow.toList <:+: column.toList)
    (hsteps : ∀ step ∈ steps, ¬ arrow.toList <:+: step.toList) :
    (splitSelector (Text.join arrow (column :: steps))).1 = column ∧
      selectorSteps (Text.join arrow (column :: steps)) = steps := by
  have hcut := splitOn_join_arrow (List.cons_ne_nil column steps)
    (List.forall_mem_cons.2 ⟨hcolumn, hsteps⟩)
  rw [splitOn_arrow] at hcut
  exact List.cons.inj hcut

theorem not_infix_column (selector : String) :
    ¬ arrow.toList <:+: (splitSelector selector).1.toList := by
  rw [← isSelector_iff, Bool.not_eq_true]
  exact isSelector_column selector

/-! ## §2 Indices -/

/-- What the digits of an index denote, behind a sign or without one. -/
def indexValue : List Char → Int
  | '-' :: digits => -(digitsValue digits : Int)
  | '+' :: digits => digitsValue digits
  | digits => digitsValue digits

/-- A number of 64 bits. -/
def FitsInt64 (i : Int) : Prop :=
  Int64.minValue.toInt ≤ i ∧ i ≤ Int64.maxValue.toInt

instance (i : Int) : Decidable (FitsInt64 i) :=
  inferInstanceAs (Decidable (_ ∧ _))

/-- A text without the sign that it may begin with. -/
def unsignedText : List Char → List Char
  | '-' :: cs => cs
  | '+' :: cs => cs
  | cs => cs

/-- An integer is made of digits behind a sign or without one, and fits 64 bits. -/
theorem integerOfChars?_eq (cs : List Char) :
    integerOfChars? cs =
      if (unsignedText cs ≠ [] ∧ (unsignedText cs).all isDigit = true) ∧ FitsInt64 (indexValue cs)
      then some (indexValue cs) else none := by
  have hnested : ∀ (a : Prop) [Decidable a] (i : Int),
      (if a then if FitsInt64 i then some i else none else none) =
        if a ∧ FitsInt64 i then some i else none := by
    intro a _ i
    rw [ite_and]
  rw [← hnested]
  fun_cases unsignedText cs with
  | case1 => rfl
  | case2 => rfl
  | case3 cs hminus hplus =>
    -- without a sign, the text is its own digits wherever it is matched
    have hvalue : indexValue cs = digitsValue cs := by
      unfold indexValue
      split
      · exact absurd rfl (hminus _)
      · exact absurd rfl (hplus _)
      · rfl
    rw [hvalue]
    unfold integerOfChars?
    split
    rename_i negative digits hsign
    split at hsign
    · exact absurd rfl (hminus _)
    · exact absurd rfl (hplus _)
    · cases hsign
      rfl

/-- The digits of an index are read as the number that they denote, if it fits 64 bits. -/
theorem integerOfChars?_indexText {digits : List Char} (h : IsIndexText true digits) :
    integerOfChars? digits =
      if FitsInt64 (indexValue digits) then some (indexValue digits) else none := by
  have hdigits : unsignedText digits ≠ [] ∧ (unsignedText digits).all isDigit = true := by
    obtain ⟨hne, hall⟩ := h
    unfold unsignedText
    split
    · exact ⟨hne, hall⟩
    · -- an index in brackets has no plus sign
      exact absurd (List.all_eq_true.1 hall '+' List.mem_cons_self) (by decide)
    · rename_i hminus _
      have hhead : digits.head? ≠ some '-' := by
        cases digits with
        | nil => nofun
        | cons first rest =>
          rintro ⟨⟩
          exact hminus rest rfl
      simpa [hhead] using And.intro hne hall
  rw [integerOfChars?_eq]
  simp only [hdigits, ne_eq, not_false_eq_true, true_and]

/-- The digits of a last step are read as a number if they fit 64 bits. -/
theorem integerOfChars?_lastIndex {step before digits : List Char}
    (h : lastIndex? .postgres step = some (before, digits)) :
    integerOfChars? digits =
      if FitsInt64 (indexValue digits) then some (indexValue digits) else none := by
  simp only [lastIndex?] at h
  split at h
  · -- a whole step is an index only if it fits
    rename_i hinteger
    cases h
    obtain ⟨i, hi⟩ := Option.isSome_iff_exists.1 hinteger
    rw [integerOfChars?_eq] at hi ⊢
    have hdigits := (Option.ite_none_right_eq_some.1 hi).1.1
    simp only [hdigits, ne_eq, not_false_eq_true, true_and]
  · exact integerOfChars?_indexText (trailingIndex?_eq_some_iff.1 h).2

/-! ## §3 Containers -/

/-- The steps that are left of a selector without its last one. A step that is an index and nothing
else leaves an empty step. -/
def containerSteps (d : Dialect) (selector : String) : List String :=
  (selectorSteps selector).dropLast ++
    (lastIndex? d (finalStep selector).toList).elim [] fun index => [String.ofList index.1]

theorem containerSteps_key {d : Dialect} {selector : String}
    (h : lastIndex? d (finalStep selector).toList = none) :
    containerSteps d selector = (selectorSteps selector).dropLast := by
  simp [containerSteps, h]

theorem containerSteps_index {d : Dialect} {selector : String} {before digits : List Char}
    (h : lastIndex? d (finalStep selector).toList = some (before, digits)) :
    containerSteps d selector =
      (selectorSteps selector).dropLast ++ [String.ofList before] := by
  simp [containerSteps, h]

/-- What is left of a selector without its last step. -/
def containerName (d : Dialect) (selector : String) : String :=
  Text.join arrow ((splitSelector selector).1 :: containerSteps d selector)

theorem lastIndex?_isPrefix {d : Dialect} {step before digits : List Char}
    (h : lastIndex? d step = some (before, digits)) : before <+: step := by
  unfold lastIndex? at h
  split at h
  · split at h
    · cases h
      exact List.nil_prefix
    · exact trailingIndex?_isPrefix h
  · exact trailingIndex?_isPrefix h

theorem not_infix_finalStep {selector : String} (h : isSelector selector = true) :
    ¬ arrow.toList <:+: (finalStep selector).toList := by
  have hne := selectorSteps_ne_nil h
  rw [finalStep, List.getLast?_eq_some_getLast hne]
  exact not_infix_selectorStep (List.getLast_mem hne)

theorem not_infix_containerStep {d : Dialect} {selector step : String}
    (h : isSelector selector = true) (hstep : step ∈ containerSteps d selector) :
    ¬ arrow.toList <:+: step.toList := by
  cases hindex : lastIndex? d (finalStep selector).toList with
  | none =>
    rw [containerSteps_key hindex] at hstep
    exact not_infix_selectorStep (List.dropLast_subset _ hstep)
  | some index =>
    obtain ⟨before, digits⟩ := index
    rw [containerSteps_index hindex] at hstep
    rcases List.mem_append.1 hstep with hstep | hstep
    · exact not_infix_selectorStep (List.dropLast_subset _ hstep)
    · -- what is left of the last step begins it
      rw [List.mem_singleton.1 hstep, String.toList_ofList]
      exact fun hin => not_infix_finalStep h (hin.trans (lastIndex?_isPrefix hindex).isInfix)

/-- What is left of a selector has its column and the steps that are left. -/
theorem containerName_cut (d : Dialect) {selector : String} (h : isSelector selector = true) :
    (splitSelector (containerName d selector)).1 = (splitSelector selector).1 ∧
      selectorSteps (containerName d selector) = containerSteps d selector :=
  column_steps_join (not_infix_column selector) fun _ hstep => not_infix_containerStep h hstep

/-- A step that is an index and nothing else. -/
def IsLoneIndex (d : Dialect) (step : List Char) : Prop :=
  (lastIndex? d step).map Prod.fst = some []

instance (d : Dialect) (step : List Char) : Decidable (IsLoneIndex d step) :=
  inferInstanceAs (Decidable (_ = _))

/-- The steps that are left are those of the container, and an empty one if there is nothing before
the index. -/
theorem containerSteps_eq (d : Dialect) (selector : String) :
    containerSteps d selector = (keyPlace d selector).container ++
      if IsLoneIndex d (finalStep selector).toList then [""] else [] := by
  cases hindex : lastIndex? d (finalStep selector).toList with
  | none =>
    have hkeyed : ¬ IsLoneIndex d (finalStep selector).toList := by simp [IsLoneIndex, hindex]
    rw [if_neg hkeyed, keyPlace_key hindex, containerSteps_key hindex, List.append_nil]
  | some index =>
    obtain ⟨before, digits⟩ := index
    have hlone : IsLoneIndex d (finalStep selector).toList ↔ before = [] := by
      simp [IsLoneIndex, hindex]
    rw [keyPlace_index hindex, containerSteps_index hindex]
    simp only [hlone, List.append_assoc]
    split
    · -- nothing stands before the index, which leaves an empty step
      rename_i hbefore
      rw [hbefore]
      rfl
    · rfl

/-- The keys and the indices of some steps one by one. -/
def stepsParts (steps : List String) : List String :=
  (steps.flatMap stepParts).filter (!·.isEmpty)

/-- An empty step has no parts. -/
theorem stepsParts_containerSteps (d : Dialect) (selector : String) :
    stepsParts (containerSteps d selector) = stepsParts (keyPlace d selector).container := by
  have hempty : (stepParts "").filter (!·.isEmpty) = [] := by decide
  rw [containerSteps_eq]
  split <;> simp [stepsParts, hempty]

end SqlCompiler
