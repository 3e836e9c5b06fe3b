import SqlCompiler.Proofs.TextPieces

/-!
# Occurrences of a Separator

Where the first occurrence of a separator stands, and what a replacement does to a text in which
there is just one.

## Main statements

- `Text.splitFirstChars?_append`: the first occurrence, if none begins before it
- `Text.replaceAll_once`: the replacement of a text that occurs once
- `Text.not_infix_of_mem_splitOn`: no piece of a cut text has a separator in it
-/

namespace SqlCompiler.Text

/-- The first occurrence of a separator, if none begins before it. -/
theorem splitFirstChars?_append {sep before : List Char} (after : List Char) (hsep : sep ≠ [])
    (h : ¬ sep <:+: before ++ sep.dropLast) :
    splitFirstChars? sep (before ++ sep ++ after) = some (before, after) := by
  induction before with
  | nil =>
    obtain ⟨c, rest, rfl⟩ := List.exists_cons_of_ne_nil hsep
    have hbegins : (c :: rest).isPrefixOf (c :: (rest ++ after)) = true :=
      List.isPrefixOf_iff_prefix.2 (List.prefix_append (c :: rest) after)
    rw [List.nil_append, List.cons_append, splitFirstChars?, if_pos hbegins]
    simp
  | cons c before ih =>
    have hlater : ¬ sep <:+: before ++ sep.dropLast := fun hin =>
      h (hin.trans (List.suffix_cons c _).isInfix)
    have hbegins : ¬ sep.isPrefixOf (c :: (before ++ sep ++ after)) = true := by
      intro hbegins
      -- an occurrence that begins here is over before the last character of the separator
      have hwhole : c :: before ++ sep.dropLast <+: c :: (before ++ sep ++ after) := by
        rw [List.cons_append, List.append_assoc]
        exact (List.prefix_append_right_inj (c :: before)).2
          ((List.dropLast_prefix sep).trans (List.prefix_append sep after))
      have hlength : sep.length ≤ (c :: before ++ sep.dropLast).length := by
        simp only [List.cons_append, List.length_cons, List.length_append, List.length_dropLast]
        omega
      exact h (List.prefix_of_prefix_length_le (List.isPrefixOf_iff_prefix.1 hbegins) hwhole
        hlength).isInfix
    rw [List.cons_append, List.cons_append, splitFirstChars?, if_neg hbegins, ih hlater]
    rfl

/-- A text whose first character does not come once more stands in front of such a character or
begins with it. -/
theorem infix_append_first {sep as bs : List Char} {c : Char} (hc : c ∉ sep)
    (h : c :: sep <:+: as ++ c :: bs) : c :: sep <:+: as ∨ c :: sep <:+: c :: bs := by
  induction as with
  | nil => exact .inr h
  | cons a as ih =>
    rw [List.cons_append, List.infix_cons_iff, List.cons_prefix_cons] at h
    rcases h with ⟨rfl, hbegins⟩ | h
    · -- the rest of the text is over before that character
      rcases List.prefix_or_prefix_of_prefix hbegins (List.prefix_append as (c :: bs)) with
        hinside | ⟨more, hmore⟩
      · exact .inl (List.cons_prefix_cons.2 ⟨rfl, hinside⟩).isInfix
      · rw [← hmore, List.prefix_append_right_inj] at hbegins
        cases more with
        | nil => exact .inl ⟨[], [], by simpa using hmore.symm⟩
        | cons x more =>
          obtain ⟨rfl, -⟩ := List.cons_prefix_cons.1 hbegins
          exact absurd (hmore ▸ List.mem_append_right as List.mem_cons_self) hc
    · exact (ih h).imp (fun hin => hin.trans (List.suffix_cons a as).isInfix) id

/-- The replacement of a text that occurs once. -/
theorem replaceAll_once {old new s : String} {before after : List Char} (hold : old.toList ≠ [])
    (hs : s.toList = before ++ old.toList ++ after)
    (hbefore : ¬ old.toList <:+: before ++ old.toList.dropLast)
    (hafter : ¬ old.toList <:+: after) :
    (replaceAll old new s).toList = before ++ new.toList ++ after := by
  have hnone : splitFirstChars? old.toList after = none := by
    rw [← Option.not_isSome_iff_eq_none, splitFirstChars?_isSome_iff]
    exact hafter
  -- split at its only occurrence, the text is two pieces
  have hsplit : splitOn old s = [String.ofList before, String.ofList after] := by
    rw [splitOn, hs, splitOnChars_eq hold, splitFirstChars?_append after hold hbefore,
      Option.elim_some, splitOnChars_eq hold, hnone]
    rfl
  rw [replaceAll, hsplit]
  simp [join, joinChars]

theorem replaceAll_eq_self {old s : String} (new : String) (hold : old ≠ "")
    (h : ¬ old.toList <:+: s.toList) : replaceAll old new s = s := by
  have hne : old.toList ≠ [] := by simpa using hold
  have hnone : splitFirstChars? old.toList s.toList = none := by
    rw [← Option.not_isSome_iff_eq_none, splitFirstChars?_isSome_iff]
    exact h
  rw [replaceAll, splitOn, splitOnChars_eq hne, hnone]
  simp [join, joinChars]

/-- No occurrence of a separator begins before the first one. -/
theorem not_infix_of_splitFirstChars? {sep cs before after : List Char} (hsep : sep ≠ [])
    (h : splitFirstChars? sep cs = some (before, after)) :
    ¬ sep <:+: before ++ sep.dropLast := by
  fun_induction splitFirstChars? sep cs generalizing before with
  | case1 hempty => exact absurd (List.isEmpty_iff.1 hempty) hsep
  | case2 => cases h
  | case3 c cs hbegins =>
    cases h
    intro hin
    have hlength := hin.length_le
    have hpositive := List.length_pos_iff.2 hsep
    rw [List.nil_append, List.length_dropLast] at hlength
    omega
  | case4 c cs hbegins ih =>
    obtain ⟨⟨found, rest⟩, hfound, heq⟩ := Option.map_eq_some_iff.1 h
    cases heq
    rw [List.cons_append, List.infix_cons_iff, not_or]
    -- an occurrence at this place would have been found by the search
    refine ⟨fun hfirst => hbegins ?_, ih hfound⟩
    rw [splitFirstChars?_eq_append hfound]
    refine List.isPrefixOf_iff_prefix.2 (hfirst.trans (List.cons_prefix_cons.2 ⟨rfl, ?_⟩))
    rw [List.append_assoc, List.prefix_append_right_inj]
    exact (List.dropLast_prefix sep).trans (List.prefix_append sep _)

theorem not_infix_of_mem_splitOnChars {sep cs piece : List Char} (hsep : sep ≠ [])
    (h : piece ∈ splitOnChars sep cs) : ¬ sep <:+: piece := by
  -- the rest behind a separator is shorter, but it is not the tail that an induction on the text
  -- would speak of
  induction hn : cs.length using Nat.strong_induction_on generalizing cs with
  | _ n ih =>
    rw [splitOnChars_eq hsep] at h
    cases hsplit : splitFirstChars? sep cs with
    | none =>
      rw [hsplit] at h
      rw [List.mem_singleton.1 h, ← splitFirstChars?_isSome_iff, hsplit]
      exact Bool.false_ne_true
    | some sides =>
      rw [hsplit] at h
      rcases List.mem_cons.1 h with rfl | h
      · exact fun hin => not_infix_of_splitFirstChars? hsep hsplit
          (hin.trans (List.prefix_append _ _).isInfix)
      · refine ih sides.2.length ?_ h rfl
        have hlength := congrArg List.length (splitFirstChars?_eq_append hsplit)
        have hpositive := List.length_pos_iff.2 hsep
        simp only [List.length_append] at hlength
        omega

/-- No piece of a cut text has a separator in it. -/
theorem not_infix_of_mem_splitOn {sep s piece : String} (hsep : sep ≠ "")
    (h : piece ∈ splitOn sep s) : ¬ sep.toList <:+: piece.toList := by
  obtain ⟨chars, hchars, rfl⟩ := List.mem_map.1 h
  rw [String.toList_ofList]
  exact not_infix_of_mem_splitOnChars (by simpa using hsep) hchars

/-- A text without dots is a single piece. -/
theorem splitOn_dot_eq_singleton {s : String} (h : '.' ∉ s.toList) : splitOn "." s = [s] := by
  have hnone : splitFirstChars? ['.'] s.toList = none := by
    rwa [← Option.not_isSome_iff_eq_none, splitFirstChars?_isSome_iff, List.singleton_infix_iff]
  rw [splitOn, show ".".toList = ['.'] from rfl, splitOnChars_eq (by decide), hnone]
  simp

/-- A segment of a text has no dot. -/
theorem dot_not_mem_segment {s segment : String} (h : segment ∈ splitOn "." s) :
    '.' ∉ segment.toList := fun hmem =>
  not_infix_of_mem_splitOn (by decide) h ((List.singleton_infix_iff ..).2 hmem)

/-- A cut text has a last piece. -/
theorem splitOn_eq_concat (sep s : String) : ∃ init last, splitOn sep s = init ++ [last] := by
  simpa [List.concat_eq_append] using
    (List.eq_nil_or_concat (splitOn sep s)).resolve_left (splitOn_ne_nil sep s)

/-- A text that occurs is found. -/
theorem one_lt_length_splitOnChars {sep cs : List Char} (hsep : sep ≠ []) (h : sep <:+: cs) :
    1 < (splitOnChars sep cs).length := by
  obtain ⟨sides, hsides⟩ := Option.isSome_iff_exists.1 (splitFirstChars?_isSome_iff.2 h)
  have hpositive := List.length_pos_iff.2 (splitOnChars_ne_nil sep sides.2)
  rw [splitOnChars_eq hsep, hsides, Option.elim_some, List.length_cons]
  omega

/-- Of two occurrences side by side, the second one stands behind the first that is found. -/
theorem infix_behind_first {sep left right before after : List Char} (hsep : sep ≠ [])
    (h : sep <:+: left)
    (hsplit : splitFirstChars? sep (left ++ sep ++ right) = some (before, after)) :
    sep <:+: after := by
  obtain ⟨front, back, rfl⟩ := h
  have heq := splitFirstChars?_eq_append hsplit
  have hfirst := not_infix_of_splitFirstChars? hsep hsplit
  rcases Nat.lt_or_ge front.length before.length with hlt | hge
  · -- the occurrence on the left would begin before the first one
    refine absurd ?_ hfirst
    have hfront : front ++ sep <+: before ++ sep ++ after := by
      rw [← heq, List.append_assoc (front ++ sep), List.append_assoc (front ++ sep)]
      exact List.prefix_append _ _
    have hbefore : before ++ sep.dropLast <+: before ++ sep ++ after := by
      rw [List.append_assoc, List.prefix_append_right_inj]
      exact (List.dropLast_prefix sep).trans (List.prefix_append sep after)
    have hlength : (front ++ sep).length ≤ (before ++ sep.dropLast).length := by
      simp only [List.length_append, List.length_dropLast]
      omega
    exact (List.suffix_append front sep).isInfix.trans
      (List.prefix_of_prefix_length_le hfront hbefore hlength).isInfix
  · -- behind the first occurrence there is the one on the right
    have hdrop := congrArg (List.drop (before ++ sep).length) heq
    rw [List.drop_left, List.append_assoc, List.append_assoc,
      List.drop_append_of_le_length (by simpa using Nat.add_le_add_right hge sep.length)] at hdrop
    rw [← hdrop]
    exact ⟨List.drop (before ++ sep).length (front ++ sep) ++ back, right, by simp⟩

/-- A text that occurs twice is found twice. -/
theorem two_lt_length_splitOnChars {sep left : List Char} (right : List Char) (hsep : sep ≠ [])
    (h : sep <:+: left) : 2 < (splitOnChars sep (left ++ sep ++ right)).length := by
  have hwhole : sep <:+: left ++ sep ++ right :=
    ((List.suffix_append left sep).isInfix).trans (List.prefix_append _ right).isInfix
  obtain ⟨⟨before, after⟩, hsplit⟩ :=
    Option.isSome_iff_exists.1 (splitFirstChars?_isSome_iff.2 hwhole)
  rw [splitOnChars_eq hsep, hsplit, Option.elim_some, List.length_cons]
  exact Nat.succ_lt_succ (one_lt_length_splitOnChars hsep (infix_behind_first hsep h hsplit))

theorem length_joinChars (sep piece : List Char) (pieces : List (List Char)) :
    (joinChars sep (piece :: pieces)).length =
      (piece :: pieces).flatten.length + pieces.length * sep.length := by
  induction pieces generalizing piece with
  | nil => simp [joinChars]
  | cons next pieces ih =>
    simp only [joinChars, List.length_append, ih, List.flatten_cons, List.length_cons,
      Nat.add_one_mul]
    omega

/-- A replacement that is one character shorter takes one character for each occurrence. -/
theorem length_replaceAll (old new s : String) (hold : old ≠ "")
    (hlength : old.toList.length = new.toList.length + 1) :
    (replaceAll old new s).toList.length + (splitOnChars old.toList s.toList).length =
      s.toList.length + 1 := by
  have hne : old.toList ≠ [] := by simpa using hold
  have hself := joinChars_splitOnChars hne s.toList
  have hpieces : (replaceAll old new s).toList =
      joinChars new.toList (splitOnChars old.toList s.toList) := by
    rw [replaceAll, join, String.toList_ofList, splitOn, List.map_map]
    have hid : (String.toList ∘ String.ofList) = id := funext fun _ => String.toList_ofList
    rw [hid, List.map_id]
  obtain ⟨piece, pieces, hcut⟩ :=
    List.exists_cons_of_ne_nil (splitOnChars_ne_nil old.toList s.toList)
  rw [hpieces]
  conv_rhs => rw [← hself]
  -- every separator is one character longer than what replaces it
  rw [hcut, length_joinChars, length_joinChars, hlength, Nat.mul_add_one, List.length_cons]
  omega

theorem joinChars_eq_flatMap (sep piece : List Char) (pieces : List (List Char)) :
    joinChars sep (piece :: pieces) = piece ++ pieces.flatMap (sep ++ ·) := by
  induction pieces generalizing piece with
  | nil => simp [joinChars]
  | cons next pieces ih => simp [joinChars, ih]

end SqlCompiler.Text
