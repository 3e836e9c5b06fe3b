import Mathlib.Data.List.Infix
import Mathlib.Data.List.TakeWhile
import SqlCompiler.Selector

/-!
# Pieces of Texts

What cutting and joining do to the characters of a text: nothing is added but the separators, and
the pieces stand in the text as they are.

## Main definitions

- `unaliased`, `columnOf`, `qualifierOf`: a name without its alias, its column, and the qualifier
- `IsIndexText`: the digits of an index

## Main statements

- `mem_joinChars`, `mem_of_mem_splitOn`: the characters of joined and of cut texts
- `splitFirst?_isSome_iff`: a text has a first occurrence of what it contains
- `splitAlias?_name`, `splitAlias?_alias`: where a name and its alias stand
- `key_append_bracketed`: a step is its key followed by its indices
-/

namespace SqlCompiler

namespace Text

/-! ## §1 Joined pieces -/

/-- A marked character stands twice, any other one as it is. -/
theorem doubleChars_cons (mark c : Char) (cs : List Char) :
    doubleChars mark (c :: cs) = (if c = mark then [c, c] else [c]) ++ doubleChars mark cs :=
  List.flatMap_cons ..

/-- Doubling adds no new characters. -/
theorem mem_doubleChars {mark c : Char} {cs : List Char} : c ∈ doubleChars mark cs ↔ c ∈ cs := by
  simp only [doubleChars, List.mem_flatMap]
  constructor
  · rintro ⟨x, hx, hc⟩
    split at hc <;> simp_all
  · intro hc
    refine ⟨c, hc, ?_⟩
    split <;> simp

theorem mem_joinChars {sep : List Char} {pieces : List (List Char)} {c : Char}
    (h : c ∈ joinChars sep pieces) : c ∈ sep ∨ ∃ piece ∈ pieces, c ∈ piece := by
  fun_induction joinChars sep pieces with
  | case1 => cases h
  | case2 piece => exact .inr ⟨piece, by simp, h⟩
  | case3 piece rest _ ih =>
    simp only [List.mem_append] at h
    rcases h with (h | h) | h
    · exact .inr ⟨piece, by simp, h⟩
    · exact .inl h
    · rcases ih h with h | ⟨other, hother, hc⟩
      · exact .inl h
      · exact .inr ⟨other, List.mem_cons_of_mem _ hother, hc⟩

/-- A character of joined texts comes from the separator or from one of the texts. -/
theorem mem_join {sep : String} {pieces : List String} {c : Char}
    (h : c ∈ (join sep pieces).toList) :
    c ∈ sep.toList ∨ ∃ piece ∈ pieces, c ∈ piece.toList := by
  rw [join, String.toList_ofList] at h
  simpa using mem_joinChars h

/-- A piece stands in the joined text. -/
theorem infix_joinChars {sep piece : List Char} {pieces : List (List Char)}
    (h : piece ∈ pieces) : piece <:+: joinChars sep pieces := by
  fun_induction joinChars sep pieces with
  | case1 => cases h
  | case2 first =>
    rw [List.mem_singleton.1 h]
  | case3 first rest _ ih =>
    rcases List.mem_cons.1 h with rfl | h
    · exact ((List.prefix_append _ _).trans (List.prefix_append _ _)).isInfix
    · exact (ih h).trans (List.suffix_append _ _).isInfix

/-- A first piece stands in front of the others with a separator behind it. -/
theorem joinChars_cons {sep piece : List Char} {pieces : List (List Char)} (h : pieces ≠ []) :
    joinChars sep (piece :: pieces) = piece ++ sep ++ joinChars sep pieces := by
  cases pieces with
  | nil => exact absurd rfl h
  | cons next rest => rfl

/-- Every piece but the last one has a separator behind it. -/
theorem joinChars_concat (sep last : List Char) (init : List (List Char)) :
    joinChars sep (init ++ [last]) = (init.flatMap fun piece => piece ++ sep) ++ last := by
  induction init with
  | nil => rfl
  | cons piece rest ih =>
    rw [List.cons_append, joinChars_cons (List.concat_ne_nil last rest), ih, List.flatMap_cons,
      List.append_assoc _ _ last]

/-- Pieces without the last one, joined, begin the joined text. -/
theorem joinChars_prefix_concat (sep last : List Char) (init : List (List Char)) :
    joinChars sep init <+: joinChars sep (init ++ [last]) := by
  rcases List.eq_nil_or_concat init with rfl | ⟨init, piece, rfl⟩
  · exact List.nil_prefix
  · rw [List.concat_eq_append, joinChars_concat, joinChars_concat, List.flatMap_append]
    exact ⟨sep ++ last, by simp⟩

/-! ## §2 Cut texts -/

/-- A piece of a cut text stands in the text. -/
theorem infix_of_mem_splitOn {sep s piece : String} (hsep : sep ≠ "") (h : piece ∈ splitOn sep s) :
    piece.toList <:+: s.toList := by
  obtain ⟨chars, hchars, rfl⟩ := List.mem_map.1 h
  have hne : sep.toList ≠ [] := by simpa using hsep
  have hjoin := joinChars_splitOnChars hne s.toList
  rw [← hjoin, String.toList_ofList]
  exact infix_joinChars hchars

/-- The pieces of a text are made of its characters. -/
theorem mem_of_mem_splitOn {sep s piece : String} {c : Char} (hsep : sep ≠ "")
    (h : piece ∈ splitOn sep s) (hc : c ∈ piece.toList) : c ∈ s.toList :=
  (infix_of_mem_splitOn hsep h).subset hc

/-- Joining the pieces with the separator gives the text back. -/
theorem join_splitOn (sep s : String) (hsep : sep ≠ "") : join sep (splitOn sep s) = s := by
  apply String.toList_inj.1
  rw [join, String.toList_ofList, splitOn, List.map_map]
  have hid : (String.toList ∘ String.ofList) = id := funext fun _ => String.toList_ofList
  rw [hid, List.map_id]
  exact joinChars_splitOnChars (by simpa using hsep) s.toList

/-- Both sides of the first separator are parts of the text. -/
theorem splitFirstChars?_eq_append {sep cs before after : List Char}
    (h : splitFirstChars? sep cs = some (before, after)) : cs = before ++ sep ++ after := by
  fun_induction splitFirstChars? sep cs generalizing before with
  | case1 => simp_all
  | case2 => cases h
  | case3 c cs hbegins =>
    obtain ⟨rest, hrest⟩ := List.isPrefixOf_iff_prefix.1 hbegins
    cases h
    rw [← hrest]
    simp
  | case4 c cs _ ih =>
    obtain ⟨⟨found, rest⟩, hfound, heq⟩ := Option.map_eq_some_iff.1 h
    cases heq
    rw [ih hfound]
    simp

/-- A separator is found if there is one. -/
theorem splitFirstChars?_isSome_iff {sep cs : List Char} :
    (splitFirstChars? sep cs).isSome = true ↔ sep <:+: cs := by
  fun_induction splitFirstChars? sep cs with
  | case1 hsep => simp_all
  | case2 hsep => simp_all
  | case3 c cs hbegins => simpa using (List.isPrefixOf_iff_prefix.1 hbegins).isInfix
  | case4 c cs hbegins ih =>
    rw [Option.isSome_map, ih, List.infix_cons_iff]
    simp_all [List.isPrefixOf_iff_prefix]

theorem splitFirst?_eq_append {sep s before after : String}
    (h : splitFirst? sep s = some (before, after)) :
    s.toList = before.toList ++ sep.toList ++ after.toList := by
  obtain ⟨⟨found, rest⟩, hfound, heq⟩ := Option.map_eq_some_iff.1 h
  cases heq
  simpa using splitFirstChars?_eq_append hfound

theorem splitFirst?_isSome_iff {sep s : String} :
    (splitFirst? sep s).isSome = true ↔ sep.toList <:+: s.toList := by
  rw [splitFirst?, Option.isSome_map, splitFirstChars?_isSome_iff]

/-- The character at which a text is cut first does not stand before the cut. -/
theorem not_mem_of_splitFirstChars? {c : Char} {cs before after : List Char}
    (h : splitFirstChars? [c] cs = some (before, after)) : c ∉ before := by
  induction cs generalizing before with
  | nil => cases h
  | cons x cs ih =>
    rw [splitFirstChars?] at h
    split at h
    · cases h
      exact List.not_mem_nil
    · rename_i hx
      obtain ⟨⟨found, rest⟩, hfound, heq⟩ := Option.map_eq_some_iff.1 h
      cases heq
      rw [List.mem_cons, not_or]
      exact ⟨by simpa [List.isPrefixOf] using hx, ih hfound⟩

/-- What stands in front of the first separator has none. -/
theorem not_mem_of_splitFirst? {c : Char} {sep s : String} {sides : String × String}
    (hsep : sep.toList = [c]) (h : splitFirst? sep s = some sides) : c ∉ sides.1.toList := by
  obtain ⟨⟨before, after⟩, hcut, heq⟩ := Option.map_eq_some_iff.1 h
  cases heq
  rw [hsep] at hcut
  rw [String.toList_ofList]
  exact not_mem_of_splitFirstChars? hcut

/-- Both sides of the last separator are parts of the text. -/
theorem splitLastChars?_eq_append {sep cs before after : List Char}
    (h : splitLastChars? sep cs = some (before, after)) : cs = before ++ sep ++ after := by
  fun_induction splitLastChars? sep cs generalizing before with
  | case1 => simp_all
  | case2 => cases h
  | case3 c cs found rest hfound ih =>
    cases h
    rw [ih hfound]
    simp
  | case4 c cs _ hbegins ih =>
    obtain ⟨rest, hrest⟩ := List.isPrefixOf_iff_prefix.1 hbegins
    cases h
    rw [← hrest]
    simp
  | case5 => cases h

theorem splitLast?_eq_append {sep s before after : String}
    (h : splitLast? sep s = some (before, after)) :
    s.toList = before.toList ++ sep.toList ++ after.toList := by
  obtain ⟨⟨found, rest⟩, hfound, heq⟩ := Option.map_eq_some_iff.1 h
  cases heq
  simpa using splitLastChars?_eq_append hfound

/-- A text is cut at the first separator, and what follows it is cut further. -/
theorem splitOnChars_eq {sep : List Char} (hsep : sep ≠ []) (cs : List Char) :
    splitOnChars sep cs =
      (splitFirstChars? sep cs).elim [cs] fun sides => sides.1 :: splitOnChars sep sides.2 := by
  -- the rest of a separator is skipped one character at a time
  have hskip : ∀ (n : Nat) (cs : List Char), splitFrom sep n cs = splitFrom sep 0 (cs.drop n) := by
    intro n cs
    induction n generalizing cs with
    | zero => rfl
    | succ n ih =>
      cases cs with
      | nil => rfl
      | cons c cs => exact ih cs
  have hcut : ∀ cs, splitOnChars sep cs = splitFrom sep 0 cs := by
    intro cs
    rw [splitOnChars, if_neg (by simpa using hsep)]
  induction cs with
  | nil =>
    rw [hcut, splitFirstChars?, if_neg (by simpa using hsep)]
    rfl
  | cons c cs ih =>
    rw [hcut, splitFirstChars?, splitFrom]
    split
    · rw [hskip, Option.elim_some, hcut]
      obtain ⟨n, hn⟩ := Nat.exists_eq_succ_of_ne_zero (List.length_pos_iff.2 hsep).ne'
      rw [hn, List.drop_succ_cons]
      rfl
    · rw [← hcut, ih]
      cases splitFirstChars? sep cs <;> rfl

/-- The first piece of a text. -/
theorem splitOn_eq_cons (sep s : String) (hsep : sep ≠ "") :
    ∃ rest, splitOn sep s = (splitFirst? sep s).elim s Prod.fst :: rest ∧
      (rest = [] ↔ splitFirst? sep s = none) := by
  have hsep' : sep.toList ≠ [] := by simpa using hsep
  rw [splitOn, splitOnChars_eq hsep', splitFirst?]
  cases splitFirstChars? sep.toList s.toList with
  | none => exact ⟨[], by simp, by simp⟩
  | some sides =>
    refine ⟨(splitOnChars sep.toList sides.2).map String.ofList, rfl, ?_⟩
    simpa using splitOnChars_ne_nil sep.toList sides.2

/-- What stands behind the last separator is the end of the text. -/
theorem afterLast_suffix (sep s : String) : (afterLast sep s).toList <:+ s.toList := by
  unfold afterLast
  split
  · rename_i before after h
    rw [splitLast?_eq_append h]
    exact List.suffix_append _ _
  · exact List.suffix_rfl

/-! ## §3 Occurrences -/

/-- A text without a character does not stand across that character. -/
theorem infix_append_cons {sep as bs : List Char} {c : Char} (hc : c ∉ sep)
    (h : sep <:+: as ++ c :: bs) : sep <:+: as ∨ sep <:+: bs := by
  obtain ⟨before, after, h⟩ := h
  rw [List.append_assoc] at h
  rcases List.append_eq_append_iff.1 h with ⟨rest, rfl, hrest⟩ | ⟨rest, rfl, hrest⟩
  · -- the occurrence begins before the character, and so ends before it
    rcases List.append_eq_append_iff.1 hrest with ⟨more, hmore, -⟩ | ⟨more, rfl, hmore⟩
    · exact .inl ⟨before, more, by rw [hmore, List.append_assoc]⟩
    · cases more with
      | nil => exact .inl ⟨before, [], by simp⟩
      | cons x more =>
        cases hmore
        exact absurd (List.mem_append_right rest List.mem_cons_self) hc
  · -- the occurrence begins at the character or behind it
    cases rest with
    | nil =>
      cases sep with
      | nil => exact .inl (List.nil_infix)
      | cons x sep =>
        cases hrest
        exact absurd List.mem_cons_self hc
    | cons x rest =>
      simp only [List.cons_append, List.cons.injEq] at hrest
      rw [hrest.2]
      exact .inr ⟨rest, after, by rw [List.append_assoc]⟩

/-- A character that does not occur in a text is not the first one of an occurrence. -/
theorem infix_of_infix_cons {sep cs : List Char} {c : Char} (hc : c ∉ sep)
    (h : sep <:+: c :: cs) : sep <:+: cs := by
  rcases List.infix_cons_iff.1 h with h | h
  · cases sep with
    | nil => exact List.nil_infix
    | cons x sep =>
      obtain ⟨rfl, -⟩ := List.cons_prefix_cons.1 h
      exact absurd List.mem_cons_self hc
  · exact h

/-- A text without a character begins a text with that character doubled only if it begins the
text itself. -/
theorem prefix_of_doubleChars {sep cs : List Char} {mark : Char} (hmark : mark ∉ sep)
    (h : sep <+: doubleChars mark cs) : sep <+: cs := by
  induction cs generalizing sep with
  | nil => exact h
  | cons c cs ih =>
    cases sep with
    | nil => exact List.nil_prefix
    | cons x sep =>
      obtain ⟨hx, hsep⟩ := not_or.1 (mt List.mem_cons.2 hmark)
      rw [doubleChars_cons] at h
      split at h
      · rename_i hc
        exact absurd (hc ▸ (List.cons_prefix_cons.1 h).1.symm) hx
      · obtain ⟨rfl, htail⟩ := List.cons_prefix_cons.1 h
        exact List.cons_prefix_cons.2 ⟨rfl, ih hsep htail⟩

/-- A text without a character stands in a text with that character doubled only if it stands in
the text itself. -/
theorem infix_of_doubleChars {sep cs : List Char} {mark : Char} (hmark : mark ∉ sep)
    (h : sep <:+: doubleChars mark cs) : sep <:+: cs := by
  induction cs with
  | nil => exact h
  | cons c cs ih =>
    rw [doubleChars_cons] at h
    split at h
    · rename_i hc
      subst hc
      -- neither of the two marks is in the text that is found
      have hrest := infix_of_infix_cons hmark (infix_of_infix_cons hmark h)
      exact (ih hrest).trans (List.suffix_cons c cs).isInfix
    · rcases List.infix_cons_iff.1 h with h | h
      · cases sep with
        | nil => exact List.nil_infix
        | cons x sep =>
          obtain ⟨rfl, htail⟩ := List.cons_prefix_cons.1 h
          have hsep : mark ∉ sep := fun hmem => hmark (List.mem_cons_of_mem _ hmem)
          exact (List.cons_prefix_cons.2 ⟨rfl, prefix_of_doubleChars hsep htail⟩).isInfix
      · exact (ih h).trans (List.suffix_cons c cs).isInfix

/-- A text that begins with a character stands in another one only behind what has no such
character. -/
theorem infix_of_not_mem_append {c : Char} {sep as bs : List Char} (hc : c ∉ as)
    (h : c :: sep <:+: as ++ bs) : c :: sep <:+: bs := by
  induction as with
  | nil => exact h
  | cons a as ih =>
    obtain ⟨ha, has⟩ := not_or.1 (mt List.mem_cons.2 hc)
    rcases List.infix_cons_iff.1 h with h | h
    · exact absurd (List.cons_prefix_cons.1 h).1 ha
    · exact ih has h

/-- A text without the separator stands in one of the pieces that it separates. -/
theorem infix_of_joinChars {c : Char} {sep : List Char} {pieces : List (List Char)} (hc : c ∉ sep)
    (hne : sep ≠ []) (h : sep <:+: joinChars [c] pieces) : ∃ piece ∈ pieces, sep <:+: piece := by
  fun_induction joinChars [c] pieces with
  | case1 => exact absurd (List.infix_nil.1 h) hne
  | case2 piece => exact ⟨piece, List.mem_singleton_self piece, h⟩
  | case3 piece rest _ ih =>
    rw [List.append_assoc] at h
    rcases infix_append_cons hc h with h | h
    · exact ⟨piece, List.mem_cons_self, h⟩
    · obtain ⟨other, hother, hin⟩ := ih h
      exact ⟨other, List.mem_cons_of_mem _ hother, hin⟩

/-- Without a separator there is no last one. -/
theorem splitLastChars?_eq_none {sep cs : List Char} (h : ¬ sep <:+: cs) :
    splitLastChars? sep cs = none := by
  induction cs with
  | nil =>
    rw [splitLastChars?, if_neg]
    rintro hsep
    exact h (by rw [List.isEmpty_iff.1 hsep])
  | cons c cs ih =>
    rw [List.infix_cons_iff, not_or] at h
    rw [splitLastChars?, ih h.2, if_neg (by simpa using h.1)]

/-- The last separator is the one behind which none stands, not even across its own end. -/
theorem splitLastChars?_append {c : Char} {sep : List Char} (before : List Char) {after : List Char}
    (h : ¬ c :: sep <:+: sep ++ after) :
    splitLastChars? (c :: sep) (before ++ (c :: sep) ++ after) = some (before, after) := by
  induction before with
  | nil =>
    -- what stands behind is searched first, and has no occurrence
    rw [List.nil_append, List.cons_append, splitLastChars?, splitLastChars?_eq_none h]
    have hbegins : (c :: sep).isPrefixOf (c :: (sep ++ after)) = true :=
      List.isPrefixOf_iff_prefix.2 (List.prefix_append (c :: sep) after)
    rw [hbegins]
    simp
  | cons b before ih =>
    rw [List.cons_append, List.cons_append, splitLastChars?, ih]

/-- Behind a separator that no later one follows stands the rest of the text. -/
theorem afterLast_append {c : Char} {seps : List Char} {sep : String}
    (hsep : sep.toList = c :: seps) (before : String) {after : String}
    (h : ¬ c :: seps <:+: seps ++ after.toList) :
    afterLast sep (before ++ sep ++ after) = after := by
  have hlast : splitLast? sep (before ++ sep ++ after) = some (before, after) := by
    rw [splitLast?, String.toList_append, String.toList_append, hsep, splitLastChars?_append _ h]
    simp
  rw [afterLast, hlast]

theorem afterLast_eq_self {sep s : String} (h : ¬ sep.toList <:+: s.toList) :
    afterLast sep s = s := by
  rw [afterLast, splitLast?, splitLastChars?_eq_none h]
  rfl

end Text

/-! ## §4 Names and aliases -/

/-- The word `as`, with blanks in front of it and one behind. -/
structure IsAsWord (blanks : List Char) (a s b : Char) : Prop where
  nonempty : blanks ≠ []
  blanks : ∀ c ∈ blanks, Text.isBlank c = true
  first : a = 'a' ∨ a = 'A'
  second : s = 's' ∨ s = 'S' ∨ s = 'ſ'
  behind : Text.isBlank b = true

/-- There are only blanks and letters in the word. -/
theorem IsAsWord.not_mem {blanks : List Char} {a s b c : Char} (h : IsAsWord blanks a s b)
    (hblank : Text.isBlank c = false) (hletter : c ∉ ['a', 'A', 's', 'S', 'ſ']) :
    c ∉ blanks ++ [a, s, b] := by
  simp only [List.mem_cons, List.not_mem_nil, or_false, not_or] at hletter
  simp only [List.mem_append, List.mem_cons, List.not_mem_nil, or_false, not_or]
  refine ⟨fun hc => ?_, ?_, ?_, ?_⟩
  · rw [h.blanks c hc] at hblank
    cases hblank
  · rcases h.first with rfl | rfl <;> tauto
  · rcases h.second with rfl | rfl | rfl <;> tauto
  · rintro rfl
    rw [h.behind] at hblank
    cases hblank

/-- Where the word `as` stands between blanks at the beginning of a text, and what follows it. -/
theorem afterAs?_eq_some_iff {cs rest : List Char} :
    afterAs? cs = some rest ↔
      ∃ blanks a s b tail, IsAsWord blanks a s b ∧ cs = blanks ++ [a, s, b] ++ tail ∧
        rest = Text.dropBlanks tail := by
  constructor
  · intro h
    unfold afterAs? at h
    split at h
    · cases h
    · rename_i c cs
      split at h
      · rename_i hc
        split at h
        · rename_i a s b tail hblanks
          split at h
          · rename_i hword
            cases h
            refine ⟨(c :: cs).takeWhile Text.isBlank, a, s, b, tail,
              ⟨?_, fun c hc => List.mem_takeWhile_imp hc, hword.1, hword.2.1, hword.2.2⟩, ?_, rfl⟩
            · simp [hc]
            · rw [List.append_assoc]
              show c :: cs = _ ++ a :: s :: b :: tail
              rw [← hblanks]
              exact List.takeWhile_append_dropWhile.symm
          · cases h
        · cases h
      · cases h
  · rintro ⟨blanks, a, s, b, tail, hword, rfl, rfl⟩
    -- the first letter ends the blanks, so that nothing else is dropped
    have ha : Text.isBlank a = false := by
      rcases hword.first with rfl | rfl <;> decide
    have hdrop : Text.dropBlanks (blanks ++ [a, s, b] ++ tail) = a :: s :: b :: tail := by
      rw [Text.dropBlanks, List.append_assoc, List.dropWhile_append_of_pos hword.blanks]
      simp [ha]
    obtain ⟨c, cs, rfl⟩ := List.exists_cons_of_ne_nil hword.nonempty
    unfold afterAs?
    simp only [List.cons_append] at hdrop ⊢
    rw [if_pos (hword.blanks c List.mem_cons_self), hdrop]
    simp [hword.first, hword.second, hword.behind]

/-- What follows the word for an alias is the end of the text. -/
theorem afterAs?_suffix {cs rest : List Char} (h : afterAs? cs = some rest) : rest <:+ cs := by
  obtain ⟨blanks, a, s, b, tail, -, rfl, rfl⟩ := afterAs?_eq_some_iff.1 h
  exact (List.dropWhile_suffix _).trans (List.suffix_append _ _)

/-- The word stands at the beginning of a text if it begins a text that goes on alike. -/
theorem afterAs?_isSome_of_isPrefix {cs ds rest : List Char} (h : afterAs? cs = some rest)
    (hword : ∀ blanks a s b, IsAsWord blanks a s b → blanks ++ [a, s, b] <+: cs →
      blanks ++ [a, s, b] <+: ds) : (afterAs? ds).isSome = true := by
  obtain ⟨blanks, a, s, b, tail, his, rfl, -⟩ := afterAs?_eq_some_iff.1 h
  obtain ⟨more, rfl⟩ := hword blanks a s b his (List.prefix_append _ _)
  exact Option.isSome_iff_exists.2
    ⟨_, afterAs?_eq_some_iff.2 ⟨blanks, a, s, b, more, his, rfl, rfl⟩⟩

/-- The word is still there if the text goes on. -/
theorem afterAs?_isSome_append {cs rest : List Char} (h : afterAs? cs = some rest)
    (ds : List Char) : (afterAs? (cs ++ ds)).isSome = true :=
  afterAs?_isSome_of_isPrefix h fun _ _ _ _ _ hcs => hcs.trans (List.prefix_append cs ds)

/-- The word is looked for where the text begins, and then further on. -/
theorem splitAs?_cons (c : Char) (cs : List Char) :
    splitAs? (c :: cs) =
      match afterAs? (c :: cs) with
      | some rest => some ([], rest)
      | none => (splitAs? cs).map fun (before, after) => (c :: before, after) := by
  rfl

/-- The word begins a text, or it is found behind the first character. -/
theorem splitAs?_cons_eq_some {c : Char} {cs before after : List Char}
    (h : splitAs? (c :: cs) = some (before, after)) :
    before = [] ∧ afterAs? (c :: cs) = some after ∨
      ∃ found, before = c :: found ∧ afterAs? (c :: cs) = none ∧
        splitAs? cs = some (found, after) := by
  rw [splitAs?_cons] at h
  split at h
  · rename_i rest hword
    cases h
    exact .inl ⟨rfl, hword⟩
  · rename_i hword
    obtain ⟨⟨found, rest⟩, hfound, heq⟩ := Option.map_eq_some_iff.1 h
    cases heq
    exact .inr ⟨found, rfl, hword, hfound⟩

/-- A text has no alias if the word stands nowhere in it. -/
theorem splitAs?_eq_none_iff {cs : List Char} :
    splitAs? cs = none ↔ ∀ tail, tail <:+ cs → afterAs? tail = none := by
  induction cs with
  | nil =>
    simp only [List.suffix_nil, forall_eq]
    exact ⟨fun _ => rfl, fun _ => rfl⟩
  | cons c cs ih =>
    rw [splitAs?_cons]
    cases hword : afterAs? (c :: cs) with
    | some rest =>
      simp only [reduceCtorEq, false_iff, not_forall]
      exact ⟨c :: cs, List.suffix_rfl, by simp [hword]⟩
    | none =>
      rw [Option.map_eq_none_iff, ih]
      constructor
      · intro h tail htail
        rcases List.suffix_cons_iff.1 htail with rfl | htail
        · exact hword
        · exact h tail htail
      · exact fun h tail htail => h tail (htail.trans (List.suffix_cons c cs))

/-- A part of a text without alias has none. -/
theorem splitAs?_eq_none_of_isInfix {cs ds : List Char} (h : splitAs? cs = none)
    (hds : ds <:+: cs) : splitAs? ds = none := by
  rw [splitAs?_eq_none_iff] at h ⊢
  intro tail htail
  obtain ⟨before, after, rfl⟩ := hds
  obtain ⟨start, rfl⟩ := htail
  -- a word of the piece is found in the whole text, with more behind it
  have hsuffix : tail ++ after <:+ before ++ (start ++ tail) ++ after :=
    ⟨before ++ start, by simp⟩
  have hnone := h _ hsuffix
  cases htail : afterAs? tail with
  | none => rfl
  | some rest =>
    have hsome := afterAs?_isSome_append htail after
    rw [hnone] at hsome
    cases hsome

/-- The word between single blanks is an alias. -/
theorem not_infix_of_splitAs?_eq_none {cs : List Char} (h : splitAs? cs = none) :
    ¬ " as ".toList <:+: cs := by
  intro hinfix
  have hword : splitAs? " as ".toList = some ([], []) := by decide
  rw [splitAs?_eq_none_of_isInfix h hinfix] at hword
  cases hword

/-- What stands before the first alias has none, and begins the text. What stands after it ends
the text. -/
theorem splitAs?_sides {cs before after : List Char} (h : splitAs? cs = some (before, after)) :
    before <+: cs ∧ after <:+ cs ∧ splitAs? before = none := by
  induction cs generalizing before with
  | nil => cases h
  | cons c cs ih =>
    obtain ⟨rfl, hword⟩ | ⟨found, rfl, hword, hfound⟩ := splitAs?_cons_eq_some h
    · exact ⟨List.nil_prefix, afterAs?_suffix hword, rfl⟩
    · obtain ⟨hbefore, hafter, hfree⟩ := ih hfound
      have hnone : afterAs? (c :: found) = none := by
        -- the word would begin the whole text, too
        rw [Option.eq_none_iff_forall_ne_some]
        intro rest hrest
        obtain ⟨more, rfl⟩ := hbefore
        have hsome := afterAs?_isSome_append hrest more
        rw [List.cons_append, hword] at hsome
        cases hsome
      refine ⟨(List.prefix_cons_inj c).2 hbefore, hafter.trans (List.suffix_cons c cs), ?_⟩
      rw [splitAs?_cons, hnone, hfree]
      rfl

/-- The name begins the text that it is cut from, and is cut no further. -/
theorem splitAlias?_name {s name asName : String} (h : splitAlias? s = some (name, asName)) :
    name.toList <+: s.toList ∧ splitAs? name.toList = none := by
  obtain ⟨⟨before, after⟩, hcut, heq⟩ := Option.map_eq_some_iff.1 h
  cases heq
  rw [String.toList_ofList]
  exact ⟨(splitAs?_sides hcut).1, (splitAs?_sides hcut).2.2⟩

/-- The alias stands in the text that it is cut from, and has no alias itself. -/
theorem splitAlias?_alias {s name asName : String} (h : splitAlias? s = some (name, asName)) :
    asName.toList <:+: s.toList ∧ splitAs? asName.toList = none := by
  obtain ⟨⟨before, after⟩, hcut, heq⟩ := Option.map_eq_some_iff.1 h
  cases heq
  rw [String.toList_ofList]
  have hafter := (splitAs?_sides hcut).2.1
  -- what a second word cuts off is no part of the alias
  split
  · rename_i first _ hfirst
    obtain ⟨hbegins, -, hfree⟩ := splitAs?_sides hfirst
    exact ⟨hbegins.isInfix.trans hafter.isInfix, hfree⟩
  · exact ⟨hafter.isInfix, ‹_›⟩

/-- A name has no alias if it does not contain the word. -/
theorem splitAlias?_eq_none_iff {s : String} :
    splitAlias? s = none ↔ splitAs? s.toList = none :=
  Option.map_eq_none_iff

/-- The characters before the alias of a text. -/
def nameChars (cs : List Char) : List Char :=
  (splitAs? cs).elim cs Prod.fst

/-- A name goes on as long as the word for an alias does not follow. -/
theorem nameChars_cons (c : Char) (cs : List Char) :
    nameChars (c :: cs) = if (afterAs? (c :: cs)).isSome then [] else c :: nameChars cs := by
  rw [nameChars, splitAs?_cons, nameChars]
  cases afterAs? (c :: cs) <;> cases splitAs? cs <;> rfl

theorem nameChars_isPrefix (cs : List Char) : nameChars cs <+: cs := by
  unfold nameChars
  cases h : splitAs? cs with
  | none => exact List.prefix_rfl
  | some sides => exact (splitAs?_sides h).1

/-- A text without its alias. -/
def unaliased (s : String) : String :=
  (splitAlias? s).elim s Prod.fst

theorem toList_unaliased (s : String) : (unaliased s).toList = nameChars s.toList := by
  rw [unaliased, splitAlias?, nameChars]
  cases splitAs? s.toList <;> simp

/-- A name without its alias is the beginning of the name. -/
theorem unaliased_isPrefix (s : String) : (unaliased s).toList <+: s.toList := by
  rw [toList_unaliased]
  exact nameChars_isPrefix s.toList

/-- What stands in front of an alias has none. -/
theorem splitAlias?_unaliased (s : String) : splitAlias? (unaliased s) = none := by
  unfold unaliased
  cases h : splitAlias? s with
  | none => exact h
  | some sides => exact splitAlias?_eq_none_iff.2 (splitAlias?_name h).2

/-! ## §5 Columns and steps of selectors -/

/-- A name leads into a document if an arrow stands in it. -/
theorem isSelector_iff {name : String} :
    isSelector name = true ↔ arrow.toList <:+: name.toList :=
  Text.splitFirst?_isSome_iff

/-- The characters before the first arrow. -/
def fieldChars (cs : List Char) : List Char :=
  (Text.splitFirstChars? arrow.toList cs).elim cs Prod.fst

/-- The column of a selector goes on as long as no arrow follows. -/
theorem fieldChars_cons (c : Char) (cs : List Char) :
    fieldChars (c :: cs) = if arrow.toList <+: c :: cs then [] else c :: fieldChars cs := by
  rw [fieldChars, Text.splitFirstChars?, fieldChars]
  simp only [List.isPrefixOf_iff_prefix]
  split
  · rfl
  · cases Text.splitFirstChars? arrow.toList cs <;> rfl

theorem fieldChars_cons_of_ne {c : Char} (hc : c ≠ '-') (cs : List Char) :
    fieldChars (c :: cs) = c :: fieldChars cs := by
  rw [fieldChars_cons, if_neg]
  exact fun h => hc (List.cons_prefix_cons.1 h).1.symm

/-- What has no dash contains no beginning of an arrow. -/
theorem fieldChars_append {cs : List Char} (hcs : '-' ∉ cs) (ds : List Char) :
    fieldChars (cs ++ ds) = cs ++ fieldChars ds := by
  induction cs with
  | nil => rfl
  | cons c cs ih =>
    obtain ⟨hc, hrest⟩ := not_or.1 (mt List.mem_cons.2 hcs)
    rw [List.cons_append, fieldChars_cons_of_ne (Ne.symm hc), ih hrest, List.cons_append]

theorem fieldChars_isPrefix (cs : List Char) : fieldChars cs <+: cs := by
  unfold fieldChars
  cases h : Text.splitFirstChars? arrow.toList cs with
  | none => exact List.prefix_rfl
  | some sides =>
    have happend := Text.splitFirstChars?_eq_append h
    exact ⟨arrow.toList ++ sides.2, by rw [happend]; simp⟩

theorem toList_splitSelector_field (s : String) :
    (splitSelector s).1.toList = fieldChars s.toList := by
  rw [splitSelector, Text.splitFirst?, fieldChars]
  cases Text.splitFirstChars? arrow.toList s.toList <;> simp

/-- The column of a selector is the beginning of the selector. -/
theorem splitSelector_field_isPrefix (s : String) : (splitSelector s).1.toList <+: s.toList := by
  rw [toList_splitSelector_field]
  exact fieldChars_isPrefix s.toList

/-- An alias and a path may be cut off in any order. -/
theorem nameChars_fieldChars (cs : List Char) :
    nameChars (fieldChars cs) = fieldChars (nameChars cs) := by
  induction cs with
  | nil => rfl
  | cons c cs ih =>
    rw [nameChars_cons]
    split
    · -- the word `as` comes first, and has no arrow in it
      rename_i hword
      obtain ⟨rest, hrest⟩ := Option.isSome_iff_exists.1 hword
      have hsome : (afterAs? (fieldChars (c :: cs))).isSome = true := by
        refine afterAs?_isSome_of_isPrefix hrest fun blanks a s b hword hbegins => ?_
        obtain ⟨tail, htail⟩ := hbegins
        rw [← htail, fieldChars_append (hword.not_mem (by decide) (by decide))]
        exact List.prefix_append _ _
      cases hfield : fieldChars (c :: cs) with
      | nil => rfl
      | cons x xs =>
        rw [hfield] at hsome
        rw [nameChars_cons, if_pos hsome]
        rfl
    · rename_i hword
      have hnone : afterAs? (c :: cs) = none := by simpa using hword
      by_cases harrow : arrow.toList <+: c :: cs
      · -- the arrow comes first, and has no blank in it
        obtain ⟨rest, hrest⟩ := harrow
        cases hrest
        have hfield : fieldChars ('-' :: '>' :: rest) = [] := by
          rw [fieldChars_cons, if_pos ⟨rest, rfl⟩]
        have hstep : nameChars ('>' :: rest) = '>' :: nameChars rest := by
          rw [nameChars_cons, if_neg]
          simp [afterAs?, Text.isBlank]
        show nameChars (fieldChars ('-' :: '>' :: rest)) =
          fieldChars ('-' :: nameChars ('>' :: rest))
        rw [hfield, hstep, fieldChars_cons, if_pos ⟨nameChars rest, rfl⟩]
        rfl
      · -- neither begins here, and neither does so in what the other one leaves
        have hfree : afterAs? (c :: fieldChars cs) = none := by
          rw [Option.eq_none_iff_forall_ne_some]
          intro rest hrest
          obtain ⟨more, hmore⟩ := fieldChars_isPrefix cs
          have hsome := afterAs?_isSome_append hrest more
          rw [List.cons_append, hmore, hnone] at hsome
          cases hsome
        have hplain : ¬ arrow.toList <+: c :: nameChars cs := fun h =>
          harrow (h.trans ((List.prefix_cons_inj c).2 (nameChars_isPrefix cs)))
        rw [fieldChars_cons, if_neg harrow, nameChars_cons, hfree, fieldChars_cons, if_neg hplain,
          ← ih]
        rfl

/-- The column of a name: what stands before its alias and before its path. -/
def columnOf (name : String) : String :=
  (splitSelector (unaliased name)).1

theorem toList_columnOf (name : String) :
    (columnOf name).toList = fieldChars (nameChars name.toList) := by
  rw [columnOf, toList_splitSelector_field, toList_unaliased]

/-- The column of a selector, without its alias. -/
theorem unaliased_splitSelector (name : String) :
    unaliased (splitSelector name).1 = columnOf name := by
  apply String.toList_inj.1
  rw [toList_unaliased, toList_splitSelector_field, toList_columnOf, nameChars_fieldChars]

/-- A name without path is its column, apart from its alias. -/
theorem columnOf_eq_unaliased {name : String} (h : isSelector (unaliased name) = false) :
    columnOf name = unaliased name := by
  rw [isSelector, Option.isSome_eq_false_iff, Option.isNone_iff_eq_none] at h
  rw [columnOf, splitSelector, h]
  rfl

/-- A column is the beginning of the name that it is read from. -/
theorem columnOf_isPrefix (name : String) : (columnOf name).toList <+: name.toList := by
  rw [toList_columnOf]
  exact (fieldChars_isPrefix _).trans (nameChars_isPrefix _)

/-- A column goes on until an alias or an arrow begins. -/
theorem columnChars_cons (c : Char) (cs : List Char) :
    fieldChars (nameChars (c :: cs)) =
      if (afterAs? (c :: cs)).isSome = true ∨ arrow.toList <+: c :: cs then []
      else c :: fieldChars (nameChars cs) := by
  rw [nameChars_cons]
  by_cases hword : (afterAs? (c :: cs)).isSome = true
  · rw [if_pos hword, if_pos (.inl hword)]
    rfl
  · rw [if_neg hword, fieldChars_cons]
    refine if_congr ?_ rfl rfl
    constructor
    · exact fun h => .inr (h.trans ((List.prefix_cons_inj c).2 (nameChars_isPrefix cs)))
    · rintro (h | ⟨rest, hrest⟩)
      · exact absurd h hword
      · -- an arrow is not cut by an alias, which begins with a blank
        cases hrest
        show '-' :: '>' :: [] <+: '-' :: nameChars ('>' :: rest)
        rw [nameChars_cons, if_neg (by simp [afterAs?, Text.isBlank])]
        exact ⟨nameChars rest, rfl⟩

/-- If a part of a name at its beginning has a qualifier, then it is the qualifier of the name:
where the name breaks off in an alias or in an arrow, no dot stands behind. -/
theorem qualifier_of_isPrefix {part name : List Char} (h : part <+: name)
    {sides : List Char × List Char}
    (hdot : Text.splitFirstChars? ['.'] (fieldChars (nameChars part)) = some sides) :
    ∃ after, Text.splitFirstChars? ['.'] (fieldChars (nameChars name)) =
      some (sides.1, after) := by
  induction part generalizing name sides with
  | nil => cases hdot
  | cons c part ih =>
    obtain ⟨more, rfl⟩ := h
    have hmem : '.' ∈ c :: part := by
      have happend := Text.splitFirstChars?_eq_append hdot
      have hin : '.' ∈ fieldChars (nameChars (c :: part)) := by
        rw [happend]
        simp
      exact ((fieldChars_isPrefix _).trans (nameChars_isPrefix _)).subset hin
    rw [columnChars_cons] at hdot
    split at hdot
    · cases hdot
    · rename_i hfree
      rw [not_or] at hfree
      -- what begins with a text without dots, and has a dot, does not break off in it
      have hwhole : ∀ start : List Char, '.' ∉ start → start <+: c :: part ++ more →
          start <+: c :: part := by
        intro start hstart hbegins
        rcases List.prefix_or_prefix_of_prefix hbegins (List.prefix_append (c :: part) more) with
          h | h
        · exact h
        · exact absurd (h.subset hmem) hstart
      have hgoes : ¬ ((afterAs? (c :: (part ++ more))).isSome = true ∨
          arrow.toList <+: c :: (part ++ more)) := by
        rintro (hword | harrow)
        · obtain ⟨rest, hrest⟩ := Option.isSome_iff_exists.1 hword
          exact hfree.1 (afterAs?_isSome_of_isPrefix hrest fun _ _ _ _ hword hbegins =>
            hwhole _ (hword.not_mem (by decide) (by decide)) hbegins)
        · exact hfree.2 (hwhole _ (by decide) harrow)
      rw [List.cons_append, columnChars_cons, if_neg hgoes]
      rw [Text.splitFirstChars?] at hdot ⊢
      by_cases hc : c = '.'
      · subst hc
        cases hdot
        exact ⟨_, rfl⟩
      · have hno : ∀ cs : List Char, ['.'].isPrefixOf (c :: cs) = false := by
          intro cs
          simpa [List.isPrefixOf] using Ne.symm hc
        rw [hno, if_neg Bool.false_ne_true] at hdot ⊢
        obtain ⟨⟨before, after⟩, hfound, heq⟩ := Option.map_eq_some_iff.1 hdot
        cases heq
        obtain ⟨rest, hrest⟩ := ih (List.prefix_append part more) hfound
        exact ⟨rest, by rw [hrest]; rfl⟩

/-- The qualifier of a column: what stands before its first dot, empty if there is none. -/
def qualifierOf (column : String) : String :=
  (Text.splitFirst? "." column).elim "" Prod.fst

/-- A name that is qualified by a table has no qualifier beyond the table. -/
theorem mem_table_of_mem_qualifier {table name : String} {c : Char}
    (h : c ∈ (qualifierOf (columnOf (table ++ "." ++ name))).toList) : c ∈ table.toList := by
  unfold qualifierOf at h
  cases hsplit : Text.splitFirst? "." (columnOf (table ++ "." ++ name)) with
  | none =>
    rw [hsplit] at h
    cases h
  | some sides =>
    rw [hsplit] at h
    have hbegins := columnOf_isPrefix (table ++ "." ++ name)
    rw [Text.splitFirst?_eq_append hsplit] at hbegins
    have hbefore : sides.1.toList <+: table.toList ++ '.' :: name.toList := by
      have hwhole : (table ++ "." ++ name).toList = table.toList ++ '.' :: name.toList := by simp
      rw [hwhole, List.append_assoc] at hbegins
      exact (List.prefix_append _ _).trans hbegins
    have htable : table.toList <+: table.toList ++ '.' :: name.toList := List.prefix_append _ _
    rcases List.prefix_or_prefix_of_prefix hbefore htable with hin | hin
    · exact hin.subset h
    · -- the qualifier ends at the first dot, and so not behind the table
      obtain ⟨rest, hrest⟩ := hin
      cases rest with
      | nil =>
        rw [List.append_nil] at hrest
        rw [hrest]
        exact h
      | cons x rest =>
        rw [← hrest] at hbefore
        obtain ⟨more, hmore⟩ := hbefore
        rw [List.append_assoc, List.append_cancel_left_eq, List.cons_append] at hmore
        obtain ⟨rfl, -⟩ := List.cons.inj hmore
        refine absurd ?_ (Text.not_mem_of_splitFirst? (c := '.') rfl hsplit)
        rw [← hrest]
        simp

/-- The indices of a text are the text itself, with the index in front that is read at the
moment. -/
theorem bracketed_indices? {current : Option (List Char)} {cs : List Char}
    {indices : List (List Char)} (h : indices? current cs = some indices) :
    bracketed indices = current.elim [] (fun index => '[' :: index.reverse) ++ cs := by
  induction cs generalizing current indices with
  | nil =>
    cases current with
    | none =>
      cases h
      rfl
    | some index => cases h
  | cons c cs ih =>
    -- between indices, or inside of one, which is read backwards
    cases current with
    | none =>
      simp only [indices?] at h
      split at h
      · rename_i hopen
        rw [ih h, hopen]
        rfl
      · cases h
    | some index =>
      simp only [indices?] at h
      split at h
      · rename_i hclose
        split at h
        · cases h
        · obtain ⟨tail, htail, rfl⟩ := Option.map_eq_some_iff.1 h
          have hrest : bracketed tail = cs := ih htail
          simp only [bracketed, List.flatMap_cons, Option.elim] at hrest ⊢
          rw [hrest, hclose]
          simp
      · rw [ih h]
        simp

/-- A step is its key followed by its indices in brackets. -/
theorem key_append_bracketed (step : List Char) :
    (splitIndices step).1 ++ bracketed (splitIndices step).2 = step := by
  fun_induction splitIndices step with
  | case1 => rfl
  | case2 c cs indices h =>
    split at h
    · exact bracketed_indices? h
    · cases h
  | case3 c cs _ key indices hcut ih =>
    rw [hcut] at ih
    rw [List.cons_append, ih]

/-! ## §6 Last steps -/

/-- A selector is its steps, the last one among them. -/
theorem join_splitLastStep (column : String) :
    Text.join arrow ((Target.splitLastStep column).1 ++ [(Target.splitLastStep column).2]) =
      column := by
  have hne := Text.splitOn_ne_nil arrow column
  have hlast : (Target.splitLastStep column).2 = (Text.splitOn arrow column).getLast hne := by
    simp only [Target.splitLastStep, List.getLast?_eq_some_getLast hne, Option.getD_some]
  rw [hlast, Target.splitLastStep]
  show Text.join arrow ((Text.splitOn arrow column).dropLast ++ _) = column
  rw [List.dropLast_concat_getLast, Text.join_splitOn arrow column (by decide)]

/-- What is left of a selector without its last step, or with the beginning of that step, begins the
selector. -/
theorem outer_isPrefix (column : String) :
    (Text.join arrow (Target.splitLastStep column).1).toList <+: column.toList := by
  conv_rhs => rw [← join_splitLastStep column]
  simp only [Text.join, String.toList_ofList, List.map_append]
  exact Text.joinChars_prefix_concat _ _ _

/-- A selector without its last step, and with a part of it, is the beginning of the selector. -/
theorem outer_concat_isPrefix {column : String} {before : List Char}
    (h : before <+: (Target.splitLastStep column).2.toList) :
    (Text.join arrow ((Target.splitLastStep column).1 ++ [String.ofList before])).toList <+:
      column.toList := by
  conv_rhs => rw [← join_splitLastStep column]
  simp only [Text.join, String.toList_ofList, List.map_append, List.map_cons, List.map_nil,
    Text.joinChars_concat]
  exact (List.prefix_append_right_inj _).2 h

/-- The digits of an index, behind a minus sign if that is allowed. -/
def IsIndexText (signed : Bool) (digits : List Char) : Prop :=
  let unsigned := if signed && digits.head? == some '-' then digits.tail else digits
  unsigned ≠ [] ∧ unsigned.all isDigit = true

/-- An index is digits and a sign. -/
theorem mem_indexText {signed : Bool} {digits : List Char} (h : IsIndexText signed digits)
    {c : Char} (hc : c ∈ digits) : isDigit c = true ∨ c = '-' := by
  obtain ⟨-, hall⟩ := h
  split at hall
  · -- a minus sign, and digits behind it
    rename_i hsigned
    cases digits with
    | nil => cases hc
    | cons first rest =>
      rcases List.mem_cons.1 hc with rfl | hc
      · exact .inr (by simpa using (Bool.and_eq_true_iff.1 hsigned).2)
      · exact .inl (List.all_eq_true.1 hall c hc)
  · exact .inl (List.all_eq_true.1 hall c hc)

/-- An index at the end of a step: what stands before it, and its digits between brackets. -/
theorem indexText_of_trailingIndex? {signed : Bool} {cs before index : List Char}
    (h : trailingIndex? signed cs = some (before, index)) :
    cs = before ++ '[' :: index ++ [']'] ∧ IsIndexText signed index := by
  induction cs generalizing before with
  | nil => cases h
  | cons c cs ih =>
    rw [trailingIndex?] at h
    split at h
    · rename_i found digits hfound
      cases h
      obtain ⟨heq, hdigits⟩ := ih hfound
      exact ⟨by rw [heq]; rfl, hdigits⟩
    · obtain ⟨⟨hopen, hclose, hne, hall⟩, heq⟩ := Option.ite_none_right_eq_some.1 h
      cases heq
      refine ⟨?_, hne, hall⟩
      rw [hopen, List.nil_append, List.cons_append, List.dropLast_append_getLast? _ hclose]

/-- An index stands in brackets at the end of a step. -/
theorem trailingIndex?_eq_append {signed : Bool} {cs before index : List Char}
    (h : trailingIndex? signed cs = some (before, index)) :
    cs = before ++ '[' :: index ++ [']'] ∧ ∀ c ∈ index, isDigit c = true ∨ c = '-' := by
  obtain ⟨heq, hdigits⟩ := indexText_of_trailingIndex? h
  exact ⟨heq, fun c hc => mem_indexText hdigits hc⟩

/-- What stands before an index begins the step. -/
theorem trailingIndex?_isPrefix {signed : Bool} {cs before index : List Char}
    (h : trailingIndex? signed cs = some (before, index)) : before <+: cs := by
  rw [(trailingIndex?_eq_append h).1, List.append_assoc]
  exact List.prefix_append _ _

end SqlCompiler
