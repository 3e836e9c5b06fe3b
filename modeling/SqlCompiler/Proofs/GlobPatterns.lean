import Mathlib.Data.List.Infix
import SqlCompiler.Predicate

/-!
# Like Patterns as Globs

SQLite matches case-sensitively by globs, so a like pattern is bound as a glob. Both pattern
languages are read into parts of one kind, runs of characters and single characters, and both match
a text part by part. The translation keeps the meaning of exactly those patterns that hold no
opening bracket: such a bracket is a plain character in a like pattern, and opens a class in a glob.

## Main definitions

- `PatternPart`, `matchesParts`: parts of a pattern, and what they match
- `likeParts`, `globParts`: like patterns and globs as parts
- `likes`, `globs`: the two ways of matching

## Main statements

- `globParts_globChars`: without opening brackets the translation has the parts of the pattern
- `width_globParts_lt`: with one, what the translation matches may be shorter than any match of the
  pattern
- `glob_keeps_meaning_iff`: which patterns keep their meaning
-/

namespace SqlCompiler

/-! ## §1 Parts of patterns -/

/-- A part of a pattern. -/
inductive PatternPart where
  /-- Any number of characters. -/
  | run
  /-- One character among those accepted. -/
  | single (accepts : Char → Bool)

/-- Whether a text consists of what the parts of a pattern stand for, one after another. -/
def matchesParts : List PatternPart → List Char → Bool
  | [], s => s.isEmpty
  | .run :: parts, s => s.tails.any (matchesParts parts)
  | .single _ :: _, [] => false
  | .single accepts :: parts, c :: s => accepts c && matchesParts parts s

/-- The part that a character of a like pattern stands for. -/
def likePart : Char → PatternPart
  | '%' => .run
  | '_' => .single fun _ => true
  | c => .single (· == c)

/-- The parts of a like pattern without escape character. -/
def likeParts (pattern : List Char) : List PatternPart :=
  pattern.map likePart

mutual

/-- The parts of a glob. -/
def globParts : List Char → List PatternPart
  | [] => []
  | '*' :: cs => .run :: globParts cs
  | '?' :: cs => .single (fun _ => true) :: globParts cs
  -- a caret in front negates a class, and a closing bracket is a member where it comes first
  | '[' :: '^' :: ']' :: cs => classParts true (· == ']') none cs
  | '[' :: '^' :: cs => classParts true (fun _ => false) none cs
  | '[' :: ']' :: cs => classParts false (· == ']') none cs
  | '[' :: cs => classParts false (fun _ => false) none cs
  | c :: cs => .single (· == c) :: globParts cs

/-- The parts of a glob from within a class, given the members so far and the member from which a
range may go on. A class that is never closed accepts nothing. -/
def classParts (negated : Bool) (members : Char → Bool) (low? : Option Char) :
    List Char → List PatternPart
  | [] => [.single fun _ => false]
  | [c] =>
    if c = ']' then [.single fun d => members d != negated] else [.single fun _ => false]
  | c :: high :: cs =>
    if c = ']' then .single (fun d => members d != negated) :: globParts (high :: cs)
    else if c = '-' ∧ high ≠ ']' ∧ low?.isSome then
      classParts negated (fun d => members d || (low?.any (· ≤ d) && d ≤ high)) none cs
    else classParts negated (fun d => members d || d == c) (some c) (high :: cs)

end

/-- Whether a text matches a like pattern. -/
def likes (pattern text : String) : Bool :=
  matchesParts (likeParts pattern.toList) text.toList

/-- Whether a text matches a glob. -/
def globs (pattern text : String) : Bool :=
  matchesParts (globParts pattern.toList) text.toList

example : globs "[^]a-c]*.txt" "d.txt" = true := by decide

/-! ## §2 Width -/

/-- The number of characters that a pattern asks for. -/
def width : List PatternPart → Nat
  | [] => 0
  | .run :: parts => width parts
  | .single _ :: parts => width parts + 1

variable {parts : List PatternPart} {s : List Char}

/-- A match has at least the characters that the pattern asks for. -/
theorem width_le_of_matches (h : matchesParts parts s = true) : width parts ≤ s.length := by
  induction parts generalizing s with
  | nil => exact Nat.zero_le _
  | cons part parts ih =>
    cases part with
    | run =>
      rw [matchesParts, List.any_eq_true] at h
      obtain ⟨rest, hrest, hmatch⟩ := h
      have hlength : rest.length ≤ s.length := ((List.mem_tails rest s).1 hrest).length_le
      exact (ih hmatch).trans hlength
    | single accepts =>
      cases s with
      | nil => cases h
      | cons c s =>
        rw [matchesParts, Bool.and_eq_true] at h
        exact Nat.succ_le_succ (ih h.2)

/-- What is matched at all is matched by a text with no more characters than asked for: its runs are
empty. -/
theorem exists_match_of_width (h : matchesParts parts s = true) :
    ∃ r, matchesParts parts r = true ∧ r.length = width parts := by
  induction parts generalizing s with
  | nil => exact ⟨[], rfl, rfl⟩
  | cons part parts ih =>
    cases part with
    | run =>
      rw [matchesParts, List.any_eq_true] at h
      obtain ⟨rest, -, hmatch⟩ := h
      obtain ⟨r, hr, hlength⟩ := ih hmatch
      refine ⟨r, ?_, hlength⟩
      rw [matchesParts, List.any_eq_true]
      exact ⟨r, (List.mem_tails r r).2 (List.suffix_refl r), hr⟩
    | single accepts =>
      cases s with
      | nil => cases h
      | cons c s =>
        rw [matchesParts, Bool.and_eq_true] at h
        obtain ⟨r, hr, hlength⟩ := ih h.2
        refine ⟨c :: r, ?_, congrArg Nat.succ hlength⟩
        rw [matchesParts, Bool.and_eq_true]
        exact ⟨h.1, hr⟩

/-- Every like pattern matches some text. -/
theorem exists_like (pattern : List Char) : ∃ s, matchesParts (likeParts pattern) s = true := by
  induction pattern with
  | nil => exact ⟨[], rfl⟩
  | cons c pattern ih =>
    obtain ⟨s, hs⟩ := ih
    rw [likeParts, List.map_cons]
    cases hpart : likePart c with
    | run =>
      refine ⟨s, ?_⟩
      rw [matchesParts, List.any_eq_true]
      exact ⟨s, (List.mem_tails s s).2 (List.suffix_refl s), hs⟩
    | single accepts =>
      -- a plain character stands for itself, and an underscore for any character
      have hself : accepts c = true := by
        unfold likePart at hpart
        split at hpart <;> cases hpart
        · rfl
        · exact beq_self_eq_true c
      refine ⟨c :: s, ?_⟩
      rw [matchesParts, Bool.and_eq_true]
      exact ⟨hself, hs⟩

/-! ## §3 Translated patterns -/

/-- What a character of a like pattern is translated to. -/
def globChar : Char → List Char
  | '*' => ['[', '*', ']']
  | '?' => ['[', '?', ']']
  | '%' => ['*']
  | '_' => ['?']
  | c => [c]

/-- What the characters of a like pattern are translated to. -/
def globChars (pattern : List Char) : List Char :=
  pattern.flatMap globChar

theorem toList_globPattern (pattern : String) :
    (Target.globPattern pattern).toList = globChars pattern.toList := by
  rw [Target.globPattern, String.toList_ofList]
  rfl

/-- The characters that are not translated. -/
def isUntranslated (c : Char) : Prop :=
  c ≠ '*' ∧ c ≠ '?' ∧ c ≠ '%' ∧ c ≠ '_'

theorem globChar_of_untranslated {c : Char} (h : isUntranslated c) : globChar c = [c] := by
  obtain ⟨hstar, hmark, hpercent, hunderscore⟩ := h
  unfold globChar
  split <;> first | contradiction | rfl

theorem likePart_of_untranslated {c : Char} (h : isUntranslated c) :
    likePart c = .single (· == c) := by
  obtain ⟨-, -, hpercent, hunderscore⟩ := h
  unfold likePart
  split <;> first | contradiction | rfl

/-- The characters of a like pattern, by what they are translated to. -/
@[elab_as_elim]
theorem globChar_cases {motive : Char → Prop} (star : motive '*') (mark : motive '?')
    (percent : motive '%') (underscore : motive '_')
    (untranslated : ∀ c, isUntranslated c → motive c) (c : Char) : motive c := by
  by_cases hstar : c = '*'
  · exact hstar ▸ star
  by_cases hmark : c = '?'
  · exact hmark ▸ mark
  by_cases hpercent : c = '%'
  · exact hpercent ▸ percent
  by_cases hunderscore : c = '_'
  · exact hunderscore ▸ underscore
  exact untranslated c ⟨hstar, hmark, hpercent, hunderscore⟩

theorem globParts_of_untranslated {c : Char} (h : isUntranslated c) (hopen : c ≠ '[')
    (cs : List Char) : globParts (c :: cs) = .single (· == c) :: globParts cs := by
  obtain ⟨hstar, hmark, -, -⟩ := h
  rw [globParts] <;> intros <;> contradiction

/-! ## §4 Classes -/

variable (negated : Bool) (members : Char → Bool) (low? : Option Char)

/-- A closing bracket ends a class. -/
theorem classParts_close (cs : List Char) :
    classParts negated members low? (']' :: cs) =
      .single (fun d => members d != negated) :: globParts cs := by
  cases cs with
  | nil => rw [classParts, if_pos rfl, globParts]
  | cons high cs => rw [classParts, if_pos rfl]

/-- A character that neither closes a class nor makes a range is a member. -/
theorem classParts_member {c : Char} (hclose : c ≠ ']')
    (hrange : c = '-' → low? = none) (cs : List Char) :
    ∃ members' low?', classParts negated members low? (c :: cs) =
      classParts negated members' low?' cs := by
  cases cs with
  | nil =>
    refine ⟨members, low?, ?_⟩
    simp only [classParts, if_neg hclose]
  | cons high cs =>
    refine ⟨fun d => members d || d == c, some c, ?_⟩
    have hmember : ¬(c = '-' ∧ high ≠ ']' ∧ low?.isSome = true) := by
      rintro ⟨hdash, -, hlow⟩
      rw [hrange hdash] at hlow
      cases hlow
    rw [classParts, if_neg hclose, if_neg hmember]

/-- A dash is a member, or it makes a range and takes the next character with it. -/
theorem classParts_dash (cs : List Char) :
    (∃ members' low?', classParts negated members low? ('-' :: cs) =
      classParts negated members' low?' cs) ∨
    ∃ members' high rest, cs = high :: rest ∧ high ≠ ']' ∧
      classParts negated members low? ('-' :: cs) = classParts negated members' none rest := by
  have hclose : '-' ≠ ']' := by decide
  cases cs with
  | nil =>
    refine .inl ⟨members, low?, ?_⟩
    simp only [classParts, if_neg hclose]
  | cons high cs =>
    by_cases hrange : '-' = '-' ∧ high ≠ ']' ∧ low?.isSome = true
    · refine .inr ⟨fun d => members d || (low?.any (· ≤ d) && d ≤ high), high, cs, rfl,
        hrange.2.1, ?_⟩
      rw [classParts, if_neg hclose, if_pos hrange]
    · refine .inl ⟨fun d => members d || d == '-', some '-', ?_⟩
      rw [classParts, if_neg hclose, if_neg hrange]

/-- What a translated wildcard ends with ends a class. -/
theorem classParts_escape {c : Char} (hclose : c ≠ ']') (hdash : c ≠ '-') (cs : List Char) :
    ∃ accepts, classParts negated members low? (c :: ']' :: cs) =
      .single accepts :: globParts cs := by
  obtain ⟨members', low?', hmember⟩ :=
    classParts_member negated members low? hclose (fun h => absurd h hdash) (']' :: cs)
  exact ⟨_, hmember.trans (classParts_close negated members' low?' cs)⟩

/-- A wildcard of globs in a class of its own stands for itself. -/
theorem globParts_escaped {c : Char} (hcaret : c ≠ '^') (hclose : c ≠ ']') (cs : List Char) :
    globParts ('[' :: c :: ']' :: cs) = .single (· == c) :: globParts cs := by
  have hopen : globParts ('[' :: c :: ']' :: cs) =
      classParts false (fun _ => false) none (c :: ']' :: cs) := by
    rw [globParts] <;> intros <;> simp_all
  have hmember : ¬(c = '-' ∧ ']' ≠ ']' ∧ (none : Option Char).isSome = true) := by
    simp
  rw [hopen, classParts, if_neg hclose, if_neg hmember, classParts_close]
  simp

/-! ## §5 Patterns without opening brackets -/

/-- Without opening brackets the translation of a pattern has the parts of the pattern. -/
theorem globParts_globChars {pattern : List Char} (h : '[' ∉ pattern) :
    globParts (globChars pattern) = likeParts pattern := by
  induction pattern with
  | nil => rfl
  | cons c pattern ih =>
    rw [List.mem_cons, not_or] at h
    have hrest := ih h.2
    rw [globChars, List.flatMap_cons, ← globChars, likeParts, List.map_cons, ← likeParts, ← hrest]
    cases c using globChar_cases with
    | star => exact globParts_escaped (by decide) (by decide) _
    | mark => exact globParts_escaped (by decide) (by decide) _
    | percent => rw [globChar, List.singleton_append, globParts]; rfl
    | underscore => rw [globChar, List.singleton_append, globParts]; rfl
    | untranslated c hc =>
      rw [globChar_of_untranslated hc, likePart_of_untranslated hc]
      exact globParts_of_untranslated hc (Ne.symm h.1) _

/-! ## §6 Patterns with opening brackets -/

/-- What the parts of a pattern match at all asks for at most so many characters. -/
def Narrow (parts : List PatternPart) (bound : Nat) : Prop :=
  ∀ s, matchesParts parts s = true → width parts ≤ bound

theorem Narrow.mono {bound bound' : Nat} (h : Narrow parts bound) (hle : bound ≤ bound') :
    Narrow parts bound' :=
  fun s hs => (h s hs).trans hle

theorem Narrow.run {bound : Nat} (h : Narrow parts bound) : Narrow (.run :: parts) bound := by
  intro s hs
  rw [matchesParts, List.any_eq_true] at hs
  obtain ⟨rest, -, hrest⟩ := hs
  exact h rest hrest

theorem Narrow.single {bound : Nat} (accepts : Char → Bool) (h : Narrow parts bound) :
    Narrow (.single accepts :: parts) (bound + 1) := by
  intro s hs
  cases s with
  | nil => cases hs
  | cons c s =>
    rw [matchesParts, Bool.and_eq_true] at hs
    exact Nat.succ_le_succ (h s hs.2)

/-- A class that is never closed matches nothing. -/
theorem narrow_never (bound : Nat) : Narrow [.single fun _ => false] bound := by
  intro s hs
  cases s <;> cases hs

/-- The parts of the translation of a pattern ask for no more characters than the pattern does, read
from outside of classes and from within one. -/
structure Narrowed (pattern : List Char) : Prop where
  outside : Narrow (globParts (globChars pattern)) (width (likeParts pattern))
  inside : ∀ negated members low?,
    Narrow (classParts negated members low? (globChars pattern)) (width (likeParts pattern))

theorem width_likeParts_of_untranslated {c : Char} (h : isUntranslated c) (cs : List Char) :
    width (likeParts (c :: cs)) = width (likeParts cs) + 1 := by
  rw [likeParts, List.map_cons, likePart_of_untranslated h, width, likeParts]

/-- What a range leaves of the translation of a pattern: the translation of a rest, perhaps behind
the end of a translated wildcard. -/
theorem rest_of_globChars {cs rest : List Char} {high : Char} (h : globChars cs = high :: rest) :
    ∃ r, r.length ≤ cs.length ∧ (rest = globChars r ∧ width (likeParts r) ≤ width (likeParts cs) ∨
      ∃ c, c ≠ ']' ∧ c ≠ '-' ∧ rest = c :: ']' :: globChars r ∧
        width (likeParts r) + 1 ≤ width (likeParts cs)) := by
  cases cs with
  | nil => cases h
  | cons d r =>
    refine ⟨r, Nat.le_succ _, ?_⟩
    rw [globChars, List.flatMap_cons, ← globChars] at h
    cases d using globChar_cases with
    | star => exact .inr ⟨'*', by decide, by decide, (List.cons.inj h).2.symm, le_refl _⟩
    | mark => exact .inr ⟨'?', by decide, by decide, (List.cons.inj h).2.symm, le_refl _⟩
    | percent => exact .inl ⟨(List.cons.inj h).2.symm, le_refl _⟩
    | underscore => exact .inl ⟨(List.cons.inj h).2.symm, Nat.le_succ _⟩
    | untranslated d hd =>
      rw [globChar_of_untranslated hd] at h
      rw [width_likeParts_of_untranslated hd]
      exact .inl ⟨(List.cons.inj h).2.symm, Nat.le_succ _⟩

/-- A dash within a class: where it makes a range, the end of the range may be the wildcard of a
translated one, whose bracket then ends the class. -/
theorem dash_narrow {cs : List Char} (h : ∀ r : List Char, r.length ≤ cs.length → Narrowed r)
    (negated : Bool) (members : Char → Bool) (low? : Option Char) :
    Narrow (classParts negated members low? ('-' :: globChars cs)) (width (likeParts cs) + 1) := by
  obtain ⟨members', low?', hdash⟩ | ⟨members', high, rest, hcs, -, hrange⟩ :=
    classParts_dash negated members low? (globChars cs)
  · rw [hdash]
    exact ((h cs (le_refl _)).inside negated members' low?').mono (Nat.le_succ _)
  · rw [hrange]
    obtain ⟨r, hr, ⟨rfl, hwidth⟩ | ⟨c, hclose, hdash, rfl, hwidth⟩⟩ := rest_of_globChars hcs
    · exact ((h r hr).inside negated members' none).mono (hwidth.trans (Nat.le_succ _))
    · obtain ⟨accepts, hend⟩ := classParts_escape negated members' none hclose hdash (globChars r)
      rw [hend]
      exact ((h r hr).outside.single accepts).mono (hwidth.trans (Nat.le_succ _))

/-- One character further within a class. -/
theorem inside_step {c : Char} {cs : List Char}
    (h : ∀ r : List Char, r.length ≤ cs.length → Narrowed r) (negated : Bool)
    (members : Char → Bool) (low? : Option Char) :
    Narrow (classParts negated members low? (globChars (c :: cs)))
      (width (likeParts (c :: cs))) := by
  have hrest := h cs (le_refl _)
  -- a translated wildcard has its brackets with it, and the second one ends the class
  have hescape : ∀ {c : Char}, c ≠ ']' → c ≠ '-' →
      Narrow (classParts negated members low? ('[' :: c :: ']' :: globChars cs))
        (width (likeParts cs) + 1) := by
    intro c hclose hdash
    have hopen : '[' ≠ ']' := by decide
    obtain ⟨members', low?', hmember⟩ := classParts_member negated members low? hopen
      (fun h => absurd h (by decide)) (c :: ']' :: globChars cs)
    obtain ⟨accepts, hend⟩ := classParts_escape negated members' low?' hclose hdash (globChars cs)
    rw [hmember, hend]
    exact hrest.outside.single accepts
  have hmember : ∀ {c : Char}, c ≠ ']' → c ≠ '-' →
      Narrow (classParts negated members low? (c :: globChars cs)) (width (likeParts cs)) := by
    intro c hclose hdash
    obtain ⟨members', low?', hmember⟩ :=
      classParts_member negated members low? hclose (fun h => absurd h hdash) (globChars cs)
    rw [hmember]
    exact hrest.inside negated members' low?'
  rw [globChars, List.flatMap_cons, ← globChars]
  cases c using globChar_cases with
  | star => exact hescape (by decide) (by decide)
  | mark => exact hescape (by decide) (by decide)
  | percent => exact hmember (by decide) (by decide)
  | underscore => exact (hmember (by decide) (by decide)).mono (Nat.le_succ _)
  | untranslated c hc =>
    rw [globChar_of_untranslated hc, width_likeParts_of_untranslated hc, List.singleton_append]
    by_cases hclose : c = ']'
    · subst hclose
      rw [classParts_close]
      exact hrest.outside.single _
    by_cases hdash : c = '-'
    · subst hdash
      exact dash_narrow h negated members low?
    · exact (hmember hclose hdash).mono (Nat.le_succ _)

theorem eq_cons_of_globChars {c : Char} {cs rest : List Char} (hc : c = '^' ∨ c = ']')
    (h : globChars cs = c :: rest) : ∃ r, cs = c :: r ∧ rest = globChars r := by
  cases cs with
  | nil => cases h
  | cons d r =>
    rw [globChars, List.flatMap_cons, ← globChars] at h
    cases d using globChar_cases with
    | star | mark | percent | underscore =>
      obtain rfl := (List.cons.inj h).1
      simp at hc
    | untranslated d hd =>
      rw [globChar_of_untranslated hd, List.singleton_append] at h
      obtain ⟨rfl, rfl⟩ := List.cons.inj h
      exact ⟨r, rfl, rfl⟩

theorem width_likeParts_le_cons (c : Char) (cs : List Char) :
    width (likeParts cs) ≤ width (likeParts (c :: cs)) := by
  show width (likeParts cs) ≤ width (likePart c :: likeParts cs)
  cases likePart c with
  | run => exact le_refl _
  | single accepts => exact Nat.le_succ _

/-- An opening bracket begins a class, perhaps with a caret or a bracket in front of the rest. -/
theorem open_narrow {cs : List Char} (h : ∀ r : List Char, r.length ≤ cs.length → Narrowed r) :
    Narrow (globParts ('[' :: globChars cs)) (width (likeParts cs)) := by
  generalize hcs : globChars cs = text
  unfold globParts
  split <;> rename_i heq <;> cases heq
  · obtain ⟨r, rfl, hr⟩ := eq_cons_of_globChars (.inl rfl) hcs
    obtain ⟨r, rfl, rfl⟩ := eq_cons_of_globChars (.inr rfl) hr.symm
    exact ((h r (by simp only [List.length_cons]; omega)).inside _ _ _).mono
      ((width_likeParts_le_cons _ _).trans (width_likeParts_le_cons _ _))
  · obtain ⟨r, rfl, rfl⟩ := eq_cons_of_globChars (.inl rfl) hcs
    exact ((h r (by simp)).inside _ _ _).mono (width_likeParts_le_cons _ _)
  · obtain ⟨r, rfl, rfl⟩ := eq_cons_of_globChars (.inr rfl) hcs
    exact ((h r (by simp)).inside _ _ _).mono (width_likeParts_le_cons _ _)
  · subst hcs
    exact (h cs (le_refl _)).inside _ _ _
  · contradiction

/-- A character other than an opening bracket asks for the same in both languages. -/
theorem plain_step {c : Char} {cs : List Char} {bound : Nat} (hc : c ≠ '[')
    (h : Narrow (globParts (globChars cs)) bound) :
    ∃ bound', Narrow (globParts (globChars (c :: cs))) bound' ∧
      bound' + width (likeParts cs) = bound + width (likeParts (c :: cs)) := by
  have hone : ∀ {c : Char} {accepts : Char → Bool}, likePart c = .single accepts →
      bound + 1 + width (likeParts cs) = bound + width (likeParts (c :: cs)) := by
    intro c accepts hpart
    rw [likeParts, likeParts, List.map_cons, hpart, width]
    omega
  rw [globChars, List.flatMap_cons, ← globChars]
  cases c using globChar_cases with
  | star =>
    have hparts := globParts_escaped (c := '*') (by decide) (by decide) (globChars cs)
    exact ⟨bound + 1, hparts ▸ h.single _, hone rfl⟩
  | mark =>
    have hparts := globParts_escaped (c := '?') (by decide) (by decide) (globChars cs)
    exact ⟨bound + 1, hparts ▸ h.single _, hone rfl⟩
  | percent =>
    rw [globChar, List.singleton_append, globParts]
    exact ⟨bound, h.run, rfl⟩
  | underscore =>
    rw [globChar, List.singleton_append, globParts]
    exact ⟨bound + 1, h.single _, hone rfl⟩
  | untranslated c huntranslated =>
    rw [globChar_of_untranslated huntranslated, List.singleton_append,
      globParts_of_untranslated huntranslated hc]
    exact ⟨bound + 1, h.single _, hone (likePart_of_untranslated huntranslated)⟩

/-- One character further outside of classes. -/
theorem outside_step {c : Char} {cs : List Char}
    (h : ∀ r : List Char, r.length ≤ cs.length → Narrowed r) :
    Narrow (globParts (globChars (c :: cs))) (width (likeParts (c :: cs))) := by
  by_cases hc : c = '['
  · subst hc
    exact (open_narrow h).mono (Nat.le_succ _)
  · obtain ⟨bound, hnarrow, hbound⟩ := plain_step hc (h cs (le_refl _)).outside
    exact hnarrow.mono (by omega)

/-- No translation asks for more characters than the pattern, by induction on the length of the
pattern: a range reads two characters at once. -/
theorem narrowed (pattern : List Char) : Narrowed pattern := by
  induction hn : pattern.length using Nat.strong_induction_on generalizing pattern with
  | _ n ih =>
    subst hn
    cases pattern with
    | nil => exact ⟨fun s _ => le_refl _, fun _ _ _ => narrow_never _⟩
    | cons c cs =>
      have h : ∀ r : List Char, r.length ≤ cs.length → Narrowed r :=
        fun r hr => ih r.length (Nat.lt_succ_of_le hr) r rfl
      exact ⟨outside_step h, inside_step h⟩

/-- An opening bracket takes at least its own character from what the translation asks for. -/
theorem width_globParts_lt {pattern : List Char} (hopen : '[' ∈ pattern) {s : List Char}
    (h : matchesParts (globParts (globChars pattern)) s = true) :
    width (globParts (globChars pattern)) < width (likeParts pattern) := by
  suffices hbound : ∃ bound, Narrow (globParts (globChars pattern)) bound ∧
      bound < width (likeParts pattern) by
    obtain ⟨bound, hnarrow, hlt⟩ := hbound
    exact (hnarrow s h).trans_lt hlt
  clear h
  induction pattern with
  | nil => cases hopen
  | cons c cs ih =>
    by_cases hc : c = '['
    · subst hc
      exact ⟨_, open_narrow fun r _ => narrowed r, Nat.lt_succ_self _⟩
    · have hrest : '[' ∈ cs := List.mem_of_ne_of_mem (Ne.symm hc) hopen
      obtain ⟨bound, hnarrow, hlt⟩ := ih hrest
      obtain ⟨bound', hnarrow', hbound'⟩ := plain_step hc hnarrow
      exact ⟨bound', hnarrow', by omega⟩

/-! ## §7 Meaning -/

/-- The glob that is bound for a like pattern matches the same texts if and only if the pattern
holds no opening bracket. -/
theorem glob_keeps_meaning_iff (options : Options) (pattern : String) :
    ∃ glob, Target.likeBinding ⟨.sqlite, options⟩ (.text pattern) true = .text glob ∧
      ((∀ s, globs glob s = true ↔ likes pattern s = true) ↔ '[' ∉ pattern.toList) := by
  refine ⟨Target.globPattern pattern, rfl, ?_⟩
  constructor
  · intro hsame hopen
    obtain ⟨s, hs⟩ := exists_like pattern.toList
    have hlike : ∀ r : List Char, matchesParts (globParts (globChars pattern.toList)) r = true ↔
        matchesParts (likeParts pattern.toList) r = true := by
      intro r
      have hr := hsame (String.ofList r)
      rwa [globs, likes, toList_globPattern, String.toList_ofList] at hr
    -- the shortest match of the glob is too short for the pattern
    obtain ⟨r, hr, hlength⟩ := exists_match_of_width ((hlike s).2 hs)
    have hle := width_le_of_matches ((hlike r).1 hr)
    have hlt := width_globParts_lt hopen hr
    omega
  · intro hnone s
    rw [globs, likes, toList_globPattern, globParts_globChars hnone]

/-- A name in brackets is not matched by its own pattern. -/
theorem bracketedName_unmatched :
    Target.likeBinding ⟨.sqlite, {}⟩ (.text "[a]") true = .text "[a]" ∧
      likes "[a]" "[a]" = true ∧ globs "[a]" "[a]" = false ∧
      likes "[a]" "a" = false ∧ globs "[a]" "a" = true :=
  ⟨rfl, by decide, by decide, by decide, by decide⟩

end SqlCompiler
