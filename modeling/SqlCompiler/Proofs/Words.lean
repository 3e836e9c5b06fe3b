import Mathlib.Tactic.SplitIfs
import SqlCompiler.Text.Blank

/-!
# Words of a Text

SQL outside of quotes is read word by word: words end at blanks and at parentheses, and every
parenthesis is a word of its own. What the words of a text are is known part by part, as long as no
word goes on behind the part.

## Main definitions

- `Word`, `wordsOf`: the words of a text
- `HasWords`: a text has the given words wherever a word ends behind it

## Main statements

- `hasWords_plain`, `hasWords_nat`: texts of one word
- `HasWords.blank`, `HasWords.parentheses`: texts in a row, and a text in parentheses
-/

namespace SqlCompiler

/-- A word of a text. -/
inductive Word where
  | plain (text : String)
  | opening
  | closing
deriving DecidableEq, Repr

/-- The characters at which words end. -/
def endsWord (c : Char) : Bool :=
  c == '(' || c == ')' || Text.isBlank c

/-- Whether no word ends within a text. -/
def isUnbroken (s : String) : Bool :=
  s.toList.all fun c => !endsWord c

/-- A word whose characters have been read, in reverse, in front of the words behind it. -/
def finishWord (current : List Char) (rest : List Word) : List Word :=
  if current.isEmpty then rest else .plain (String.ofList current.reverse) :: rest

theorem finishWord_nil (rest : List Word) : finishWord [] rest = rest :=
  rfl

/-- The words of a text behind the given characters of a word, which are in reverse. -/
def wordsFrom (current : List Char) : List Char → List Word
  | [] => finishWord current []
  | c :: cs =>
    if c = '(' then finishWord current (.opening :: wordsFrom [] cs)
    else if c = ')' then finishWord current (.closing :: wordsFrom [] cs)
    else if Text.isBlank c then finishWord current (wordsFrom [] cs)
    else wordsFrom (c :: current) cs

/-- The words of a text. -/
def wordsOf (s : String) : List Word :=
  wordsFrom [] s.toList

example : wordsOf "a or not (b and c)" =
    [.plain "a", .plain "or", .plain "not", .opening, .plain "b", .plain "and", .plain "c",
      .closing] := by decide

/-! ## §1 Characters of words -/

/-- No word goes on with the text. -/
def StartsApart (cs : List Char) : Prop :=
  ∀ c ∈ cs.head?, endsWord c = true

/-- The characters of a word are gathered up to its end. -/
theorem wordsFrom_append {word : List Char} (h : ∀ c ∈ word, endsWord c = false)
    (current cs : List Char) :
    wordsFrom current (word ++ cs) = wordsFrom (word.reverse ++ current) cs := by
  induction word generalizing current with
  | nil => rfl
  | cons c word ih =>
    obtain ⟨hc, hrest⟩ := List.forall_mem_cons.1 h
    simp only [endsWord, Bool.or_eq_false_iff, beq_eq_false_iff_ne] at hc
    rw [List.cons_append, wordsFrom, if_neg hc.1.1, if_neg hc.1.2, if_neg (by simp [hc.2]),
      ih hrest, List.reverse_cons, List.append_assoc, List.singleton_append]

/-- A word ends where the text behind it starts apart. -/
theorem wordsFrom_finish {cs : List Char} (h : StartsApart cs) (current : List Char) :
    wordsFrom current cs = finishWord current (wordsFrom [] cs) := by
  cases cs with
  | nil => rfl
  | cons c cs =>
    have hc : endsWord c = true := h c rfl
    simp only [endsWord, Bool.or_eq_true, beq_iff_eq] at hc
    rw [wordsFrom, wordsFrom]
    -- whichever character ends the word, the rest is read from its beginning
    split_ifs <;> simp_all [finishWord]

/-! ## §2 Texts -/

/-- A text has the given words wherever no word goes on behind it. -/
def HasWords (s : String) (words : List Word) : Prop :=
  ∀ cs, StartsApart cs → wordsFrom [] (s.toList ++ cs) = words ++ wordsFrom [] cs

theorem HasWords.wordsOf {s : String} {words : List Word} (h : HasWords s words) :
    wordsOf s = words := by
  have hend := h [] fun c hc => by cases hc
  rwa [List.append_nil, wordsFrom, finishWord_nil, List.append_nil] at hend

theorem hasWords_empty : HasWords "" [] :=
  fun _ _ => rfl

/-- A text without blanks and parentheses is a word. -/
theorem hasWords_plain {s : String} (hs : s ≠ "") (h : isUnbroken s = true) :
    HasWords s [.plain s] := by
  intro cs hcs
  have hchars : ∀ c ∈ s.toList, endsWord c = false := by
    simpa only [isUnbroken, List.all_eq_true, Bool.not_eq_true'] using h
  have hne : s.toList.reverse.isEmpty = false := by
    simpa [List.isEmpty_eq_false_iff] using hs
  rw [wordsFrom_append hchars, List.append_nil, wordsFrom_finish hcs, finishWord, hne]
  simp

theorem hasWords_nat (n : Nat) : HasWords (toString n) [.plain (toString n)] := by
  refine hasWords_plain ?_ (List.all_eq_true.2 fun c hc => ?_)
  · rw [Nat.toString_eq_repr]
    exact Nat.repr_ne_empty
  · rw [Nat.toString_eq_repr, Nat.repr, String.toList_ofList] at hc
    have hdigit : c.isDigit = true := Nat.isDigit_of_mem_toDigits (by decide) (by decide) hc
    -- digits are apart from the characters at which words end by their codes
    have hrange : 48 ≤ c.toNat ∧ c.toNat ≤ 57 := by
      simpa [Char.isDigit, UInt32.le_iff_toNat_le] using hdigit
    have hne : ∀ mark : Char, mark.toNat < 48 → c ≠ mark := by
      rintro mark hmark rfl
      omega
    simp only [endsWord, Bool.not_eq_true', Bool.or_eq_false_iff, beq_eq_false_iff_ne]
    refine ⟨⟨hne '(' (by decide), hne ')' (by decide)⟩, ?_⟩
    simp only [Text.isBlank, Bool.or_eq_false_iff, Bool.and_eq_false_iff, decide_eq_false_iff_not,
      beq_eq_false_iff_ne]
    omega

/-- Texts in a row with a blank between them. -/
theorem HasWords.blank {a b : String} {ws us : List Word} (ha : HasWords a ws)
    (hb : HasWords b us) : HasWords (a ++ " " ++ b) (ws ++ us) := by
  intro cs hcs
  -- the blank ends the last word of the first text and is none itself
  have hblank : wordsFrom [] (' ' :: (b.toList ++ cs)) = wordsFrom [] (b.toList ++ cs) := by
    rw [wordsFrom]
    rfl
  have hsplit : (a ++ " " ++ b).toList ++ cs = a.toList ++ ' ' :: (b.toList ++ cs) := by
    simp
  have hapart : StartsApart (' ' :: (b.toList ++ cs)) := by
    intro c hc
    obtain rfl := Option.some.inj hc
    decide
  rw [hsplit, ha _ hapart, hblank, hb cs hcs, List.append_assoc]

/-- A text in parentheses. -/
theorem HasWords.parentheses {a : String} {ws : List Word} (ha : HasWords a ws) :
    HasWords ("(" ++ a ++ ")") (.opening :: ws ++ [.closing]) := by
  intro cs hcs
  have hsplit : ("(" ++ a ++ ")").toList ++ cs = '(' :: (a.toList ++ ')' :: cs) := by
    simp
  have hapart : StartsApart (')' :: cs) := by
    intro c hc
    obtain rfl := Option.some.inj hc
    decide
  have hclose : wordsFrom [] (')' :: cs) = .closing :: wordsFrom [] cs := by
    rw [wordsFrom]
    rfl
  rw [hsplit, wordsFrom, if_pos rfl, finishWord_nil, ha _ hapart, hclose]
  simp

end SqlCompiler
