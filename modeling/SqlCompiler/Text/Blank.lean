/-!
# Blank Characters

Which characters separate words, and the removal of blanks at either end of a text.

## Main definitions

- `isBlank`: the characters of the Unicode property White_Space
- `dropBlanks`: a text without its leading blanks
- `trimEnd`: a text without its trailing blanks
-/

namespace SqlCompiler.Text

/-- A character with the Unicode property White_Space. -/
def isBlank (c : Char) : Bool :=
  let n := c.toNat
  (9 ≤ n && n ≤ 13) || n == 0x20 || n == 0x85 || n == 0xA0 || n == 0x1680 ||
    (0x2000 ≤ n && n ≤ 0x200A) || n == 0x2028 || n == 0x2029 || n == 0x202F ||
    n == 0x205F || n == 0x3000

/-- The characters after the leading blanks. -/
def dropBlanks (cs : List Char) : List Char :=
  cs.dropWhile isBlank

/-- The characters up to the last one that is not blank. -/
def trimEndChars : List Char → List Char
  | [] => []
  | c :: cs =>
    match trimEndChars cs with
    | [] => if isBlank c then [] else [c]
    | kept => c :: kept

/-- A text without its trailing blanks. -/
def trimEnd (s : String) : String :=
  String.ofList (trimEndChars s.toList)

/-- Trailing blanks of two texts in a row: those of the first one count only if nothing is left of
the second one. -/
theorem trimEndChars_append (as bs : List Char) :
    trimEndChars (as ++ bs) =
      if trimEndChars bs = [] then trimEndChars as else as ++ trimEndChars bs := by
  induction as with
  | nil =>
    by_cases h : trimEndChars bs = []
    · rw [if_pos h]
      exact h
    · rw [if_neg h]
      rfl
  | cons a as ih =>
    rw [List.cons_append, trimEndChars, ih]
    by_cases h : trimEndChars bs = []
    · rw [if_pos h, if_pos h, trimEndChars]
    · rw [if_neg h, if_neg h]
      cases hrest : as ++ trimEndChars bs with
      | nil => exact absurd (List.append_eq_nil_iff.1 hrest).2 h
      | cons c cs => rw [List.cons_append, hrest]

end SqlCompiler.Text
