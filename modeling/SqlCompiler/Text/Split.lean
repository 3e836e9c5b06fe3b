/-!
# Cutting and Joining Texts

Texts cut at the occurrences of a separator, and put together again.

## Main definitions

- `splitOn`: all pieces between the occurrences of a separator, found from the left
- `splitFirst?`, `splitLast?`: the two sides of the first and of the last occurrence
- `join`: pieces with a separator between neighbours
- `replaceAll`: every occurrence of a text replaced
- `double`: a text in which one character is written twice
-/

namespace SqlCompiler.Text

/-! ## §1 Pieces between separators -/

/-- Puts a character in front of the first piece. -/
def consHead (c : Char) : List (List Char) → List (List Char)
  | [] => [[c]]
  | piece :: pieces => (c :: piece) :: pieces

/-- The pieces between the occurrences of a non-empty separator; `skip` counts the characters of
an occurrence that are still to be passed over. -/
def splitFrom (sep : List Char) : Nat → List Char → List (List Char)
  | _, [] => [[]]
  | skip + 1, _ :: cs => splitFrom sep skip cs
  | 0, c :: cs =>
    if sep.isPrefixOf (c :: cs) then [] :: splitFrom sep (sep.length - 1) cs
    else consHead c (splitFrom sep 0 cs)

/-- The pieces between the occurrences of a separator, found from the left without overlap. The
empty separator occurs before and after every character. -/
def splitOnChars (sep cs : List Char) : List (List Char) :=
  if sep.isEmpty then [[]] ++ cs.map ([·]) ++ [[]] else splitFrom sep 0 cs

/-- The pieces of a text between the occurrences of a separator. -/
def splitOn (sep s : String) : List String :=
  (splitOnChars sep.toList s.toList).map String.ofList

/-! ## §2 The first and the last occurrence -/

/-- What stands before and after the first occurrence of a separator. -/
def splitFirstChars? (sep : List Char) : List Char → Option (List Char × List Char)
  | [] => if sep.isEmpty then some ([], []) else none
  | c :: cs =>
    if sep.isPrefixOf (c :: cs) then some ([], (c :: cs).drop sep.length)
    else (splitFirstChars? sep cs).map fun (before, after) => (c :: before, after)

/-- What stands before and after the first occurrence of a separator. -/
def splitFirst? (sep s : String) : Option (String × String) :=
  (splitFirstChars? sep.toList s.toList).map fun (before, after) =>
    (String.ofList before, String.ofList after)

/-- What stands before and after the last occurrence of a separator. -/
def splitLastChars? (sep : List Char) : List Char → Option (List Char × List Char)
  | [] => if sep.isEmpty then some ([], []) else none
  | c :: cs =>
    match splitLastChars? sep cs with
    | some (before, after) => some (c :: before, after)
    | none =>
      if sep.isPrefixOf (c :: cs) then some ([], (c :: cs).drop sep.length) else none

/-- What stands before and after the last occurrence of a separator. -/
def splitLast? (sep s : String) : Option (String × String) :=
  (splitLastChars? sep.toList s.toList).map fun (before, after) =>
    (String.ofList before, String.ofList after)

/-- What stands after the last occurrence of a separator; the whole text where there is none. -/
def afterLast (sep s : String) : String :=
  match splitLast? sep s with
  | some (_, after) => after
  | none => s

/-! ## §3 Joining and replacing -/

/-- Pieces with a separator between neighbours. -/
def joinChars (sep : List Char) : List (List Char) → List Char
  | [] => []
  | [piece] => piece
  | piece :: pieces => piece ++ sep ++ joinChars sep pieces

/-- Pieces with a separator between neighbours. -/
def join (sep : String) (pieces : List String) : String :=
  String.ofList (joinChars sep.toList (pieces.map String.toList))

/-- A text in which every occurrence of `old` is replaced by `new`. -/
def replaceAll (old new s : String) : String :=
  join new (splitOn old s)

/-- A text in which one character is written twice. -/
def doubleChars (mark : Char) (cs : List Char) : List Char :=
  cs.flatMap fun c => if c = mark then [c, c] else [c]

/-- A text in which one character is written twice. -/
def double (mark : Char) (s : String) : String :=
  String.ofList (doubleChars mark s.toList)

/-! ## §4 Small laws -/

theorem splitFrom_ne_nil (sep : List Char) (skip : Nat) (cs : List Char) :
    splitFrom sep skip cs ≠ [] := by
  fun_induction splitFrom sep skip cs with
  | case1 => simp
  | case2 _ _ _ ih => exact ih
  | case3 => simp
  | case4 c cs _ ih => cases h : splitFrom sep 0 cs <;> simp [consHead]

theorem splitOnChars_ne_nil (sep cs : List Char) : splitOnChars sep cs ≠ [] := by
  unfold splitOnChars
  split
  · simp
  · exact splitFrom_ne_nil sep 0 cs

/-- A text is cut into at least one piece. -/
theorem splitOn_ne_nil (sep s : String) : splitOn sep s ≠ [] := by
  unfold splitOn
  simpa using splitOnChars_ne_nil sep.toList s.toList

/-- Joining the pieces with the separator gives the text back. -/
theorem joinChars_splitOnChars {sep : List Char} (hsep : sep ≠ []) (cs : List Char) :
    joinChars sep (splitOnChars sep cs) = cs := by
  have key : ∀ skip cs, joinChars sep (splitFrom sep skip cs) = cs.drop skip := by
    intro skip cs
    fun_induction splitFrom sep skip cs with
    | case1 => simp [joinChars]
    | case2 skip c cs ih => simpa using ih
    | case3 c cs h ih =>
      obtain ⟨t, ht⟩ := List.isPrefixOf_iff_prefix.1 h
      cases hs : splitFrom sep (sep.length - 1) cs with
      | nil => exact absurd hs (splitFrom_ne_nil _ _ _)
      | cons piece pieces =>
        rw [hs] at ih
        have hlen : sep.length = sep.length - 1 + 1 := by
          have := List.length_pos_iff.2 hsep
          omega
        have hdrop : cs.drop (sep.length - 1) = t := by
          have := congrArg (List.drop sep.length) ht
          rw [List.drop_left] at this
          rw [this, hlen, List.drop_succ_cons, ← hlen]
        simp only [joinChars, List.nil_append, ih, hdrop, ht, List.drop_zero]
    | case4 c cs h ih =>
      cases hs : splitFrom sep 0 cs with
      | nil => exact absurd hs (splitFrom_ne_nil _ _ _)
      | cons piece pieces =>
        rw [hs] at ih
        cases pieces <;> simp_all [consHead, joinChars]
  unfold splitOnChars
  simp only [List.isEmpty_iff, hsep, ↓reduceIte]
  simpa using key 0 cs

end SqlCompiler.Text
