import SqlCompiler.Proofs.PathLiterals

/-!
# Conventions of Literals

A quote inside of a literal is written twice. Some readers know only this convention, for others a
backslash also escapes the character behind it. The literal of a path has to end at its last quote
for both of them.

The backslashes in front of a quote are dropped before the path is cut into steps. Cutting and
joining put nothing but double quotes, brackets and dots next to what was cut, so that no backslash
comes to stand in front of a quote again, and the last quote stands behind a double quote or a
bracket.

## Main definitions

- `Escaping`: the two conventions
- `Escaping.behindLiteral?`: where a reader stands behind the literal that a text begins with
- `dropEscapes`: a text without the backslashes in front of its quotes
- `writtenPath`: the JSON path in the literal of a path

## Main statements

- `behindBody?_doubleChars`: when a text with doubled quotes ends at the quote behind it
- `toList_jsonPath_written`: the literal of any path
- `jsonPath_one_literal`: the literal of a path is one literal under both conventions
-/

namespace SqlCompiler

/-! ## §1 Readers of literals -/

/-- What a reader takes for an escape inside of a literal. -/
inductive Escaping where
  /-- Nothing but a doubled quote. -/
  | quotes
  /-- A doubled quote, and a backslash with the character behind it. -/
  | backslashes
deriving DecidableEq, Repr

namespace Escaping

/-- What stands behind a literal, for a reader who stands behind its opening quote or further
inside of it. There is nothing if the literal is not closed. -/
def behindBody? (e : Escaping) : List Char → Option (List Char)
  | [] => none
  | [c] => if c = '\'' then some [] else none
  | c :: next :: cs =>
    if c = '\'' then
      if next = '\'' then behindBody? e cs else some (next :: cs)
    else if e = .backslashes ∧ c = '\\' then behindBody? e cs
    else behindBody? e (next :: cs)

/-- What stands behind the literal that a text begins with. -/
def behindLiteral? (e : Escaping) : List Char → Option (List Char)
  | [] => none
  | c :: cs => if c = '\'' then e.behindBody? cs else none

end Escaping

example : Escaping.quotes.behindLiteral? "'it''s' || x".toList = some " || x".toList := by decide

example : Escaping.quotes.behindLiteral? "'it\\'s'".toList = some "s'".toList := by decide

example : Escaping.backslashes.behindLiteral? "'it\\'s'".toList = some [] := by decide

/-- A plain character leaves a reader inside of the literal. -/
theorem behindBody?_cons {e : Escaping} {c : Char} {cs : List Char} (hquote : c ≠ '\'')
    (hescape : e = .backslashes → c ≠ '\\') (hcs : cs ≠ []) :
    e.behindBody? (c :: cs) = e.behindBody? cs := by
  obtain ⟨next, rest, rfl⟩ := List.exists_cons_of_ne_nil hcs
  have hplain : ¬ (e = .backslashes ∧ c = '\\') := fun h => hescape h.1 h.2
  rw [Escaping.behindBody?, if_neg hquote, if_neg hplain]

/-- A text with doubled quotes ends at the quote behind it. Where backslashes escape, none may stand
in front of a quote, be it the one behind the text. -/
theorem behindBody?_doubleChars (e : Escaping) {text : List Char}
    (h : ¬ ['\\', '\''] <:+: text ++ ['\'']) {rest : List Char} (hrest : rest.head? ≠ some '\'') :
    e.behindBody? (Text.doubleChars '\'' text ++ '\'' :: rest) = some rest := by
  -- an escape takes two characters at once, so that the induction is on the length
  induction hn : text.length using Nat.strong_induction_on generalizing text with
  | _ n ih =>
    have hshorter : ∀ tail : List Char, tail.length < text.length → tail <:+ text →
        e.behindBody? (Text.doubleChars '\'' tail ++ '\'' :: rest) = some rest := by
      intro tail hlength htail
      refine ih tail.length (hn ▸ hlength) (fun hin => h ?_) rfl
      exact hin.trans (List.suffix_append_self_iff.2 htail).isInfix
    cases text with
    | nil =>
      cases rest with
      | nil => rfl
      | cons next rest =>
        have hnext : next ≠ '\'' := fun heq => hrest (congrArg some heq)
        simp [Text.doubleChars, Escaping.behindBody?, hnext]
    | cons c tail =>
      have htail := hshorter tail (by simp) (List.suffix_cons c tail)
      by_cases hquote : c = '\''
      · subst hquote
        rw [Text.doubleChars_cons, if_pos rfl]
        simpa [Escaping.behindBody?] using htail
      · rw [Text.doubleChars_cons, if_neg hquote, List.append_assoc, List.singleton_append]
        by_cases hescape : e = .backslashes ∧ c = '\\'
        · -- the escaped character is there, and is no quote
          obtain ⟨rfl, rfl⟩ := hescape
          cases tail with
          | nil => exact absurd List.infix_rfl h
          | cons next tail =>
            have hnext : next ≠ '\'' := by
              rintro rfl
              exact h (List.prefix_append ['\\', '\''] (tail ++ ['\''])).isInfix
            have hbehind := hshorter tail (by simp only [List.length_cons]; omega)
              ((List.suffix_cons next tail).trans (List.suffix_cons '\\' _))
            rw [Text.doubleChars_cons, if_neg hnext]
            simpa [Escaping.behindBody?] using hbehind
        · rw [behindBody?_cons hquote (fun he hc => hescape ⟨he, hc⟩) (by simp)]
          exact htail

/-! ## §2 Backslashes in front of quotes -/

/-- A text without the backslashes in front of its quotes. -/
def dropEscapes : List Char → List Char
  | [] => []
  | c :: cs =>
    if c = '\\' ∧ (cs.dropWhile (· = '\\')).head? = some '\'' then dropEscapes cs
    else c :: dropEscapes cs

/-- The quotes are doubled once the backslashes are dropped. -/
theorem escapeQuotes_eq (cs : List Char) :
    escapeQuotes cs = Text.doubleChars '\'' (dropEscapes cs) := by
  induction cs with
  | nil => rfl
  | cons c cs ih =>
    rw [escapeQuotes, dropEscapes, ih]
    by_cases hquote : c = '\''
    · subst hquote
      simp [Text.doubleChars_cons]
    · rw [if_neg hquote]
      split
      · rfl
      · rw [Text.doubleChars_cons, if_neg hquote, List.singleton_append]

/-- What is left begins with a quote only if nothing but backslashes stood in front of it. -/
theorem head_dropWhile_of_dropEscapes {cs : List Char}
    (h : (dropEscapes cs).head? = some '\'') : (cs.dropWhile (· = '\\')).head? = some '\'' := by
  induction cs with
  | nil => exact h
  | cons c cs ih =>
    rw [dropEscapes] at h
    split at h
    · rename_i hdropped
      rw [hdropped.1, List.dropWhile_cons_of_pos (by simp)]
      exact hdropped.2
    · obtain rfl : c = '\'' := by simpa using h
      rw [List.dropWhile_cons_of_neg (by simp)]
      rfl

/-- No backslash is left in front of a quote. -/
theorem not_infix_dropEscapes (cs : List Char) : ¬ ['\\', '\''] <:+: dropEscapes cs := by
  induction cs with
  | nil => decide
  | cons c cs ih =>
    rw [dropEscapes]
    split
    · exact ih
    · rename_i hkept
      intro hin
      rcases List.infix_cons_iff.1 hin with hfirst | hin
      · obtain ⟨hc, htail⟩ := List.cons_prefix_cons.1 hfirst
        -- a backslash that is kept has no quote behind its backslashes
        obtain ⟨more, hmore⟩ := htail
        refine hkept ⟨hc.symm, head_dropWhile_of_dropEscapes ?_⟩
        rw [← hmore]
        rfl
      · exact ih hin

/-- A path has the literal of the path without backslashes in front of its quotes. -/
theorem jsonPath_dropEscapes (path : String) :
    jsonPath (String.ofList (dropEscapes path.toList)) = jsonPath path := by
  unfold jsonPath jsonPathOn
  rw [String.toList_ofList, escapeQuotes_eq_doubleChars (not_infix_dropEscapes _),
    ← escapeQuotes_eq]

/-- The JSON path in the literal of a path. -/
def writtenPath (path : String) : List Char :=
  pathText (Text.splitOnChars arrow.toList (dropEscapes path.toList))

/-- The literal of a path is its JSON path with the quotes doubled. -/
theorem toList_jsonPath_written (path : String) :
    (jsonPath path).toList = '\'' :: Text.doubleChars '\'' (writtenPath path) ++ ['\''] := by
  have hescape : ¬ ['\\', '\''] <:+: (String.ofList (dropEscapes path.toList)).toList := by
    rw [String.toList_ofList]
    exact not_infix_dropEscapes _
  rw [← jsonPath_dropEscapes, toList_jsonPath hescape, writtenPath, Text.splitOn, List.map_map,
    String.toList_ofList]
  simp [Function.comp_def]

theorem lex_jsonPath (d : Dialect) (path : String) :
    d.lex (jsonPath path) = some [.quoted .literal (writtenPath path)] := by
  refine lex_of_spelling ?_ (readable_quoted .literal _)
  rw [toList_jsonPath_written, List.flatMap_singleton]
  rfl

/-! ## §3 Literals of paths -/

/-- A step of a JSON path ends in a double quote or a bracket. -/
theorem pathStep_eq_concat (step : List Char) :
    ∃ init last, pathStep step = init ++ [last] ∧ (last = '"' ∨ last = ']') := by
  have hbracketed : ∀ indices : List (List Char), indices ≠ [] →
      ∃ init, bracketed indices = init ++ [']'] := by
    intro indices hne
    obtain ⟨init, last, rfl⟩ := (List.eq_nil_or_concat indices).resolve_left hne
    exact ⟨bracketed init ++ '[' :: last, by simp [bracketed]⟩
  unfold pathStep
  generalize splitIndices step = parts
  obtain ⟨key, indices⟩ := parts
  by_cases hindices : indices = []
  · subst hindices
    exact ⟨'"' :: key, '"', by simp [bracketed], .inl rfl⟩
  · obtain ⟨init, hinit⟩ := hbracketed indices hindices
    dsimp only
    split
    · exact ⟨init, ']', hinit, .inr rfl⟩
    · exact ⟨'"' :: key ++ '"' :: init, ']', by simp [hinit], .inr rfl⟩

/-- A step of a JSON path has no backslash in front of a quote if the step has none. -/
theorem not_infix_pathStep {step : List Char} (h : ¬ ['\\', '\''] <:+: step) :
    ¬ ['\\', '\''] <:+: pathStep step := by
  have hstep := key_append_bracketed step
  unfold pathStep
  generalize splitIndices step = parts at hstep
  obtain ⟨key, indices⟩ := parts
  dsimp only at hstep ⊢
  have hkey : ¬ ['\\', '\''] <:+: key := fun hin =>
    h (hstep ▸ hin.trans (List.prefix_append key _).isInfix)
  have hindices : ¬ ['\\', '\''] <:+: bracketed indices := fun hin =>
    h (hstep ▸ hin.trans (List.suffix_append key _).isInfix)
  split
  · exact hindices
  · intro hin
    rw [List.cons_append] at hin
    -- the double quotes around the key are no part of an escape
    have hinner := Text.infix_of_infix_cons (by decide) hin
    rcases Text.infix_append_cons (by decide) hinner with hin | hin
    · exact hkey hin
    · exact hindices hin

/-- A JSON path has no backslash in front of a quote if its steps have none, nor would it have one
in front of a quote behind it. -/
theorem not_infix_pathText {steps : List (List Char)} (hne : steps ≠ [])
    (h : ∀ step ∈ steps, ¬ ['\\', '\''] <:+: step) :
    ¬ ['\\', '\''] <:+: pathText steps ++ ['\''] := by
  have hjoined : ¬ ['\\', '\''] <:+: Text.joinChars ['.'] (steps.map pathStep) := by
    intro hin
    obtain ⟨piece, hpiece, hin⟩ := Text.infix_of_joinChars (by decide) (by decide) hin
    obtain ⟨step, hstep, rfl⟩ := List.mem_map.1 hpiece
    exact not_infix_pathStep (h step hstep) hin
  -- the last step ends in a mark, so that the closing quote is not escaped
  obtain ⟨init, last, hlast, hmark⟩ : ∃ init last,
      Text.joinChars ['.'] (steps.map pathStep) = init ++ [last] ∧ (last = '"' ∨ last = ']') := by
    obtain ⟨others, step, rfl⟩ := (List.eq_nil_or_concat steps).resolve_left hne
    obtain ⟨init, last, hstep, hmark⟩ := pathStep_eq_concat step
    rw [List.concat_eq_append, List.map_append, List.map_singleton, Text.joinChars_concat, hstep,
      ← List.append_assoc]
    exact ⟨_, last, rfl, hmark⟩
  have hclosed : ¬ ['\\', '\''] <:+: Text.joinChars ['.'] (steps.map pathStep) ++ ['\''] := by
    intro hin
    rw [hlast, List.append_assoc, List.singleton_append] at hin
    have hmark : last ∉ ['\\', '\''] := by
      rcases hmark with rfl | rfl <;> decide
    rcases Text.infix_append_cons hmark hin with hin | hin
    · exact hjoined (hlast ▸ hin.trans (List.prefix_append init [last]).isInfix)
    · exact absurd hin (by decide)
  unfold pathText
  dsimp only
  split
  · exact fun hin => hclosed (Text.infix_of_infix_cons (by decide) hin)
  · exact fun hin => hclosed
      (Text.infix_of_infix_cons (by decide) (Text.infix_of_infix_cons (by decide) hin))

theorem not_infix_writtenPath (path : String) :
    ¬ ['\\', '\''] <:+: writtenPath path ++ ['\''] := by
  refine not_infix_pathText (Text.splitOnChars_ne_nil _ _) fun step hstep hin => ?_
  have hpiece : step <:+: dropEscapes path.toList := by
    have harrow : arrow.toList ≠ [] := by decide
    rw [← Text.joinChars_splitOnChars harrow (dropEscapes path.toList)]
    exact Text.infix_joinChars hstep
  exact not_infix_dropEscapes _ (hin.trans hpiece)

/-- The literal of a path is one literal and nothing more, whatever the path is made of. Every
dialect, where a quote is doubled, reads the JSON path in it; and whichever escapes a reader knows,
nothing is left behind the literal. -/
theorem jsonPath_one_literal (path : String) :
    (∀ d : Dialect, d.lex (jsonPath path) = some [.quoted .literal (writtenPath path)]) ∧
    ∀ e : Escaping, e.behindLiteral? (jsonPath path).toList = some [] := by
  refine ⟨fun d => lex_jsonPath d path, fun e => ?_⟩
  rw [toList_jsonPath_written]
  exact behindBody?_doubleChars e (not_infix_writtenPath path) (by simp)

example : jsonPath "it\\'s\\->a\\[0]" = "'$.\"it''s\\\".\"a\\\"[0]'" := by decide +kernel

end SqlCompiler
