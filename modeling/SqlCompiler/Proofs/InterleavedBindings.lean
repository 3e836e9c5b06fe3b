import SqlCompiler.Inline

/-!
# Interleaved Bindings

A text with its bindings inlined is the text itself, cut at its placeholders, with a binding in
every cut. A reader of SQL finds the placeholders span by span: a quote opens a literal, two quotes
inside of it are part of it, and the next one closes it; outside of literals two question marks in a
row are an operator, and any other one is a placeholder.

Inlining does not read literals that way. Two quotes in a row are passed over wherever they stand,
even when the first one opens a literal. Behind them it is outside where the reader is inside of the
literal that the second one opens next, and so on through any run of quotes; but the texts that both
leave behind are the same.

## Main definitions

- `Span`, `spansFrom`, `spans`: literals, operators and placeholders of a text
- `around`: the texts around the placeholders
- `interleaved`: texts with others between them
- `inlinedAt`: what stands at a placeholder

## Main statements

- `interleaved_question_marks`: with question marks between them, the texts are what was read
- `interleaved_doubled_quote`: two quotes outside of a literal may be passed over
- `interleaved_inlined`: both readers go through a text side by side
- `inlineBindings_interleaves`: a text with its bindings inlined
-/

namespace SqlCompiler

/-! ## §1 Spans -/

/-- A span of SQL, as far as placeholders are concerned. -/
inductive Span where
  /-- A literal with its quotes. One that is never closed ends with the text. -/
  | literal (chars : List Char)
  /-- Two question marks that are an operator. -/
  | operator
  | placeholder
  | sign (c : Char)
deriving DecidableEq, Repr

/-- The text of a span. -/
def Span.written : Span → List Char
  | .literal chars => chars
  | .operator => ['?', '?']
  | .placeholder => ['?']
  | .sign c => [c]

/-- The spans of a text, for a reader who stands in a literal, behind the given characters of it, or
outside of literals. -/
def spansFrom : Option (List Char) → List Char → List Span
  | none, [] => []
  | none, '\'' :: cs => spansFrom (some ['\'']) cs
  | none, '?' :: '?' :: cs => .operator :: spansFrom none cs
  | none, '?' :: cs => .placeholder :: spansFrom none cs
  | none, c :: cs => .sign c :: spansFrom none cs
  | some behind, [] => [.literal behind]
  | some behind, '\'' :: '\'' :: cs => spansFrom (some (behind ++ ['\'', '\''])) cs
  | some behind, '\'' :: cs => .literal (behind ++ ['\'']) :: spansFrom none cs
  | some behind, c :: cs => spansFrom (some (behind ++ [c])) cs

/-- The spans of a text. -/
def spans (sql : String) : List Span :=
  spansFrom none sql.toList

example : spans "a=? '?''?' ???" =
    [.sign 'a', .sign '=', .placeholder, .sign ' ',
      .literal ['\'', '?', '\'', '\'', '?', '\''], .sign ' ', .operator, .placeholder] := by
  decide

/-! ## §2 Texts around placeholders -/

/-- The texts around the placeholders of some spans: in front of the first one, between two of them,
and behind the last one. -/
def around (ss : List Span) : List (List Char) :=
  (ss.splitOn .placeholder).map (·.flatMap Span.written)

/-- Texts with others between them: behind the text with number `i` stands `between i`, but for the
last one. -/
def interleaved (between : Nat → List Char) : List (List Char) → List Char
  | [] => []
  | [text] => text
  | text :: texts => text ++ between 0 ++ interleaved (fun i => between (i + 1)) texts

/-- What stands at the placeholder with number `i`: the binding with that number, or the placeholder
itself if there are not so many. -/
def inlinedAt (bindings : List Value) (i : Nat) : List Char :=
  (bindings[i]?).elim ['?'] fun v => v.inline.toList

section Around

variable (between : Nat → List Char) (ss : List Span)

theorem around_ne_nil : around ss ≠ [] := by
  simp [around]

theorem interleaved_cons (text : List Char) {texts : List (List Char)} (h : texts ≠ []) :
    interleaved between (text :: texts) =
      text ++ between 0 ++ interleaved (fun i => between (i + 1)) texts := by
  obtain ⟨next, texts, rfl⟩ := List.exists_cons_of_ne_nil h
  rfl

theorem interleaved_append_head (cs text : List Char) (texts : List (List Char)) :
    interleaved between ((cs ++ text) :: texts) = cs ++ interleaved between (text :: texts) := by
  cases texts with
  | nil => rfl
  | cons => simp only [interleaved, List.append_assoc]

@[simp] theorem interleaved_nil : interleaved between (around []) = [] := rfl

@[simp] theorem interleaved_placeholder :
    interleaved between (around (.placeholder :: ss)) =
      between 0 ++ interleaved (fun i => between (i + 1)) (around ss) := by
  have hcut : around (.placeholder :: ss) = [] :: around ss := by
    simp [around, List.splitOn_cons_eq_if_modifyHead]
  rw [hcut, interleaved_cons _ _ (around_ne_nil ss), List.nil_append]

/-- Any other span is part of the text that it stands in. -/
theorem interleaved_span {s : Span} (h : s ≠ .placeholder) :
    interleaved between (around (s :: ss)) = s.written ++ interleaved between (around ss) := by
  obtain ⟨run, runs, hruns⟩ := List.exists_cons_of_ne_nil (List.splitOn_ne_nil Span.placeholder ss)
  have hhead : around (s :: ss) =
      (s.written ++ run.flatMap Span.written) :: runs.map (·.flatMap Span.written) := by
    simp [around, List.splitOn_cons_eq_if_modifyHead, h, hruns]
  rw [hhead, interleaved_append_head, around, hruns, List.map_cons]

@[simp] theorem interleaved_literal (chars : List Char) :
    interleaved between (around (.literal chars :: ss)) =
      chars ++ interleaved between (around ss) :=
  interleaved_span between ss Span.noConfusion

@[simp] theorem interleaved_operator :
    interleaved between (around (.operator :: ss)) =
      '?' :: '?' :: interleaved between (around ss) :=
  interleaved_span between ss Span.noConfusion

@[simp] theorem interleaved_sign (c : Char) :
    interleaved between (around (.sign c :: ss)) = c :: interleaved between (around ss) :=
  interleaved_span between ss Span.noConfusion

end Around

/-- With question marks between them, the texts around the placeholders are what was read. -/
theorem interleaved_question_marks (state : Option (List Char)) (cs : List Char) :
    interleaved (fun _ => ['?']) (around (spansFrom state cs)) = state.getD [] ++ cs := by
  fun_induction spansFrom state cs <;> simp_all

/-! ## §3 Both readers -/

/-- The beginning of a literal stays in front of what follows. -/
theorem interleaved_behind (between : Nat → List Char) (front behind cs : List Char) :
    interleaved between (around (spansFrom (some (front ++ behind)) cs)) =
      front ++ interleaved between (around (spansFrom (some behind) cs)) := by
  generalize hstate : some behind = state
  fun_induction spansFrom state cs generalizing behind with
  -- outside of literals nothing stands behind
  | case1 | case2 | case3 | case4 | case5 => cases hstate
  | case6 b =>
    cases hstate
    simp [spansFrom]
  | case7 b cs ih =>
    cases hstate
    rw [spansFrom, List.append_assoc, ih _ rfl]
  | case8 b cs hnext ih =>
    cases hstate
    rw [spansFrom] <;> simp_all
  | case9 b c cs hquote hquotes ih =>
    cases hstate
    rw [spansFrom, List.append_assoc, ih _ rfl] <;> simp_all

/-- Two quotes in a row outside of a literal may be passed over: they are an empty literal, or the
beginning of one that the next quote begins as well. -/
theorem interleaved_doubled_quote (between : Nat → List Char) (cs : List Char) :
    interleaved between (around (spansFrom none ('\'' :: '\'' :: cs))) =
      '\'' :: '\'' :: interleaved between (around (spansFrom none cs)) := by
  rw [spansFrom]
  by_cases hnext : ∃ ds, cs = '\'' :: ds
  · obtain ⟨ds, rfl⟩ := hnext
    exact interleaved_behind between ['\'', '\''] ['\''] ds
  · rw [spansFrom, interleaved_literal]
    · rfl
    · exact fun ds h => hnext ⟨ds, h⟩

/-- A question mark that is not doubled is a placeholder. -/
theorem interleaved_mark (between : Nat → List Char) {cs : List Char} (h : ∀ ds, cs ≠ '?' :: ds) :
    interleaved between (around (spansFrom none ('?' :: cs))) =
      between 0 ++ interleaved (fun i => between (i + 1)) (around (spansFrom none cs)) := by
  rw [spansFrom, interleaved_placeholder]
  exact h

/-- Both readers go through a text side by side: where the one stands in a literal, the other one
does, and the characters that he has read of it are written already. -/
theorem interleaved_inlined (state : Option (List Char)) (bindings : List Value) (cs : List Char)
    (h : ¬ ['\\', '\''] <:+: cs) :
    interleaved (inlinedAt bindings) (around (spansFrom state cs)) =
      state.getD [] ++ inlineChars state.isSome bindings cs := by
  generalize hstate : state.isSome = inLiteral
  fun_induction inlineChars inLiteral bindings cs generalizing state with
  | case1 => cases state <;> simp [spansFrom]
  | case2 _ _ cs => exact absurd (List.prefix_append _ cs).isInfix h
  -- two quotes, where the readers go apart
  | case3 _ bindings cs ih =>
    have hrest := fun hin => h (List.infix_cons (List.infix_cons hin))
    subst hstate
    cases state with
    | none =>
      rw [interleaved_doubled_quote, ih none hrest rfl]
      rfl
    | some behind =>
      rw [spansFrom, ih (some (behind ++ ['\'', '\''])) hrest rfl]
      simp
  -- two question marks
  | case4 _ bindings cs ih =>
    have hrest := fun hin => h (List.infix_cons (List.infix_cons hin))
    subst hstate
    cases state with
    | none =>
      rw [spansFrom, interleaved_operator, ih none hrest rfl]
      rfl
    | some behind =>
      rw [spansFrom, spansFrom, ih (some (behind ++ ['?'] ++ ['?'])) hrest rfl] <;> simp
  -- a single quote opens a literal or closes it
  | case5 _ bindings cs _ hsingle _ ih =>
    have hrest := fun hin => h (List.infix_cons hin)
    subst hstate
    cases state with
    | none =>
      rw [spansFrom, ih (some ['\'']) hrest rfl]
      rfl
    | some behind =>
      rw [spansFrom, interleaved_literal, ih none hrest rfl]
      · simp
      · exact fun ds => hsingle ds rfl
  -- a placeholder, with a binding for it and without
  | case6 _ c cs _ _ hsingle _ hmark v rest ih =>
    have hrest := fun hin => h (List.infix_cons hin)
    obtain ⟨rfl, rfl⟩ := hmark
    obtain rfl : state = none := Option.isNone_iff_eq_none.1 (Option.isSome_eq_false_iff.1 hstate)
    rw [interleaved_mark _ (fun ds => hsingle ds rfl)]
    exact congrArg _ (ih none hrest rfl)
  | case7 _ c cs _ _ hsingle _ hmark ih =>
    have hrest := fun hin => h (List.infix_cons hin)
    obtain ⟨rfl, rfl⟩ := hmark
    obtain rfl : state = none := Option.isNone_iff_eq_none.1 (Option.isSome_eq_false_iff.1 hstate)
    rw [interleaved_mark _ (fun ds => hsingle ds rfl)]
    exact congrArg _ (ih none hrest rfl)
  | case8 _ bindings c cs _ _ _ hquote hmark ih =>
    have hrest := fun hin => h (List.infix_cons hin)
    subst hstate
    cases state with
    | none => rw [spansFrom, interleaved_sign, ih none hrest rfl] <;> simp_all
    | some behind => rw [spansFrom, ih (some (behind ++ [c])) hrest rfl] <;> simp_all

/-- A text in which no quote stands behind a backslash, cut at its placeholders: with question marks
in the cuts it is the text itself, and with the bindings in their order it is the text with its
bindings inlined. Placeholders that no binding is left for stay, and so do the texts around them,
and bindings that no placeholder is left for are not written. -/
theorem inlineBindings_interleaves {sql : String} (h : ¬ ['\\', '\''] <:+: sql.toList)
    (bindings : List Value) :
    interleaved (fun _ => ['?']) (around (spans sql)) = sql.toList ∧
      interleaved (inlinedAt bindings) (around (spans sql)) =
        (inlineBindings sql bindings).toList := by
  constructor
  · exact interleaved_question_marks none sql.toList
  · rw [inlineBindings, String.toList_ofList]
    exact interleaved_inlined none bindings sql.toList h

/-- SQL with quotes in runs of three, an empty literal, question marks of every kind, and more
placeholders than there are bindings. -/
def quotedMarks : String := "a = '''?''' and b = '' and c ?? ? or d = '??' or e = ? or f = ?"

theorem quotedMarks_interleaved :
    around (spans quotedMarks) =
      ["a = '''?''' and b = '' and c ?? ".toList, " or d = '??' or e = ".toList,
        " or f = ".toList, []] ∧
    interleaved (fun _ => ['?']) (around (spans quotedMarks)) = quotedMarks.toList ∧
    inlineBindings quotedMarks [.text "is it?", .null] =
      "a = '''?''' and b = '' and c ?? 'is it?' or d = '??' or e = NULL or f = ?" := by
  have hunescaped : ¬ ['\\', '\''] <:+: quotedMarks.toList := by decide +kernel
  obtain ⟨hmarks, hinlined⟩ := inlineBindings_interleaves hunescaped [.text "is it?", .null]
  refine ⟨by decide +kernel, hmarks, String.toList_inj.1 ?_⟩
  rw [← hinlined]
  decide +kernel

end SqlCompiler
