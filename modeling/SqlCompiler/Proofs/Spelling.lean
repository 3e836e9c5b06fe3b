import SqlCompiler.Proofs.Lexing
import SqlCompiler.Proofs.Occurrences

/-!
# Spelling of Tokens

What tokens look like when they are written one after the other, and whether a reader finds the
same tokens again. A quoted text is over only if no further quote follows it; a sign is over in any
case.

A writer who does not double the quotes in literals still writes every token as it is spelled if no
literal has a quote in it, and only then.

## Main definitions

- `Lexeme.spelling`: a token as it is written
- `Lexeme.undoubled`: a token as it is written if quotes in literals are not doubled
- `Readable`, `Finished`: tokens that are read again in front of no quote, and of anything

## Main statements

- `spelling_of_lex`: a text is its tokens as they are written
- `readable_quoted`, `Readable.append`, `Readable.append_signs`: how readable tokens are put
  together
- `lex_undoubled_iff`: when a text without doubled quotes has the tokens that are meant
-/

namespace SqlCompiler

variable {d : Dialect} {tokens more : List Lexeme}

/-! ## §1 Written tokens -/

/-- The character that opens a quote. -/
def Quote.opening (d : Dialect) : Quote → Char
  | .literal => '\''
  | .identifier => d.openQuote

/-- A token as it is written. -/
def Lexeme.spelling (d : Dialect) : Lexeme → List Char
  | .quoted quote text =>
    quote.opening d :: Text.doubleChars (quote.closing d) text ++ [quote.closing d]
  | .sign c => [c]

/-- What has been read of a text when the lexer stands in a quote. -/
def openedSpelling (d : Dialect) : Option (Quote × List Char) → List Char
  | none => []
  | some (quote, text) =>
    quote.opening d :: Text.doubleChars (quote.closing d) text.reverse

theorem opening_of_quoteAt? {c : Char} {quote : Quote} (h : d.quoteAt? c = some quote) :
    quote.opening d = c := by
  unfold Dialect.quoteAt? at h
  split at h
  · cases h
    exact (‹c = '\''›).symm
  · split at h
    · cases h
      exact (‹c = d.openQuote›).symm
    · cases h

/-- A quote is opened by its own character. -/
theorem quoteAt?_opening (d : Dialect) (quote : Quote) :
    d.quoteAt? (quote.opening d) = some quote := by
  cases quote <;> cases d <;> rfl

/-- What is read, spelled again, is the text, the part of an open quote included. -/
theorem spelling_of_lexFrom (inQuote : Option (Quote × List Char)) (cs : List Char)
    {tokens : List Lexeme} (h : d.lexFrom inQuote cs = some tokens) :
    openedSpelling d inQuote ++ cs = tokens.flatMap (Lexeme.spelling d) := by
  fun_induction Dialect.lexFrom d inQuote cs generalizing tokens with
  | case1 => cases h; rfl
  | case2 c cs quote hquote ih =>
    rw [← ih h]
    simp [openedSpelling, Text.doubleChars, opening_of_quoteAt? hquote]
  | case3 => cases h
  | case4 c cs _ _ ih =>
    obtain ⟨rest, hrest, rfl⟩ := Option.map_eq_some_iff.1 h
    have hcs := ih hrest
    simp_all [openedSpelling, Lexeme.spelling]
  | case5 => cases h
  | case6 quote text =>
    cases h
    simp [openedSpelling, Lexeme.spelling]
  | case7 => cases h
  | case8 quote text c next cs hclose ih =>
    rw [← ih h]
    simp [openedSpelling, Text.doubleChars, hclose]
  | case9 quote text c cs hclose ih =>
    rw [← ih h]
    simp_all [openedSpelling, Text.doubleChars]
  | case10 quote text c next cs hclose _ ih =>
    obtain ⟨rest, hrest, rfl⟩ := Option.map_eq_some_iff.1 h
    have hcs := ih hrest
    simp_all [openedSpelling, Lexeme.spelling]

/-- A text is its tokens as they are written. -/
theorem spelling_of_lex {sql : String} (h : d.lex sql = some tokens) :
    sql.toList = tokens.flatMap (Lexeme.spelling d) := by
  simpa [openedSpelling] using spelling_of_lexFrom none sql.toList h

/-! ## §2 Readable tokens -/

/-- A text that does not begin with a quote which could double another one. -/
def NoQuoteFirst (d : Dialect) (cs : List Char) : Prop :=
  ∀ quote : Quote, cs.head? ≠ some (quote.closing d)

/-- Tokens that are read again where they are written, if no quote follows them. -/
def Readable (d : Dialect) (tokens : List Lexeme) : Prop :=
  ∀ rest, NoQuoteFirst d rest → d.lexFrom none (tokens.flatMap (Lexeme.spelling d) ++ rest) =
    (d.lexFrom none rest).map (tokens ++ ·)

/-- Tokens that are read again where they are written, whatever follows them. -/
def Finished (d : Dialect) (tokens : List Lexeme) : Prop :=
  ∀ rest, d.lexFrom none (tokens.flatMap (Lexeme.spelling d) ++ rest) =
    (d.lexFrom none rest).map (tokens ++ ·)

/-- Tokens that begin with a sign, which can double no quote. -/
def SignFirst (d : Dialect) (tokens : List Lexeme) : Prop :=
  ∃ c rest, tokens = .sign c :: rest ∧ ∀ quote : Quote, c ≠ quote.closing d

theorem Finished.readable (h : Finished d tokens) : Readable d tokens :=
  fun rest _ => h rest

theorem noQuoteFirst_append (h : SignFirst d tokens) (rest : List Char) :
    NoQuoteFirst d (tokens.flatMap (Lexeme.spelling d) ++ rest) := by
  obtain ⟨c, others, rfl, hc⟩ := h
  intro quote hhead
  exact hc quote (Option.some.inj hhead)

theorem map_append_map {α : Type} (xs ys : List α) (o : Option (List α)) :
    (o.map (ys ++ ·)).map (xs ++ ·) = o.map (xs ++ ys ++ ·) := by
  cases o <;> simp

/-- Finished tokens in a row. -/
theorem Finished.append (h : Finished d tokens) (h' : Finished d more) :
    Finished d (tokens ++ more) := by
  intro rest
  rw [List.flatMap_append, List.append_assoc, h, h', map_append_map]

/-- Readable tokens behind finished ones. -/
theorem Finished.append_readable (h : Finished d tokens) (h' : Readable d more) :
    Readable d (tokens ++ more) := by
  intro rest hrest
  rw [List.flatMap_append, List.append_assoc, h, h' rest hrest, map_append_map]

/-- A sign ends the quoted text that stands before it. -/
theorem Readable.append (h : Readable d tokens) (h' : Readable d more)
    (hsign : SignFirst d more) : Readable d (tokens ++ more) := by
  intro rest hrest
  rw [List.flatMap_append, List.append_assoc, h _ (noQuoteFirst_append hsign rest), h' rest hrest,
    map_append_map]

/-- A sign behind a quoted text ends it for good. -/
theorem Readable.append_finished (h : Readable d tokens) (h' : Finished d more)
    (hsign : SignFirst d more) : Finished d (tokens ++ more) := by
  intro rest
  rw [List.flatMap_append, List.append_assoc, h _ (noQuoteFirst_append hsign rest), h',
    map_append_map]

/-- Groups of tokens that begin with signs, one after the other. -/
theorem readable_flatMap {α : Type} {f : α → List Lexeme} {xs : List α}
    (h : Readable d tokens) (hf : ∀ x ∈ xs, Readable d (f x) ∧ SignFirst d (f x)) :
    Readable d (tokens ++ xs.flatMap f) := by
  induction xs generalizing tokens with
  | nil => simpa using h
  | cons x xs ih =>
    obtain ⟨hx, hxs⟩ := List.forall_mem_cons.1 hf
    rw [List.flatMap_cons, ← List.append_assoc]
    exact ih (h.append hx.1 hx.2) hxs

/-- The characters of a text as tokens. -/
def signs (s : String) : List Lexeme :=
  s.toList.map .sign

/-- A character that is a token by itself. -/
def Dialect.isSign (d : Dialect) (c : Char) : Bool :=
  (d.quoteAt? c).isNone && c ≠ d.closeQuote

/-- A sign opens no quote, and closes none. -/
theorem isSign_iff {c : Char} : d.isSign c = true ↔ d.quoteAt? c = none ∧ c ≠ d.closeQuote := by
  simp [Dialect.isSign]

theorem ne_closing_of_isSign {c : Char} (h : d.isSign c = true) (quote : Quote) :
    c ≠ quote.closing d := by
  obtain ⟨hquote, hclose⟩ := isSign_iff.1 h
  cases quote with
  | literal =>
    rintro rfl
    exact absurd hquote (by cases d <;> decide)
  | identifier => exact hclose

/-- Signs are finished one by one. -/
theorem finished_signs {s : String} (h : s.toList.all d.isSign = true) : Finished d (signs s) := by
  intro rest
  unfold signs
  rw [List.all_eq_true] at h
  generalize s.toList = chars at h
  induction chars with
  | nil => simp
  | cons c cs ih =>
    obtain ⟨hc, hcs⟩ := List.forall_mem_cons.1 h
    obtain ⟨hquote, hclose⟩ := isSign_iff.1 hc
    rw [List.map_cons, List.flatMap_cons, Lexeme.spelling, List.append_assoc,
      List.singleton_append, Dialect.lexFrom]
    simp only [hquote, if_neg hclose, ih hcs, Option.map_map]
    rfl

theorem signFirst_signs {s : String} {c : Char} {cs : List Char} (hs : s.toList = c :: cs)
    (h : d.isSign c = true) (more : List Lexeme) : SignFirst d (signs s ++ more) := by
  refine ⟨c, cs.map .sign ++ more, ?_, ne_closing_of_isSign h⟩
  rw [signs, hs]
  rfl

/-- A sign behind tokens finishes them. -/
theorem Readable.append_signs (h : Readable d tokens) (s : String)
    (hs : s.toList.all d.isSign = true) (hne : s ≠ "") : Finished d (tokens ++ signs s) := by
  obtain ⟨c, cs, hcs⟩ := List.exists_cons_of_ne_nil (l := s.toList) (by simpa using hne)
  have hfirst : d.isSign c = true := List.all_eq_true.1 hs c (hcs ▸ List.mem_cons_self)
  refine h.append_finished (finished_signs hs) ?_
  simpa using signFirst_signs hcs hfirst []

/-- The rest of a quoted text. -/
theorem lexFrom_doubleChars (quote : Quote) (text read : List Char) {rest : List Char}
    (hrest : rest.head? ≠ some (quote.closing d)) :
    d.lexFrom (some (quote, read)) (Text.doubleChars (quote.closing d) text ++
        quote.closing d :: rest) =
      (d.lexFrom none rest).map (.quoted quote (read.reverse ++ text) :: ·) := by
  induction text generalizing read with
  | nil =>
    rw [List.append_nil]
    cases rest with
    | nil => simp [Text.doubleChars, Dialect.lexFrom]
    | cons next rest =>
      have hnext : next ≠ quote.closing d := fun heq => hrest (by rw [heq]; rfl)
      simp [Text.doubleChars, Dialect.lexFrom, hnext]
  | cons c text ih =>
    rw [Text.doubleChars_cons]
    have hread : read.reverse ++ c :: text = (c :: read).reverse ++ text := by simp
    rw [hread, ← ih (c :: read)]
    split
    · rename_i hc
      subst hc
      simp [Dialect.lexFrom]
    · rename_i hc
      -- a character of its own is read if anything follows it, and the closing quote does
      cases hnext : Text.doubleChars (quote.closing d) text ++ quote.closing d :: rest with
      | nil => simp at hnext
      | cons next more =>
        rw [List.append_assoc, hnext, List.singleton_append, Dialect.lexFrom, if_pos hc]

/-- A quoted text is one token. -/
theorem readable_quoted (quote : Quote) (text : List Char) :
    Readable d [.quoted quote text] := by
  intro rest hrest
  have htext := lexFrom_doubleChars (d := d) quote text [] (hrest quote)
  rw [List.flatMap_singleton, Lexeme.spelling, List.cons_append, List.cons_append, Dialect.lexFrom]
  simp only [quoteAt?_opening, List.append_assoc, List.singleton_append, htext]
  rfl

/-- Readable tokens are the tokens of what they are written as. -/
theorem lex_of_spelling {s : String} (hs : s.toList = tokens.flatMap (Lexeme.spelling d))
    (htokens : Readable d tokens) : d.lex s = some tokens := by
  have hread := htokens [] fun _ => by simp
  rw [List.append_nil] at hread
  rw [Dialect.lex, hs, hread]
  simp [Dialect.lexFrom]

/-! ## §3 Literals without doubled quotes -/

/-- A token as it is written if quotes in literals are not doubled. -/
def Lexeme.undoubled (d : Dialect) : Lexeme → List Char
  | .quoted .literal text => '\'' :: text ++ ['\'']
  | token => token.spelling d

/-- A text consists of tokens that are written without doubling the quotes in literals. -/
def Undoubled (d : Dialect) (s : String) (tokens : List Lexeme) : Prop :=
  s.toList = tokens.flatMap (Lexeme.undoubled d)

/-- Spellings without doubling are put together piece by piece. -/
theorem Undoubled.append {s s' : String} (h : Undoubled d s tokens) (h' : Undoubled d s' more) :
    Undoubled d (s ++ s') (tokens ++ more) := by
  rw [Undoubled, String.toList_append, h, h', List.flatMap_append]

/-- Signs are spelled alike with and without doubling. -/
theorem undoubled_signs (s : String) : Undoubled d s (signs s) := by
  rw [Undoubled, signs, List.flatMap_map]
  simp [Lexeme.undoubled, Lexeme.spelling]

/-- No literal among the tokens has a quote in it. -/
def Quoteless (tokens : List Lexeme) : Prop :=
  ∀ text, .quoted .literal text ∈ tokens → '\'' ∉ text

/-- Doubling makes a text no shorter. -/
theorem length_le_doubleChars (mark : Char) (cs : List Char) :
    cs.length ≤ (Text.doubleChars mark cs).length := by
  induction cs with
  | nil => exact le_rfl
  | cons c cs ih =>
    rw [Text.doubleChars_cons]
    split <;> simp <;> omega

/-- Doubling changes nothing exactly if there is nothing to double. -/
theorem doubleChars_eq_self_iff {mark : Char} {cs : List Char} :
    Text.doubleChars mark cs = cs ↔ mark ∉ cs := by
  induction cs with
  | nil => simp [Text.doubleChars]
  | cons c cs ih =>
    rw [Text.doubleChars_cons]
    split
    · rename_i hc
      subst hc
      -- the doubled character makes the text longer
      refine iff_of_false (fun heq => ?_) (by simp)
      have hlength := congrArg List.length heq
      have hle := length_le_doubleChars c cs
      simp only [List.cons_append, List.nil_append, List.length_cons] at hlength
      omega
    · rename_i hc
      simp [ih, Ne.symm hc]

/-- A spelling without doubling is no longer than the spelling. -/
theorem undoubled_length_le (tokens : List Lexeme) :
    (tokens.flatMap (Lexeme.undoubled d)).length ≤
      (tokens.flatMap (Lexeme.spelling d)).length := by
  induction tokens with
  | nil => exact le_rfl
  | cons token tokens ih =>
    simp only [List.flatMap_cons, List.length_append]
    refine Nat.add_le_add ?_ ih
    fun_cases Lexeme.undoubled d token with
    | case1 text =>
      have := length_le_doubleChars '\'' text
      simpa [Lexeme.spelling, Quote.closing] using this
    | case2 => exact le_rfl

/-- Both spellings of a token agree exactly if it holds no quote. -/
theorem undoubled_eq_spelling_iff {token : Lexeme} :
    token.undoubled d = token.spelling d ↔ Quoteless [token] := by
  cases token with
  | sign c => exact iff_of_true rfl (by simp [Quoteless])
  | quoted quote text =>
    cases quote with
    | identifier => exact iff_of_true rfl (by simp [Quoteless])
    | literal =>
      simp only [Lexeme.undoubled, Lexeme.spelling, Quote.opening, Quote.closing, Quoteless,
        List.cons_append, List.cons.injEq, true_and, List.append_cancel_right_eq,
        List.mem_singleton, Lexeme.quoted.injEq, forall_eq]
      rw [← doubleChars_eq_self_iff]
      exact eq_comm

/-- What is written without doubling quotes is spelled correctly exactly if no literal has a quote
in it. -/
theorem flatMap_undoubled_iff {tokens : List Lexeme} :
    tokens.flatMap (Lexeme.undoubled d) = tokens.flatMap (Lexeme.spelling d) ↔
      Quoteless tokens := by
  induction tokens with
  | nil => simp [Quoteless]
  | cons token tokens ih =>
    have hsplit : Quoteless (token :: tokens) ↔ Quoteless [token] ∧ Quoteless tokens := by
      simp only [Quoteless, List.mem_cons, List.not_mem_nil, or_false, or_imp, forall_and]
    rw [hsplit, ← ih, ← undoubled_eq_spelling_iff (d := d), List.flatMap_cons, List.flatMap_cons]
    constructor
    · intro heq
      -- neither part is longer on the left, so that both have the same length on both sides
      have htoken := undoubled_length_le (d := d) [token]
      have htokens := undoubled_length_le (d := d) tokens
      have hlength := congrArg List.length heq
      simp only [List.flatMap_singleton] at htoken
      simp only [List.length_append] at hlength
      exact List.append_inj heq (by omega)
    · rintro ⟨htoken, htokens⟩
      rw [htoken, htokens]

/-- A text that goes on behind a finished part has the tokens that are meant exactly if no literal
of that part has a quote in it. -/
theorem lex_append_iff {s rest : String} (hs : Undoubled d s tokens) (htokens : Finished d tokens)
    (hrest : d.lex rest = some more) :
    d.lex (s ++ rest) = some (tokens ++ more) ↔ Quoteless tokens := by
  rw [← flatMap_undoubled_iff (d := d)]
  constructor
  · intro hlex
    have hspelling := spelling_of_lex hlex
    rw [String.toList_append, hs, List.flatMap_append, spelling_of_lex hrest] at hspelling
    exact List.append_cancel_right hspelling
  · intro heq
    rw [Dialect.lex, String.toList_append, hs, heq, htokens, ← Dialect.lex, hrest]
    rfl

/-- A text has the tokens that are meant exactly if no literal has a quote in it. -/
theorem lex_undoubled_iff {s : String} (hs : Undoubled d s tokens) (htokens : Readable d tokens) :
    d.lex s = some tokens ↔ Quoteless tokens := by
  rw [← flatMap_undoubled_iff (d := d)]
  constructor
  · intro hlex
    rw [← spelling_of_lex hlex, hs]
  · intro heq
    exact lex_of_spelling (hs.trans heq) htokens

end SqlCompiler
