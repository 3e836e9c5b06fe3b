import SqlCompiler.Identifier
import SqlCompiler.Sql

/-!
# Lexing

How a reader of a dialect cuts SQL into tokens: identifiers between the quotes of the dialect,
literals between single quotes, and single characters. Inside of quotes the closing character is
written twice.

A text is contained if every quote in it is closed and its parentheses are balanced outside of
quotes. To see this of a text that is put together from parts, the parts are read one after the
other by a machine that knows no more than whether it stands in a quote and how deep it stands in
parentheses.

## Main definitions

- `Lexeme`, `Dialect.lex`: tokens, and the tokens of a text
- `Dialect.Contained`: every quote is closed, and the parentheses are balanced
- `Dialect.read`: the machine, character by character
- `Reads`: what a text does to a reader who stands at some position

## Main statements

- `contained_iff_read`: a text is contained if the machine comes to rest on it
- `Reads.append`: texts are read one after the other
- `reads_of_contained`, `contained_of_reads`: a contained text leaves every reader where he stood
- `reads_behind?`: where a text of the compiler's own leaves a reader
-/

namespace SqlCompiler

/-! ## §1 Tokens -/

/-- The kinds of quotes. -/
inductive Quote where
  | literal
  | identifier
deriving DecidableEq, Repr

/-- The character that closes a quote, and that is doubled inside. -/
def Quote.closing (d : Dialect) : Quote → Char
  | .literal => '\''
  | .identifier => d.closeQuote

/-- A token of SQL. Blanks are tokens, too. -/
inductive Lexeme where
  /-- A text between quotes, as it is meant: what is doubled in the SQL stands here once. -/
  | quoted (quote : Quote) (text : List Char)
  /-- A character outside of quotes. -/
  | sign (c : Char)
deriving DecidableEq, Repr

namespace Dialect

/-- The quote that a character opens. -/
def quoteAt? (d : Dialect) (c : Char) : Option Quote :=
  if c = '\'' then some .literal
  else if c = d.openQuote then some .identifier
  else none

/-- The tokens of a text, for a reader who stands behind the opening character of a quote and the
given characters, the last one first, or in no quote. There are none if a quote is left open, or if
a closing bracket stands where no quote is open. -/
def lexFrom (d : Dialect) : Option (Quote × List Char) → List Char → Option (List Lexeme)
  | none, [] => some []
  | none, c :: cs =>
    match d.quoteAt? c with
    | some quote => d.lexFrom (some (quote, [])) cs
    | none => if c = d.closeQuote then none else (d.lexFrom none cs).map (.sign c :: ·)
  | some _, [] => none
  | some (quote, text), [c] =>
    if c = quote.closing d then some [.quoted quote text.reverse] else none
  | some (quote, text), c :: next :: cs =>
    if c ≠ quote.closing d then d.lexFrom (some (quote, c :: text)) (next :: cs)
    else if next = c then d.lexFrom (some (quote, c :: text)) cs
    else (d.lexFrom none (next :: cs)).map (.quoted quote text.reverse :: ·)

/-- The tokens of a text. -/
def lex (d : Dialect) (sql : String) : Option (List Lexeme) :=
  d.lexFrom none sql.toList

end Dialect

/-- How deep a reader stands in parentheses behind a character; none is closed that was not
opened. -/
def depthBehind (depth : Nat) (c : Char) : Option Nat :=
  if c = '(' then some (depth + 1)
  else if c = ')' then
    match depth with
    | 0 => none
    | depth + 1 => some depth
  else some depth

/-- How deep a reader stands in parentheses behind some tokens. Those inside of quotes do not
count. -/
def finalDepth : Nat → List Lexeme → Option Nat
  | depth, [] => some depth
  | depth, .quoted _ _ :: rest => finalDepth depth rest
  | depth, .sign c :: rest => (depthBehind depth c).bind (finalDepth · rest)

/-- A text closes every quote that it opens, and its parentheses are balanced outside of quotes. -/
def Dialect.Contained (d : Dialect) (sql : String) : Prop :=
  (d.lex sql).bind (finalDepth 0) = some 0

instance (d : Dialect) (sql : String) : Decidable (d.Contained sql) :=
  inferInstanceAs (Decidable (_ = _))

/-! ## §2 The machine -/

/-- Where the machine stands between two characters. -/
inductive Stage where
  | between
  | inside (quote : Quote)
  /-- Behind a closing character, which is doubled if it comes once more. -/
  | behind (quote : Quote)
deriving DecidableEq, Repr

namespace Dialect

/-- One character outside of quotes, at some depth. -/
def stepBetween (d : Dialect) (depth : Nat) (c : Char) : Option (Stage × Nat) :=
  match d.quoteAt? c with
  | some quote => some (.inside quote, depth)
  | none => if c = d.closeQuote then none else (depthBehind depth c).map (.between, ·)

/-- One character. -/
def step (d : Dialect) : Stage × Nat → Char → Option (Stage × Nat)
  | (.between, depth), c => d.stepBetween depth c
  | (.inside quote, depth), c =>
    some (if c = quote.closing d then .behind quote else .inside quote, depth)
  | (.behind quote, depth), c =>
    if c = quote.closing d then some (.inside quote, depth) else d.stepBetween depth c

/-- The characters of a text one after the other. -/
def read (d : Dialect) (stage : Stage × Nat) (cs : List Char) : Option (Stage × Nat) :=
  cs.foldlM d.step stage

@[simp] theorem read_nil (d : Dialect) (stage : Stage × Nat) : d.read stage [] = some stage := rfl

@[simp] theorem read_cons (d : Dialect) (stage : Stage × Nat) (c : Char) (cs : List Char) :
    d.read stage (c :: cs) = (d.step stage c).bind (d.read · cs) := by
  rw [read, List.foldlM_cons]
  rfl

theorem read_append (d : Dialect) (stage : Stage × Nat) (cs ds : List Char) :
    d.read stage (cs ++ ds) = (d.read stage cs).bind (d.read · ds) := by
  rw [read, List.foldlM_append]
  rfl

end Dialect

/-- The machine rests at a depth: it stands in no quote. -/
def Rests (depth : Nat) (stage : Stage × Nat) : Prop :=
  stage.2 = depth ∧ ∀ quote, stage.1 ≠ .inside quote

theorem rests_between (depth : Nat) : Rests depth (.between, depth) :=
  ⟨rfl, fun _ => Stage.noConfusion⟩

theorem rests_behind (quote : Quote) (depth : Nat) : Rests depth (.behind quote, depth) :=
  ⟨rfl, fun _ => Stage.noConfusion⟩

variable {d : Dialect}

/-! ## §3 Tokens and machine -/

/-- What the machine is in while the lexer stands in a quote or in none. -/
def lexerStage : Option (Quote × List Char) → Stage
  | none => .between
  | some (quote, _) => .inside quote

/-- The tokens of a text lead to a depth exactly if the machine comes to rest there. -/
theorem lexFrom_depth (inQuote : Option (Quote × List Char)) (cs : List Char)
    (depth final : Nat) :
    (d.lexFrom inQuote cs).bind (finalDepth depth) = some final ↔
      ∃ stage, d.read (lexerStage inQuote, depth) cs = some stage ∧ Rests final stage := by
  fun_induction Dialect.lexFrom d inQuote cs generalizing depth with
  | case1 => simp [lexerStage, finalDepth, Rests]
  | case2 c cs quote hquote ih =>
    rw [ih]
    simp [lexerStage, Dialect.step, Dialect.stepBetween, hquote]
  | case3 cs hquote =>
    simp [lexerStage, Dialect.step, Dialect.stepBetween, hquote]
  | case4 c cs hquote hclose ih =>
    -- a token by itself: the machine takes one step, and reads the rest from between tokens again
    have htokens : ((d.lexFrom none cs).map (.sign c :: ·)).bind (finalDepth depth) =
        (depthBehind depth c).bind fun deep => (d.lexFrom none cs).bind (finalDepth deep) := by
      cases d.lexFrom none cs <;> cases hdeep : depthBehind depth c <;> simp [finalDepth, hdeep]
    rw [htokens]
    cases hdeep : depthBehind depth c with
    | none => simp [lexerStage, Dialect.step, Dialect.stepBetween, hquote, hclose, hdeep]
    | some deep =>
      simpa [lexerStage, Dialect.step, Dialect.stepBetween, hquote, hclose, hdeep] using ih deep
  | case5 quote => simp [lexerStage, Rests]
  | case6 quote text => simp [lexerStage, Dialect.step, finalDepth, Rests]
  | case7 quote text c hclose => simp [lexerStage, Dialect.step, hclose, Rests]
  | case8 quote text c next cs hclose ih =>
    rw [ih]
    simp [lexerStage, Dialect.step, hclose]
  | case9 quote text c cs hclose ih =>
    rw [ih]
    simp_all [lexerStage, Dialect.step]
  | case10 quote text c next cs hclose hnext ih =>
    -- the quote is closed for good, so that what follows is read from between tokens
    have htokens : ((d.lexFrom none (next :: cs)).map (.quoted quote text.reverse :: ·)).bind
        (finalDepth depth) = (d.lexFrom none (next :: cs)).bind (finalDepth depth) := by
      cases d.lexFrom none (next :: cs) <;> rfl
    rw [htokens, ih]
    simp_all [lexerStage, Dialect.step]

/-- A text is contained if the machine comes to rest on it, at the depth where it began. -/
theorem contained_iff_read {sql : String} :
    d.Contained sql ↔ ∃ stage, d.read (.between, 0) sql.toList = some stage ∧ Rests 0 stage :=
  lexFrom_depth none sql.toList 0 0

/-! ## §4 Parts of a text -/

/-- Where a reader stands between two parts of a text. -/
inductive Position where
  | between (depth : Nat)
  | inside (quote : Quote) (depth : Nat)

/-- The machine at a position. Between tokens it may have just left a quote. -/
def Position.Holds : Position → Stage × Nat → Prop
  | .between depth, stage => Rests depth stage
  | .inside quote depth, stage => stage = (.inside quote, depth)

/-- A text takes every reader at one position to another one. -/
def Reads (d : Dialect) (start : Position) (cs : List Char) (final : Position) : Prop :=
  ∀ stage, start.Holds stage → ∃ next, d.read stage cs = some next ∧ final.Holds next

variable {p q r : Position} {cs ds : List Char}

theorem Reads.nil : Reads d p [] p :=
  fun stage h => ⟨stage, rfl, h⟩

theorem Reads.append (h : Reads d p cs q) (h' : Reads d q ds r) : Reads d p (cs ++ ds) r := by
  intro stage hstage
  obtain ⟨middle, hread, hmiddle⟩ := h stage hstage
  obtain ⟨next, hnext, hholds⟩ := h' middle hmiddle
  refine ⟨next, ?_, hholds⟩
  rw [Dialect.read_append, hread]
  exact hnext

/-- Outside of quotes a character is read alike by a reader who has just left a quote: none begins
with the character that closes it, unless that one opens it, too. -/
theorem step_of_rests {depth : Nat} {c : Char} {stage next : Stage × Nat} (h : Rests depth stage)
    (hstep : d.stepBetween depth c = some next) : d.step stage c = some next := by
  obtain ⟨place, deep⟩ := stage
  obtain ⟨rfl, hplace⟩ := h
  cases place with
  | between => exact hstep
  | inside quote => exact absurd rfl (hplace quote)
  | behind quote =>
    by_cases hclose : c = quote.closing d
    · subst hclose
      cases quote with
      | literal =>
        have hnext : next = (.inside .literal, deep) := by
          simpa [Dialect.stepBetween, Dialect.quoteAt?, Quote.closing, eq_comm] using hstep
        simp [Dialect.step, hnext]
      | identifier =>
        -- a closing bracket opens nothing; the other quotes open with what they close with
        have hnext : next = (.inside .identifier, deep) := by
          simp only [Dialect.stepBetween, Dialect.quoteAt?, Quote.closing] at hstep
          cases d <;> simp_all [Dialect.openQuote, Dialect.closeQuote]
        simp [Dialect.step, hnext]
    · simpa [Dialect.step, hclose] using hstep

/-- The depth at which the machine reads is the depth that it began at, and more. -/
theorem read_deeper (n : Nat) {cs : List Char} {stage next : Stage × Nat}
    (h : d.read stage cs = some next) :
    d.read (stage.1, stage.2 + n) cs = some (next.1, next.2 + n) := by
  have hdepth : ∀ {depth deep : Nat} {c : Char}, depthBehind depth c = some deep →
      depthBehind (depth + n) c = some (deep + n) := by
    intro depth deep c hc
    unfold depthBehind at hc ⊢
    grind
  have hbetween : ∀ {depth : Nat} {c : Char} {next : Stage × Nat},
      d.stepBetween depth c = some next →
      d.stepBetween (depth + n) c = some (next.1, next.2 + n) := by
    intro depth c next hc
    unfold Dialect.stepBetween at hc ⊢
    split at hc
    · cases hc
      rfl
    · split at hc
      · cases hc
      · obtain ⟨deep, hdeep, rfl⟩ := Option.map_eq_some_iff.1 hc
        simp [hdepth hdeep, *]
  induction cs generalizing stage with
  | nil =>
    cases h
    rfl
  | cons c cs ih =>
    obtain ⟨middle, hstep, hrest⟩ := Option.bind_eq_some_iff.1 ((Dialect.read_cons ..).symm.trans h)
    rw [Dialect.read_cons]
    refine Option.bind_eq_some_iff.2 ⟨_, ?_, ih hrest⟩
    obtain ⟨place, depth⟩ := stage
    cases place with
    | between => exact hbetween hstep
    | inside quote =>
      cases hstep
      rfl
    | behind quote =>
      simp only [Dialect.step] at hstep ⊢
      split at hstep
      · rename_i hclose
        cases hstep
        rw [if_pos hclose]
      · rename_i hclose
        rw [if_neg hclose]
        exact hbetween hstep

/-- A contained text leaves every reader between tokens where he stood. -/
theorem reads_of_contained {sql : String} (h : d.Contained sql) (depth : Nat) :
    Reads d (.between depth) sql.toList (.between depth) := by
  obtain ⟨final, hread, hrests⟩ := contained_iff_read.1 h
  have hdeep := read_deeper depth hread
  rw [Nat.zero_add] at hdeep
  have hfinal : Rests depth (final.1, final.2 + depth) := ⟨by simp [hrests.1], hrests.2⟩
  intro stage hstage
  cases hcs : sql.toList with
  | nil => exact ⟨stage, rfl, hstage⟩
  | cons c cs =>
    rw [hcs, Dialect.read_cons] at hdeep
    obtain ⟨middle, hstep, hrest⟩ := Option.bind_eq_some_iff.1 hdeep
    refine ⟨_, ?_, hfinal⟩
    rw [Dialect.read_cons, step_of_rests hstage hstep]
    exact hrest

/-- A text that leaves every reader between tokens where he stood is contained. -/
theorem contained_of_reads {sql : String}
    (h : Reads d (.between 0) sql.toList (.between 0)) : d.Contained sql :=
  contained_iff_read.2 (h _ (rests_between 0))

/-! ## §5 Texts of the compiler's own -/

/-- The characters that neither quotes nor parentheses are made of, in any dialect. -/
def isPlain (c : Char) : Bool :=
  !(c = '\'' || c = '"' || c = '\x60' || c = '[' || c = ']' || c = '(' || c = ')')

/-- Where a text of the compiler's own takes a reader. Closing characters are not doubled in such a
text. -/
def Position.behind? (d : Dialect) : Position → List Char → Option Position
  | p, [] => some p
  | p, c :: cs =>
    if isPlain c then behind? d p cs
    else
      match p with
      | .inside quote depth =>
        behind? d (if c = quote.closing d then .between depth else .inside quote depth) cs
      | .between depth =>
        if c = '(' then behind? d (.between (depth + 1)) cs
        else if c = ')' then
          match depth with
          | 0 => none
          | depth + 1 => behind? d (.between depth) cs
        else if c = '\'' then behind? d (.inside .literal depth) cs
        else if c = d.openQuote then behind? d (.inside .identifier depth) cs
        else none

/-- A character that takes every resting reader to a position. -/
theorem reads_char {depth : Nat} {c : Char} {next : Stage × Nat}
    (h : d.stepBetween depth c = some next) (hq : q.Holds next) :
    Reads d (.between depth) [c] q := by
  intro stage hstage
  refine ⟨next, ?_, hq⟩
  rw [Dialect.read_cons, step_of_rests hstage h]
  rfl

/-- A character other than the closing one leaves a reader inside of a quote. -/
theorem reads_inside {quote : Quote} {depth : Nat} {c : Char} (h : c ≠ quote.closing d) :
    Reads d (.inside quote depth) [c] (.inside quote depth) := by
  rintro stage rfl
  exact ⟨_, by simp [Dialect.step, h], rfl⟩

/-- The closing character leads out of a quote. -/
theorem reads_closing {quote : Quote} {depth : Nat} :
    Reads d (.inside quote depth) [quote.closing d] (.between depth) := by
  rintro stage rfl
  exact ⟨_, by simp [Dialect.step], rests_behind quote depth⟩

/-- The doubled closing character stays inside of a quote. -/
theorem reads_doubled {quote : Quote} {depth : Nat} :
    Reads d (.inside quote depth) [quote.closing d, quote.closing d] (.inside quote depth) := by
  rintro stage rfl
  exact ⟨_, by simp [Dialect.step], rfl⟩

theorem isPlain_ne {c mark : Char} (h : isPlain c = true) (hmark : isPlain mark = false) :
    c ≠ mark := by
  rintro rfl
  rw [h] at hmark
  cases hmark

theorem isPlain_openQuote (d : Dialect) : isPlain d.openQuote = false := by
  cases d <;> rfl

theorem isPlain_closing (d : Dialect) (quote : Quote) : isPlain (quote.closing d) = false := by
  cases quote <;> cases d <;> rfl

/-- A plain character leaves every reader where he stood. -/
theorem reads_plain {c : Char} (h : isPlain c = true) : Reads d p [c] p := by
  cases p with
  | inside quote depth => exact reads_inside (isPlain_ne h (isPlain_closing d quote))
  | between depth =>
    refine reads_char ?_ (rests_between depth)
    have hclose : c ≠ d.closeQuote := isPlain_ne h (isPlain_closing d .identifier)
    simp [Dialect.stepBetween, Dialect.quoteAt?, depthBehind, isPlain_ne h (isPlain_openQuote d),
      hclose, (isPlain_ne h rfl : c ≠ '\''), (isPlain_ne h rfl : c ≠ '('),
      (isPlain_ne h rfl : c ≠ ')')]

theorem reads_openParen {depth : Nat} :
    Reads d (.between depth) ['('] (.between (depth + 1)) :=
  reads_char (by cases d <;> rfl) (rests_between (depth + 1))

theorem reads_closeParen {depth : Nat} :
    Reads d (.between (depth + 1)) [')'] (.between depth) :=
  reads_char (by cases d <;> rfl) (rests_between depth)

theorem reads_open {quote : Quote} {depth : Nat} {c : Char} (h : d.quoteAt? c = some quote) :
    Reads d (.between depth) [c] (.inside quote depth) :=
  have hstep : d.stepBetween depth c = some (.inside quote, depth) := by
    simp [Dialect.stepBetween, h]
  reads_char hstep rfl

theorem quoteAt?_openQuote (d : Dialect) : d.quoteAt? d.openQuote = some .identifier := by
  cases d <;> rfl

/-- The text takes a reader where it says. -/
theorem reads_behind? (h : p.behind? d cs = some q) : Reads d p cs q := by
  fun_induction Position.behind? d p cs with
  | case1 p =>
    cases h
    exact .nil
  | case2 p c cs hplain ih => exact (reads_plain hplain).append (ih h)
  | case3 c cs _ quote depth ih =>
    have hchar : Reads d (.inside quote depth) [c]
        (if c = quote.closing d then .between depth else .inside quote depth) := by
      split
      · rename_i hclose
        rw [hclose]
        exact reads_closing
      · exact reads_inside ‹_›
    exact hchar.append (ih h)
  | case4 cs depth _ ih => exact reads_openParen.append (ih h)
  | case5 => cases h
  | case6 cs depth _ _ ih => exact reads_closeParen.append (ih h)
  | case7 cs depth _ _ _ ih => exact (reads_open rfl).append (ih h)
  | case8 cs depth _ _ _ _ ih => exact (reads_open (quoteAt?_openQuote d)).append (ih h)
  | case9 => cases h

end SqlCompiler
