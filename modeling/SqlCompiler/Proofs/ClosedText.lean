import SqlCompiler.Proofs.Lexing

/-!
# Closed Texts

A text is closed if it leaves every reader between tokens where he stood: it closes the quotes and
parentheses that it opens. Closed texts may be put anywhere between tokens, and what is put
together from them is closed if the words around them are.

Texts are followed from left to right, part by part: `Leads.text` passes words of the compiler's
own, whose effect is computed, and `Leads.closed` passes a closed part.

## Main definitions

- `TextLeads`, `Leads`: where a text, or SQL, takes a reader
- `TextClosed`, `Closed`: it leaves him where he stood

## Main statements

- `closed_join`, `closed_words`, `closed_concat`, `closed_trimEnd`: layout keeps closed what is
  closed
- `Closed.contained`: closed SQL is contained
-/

namespace SqlCompiler

variable {d : Dialect} {p q r : Position}

/-! ## §1 Texts -/

/-- A text takes every reader from one position to another one. -/
def TextLeads (d : Dialect) (p : Position) (s : String) (q : Position) : Prop :=
  Reads d p s.toList q

/-- A text leaves every reader between tokens where he stood. -/
def TextClosed (d : Dialect) (s : String) : Prop :=
  ∀ depth, TextLeads d (.between depth) s (.between depth)

section Texts

variable {a b s : String} {cs : List Char}

/-- Words of the compiler's own take a reader where it is computed. -/
theorem textLeads (hs : s = String.ofList cs) (h : p.behind? d cs = some q) :
    TextLeads d p s q := by
  subst hs
  rw [TextLeads, String.toList_ofList]
  exact reads_behind? h

/-- One text after another takes a reader all the way. -/
theorem TextLeads.append (h : TextLeads d p a q) (h' : TextLeads d q b r) :
    TextLeads d p (a ++ b) r := by
  rw [TextLeads, String.toList_append]
  exact Reads.append h h'

/-- Words of the compiler's own behind a text. -/
theorem TextLeads.text (h : TextLeads d p a q) (hs : s = String.ofList cs)
    (h' : q.behind? d cs = some r) : TextLeads d p (a ++ s) r :=
  h.append (textLeads hs h')

/-- A closed text behind one that ends between tokens. -/
theorem TextLeads.closed {depth : Nat} (h : TextLeads d p a (.between depth))
    (h' : TextClosed d b) : TextLeads d p (a ++ b) (.between depth) :=
  h.append (h' depth)

theorem textLeads_empty : TextLeads d p "" p :=
  textLeads rfl rfl

/-- A text without quotes and parentheses leaves every reader where he stood. -/
theorem textLeads_of_plain (h : ∀ c ∈ s.toList, isPlain c = true) : TextLeads d p s p := by
  unfold TextLeads
  generalize s.toList = cs at h
  induction cs with
  | nil => exact Reads.nil
  | cons c cs ih =>
    have hrest := ih fun c hc => h c (List.mem_cons_of_mem _ hc)
    exact Reads.append (reads_plain (h c List.mem_cons_self)) hrest

/-- A text without quotes and parentheses is closed. -/
theorem textClosed_of_plain (h : ∀ c ∈ s.toList, isPlain c = true) : TextClosed d s :=
  fun _ => textLeads_of_plain h

/-- Two closed texts in a row are closed. -/
theorem TextClosed.append (h : TextClosed d a) (h' : TextClosed d b) : TextClosed d (a ++ b) :=
  fun depth => (h depth).closed h'

/-- A contained text is closed at any depth of parentheses, not only outside of them. -/
theorem textClosed_of_contained (h : d.Contained s) : TextClosed d s :=
  reads_of_contained h

/-- Pieces between closed separators. -/
theorem textClosed_join {sep : String} {pieces : List String} (hsep : TextClosed d sep)
    (h : ∀ piece ∈ pieces, TextClosed d piece) : TextClosed d (Text.join sep pieces) := by
  intro depth
  rw [TextLeads, Text.join, String.toList_ofList]
  induction pieces with
  | nil => exact .nil
  | cons piece rest ih =>
    have hpiece := h piece List.mem_cons_self depth
    have hrest := ih fun piece hp => h piece (List.mem_cons_of_mem _ hp)
    cases rest with
    | nil => exact hpiece
    | cons next rest => exact (Reads.append hpiece (hsep depth)).append hrest

/-! ## §2 Numbers -/

/-- Digits open and close nothing. -/
theorem isPlain_of_isDigit {c : Char} (h : c.isDigit = true) : isPlain c = true := by
  have hrange : 48 ≤ c.toNat ∧ c.toNat ≤ 57 := by
    simpa [Char.isDigit, UInt32.le_iff_toNat_le] using h
  have hne : ∀ mark : Char, mark.toNat < 48 ∨ 57 < mark.toNat → c ≠ mark := by
    rintro mark hmark rfl
    omega
  simp [isPlain, hne '\'' (by decide), hne '"' (by decide), hne '\x60' (by decide),
    hne '[' (by decide), hne ']' (by decide), hne '(' (by decide), hne ')' (by decide)]

/-- A number takes no reader anywhere, also inside of quotes. -/
theorem textLeads_nat (n : Nat) : TextLeads d p (toString n) p := by
  refine textLeads_of_plain fun c hc => isPlain_of_isDigit ?_
  rw [Nat.toString_eq_repr, Nat.repr, String.toList_ofList] at hc
  exact Nat.isDigit_of_mem_toDigits (by decide) (by decide) hc

theorem textLeads_int (n : Int) : TextLeads d p (toString n) p := by
  cases n with
  | ofNat n => exact textLeads_nat n
  | negSucc n =>
    have hminus : TextLeads d p "-" p := textLeads rfl rfl
    exact hminus.append (textLeads_nat (n + 1))

end Texts

/-! ## §3 SQL -/

/-- SQL takes every reader from one position to another one. -/
def Leads (d : Dialect) (p : Position) (sql : Sql) (q : Position) : Prop :=
  TextLeads d p sql.text q

/-- SQL leaves every reader between tokens where he stood. -/
def Closed (d : Dialect) (sql : Sql) : Prop :=
  ∀ depth, Leads d (.between depth) sql (.between depth)

variable {a b sql : Sql} {s : String} {cs : List Char}

/-- Words as SQL lead where the words do. -/
theorem leads_ofString : Leads d p (.ofString s) q ↔ TextLeads d p s q := by
  rw [Leads, Sql.text_ofString]

theorem closed_ofString (h : TextClosed d s) : Closed d (.ofString s) :=
  fun depth => leads_ofString.2 (h depth)

/-- Verbatim SQL is closed if its text is. -/
theorem closed_fragment {bindings : List Value} (h : TextClosed d s) :
    Closed d (.fragment s bindings) := by
  intro depth
  rw [Leads, Sql.text_fragment]
  exact h depth

/-- SQL that begins with words of the compiler's own. -/
theorem leads (hs : s = String.ofList cs) (h : p.behind? d cs = some q) :
    Leads d p (.ofString s) q :=
  leads_ofString.2 (textLeads hs h)

/-- One piece of SQL after another. -/
theorem Leads.append (h : Leads d p a q) (h' : Leads d q b r) : Leads d p (a ++ b) r := by
  rw [Leads, Sql.text_append]
  exact TextLeads.append h h'

/-- Words of the compiler's own behind a piece of SQL. -/
theorem Leads.text (h : Leads d p a q) (hs : s = String.ofList cs)
    (h' : q.behind? d cs = some r) : Leads d p (a ++ Sql.ofString s) r :=
  h.append (leads hs h')

/-- Closed SQL behind one that ends between tokens. -/
theorem Leads.closed {depth : Nat} (h : Leads d p a (.between depth)) (h' : Closed d b) :
    Leads d p (a ++ b) (.between depth) :=
  h.append (h' depth)

/-- A text that was built elsewhere. -/
theorem Leads.string (h : Leads d p a q) (h' : TextLeads d q s r) :
    Leads d p (a ++ Sql.ofString s) r :=
  h.append (leads_ofString.2 h')

theorem closed_empty : Closed d .empty :=
  fun _ => textLeads_empty

theorem Closed.append (h : Closed d a) (h' : Closed d b) : Closed d (a ++ b) :=
  fun depth => (h depth).closed h'

/-- A value stands in the text if it is raw, and is a placeholder otherwise. -/
theorem closed_parameterFor {value bound : Value} (h : ∀ s, value.raw? = some s → TextClosed d s) :
    Closed d (.parameterFor value bound) := by
  intro depth
  rw [Leads, Sql.text_parameterFor]
  cases hraw : value.raw? with
  | none => exact textLeads rfl rfl
  | some s => exact h s hraw depth

/-- Closed SQL has the tokens of a contained text. -/
theorem Closed.contained (h : Closed d sql) : d.Contained sql.text :=
  contained_of_reads (h 0)

/-! ## §4 Layout -/

/-- Closed pieces with a closed separator between them. -/
theorem closed_join {sep : String} {parts : List Sql} (hsep : TextClosed d sep)
    (h : ∀ part ∈ parts, Closed d part) : Closed d (.join sep parts) := by
  fun_induction Sql.join sep parts with
  | case1 => exact closed_empty
  | case2 part => exact h part List.mem_cons_self
  | case3 part rest _ ih =>
    have hrest := ih fun part hp => h part (List.mem_cons_of_mem _ hp)
    exact ((h part List.mem_cons_self).append (closed_ofString hsep)).append hrest

theorem closed_concat {parts : List Sql} (h : ∀ part ∈ parts, Closed d part) :
    Closed d (.concat parts) := by
  induction parts with
  | nil => exact closed_empty
  | cons part rest ih =>
    have hrest := ih fun part hp => h part (List.mem_cons_of_mem _ hp)
    exact (h part List.mem_cons_self).append hrest

theorem closed_blank : Closed d (.ofString " ") :=
  fun _ => leads rfl rfl

/-- Closed pieces in a row; the blanks between them are closed. -/
theorem closed_words {parts : List Sql} (h : ∀ part ∈ parts, Closed d part) :
    Closed d (.words parts) := by
  induction parts with
  | nil => exact closed_empty
  | cons part rest ih =>
    have hpart := h part List.mem_cons_self
    have hrest := ih fun part hp => h part (List.mem_cons_of_mem _ hp)
    dsimp only [Sql.words]
    split
    · exact hpart.append hrest
    · exact (hpart.append closed_blank).append hrest

theorem isPlain_of_isBlank {c : Char} (h : Text.isBlank c = true) : isPlain c = true := by
  have hmarks : ['\'', '"', '\x60', '[', ']', '(', ')'].all (!Text.isBlank ·) = true := by decide
  cases hc : isPlain c with
  | true => rfl
  | false =>
    have hmem : c ∈ ['\'', '"', '\x60', '[', ']', '(', ')'] := by
      simpa [isPlain, Decidable.or_iff_not_imp_left] using hc
    have hmark := List.all_eq_true.1 hmarks c hmem
    rw [h] at hmark
    cases hmark

/-- A text without its trailing blanks, and these. -/
theorem trimEndChars_append_blanks (cs : List Char) :
    ∃ blanks, Text.trimEndChars cs ++ blanks = cs ∧ ∀ c ∈ blanks, Text.isBlank c = true := by
  induction cs with
  | nil => exact ⟨[], rfl, by simp⟩
  | cons c cs ih =>
    obtain ⟨blanks, hblanks, hall⟩ := ih
    rw [Text.trimEndChars]
    cases htrim : Text.trimEndChars cs with
    | nil =>
      rw [htrim, List.nil_append] at hblanks
      subst hblanks
      -- a character is trimmed if it is blank and nothing behind it was kept
      by_cases hc : Text.isBlank c = true
      · exact ⟨c :: blanks, by simp [hc], by simpa [hc] using hall⟩
      · exact ⟨blanks, by simp [hc], hall⟩
    | cons kept rest =>
      rw [htrim] at hblanks
      exact ⟨blanks, by rw [List.cons_append, hblanks], hall⟩

/-- Blanks that end outside of quotes were read outside of quotes. -/
theorem rests_of_read_blanks {depth : Nat} {blanks : List Char} {stage next : Stage × Nat}
    (hblanks : ∀ c ∈ blanks, Text.isBlank c = true) (hread : d.read stage blanks = some next)
    (hrests : Rests depth next) : Rests depth stage := by
  induction blanks generalizing stage with
  | nil =>
    cases hread
    exact hrests
  | cons c blanks ih =>
    rw [Dialect.read_cons] at hread
    obtain ⟨middle, hstep, hrest⟩ := Option.bind_eq_some_iff.1 hread
    obtain ⟨hblank, hblanks⟩ := List.forall_mem_cons.1 hblanks
    have hmiddle := ih hblanks hrest
    have hplain := isPlain_of_isBlank hblank
    -- a reader at rest stays there, at the depth at which he is
    have hback : ∀ {deep : Nat}, Rests deep stage → Rests depth stage := by
      intro deep hstage
      obtain ⟨_, hread', hrests'⟩ := reads_plain (d := d) (p := .between deep) hplain stage hstage
      rw [Dialect.read_cons, hstep] at hread'
      cases hread'
      exact ⟨hstage.1.trans (hrests'.1.symm.trans hmiddle.1), hstage.2⟩
    obtain ⟨place, deep⟩ := stage
    cases place with
    | inside quote =>
      have hstay := isPlain_ne hplain (isPlain_closing d quote)
      simp only [Dialect.step, if_neg hstay, Option.some.injEq] at hstep
      exact absurd (congrArg Prod.fst hstep).symm (hmiddle.2 quote)
    | between => exact hback (rests_between deep)
    | behind quote => exact hback (rests_behind quote deep)

/-- Blanks at the end of a text do not matter: behind them a reader stands where he stood before. -/
theorem reads_of_append_blanks {depth : Nat} {blanks : List Char}
    (hblanks : ∀ c ∈ blanks, Text.isBlank c = true)
    (h : Reads d p (cs ++ blanks) (.between depth)) : Reads d p cs (.between depth) := by
  intro stage hstage
  obtain ⟨next, hread, hrests⟩ := h stage hstage
  rw [Dialect.read_append] at hread
  obtain ⟨middle, hmiddle, hrest⟩ := Option.bind_eq_some_iff.1 hread
  exact ⟨middle, hmiddle, rests_of_read_blanks hblanks hrest hrests⟩

/-- Trailing blanks lie between tokens, so that SQL without them ends where it did. -/
theorem closed_trimEnd (h : Closed d sql) : Closed d sql.trimEnd := by
  intro depth
  rw [Leads, Sql.text_trimEnd, TextLeads, Text.trimEnd, String.toList_ofList]
  obtain ⟨blanks, hblanks, hall⟩ := trimEndChars_append_blanks sql.text.toList
  refine reads_of_append_blanks hall ?_
  rw [hblanks]
  exact h depth

end SqlCompiler
