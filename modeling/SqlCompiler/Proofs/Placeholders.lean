import SqlCompiler.Predicate
import SqlCompiler.Proofs.Outcome
import SqlCompiler.Proofs.TextPieces

/-!
# Placeholders

A question mark of a text is a placeholder, except that two of them in a row stand for a question
mark of an operator. So the placeholders of two texts in a row are those of both, unless a question
mark at the end of the first one is paired with one at the beginning of the second one.

## Main definitions

- `placeholders`: the number of placeholders of a text
- `Unmarked`, `Delimits`: a text without question marks, and one that is not empty
- `Settles`: a text without placeholders, whatever stands behind it
- `Tallied n sql`: the text has a placeholder for every label, and `n` others
- `Settled n sql`: the same, whatever stands behind the text
- `Tallies n parts`: several pieces of SQL, tallied one by one

## Main statements

- `settles_escaped`: doubled question marks are no placeholders
- `Tallied.append`, `Settled.before`, `Tallied.text`: texts in a row
- `Tallies.join`, `Tallies.words`, `Tallies.body`: layout
-/

namespace SqlCompiler

/-! ## §1 Placeholders of texts -/

/-- The number of placeholders of a text, perhaps behind a question mark that waits for its pair. -/
def marksFrom (pending : Bool) : List Char → Nat
  | [] => pending.toNat
  | c :: cs => if c = '?' then marksFrom (!pending) cs else pending.toNat + marksFrom false cs

/-- The number of placeholders of a text. -/
def placeholders (s : String) : Nat :=
  marksFrom false s.toList

example : placeholders "\"a\" ??| ? and \"b\" ?? ???" = 2 := by decide

/-- A text that may stand in front of another one: it does not begin with a question mark, so that
it is not taken for the pair of one before it. -/
def Apart (cs : List Char) : Prop :=
  cs.head? ≠ some '?'

/-- A text without question marks. -/
def Unmarked (s : String) : Prop :=
  '?' ∉ s.toList

instance (s : String) : Decidable (Unmarked s) :=
  inferInstanceAs (Decidable (¬ _))

/-- A text that stands apart whatever stands behind it: it is not empty, and unmarked. -/
def Delimits (s : String) : Prop :=
  s ≠ "" ∧ Unmarked s

instance (s : String) : Decidable (Delimits s) :=
  inferInstanceAs (Decidable (_ ∧ _))

/-- A text without placeholders, whatever stands behind it. -/
def Settles (s : String) : Prop :=
  ∀ rest, marksFrom false (s.toList ++ rest) = marksFrom false rest

section Texts

variable {cs ds : List Char} {r s : String}

/-- A text that stands apart is read on its own. -/
theorem marksFrom_append (pending : Bool) (h : Apart ds) :
    marksFrom pending (cs ++ ds) = marksFrom pending cs + marksFrom false ds := by
  induction cs generalizing pending with
  | nil =>
    -- a mark that is pending at the end of `cs` is not doubled by `ds`
    cases ds with
    | nil => cases pending <;> rfl
    | cons d ds =>
      have hd : d ≠ '?' := fun hmark => h (congrArg some hmark)
      simp only [List.nil_append, marksFrom, if_neg hd, Bool.toNat_false, Nat.zero_add]
  | cons c cs ih =>
    rw [List.cons_append, marksFrom, marksFrom, ih, ih]
    split
    · rfl
    · exact (Nat.add_assoc _ _ _).symm

/-- Two texts in a row have no marks if neither has any. -/
@[simp] theorem unmarked_append : Unmarked (r ++ s) ↔ Unmarked r ∧ Unmarked s := by
  simp only [Unmarked, String.toList_append, List.mem_append, not_or]

/-- A text whose characters come from an unmarked one. -/
theorem Unmarked.of_subset (h : Unmarked s) (hsub : ∀ c ∈ r.toList, c ∈ s.toList) : Unmarked r :=
  fun hmark => h (hsub _ hmark)

/-- A text that delimits stands apart from whatever stands in front of it. -/
theorem Delimits.apart (h : Delimits s) (rest : List Char) : Apart (s.toList ++ rest) := by
  obtain ⟨hne, hunmarked⟩ := h
  cases hchars : s.toList with
  | nil => exact absurd (String.toList_eq_nil_iff.1 hchars) hne
  | cons c cs =>
    rintro hc
    cases hc
    exact hunmarked (hchars ▸ List.mem_cons_self)

theorem Unmarked.settles (h : Unmarked s) : Settles s := by
  intro rest
  unfold Unmarked at h
  generalize s.toList = cs at h
  induction cs with
  | nil => rfl
  | cons c cs ih =>
    obtain ⟨hc, hcs⟩ := not_or.1 (mt List.mem_cons.2 h)
    rw [List.cons_append, marksFrom, if_neg (Ne.symm hc), ih hcs, Bool.toNat_false, Nat.zero_add]

/-- Two settled texts in a row are settled. -/
theorem Settles.append (hr : Settles r) (hs : Settles s) : Settles (r ++ s) := by
  intro rest
  rw [String.toList_append, List.append_assoc, hr, hs]

/-- Doubled question marks are no placeholders. -/
theorem settles_escaped (operator : String) : Settles (escapePlaceholders operator) := by
  intro rest
  rw [escapePlaceholders, Text.double, String.toList_ofList]
  induction operator.toList with
  | nil => rfl
  | cons c cs ih =>
    rw [Text.doubleChars_cons, List.append_assoc]
    split
    · rename_i hc
      subst hc
      -- two marks of an operator leave nothing pending and count for nothing
      exact ih
    · rename_i hc
      rw [List.singleton_append, marksFrom, if_neg hc, ih, Bool.toNat_false, Nat.zero_add]

end Texts

/-! ## §2 Tallies -/

/-- SQL whose text has a placeholder for every label, and a number of others. -/
def Tallied (n : Nat) (sql : Sql) : Prop :=
  placeholders sql.text = sql.labels.length + n

/-- SQL that is tallied whatever stands behind it. -/
def Settled (n : Nat) (sql : Sql) : Prop :=
  ∀ rest, marksFrom false (sql.text.toList ++ rest) = sql.labels.length + n + marksFrom false rest

variable {n m : Nat} {a b : Sql} {s : String}

/-- What is settled is tallied when nothing stands behind it. -/
theorem Settled.tallied (h : Settled n a) : Tallied n a := by
  have hend := h []
  rw [List.append_nil] at hend
  exact hend

/-- The tallies of settled parts add up. -/
theorem Settled.append (ha : Settled n a) (hb : Settled m b) : Settled (n + m) (a ++ b) := by
  intro rest
  rw [Sql.text_append, String.toList_append, List.append_assoc, ha, hb, Sql.labels_append,
    List.length_append]
  omega

/-- Behind SQL that is settled, the text begins anew. -/
theorem Settled.before (ha : Settled n a) (hb : Tallied m b) : Tallied (n + m) (a ++ b) := by
  have htext : marksFrom false b.text.toList = b.labels.length + m := hb
  rw [Tallied, placeholders, Sql.text_append, String.toList_append, ha, htext, Sql.labels_append,
    List.length_append]
  omega

theorem Settled.leads (ha : Settled 0 a) (hb : Tallied n b) : Tallied n (a ++ b) :=
  Nat.zero_add n ▸ ha.before hb

/-- Tallies add up if the second part is not taken for the pair of a mark in front of it. -/
theorem Tallied.append (ha : Tallied n a) (hb : Tallied m b) (hapart : Apart b.text.toList) :
    Tallied (n + m) (a ++ b) := by
  have hfirst : marksFrom false a.text.toList = a.labels.length + n := ha
  have hsecond : marksFrom false b.text.toList = b.labels.length + m := hb
  rw [Tallied, placeholders, Sql.text_append, String.toList_append, marksFrom_append _ hapart,
    hfirst, hsecond, Sql.labels_append, List.length_append]
  omega

/-- Words of the compiler settle what stands in front of them. -/
theorem Tallied.text (ha : Tallied n a) (hs : Delimits s) : Settled n (a ++ (s : Sql)) := by
  intro rest
  have htext : marksFrom false a.text.toList = a.labels.length + n := ha
  rw [Sql.text_append, String.toList_append, List.append_assoc, Sql.text_ofString,
    marksFrom_append _ (hs.apart rest), hs.2.settles, htext, Sql.labels_append,
    Sql.labels_ofString, List.append_nil]

theorem settled_ofString (h : Settles s) : Settled 0 (.ofString s) := by
  intro rest
  rw [Sql.text_ofString, h, Sql.labels_ofString, List.length_nil, Nat.zero_add]

/-- Words of the compiler, which have no question marks. -/
theorem settled_words (h : Unmarked s) : Settled 0 (.ofString s) :=
  settled_ofString h.settles

/-- Verbatim SQL without marks that binds nothing. -/
theorem settled_fragment {bindings : List Value} (h : Unmarked s)
    (hbindings : bound bindings = []) :
    Settled 0 (.fragment s bindings) := by
  intro rest
  rw [Sql.text_fragment, h.settles, Sql.labels_fragment, hbindings, List.length_nil, Nat.zero_add]

theorem settled_empty : Settled 0 .empty :=
  fun _ => (Nat.zero_add _).symm

/-- Words behind SQL bring no marks. -/
theorem Settled.text (ha : Settled n a) (hs : Unmarked s) : Settled n (a ++ (s : Sql)) :=
  ha.append (settled_words hs)

/-- Words of the compiler in front. -/
theorem Settled.behind (hb : Settled n b) (hs : Unmarked s) : Settled n ((s : Sql) ++ b) :=
  Nat.zero_add n ▸ (settled_words hs).append hb

theorem Tallied.behind (hb : Tallied n b) (hs : Unmarked s) : Tallied n ((s : Sql) ++ b) :=
  (settled_words hs).leads hb

/-- An operator that stands in the text as it is brings its own placeholders with it. -/
theorem Settled.operator (ha : Settled 0 a) (operator : String) (hs : Delimits s) :
    Settled (placeholders operator) (a ++ (operator : Sql) ++ (s : Sql)) := by
  have hoperator : Tallied (placeholders operator) (.ofString operator) := by
    rw [Tallied, Sql.text_ofString, Sql.labels_ofString, List.length_nil, Nat.zero_add]
  exact (ha.leads hoperator).text hs

/-- The place of a value: one placeholder, or a raw expression without question marks. -/
theorem tallied_parameterFor {v w : Value} (h : ∀ s, v.raw? = some s → Unmarked s) :
    Tallied 0 (.parameterFor v w) := by
  have hmark : placeholders "?" = 1 := by decide
  cases v with
  | raw s => exact (settled_fragment (h s rfl) rfl).tallied
  | _ =>
    rw [Tallied, Sql.text_parameterFor, Sql.labels_parameterFor]
    exact hmark

/-- SQL without text binds nothing. -/
theorem Tallied.of_isEmpty (h : Tallied n a) (hempty : a.isEmpty = true) :
    a.labels = [] ∧ n = 0 := by
  have htext : placeholders a.text = a.labels.length + n := h
  rw [String.isEmpty_iff.1 hempty] at htext
  have hzero : 0 = a.labels.length + n := htext
  exact ⟨List.length_eq_zero_iff.1 (by omega), by omega⟩

/-! ## §3 Layout -/

/-- Pieces of SQL that are tallied one by one. -/
inductive Tallies : Nat → List Sql → Prop
  | nil : Tallies 0 []
  | cons {n m : Nat} {part : Sql} {rest : List Sql} (first : Tallied n part)
      (others : Tallies m rest) : Tallies (n + m) (part :: rest)

variable {parts : List Sql}

/-- Parts that have no marks beside their labels. -/
theorem tallies_zero (h : ∀ part ∈ parts, Tallied 0 part) : Tallies 0 parts := by
  induction parts with
  | nil => exact .nil
  | cons part rest ih =>
    obtain ⟨hpart, hrest⟩ := List.forall_mem_cons.1 h
    exact .cons hpart (ih hrest)

/-- Joined parts have the marks of all parts, since the separator keeps them apart. -/
theorem Tallies.join (h : Tallies n parts) (hs : Delimits s) : Tallied n (.join s parts) := by
  induction h with
  | nil => exact settled_empty.tallied
  | cons first others ih =>
    cases others with
    | nil => exact first
    | cons => exact (first.text hs).before ih

theorem settled_join (hs : Unmarked s) (h : ∀ part ∈ parts, Settled 0 part) :
    Settled 0 (.join s parts) := by
  fun_induction Sql.join s parts with
  | case1 => exact settled_empty
  | case2 part => exact h part List.mem_cons_self
  | case3 part rest _ ih =>
    obtain ⟨hpart, hrest⟩ := List.forall_mem_cons.1 h
    exact (hpart.text hs).append (ih hrest)

/-- Parts without text take no blank, and have nothing to tally. -/
theorem Tallies.words (h : Tallies n parts) : Tallied n (.words parts) := by
  induction h with
  | nil => exact settled_empty.tallied
  | @cons n m part rest first others ih =>
    dsimp only [Sql.words]
    split
    · rename_i hempty
      rcases Bool.or_eq_true_iff.1 hempty with hempty | hempty
      · obtain ⟨hlabels, rfl⟩ := first.of_isEmpty hempty
        have htext : marksFrom false (Sql.words rest).text.toList = _ := ih
        rw [Tallied, placeholders, Sql.text_append, String.isEmpty_iff.1 hempty,
          String.empty_append, htext, Sql.labels_append, hlabels, List.nil_append, Nat.zero_add]
      · obtain ⟨hlabels, rfl⟩ := ih.of_isEmpty hempty
        have htext : marksFrom false part.text.toList = _ := first
        rw [Tallied, placeholders, Sql.text_append, String.isEmpty_iff.1 hempty,
          String.append_empty, htext, Sql.labels_append, hlabels, List.append_nil, Nat.add_zero]
    · -- the blank between two parts keeps their question marks apart
      exact (first.text (by decide)).before ih

theorem unmarked_connective (c : Connective) : Unmarked c.words ∧ Unmarked c.leadingWords := by
  cases c <;> decide

/-- A clause behind others, with the blank in front of its connective. -/
def Clause.behind (c : Clause Sql) : Sql :=
  " " ++ c.connective.words ++ " " ++ c.node

/-- A clause behind another one begins with a blank. -/
theorem Clause.behind_apart (c : Clause Sql) (rest : List Char) :
    Apart (c.behind.text.toList ++ rest) := by
  simp [Clause.behind, Apart]

/-- Clauses behind others stand apart from these, since each of them begins with a blank. -/
theorem Tallies.behind {rest : List (Clause Sql)} (h : Tallies n (rest.map Clause.node)) :
    Tallied n (Sql.concat (rest.map Clause.behind)) ∧
      Apart (Sql.concat (rest.map Clause.behind)).text.toList := by
  induction rest generalizing n with
  | nil =>
    cases h
    exact ⟨settled_empty.tallied, by rintro ⟨⟩⟩
  | cons c rest ih =>
    cases h with
    | cons hnode hrest =>
      obtain ⟨hconcat, hapart⟩ := ih hrest
      have hwords : Settled 0 (" " ++ c.connective.words ++ " " : Sql) :=
        ((settled_words (by decide)).text (unmarked_connective c.connective).1).text (by decide)
      have hclause : Tallied _ c.behind := hwords.leads hnode
      refine ⟨hclause.append hconcat hapart, ?_⟩
      show Apart (c.behind ++ Sql.concat (rest.map Clause.behind)).text.toList
      rw [Sql.text_append, String.toList_append]
      exact c.behind_apart _

/-- Clauses with their connectives. -/
theorem Tallies.body {clauses : List (Clause Sql)} (h : Tallies n (clauses.map Clause.node)) :
    Tallied n (Clause.body clauses) := by
  cases clauses with
  | nil =>
    cases h
    exact settled_empty.tallied
  | cons first rest =>
    cases h with
    | cons hnode hrest =>
      have hfirst := hnode.behind (unmarked_connective first.connective).2
      obtain ⟨hconcat, hapart⟩ := Tallies.behind hrest
      exact hfirst.append hconcat hapart

end SqlCompiler
