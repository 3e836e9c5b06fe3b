import SqlCompiler.Proofs.Outcome
import SqlCompiler.Proofs.RawExpressions

/-!
# Inlined Predicates

A raw expression stands verbatim in the SQL of its condition. Two conditions that differ in nothing
but raw expressions are compiled side by side: both have the same fault, or both have SQL, and then
the two texts have a common frame whose holes hold the raw expressions of the one and of the other.

## Main definitions

- `fill`: a frame with its holes filled
- `Framed`: two texts with a common frame
- `Inlines`: two pieces of SQL with a common frame

## Main statements

- `Framed.append`: frames are put together piece by piece
- `Inlines.parameterFor`, `Inlines.join`, `Inlines.body`: values, lists and clauses
- `compare_inlines`, `like_inlines`, …: the conditions one by one
- `having_inlines`: conditions on groups, by recursion on their groups
-/

namespace SqlCompiler

open Sql

variable {t : Target} {ms ms' ns ns' : List String}

/-! ## §1 Frames -/

/-- A frame whose holes are filled with the given pieces, from left to right. -/
def fill : List (Option String) → List String → String
  | [], _ => ""
  | some s :: frame, pieces => s ++ fill frame pieces
  | none :: frame, [] => fill frame []
  | none :: frame, piece :: pieces => piece ++ fill frame pieces

/-- Two texts with a common frame: they differ in nothing but the given pieces, which stand in both
at the same places and in the given order. -/
def Framed (ms ms' : List String) (s s' : String) : Prop :=
  ∃ frame : List (Option String), frame.count none = ms.length ∧ frame.count none = ms'.length ∧
    s = fill frame ms ∧ s' = fill frame ms'

/-- A frame after another one is filled with the pieces that the first one leaves. -/
theorem fill_append {frame : List (Option String)} (h : frame.count none = ms.length)
    (rest : List (Option String)) :
    fill (frame ++ rest) (ms ++ ns) = fill frame ms ++ fill rest ns := by
  -- every hole takes one of `ms`, so that exactly `ns` is left for `rest`
  induction frame generalizing ms with
  | nil =>
    obtain rfl : ms = [] := List.length_eq_zero_iff.1 h.symm
    simp [fill]
  | cons slot frame ih =>
    cases slot with
    | some s =>
      have hrest : frame.count none = ms.length := by simpa using h
      simp [fill, ih hrest, String.append_assoc]
    | none =>
      cases ms with
      | nil => simp at h
      | cons m ms =>
        have hrest : frame.count none = ms.length := by simpa using h
        simp [fill, ih hrest, String.append_assoc]

namespace Framed

/-- A text without raw expressions is a frame of its own. -/
theorem same (s : String) : Framed [] [] s s :=
  ⟨[some s], rfl, rfl, by simp [fill], by simp [fill]⟩

/-- A hole on its own. -/
theorem piece (m m' : String) : Framed [m] [m'] m m' :=
  ⟨[none], rfl, rfl, by simp [fill], by simp [fill]⟩

/-- Two frames in a row; their pieces are filled in from left to right. -/
theorem append {s s' r r' : String} (h : Framed ms ms' s s') (h' : Framed ns ns' r r') :
    Framed (ms ++ ns) (ms' ++ ns') (s ++ r) (s' ++ r') := by
  obtain ⟨frame, hms, hms', rfl, rfl⟩ := h
  obtain ⟨rest, hns, hns', rfl, rfl⟩ := h'
  refine ⟨frame ++ rest, ?_, ?_, (fill_append hms rest).symm, (fill_append hms' rest).symm⟩
  · rw [List.count_append, List.length_append, hms, hns]
  · rw [List.count_append, List.length_append, hms', hns']

end Framed

/-! ## §2 Pieces of SQL -/

/-- Two pieces of SQL whose texts have a common frame. -/
structure Inlines (ms ms' : List String) (a b : Sql) : Prop where
  framed : Framed ms ms' a.text b.text

namespace Inlines

variable {a b c d : Sql}

/-- SQL beside itself. -/
theorem same (a : Sql) : Inlines [] [] a a :=
  ⟨.same a.text⟩

/-- Two pieces of SQL in a row. -/
theorem append (h : Inlines ms ms' a b) (h' : Inlines ns ns' c d) :
    Inlines (ms ++ ns) (ms' ++ ns') (a ++ c) (b ++ d) :=
  ⟨by simpa only [text_append] using h.framed.append h'.framed⟩

/-- Something in front that both have. -/
theorem after (c : Sql) (h : Inlines ms ms' a b) : Inlines ms ms' (c ++ a) (c ++ b) :=
  (same c).append h

/-- Something behind that both have. -/
theorem before (h : Inlines ms ms' a b) (c : Sql) : Inlines ms ms' (a ++ c) (b ++ c) := by
  simpa using h.append (same c)

/-- A raw expression fills the place of its value, and every other value has the same place. -/
theorem parameterFor {v w : Value} (h : v.Reworded w) (x y : Value) :
    Inlines (rawTexts [v]) (rawTexts [w]) (Sql.parameterFor v x) (Sql.parameterFor w y) := by
  refine ⟨?_⟩
  rw [text_parameterFor, text_parameterFor]
  cases h with
  | raw sql sql' => exact .piece sql sql'
  | same =>
    -- what is not raw is a placeholder in both, whatever is bound there
    cases v with
    | raw sql => exact .piece sql sql
    | _ => exact .same "?"

/-- The place of a value: both are raw expressions, or both are placeholders. -/
theorem parameter {v w : Value} (h : v.Reworded w) :
    Inlines (rawTexts [v]) (rawTexts [w]) (Sql.parameter v) (Sql.parameter w) :=
  parameterFor h v w

end Inlines

/-! ## §3 Lists -/

/-- Items of two lists that are related one by one, with the raw expressions of all of them. -/
inductive Gathered {α : Type} (R : List String → List String → α → α → Prop) :
    List String → List String → List α → List α → Prop
  | nil : Gathered R [] [] [] []
  | cons {ms ms' ns ns' a b as bs} (h : R ms ms' a b) (hrest : Gathered R ns ns' as bs) :
    Gathered R (ms ++ ns) (ms' ++ ns') (a :: as) (b :: bs)

namespace Gathered

variable {α β : Type} {R : List String → List String → α → α → Prop}
  {S : List String → List String → β → β → Prop} {as bs : List α}

/-- What both lists have in common. -/
theorem same (hR : ∀ a, R [] [] a a) (as : List α) : Gathered R [] [] as as := by
  induction as with
  | nil => exact .nil
  | cons a as ih => exact .cons (hR a) ih

/-- Gathered results after functions that respect what is gathered. -/
theorem map {f g : α → β} (h : Gathered R ms ms' as bs)
    (hfg : ∀ {ms ms' a b}, R ms ms' a b → S ms ms' (f a) (g b)) :
    Gathered S ms ms' (as.map f) (bs.map g) := by
  induction h with
  | nil => exact .nil
  | cons hab _ ih => exact .cons (hfg hab) ih

/-- Items are dropped from both lists if they have no raw expressions. -/
theorem filterMap {f g : α → Option β} (h : Gathered R ms ms' as bs)
    (hfg : ∀ {ms ms' a b}, R ms ms' a b → ms = [] ∧ ms' = [] ∧ f a = none ∧ g b = none ∨
      ∃ x y, f a = some x ∧ g b = some y ∧ S ms ms' x y) :
    Gathered S ms ms' (as.filterMap f) (bs.filterMap g) := by
  induction h with
  | nil => exact .nil
  | cons hab _ ih =>
    obtain ⟨rfl, rfl, hf, hg⟩ | ⟨x, y, hf, hg, hxy⟩ := hfg hab
    · rw [List.filterMap_cons_none hf, List.filterMap_cons_none hg]
      exact ih
    · rw [List.filterMap_cons_some hf, List.filterMap_cons_some hg]
      exact .cons hxy ih

/-- Gathered lists are equally long. -/
theorem isEmpty (h : Gathered R ms ms' as bs) : as.isEmpty = bs.isEmpty := by
  cases h <;> rfl

end Gathered

/-- A step taken for the items of two lists that correspond. -/
theorem Alike.gathered {α β γ ε : Type} {P : α → β → Prop} {f : α → Except ε γ}
    {g : β → Except ε γ} {m : α → List String} {m' : β → List String}
    {R : List String → List String → γ → γ → Prop} {xs : List α} {ys : List β}
    (h : List.Forall₂ P xs ys) (hfg : ∀ x y, P x y → Alike (R (m x) (m' y)) (f x) (g y)) :
    Alike (Gathered R (xs.flatMap m) (ys.flatMap m')) (xs.mapM f) (ys.mapM g) := by
  induction h with
  | nil => exact .result .nil
  | cons hxy _ ih =>
    rw [List.mapM_cons, List.mapM_cons, List.flatMap_cons, List.flatMap_cons]
    refine (hfg _ _ hxy).bind fun a b hab => ?_
    exact ih.bind fun as bs hrest => .pure (.cons hab hrest)

namespace Inlines

/-- Pieces of SQL with a separator, which is part of the frame. -/
theorem join (sep : String) {as bs : List Sql} (h : Gathered Inlines ms ms' as bs) :
    Inlines ms ms' (Sql.join sep as) (Sql.join sep bs) := by
  induction h with
  | nil => exact same _
  | cons hab hrest ih =>
    -- the separator stands behind an item only where another one follows
    cases hrest with
    | nil =>
      rw [List.append_nil, List.append_nil]
      exact hab
    | cons => exact (hab.before sep).append ih

theorem concat {as bs : List Sql} (h : Gathered Inlines ms ms' as bs) :
    Inlines ms ms' (Sql.concat as) (Sql.concat bs) := by
  induction h with
  | nil => exact same _
  | @cons _ _ _ _ a b as bs hab _ ih =>
    show Inlines _ _ (a ++ Sql.concat as) (b ++ Sql.concat bs)
    exact hab.append ih

/-- The places of values in a list. -/
theorem gathered_parameters {vs ws : List Value} (h : ValuesReworded vs ws) :
    Gathered Inlines (rawTexts vs) (rawTexts ws) (vs.map Sql.parameter)
      (ws.map Sql.parameter) := by
  induction h with
  | nil => exact .nil
  | @cons v w vs ws hv _ ih =>
    rw [rawTexts_cons v, rawTexts_cons w]
    exact .cons (parameter hv) ih

/-- The places of values, with commas in the frame. -/
theorem parameters {vs ws : List Value} (h : ValuesReworded vs ws) :
    Inlines (rawTexts vs) (rawTexts ws) (Sql.parameters vs) (Sql.parameters ws) :=
  join ", " (gathered_parameters h)

end Inlines

/-- Clauses with the same connective whose conditions have a common frame. -/
structure InlinesClause (ms ms' : List String) (c d : Clause Sql) : Prop where
  connective : c.connective = d.connective
  node : Inlines ms ms' c.node d.node

/-- Clauses with their connectives, which are part of the frame. -/
theorem Inlines.body {xs ys : List (Clause Sql)} (h : Gathered InlinesClause ms ms' xs ys) :
    Inlines ms ms' (Clause.body xs) (Clause.body ys) := by
  cases h with
  | nil => exact same _
  | cons hfirst hrest =>
    simp only [Clause.body, hfirst.connective]
    refine (hfirst.node.after _).append (concat (hrest.map fun {_ _ c d} hcd => ?_))
    rw [hcd.connective]
    exact hcd.node.after _

/-! ## §4 Conditions on rows -/

/-- Column, operator and casts belong to the frame. -/
theorem compareOperand_inlines (c : Column) (operator : String) {operand operand' : Sql}
    (h : Inlines ms ms' operand operand') :
    Alike (Inlines ms ms') (t.compareOperand c operator operand)
      (t.compareOperand c operator operand') := by
  refine .step _ fun left => ?_
  split
  · exact .pure (h.after _)
  · exact .pure (h.after _)

/-- A comparison with a value. -/
theorem compare_inlines (c : Column) (operator : String) {v w : Value} (h : v.Reworded w) :
    Alike (Inlines (rawTexts [v]) (rawTexts [w])) (t.compare c operator v)
      (t.compare c operator w) :=
  compareOperand_inlines c operator (.parameter h)

/-- A bitwise comparison with a value. -/
theorem bitwise_inlines (c : Column) (operator : String) {v w : Value} (h : v.Reworded w) :
    Alike (Inlines (rawTexts [v]) (rawTexts [w])) (t.bitwise c operator v)
      (t.bitwise c operator w) := by
  unfold Target.bitwise
  split
  · exact .step _ fun left => .pure (((Inlines.parameter h).after _).before _)
  · exact compare_inlines c operator h

/-- A raw expression as a pattern stands where a pattern does, and is no glob. -/
theorem like_inlines (c : Column) (caseSensitive negated : Bool) {v w : Value}
    (h : v.Reworded w) :
    Alike (Inlines (rawTexts [v]) (rawTexts [w])) (t.like c v caseSensitive negated)
      (t.like c w caseSensitive negated) :=
  .step _ fun _ => compareOperand_inlines c _ (.parameterFor h _ _)

/-- Both bounds, the lower one first. -/
theorem between_inlines (c : Column) (negated : Bool) {low low' high high' : Value}
    (hlow : low.Reworded low') (hhigh : high.Reworded high') :
    Alike (Inlines (rawTexts [low] ++ rawTexts [high]) (rawTexts [low'] ++ rawTexts [high']))
      (t.between c low high negated) (t.between c low' high' negated) :=
  .step _ fun _ => .pure
    ((((Inlines.parameter hlow).after _).before _).append (.parameter hhigh))

/-- Members of a list, which is as long after an exchange. -/
theorem inList_inlines (c : Column) (negated : Bool) {vs ws : List Value}
    (h : ValuesReworded vs ws) :
    Alike (Inlines (rawTexts vs) (rawTexts ws)) (t.inList c vs negated)
      (t.inList c ws negated) := by
  unfold Target.inList Target.among
  -- without values the condition is a constant and the column is not compiled at all
  cases h with
  | nil => exact .result (.same _)
  | cons hv hrest =>
    simp only [List.isEmpty_cons, Bool.false_eq_true, if_false]
    exact .step _ fun _ => .pure (((Inlines.parameters (.cons hv hrest)).after _).before _)

/-- A part of a date, compared in the form of each dialect. -/
theorem datePart_inlines (part : DatePart) (c : Column) (operator : String) {v w : Value}
    (h : v.Reworded w) :
    Alike (Inlines (rawTexts [v]) (rawTexts [w])) (t.datePart part c operator v)
      (t.datePart part c operator w) := by
  have hv := Inlines.parameter h
  unfold Target.datePart Target.compareFunction
  split
  -- SQLite casts the value; elsewhere it comes last
  case h_4 => exact .step _ fun left => .pure ((hv.after _).before _)
  all_goals exact .step _ fun left => .pure (hv.after _)

/-- Values of a row; a fault of its width is the same. -/
theorem rowValues_inlines (columns : List Column) (operator : String) {vs ws : List Value}
    (h : ValuesReworded vs ws) :
    Alike (Inlines (rawTexts vs) (rawTexts ws)) (t.rowValues columns operator vs)
      (t.rowValues columns operator ws) := by
  unfold Target.rowValues
  -- only the number of values decides whether the condition is refused
  rw [h.length_eq]
  split
  · exact .fault _
  · exact .step _ fun left => .pure (((Inlines.parameters h).after _).before _)

/-- A document that contains an operand. -/
theorem jsonContainsOperand_inlines (selector : String) {operand operand' : Sql}
    (h : Inlines ms ms' operand operand') :
    Alike (Inlines ms ms') (t.jsonContainsOperand selector operand)
      (t.jsonContainsOperand selector operand') := by
  unfold Target.jsonContainsOperand
  split
  · exact .fault _
  · exact .fault _
  · exact .step _ fun document => .pure (h.after _)
  · exact .pure ((h.after _).before _)
  · exact .pure (((h.before _).before _).before _)

/-- A raw expression stands for a document without being encoded. -/
theorem jsonContains_inlines (selector : String) (negated : Bool) {v w : Value}
    (h : v.Reworded w) :
    Alike (Inlines (rawTexts [v]) (rawTexts [w])) (t.jsonContains selector v negated)
      (t.jsonContains selector w negated) :=
  (jsonContainsOperand_inlines selector (.parameterFor h _ _)).bind fun _ _ hoperand =>
    .pure (hoperand.after _)

/-- A length compared with a value. -/
theorem jsonLength_inlines (selector operator : String) {v w : Value} (h : v.Reworded w) :
    Alike (Inlines (rawTexts [v]) (rawTexts [w])) (t.jsonLength selector operator v)
      (t.jsonLength selector operator w) := by
  have hv := Inlines.parameter h
  unfold Target.jsonLength Target.jsonLengthOperand
  split
  case h_3 => exact .step _ fun document => .step _ fun length => .pure (hv.after _)
  all_goals exact .step _ fun length => .pure (hv.after _)

/-- A search for a value. -/
theorem fullText_inlines (columns : List Column) (options : FullTextOptions) {v w : Value}
    (h : v.Reworded w) :
    Alike (Inlines (rawTexts [v]) (rawTexts [w])) (t.fullText columns v options)
      (t.fullText columns w options) := by
  have hv := Inlines.parameter h
  unfold Target.fullText
  split
  · exact .step _ fun list => .pure (((hv.after _).before _).before _)
  · exact .step _ fun vectors => .pure ((hv.after _).before _)
  · exact .fault _

/-! ## §5 Conditions on groups -/

/-- What has no raw expressions is compiled once for both. -/
theorem alike_same (x : Except Fault Sql) : Alike (Inlines [] []) x x :=
  .refl .same x

mutual

/-- The raw expressions of a condition on groups stand verbatim in its SQL. -/
theorem having_inlines (t : Target) : (p : HavingPredicate) → {p' : HavingPredicate} →
    p.Reworded p' → Alike (Inlines p.markers p'.markers) (t.having p) (t.having p')
  | .raw _ _, _, h => by
    cases h
    exact alike_same _
  | .expression _, _, h => by
    cases h
    exact alike_same _
  | .compare _ _ _, _, h => by
    cases h with
    | compare _ _ hv =>
      simp only [HavingPredicate.markers, Target.having]
      exact .step _ fun left => .pure ((Inlines.parameter hv).after _)
  | .between c _ _ negated, _, h => by
    cases h with
    | between _ _ hlow hhigh =>
      simp only [HavingPredicate.markers, Target.having]
      exact between_inlines c negated hlow hhigh
  | .isNull _, _, h => by
    cases h
    exact alike_same _
  | .isNotNull _, _, h => by
    cases h
    exact alike_same _
  | .bitwise _ _ _, _, h => by
    cases h with
    | bitwise _ _ hv =>
      simp only [HavingPredicate.markers, Target.having]
      exact .step _ fun left => .pure (((Inlines.parameter hv).after _).before _)
  | .group clauses, _, h => by
    cases h with
    | group hclauses =>
      simp only [HavingPredicate.markers, Target.having, hclauses.isEmpty]
      split
      · exact .fault _
      · exact (havingClauses_inlines t clauses hclauses).bind fun inner inner' hinner =>
          .pure (((Inlines.body hinner).after _).before _)

/-- Conditions on groups, one by one. -/
theorem havingClauses_inlines (t : Target) : (clauses : List (Clause HavingPredicate)) →
    {clauses' : List (Clause HavingPredicate)} → HavingsReworded clauses clauses' →
    Alike (Gathered InlinesClause (havingMarkers clauses) (havingMarkers clauses'))
      (t.havingClauses clauses) (t.havingClauses clauses')
  | [], _, h => by
    cases h
    simp only [havingMarkers, Target.havingClauses]
    exact .result .nil
  | ⟨_, node⟩ :: rest, _, h => by
    cases h with
    | cons _ hnode hrest =>
      simp only [havingMarkers, Target.havingClauses]
      refine (having_inlines t node hnode).bind fun first first' hfirst => ?_
      exact (havingClauses_inlines t rest hrest).bind fun others others' hothers =>
        .pure (.cons ⟨rfl, hfirst⟩ hothers)

end

end SqlCompiler
