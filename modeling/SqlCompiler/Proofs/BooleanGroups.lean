import SqlCompiler.Proofs.Outcome
import SqlCompiler.Proofs.Words
import SqlCompiler.Select

/-!
# Boolean Groups

Conditions are connected by words and grouped by parentheses, and the connective in front of a group
is dropped from its text. A reader with a stack of open groups gets the conditions back from the
text of any tree of them: all of its groups and connectives, except that `and` and `or` in front of
a group cannot be told apart.

## Main definitions

- `Outline`: conditions in groups, without the values that they bind
- `Predicate.outlines?`, `HavingPredicate.outlines?`: the outlines of conditions on rows and on
  groups
- `normalBody`: outlines in which no first member is connected by `or`
- `readBody`: the outlines in a text

## Main statements

- `Clause.body_eq_dropConnective`: what is dropped is the connective of the first member
- `passes_outline`: a reader takes in an outline as a whole
- `boolean_groups_lossless`: the text of conditions determines their outlines
-/

namespace SqlCompiler

/-! ## §1 Outlines -/

/-- The words between conditions, in any case. -/
def isConnecting (word : String) : Bool :=
  ["and", "or", "not"].contains (lowercase word)

/-- A condition of a single word that does not stand between conditions. -/
structure Leaf where
  text : String
  nonempty : text ≠ ""
  unbroken : isUnbroken text = true
  nonconnecting : isConnecting text = false
deriving DecidableEq

/-- A text as a condition of a single word. -/
def Leaf.ofText? (text : String) : Option Leaf :=
  if h : text ≠ "" ∧ isUnbroken text = true ∧ isConnecting text = false then
    some ⟨text, h.1, h.2.1, h.2.2⟩
  else none

/-- Conditions in groups, of which none is empty. -/
inductive Outline where
  | leaf (word : Leaf)
  | group (first : Clause Outline) (rest : List (Clause Outline))

mutual

/-- The outline of a condition on rows that is raw or a group. -/
def Predicate.outline? : Predicate → Option Outline
  | .raw sql _ => (Leaf.ofText? sql).map .leaf
  | .group clauses =>
    match Predicate.outlines? clauses with
    | some (first :: rest) => some (.group first rest)
    | _ => none
  | _ => none

/-- The outlines of conditions on rows. -/
def Predicate.outlines? : List (Clause Predicate) → Option (List (Clause Outline))
  | [] => some []
  | ⟨connective, node⟩ :: rest => do
    let outline ← node.outline?
    let others ← Predicate.outlines? rest
    return ⟨connective, outline⟩ :: others

end

mutual

/-- The outline of a condition on groups that is raw or a group itself. -/
def HavingPredicate.outline? : HavingPredicate → Option Outline
  | .raw sql _ => (Leaf.ofText? sql).map .leaf
  | .group clauses =>
    match HavingPredicate.outlines? clauses with
    | some (first :: rest) => some (.group first rest)
    | _ => none
  | _ => none

/-- The outlines of conditions on groups. -/
def HavingPredicate.outlines? : List (Clause HavingPredicate) → Option (List (Clause Outline))
  | [] => some []
  | ⟨connective, node⟩ :: rest => do
    let outline ← node.outline?
    let others ← HavingPredicate.outlines? rest
    return ⟨connective, outline⟩ :: others

end

/-- What is left of a connective in front of a group: whether it negates. -/
def Connective.leading : Connective → Connective
  | .and | .or => .and
  | .andNot | .orNot => .andNot

mutual

/-- An outline in which no first member of a group is connected by `or`. -/
def Outline.normal : Outline → Outline
  | .leaf word => .leaf word
  | .group ⟨connective, node⟩ rest =>
    .group ⟨connective.leading, node.normal⟩ (Outline.normalRest rest)

/-- The members of a group behind the first one, each in such a form. -/
def Outline.normalRest : List (Clause Outline) → List (Clause Outline)
  | [] => []
  | ⟨connective, node⟩ :: rest => ⟨connective, node.normal⟩ :: Outline.normalRest rest

end

/-- The members of a group in which no first member is connected by `or`. -/
def normalBody : List (Clause Outline) → List (Clause Outline)
  | [] => []
  | ⟨connective, node⟩ :: rest => ⟨connective.leading, node.normal⟩ :: Outline.normalRest rest

mutual

/-- The text of an outline. -/
def Outline.text : Outline → String
  | .leaf word => word.text
  | .group ⟨connective, node⟩ rest =>
    "(" ++ (connective.leadingWords ++ node.text ++ Outline.restText rest) ++ ")"

/-- The text of the members of a group behind the first one. -/
def Outline.restText : List (Clause Outline) → String
  | [] => ""
  | ⟨connective, node⟩ :: rest =>
    " " ++ connective.words ++ " " ++ node.text ++ Outline.restText rest

end

/-- The text of the members of a group. -/
def bodyText : List (Clause Outline) → String
  | [] => ""
  | ⟨connective, node⟩ :: rest =>
    connective.leadingWords ++ node.text ++ Outline.restText rest

/-! ## §2 The dropped connective -/

/-- Clauses in a row, all with their connectives. -/
def Clause.joined (clauses : List (Clause Sql)) : Sql :=
  .join " " (clauses.map fun c => c.connective.words ++ " " ++ c.node)

/-- A text without the word `and` or `or` in front of it, in any case. -/
def dropConnective (text : List Char) : List Char :=
  if "and ".toList.isPrefixOf (text.map Char.toLower) then text.drop 4
  else if "or ".toList.isPrefixOf (text.map Char.toLower) then text.drop 3
  else text

theorem Sql.text_join_blank (first : Sql) (rest : List Sql) :
    (Sql.join " " (first :: rest)).text =
      first.text ++ (Sql.concat (rest.map fun s => (" " : Sql) ++ s)).text := by
  induction rest generalizing first with
  | nil => simp [Sql.join, Sql.concat, Sql.text]
  | cons s rest ih =>
    have hconcat : (Sql.concat (((" " : Sql) ++ s) :: rest.map fun s => (" " : Sql) ++ s)).text =
        ((" " : Sql) ++ s).text ++ (Sql.concat (rest.map fun s => (" " : Sql) ++ s)).text := by
      rw [← Sql.text_append]
      rfl
    rw [Sql.join, Sql.text_append, Sql.text_append, ih, List.map_cons, hconcat]
    · simp [String.append_assoc]
    · simp

/-- The body of clauses is their text without the connective in front: no other word is dropped,
whatever the clauses are, and a negation stays. -/
theorem Clause.body_eq_dropConnective (clauses : List (Clause Sql)) :
    (Clause.body clauses).text.toList = dropConnective (Clause.joined clauses).text.toList := by
  cases clauses with
  | nil => rfl
  | cons first rest =>
    obtain ⟨connective, node⟩ := first
    -- the two texts differ in nothing but the words in front of the first clause
    have hbody : (Clause.body (⟨connective, node⟩ :: rest)).text =
        connective.leadingWords ++ node.text ++
          (Sql.concat (rest.map fun c => " " ++ c.connective.words ++ " " ++ c.node)).text := by
      rw [Clause.body, Sql.text_append, Sql.text_append, Sql.text_ofString]
    have hjoined : (Clause.joined (⟨connective, node⟩ :: rest)).text =
        connective.words ++ " " ++ node.text ++
          (Sql.concat (rest.map fun c => " " ++ c.connective.words ++ " " ++ c.node)).text := by
      rw [Clause.joined, List.map_cons, Sql.text_join_blank, List.map_map]
      simp only [Sql.text_append, Sql.text_ofString]
      rfl
    rw [hbody, hjoined]
    simp only [String.toList_append]
    cases connective <;> rfl

/-! ## §3 A reader -/

/-- What has been read of a group: its members, the last one first, and the connective of the next
one. -/
structure Frame where
  members : List (Clause Outline)
  pending : Option Connective

/-- The group that is being read, and the groups around it from the inside to the outside. -/
structure Reader where
  current : Frame
  around : List Frame

/-- A group of which nothing has been read. -/
def Frame.start : Frame :=
  ⟨[], some .and⟩

/-- A member behind its connective. -/
def Frame.add? (frame : Frame) (member : Outline) : Option Frame :=
  frame.pending.map fun connective => ⟨⟨connective, member⟩ :: frame.members, none⟩

/-- A word behind a member, or a negation behind such a word. -/
def Frame.connect? (frame : Frame) (word : String) : Option Frame :=
  match lowercase word, frame.pending with
  | "and", none => some { frame with pending := some .and }
  | "or", none => some { frame with pending := some .or }
  | "not", some .and => some { frame with pending := some .andNot }
  | "not", some .or => some { frame with pending := some .orNot }
  | _, _ => none

/-- A group that has been read to its end. -/
def Frame.close? : Frame → Option Outline
  | ⟨members, none⟩ =>
    match members.reverse with
    | first :: rest => some (.group first rest)
    | [] => none
  | ⟨_, some _⟩ => none

/-- One more word. -/
def Reader.step (r : Reader) : Word → Option Reader
  | .plain word =>
    match Leaf.ofText? word with
    | some leaf => (r.current.add? (.leaf leaf)).map (⟨·, r.around⟩)
    | none => (r.current.connect? word).map (⟨·, r.around⟩)
  | .opening =>
    if r.current.pending.isSome then some ⟨.start, r.current :: r.around⟩ else none
  | .closing =>
    match r.around with
    | outer :: around => do
      let group ← r.current.close?
      let frame ← outer.add? group
      return ⟨frame, around⟩
    | [] => none

/-- What has been read where a text ends: no group is open and no connective is left. -/
def Reader.finish? : Reader → Option (List (Clause Outline))
  | ⟨⟨members, none⟩, []⟩ => some members.reverse
  | ⟨⟨[], some .and⟩, []⟩ => some []
  | _ => none

/-- The outlines in a text of connectives, groups and words. -/
def readBody (text : String) : Option (List (Clause Outline)) := do
  let r ← (wordsOf text).foldlM Reader.step ⟨.start, []⟩
  r.finish?

/-! ## §4 Steps of the reader -/

/-- A reader goes from one state to another over a text. -/
def Passes (text : String) (r r' : Reader) : Prop :=
  ∃ words, HasWords text words ∧ words.foldlM Reader.step r = some r'

theorem Passes.word {word : String} {r r' : Reader} (hne : word ≠ "")
    (hunbroken : isUnbroken word = true) (h : r.step (.plain word) = some r') :
    Passes word r r' := by
  refine ⟨[.plain word], hasWords_plain hne hunbroken, ?_⟩
  rw [List.foldlM_cons, h]
  rfl

theorem Passes.blank {a b : String} {r r' r'' : Reader} (ha : Passes a r r')
    (hb : Passes b r' r'') :
    Passes (a ++ " " ++ b) r r'' := by
  obtain ⟨ws, hws, hrun⟩ := ha
  obtain ⟨us, hus, hrun'⟩ := hb
  refine ⟨ws ++ us, hws.blank hus, ?_⟩
  rw [List.foldlM_append, hrun]
  exact hrun'

theorem Passes.parentheses {a : String} {r r₁ r₂ r' : Reader} (hopen : r.step .opening = some r₁)
    (ha : Passes a r₁ r₂) (hclose : r₂.step .closing = some r') :
    Passes ("(" ++ a ++ ")") r r' := by
  obtain ⟨ws, hws, hrun⟩ := ha
  refine ⟨_, hws.parentheses, ?_⟩
  rw [List.cons_append, List.foldlM_cons, hopen]
  show (ws ++ [Word.closing]).foldlM Reader.step r₁ = some r'
  rw [List.foldlM_append, hrun]
  show [Word.closing].foldlM Reader.step r₂ = some r'
  rw [List.foldlM_cons, hclose]
  rfl

theorem Leaf.ofText?_text (word : Leaf) : Leaf.ofText? word.text = some word :=
  dif_pos ⟨word.nonempty, word.unbroken, word.nonconnecting⟩

theorem Leaf.ofText?_of_isConnecting {word : String} (h : isConnecting word = true) :
    Leaf.ofText? word = none := by
  apply dif_neg
  rintro ⟨-, -, hplain⟩
  rw [h] at hplain
  cases hplain

variable (members : List (Clause Outline)) (connective : Connective) (around : List Frame)

/-- A leaf is added behind its connective. -/
theorem passes_leaf (word : Leaf) :
    Passes word.text ⟨⟨members, some connective⟩, around⟩
      ⟨⟨⟨connective, .leaf word⟩ :: members, none⟩, around⟩ := by
  refine .word word.nonempty word.unbroken ?_
  rw [Reader.step, Leaf.ofText?_text]
  rfl

theorem Frame.close?_reverse (first : Clause Outline) (rest : List (Clause Outline)) :
    Frame.close? ⟨rest.reverse ++ [first], none⟩ = some (.group first rest) := by
  rw [Frame.close?, List.reverse_append, List.reverse_reverse]
  rfl

/-- A word that connects goes to the group that is being read. -/
theorem passes_connecting {word : String} {frame frame' : Frame}
    (hword : word ∈ ["and", "or", "not"]) (h : frame.connect? word = some frame') :
    Passes word ⟨frame, around⟩ ⟨frame', around⟩ := by
  have hwords : ∀ word ∈ ["and", "or", "not"],
      word ≠ "" ∧ isUnbroken word = true ∧ isConnecting word = true := by decide
  obtain ⟨hne, hunbroken, hconnecting⟩ := hwords word hword
  refine .word hne hunbroken ?_
  simp only [Reader.step, Leaf.ofText?_of_isConnecting hconnecting, h, Option.map_some]

/-- The words of a connective between two members. -/
theorem passes_words :
    Passes connective.words ⟨⟨members, none⟩, around⟩ ⟨⟨members, some connective⟩, around⟩ := by
  have hand : Passes "and" ⟨⟨members, none⟩, around⟩ ⟨⟨members, some .and⟩, around⟩ :=
    passes_connecting around (by simp) rfl
  have hor : Passes "or" ⟨⟨members, none⟩, around⟩ ⟨⟨members, some .or⟩, around⟩ :=
    passes_connecting around (by simp) rfl
  -- a negated connective is two words, and the reader stops between them
  have handNot : Passes "not" ⟨⟨members, some .and⟩, around⟩ ⟨⟨members, some .andNot⟩, around⟩ :=
    passes_connecting around (by simp) rfl
  have horNot : Passes "not" ⟨⟨members, some .or⟩, around⟩ ⟨⟨members, some .orNot⟩, around⟩ :=
    passes_connecting around (by simp) rfl
  cases connective with
  | and => exact hand
  | or => exact hor
  | andNot => exact hand.blank handNot
  | orNot => exact hor.blank horNot

/-- The first member of a group, with what is left of its connective. -/
theorem passes_first {text : String} {node : Outline}
    (h : ∀ connective, Passes text ⟨⟨[], some connective⟩, around⟩
      ⟨⟨[⟨connective, node⟩], none⟩, around⟩) :
    Passes (connective.leadingWords ++ text) ⟨.start, around⟩
      ⟨⟨[⟨connective.leading, node⟩], none⟩, around⟩ := by
  -- the frame starts with a pending `and`, which a leading `not` turns into its negation
  have hnot : Passes "not" ⟨.start, around⟩ ⟨⟨[], some .andNot⟩, around⟩ :=
    passes_connecting around (by simp) rfl
  have hnegated : Passes ("not " ++ text) ⟨.start, around⟩
      ⟨⟨[⟨.andNot, node⟩], none⟩, around⟩ := hnot.blank (h .andNot)
  have hplain : Passes ("" ++ text) ⟨.start, around⟩ ⟨⟨[⟨.and, node⟩], none⟩, around⟩ := by
    rw [String.empty_append]
    exact h .and
  cases connective with
  | and => exact hplain
  | or => exact hplain
  | andNot => exact hnegated
  | orNot => exact hnegated

/-! ## §5 Runs of the reader -/

mutual

/-- A reader takes in an outline as a whole, up to the connectives in front of groups. -/
theorem passes_outline (members : List (Clause Outline)) (connective : Connective)
    (around : List Frame) : (o : Outline) →
    Passes o.text ⟨⟨members, some connective⟩, around⟩
      ⟨⟨⟨connective, o.normal⟩ :: members, none⟩, around⟩
  | .leaf word => passes_leaf members connective around word
  | .group ⟨inner, node⟩ rest => by
    have hfirst := passes_first inner (⟨members, some connective⟩ :: around)
      fun c => passes_outline [] c (⟨members, some connective⟩ :: around) node
    have hrest := passes_rest _ _ hfirst rest
    -- the opening parenthesis puts this group on top, the closing one makes a member of it
    refine .parentheses rfl hrest ?_
    rw [Reader.step, Frame.close?_reverse]
    rfl

/-- A reader takes in the members of a group behind those that it has read. -/
theorem passes_rest {read : String} {r : Reader} (members : List (Clause Outline))
    (around : List Frame) (h : Passes read r ⟨⟨members, none⟩, around⟩) :
    (rest : List (Clause Outline)) →
    Passes (read ++ Outline.restText rest) r
      ⟨⟨(Outline.normalRest rest).reverse ++ members, none⟩, around⟩
  | [] => by
    simpa [Outline.restText, Outline.normalRest] using h
  | ⟨connective, node⟩ :: rest => by
    have hnode := (h.blank (passes_words members connective around)).blank
      (passes_outline members connective around node)
    have hrest := passes_rest _ _ hnode rest
    simpa [Outline.restText, Outline.normalRest, String.append_assoc] using hrest

end

/-- The text of members of a group is read as the members, up to the connectives in front. -/
theorem readBody_bodyText (outlines : List (Clause Outline)) :
    readBody (bodyText outlines) = some (normalBody outlines) := by
  cases outlines with
  | nil => rfl
  | cons first rest =>
    obtain ⟨connective, node⟩ := first
    have hfirst := passes_first connective [] fun c => passes_outline [] c [] node
    obtain ⟨words, hwords, hrun⟩ := passes_rest _ _ hfirst rest
    have hall : wordsOf (bodyText (⟨connective, node⟩ :: rest)) = words := hwords.wordsOf
    -- the members have been read from left to right, and stand there from right to left
    rw [readBody, hall, hrun]
    show some (((Outline.normalRest rest).reverse ++ _).reverse) = _
    rw [List.reverse_append, List.reverse_reverse]
    rfl

mutual

theorem Outline.text_normal : (o : Outline) → o.normal.text = o.text
  | .leaf _ => rfl
  | .group ⟨connective, node⟩ rest => by
    have hleading : connective.leading.leadingWords = connective.leadingWords := by
      cases connective <;> rfl
    rw [Outline.normal, Outline.text, Outline.text, hleading, Outline.text_normal node,
      Outline.restText_normalRest rest]

theorem Outline.restText_normalRest : (rest : List (Clause Outline)) →
    Outline.restText (Outline.normalRest rest) = Outline.restText rest
  | [] => rfl
  | ⟨connective, node⟩ :: rest => by
    rw [Outline.normalRest, Outline.restText, Outline.restText, Outline.text_normal node,
      Outline.restText_normalRest rest]

end

/-- The connectives in front of groups do not show in the text. -/
theorem bodyText_normalBody (outlines : List (Clause Outline)) :
    bodyText (normalBody outlines) = bodyText outlines := by
  cases outlines with
  | nil => rfl
  | cons first rest =>
    obtain ⟨connective, node⟩ := first
    have hleading : connective.leading.leadingWords = connective.leadingWords := by
      cases connective <;> rfl
    rw [normalBody, bodyText, bodyText, hleading, Outline.text_normal, Outline.restText_normalRest]

/-! ## §6 Rendered conditions -/

/-- Rendered clauses with the connectives and texts of outlines. -/
def Outlined (rendered : List (Clause Sql)) (outlines : List (Clause Outline)) : Prop :=
  List.Forall₂ (fun c o => c.connective = o.connective ∧ c.node.text = o.node.text)
    rendered outlines

theorem Outlined.text_concat {rendered : List (Clause Sql)} {outlines : List (Clause Outline)}
    (h : Outlined rendered outlines) :
    (Sql.concat (rendered.map fun c => " " ++ c.connective.words ++ " " ++ c.node)).text =
      Outline.restText outlines := by
  induction h with
  | nil => rfl
  | @cons c o rendered outlines hco _ ih =>
    obtain ⟨connective, node⟩ := c
    obtain ⟨connective', node'⟩ := o
    -- the connective is the same one, and of the member only the text is known
    obtain ⟨rfl, hnode⟩ := hco
    have hconcat : (Sql.concat ((⟨connective, node⟩ :: rendered).map
        fun c => " " ++ c.connective.words ++ " " ++ c.node)).text =
          (((" " : Sql) ++ connective.words ++ " " ++ node) ++ Sql.concat
            (rendered.map fun c => " " ++ c.connective.words ++ " " ++ c.node)).text := rfl
    rw [hconcat, Sql.text_append, ih, Outline.restText, ← hnode]
    simp

theorem Outlined.text_body {rendered : List (Clause Sql)} {outlines : List (Clause Outline)}
    (h : Outlined rendered outlines) : (Clause.body rendered).text = bodyText outlines := by
  cases h with
  | nil => rfl
  | @cons c o rendered outlines hco hrest =>
    obtain ⟨connective, node⟩ := c
    obtain ⟨connective', node'⟩ := o
    obtain ⟨rfl, hnode⟩ := hco
    rw [Clause.body, Sql.text_append, Sql.text_append, Sql.text_ofString, hnode,
      Outlined.text_concat hrest, bodyText]

theorem Outlined.text_group {rendered : List (Clause Sql)} {first : Clause Outline}
    {rest : List (Clause Outline)} (h : Outlined rendered (first :: rest)) :
    (("(" : Sql) ++ Clause.body rendered ++ ")").text = (Outline.group first rest).text := by
  rw [Sql.text_append, Sql.text_append, h.text_body]
  rfl

theorem Leaf.text_of_ofText? {s : String} {word : Leaf} (h : Leaf.ofText? s = some word) :
    word.text = s := by
  unfold Leaf.ofText? at h
  split at h
  · cases h
    rfl
  · cases h

variable (t : Target)

mutual

/-- A condition on rows with an outline has the text of its outline. -/
theorem predicate_text_of_outline : (p : Predicate) → {o : Outline} → p.outline? = some o →
    ∃ sql, t.predicate p = .ok sql ∧ sql.text = o.text
  | .raw text bindings, o, h => by
    obtain ⟨word, hword, rfl⟩ := Option.map_eq_some_iff.1 h
    refine ⟨.fragment text bindings, rfl, ?_⟩
    rw [Sql.text_fragment, Outline.text, Leaf.text_of_ofText? hword]
  | .group clauses, o, h => by
    rw [Predicate.outline?] at h
    split at h
    · rename_i first rest hclauses
      cases h
      obtain ⟨rendered, hrendered, houtlined⟩ := clauses_outlined clauses hclauses
      -- an empty group has no outline, so this one does not render as the neutral condition
      have hne : clauses.isEmpty = false := by
        cases clauses with
        | nil => cases hclauses
        | cons _ _ => rfl
      refine ⟨"(" ++ Clause.body rendered ++ ")", ?_, houtlined.text_group⟩
      rw [Target.predicate, hne, hrendered]
      rfl
    · cases h

/-- Conditions on rows with outlines have the texts of their outlines. -/
theorem clauses_outlined : (clauses : List (Clause Predicate)) → {os : List (Clause Outline)} →
    Predicate.outlines? clauses = some os →
    ∃ rendered, t.clauses clauses = .ok rendered ∧ Outlined rendered os
  | [], os, h => by
    cases h
    exact ⟨[], rfl, .nil⟩
  | ⟨connective, node⟩ :: rest, os, h => by
    simp only [Predicate.outlines?, Option.bind_eq_bind, Option.bind_eq_some_iff] at h
    obtain ⟨o, ho, others, hothers, hos⟩ := h
    cases hos
    obtain ⟨sql, hsql, htext⟩ := predicate_text_of_outline node ho
    obtain ⟨rendered, hrendered, houtlined⟩ := clauses_outlined rest hothers
    refine ⟨⟨connective, sql⟩ :: rendered, ?_, .cons ⟨rfl, htext⟩ houtlined⟩
    rw [Target.clauses, hsql, hrendered]
    rfl

end

mutual

/-- A condition on groups with an outline has the text of its outline. -/
theorem having_text_of_outline : (p : HavingPredicate) → {o : Outline} → p.outline? = some o →
    ∃ sql, t.having p = .ok sql ∧ sql.text = o.text
  | .raw text bindings, o, h => by
    obtain ⟨word, hword, rfl⟩ := Option.map_eq_some_iff.1 h
    refine ⟨.fragment text bindings, rfl, ?_⟩
    rw [Sql.text_fragment, Outline.text, Leaf.text_of_ofText? hword]
  | .group clauses, o, h => by
    rw [HavingPredicate.outline?] at h
    split at h
    · rename_i first rest hclauses
      cases h
      obtain ⟨rendered, hrendered, houtlined⟩ := havingClauses_outlined clauses hclauses
      -- as for a condition on rows: only an empty group renders as something else
      have hne : clauses.isEmpty = false := by
        cases clauses with
        | nil => cases hclauses
        | cons _ _ => rfl
      refine ⟨"(" ++ Clause.body rendered ++ ")", ?_, houtlined.text_group⟩
      rw [Target.having, hne, hrendered]
      rfl
    · cases h

/-- Conditions on groups with outlines have the texts of their outlines. -/
theorem havingClauses_outlined : (clauses : List (Clause HavingPredicate)) →
    {os : List (Clause Outline)} → HavingPredicate.outlines? clauses = some os →
    ∃ rendered, t.havingClauses clauses = .ok rendered ∧ Outlined rendered os
  | [], os, h => by
    cases h
    exact ⟨[], rfl, .nil⟩
  | ⟨connective, node⟩ :: rest, os, h => by
    simp only [HavingPredicate.outlines?, Option.bind_eq_bind, Option.bind_eq_some_iff] at h
    obtain ⟨o, ho, others, hothers, hos⟩ := h
    cases hos
    obtain ⟨sql, hsql, htext⟩ := having_text_of_outline node ho
    obtain ⟨rendered, hrendered, houtlined⟩ := havingClauses_outlined rest hothers
    refine ⟨⟨connective, sql⟩ :: rendered, ?_, .cons ⟨rfl, htext⟩ houtlined⟩
    rw [Target.havingClauses, hsql, hrendered]
    rfl

end

/-! ## §7 Conditions from their text -/

/-- Clauses with outlines are rendered, and their outlines are known from the body of the rendered
clauses, up to the connectives in front of groups. -/
structure Lossless {α : Type} (outlines? : List (Clause α) → Option (List (Clause Outline)))
    (render : Target → List (Clause α) → Except Fault (List (Clause Sql))) : Prop where
  /-- The body is read as the outlines. -/
  read : ∀ (t : Target) (clauses : List (Clause α)) (outlines : List (Clause Outline)),
    outlines? clauses = some outlines →
    ∃ rendered, render t clauses = .ok rendered ∧
      readBody (Clause.body rendered).text = some (normalBody outlines)
  /-- Bodies are equal exactly if the outlines are, whatever the dialects. -/
  eq_iff : ∀ (t t' : Target) (clauses clauses' : List (Clause α))
    (outlines outlines' : List (Clause Outline)) (rendered rendered' : List (Clause Sql)),
    outlines? clauses = some outlines → outlines? clauses' = some outlines' →
    render t clauses = .ok rendered → render t' clauses' = .ok rendered' →
    ((Clause.body rendered).text = (Clause.body rendered').text ↔
      normalBody outlines = normalBody outlines')

/-- Bodies with the texts of outlines are enough. -/
theorem Lossless.of_outlined {α : Type}
    {outlines? : List (Clause α) → Option (List (Clause Outline))}
    {render : Target → List (Clause α) → Except Fault (List (Clause Sql))}
    (h : ∀ t clauses outlines, outlines? clauses = some outlines →
      ∃ rendered, render t clauses = .ok rendered ∧ Outlined rendered outlines) :
    Lossless outlines? render where
  read t clauses outlines houtlines := by
    obtain ⟨rendered, hrendered, houtlined⟩ := h t clauses outlines houtlines
    exact ⟨rendered, hrendered, houtlined.text_body ▸ readBody_bodyText outlines⟩
  eq_iff t t' clauses clauses' outlines outlines' rendered rendered' houtlines houtlines' hrender
      hrender' := by
    obtain ⟨_, hrendered, houtlined⟩ := h t clauses outlines houtlines
    obtain ⟨_, hrendered', houtlined'⟩ := h t' clauses' outlines' houtlines'
    obtain rfl := Except.ok.inj (hrender.symm.trans hrendered)
    obtain rfl := Except.ok.inj (hrender'.symm.trans hrendered')
    rw [houtlined.text_body, houtlined'.text_body]
    constructor
    · -- equal texts are read alike
      intro heq
      have hread := readBody_bodyText outlines
      rw [heq, readBody_bodyText] at hread
      exact (Option.some.inj hread).symm
    · intro heq
      rw [← bodyText_normalBody outlines, heq, bodyText_normalBody]

/-- No group is lost: the body of clauses is their text without the connective in front, and
determines conditions on rows as well as conditions on groups. -/
theorem boolean_groups_lossless :
    (∀ clauses : List (Clause Sql), (Clause.body clauses).text.toList =
      dropConnective (Clause.joined clauses).text.toList) ∧
    Lossless Predicate.outlines? Target.clauses ∧
    Lossless HavingPredicate.outlines? Target.havingClauses :=
  ⟨Clause.body_eq_dropConnective,
    .of_outlined fun t clauses _ h => clauses_outlined t clauses h,
    .of_outlined fun t clauses _ h => havingClauses_outlined t clauses h⟩

/-- Conditions in groups within groups, with connectives in front of each of them. -/
def reminderConditions (front : Connective) : List (Clause Predicate) :=
  [⟨.orNot, .raw "andy=?" [.int 1]⟩,
    ⟨.or, .group
      [⟨front, .group [⟨.andNot, .raw "order" []⟩, ⟨.orNot, .raw "due<now" []⟩]⟩,
        ⟨.and, .group [⟨.or, .raw "nothing" []⟩]⟩]⟩]

/-- The conditions are read back, and with another word in front of a group they look the same. -/
theorem reminderConditions_lossless :
    ∃ outlines outlines' rendered rendered',
      Predicate.outlines? (reminderConditions .and) = some outlines ∧
      Predicate.outlines? (reminderConditions .or) = some outlines' ∧
      Target.clauses ⟨.mysql, {}⟩ (reminderConditions .and) = .ok rendered ∧
      Target.clauses ⟨.sqlserver, {}⟩ (reminderConditions .or) = .ok rendered' ∧
      (Clause.body rendered).text = "not andy=? or ((not order or not due<now) and (nothing))" ∧
      readBody "not andy=? or ((not order or not due<now) and (nothing))" =
        some (normalBody outlines) ∧
      ((Clause.body rendered).text = (Clause.body rendered').text ↔
        normalBody outlines = normalBody outlines') ∧
      (Clause.body rendered).text = (Clause.body rendered').text := by
  obtain ⟨-, hwhere, -⟩ := boolean_groups_lossless
  obtain ⟨rendered, hrendered, hread⟩ :=
    hwhere.read ⟨.mysql, {}⟩ (reminderConditions .and) _ rfl
  obtain ⟨rendered', hrendered', -⟩ :=
    hwhere.read ⟨.sqlserver, {}⟩ (reminderConditions .or) _ rfl
  have heq := hwhere.eq_iff _ _ _ _ _ _ _ _ rfl rfl hrendered hrendered'
  cases hrendered
  cases hrendered'
  refine ⟨_, _, _, _, rfl, rfl, rfl, rfl, ?_, hread, heq, ?_⟩
  · decide
  · decide

end SqlCompiler
