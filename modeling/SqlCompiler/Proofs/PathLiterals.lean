import Mathlib.Tactic.IntervalCases
import SqlCompiler.Proofs.SelectorTokens

/-!
# Path Literals

How a database reads the literals that stand for paths into a document: a JSON path such as
`$."tags"[0]`, and an array such as `{"tags",0}`.

The literal of a JSON path is the path with its quotes doubled, if no backslash stands in front of a
quote. Its keys stand between double quotes, which are not escaped; neither are those of an array,
nor the backslashes that an array takes for escapes.

## Main definitions

- `PathStep`, `pathSteps?`: the steps of a JSON path
- `pathText`: the JSON path that leads through some steps
- `arrayElements?`: the elements of an array

## Main statements

- `toList_jsonPath`: the literal of a path
- `pathSteps?_pathText`: keys are read again from their path
- `arrayElements?_parts`: parts are read again from their array
-/

namespace SqlCompiler

/-! ## §1 Doubled quotes -/

namespace Text

theorem doubleChars_append (mark : Char) (cs ds : List Char) :
    doubleChars mark (cs ++ ds) = doubleChars mark cs ++ doubleChars mark ds :=
  List.flatMap_append

theorem doubleChars_reverse (mark : Char) (cs : List Char) :
    doubleChars mark cs.reverse = (doubleChars mark cs).reverse := by
  induction cs with
  | nil => rfl
  | cons c cs ih =>
    rw [List.reverse_cons, doubleChars_append, ih, doubleChars_cons, doubleChars_cons]
    split <;> simp [doubleChars]

theorem head?_doubleChars (mark : Char) (cs : List Char) :
    (doubleChars mark cs).head? = cs.head? := by
  cases cs with
  | nil => rfl
  | cons c cs =>
    rw [doubleChars_cons]
    split <;> rfl

theorem isEmpty_doubleChars (mark : Char) (cs : List Char) :
    (doubleChars mark cs).isEmpty = cs.isEmpty := by
  cases cs with
  | nil => rfl
  | cons c cs =>
    rw [doubleChars_cons]
    split <;> rfl

/-- A separator without the mark begins a text with doubled marks if it begins the text. -/
theorem isPrefixOf_doubleChars {sep : List Char} {mark : Char} (hmark : mark ∉ sep)
    (cs : List Char) : sep.isPrefixOf (doubleChars mark cs) = sep.isPrefixOf cs := by
  rw [Bool.eq_iff_iff, List.isPrefixOf_iff_prefix, List.isPrefixOf_iff_prefix]
  constructor
  · exact prefix_of_doubleChars hmark
  · rintro ⟨rest, rfl⟩
    rw [doubleChars_append, doubleChars_eq_self_iff.2 hmark]
    exact List.prefix_append _ _

/-- A text is cut at the same place whether its marks are doubled or not. -/
theorem splitFirstChars?_doubleChars {sep : List Char} {mark : Char} (hsep : sep ≠ [])
    (hmark : mark ∉ sep) (cs : List Char) :
    splitFirstChars? sep (doubleChars mark cs) =
      (splitFirstChars? sep cs).map (Prod.map (doubleChars mark) (doubleChars mark)) := by
  induction cs with
  | nil => simp [doubleChars, splitFirstChars?, hsep]
  | cons c cs ih =>
    by_cases hc : c = mark
    · -- no separator begins at a mark
      have hnot : ∀ ds, ¬ sep.isPrefixOf (mark :: ds) = true := by
        intro ds hbegins
        obtain ⟨x, rest, rfl⟩ := List.exists_cons_of_ne_nil hsep
        obtain ⟨rfl, -⟩ := List.cons_prefix_cons.1 (List.isPrefixOf_iff_prefix.1 hbegins)
        exact hmark List.mem_cons_self
      subst hc
      rw [doubleChars_cons, if_pos rfl, List.cons_append, List.cons_append, List.nil_append,
        splitFirstChars?, if_neg (hnot _), splitFirstChars?, if_neg (hnot _), ih,
        splitFirstChars?, if_neg (hnot _)]
      cases splitFirstChars? sep cs <;> simp [doubleChars]
    · have hcons : doubleChars mark (c :: cs) = c :: doubleChars mark cs := by
        rw [doubleChars_cons, if_neg hc, List.singleton_append]
      have hbegins := isPrefixOf_doubleChars hmark (c :: cs)
      rw [hcons] at hbegins
      rw [hcons, splitFirstChars?, splitFirstChars?, hbegins]
      split
      · rename_i hcut
        obtain ⟨rest, hrest⟩ := List.isPrefixOf_iff_prefix.1 hcut
        rw [← hcons, ← hrest, doubleChars_append, doubleChars_eq_self_iff.2 hmark]
        simp [doubleChars]
      · rw [ih]
        cases splitFirstChars? sep cs <;> simp [doubleChars, hc]

theorem splitOnChars_doubleChars {sep : List Char} {mark : Char} (hsep : sep ≠ [])
    (hmark : mark ∉ sep) (cs : List Char) :
    splitOnChars sep (doubleChars mark cs) = (splitOnChars sep cs).map (doubleChars mark) := by
  -- what stands behind a separator is shorter by more than a character, hence the length
  induction hn : cs.length using Nat.strong_induction_on generalizing cs with
  | _ n ih =>
    rw [splitOnChars_eq hsep, splitOnChars_eq hsep cs, splitFirstChars?_doubleChars hsep hmark]
    cases hcut : splitFirstChars? sep cs with
    | none => rfl
    | some sides =>
      have hlength := congrArg List.length (splitFirstChars?_eq_append hcut)
      have hpositive := List.length_pos_iff.2 hsep
      simp only [List.length_append] at hlength
      rw [Option.map_some, Option.elim_some, Option.elim_some, List.map_cons, Prod.map_fst,
        Prod.map_snd, ih sides.2.length (by omega) sides.2 rfl]

end Text

/-- The indices of a text with doubled quotes. -/
theorem indices?_doubleChars (current : Option (List Char)) (cs : List Char) :
    indices? (current.map (Text.doubleChars '\'')) (Text.doubleChars '\'' cs) =
      (indices? current cs).map (List.map (Text.doubleChars '\'')) := by
  induction cs generalizing current with
  | nil => cases current <;> rfl
  | cons c cs ih =>
    rw [Text.doubleChars_cons]
    split
    · -- a quote is in no case a bracket
      rename_i hc
      subst hc
      cases current with
      | none => simp [indices?]
      | some index =>
        have hindex := ih (some ('\'' :: index))
        simpa [indices?, Text.doubleChars] using hindex
    · rename_i hc
      cases current with
      | none =>
        have hopen := ih (some [])
        by_cases hbracket : c = '['
        · simpa [indices?, hbracket, Text.doubleChars] using hopen
        · simp [indices?, hbracket]
      | some index =>
        have hclosed := ih none
        have hindex := ih (some (c :: index))
        -- a bracket ends the index, unless the index is empty
        by_cases hbracket : c = ']'
        · simp only [Option.map_some, List.singleton_append, indices?, hbracket, if_true,
            Text.isEmpty_doubleChars, Option.map_none] at hclosed ⊢
          split
          · rfl
          · rw [hclosed]
            simp [← Text.doubleChars_reverse, Function.comp_def]
        · simpa [indices?, hbracket, Text.doubleChars_cons, hc] using hindex

theorem splitIndices_doubleChars (step : List Char) :
    splitIndices (Text.doubleChars '\'' step) =
      (Text.doubleChars '\'' (splitIndices step).1,
        (splitIndices step).2.map (Text.doubleChars '\'')) := by
  induction step with
  | nil => rfl
  | cons c cs ih =>
    rw [Text.doubleChars_cons]
    split
    · rename_i hc
      subst hc
      simp [splitIndices, ih, Text.doubleChars_cons]
    · rename_i hc
      have hindices := indices?_doubleChars none (c :: cs)
      rw [Text.doubleChars_cons, if_neg hc, List.singleton_append, Option.map_none] at hindices
      -- only at an opening bracket indices are tried
      by_cases hbracket : c = '['
      · rw [List.singleton_append, splitIndices, splitIndices, if_pos hbracket, if_pos hbracket,
          hindices]
        cases indices? none (c :: cs) with
        | none => simp [ih, Text.doubleChars_cons, hc]
        | some indices => rfl
      · simp [splitIndices, hbracket, ih, Text.doubleChars_cons, hc]

theorem pathStep_doubleChars (step : List Char) :
    pathStep (Text.doubleChars '\'' step) = Text.doubleChars '\'' (pathStep step) := by
  have hbracketed : ∀ indices : List (List Char),
      bracketed (indices.map (Text.doubleChars '\'')) =
        Text.doubleChars '\'' (bracketed indices) := by
    intro indices
    induction indices with
    | nil => rfl
    | cons index indices ih =>
      simp only [bracketed, List.map_cons, List.flatMap_cons, Text.doubleChars_append] at ih ⊢
      rw [ih]
      simp [Text.doubleChars_cons]
      rfl
  unfold pathStep
  rw [splitIndices_doubleChars]
  simp only [hbracketed, Text.isEmpty_doubleChars, List.isEmpty_map]
  split
  · rfl
  · simp [Text.doubleChars_cons, Text.doubleChars_append]

/-- A backslash that is dropped stands in front of a quote, with only backslashes between. -/
theorem infix_of_dropped {cs : List Char} (h : (cs.dropWhile (· = '\\')).head? = some '\'') :
    ['\\', '\''] <:+: '\\' :: cs := by
  induction cs with
  | nil => cases h
  | cons c cs ih =>
    by_cases hc : c = '\\'
    · subst hc
      rw [List.dropWhile_cons_of_pos (by simp)] at h
      exact (ih h).trans (List.suffix_cons _ _).isInfix
    · rw [List.dropWhile_cons_of_neg (by simpa using hc)] at h
      obtain rfl : c = '\'' := by simpa using h
      exact (List.prefix_append ['\\', '\''] cs).isInfix

/-- Backslashes are dropped only in front of quotes. -/
theorem escapeQuotes_eq_doubleChars {cs : List Char} (h : ¬ ['\\', '\''] <:+: cs) :
    escapeQuotes cs = Text.doubleChars '\'' cs := by
  induction cs with
  | nil => rfl
  | cons c cs ih =>
    have hrest := ih fun hin => h (hin.trans (List.suffix_cons c cs).isInfix)
    rw [escapeQuotes, Text.doubleChars_cons, hrest]
    split
    · rename_i hc
      rw [hc]
      rfl
    · split
      · -- a backslash is dropped only in front of a quote, where the path has none
        rename_i hdropped
        rw [hdropped.1] at h
        exact absurd (infix_of_dropped hdropped.2) h
      · rfl

/-! ## §2 JSON paths -/

/-- A step into a document. -/
inductive PathStep where
  | key (name : List Char)
  | index (text : List Char)
deriving DecidableEq, Repr

/-- The steps of a JSON path behind its root, for a reader who stands in the given step, the last
character first, or in none. Keys stand between double quotes behind a dot, indices in brackets. -/
def readPath : Option PathStep → List Char → Option (List PathStep)
  | none, [] => some []
  | none, '.' :: '"' :: cs => readPath (some (.key [])) cs
  | none, '[' :: cs => readPath (some (.index [])) cs
  | none, _ => none
  | some _, [] => none
  | some (.key name), c :: cs =>
    if c = '"' then (readPath none cs).map (.key name.reverse :: ·)
    else readPath (some (.key (c :: name))) cs
  | some (.index text), c :: cs =>
    if c = ']' then (readPath none cs).map (.index text.reverse :: ·)
    else readPath (some (.index (c :: text))) cs

/-- The steps of a JSON path. -/
def pathSteps? : List Char → Option (List PathStep)
  | '$' :: cs => readPath none cs
  | _ => none

/-- The JSON path that leads through some steps. -/
def pathText (steps : List (List Char)) : List Char :=
  let joined := Text.joinChars ['.'] (steps.map pathStep)
  if joined.head? = some '[' then '$' :: joined else '$' :: '.' :: joined

theorem joinChars_pathStep_doubleChars (steps : List (List Char)) :
    Text.joinChars ['.'] ((steps.map (Text.doubleChars '\'')).map pathStep) =
      Text.doubleChars '\'' (Text.joinChars ['.'] (steps.map pathStep)) := by
  cases steps with
  | nil => rfl
  | cons step steps =>
    simp only [List.map_cons, Text.joinChars_eq_flatMap, pathStep_doubleChars,
      Text.doubleChars_append, List.append_cancel_left_eq]
    induction steps with
    | nil => rfl
    | cons step steps ih =>
      simp [Text.doubleChars_append, Text.doubleChars_cons, pathStep_doubleChars] at ih ⊢
      exact ih

/-- A path literal is the path with its quotes doubled. -/
theorem toList_jsonPath {path : String} (h : ¬ ['\\', '\''] <:+: path.toList) :
    (jsonPath path).toList =
      '\'' :: Text.doubleChars '\'' (pathText ((Text.splitOn arrow path).map String.toList)) ++
        ['\''] := by
  have hsteps : (Text.splitOn arrow path).map String.toList =
      Text.splitOnChars arrow.toList path.toList := by
    rw [Text.splitOn, List.map_map]
    simp [Function.comp_def]
  -- a path literal doubles its quotes before it is cut, on the right they are doubled last
  rw [hsteps, jsonPath, jsonPathOn, String.toList_ofList, escapeQuotes_eq_doubleChars h,
    Text.splitOnChars_doubleChars (by decide) (by decide), joinChars_pathStep_doubleChars]
  unfold pathText
  simp only [Text.head?_doubleChars]
  split <;> simp [Text.doubleChars_cons]

/-- A key is read up to the quote behind it. -/
theorem readPath_key {name : List Char} (h : '"' ∉ name) (read rest : List Char) :
    readPath (some (.key read)) (name ++ '"' :: rest) =
      (readPath none rest).map (.key (read.reverse ++ name) :: ·) := by
  induction name generalizing read with
  | nil => simp [readPath]
  | cons c name ih =>
    rw [List.mem_cons, not_or] at h
    rw [List.cons_append]
    conv_lhs => rw [readPath, if_neg (Ne.symm h.1), ih h.2]
    simp

theorem readPath_keys {names : List (List Char)} (h : ∀ name ∈ names, '"' ∉ name) :
    readPath none (names.flatMap fun name => '.' :: '"' :: name ++ ['"']) =
      some (names.map .key) := by
  induction names with
  | nil => rfl
  | cons name names ih =>
    obtain ⟨hname, hnames⟩ := List.forall_mem_cons.1 h
    rw [List.flatMap_cons, List.append_assoc, List.cons_append, List.cons_append, readPath,
      List.singleton_append, readPath_key hname, ih hnames]
    rfl

/-- Steps without indices and double quotes are read again from their path. -/
theorem pathSteps?_pathText {steps : List (List Char)} (hne : steps ≠ [])
    (hkeys : ∀ step ∈ steps, splitIndices step = (step, []) ∧ '"' ∉ step) :
    pathSteps? (pathText steps) = some (steps.map .key) := by
  have hstep : steps.map pathStep = steps.map fun step => '"' :: step ++ ['"'] := by
    refine List.map_congr_left fun step hmem => ?_
    rw [pathStep, (hkeys step hmem).1]
    simp [bracketed]
  have htext : pathText steps =
      '$' :: steps.flatMap fun step => '.' :: '"' :: step ++ ['"'] := by
    rw [pathText, hstep]
    obtain ⟨first, rest, rfl⟩ := List.exists_cons_of_ne_nil hne
    rw [List.map_cons, Text.joinChars_eq_flatMap, List.flatMap_map]
    simp
  rw [htext, pathSteps?]
  exact readPath_keys fun step hmem => (hkeys step hmem).2

/-! ## §3 Arrays -/

/-- Where a reader of an array stands. -/
inductive ArrayStage where
  /-- In front of an element. -/
  | before
  /-- In an element without quotes, the last character first. -/
  | bare (text : List Char)
  /-- In an element between quotes, the last character first. -/
  | inside (text : List Char)
  /-- Behind the quotes of an element. -/
  | behind (text : List Char)
deriving DecidableEq, Repr

/-- A character that ends an element without quotes, or that must not stand in one. -/
def isArraySpecial (c : Char) : Bool :=
  c = '"' || c = '\\' || c = ',' || c = '\x7b' || c = '\x7d' || Text.isBlank c

/-- The elements of an array behind its opening brace. A backslash between quotes stands for the
character behind it; the word `null` without quotes is no text. -/
def readArray : ArrayStage → List Char → Option (List (List Char))
  | .before, '"' :: cs => readArray (.inside []) cs
  | .before, c :: cs => if isArraySpecial c then none else readArray (.bare [c]) cs
  | .bare text, c :: cs =>
    if c = ',' ∨ c = '\x7d' then
      if (text.map Char.toLower).reverse = ['n', 'u', 'l', 'l'] then none
      else if c = ',' then (readArray .before cs).map (text.reverse :: ·)
      else if cs = [] then some [text.reverse] else none
    else if isArraySpecial c then none else readArray (.bare (c :: text)) cs
  | .inside text, '\\' :: c :: cs => readArray (.inside (c :: text)) cs
  | .inside text, c :: cs =>
    if c = '"' then readArray (.behind text.reverse) cs else readArray (.inside (c :: text)) cs
  | .behind text, c :: cs =>
    if c = ',' then (readArray .before cs).map (text :: ·)
    else if c = '\x7d' ∧ cs = [] then some [text] else none
  | _, [] => none

/-- The elements of an array. -/
def arrayElements? : List Char → Option (List (List Char))
  | ['\x7b', '\x7d'] => some []
  | '\x7b' :: cs => readArray .before cs
  | _ => none

/-- An element between quotes is read up to the quote behind it. -/
theorem readArray_inside {text : List Char} (hquote : '"' ∉ text) (hescape : '\\' ∉ text)
    (read rest : List Char) :
    readArray (.inside read) (text ++ '"' :: rest) =
      readArray (.behind (read.reverse ++ text)) rest := by
  induction text generalizing read with
  | nil => simp [readArray]
  | cons c text ih =>
    rw [List.mem_cons, not_or] at hquote hescape
    rw [List.cons_append]
    have hstep : readArray (.inside read) (c :: (text ++ '"' :: rest)) =
        if c = '"' then readArray (.behind read.reverse) (text ++ '"' :: rest)
        else readArray (.inside (c :: read)) (text ++ '"' :: rest) := by
      rw [readArray]
      exact fun _ _ heq => absurd heq.symm hescape.1
    rw [hstep, if_neg (Ne.symm hquote.1), ih hquote.2 hescape.2]
    simp

/-- The digits one by one. -/
theorem mem_digits {c : Char} (h : isDigit c = true) :
    c ∈ ['0', '1', '2', '3', '4', '5', '6', '7', '8', '9'] := by
  have hrange : 48 ≤ c.toNat ∧ c.toNat ≤ 57 := by
    simpa [isDigit, Char.le_def, UInt32.le_iff_toNat_le] using h
  rw [← Char.ofNat_toNat c]
  generalize c.toNat = n at hrange
  obtain ⟨hlower, hupper⟩ := hrange
  interval_cases n <;> decide

/-- What an integer is made of is nothing special in an array, and does not make the word `null`. -/
theorem isArraySpecial_integer {c : Char} (h : isDigit c = true ∨ c = '-' ∨ c = '+') :
    isArraySpecial c = false ∧ c.toLower ≠ 'n' := by
  have hdigits : ['0', '1', '2', '3', '4', '5', '6', '7', '8', '9'].all
      (fun c => !isArraySpecial c && c.toLower ≠ 'n') = true := by decide
  rcases h with h | rfl | rfl
  · simpa using List.all_eq_true.1 hdigits c (mem_digits h)
  · decide
  · decide

/-- An integer is read up to the character behind it. -/
theorem readArray_bare {text : List Char}
    (h : ∀ c ∈ text, isDigit c = true ∨ c = '-' ∨ c = '+') (read : List Char) (c : Char)
    (rest : List Char) :
    readArray (.bare read) (text ++ c :: rest) =
      readArray (.bare (text.reverse ++ read)) (c :: rest) := by
  induction text generalizing read with
  | nil => rfl
  | cons x text ih =>
    obtain ⟨hx, htext⟩ := List.forall_mem_cons.1 h
    have hspecial : isArraySpecial x = false := (isArraySpecial_integer hx).1
    have hend : ¬ (x = ',' ∨ x = '\x7d') := by
      rintro (rfl | rfl) <;> exact absurd hspecial (by decide)
    rw [List.cons_append, readArray, if_neg hend, hspecial, ih htext]
    simp

/-- A part is read up to the comma or brace behind it. -/
theorem readArray_part {part : String} (hne : part ≠ "") (hquote : '"' ∉ part.toList)
    (hescape : '\\' ∉ part.toList) {c : Char} (hc : c = ',' ∨ c = '\x7d') (rest : List Char) :
    readArray .before ((quotePart "\"" part).toList ++ c :: rest) =
      readArray (.behind part.toList) (c :: rest) := by
  unfold quotePart
  split
  · rename_i hinteger
    have hmem := mem_integer hinteger
    obtain ⟨x, text, htext⟩ := List.exists_cons_of_ne_nil (l := part.toList) (by simpa using hne)
    rw [htext] at hmem ⊢
    obtain ⟨hx, hrest⟩ := List.forall_mem_cons.1 hmem
    have hspecial : isArraySpecial x = false := (isArraySpecial_integer hx).1
    have hfirst : readArray .before (x :: (text ++ c :: rest)) =
        readArray (.bare [x]) (text ++ c :: rest) := by
      rw [readArray, hspecial]
      · simp
      · rintro rfl
        exact absurd hspecial (by decide)
    have hnull : ¬ ((text.reverse ++ [x]).map Char.toLower).reverse = ['n', 'u', 'l', 'l'] := by
      intro hnull
      have hn : 'n' ∈ ((text.reverse ++ [x]).map Char.toLower).reverse := by
        rw [hnull]
        exact List.mem_cons_self
      rw [List.mem_reverse] at hn
      obtain ⟨y, hy, hlower⟩ := List.mem_map.1 hn
      exact (isArraySpecial_integer (hmem y (by simpa [or_comm] using hy))).2 hlower
    rw [List.cons_append, hfirst, readArray_bare hrest, readArray, if_pos hc, if_neg hnull,
      readArray]
    rcases hc with rfl | rfl <;> simp
  · simp only [String.toList_append, List.append_assoc]
    have hopen : "\"".toList = ['"'] := rfl
    rw [hopen, List.singleton_append, List.singleton_append, readArray,
      readArray_inside hquote hescape]
    rfl

theorem readArray_parts {part : String} {parts : List String}
    (h : ∀ p ∈ part :: parts, p ≠ "" ∧ '"' ∉ p.toList ∧ '\\' ∉ p.toList) :
    readArray .before ((quotePart "\"" part).toList ++
        (parts.flatMap fun p => ',' :: (quotePart "\"" p).toList) ++ ['\x7d']) =
      some ((part :: parts).map String.toList) := by
  induction parts generalizing part with
  | nil =>
    obtain ⟨hne, hquote, hescape⟩ := h part List.mem_cons_self
    rw [List.flatMap_nil, List.append_nil, readArray_part hne hquote hescape (.inr rfl), readArray]
    rfl
  | cons next parts ih =>
    obtain ⟨⟨hne, hquote, hescape⟩, hrest⟩ := List.forall_mem_cons.1 h
    rw [List.flatMap_cons, List.append_assoc, List.append_assoc, List.cons_append,
      readArray_part hne hquote hescape (.inl rfl), readArray, if_pos rfl, ← List.append_assoc,
      ih hrest]
    rfl

/-- Parts without double quotes and backslashes are read again from their array. -/
theorem arrayElements?_parts {parts : List String}
    (h : ∀ part ∈ parts, part ≠ "" ∧ '"' ∉ part.toList ∧ '\\' ∉ part.toList) :
    arrayElements? ('\x7b' :: (Text.join "," (parts.map (quotePart "\""))).toList ++ ['\x7d']) =
      some (parts.map String.toList) := by
  cases parts with
  | nil => rfl
  | cons part parts =>
    have hread := readArray_parts h
    rw [Text.join, String.toList_ofList, List.map_cons, List.map_cons, Text.joinChars_eq_flatMap,
      List.map_map, List.flatMap_map, List.cons_append]
    have hopen : arrayElements? ('\x7b' :: ((quotePart "\"" part).toList ++
        (parts.flatMap fun p => ',' :: (quotePart "\"" p).toList) ++ ['\x7d'])) =
          readArray .before ((quotePart "\"" part).toList ++
            (parts.flatMap fun p => ',' :: (quotePart "\"" p).toList) ++ ['\x7d']) := by
      rw [arrayElements?]
      -- the array is not empty, or nothing could be read from it
      intro heq
      rw [heq] at hread
      cases hread
    exact hopen.trans hread

end SqlCompiler
