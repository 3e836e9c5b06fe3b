import SqlCompiler.Value
import SqlCompiler.Text.Blank

/-!
# Labelled SQL

SQL text in pieces. A placeholder carries the value it stands for, a verbatim fragment the values
of its own placeholders; so a piece of SQL determines both its text and the values that have to be
bound to it, in order.

## Main definitions

- `Sql.Piece`, `Sql`: pieces, and a sequence of them
- `Sql.text`: the SQL text, with `?` for every placeholder
- `Sql.labels`: the values of the placeholders, from left to right
- `Sql.parameter`: a placeholder for a value, or the text of a raw expression
- `Sql.join`, `Sql.words`: several pieces of SQL in a row

## Main statements

- `Sql.text_append`, `Sql.labels_append`: both views of a concatenation
- `Sql.text_parameter`, `Sql.labels_parameter`: both views of a placeholder
- `Sql.labels_words`, `Sql.labels_join`, `Sql.labels_trimEnd`: layout changes no labels
- `Sql.text_trimEnd`: pieces are trimmed as their text is
-/

namespace SqlCompiler

/-! ## §1 Pieces -/

/-- A piece of SQL. -/
inductive Sql.Piece where
  /-- Text without placeholders of its own. -/
  | plain (text : String)
  /-- A placeholder for a value. -/
  | placeholder (value : Value)
  /-- Verbatim SQL with the values of its placeholders. -/
  | fragment (sql : String) (bindings : List Value)

/-- The text of a piece. -/
def Sql.Piece.text : Sql.Piece → String
  | .plain s => s
  | .placeholder _ => "?"
  | .fragment sql _ => sql

/-- The values bound by a piece. -/
def Sql.Piece.labels : Sql.Piece → List Value
  | .plain _ => []
  | .placeholder v => [v]
  | .fragment _ bindings => bound bindings

/-- SQL in pieces. -/
structure Sql where
  pieces : List Sql.Piece

namespace Sql

/-- The SQL text. -/
def text (s : Sql) : String :=
  String.join (s.pieces.map Piece.text)

/-- The values of the placeholders, from left to right. -/
def labels (s : Sql) : List Value :=
  s.pieces.flatMap Piece.labels

/-- Text without placeholders. -/
def ofString (s : String) : Sql :=
  ⟨[.plain s]⟩

instance : Coe String Sql := ⟨ofString⟩

/-- No SQL. -/
def empty : Sql :=
  ⟨[]⟩

/-- One piece of SQL after another. -/
def append (a b : Sql) : Sql :=
  ⟨a.pieces ++ b.pieces⟩

instance : Append Sql := ⟨append⟩

/-- Whether the text is empty. -/
def isEmpty (s : Sql) : Bool :=
  s.text.isEmpty

/-- Verbatim SQL with the values of its placeholders. -/
def fragment (sql : String) (bindings : List Value) : Sql :=
  ⟨[.fragment sql bindings]⟩

/-- The place of a value: its text if it is a raw expression, and otherwise a placeholder for
`bound`. -/
def parameterFor (value bound : Value) : Sql :=
  match value.raw? with
  | some sql => fragment sql []
  | none => ⟨[.placeholder bound]⟩

/-- The place of a value: its text if it is a raw expression, and otherwise a placeholder. -/
def parameter (value : Value) : Sql :=
  parameterFor value value

/-! ## §2 Layout -/

/-- Pieces of SQL in a row. -/
def concat (parts : List Sql) : Sql :=
  ⟨parts.flatMap Sql.pieces⟩

/-- Pieces of SQL with a separator between neighbours. -/
def join (sep : String) : List Sql → Sql
  | [] => empty
  | [s] => s
  | s :: rest => s ++ sep ++ join sep rest

/-- Pieces of SQL with single blanks between those whose text is not empty. -/
def words : List Sql → Sql
  | [] => empty
  | s :: rest =>
    let tail := words rest
    if s.isEmpty || tail.isEmpty then s ++ tail else s ++ " " ++ tail

/-- A piece without trailing blanks. -/
def Piece.trimEnd : Piece → Piece
  | .plain s => .plain (Text.trimEnd s)
  | .placeholder v => .placeholder v
  | .fragment sql bindings => .fragment (Text.trimEnd sql) bindings

/-- Pieces whose text has no trailing blanks. -/
def trimPieces : List Piece → List Piece
  | [] => []
  | p :: ps =>
    let rest := trimPieces ps
    if (rest.all fun q => q.text.isEmpty) then p.trimEnd :: rest else p :: rest

/-- SQL whose text has no trailing blanks. -/
def trimEnd (s : Sql) : Sql :=
  ⟨trimPieces s.pieces⟩

/-- Placeholders for a list of values, separated by commas. -/
def parameters (values : List Value) : Sql :=
  join ", " (values.map parameter)

/-! ## §3 Views -/

@[simp] theorem text_ofString (s : String) : (ofString s).text = s := by
  simp [text, ofString, Piece.text, String.join]

@[simp] theorem labels_ofString (s : String) : (ofString s).labels = [] := rfl

@[simp] theorem text_empty : empty.text = "" := rfl

@[simp] theorem labels_empty : empty.labels = [] := rfl

/-- One piece of SQL after another is one text after the other. -/
@[simp] theorem text_append (a b : Sql) : (a ++ b).text = a.text ++ b.text := by
  apply String.toList_inj.1
  show (append a b).text.toList = _
  simp [append, text]

/-- The labels of the first part come first. -/
@[simp] theorem labels_append (a b : Sql) : (a ++ b).labels = a.labels ++ b.labels := by
  show (append a b).labels = _
  simp [append, labels]

@[simp] theorem text_fragment (sql : String) (bindings : List Value) :
    (fragment sql bindings).text = sql := by
  simp [text, fragment, Piece.text, String.join]

@[simp] theorem labels_fragment (sql : String) (bindings : List Value) :
    (fragment sql bindings).labels = bound bindings := by
  simp [labels, fragment, Piece.labels]

/-- A raw expression stands in the text, whatever would be bound for it. -/
@[simp] theorem text_parameterFor (v w : Value) :
    (parameterFor v w).text = v.raw?.getD "?" := by
  cases v <;> simp [parameterFor, Value.raw?, text, Piece.text, fragment, String.join]

/-- A placeholder carries what is bound in the place of the value. -/
@[simp] theorem labels_parameterFor (v w : Value) :
    (parameterFor v w).labels = if v.isRaw then [] else [w] := by
  cases v <;> rfl

@[simp] theorem text_parameter (v : Value) : (parameter v).text = v.raw?.getD "?" :=
  text_parameterFor v v

/-- A raw expression has no label, and any other value is its own. -/
@[simp] theorem labels_parameter (v : Value) : (parameter v).labels = bound [v] := by
  cases v <;> rfl

@[simp] theorem labels_concat (parts : List Sql) :
    (concat parts).labels = parts.flatMap labels := by
  simp only [concat, labels, List.flatMap_assoc]
  rfl

/-- Blanks between pieces carry no labels, and no piece with labels is dropped. -/
@[simp] theorem labels_words (parts : List Sql) :
    (words parts).labels = parts.flatMap labels := by
  induction parts with
  | nil => rfl
  | cons s rest ih =>
    dsimp only [words]
    split <;> simp_all

/-- Separators carry no labels. -/
@[simp] theorem labels_join (sep : String) (parts : List Sql) :
    (join sep parts).labels = parts.flatMap labels := by
  fun_induction join sep parts with
  | case1 => rfl
  | case2 s => simp
  | case3 s rest _ ih => simp_all

@[simp] theorem labels_parameters (values : List Value) :
    (parameters values).labels = bound values := by
  simp only [parameters, labels_join, List.flatMap_map, labels_parameter]
  rw [← bound_flatMap, List.flatMap_singleton']

/-- A placeholder has no trailing blanks. -/
theorem Piece.text_trimEnd (p : Piece) : p.trimEnd.text = Text.trimEnd p.text := by
  cases p with
  | placeholder v =>
    show "?" = Text.trimEnd "?"
    decide
  | _ => rfl

/-- The text of pieces without trailing blanks: a piece is trimmed if nothing stands behind it. -/
theorem toList_text_trimPieces (ps : List Piece) :
    (text ⟨trimPieces ps⟩).toList = Text.trimEndChars (text ⟨ps⟩).toList := by
  induction ps with
  | nil => rfl
  | cons p ps ih =>
    have hcons : ∀ (p : Piece) (ps : List Piece),
        (text ⟨p :: ps⟩).toList = p.text.toList ++ (text ⟨ps⟩).toList := by
      intro p ps
      simp [text]
    have hempty : ((trimPieces ps).all fun q => q.text.isEmpty) = true ↔
        Text.trimEndChars (text ⟨ps⟩).toList = [] := by
      rw [← ih]
      simp [text]
    rw [hcons, Text.trimEndChars_append, trimPieces]
    split
    · rename_i h
      rw [if_pos (hempty.1 h), hcons, ih, hempty.1 h, Piece.text_trimEnd]
      simp [Text.trimEnd]
    · rename_i h
      rw [if_neg (mt hempty.2 h), hcons, ih]

@[simp] theorem text_trimEnd (s : Sql) : s.trimEnd.text = Text.trimEnd s.text := by
  apply String.toList_inj.1
  rw [trimEnd, toList_text_trimPieces]
  simp [Text.trimEnd]

/-- Trimming a piece touches its text only. -/
theorem Piece.labels_trimEnd (p : Piece) : p.trimEnd.labels = p.labels := by
  cases p <;> rfl

@[simp] theorem labels_trimEnd (s : Sql) : s.trimEnd.labels = s.labels := by
  show (trimPieces s.pieces).flatMap Piece.labels = s.pieces.flatMap Piece.labels
  induction s.pieces with
  | nil => rfl
  | cons p ps ih =>
    dsimp only [trimPieces]
    split <;> simp_all [Piece.labels_trimEnd]

end Sql

end SqlCompiler
