import SqlCompiler.Compile

/-!
# Clauses without Pagination

Whether SQL Server expresses offsets by row numbers is a matter of the layout of a select. No name,
no condition and no clause is written differently for it, and what is bound for a single value does
not change either. Each equation takes the option away from one function of a target; together they
leave it standing where a layout is chosen and where the values of an order are collected.

## Main definitions

- `Target.paged`: a target with or without row numbers

## Main statements

- `column_paged`, `compare_paged`, `like_paged`, …: names and conditions
- `having_paged`: conditions on groups, by recursion on their groups
- `plainLayout_paged`, `numberedLayout_paged`: both layouts of a query around given parts
- `assignments_paged`, `mergeUpsert_paged`: what statements write around their tables
-/

namespace SqlCompiler.Target

/-- A target whose offsets are expressed by row numbers, or are not. -/
def paged (t : Target) (legacy : Bool) : Target :=
  { t with options := { t.options with legacyPagination := legacy } }

variable {t : Target} {legacy : Bool}

/-- The option is none of the dialect. -/
@[simp] theorem dialect_paged : (t.paged legacy).dialect = t.dialect := rfl

/-- The table prefix is another option. -/
@[simp] theorem tablePrefix_paged :
    (t.paged legacy).options.tablePrefix = t.options.tablePrefix := rfl

/-- What a dialect lacks is reported with the dialect alone. -/
@[simp] theorem lacks_paged {α : Type} (feature : Feature) :
    (t.paged legacy).lacks (α := α) feature = t.lacks feature := rfl

/-! ## §1 Names -/

/-- The quotes of an identifier are those of the dialect. -/
@[simp] theorem quoteIdentifier_paged : (t.paged legacy).quoteIdentifier = t.quoteIdentifier := rfl

/-- A table name is written by dialect and table prefix. -/
@[simp] theorem quoteTable_paged : (t.paged legacy).quoteTable = t.quoteTable := by
  funext name
  simp [quoteTable, quoteBareTable, finishTable, quotePrefixed]

/-- Only the first segment of a column looks at the target, as a table. -/
@[simp] theorem quoteSegments_paged : (t.paged legacy).quoteSegments = t.quoteSegments := by
  funext name
  simp [quoteSegments]

/-- A selector is a quoted column and a path, and the path is a text of its own. -/
@[simp] theorem fieldAndPath_paged : (t.paged legacy).fieldAndPath = t.fieldAndPath := by
  funext selector
  simp [fieldAndPath, quoteField]

/-- Column and path as arguments of a function. -/
@[simp] theorem selectorArguments_paged :
    (t.paged legacy).selectorArguments = t.selectorArguments := by
  funext selector
  simp [selectorArguments]

/-- How a selector is written depends on the dialect and on its quoted column. -/
@[simp] theorem quoteSelector_paged : (t.paged legacy).quoteSelector = t.quoteSelector := by
  funext selector
  simp [quoteSelector, arrowSelector]

/-- A name is a field or a selector, both written alike. -/
@[simp] theorem quote_paged : (t.paged legacy).quote = t.quote := by
  funext name
  simp [quote, quoteUnaliased]

/-- A document is named by the selector itself. -/
@[simp] theorem quoteDocument_paged : (t.paged legacy).quoteDocument = t.quoteDocument := by
  funext name
  simp [quoteDocument]

/-- The rows of a document are named by the arguments of its selector. -/
@[simp] theorem jsonRows_paged : (t.paged legacy).jsonRows = t.jsonRows := by
  funext selector
  simp [jsonRows]

/-- A column is a quoted name or verbatim SQL. -/
@[simp] theorem column_paged : (t.paged legacy).column = t.column := by
  funext c
  cases c <;> simp [column]

/-- Columns in a row are written one by one. -/
@[simp] theorem columnList_paged : (t.paged legacy).columnList = t.columnList := by
  funext columns
  simp [columnList]

/-! ## §2 Conditions -/

/-- Of the target, a comparison looks at the dialect, for patterns of PostgreSQL. -/
@[simp] theorem compareOperand_paged : (t.paged legacy).compareOperand = t.compareOperand := by
  funext c operator operand
  simp [compareOperand]

@[simp] theorem compare_paged : (t.paged legacy).compare = t.compare := by
  funext c operator v
  simp [compare]

@[simp] theorem bitwise_paged : (t.paged legacy).bitwise = t.bitwise := by
  funext c operator v
  simp [bitwise]

/-- What is bound for a pattern depends on the dialect, which writes globs or not. -/
@[simp] theorem likeBinding_paged : (t.paged legacy).likeBinding = t.likeBinding := by
  funext pattern caseSensitive
  simp [likeBinding]

/-- The operator of a pattern match is chosen by the dialect. -/
@[simp] theorem like_paged : (t.paged legacy).like = t.like := by
  funext c pattern caseSensitive negated
  simp [like, likeOperator?]

@[simp] theorem between_paged : (t.paged legacy).between = t.between := by
  funext c low high negated
  simp [between]

@[simp] theorem betweenColumns_paged : (t.paged legacy).betweenColumns = t.betweenColumns := by
  funext c low high negated
  simp [betweenColumns]

@[simp] theorem inList_paged : (t.paged legacy).inList = t.inList := by
  funext c values negated
  simp [inList, among]

@[simp] theorem inIntegers_paged : (t.paged legacy).inIntegers = t.inIntegers := by
  funext c values negated
  simp [inIntegers, among]

/-- MySQL tests selectors in a way of its own, by their arguments. -/
@[simp] theorem nullTest_paged : (t.paged legacy).nullTest = t.nullTest := by
  funext c isNull
  simp [nullTest, selectorIsNull]

/-- A part of a date is spelled by the dialect. -/
@[simp] theorem datePart_paged : (t.paged legacy).datePart = t.datePart := by
  funext part c operator v
  simp [datePart, compareFunction]

@[simp] theorem compareColumns_paged : (t.paged legacy).compareColumns = t.compareColumns := by
  funext first operator second
  simp [compareColumns]

/-- The widths are compared before the target is looked at. -/
@[simp] theorem rowValues_paged : (t.paged legacy).rowValues = t.rowValues := by
  funext columns operator values
  simp [rowValues]

/-- A boolean of a document is written by the dialect, beside its selector. -/
@[simp] theorem jsonBoolean_paged : (t.paged legacy).jsonBoolean = t.jsonBoolean := by
  funext selector operator v
  simp [jsonBoolean, booleanSelector, booleanLiteral]

/-- What is bound for a document depends on the dialect. -/
@[simp] theorem jsonBinding_paged : (t.paged legacy).jsonBinding = t.jsonBinding := by
  funext v
  simp [jsonBinding]

/-- Containment looks at the dialect and at names. -/
@[simp] theorem jsonContains_paged : (t.paged legacy).jsonContains = t.jsonContains := by
  funext selector v negated
  simp [jsonContains, jsonContainsOperand]

/-- A key is tested by the dialect, in the selector without its last step. -/
@[simp] theorem jsonContainsKey_paged :
    (t.paged legacy).jsonContainsKey = t.jsonContainsKey := by
  funext selector negated
  simp [jsonContainsKey, containsKey, arrowContainsKey, rowsContainKey]

/-- The length of an array looks at the dialect and at names. -/
@[simp] theorem jsonLength_paged : (t.paged legacy).jsonLength = t.jsonLength := by
  funext selector operator v
  simp [jsonLength, jsonLengthOperand]

/-- A search looks at the dialect and at its columns. -/
@[simp] theorem fullText_paged : (t.paged legacy).fullText = t.fullText := by
  funext columns v options
  simp [fullText]

mutual

/-- Conditions on groups hold columns and values, never a query that is laid out. -/
@[simp] theorem having_paged : (p : HavingPredicate) → (t.paged legacy).having p = t.having p
  | .raw _ _ => by simp [having]
  | .expression _ => by simp [having]
  | .compare _ _ _ => by simp [having]
  | .between _ _ _ _ => by simp [having]
  | .isNull _ => by simp [having]
  | .isNotNull _ => by simp [having]
  | .bitwise _ _ _ => by simp [having]
  | .group clauses => by simp [having, havingClauses_paged clauses]

/-- A list of conditions on groups, one by one. -/
@[simp] theorem havingClauses_paged : (clauses : List (Clause HavingPredicate)) →
    (t.paged legacy).havingClauses clauses = t.havingClauses clauses
  | [] => by simp [havingClauses]
  | ⟨_, node⟩ :: rest => by simp [havingClauses, having_paged node, havingClauses_paged rest]

end

/-! ## §3 Clauses -/

/-- The clause of conditions on groups. -/
@[simp] theorem havingClause_paged : (t.paged legacy).havingClause = t.havingClause := by
  funext clauses
  simp [havingClause]

/-- An aggregate is a function over a list of columns. -/
@[simp] theorem aggregateClause_paged :
    (t.paged legacy).aggregateClause = t.aggregateClause := by
  funext distinct aggregate
  simp [aggregateClause]

/-- The words in front of a select list depend on limit and offset of the query, not on the
option. -/
@[simp] theorem columnsClause_paged : (t.paged legacy).columnsClause = t.columnsClause := by
  funext q columns
  simp [columnsClause]

@[simp] theorem groupsClause_paged : (t.paged legacy).groupsClause = t.groupsClause := by
  funext groups
  simp [groupsClause]

/-- The function of a random order depends on the dialect. -/
@[simp] theorem sortKey_paged : (t.paged legacy).sortKey = t.sortKey := by
  funext key
  cases key <;> simp [sortKey, random]

/-- An order is written key by key. -/
@[simp] theorem ordersClause_paged : (t.paged legacy).ordersClause = t.ordersClause := by
  funext orders
  simp [ordersClause]

/-- The words of a limit are those of the dialect. -/
@[simp] theorem limitClause_paged : (t.paged legacy).limitClause = t.limitClause := by
  funext limit offset
  simp [limitClause]

/-- One side of a union, as a table of its own where the dialect wants that. -/
@[simp] theorem unionSide_paged : (t.paged legacy).unionSide = t.unionSide := by
  funext side
  simp [unionSide]

/-- A union is paged by offset and limit in either case: row numbers are for selects. -/
@[simp] theorem unionsClause_paged : (t.paged legacy).unionsClause = t.unionsClause := by
  funext q branches
  simp [unionsClause, pageClauses, offsetClause]

/-- Each clause of a select around given parts. -/
@[simp] theorem component_paged : (t.paged legacy).component = t.component := by
  funext q aggregate parts c
  cases c <;> simp [component, sourceClause, offsetClause, lockClause]

@[simp] theorem components_paged : (t.paged legacy).components = t.components := by
  funext q aggregate parts
  simp [components]

@[simp] theorem withUnions_paged : (t.paged legacy).withUnions = t.withUnions := by
  funext q parts sql
  simp [withUnions]

/-- Clauses in a row, as they are written without row numbers. -/
@[simp] theorem plainLayout_paged : (t.paged legacy).plainLayout = t.plainLayout := by
  funext q aggregate parts
  simp [plainLayout]

/-- The layout with row numbers, too, does not ask whether it was to be chosen. -/
@[simp] theorem numberedLayout_paged : (t.paged legacy).numberedLayout = t.numberedLayout := by
  funext q parts
  simp [numberedLayout]

/-- Whether a lateral join can be written depends on the dialect. -/
@[simp] theorem lateralJoin_paged : (t.paged legacy).lateralJoin = t.lateralJoin := by
  funext kind tbl
  simp [lateralJoin]

/-! ## §4 Statements -/

@[simp] theorem nameList_paged : (t.paged legacy).nameList = t.nameList := by
  funext columns
  simp [nameList]

/-- Columns and placeholders of an insert; no row of it is selected. -/
@[simp] theorem insertRows_paged : (t.paged legacy).insertRows = t.insertRows := by
  funext verb tbl rows
  simp [insertRows]

/-- An assignment of an upsert names a column and takes an incoming value. -/
@[simp] theorem upsertAssignments_paged :
    (t.paged legacy).upsertAssignments = t.upsertAssignments := by
  funext incoming update
  have hassignment : (t.paged legacy).upsertAssignment incoming = t.upsertAssignment incoming := by
    funext column
    cases column <;> simp [upsertAssignment]
  simp [upsertAssignments, hassignment]

/-- A merge names tables and columns and writes rows. -/
@[simp] theorem mergeUpsert_paged : (t.paged legacy).mergeUpsert = t.mergeUpsert := by
  funext q rows uniqueBy update
  simp [mergeUpsert]

/-- Which clauses a write can carry depends on the dialect. -/
@[simp] theorem checkWrite_paged : (t.paged legacy).checkWrite = t.checkWrite := by
  funext q write
  simp [checkWrite, usesRowIds, carriesLimit]

/-- What is bound for an assignment depends on the dialect. -/
@[simp] theorem assignedValue_paged : (t.paged legacy).assignedValue = t.assignedValue := by
  funext key v
  simp [assignedValue]

@[simp] theorem assignedValues_paged : (t.paged legacy).assignedValues = t.assignedValues := by
  funext row
  simp [assignedValues]

/-- Assignments are names, paths and placeholders. -/
@[simp] theorem assignments_paged : (t.paged legacy).assignments = t.assignments := by
  have hassignment : (t.paged legacy).assignment = t.assignment := by
    funext name key v
    simp [assignment]
  have hmerge : (t.paged legacy).mergePatch = t.mergePatch := by
    funext column doc
    simp [mergePatch]
  funext row
  simp [assignments, hassignment, hmerge, setDocument, setJsonb]

/-- The limit of a write stands in front, and never becomes a range of row numbers. -/
@[simp] theorem writeTop_paged : (t.paged legacy).writeTop = t.writeTop := by
  funext q
  simp [writeTop]

/-- Order and limit behind a write of MySQL. -/
@[simp] theorem writeOrder_paged : (t.paged legacy).writeOrder = t.writeOrder := by
  funext q
  simp [writeOrder]

end SqlCompiler.Target
