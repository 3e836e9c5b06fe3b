import SqlCompiler.Main
import SqlCompiler.Query.Builder
import SqlCompiler.Savepoint
import SqlCompiler.Temporal
import SqlCompiler.Proofs.NestedQueries
import SqlCompiler.Proofs.Outcome
import SqlCompiler.Proofs.PredicateLabels
import SqlCompiler.Proofs.ClauseLabels
import SqlCompiler.Proofs.LayoutLabels
import SqlCompiler.Proofs.SelectAlignment
import SqlCompiler.Proofs.WriteAlignment
import SqlCompiler.Proofs.MaskedPredicates
import SqlCompiler.Proofs.MaskedSelect
import SqlCompiler.Proofs.MaskedBindings
import SqlCompiler.Proofs.MaskedInserts
import SqlCompiler.Proofs.TextIndependence
import SqlCompiler.Proofs.JsonDocuments
import SqlCompiler.Proofs.RawMarker
import SqlCompiler.Proofs.Lexing
import SqlCompiler.Proofs.ClosedText
import SqlCompiler.Proofs.TextPieces
import SqlCompiler.Proofs.ClosedNames
import SqlCompiler.Proofs.ClosedSelectors
import SqlCompiler.Proofs.Ingredients
import SqlCompiler.Proofs.ClosedPredicates
import SqlCompiler.Proofs.ClosedSelect
import SqlCompiler.Proofs.ClosedInserts
import SqlCompiler.Proofs.ClosedUpdates
import SqlCompiler.Proofs.Containment
import SqlCompiler.Proofs.WrittenQueries
import SqlCompiler.Proofs.WrittenBalance
import SqlCompiler.Proofs.WrittenStatements
import SqlCompiler.Proofs.Occurrences
import SqlCompiler.Proofs.Spelling
import SqlCompiler.Proofs.SelectorTokens
import SqlCompiler.Proofs.SelectorRenderings
import SqlCompiler.Proofs.PathLiterals
import SqlCompiler.Proofs.AssignedPlaces
import SqlCompiler.Proofs.RefusedConstructs
import SqlCompiler.Proofs.SelectFaults
import SqlCompiler.Proofs.WriteRestrictions
import SqlCompiler.Proofs.InsertedRows
import SqlCompiler.Proofs.LosslessInserts
import SqlCompiler.Proofs.AggregatedRows
import SqlCompiler.Proofs.PagedClauses
import SqlCompiler.Proofs.Pagination
import SqlCompiler.Proofs.PagedStatements
import SqlCompiler.Proofs.RawExpressions
import SqlCompiler.Proofs.InlinedPredicates
import SqlCompiler.Proofs.InlinedSelect
import SqlCompiler.Proofs.InlinedBindings
import SqlCompiler.Proofs.InlinedInserts
import SqlCompiler.Proofs.InlinedStatements
import SqlCompiler.Proofs.UniqueKeys
import SqlCompiler.Proofs.CarriedValues
import SqlCompiler.Proofs.LegibleForms
import SqlCompiler.Proofs.ReadingBack
import SqlCompiler.Proofs.ReadValues
import SqlCompiler.Proofs.RestoredRequests
import SqlCompiler.Proofs.Words
import SqlCompiler.Proofs.RowWindows
import SqlCompiler.Proofs.BooleanGroups
import SqlCompiler.Proofs.GlobPatterns
import SqlCompiler.Proofs.Placeholders
import SqlCompiler.Proofs.UnmarkedNames
import SqlCompiler.Proofs.GivenTexts
import SqlCompiler.Proofs.TalliedPredicates
import SqlCompiler.Proofs.TalliedSelect
import SqlCompiler.Proofs.QuotedNames
import SqlCompiler.Proofs.QualifiedColumns
import SqlCompiler.Proofs.MergedDocuments
import SqlCompiler.Proofs.InterleavedBindings
import SqlCompiler.Proofs.LiteralConventions
import SqlCompiler.Proofs.FunctionArguments
import SqlCompiler.Proofs.JoinedTargets
import SqlCompiler.Proofs.PathSteps
import SqlCompiler.Proofs.LastSteps
import SqlCompiler.Proofs.KeyTests
import SqlCompiler.Proofs.ReorderedRows
import SqlCompiler.Proofs.StepIndices
