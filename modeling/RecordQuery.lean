import RecordQuery.Main
import RecordQuery.Identifier
import RecordQuery.Proofs.LowerCase
import RecordQuery.Proofs.History
import RecordQuery.Proofs.Isolation
import RecordQuery.Proofs.Footprint
import RecordQuery.Proofs.BoundNames
import RecordQuery.Proofs.Atomicity
import RecordQuery.Proofs.ConformingStores
import RecordQuery.Proofs.Interference
import RecordQuery.Proofs.ConformingStatements
import RecordQuery.Proofs.Interleaving
import RecordQuery.Proofs.Serializability
import RecordQuery.Proofs.StoredFields
import RecordQuery.Proofs.ColumnOrder
import RecordQuery.Proofs.StagedWrites
import RecordQuery.Proofs.LoadedRecords
import RecordQuery.Proofs.CalendarDays
import RecordQuery.Proofs.TimeStamps
import RecordQuery.Proofs.DateParts
import RecordQuery.Proofs.Evaluation
import RecordQuery.Proofs.Columns
import RecordQuery.Proofs.Loading
import RecordQuery.Proofs.Tuples
import RecordQuery.Proofs.NestedLoop
import RecordQuery.Proofs.Correspondence
import RecordQuery.Proofs.Aliasing
import RecordQuery.Proofs.Sources
import RecordQuery.Proofs.ForeignColumns
import RecordQuery.Proofs.StageEnds
import RecordQuery.Proofs.JoinedEntries
import RecordQuery.Proofs.Enumeration
import RecordQuery.Proofs.Headers
import RecordQuery.Proofs.References
import RecordQuery.Proofs.ExpressionTrees
import RecordQuery.Proofs.StatementTrees
import RecordQuery.Proofs.Spellings
import RecordQuery.Proofs.LetterCase
import RecordQuery.Proofs.AddedErrors
import RecordQuery.Proofs.Locations
import RecordQuery.Proofs.InsertedRows
import RecordQuery.Proofs.RowErrors
import RecordQuery.Proofs.UpdatedRecords
import RecordQuery.Proofs.Sorting
import RecordQuery.Proofs.ShortestDecimals
import RecordQuery.Proofs.NumberTexts
import RecordQuery.Proofs.CompactText
import RecordQuery.Proofs.FiniteValues
import RecordQuery.Proofs.Grouping
import RecordQuery.Proofs.NameFaults
import RecordQuery.Proofs.Walks
import RecordQuery.Proofs.Patterns
import RecordQuery.Proofs.WholeNumbers
import RecordQuery.Proofs.EqualKeys
import RecordQuery.Proofs.Aggregates
import RecordQuery.Proofs.Returning
import RecordQuery.Proofs.ReportedOnce
import RecordQuery.Proofs.MovedErrors
import RecordQuery.Proofs.ErrorEvents
import RecordQuery.Proofs.DistinctProblems
import RecordQuery.Proofs.OutsideGroups
import RecordQuery.Proofs.ScanLimits
import RecordQuery.Proofs.Registry
import RecordQuery.Proofs.Violations
import RecordQuery.Proofs.LintReports
import RecordQuery.Proofs.Substrings
import RecordQuery.Proofs.TextSums
