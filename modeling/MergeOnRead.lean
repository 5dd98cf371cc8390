import MergeOnRead.Calendar
import MergeOnRead.Container.File
import MergeOnRead.Container.Form
import MergeOnRead.Container.Reading
import MergeOnRead.Deletes.CacheCalls
import MergeOnRead.Deletes.DeleteFilter
import MergeOnRead.Deletes.DeleteIndex
import MergeOnRead.Deletes.IndexCache
import MergeOnRead.Deletes.PositionSet
import MergeOnRead.Deletes.RecencyList
import MergeOnRead.Deletes.VectorMemory
import MergeOnRead.Deletes.VectorTable
import MergeOnRead.Error
import MergeOnRead.Files.BatchStream
import MergeOnRead.Files.Dataset
import MergeOnRead.Files.FileTree
import MergeOnRead.Files.Location
import MergeOnRead.Files.NetworkAddress
import MergeOnRead.Files.NewFile
import MergeOnRead.Files.RecordFile
import MergeOnRead.Files.RecordReader
import MergeOnRead.Files.RestoredType
import MergeOnRead.Files.RowSource
import MergeOnRead.Log.Change
import MergeOnRead.Log.Evolution
import MergeOnRead.Log.Ingestion
import MergeOnRead.Log.SchemaMemory
import MergeOnRead.Log.Snapshot
import MergeOnRead.Log.TableCalls
import MergeOnRead.Log.TableLog
import MergeOnRead.Log.TableMemory
import MergeOnRead.Log.Upkeep
import MergeOnRead.Manifest.DataFile
import MergeOnRead.Manifest.DeleteFile
import MergeOnRead.Manifest.FileContent
import MergeOnRead.Number.Binary64
import MergeOnRead.Number.Decimal
import MergeOnRead.Number.DecimalFloat
import MergeOnRead.Number.Exact
import MergeOnRead.Number.Numeral
import MergeOnRead.Number.Shortest
import MergeOnRead.Options.Basic
import MergeOnRead.Options.Calls
import MergeOnRead.Options.Conversion
import MergeOnRead.Options.Core
import MergeOnRead.Options.Setting
import MergeOnRead.Proofs.AtomicCommits
import MergeOnRead.Proofs.BatchFilter
import MergeOnRead.Proofs.Batches
import MergeOnRead.Proofs.CacheBuilds
import MergeOnRead.Proofs.CacheRecency
import MergeOnRead.Proofs.CacheSafety
import MergeOnRead.Proofs.CachedScans
import MergeOnRead.Proofs.CanonicalContent
import MergeOnRead.Proofs.CanonicalForms
import MergeOnRead.Proofs.CanonicalKeys
import MergeOnRead.Proofs.ColumnRoundTrips
import MergeOnRead.Proofs.ConformedStreams
import MergeOnRead.Proofs.Conversions
import MergeOnRead.Proofs.ConvertedScalars
import MergeOnRead.Proofs.DeleteLoading
import MergeOnRead.Proofs.DeletionVectors
import MergeOnRead.Proofs.EagerFailures
import MergeOnRead.Proofs.Evolution
import MergeOnRead.Proofs.ExactValues
import MergeOnRead.Proofs.FailingStreams
import MergeOnRead.Proofs.Fields
import MergeOnRead.Proofs.FilterParts
import MergeOnRead.Proofs.FilterUnion
import MergeOnRead.Proofs.Hashes
import MergeOnRead.Proofs.HiddenKeys
import MergeOnRead.Proofs.KeyIndexes
import MergeOnRead.Proofs.KeyOrder
import MergeOnRead.Proofs.Lists
import MergeOnRead.Proofs.LiveRecords
import MergeOnRead.Proofs.LoadedKeys
import MergeOnRead.Proofs.MemoryCommits
import MergeOnRead.Proofs.MissingFields
import MergeOnRead.Proofs.Numerals
import MergeOnRead.Proofs.ParallelReads
import MergeOnRead.Proofs.ParallelSteps
import MergeOnRead.Proofs.PickedColumns
import MergeOnRead.Proofs.PlannedDeletes
import MergeOnRead.Proofs.PositionBitmaps
import MergeOnRead.Proofs.PositionIndexes
import MergeOnRead.Proofs.Positions
import MergeOnRead.Proofs.Preparation
import MergeOnRead.Proofs.ProjectedViews
import MergeOnRead.Proofs.ReadFields
import MergeOnRead.Proofs.ReadPaths
import MergeOnRead.Proofs.ReadSessions
import MergeOnRead.Proofs.ReadableTask
import MergeOnRead.Proofs.RecordReads
import MergeOnRead.Proofs.RenamedKeys
import MergeOnRead.Proofs.RepeatedColumns
import MergeOnRead.Proofs.RepeatedProjections
import MergeOnRead.Proofs.ResolvableTables
import MergeOnRead.Proofs.Results
import MergeOnRead.Proofs.RowEquality
import MergeOnRead.Proofs.RowFilter
import MergeOnRead.Proofs.RowSets
import MergeOnRead.Proofs.Rows
import MergeOnRead.Proofs.SchemaGrowth
import MergeOnRead.Proofs.SchemaVersions
import MergeOnRead.Proofs.ServedIndexes
import MergeOnRead.Proofs.SharedBuilds
import MergeOnRead.Proofs.SnapshotIsolation
import MergeOnRead.Proofs.SnapshotLog
import MergeOnRead.Proofs.SortedChains
import MergeOnRead.Proofs.SortedMerges
import MergeOnRead.Proofs.SortedRuns
import MergeOnRead.Proofs.Sorting
import MergeOnRead.Proofs.StorePaths
import MergeOnRead.Proofs.StoredOptions
import MergeOnRead.Proofs.StoredRows
import MergeOnRead.Proofs.SurvivingRows
import MergeOnRead.Proofs.TableReads
import MergeOnRead.Proofs.TaskPaths
import MergeOnRead.Proofs.TaskRows
import MergeOnRead.Proofs.TasksAlone
import MergeOnRead.Proofs.TreeRows
import MergeOnRead.Proofs.TypeNames
import MergeOnRead.Proofs.TypedFiles
import MergeOnRead.Proofs.ValueForms
import MergeOnRead.Read.Batch
import MergeOnRead.Read.Cast
import MergeOnRead.Read.Column
import MergeOnRead.Read.Intake
import MergeOnRead.Read.Literal
import MergeOnRead.Read.ReadSession
import MergeOnRead.Read.Reader
import MergeOnRead.Read.RecordIterator
import MergeOnRead.Read.ValueType
import MergeOnRead.Row.Basic
import MergeOnRead.Row.Buckets
import MergeOnRead.Row.KeySet
import MergeOnRead.Row.SetCalls
import MergeOnRead.Scan.DeleteLoading
import MergeOnRead.Scan.OpenTable
import MergeOnRead.Scan.ParallelRead
import MergeOnRead.Scan.Plan
import MergeOnRead.Scan.Table
import MergeOnRead.Scan.TableTasks
import MergeOnRead.Scan.TaskReader
import MergeOnRead.Schema.ColumnField
import MergeOnRead.Schema.ColumnType
import MergeOnRead.Schema.DataType
import MergeOnRead.Schema.RecordType
import MergeOnRead.Schema.Resolver
import MergeOnRead.Schema.TableSchema
import MergeOnRead.Sorting.Merge
import MergeOnRead.Sorting.Runs
import MergeOnRead.Sorting.Search
import MergeOnRead.Text.Characters
import MergeOnRead.Text.Hex
import MergeOnRead.Text.Json
import MergeOnRead.Text.LetterCase
import MergeOnRead.Text.Printable
import MergeOnRead.Text.Quoted
import MergeOnRead.Value.Basic
import MergeOnRead.Value.Canonical
import MergeOnRead.Value.Hash
import MergeOnRead.Value.Key
import MergeOnRead.Value.KeyTree
import MergeOnRead.Value.Printer
