import SimpleOlap.Catalog.Catalog
import SimpleOlap.Catalog.Changes
import SimpleOlap.Execution.Aggregate.GlobalResult
import SimpleOlap.Execution.Aggregate.ParallelAggregate
import SimpleOlap.Execution.CommandExecutor
import SimpleOlap.Execution.Compact
import SimpleOlap.Execution.Compilable
import SimpleOlap.Execution.Expression.Addition
import SimpleOlap.Execution.Expression.CompiledPredicate
import SimpleOlap.Execution.Expression.VectorExpression
import SimpleOlap.Execution.GroupOutputs
import SimpleOlap.Execution.KeyLookup
import SimpleOlap.Execution.OperatorTree
import SimpleOlap.Execution.Operators
import SimpleOlap.Execution.Parallel.Joined
import SimpleOlap.Execution.ProjectionPaths
import SimpleOlap.Execution.StoredSelect
import SimpleOlap.Execution.SelectBuilds
import SimpleOlap.Execution.Vector
import SimpleOlap.Lib.Codec
import SimpleOlap.Lib.FileWrite
import SimpleOlap.Lib.Fp
import SimpleOlap.Lib.FpInt
import SimpleOlap.Lib.Heap
import SimpleOlap.Lib.KeyLog
import SimpleOlap.Lib.Transition
import SimpleOlap.Lib.ZoneMap
import SimpleOlap.Main.Database
import SimpleOlap.Main.MetadataSaves
import SimpleOlap.Main.Prepared
import SimpleOlap.Main.ResultDigest
import SimpleOlap.Memory.Arena
import SimpleOlap.Memory.ArenaAligned
import SimpleOlap.Memory.ArenaRuns
import SimpleOlap.Memory.BlockPool
import SimpleOlap.Memory.BufferPool
import SimpleOlap.Memory.OwnedOnce
import SimpleOlap.Parallel.Queue
import SimpleOlap.Planner.BindInsert
import SimpleOlap.Planner.FloatingPushdown
import SimpleOlap.Planner.OptimizerRows
import SimpleOlap.Planner.PhysicalPlan
import SimpleOlap.Simd.CompareAvx2
import SimpleOlap.Simd.Gather
import SimpleOlap.Simd.MaskSets
import SimpleOlap.Simd.SelectionCursor
import SimpleOlap.Sql.Lexer
import SimpleOlap.Sql.LexerStops
import SimpleOlap.Sql.Parser
import SimpleOlap.Sql.ParserInput
import SimpleOlap.Sql.ParserSteps
import SimpleOlap.Sql.RoundTrip
import SimpleOlap.Storage.BinaryReader
import SimpleOlap.Storage.DataChunk
import SimpleOlap.Storage.Index.KeyEncoder
import SimpleOlap.Storage.Index.KeyInjective
import SimpleOlap.Storage.Index.TableIndex
import SimpleOlap.Storage.Scan.IntegerBinding
import SimpleOlap.Storage.Scan.RowFilter
import SimpleOlap.Storage.Segment.Builder
import SimpleOlap.Storage.Segment.Damaged
import SimpleOlap.Storage.Segment.File
import SimpleOlap.Storage.Segment.RoundTrip
import SimpleOlap.Storage.Table.Append
import SimpleOlap.Storage.Table.Flush
import SimpleOlap.Storage.Table.FlushKeeps
import SimpleOlap.Storage.Table.ParallelScan
import SimpleOlap.Storage.Table.Pruning
import SimpleOlap.Storage.Table.Reopen
import SimpleOlap.Storage.Table.RepeatedScan
import SimpleOlap.Storage.Table.Run
import SimpleOlap.Storage.Table.TableStorage
import SimpleOlap.Storage.Table.Visibility
import SimpleOlap.Type
import SimpleOlap.Execution.Parallel.AggregateRuns
import SimpleOlap.Execution.Parallel.AggregateScan
import SimpleOlap.Execution.Parallel.AggregateEnds
import SimpleOlap.Execution.Parallel.Dispatch
import SimpleOlap.Execution.Parallel.QueryEnds
import SimpleOlap.Execution.ParallelSelect
import SimpleOlap.Execution.ParallelAggregateSelect
