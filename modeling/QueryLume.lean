import QueryLume.Apps.QuerylumeCli
import QueryLume.Binder
import QueryLume.BinderAcceptance
import QueryLume.BoundPlan
import QueryLume.Common.Error
import QueryLume.Data.ExactComparison
import QueryLume.Data.IntegerStorage
import QueryLume.Data.Json
import QueryLume.Data.JsonLoader
import QueryLume.Data.JsonObjects
import QueryLume.Data.LoadedTable
import QueryLume.Data.LoaderAcceptance
import QueryLume.Data.Table
import QueryLume.Data.Value
import QueryLume.Data.ValueOrder
import QueryLume.Explain.Describe
import QueryLume.Explain.JsonSerialize
import QueryLume.Explain.Legible
import QueryLume.Explain.QueryFacade
import QueryLume.Explain.SamePlan
import QueryLume.Expression
import QueryLume.Foundation.Binary64
import QueryLume.Foundation.BoundedHeap
import QueryLume.Foundation.Checked
import QueryLume.Foundation.ComparisonProgram
import QueryLume.Foundation.Delimiters
import QueryLume.Foundation.ExtendedReals
import QueryLume.Foundation.Feed
import QueryLume.Foundation.FeedProgress
import QueryLume.Foundation.InsertionSort
import QueryLume.Foundation.LexOrder
import QueryLume.Foundation.Lists
import QueryLume.Foundation.Parametricity
import QueryLume.Foundation.ReferenceAlgorithms
import QueryLume.Foundation.RowWise
import QueryLume.Foundation.SamePrefix
import QueryLume.Foundation.SameSuccess
import QueryLume.Foundation.SelectionParts
import QueryLume.Foundation.StdAlgorithms
import QueryLume.Logical
import QueryLume.NormalForm
import QueryLume.Optimizer
import QueryLume.Parser
import QueryLume.ParserGrammar
import QueryLume.Physical.ArrivalOrder
import QueryLume.Physical.Bisimulation
import QueryLume.Physical.Cascade
import QueryLume.Physical.DrainLoop
import QueryLume.Physical.Equivalence
import QueryLume.Physical.Execution
import QueryLume.Physical.Guarantees
import QueryLume.Physical.HandsOn
import QueryLume.Physical.Lifecycle
import QueryLume.Physical.MemoryAccounting
import QueryLume.Physical.PeakMemory
import QueryLume.Physical.PlanStage
import QueryLume.Physical.PlanStageBase
import QueryLume.Physical.Planner
import QueryLume.Physical.Protocol
import QueryLume.Physical.Provenance
import QueryLume.Physical.Refinement
import QueryLume.Physical.RowComparator
import QueryLume.Physical.RowContract
import QueryLume.Physical.RowOrder
import QueryLume.Physical.StageInvariants
import QueryLume.Physical.Stages
import QueryLume.Physical.Timing
import QueryLume.Physical.TopKRejection
import QueryLume.Query.Appended
import QueryLume.Query.Composition
import QueryLume.Query.Distributed
import QueryLume.Query.DocumentOrder
import QueryLume.Query.Documents
import QueryLume.Query.DoubleSort
import QueryLume.Query.ErrorContract
import QueryLume.Query.ExaminedPrefix
import QueryLume.Query.ExplainedPlan
import QueryLume.Query.InputRead
import QueryLume.Query.Interchange
import QueryLume.Query.LateProjection
import QueryLume.Query.LateSort
import QueryLume.Query.Noninterference
import QueryLume.Query.Numerals
import QueryLume.Query.OperatorLaws
import QueryLume.Query.OtherFields
import QueryLume.Query.Paging
import QueryLume.Query.Portability
import QueryLume.Query.Reference
import QueryLume.Query.Rejection
import QueryLume.Query.RepeatedStage
import QueryLume.Query.Replay
import QueryLume.Query.ReportFigures
import QueryLume.Query.ReportPlans
import QueryLume.Query.ReportedPeaks
import QueryLume.Query.RoundTrip
import QueryLume.Query.Runs
import QueryLume.Query.RuntimeErrors
import QueryLume.Query.Safety
import QueryLume.Query.SavedResult
import QueryLume.Query.Semantics
import QueryLume.Query.SplitMatch
import QueryLume.Query.Streaming
import QueryLume.Query.TypeCheck
import QueryLume.Query.Typing
