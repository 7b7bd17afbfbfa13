import Rollup.Query
import Rollup.Output.Inspect
import Rollup.Proofs.Session.Push
import Rollup.Proofs.Stream.Fold
import Rollup.Proofs.Table
import Rollup.Proofs.Session.Totals
import Rollup.Proofs.Session.Split
import Rollup.Proofs.Query.Push
import Rollup.Proofs.Grouping.Levels
import Rollup.Proofs.Grouping.Listing
import Rollup.Proofs.Query.Execution
import Rollup.Proofs.Query.GroupBy
import Rollup.Proofs.Number.Comparison
import Rollup.Proofs.Number.Quotient
import Rollup.Proofs.Number.Rounding
import Rollup.Proofs.Number.Arithmetic
import Rollup.Proofs.Number.Counting
import Rollup.Proofs.Ranking
import Rollup.Proofs.Session.Scores
import Rollup.Proofs.Grouping.TopK
import Rollup.Proofs.Grouping.Percentile
import Rollup.Proofs.Liveness.History
import Rollup.Proofs.Query.Columns
import Rollup.Proofs.Session.History
import Rollup.Proofs.Stat.Combination
import Rollup.Proofs.Session.Offspring
import Rollup.Proofs.Grouping.Partition
import Rollup.Proofs.Session.ChildTotals
import Rollup.Proofs.Grouping.RowKeys
import Rollup.Proofs.Query.Partition
import Rollup.Proofs.Query.Interruption
import Rollup.Proofs.Query.Invariance
import Rollup.Proofs.Session.Operations
import Rollup.Proofs.Session.Bounds
import Rollup.Proofs.Session.Metrics
import Rollup.Proofs.Stat.Readdressing
import Rollup.Proofs.Session.Likeness
import Rollup.Proofs.Grouping.Likeness
import Rollup.Proofs.Grouping.Repetition
import Rollup.Proofs.Grouping.Mirroring
import Rollup.Proofs.Query.Respelling
import Rollup.Proofs.Stream.Reaching
import Rollup.Proofs.Session.Division
import Rollup.Proofs.Session.TermStream
import Rollup.Proofs.Grouping.Laziness
import Rollup.Proofs.Grouping.Independence
import Rollup.Proofs.Grouping.Coverage
import Rollup.Proofs.Number.Scaling
import Rollup.Proofs.Grouping.PercentileOrder
import Rollup.Proofs.Stream.Prefix
import Rollup.Proofs.Session.Atomicity
import Rollup.Proofs.Grouping.Lifecycle
import Rollup.Proofs.Settings
import Rollup.Proofs.Key
