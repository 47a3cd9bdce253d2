import DuckLake.Lib.Kleene
import DuckLake.Lib.Ieee
import DuckLake.Scalar
import DuckLake.Stats.Encode
import DuckLake.Prune.Lower
import DuckLake.Prune.Render
import DuckLake.Prune.Bounds
import DuckLake.Prune.Sound
import DuckLake.Lib.Lifetime
import DuckLake.Lib.Optimistic
import DuckLake.Metadata.Catalog
import DuckLake.Metadata.Conflict
import DuckLake.Lib.Checked
import DuckLake.Metadata.Stage
import DuckLake.Metadata.Commit
import DuckLake.Metadata.Current
import DuckLake.Metadata.Evolve
import DuckLake.Metadata.Effect
import DuckLake.Metadata.StageEffect
import DuckLake.Metadata.MultiTable
import DuckLake.Metadata.Retire
import DuckLake.Plan.Files
import DuckLake.Lib.Lists
import DuckLake.Plan.Compaction
import DuckLake.Lib.Earliest
import DuckLake.Plan.Flush
import DuckLake.Plan.FlushCommit
import DuckLake.Lake.System
import DuckLake.Lake.Deletion
import DuckLake.Lake.Serial
import DuckLake.Inlined.Filter
import DuckLake.Inlined.Render
import DuckLake.Inlined.Engine
import DuckLake.Inlined.Tree
import DuckLake.Inlined.Comparison
import DuckLake.Inlined.Pushdown
import DuckLake.Inlined.Exact
import DuckLake.Lib.Segments
import DuckLake.Maintenance.Paths
import DuckLake.Maintenance.Orphans
import DuckLake.Partition.Spec
import DuckLake.Partition.Prefilter
import DuckLake.Partition.History
import DuckLake.Maintenance.Expire
import DuckLake.Maintenance.TimeTravel
import DuckLake.Changes.Detection
import DuckLake.Changes.History
import DuckLake.Stats.Planner
import DuckLake.Stats.Published
import DuckLake.Stats.StringBounds
import DuckLake.Nested.Types
import DuckLake.Stats.Footer
import DuckLake.Lib.Gregorian
import DuckLake.Stats.Calendar
import DuckLake.Stats.Spelling
import DuckLake.Partition.Split
import DuckLake.Lib.Scan
import DuckLake.Nested.Text
import DuckLake.Nested.Leaf
import DuckLake.Nested.RoundTrip
import DuckLake.Nested.Readable
import DuckLake.Lib.FirstError
import DuckLake.Plan.ReadAhead
import DuckLake.Nested.Array
import DuckLake.Nested.Statistics
import DuckLake.Nested.Gathered
import DuckLake.Partition.Counts
import DuckLake.Metadata.RowIds
import DuckLake.Lib.Components
import DuckLake.Maintenance.Confined
import DuckLake.Changes.Ledger
import DuckLake.Lib.Nearest
import DuckLake.Lib.Split
import DuckLake.Stats.Compare
import DuckLake.Stats.Decimal
import DuckLake.Stats.Temporal
import DuckLake.Stats.Civil
import DuckLake.Stats.Canonical
import DuckLake.Stats.Chronological
import DuckLake.Stats.Instant
import DuckLake.Lib.Brackets
import DuckLake.Types.Arrow
import DuckLake.Types.Text
import DuckLake.Types.RoundTrip
import DuckLake.Lib.Grouped
import DuckLake.Maintenance.Multicatalog
import DuckLake.Columns.Catalog
import DuckLake.Columns.Rebuild
import DuckLake.Columns.RoundTrip
import DuckLake.Lib.Forest
import DuckLake.Lib.Fraction
import DuckLake.Partition.HiveNumber
import DuckLake.Options.Cast
import DuckLake.Options.Number
import DuckLake.Options.Rounding
