import Upsert.Config
import Upsert.Fanout
import Upsert.Plan.Build
import Upsert.Plan.Route

/-! # The partitioner of a batch

For a batch's profile and a table, a partitioner estimates the average record size from the
timeline, reads the small files and the pending clustering of every partition with inserts, all from
the snapshot of the latest completed commit, and builds the plan. From then on it only routes.
-/

namespace Upsert

/-- Why there is no partitioner. A fault is a broken promise of this library's own. -/
inductive PartitionerError where
  | config (error : ConfigError)
  | table (error : TableError)
  | fault (cause : Fault)
deriving DecidableEq

/-- The text of the error. -/
def PartitionerError.message : PartitionerError → String
  | .config error => error.message
  | .table error => "table error: " ++ error.message
  | .fault cause => cause.message

/-- The plan of a batch, with the profile and the estimate that it was made from. -/
structure Partitioner where
  profile : Profile
  plan : Plan
  estimate : SizeEstimate
deriving DecidableEq

namespace Partitioner

/-- The small files of the given partitions and their file groups under pending clustering. -/
def readTable (fanout : Fanout) (config : Config) (view : Table) (timeline : Timeline)
    (partitions : List String) :
    Except TableError (SortedMap (List SmallFile) × SortedMap KeySet) := do
  let bound := timeline.latest? none
  let smallFiles ←
    fanout.gather (SmallFile.scan view timeline config.smallFileLimit bound) partitions
  let pending ← fanout.gather view.pending partitions
  return (smallFiles, pending)

/-- Plans a batch, reading the table with the given fan-out; `fresh` gives the fresh ids of insert
buckets by their number. -/
def build (fanout : Fanout) (fresh : Nat → String) (profile : Profile) (view : Table)
    (timeline : Timeline) (config : Config) : Except PartitionerError Partitioner := do
  config.validate.mapError .config
  let estimate := config.estimator.estimate timeline
  let partitions := profile.insertPartitions.map (·.1)
  let (smallFiles, pending) ←
    (readTable fanout config view timeline partitions).mapError .table
  let plan ←
    (Plan.build config.sizing fresh profile smallFiles pending estimate.bytesPerRecord).mapError
      .fault
  return ⟨profile, plan, estimate⟩

/-- Plans a batch, reading the table with as many threads as the configuration says. -/
def buildPooled (fresh : Nat → String) (profile : Profile) (view : Table) (timeline : Timeline)
    (config : Config) : Except PartitionerError Partitioner :=
  build (.pool config.scanParallelism.toNat) fresh profile view timeline config

/-! ## Looking at the plan -/

/-- The number of buckets. -/
def numBuckets (partitioner : Partitioner) : Nat := partitioner.plan.numBuckets

/-- The buckets, by number. -/
def buckets (partitioner : Partitioner) : Array Bucket := partitioner.plan.buckets

/-- The bucket with a number. -/
def bucket? (partitioner : Partitioner) (number : Nat) : Option Bucket :=
  partitioner.plan.bucket? number

/-- The insert table of a partition with inserts. -/
def insertTable? (partitioner : Partitioner) (partition : String) : Option InsertTable :=
  partitioner.plan.insertTable? partition

/-- The small files that inserts may top up. -/
def smallFiles (partitioner : Partitioner) : List SmallFile := partitioner.plan.smallFiles

/-- The average record size that the plan was made for. -/
def averageRecordSize (partitioner : Partitioner) : UInt64 := partitioner.plan.averageRecordSize

/-- The bucket of a record, by its key and location. -/
def route (partitioner : Partitioner) (key : RecordKey) (location : Option RecordLocation) :
    Except RouteError Nat :=
  partitioner.plan.route key location

/-- The bucket of a record of the batch. -/
def routeOwn (partitioner : Partitioner) (key : RecordKey) (location : Option RecordLocation) :
    Except Unrouted Nat :=
  partitioner.plan.routeOwn key location

end Partitioner

end Upsert
