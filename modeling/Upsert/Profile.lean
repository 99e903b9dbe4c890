import Upsert.Fault
import Upsert.Record
import Upsert.SortedMap

/-! # The profile of a batch

A profile counts the records of a batch: for each partition its inserts, and for each file of the
partition the updates of records that the file holds. Partitions and files are visited in ascending
order, so everything derived from a profile depends on the counts alone. A partition or a file that
was counted with zero records stays in the profile.

A profile grows by `Profile.Change`s. A count that leaves the 64-bit words is a fault.
-/

namespace Upsert

/-- The counts of one partition. -/
structure Stat where
  inserts : UInt64
  updates : SortedMap UInt64
deriving DecidableEq

namespace Stat

/-- The counts of a partition before its first record. -/
def empty : Stat := ⟨0, .empty⟩

/-- Counts `n` more inserts. -/
def addInserts (stat : Stat) (n : UInt64) : Except Fault Stat := do
  return { stat with inserts := ← Checked.add stat.inserts n }

/-- Counts `n` more updates of a file. -/
def addUpdates (stat : Stat) (fileId : String) (n : UInt64) : Except Fault Stat := do
  let count ← Checked.add (stat.updates.findD fileId 0) n
  return { stat with updates := stat.updates.insert fileId count }

/-- The updates of all files of the partition. -/
def totalUpdates (stat : Stat) : Except Fault UInt64 := Checked.sum stat.updates.values

/-- The files with at least one update, ascending. -/
def updatedFiles (stat : Stat) : List String :=
  (stat.updates.toList.filter fun entry => 0 < entry.2).map (·.1)

end Stat

/-- The counts of a batch, by partition. -/
structure Profile where
  partitions : SortedMap Stat
deriving DecidableEq

namespace Profile

/-- One addition to a profile. -/
inductive Change where
  | inserts (partition : String) (n : UInt64)
  | updates (partition fileId : String) (n : UInt64)
deriving DecidableEq

/-- What one record adds. -/
def Change.ofRecord (record : Record) : Change :=
  match record.location with
  | some location => .updates record.key.partition location.fileId 1
  | none => .inserts record.key.partition 1

/-- The partition that a change is about. -/
def Change.partition : Change → String
  | .inserts partition _ => partition
  | .updates partition _ _ => partition

/-- The profile of the empty batch. -/
def empty : Profile := ⟨.empty⟩

/-- The counts of a partition, where it was touched. -/
def stat? (profile : Profile) (partition : String) : Option Stat :=
  profile.partitions.find? partition

/-- Makes one addition. -/
def apply (profile : Profile) (change : Change) : Except Fault Profile := do
  let old := profile.partitions.findD change.partition .empty
  let new ← match change with
    | .inserts _ n => old.addInserts n
    | .updates _ fileId n => old.addUpdates fileId n
  return ⟨profile.partitions.insert change.partition new⟩

/-- Makes additions one after the other. -/
def applyAll (profile : Profile) (changes : List Change) : Except Fault Profile :=
  changes.foldlM apply profile

/-- The profile of a batch of records. -/
def ofRecords (records : List Record) : Except Fault Profile :=
  empty.applyAll (records.map Change.ofRecord)

/-- The inserts of a partition, none where it was not touched. -/
def inserts (profile : Profile) (partition : String) : UInt64 :=
  ((profile.stat? partition).map Stat.inserts).getD 0

/-- The inserts of the whole batch. -/
def totalInserts (profile : Profile) : Except Fault UInt64 :=
  Checked.sum (profile.partitions.values.map Stat.inserts)

/-- The updates of the whole batch. -/
def totalUpdates (profile : Profile) : Except Fault UInt64 := do
  Checked.sum (← profile.partitions.values.mapM Stat.totalUpdates)

/-- The files with at least one update, each after its partition, in ascending order. -/
def updatedFiles (profile : Profile) : List (String × String) :=
  profile.partitions.toList.flatMap fun (partition, stat) =>
    stat.updatedFiles.map fun fileId => (partition, fileId)

/-- The partitions with at least one insert and their inserts, in ascending order. -/
def insertPartitions (profile : Profile) : List (String × UInt64) :=
  (profile.partitions.toList.filter fun entry => 0 < entry.2.inserts).map
    fun (partition, stat) => (partition, stat.inserts)

end Profile

end Upsert
