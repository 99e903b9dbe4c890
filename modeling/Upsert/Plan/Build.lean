import Upsert.Plan.Basic
import Upsert.Plan.Sizing
import Upsert.Profile

/-! # Building a plan

Every file with updates gets an update bucket, partitions and files in ascending order. Then, for
each partition with inserts in ascending order, the inserts are allocated. The partition's small
files that are not under pending clustering are topped up first, in the order given, each with as
many records as fit, in its own update bucket, which is opened if the file has none. What is left
goes to new files: all but the last take the full number of records, and the last takes the rest.
-/

namespace Upsert.Plan

/-! ## Topping up small files -/

/-- What topping up has come to: the allocations, the inserts left, and the plan. -/
structure TopUp where
  allocations : List Allocation
  left : UInt64
  plan : Plan

/-- Tops up small files in turn with the inserts that are left. -/
def topUp (sizing : Sizing) (partition : String) (plan : Plan) (left : UInt64) :
    List SmallFile → Except Fault TopUp
  | [] => .ok ⟨[], left, plan⟩
  | file :: files => do
    let capacity ← sizing.capacity plan.averageRecordSize file.size
    let records := if capacity ≤ left then capacity else left
    if records = 0 then topUp sizing partition plan left files
    else
      let (bucket, plan) := plan.updateBucketFor partition file.fileId
      let left ← Checked.sub left records
      let rest ← topUp sizing partition plan left files
      return { rest with allocations := ⟨bucket, records⟩ :: rest.allocations }

/-! ## New files -/

/-- The records of the new file number `i` out of `count`, which share `left` records. -/
def newFileLoad (left perFile count : UInt64) (i : Nat) : Except Fault UInt64 := do
  let next ← Checked.add (UInt64.ofNat i) 1
  if next < count then return perFile
  else Checked.sub left (← Checked.mul (← Checked.sub count 1) perFile)

/-- The records of each new file for `left` records, `perFile` records in a full one. -/
def newFileLoads (left perFile : UInt64) : Except Fault (List UInt64) := do
  let count ← Checked.ceilDiv left perFile
  (List.range count.toNat).mapM (newFileLoad left perFile count)

/-- Opens an insert bucket for each load and allocates the load to it. -/
def openInserts (fresh : Nat → String) (partition : String) (plan : Plan) :
    List UInt64 → List Allocation × Plan
  | [] => ([], plan)
  | load :: loads =>
    let bucket := plan.numBuckets
    let (rest, last) := openInserts fresh partition (plan.openInsert fresh partition) loads
    (⟨bucket, load⟩ :: rest, last)

/-! ## The plan of a batch -/

/-- Allocates the inserts of a partition to its small files and to new files. -/
def assignInserts (sizing : Sizing) (fresh : Nat → String) (plan : Plan) (partition : String)
    (inserts : UInt64) (files : List SmallFile) : Except Fault Plan := do
  let filled ← topUp sizing partition plan inserts files
  let loads ←
    newFileLoads filled.left (sizing.recordsPerNewFile plan.averageRecordSize)
  let (opened, plan) := openInserts fresh partition filled.plan loads
  let allocations := filled.allocations ++ opened
  let share := ⟨inserts, allocations, .ofAllocations allocations inserts⟩
  return { plan with
    shares := plan.shares.insert partition share
    smallFiles := plan.smallFiles ++ files }

/-- Opens an update bucket for every file with updates. -/
def assignUpdates (plan : Plan) (profile : Profile) : Plan :=
  profile.updatedFiles.foldl (fun plan (partition, fileId) => plan.openUpdate partition fileId) plan

/-- The small files of a partition that may be topped up. -/
def candidates (smallFiles : SortedMap (List SmallFile)) (pending : SortedMap KeySet)
    (partition : String) : List SmallFile :=
  SmallFile.excludePending (pending.findD partition .empty) (smallFiles.findD partition [])

/-- The plan of a batch. The average record size must not be zero. -/
def build (sizing : Sizing) (fresh : Nat → String) (profile : Profile)
    (smallFiles : SortedMap (List SmallFile)) (pending : SortedMap KeySet) (average : UInt64) :
    Except Fault Plan :=
  if average = 0 then .error .nonPositiveRecordSize
  else
    profile.insertPartitions.foldlM
      (fun plan (partition, inserts) =>
        assignInserts sizing fresh plan partition inserts (candidates smallFiles pending partition))
      ((empty average).assignUpdates profile)

end Upsert.Plan
