import Upsert.Bucket
import Upsert.InsertTable
import Upsert.SmallFile
import Upsert.SortedMap

/-! # Bucket plans

A plan numbers the buckets of a batch from zero in the order in which they were opened, knows the
update bucket of each file id, and holds for each partition with inserts what was allocated to which
bucket. It grows by opening buckets: a new update bucket becomes the bucket of its file id, in place
of an earlier one; a new insert bucket takes the next fresh id, and is the bucket of no file id.
-/

namespace Upsert

/-- What becomes of the inserts of one partition. -/
structure InsertShare where
  inserts : UInt64
  allocations : List Allocation
  table : InsertTable
deriving DecidableEq

/-- The buckets of a batch. -/
structure Plan where
  averageRecordSize : UInt64
  buckets : Array Bucket
  updateBuckets : SortedMap Nat
  shares : SortedMap InsertShare
  smallFiles : List SmallFile
  freshIds : Nat
deriving DecidableEq

namespace Plan

/-- The plan without buckets, for records of an average size. -/
def empty (average : UInt64) : Plan := ⟨average, #[], .empty, .empty, [], 0⟩

/-! ## What a plan knows -/

/-- The number of buckets. -/
def numBuckets (plan : Plan) : Nat := plan.buckets.size

/-- The bucket with a number. -/
def bucket? (plan : Plan) (number : Nat) : Option Bucket := plan.buckets[number]?

/-- The number of the update bucket of a file id. -/
def updateBucket? (plan : Plan) (fileId : String) : Option Nat := plan.updateBuckets.find? fileId

/-- The insert table of a partition with inserts. -/
def insertTable? (plan : Plan) (partition : String) : Option InsertTable :=
  (plan.shares.find? partition).map (·.table)

/-- The inserts of a partition that the plan was made for. -/
def partitionInserts (plan : Plan) (partition : String) : UInt64 :=
  ((plan.shares.find? partition).map (·.inserts)).getD 0

/-! ## Opening buckets -/

/-- Opens the update bucket of a file. -/
def openUpdate (plan : Plan) (partition fileId : String) : Plan :=
  { plan with
    buckets := plan.buckets.push (.update fileId partition)
    updateBuckets := plan.updateBuckets.insert fileId plan.buckets.size }

/-- Opens an insert bucket; `fresh` gives the fresh ids by their number. -/
def openInsert (fresh : Nat → String) (plan : Plan) (partition : String) : Plan :=
  { plan with
    buckets := plan.buckets.push (.insert (fresh plan.freshIds) partition)
    freshIds := plan.freshIds + 1 }

/-- The update bucket of a file, opened where the file has none. -/
def updateBucketFor (plan : Plan) (partition fileId : String) : Nat × Plan :=
  match plan.updateBucket? fileId with
  | some number => (number, plan)
  | none => (plan.numBuckets, plan.openUpdate partition fileId)

/-! ## What opening a bucket changes -/

@[simp] theorem numBuckets_openUpdate (plan : Plan) (partition fileId : String) :
    (plan.openUpdate partition fileId).numBuckets = plan.numBuckets + 1 :=
  Array.size_push ..

@[simp] theorem numBuckets_openInsert (fresh : Nat → String) (plan : Plan) (partition : String) :
    (plan.openInsert fresh partition).numBuckets = plan.numBuckets + 1 :=
  Array.size_push ..

theorem bucket?_openUpdate (plan : Plan) (partition fileId : String) (number : Nat) :
    (plan.openUpdate partition fileId).bucket? number =
      if number = plan.numBuckets then some (.update fileId partition)
      else plan.bucket? number := by
  rw [bucket?, openUpdate, Array.getElem?_push, numBuckets, bucket?]

theorem bucket?_openInsert (fresh : Nat → String) (plan : Plan) (partition : String)
    (number : Nat) :
    (plan.openInsert fresh partition).bucket? number =
      if number = plan.numBuckets then some (.insert (fresh plan.freshIds) partition)
      else plan.bucket? number := by
  rw [bucket?, openInsert, Array.getElem?_push, numBuckets, bucket?]

theorem updateBucket?_openUpdate (plan : Plan) (partition fileId other : String) :
    (plan.openUpdate partition fileId).updateBucket? other =
      if other = fileId then some plan.numBuckets else plan.updateBucket? other :=
  SortedMap.find?_insert ..

@[simp] theorem updateBucket?_openInsert (fresh : Nat → String) (plan : Plan)
    (partition fileId : String) :
    (plan.openInsert fresh partition).updateBucket? fileId = plan.updateBucket? fileId := rfl

/-- A bucket once opened for a file is the bucket of the file. -/
theorem updateBucket?_updateBucketFor (plan : Plan) (partition fileId : String) :
    (plan.updateBucketFor partition fileId).2.updateBucket? fileId =
      some (plan.updateBucketFor partition fileId).1 := by
  unfold updateBucketFor
  split
  · rename_i number h
    exact h
  · rw [updateBucket?_openUpdate, if_pos rfl]

end Plan

end Upsert
