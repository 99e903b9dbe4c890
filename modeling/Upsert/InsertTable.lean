import Upsert.Binary64.Arithmetic
import Upsert.Binary64.Decimal
import Upsert.Search

/-! # Insert tables

The inserts of a partition are shared out over buckets by weight: a bucket's weight is the number of
records allocated to it over the inserts of the partition. The table keeps with each bucket the
running sum of the weights, and a place between zero and one selects the first bucket whose running
sum is not below it. The sums are rounded, so the last one can stay below one; a place above all of
them selects the first bucket.
-/

namespace Upsert

/-- A number of records that goes to a bucket. -/
structure Allocation where
  bucket : Nat
  records : UInt64
deriving DecidableEq

/-- A bucket's line in the table. -/
structure InsertEntry where
  bucket : Nat
  weight : Binary64
  cumulative : Binary64
deriving DecidableEq

/-- The buckets of a partition's inserts, in the order in which they were allocated. -/
structure InsertTable where
  entries : Array InsertEntry
deriving DecidableEq

namespace InsertTable

/-- The entries of allocations, `sum` being the sum of the weights before them. -/
def accumulate (total : Binary64) (sum : Binary64) : List Allocation → List InsertEntry
  | [] => []
  | allocation :: rest =>
    let weight := Binary64.ofNat allocation.records.toNat / total
    let cumulative := sum + weight
    ⟨allocation.bucket, weight, cumulative⟩ :: accumulate total cumulative rest

/-- The table of allocations of `total` inserts; none at all count as one. -/
def ofAllocations (allocations : List Allocation) (total : UInt64) : InsertTable :=
  ⟨(accumulate (.ofNat (max total.toNat 1)) (.zero false) allocations).toArray⟩

theorem length_accumulate (total sum : Binary64) (allocations : List Allocation) :
    (accumulate total sum allocations).length = allocations.length := by
  induction allocations generalizing sum with
  | nil => rfl
  | cons allocation rest ih => rw [accumulate, List.length_cons, ih, List.length_cons]

/-- The number of entries. -/
def size (table : InsertTable) : Nat := table.entries.size

/-- Every allocation has its entry. -/
theorem size_ofAllocations (allocations : List Allocation) (total : UInt64) :
    (ofAllocations allocations total).size = allocations.length := by
  rw [size, ofAllocations, List.size_toArray, length_accumulate]

/-- The table has no entry. -/
def isEmpty (table : InsertTable) : Bool := table.entries.isEmpty

/-- The sum of the weights, from the left; of no weights it is the negative zero. -/
def totalWeight (table : InsertTable) : Binary64 :=
  table.entries.foldl (fun sum entry => sum + entry.weight) (.zero true)

/-- The running sum of an entry is below the place. -/
def isBelow (table : InsertTable) (place : Binary64) (i : Nat) : Bool :=
  match table.entries[i]? with
  | some entry => entry.cumulative.lt place
  | none => false

/-- The bucket of a place: the first one whose running sum is not below the place, or else the first
bucket of the table. -/
def select (table : InsertTable) (place : Binary64) : Option Nat :=
  let found := Search.boundary (table.isBelow place) 0 table.size
  match table.entries[found]? with
  | some entry => some entry.bucket
  | none => table.entries[0]?.map (·.bucket)

/-- The text of an entry: weights have six decimal places. -/
def entryText (entry : InsertEntry) : String :=
  "(bucket=" ++ toString entry.bucket ++ ", weight=" ++ entry.weight.toFixed 6 ++
    ", cumulative=" ++ entry.cumulative.toFixed 6 ++ ")"

/-- The text of a table. -/
def text (table : InsertTable) : String :=
  "[" ++ ", ".intercalate (table.entries.toList.map entryText) ++ "]"

end InsertTable

end Upsert
