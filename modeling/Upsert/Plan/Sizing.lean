import Upsert.Fault

/-! # How large files become

A base file is filled up to a target size. A small file takes as many more records as fit below the
target; a new file is planned either for as many records as fit into an empty file, or for a fixed
number of records.
-/

namespace Upsert

/-- The sizes that a plan aims at. -/
structure Sizing where
  maxFileSize : UInt64
  insertSplitSize : UInt64
  autoTune : Bool
deriving DecidableEq

namespace Sizing

/-- The records of a new file, for records of an average size; at least one. -/
def recordsPerNewFile (sizing : Sizing) (average : UInt64) : UInt64 :=
  let records :=
    if sizing.autoTune then sizing.maxFileSize / (if average = 0 then 1 else average)
    else sizing.insertSplitSize
  if records = 0 then 1 else records

/-- The bytes by which a file of the given size is below the target. -/
def room (sizing : Sizing) (size : UInt64) : UInt64 :=
  if size ≤ sizing.maxFileSize then sizing.maxFileSize - size else 0

/-- The records that still fit into a file of the given size. -/
def capacity (sizing : Sizing) (average size : UInt64) : Except Fault UInt64 :=
  Checked.div (sizing.room size) average

/-- The text of a planner that aims at these sizes. -/
def plannerText (sizing : Sizing) : String :=
  "BucketPlanner \x7b config: PlannerConfig \x7b max_file_size: " ++
    toString sizing.maxFileSize.toNat ++ ", insert_split_size: " ++
    toString sizing.insertSplitSize.toNat ++ ", auto_tune_insert_splits: " ++
    toString sizing.autoTune ++ " \x7d, .. \x7d"

end Sizing

end Upsert
