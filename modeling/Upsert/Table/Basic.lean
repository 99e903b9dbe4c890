import Upsert.SortedMap
import Upsert.Table.BaseFile
import Upsert.Timeline

/-! # Tables

A table holds, for each partition and file group, the slices that commits wrote; the completed
commits; the file groups under pending clustering, whose files are about to be merged into others;
and the partitions that cannot be listed at present. It grows by `Table.Change`s.

A listing is a snapshot: as of an instant it shows for each file group, in ascending order of the
groups, the latest slice that is not past the instant. The table is also its own timeline, whose
instants ascend.
-/

namespace Upsert

/-- What one commit wrote for a file group. -/
structure FileSlice where
  instant : Instant
  file : BaseFile
deriving DecidableEq

/-- A completed commit, with its details or with the reason why they cannot be read. -/
inductive Commit where
  | completed (details : CommitDetails)
  | corrupt (reason : String)
deriving DecidableEq

/-- A table. The slices of a file group are kept in the order in which they were added. -/
structure Table where
  slices : SortedMap (SortedMap (List FileSlice))
  commits : SortedMap Commit
  pendingClustering : SortedMap KeySet
  unavailable : KeySet
deriving DecidableEq

namespace Table

/-- The table without files and commits. -/
def empty : Table := ⟨.empty, .empty, .empty, .empty⟩

/-! ## Changes -/

/-- One addition to a table. -/
inductive Change where
  | slice (partition group : String) (slice : FileSlice)
  | commit (instant : Instant) (commit : Commit)
  | pendingClustering (partition fileId : String)
  | unavailable (partition : String)
deriving DecidableEq

/-- A slice whose file is named after its file group and instant. -/
def Change.baseFile (partition fileId : String) (instant : Instant) (size : UInt64) : Change :=
  .slice partition fileId ⟨instant, ⟨FileName.render ⟨fileId, "1-0-1", instant⟩ "parquet", size⟩⟩

/-- The file groups of a partition. -/
def groups (table : Table) (partition : String) : SortedMap (List FileSlice) :=
  table.slices.findD partition .empty

/-- The file groups of a partition under pending clustering. -/
def pendingIn (table : Table) (partition : String) : KeySet :=
  table.pendingClustering.findD partition .empty

/-- Makes one addition. A commit takes the place of an earlier one of the same instant. -/
def apply (table : Table) : Change → Table
  | .slice partition group slice =>
    let groups := table.groups partition
    let slices := groups.findD group [] ++ [slice]
    { table with slices := table.slices.insert partition (groups.insert group slices) }
  | .commit instant commit => { table with commits := table.commits.insert instant commit }
  | .pendingClustering partition fileId =>
    { table with pendingClustering :=
        table.pendingClustering.insert partition ((table.pendingIn partition).add fileId) }
  | .unavailable partition => { table with unavailable := table.unavailable.add partition }

/-- Makes additions one after the other. -/
def applyAll (table : Table) (changes : List Change) : Table := changes.foldl apply table

/-! ## Listings -/

/-- Fails where the partition cannot be listed. -/
def checkAvailable (table : Table) (partition : String) : Except TableError Unit :=
  if table.unavailable.contains partition then
    .error (.unavailable partition "partition marked unavailable")
  else .ok ()

/-- The better one to show as of an instant: the best slice so far or the next one. The next one
must not be past the instant, and wins a tie. -/
def laterSlice (bound : Instant) (best : Option FileSlice) (slice : FileSlice) :
    Option FileSlice :=
  if slice.instant ≤ bound then
    match best with
    | none => some slice
    | some older => if older.instant ≤ slice.instant then some slice else some older
  else best

/-- The slice that a file group shows as of an instant. -/
def latestSlice? (bound : Instant) (slices : List FileSlice) : Option FileSlice :=
  slices.foldl (laterSlice bound) none

/-- The base files of a partition as of an instant, one for each file group that has one. -/
def list (table : Table) (partition : String) (bound : Instant) :
    Except TableError (List BaseFile) := do
  table.checkAvailable partition
  return (table.groups partition).values.filterMap fun slices =>
    (latestSlice? bound slices).map (·.file)

/-- The file groups of a partition under pending clustering, where the partition can be listed. -/
def pending (table : Table) (partition : String) : Except TableError KeySet := do
  table.checkAvailable partition
  return table.pendingIn partition

/-! ## The table as a timeline -/

/-- The outcome of reading a commit's details. -/
def commitDetails (table : Table) (instant : Instant) : Except TimelineError CommitDetails :=
  match table.commits.find? instant with
  | some (.completed details) => .ok details
  | some (.corrupt reason) => .error (.corruptDetails instant reason)
  | none => .error (.missingDetails instant)

/-- The timeline of the table's commits. -/
def timeline (table : Table) : Timeline where
  instants := table.commits.keys
  details := table.commitDetails

end Table

end Upsert
