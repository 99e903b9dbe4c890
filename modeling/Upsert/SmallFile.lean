import Upsert.Table.Basic

/-! # Small files

A base file below the small-file limit can take more records before it is full. The small files of
a partition are read off one snapshot: the listing as of the latest completed commit. A table
without a completed commit has none. A file group under pending clustering must not be written, and
its small file is left out.
-/

namespace Upsert

/-- A base file that can be topped up. -/
structure SmallFile where
  location : RecordLocation
  size : UInt64
deriving DecidableEq

namespace SmallFile

/-- The file group of a small file. -/
def fileId (file : SmallFile) : String := file.location.fileId

/-- The text of a small file: its location and its size in bytes. -/
def text (file : SmallFile) : String :=
  "SmallFile \x7b " ++ file.location.text ++ ", " ++ toString file.size.toNat ++ " B \x7d"

/-- The small file of a base file, by the parts of its name. -/
def ofBaseFile (file : BaseFile) : Except TableError SmallFile := do
  let name ← file.parsedName
  return ⟨⟨name.instant, name.fileId⟩, file.size⟩

/-- The small files of a partition, in the order of the listing, as of the latest completed commit
that is not past the bound. -/
def scan (view : Table) (timeline : Timeline) (limit : UInt64) (bound : Option Instant)
    (partition : String) : Except TableError (List SmallFile) :=
  match timeline.latest? bound with
  | none => .ok []
  | some instant => do
    let files ← view.list partition instant
    (files.filter fun file => file.size < limit).mapM ofBaseFile

/-- The small files whose file groups are not under pending clustering. -/
def excludePending (pending : KeySet) (files : List SmallFile) : List SmallFile :=
  files.filter fun file => !pending.contains file.fileId

end SmallFile

end Upsert
