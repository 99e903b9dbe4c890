import Upsert.FileName
import Upsert.Table.Error

/-! # Base files

A base file as a listing shows it: its name and its size. The file group that it belongs to and the
instant that wrote it are read off the name.
-/

namespace Upsert

/-- A base file. -/
structure BaseFile where
  name : String
  size : UInt64
deriving DecidableEq

namespace BaseFile

/-- The parts of the file's name. -/
def parsedName (file : BaseFile) : Except TableError FileName :=
  match FileName.parse? file.name with
  | some name => .ok name
  | none => .error (.invalidFileName file.name)

/-- The file group of the file. -/
def fileId (file : BaseFile) : Except TableError String :=
  file.parsedName.map (·.fileId)

/-- The instant that wrote the file. -/
def instant (file : BaseFile) : Except TableError Instant :=
  file.parsedName.map (·.instant)

end BaseFile

end Upsert
