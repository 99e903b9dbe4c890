/-! # Records

An incoming record has a key and the partition that it is written to. A record that the table
already stores comes with its location: the file group that holds it and the instant of the commit
that wrote it there.
-/

namespace Upsert

/-- The time of a commit, a fixed-width time stamp: instants are ordered by their code points. -/
abbrev Instant := String

/-- What tells a record apart: its key and the partition it is written to. -/
structure RecordKey where
  key : String
  partition : String
deriving DecidableEq

/-- Where a stored record lives. -/
structure RecordLocation where
  instant : Instant
  fileId : String
deriving DecidableEq

/-- The text of a location: the file id, an at sign, the instant. -/
def RecordLocation.text (location : RecordLocation) : String :=
  location.fileId ++ "@" ++ location.instant

/-- An incoming record; it is an update where it has a location and an insert where it has none. -/
structure Record where
  key : RecordKey
  location : Option RecordLocation
deriving DecidableEq

end Upsert
