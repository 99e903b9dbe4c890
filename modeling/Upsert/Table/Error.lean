import Upsert.Record

/-! # What can go wrong in reading a table

A listing of files fails as a whole; unreadable details of a commit concern that commit alone.
-/

namespace Upsert

/-- A failed listing. -/
inductive TableError where
  | invalidFileName (name : String)
  | unavailable (partition reason : String)
deriving DecidableEq

/-- The text of a failed listing. -/
def TableError.message : TableError → String
  | .invalidFileName name => "invalid base file name: " ++ name
  | .unavailable partition reason => "partition " ++ partition ++ " unavailable: " ++ reason

/-- A failed reading of a commit's details. -/
inductive TimelineError where
  | corruptDetails (instant : Instant) (reason : String)
  | missingDetails (instant : Instant)
deriving DecidableEq

/-- The text of a failed reading. -/
def TimelineError.message : TimelineError → String
  | .corruptDetails instant reason =>
    "corrupt commit metadata at " ++ instant ++ ": " ++ reason
  | .missingDetails instant => "missing commit details for " ++ instant

end Upsert
