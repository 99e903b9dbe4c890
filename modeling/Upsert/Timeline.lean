import Upsert.Table.Error

/-! # The timeline of completed commits

A timeline lists the instants of the completed commits, oldest first, and reads the details of each.
The order is the timeline's own: nothing here asks the list to be ascending or free of repetitions.
-/

namespace Upsert

/-- What a commit wrote. -/
structure CommitDetails where
  bytes : UInt64
  records : UInt64
deriving DecidableEq

/-- The completed commits of a table. -/
structure Timeline where
  instants : List Instant
  details : Instant → Except TimelineError CommitDetails

namespace Timeline

/-- One completed commit: its instant and the outcome of reading its details. -/
abbrev Entry := Instant × Except TimelineError CommitDetails

/-- The timeline of a list of commits, oldest first; of several entries with one instant the details
of the first count. -/
def ofEntries (entries : List Entry) : Timeline where
  instants := entries.map (·.1)
  details instant :=
    match entries.find? (fun entry => entry.1 == instant) with
    | some entry => entry.2
    | none => .error (.missingDetails instant)

/-- The commits, newest first. -/
def newestFirst (timeline : Timeline) : List Entry :=
  timeline.instants.reverse.map fun instant => (instant, timeline.details instant)

/-- An instant is not past the bound; without a bound every instant is allowed. -/
def within (bound : Option Instant) (instant : Instant) : Bool :=
  match bound with
  | none => true
  | some bound => decide (instant ≤ bound)

/-- The last of the completed instants that is not past the bound. -/
def latest? (timeline : Timeline) (bound : Option Instant) : Option Instant :=
  timeline.instants.reverse.find? (within bound)

end Timeline

end Upsert
