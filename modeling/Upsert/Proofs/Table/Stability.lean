import Upsert.Proofs.Table.Snapshot
import Upsert.Proofs.Timeline
import Upsert.SmallFile

/-!
# A snapshot does not change

What is added to a table after an instant cannot be seen as of the instant: later commits do not
move the snapshot, and later slices are past whatever commit the snapshot is pinned to. So scanning
a partition as of an instant gives the same small files, or the same failure, before and after any
later additions (`scan_applyAll`).
-/

namespace Upsert.Table

variable {table : Table} {change : Change} {bound instant : Instant}

/-- The addition is made after an instant. Nothing becomes unavailable; what is put under pending
clustering has no instant. -/
def Change.After (bound : Instant) : Change → Prop
  | .slice _ _ written => bound < written.instant
  | .commit instant _ => bound < instant
  | .pendingClustering _ _ => True
  | .unavailable _ => False

instance (bound : Instant) : DecidablePred (Change.After bound)
  | .slice _ _ written => inferInstanceAs (Decidable (bound < written.instant))
  | .commit instant _ => inferInstanceAs (Decidable (bound < instant))
  | .pendingClustering _ _ => inferInstanceAs (Decidable True)
  | .unavailable _ => inferInstanceAs (Decidable False)

/-! ## What a later addition leaves alone -/

theorem within_eq_false (h : bound < instant) : Timeline.within (some bound) instant = false :=
  Bool.eq_false_iff.mpr fun hwithin => not_le_of_gt h (Timeline.within_some_iff.mp hwithin)

/-- A later commit does not move the snapshot. -/
theorem latest?_apply (h : change.After bound) :
    (table.apply change).timeline.latest? (some bound) = table.timeline.latest? (some bound) := by
  cases change with
  | commit instant commit =>
    exact SortedMap.find?_reverse_keys_insert (within_eq_false h) table.commits commit
  | slice => rfl
  | pendingClustering => rfl
  | unavailable => rfl

/-- A later slice is not shown. -/
theorem latestSlice?_concat_of_lt {slice : FileSlice} (h : bound < slice.instant)
    (slices : List FileSlice) :
    latestSlice? bound (slices ++ [slice]) = latestSlice? bound slices := by
  rw [latestSlice?_concat]
  exact if_neg (not_le_of_gt h)

theorem shown_apply (h : change.After bound) (partition : String) :
    (table.apply change).shown partition bound = table.shown partition bound := by
  apply SortedMap.ext_find?
  intro group
  rw [find?_shown, find?_shown, slicesOf_apply]
  cases hadded : change.sliceIn? partition group with
  | none => rw [Option.toList_none, List.append_nil]
  | some slice =>
    obtain rfl := Change.sliceIn?_eq_some_iff.mp hadded
    exact latestSlice?_concat_of_lt h _

theorem list_apply (h : change.After bound) (partition : String) :
    (table.apply change).list partition bound = table.list partition bound := by
  have havailable : (table.apply change).unavailable = table.unavailable := by
    cases change with
    | slice => rfl
    | commit => rfl
    | pendingClustering => rfl
    | unavailable => cases h
  rw [list_eq, list_eq, havailable, shown_apply h]

theorem Change.After.of_le {earlier : Instant} (h : change.After bound) (hle : earlier ≤ bound) :
    change.After earlier := by
  cases change with
  | slice => exact lt_of_le_of_lt hle h
  | commit => exact lt_of_le_of_lt hle h
  | pendingClustering => trivial
  | unavailable => exact h

/-! ## Scanning as of the instant -/

/-- A later addition does not show in a scan. -/
theorem scan_apply (h : change.After bound) (limit : UInt64) (partition : String) :
    SmallFile.scan (table.apply change) (table.apply change).timeline limit (some bound) partition
      = SmallFile.scan table table.timeline limit (some bound) partition := by
  unfold SmallFile.scan
  rw [latest?_apply h]
  split
  · rfl
  · rename_i instant hlatest
    -- the listing is as of a commit that is not past the bound
    have hle : instant ≤ bound :=
      Timeline.within_some_iff.mp (Timeline.within_of_latest? hlatest)
    rw [list_apply (h.of_le hle)]

/-- A scan as of an instant gives the same after any additions that are made later. -/
theorem scan_applyAll (table : Table) (bound : Instant) {changes : List Change}
    (h : ∀ change ∈ changes, change.After bound) (limit : UInt64) (partition : String) :
    SmallFile.scan (table.applyAll changes) (table.applyAll changes).timeline limit (some bound)
        partition
      = SmallFile.scan table table.timeline limit (some bound) partition := by
  induction changes generalizing table with
  | nil => rfl
  | cons change changes ih =>
    obtain ⟨hchange, hchanges⟩ := List.forall_mem_cons.mp h
    calc SmallFile.scan ((table.apply change).applyAll changes)
          ((table.apply change).applyAll changes).timeline limit (some bound) partition
        = SmallFile.scan (table.apply change) (table.apply change).timeline limit (some bound)
            partition := ih (table.apply change) hchanges
      _ = SmallFile.scan table table.timeline limit (some bound) partition :=
          scan_apply hchange limit partition

/-- A table with one commit and one small file. -/
def onceWritten : Table :=
  Table.empty.applyAll [.commit "001" (.completed ⟨1000, 100⟩), .baseFile "p" "f" "001" 50]

/-- Another slice of the file, a file group that comes before it, an unreadable commit of both, and
a clustering of the file. -/
def laterWrites : List Change :=
  [.baseFile "p" "f" "003" 60, .slice "p" "e" ⟨"0020", ⟨"malformed", 5⟩⟩,
    .commit "003" (.corrupt "truncated"), .pendingClustering "p" "f"]

theorem scan_after_later_writes :
    (∀ change ∈ laterWrites, change.After "002")
      ∧ SmallFile.scan (onceWritten.applyAll laterWrites)
          (onceWritten.applyAll laterWrites).timeline 100 (some "002") "p"
        = .ok [⟨⟨"001", "f"⟩, 50⟩] := by
  have hlater : ∀ change ∈ laterWrites, change.After "002" := by decide +kernel
  refine ⟨hlater, ?_⟩
  rw [scan_applyAll onceWritten "002" hlater]
  decide +kernel

end Upsert.Table
