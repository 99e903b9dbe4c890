import Upsert.SmallFile
import Upsert.Proofs.Timeline

/-! # Reading a pinned snapshot

Whoever reads several partitions looks up the latest commit once and reads every partition as of it.
Each of these readings looks up the latest commit again, up to the one that was found. That is the
same commit, so that a reading with the commit as its bound reads what one with the first bound
does (`SmallFile.scan_of_latest?`).
-/

namespace Upsert

/-- Reading as of the commit that a bound finds is reading with that bound. -/
theorem SmallFile.scan_of_latest? (view : Table) {timeline : Timeline} (limit : UInt64)
    {bound : Option Instant} {instant : Instant} (h : timeline.latest? bound = some instant)
    (partition : String) :
    scan view timeline limit (some instant) partition
      = scan view timeline limit bound partition := by
  rw [scan, scan, Timeline.latest?_of_latest? h, h]

/-- On every timeline the commit that a bound finds is found again with itself as the bound, and
every partition reads the same with either bound; none is found only where all commits are past the
bound; and without a bound the last commit is found. On an ascending timeline it is the greatest
commit that is not past the bound, and a later bound finds no earlier commit. -/
theorem Timeline.latest?_pinned (timeline : Timeline) :
    (∀ bound,
      (∀ instant, timeline.latest? bound = some instant →
        timeline.latest? (some instant) = some instant
          ∧ ∀ (view : Table) (limit : UInt64) (partition : String),
            SmallFile.scan view timeline limit (some instant) partition
              = SmallFile.scan view timeline limit bound partition)
        ∧ (timeline.latest? bound = none ↔ timeline.allowed bound = ∅))
      ∧ timeline.latest? none = timeline.instants.getLast?
      ∧ (timeline.instants.Pairwise (· ≤ ·) →
        (∀ bound instant, timeline.latest? bound = some instant
          ↔ IsGreatest (timeline.allowed bound) instant)
        ∧ @Monotone (WithTop Instant) (WithBot Instant) _ _ timeline.latest?) := by
  refine ⟨fun bound => ⟨fun instant h => ⟨latest?_of_latest? h, fun view limit => ?_⟩, ?_⟩,
    latest?_none timeline, fun hascending => ⟨fun bound instant => ?_, ?_⟩⟩
  · exact SmallFile.scan_of_latest? view limit h
  · exact latest?_eq_none_iff_allowed
  · exact latest?_eq_some_iff_of_ascending hascending
  · exact latest?_mono hascending

/-- A bound between two commits finds the earlier one, though there is a later commit, and a bound
before all of them finds none. -/
theorem Timeline.latest?_pinned_below_last_commit :
    let timeline := Timeline.ofEntries [("001", .ok ⟨0, 0⟩), ("002", .ok ⟨0, 0⟩),
      ("003", .ok ⟨0, 0⟩)]
    timeline.instants.Pairwise (· ≤ ·)
      ∧ timeline.latest? (some "0025") = some "002" ∧ timeline.latest? (some "000") = none
      ∧ timeline.latest? none = some "003" := by
  intro timeline
  have hascending : timeline.instants.Pairwise (· ≤ ·) := by decide +kernel
  obtain ⟨hbound, hlast, hgreatest⟩ := latest?_pinned timeline
  have hmem : ∀ instant ∈ timeline.instants,
      instant = "001" ∨ instant = "002" ∨ instant = "003" := by decide +kernel
  refine ⟨hascending, ((hgreatest hascending).1 _ _).mpr ⟨⟨by decide +kernel, ?_⟩, ?_⟩,
    (hbound _).2.mpr (Set.eq_empty_iff_forall_notMem.mpr ?_), hlast⟩
  · rintro _ ⟨⟩
    decide
  · rintro instant ⟨hinstant, hle⟩
    rcases hmem instant hinstant with rfl | rfl | rfl
    · decide
    · exact le_rfl
    · exact absurd (hle _ rfl) (by decide)
  · rintro instant ⟨hinstant, hle⟩
    rcases hmem instant hinstant with rfl | rfl | rfl <;> exact absurd (hle _ rfl) (by decide)

/-- On a timeline that is not ascending the last commit that is not past the bound is found, which
need not be the greatest one. -/
example :
    (Timeline.ofEntries [("003", .ok ⟨0, 0⟩), ("001", .ok ⟨0, 0⟩), ("002", .ok ⟨0, 0⟩),
        ("001", .ok ⟨0, 0⟩)]).latest? (some "002") = some "001" := by
  decide

end Upsert
