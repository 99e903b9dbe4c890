import Upsert.Proofs.Partitioner.Construction

/-!
# Constructions do not fault

Nothing wraps around and nothing is divided by zero, whatever the counts. A commit decides an
estimate only where it wrote a record, so the quotient that becomes the estimate is defined
(`SizeEstimator.Settles.ceilDiv_eq_ok`). An estimate is never zero, so neither are the sizes that a
plan divides by. New files are as many as there are records at most, and what the full ones hold is
less than what there is to share, so that the words which count them down stay in range
(`lastLoad_eq_ok`).
-/

namespace Upsert

/-! ## The division of an estimate -/

namespace SizeEstimator

variable {estimator : SizeEstimator} {commit : Timeline.Entry} {commits : List Timeline.Entry}
  {estimate : SizeEstimate} {looked : ℕ} {instant : Instant}

/-- An estimate taken from a commit is the quotient of what the commit wrote. -/
theorem Settles.ceilDiv_eq_ok (h : estimator.Settles commit estimate)
    (hsource : estimate.source = .commit instant) :
    ∃ details, commit = (instant, .ok details)
      ∧ Checked.ceilDiv details.bytes details.records = .ok estimate.bytesPerRecord := by
  cases h with
  | failed => cases hsource
  | @decided _ details size _ written least =>
    cases hsource
    have hsize : ceilDiv details.bytes details.records = size :=
      UInt64.toNat_inj.mp ((isLeast_ceilDiv details.bytes written).unique least)
    exact ⟨details, rfl, by rw [Checked.ceilDiv, if_neg (UInt64.pos_iff_ne_zero.mp written), hsize]⟩

theorem Finds.ceilDiv_eq_ok (h : estimator.Finds commits estimate looked)
    (hsource : estimate.source = .commit instant) :
    ∃ details, (instant, .ok details) ∈ commits
      ∧ Checked.ceilDiv details.bytes details.records = .ok estimate.bytesPerRecord := by
  cases h with
  | exhausted => cases hsource
  | settled split _ settles =>
    obtain ⟨details, rfl, hquotient⟩ := settles.ceilDiv_eq_ok hsource
    exact ⟨details, by simp [split], hquotient⟩

theorem estimate_commit {timeline : Timeline}
    (h : (estimator.estimate timeline).source = .commit instant) :
    ∃ details, timeline.details instant = .ok details
      ∧ Checked.ceilDiv details.bytes details.records
        = .ok (estimator.estimate timeline).bytesPerRecord := by
  obtain ⟨details, hmem, hquotient⟩ := (finds_search estimator timeline.newestFirst).ceilDiv_eq_ok h
  obtain ⟨other, -, heq⟩ := List.mem_map.mp hmem
  obtain ⟨rfl, hdetails⟩ := Prod.mk.inj heq
  exact ⟨details, hdetails, hquotient⟩

end SizeEstimator

/-! ## A construction -/

/-- The words that the loads of new files come from. -/
theorem Plan.newFiles_eq_ok (sizing : Sizing) (average : UInt64) {left : UInt64}
    (hleft : 0 < left) :
    ∃ count, Checked.ceilDiv left (sizing.recordsPerNewFile average) = .ok count
      ∧ (∀ i < count.toNat, Checked.add (.ofNat i) 1 = .ok (.ofNat (i + 1)))
      ∧ ∃ before full last, Checked.sub count 1 = .ok before
        ∧ Checked.mul before (sizing.recordsPerNewFile average) = .ok full
        ∧ Checked.sub left full = .ok last := by
  have hperFile := sizing.recordsPerNewFile_pos average
  have hne : sizing.recordsPerNewFile average ≠ 0 := fun hzero => by simp [hzero] at hperFile
  obtain ⟨hbefore, hfull, hlast⟩ :=
    lastLoad_eq_ok hperFile (UInt64.lt_iff_toNat_lt.mp hleft) (toNat_ceilDiv left hperFile)
  exact ⟨_, if_neg hne, fun i hi => add_one_eq_ok hi, _, _, _, hbefore, hfull, hlast⟩

namespace Partitioner

/-- A construction does not fault. With a valid configuration the estimate is positive, and one
taken from a commit is a quotient that is defined. For records of a positive size and whatever sizes
to aim at, a plan is built without a fault, and none of the words that the loads of new files come
from overflows. -/
theorem build_faultless {config : Config} (hvalid : config.validate = .ok ()) (fanout : Fanout)
    (fresh : ℕ → String) (profile : Profile) (view : Table) (timeline : Timeline) :
    (∀ cause, build fanout fresh profile view timeline config ≠ .error (.fault cause))
      ∧ 0 < (config.estimator.estimate timeline).bytesPerRecord
      ∧ (∀ instant, (config.estimator.estimate timeline).source = .commit instant →
          ∃ details, timeline.details instant = .ok details
            ∧ Checked.ceilDiv details.bytes details.records
              = .ok (config.estimator.estimate timeline).bytesPerRecord)
      ∧ ∀ (sizing : Sizing) (average : UInt64), 0 < average →
        (∀ profile smallFiles pending,
            ∃ plan, Plan.build sizing fresh profile smallFiles pending average = .ok plan)
          ∧ ∀ left : UInt64, 0 < left →
            ∃ count, Checked.ceilDiv left (sizing.recordsPerNewFile average) = .ok count
              ∧ (∀ i < count.toNat, Checked.add (.ofNat i) 1 = .ok (.ofNat (i + 1)))
              ∧ ∃ before full last, Checked.sub count 1 = .ok before
                ∧ Checked.mul before (sizing.recordsPerNewFile average) = .ok full
                ∧ Checked.sub left full = .ok last := by
  refine ⟨fun cause hbuild => ?_, ?_, fun instant => SizeEstimator.estimate_commit, ?_⟩
  · rcases build_cases fanout fresh profile view timeline config with
      ⟨error, -, heq⟩ | ⟨-, ⟨error, -, heq⟩ | ⟨read, partitioner, -, heq⟩⟩ <;> simp [heq] at hbuild
  · exact UInt64.pos_iff_ne_zero.mpr (SizeEstimator.bytesPerRecord_estimate_ne_zero
      (Config.fallback_ne_zero hvalid) timeline)
  · intro sizing average haverage
    exact ⟨fun profile smallFiles pending => Plan.exists_build (UInt64.pos_iff_ne_zero.mp haverage),
      fun left => Plan.newFiles_eq_ok sizing average⟩

/-- A table whose commit wrote one record of the greatest size. -/
def largeTable : Table :=
  Table.empty.applyAll [.commit "001" (.completed ⟨.ofNat (UInt64.size - 1), 1⟩)]

/-- As many inserts as a word counts, each in a file of its own. -/
theorem build_faultless_of_greatest_counts :
    Config.validate ⟨80, .ofNat (UInt64.size - 1), 1, false, 1024, .ofNat 1, 1⟩ = .ok ()
      ∧ (∀ cause, build .sequential (fun _ => "new")
          ⟨.insert .empty "p" ⟨.ofNat (UInt64.size - 1), .empty⟩⟩ largeTable largeTable.timeline
          ⟨80, .ofNat (UInt64.size - 1), 1, false, 1024, .ofNat 1, 1⟩ ≠ .error (.fault cause))
      ∧ 0 < (SizeEstimator.estimate
          (Config.estimator ⟨80, .ofNat (UInt64.size - 1), 1, false, 1024, .ofNat 1, 1⟩)
          largeTable.timeline).bytesPerRecord := by
  have hvalid : Config.validate ⟨80, .ofNat (UInt64.size - 1), 1, false, 1024, .ofNat 1, 1⟩
      = .ok () := by decide +kernel
  have hbuild := build_faultless hvalid .sequential (fun _ => "new")
    ⟨.insert .empty "p" ⟨.ofNat (UInt64.size - 1), .empty⟩⟩ largeTable largeTable.timeline
  exact ⟨hvalid, hbuild.1, hbuild.2.1⟩

end Partitioner

end Upsert
