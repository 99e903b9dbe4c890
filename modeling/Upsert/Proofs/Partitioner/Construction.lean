import Upsert.Partitioner
import Upsert.Proofs.Gathering
import Upsert.Proofs.Plan.Anonymity
import Upsert.Proofs.SizeEstimate

/-!
# Constructing a partitioner

A valid configuration and a table that can be read are all it takes: the estimate is positive, so
the plan is built without a fault (`build_eq`). What a construction reads is collected by key and
what it draws at random are fresh ids, so constructing a partitioner again, with results in another
order and other fresh ids, fails again or routes every record as before (`build_again`).
-/

namespace Upsert

theorem Config.fallback_ne_zero {config : Config} (h : config.validate = .ok ()) :
    config.estimator.fallback ≠ 0 := by
  show config.recordSizeEstimate ≠ 0
  intro hzero
  unfold validate firstError? at h
  simp only [hzero, if_true] at h
  split at h
  · cases h
  · rename_i hnone
    split at hnone
    · cases hnone
    · split at hnone <;> cases hnone

namespace Partitioner

variable {fanout : Fanout} {fresh : ℕ → String} {profile : Profile} {view : Table}
  {timeline : Timeline} {config : Config}

/-! ## One construction -/

/-- The partitions that the table is read for. -/
def readPartitions (profile : Profile) : List String := profile.insertPartitions.map (·.1)

theorem build_eq_of_validate_error {error : ConfigError} (h : config.validate = .error error) :
    build fanout fresh profile view timeline config = .error (.config error) := by
  rw [build, h]
  rfl

theorem build_eq_of_readTable_error (hvalid : config.validate = .ok ()) {error : TableError}
    (h : readTable fanout config view timeline (readPartitions profile) = .error error) :
    build fanout fresh profile view timeline config = .error (.table error) := by
  rw [readPartitions] at h
  rw [build, hvalid]
  simp only [bind, Except.bind, Except.mapError, h]

/-- A valid configuration and a table that can be read give a partitioner. -/
theorem build_eq (hvalid : config.validate = .ok ()) {smallFiles : SortedMap (List SmallFile)}
    {pending : SortedMap KeySet}
    (h : readTable fanout config view timeline (readPartitions profile)
      = .ok (smallFiles, pending)) :
    build fanout fresh profile view timeline config
      = .ok ⟨profile, .built config.sizing fresh profile smallFiles pending
          (config.estimator.estimate timeline).bytesPerRecord,
          config.estimator.estimate timeline⟩ := by
  have hestimate : (config.estimator.estimate timeline).bytesPerRecord ≠ 0 :=
    SizeEstimator.bytesPerRecord_estimate_ne_zero (Config.fallback_ne_zero hvalid) timeline
  rw [readPartitions] at h
  rw [build, hvalid]
  simp only [bind, Except.bind, Except.mapError, h, Plan.build_eq hestimate]
  rfl

/-- A construction ends with the configuration refused, with a table that cannot be read, or with a
partitioner. -/
theorem build_cases (fanout : Fanout) (fresh : ℕ → String) (profile : Profile) (view : Table)
    (timeline : Timeline) (config : Config) :
    (∃ error, config.validate = .error error
        ∧ build fanout fresh profile view timeline config = .error (.config error))
      ∨ config.validate = .ok ()
        ∧ ((∃ error, readTable fanout config view timeline (readPartitions profile) = .error error
            ∧ build fanout fresh profile view timeline config = .error (.table error))
          ∨ ∃ read partitioner,
            readTable fanout config view timeline (readPartitions profile) = .ok read
              ∧ build fanout fresh profile view timeline config = .ok partitioner) := by
  cases hvalid : config.validate with
  | error error => exact Or.inl ⟨error, rfl, build_eq_of_validate_error hvalid⟩
  | ok =>
    refine Or.inr ⟨rfl, ?_⟩
    cases hread : readTable fanout config view timeline (readPartitions profile) with
    | error error => exact Or.inl ⟨error, rfl, build_eq_of_readTable_error hvalid hread⟩
    | ok read => exact Or.inr ⟨read, _, rfl, build_eq hvalid hread⟩

/-! ## Two constructions -/

/-- Reading the table twice fails twice, or gives the same. -/
theorem readTable_agree {first second : Fanout} (hfirst : first.Faithful)
    (hsecond : second.Faithful) (config : Config) (view : Table) (timeline : Timeline)
    (partitions : List String) :
    (∃ error error', readTable first config view timeline partitions = .error error
        ∧ readTable second config view timeline partitions = .error error')
      ∨ ∃ read, readTable first config view timeline partitions = .ok read
        ∧ readTable second config view timeline partitions = .ok read := by
  unfold readTable
  rcases Fanout.gather_agree hfirst hsecond
      (SmallFile.scan view timeline config.smallFileLimit (timeline.latest? none)) partitions with
    ⟨error, error', hscan, hscan'⟩ | ⟨smallFiles, hscan, hscan'⟩
  · exact Or.inl ⟨error, error', by simp only [hscan]; rfl, by simp only [hscan']; rfl⟩
  · rcases Fanout.gather_agree hfirst hsecond view.pending partitions with
      ⟨error, error', hpending, hpending'⟩ | ⟨pending, hpending, hpending'⟩
    · exact Or.inl ⟨error, error', by simp only [hscan, hpending]; rfl,
        by simp only [hscan', hpending']; rfl⟩
    · exact Or.inr ⟨(smallFiles, pending), by simp only [hscan, hpending]; rfl,
        by simp only [hscan', hpending']; rfl⟩

/-- Constructing a partitioner twice, with results in any two orders and any two generators of fresh
ids, fails twice without a fault or gives interchangeable plans. -/
theorem build_again {first second : Fanout} (hfirst : first.Faithful) (hsecond : second.Faithful)
    (fresh fresh' : ℕ → String) (profile : Profile) (view : Table) (timeline : Timeline)
    (config : Config) :
    (∃ error error', build first fresh profile view timeline config = .error error
        ∧ build second fresh' profile view timeline config = .error error'
        ∧ (∀ cause, error ≠ .fault cause) ∧ ∀ cause, error' ≠ .fault cause)
      ∨ ∃ partitioner again, build first fresh profile view timeline config = .ok partitioner
        ∧ build second fresh' profile view timeline config = .ok again
        ∧ partitioner.plan.Interchangeable again.plan := by
  cases hvalid : config.validate with
  | error error =>
    exact Or.inl ⟨_, _, build_eq_of_validate_error hvalid, build_eq_of_validate_error hvalid,
      by simp, by simp⟩
  | ok =>
    rcases readTable_agree hfirst hsecond config view timeline (readPartitions profile) with
      ⟨error, error', hread, hread'⟩ | ⟨⟨smallFiles, pending⟩, hread, hread'⟩
    · exact Or.inl ⟨_, _, build_eq_of_readTable_error hvalid hread,
        build_eq_of_readTable_error hvalid hread', by simp, by simp⟩
    · exact Or.inr ⟨_, _, build_eq hvalid hread, build_eq hvalid hread',
        Plan.interchangeable_built _ _ _ _ _ _ _⟩

/-- A table with one commit and two partitions, each with a small file. -/
def smallTable : Table :=
  Table.empty.applyAll [.commit "001" (.completed ⟨1000, 100⟩),
    .baseFile "p" "f" "001" 50, .baseFile "q" "g" "001" 60]

theorem build_again_reversed :
    Fanout.sequential.Faithful ∧ Fanout.backward.Faithful
      ∧ ∃ partitioner again,
        build .sequential (fun _ => "new")
            ⟨.insert (.insert .empty "p" ⟨12, .empty⟩) "q" ⟨3, .empty⟩⟩ smallTable
            smallTable.timeline ⟨80, 100, 5, false, 10, .ofNat 1, 1⟩ = .ok partitioner
        ∧ build .backward (fun _ => "f")
            ⟨.insert (.insert .empty "p" ⟨12, .empty⟩) "q" ⟨3, .empty⟩⟩ smallTable
            smallTable.timeline ⟨80, 100, 5, false, 10, .ofNat 1, 1⟩ = .ok again
        ∧ partitioner.plan.Interchangeable again.plan := by
  refine ⟨Fanout.sequential_faithful, Fanout.backward_faithful, ?_⟩
  have hagain := build_again Fanout.sequential_faithful Fanout.backward_faithful (fun _ => "new")
    (fun _ => "f") ⟨.insert (.insert .empty "p" ⟨12, .empty⟩) "q" ⟨3, .empty⟩⟩ smallTable
    smallTable.timeline ⟨80, 100, 5, false, 10, .ofNat 1, 1⟩
  have hok : (build .sequential (fun _ => "new")
      ⟨.insert (.insert .empty "p" ⟨12, .empty⟩) "q" ⟨3, .empty⟩⟩ smallTable smallTable.timeline
      ⟨80, 100, 5, false, 10, .ofNat 1, 1⟩).isOk = true := by decide +kernel
  rcases hagain with ⟨error, -, herror, -⟩ | hplans
  · rw [herror] at hok
    cases hok
  · exact hplans

end Partitioner

end Upsert
