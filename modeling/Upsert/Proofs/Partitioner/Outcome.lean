import Upsert.Proofs.Partitioner.Construction
import Upsert.Proofs.Table.Reading

/-!
# What a construction ends with

A construction reads the partitions with inserts, in ascending order, and reads them twice: for
their small files as of the latest completed commit, and for what is under pending clustering. With
a commit every failure of the second reading is one of the first; without one the first reading does
not look at the table. Either way the first partition that is `Unreadable` decides
(`failure?_readTable`). Nothing else about the table makes a construction fail
(`failure?_build_details`).
-/

namespace Upsert.Partitioner

variable {fanout : Fanout} {fresh : ℕ → String} {profile : Profile} {view : Table}
  {timeline : Timeline} {config : Config}

/-! ## The partitions that are read -/

theorem mem_readPartitions {partition : String} :
    partition ∈ readPartitions profile ↔ 0 < profile.inserts partition := by
  rw [readPartitions, List.mem_map]
  constructor
  · rintro ⟨⟨partition, inserts⟩, hmem, rfl⟩
    obtain ⟨hpos, rfl⟩ := Profile.mem_insertPartitions.mp hmem
    exact hpos
  · intro hpos
    exact ⟨_, Profile.mem_insertPartitions.mpr ⟨hpos, rfl⟩, rfl⟩

theorem readPartitions_pairwise (profile : Profile) :
    (readPartitions profile).Pairwise (· < ·) :=
  List.pairwise_map.mpr profile.insertPartitions_pairwise

/-! ## Reading the table -/

/-- One partition after the other, the first one that cannot be read as of the last completed commit
decides. -/
theorem failure?_readTable (config : Config) (view : Table) (timeline : Timeline)
    (partitions : List String) :
    failure? (readTable .sequential config view timeline partitions)
      = partitions.findSome?
          (view.unreadable? config.smallFileLimit timeline.instants.getLast?) := by
  rw [← Timeline.latest?_none]
  have hpending : failure? (Fanout.sequential.gather view.pending partitions)
      = partitions.findSome? (view.unreadable? config.smallFileLimit none) := by
    rw [Fanout.failure?_gather_sequential]
    exact congrArg (List.findSome? · partitions)
      (funext (Table.failure?_pending view config.smallFileLimit))
  have hread : failure? (readTable .sequential config view timeline partitions)
      = (failure? (Fanout.sequential.gather
            (SmallFile.scan view timeline config.smallFileLimit (timeline.latest? none))
            partitions)).or
          (failure? (Fanout.sequential.gather view.pending partitions)) :=
    failure?_bind fun _ => by cases Fanout.sequential.gather view.pending partitions <;> rfl
  rw [hread, hpending, Fanout.failure?_gather_sequential]
  cases hlatest : timeline.latest? none with
  | none =>
    -- without a commit the small files are not looked for
    have hscan : (fun partition => failure? (SmallFile.scan view timeline config.smallFileLimit none
        partition)) = fun _ => none :=
      funext fun partition => by rw [Table.scan_of_latest?_eq_none hlatest, failure?_ok]
    rw [hscan, List.findSome?_eq_none_iff.mpr fun _ _ => rfl, Option.none_or]
  | some instant =>
    have hscan : (fun partition => failure? (SmallFile.scan view timeline config.smallFileLimit
        (some instant) partition)) = view.unreadable? config.smallFileLimit (some instant) :=
      funext fun partition =>
        Table.failure?_scan (Timeline.latest?_of_latest? hlatest) view _ partition
    rw [hscan]
    cases hfirst : partitions.findSome?
        (view.unreadable? config.smallFileLimit (some instant)) with
    | some error => rfl
    | none =>
      -- whatever can be read for its small files can be listed
      rw [List.findSome?_eq_none_iff] at hfirst
      rw [Option.none_or, List.findSome?_eq_none_iff]
      exact fun partition hmem => Table.unreadable?_none_eq_none (hfirst partition hmem)

theorem readTable_eq_error_iff {error : TableError} :
    readTable .sequential config view timeline (readPartitions profile) = .error error
      ↔ ∃ partition, 0 < profile.inserts partition
        ∧ view.Unreadable config.smallFileLimit timeline.instants.getLast? partition error
        ∧ ∀ earlier < partition, 0 < profile.inserts earlier → ∀ other,
            ¬ view.Unreadable config.smallFileLimit timeline.instants.getLast? earlier other := by
  rw [← failure?_eq_some_iff, failure?_readTable,
    findSome?_eq_some_iff_of_sorted (readPartitions_pairwise profile)]
  simp only [mem_readPartitions, Option.eq_none_iff_forall_ne_some, ne_eq,
    Table.unreadable?_eq_some_iff]
  constructor
  · rintro ⟨partition, hpos, herror, hfirst⟩
    exact ⟨partition, hpos, herror, fun earlier hlt hearlier => hfirst earlier hearlier hlt⟩
  · rintro ⟨partition, hpos, herror, hfirst⟩
    exact ⟨partition, hpos, herror, fun earlier hearlier hlt => hfirst earlier hlt hearlier⟩

theorem exists_readTable_iff :
    (∃ read, readTable .sequential config view timeline (readPartitions profile) = .ok read)
      ↔ ∀ partition, 0 < profile.inserts partition → ∀ error,
        ¬ view.Unreadable config.smallFileLimit timeline.instants.getLast? partition error := by
  rw [← failure?_eq_none_iff, failure?_readTable, List.findSome?_eq_none_iff]
  simp only [mem_readPartitions, Option.eq_none_iff_forall_ne_some, ne_eq,
    Table.unreadable?_eq_some_iff]

/-! ## The outcome -/

theorem failure?_build (fanout : Fanout) (fresh : ℕ → String) (profile : Profile) (view : Table)
    (timeline : Timeline) (config : Config) :
    failure? (build fanout fresh profile view timeline config)
      = match config.validate with
        | .error error => some (.config error)
        | .ok () => (failure? (readTable fanout config view timeline
            (readPartitions profile))).map .table := by
  rcases build_cases fanout fresh profile view timeline config with
    ⟨error, hvalid, hbuild⟩ | ⟨hvalid, ⟨error, hread, hbuild⟩ | ⟨read, partitioner, hread, hbuild⟩⟩
  · rw [hvalid, hbuild, failure?_error]
  · rw [hvalid, hread, hbuild]
    rfl
  · rw [hvalid, hread, hbuild]
    rfl

theorem build_eq_config_error_iff {error : ConfigError} :
    build fanout fresh profile view timeline config = .error (.config error)
      ↔ config.validate = .error error := by
  rw [← failure?_eq_some_iff, failure?_build]
  cases config.validate <;> simp

theorem build_eq_table_error_iff {error : TableError} :
    build fanout fresh profile view timeline config = .error (.table error)
      ↔ config.validate = .ok ()
        ∧ readTable fanout config view timeline (readPartitions profile) = .error error := by
  rw [← failure?_eq_some_iff, failure?_build]
  cases config.validate <;> simp [failure?_eq_some_iff]

theorem exists_build_iff :
    (∃ partitioner, build fanout fresh profile view timeline config = .ok partitioner)
      ↔ config.validate = .ok ()
        ∧ ∃ read, readTable fanout config view timeline (readPartitions profile) = .ok read := by
  rw [← failure?_eq_none_iff, failure?_build, ← failure?_eq_none_iff]
  cases config.validate <;> simp

/-- What a construction fails with does not depend on what the commits wrote, nor on whether that
can be read. -/
theorem failure?_build_details (details : Instant → Except TimelineError CommitDetails) :
    failure? (build .sequential fresh profile view { timeline with details } config)
      = failure? (build .sequential fresh profile view timeline config) := by
  rw [failure?_build, failure?_build, failure?_readTable, failure?_readTable]

/-- A construction that reads one partition after the other refuses exactly the invalid
configurations. With a valid one it fails where a partition with inserts cannot be read as of the
latest completed commit, with the reason of the first such partition, and otherwise succeeds. What
the commits wrote makes no difference to that, even where it cannot be read. -/
theorem build_sequential_outcome (fresh : ℕ → String) (profile : Profile) (view : Table)
    (timeline : Timeline) (config : Config) :
    (∀ error, build .sequential fresh profile view timeline config = .error (.config error)
        ↔ config.validate = .error error)
      ∧ (∀ error, build .sequential fresh profile view timeline config = .error (.table error)
        ↔ config.validate = .ok () ∧ ∃ partition, 0 < profile.inserts partition
          ∧ view.Unreadable config.smallFileLimit timeline.instants.getLast? partition error
          ∧ ∀ earlier < partition, 0 < profile.inserts earlier → ∀ other,
              ¬ view.Unreadable config.smallFileLimit timeline.instants.getLast? earlier other)
      ∧ ((∃ partitioner, build .sequential fresh profile view timeline config = .ok partitioner)
        ↔ config.validate = .ok () ∧ ∀ partition, 0 < profile.inserts partition → ∀ error,
          ¬ view.Unreadable config.smallFileLimit timeline.instants.getLast? partition error)
      ∧ ∀ details, failure? (build .sequential fresh profile view { timeline with details } config)
        = failure? (build .sequential fresh profile view timeline config) := by
  refine ⟨fun error => build_eq_config_error_iff, fun error => ?_, ?_, failure?_build_details⟩
  · rw [build_eq_table_error_iff, readTable_eq_error_iff]
  · rw [exists_build_iff, exists_readTable_iff]

/-- The malformed name took the place of a well-formed one, and its partition comes before the one
that cannot be listed. -/
example : failure? (build .sequential (fun _ => "new")
      ⟨.insert (.insert .empty "p" ⟨12, .empty⟩) "q" ⟨3, .empty⟩⟩
      (smallTable.applyAll [.unavailable "q", .slice "p" "f" ⟨"001", ⟨"f", 50⟩⟩])
      smallTable.timeline ⟨80, 100, 5, false, 10, .ofNat 1, 1⟩)
    = some (.table (.invalidFileName "f")) := by decide +kernel

end Upsert.Partitioner
