import Upsert.Proofs.Partitioner.Outcome
import Upsert.Proofs.Table.Pinning

/-!
# Reading only the partitions with inserts

The plain way to plan a batch is to read the small files and the pending clustering of all its
partitions, each as of the latest completed commit at that time. A construction looks for that
commit once and reads the partitions with inserts only. Neither makes a difference. The latest
commit up to the latest commit is this commit, in whatever order the timeline is
(`SmallFile.scan_of_latest?`), and a plan is made from what was read for the partitions with inserts
(`Profile.demands_congr`).
-/

namespace Upsert

/-! ## The snapshot -/

/-- Reading as of the latest commit is reading without a bound. -/
theorem SmallFile.scan_latest? (view : Table) (timeline : Timeline) (limit : UInt64)
    (partition : String) :
    scan view timeline limit (timeline.latest? none) partition
      = scan view timeline limit none partition := by
  cases hlatest : timeline.latest? none with
  | none => rfl
  | some instant => exact scan_of_latest? view limit hlatest partition

/-! ## What a plan is made from -/

/-- A partition with inserts is a partition of the batch. -/
theorem Profile.mem_keys_of_inserts_pos {profile : Profile} {partition : String}
    (h : 0 < profile.inserts partition) : partition ∈ profile.partitions.keys := by
  obtain ⟨⟨key, stat⟩, hmem, heq⟩ := List.mem_map.mp (mem_insertPartitions.mpr ⟨h, rfl⟩)
  obtain ⟨rfl, -⟩ := Prod.mk.inj heq
  exact List.mem_map_of_mem (List.mem_filter.mp hmem).1

/-- What a batch demands depends on what the maps have for the partitions with inserts. -/
theorem Profile.demands_congr {profile : Profile}
    {smallFiles smallFiles' : SortedMap (List SmallFile)} {pending pending' : SortedMap KeySet}
    (hfiles : ∀ partition, 0 < profile.inserts partition →
      smallFiles.find? partition = smallFiles'.find? partition)
    (hpending : ∀ partition, 0 < profile.inserts partition →
      pending.find? partition = pending'.find? partition) :
    profile.demands smallFiles pending = profile.demands smallFiles' pending' := by
  refine List.map_congr_left fun ⟨partition, inserts⟩ hmem => ?_
  obtain ⟨hpos, rfl⟩ := mem_insertPartitions.mp hmem
  simp only [SmallFile.notPending, SortedMap.findD, hfiles partition hpos,
    hpending partition hpos]

/-! ## What is read -/

namespace Partitioner

variable {fanout : Fanout} {view : Table} {timeline : Timeline} {config : Config}

/-- What can be read for several partitions without a bound is what is read for them. -/
theorem exists_readTable (h : fanout.Faithful) {partitions : List String}
    (hfiles : ∀ partition ∈ partitions,
      ∃ files, SmallFile.scan view timeline config.smallFileLimit none partition = .ok files)
    (hpending : ∀ partition ∈ partitions, ∃ groups, view.pending partition = .ok groups) :
    ∃ smallFiles pending,
      readTable fanout config view timeline partitions = .ok (smallFiles, pending)
        ∧ (∀ partition, smallFiles.find? partition = if partition ∈ partitions then
            (SmallFile.scan view timeline config.smallFileLimit none partition).toOption else none)
        ∧ ∀ partition, pending.find? partition
          = if partition ∈ partitions then (view.pending partition).toOption else none := by
  obtain ⟨smallFiles, hsmallFiles, hfindFiles⟩ := Fanout.exists_gather h hfiles
  obtain ⟨pending, hgathered, hfindPending⟩ := Fanout.exists_gather h hpending
  refine ⟨smallFiles, pending, ?_, hfindFiles, hfindPending⟩
  have hpinned : SmallFile.scan view timeline config.smallFileLimit (timeline.latest? none)
      = SmallFile.scan view timeline config.smallFileLimit none :=
    funext (SmallFile.scan_latest? view timeline config.smallFileLimit)
  simp only [readTable, hpinned, hsmallFiles, hgathered]
  rfl

/-- Where all partitions of a batch can be read, the plan of a construction is the one for the small
files and the pending clustering of all of them, each read without a bound. -/
theorem build_eq_of_read_all (h : fanout.Faithful) (fresh : ℕ → String) (profile : Profile)
    (view : Table) (timeline : Timeline) (hvalid : config.validate = .ok ())
    (hfiles : ∀ partition ∈ profile.partitions.keys,
      ∃ files, SmallFile.scan view timeline config.smallFileLimit none partition = .ok files)
    (hpending : ∀ partition ∈ profile.partitions.keys,
      ∃ groups, view.pending partition = .ok groups) :
    ∃ smallFiles pending plan,
      (∀ partition, smallFiles.find? partition = if partition ∈ profile.partitions.keys then
          (SmallFile.scan view timeline config.smallFileLimit none partition).toOption else none)
        ∧ (∀ partition, pending.find? partition = if partition ∈ profile.partitions.keys then
            (view.pending partition).toOption else none)
        ∧ Plan.build config.sizing fresh profile smallFiles pending
            (config.estimator.estimate timeline).bytesPerRecord = .ok plan
        ∧ build fanout fresh profile view timeline config
          = .ok ⟨profile, plan, config.estimator.estimate timeline⟩ := by
  have hestimate : (config.estimator.estimate timeline).bytesPerRecord ≠ 0 :=
    SizeEstimator.bytesPerRecord_estimate_ne_zero (Config.fallback_ne_zero hvalid) timeline
  obtain ⟨smallFiles, -, hallFiles⟩ := Fanout.exists_gather Fanout.sequential_faithful hfiles
  obtain ⟨pending, -, hallPending⟩ := Fanout.exists_gather Fanout.sequential_faithful hpending
  have hkeys : ∀ partition ∈ readPartitions profile, partition ∈ profile.partitions.keys :=
    fun _ hmem => Profile.mem_keys_of_inserts_pos (mem_readPartitions.mp hmem)
  obtain ⟨readFiles, readPending, hread, hreadFiles, hreadPending⟩ := exists_readTable h
    (fun partition hmem => hfiles partition (hkeys partition hmem))
    (fun partition hmem => hpending partition (hkeys partition hmem))
  -- for a partition with inserts both pairs of maps hold what is read for it
  have hsameFiles : ∀ partition, 0 < profile.inserts partition →
      readFiles.find? partition = smallFiles.find? partition := fun partition hpos => by
    rw [hreadFiles, hallFiles, if_pos (mem_readPartitions.mpr hpos),
      if_pos (Profile.mem_keys_of_inserts_pos hpos)]
  have hsamePending : ∀ partition, 0 < profile.inserts partition →
      readPending.find? partition = pending.find? partition := fun partition hpos => by
    rw [hreadPending, hallPending, if_pos (mem_readPartitions.mpr hpos),
      if_pos (Profile.mem_keys_of_inserts_pos hpos)]
  refine ⟨smallFiles, pending, _, hallFiles, hallPending, Plan.build_eq hestimate, ?_⟩
  rw [build_eq hvalid hread, Plan.built, Plan.built,
    Profile.demands_congr hsameFiles hsamePending]

/-- The commits are out of order, one of them is listed twice, and `q` has updates only. -/
theorem build_eq_of_read_all_unsorted :
    Fanout.backward.Faithful
      ∧ ∃ smallFiles pending partitioner, smallFiles.find? "q" = some [⟨⟨"001", "g"⟩, 60⟩]
        ∧ Plan.build ⟨100, 5, false⟩ (fun _ => "new")
            ⟨.insert (.insert .empty "p" ⟨12, .empty⟩) "q" ⟨0, .insert .empty "g" 1⟩⟩ smallFiles
            pending 5 = .ok partitioner.plan
        ∧ build .backward (fun _ => "new")
            ⟨.insert (.insert .empty "p" ⟨12, .empty⟩) "q" ⟨0, .insert .empty "g" 1⟩⟩ smallTable
            (.ofEntries [("002", .ok ⟨1000, 100⟩), ("001", .ok ⟨500, 100⟩),
              ("001", .ok ⟨700, 100⟩)])
            ⟨80, 100, 5, false, 10, .ofNat 1, 1⟩ = .ok partitioner := by
  have hestimate : (Config.estimator ⟨80, 100, 5, false, 10, .ofNat 1, 1⟩).estimate
      (.ofEntries [("002", .ok ⟨1000, 100⟩), ("001", .ok ⟨500, 100⟩), ("001", .ok ⟨700, 100⟩)])
      = ⟨5, .commit "001", none⟩ := by decide +kernel
  have hbuilt := build_eq_of_read_all Fanout.backward_faithful (fun _ => "new")
    ⟨.insert (.insert .empty "p" ⟨12, .empty⟩) "q" ⟨0, .insert .empty "g" 1⟩⟩ smallTable
    (.ofEntries [("002", .ok ⟨1000, 100⟩), ("001", .ok ⟨500, 100⟩), ("001", .ok ⟨700, 100⟩)])
    (show Config.validate ⟨80, 100, 5, false, 10, .ofNat 1, 1⟩ = .ok () by decide +kernel)
    (fun partition hmem => failure?_eq_none_iff.mp <| by
      revert partition
      decide +kernel)
    (fun partition hmem => failure?_eq_none_iff.mp <| by
      revert partition
      decide +kernel)
  rw [hestimate] at hbuilt
  obtain ⟨smallFiles, pending, plan, hfiles, -, hplan, hbuild⟩ := hbuilt
  refine ⟨Fanout.backward_faithful, smallFiles, pending, ⟨_, plan, _⟩, ?_, hplan, hbuild⟩
  rw [hfiles]
  decide +kernel

end Partitioner

end Upsert
