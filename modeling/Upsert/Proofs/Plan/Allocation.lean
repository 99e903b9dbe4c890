import Upsert.Proofs.Plan.Building

/-! # What is allocated to which bucket

The small files and the new files of a partition share its inserts: nothing is allocated twice, no
insert is lost, and no allocation is empty. The allocations are listed with the buckets that the
finished plan has for them, the update bucket of each file that is topped up and then consecutive
insert buckets, the only ones of the partition.
-/

namespace Upsert

/-! ## What the files take -/

namespace Sizing

variable (sizing : Sizing) (average : UInt64) (inserts : ℕ) (files : List SmallFile)

theorem mem_topUps {file : SmallFile} {records : ℕ}
    (h : (file, records) ∈ sizing.topUps average inserts files) :
    file ∈ files ∧ 0 < records ∧ records ≤ inserts := by
  rw [topUps, List.mem_filter] at h
  obtain ⟨hzip, hpos⟩ := h
  obtain ⟨hfile, hfill⟩ := List.of_mem_zip hzip
  have hle := List.le_sum_of_mem hfill
  rw [Greedy.sum_fills] at hle
  exact ⟨hfile, of_decide_eq_true hpos, hle.trans (min_le_left _ _)⟩

theorem sum_topUps :
    ((sizing.topUps average inserts files).map (·.2)).sum
      = min inserts (files.map (sizing.fitting average)).sum := by
  induction files generalizing inserts with
  | nil => rw [List.map_nil, List.sum_nil, Nat.min_zero]; rfl
  | cons file files ih =>
    rw [topUps_cons, List.map_cons, List.sum_cons]
    split
    · rw [ih]
      omega
    · rw [List.map_cons, List.sum_cons, ih]
      dsimp only
      omega

end Sizing

namespace Demand

variable (sizing : Sizing) (average : UInt64) (demand : Demand)

theorem mem_loads {load : ℕ} (h : load ∈ demand.loads sizing average) :
    0 < load ∧ load ≤ demand.inserts.toNat := by
  refine ⟨(Greedy.mem_portions (sizing.recordsPerNewFile_pos average) h).1, ?_⟩
  have hle := List.le_sum_of_mem h
  rw [loads, Greedy.sum_portions _ (sizing.recordsPerNewFile_pos average)] at hle
  exact hle.trans (Nat.sub_le _ _)

/-- Together the files take all inserts. -/
theorem sum_topUps_add_sum_loads :
    ((demand.topUps sizing average).map (·.2)).sum + (demand.loads sizing average).sum
      = demand.inserts.toNat := by
  rw [topUps, Sizing.sum_topUps, loads,
    Greedy.sum_portions _ (sizing.recordsPerNewFile_pos average), Sizing.spilled]
  omega

end Demand

/-! ## The allocations of a share -/

/-- The records of a share that go to a bucket. -/
def InsertShare.recordsIn (share : InsertShare) (bucket : ℕ) : ℕ :=
  (share.allocations.map fun a => if a.bucket = bucket then a.records.toNat else 0).sum

namespace Plan

variable {sizing : Sizing} {fresh : ℕ → String} {demand : Demand} {middle final : Plan}

theorem AssignedFrom.insertTable? (h : AssignedFrom sizing fresh demand middle final) :
    final.insertTable? demand.partition
      = some (.ofAllocations (middle.shareOf sizing demand).allocations demand.inserts) := by
  rw [Plan.insertTable?, h.share]
  rfl

/-- A file that is topped up keeps its bucket in the finished plan. -/
theorem AssignedFrom.updateBucket? (h : AssignedFrom sizing fresh demand middle final)
    {fileId : String} (hfile : fileId ∈ demand.toppedUpFiles sizing middle.averageRecordSize) :
    final.updateBucket? fileId = some ((middle.toppedUp sizing demand).bucketOf fileId) := by
  obtain ⟨number, hnumber⟩ := exists_updateBucket?_ensureUpdates middle demand.partition hfile
  have hassigned : (middle.assigned sizing fresh demand).updateBucket? fileId = some number :=
    (updateBucket?_openNew ..).trans hnumber
  rw [h.grows.update hassigned, toppedUp, bucketOf, hnumber, Option.getD_some]

/-- Each allocation with its bucket, as the finished plan knows it. -/
theorem AssignedFrom.map_allocations (h : AssignedFrom sizing fresh demand middle final) :
    (middle.shareOf sizing demand).allocations.map (fun a => (some a.bucket, a.records.toNat))
      = (demand.topUps sizing middle.averageRecordSize).map (fun (file, records) =>
            (final.updateBucket? file.fileId, records))
        ++ (demand.loads sizing middle.averageRecordSize).mapIdx fun i load =>
            (some (middle.firstNew sizing demand + i), load) := by
  have hsize : ∀ {records : ℕ}, records ≤ demand.inserts.toNat →
      (UInt64.ofNat records).toNat = records := fun hle =>
    UInt64.toNat_ofNat_of_lt' (Nat.lt_of_le_of_lt hle demand.inserts.toNat_lt_size)
  rw [shareOf, List.map_append]
  congr 1
  · -- the finished plan has the same bucket for the file as the plan in which it was topped up
    rw [fileAllocations, List.map_map]
    apply List.map_congr_left
    rintro ⟨file, records⟩ hmem
    have hfile : file.fileId ∈ demand.toppedUpFiles sizing middle.averageRecordSize :=
      List.mem_map.mpr ⟨_, hmem, rfl⟩
    dsimp only [Function.comp_apply]
    rw [h.updateBucket? hfile, hsize (Sizing.mem_topUps _ _ _ _ hmem).2.2]
  · -- the loads are words, since none of them exceeds the inserts
    rw [newAllocations]
    refine List.ext_getElem? fun i => ?_
    rw [List.getElem?_map, List.getElem?_mapIdx, List.getElem?_mapIdx]
    cases hload : (demand.loads sizing middle.averageRecordSize)[i]? with
    | none => rfl
    | some load =>
      have hle := (demand.mem_loads sizing _ (List.mem_of_getElem? hload)).2
      rw [Option.map_some, Option.map_some, Option.map_some, hsize hle]
      rfl

/-- What is allocated is what the files take. -/
theorem AssignedFrom.map_records (h : AssignedFrom sizing fresh demand middle final) :
    (middle.shareOf sizing demand).allocations.map (·.records.toNat)
      = (demand.topUps sizing middle.averageRecordSize).map (·.2)
        ++ demand.loads sizing middle.averageRecordSize := by
  have hmap := congrArg (List.map Prod.snd) h.map_allocations
  rw [List.map_map, List.map_append, List.map_map] at hmap
  refine hmap.trans (congrArg _ (List.ext_getElem? fun i => ?_))
  rw [List.getElem?_map, List.getElem?_mapIdx, Option.map_map]
  exact Option.map_id'

theorem AssignedFrom.sum_records (h : AssignedFrom sizing fresh demand middle final) :
    ((middle.shareOf sizing demand).allocations.map (·.records.toNat)).sum
      = demand.inserts.toNat := by
  rw [h.map_records, List.sum_append, Demand.sum_topUps_add_sum_loads]

theorem AssignedFrom.records_pos (h : AssignedFrom sizing fresh demand middle final)
    {allocation : Allocation} (hmem : allocation ∈ (middle.shareOf sizing demand).allocations) :
    0 < allocation.records := by
  have hrecords := List.mem_map_of_mem (f := (·.records.toNat)) hmem
  rw [h.map_records, List.mem_append, List.mem_map] at hrecords
  rw [UInt64.lt_iff_toNat_lt]
  rcases hrecords with ⟨⟨file, records⟩, htopUp, heq⟩ | hload
  · exact heq ▸ (Sizing.mem_topUps _ _ _ _ htopUp).2.1
  · exact (Demand.mem_loads _ _ _ hload).1

/-- The insert buckets of a partition are the new ones, in order. -/
theorem AssignedFrom.insert_bucket_iff (h : AssignedFrom sizing fresh demand middle final)
    {number : ℕ} {freshId : String} :
    final.bucket? number = some (.insert freshId demand.partition)
      ↔ ∃ i < (demand.loads sizing middle.averageRecordSize).length,
          number = middle.firstNew sizing demand + i
          ∧ freshId = fresh ((middle.toppedUp sizing demand).freshIds + i) := by
  have hnew : ∀ i < (demand.loads sizing middle.averageRecordSize).length,
      final.bucket? (middle.firstNew sizing demand + i)
        = some (.insert (fresh ((middle.toppedUp sizing demand).freshIds + i))
            demand.partition) := by
    intro i hi
    refine h.grows.bucket ?_
    rw [bucket?_assigned_eq, if_pos (by omega), Nat.add_sub_cancel_left]
  constructor
  · intro hbucket
    obtain ⟨hfirst, hlast⟩ := h.new hbucket
    obtain ⟨i, rfl⟩ := Nat.exists_eq_add_of_le hfirst
    have hi : i < (demand.loads sizing middle.averageRecordSize).length := by omega
    rw [hnew i hi] at hbucket
    cases hbucket
    exact ⟨i, hi, rfl, rfl⟩
  · rintro ⟨i, hi, rfl, rfl⟩
    exact hnew i hi

/-- An allocation goes to a file that is topped up or to an insert bucket of the partition. -/
theorem AssignedFrom.allocation_cases (h : AssignedFrom sizing fresh demand middle final)
    {allocation : Allocation} (hmem : allocation ∈ (middle.shareOf sizing demand).allocations) :
    (∃ fileId ∈ demand.toppedUpFiles sizing middle.averageRecordSize,
        final.updateBucket? fileId = some allocation.bucket)
      ∨ ∃ freshId, final.bucket? allocation.bucket
          = some (.insert freshId demand.partition) := by
  have hview := List.mem_map_of_mem (f := fun a => (some a.bucket, a.records.toNat)) hmem
  rw [h.map_allocations, List.mem_append, List.mem_map, List.mem_mapIdx] at hview
  rcases hview with ⟨⟨file, records⟩, htopUp, heq⟩ | ⟨i, hi, heq⟩
  · exact Or.inl ⟨file.fileId, List.mem_map.mpr ⟨_, htopUp, rfl⟩, (Prod.mk.inj heq).1⟩
  · have hbucket := Option.some.inj (Prod.mk.inj heq).1
    exact Or.inr ⟨_, h.insert_bucket_iff.mpr ⟨i, hi, hbucket.symm, rfl⟩⟩

/-- A file that is topped up has an allocation in its bucket. -/
theorem AssignedFrom.exists_allocation (h : AssignedFrom sizing fresh demand middle final)
    {fileId : String} (hfile : fileId ∈ demand.toppedUpFiles sizing middle.averageRecordSize) :
    ∃ allocation ∈ (middle.shareOf sizing demand).allocations,
      final.updateBucket? fileId = some allocation.bucket := by
  obtain ⟨⟨file, records⟩, htopUp, rfl⟩ := List.mem_map.mp hfile
  have hview : (final.updateBucket? file.fileId, records)
      ∈ (middle.shareOf sizing demand).allocations.map
        (fun a => (some a.bucket, a.records.toNat)) := by
    rw [h.map_allocations, List.mem_append]
    exact Or.inl (List.mem_map.mpr ⟨_, htopUp, rfl⟩)
  obtain ⟨allocation, hmem, heq⟩ := List.mem_map.mp hview
  exact ⟨allocation, hmem, (Prod.mk.inj heq).1.symm⟩

/-- Where there are inserts, there are allocations. -/
theorem AssignedFrom.allocations_ne_nil (h : AssignedFrom sizing fresh demand middle final)
    (hpos : 0 < demand.inserts) : (middle.shareOf sizing demand).allocations ≠ [] := by
  intro hnil
  have hsum := h.sum_records
  rw [hnil, List.map_nil, List.sum_nil] at hsum
  rw [UInt64.lt_iff_toNat_lt] at hpos
  exact absurd hsum hpos.ne

/-- The inserts of every partition are shared out by greedy filling. The small files that are not
under pending clustering are topped up in the order of the list, each in its update bucket and with
as many records as it holds of what the files before it leave. What all of them leave goes to new
files, in consecutive insert buckets that are the only ones of the partition: full ones, and a last
one with the rest. -/
theorem allocations_eq_greedy (sizing : Sizing) (fresh : ℕ → String) (profile : Profile)
    (smallFiles : SortedMap (List SmallFile)) (pending : SortedMap KeySet) {average : UInt64}
    (haverage : average ≠ 0) :
    ∃ plan, build sizing fresh profile smallFiles pending average = .ok plan
      ∧ ∀ partition, 0 < profile.inserts partition →
        let inserts := (profile.inserts partition).toNat
        let files := (smallFiles.findD partition []).filter fun file =>
          !(pending.findD partition .empty).contains file.fileId
        let capacities := files.map fun file =>
          (sizing.maxFileSize.toNat - file.size.toNat) / average.toNat
        let filled := Greedy.fills inserts capacities
        let left := inserts - min inserts capacities.sum
        let perFile := (sizing.recordsPerNewFile average).toNat
        let newFiles := (left + perFile - 1) / perFile
        let last := left - (newFiles - 1) * perFile
        ∃ allocations first firstId,
          plan.shares.find? partition = some ⟨profile.inserts partition, allocations,
            .ofAllocations allocations (profile.inserts partition)⟩
          ∧ allocations.map (fun a => (some a.bucket, a.records.toNat))
            = ((files.zip filled).filter (0 < ·.2)).map (fun (file, records) =>
                (plan.updateBucket? file.fileId, records))
              ++ (List.range newFiles).map (fun i =>
                (some (first + i), if i + 1 < newFiles then perFile else last))
          ∧ (∀ number freshId, plan.bucket? number = some (.insert freshId partition)
              ↔ ∃ i < newFiles, number = first + i ∧ freshId = fresh (firstId + i))
          ∧ (0 < left → 0 < newFiles ∧ 0 < last ∧ last ≤ perFile)
          ∧ (∀ a ∈ allocations, 0 < a.records)
          ∧ (allocations.map (·.records.toNat)).sum = inserts
          ∧ (0 < newFiles → filled = capacities) := by
  obtain ⟨plan, hplan⟩ := exists_build haverage
  refine ⟨plan, hplan, fun partition hpos => ?_⟩
  obtain ⟨middle, haverage', h⟩ := exists_assignedFrom_of_build hplan hpos
  intro inserts files capacities filled left perFile newFiles last
  have hperFile : 0 < perFile := sizing.recordsPerNewFile_pos average
  have hcount : ((profile.demand smallFiles pending partition).loads sizing
      middle.averageRecordSize).length = newFiles := by
    rw [haverage', Demand.loads, Greedy.length_portions]
    rfl
  refine ⟨(middle.shareOf sizing (profile.demand smallFiles pending partition)).allocations,
    middle.firstNew sizing (profile.demand smallFiles pending partition),
    (middle.toppedUp sizing (profile.demand smallFiles pending partition)).freshIds, h.share, ?_,
    fun number freshId => ?_, ?_, fun a ha => h.records_pos ha, h.sum_records, ?_⟩
  · rw [h.map_allocations, Demand.loads, Greedy.mapIdx_portions, haverage']
    rfl
  · rw [← hcount]
    exact h.insert_bucket_iff
  · -- the last portion is what the full ones leave
    intro hleft
    have hbounds := Greedy.portionCount_bounds hperFile hleft
    refine ⟨Greedy.portionCount_pos hperFile hleft, ?_⟩
    change (newFiles - 1) * perFile < left ∧ left ≤ (newFiles - 1) * perFile + perFile at hbounds
    omega
  · intro hnew
    -- inserts are left over only where the files are full
    have hle : newFiles ≤ left := Greedy.portionCount_le left perFile
    exact Greedy.fills_of_sum_le (by omega)

/-- The file `x`, which has room for all of the inserts, is under pending clustering. -/
theorem allocations_topUp_and_new_files :
    (10 : UInt64) ≠ 0
      ∧ ∃ plan share, build ⟨100, 5, false⟩ (fun _ => "new") ⟨.insert .empty "p" ⟨12, .empty⟩⟩
          (.insert .empty "p" [⟨⟨"001", "x"⟩, 0⟩, ⟨⟨"001", "f"⟩, 70⟩, ⟨⟨"001", "g"⟩, 100⟩,
            ⟨⟨"001", "x"⟩, 0⟩])
          (.insert .empty "p" (.add .empty "x")) 10 = .ok plan
        ∧ plan.shares.find? "p" = some share
        ∧ share.allocations.map (·.records.toNat) = [3, 5, 4] := by
  obtain ⟨plan, hplan, hgreedy⟩ := allocations_eq_greedy ⟨100, 5, false⟩ (fun _ => "new")
    ⟨.insert .empty "p" ⟨12, .empty⟩⟩
    (.insert .empty "p" [⟨⟨"001", "x"⟩, 0⟩, ⟨⟨"001", "f"⟩, 70⟩, ⟨⟨"001", "g"⟩, 100⟩,
      ⟨⟨"001", "x"⟩, 0⟩])
    (.insert .empty "p" (.add .empty "x"))
    (show (10 : UInt64) ≠ 0 by decide)
  obtain ⟨allocations, first, firstId, hshare, hallocations, -⟩ := hgreedy "p" (by decide +kernel)
  refine ⟨by decide, plan, _, hplan, hshare, ?_⟩
  have hrecords := congrArg (List.map Prod.snd) hallocations
  rw [List.map_map, List.map_append, List.map_map, List.map_map] at hrecords
  exact hrecords.trans rfl

end Plan

end Upsert
