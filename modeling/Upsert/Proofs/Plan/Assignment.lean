import Upsert.Plan.Build
import Upsert.Proofs.Greedy
import Upsert.Proofs.Plan.Growth

/-! # Assigning the inserts of a partition, in closed form

`assignInserts` counts down machine words and can fault. Here is what it comes to, in natural
numbers and without faults: the small files share the inserts by greedy filling, what they leave is
cut into portions for new files, and the plan grows by the update buckets of the files that get
records and by one insert bucket for each portion (`assigned`). For records of a size that is not
zero the two agree, so that nothing overflows on the way (`assignInserts_eq`).
-/

namespace Upsert

/-! ## How many records go where -/

namespace Sizing

/-- The records that fit into a small file. -/
def fitting (sizing : Sizing) (average : UInt64) (file : SmallFile) : ℕ :=
  (sizing.maxFileSize.toNat - file.size.toNat) / average.toNat

/-- The small files that get some of the inserts, in the order of the list, and how many. -/
def topUps (sizing : Sizing) (average : UInt64) (inserts : ℕ) (files : List SmallFile) :
    List (SmallFile × ℕ) :=
  (files.zip (Greedy.fills inserts (files.map (sizing.fitting average)))).filter (0 < ·.2)

/-- The inserts that the small files leave. -/
def spilled (sizing : Sizing) (average : UInt64) (inserts : ℕ) (files : List SmallFile) : ℕ :=
  inserts - min inserts (files.map (sizing.fitting average)).sum

theorem topUps_cons (sizing : Sizing) (average : UInt64) (inserts : ℕ) (file : SmallFile)
    (files : List SmallFile) :
    sizing.topUps average inserts (file :: files)
      = if min (sizing.fitting average file) inserts = 0 then
          sizing.topUps average (inserts - sizing.fitting average file) files
        else
          (file, min (sizing.fitting average file) inserts)
            :: sizing.topUps average (inserts - sizing.fitting average file) files := by
  rw [topUps, List.map_cons, Greedy.fills_cons, List.zip_cons_cons, List.filter_cons]
  split <;> rename_i h
  · rw [if_neg (Nat.pos_iff_ne_zero.mp (of_decide_eq_true h))]
    rfl
  · rw [if_pos (Nat.eq_zero_of_not_pos fun hpos => h (decide_eq_true hpos))]
    rfl

theorem spilled_cons (sizing : Sizing) (average : UInt64) (inserts : ℕ) (file : SmallFile)
    (files : List SmallFile) :
    sizing.spilled average inserts (file :: files)
      = sizing.spilled average (inserts - sizing.fitting average file) files := by
  rw [spilled, spilled, List.map_cons, List.sum_cons]
  omega

theorem capacity_eq_ok (sizing : Sizing) {average : UInt64} (haverage : average ≠ 0)
    (file : SmallFile) : ∃ capacity, sizing.capacity average file.size = .ok capacity
      ∧ capacity.toNat = sizing.fitting average file := by
  refine ⟨sizing.room file.size / average, ?_, ?_⟩
  · rw [capacity, Checked.div, if_neg haverage]
  · rw [UInt64.toNat_div, fitting, room]
    split <;> rename_i h
    · rw [UInt64.toNat_sub_of_le _ _ h]
    · rw [UInt64.le_iff_toNat_le] at h
      rw [Nat.sub_eq_zero_of_le (by omega)]
      rfl

theorem recordsPerNewFile_pos (sizing : Sizing) (average : UInt64) :
    0 < (sizing.recordsPerNewFile average).toNat := by
  have hne : sizing.recordsPerNewFile average ≠ 0 := by
    unfold recordsPerNewFile
    dsimp only
    generalize (if sizing.autoTune then sizing.maxFileSize / (if average = 0 then 1 else average)
      else sizing.insertSplitSize) = records
    by_cases h : records = 0
    · rw [if_pos h]
      decide
    · rwa [if_neg h]
  exact Nat.pos_of_ne_zero fun h => hne (UInt64.toNat_inj.mp h)

end Sizing

/-- The inserts of a partition and the small files that they may top up. -/
structure Demand where
  partition : String
  inserts : UInt64
  files : List SmallFile

namespace Demand

variable (sizing : Sizing) (average : UInt64) (demand : Demand)

/-- The small files that get some of the inserts, and how many. -/
def topUps : List (SmallFile × ℕ) := sizing.topUps average demand.inserts.toNat demand.files

/-- The files that get some of the inserts. -/
def toppedUpFiles : List String := (demand.topUps sizing average).map (·.1.fileId)

/-- The records of each new file. -/
def loads : List ℕ :=
  Greedy.portions (sizing.spilled average demand.inserts.toNat demand.files)
    (sizing.recordsPerNewFile average).toNat

end Demand

namespace Plan

/-! ## The plan with the inserts assigned -/

/-- The number of the update bucket of a file that has one. -/
def bucketOf (plan : Plan) (fileId : String) : ℕ := (plan.updateBucket? fileId).getD 0

/-- The plan with an update bucket for every file that is topped up. -/
def toppedUp (sizing : Sizing) (plan : Plan) (demand : Demand) : Plan :=
  plan.ensureUpdates demand.partition (demand.toppedUpFiles sizing plan.averageRecordSize)

/-- The allocations to small files, in the buckets of `plan`. -/
def fileAllocations (plan : Plan) (topUps : List (SmallFile × ℕ)) : List Allocation :=
  topUps.map fun (file, records) => ⟨plan.bucketOf file.fileId, .ofNat records⟩

/-- The allocations to new files, whose buckets are numbered from `first`. -/
def newAllocations (first : ℕ) (loads : List ℕ) : List Allocation :=
  loads.mapIdx fun i load => ⟨first + i, .ofNat load⟩

/-- What becomes of the inserts. -/
def shareOf (sizing : Sizing) (plan : Plan) (demand : Demand) : InsertShare :=
  let toppedUp := plan.toppedUp sizing demand
  let allocations :=
    toppedUp.fileAllocations (demand.topUps sizing plan.averageRecordSize)
      ++ newAllocations toppedUp.numBuckets (demand.loads sizing plan.averageRecordSize)
  ⟨demand.inserts, allocations, .ofAllocations allocations demand.inserts⟩

/-- The plan that also knows the share of a partition and its small files. -/
def record (plan : Plan) (partition : String) (share : InsertShare) (files : List SmallFile) :
    Plan :=
  { plan with
    shares := plan.shares.insert partition share
    smallFiles := plan.smallFiles ++ files }

/-- The plan with the inserts of a partition assigned. -/
def assigned (sizing : Sizing) (fresh : ℕ → String) (plan : Plan) (demand : Demand) : Plan :=
  ((plan.toppedUp sizing demand).openNew fresh demand.partition
      (demand.loads sizing plan.averageRecordSize).length).record
    demand.partition (plan.shareOf sizing demand) demand.files

/-! ## The two agree -/

/-- A file takes what fits into it of the inserts that are left. -/
theorem sub_taken (fits left : UInt64) :
    let records := if fits ≤ left then fits else left
    records.toNat = min fits.toNat left.toNat
      ∧ ∃ rest, Checked.sub left records = .ok rest ∧ rest.toNat = left.toNat - fits.toNat := by
  intro records
  have hrecords : records.toNat = min fits.toNat left.toNat := by
    unfold records
    split <;> rename_i h <;> rw [UInt64.le_iff_toNat_le] at h <;> omega
  have hle : records ≤ left := by
    rw [UInt64.le_iff_toNat_le]
    omega
  refine ⟨hrecords, left - records, Checked.sub_eq_ok_iff.mpr ?_, ?_⟩
  · rw [UInt64.toNat_sub_of_le _ _ hle]
    omega
  · rw [UInt64.toNat_sub_of_le _ _ hle]
    omega

/-- An update bucket that a plan knows is also the bucket of the file in a later plan. -/
theorem Extends.bucketOf_eq {before after : Plan} (h : before.Extends after) {fileId : String}
    {number : ℕ} (hupdate : before.updateBucket? fileId = some number) :
    after.bucketOf fileId = number := by
  rw [bucketOf, h.update hupdate, Option.getD_some]

theorem topUp_eq (sizing : Sizing) (partition : String) {plan : Plan}
    (haverage : plan.averageRecordSize ≠ 0) (left : UInt64) (files : List SmallFile) :
    let topUps := sizing.topUps plan.averageRecordSize left.toNat files
    let grown := plan.ensureUpdates partition (topUps.map (·.1.fileId))
    topUp sizing partition plan left files
      = .ok ⟨grown.fileAllocations topUps,
          .ofNat (sizing.spilled plan.averageRecordSize left.toNat files), grown⟩ := by
  induction files generalizing plan left with
  | nil =>
    simp [topUp, Sizing.topUps, Sizing.spilled, ensureUpdates, fileAllocations]
  | cons file files ih =>
    obtain ⟨capacity, hcapacity, hfitting⟩ := sizing.capacity_eq_ok haverage file
    obtain ⟨hrecords, rest, hrest, hleft⟩ := sub_taken capacity left
    rw [topUp, hcapacity, Sizing.topUps_cons, Sizing.spilled_cons, ← hfitting, ← hrecords]
    simp only [bind, Except.bind]
    generalize (if capacity ≤ left then capacity else left) = records at hrecords hrest ⊢
    by_cases hzero : records = 0
    · -- the file is full, or no inserts are left
      rw [if_pos hzero, if_pos (by rw [hzero]; rfl)]
      have hnone : left.toNat - capacity.toNat = left.toNat := by
        rw [hzero, UInt64.toNat_zero] at hrecords
        omega
      rw [hnone]
      exact ih haverage left
    · have hnonzero : records.toNat ≠ 0 := fun h => hzero (UInt64.toNat_inj.mp h)
      rw [if_neg hzero, if_neg hnonzero]
      have hgrows := extends_updateBucketFor plan partition file.fileId
      have hrun := ih (by rw [hgrows.averageRecordSize]; exact haverage) rest
      rw [hgrows.averageRecordSize, hleft] at hrun
      rw [hrest]
      simp only [hrun, List.map_cons, ensureUpdates_cons, fileAllocations, pure, Except.pure]
      -- the bucket of the file stays its bucket while the other files are topped up
      rw [(extends_ensureUpdates _ partition _).bucketOf_eq
        (updateBucket?_updateBucketFor plan partition file.fileId), UInt64.ofNat_toNat]

theorem mapM_eq_ok {α β ε : Type} {f : α → Except ε β} {g : α → β} {items : List α}
    (h : ∀ item ∈ items, f item = .ok (g item)) : items.mapM f = .ok (items.map g) := by
  induction items with
  | nil => rfl
  | cons item items ih =>
    rw [List.mapM_cons, h item List.mem_cons_self,
      ih fun other hother => h other (List.mem_cons_of_mem _ hother)]
    rfl

theorem toNat_ceilDiv (left : UInt64) {perFile : UInt64} (h : 0 < perFile.toNat) :
    (ceilDiv left perFile).toNat = Greedy.portionCount left.toNat perFile.toNat := by
  have hrem : left % perFile = 0 ↔ left.toNat % perFile.toNat = 0 := by
    rw [← UInt64.toNat_inj, UInt64.toNat_mod]
    rfl
  have hcount := Greedy.portionCount_eq left.toNat h
  -- there are no more portions than there are records, so the quotient does not wrap around
  have hle := Greedy.portionCount_le left.toNat perFile.toNat
  have hlt := Nat.lt_of_le_of_lt hle left.toNat_lt_size
  rw [hcount] at hlt ⊢
  rw [ceilDiv, UInt64.toNat_add, UInt64.toNat_div]
  by_cases hzero : left.toNat % perFile.toNat = 0
  · rw [if_pos hzero] at hlt ⊢
    rw [if_pos (hrem.mpr hzero)]
    exact Nat.mod_eq_of_lt hlt
  · rw [if_neg hzero] at hlt ⊢
    rw [if_neg fun heq => hzero (hrem.mp heq)]
    exact Nat.mod_eq_of_lt hlt

theorem add_one_eq_ok {count : UInt64} {i : ℕ} (hi : i < count.toNat) :
    Checked.add (.ofNat i) 1 = .ok (.ofNat (i + 1)) := by
  have hsize := count.toNat_lt_size
  rw [Checked.add_eq_ok_iff, UInt64.toNat_ofNat_of_lt' (by omega),
    UInt64.toNat_ofNat_of_lt' (by omega)]
  rfl

/-- What the full files leave for the last one: each intermediate word is at most `count` or less
than `left`, so no step overflows. -/
theorem lastLoad_eq_ok {left perFile count : UInt64} (hperFile : 0 < perFile.toNat)
    (hleft : 0 < left.toNat)
    (hcount : count.toNat = Greedy.portionCount left.toNat perFile.toNat) :
    Checked.sub count 1 = .ok (.ofNat (count.toNat - 1))
      ∧ Checked.mul (.ofNat (count.toNat - 1)) perFile
        = .ok (.ofNat ((count.toNat - 1) * perFile.toNat))
      ∧ Checked.sub left (.ofNat ((count.toNat - 1) * perFile.toNat))
        = .ok (.ofNat (left.toNat - (count.toNat - 1) * perFile.toNat)) := by
  have hword := left.toNat_lt_size
  have hsize := count.toNat_lt_size
  have hpos := Greedy.portionCount_pos hperFile hleft
  have hbounds := Greedy.portionCount_bounds hperFile hleft
  rw [← hcount] at hpos hbounds
  refine ⟨?_, ?_, ?_⟩
  · rw [Checked.sub_eq_ok_iff, UInt64.toNat_ofNat_of_lt' (by omega)]
    have h1 : (1 : UInt64).toNat = 1 := rfl
    omega
  · rw [Checked.mul_eq_ok_iff, UInt64.toNat_ofNat_of_lt' (by omega),
      UInt64.toNat_ofNat_of_lt' (by omega)]
  · rw [Checked.sub_eq_ok_iff, UInt64.toNat_ofNat_of_lt' (by omega),
      UInt64.toNat_ofNat_of_lt' (by omega)]
    omega

theorem newFileLoad_eq {left perFile count : UInt64} (hperFile : 0 < perFile.toNat)
    (hcount : count.toNat = Greedy.portionCount left.toNat perFile.toNat) {i : ℕ}
    (hi : i < count.toNat) :
    newFileLoad left perFile count i
      = .ok (.ofNat (if i + 1 < count.toNat then perFile.toNat
          else left.toNat - (count.toNat - 1) * perFile.toNat)) := by
  have hleft : 0 < left.toNat := by
    have hle := Greedy.portionCount_le left.toNat perFile.toNat
    omega
  obtain ⟨hone, hmul, hsub⟩ := lastLoad_eq_ok hperFile hleft hcount
  have hlt : UInt64.ofNat (i + 1) < count ↔ i + 1 < count.toNat := by
    have hsize := count.toNat_lt_size
    rw [UInt64.lt_iff_toNat_lt, UInt64.toNat_ofNat_of_lt' (by omega)]
  rw [newFileLoad, add_one_eq_ok hi]
  simp only [bind, Except.bind, hone, hmul, hsub, hlt, pure, Except.pure]
  split
  · rw [UInt64.ofNat_toNat]
  · rfl

theorem newFileLoads_eq (left : UInt64) {perFile : UInt64} (h : 0 < perFile.toNat) :
    newFileLoads left perFile
      = .ok ((Greedy.portions left.toNat perFile.toNat).map UInt64.ofNat) := by
  have hcount := toNat_ceilDiv left h
  have hne : perFile ≠ 0 := fun hzero => absurd h (by rw [hzero]; decide)
  rw [newFileLoads, Checked.ceilDiv, if_neg hne, Greedy.portions, List.map_map, ← hcount]
  exact mapM_eq_ok fun i hi => newFileLoad_eq h hcount (List.mem_range.mp hi)

theorem openInserts_eq (fresh : ℕ → String) (partition : String) (plan : Plan) (loads : List ℕ) :
    openInserts fresh partition plan (loads.map UInt64.ofNat)
      = (newAllocations plan.numBuckets loads,
          plan.openNew fresh partition loads.length) := by
  induction loads generalizing plan with
  | nil => rfl
  | cons load loads ih =>
    rw [List.map_cons, openInserts, ih, newAllocations, newAllocations, List.mapIdx_cons,
      List.length_cons, openNew, numBuckets_openInsert]
    simp only [Nat.add_zero, Nat.add_right_comm _ 1, Nat.add_assoc]

/-- Assigning the inserts of a partition does not fault. -/
theorem assignInserts_eq (sizing : Sizing) (fresh : ℕ → String) {plan : Plan}
    (haverage : plan.averageRecordSize ≠ 0) (demand : Demand) :
    assignInserts sizing fresh plan demand.partition demand.inserts demand.files
      = .ok (plan.assigned sizing fresh demand) := by
  -- what is left is part of the inserts, so it is the word that it is turned into
  have hspilled : sizing.spilled plan.averageRecordSize demand.inserts.toNat demand.files
      < UInt64.size :=
    Nat.lt_of_le_of_lt (Nat.sub_le _ _) demand.inserts.toNat_lt_size
  rw [assignInserts, topUp_eq sizing demand.partition haverage]
  simp only [bind, Except.bind, pure, Except.pure]
  rw [newFileLoads_eq _ (sizing.recordsPerNewFile_pos _), UInt64.toNat_ofNat_of_lt' hspilled]
  simp only [openInserts_eq]
  rfl

end Plan

end Upsert
