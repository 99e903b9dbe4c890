import Upsert.Profile
import Upsert.Proofs.FirstFailure

/-! # What a profile counts

A profile holds for each partition the sum of its insert amounts, and for each of its files the sum
of the update amounts (`counts_applyAll`). Counting faults only where a sum leaves the 64-bit words
(`exists_applyAll`), so a batch of fewer records than there are words has a profile, and that
profile has a count for exactly what occurs in the batch.
-/

namespace Upsert

namespace Profile

/-- The updates of a file, none where it was not touched. -/
def updates (profile : Profile) (partition fileId : String) : UInt64 :=
  (profile.partitions.findD partition .empty).updates.findD fileId 0

/-- The inserts that a change adds to a partition. -/
def Change.insertsOf (change : Change) (partition : String) : ℕ :=
  match change with
  | .inserts other n => if other = partition then n.toNat else 0
  | .updates .. => 0

/-- The updates that a change adds to a file of a partition. -/
def Change.updatesOf (change : Change) (partition fileId : String) : ℕ :=
  match change with
  | .inserts .. => 0
  | .updates other otherId n => if other = partition ∧ otherId = fileId then n.toNat else 0

theorem inserts_eq (profile : Profile) (partition : String) :
    profile.inserts partition = (profile.partitions.findD partition .empty).inserts := by
  rw [inserts, stat?, SortedMap.findD]
  cases profile.partitions.find? partition <;> rfl

/-! ## One change -/

theorem apply_inserts (profile : Profile) (partition : String) (n : UInt64) :
    profile.apply (.inserts partition n)
      = (Checked.add (profile.partitions.findD partition .empty).inserts n).map fun count =>
          ⟨profile.partitions.insert partition
            { profile.partitions.findD partition .empty with inserts := count }⟩ := by
  rw [apply, Change.partition, Stat.addInserts]
  cases Checked.add (profile.partitions.findD partition .empty).inserts n <;> rfl

theorem apply_updates (profile : Profile) (partition fileId : String) (n : UInt64) :
    profile.apply (.updates partition fileId n)
      = (Checked.add (profile.updates partition fileId) n).map fun count =>
          ⟨profile.partitions.insert partition
            { profile.partitions.findD partition .empty with
              updates := (profile.partitions.findD partition .empty).updates.insert fileId
                count }⟩ := by
  rw [apply, Change.partition, Stat.addUpdates, updates]
  cases Checked.add ((profile.partitions.findD partition .empty).updates.findD fileId 0) n <;> rfl

/-- A change replaces one count of its partition by its sum with the amount of the change. -/
theorem apply_cases {profile next : Profile} {change : Change}
    (h : profile.apply change = .ok next) :
    (∃ partition n count, change = .inserts partition n
        ∧ count.toNat = (profile.partitions.findD partition .empty).inserts.toNat + n.toNat
        ∧ next = ⟨profile.partitions.insert partition
            { profile.partitions.findD partition .empty with inserts := count }⟩)
      ∨ ∃ partition fileId n count, change = .updates partition fileId n
        ∧ count.toNat = (profile.updates partition fileId).toNat + n.toNat
        ∧ next = ⟨profile.partitions.insert partition
            { profile.partitions.findD partition .empty with
              updates := (profile.partitions.findD partition .empty).updates.insert fileId
                count }⟩ := by
  cases change with
  | inserts partition n =>
    rw [apply_inserts] at h
    obtain ⟨count, hadd, rfl⟩ := map_eq_ok_iff.mp h
    exact Or.inl ⟨partition, n, count, rfl, Checked.add_eq_ok_iff.mp hadd, rfl⟩
  | updates partition fileId n =>
    rw [apply_updates] at h
    obtain ⟨count, hadd, rfl⟩ := map_eq_ok_iff.mp h
    exact Or.inr ⟨partition, fileId, n, count, rfl, Checked.add_eq_ok_iff.mp hadd, rfl⟩

/-- A change replaces the counts of its partition, to which it adds its amount. -/
theorem apply_eq_ok {profile next : Profile} {change : Change}
    (h : profile.apply change = .ok next) :
    ∃ stat : Stat, next = ⟨profile.partitions.insert change.partition stat⟩
      ∧ stat.inserts.toNat = (profile.inserts change.partition).toNat
          + change.insertsOf change.partition
      ∧ ∀ fileId, (stat.updates.findD fileId 0).toNat
          = (profile.updates change.partition fileId).toNat
            + change.updatesOf change.partition fileId := by
  rw [inserts_eq]
  rcases apply_cases h with
    ⟨partition, n, count, rfl, hcount, rfl⟩ | ⟨partition, fileId, n, count, rfl, hcount, rfl⟩
  · refine ⟨_, rfl, ?_, fun fileId => rfl⟩
    rw [hcount, Change.insertsOf, Change.partition, if_pos rfl]
  · refine ⟨_, rfl, rfl, fun other => ?_⟩
    rw [SortedMap.findD_insert, Change.updatesOf, Change.partition]
    by_cases hother : other = fileId
    · rw [if_pos hother, if_pos ⟨rfl, hother.symm⟩, hother, hcount]
    · rw [if_neg hother, if_neg fun hboth => hother hboth.2.symm, Nat.add_zero, updates]

/-- All other counts stay as they are. -/
theorem Change.insertsOf_of_ne {change : Change} {partition : String}
    (h : partition ≠ change.partition) : change.insertsOf partition = 0 := by
  cases change with
  | inserts => exact if_neg (Ne.symm h)
  | updates => rfl

theorem Change.updatesOf_of_ne {change : Change} {partition : String}
    (h : partition ≠ change.partition) (fileId : String) :
    change.updatesOf partition fileId = 0 := by
  cases change with
  | inserts => rfl
  | updates => exact if_neg fun hboth => h hboth.1.symm

theorem counts_apply {profile next : Profile} {change : Change}
    (h : profile.apply change = .ok next) (partition : String) :
    (next.inserts partition).toNat
        = (profile.inserts partition).toNat + change.insertsOf partition
      ∧ ∀ fileId, (next.updates partition fileId).toNat
        = (profile.updates partition fileId).toNat + change.updatesOf partition fileId := by
  obtain ⟨stat, rfl, hinserts, hupdates⟩ := apply_eq_ok h
  by_cases heq : partition = change.partition
  · -- the new counts are looked up
    subst heq
    constructor
    · rw [inserts_eq, SortedMap.findD_insert, if_pos rfl, hinserts]
    · intro fileId
      rw [updates, SortedMap.findD_insert, if_pos rfl, hupdates]
  · -- another partition has its old counts, and the change adds nothing to it
    constructor
    · rw [inserts_eq, SortedMap.findD_insert, if_neg heq, ← inserts_eq, Change.insertsOf_of_ne heq,
        Nat.add_zero]
    · intro fileId
      rw [updates, SortedMap.findD_insert, if_neg heq, Change.updatesOf_of_ne heq, Nat.add_zero]
      rfl

/-- A change faults only where a count would leave the words. -/
theorem exists_apply {profile : Profile} {change : Change}
    (hinserts : (profile.inserts change.partition).toNat + change.insertsOf change.partition
      < UInt64.size)
    (hupdates : ∀ fileId, (profile.updates change.partition fileId).toNat
      + change.updatesOf change.partition fileId < UInt64.size) :
    ∃ next, profile.apply change = .ok next := by
  cases change with
  | inserts partition n =>
    rw [inserts_eq, Change.partition, Change.insertsOf, if_pos rfl] at hinserts
    rw [apply, Change.partition, Stat.addInserts, Checked.add, if_pos hinserts]
    exact ⟨_, rfl⟩
  | updates partition fileId n =>
    have hcount := hupdates fileId
    rw [updates, Change.partition, Change.updatesOf, if_pos ⟨rfl, rfl⟩] at hcount
    rw [apply, Change.partition, Stat.addUpdates, Checked.add, if_pos hcount]
    exact ⟨_, rfl⟩

/-! ## Many changes -/

theorem applyAll_cons_eq_ok_iff {profile next : Profile} {change : Change}
    {changes : List Change} :
    profile.applyAll (change :: changes) = .ok next
      ↔ ∃ middle, profile.apply change = .ok middle ∧ middle.applyAll changes = .ok next := by
  rw [applyAll, List.foldlM_cons]
  cases profile.apply change with
  | error fault => simp [bind, Except.bind]
  | ok middle => simp [bind, Except.bind, applyAll]

theorem counts_applyAll {profile next : Profile} {changes : List Change}
    (h : profile.applyAll changes = .ok next) (partition : String) :
    (next.inserts partition).toNat = (profile.inserts partition).toNat
        + (changes.map (·.insertsOf partition)).sum
      ∧ ∀ fileId, (next.updates partition fileId).toNat
        = (profile.updates partition fileId).toNat
          + (changes.map (·.updatesOf partition fileId)).sum := by
  induction changes generalizing profile with
  | nil =>
    cases h
    exact ⟨rfl, fun _ => rfl⟩
  | cons change changes ih =>
    obtain ⟨middle, hstep, hrest⟩ := applyAll_cons_eq_ok_iff.mp h
    obtain ⟨hinserts, hupdates⟩ := ih hrest
    obtain ⟨hinserts', hupdates'⟩ := counts_apply hstep partition
    simp only [List.map_cons, List.sum_cons]
    constructor
    · omega
    · intro fileId
      have hcount := hupdates fileId
      have hcount' := hupdates' fileId
      omega

theorem exists_applyAll {profile : Profile} {changes : List Change}
    (hinserts : ∀ partition, (profile.inserts partition).toNat
      + (changes.map (·.insertsOf partition)).sum < UInt64.size)
    (hupdates : ∀ partition fileId, (profile.updates partition fileId).toNat
      + (changes.map (·.updatesOf partition fileId)).sum < UInt64.size) :
    ∃ next, profile.applyAll changes = .ok next := by
  induction changes generalizing profile with
  | nil => exact ⟨profile, rfl⟩
  | cons change changes ih =>
    simp only [List.map_cons, List.sum_cons] at hinserts hupdates
    -- the bounds are on the sums of the whole run, and so cover the first change
    obtain ⟨middle, hstep⟩ : ∃ middle, profile.apply change = .ok middle := by
      refine exists_apply ?_ fun fileId => ?_
      · have hsum := hinserts change.partition
        omega
      · have hsum := hupdates change.partition fileId
        omega
    obtain ⟨next, hrest⟩ : ∃ next, middle.applyAll changes = .ok next := by
      refine ih (fun partition => ?_) fun partition fileId => ?_
      · rw [(counts_apply hstep partition).1, Nat.add_assoc]
        exact hinserts partition
      · rw [(counts_apply hstep partition).2, Nat.add_assoc]
        exact hupdates partition fileId
    exact ⟨next, applyAll_cons_eq_ok_iff.mpr ⟨middle, hstep, hrest⟩⟩

/-! ## The profile of a batch -/

theorem sum_map_ite {α : Type} (p : α → Bool) (items : List α) :
    (items.map fun item => if p item then 1 else 0).sum = items.countP p := by
  induction items with
  | nil => rfl
  | cons item items ih => rw [List.map_cons, List.sum_cons, ih, List.countP_cons, Nat.add_comm]

/-- The record has no location, and is an insert of the partition. -/
def isInsertOf (partition : String) (record : Record) : Bool :=
  record.key.partition == partition && record.location.isNone

/-- The record is located in the file, and is an update of the partition. -/
def isUpdateOf (partition fileId : String) (record : Record) : Bool :=
  record.key.partition == partition && record.location.map (·.fileId) == some fileId

theorem Change.insertsOf_ofRecord (record : Record) (partition : String) :
    (Change.ofRecord record).insertsOf partition
      = if isInsertOf partition record then 1 else 0 := by
  obtain ⟨key, location⟩ := record
  cases location with
  | none => simp [ofRecord, insertsOf, isInsertOf]
  | some location => simp [ofRecord, insertsOf, isInsertOf]

theorem Change.updatesOf_ofRecord (record : Record) (partition fileId : String) :
    (Change.ofRecord record).updatesOf partition fileId
      = if isUpdateOf partition fileId record then 1 else 0 := by
  obtain ⟨key, location⟩ := record
  cases location with
  | none => simp [ofRecord, updatesOf, isUpdateOf]
  | some location => simp [ofRecord, updatesOf, isUpdateOf]

theorem sum_insertsOf (records : List Record) (partition : String) :
    ((records.map Change.ofRecord).map (·.insertsOf partition)).sum
      = records.countP (isInsertOf partition) := by
  rw [List.map_map, ← sum_map_ite]
  exact congrArg List.sum
    (List.map_congr_left fun record _ => Change.insertsOf_ofRecord record partition)

theorem sum_updatesOf (records : List Record) (partition fileId : String) :
    ((records.map Change.ofRecord).map (·.updatesOf partition fileId)).sum
      = records.countP (isUpdateOf partition fileId) := by
  rw [List.map_map, ← sum_map_ite]
  exact congrArg List.sum
    (List.map_congr_left fun record _ => Change.updatesOf_ofRecord record partition fileId)

/-- A batch of fewer records than there are words has a profile. -/
theorem exists_ofRecords {records : List Record} (h : records.length < UInt64.size) :
    ∃ profile, ofRecords records = .ok profile := by
  refine exists_applyAll (fun partition => ?_) fun partition fileId => ?_
  · rw [sum_insertsOf]
    exact Nat.lt_of_le_of_lt ((Nat.zero_add _).le.trans List.countP_le_length) h
  · rw [sum_updatesOf]
    exact Nat.lt_of_le_of_lt ((Nat.zero_add _).le.trans List.countP_le_length) h

/-- The inserts of a partition are its records without a location. -/
theorem inserts_ofRecords {records : List Record} {profile : Profile}
    (h : ofRecords records = .ok profile) (partition : String) :
    (profile.inserts partition).toNat = records.countP (isInsertOf partition) := by
  rw [(counts_applyAll h partition).1, sum_insertsOf]
  exact Nat.zero_add _

/-- The updates of a file are the records that are located in it. -/
theorem updates_ofRecords {records : List Record} {profile : Profile}
    (h : ofRecords records = .ok profile) (partition fileId : String) :
    (profile.updates partition fileId).toNat
      = records.countP (isUpdateOf partition fileId) := by
  rw [(counts_applyAll h partition).2, sum_updatesOf]
  exact Nat.zero_add _

theorem inserts_pos_of_mem {records : List Record} {profile : Profile}
    (h : ofRecords records = .ok profile) {record : Record} (hmem : record ∈ records)
    (hlocation : record.location = none) : 0 < profile.inserts record.key.partition := by
  rw [UInt64.lt_iff_toNat_lt, inserts_ofRecords h]
  refine List.countP_pos_iff.mpr ⟨record, hmem, ?_⟩
  rw [isInsertOf, hlocation, beq_self_eq_true]
  rfl

theorem updates_pos_iff {records : List Record} {profile : Profile}
    (h : ofRecords records = .ok profile) {partition fileId : String} :
    0 < profile.updates partition fileId ↔ ∃ record ∈ records,
      record.key.partition = partition ∧ record.location.map (·.fileId) = some fileId := by
  rw [UInt64.lt_iff_toNat_lt, updates_ofRecords h]
  refine List.countP_pos_iff.trans (exists_congr fun record => and_congr_right fun _ => ?_)
  rw [isUpdateOf, Bool.and_eq_true, beq_iff_eq, beq_iff_eq]

/-! ## The files with updates -/

end Profile

theorem Stat.mem_updatedFiles {stat : Stat} {fileId : String} :
    fileId ∈ stat.updatedFiles ↔ 0 < stat.updates.findD fileId 0 := by
  rw [Stat.updatedFiles, List.mem_map]
  constructor
  · rintro ⟨⟨key, count⟩, hmem, rfl⟩
    rw [List.mem_filter, ← SortedMap.find?_eq_some_iff] at hmem
    rw [SortedMap.findD_of_find?_eq_some hmem.1]
    exact of_decide_eq_true hmem.2
  · intro hpos
    cases hfind : stat.updates.find? fileId with
    | none =>
      simp [SortedMap.findD_of_find?_eq_none hfind] at hpos
    | some count =>
      rw [SortedMap.findD_of_find?_eq_some hfind] at hpos
      refine ⟨(fileId, count), List.mem_filter.mpr ⟨?_, decide_eq_true hpos⟩, rfl⟩
      exact (SortedMap.find?_eq_some_iff ..).mp hfind

namespace Profile

theorem mem_updatedFiles {profile : Profile} {partition fileId : String} :
    (partition, fileId) ∈ profile.updatedFiles ↔ 0 < profile.updates partition fileId := by
  rw [updatedFiles, List.mem_flatMap, updates]
  constructor
  · rintro ⟨⟨key, stat⟩, hmem, hfile⟩
    obtain ⟨other, hother, heq⟩ := List.mem_map.mp hfile
    obtain ⟨rfl, rfl⟩ := Prod.mk.inj heq
    rw [← SortedMap.find?_eq_some_iff] at hmem
    rw [SortedMap.findD_of_find?_eq_some hmem]
    exact Stat.mem_updatedFiles.mp hother
  · intro hpos
    cases hfind : profile.partitions.find? partition with
    | none =>
      rw [SortedMap.findD_of_find?_eq_none hfind] at hpos
      cases hpos
    | some stat =>
      rw [SortedMap.findD_of_find?_eq_some hfind] at hpos
      exact ⟨(partition, stat), (SortedMap.find?_eq_some_iff ..).mp hfind,
        List.mem_map.mpr ⟨fileId, Stat.mem_updatedFiles.mpr hpos, rfl⟩⟩

/-- The files are visited in ascending order, those of one partition together. -/
theorem updatedFiles_pairwise (profile : Profile) :
    profile.updatedFiles.Pairwise (Prod.Lex (· < ·) (· < ·)) := by
  rw [updatedFiles, List.pairwise_flatMap]
  constructor
  · -- the files of one partition are keys of one map
    rintro ⟨partition, stat⟩ -
    refine List.pairwise_map.mpr (List.pairwise_map.mpr ?_)
    refine (stat.updates.sorted.filter _).imp fun {entry other} hlt => ?_
    exact Prod.Lex.right partition hlt
  · -- entries of different partitions are in the order of the partitions
    refine profile.partitions.sorted.imp fun {entry other} hlt file hfile file' hfile' => ?_
    obtain ⟨fileId, -, rfl⟩ := List.mem_map.mp hfile
    obtain ⟨fileId', -, rfl⟩ := List.mem_map.mp hfile'
    exact Prod.Lex.left _ _ hlt

/-- No file of a partition is visited twice. -/
theorem updatedFiles_nodup (profile : Profile) : profile.updatedFiles.Nodup := by
  refine profile.updatedFiles_pairwise.imp ?_
  rintro file _ hlex rfl
  rcases Prod.lex_iff.mp hlex with hlt | ⟨-, hlt⟩
  · exact String.lt_irrefl _ hlt
  · exact String.lt_irrefl _ hlt

end Profile

end Upsert
