import Upsert.Proofs.Plan.Ownership

/-! # The records that a plan routes

Routing looks at the file of a located record and at the partition of a new one, and it fails for
nothing but an unknown file or a partition without inserts. Which files are known is settled by the
batch alone: those with updates in some partition, and those that some partition tops up, be it only
with what earlier small files leave over. So a file that was counted with no update at all is as
unknown as one that was never counted, and so is a small file under pending clustering.
-/

namespace Upsert

theorem Profile.inserts_eq_zero_iff {profile : Profile} {partition : String} :
    profile.inserts partition = 0
      ↔ ∀ stat, profile.stat? partition = some stat → stat.inserts = 0 := by
  rw [Profile.inserts]
  cases profile.stat? partition <;> simp

namespace Plan

variable {sizing : Sizing} {fresh : ℕ → String} {profile : Profile}
  {smallFiles : SortedMap (List SmallFile)} {pending : SortedMap KeySet} {average : UInt64}
  {plan : Plan}

/-! ## How routing fails -/

/-- A located record fails where its file has no update bucket, and in no other way. -/
theorem route_some_eq_error_iff {key : RecordKey} {location : RecordLocation}
    {error : RouteError} :
    plan.route key (some location) = .error error
      ↔ error = .unknownUpdateLocation location.fileId
        ∧ plan.updateBucket? location.fileId = none := by
  rw [route]
  cases plan.updateBucket? location.fileId <;> simp [eq_comm]

/-- A record without a location fails where its place selects no bucket, and in no other way. -/
theorem route_none_eq_error_iff {key : RecordKey} {error : RouteError} :
    plan.route key none = .error error
      ↔ error = .noInsertBuckets key.partition
        ∧ plan.selectBucket? key.partition
            (keyFraction key.key (plan.partitionInserts key.partition)) = none := by
  rw [route]
  cases plan.selectBucket? key.partition
    (keyFraction key.key (plan.partitionInserts key.partition)) <;> simp [eq_comm]

section

variable (hplan : build sizing fresh profile smallFiles pending average = .ok plan)
include hplan

/-! ## What a plan knows -/

/-- The files with an update bucket are those that some partition writes to. -/
theorem updateBucket?_eq_none_iff {fileId : String} :
    plan.updateBucket? fileId = none
      ↔ ∀ partition, ¬ Writes sizing profile smallFiles pending average partition fileId := by
  constructor
  · rintro hnone partition (hupdates | htoppedUp)
    · obtain ⟨number, hnumber⟩ := exists_updateBucket?_of_updates_pos hplan hupdates
      simp [hnone] at hnumber
    · obtain ⟨_, _, entry, _, hnumber⟩ := exists_entry_of_mem_toppedUpFiles hplan htoppedUp
      simp [hnone] at hnumber
  · intro hnot
    cases hupdate : plan.updateBucket? fileId with
    | none => rfl
    | some number =>
      obtain ⟨owner, hbucket⟩ := (consistent_of_build hplan).bucket_of_update hupdate
      exact absurd (writes_of_bucket? hplan hbucket) (hnot owner)

theorem exists_share {partition : String} (h : 0 < profile.inserts partition) :
    ∃ share, plan.shares.find? partition = some share
      ∧ share.inserts = profile.inserts partition := by
  obtain ⟨middle, -, hassigned⟩ := exists_assignedFrom_of_build hplan h
  exact ⟨_, hassigned.share, rfl⟩

/-- The shares of a plan are those of the partitions with inserts. -/
theorem find?_shares_eq_none_iff {partition : String} :
    plan.shares.find? partition = none ↔ profile.inserts partition = 0 := by
  constructor
  · intro hnone
    by_contra hne
    obtain ⟨share, hshare, -⟩ := exists_share hplan (UInt64.pos_iff_ne_zero.mpr hne)
    simp [hnone] at hshare
  · intro hzero
    cases hshare : plan.shares.find? partition with
    | none => rfl
    | some share =>
      have hpos := inserts_pos_of_find?_shares hplan hshare
      simp [hzero] at hpos

/-- Every place selects a bucket where the partition has inserts. -/
theorem selectBucket?_eq_none_iff {partition : String} {place : Binary64} :
    plan.selectBucket? partition place = none ↔ profile.inserts partition = 0 := by
  constructor
  · intro hnone
    by_contra hne
    obtain ⟨table, htable, hsize⟩ := exists_insertTable? hplan (UInt64.pos_iff_ne_zero.mpr hne)
    obtain ⟨entry, -, hselect⟩ := InsertTable.exists_select hsize place
    simp [selectBucket?, htable, hselect] at hnone
  · intro hzero
    have hshare := (find?_shares_eq_none_iff hplan).mpr hzero
    simp [selectBucket?, Plan.insertTable?, hshare]

theorem partitionInserts_of_build (partition : String) :
    plan.partitionInserts partition = profile.inserts partition := by
  rw [partitionInserts]
  by_cases hzero : profile.inserts partition = 0
  · rw [(find?_shares_eq_none_iff hplan).mpr hzero, hzero]
    rfl
  · obtain ⟨share, hshare, hinserts⟩ := exists_share hplan (UInt64.pos_iff_ne_zero.mpr hzero)
    rw [hshare]
    exact hinserts

end

/-- No partition writes to a file that has no updates anywhere and gets no record where a partition
fills its small files that are not under pending clustering. -/
theorem forall_not_writes_iff {fileId : String} :
    (∀ partition, ¬ Writes sizing profile smallFiles pending average partition fileId)
      ↔ (∀ partition, profile.updates partition fileId = 0)
        ∧ ∀ partition, 0 < profile.inserts partition →
          let files := (smallFiles.findD partition []).filter fun file =>
            !(pending.findD partition .empty).contains file.fileId
          let filled := Greedy.fills (profile.inserts partition).toNat
            (files.map (sizing.fitting average))
          ∀ file records, (file, records) ∈ files.zip filled → file.fileId = fileId →
            records = 0 := by
  constructor
  · intro hnot
    refine ⟨fun partition => ?_, fun partition _ file records hfilled hfile => ?_⟩
    · by_contra hne
      exact hnot partition (Or.inl (UInt64.pos_iff_ne_zero.mpr hne))
    · by_contra hne
      refine hnot partition (Or.inr (List.mem_map.mpr ⟨(file, records), ?_, hfile⟩))
      exact List.mem_filter.mpr ⟨hfilled, decide_eq_true (Nat.pos_of_ne_zero hne)⟩
  · rintro ⟨hupdates, hfilled⟩ partition (hpos | htoppedUp)
    · exact absurd (hupdates partition) (UInt64.pos_iff_ne_zero.mp hpos)
    · have hinserts := inserts_pos_of_mem_toppedUpFiles htoppedUp
      obtain ⟨⟨file, records⟩, htopUp, hfile⟩ := List.mem_map.mp htoppedUp
      obtain ⟨hzip, hpos⟩ := List.mem_filter.mp htopUp
      have hzero := hfilled partition hinserts file records hzip hfile
      simp [hzero] at hpos

/-- The records that a plan does not route, and why. A located record is refused where its file has
no updates in any partition and gets no record from any partition that fills its small files, those
under pending clustering left out; a record without a location, where its partition was counted
without inserts or not at all. The plan keeps the inserts of every partition. -/
theorem route_eq_error_iff (sizing : Sizing) (fresh : ℕ → String) (profile : Profile)
    (smallFiles : SortedMap (List SmallFile)) (pending : SortedMap KeySet) {average : UInt64}
    (haverage : average ≠ 0) :
    ∃ plan, build sizing fresh profile smallFiles pending average = .ok plan
      ∧ (∀ key location error, plan.route key (some location) = .error error
          ↔ error = .unknownUpdateLocation location.fileId
            ∧ (∀ partition, profile.updates partition location.fileId = 0)
            ∧ ∀ partition, 0 < profile.inserts partition →
              let files := (smallFiles.findD partition []).filter fun file =>
                !(pending.findD partition .empty).contains file.fileId
              let filled := Greedy.fills (profile.inserts partition).toNat
                (files.map (sizing.fitting average))
              ∀ file records, (file, records) ∈ files.zip filled →
                file.fileId = location.fileId → records = 0)
      ∧ (∀ key error, plan.route key none = .error error
          ↔ error = .noInsertBuckets key.partition
            ∧ ∀ stat, profile.stat? key.partition = some stat → stat.inserts = 0)
      ∧ ∀ partition, plan.partitionInserts partition = profile.inserts partition := by
  obtain ⟨plan, hplan⟩ := exists_build haverage
  refine ⟨plan, hplan, fun key location error => ?_, fun key error => ?_,
    partitionInserts_of_build hplan⟩
  · rw [route_some_eq_error_iff, updateBucket?_eq_none_iff hplan, forall_not_writes_iff]
  · rw [route_none_eq_error_iff, selectBucket?_eq_none_iff hplan, Profile.inserts_eq_zero_iff]

/-- A batch whose inserts are in one partition, where a file was counted with no update. -/
def zeroCountBatch : Profile := ⟨.insert .empty "p" ⟨12, .insert .empty "z" 0⟩⟩

/-- Small files of the partition; without the first one, the next two have room for all of the
inserts. -/
def fourSmallFiles : SortedMap (List SmallFile) :=
  .insert .empty "p" [⟨⟨"001", "x"⟩, 0⟩, ⟨⟨"001", "f"⟩, 30⟩, ⟨⟨"001", "g"⟩, 0⟩, ⟨⟨"001", "h"⟩, 0⟩]

/-- The first of the small files is under pending clustering. -/
def onePending : SortedMap KeySet := .insert .empty "p" (.add .empty "x")

theorem updates_zeroCountBatch (partition fileId : String) :
    zeroCountBatch.updates partition fileId = 0 := by
  rw [Profile.updates, zeroCountBatch, SortedMap.findD_insert]
  split
  · rw [SortedMap.findD_insert]
    split <;> rfl
  · rfl

theorem fills_fourSmallFiles :
    let files := (fourSmallFiles.findD "p" []).filter fun file =>
      !(onePending.findD "p" .empty).contains file.fileId
    files.zip (Greedy.fills 12 (files.map (Sizing.fitting ⟨100, 10, false⟩ 10)))
      = [(⟨⟨"001", "f"⟩, 30⟩, 7), (⟨⟨"001", "g"⟩, 0⟩, 5), (⟨⟨"001", "h"⟩, 0⟩, 0)] := by
  decide +kernel

theorem eq_of_inserts_zeroCountBatch_pos {partition : String}
    (h : 0 < zeroCountBatch.inserts partition) : partition = "p" := by
  have hinserts : zeroCountBatch.insertPartitions = [("p", 12)] := by decide +kernel
  have hmem := Profile.mem_insertPartitions.mpr ⟨h, rfl⟩
  rw [hinserts, List.mem_singleton] at hmem
  exact (Prod.mk.inj hmem).1

/-- Of four small files the first one is under pending clustering and the last one gets no record,
and both are as unknown as the file that was counted without updates. -/
theorem route_error_of_zero_counts :
    (10 : UInt64) ≠ 0
      ∧ ∃ plan, build ⟨100, 10, false⟩ (fun _ => "new") zeroCountBatch fourSmallFiles onePending 10
          = .ok plan
        ∧ plan.route ⟨"k", "p"⟩ (some ⟨"001", "z"⟩) = .error (.unknownUpdateLocation "z")
        ∧ plan.route ⟨"k", "p"⟩ (some ⟨"001", "x"⟩) = .error (.unknownUpdateLocation "x")
        ∧ plan.route ⟨"k", "p"⟩ (some ⟨"001", "h"⟩) = .error (.unknownUpdateLocation "h")
        ∧ (∀ error, plan.route ⟨"k", "q"⟩ (some ⟨"001", "g"⟩) ≠ .error error)
        ∧ plan.route ⟨"k", "q"⟩ none = .error (.noInsertBuckets "q") := by
  obtain ⟨plan, hplan, hupdate, hinsert, -⟩ := route_eq_error_iff ⟨100, 10, false⟩
    (fun _ => "new") zeroCountBatch fourSmallFiles onePending (show (10 : UInt64) ≠ 0 by decide)
  have hunknown : ∀ fileId, fileId ≠ "f" → fileId ≠ "g" →
      plan.route ⟨"k", "p"⟩ (some ⟨"001", fileId⟩) = .error (.unknownUpdateLocation fileId) := by
    intro fileId hf hg
    refine (hupdate _ _ _).mpr ⟨rfl, fun partition => updates_zeroCountBatch partition _, ?_⟩
    intro partition hpos files filled file records hmem hfile
    obtain rfl := eq_of_inserts_zeroCountBatch_pos hpos
    rw [show files.zip filled = _ from fills_fourSmallFiles] at hmem
    simp only [List.mem_cons, Prod.mk.injEq, List.not_mem_nil, or_false] at hmem
    rcases hmem with ⟨rfl, -⟩ | ⟨rfl, -⟩ | ⟨-, hzero⟩
    · exact absurd hfile.symm hf
    · exact absurd hfile.symm hg
    · exact hzero
  refine ⟨by decide, plan, hplan, hunknown "z" (by decide) (by decide),
    hunknown "x" (by decide) (by decide), hunknown "h" (by decide) (by decide),
    fun error herror => ?_, ?_⟩
  · obtain ⟨-, -, hzero⟩ := (hupdate _ _ _).mp herror
    have hfive := hzero "p" (by decide +kernel) ⟨⟨"001", "g"⟩, 0⟩ 5
      (fills_fourSmallFiles ▸ by simp) rfl
    omega
  · have hnone : zeroCountBatch.stat? "q" = none := by decide +kernel
    refine (hinsert _ _).mpr ⟨rfl, fun stat hstat => ?_⟩
    rw [hnone] at hstat
    cases hstat

end Plan

end Upsert
