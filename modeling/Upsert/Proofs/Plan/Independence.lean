import Upsert.Proofs.Plan.Domain

/-!
# What the split of a partition's inserts depends on

The partitions of a batch share one plan. Which numbers the buckets of a partition have, and whether
a small file finds a bucket or gets a new one, depends on the partitions before it and on all
updates. How the inserts of the partition are split does not: small files are topped up and new
files are filled by the demand of the partition alone, and the bucket of a file that is topped up is
an update bucket of this file in every plan. So two plans in which a partition has the same inserts,
small files and files under pending clustering split its inserts alike, whatever else is in the two
batches.
-/

namespace Upsert

/-- Two buckets are of the same kind: update buckets of the same file, or insert buckets of the same
partition. -/
inductive Bucket.Matches : Bucket → Bucket → Prop
  | update (fileId partition other : String) :
    Matches (.update fileId partition) (.update fileId other)
  | insert (freshId other partition : String) :
    Matches (.insert freshId partition) (.insert other partition)

/-- Allocations of the same records have the same weights and running sums. -/
theorem InsertTable.forall₂_accumulate {related : ℕ → ℕ → Prop}
    {allocations others : List Allocation}
    (h : List.Forall₂ (fun one other => related one.bucket other.bucket
      ∧ one.records = other.records) allocations others) (total sum : Binary64) :
    List.Forall₂ (fun one other => related one.bucket other.bucket
        ∧ one.weight = other.weight ∧ one.cumulative = other.cumulative)
      (accumulate total sum allocations) (accumulate total sum others) := by
  induction h generalizing sum with
  | nil => exact .nil
  | cons hfirst hrest ih =>
    obtain ⟨hbucket, hrecords⟩ := hfirst
    rw [accumulate, accumulate, hrecords]
    exact .cons ⟨hbucket, rfl, rfl⟩ (ih _)

namespace Plan

variable {sizing : Sizing} {fresh fresh' : ℕ → String} {average : UInt64}

/-- The bucket with a number in one plan matches the bucket with a number in another. -/
def SameTarget (plan other : Plan) (number number' : ℕ) : Prop :=
  ∃ bucket bucket', plan.bucket? number = some bucket ∧ other.bucket? number' = some bucket'
    ∧ bucket.Matches bucket'

/-- The tables of a partition in two plans: they have the same weights and running sums, entry by
entry, and matching buckets. A partition without a table in one plan has none in the other. -/
def SplitsAlike (plan other : Plan) (partition : String) : Prop :=
  Option.Rel
    (fun table table' => List.Forall₂
      (fun entry entry' => plan.SameTarget other entry.bucket entry'.bucket
        ∧ entry.weight = entry'.weight ∧ entry.cumulative = entry'.cumulative)
      table.entries.toList table'.entries.toList)
    (plan.insertTable? partition) (other.insertTable? partition)

section

variable {demand : Demand} {middle final middle' final' : Plan}
  (h : AssignedFrom sizing fresh demand middle final)
  (h' : AssignedFrom sizing fresh' demand middle' final')
include h h'

/-- A file that is topped up in two plans has an update bucket in either. -/
theorem AssignedFrom.sameTarget_topUp (hfinal : final.Consistent) (hfinal' : final'.Consistent)
    (haverage : middle'.averageRecordSize = middle.averageRecordSize) {fileId : String}
    (hfile : fileId ∈ demand.toppedUpFiles sizing middle.averageRecordSize) :
    final.SameTarget final' ((middle.toppedUp sizing demand).bucketOf fileId)
      ((middle'.toppedUp sizing demand).bucketOf fileId) := by
  obtain ⟨owner, hbucket⟩ := hfinal.bucket_of_update (h.updateBucket? hfile)
  rw [← haverage] at hfile
  obtain ⟨owner', hbucket'⟩ := hfinal'.bucket_of_update (h'.updateBucket? hfile)
  exact ⟨_, _, hbucket, hbucket', .update fileId owner owner'⟩

/-- The new files of two plans are numbered from different numbers on. -/
theorem AssignedFrom.sameTarget_new
    (haverage : middle'.averageRecordSize = middle.averageRecordSize) {i : ℕ}
    (hi : i < (demand.loads sizing middle.averageRecordSize).length) :
    final.SameTarget final' (middle.firstNew sizing demand + i)
      (middle'.firstNew sizing demand + i) := by
  have hbucket := h.insert_bucket_iff.mpr ⟨i, hi, rfl, rfl⟩
  rw [← haverage] at hi
  have hbucket' := h'.insert_bucket_iff.mpr ⟨i, hi, rfl, rfl⟩
  exact ⟨_, _, hbucket, hbucket', .insert _ _ demand.partition⟩

/-- The same demand is allocated alike in two plans. -/
theorem AssignedFrom.forall₂_allocations (hfinal : final.Consistent) (hfinal' : final'.Consistent)
    (haverage : middle'.averageRecordSize = middle.averageRecordSize) :
    List.Forall₂ (fun one other => final.SameTarget final' one.bucket other.bucket
        ∧ one.records = other.records)
      (middle.shareOf sizing demand).allocations (middle'.shareOf sizing demand).allocations := by
  unfold shareOf
  rw [haverage]
  refine List.rel_append ?_ ?_
  · rw [fileAllocations, fileAllocations, List.forall₂_map_left_iff, List.forall₂_map_right_iff,
      List.forall₂_same]
    intro topUp htopUp
    have hfile := List.mem_map_of_mem (f := (·.1.fileId)) htopUp
    exact ⟨h.sameTarget_topUp h' hfinal hfinal' haverage hfile, rfl⟩
  · rw [newAllocations, newAllocations, List.mapIdx_eq_zipIdx_map, List.mapIdx_eq_zipIdx_map,
      List.forall₂_map_left_iff, List.forall₂_map_right_iff, List.forall₂_same]
    intro load hload
    have hi := List.snd_lt_of_mem_zipIdx hload
    exact ⟨h.sameTarget_new h' haverage hi, rfl⟩

theorem AssignedFrom.splitsAlike (hfinal : final.Consistent) (hfinal' : final'.Consistent)
    (haverage : middle'.averageRecordSize = middle.averageRecordSize) :
    final.SplitsAlike final' demand.partition := by
  rw [SplitsAlike, h.insertTable?, h'.insertTable?]
  exact .some (InsertTable.forall₂_accumulate
    (h.forall₂_allocations h' hfinal hfinal' haverage) _ _)

end

/-- Two plans that are built for the same sizes split the inserts of a partition alike, if the
partition has the same inserts, small files and files under pending clustering in both. The other
partitions, the updates and the fresh ids do not matter. -/
theorem split_depends_on_partition (sizing : Sizing) (fresh fresh' : ℕ → String)
    (profile profile' : Profile) (smallFiles smallFiles' : SortedMap (List SmallFile))
    (pending pending' : SortedMap KeySet) {average : UInt64} (haverage : average ≠ 0)
    {partition : String} (hinserts : profile.inserts partition = profile'.inserts partition)
    (hfiles : smallFiles.findD partition [] = smallFiles'.findD partition [])
    (hpending : pending.findD partition .empty = pending'.findD partition .empty) :
    ∃ plan other, build sizing fresh profile smallFiles pending average = .ok plan
      ∧ build sizing fresh' profile' smallFiles' pending' average = .ok other
      ∧ plan.SplitsAlike other partition
      ∧ (0 < profile.inserts partition →
          ∃ table, plan.insertTable? partition = some table ∧ 0 < table.size) := by
  obtain ⟨plan, hplan⟩ := exists_build haverage
  obtain ⟨other, hother⟩ := exists_build haverage
  refine ⟨plan, other, hplan, hother, ?_, exists_insertTable? hplan⟩
  by_cases hzero : profile.inserts partition = 0
  · -- neither plan has a table
    rw [SplitsAlike, insertTable?, insertTable?, (find?_shares_eq_none_iff hplan).mpr hzero,
      (find?_shares_eq_none_iff hother).mpr (hinserts.symm.trans hzero)]
    exact .none
  · have hpos := UInt64.pos_iff_ne_zero.mpr hzero
    obtain ⟨middle, hmiddle, h⟩ := exists_assignedFrom_of_build hplan hpos
    obtain ⟨middle', hmiddle', h'⟩ := exists_assignedFrom_of_build hother (hinserts ▸ hpos)
    have hdemand : profile'.demand smallFiles' pending' partition
        = profile.demand smallFiles pending partition := by
      rw [Profile.demand, Profile.demand, SmallFile.notPending, SmallFile.notPending, hinserts,
        hfiles, hpending]
    rw [hdemand] at h'
    exact h.splitsAlike h' (consistent_of_build hplan) (consistent_of_build hother)
      (hmiddle'.trans hmiddle.symm)

/-- The inserts of `p` top up the file `f`, and are split alike where `f` has its bucket from
`a`. -/
theorem split_depends_on_partition_of_shared_file :
    (10 : UInt64) ≠ 0
      ∧ ∃ plan other,
        build ⟨100, 5, false⟩ (fun _ => "new") ⟨.insert .empty "p" ⟨12, .empty⟩⟩
            (.insert .empty "p" [⟨⟨"001", "f"⟩, 70⟩]) .empty 10 = .ok plan
        ∧ build ⟨100, 5, false⟩ (fun i => if i = 0 then "x" else "y")
            ⟨.insert (.insert .empty "a" ⟨7, .insert .empty "u" 1⟩) "p" ⟨12, .empty⟩⟩
            (.insert (.insert .empty "a" [⟨⟨"001", "f"⟩, 50⟩]) "p" [⟨⟨"001", "f"⟩, 70⟩])
            (.insert .empty "a" (.ofList ["g"])) 10 = .ok other
        ∧ plan.bucket? 0 = some (.update "f" "p") ∧ other.bucket? 1 = some (.update "f" "a")
        ∧ plan.SplitsAlike other "p"
        ∧ ∃ table, plan.insertTable? "p" = some table ∧ 0 < table.size := by
  obtain ⟨plan, other, hplan, hother, halike, htable⟩ :=
    split_depends_on_partition ⟨100, 5, false⟩ (fun _ => "new")
      (fun i => if i = 0 then "x" else "y") ⟨.insert .empty "p" ⟨12, .empty⟩⟩
      ⟨.insert (.insert .empty "a" ⟨7, .insert .empty "u" 1⟩) "p" ⟨12, .empty⟩⟩
      (.insert .empty "p" [⟨⟨"001", "f"⟩, 70⟩])
      (.insert (.insert .empty "a" [⟨⟨"001", "f"⟩, 50⟩]) "p" [⟨⟨"001", "f"⟩, 70⟩])
      .empty (.insert .empty "a" (.ofList ["g"])) (show (10 : UInt64) ≠ 0 by decide)
      (show Profile.inserts _ "p" = Profile.inserts _ "p" by decide +kernel)
      (by decide +kernel) (by decide +kernel)
  have hbucket : plan.bucket? 0 = some (.update "f" "p") := by
    rw [eq_built_of_build hplan]
    decide +kernel
  have hbucket' : other.bucket? 1 = some (.update "f" "a") := by
    rw [eq_built_of_build hother]
    decide +kernel
  exact ⟨by decide, plan, other, hplan, hother, hbucket, hbucket', halike,
    htable (by decide +kernel)⟩

end Plan

end Upsert
