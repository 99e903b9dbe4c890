import Upsert.Proofs.Plan.Coverage

/-!
# Which update bucket a file is sent to

A plan keeps its buckets in a list and, beside the list, the update bucket of each file. The two
agree: the update bucket of a file is the last bucket of the list that was opened for it, and a file
has none exactly where the list has none. Insert buckets do not count, whatever their fresh ids.

A file that has updates in two partitions has an update bucket in each, but no partition has two for
it: the updates open one bucket for each of their files, and topping up opens one only where the
file has none.
-/

namespace Upsert.Plan

variable {sizing : Sizing} {fresh : ℕ → String} {profile : Profile}
  {smallFiles : SortedMap (List SmallFile)} {pending : SortedMap KeySet} {average : UInt64}
  {plan : Plan}

/-- The numbers of the update buckets of a file. -/
def updateBucketsOf (plan : Plan) (fileId : String) : Set ℕ :=
  {number | ∃ partition, plan.bucket? number = some (.update fileId partition)}

/-- The update bucket of a file is the last one that was opened for it. -/
theorem Consistent.updateBucket?_eq_some_iff (h : plan.Consistent) {fileId : String}
    {number : ℕ} :
    plan.updateBucket? fileId = some number ↔ IsGreatest (plan.updateBucketsOf fileId) number := by
  have hgreatest : ∀ {last}, plan.updateBucket? fileId = some last →
      IsGreatest (plan.updateBucketsOf fileId) last := by
    intro last hlast
    refine ⟨h.bucket_of_update hlast, fun other hother => ?_⟩
    obtain ⟨partition, hbucket⟩ := hother
    obtain ⟨last', hlast', hle⟩ := h.update_of_bucket hbucket
    rw [hlast, Option.some.injEq] at hlast'
    exact hlast' ▸ hle
  refine ⟨hgreatest, fun hnumber => ?_⟩
  obtain ⟨partition, hbucket⟩ := hnumber.1
  obtain ⟨last, hlast, -⟩ := h.update_of_bucket hbucket
  rw [hlast, (hgreatest hlast).unique hnumber]

/-- A file without update bucket is one that none was opened for. -/
theorem Consistent.updateBucket?_eq_none_iff (h : plan.Consistent) {fileId : String} :
    plan.updateBucket? fileId = none ↔ plan.updateBucketsOf fileId = ∅ := by
  constructor
  · intro hnone
    refine Set.eq_empty_iff_forall_notMem.mpr fun number hnumber => ?_
    obtain ⟨partition, hbucket⟩ := hnumber
    obtain ⟨last, hlast, -⟩ := h.update_of_bucket hbucket
    simp [hnone] at hlast
  · intro hempty
    refine Option.eq_none_iff_forall_ne_some.mpr fun number hnumber => ?_
    have hmem := (h.updateBucket?_eq_some_iff.mp hnumber).1
    simp [hempty] at hmem

section

variable (hplan : build sizing fresh profile smallFiles pending average = .ok plan)
include hplan

/-- A file with updates sends nothing to a bucket that was opened after the updates. -/
theorem bucket?_assignUpdates_of_updateBucket? {number other : ℕ}
    {fileId partition owner : String}
    (h : ((empty average).assignUpdates profile).bucket? number = some (.update fileId owner))
    (hupdate : plan.updateBucket? fileId = some other)
    (hbucket : plan.bucket? other = some (.update fileId partition)) :
    ((empty average).assignUpdates profile).bucket? other = some (.update fileId partition) := by
  have hconsistent := consistent_assignUpdates average profile
  have hgrows := extends_of_build hplan
  -- the file had an update bucket when the updates were done, and it keeps that one
  obtain ⟨last, hlast, -⟩ := hconsistent.update_of_bucket h
  obtain ⟨lastOwner, hlastBucket⟩ := hconsistent.bucket_of_update hlast
  have hsame := hgrows.update hlast
  rw [hupdate, Option.some.injEq] at hsame
  subst hsame
  have hgrown := hgrows.bucket hlastBucket
  rw [hbucket, Option.some.injEq] at hgrown
  rw [hlastBucket, hgrown]

/-- A partition has one update bucket for a file at most. -/
theorem eq_of_bucket?_update {number other : ℕ} {fileId partition : String}
    (h : plan.bucket? number = some (.update fileId partition))
    (h' : plan.bucket? other = some (.update fileId partition)) : number = other := by
  have hcurrent : ((empty average).assignUpdates profile).CurrentSince plan :=
    currentSince_of_build hplan
  rcases hcurrent h with hold | hupdate
  · rcases hcurrent h' with hold' | hupdate'
    · exact eq_of_bucket?_assignUpdates hold hold'
    · exact eq_of_bucket?_assignUpdates hold
        (bucket?_assignUpdates_of_updateBucket? hplan hold hupdate' h')
  · rcases hcurrent h' with hold' | hupdate'
    · exact eq_of_bucket?_assignUpdates
        (bucket?_assignUpdates_of_updateBucket? hplan hold' hupdate h) hold'
    · exact Option.some.inj (hupdate.symm.trans hupdate')

end

/-- The update bucket that a plan knows for a file is the last of the update buckets of the file,
and it knows none exactly where there are none. It is never an insert bucket, not even one whose
fresh id is the file. No two update buckets belong to the same file and partition. -/
theorem update_lookup (sizing : Sizing) (fresh : ℕ → String) (profile : Profile)
    (smallFiles : SortedMap (List SmallFile)) (pending : SortedMap KeySet) {average : UInt64}
    (haverage : average ≠ 0) :
    ∃ plan, build sizing fresh profile smallFiles pending average = .ok plan
      ∧ (∀ fileId number, plan.updateBucket? fileId = some number
        ↔ IsGreatest (plan.updateBucketsOf fileId) number)
      ∧ (∀ fileId, plan.updateBucket? fileId = none ↔ plan.updateBucketsOf fileId = ∅)
      ∧ (∀ fileId number freshId partition,
          plan.bucket? number = some (.insert freshId partition) →
          plan.updateBucket? fileId ≠ some number)
      ∧ ∀ number other fileId partition,
          plan.bucket? number = some (.update fileId partition) →
          plan.bucket? other = some (.update fileId partition) → number = other := by
  obtain ⟨plan, hplan⟩ := exists_build haverage
  have hconsistent := consistent_of_build hplan
  refine ⟨plan, hplan, fun _ _ => hconsistent.updateBucket?_eq_some_iff,
    fun _ => hconsistent.updateBucket?_eq_none_iff, ?_, fun _ _ _ _ => eq_of_bucket?_update hplan⟩
  intro fileId number freshId partition hinsert hupdate
  obtain ⟨owner, hbucket⟩ := hconsistent.bucket_of_update hupdate
  rw [hinsert] at hbucket
  cases hbucket

/-- The file `f` has updates in two partitions, the first of which also tops it up and opens a new
file whose fresh id is `f` again. -/
theorem update_lookup_of_file_in_two_partitions :
    (10 : UInt64) ≠ 0
      ∧ ∃ plan, build ⟨100, 10, false⟩ (fun _ => "f")
          ⟨.insert (.insert .empty "p" ⟨12, .insert .empty "f" 1⟩) "q" ⟨0, .insert .empty "f" 1⟩⟩
          (.insert .empty "p" [⟨⟨"001", "f"⟩, 70⟩]) .empty 10 = .ok plan
        ∧ plan.bucket? 2 = some (.insert "f" "p") ∧ plan.updateBucket? "f" ≠ some 2
        ∧ plan.updateBucket? "f" = some 1 ∧ plan.updateBucket? "g" = none := by
  obtain ⟨plan, hplan, hsome, hnone, hinsert, -⟩ := update_lookup ⟨100, 10, false⟩ (fun _ => "f")
    ⟨.insert (.insert .empty "p" ⟨12, .insert .empty "f" 1⟩) "q" ⟨0, .insert .empty "f" 1⟩⟩
    (.insert .empty "p" [⟨⟨"001", "f"⟩, 70⟩]) .empty (show (10 : UInt64) ≠ 0 by decide)
  have hbuckets : plan.buckets.toList
      = [.update "f" "p", .update "f" "q", .insert "f" "p"] := by
    rw [eq_built_of_build hplan]
    decide +kernel
  have hbucket : ∀ number, plan.bucket? number
      = [Bucket.update "f" "p", .update "f" "q", .insert "f" "p"][number]? := by
    intro number
    rw [← hbuckets, Array.getElem?_toList]
    rfl
  have hthird := hbucket 2
  refine ⟨by decide, plan, hplan, hthird, hinsert "f" 2 "f" "p" hthird, ?_, ?_⟩
  · refine (hsome "f" 1).mpr ⟨⟨"q", hbucket 1⟩, fun number ⟨partition, hupdate⟩ => ?_⟩
    rw [hbucket] at hupdate
    rcases number with _ | _ | _ | number <;> simp at hupdate ⊢
  · rw [hnone, Set.eq_empty_iff_forall_notMem]
    rintro number ⟨partition, hupdate⟩
    rw [hbucket] at hupdate
    rcases number with _ | _ | _ | number <;> simp at hupdate

end Upsert.Plan
