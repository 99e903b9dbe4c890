import Mathlib
import Upsert.Plan.Basic

/-! # How plans grow

While the inserts of a batch are assigned, a plan only grows: buckets keep their numbers, and a file
with an update bucket keeps that one (`Extends`). What a plan knows about update buckets is right at
all times (`Consistent`): the bucket of a file is the last update bucket that was opened for it.

Two ways of growing are all that assigning inserts needs: `ensureUpdates` gives every file of a list
an update bucket, and `openNew` opens a number of insert buckets.
-/

namespace Upsert.Plan

/-! ## Later plans -/

/-- `after` has all buckets of `before`, and every file that has an update bucket keeps it. -/
structure Extends (before after : Plan) : Prop where
  bucket : ∀ {number bucket}, before.bucket? number = some bucket →
    after.bucket? number = some bucket
  update : ∀ {fileId number}, before.updateBucket? fileId = some number →
    after.updateBucket? fileId = some number
  numBuckets : before.numBuckets ≤ after.numBuckets
  averageRecordSize : after.averageRecordSize = before.averageRecordSize

theorem Extends.refl (plan : Plan) : plan.Extends plan := ⟨id, id, le_rfl, rfl⟩

theorem Extends.trans {first second third : Plan} (h : first.Extends second)
    (h' : second.Extends third) : first.Extends third where
  bucket hbucket := h'.bucket (h.bucket hbucket)
  update hupdate := h'.update (h.update hupdate)
  numBuckets := h.numBuckets.trans h'.numBuckets
  averageRecordSize := h'.averageRecordSize.trans h.averageRecordSize

theorem bucket?_eq_none {plan : Plan} {number : ℕ} (h : plan.numBuckets ≤ number) :
    plan.bucket? number = none :=
  Array.getElem?_eq_none h

theorem lt_numBuckets {plan : Plan} {number : ℕ} {bucket : Bucket}
    (h : plan.bucket? number = some bucket) : number < plan.numBuckets := by
  by_contra hle
  simp [bucket?_eq_none (Nat.le_of_not_lt hle)] at h

/-- A bucket keeps its number when another one is opened. -/
theorem ne_numBuckets {plan : Plan} {number : ℕ} {bucket : Bucket}
    (h : plan.bucket? number = some bucket) : number ≠ plan.numBuckets :=
  (lt_numBuckets h).ne

theorem extends_openInsert (fresh : ℕ → String) (plan : Plan) (partition : String) :
    plan.Extends (plan.openInsert fresh partition) where
  bucket h := by rw [bucket?_openInsert, if_neg (ne_numBuckets h), h]
  update h := h
  numBuckets := by
    rw [numBuckets_openInsert]
    exact Nat.le_succ _
  averageRecordSize := rfl

theorem extends_updateBucketFor (plan : Plan) (partition fileId : String) :
    plan.Extends (plan.updateBucketFor partition fileId).2 := by
  unfold updateBucketFor
  split
  · exact Extends.refl plan
  · rename_i hnone
    exact {
      bucket h := by rw [bucket?_openUpdate, if_neg (ne_numBuckets h), h]
      update {other number} h := by
        have hne : other ≠ fileId := by
          rintro rfl
          simp [hnone] at h
        rw [updateBucket?_openUpdate, if_neg hne, h]
      numBuckets := by
        rw [numBuckets_openUpdate]
        exact Nat.le_succ _
      averageRecordSize := rfl }

/-! ## What a plan knows about update buckets -/

/-- The update bucket of a file is the last one that was opened for it. -/
structure Consistent (plan : Plan) : Prop where
  bucket_of_update : ∀ {fileId number}, plan.updateBucket? fileId = some number →
    ∃ partition, plan.bucket? number = some (.update fileId partition)
  update_of_bucket : ∀ {number fileId partition},
    plan.bucket? number = some (.update fileId partition) →
    ∃ last, plan.updateBucket? fileId = some last ∧ number ≤ last

theorem consistent_empty (average : UInt64) : (empty average).Consistent where
  bucket_of_update h := by cases h
  update_of_bucket h := by cases lt_numBuckets h

theorem Consistent.openUpdate {plan : Plan} (h : plan.Consistent) (partition fileId : String) :
    (plan.openUpdate partition fileId).Consistent where
  bucket_of_update {other number} hupdate := by
    rw [updateBucket?_openUpdate] at hupdate
    split at hupdate
    · -- the file has the new bucket
      rename_i heq
      cases hupdate
      exact ⟨partition, by rw [bucket?_openUpdate, if_pos rfl, heq]⟩
    · obtain ⟨partition, hbucket⟩ := h.bucket_of_update hupdate
      exact ⟨partition, by rw [bucket?_openUpdate, if_neg (ne_numBuckets hbucket), hbucket]⟩
  update_of_bucket {number other owner} hbucket := by
    rw [bucket?_openUpdate] at hbucket
    rw [updateBucket?_openUpdate]
    split at hbucket
    · cases hbucket
      exact ⟨number, by rw [if_pos rfl]; congr 1; omega, le_rfl⟩
    · -- an older bucket of the same file gives way to the new one
      by_cases heq : other = fileId
      · exact ⟨plan.numBuckets, if_pos heq, (lt_numBuckets hbucket).le⟩
      · rw [if_neg heq]
        exact h.update_of_bucket hbucket

theorem Consistent.openInsert {plan : Plan} (h : plan.Consistent) (fresh : ℕ → String)
    (partition : String) : (plan.openInsert fresh partition).Consistent where
  bucket_of_update hupdate := by
    obtain ⟨owner, hbucket⟩ := h.bucket_of_update hupdate
    exact ⟨owner, (extends_openInsert fresh plan partition).bucket hbucket⟩
  update_of_bucket hbucket := by
    rw [bucket?_openInsert] at hbucket
    split at hbucket
    · cases hbucket
    · exact h.update_of_bucket hbucket

theorem Consistent.updateBucketFor {plan : Plan} (h : plan.Consistent)
    (partition fileId : String) : (plan.updateBucketFor partition fileId).2.Consistent := by
  unfold Plan.updateBucketFor
  split
  · exact h
  · exact h.openUpdate partition fileId

/-! ## Growing by several buckets -/

/-- The plan in which every file of a list has an update bucket. -/
def ensureUpdates (plan : Plan) (partition : String) (fileIds : List String) : Plan :=
  fileIds.foldl (fun plan fileId => (plan.updateBucketFor partition fileId).2) plan

/-- The plan with a number of new insert buckets. -/
def openNew (fresh : ℕ → String) (partition : String) : ℕ → Plan → Plan
  | 0, plan => plan
  | count + 1, plan => openNew fresh partition count (plan.openInsert fresh partition)

/-- Opening a bucket, where it is needed, keeps a property of plans. -/
structure KeptByOpening (fresh : ℕ → String) (property : Plan → Prop) : Prop where
  updateBucketFor : ∀ {plan}, property plan → ∀ partition fileId,
    property (plan.updateBucketFor partition fileId).2
  openInsert : ∀ {plan}, property plan → ∀ partition,
    property (plan.openInsert fresh partition)

namespace KeptByOpening

variable {fresh : ℕ → String} {property : Plan → Prop} {plan : Plan}

theorem ensureUpdates (h : KeptByOpening fresh property) (hplan : property plan)
    (partition : String) (fileIds : List String) :
    property (plan.ensureUpdates partition fileIds) := by
  induction fileIds generalizing plan with
  | nil => exact hplan
  | cons fileId fileIds ih => exact ih (h.updateBucketFor hplan partition fileId)

theorem openNew (h : KeptByOpening fresh property) (hplan : property plan) (partition : String)
    (count : ℕ) : property (plan.openNew fresh partition count) := by
  induction count generalizing plan with
  | zero => exact hplan
  | succ count ih => exact ih (h.openInsert hplan partition)

end KeptByOpening

theorem keptByOpening_extends (fresh : ℕ → String) (plan : Plan) :
    KeptByOpening fresh plan.Extends where
  updateBucketFor h partition fileId := h.trans (extends_updateBucketFor _ partition fileId)
  openInsert h partition := h.trans (extends_openInsert fresh _ partition)

theorem keptByOpening_consistent (fresh : ℕ → String) : KeptByOpening fresh Consistent where
  updateBucketFor h := h.updateBucketFor
  openInsert h := h.openInsert fresh

/-- What opening a bucket leaves alone keeps its value. -/
theorem keptByOpening_eq (fresh : ℕ → String) {α : Type} (part : Plan → α)
    (hupdate : ∀ plan partition fileId, part (plan.openUpdate partition fileId) = part plan)
    (hinsert : ∀ plan partition, part (plan.openInsert fresh partition) = part plan) (value : α) :
    KeptByOpening fresh fun plan => part plan = value where
  updateBucketFor {plan} h partition fileId := by
    unfold updateBucketFor
    split
    · exact h
    · exact (hupdate plan partition fileId).trans h
  openInsert h partition := (hinsert _ partition).trans h

theorem extends_ensureUpdates (plan : Plan) (partition : String) (fileIds : List String) :
    plan.Extends (plan.ensureUpdates partition fileIds) :=
  -- no insert bucket is opened, so any fresh ids will do
  (keptByOpening_extends (fun _ => "") plan).ensureUpdates (Extends.refl plan) partition fileIds

theorem ensureUpdates_cons (plan : Plan) (partition fileId : String) (fileIds : List String) :
    plan.ensureUpdates partition (fileId :: fileIds)
      = (plan.updateBucketFor partition fileId).2.ensureUpdates partition fileIds := rfl

theorem exists_updateBucket?_ensureUpdates (plan : Plan) (partition : String)
    {fileId : String} {fileIds : List String} (h : fileId ∈ fileIds) :
    ∃ number, (plan.ensureUpdates partition fileIds).updateBucket? fileId = some number := by
  induction fileIds generalizing plan with
  | nil => cases h
  | cons first rest ih =>
    rcases List.mem_cons.mp h with rfl | h
    · have hfirst := updateBucket?_updateBucketFor plan partition fileId
      exact ⟨_, (extends_ensureUpdates _ partition rest).update hfirst⟩
    · exact ih _ h

/-- The buckets that are opened on the way are update buckets of the files. -/
theorem bucket?_ensureUpdates {plan : Plan} {partition : String} {fileIds : List String}
    {number : ℕ} {bucket : Bucket}
    (h : (plan.ensureUpdates partition fileIds).bucket? number = some bucket) :
    plan.bucket? number = some bucket ∨ ∃ fileId ∈ fileIds, bucket = .update fileId partition := by
  induction fileIds generalizing plan with
  | nil => exact Or.inl h
  | cons fileId fileIds ih =>
    rw [ensureUpdates_cons] at h
    rcases ih h with h | ⟨other, hother, heq⟩
    · -- the bucket was there when the first file had one
      unfold updateBucketFor at h
      split at h
      · exact Or.inl h
      · rw [bucket?_openUpdate] at h
        split at h
        · cases h
          exact Or.inr ⟨fileId, List.mem_cons_self, rfl⟩
        · exact Or.inl h
    · exact Or.inr ⟨other, List.mem_cons_of_mem _ hother, heq⟩

/-- The new buckets follow the old ones and have the next fresh ids. -/
theorem bucket?_openNew (fresh : ℕ → String) (partition : String) (count : ℕ) (plan : Plan)
    (number : ℕ) :
    (plan.openNew fresh partition count).bucket? number
      = if plan.numBuckets ≤ number ∧ number < plan.numBuckets + count then
          some (.insert (fresh (plan.freshIds + (number - plan.numBuckets))) partition)
        else plan.bucket? number := by
  induction count generalizing plan with
  | zero => rw [if_neg (by omega)]; rfl
  | succ count ih =>
    have hids : (plan.openInsert fresh partition).freshIds = plan.freshIds + 1 := rfl
    rw [openNew, ih, numBuckets_openInsert, bucket?_openInsert, hids]
    -- an old bucket, the first new one, or one of the others
    rcases lt_trichotomy number plan.numBuckets with hlt | rfl | hgt
    · rw [if_neg (by omega), if_neg (by omega), if_neg (by omega)]
    · rw [if_neg (by omega), if_pos rfl, if_pos (by omega), Nat.sub_self, Nat.add_zero]
    · by_cases hlast : number < plan.numBuckets + (count + 1)
      · rw [if_pos (by omega), if_pos (by omega)]
        congr 3
        omega
      · rw [if_neg (by omega), if_neg (by omega), if_neg (by omega)]

theorem updateBucket?_openNew (fresh : ℕ → String) (partition : String) (count : ℕ) (plan : Plan)
    (fileId : String) :
    (plan.openNew fresh partition count).updateBucket? fileId = plan.updateBucket? fileId := by
  induction count generalizing plan with
  | zero => rfl
  | succ count ih => rw [openNew, ih, updateBucket?_openInsert]

end Upsert.Plan
