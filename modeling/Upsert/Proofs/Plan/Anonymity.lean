import Upsert.Plan.Route
import Upsert.Proofs.Plan.Building

/-!
# Fresh ids do not matter

The fresh ids of insert buckets are drawn at random, and may even coincide with each other or with
the ids of existing files. `Plan.anonymous` blanks them out. Every step by which a plan grows
commutes with it, so the blanked plan of a batch is the plan built with blank fresh ids, whichever
ids were drawn (`anonymous_built`). All that routing looks at survives the blanking, so two plans
that are equal up to fresh ids route alike (`Interchangeable`).
-/

namespace Upsert

/-- The bucket without its fresh id, where it has one. -/
def Bucket.anonymous : Bucket → Bucket
  | .update fileId partition => .update fileId partition
  | .insert _ partition => .insert "" partition

namespace Plan

/-- The plan without fresh ids. -/
def anonymous (plan : Plan) : Plan :=
  { plan with buckets := plan.buckets.map Bucket.anonymous }

/-- Two plans differ in the fresh ids of their insert buckets only, and route all records alike. -/
structure Interchangeable (plan other : Plan) : Prop where
  numBuckets : plan.numBuckets = other.numBuckets
  bucket : ∀ number,
    (plan.bucket? number).map Bucket.anonymous = (other.bucket? number).map Bucket.anonymous
  updateBucket : ∀ fileId, plan.updateBucket? fileId = other.updateBucket? fileId
  insertTable : ∀ partition, plan.insertTable? partition = other.insertTable? partition
  partitionInserts : ∀ partition, plan.partitionInserts partition = other.partitionInserts partition
  smallFiles : plan.smallFiles = other.smallFiles
  route : ∀ key location, plan.route key location = other.route key location

variable {sizing : Sizing} {fresh : ℕ → String}

/-! ## Growing without fresh ids -/

/-- The generator of blank ids. -/
def blank : ℕ → String := fun _ => ""

@[simp] theorem numBuckets_anonymous (plan : Plan) :
    plan.anonymous.numBuckets = plan.numBuckets :=
  Array.size_map ..

theorem anonymous_openUpdate (plan : Plan) (partition fileId : String) :
    (plan.openUpdate partition fileId).anonymous = plan.anonymous.openUpdate partition fileId := by
  simp [anonymous, openUpdate, Bucket.anonymous]

theorem anonymous_openInsert (fresh : ℕ → String) (plan : Plan) (partition : String) :
    (plan.openInsert fresh partition).anonymous = plan.anonymous.openInsert blank partition := by
  simp [anonymous, openInsert, Bucket.anonymous, blank]

theorem anonymous_updateBucketFor (plan : Plan) (partition fileId : String) :
    (plan.updateBucketFor partition fileId).2.anonymous
      = (plan.anonymous.updateBucketFor partition fileId).2 := by
  have hupdate : plan.anonymous.updateBucket? fileId = plan.updateBucket? fileId := rfl
  unfold updateBucketFor
  rw [hupdate]
  split
  · rfl
  · exact anonymous_openUpdate plan partition fileId

theorem anonymous_ensureUpdates (plan : Plan) (partition : String) (fileIds : List String) :
    (plan.ensureUpdates partition fileIds).anonymous
      = plan.anonymous.ensureUpdates partition fileIds := by
  induction fileIds generalizing plan with
  | nil => rfl
  | cons fileId fileIds ih =>
    rw [ensureUpdates_cons, ih, anonymous_updateBucketFor, ensureUpdates_cons]

theorem anonymous_openNew (fresh : ℕ → String) (partition : String) (count : ℕ) (plan : Plan) :
    (plan.openNew fresh partition count).anonymous
      = plan.anonymous.openNew blank partition count := by
  induction count generalizing plan with
  | zero => rfl
  | succ count ih => rw [openNew, ih, anonymous_openInsert, openNew]

theorem toppedUp_anonymous (sizing : Sizing) (plan : Plan) (demand : Demand) :
    plan.anonymous.toppedUp sizing demand = (plan.toppedUp sizing demand).anonymous :=
  (anonymous_ensureUpdates plan _ _).symm

/-- What is allocated to which number does not depend on fresh ids. -/
theorem shareOf_anonymous (plan : Plan) (demand : Demand) :
    plan.anonymous.shareOf sizing demand = plan.shareOf sizing demand := by
  have htoppedUp := toppedUp_anonymous sizing plan demand
  unfold shareOf
  simp only [htoppedUp, numBuckets_anonymous]
  rfl

theorem anonymous_assigned (plan : Plan) (demand : Demand) :
    (plan.assigned sizing fresh demand).anonymous
      = plan.anonymous.assigned sizing blank demand := by
  have hopened := anonymous_openNew fresh demand.partition
    (demand.loads sizing plan.averageRecordSize).length (plan.toppedUp sizing demand)
  unfold assigned
  rw [shareOf_anonymous, toppedUp_anonymous]
  show record (anonymous _) _ _ _ = record (openNew blank _ _ _) _ _ _
  rw [hopened]
  rfl

theorem anonymous_assignedAll (plan : Plan) (demands : List Demand) :
    (plan.assignedAll sizing fresh demands).anonymous
      = plan.anonymous.assignedAll sizing blank demands := by
  induction demands generalizing plan with
  | nil => rfl
  | cons demand demands ih =>
    have hrest := ih (plan.assigned sizing fresh demand)
    rw [anonymous_assigned] at hrest
    exact hrest

/-- The plan of a batch, without its fresh ids, does not depend on them. -/
theorem anonymous_built (sizing : Sizing) (fresh : ℕ → String) (profile : Profile)
    (smallFiles : SortedMap (List SmallFile)) (pending : SortedMap KeySet) (average : UInt64) :
    (built sizing fresh profile smallFiles pending average).anonymous
      = ((empty average).assignUpdates profile).anonymous.assignedAll sizing blank
          (profile.demands smallFiles pending) :=
  anonymous_assignedAll _ _

/-! ## Routing without fresh ids -/

theorem Interchangeable.of_anonymous {plan other : Plan}
    (h : plan.anonymous = other.anonymous) : plan.Interchangeable other := by
  have hupdates : plan.anonymous.updateBuckets = other.anonymous.updateBuckets := by rw [h]
  have hshares : plan.anonymous.shares = other.anonymous.shares := by rw [h]
  have hfiles : plan.anonymous.smallFiles = other.anonymous.smallFiles := by rw [h]
  simp only [anonymous] at hupdates hshares hfiles
  have hbucket : ∀ number,
      (plan.bucket? number).map Bucket.anonymous = (other.bucket? number).map Bucket.anonymous := by
    intro number
    have hnumber := congrArg (·.bucket? number) h
    simpa [bucket?, anonymous] using hnumber
  have htable : ∀ partition, plan.insertTable? partition = other.insertTable? partition := by
    intro partition
    rw [insertTable?, insertTable?, hshares]
  have hinserts : ∀ partition,
      plan.partitionInserts partition = other.partitionInserts partition := by
    intro partition
    rw [Plan.partitionInserts, Plan.partitionInserts, hshares]
  have hupdate : ∀ fileId, plan.updateBucket? fileId = other.updateBucket? fileId := by
    intro fileId
    rw [updateBucket?, updateBucket?, hupdates]
  exact {
    numBuckets := by simpa using congrArg Plan.numBuckets h
    bucket := hbucket
    updateBucket := hupdate
    insertTable := htable
    partitionInserts := hinserts
    smallFiles := hfiles
    route key location := by
      unfold Plan.route selectBucket?
      simp only [hupdate, htable, hinserts] }

/-- The plans of a batch with two generators of fresh ids are interchangeable. -/
theorem interchangeable_built (sizing : Sizing) (fresh fresh' : ℕ → String) (profile : Profile)
    (smallFiles : SortedMap (List SmallFile)) (pending : SortedMap KeySet) (average : UInt64) :
    (built sizing fresh profile smallFiles pending average).Interchangeable
      (built sizing fresh' profile smallFiles pending average) :=
  .of_anonymous (by rw [anonymous_built, anonymous_built])

end Plan

end Upsert
