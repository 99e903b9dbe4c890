import Upsert.Proofs.Plan.Building
import Upsert.Proofs.Profile.Counting

/-!
# The order in which buckets are numbered

A plan numbers its buckets in the order in which it opens them. `numbering` writes that order down
without a plan:

* the update buckets of the batch, partitions and files ascending;
* for every partition with inserts, ascending, an update bucket for each small file that is not
  under pending clustering, gets records and is not yet the file of an earlier update bucket, in the
  order of the listing;
* after these, the insert buckets of the partition.

The insert buckets, read in this order, have the fresh ids in the order in which they are drawn, so
the fresh id of an insert bucket is settled by the number of insert buckets before it (`Named`).
-/

namespace Upsert

/-! ## Buckets in a list -/

namespace Bucket

/-- The bucket is an update bucket of the file. -/
def isUpdateOf (fileId : String) : Bucket → Bool
  | .update other _ => other == fileId
  | .insert .. => false

/-- The fresh id of an insert bucket. -/
def freshId? : Bucket → Option String
  | .update .. => none
  | .insert freshId _ => some freshId

/-- The fresh ids of the insert buckets of a list, in order. -/
def freshIds (buckets : List Bucket) : List String := buckets.filterMap freshId?

theorem isUpdateOf_iff {fileId : String} {bucket : Bucket} :
    bucket.isUpdateOf fileId = true ↔ ∃ partition, bucket = .update fileId partition := by
  cases bucket <;> simp [isUpdateOf]

@[simp] theorem freshIds_append (buckets others : List Bucket) :
    freshIds (buckets ++ others) = freshIds buckets ++ freshIds others :=
  List.filterMap_append

@[simp] theorem freshIds_update (fileId partition : String) :
    freshIds [.update fileId partition] = [] := rfl

@[simp] theorem freshIds_insert (freshId partition : String) :
    freshIds [.insert freshId partition] = [freshId] := rfl

end Bucket

/-! ## The order, without a plan -/

/-- The update buckets that a partition opens for files, in order, after the buckets `earlier`: one
for each file that is not yet the file of an earlier update bucket. -/
def newUpdates (partition : String) (earlier : List Bucket) : List String → List Bucket
  | [] => []
  | fileId :: fileIds =>
    if earlier.any (·.isUpdateOf fileId) then newUpdates partition earlier fileIds
    else
      .update fileId partition
        :: newUpdates partition (earlier ++ [.update fileId partition]) fileIds

/-- Insert buckets of a partition, `first` insert buckets having been opened before. -/
def newInserts (fresh : ℕ → String) (partition : String) (first count : ℕ) : List Bucket :=
  (List.range count).map fun i => .insert (fresh (first + i)) partition

/-- The buckets that a partition with inserts adds to the buckets `earlier`. -/
def Demand.newBuckets (sizing : Sizing) (fresh : ℕ → String) (average : UInt64)
    (earlier : List Bucket) (demand : Demand) : List Bucket :=
  newUpdates demand.partition earlier (demand.toppedUpFiles sizing average)
    ++ newInserts fresh demand.partition (Bucket.freshIds earlier).length
        (demand.loads sizing average).length

/-- The buckets `earlier`, followed by those of partitions with inserts, in turn. -/
def numbering (sizing : Sizing) (fresh : ℕ → String) (average : UInt64) (earlier : List Bucket) :
    List Demand → List Bucket
  | [] => earlier
  | demand :: demands =>
    numbering sizing fresh average
      (earlier ++ demand.newBuckets sizing fresh average earlier) demands

namespace Plan

variable {sizing : Sizing} {fresh : ℕ → String} {plan : Plan}

/-! ## What each step appends -/

/-- A plan knows an update bucket for exactly the files that have one. -/
theorem Consistent.any_isUpdateOf (h : plan.Consistent) (fileId : String) :
    plan.buckets.toList.any (·.isUpdateOf fileId) = (plan.updateBucket? fileId).isSome := by
  rw [Bool.eq_iff_iff, List.any_eq_true, Option.isSome_iff_exists]
  constructor
  · intro ⟨bucket, hmem, hbucket⟩
    obtain ⟨partition, rfl⟩ := Bucket.isUpdateOf_iff.mp hbucket
    obtain ⟨number, hnumber⟩ := List.mem_iff_getElem?.mp hmem
    rw [Array.getElem?_toList] at hnumber
    obtain ⟨last, hlast, -⟩ := h.update_of_bucket hnumber
    exact ⟨last, hlast⟩
  · intro ⟨number, hnumber⟩
    obtain ⟨partition, hbucket⟩ := h.bucket_of_update hnumber
    refine ⟨.update fileId partition, ?_, by simp [Bucket.isUpdateOf]⟩
    exact Array.mem_toList_iff.mpr (Array.mem_of_getElem? hbucket)

theorem buckets_openUpdate (plan : Plan) (partition fileId : String) :
    (plan.openUpdate partition fileId).buckets.toList
      = plan.buckets.toList ++ [.update fileId partition] :=
  Array.toList_push

theorem buckets_openInsert (fresh : ℕ → String) (plan : Plan) (partition : String) :
    (plan.openInsert fresh partition).buckets.toList
      = plan.buckets.toList ++ [.insert (fresh plan.freshIds) partition] :=
  Array.toList_push

theorem buckets_ensureUpdates (h : plan.Consistent) (partition : String)
    (fileIds : List String) :
    (plan.ensureUpdates partition fileIds).buckets.toList
      = plan.buckets.toList ++ newUpdates partition plan.buckets.toList fileIds := by
  induction fileIds generalizing plan with
  | nil => simp [ensureUpdates, newUpdates]
  | cons fileId fileIds ih =>
    rw [ensureUpdates_cons, ih (h.updateBucketFor partition fileId), newUpdates, h.any_isUpdateOf,
      updateBucketFor]
    cases hupdate : plan.updateBucket? fileId with
    | some number => simp
    | none => simp [buckets_openUpdate]

theorem buckets_openNew (fresh : ℕ → String) (partition : String) (count : ℕ) (plan : Plan) :
    (plan.openNew fresh partition count).buckets.toList
      = plan.buckets.toList ++ newInserts fresh partition plan.freshIds count := by
  induction count generalizing plan with
  | zero => simp [openNew, newInserts]
  | succ count ih =>
    have hids : (plan.openInsert fresh partition).freshIds = plan.freshIds + 1 := rfl
    rw [openNew, ih, buckets_openInsert, hids, newInserts, newInserts, List.range_succ_eq_map]
    simp [Nat.add_assoc, Nat.add_comm 1]

/-! ## Fresh ids -/

/-- The insert buckets, in order, have the fresh ids that were drawn. -/
def Named (fresh : ℕ → String) (plan : Plan) : Prop :=
  Bucket.freshIds plan.buckets.toList = (List.range plan.freshIds).map fresh

theorem Named.openUpdate (h : plan.Named fresh) (partition fileId : String) :
    (plan.openUpdate partition fileId).Named fresh := by
  show Bucket.freshIds (plan.openUpdate partition fileId).buckets.toList = _
  rw [buckets_openUpdate, Bucket.freshIds_append, Bucket.freshIds_update, List.append_nil, h]
  rfl

theorem Named.openInsert (h : plan.Named fresh) (partition : String) :
    (plan.openInsert fresh partition).Named fresh := by
  show Bucket.freshIds (plan.openInsert fresh partition).buckets.toList
    = (List.range (plan.freshIds + 1)).map fresh
  rw [buckets_openInsert, Bucket.freshIds_append, Bucket.freshIds_insert, h, List.range_succ,
    List.map_append, List.map_singleton]

theorem kept_named (fresh : ℕ → String) : Kept fresh (Named fresh) where
  updateBucketFor h partition fileId := by
    unfold updateBucketFor
    split
    · exact h
    · exact h.openUpdate partition fileId
  openInsert h := h.openInsert
  record h _ _ _ := h

/-- Without an insert bucket no fresh id is drawn. -/
theorem named_assignUpdates (fresh : ℕ → String) (average : UInt64) (profile : Profile) :
    ((empty average).assignUpdates profile).Named fresh := by
  have hempty : (empty average).Named fresh := rfl
  exact openUpdates_induction (Named fresh) (fun h => h.openUpdate) hempty _

theorem Named.length_freshIds (h : plan.Named fresh) :
    (Bucket.freshIds plan.buckets.toList).length = plan.freshIds := by
  rw [h, List.length_map, List.length_range]

/-! ## The buckets of a finished plan -/

theorem freshIds_ensureUpdates (plan : Plan) (partition : String) (fileIds : List String) :
    (plan.ensureUpdates partition fileIds).freshIds = plan.freshIds := by
  induction fileIds generalizing plan with
  | nil => rfl
  | cons fileId fileIds ih =>
    rw [ensureUpdates_cons, ih]
    unfold updateBucketFor
    split <;> rfl

theorem buckets_assigned (hconsistent : plan.Consistent) (hnamed : plan.Named fresh)
    (demand : Demand) :
    (plan.assigned sizing fresh demand).buckets.toList
      = plan.buckets.toList
        ++ demand.newBuckets sizing fresh plan.averageRecordSize plan.buckets.toList := by
  have htoppedUp : (plan.toppedUp sizing demand).buckets.toList = plan.buckets.toList
      ++ newUpdates demand.partition plan.buckets.toList
          (demand.toppedUpFiles sizing plan.averageRecordSize) :=
    buckets_ensureUpdates hconsistent _ _
  have hids : (plan.toppedUp sizing demand).freshIds = plan.freshIds :=
    freshIds_ensureUpdates plan _ _
  show ((plan.toppedUp sizing demand).openNew fresh demand.partition _).buckets.toList = _
  rw [buckets_openNew, htoppedUp, hids, ← hnamed.length_freshIds, List.append_assoc]
  rfl

theorem buckets_assignedAll (sizing : Sizing) (hconsistent : plan.Consistent)
    (hnamed : plan.Named fresh) (demands : List Demand) :
    (plan.assignedAll sizing fresh demands).buckets.toList
      = numbering sizing fresh plan.averageRecordSize plan.buckets.toList demands := by
  induction demands generalizing plan with
  | nil => rfl
  | cons demand demands ih =>
    have hconsistent' : (plan.assigned sizing fresh demand).Consistent :=
      (kept_consistent fresh).assigned hconsistent demand
    have hnamed' : (plan.assigned sizing fresh demand).Named fresh :=
      (kept_named fresh).assigned hnamed demand
    have hrest := ih hconsistent' hnamed'
    rw [(extends_assigned sizing fresh plan demand).averageRecordSize,
      buckets_assigned hconsistent hnamed] at hrest
    exact hrest

/-- The buckets of a plan stand in the order of `numbering`: the update buckets of the batch, then
for each partition with inserts the update buckets of newly topped up files that are not under
pending clustering and the insert buckets. The insert buckets, in order, have the fresh ids
`fresh 0`, `fresh 1` and so on, and no other fresh id is drawn. Partitions are visited in ascending
order, and so are the updated files of each. -/
theorem buckets_eq_numbering (sizing : Sizing) (fresh : ℕ → String) (profile : Profile)
    (smallFiles : SortedMap (List SmallFile)) (pending : SortedMap KeySet) {average : UInt64}
    (haverage : average ≠ 0) :
    ∃ plan, build sizing fresh profile smallFiles pending average = .ok plan
      ∧ plan.buckets.toList
        = numbering sizing fresh average
            (profile.updatedFiles.map fun (partition, fileId) => .update fileId partition)
            (profile.insertPartitions.map fun (partition, inserts) =>
              ⟨partition, inserts, (smallFiles.findD partition []).filter fun file =>
                !(pending.findD partition .empty).contains file.fileId⟩)
      ∧ Bucket.freshIds plan.buckets.toList = (List.range plan.freshIds).map fresh
      ∧ profile.updatedFiles.Pairwise (Prod.Lex (· < ·) (· < ·))
      ∧ (∀ partition fileId,
          (partition, fileId) ∈ profile.updatedFiles ↔ 0 < profile.updates partition fileId)
      ∧ (profile.insertPartitions.Pairwise fun entry other => entry.1 < other.1)
      ∧ ∀ partition inserts, (partition, inserts) ∈ profile.insertPartitions
          ↔ 0 < inserts ∧ profile.inserts partition = inserts := by
  refine ⟨_, build_eq haverage, ?_, ?_, profile.updatedFiles_pairwise,
    fun _ _ => Profile.mem_updatedFiles, profile.insertPartitions_pairwise,
    fun _ _ => Profile.mem_insertPartitions⟩
  · have hupdates : ((empty average).assignUpdates profile).buckets.toList
        = profile.updatedFiles.map fun (partition, fileId) => .update fileId partition :=
      buckets_openUpdates (empty average) profile.updatedFiles
    have hall := buckets_assignedAll sizing (consistent_assignUpdates average profile)
      (named_assignUpdates fresh average profile) (profile.demands smallFiles pending)
    rw [averageRecordSize_assignUpdates, hupdates] at hall
    exact hall
  · exact (kept_named fresh).assignedAll (named_assignUpdates fresh average profile) _

/-- The file `x` is under pending clustering in `p`, which passes it over, and not in `q`, which
tops it up. -/
theorem buckets_reused_file_and_two_new :
    (10 : UInt64) ≠ 0
      ∧ ∃ plan, build ⟨100, 5, false⟩ (fun i => if i = 0 then "a" else "b")
          ⟨.insert (.insert .empty "p" ⟨12, .insert .empty "u" 1⟩) "q" ⟨9, .empty⟩⟩
          (.insert (.insert .empty "p" [⟨⟨"001", "x"⟩, 80⟩, ⟨⟨"001", "f"⟩, 70⟩,
              ⟨⟨"001", "u"⟩, 90⟩, ⟨⟨"001", "f"⟩, 70⟩])
            "q" [⟨⟨"001", "f"⟩, 50⟩, ⟨⟨"001", "x"⟩, 80⟩])
          (.insert .empty "p" (.add .empty "x")) 10 = .ok plan
        ∧ plan.buckets.toList
          = [.update "u" "p", .update "f" "p", .insert "a" "p", .update "x" "q",
            .insert "b" "q"] := by
  obtain ⟨plan, hplan, hbuckets, -⟩ := buckets_eq_numbering ⟨100, 5, false⟩
    (fun i => if i = 0 then "a" else "b")
    ⟨.insert (.insert .empty "p" ⟨12, .insert .empty "u" 1⟩) "q" ⟨9, .empty⟩⟩
    (.insert (.insert .empty "p" [⟨⟨"001", "x"⟩, 80⟩, ⟨⟨"001", "f"⟩, 70⟩,
        ⟨⟨"001", "u"⟩, 90⟩, ⟨⟨"001", "f"⟩, 70⟩])
      "q" [⟨⟨"001", "f"⟩, 50⟩, ⟨⟨"001", "x"⟩, 80⟩])
    (.insert .empty "p" (.add .empty "x")) (show (10 : UInt64) ≠ 0 by decide)
  refine ⟨by decide, plan, hplan, ?_⟩
  rw [hbuckets]
  decide +kernel

end Plan

end Upsert
