import Upsert.Plan.Route
import Upsert.Proofs.Plan.Allocation
import Upsert.Proofs.Profile.Counting
import Upsert.Proofs.Selection

/-! # Every record of the batch has a bucket

A plan routes the records that it was made for: an update to the update bucket of its file, an
insert to a bucket of its partition's table, whichever place its key hashes to.
-/

namespace Upsert.Plan

variable {sizing : Sizing} {fresh : ℕ → String} {profile : Profile}
  {smallFiles : SortedMap (List SmallFile)} {pending : SortedMap KeySet} {average : UInt64}

/-! ## The buckets and tables of a plan -/

/-- Files are topped up by partitions with inserts. -/
theorem inserts_pos_of_mem_toppedUpFiles {partition fileId : String}
    (h : fileId ∈ (profile.demand smallFiles pending partition).toppedUpFiles sizing average) :
    0 < profile.inserts partition := by
  obtain ⟨⟨file, records⟩, htopUp, -⟩ := List.mem_map.mp h
  obtain ⟨-, hrecords, hle⟩ := Sizing.mem_topUps _ _ _ _ htopUp
  exact UInt64.lt_iff_toNat_lt.mpr (Nat.lt_of_lt_of_le hrecords hle)

/-- Every file with updates in a partition gets an update bucket there. -/
theorem exists_bucket?_assignUpdates (average : UInt64) {partition fileId : String}
    (h : 0 < profile.updates partition fileId) :
    ∃ number, ((empty average).assignUpdates profile).bucket? number
      = some (.update fileId partition) := by
  obtain ⟨number, hnumber⟩ := List.mem_iff_getElem?.mp (Profile.mem_updatedFiles.mpr h)
  exact ⟨number, bucket?_assignUpdates_eq_some_iff.mpr hnumber⟩

/-- Before any insert is assigned, the buckets are those of files with updates. -/
theorem updates_pos_of_bucket?_assignUpdates {number : ℕ} {fileId partition : String}
    (h : ((empty average).assignUpdates profile).bucket? number
      = some (.update fileId partition)) : 0 < profile.updates partition fileId :=
  Profile.mem_updatedFiles.mp (List.mem_of_getElem? (bucket?_assignUpdates_eq_some_iff.mp h))

/-- A file with updates in a partition gets one update bucket there. -/
theorem eq_of_bucket?_assignUpdates {number other : ℕ} {fileId partition : String}
    (h : ((empty average).assignUpdates profile).bucket? number = some (.update fileId partition))
    (h' : ((empty average).assignUpdates profile).bucket? other
      = some (.update fileId partition)) : number = other := by
  rw [bucket?_assignUpdates_eq_some_iff] at h h'
  -- the two buckets were opened for the same entry of the list, which has no duplicates
  obtain ⟨hlt, -⟩ := List.getElem?_eq_some_iff.mp h
  exact (List.getElem?_inj hlt profile.updatedFiles_nodup).mp (h.trans h'.symm)

/-- A file with updates has an update bucket before any insert is assigned. -/
theorem exists_updateBucket?_assignUpdates (average : UInt64) {partition fileId : String}
    (h : 0 < profile.updates partition fileId) :
    ∃ number owner, ((empty average).assignUpdates profile).updateBucket? fileId = some number
      ∧ ((empty average).assignUpdates profile).bucket? number
        = some (.update fileId owner) := by
  have hconsistent := consistent_assignUpdates average profile
  obtain ⟨number, hbucket⟩ := exists_bucket?_assignUpdates average h
  -- a later bucket of the same file may have taken its place
  obtain ⟨last, hlast, -⟩ := hconsistent.update_of_bucket hbucket
  obtain ⟨owner, howner⟩ := hconsistent.bucket_of_update hlast
  exact ⟨last, owner, hlast, howner⟩

section

variable {plan : Plan}
  (hplan : build sizing fresh profile smallFiles pending average = .ok plan)
include hplan

/-- A file with updates has an update bucket. -/
theorem exists_updateBucket?_of_updates_pos {partition fileId : String}
    (h : 0 < profile.updates partition fileId) :
    ∃ number, plan.updateBucket? fileId = some number := by
  obtain ⟨number, -, hnumber, -⟩ := exists_updateBucket?_assignUpdates average h
  exact ⟨number, (extends_of_build hplan).update hnumber⟩

/-- The table of a partition with inserts is not empty. -/
theorem exists_insertTable? {partition : String} (h : 0 < profile.inserts partition) :
    ∃ table, plan.insertTable? partition = some table ∧ 0 < table.size := by
  obtain ⟨middle, -, hassigned⟩ := exists_assignedFrom_of_build hplan h
  refine ⟨_, hassigned.insertTable?, ?_⟩
  rw [InsertTable.size_ofAllocations]
  exact List.length_pos_iff.mpr (hassigned.allocations_ne_nil h)

/-- The buckets in the table of a partition are those of small files that it tops up, and its insert
buckets. -/
theorem entry_cases {partition : String} {table : InsertTable} {entry : InsertEntry}
    (htable : plan.insertTable? partition = some table) (hentry : entry ∈ table.entries) :
    (∃ fileId ∈ (profile.demand smallFiles pending partition).toppedUpFiles sizing average,
        plan.updateBucket? fileId = some entry.bucket)
      ∨ ∃ freshId, plan.bucket? entry.bucket = some (.insert freshId partition) := by
  obtain ⟨share, hshare, -⟩ := Option.map_eq_some_iff.mp htable
  have hpos := inserts_pos_of_find?_shares hplan hshare
  obtain ⟨middle, haverage, hassigned⟩ := exists_assignedFrom_of_build hplan hpos
  cases htable.symm.trans hassigned.insertTable?
  obtain ⟨allocation, hmem, heq⟩ := InsertTable.exists_entry_iff.mp ⟨entry, hentry, rfl⟩
  have hcases := hassigned.allocation_cases hmem
  rw [haverage, heq] at hcases
  exact hcases

/-- A file that is topped up is in the table of the partition. -/
theorem exists_entry_of_mem_toppedUpFiles {partition fileId : String}
    (h : fileId ∈ (profile.demand smallFiles pending partition).toppedUpFiles sizing average) :
    ∃ table, plan.insertTable? partition = some table
      ∧ ∃ entry ∈ table.entries, plan.updateBucket? fileId = some entry.bucket := by
  have hpos := inserts_pos_of_mem_toppedUpFiles h
  obtain ⟨middle, haverage, hassigned⟩ := exists_assignedFrom_of_build hplan hpos
  rw [← haverage] at h
  obtain ⟨allocation, hmem, hupdate⟩ := hassigned.exists_allocation h
  obtain ⟨entry, hentry, heq⟩ := InsertTable.exists_entry_iff.mpr ⟨allocation, hmem, rfl⟩
  refine ⟨_, hassigned.insertTable?, entry, hentry, ?_⟩
  rw [heq, hupdate]

/-- The buckets in a table are buckets of the plan. -/
theorem lt_numBuckets_of_mem_entries {partition : String} {table : InsertTable}
    {entry : InsertEntry} (htable : plan.insertTable? partition = some table)
    (hentry : entry ∈ table.entries) : entry.bucket < plan.numBuckets := by
  rcases entry_cases hplan htable hentry with ⟨fileId, -, hupdate⟩ | ⟨freshId, hbucket⟩
  · obtain ⟨_, hbucket⟩ := (consistent_of_build hplan).bucket_of_update hupdate
    exact lt_numBuckets hbucket
  · exact lt_numBuckets hbucket

end

/-! ## Routing by hash -/

/-- The bucket of a record whose key has a given hash. -/
def routeHashed (plan : Plan) (hash : Int64) (partition : String)
    (location : Option RecordLocation) : Except RouteError ℕ :=
  match location with
  | some location =>
    match plan.updateBucket? location.fileId with
    | some bucket => .ok bucket
    | none => .error (.unknownUpdateLocation location.fileId)
  | none =>
    match plan.selectBucket? partition (slotFraction hash (plan.partitionInserts partition)) with
    | some bucket => .ok bucket
    | none => .error (.noInsertBuckets partition)

/-- Only the hash of a key matters to the bucket of the record. -/
theorem route_eq_routeHashed (plan : Plan) (key : RecordKey) (location : Option RecordLocation) :
    plan.route key location = plan.routeHashed (keyHash key.key) key.partition location := rfl

theorem routeHashed_of_updateBucket? {plan : Plan} {location : RecordLocation} {number : ℕ}
    (h : plan.updateBucket? location.fileId = some number) (hash : Int64) (partition : String) :
    plan.routeHashed hash partition (some location) = .ok number := by
  rw [routeHashed, h]

/-- Every hash is routed to some entry of a table that is not empty. -/
theorem exists_routeHashed_eq_entry {plan : Plan} {partition : String} {table : InsertTable}
    (htable : plan.insertTable? partition = some table) (hsize : 0 < table.size) (hash : Int64) :
    ∃ entry ∈ table.entries, plan.routeHashed hash partition none = .ok entry.bucket := by
  obtain ⟨entry, hentry, hselect⟩ :=
    InsertTable.exists_select hsize (slotFraction hash (plan.partitionInserts partition))
  refine ⟨entry, hentry, ?_⟩
  rw [routeHashed, selectBucket?, htable, Option.bind_some, hselect]

/-- The bucket is one for the record: an update bucket of the file in which it is located, or a
bucket of the table of its partition. -/
def Serves (plan : Plan) (bucket : ℕ) (record : Record) : Prop :=
  bucket < plan.numBuckets
    ∧ match record.location with
      | some location => ∃ partition, plan.bucket? bucket = some (.update location.fileId partition)
      | none => ∃ table, plan.insertTable? record.key.partition = some table
          ∧ ∃ entry ∈ table.entries, entry.bucket = bucket

/-- Every record of a batch is routed by the plan of the batch, whatever the hash of its key: an
update goes to an update bucket of its file, and an insert to a bucket of its partition's table. -/
theorem route_batch (sizing : Sizing) (fresh : ℕ → String) {records : List Record}
    (hlength : records.length < UInt64.size) (smallFiles : SortedMap (List SmallFile))
    (pending : SortedMap KeySet) {average : UInt64} (haverage : average ≠ 0) :
    ∃ profile plan, Profile.ofRecords records = .ok profile
      ∧ build sizing fresh profile smallFiles pending average = .ok plan
      ∧ ∀ record ∈ records,
        (∃ bucket, plan.route record.key record.location = .ok bucket
          ∧ plan.Serves bucket record)
        ∧ ∀ hash, ∃ bucket,
          plan.routeHashed hash record.key.partition record.location = .ok bucket
            ∧ plan.Serves bucket record := by
  obtain ⟨profile, hprofile⟩ := Profile.exists_ofRecords hlength
  obtain ⟨plan, hplan⟩ := exists_build haverage
  refine ⟨profile, plan, hprofile, hplan, fun record hmem => ?_⟩
  have hhashed : ∀ hash, ∃ bucket,
      plan.routeHashed hash record.key.partition record.location = .ok bucket
        ∧ plan.Serves bucket record := by
    intro hash
    obtain ⟨key, location⟩ := record
    cases location with
    | none =>
      have hinserts := Profile.inserts_pos_of_mem hprofile hmem rfl
      obtain ⟨table, htable, hsize⟩ := exists_insertTable? hplan hinserts
      obtain ⟨entry, hentry, hroute⟩ := exists_routeHashed_eq_entry htable hsize hash
      have hlt := lt_numBuckets_of_mem_entries hplan htable hentry
      exact ⟨entry.bucket, hroute, hlt, table, htable, entry, hentry, rfl⟩
    | some location =>
      have hupdates : 0 < profile.updates key.partition location.fileId :=
        (Profile.updates_pos_iff hprofile).mpr ⟨_, hmem, rfl, rfl⟩
      obtain ⟨number, hnumber⟩ := exists_updateBucket?_of_updates_pos hplan hupdates
      obtain ⟨partition, hbucket⟩ := (consistent_of_build hplan).bucket_of_update hnumber
      exact ⟨number, routeHashed_of_updateBucket? hnumber hash _, lt_numBuckets hbucket,
        partition, hbucket⟩
  refine ⟨?_, hhashed⟩
  rw [route_eq_routeHashed]
  exact hhashed _

theorem route_batch_update_and_insert :
    [(⟨⟨"k1", "p"⟩, some ⟨"001", "f"⟩⟩ : Record), ⟨⟨"k2", "q"⟩, none⟩].length < UInt64.size
      ∧ (10 : UInt64) ≠ 0
      ∧ ∃ profile plan,
        Profile.ofRecords [⟨⟨"k1", "p"⟩, some ⟨"001", "f"⟩⟩, ⟨⟨"k2", "q"⟩, none⟩] = .ok profile
        ∧ build ⟨100, 10, false⟩ (fun _ => "new") profile
            (.insert .empty "q" [⟨⟨"001", "g"⟩, 80⟩]) .empty 10 = .ok plan
        ∧ (∃ bucket, plan.route ⟨"k1", "p"⟩ (some ⟨"001", "f"⟩) = .ok bucket
          ∧ plan.Serves bucket ⟨⟨"k1", "p"⟩, some ⟨"001", "f"⟩⟩)
        ∧ ∃ bucket, plan.route ⟨"k2", "q"⟩ none = .ok bucket
          ∧ plan.Serves bucket ⟨⟨"k2", "q"⟩, none⟩ := by
  have hlength :
      [(⟨⟨"k1", "p"⟩, some ⟨"001", "f"⟩⟩ : Record), ⟨⟨"k2", "q"⟩, none⟩].length < UInt64.size := by
    decide
  obtain ⟨profile, plan, hprofile, hplan, hroute⟩ := route_batch ⟨100, 10, false⟩
    (fun _ => "new") hlength (.insert .empty "q" [⟨⟨"001", "g"⟩, 80⟩]) .empty
    (show (10 : UInt64) ≠ 0 by decide)
  have hupdate := (hroute _ List.mem_cons_self).1
  have hinsert := (hroute _ (List.mem_cons_of_mem _ List.mem_cons_self)).1
  exact ⟨hlength, by decide, profile, plan, hprofile, hplan, hupdate, hinsert⟩

end Upsert.Plan
