import Upsert.Proofs.Plan.Routing

/-!
# Which buckets the tables lead to

A bucket is opened because something goes to it. An insert bucket is opened for one portion of what
the small files of a partition leave, and that portion is its only entry in the tables of all
partitions. An update bucket is opened for updates, or for a small file that its partition tops up.
In the second case the partition has an entry for it: of the buckets of a file the last one counts,
and no bucket that was opened after the updates gives way to a later one (`CurrentSince`).
-/

namespace Upsert.Plan

variable {sizing : Sizing} {fresh : ℕ → String} {profile : Profile}
  {smallFiles : SortedMap (List SmallFile)} {pending : SortedMap KeySet} {average : UInt64}

/-! ## Buckets that do not give way -/

/-- The update buckets that were opened after `base` are the buckets that the plan knows for their
files. -/
def CurrentSince (base plan : Plan) : Prop :=
  ∀ {number fileId partition}, plan.bucket? number = some (.update fileId partition) →
    base.bucket? number = some (.update fileId partition)
      ∨ plan.updateBucket? fileId = some number

theorem CurrentSince.updateBucketFor {base plan : Plan} (h : base.CurrentSince plan)
    (partition fileId : String) : base.CurrentSince (plan.updateBucketFor partition fileId).2 := by
  intro number other owner hbucket
  have hgrows := extends_updateBucketFor plan partition fileId
  have hold : plan.bucket? number = some (.update other owner) →
      base.bucket? number = some (.update other owner)
        ∨ (plan.updateBucketFor partition fileId).2.updateBucket? other = some number :=
    fun hbucket => (h hbucket).imp_right hgrows.update
  unfold Plan.updateBucketFor at hbucket
  split at hbucket
  · exact hold hbucket
  · rename_i hnone
    rw [bucket?_openUpdate] at hbucket
    split at hbucket
    · -- the new bucket becomes the bucket of its file
      rename_i hnew
      cases hbucket
      right
      rw [Plan.updateBucketFor, hnone, updateBucket?_openUpdate, if_pos rfl, hnew]
    · exact hold hbucket

theorem kept_currentSince (fresh : ℕ → String) (base : Plan) : Kept fresh base.CurrentSince where
  updateBucketFor h := h.updateBucketFor
  openInsert h _ _ _ _ hbucket := by
    rw [bucket?_openInsert] at hbucket
    split at hbucket
    · cases hbucket
    · exact h hbucket
  record h _ _ _ := h

/-! ## The entries of the tables -/

/-- The entry number `i` in the table of a partition is for a bucket. -/
def HasEntry (plan : Plan) (partition : String) (i number : ℕ) : Prop :=
  ∃ table, plan.insertTable? partition = some table
    ∧ table.entries[i]?.map (·.bucket) = some number

section

variable {demand : Demand} {middle final : Plan}
  (h : AssignedFrom sizing fresh demand middle final)
include h

/-- The buckets of a partition's allocations: those of the small files, and then the new ones. -/
theorem AssignedFrom.map_bucket_allocations :
    (middle.shareOf sizing demand).allocations.map (fun a => some a.bucket)
      = (demand.topUps sizing middle.averageRecordSize).map (fun (file, _) =>
            final.updateBucket? file.fileId)
        ++ (demand.loads sizing middle.averageRecordSize).mapIdx fun i _ =>
            some (middle.firstNew sizing demand + i) := by
  have hview := congrArg (List.map Prod.fst) h.map_allocations
  rw [List.map_map, List.map_append, List.map_map, List.mapIdx_eq_zipIdx_map, List.map_map] at hview
  rw [List.mapIdx_eq_zipIdx_map]
  exact hview

/-- The allocation to a new file has its place behind those to small files, and no other allocation
is to its bucket. -/
theorem AssignedFrom.bucket_getElem?_eq_iff (hfinal : final.Consistent) {i j : ℕ}
    (hj : j < (demand.loads sizing middle.averageRecordSize).length) :
    (middle.shareOf sizing demand).allocations[i]?.map (fun a => some a.bucket)
        = some (some (middle.firstNew sizing demand + j))
      ↔ i = (demand.topUps sizing middle.averageRecordSize).length + j := by
  rw [← List.getElem?_map, h.map_bucket_allocations, List.getElem?_append, List.length_map]
  split
  · rename_i hlt
    -- the bucket of a small file is not an insert bucket
    have hinsert := h.insert_bucket_iff.mpr ⟨j, hj, rfl, rfl⟩
    constructor
    · intro hupdate
      rw [List.getElem?_map, Option.map_eq_some_iff] at hupdate
      obtain ⟨⟨file, records⟩, -, hupdate⟩ := hupdate
      obtain ⟨owner, hbucket⟩ := hfinal.bucket_of_update hupdate
      rw [hbucket] at hinsert
      cases hinsert
    · omega
  · rename_i hge
    rw [List.getElem?_mapIdx]
    constructor
    · intro hnew
      obtain ⟨load, -, hbucket⟩ := Option.map_eq_some_iff.mp hnew
      have hsum := Option.some.inj hbucket
      omega
    · rintro rfl
      rw [Nat.add_sub_cancel_left, List.getElem?_eq_getElem hj]
      rfl

/-- A new file has one entry in the table of its partition. -/
theorem AssignedFrom.hasEntry_new_iff (hfinal : final.Consistent) {i j : ℕ}
    (hj : j < (demand.loads sizing middle.averageRecordSize).length) :
    final.HasEntry demand.partition i (middle.firstNew sizing demand + j)
      ↔ i = (demand.topUps sizing middle.averageRecordSize).length + j := by
  have hsome : ∀ {allocation? : Option Allocation} {number : ℕ},
      allocation?.map (·.bucket) = some number
        ↔ allocation?.map (fun a => some a.bucket) = some (some number) := by
    rintro (_ | entry) number <;> simp
  rw [← h.bucket_getElem?_eq_iff hfinal hj, ← hsome, HasEntry, h.insertTable?,
    ← InsertTable.map_bucket_getElem? _ demand.inserts]
  constructor
  · rintro ⟨table, htable, hentry⟩
    cases htable
    exact hentry
  · intro hentry
    exact ⟨_, rfl, hentry⟩

end

section

variable {plan : Plan}
  (hplan : build sizing fresh profile smallFiles pending average = .ok plan)
include hplan

theorem HasEntry.lt_numBuckets {partition : String} {i number : ℕ}
    (h : plan.HasEntry partition i number) : number < plan.numBuckets := by
  obtain ⟨table, htable, hnumber⟩ := h
  obtain ⟨entry, hentry, rfl⟩ := Option.map_eq_some_iff.mp hnumber
  exact lt_numBuckets_of_mem_entries hplan htable (Array.mem_of_getElem? hentry)

/-- An insert bucket is listed by its own partition only. -/
theorem HasEntry.partition_eq {partition owner freshId : String} {i number : ℕ}
    (h : plan.HasEntry partition i number)
    (hbucket : plan.bucket? number = some (.insert freshId owner)) : partition = owner := by
  obtain ⟨table, htable, hnumber⟩ := h
  obtain ⟨entry, hentry, rfl⟩ := Option.map_eq_some_iff.mp hnumber
  rcases entry_cases hplan htable (Array.mem_of_getElem? hentry) with
    ⟨fileId, -, hupdate⟩ | ⟨other, hinsert⟩
  · obtain ⟨_, hother⟩ := (consistent_of_build hplan).bucket_of_update hupdate
    rw [hbucket] at hother
    cases hother
  · rw [hbucket] at hinsert
    cases hinsert
    rfl

/-- Insert buckets are opened by partitions with inserts. -/
theorem inserts_pos_of_bucket? {number : ℕ} {partition freshId : String}
    (h : plan.bucket? number = some (.insert freshId partition)) :
    0 < profile.inserts partition := by
  rw [eq_built_of_build hplan] at h
  rcases bucket?_assignedAll h with h | ⟨demand, hdemand, hpartition, -⟩
  · rw [bucket?_assignUpdates, Option.map_eq_some_iff] at h
    obtain ⟨file, -, heq⟩ := h
    cases heq
  · have hpos := (Profile.mem_demands.mp hdemand).1
    rw [← hpartition] at hpos
    exact hpos

/-- Over the tables of all partitions there is one entry for an insert bucket. -/
theorem exists_hasEntry_iff {number : ℕ} {partition freshId : String}
    (h : plan.bucket? number = some (.insert freshId partition)) :
    ∃ place, ∀ other i, plan.HasEntry other i number ↔ other = partition ∧ i = place := by
  obtain ⟨middle, -, hassigned⟩ :=
    exists_assignedFrom_of_build hplan (inserts_pos_of_bucket? hplan h)
  obtain ⟨j, hj, rfl, -⟩ := hassigned.insert_bucket_iff.mp h
  obtain ⟨place, hplace⟩ : ∃ place, ∀ i, plan.HasEntry partition i _ ↔ i = place :=
    ⟨_, fun _ => hassigned.hasEntry_new_iff (consistent_of_build hplan) hj⟩
  refine ⟨place, fun other i => ?_⟩
  constructor
  · intro hentry
    obtain rfl := hentry.partition_eq hplan h
    exact ⟨rfl, (hplace i).mp hentry⟩
  · rintro ⟨rfl, hi⟩
    exact (hplace i).mpr hi

/-- No bucket that was opened after the updates gives way to a later one. -/
theorem currentSince_of_build : ((empty average).assignUpdates profile).CurrentSince plan := by
  rw [eq_built_of_build hplan]
  exact (kept_currentSince fresh _).assignedAll (fun hbucket => Or.inl hbucket) _

/-- An update bucket was opened for updates of its file, or its partition has an entry for it. -/
theorem updated_or_hasEntry {number : ℕ} {partition fileId : String}
    (h : plan.bucket? number = some (.update fileId partition)) :
    profile.updatedFiles[number]? = some (partition, fileId)
      ∨ ∃ i, plan.HasEntry partition i number := by
  have hadded := h
  rw [eq_built_of_build hplan] at hadded
  rcases bucket?_assignedAll hadded with hbucket | ⟨demand, hdemand, hpartition, hfile⟩
  · exact Or.inl (bucket?_assignUpdates_eq_some_iff.mp hbucket)
  rcases currentSince_of_build hplan h with hbucket | hupdate
  · exact Or.inl (bucket?_assignUpdates_eq_some_iff.mp hbucket)
  · -- the partition tops the file up, and its entry is for the bucket of the file
    have htoppedUp := hfile _ _ rfl
    obtain ⟨-, heq⟩ := Profile.mem_demands.mp hdemand
    rw [averageRecordSize_assignUpdates, heq, ← hpartition] at htoppedUp
    obtain ⟨table, htable, entry, hentry, hnumber⟩ :=
      exists_entry_of_mem_toppedUpFiles hplan htoppedUp
    obtain ⟨i, hi⟩ := Array.getElem?_of_mem hentry
    rw [hupdate] at hnumber
    exact Or.inr ⟨i, table, htable, by rw [hi, Option.map_some, hnumber]⟩

end

/-- The tables lead to buckets of the plan, and to all of them that have no updates. Over the tables
of all partitions there is exactly one entry for each insert bucket, in the table of its partition.
An update bucket was opened for updates of its file in its partition, or its partition has an entry
for it. -/
theorem tables_cover_buckets (sizing : Sizing) (fresh : ℕ → String) (profile : Profile)
    (smallFiles : SortedMap (List SmallFile)) (pending : SortedMap KeySet) {average : UInt64}
    (haverage : average ≠ 0) :
    ∃ plan, build sizing fresh profile smallFiles pending average = .ok plan
      ∧ (∀ partition i number, plan.HasEntry partition i number → number < plan.numBuckets)
      ∧ (∀ number freshId partition, plan.bucket? number = some (.insert freshId partition) →
          ∃ place, ∀ other i, plan.HasEntry other i number ↔ other = partition ∧ i = place)
      ∧ ∀ number fileId partition, plan.bucket? number = some (.update fileId partition) →
          (0 < profile.updates partition fileId
              ∧ profile.updatedFiles[number]? = some (partition, fileId))
            ∨ ∃ i, plan.HasEntry partition i number := by
  obtain ⟨plan, hplan⟩ := exists_build haverage
  refine ⟨plan, hplan, fun _ _ _ hentry => hentry.lt_numBuckets hplan,
    fun _ _ _ => exists_hasEntry_iff hplan, fun number fileId partition hbucket => ?_⟩
  refine (updated_or_hasEntry hplan hbucket).imp_left fun hfile => ⟨?_, hfile⟩
  exact Profile.mem_updatedFiles.mp (List.mem_of_getElem? hfile)

/-- Two partitions top up the file `f`, one of which also has updates of the file `u`. -/
theorem tables_cover_buckets_of_shared_file :
    (10 : UInt64) ≠ 0
      ∧ ∃ plan, build ⟨100, 5, false⟩ (fun i => if i = 0 then "a" else "b")
          ⟨.insert (.insert .empty "p" ⟨8, .insert .empty "u" 1⟩) "q" ⟨7, .empty⟩⟩
          (.insert (.insert .empty "p" [⟨⟨"001", "f"⟩, 70⟩]) "q" [⟨⟨"001", "f"⟩, 50⟩]) .empty 10
            = .ok plan
        ∧ plan.bucket? 1 = some (.update "f" "p") ∧ (∃ i, plan.HasEntry "p" i 1)
        ∧ plan.bucket? 3 = some (.insert "b" "q")
        ∧ ∃ place, ∀ other i, plan.HasEntry other i 3 ↔ other = "q" ∧ i = place := by
  obtain ⟨plan, hplan, -, hinsert, hupdate⟩ := tables_cover_buckets ⟨100, 5, false⟩
    (fun i => if i = 0 then "a" else "b")
    ⟨.insert (.insert .empty "p" ⟨8, .insert .empty "u" 1⟩) "q" ⟨7, .empty⟩⟩
    (.insert (.insert .empty "p" [⟨⟨"001", "f"⟩, 70⟩]) "q" [⟨⟨"001", "f"⟩, 50⟩]) .empty
    (show (10 : UInt64) ≠ 0 by decide)
  have hfirst : plan.bucket? 1 = some (.update "f" "p") := by
    rw [eq_built_of_build hplan]
    decide +kernel
  have hthird : plan.bucket? 3 = some (.insert "b" "q") := by
    rw [eq_built_of_build hplan]
    decide +kernel
  refine ⟨by decide, plan, hplan, hfirst, ?_, hthird, hinsert 3 "b" "q" hthird⟩
  refine (hupdate 1 "f" "p" hfirst).resolve_left fun h => absurd h.1 ?_
  decide +kernel

end Upsert.Plan
