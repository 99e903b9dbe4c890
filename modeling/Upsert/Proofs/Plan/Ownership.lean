import Upsert.Proofs.Plan.Routing

/-! # Files that two partitions write to

A plan finds the update bucket of a file by the file alone, while each bucket belongs to one
partition. The two fit together as long as every file is written to by one partition, be it that the
partition has updates of the file or that it tops the file up. What happens otherwise depends on who
comes first: opening the update buckets of the batch does not look whether the file has one already,
so that each partition gets a bucket of its own and the last one gets the records; topping up does
look, so that inserts are sent to the bucket of the other partition.

The buckets of a file are unique exactly where no file has updates in two partitions, and records
keep to their partitions exactly where no file is written to by two.
-/

namespace Upsert.Plan

variable {sizing : Sizing} {fresh : ℕ → String} {profile : Profile}
  {smallFiles : SortedMap (List SmallFile)} {pending : SortedMap KeySet} {average : UInt64}

/-! ## At most one update bucket for each file -/

/-- No file has two update buckets. -/
def UniqueUpdates (plan : Plan) : Prop :=
  ∀ {number other fileId partition partition'},
    plan.bucket? number = some (.update fileId partition) →
    plan.bucket? other = some (.update fileId partition') → number = other

theorem UniqueUpdates.openInsert {plan : Plan} (h : plan.UniqueUpdates) (fresh : ℕ → String)
    (partition : String) : (plan.openInsert fresh partition).UniqueUpdates := by
  intro number other fileId owner owner' hnumber hother
  rw [bucket?_openInsert] at hnumber hother
  split at hnumber
  · cases hnumber
  · split at hother
    · cases hother
    · exact h hnumber hother

/-- Looking up a file before opening a bucket for it keeps the update buckets unique. -/
theorem UniqueUpdates.updateBucketFor {plan : Plan} (h : plan.UniqueUpdates)
    (hplan : plan.Consistent) (partition fileId : String) :
    (plan.updateBucketFor partition fileId).2.UniqueUpdates := by
  unfold Plan.updateBucketFor
  split
  · exact h
  · rename_i hnone
    -- the file has no update bucket, or the plan would know one
    have hnew : ∀ {number partition},
        plan.bucket? number ≠ some (.update fileId partition) := by
      intro number partition hbucket
      obtain ⟨last, hlast, -⟩ := hplan.update_of_bucket hbucket
      simp [hnone] at hlast
    intro number other otherId owner owner' hnumber hother
    rw [bucket?_openUpdate] at hnumber hother
    split at hnumber <;> split at hother
    · omega
    · cases hnumber
      exact absurd hother hnew
    · cases hother
      exact absurd hnumber hnew
    · exact h hnumber hother

/-- Assigning inserts opens no second update bucket for a file. -/
theorem kept_uniqueUpdates (fresh : ℕ → String) :
    Kept fresh fun plan => plan.Consistent ∧ plan.UniqueUpdates where
  updateBucketFor h partition fileId :=
    ⟨h.1.updateBucketFor partition fileId,
      UniqueUpdates.updateBucketFor h.2 h.1 partition fileId⟩
  openInsert h partition :=
    ⟨h.1.openInsert fresh partition, UniqueUpdates.openInsert h.2 fresh partition⟩
  record h _ _ _ := ⟨⟨h.1.bucket_of_update, h.1.update_of_bucket⟩, h.2⟩

theorem uniqueUpdates_assignUpdates_iff (average : UInt64) (profile : Profile) :
    ((empty average).assignUpdates profile).UniqueUpdates
      ↔ ∀ fileId partition partition', 0 < profile.updates partition fileId →
          0 < profile.updates partition' fileId → partition = partition' := by
  constructor
  · intro hunique fileId partition partition' h h'
    obtain ⟨number, hbucket⟩ := exists_bucket?_assignUpdates average h
    obtain ⟨other, hbucket'⟩ := exists_bucket?_assignUpdates average h'
    rw [hunique hbucket hbucket', hbucket'] at hbucket
    cases hbucket
    rfl
  · intro hsole number other fileId partition partition' h h'
    obtain rfl := hsole _ _ _ (updates_pos_of_bucket?_assignUpdates h)
      (updates_pos_of_bucket?_assignUpdates h')
    exact eq_of_bucket?_assignUpdates h h'

/-- Every file has at most one update bucket if and only if no file has updates in two
partitions. -/
theorem uniqueUpdates_iff (sizing : Sizing) (fresh : ℕ → String) (profile : Profile)
    (smallFiles : SortedMap (List SmallFile)) (pending : SortedMap KeySet) {average : UInt64}
    (haverage : average ≠ 0) :
    ∃ plan, build sizing fresh profile smallFiles pending average = .ok plan
      ∧ (plan.UniqueUpdates
        ↔ ∀ fileId partition partition', 0 < profile.updates partition fileId →
            0 < profile.updates partition' fileId → partition = partition') := by
  obtain ⟨plan, hplan⟩ := exists_build haverage
  refine ⟨plan, hplan, ?_⟩
  rw [← uniqueUpdates_assignUpdates_iff average profile]
  constructor
  · intro h number other fileId partition partition' hnumber hother
    have hgrows := extends_of_build hplan
    exact h (hgrows.bucket hnumber) (hgrows.bucket hother)
  · intro h
    rw [eq_built_of_build hplan]
    exact ((kept_uniqueUpdates fresh).assignedAll
      ⟨consistent_assignUpdates average profile, h⟩ _).2

theorem uniqueUpdates_two_files :
    (10 : UInt64) ≠ 0
      ∧ ∃ plan, build ⟨100, 10, false⟩ (fun _ => "new")
          ⟨.insert (.insert .empty "p" ⟨2, .insert .empty "f" 1⟩) "q" ⟨0, .insert .empty "g" 1⟩⟩
          (.insert .empty "p" [⟨⟨"001", "g"⟩, 90⟩]) .empty 10 = .ok plan
        ∧ plan.UniqueUpdates := by
  obtain ⟨plan, hplan, hiff⟩ := uniqueUpdates_iff ⟨100, 10, false⟩ (fun _ => "new")
    ⟨.insert (.insert .empty "p" ⟨2, .insert .empty "f" 1⟩) "q" ⟨0, .insert .empty "g" 1⟩⟩
    (.insert .empty "p" [⟨⟨"001", "g"⟩, 90⟩]) .empty
    (show (10 : UInt64) ≠ 0 by decide)
  refine ⟨by decide, plan, hplan, hiff.mpr fun fileId partition partition' h h' => ?_⟩
  have hfiles : Profile.updatedFiles
      ⟨.insert (.insert .empty "p" ⟨2, .insert .empty "f" 1⟩) "q" ⟨0, .insert .empty "g" 1⟩⟩
      = [("p", "f"), ("q", "g")] := by decide +kernel
  rw [← Profile.mem_updatedFiles, hfiles] at h h'
  simp only [List.mem_cons, Prod.mk.injEq, List.not_mem_nil, or_false] at h h'
  rcases h with ⟨rfl, rfl⟩ | ⟨rfl, rfl⟩ <;> simpa [eq_comm] using h'

/-- A file with updates in two partitions has two update buckets. -/
theorem two_update_buckets_of_shared_file :
    ∃ profile plan, Profile.ofRecords [⟨⟨"k1", "p"⟩, some ⟨"001", "f"⟩⟩,
        ⟨⟨"k2", "q"⟩, some ⟨"001", "f"⟩⟩] = .ok profile
      ∧ build ⟨100, 10, false⟩ (fun _ => "new") profile .empty .empty 10 = .ok plan
      ∧ plan.bucket? 0 = some (.update "f" "p") ∧ plan.bucket? 1 = some (.update "f" "q")
      ∧ ¬ plan.UniqueUpdates := by
  have hfirst : (built ⟨100, 10, false⟩ (fun _ => "new")
      ⟨.insert (.insert .empty "p" ⟨0, .insert .empty "f" 1⟩) "q" ⟨0, .insert .empty "f" 1⟩⟩
      .empty .empty 10).bucket? 0 = some (.update "f" "p") := by decide +kernel
  have hsecond : (built ⟨100, 10, false⟩ (fun _ => "new")
      ⟨.insert (.insert .empty "p" ⟨0, .insert .empty "f" 1⟩) "q" ⟨0, .insert .empty "f" 1⟩⟩
      .empty .empty 10).bucket? 1 = some (.update "f" "q") := by decide +kernel
  exact ⟨_, _, by decide +kernel, build_eq (by decide), hfirst, hsecond, fun hunique =>
    absurd (hunique hfirst hsecond) (by decide)⟩

/-! ## Records that stay in their partitions -/

/-- A partition writes to a file: it has updates of the file, or it tops the file up. -/
def Writes (sizing : Sizing) (profile : Profile) (smallFiles : SortedMap (List SmallFile))
    (pending : SortedMap KeySet) (average : UInt64) (partition fileId : String) : Prop :=
  0 < profile.updates partition fileId
    ∨ fileId ∈ (profile.demand smallFiles pending partition).toppedUpFiles sizing average

/-- The bucket with a number belongs to a partition. -/
def InPartition (plan : Plan) (number : ℕ) (partition : String) : Prop :=
  ∃ bucket, plan.bucket? number = some bucket ∧ bucket.partition = partition

/-- The records of a batch and the tables of all partitions are sent to buckets of their own
partitions. -/
structure Isolated (plan : Plan) (records : List Record) : Prop where
  route : ∀ record ∈ records, ∃ number, plan.route record.key record.location = .ok number
    ∧ plan.InPartition number record.key.partition
  table : ∀ partition table, plan.insertTable? partition = some table →
    ∀ entry ∈ table.entries, plan.InPartition entry.bucket partition

section

variable {plan : Plan}
  (hplan : build sizing fresh profile smallFiles pending average = .ok plan)
include hplan

/-- The partition of an update bucket writes to its file. -/
theorem writes_of_bucket? {number : ℕ} {partition fileId : String}
    (h : plan.bucket? number = some (.update fileId partition)) :
    Writes sizing profile smallFiles pending average partition fileId := by
  rw [eq_built_of_build hplan] at h
  rcases bucket?_assignedAll h with h | ⟨demand, hdemand, hpartition, hfile⟩
  · exact Or.inl (updates_pos_of_bucket?_assignUpdates h)
  · have htoppedUp := hfile _ _ rfl
    obtain ⟨-, heq⟩ := Profile.mem_demands.mp hdemand
    rw [averageRecordSize_assignUpdates, heq, ← hpartition] at htoppedUp
    exact Or.inr htoppedUp

/-- A file that is written to by one partition only has its update bucket there. -/
theorem inPartition_of_writes
    (hsole : ∀ fileId partition partition',
      Writes sizing profile smallFiles pending average partition fileId →
      Writes sizing profile smallFiles pending average partition' fileId → partition = partition')
    {partition fileId : String}
    (h : Writes sizing profile smallFiles pending average partition fileId) {number : ℕ}
    (hupdate : plan.updateBucket? fileId = some number) : plan.InPartition number partition := by
  obtain ⟨owner, hbucket⟩ := (consistent_of_build hplan).bucket_of_update hupdate
  exact ⟨_, hbucket, hsole _ _ _ (writes_of_bucket? hplan hbucket) h⟩

/-- Where records and tables keep to their partitions, the update bucket of a file that is written
to is in the partition that writes. -/
theorem Isolated.exists_inPartition {records : List Record} (h : plan.Isolated records)
    (hprofile : Profile.ofRecords records = .ok profile) {partition fileId : String}
    (hwrites : Writes sizing profile smallFiles pending average partition fileId) :
    ∃ number, plan.updateBucket? fileId = some number ∧ plan.InPartition number partition := by
  rcases hwrites with hupdates | htoppedUp
  · obtain ⟨⟨key, location⟩, hmem, rfl, hlocation⟩ :=
      (Profile.updates_pos_iff hprofile).mp hupdates
    obtain ⟨location, rfl, rfl⟩ := Option.map_eq_some_iff.mp hlocation
    obtain ⟨number, hnumber⟩ := exists_updateBucket?_of_updates_pos hplan hupdates
    obtain ⟨_, hroute, hpartition⟩ := h.route _ hmem
    cases (routeHashed_of_updateBucket? hnumber (keyHash key.key) key.partition).symm.trans hroute
    exact ⟨number, hnumber, hpartition⟩
  · obtain ⟨table, htable, entry, hentry, hupdate⟩ :=
      exists_entry_of_mem_toppedUpFiles hplan htoppedUp
    exact ⟨entry.bucket, hupdate, h.table _ _ htable _ hentry⟩

/-- Where every file is written to by one partition only, records and tables keep to their
partitions. -/
theorem isolated_of_writes {records : List Record}
    (hprofile : Profile.ofRecords records = .ok profile)
    (hsole : ∀ fileId partition partition',
      Writes sizing profile smallFiles pending average partition fileId →
      Writes sizing profile smallFiles pending average partition' fileId → partition = partition') :
    plan.Isolated records := by
  have htables : ∀ partition table, plan.insertTable? partition = some table →
      ∀ entry ∈ table.entries, plan.InPartition entry.bucket partition := by
    intro partition table htable entry hentry
    rcases entry_cases hplan htable hentry with ⟨fileId, hfile, hupdate⟩ | ⟨freshId, hbucket⟩
    · exact inPartition_of_writes hplan hsole (Or.inr hfile) hupdate
    · exact ⟨_, hbucket, rfl⟩
  refine ⟨?_, htables⟩
  rintro ⟨key, location⟩ hmem
  rw [route_eq_routeHashed]
  cases location with
  | none =>
    -- an insert is routed by its partition's table
    have hinserts := Profile.inserts_pos_of_mem hprofile hmem rfl
    obtain ⟨table, htable, hsize⟩ := exists_insertTable? hplan hinserts
    obtain ⟨entry, hentry, hroute⟩ := exists_routeHashed_eq_entry htable hsize (keyHash key.key)
    exact ⟨entry.bucket, hroute, htables _ _ htable _ hentry⟩
  | some location =>
    -- an update shows that its partition writes to the file
    have hupdates : 0 < profile.updates key.partition location.fileId :=
      (Profile.updates_pos_iff hprofile).mpr ⟨_, hmem, rfl, rfl⟩
    obtain ⟨number, hnumber⟩ := exists_updateBucket?_of_updates_pos hplan hupdates
    exact ⟨number, routeHashed_of_updateBucket? hnumber _ _,
      inPartition_of_writes hplan hsole (Or.inl hupdates) hnumber⟩

end

/-- A batch keeps to its partitions if and only if no file is written to by two partitions. -/
theorem isolated_iff (sizing : Sizing) (fresh : ℕ → String) {records : List Record}
    {profile : Profile} (hprofile : Profile.ofRecords records = .ok profile)
    (smallFiles : SortedMap (List SmallFile)) (pending : SortedMap KeySet) {average : UInt64}
    (haverage : average ≠ 0) :
    ∃ plan, build sizing fresh profile smallFiles pending average = .ok plan
      ∧ (plan.Isolated records
        ↔ ∀ fileId partition partition',
            Writes sizing profile smallFiles pending average partition fileId →
            Writes sizing profile smallFiles pending average partition' fileId →
            partition = partition') := by
  obtain ⟨plan, hplan⟩ := exists_build haverage
  refine ⟨plan, hplan, ?_, isolated_of_writes hplan hprofile⟩
  intro h fileId partition partition' hwrites hwrites'
  -- there is one update bucket for the file, which is in both partitions
  obtain ⟨number, hupdate, bucket, hbucket, rfl⟩ := h.exists_inPartition hplan hprofile hwrites
  obtain ⟨other, hupdate', bucket', hbucket', rfl⟩ := h.exists_inPartition hplan hprofile hwrites'
  rw [hupdate, Option.some.injEq] at hupdate'
  rw [hupdate', hbucket', Option.some.injEq] at hbucket
  rw [hbucket]

theorem isolated_one_partition :
    Profile.ofRecords [⟨⟨"k1", "p"⟩, some ⟨"001", "f"⟩⟩, ⟨⟨"k2", "p"⟩, none⟩]
        = .ok ⟨.insert .empty "p" ⟨1, .insert .empty "f" 1⟩⟩
      ∧ (10 : UInt64) ≠ 0
      ∧ ∃ plan, build ⟨100, 10, false⟩ (fun _ => "new")
          ⟨.insert .empty "p" ⟨1, .insert .empty "f" 1⟩⟩
          (.insert .empty "p" [⟨⟨"001", "f"⟩, 90⟩]) .empty 10 = .ok plan
        ∧ plan.Isolated [⟨⟨"k1", "p"⟩, some ⟨"001", "f"⟩⟩, ⟨⟨"k2", "p"⟩, none⟩] := by
  have hprofile : Profile.ofRecords [⟨⟨"k1", "p"⟩, some ⟨"001", "f"⟩⟩, ⟨⟨"k2", "p"⟩, none⟩]
      = .ok ⟨.insert .empty "p" ⟨1, .insert .empty "f" 1⟩⟩ := by decide +kernel
  obtain ⟨plan, hplan, hiff⟩ := isolated_iff ⟨100, 10, false⟩ (fun _ => "new") hprofile
    (.insert .empty "p" [⟨⟨"001", "f"⟩, 90⟩]) .empty
    (show (10 : UInt64) ≠ 0 by decide)
  refine ⟨hprofile, by decide, plan, hplan, hiff.mpr ?_⟩
  have hp : ∀ fileId partition, Writes ⟨100, 10, false⟩
      ⟨.insert .empty "p" ⟨1, .insert .empty "f" 1⟩⟩
      (.insert .empty "p" [⟨⟨"001", "f"⟩, 90⟩]) .empty 10 partition fileId → partition = "p" := by
    rintro fileId partition (hupdates | htoppedUp)
    · obtain ⟨record, hmem, rfl, -⟩ := (Profile.updates_pos_iff hprofile).mp hupdates
      simp only [List.mem_cons, List.not_mem_nil, or_false] at hmem
      rcases hmem with rfl | rfl <;> rfl
    · have hpos := Profile.mem_insertPartitions.mpr
        ⟨inserts_pos_of_mem_toppedUpFiles htoppedUp, rfl⟩
      have hinserts : Profile.insertPartitions ⟨.insert .empty "p" ⟨1, .insert .empty "f" 1⟩⟩
          = [("p", 1)] := by decide +kernel
      rw [hinserts, List.mem_singleton] at hpos
      exact (Prod.mk.inj hpos).1
  intro fileId partition partition' h h'
  rw [hp _ _ h, hp _ _ h']

/-- Inserts that top up a file with updates in another partition are sent to that partition. -/
theorem insert_routed_to_other_partition :
    ∃ profile plan,
      Profile.ofRecords [⟨⟨"k1", "p"⟩, some ⟨"001", "f"⟩⟩, ⟨⟨"k2", "q"⟩, none⟩] = .ok profile
      ∧ build ⟨100, 10, false⟩ (fun _ => "new") profile
          (.insert .empty "q" [⟨⟨"001", "f"⟩, 0⟩]) .empty 10 = .ok plan
      ∧ plan.route ⟨"k2", "q"⟩ none = .ok 0 ∧ plan.bucket? 0 = some (.update "f" "p")
      ∧ ¬ plan.Isolated [⟨⟨"k1", "p"⟩, some ⟨"001", "f"⟩⟩, ⟨⟨"k2", "q"⟩, none⟩] := by
  have hroute : (built ⟨100, 10, false⟩ (fun _ => "new")
      ⟨.insert (.insert .empty "p" ⟨0, .insert .empty "f" 1⟩) "q" ⟨1, .empty⟩⟩
      (.insert .empty "q" [⟨⟨"001", "f"⟩, 0⟩]) .empty 10).route ⟨"k2", "q"⟩ none = .ok 0 := by
    decide +kernel
  have hbucket : (built ⟨100, 10, false⟩ (fun _ => "new")
      ⟨.insert (.insert .empty "p" ⟨0, .insert .empty "f" 1⟩) "q" ⟨1, .empty⟩⟩
      (.insert .empty "q" [⟨⟨"001", "f"⟩, 0⟩]) .empty 10).bucket? 0
        = some (.update "f" "p") := by
    decide +kernel
  refine ⟨_, _, by decide +kernel, build_eq (by decide), hroute, hbucket, fun h => ?_⟩
  obtain ⟨number, hnumber, bucket, hbucket', hpartition⟩ :=
    h.route ⟨⟨"k2", "q"⟩, none⟩ (List.mem_cons_of_mem _ List.mem_cons_self)
  cases hroute.symm.trans hnumber
  cases hbucket.symm.trans hbucket'
  exact absurd hpartition (by decide)

end Upsert.Plan
