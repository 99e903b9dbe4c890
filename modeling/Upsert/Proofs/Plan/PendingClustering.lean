import Upsert.Proofs.Plan.Routing

/-! # Files under pending clustering

Only the small files of a partition that are not under pending clustering there are topped up
(`not_pending_of_mem_toppedUpFiles`). An insert table holds numbers of buckets, though, and not
files, and a file may have its bucket from elsewhere: from updates, from another partition, from an
earlier entry of the list. What carries the exclusion over to the table is that the bucket which a
plan knows for a file is an update bucket of that very file (`Consistent`).

Updates are not concerned. Their buckets are opened before any insert is assigned, and so they are
the same whatever is under pending clustering.
-/

namespace Upsert.Plan

variable {sizing : Sizing} {fresh : ℕ → String} {profile : Profile}
  {smallFiles : SortedMap (List SmallFile)} {pending : SortedMap KeySet} {average : UInt64}
  {partition fileId : String}

/-! ## Inserts -/

theorem not_pending_of_mem_toppedUpFiles
    (h : fileId ∈ (profile.demand smallFiles pending partition).toppedUpFiles sizing average) :
    (pending.findD partition .empty).contains fileId = false := by
  obtain ⟨⟨file, records⟩, htopUp, rfl⟩ := List.mem_map.mp h
  have hcandidate := (Sizing.mem_topUps _ _ _ _ htopUp).1
  have hkept : (!(pending.findD partition .empty).contains file.fileId) = true :=
    (List.mem_filter.mp hcandidate).2
  simpa using hkept

section

variable {plan : Plan}
  (hplan : build sizing fresh profile smallFiles pending average = .ok plan)
include hplan

/-- An update bucket in the table of a partition is that of a file which the partition may top
up. -/
theorem not_pending_of_mem_entries {table : InsertTable}
    (htable : plan.insertTable? partition = some table) {entry : InsertEntry}
    (hentry : entry ∈ table.entries) {owner : String}
    (hbucket : plan.bucket? entry.bucket = some (.update fileId owner)) :
    (pending.findD partition .empty).contains fileId = false := by
  rcases entry_cases hplan htable hentry with ⟨other, hother, hupdate⟩ | ⟨freshId, hinsert⟩
  · -- the bucket was looked up by the file id of a candidate, and is a bucket of that file
    obtain ⟨owner', hbucket'⟩ := (consistent_of_build hplan).bucket_of_update hupdate
    rw [hbucket, Option.some.injEq] at hbucket'
    cases hbucket'
    exact not_pending_of_mem_toppedUpFiles hother
  · rw [hbucket] at hinsert
    cases hinsert

/-- The small files of a plan are those of its partitions that are not under pending clustering, in
order. -/
theorem smallFiles_of_build :
    plan.smallFiles = profile.insertPartitions.flatMap fun (partition, _) =>
      SmallFile.notPending smallFiles pending partition := by
  rw [eq_built_of_build hplan, built, smallFiles_assignedAll, smallFiles_assignUpdates,
    List.nil_append, Profile.demands, List.flatMap_map]

end

/-! ## Updates -/

/-- The updates of a file have a bucket in their partition, and the bucket that the plan knows for
the file does not depend on what is under pending clustering. -/
theorem exists_updateBucket?_of_any_pending (sizing : Sizing) (fresh : ℕ → String)
    (smallFiles : SortedMap (List SmallFile)) (average : UInt64)
    (h : 0 < profile.updates partition fileId) :
    ∃ own number owner, ∀ pending plan,
      build sizing fresh profile smallFiles pending average = .ok plan →
        plan.bucket? own = some (.update fileId partition)
        ∧ plan.updateBucket? fileId = some number
        ∧ plan.bucket? number = some (.update fileId owner) := by
  obtain ⟨own, hown⟩ := exists_bucket?_assignUpdates average h
  obtain ⟨number, owner, hupdate, hbucket⟩ := exists_updateBucket?_assignUpdates average h
  refine ⟨own, number, owner, fun pending plan hplan => ?_⟩
  have hgrows := extends_of_build hplan
  exact ⟨hgrows.bucket hown, hgrows.update hupdate, hgrows.bucket hbucket⟩

/-- Files under pending clustering in a partition are not topped up by it. No entry of its table is
an update bucket of such a file, and the small files of the plan are those of each partition with
inserts that are not under pending clustering there, whether they get records or not. The updates of
every file keep the bucket that they would have without pending clustering. -/
theorem pending_files_not_topped_up (sizing : Sizing) (fresh : ℕ → String) (profile : Profile)
    (smallFiles : SortedMap (List SmallFile)) (pending : SortedMap KeySet) {average : UInt64}
    (haverage : average ≠ 0) :
    ∃ plan, build sizing fresh profile smallFiles pending average = .ok plan
      ∧ (∀ partition, 0 < profile.inserts partition →
          ∃ table, plan.insertTable? partition = some table ∧ 0 < table.size
            ∧ ∀ entry ∈ table.entries, ∀ fileId owner,
              plan.bucket? entry.bucket = some (.update fileId owner) →
                (pending.findD partition .empty).contains fileId = false)
      ∧ plan.smallFiles = (profile.insertPartitions.flatMap fun (partition, _) =>
          (smallFiles.findD partition []).filter fun file =>
            !(pending.findD partition .empty).contains file.fileId)
      ∧ ∀ partition fileId, 0 < profile.updates partition fileId →
          ∃ own number owner, plan.bucket? own = some (.update fileId partition)
            ∧ plan.updateBucket? fileId = some number
            ∧ plan.bucket? number = some (.update fileId owner)
            ∧ ∃ unblocked, build sizing fresh profile smallFiles .empty average = .ok unblocked
              ∧ unblocked.updateBucket? fileId = some number := by
  obtain ⟨plan, hplan⟩ := exists_build haverage
  refine ⟨plan, hplan, fun partition hpos => ?_, smallFiles_of_build hplan,
    fun partition fileId hupdates => ?_⟩
  · obtain ⟨table, htable, hsize⟩ := exists_insertTable? hplan hpos
    refine ⟨table, htable, hsize, fun entry hentry fileId owner hbucket => ?_⟩
    exact not_pending_of_mem_entries hplan htable hentry hbucket
  · obtain ⟨own, number, owner, hany⟩ :=
      exists_updateBucket?_of_any_pending sizing fresh smallFiles average hupdates
    obtain ⟨hown, hnumber, howner⟩ := hany pending plan hplan
    obtain ⟨unblocked, hunblocked⟩ := exists_build haverage
    exact ⟨own, number, owner, hown, hnumber, howner, unblocked, hunblocked,
      (hany .empty unblocked hunblocked).2.1⟩

/-- The file `u` has updates, is listed twice and is under pending clustering. -/
theorem pending_file_with_updates_not_topped_up :
    (10 : UInt64) ≠ 0
      ∧ 0 < Profile.inserts ⟨.insert .empty "p" ⟨12, .insert .empty "u" 1⟩⟩ "p"
      ∧ 0 < Profile.updates ⟨.insert .empty "p" ⟨12, .insert .empty "u" 1⟩⟩ "p" "u"
      ∧ ∃ plan table, build ⟨100, 10, false⟩ (fun _ => "new")
          ⟨.insert .empty "p" ⟨12, .insert .empty "u" 1⟩⟩
          (.insert .empty "p" [⟨⟨"001", "u"⟩, 0⟩, ⟨⟨"001", "f"⟩, 70⟩, ⟨⟨"001", "u"⟩, 0⟩])
          (.insert .empty "p" (.add .empty "u")) 10 = .ok plan
        ∧ plan.insertTable? "p" = some table ∧ 0 < table.size
        ∧ (∀ entry ∈ table.entries, ∀ owner,
          plan.bucket? entry.bucket ≠ some (.update "u" owner))
        ∧ plan.smallFiles = [⟨⟨"001", "f"⟩, 70⟩]
        ∧ ∃ own, plan.bucket? own = some (.update "u" "p") := by
  obtain ⟨plan, hplan, htables, hfiles, hupdates⟩ := pending_files_not_topped_up ⟨100, 10, false⟩
    (fun _ => "new") ⟨.insert .empty "p" ⟨12, .insert .empty "u" 1⟩⟩
    (.insert .empty "p" [⟨⟨"001", "u"⟩, 0⟩, ⟨⟨"001", "f"⟩, 70⟩, ⟨⟨"001", "u"⟩, 0⟩])
    (.insert .empty "p" (.add .empty "u")) (show (10 : UInt64) ≠ 0 by decide)
  have hinserts : 0 < Profile.inserts ⟨.insert .empty "p" ⟨12, .insert .empty "u" 1⟩⟩ "p" := by
    decide +kernel
  have hupdate : 0 < Profile.updates ⟨.insert .empty "p" ⟨12, .insert .empty "u" 1⟩⟩ "p" "u" := by
    decide +kernel
  obtain ⟨table, htable, hsize, hentries⟩ := htables "p" hinserts
  obtain ⟨own, -, -, hown, -⟩ := hupdates "p" "u" hupdate
  refine ⟨by decide, hinserts, hupdate, plan, table, hplan, htable, hsize, ?_, ?_, own, hown⟩
  · intro entry hentry owner hbucket
    have hnot := hentries entry hentry "u" owner hbucket
    exact absurd hnot (by decide +kernel)
  · rw [hfiles]
    decide +kernel

end Upsert.Plan
