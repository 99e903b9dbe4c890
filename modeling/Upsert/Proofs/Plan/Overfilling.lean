import Upsert.Proofs.Plan.Allocation

/-! # How full topped up files become

How much a small file can take is worked out for each entry of the list by itself, while the records
of all entries with one file id go to one bucket. A file that is listed once is filled up to the
target size at most. Of the entries with one file id, only one may get records, and no more than any
of the others has room for.
-/

namespace Upsert

namespace Greedy

variable {amount : ℕ} {capacities : List ℕ} {i j : ℕ}

theorem taken_le (amount : ℕ) (capacities : List ℕ) (i : ℕ) :
    taken amount capacities i ≤ capacities[i]?.getD 0 :=
  min_le_left _ _

/-- A vessel gets something only where the vessels before it are full. -/
theorem taken_eq_of_taken_pos (hij : i < j) (hpos : 0 < taken amount capacities j) :
    taken amount capacities i = capacities[i]?.getD 0 := by
  have hprefix : (capacities.take i).sum + capacities[i]?.getD 0
      = (capacities.take (i + 1)).sum := by
    rw [List.take_add_one, List.sum_append]
    cases capacities[i]? <;> simp
  have hle : (capacities.take (i + 1)).sum ≤ (capacities.take j).sum :=
    ((List.take_prefix_take_left (by omega)).sublist).sum_le_sum fun _ _ => Nat.zero_le _
  rw [taken] at hpos ⊢
  omega

end Greedy

namespace Sizing

variable (sizing : Sizing) (average : UInt64) (inserts : ℕ) (files : List SmallFile)

/-- The records that the entry number `i` of the list gets. -/
def poured (i : ℕ) : ℕ := Greedy.taken inserts (files.map (sizing.fitting average)) i

/-- The records that the entries with a file id get together. -/
def pouredInto (fileId : String) : ℕ :=
  ∑ i : Fin files.length,
    if files[i].fileId = fileId then sizing.poured average inserts files i else 0

/-- The entries of a file that gets records: one entry gets all of them, and each of the others has
room for them too. -/
def ToppedUpOnce : Prop :=
  ∀ i j : Fin files.length, i ≠ j → files[i].fileId = files[j].fileId →
    0 < sizing.poured average inserts files i →
    sizing.poured average inserts files j = 0
      ∧ sizing.poured average inserts files i ≤ sizing.fitting average files[j]

variable {sizing average inserts files}

theorem getD_fitting (i : Fin files.length) :
    (files.map (sizing.fitting average))[(i : ℕ)]?.getD 0 = sizing.fitting average files[i] := by
  rw [List.getElem?_map, List.getElem?_eq_getElem i.isLt]
  rfl

theorem poured_le (i : Fin files.length) :
    sizing.poured average inserts files i ≤ sizing.fitting average files[i] := by
  have hle := Greedy.taken_le inserts (files.map (sizing.fitting average)) i
  rwa [getD_fitting] at hle

theorem poured_eq_of_poured_pos {i j : Fin files.length} (hij : i < j)
    (hpos : 0 < sizing.poured average inserts files j) :
    sizing.poured average inserts files i = sizing.fitting average files[i] := by
  have heq := Greedy.taken_eq_of_taken_pos hij hpos
  rwa [getD_fitting] at heq

/-- Records fit into a file exactly where the file stays within the target size. -/
theorem le_fitting_iff (haverage : average ≠ 0) {file : SmallFile} {records : ℕ}
    (hrecords : 0 < records) :
    records ≤ sizing.fitting average file
      ↔ file.size.toNat + records * average.toNat ≤ sizing.maxFileSize.toNat := by
  have hpos : 0 < average.toNat := by
    rw [Nat.pos_iff_ne_zero]
    intro hzero
    exact haverage (UInt64.toNat_inj.mp hzero)
  have hproduct : 0 < records * average.toNat := Nat.mul_pos hrecords hpos
  rw [fitting, Nat.le_div_iff_mul_le hpos]
  omega

/-- Entries without records add nothing to a total. -/
theorem sum_filter_pos (selected : SmallFile → Prop) [DecidablePred selected]
    (pairs : List (SmallFile × ℕ)) :
    ((pairs.filter (0 < ·.2)).map fun pair => if selected pair.1 then pair.2 else 0).sum
      = (pairs.map fun pair => if selected pair.1 then pair.2 else 0).sum := by
  induction pairs with
  | nil => rfl
  | cons pair pairs ih =>
    rw [List.map_cons, List.sum_cons, ← ih]
    by_cases hpos : 0 < pair.2
    · rw [List.filter_cons_of_pos (by simpa using hpos), List.map_cons, List.sum_cons]
    · have hzero : pair.2 = 0 := by omega
      rw [List.filter_cons_of_neg (by simpa using hpos), hzero, ite_self, Nat.zero_add]

theorem sum_topUps_of_fileId (fileId : String) :
    ((sizing.topUps average inserts files).map
        fun pair => if pair.1.fileId = fileId then pair.2 else 0).sum
      = sizing.pouredInto average inserts files fileId := by
  rw [topUps, sum_filter_pos fun file => file.fileId = fileId, pouredInto, ← List.sum_ofFn]
  congr 1
  apply List.ext_getElem
  · simp [Greedy.fills]
  · intro i hi hi'
    simp [Greedy.fills, poured]

/-- Two entries of a file get no more than all of its entries do. -/
theorem poured_add_poured_le {i j : Fin files.length} (hij : i ≠ j)
    (hfile : files[i].fileId = files[j].fileId) :
    sizing.poured average inserts files i + sizing.poured average inserts files j
      ≤ sizing.pouredInto average inserts files files[j].fileId := by
  have hadd : ∀ entry : Fin files.length → ℕ, entry i + entry j ≤ ∑ k, entry k := fun entry =>
    Finset.add_le_sum (fun _ _ => Nat.zero_le _) (Finset.mem_univ i) (Finset.mem_univ j) hij
  have hle := hadd fun k =>
    if files[k].fileId = files[j].fileId then sizing.poured average inserts files k else 0
  rwa [if_pos hfile, if_pos rfl] at hle

theorem pouredInto_of_poured_eq_zero {fileId : String}
    (h : ∀ i : Fin files.length, files[i].fileId = fileId →
      sizing.poured average inserts files i = 0) :
    sizing.pouredInto average inserts files fileId = 0 := by
  apply Finset.sum_eq_zero
  intro i _
  split
  · exact h i ‹_›
  · rfl

/-- Where one entry of a file gets records and the others get none, that entry gets all of them. -/
theorem pouredInto_eq_poured {fileId : String} {i : Fin files.length}
    (hfile : files[i].fileId = fileId)
    (h : ∀ j : Fin files.length, j ≠ i → files[j].fileId = fileId →
      sizing.poured average inserts files j = 0) :
    sizing.pouredInto average inserts files fileId = sizing.poured average inserts files i := by
  rw [pouredInto, Finset.sum_eq_single i, if_pos hfile]
  · intro j _ hji
    split
    · exact h j hji ‹_›
    · rfl
  · intro hnot
    exact absurd (Finset.mem_univ i) hnot

/-- All entries of all files have room for what their files get if and only if every file is topped
up once. -/
theorem pouredInto_le_fitting_iff :
    (∀ j : Fin files.length,
        sizing.pouredInto average inserts files files[j].fileId ≤ sizing.fitting average files[j])
      ↔ sizing.ToppedUpOnce average inserts files := by
  constructor
  · intro hroom i j hij hfile hpos
    have htwo : sizing.poured average inserts files i + sizing.poured average inserts files j
        ≤ sizing.pouredInto average inserts files files[j].fileId :=
      poured_add_poured_le hij hfile
    have hi := hroom i
    have hj := hroom j
    rw [hfile] at hi
    refine ⟨?_, by omega⟩
    by_contra hne
    -- the first of the two entries is full, so there is no room for the other one
    rcases lt_or_gt_of_ne hij with hlt | hlt
    · have hfull := poured_eq_of_poured_pos hlt (Nat.pos_of_ne_zero hne)
      omega
    · have hfull := poured_eq_of_poured_pos hlt hpos
      omega
  · intro honce j
    by_cases hnone : ∀ i : Fin files.length, files[i].fileId = files[j].fileId →
        sizing.poured average inserts files i = 0
    · rw [pouredInto_of_poured_eq_zero hnone]
      exact Nat.zero_le _
    · push Not at hnone
      obtain ⟨i, hfile, hne⟩ := hnone
      have hpos : 0 < sizing.poured average inserts files i := Nat.pos_of_ne_zero hne
      rw [pouredInto_eq_poured hfile fun k hki hk =>
        (honce i k (Ne.symm hki) (hfile.trans hk.symm) hpos).1]
      by_cases hij : i = j
      · subst hij
        exact poured_le i
      · exact (honce i j hij hfile hpos).2

theorem toppedUpOnce_of_nodup (h : (files.map (·.fileId)).Nodup) :
    sizing.ToppedUpOnce average inserts files := by
  intro i j hij hfile
  refine absurd (Fin.ext ?_) hij
  have hget : (files.map (·.fileId))[(i : ℕ)]? = (files.map (·.fileId))[(j : ℕ)]? := by
    rw [List.getElem?_map, List.getElem?_map, List.getElem?_eq_getElem i.isLt,
      List.getElem?_eq_getElem j.isLt]
    exact congrArg some hfile
  exact (List.getElem?_inj (by simp) h).mp hget

end Sizing

namespace Plan

variable {sizing : Sizing} {fresh : ℕ → String} {demand : Demand} {middle final : Plan}

/-- The files that are topped up stay within the target size. -/
def FillsWithinTarget (plan : Plan) (sizing : Sizing) (average : UInt64) (share : InsertShare)
    (files : List SmallFile) : Prop :=
  ∀ file ∈ files, ∀ bucket, plan.updateBucket? file.fileId = some bucket →
    0 < share.recordsIn bucket →
    file.size.toNat + share.recordsIn bucket * average.toNat ≤ sizing.maxFileSize.toNat

theorem Consistent.updateBucket?_inj {plan : Plan} (h : plan.Consistent) {fileId other : String}
    {number : ℕ} (hfile : plan.updateBucket? fileId = some number)
    (hother : plan.updateBucket? other = some number) : fileId = other := by
  obtain ⟨partition, hbucket⟩ := h.bucket_of_update hfile
  obtain ⟨partition', hbucket'⟩ := h.bucket_of_update hother
  rw [hbucket, Option.some.injEq, Bucket.update.injEq] at hbucket'
  exact hbucket'.1

/-- What goes to the bucket of a file is what the entries of the file get. -/
theorem AssignedFrom.recordsIn (h : AssignedFrom sizing fresh demand middle final)
    (hfinal : final.Consistent) {fileId : String} {bucket : ℕ}
    (hupdate : final.updateBucket? fileId = some bucket) :
    (middle.shareOf sizing demand).recordsIn bucket
      = sizing.pouredInto middle.averageRecordSize demand.inserts.toNat demand.files fileId := by
  have hview : (middle.shareOf sizing demand).recordsIn bucket
      = (((middle.shareOf sizing demand).allocations.map
          fun a => (some a.bucket, a.records.toNat)).map
            fun pair => if pair.1 = some bucket then pair.2 else 0).sum := by
    rw [List.map_map, InsertShare.recordsIn]
    simp [Function.comp_def]
  -- the bucket is that of no other file
  have hfiles : ∀ file : SmallFile,
      final.updateBucket? file.fileId = some bucket ↔ file.fileId = fileId := by
    intro file
    constructor
    · intro hother
      exact hfinal.updateBucket?_inj hother hupdate
    · intro heq
      rw [heq, hupdate]
  -- and it is no insert bucket
  have hnew : (((demand.loads sizing middle.averageRecordSize).mapIdx fun i load =>
      (some (middle.firstNew sizing demand + i), load)).map
        fun pair => if pair.1 = some bucket then pair.2 else 0).sum = 0 := by
    apply List.sum_eq_zero
    intro records hrecords
    obtain ⟨pair, hpair, rfl⟩ := List.mem_map.mp hrecords
    obtain ⟨i, hi, rfl⟩ := List.mem_mapIdx.mp hpair
    apply if_neg
    intro heq
    have hinsert := h.insert_bucket_iff.mpr ⟨i, hi, rfl, rfl⟩
    obtain ⟨partition, hbucket⟩ := hfinal.bucket_of_update hupdate
    rw [Option.some.inj heq, hbucket] at hinsert
    cases hinsert
  rw [hview, h.map_allocations, List.map_append, List.sum_append, hnew, Nat.add_zero, List.map_map,
    ← Sizing.sum_topUps_of_fileId]
  simp only [Function.comp_def, hfiles]
  rfl

/-- A file that gets records has a bucket in the finished plan. -/
theorem AssignedFrom.exists_updateBucket? (h : AssignedFrom sizing fresh demand middle final)
    {fileId : String}
    (hpos : 0 < sizing.pouredInto middle.averageRecordSize demand.inserts.toNat demand.files
      fileId) :
    ∃ bucket, final.updateBucket? fileId = some bucket := by
  have hfile : fileId ∈ demand.toppedUpFiles sizing middle.averageRecordSize := by
    by_contra hnone
    rw [← Sizing.sum_topUps_of_fileId, List.sum_eq_zero] at hpos
    · exact absurd hpos (lt_irrefl 0)
    · intro records hrecords
      obtain ⟨pair, hpair, rfl⟩ := List.mem_map.mp hrecords
      apply if_neg
      intro heq
      exact hnone (List.mem_map.mpr ⟨pair, hpair, heq⟩)
  exact ⟨_, h.updateBucket? hfile⟩

theorem AssignedFrom.fillsWithinTarget_iff (h : AssignedFrom sizing fresh demand middle final)
    (hfinal : final.Consistent) (haverage : middle.averageRecordSize ≠ 0) :
    final.FillsWithinTarget sizing middle.averageRecordSize (middle.shareOf sizing demand)
        demand.files
      ↔ sizing.ToppedUpOnce middle.averageRecordSize demand.inserts.toNat demand.files := by
  rw [← Sizing.pouredInto_le_fitting_iff]
  constructor
  · intro hfills j
    rcases Nat.eq_zero_or_pos (sizing.pouredInto middle.averageRecordSize demand.inserts.toNat
      demand.files demand.files[j].fileId) with hzero | hpos
    · rw [hzero]
      exact Nat.zero_le _
    · obtain ⟨bucket, hbucket⟩ := h.exists_updateBucket? hpos
      have hrecords := h.recordsIn hfinal hbucket
      rw [← hrecords] at hpos ⊢
      rw [Sizing.le_fitting_iff haverage hpos]
      exact hfills _ (List.getElem_mem j.isLt) bucket hbucket hpos
  · intro hroom file hfile bucket hbucket hpos
    obtain ⟨j, hj, rfl⟩ := List.mem_iff_getElem.mp hfile
    rw [← Sizing.le_fitting_iff haverage hpos, h.recordsIn hfinal hbucket]
    exact hroom ⟨j, hj⟩

/-- The small files of a partition stay within the target size if and only if each of them is topped
up once, which is so where no file id is listed twice. -/
theorem small_files_within_target_iff (sizing : Sizing) (fresh : ℕ → String) (profile : Profile)
    (smallFiles : SortedMap (List SmallFile)) (pending : SortedMap KeySet) {average : UInt64}
    (haverage : average ≠ 0) :
    ∃ plan, build sizing fresh profile smallFiles pending average = .ok plan
      ∧ ∀ partition, 0 < profile.inserts partition →
        let files := (smallFiles.findD partition []).filter fun file =>
          !(pending.findD partition .empty).contains file.fileId
        ∃ share, plan.shares.find? partition = some share
          ∧ (plan.FillsWithinTarget sizing average share files
            ↔ sizing.ToppedUpOnce average (profile.inserts partition).toNat files)
          ∧ ((files.map (·.fileId)).Nodup →
            plan.FillsWithinTarget sizing average share files) := by
  obtain ⟨plan, hplan⟩ := exists_build haverage
  refine ⟨plan, hplan, fun partition hpos => ?_⟩
  obtain ⟨middle, rfl, h⟩ := exists_assignedFrom_of_build hplan hpos
  intro files
  have hiff := h.fillsWithinTarget_iff (consistent_of_build hplan) haverage
  refine ⟨_, h.share, hiff, fun hnodup => ?_⟩
  exact hiff.mpr (Sizing.toppedUpOnce_of_nodup hnodup)

/-- The file `x`, which is listed twice, is under pending clustering. -/
theorem small_files_within_target_distinct :
    (10 : UInt64) ≠ 0
      ∧ 0 < Profile.inserts ⟨.insert .empty "p" ⟨20, .empty⟩⟩ "p"
      ∧ ∃ plan share, build ⟨100, 10, false⟩ (fun _ => "new") ⟨.insert .empty "p" ⟨20, .empty⟩⟩
          (.insert .empty "p" [⟨⟨"001", "x"⟩, 0⟩, ⟨⟨"001", "f"⟩, 30⟩, ⟨⟨"001", "g"⟩, 0⟩,
            ⟨⟨"001", "x"⟩, 0⟩])
          (.insert .empty "p" (.add .empty "x")) 10 = .ok plan
        ∧ plan.shares.find? "p" = some share
        ∧ plan.FillsWithinTarget ⟨100, 10, false⟩ 10 share
          [⟨⟨"001", "f"⟩, 30⟩, ⟨⟨"001", "g"⟩, 0⟩] := by
  obtain ⟨plan, hplan, hfills⟩ := small_files_within_target_iff ⟨100, 10, false⟩ (fun _ => "new")
    ⟨.insert .empty "p" ⟨20, .empty⟩⟩
    (.insert .empty "p" [⟨⟨"001", "x"⟩, 0⟩, ⟨⟨"001", "f"⟩, 30⟩, ⟨⟨"001", "g"⟩, 0⟩,
      ⟨⟨"001", "x"⟩, 0⟩])
    (.insert .empty "p" (.add .empty "x"))
    (show (10 : UInt64) ≠ 0 by decide)
  have hinserts : 0 < Profile.inserts ⟨.insert .empty "p" ⟨20, .empty⟩⟩ "p" := by decide +kernel
  obtain ⟨share, hshare, -, hdistinct⟩ := hfills "p" hinserts
  exact ⟨by decide, hinserts, plan, share, hplan, hshare, hdistinct (by decide +kernel)⟩

/-- A file that is listed twice is topped up twice, beyond the target size. -/
theorem file_overfilled_of_listed_twice :
    ∃ plan share, build ⟨100, 10, false⟩ (fun _ => "new") ⟨.insert .empty "p" ⟨20, .empty⟩⟩
        (.insert .empty "p" [⟨⟨"001", "f"⟩, 0⟩, ⟨⟨"001", "f"⟩, 0⟩]) .empty 10 = .ok plan
      ∧ plan.shares.find? "p" = some share
      ∧ plan.updateBucket? "f" = some 0 ∧ share.recordsIn 0 = 20
      ∧ ¬ plan.FillsWithinTarget ⟨100, 10, false⟩ 10 share
          [⟨⟨"001", "f"⟩, 0⟩, ⟨⟨"001", "f"⟩, 0⟩] := by
  have hshare : ∃ share, (built ⟨100, 10, false⟩ (fun _ => "new")
      ⟨.insert .empty "p" ⟨20, .empty⟩⟩
      (.insert .empty "p" [⟨⟨"001", "f"⟩, 0⟩, ⟨⟨"001", "f"⟩, 0⟩]) .empty 10).shares.find? "p"
        = some share ∧ share.recordsIn 0 = 20 :=
    ⟨_, rfl, by decide +kernel⟩
  have hupdate : (built ⟨100, 10, false⟩ (fun _ => "new")
      ⟨.insert .empty "p" ⟨20, .empty⟩⟩
      (.insert .empty "p" [⟨⟨"001", "f"⟩, 0⟩, ⟨⟨"001", "f"⟩, 0⟩]) .empty 10).updateBucket? "f"
        = some 0 := by
    decide +kernel
  obtain ⟨share, hshare, hrecords⟩ := hshare
  refine ⟨_, share, build_eq (by decide), hshare, hupdate, hrecords, fun hfills => ?_⟩
  have hover := hfills ⟨⟨"001", "f"⟩, 0⟩ List.mem_cons_self 0 hupdate (by omega)
  rw [hrecords] at hover
  exact absurd hover (by decide)

end Plan

end Upsert
