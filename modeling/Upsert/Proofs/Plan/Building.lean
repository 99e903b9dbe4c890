import Upsert.Proofs.Plan.Assignment

/-! # Building a plan, step by step

A plan is built by opening the update buckets of the batch and then assigning the inserts of one
partition after the other, so it is a fold of `assigned` over the demands of the batch
(`build_eq`). Whatever the three steps of growing keep is kept by the whole run (`Kept`), and
`bucket?_assigned` says which buckets one partition adds.

The inserts of a partition are assigned once; `exists_assignedFrom` looks up the moment at which
that happens, and says that the finished plan still has everything that was settled then.
-/

namespace Upsert

/-- The small files of a partition that are not under pending clustering there. -/
def SmallFile.notPending (smallFiles : SortedMap (List SmallFile)) (pending : SortedMap KeySet)
    (partition : String) : List SmallFile :=
  (smallFiles.findD partition []).filter fun file =>
    !(pending.findD partition .empty).contains file.fileId

/-- What a batch demands: the inserts of its partitions, with the small files of each that may be
topped up. -/
def Profile.demands (profile : Profile) (smallFiles : SortedMap (List SmallFile))
    (pending : SortedMap KeySet) : List Demand :=
  profile.insertPartitions.map fun (partition, inserts) =>
    ⟨partition, inserts, SmallFile.notPending smallFiles pending partition⟩

namespace Plan

variable {sizing : Sizing} {fresh : ℕ → String}

/-- The plan with the inserts of several partitions assigned in turn. -/
def assignedAll (sizing : Sizing) (fresh : ℕ → String) (plan : Plan) (demands : List Demand) :
    Plan :=
  demands.foldl (assigned sizing fresh) plan

/-- The plan of a batch. -/
def built (sizing : Sizing) (fresh : ℕ → String) (profile : Profile)
    (smallFiles : SortedMap (List SmallFile)) (pending : SortedMap KeySet) (average : UInt64) :
    Plan :=
  ((empty average).assignUpdates profile).assignedAll sizing fresh
    (profile.demands smallFiles pending)

/-! ## What every step keeps -/

/-- The steps by which inserts are assigned keep a property of plans. -/
structure Kept (fresh : ℕ → String) (property : Plan → Prop) : Prop
    extends KeptByOpening fresh property where
  record : ∀ {plan}, property plan → ∀ partition share files,
    property (plan.record partition share files)

namespace Kept

variable {property : Plan → Prop} {plan : Plan}

theorem assigned (h : Kept fresh property) (hplan : property plan) (demand : Demand) :
    property (plan.assigned sizing fresh demand) := by
  have htoppedUp : property (plan.toppedUp sizing demand) := h.ensureUpdates hplan _ _
  exact h.record (h.openNew htoppedUp _ _) _ _ _

theorem assignedAll (h : Kept fresh property) (hplan : property plan) (demands : List Demand) :
    property (plan.assignedAll sizing fresh demands) := by
  induction demands generalizing plan with
  | nil => exact hplan
  | cons demand demands ih => exact ih (h.assigned hplan demand)

end Kept

theorem kept_extends (fresh : ℕ → String) (plan : Plan) : Kept fresh plan.Extends where
  toKeptByOpening := keptByOpening_extends fresh plan
  record h _ _ _ := ⟨h.bucket, h.update, h.numBuckets, h.averageRecordSize⟩

theorem kept_consistent (fresh : ℕ → String) : Kept fresh Consistent where
  toKeptByOpening := keptByOpening_consistent fresh
  record h _ _ _ := ⟨h.bucket_of_update, h.update_of_bucket⟩

theorem extends_assigned (sizing : Sizing) (fresh : ℕ → String) (plan : Plan) (demand : Demand) :
    plan.Extends (plan.assigned sizing fresh demand) :=
  (kept_extends fresh plan).assigned (Extends.refl plan) demand

theorem extends_assignedAll (sizing : Sizing) (fresh : ℕ → String) (plan : Plan)
    (demands : List Demand) :
    plan.Extends (plan.assignedAll sizing fresh demands) :=
  (kept_extends fresh plan).assignedAll (Extends.refl plan) demands

/-! ## The update buckets of the batch -/

/-- The plan with an update bucket opened for each of several files, which are given with their
partitions. -/
def openUpdates (plan : Plan) (files : List (String × String)) : Plan :=
  files.foldl (fun plan (partition, fileId) => plan.openUpdate partition fileId) plan

theorem openUpdates_cons (plan : Plan) (file : String × String) (files : List (String × String)) :
    plan.openUpdates (file :: files) = (plan.openUpdate file.1 file.2).openUpdates files := rfl

theorem buckets_openUpdates (plan : Plan) (files : List (String × String)) :
    (plan.openUpdates files).buckets.toList
      = plan.buckets.toList ++ files.map fun (partition, fileId) => .update fileId partition := by
  induction files generalizing plan with
  | nil => exact (List.append_nil _).symm
  | cons file files ih =>
    have hpush : (plan.openUpdate file.1 file.2).buckets.toList
        = plan.buckets.toList ++ [.update file.2 file.1] := Array.toList_push
    rw [openUpdates_cons, ih, hpush, List.map_cons, List.append_assoc]
    rfl

/-- Opening update buckets leaves the rest of the plan alone. -/
theorem openUpdates_induction (property : Plan → Prop)
    (hopen : ∀ {plan}, property plan → ∀ partition fileId,
      property (plan.openUpdate partition fileId))
    {plan : Plan} (hplan : property plan) (files : List (String × String)) :
    property (plan.openUpdates files) := by
  induction files generalizing plan with
  | nil => exact hplan
  | cons file files ih => exact ih (hopen hplan file.1 file.2)

/-- One update bucket is opened for each updated file, in order. -/
theorem bucket?_assignUpdates (average : UInt64) (profile : Profile) (number : ℕ) :
    ((empty average).assignUpdates profile).bucket? number
      = profile.updatedFiles[number]?.map fun (partition, fileId) =>
          .update fileId partition := by
  have hbuckets : ((empty average).assignUpdates profile).buckets.toList
      = profile.updatedFiles.map fun (partition, fileId) => .update fileId partition :=
    buckets_openUpdates (empty average) profile.updatedFiles
  rw [bucket?, ← Array.getElem?_toList, hbuckets, List.getElem?_map]

theorem bucket?_assignUpdates_eq_some_iff {average : UInt64} {profile : Profile} {number : ℕ}
    {fileId partition : String} :
    ((empty average).assignUpdates profile).bucket? number = some (.update fileId partition)
      ↔ profile.updatedFiles[number]? = some (partition, fileId) := by
  rw [bucket?_assignUpdates, Option.map_eq_some_iff]
  constructor
  · rintro ⟨⟨_, _⟩, hfile, heq⟩
    cases heq
    exact hfile
  · intro hfile
    exact ⟨_, hfile, rfl⟩

theorem consistent_assignUpdates (average : UInt64) (profile : Profile) :
    ((empty average).assignUpdates profile).Consistent :=
  openUpdates_induction Consistent (fun h => h.openUpdate) (consistent_empty average) _

theorem averageRecordSize_assignUpdates (average : UInt64) (profile : Profile) :
    ((empty average).assignUpdates profile).averageRecordSize = average :=
  openUpdates_induction (·.averageRecordSize = average) (fun h _ _ => h) rfl _

theorem shares_assignUpdates (average : UInt64) (profile : Profile) :
    ((empty average).assignUpdates profile).shares = .empty :=
  openUpdates_induction (·.shares = .empty) (fun h _ _ => h) rfl _

theorem smallFiles_assignUpdates (average : UInt64) (profile : Profile) :
    ((empty average).assignUpdates profile).smallFiles = [] :=
  openUpdates_induction (·.smallFiles = []) (fun h _ _ => h) rfl _

/-! ## What one partition adds -/

/-- The number of the first insert bucket that is opened for the inserts of a partition. -/
def firstNew (sizing : Sizing) (plan : Plan) (demand : Demand) : ℕ :=
  (plan.toppedUp sizing demand).numBuckets

theorem bucket?_assigned_eq (plan : Plan) (demand : Demand) (number : ℕ) :
    (plan.assigned sizing fresh demand).bucket? number
      = if plan.firstNew sizing demand ≤ number ∧ number < plan.firstNew sizing demand
            + (demand.loads sizing plan.averageRecordSize).length then
          some (.insert (fresh ((plan.toppedUp sizing demand).freshIds
            + (number - plan.firstNew sizing demand))) demand.partition)
        else (plan.toppedUp sizing demand).bucket? number :=
  bucket?_openNew ..

/-- A bucket of the grown plan is an old one, or an update bucket of a file that is topped up, or
one of the new insert buckets. -/
theorem bucket?_assigned {plan : Plan} {demand : Demand} {number : ℕ} {bucket : Bucket}
    (h : (plan.assigned sizing fresh demand).bucket? number = some bucket) :
    plan.bucket? number = some bucket
      ∨ (∃ fileId ∈ demand.toppedUpFiles sizing plan.averageRecordSize,
          bucket = .update fileId demand.partition)
      ∨ ((∃ freshId, bucket = .insert freshId demand.partition)
          ∧ plan.firstNew sizing demand ≤ number
          ∧ number < plan.firstNew sizing demand
              + (demand.loads sizing plan.averageRecordSize).length) := by
  rw [bucket?_assigned_eq] at h
  split at h
  · rename_i hrange
    cases h
    exact Or.inr (Or.inr ⟨⟨_, rfl⟩, hrange⟩)
  · rcases bucket?_ensureUpdates h with h | h
    · exact Or.inl h
    · exact Or.inr (Or.inl h)

/-- A bucket that a run adds belongs to a partition of the run; an update bucket among them is the
bucket of a file that the partition tops up. -/
theorem bucket?_assignedAll {plan : Plan} {demands : List Demand} {number : ℕ} {bucket : Bucket}
    (h : (plan.assignedAll sizing fresh demands).bucket? number = some bucket) :
    plan.bucket? number = some bucket
      ∨ ∃ demand ∈ demands, bucket.partition = demand.partition
          ∧ ∀ fileId partition, bucket = .update fileId partition →
              fileId ∈ demand.toppedUpFiles sizing plan.averageRecordSize := by
  induction demands generalizing plan with
  | nil => exact Or.inl h
  | cons demand demands ih =>
    rcases ih h with h | ⟨other, hother, hadded⟩
    · -- the first demand added the bucket, if it is not an old one
      rcases bucket?_assigned h with h | ⟨fileId, hfile, rfl⟩ | ⟨⟨freshId, rfl⟩, -⟩
      · exact Or.inl h
      · refine Or.inr ⟨demand, List.mem_cons_self, rfl, fun other partition heq => ?_⟩
        cases heq
        exact hfile
      · refine Or.inr ⟨demand, List.mem_cons_self, rfl, fun other partition heq => ?_⟩
        cases heq
    · rw [(extends_assigned sizing fresh plan demand).averageRecordSize] at hadded
      exact Or.inr ⟨other, List.mem_cons_of_mem _ hother, hadded⟩

theorem shares_assigned (plan : Plan) (demand : Demand) :
    (plan.assigned sizing fresh demand).shares
      = plan.shares.insert demand.partition (plan.shareOf sizing demand) := by
  have hkept := keptByOpening_eq fresh (·.shares) (fun _ _ _ => rfl) (fun _ _ => rfl) plan.shares
  have htoppedUp : (plan.toppedUp sizing demand).shares = plan.shares :=
    hkept.ensureUpdates rfl _ _
  rw [assigned, record, hkept.openNew htoppedUp]

theorem smallFiles_assigned (plan : Plan) (demand : Demand) :
    (plan.assigned sizing fresh demand).smallFiles = plan.smallFiles ++ demand.files := by
  have hkept := keptByOpening_eq fresh (·.smallFiles) (fun _ _ _ => rfl) (fun _ _ => rfl)
    plan.smallFiles
  have htoppedUp : (plan.toppedUp sizing demand).smallFiles = plan.smallFiles :=
    hkept.ensureUpdates rfl _ _
  rw [assigned, record, hkept.openNew htoppedUp]

/-- A run lists the small files of its demands, in order. -/
theorem smallFiles_assignedAll (plan : Plan) (demands : List Demand) :
    (plan.assignedAll sizing fresh demands).smallFiles
      = plan.smallFiles ++ demands.flatMap (·.files) := by
  induction demands generalizing plan with
  | nil => exact (List.append_nil _).symm
  | cons demand demands ih =>
    have hrest := ih (plan.assigned sizing fresh demand)
    rw [smallFiles_assigned, List.append_assoc] at hrest
    rw [List.flatMap_cons]
    exact hrest

theorem find?_shares_assignedAll {plan : Plan} {demands : List Demand} {partition : String}
    (h : ∀ demand ∈ demands, demand.partition ≠ partition) :
    (plan.assignedAll sizing fresh demands).shares.find? partition
      = plan.shares.find? partition := by
  induction demands generalizing plan with
  | nil => rfl
  | cons demand demands ih =>
    have hrest := @ih (plan.assigned sizing fresh demand)
      fun other hother => h other (List.mem_cons_of_mem _ hother)
    rw [shares_assigned, SortedMap.find?_insert_of_ne (h demand List.mem_cons_self).symm] at hrest
    exact hrest

/-! ## The moment at which a partition is planned -/

/-- The inserts of `demand` were assigned to `middle`, and `final` still has all of it: the buckets,
the share, and no other insert bucket for the partition. -/
structure AssignedFrom (sizing : Sizing) (fresh : ℕ → String) (demand : Demand)
    (middle final : Plan) : Prop where
  grows : (middle.assigned sizing fresh demand).Extends final
  share : final.shares.find? demand.partition = some (middle.shareOf sizing demand)
  new : ∀ {number freshId}, final.bucket? number = some (.insert freshId demand.partition) →
    middle.firstNew sizing demand ≤ number
      ∧ number < middle.firstNew sizing demand
          + (demand.loads sizing middle.averageRecordSize).length

/-- Every partition of a run with distinct partitions is planned at some moment of the run. -/
theorem exists_assignedFrom (sizing : Sizing) (fresh : ℕ → String) {plan : Plan}
    {demands : List Demand} {demand : Demand}
    (hdistinct : demands.Pairwise fun one other => one.partition ≠ other.partition)
    (hnone : ∀ number freshId, plan.bucket? number ≠ some (.insert freshId demand.partition))
    (h : demand ∈ demands) :
    ∃ middle, plan.Extends middle
      ∧ AssignedFrom sizing fresh demand middle (plan.assignedAll sizing fresh demands) := by
  -- the run is taken apart at the demand
  obtain ⟨before, after, rfl⟩ := List.append_of_mem h
  rw [List.pairwise_append, List.pairwise_cons] at hdistinct
  obtain ⟨-, ⟨hafter, -⟩, hbefore⟩ := hdistinct
  have hrun : plan.assignedAll sizing fresh (before ++ demand :: after)
      = ((plan.assignedAll sizing fresh before).assigned sizing fresh demand).assignedAll
          sizing fresh after :=
    List.foldl_append ..
  rw [hrun]
  refine ⟨plan.assignedAll sizing fresh before, extends_assignedAll sizing fresh plan before,
    extends_assignedAll sizing fresh _ after, ?_, ?_⟩
  · rw [find?_shares_assignedAll fun other hother => (hafter other hother).symm, shares_assigned,
      SortedMap.find?_insert_self]
  · -- the other demands open no insert bucket for this partition, before or after
    intro number freshId hbucket
    rcases bucket?_assignedAll hbucket with hbucket | ⟨other, hother, hpartition, -⟩
    · rcases bucket?_assigned hbucket with hbucket | ⟨_, _, heq⟩ | ⟨-, hrange⟩
      · rcases bucket?_assignedAll hbucket with hbucket | ⟨other, hother, hpartition, -⟩
        · exact absurd hbucket (hnone number freshId)
        · exact absurd hpartition.symm (hbefore other hother demand List.mem_cons_self)
      · cases heq
      · exact hrange
    · exact absurd hpartition (hafter other hother)

end Plan

/-! ## The demands of a batch -/

namespace Profile

variable {profile : Profile} {smallFiles : SortedMap (List SmallFile)} {pending : SortedMap KeySet}

/-- The demand of one partition of a batch. -/
def demand (profile : Profile) (smallFiles : SortedMap (List SmallFile))
    (pending : SortedMap KeySet) (partition : String) : Demand :=
  ⟨partition, profile.inserts partition, SmallFile.notPending smallFiles pending partition⟩

theorem mem_insertPartitions {partition : String} {inserts : UInt64} :
    (partition, inserts) ∈ profile.insertPartitions
      ↔ 0 < inserts ∧ profile.inserts partition = inserts := by
  rw [insertPartitions, List.mem_map]
  constructor
  · rintro ⟨⟨key, stat⟩, hstat, heq⟩
    obtain ⟨rfl, rfl⟩ := Prod.mk.inj heq
    rw [List.mem_filter] at hstat
    have hfind : profile.stat? key = some stat :=
      (SortedMap.find?_eq_some_iff ..).mpr hstat.1
    refine ⟨of_decide_eq_true hstat.2, ?_⟩
    rw [Profile.inserts, hfind]
    rfl
  · rintro ⟨hpos, rfl⟩
    rw [Profile.inserts] at hpos ⊢
    cases hfind : profile.stat? partition with
    | none =>
      rw [hfind] at hpos
      exact absurd hpos (by decide)
    | some stat =>
      rw [hfind] at hpos
      refine ⟨(partition, stat), List.mem_filter.mpr ⟨?_, decide_eq_true hpos⟩, rfl⟩
      exact (SortedMap.find?_eq_some_iff ..).mp hfind

/-- The partitions with inserts are visited in ascending order. -/
theorem insertPartitions_pairwise (profile : Profile) :
    profile.insertPartitions.Pairwise fun entry other => entry.1 < other.1 :=
  List.pairwise_map.mpr (profile.partitions.sorted.filter _)

theorem mem_demands {demand : Demand} :
    demand ∈ profile.demands smallFiles pending
      ↔ 0 < profile.inserts demand.partition
        ∧ demand = profile.demand smallFiles pending demand.partition := by
  rw [demands, List.mem_map]
  constructor
  · rintro ⟨⟨partition, inserts⟩, hmem, rfl⟩
    obtain ⟨hpos, rfl⟩ := mem_insertPartitions.mp hmem
    exact ⟨hpos, rfl⟩
  · rintro ⟨hpos, heq⟩
    exact ⟨_, mem_insertPartitions.mpr ⟨hpos, rfl⟩, heq.symm⟩

theorem demand_mem_demands {partition : String} (h : 0 < profile.inserts partition) :
    profile.demand smallFiles pending partition ∈ profile.demands smallFiles pending :=
  mem_demands.mpr ⟨h, rfl⟩

theorem demands_pairwise (profile : Profile) (smallFiles : SortedMap (List SmallFile))
    (pending : SortedMap KeySet) :
    (profile.demands smallFiles pending).Pairwise
      fun one other => one.partition ≠ other.partition := by
  refine List.pairwise_map.mpr (profile.insertPartitions_pairwise.imp fun {entry other} hlt => ?_)
  exact hlt.ne

end Profile

namespace Plan

variable {sizing : Sizing} {fresh : ℕ → String} {profile : Profile}
  {smallFiles : SortedMap (List SmallFile)} {pending : SortedMap KeySet} {average : UInt64}

/-! ## The finished plan -/

/-- The candidates for the inserts of a partition are its small files that are not under pending
clustering. -/
theorem candidates_eq (smallFiles : SortedMap (List SmallFile)) (pending : SortedMap KeySet)
    (partition : String) :
    candidates smallFiles pending partition = SmallFile.notPending smallFiles pending partition :=
  rfl

/-- Assigning the inserts of several partitions in turn does not fault. -/
theorem foldlM_assignInserts_eq (partitions : List (String × UInt64)) {plan : Plan}
    (haverage : plan.averageRecordSize ≠ 0) :
    partitions.foldlM (fun plan (partition, inserts) =>
        assignInserts sizing fresh plan partition inserts
          (candidates smallFiles pending partition)) plan
      = .ok (plan.assignedAll sizing fresh (partitions.map fun (partition, inserts) =>
          ⟨partition, inserts, SmallFile.notPending smallFiles pending partition⟩)) := by
  induction partitions generalizing plan with
  | nil => rfl
  | cons entry partitions ih =>
    have hstep := assignInserts_eq sizing fresh haverage
      ⟨entry.1, entry.2, SmallFile.notPending smallFiles pending entry.1⟩
    have hgrows := extends_assigned sizing fresh plan
      ⟨entry.1, entry.2, SmallFile.notPending smallFiles pending entry.1⟩
    rw [List.foldlM_cons]
    dsimp only at hstep ⊢
    rw [candidates_eq, hstep]
    exact ih (by rw [hgrows.averageRecordSize]; exact haverage)

/-- Building a plan for records of a size that is not zero does not fault. -/
theorem build_eq (haverage : average ≠ 0) :
    build sizing fresh profile smallFiles pending average
      = .ok (built sizing fresh profile smallFiles pending average) := by
  rw [build, if_neg haverage]
  apply foldlM_assignInserts_eq
  rw [averageRecordSize_assignUpdates]
  exact haverage

theorem exists_build (haverage : average ≠ 0) :
    ∃ plan, build sizing fresh profile smallFiles pending average = .ok plan :=
  ⟨_, build_eq haverage⟩

section

variable {plan : Plan}
  (hplan : build sizing fresh profile smallFiles pending average = .ok plan)
include hplan

theorem eq_built_of_build : plan = built sizing fresh profile smallFiles pending average := by
  by_cases haverage : average = 0
  · simp [build, haverage] at hplan
  · rw [build_eq haverage] at hplan
    exact (Except.ok.inj hplan).symm

theorem consistent_of_build : plan.Consistent := by
  rw [eq_built_of_build hplan]
  exact (kept_consistent fresh).assignedAll (consistent_assignUpdates average profile) _

/-- The update buckets of the batch keep their numbers. -/
theorem extends_of_build : ((empty average).assignUpdates profile).Extends plan := by
  rw [eq_built_of_build hplan]
  exact extends_assignedAll sizing fresh _ _

/-- Every partition with inserts is planned at some moment. -/
theorem exists_assignedFrom_of_build {partition : String} (h : 0 < profile.inserts partition) :
    ∃ middle, middle.averageRecordSize = average
      ∧ AssignedFrom sizing fresh (profile.demand smallFiles pending partition) middle plan := by
  have hnone : ∀ number freshId, ((empty average).assignUpdates profile).bucket? number
      ≠ some (.insert freshId partition) := by
    intro number freshId hbucket
    rw [bucket?_assignUpdates, Option.map_eq_some_iff] at hbucket
    obtain ⟨file, -, heq⟩ := hbucket
    simp at heq
  obtain ⟨middle, hgrows, hassigned⟩ := exists_assignedFrom sizing fresh
    (profile.demands_pairwise smallFiles pending) hnone (Profile.demand_mem_demands h)
  refine ⟨middle, ?_, ?_⟩
  · rw [hgrows.averageRecordSize, averageRecordSize_assignUpdates]
  · rw [eq_built_of_build hplan]
    exact hassigned

/-- Only the partitions with inserts have a share. -/
theorem inserts_pos_of_find?_shares {partition : String} {share : InsertShare}
    (h : plan.shares.find? partition = some share) : 0 < profile.inserts partition := by
  by_contra hnone
  have hother : ∀ demand ∈ profile.demands smallFiles pending, demand.partition ≠ partition := by
    rintro demand hdemand rfl
    exact hnone (Profile.mem_demands.mp hdemand).1
  rw [eq_built_of_build hplan, built, find?_shares_assignedAll hother, shares_assignUpdates] at h
  cases h

end

end Plan

end Upsert
