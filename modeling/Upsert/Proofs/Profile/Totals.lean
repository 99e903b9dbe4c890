import Upsert.Proofs.FirstFailure
import Upsert.Proofs.Profile.Counting
import Upsert.Proofs.SortedMap

/-!
# The totals of a profile

The totals of a profile are sums over its partitions and files, and a total is given exactly where
it fits a word (`totalInserts_eq_ok_iff`, `totalUpdates_eq_ok_iff`). A change adds its amount to one
count, and so to the total (`sums_apply`). Counting one for each record of a batch, the totals are
the numbers of records without and with a location (`sums_ofRecords`).
-/

namespace Upsert

/-! ## Sums of counts -/

theorem Checked.add_eq_error {a b : UInt64} {fault : Fault} (h : add a b = .error fault) :
    fault = .addOverflow := by
  unfold add at h
  split at h
  · cases h
  · cases h
    rfl

theorem Checked.foldlM_add_eq_ok_iff {counts : List UInt64} {start n : UInt64} :
    counts.foldlM add start = .ok n ↔ n.toNat = start.toNat + (counts.map UInt64.toNat).sum := by
  induction counts generalizing start with
  | nil => simp [pure, Except.pure, UInt64.toNat_inj, eq_comm]
  | cons count counts ih =>
    rw [List.foldlM_cons, List.map_cons, List.sum_cons]
    cases hadd : add start count with
    | ok middle =>
      have hmiddle := add_eq_ok_iff.mp hadd
      refine ih.trans ?_
      omega
    | error fault =>
      -- what does not fit on the way does not fit in the end
      have hlt := n.toNat_lt_size
      have hlarge : UInt64.size ≤ start.toNat + count.toNat := by
        by_contra hsmall
        rw [add, if_pos (Nat.lt_of_not_le hsmall)] at hadd
        cases hadd
      constructor
      · intro h
        cases h
      · intro h
        omega

/-- Counts are summed up where their sum fits a word. -/
theorem Checked.sum_eq_ok_iff {counts : List UInt64} {n : UInt64} :
    Checked.sum counts = .ok n ↔ n.toNat = (counts.map UInt64.toNat).sum := by
  rw [Checked.sum, foldlM_add_eq_ok_iff]
  simp

/-- The updates of all files of a partition. -/
def Stat.updateSum (stat : Stat) : ℕ := (stat.updates.values.map UInt64.toNat).sum

theorem Stat.totalUpdates_eq_ok_iff {stat : Stat} {n : UInt64} :
    stat.totalUpdates = .ok n ↔ n.toNat = stat.updateSum :=
  Checked.sum_eq_ok_iff

theorem Stat.mapM_totalUpdates_eq_ok_iff {stats : List Stat} {counts : List UInt64} :
    stats.mapM Stat.totalUpdates = .ok counts
      ↔ counts.map UInt64.toNat = stats.map Stat.updateSum := by
  have hcount : ∀ (stat : Stat) (count : UInt64),
      stat.totalUpdates = .ok count ↔ stat.updateSum = count.toNat :=
    fun _ _ => totalUpdates_eq_ok_iff.trans eq_comm
  rw [mapM_eq_ok_iff, eq_comm, ← List.forall₂_eq_eq_eq, List.forall₂_map_left_iff,
    List.forall₂_map_right_iff]
  simp only [hcount]

namespace Profile

variable {profile next : Profile} {change : Change} {changes : List Change}

/-- The inserts of all partitions. -/
def insertSum (profile : Profile) : ℕ :=
  (profile.partitions.values.map fun stat => stat.inserts.toNat).sum

/-- The updates of all partitions. -/
def updateSum (profile : Profile) : ℕ := (profile.partitions.values.map Stat.updateSum).sum

theorem totalInserts_eq_ok_iff {n : UInt64} :
    profile.totalInserts = .ok n ↔ n.toNat = profile.insertSum := by
  rw [totalInserts, Checked.sum_eq_ok_iff, List.map_map]
  rfl

theorem totalUpdates_eq_ok_iff {n : UInt64} :
    profile.totalUpdates = .ok n ↔ n.toNat = profile.updateSum := by
  rw [totalUpdates, updateSum]
  constructor
  · intro h
    cases hcounts : profile.partitions.values.mapM Stat.totalUpdates with
    | error fault =>
      rw [hcounts] at h
      cases h
    | ok counts =>
      rw [hcounts] at h
      rw [Checked.sum_eq_ok_iff.mp h, Stat.mapM_totalUpdates_eq_ok_iff.mp hcounts]
  · intro h
    -- no partition has more updates than there are in total
    have hle : ∀ stat ∈ profile.partitions.values, stat.updateSum < UInt64.size := fun stat hstat =>
      (List.le_sum_of_mem (List.mem_map_of_mem hstat)).trans_lt (h ▸ n.toNat_lt_size)
    have hcounts : profile.partitions.values.mapM Stat.totalUpdates
        = .ok (profile.partitions.values.map fun stat => UInt64.ofNat stat.updateSum) := by
      rw [Stat.mapM_totalUpdates_eq_ok_iff, List.map_map]
      exact List.map_congr_left fun stat hstat => UInt64.toNat_ofNat_of_lt' (hle stat hstat)
    rw [hcounts]
    refine Checked.sum_eq_ok_iff.mpr (h.trans ?_)
    rw [← Stat.mapM_totalUpdates_eq_ok_iff.mp hcounts]

/-! ## What changes add -/

/-- The inserts that a change adds. -/
def Change.inserted : Change → ℕ
  | .inserts _ n => n.toNat
  | .updates .. => 0

/-- The updates that a change adds. -/
def Change.updated : Change → ℕ
  | .inserts .. => 0
  | .updates _ _ n => n.toNat

theorem insertSum_insert (profile : Profile) (partition : String) (stat : Stat) :
    (⟨profile.partitions.insert partition stat⟩ : Profile).insertSum
        + (profile.partitions.findD partition .empty).inserts.toNat
      = profile.insertSum + stat.inserts.toNat :=
  SortedMap.sum_values_insert (g := fun stat : Stat => stat.inserts.toNat) rfl ..

theorem updateSum_insert (profile : Profile) (partition : String) (stat : Stat) :
    (⟨profile.partitions.insert partition stat⟩ : Profile).updateSum
        + (profile.partitions.findD partition .empty).updateSum
      = profile.updateSum + stat.updateSum :=
  SortedMap.sum_values_insert (g := Stat.updateSum) rfl ..

/-- A change adds its amount to the total of its kind. -/
theorem sums_apply (h : profile.apply change = .ok next) :
    next.insertSum = profile.insertSum + change.inserted
      ∧ next.updateSum = profile.updateSum + change.updated := by
  rcases apply_cases h with
    ⟨partition, n, count, rfl, hcount, rfl⟩ | ⟨partition, fileId, n, count, rfl, hcount, rfl⟩
  · have hinserts := profile.insertSum_insert partition
      { profile.partitions.findD partition .empty with inserts := count }
    have hupdates := profile.updateSum_insert partition
      { profile.partitions.findD partition .empty with inserts := count }
    simp only [Stat.updateSum, Change.inserted, Change.updated] at *
    omega
  · have hinserts := profile.insertSum_insert partition
      { profile.partitions.findD partition .empty with
        updates := (profile.partitions.findD partition .empty).updates.insert fileId count }
    have hupdates := profile.updateSum_insert partition
      { profile.partitions.findD partition .empty with
        updates := (profile.partitions.findD partition .empty).updates.insert fileId count }
    have hfile := SortedMap.sum_values_insert UInt64.toNat_zero
      (profile.partitions.findD partition .empty).updates fileId count
    simp only [updates, Stat.updateSum, Change.inserted, Change.updated] at *
    omega

theorem sums_applyAll (h : profile.applyAll changes = .ok next) :
    next.insertSum = profile.insertSum + (changes.map Change.inserted).sum
      ∧ next.updateSum = profile.updateSum + (changes.map Change.updated).sum := by
  induction changes generalizing profile with
  | nil =>
    cases h
    exact ⟨rfl, rfl⟩
  | cons change changes ih =>
    obtain ⟨middle, hstep, hrest⟩ := applyAll_cons_eq_ok_iff.mp h
    obtain ⟨hinserts, hupdates⟩ := ih hrest
    obtain ⟨hinserts', hupdates'⟩ := sums_apply hstep
    simp only [List.map_cons, List.sum_cons]
    omega

/-- The totals of a batch are its records without and with a location. -/
theorem sums_ofRecords {records : List Record} (h : ofRecords records = .ok profile) :
    profile.insertSum = records.countP (·.location.isNone)
      ∧ profile.updateSum = records.countP (·.location.isSome) := by
  have hsums := sums_applyAll h
  have hinserted : Change.inserted ∘ Change.ofRecord
      = fun record => if record.location.isNone then 1 else 0 := by
    funext ⟨key, location⟩
    cases location <;> rfl
  have hupdated : Change.updated ∘ Change.ofRecord
      = fun record => if record.location.isSome then 1 else 0 := by
    funext ⟨key, location⟩
    cases location <;> rfl
  rw [List.map_map, List.map_map, hinserted, hupdated, sum_map_ite, sum_map_ite] at hsums
  exact ⟨hsums.1.trans (Nat.zero_add _), hsums.2.trans (Nat.zero_add _)⟩

end Profile

end Upsert
