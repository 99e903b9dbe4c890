import Upsert.Proofs.Profile.Totals
import Upsert.Proofs.SortedMap

/-!
# A profile is the tally of its changes

A profile has the partitions and files that the changes touch, be it with an amount of zero, and
counts for them that are the sums of the amounts (`Profile.Tallies`). There is no other profile like
that (`Tallies.unique`), so counting depends on the changes and not on their order. Counting faults
exactly where some sum does not fit a word (`exists_applyAll_iff`), again in any order, although not
always at the same change.
-/

namespace Upsert

variable {profile next : Profile} {change : Profile.Change} {changes : List Profile.Change}

namespace Profile

/-! ## What a change touches -/

/-- The change counts updates of the file, possibly none. -/
def Change.Touches (change : Change) (partition fileId : String) : Prop :=
  ∃ n, change = .updates partition fileId n

theorem Change.not_touches_inserts {owner : String} {n : UInt64} {partition fileId : String} :
    ¬ (Change.inserts owner n).Touches partition fileId := by
  rintro ⟨_, ⟨⟩⟩

theorem Change.touches_updates_iff {owner file : String} {n : UInt64} {partition fileId : String} :
    (Change.updates owner file n).Touches partition fileId
      ↔ partition = owner ∧ fileId = file := by
  constructor
  · rintro ⟨_, ⟨⟩⟩
    exact ⟨rfl, rfl⟩
  · rintro ⟨rfl, rfl⟩
    exact ⟨n, rfl⟩

/-- A change that does not touch a file adds nothing to it. -/
theorem Change.updatesOf_of_not_touches {partition fileId : String}
    (h : ¬ change.Touches partition fileId) : change.updatesOf partition fileId = 0 := by
  cases change with
  | inserts => rfl
  | updates owner file n =>
    refine if_neg fun hboth => h (touches_updates_iff.mpr ?_)
    exact ⟨hboth.1.symm, hboth.2.symm⟩

/-- The profile has a count of updates of the file, possibly zero. -/
def HasFile (profile : Profile) (partition fileId : String) : Prop :=
  ((profile.partitions.findD partition .empty).updates.find? fileId).isSome

/-- A change adds the partition and the file that it touches. -/
theorem touched_apply (h : profile.apply change = .ok next) (partition : String) :
    ((next.stat? partition).isSome
        ↔ (profile.stat? partition).isSome ∨ change.partition = partition)
      ∧ ∀ fileId, next.HasFile partition fileId
        ↔ profile.HasFile partition fileId ∨ change.Touches partition fileId := by
  rcases apply_cases h with
    ⟨owner, n, count, rfl, -, rfl⟩ | ⟨owner, file, n, count, rfl, -, rfl⟩
  · rw [stat?, SortedMap.find?_insert]
    simp only [HasFile, SortedMap.findD_insert, or_iff_left Change.not_touches_inserts]
    by_cases howner : partition = owner
    · simp [howner, Change.partition]
    · simp [howner, Change.partition, Ne.symm howner, stat?]
  · rw [stat?, SortedMap.find?_insert]
    simp only [HasFile, SortedMap.findD_insert, Change.touches_updates_iff]
    by_cases howner : partition = owner
    · subst howner
      refine ⟨by simp [Change.partition], fun fileId => ?_⟩
      rw [if_pos rfl, SortedMap.find?_insert]
      by_cases hfile : fileId = file <;> simp [hfile]
    · simp [howner, Change.partition, Ne.symm howner, stat?]

theorem touched_applyAll (h : profile.applyAll changes = .ok next) (partition : String) :
    ((next.stat? partition).isSome
        ↔ (profile.stat? partition).isSome ∨ ∃ change ∈ changes, change.partition = partition)
      ∧ ∀ fileId, next.HasFile partition fileId
        ↔ profile.HasFile partition fileId
          ∨ ∃ change ∈ changes, change.Touches partition fileId := by
  induction changes generalizing profile with
  | nil =>
    cases h
    simp
  | cons change changes ih =>
    obtain ⟨middle, hstep, hrest⟩ := applyAll_cons_eq_ok_iff.mp h
    obtain ⟨hpartition, hfiles⟩ := touched_apply hstep partition
    obtain ⟨hpartition', hfiles'⟩ := ih hrest
    simp only [List.exists_mem_cons_iff, hpartition', hfiles', hpartition, hfiles, or_assoc,
      implies_true, and_self]

end Profile

/-! ## The tally -/

/-- The counts of a partition are the sums over the changes, for the files that they touch. -/
structure Stat.Tallies (stat : Stat) (partition : String) (changes : List Profile.Change) :
    Prop where
  inserts : stat.inserts.toNat = (changes.map (·.insertsOf partition)).sum
  files : ∀ fileId, (stat.updates.find? fileId).isSome
    ↔ ∃ change ∈ changes, change.Touches partition fileId
  updates : ∀ fileId count, stat.updates.find? fileId = some count →
    count.toNat = (changes.map (·.updatesOf partition fileId)).sum

theorem Stat.Tallies.unique {stat other : Stat} {partition : String}
    (h : stat.Tallies partition changes) (hother : other.Tallies partition changes) :
    stat = other := by
  obtain ⟨inserts, updates⟩ := stat
  obtain ⟨inserts', updates'⟩ := other
  congr 1
  · exact UInt64.toNat_inj.mp (h.inserts.trans hother.inserts.symm)
  · refine SortedMap.ext_of_isSome (fun fileId => (h.files fileId).trans (hother.files fileId).symm)
      fun fileId count count' hcount hcount' => UInt64.toNat_inj.mp ?_
    exact (h.updates fileId count hcount).trans (hother.updates fileId count' hcount').symm

namespace Profile

/-- The profile has exactly the partitions that the changes touch, each with the sums over the
changes. -/
structure Tallies (profile : Profile) (changes : List Change) : Prop where
  partitions : ∀ partition, (profile.stat? partition).isSome
    ↔ ∃ change ∈ changes, change.partition = partition
  stats : ∀ partition stat, profile.stat? partition = some stat → stat.Tallies partition changes

/-- There is only one profile that tallies the changes. -/
theorem Tallies.unique {other : Profile} (h : profile.Tallies changes)
    (hother : other.Tallies changes) : profile = other := by
  obtain ⟨partitions⟩ := profile
  obtain ⟨partitions'⟩ := other
  congr 1
  refine SortedMap.ext_of_isSome
    (fun partition => (h.partitions partition).trans (hother.partitions partition).symm)
    fun partition stat stat' hstat hstat' => ?_
  exact (h.stats partition stat hstat).unique (hother.stats partition stat' hstat')

theorem tallies_of_applyAll (h : empty.applyAll changes = .ok profile) :
    profile.Tallies changes where
  partitions partition := by
    rw [(touched_applyAll h partition).1]
    exact or_iff_right (by simp [empty, stat?])
  stats partition stat hstat := by
    have hfound : profile.partitions.findD partition .empty = stat :=
      SortedMap.findD_of_find?_eq_some hstat _
    obtain ⟨hinserts, hupdates⟩ := counts_applyAll h partition
    refine ⟨?_, fun fileId => ?_, fun fileId count hcount => ?_⟩
    · rw [inserts_eq, hfound] at hinserts
      rw [hinserts]
      exact Nat.zero_add _
    · rw [← hfound]
      refine ((touched_applyAll h partition).2 fileId).trans (or_iff_right ?_)
      simp [HasFile, empty, SortedMap.findD, Stat.empty]
    · have hcounts := hupdates fileId
      rw [updates, hfound, SortedMap.findD_of_find?_eq_some hcount] at hcounts
      rw [hcounts]
      exact Nat.zero_add _

/-! ## When the sums fit -/

/-- Every sum of amounts fits a word. -/
def Fits (changes : List Change) : Prop :=
  (∀ partition, (changes.map (·.insertsOf partition)).sum < UInt64.size)
    ∧ ∀ partition fileId, (changes.map (·.updatesOf partition fileId)).sum < UInt64.size

theorem Tallies.sum_insertsOf_lt (h : profile.Tallies changes) (partition : String) :
    (changes.map (·.insertsOf partition)).sum < UInt64.size := by
  cases hstat : profile.stat? partition with
  | some stat =>
    rw [← (h.stats partition stat hstat).inserts]
    exact stat.inserts.toNat_lt_size
  | none =>
    -- no change is about the partition
    rw [List.sum_eq_zero]
    · decide
    · intro amount hamount
      obtain ⟨change, hmem, rfl⟩ := List.mem_map.mp hamount
      refine Change.insertsOf_of_ne fun heq => ?_
      have hsome := (h.partitions partition).mpr ⟨change, hmem, heq.symm⟩
      simp [hstat] at hsome

theorem Tallies.sum_updatesOf_lt (h : profile.Tallies changes) (partition fileId : String) :
    (changes.map (·.updatesOf partition fileId)).sum < UInt64.size := by
  by_cases htouched : ∃ change ∈ changes, change.Touches partition fileId
  · -- the file has a count, and its partition has one too
    obtain ⟨change, hmem, n, rfl⟩ := htouched
    obtain ⟨stat, hstat⟩ :=
      Option.isSome_iff_exists.mp ((h.partitions partition).mpr ⟨_, hmem, rfl⟩)
    have htallies := h.stats partition stat hstat
    obtain ⟨count, hcount⟩ :=
      Option.isSome_iff_exists.mp ((htallies.files fileId).mpr ⟨_, hmem, n, rfl⟩)
    rw [← htallies.updates fileId count hcount]
    exact count.toNat_lt_size
  · rw [List.sum_eq_zero]
    · decide
    · intro amount hamount
      obtain ⟨change, hmem, rfl⟩ := List.mem_map.mp hamount
      exact Change.updatesOf_of_not_touches fun htouches => htouched ⟨change, hmem, htouches⟩

theorem exists_applyAll_iff :
    (∃ profile, empty.applyAll changes = .ok profile) ↔ Fits changes := by
  constructor
  · rintro ⟨profile, h⟩
    have htallies := tallies_of_applyAll h
    exact ⟨htallies.sum_insertsOf_lt, htallies.sum_updatesOf_lt⟩
  · rintro ⟨hinserts, hupdates⟩
    refine exists_applyAll (fun partition => ?_) fun partition fileId => ?_
    · exact (Nat.zero_add _).trans_lt (hinserts partition)
    · exact (Nat.zero_add _).trans_lt (hupdates partition fileId)

/-- Counting gives the tally of the changes, and nothing else. -/
theorem applyAll_eq_ok_iff : empty.applyAll changes = .ok profile ↔ profile.Tallies changes := by
  refine ⟨tallies_of_applyAll, fun h => ?_⟩
  obtain ⟨other, hother⟩ := exists_applyAll_iff.mpr ⟨h.sum_insertsOf_lt, h.sum_updatesOf_lt⟩
  rw [h.unique (tallies_of_applyAll hother)]
  exact hother

/-- Counting has no other fault than a sum that does not fit. -/
theorem apply_eq_error {fault : Fault} (h : profile.apply change = .error fault) :
    fault = .addOverflow := by
  cases change with
  | inserts partition n =>
    rw [apply_inserts, map_eq_error_iff] at h
    exact Checked.add_eq_error h
  | updates partition fileId n =>
    rw [apply_updates, map_eq_error_iff] at h
    exact Checked.add_eq_error h

theorem applyAll_eq_error {fault : Fault} (h : profile.applyAll changes = .error fault) :
    fault = .addOverflow := by
  induction changes generalizing profile with
  | nil => cases h
  | cons change changes ih =>
    rw [applyAll, List.foldlM_cons] at h
    cases hstep : profile.apply change with
    | error cause =>
      rw [hstep] at h
      cases h
      exact apply_eq_error hstep
    | ok middle =>
      rw [hstep] at h
      exact ih h

theorem applyAll_eq_error_iff : empty.applyAll changes = .error .addOverflow ↔ ¬ Fits changes := by
  rw [← exists_applyAll_iff]
  cases hall : empty.applyAll changes with
  | ok profile => simp
  | error fault => simp [applyAll_eq_error hall]

/-! ## The order of the changes -/

theorem Tallies.perm {others : List Change} (h : profile.Tallies changes)
    (hperm : changes.Perm others) : profile.Tallies others where
  partitions partition := by simp only [h.partitions, hperm.mem_iff]
  stats partition stat hstat :=
    { inserts := by rw [(h.stats partition stat hstat).inserts, (hperm.map _).sum_eq]
      files := by simp only [(h.stats partition stat hstat).files, hperm.mem_iff, implies_true]
      updates := fun fileId count hcount => by
        rw [(h.stats partition stat hstat).updates fileId count hcount, (hperm.map _).sum_eq] }

/-- Counting in another order gives the same profile, or faults again. -/
theorem applyAll_perm {others : List Change} (h : others.Perm changes) :
    empty.applyAll others = empty.applyAll changes := by
  cases hall : empty.applyAll changes with
  | ok profile => exact applyAll_eq_ok_iff.mpr ((applyAll_eq_ok_iff.mp hall).perm h.symm)
  | error fault =>
    cases hothers : empty.applyAll others with
    | ok profile =>
      have hagain := applyAll_eq_ok_iff.mpr ((applyAll_eq_ok_iff.mp hothers).perm h)
      cases hall.symm.trans hagain
    | error fault' => rw [applyAll_eq_error hall, applyAll_eq_error hothers]

theorem ofRecords_perm {records others : List Record} (h : others.Perm records) :
    ofRecords others = ofRecords records :=
  applyAll_perm (h.map _)

/-- The totals of a batch add up to its records, and are given where these are fewer than there are
words. -/
theorem exists_totals_ofRecords {records : List Record} (h : ofRecords records = .ok profile)
    (hlength : records.length < UInt64.size) :
    ∃ inserts updates, profile.totalInserts = .ok inserts ∧ profile.totalUpdates = .ok updates := by
  obtain ⟨hinserts, hupdates⟩ := sums_ofRecords h
  refine ⟨.ofNat profile.insertSum, .ofNat profile.updateSum, ?_, ?_⟩
  · rw [totalInserts_eq_ok_iff, hinserts]
    exact UInt64.toNat_ofNat_of_lt' (List.countP_le_length.trans_lt hlength)
  · rw [totalUpdates_eq_ok_iff, hupdates]
    exact UInt64.toNat_ofNat_of_lt' (List.countP_le_length.trans_lt hlength)

theorem countP_isNone_add_countP_isSome (records : List Record) :
    records.countP (·.location.isNone) + records.countP (·.location.isSome) = records.length := by
  rw [List.length_eq_countP_add_countP (·.location.isNone)]
  congr 2
  funext record
  cases record.location <;> rfl

/-- Counting faults exactly where the sum of the amounts of a partition's inserts or of a file's
updates does not fit a word; otherwise it gives the tally of the changes. Either way the order of
the changes makes no difference, and neither does that of the records of a batch. The totals of a
batch are its records without and with a location, so together they are all of its records. -/
theorem applyAll_outcome (changes : List Change) :
    (empty.applyAll changes = .error .addOverflow
        ↔ (∃ partition, UInt64.size ≤ (changes.map (·.insertsOf partition)).sum)
          ∨ ∃ partition fileId,
            UInt64.size ≤ (changes.map (·.updatesOf partition fileId)).sum)
      ∧ (∀ fault, empty.applyAll changes = .error fault → fault = .addOverflow)
      ∧ (∀ profile, empty.applyAll changes = .ok profile ↔ profile.Tallies changes)
      ∧ (∀ others, others.Perm changes → empty.applyAll others = empty.applyAll changes)
      ∧ ∀ records,
        (∀ others, others.Perm records → ofRecords others = ofRecords records)
          ∧ ∀ profile, ofRecords records = .ok profile →
            (∀ n, profile.totalInserts = .ok n ↔ n.toNat = records.countP (·.location.isNone))
              ∧ (∀ n, profile.totalUpdates = .ok n
                ↔ n.toNat = records.countP (·.location.isSome))
              ∧ (∀ inserts updates, profile.totalInserts = .ok inserts →
                profile.totalUpdates = .ok updates →
                  inserts.toNat + updates.toNat = records.length)
              ∧ (records.length < UInt64.size → ∃ inserts updates,
                profile.totalInserts = .ok inserts ∧ profile.totalUpdates = .ok updates) := by
  refine ⟨?_, fun _ => applyAll_eq_error, fun _ => applyAll_eq_ok_iff, fun _ => applyAll_perm,
    fun records => ⟨fun _ => ofRecords_perm, fun profile hprofile => ?_⟩⟩
  · rw [applyAll_eq_error_iff, Fits, not_and_or]
    simp only [not_forall, not_lt]
  · obtain ⟨hinserts, hupdates⟩ := sums_ofRecords hprofile
    refine ⟨fun n => hinserts ▸ totalInserts_eq_ok_iff, fun n => hupdates ▸ totalUpdates_eq_ok_iff,
      fun inserts updates htotal htotal' => ?_, exists_totals_ofRecords hprofile⟩
    rw [totalInserts_eq_ok_iff.mp htotal, totalUpdates_eq_ok_iff.mp htotal', hinserts, hupdates,
      countP_isNone_add_countP_isSome]

/-- A sum that does not fit is found at the last change or before, and an amount of zero is kept. -/
theorem applyAll_outcome_of_overflow_and_zero :
    empty.applyAll [.inserts "p" 18446744073709551615, .updates "q" "f" 0, .inserts "p" 1]
        = .error .addOverflow
      ∧ empty.applyAll [.inserts "p" 1, .inserts "p" 18446744073709551615, .updates "q" "f" 0]
        = .error .addOverflow
      ∧ (⟨.insert (.insert .empty "p" ⟨3, .empty⟩) "q" ⟨0, .insert .empty "f" 0⟩⟩ : Profile).Tallies
        [.inserts "p" 1, .updates "q" "f" 0, .inserts "p" 2]
      ∧ ∃ profile, ofRecords [⟨⟨"k1", "p"⟩, some ⟨"001", "f"⟩⟩, ⟨⟨"k2", "q"⟩, none⟩] = .ok profile
        ∧ ∃ inserts updates, profile.totalInserts = .ok inserts
          ∧ profile.totalUpdates = .ok updates ∧ inserts.toNat + updates.toNat = 2 := by
  have hoverflow := applyAll_outcome
    [.inserts "p" 18446744073709551615, .updates "q" "f" 0, .inserts "p" 1]
  have hfault := hoverflow.1.mpr (Or.inl ⟨"p", by decide +kernel⟩)
  refine ⟨hfault, ?_, ?_, ?_⟩
  · rw [← hfault]
    exact hoverflow.2.2.2.1 _ (by decide +kernel)
  · exact ((applyAll_outcome _).2.2.1 _).mp (by decide +kernel)
  · have hlength :
        [(⟨⟨"k1", "p"⟩, some ⟨"001", "f"⟩⟩ : Record), ⟨⟨"k2", "q"⟩, none⟩].length
          < UInt64.size := by decide
    obtain ⟨profile, hprofile⟩ := exists_ofRecords hlength
    obtain ⟨-, -, hsum, htotals⟩ := ((applyAll_outcome []).2.2.2.2 _).2 profile hprofile
    obtain ⟨inserts, updates, hinserts, hupdates⟩ := htotals (by decide)
    exact ⟨profile, hprofile, inserts, updates, hinserts, hupdates,
      hsum inserts updates hinserts hupdates⟩

end Profile

end Upsert
