import Upsert.Proofs.LinearSearch
import Upsert.Proofs.Plan.Allocation
import Upsert.Proofs.RunningSums

/-! # How many slots each bucket is selected by

The hash of a key falls into one of as many slots as the partition has inserts. An entry of the
partition's table is meant to serve one slot for each record allocated to it, and it does so up to
its two ends: `InsertShare.shift` says how much further than the records allocated before an entry
the slots go that are served before it.

A place that is equal to a running sum belongs to the earlier entry, so that an end is shifted by
one slot at most, the one whose number is that of the records allocated so far. Where inserts and
allocations are so many that rounding confuses further slots, an end is shifted by up to `slack`
more in either direction.
-/

namespace Upsert

/-! ## Counting an initial part -/

section

variable {p : ℕ → Prop} [DecidablePred p] {l n : ℕ}

theorem le_count_of_forall_lt (hl : l ≤ n) (h : ∀ k < l, p k) : l ≤ Nat.count p n := by
  rw [← Nat.count_of_forall h]
  exact Nat.count_monotone p hl

theorem count_le_of_forall_ge (h : ∀ k, l ≤ k → k < n → ¬p k) : Nat.count p n ≤ l := by
  rcases Nat.le_total n l with hn | hn
  · exact (Nat.count_le p).trans hn
  · obtain ⟨d, rfl⟩ := Nat.exists_eq_add_of_le hn
    have hrest : Nat.count (fun k => p (l + k)) d = 0 :=
      Nat.count_of_forall_not fun k hk => h (l + k) (by omega) (by omega)
    rw [Nat.count_add, hrest, Nat.add_zero]
    exact Nat.count_le p

/-- What holds before `l` and not after it is counted by what holds at `l`. -/
theorem count_eq_of_forall_ne (hl : l < n) (hbefore : ∀ k < l, p k)
    (hafter : ∀ k, l < k → k < n → ¬p k) : Nat.count p n = l + if p l then 1 else 0 := by
  obtain ⟨d, rfl⟩ := Nat.exists_eq_add_of_lt hl
  have hrest : Nat.count (fun k => p (l + 1 + k)) d = 0 :=
    Nat.count_of_forall_not fun k hk => hafter (l + 1 + k) (by omega) (by omega)
  rw [show l + d + 1 = l + 1 + d by omega, Nat.count_add, hrest, Nat.add_zero, Nat.count_succ,
    Nat.count_of_forall hbefore]

end

/-! ## The ends of the entries -/

namespace InsertShare

open InsertTable

/-- How much further than the records allocated before an entry the slots go that are served before
it. -/
def shift (share : InsertShare) (i : ℕ) : ℤ :=
  share.table.level (slotPlace share.inserts.toNat) share.inserts.toNat i
    - recordsBefore share.allocations i

/-- By how many slots the running sums and places of a share are off together. -/
def slack (share : InsertShare) : ℕ :=
  InsertTable.slack share.inserts.toNat share.allocations.length

/-- The number of slots that the running sum of an entry reaches. -/
def reached (share : InsertShare) (i : ℕ) : ℕ :=
  share.table.reached (slotPlace share.inserts.toNat) share.inserts.toNat i

theorem shift_succ (share : InsertShare) (i : ℕ) :
    share.shift (i + 1) = share.reached i - recordsBefore share.allocations (i + 1) := rfl

theorem inserts_le (share : InsertShare) : share.inserts.toNat ≤ 2 ^ 64 :=
  share.inserts.toNat_lt_size.le

/-- The table is that of the allocations, which share out the inserts. -/
structure Sound (share : InsertShare) : Prop where
  table : share.table = .ofAllocations share.allocations share.inserts
  total : recordsBefore share.allocations share.allocations.length = share.inserts.toNat
  pos : ∀ a ∈ share.allocations, 0 < a.records
  inserts_pos : 0 < share.inserts.toNat

namespace Sound

variable {share : InsertShare} (h : share.Sound)
include h

theorem length_pos : 0 < share.allocations.length := by
  by_contra hnone
  have htotal := h.total
  rw [Nat.eq_zero_of_not_pos hnone, recordsBefore_zero] at htotal
  exact absurd htotal h.inserts_pos.ne

theorem length_le : share.allocations.length ≤ share.inserts.toNat := by
  have hle : (share.allocations.map (·.records.toNat)).length
      ≤ (share.allocations.map (·.records.toNat)).sum := by
    apply List.length_le_sum_of_one_le
    intro records hrecords
    obtain ⟨a, ha, rfl⟩ := List.mem_map.mp hrecords
    exact UInt64.lt_iff_toNat_lt.mp (h.pos a ha)
  rwa [List.length_map, ← recordsBefore_length, h.total] at hle

theorem size_table : share.table.size = share.allocations.length := by
  rw [h.table, size_ofAllocations]

theorem isBelow_table (place : Binary64) {i : ℕ} (hi : i < share.allocations.length) :
    share.table.isBelow place i
      = (runningSum (.ofNat share.inserts.toNat) share.allocations (i + 1)).lt place := by
  rw [h.table, isBelow_ofAllocations _ h.inserts_pos _ hi]

theorem getElem?_entries {i : ℕ} (hi : i < share.allocations.length) :
    share.table.entries[i]? = some ⟨share.allocations[i].bucket,
      .ofNat share.allocations[i].records.toNat / .ofNat share.inserts.toNat,
      runningSum (.ofNat share.inserts.toNat) share.allocations (i + 1)⟩ := by
  rw [h.table, getElem?_ofAllocations _ h.inserts_pos, List.getElem?_eq_getElem hi]
  rfl

theorem bucket_entry {i : ℕ} (hi : i < share.allocations.length) :
    share.table.entries[i]?.map (·.bucket) = some share.allocations[i].bucket := by
  rw [h.getElem?_entries hi]
  rfl

theorem exists_cumulative {i : ℕ} {entry : InsertEntry}
    (hentry : share.table.entries[i]? = some entry) :
    ∃ s, entry.cumulative = .finite false s
      ∧ runningSum (.ofNat share.inserts.toNat) share.allocations (i + 1) = .finite false s := by
  obtain ⟨hi, -⟩ := Array.getElem?_eq_some_iff.mp hentry
  replace hi : i < share.allocations.length := h.size_table ▸ hi
  obtain ⟨s, hs, -⟩ := exists_runningSum_le h.inserts_pos share.inserts_le h.total.le hi
  cases hentry.symm.trans (h.getElem?_entries hi)
  exact ⟨s, hs, hs⟩

/-- A running sum is never less than one before it, however many inserts there are. -/
theorem nonDecreasing : share.table.NonDecreasing where
  ne_nan entry hentry := by
    obtain ⟨i, hi⟩ := Array.mem_iff_getElem?.mp hentry
    obtain ⟨s, hs, -⟩ := h.exists_cumulative hi
    rw [hs]
    exact Binary64.noConfusion
  pairwise := by
    rw [List.pairwise_iff_getElem]
    intro i j hi hj hij
    obtain ⟨s, hs, hsum⟩ := h.exists_cumulative (Array.getElem?_eq_getElem hi)
    obtain ⟨t, ht, hsum'⟩ := h.exists_cumulative (Array.getElem?_eq_getElem hj)
    have hj' : j < share.allocations.length := h.size_table ▸ hj
    rw [Array.getElem_toList, Array.getElem_toList, hs, ht, Binary64.le_iff]
    exact runningSum_le h.inserts_pos share.inserts_le h.total.le (Nat.succ_le_succ hij.le) hj'
      hsum hsum'

/-! ### The shift of each end -/

theorem shift_length :
    share.shift share.allocations.length
      = share.reached (share.allocations.length - 1) - share.inserts.toNat := by
  obtain ⟨m, hm⟩ := Nat.exists_eq_add_of_lt h.length_pos
  rw [Nat.zero_add] at hm
  have htotal := h.total
  rw [hm] at htotal ⊢
  rw [shift_succ, htotal, Nat.add_sub_cancel]

/-- The slots past the last entry return to the first one. -/
theorem shift_zero : share.shift 0 = share.shift share.allocations.length := by
  have hfirst : share.shift 0
      = share.reached (share.table.size - 1) - share.inserts.toNat - recordsBefore _ 0 := rfl
  rw [hfirst, h.size_table, recordsBefore_zero, Nat.cast_zero, sub_zero, h.shift_length]

/-- No slot goes further than the inserts. -/
theorem shift_length_le : share.shift share.allocations.length ≤ 0 := by
  have hle : share.reached (share.allocations.length - 1) ≤ share.inserts.toNat := Nat.count_le _
  rw [h.shift_length]
  omega

/-! ### The slots of each entry and each bucket -/

theorem count_serving {i : ℕ} (hi : i < share.allocations.length) :
    (Nat.count (fun k => share.table.serving (slotPlace share.inserts.toNat k) = i)
        share.inserts.toNat : ℤ)
      = share.allocations[i].records.toNat + (share.shift (i + 1) - share.shift i) := by
  have hlevels := InsertTable.count_serving
    (fun k (_ : k < share.inserts.toNat) =>
      h.nonDecreasing.ascending (slotPlace share.inserts.toNat k))
    (show i < share.table.size by rwa [h.size_table])
  have hrecords := recordsBefore_succ (List.getElem?_eq_getElem hi)
  rw [hlevels, shift, shift, hrecords]
  push_cast
  ring

/-- A bucket is selected by as many slots as it has records, up to the ends of its entries. -/
theorem count_select (bucket : ℕ) :
    (Nat.count (fun k => share.table.select (slotPlace share.inserts.toNat k) = some bucket)
        share.inserts.toNat : ℤ)
      = share.recordsIn bucket
        + ∑ i : Fin share.allocations.length, if share.allocations[i].bucket = bucket then
            share.shift (i + 1) - share.shift i else 0 := by
  have hsize' : 0 < share.table.size := h.size_table ▸ h.length_pos
  have hrecords : share.recordsIn bucket
      = ∑ i : Fin share.allocations.length, if share.allocations[i].bucket = bucket then
          share.allocations[i].records.toNat else 0 :=
    (Fin.sum_univ_fun_getElem ..).symm
  rw [InsertTable.count_select hsize', h.size_table, Finset.sum_range, hrecords]
  push_cast
  rw [← Finset.sum_add_distrib]
  apply Finset.sum_congr rfl
  intro i _
  have hentry : share.table.entries[(i : ℕ)]?.map (·.bucket)
      = some share.allocations[i].bucket := h.bucket_entry i.isLt
  rw [hentry]
  by_cases hbucket : share.allocations[i].bucket = bucket
  · rw [if_pos (congrArg some hbucket), if_pos hbucket, if_pos hbucket]
    exact h.count_serving i.isLt
  · rw [if_neg (fun heq => hbucket (Option.some.inj heq)), if_neg hbucket, if_neg hbucket]
    rfl

/-! ### What the running sums reach -/

variable (hsize : share.inserts.toNat ≤ 2 ^ 53)
include hsize

theorem isBelow_eq_false {i k : ℕ} (hi : i < share.allocations.length)
    (hk : k < share.inserts.toNat)
    (hslot : k + share.slack < recordsBefore share.allocations (i + 1)) :
    share.table.isBelow (slotPlace share.inserts.toNat k) i = false := by
  rw [h.isBelow_table _ hi]
  exact runningSum_lt_slotPlace_eq_false hsize h.total.le h.length_le hi hk hslot

theorem isBelow_eq_true {i k : ℕ} (hi : i < share.allocations.length)
    (hk : k < share.inserts.toNat)
    (hslot : recordsBefore share.allocations (i + 1) + share.slack < k) :
    share.table.isBelow (slotPlace share.inserts.toNat k) i = true := by
  rw [h.isBelow_table _ hi]
  exact runningSum_lt_slotPlace hsize h.total.le h.length_le hi hk hslot

/-- The running sum of an entry reaches the slots before the records allocated so far, and not the
slots after them, up to `slack`. -/
theorem reached_bounds {i : ℕ} (hi : i < share.allocations.length) :
    recordsBefore share.allocations (i + 1) ≤ share.reached i + share.slack
      ∧ share.reached i ≤ recordsBefore share.allocations (i + 1) + share.slack + 1 := by
  constructor
  · have htotal : recordsBefore share.allocations (i + 1) ≤ share.inserts.toNat := by
      rw [← h.total]
      exact recordsBefore_le_of_le hi
    have hle : recordsBefore share.allocations (i + 1) - share.slack ≤ share.reached i := by
      apply le_count_of_forall_lt (by omega)
      intro k hk
      exact h.isBelow_eq_false hsize hi (by omega) (by omega)
    omega
  · apply count_le_of_forall_ge
    intro k hk hlt
    rw [h.isBelow_eq_true hsize hi hlt (by omega)]
    exact Bool.noConfusion

/-- Without slack only the slot whose number is that of the records is in question. -/
theorem reached_eq (hslack : share.slack = 0) {i : ℕ} (hi : i + 1 < share.allocations.length) :
    share.reached i
      = recordsBefore share.allocations (i + 1)
        + if share.table.isBelow (slotPlace share.inserts.toNat
            (recordsBefore share.allocations (i + 1))) i = false then 1 else 0 := by
  -- the allocations after the entry leave room for that slot
  have hlt : recordsBefore share.allocations (i + 1) < share.inserts.toNat := by
    have hnext := recordsBefore_succ (List.getElem?_eq_getElem hi)
    have hle : recordsBefore share.allocations (i + 1 + 1) ≤ share.inserts.toNat := by
      rw [← h.total]
      exact recordsBefore_le_of_le hi
    have hpos := UInt64.lt_iff_toNat_lt.mp (h.pos _ (List.getElem_mem hi))
    rw [UInt64.toNat_zero] at hpos
    omega
  apply count_eq_of_forall_ne hlt
  · intro k hk
    exact h.isBelow_eq_false hsize (by omega) (by omega) (by omega)
  · intro k hk hk'
    rw [h.isBelow_eq_true hsize (by omega) hk' (by omega)]
    exact Bool.noConfusion

theorem shift_bounds {i : ℕ} (hpos : 0 < i) (hi : i ≤ share.allocations.length) :
    -(share.slack : ℤ) ≤ share.shift i ∧ share.shift i ≤ share.slack + 1 := by
  obtain ⟨j, rfl⟩ := Nat.exists_eq_add_of_lt hpos
  rw [Nat.zero_add] at hi ⊢
  have hbounds := h.reached_bounds hsize hi
  rw [shift_succ]
  omega

/-- Without slack the end is shifted where the slot at the end is reached. -/
theorem shift_of_slack_eq_zero (hslack : share.slack = 0) {i : ℕ}
    (hi : i + 1 < share.allocations.length) :
    share.shift (i + 1)
      = if share.table.isBelow (slotPlace share.inserts.toNat
          (recordsBefore share.allocations (i + 1))) i = false then 1 else 0 := by
  rw [shift_succ, h.reached_eq hsize hslack hi]
  push_cast
  omega

/-- An entry with more records than its ends can lose is selected by some slot. -/
theorem exists_select {i : ℕ} (hi : i < share.allocations.length)
    (hmany : 1 + 2 * share.slack < share.allocations[i].records.toNat) :
    ∃ k < share.inserts.toNat, share.table.select (slotPlace share.inserts.toNat k)
      = some share.allocations[i].bucket := by
  have hcount := h.count_serving hi
  have hend := (h.shift_bounds hsize (Nat.succ_pos i) hi).1
  have hstart : share.shift i ≤ share.slack + 1 := by
    rcases Nat.eq_zero_or_pos i with rfl | hpos
    · have hlast := h.shift_length_le
      rw [h.shift_zero]
      omega
    · exact (h.shift_bounds hsize hpos hi.le).2
  have hne : Nat.count (fun k => share.table.serving (slotPlace share.inserts.toNat k) = i)
      share.inserts.toNat ≠ 0 := by
    rw [Nat.succ_eq_add_one] at hend
    omega
  obtain ⟨k, hk, hserving⟩ := Nat.count_ne_iff_exists.mp hne
  refine ⟨k, hk, ?_⟩
  rw [select_eq_serving, hserving, h.bucket_entry hi]

end Sound

end InsertShare

/-! ## The shares of a plan -/

namespace Plan

variable {sizing : Sizing} {fresh : ℕ → String}

theorem AssignedFrom.sound {demand : Demand} {middle final : Plan}
    (h : AssignedFrom sizing fresh demand middle final) (hpos : 0 < demand.inserts) :
    (middle.shareOf sizing demand).Sound where
  table := rfl
  total := (InsertTable.recordsBefore_length _).trans h.sum_records
  pos _ ha := h.records_pos ha
  inserts_pos := UInt64.lt_iff_toNat_lt.mp hpos

/-- Of all slots of a partition with at most `2 ^ 53` inserts, a bucket is selected by as many as it
has records, up to the shift of the ends of its entries. The ends before the first and after the
last entry are the same one, which is not shifted forward; every other end is shifted forward by one
slot at most, up to `slack`. Without slack it is shifted where the slot whose number is that of the
records before the end is not past it. Entries with more records than the ends can take are
selected. -/
theorem slots_of_buckets (sizing : Sizing) (fresh : ℕ → String) (profile : Profile)
    (smallFiles : SortedMap (List SmallFile)) (pending : SortedMap KeySet) {average : UInt64}
    (haverage : average ≠ 0) :
    ∃ plan, build sizing fresh profile smallFiles pending average = .ok plan
      ∧ ∀ partition, 0 < profile.inserts partition →
        (profile.inserts partition).toNat ≤ 2 ^ 53 →
        let inserts := (profile.inserts partition).toNat
        ∃ share, plan.shares.find? partition = some share ∧ share.inserts.toNat = inserts
          ∧ let entries := share.allocations.length
            let slack := InsertTable.slack inserts entries
            (∀ bucket,
              (Nat.count (fun k => share.table.select (slotPlace inserts k) = some bucket)
                  inserts : ℤ)
                = share.recordsIn bucket
                  + ∑ i : Fin entries, if share.allocations[i].bucket = bucket then
                      share.shift (i + 1) - share.shift i else 0)
            ∧ share.shift 0 = share.shift entries ∧ share.shift entries ≤ 0
            ∧ (∀ i, 0 < i → i ≤ entries → -(slack : ℤ) ≤ share.shift i ∧ share.shift i ≤ slack + 1)
            ∧ (slack = 0 → ∀ i, i + 1 < entries → share.shift (i + 1)
                = if share.table.isBelow (slotPlace inserts
                    (InsertTable.recordsBefore share.allocations (i + 1))) i = false then 1 else 0)
            ∧ ∀ i (hi : i < entries), 1 + 2 * slack < share.allocations[i].records.toNat →
                ∃ k < inserts, share.table.select (slotPlace inserts k)
                  = some share.allocations[i].bucket := by
  obtain ⟨plan, hplan⟩ := exists_build haverage
  refine ⟨plan, hplan, fun partition hpos hsize => ?_⟩
  obtain ⟨middle, -, hassigned⟩ := exists_assignedFrom_of_build hplan hpos
  have h := hassigned.sound hpos
  intro inserts
  refine ⟨_, hassigned.share, rfl, ?_⟩
  intro entries slack
  exact ⟨h.count_select, h.shift_zero, h.shift_length_le,
    fun i hi hle => h.shift_bounds hsize hi hle, fun hslack i hi =>
      h.shift_of_slack_eq_zero hsize hslack hi, fun i hi hmany => h.exists_select hsize hi hmany⟩

theorem slots_of_buckets_three_and_two :
    (10 : UInt64) ≠ 0
      ∧ 0 < Profile.inserts ⟨.insert .empty "p" ⟨5, .empty⟩⟩ "p"
      ∧ (Profile.inserts ⟨.insert .empty "p" ⟨5, .empty⟩⟩ "p").toNat ≤ 2 ^ 53
      ∧ ∃ plan share, build ⟨100, 3, false⟩ (fun _ => "new") ⟨.insert .empty "p" ⟨5, .empty⟩⟩
          .empty .empty 10 = .ok plan
        ∧ plan.shares.find? "p" = some share ∧ share.allocations = [⟨0, 3⟩, ⟨1, 2⟩]
        ∧ ∃ k < 5, share.table.select (slotPlace 5 k) = some 1 := by
  obtain ⟨plan, hplan, hslots⟩ := slots_of_buckets ⟨100, 3, false⟩ (fun _ => "new")
    ⟨.insert .empty "p" ⟨5, .empty⟩⟩ .empty .empty (show (10 : UInt64) ≠ 0 by decide)
  have hinserts : Profile.inserts ⟨.insert .empty "p" ⟨5, .empty⟩⟩ "p" = 5 := by decide +kernel
  have hallocations : ((built ⟨100, 3, false⟩ (fun _ => "new") ⟨.insert .empty "p" ⟨5, .empty⟩⟩
      .empty .empty 10).shares.find? "p").map (·.allocations) = some [⟨0, 3⟩, ⟨1, 2⟩] := by
    decide +kernel
  have hpos : 0 < Profile.inserts ⟨.insert .empty "p" ⟨5, .empty⟩⟩ "p" := by
    rw [hinserts]
    decide
  have hsize : (Profile.inserts ⟨.insert .empty "p" ⟨5, .empty⟩⟩ "p").toNat ≤ 2 ^ 53 := by
    rw [hinserts]
    decide
  obtain ⟨share, hshare, -, -, -, -, -, -, hselect⟩ := hslots "p" hpos hsize
  rw [← eq_built_of_build hplan, hshare] at hallocations
  have hlist : share.allocations = [⟨0, 3⟩, ⟨1, 2⟩] := Option.some.inj hallocations
  refine ⟨by decide, hpos, hsize, plan, share, hplan, hshare, hlist, ?_⟩
  have hsecond := hselect 1 (by rw [hlist]; decide)
  simp only [hlist, hinserts] at hsecond
  exact hsecond (show 1 + 2 * InsertTable.slack 5 2 < 2 by decide)

/-- Of two buckets with a record each, the first one is selected by both slots, and the second one
by no key. -/
theorem no_slot_of_second_bucket :
    ∃ plan share, build ⟨100, 1, false⟩ (fun _ => "new") ⟨.insert .empty "p" ⟨2, .empty⟩⟩
        .empty .empty 10 = .ok plan
      ∧ plan.shares.find? "p" = some share ∧ share.recordsIn 1 = 1
      ∧ Nat.count (fun k => share.table.select (slotPlace 2 k) = some 1) 2 = 0
      ∧ ∀ key, share.table.select (keyFraction key 2) = some 0 := by
  have hshare : ∃ share, (built ⟨100, 1, false⟩ (fun _ => "new")
      ⟨.insert .empty "p" ⟨2, .empty⟩⟩ .empty .empty 10).shares.find? "p" = some share
        ∧ share.recordsIn 1 = 1 ∧ share.table.select (slotPlace 2 0) = some 0
        ∧ share.table.select (slotPlace 2 1) = some 0 :=
    ⟨_, rfl, by decide +kernel, by decide +kernel, by decide +kernel⟩
  obtain ⟨share, hshare, hrecords, hfirst, hsecond⟩ := hshare
  have hboth : ∀ slot < 2, share.table.select (slotPlace 2 slot) = some 0 := by
    intro slot hslot
    interval_cases slot
    · exact hfirst
    · exact hsecond
  refine ⟨_, share, build_eq (by decide), hshare, hrecords, ?_, fun key => ?_⟩
  · apply Nat.count_of_forall_not
    intro slot hslot
    rw [hboth slot hslot]
    decide
  · obtain ⟨slot, hslot, hplace⟩ :=
      exists_slotFraction_eq (keyHash key) (show 0 < (2 : UInt64).toNat by decide) (by decide)
    rw [keyFraction, hplace]
    exact hboth slot hslot

end Plan

end Upsert
