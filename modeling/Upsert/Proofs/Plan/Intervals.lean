import Upsert.Proofs.Absorption
import Upsert.Proofs.Plan.Routing
import Upsert.Proofs.Plan.Shares

/-! # The intervals of the entries

An entry of a table takes the places after the running sum before it, up to its own. Every entry has
a weight, so that it would have places too if the sums were exact. Rounded ones grow by every weight
that they do not absorb, and they absorb none where there are at most `2 ^ 53` inserts
(`running_sum_grows_iff`).

The last running sum can stay below one, and a place past it returns to the first entry. Where the
inserts times the entries are at most `2 ^ 50`, the last running sum is off by less than the last
slot is away from one, and so no key has such a place (`last_running_sum_reached`).
-/

namespace Upsert

open Binary64 (Magnitude)

/-- The running sum before an entry, which is zero for the first one. -/
def InsertTable.sumBefore (table : InsertTable) : ℕ → Binary64
  | 0 => .zero false
  | i + 1 => (table.entries[i]?.map (·.cumulative)).getD (.zero false)

/-! ## The entries of a share -/

namespace InsertShare.Sound

open InsertTable

variable {share : InsertShare} (h : share.Sound)
include h

/-! ### How the running sums grow -/

theorem sumBefore_table {i : ℕ} (hi : i ≤ share.allocations.length) :
    share.table.sumBefore i
      = runningSum (.ofNat share.inserts.toNat) share.allocations i := by
  cases i with
  | zero => rfl
  | succ i =>
    rw [sumBefore, h.getElem?_entries hi]
    rfl

/-- The weight of an entry is positive and at most one, and the running sum grows by it unless it is
absorbed. -/
theorem sum_grows {i : ℕ} {entry : InsertEntry} (hentry : share.table.entries[i]? = some entry) :
    ∃ s w t : Magnitude, share.table.sumBefore i = .finite false s
      ∧ entry.weight = .finite false w ∧ entry.cumulative = .finite false t
      ∧ 0 < w.value ∧ w.value ≤ 1
      ∧ s.value ≤ t.value ∧ (s.value < t.value ↔ ¬ s.Absorbs w)
      ∧ (share.inserts.toNat ≤ 2 ^ 53 → ¬ s.Absorbs w) := by
  obtain ⟨hlt, -⟩ := Array.getElem?_eq_some_iff.mp hentry
  have hi : i < share.allocations.length := h.size_table ▸ hlt
  have hpos : 0 < share.allocations[i].records.toNat :=
    UInt64.lt_iff_toNat_lt.mp (h.pos _ (List.getElem_mem hi))
  have hle : share.allocations[i].records.toNat ≤ share.inserts.toNat :=
    (Nat.le_add_left ..).trans (recordsBefore_add_le h.total.le hi)
  cases hentry.symm.trans (h.getElem?_entries hi)
  obtain ⟨s, hs, hbound⟩ :=
    exists_runningSum_le h.inserts_pos share.inserts_le h.total.le hi.le
  obtain ⟨w, t, hw, ht, -, hst, hgrows⟩ :=
    runningSum_grows h.inserts_pos share.inserts_le h.total.le hi hs hbound
  obtain ⟨q, hq, hone, -, hhalf, -⟩ := Binary64.div_word h.inserts_pos hle share.inserts_le
  cases hw.symm.trans hq
  have hfraction : (0 : ℚ) < share.allocations[i].records.toNat / share.inserts.toNat :=
    div_pos (by exact_mod_cast hpos) (by exact_mod_cast h.inserts_pos)
  exact ⟨s, w, t, (h.sumBefore_table hi.le).trans hs, hw, ht, by linarith, hone, hst, hgrows,
    fun hsize => runningSum_not_absorbs h.total.le hsize h.length_le hi hpos hs hw⟩

/-! ### The last entry -/

theorem slack_eq_zero (hmul : share.inserts.toNat * share.table.size ≤ 2 ^ 50) :
    share.slack = 0 := by
  have hinserts : share.inserts.toNat ≤ share.inserts.toNat * share.table.size :=
    Nat.le_mul_of_pos_right _ (h.size_table ▸ h.length_pos)
  have herrors : share.inserts.toNat * (2 * share.table.size + 3)
      = 2 * (share.inserts.toNat * share.table.size) + 3 * share.inserts.toNat := by
    ring
  rw [slack, InsertTable.slack, ← h.size_table, herrors]
  omega

/-- Without slack the last running sum reaches the place of every slot. -/
theorem le_last (hsize : share.inserts.toNat ≤ 2 ^ 53) (hslack : share.slack = 0) {k : ℕ}
    (hk : k < share.inserts.toNat) :
    ∃ last, share.table.entries.back? = some last
      ∧ (slotPlace share.inserts.toNat k).le last.cumulative = true := by
  obtain ⟨m, hm⟩ := Nat.exists_eq_add_of_lt h.length_pos
  rw [Nat.zero_add] at hm
  have hlt : m < share.allocations.length := hm ▸ Nat.lt_succ_self m
  have hlast := h.getElem?_entries hlt
  have hback : share.table.entries.back? = share.table.entries[m]? := by
    have hentries : share.table.entries.size = m + 1 := h.size_table.trans hm
    rw [Array.back?, hentries, Nat.add_sub_cancel]
  refine ⟨_, hback.trans hlast, ?_⟩
  -- all records come before the end of the last entry
  have htotal : recordsBefore share.allocations (m + 1) = share.inserts.toNat := hm ▸ h.total
  have hslot : k + share.slack < recordsBefore share.allocations (m + 1) := by
    rwa [hslack, htotal, Nat.add_zero]
  have hreached := h.isBelow_eq_false hsize hlt hk hslot
  have hsum := h.nonDecreasing.ne_nan _ (Array.mem_of_getElem? hlast)
  obtain ⟨place, hplace, -⟩ := Binary64.ofNat_div_ofNat h.inserts_pos hk.le hsize
  have hnumber : slotPlace share.inserts.toNat k ≠ .nan := by
    rw [slotPlace, hplace]
    exact Binary64.noConfusion
  rw [isBelow_of_getElem? hlast, Binary64.lt_eq_not_le hsum hnumber, Bool.not_eq_false'] at hreached
  exact hreached

end InsertShare.Sound

/-! ## The tables of a plan -/

namespace Plan

variable {sizing : Sizing} {fresh : ℕ → String} {profile : Profile}
  {smallFiles : SortedMap (List SmallFile)} {pending : SortedMap KeySet} {average : UInt64}
  {plan : Plan}

/-- A table is that of a share of the partition's inserts. -/
theorem exists_sound_of_insertTable?
    (hplan : build sizing fresh profile smallFiles pending average = .ok plan)
    {partition : String} {table : InsertTable}
    (htable : plan.insertTable? partition = some table) :
    ∃ share : InsertShare, share.Sound ∧ share.inserts = profile.inserts partition
      ∧ share.table = table := by
  obtain ⟨share, hshare, -⟩ := Option.map_eq_some_iff.mp htable
  have hpos := inserts_pos_of_find?_shares hplan hshare
  obtain ⟨middle, -, hassigned⟩ := exists_assignedFrom_of_build hplan hpos
  cases htable.symm.trans hassigned.insertTable?
  exact ⟨_, hassigned.sound hpos, rfl, rfl⟩

/-- Every entry of every table has a weight above zero and not above one, and a running sum that is
not less than the one before it. It is greater exactly where the weight is not absorbed by the sum
before it: where it is more than half of the last place of that sum, or half of it and the last
digit is odd. So it is for every entry of a partition with at most `2 ^ 53` inserts. -/
theorem running_sum_grows_iff (sizing : Sizing) (fresh : ℕ → String) (profile : Profile)
    (smallFiles : SortedMap (List SmallFile)) (pending : SortedMap KeySet) {average : UInt64}
    (haverage : average ≠ 0) :
    ∃ plan, build sizing fresh profile smallFiles pending average = .ok plan
      ∧ ∀ partition table, plan.insertTable? partition = some table →
        ∀ i entry, table.entries[i]? = some entry →
          (Binary64.zero false).lt entry.weight = true ∧ entry.weight.le (.ofNat 1) = true
          ∧ (table.sumBefore i).le entry.cumulative = true
          ∧ ((table.sumBefore i).lt entry.cumulative = true
            ↔ ¬ (table.sumBefore i).Absorbs entry.weight)
          ∧ ((profile.inserts partition).toNat ≤ 2 ^ 53 →
            (table.sumBefore i).lt entry.cumulative = true) := by
  obtain ⟨plan, hplan⟩ := exists_build haverage
  refine ⟨plan, hplan, fun partition table htable i entry hentry => ?_⟩
  obtain ⟨share, hsound, hinserts, rfl⟩ := exists_sound_of_insertTable? hplan htable
  obtain ⟨s, w, t, hs, hw, ht, hpos, hone, hst, hgrows, hfew⟩ := hsound.sum_grows hentry
  rw [hs, hw, ht, Binary64.zero, Binary64.lt_iff, Magnitude.value_zero, Binary64.le_one_iff,
    Binary64.le_iff, Binary64.lt_iff, ← hinserts]
  exact ⟨hpos, hone, hst, hgrows, fun hsize => hgrows.mpr (hfew hsize)⟩

theorem running_sum_grows_three_and_two :
    (10 : UInt64) ≠ 0
      ∧ ∃ plan table, build ⟨100, 3, false⟩ (fun _ => "new") ⟨.insert .empty "p" ⟨5, .empty⟩⟩
          .empty .empty 10 = .ok plan
        ∧ plan.insertTable? "p" = some table ∧ table.size = 2
        ∧ ∀ i entry, table.entries[i]? = some entry →
          (table.sumBefore i).lt entry.cumulative = true := by
  obtain ⟨plan, hplan, hgrows⟩ := running_sum_grows_iff ⟨100, 3, false⟩ (fun _ => "new")
    ⟨.insert .empty "p" ⟨5, .empty⟩⟩ .empty .empty (show (10 : UInt64) ≠ 0 by decide)
  have hinserts : Profile.inserts ⟨.insert .empty "p" ⟨5, .empty⟩⟩ "p" = 5 := by decide +kernel
  have hsize : ((built ⟨100, 3, false⟩ (fun _ => "new") ⟨.insert .empty "p" ⟨5, .empty⟩⟩
      .empty .empty 10).insertTable? "p").map (·.size) = some 2 := by decide +kernel
  rw [← eq_built_of_build hplan, Option.map_eq_some_iff] at hsize
  obtain ⟨table, htable, htwo⟩ := hsize
  refine ⟨by decide, plan, table, hplan, htable, htwo, fun i entry hentry => ?_⟩
  obtain ⟨-, -, -, -, hfew⟩ := hgrows "p" table htable i entry hentry
  exact hfew (by rw [hinserts]; decide)

/-- Of `2 ^ 53 + 1` inserts the last one gets a bucket of its own. Its weight is lost in the running
sum, which is one before it. -/
theorem running_sum_absorbs_last_insert :
    ∃ plan table entry,
      build ⟨100, 9007199254740992, false⟩ (fun _ => "new")
          ⟨.insert .empty "p" ⟨9007199254740993, .empty⟩⟩ .empty .empty 10 = .ok plan
        ∧ plan.insertTable? "p" = some table ∧ table.entries[1]? = some entry
        ∧ entry.bucket = 1 ∧ entry.weight = .ofNat 1 / .ofNat 9007199254740993
        ∧ table.sumBefore 1 = .ofNat 1 ∧ entry.cumulative = .ofNat 1
        ∧ (table.sumBefore 1).lt entry.cumulative = false := by
  have htable : (built ⟨100, 9007199254740992, false⟩ (fun _ => "new")
      ⟨.insert .empty "p" ⟨9007199254740993, .empty⟩⟩ .empty .empty 10).insertTable? "p"
        = some ⟨#[⟨0, .ofNat 1, .ofNat 1⟩,
            ⟨1, .ofNat 1 / .ofNat 9007199254740993, .ofNat 1⟩]⟩ := by
    decide +kernel
  exact ⟨_, _, _, build_eq (by decide), htable, rfl, by decide +kernel⟩

/-- Where the inserts of a partition times the entries of its table are at most `2 ^ 50`, the
running sum of the last entry reaches the place of every hash. So the place selects the first entry
whose running sum reaches it, and the first entry of the table only where that is the one. -/
theorem last_running_sum_reached (sizing : Sizing) (fresh : ℕ → String) (profile : Profile)
    (smallFiles : SortedMap (List SmallFile)) (pending : SortedMap KeySet) {average : UInt64}
    (haverage : average ≠ 0) :
    ∃ plan, build sizing fresh profile smallFiles pending average = .ok plan
      ∧ ∀ partition, 0 < profile.inserts partition →
        ∃ table, plan.insertTable? partition = some table
          ∧ let inserts := (profile.inserts partition).toNat
            inserts * table.size ≤ 2 ^ 50 → ∀ hash : Int64,
              let place : Binary64 := .ofNat (hash.toInt % inserts).toNat / .ofNat inserts
              slotFraction hash (profile.inserts partition) = place
              ∧ (∃ last, table.entries.back? = some last ∧ place.le last.cumulative = true)
              ∧ ∃ entry, (table.entries.toList.find? fun entry => place.le entry.cumulative)
                  = some entry
                ∧ table.select place = some entry.bucket := by
  obtain ⟨plan, hplan⟩ := exists_build haverage
  refine ⟨plan, hplan, fun partition hpos => ?_⟩
  obtain ⟨table, htable, hentries⟩ := exists_insertTable? hplan hpos
  obtain ⟨share, hsound, hinserts, rfl⟩ := exists_sound_of_insertTable? hplan htable
  refine ⟨_, htable, ?_⟩
  rw [← hinserts] at hpos ⊢
  intro inserts hmul hash place
  have hsize : inserts ≤ 2 ^ 50 := (Nat.le_mul_of_pos_right _ hentries).trans hmul
  have hcount : slotCount share.inserts = inserts :=
    slotCount_eq hsound.inserts_pos (hsize.trans (by decide))
  have hslot : (hash.toInt % inserts).toNat < inserts := by
    have hlt := slot_lt hash share.inserts
    rwa [slot, hcount] at hlt
  obtain ⟨last, hlast, hle⟩ :=
    hsound.le_last (hsize.trans (by decide)) (hsound.slack_eq_zero hmul) hslot
  refine ⟨?_, ⟨last, hlast, hle⟩,
    hsound.nonDecreasing.exists_find?_of_le (Array.mem_of_back? hlast) hle⟩
  rw [slotFraction, slot, hcount]

/-- Ten tenths are less than one, and the last of the running sums is reached still. -/
theorem last_running_sum_reached_of_ten_tenths :
    (10 : UInt64) ≠ 0 ∧ 0 < Profile.inserts ⟨.insert .empty "p" ⟨10, .empty⟩⟩ "p"
      ∧ ∃ plan table last, build ⟨100, 1, false⟩ (fun _ => "new")
          ⟨.insert .empty "p" ⟨10, .empty⟩⟩ .empty .empty 10 = .ok plan
        ∧ plan.insertTable? "p" = some table ∧ 10 * table.size ≤ 2 ^ 50
        ∧ table.entries.back? = some last ∧ last.cumulative.lt (.ofNat 1) = true
        ∧ ∀ hash, (slotFraction hash 10).le last.cumulative = true := by
  obtain ⟨plan, hplan, hreached⟩ := last_running_sum_reached ⟨100, 1, false⟩ (fun _ => "new")
    ⟨.insert .empty "p" ⟨10, .empty⟩⟩ .empty .empty (show (10 : UInt64) ≠ 0 by decide)
  have hinserts : Profile.inserts ⟨.insert .empty "p" ⟨10, .empty⟩⟩ "p" = 10 := by decide +kernel
  have hpos : 0 < Profile.inserts ⟨.insert .empty "p" ⟨10, .empty⟩⟩ "p" := by
    rw [hinserts]
    decide
  have htenths : ∃ table last, (built ⟨100, 1, false⟩ (fun _ => "new")
      ⟨.insert .empty "p" ⟨10, .empty⟩⟩ .empty .empty 10).insertTable? "p" = some table
        ∧ table.size = 10 ∧ table.entries.back? = some last
        ∧ last.cumulative.lt (.ofNat 1) = true :=
    ⟨_, _, rfl, by decide +kernel, rfl, by decide +kernel⟩
  rw [← eq_built_of_build hplan] at htenths
  obtain ⟨table, last, htable, hten, hlast, hbelow⟩ := htenths
  have hmul : 10 * table.size ≤ 2 ^ 50 := by
    rw [hten]
    decide
  refine ⟨by decide, hpos, plan, table, last, hplan, htable, hmul, hlast, hbelow, fun hash => ?_⟩
  obtain ⟨table', htable', hall⟩ := hreached "p" hpos
  cases htable.symm.trans htable'
  rw [hinserts] at hall
  obtain ⟨hplace, ⟨last', hlast', hle⟩, -⟩ := hall hmul hash
  cases hlast.symm.trans hlast'
  rw [hplace]
  exact hle

end Plan

end Upsert
