import Upsert.InsertTable
import Upsert.KeyHash
import Upsert.Proofs.Binary64.Words

/-! # Running sums of rounded weights

The running sums of a table are sums of doubles, of which each weight and each addition is rounded.
They ascend, however many inserts there are, and each weight makes the sum greater that the sum does
not absorb (`runningSum_grows`).

For at most `2 ^ 53` inserts the sum after `i` allocations is off by at most `1 + i` times
`2 ^ (-53)` (`exists_runningSum`), and the place of a slot by at most `2 ^ (-54)`. So a running sum
and a slot can compare the wrong way only where the slot is within `slack` of the records allocated
so far.
-/

namespace Upsert

/-- The place of a slot out of `count`. -/
def slotPlace (count slot : ℕ) : Binary64 := .ofNat slot / .ofNat count

theorem slotCount_eq {total : UInt64} (hpos : 0 < total.toNat) (hsize : total.toNat ≤ maxSlots) :
    slotCount total = total.toNat := by
  rw [slotCount, max_eq_left hpos, min_eq_left hsize]

/-- Every hash has the place of one of the slots, of which there are as many as inserts. -/
theorem exists_slotFraction_eq (hash : Int64) {total : UInt64} (hpos : 0 < total.toNat)
    (hsize : total.toNat ≤ maxSlots) :
    ∃ slot < total.toNat, slotFraction hash total = slotPlace total.toNat slot := by
  refine ⟨slot hash total, slotCount_eq hpos hsize ▸ slot_lt hash total, ?_⟩
  rw [slotFraction, slotCount_eq hpos hsize, slotPlace]

namespace InsertTable

open Binary64 (Magnitude)

/-- The records of the first `i` allocations. -/
def recordsBefore (allocations : List Allocation) (i : ℕ) : ℕ :=
  ((allocations.take i).map (·.records.toNat)).sum

/-- The sum of the weights of the first `i` allocations, from the left. -/
def runningSum (total : Binary64) (allocations : List Allocation) (i : ℕ) : Binary64 :=
  (allocations.take i).foldl (fun sum a => sum + .ofNat a.records.toNat / total) (.zero false)

/-- By how many slots `m` running sums over `n` inserts and the places of slots are off together, as
a whole number. -/
def slack (n m : ℕ) : ℕ := n * (2 * m + 3) / 2 ^ 54

/-! ## The sums in the table -/

theorem recordsBefore_zero (allocations : List Allocation) : recordsBefore allocations 0 = 0 := rfl

/-- All allocations together. -/
theorem recordsBefore_length (allocations : List Allocation) :
    recordsBefore allocations allocations.length = (allocations.map (·.records.toNat)).sum := by
  rw [recordsBefore, List.take_length]

theorem recordsBefore_succ {allocations : List Allocation} {i : ℕ} {a : Allocation}
    (h : allocations[i]? = some a) :
    recordsBefore allocations (i + 1) = recordsBefore allocations i + a.records.toNat := by
  rw [recordsBefore, List.take_add_one, h, Option.toList_some, List.map_append, List.sum_append,
    List.map_singleton, List.sum_singleton]
  rfl

theorem recordsBefore_le_of_le {allocations : List Allocation} {i j : ℕ} (hij : i ≤ j) :
    recordsBefore allocations i ≤ recordsBefore allocations j :=
  (((List.take_prefix_take_left hij).sublist).map _).sum_le_sum fun _ _ => Nat.zero_le _

theorem recordsBefore_succ_div {allocations : List Allocation} {i : ℕ} (n : ℕ)
    (hi : i < allocations.length) :
    (recordsBefore allocations (i + 1) : ℚ) / n
      = recordsBefore allocations i / n + allocations[i].records.toNat / n := by
  rw [recordsBefore_succ (List.getElem?_eq_getElem hi), Nat.cast_add, add_div]

theorem recordsBefore_add_le {allocations : List Allocation} {n i : ℕ}
    (htotal : recordsBefore allocations allocations.length ≤ n) (hi : i < allocations.length) :
    recordsBefore allocations i + allocations[i].records.toNat ≤ n := by
  rw [← recordsBefore_succ (List.getElem?_eq_getElem hi)]
  exact (recordsBefore_le_of_le hi).trans htotal

theorem runningSum_succ (total : Binary64) {allocations : List Allocation} {i : ℕ}
    {a : Allocation} (h : allocations[i]? = some a) :
    runningSum total allocations (i + 1)
      = runningSum total allocations i + .ofNat a.records.toNat / total := by
  rw [runningSum, List.take_add_one, h, Option.toList_some, List.foldl_append]
  rfl

theorem getElem?_accumulate (total sum : Binary64) (allocations : List Allocation) (i : ℕ) :
    (accumulate total sum allocations)[i]?
      = allocations[i]?.map fun a => ⟨a.bucket, .ofNat a.records.toNat / total,
          (allocations.take (i + 1)).foldl (fun sum a => sum + .ofNat a.records.toNat / total)
            sum⟩ := by
  induction allocations generalizing sum i with
  | nil => rfl
  | cons allocation rest ih =>
    cases i with
    | zero => rfl
    | succ i => exact ih _ i

/-- The line of an allocation. -/
theorem getElem?_ofAllocations (allocations : List Allocation) {total : UInt64}
    (htotal : 0 < total.toNat) (i : ℕ) :
    (ofAllocations allocations total).entries[i]?
      = allocations[i]?.map fun a => ⟨a.bucket, .ofNat a.records.toNat / .ofNat total.toNat,
          runningSum (.ofNat total.toNat) allocations (i + 1)⟩ := by
  rw [ofAllocations, List.getElem?_toArray, max_eq_left htotal, getElem?_accumulate]
  rfl

theorem isBelow_ofAllocations (allocations : List Allocation) {total : UInt64}
    (htotal : 0 < total.toNat) (place : Binary64) {i : ℕ} (hi : i < allocations.length) :
    (ofAllocations allocations total).isBelow place i
      = (runningSum (.ofNat total.toNat) allocations (i + 1)).lt place := by
  rw [isBelow, getElem?_ofAllocations allocations htotal, List.getElem?_eq_getElem hi]
  rfl

/-! ## How the sums grow -/

section

variable {n : ℕ} {allocations : List Allocation} {i : ℕ}
  (hn : 0 < n) (hword : n ≤ 2 ^ 64) (htotal : recordsBefore allocations allocations.length ≤ n)

include hn htotal in
theorem recordsBefore_div_le_one (hi : i ≤ allocations.length) :
    (recordsBefore allocations i : ℚ) / n ≤ 1 := by
  rw [div_le_one (by exact_mod_cast hn)]
  exact_mod_cast (recordsBefore_le_of_le hi).trans htotal

include hn hword htotal

/-- One more weight makes a sum greater, unless the sum absorbs it. -/
theorem runningSum_grows (hi : i < allocations.length) {s : Magnitude}
    (hs : runningSum (.ofNat n) allocations i = .finite false s)
    (hbound : s.value ≤ 4 * (recordsBefore allocations i / n)) :
    ∃ w t, .ofNat allocations[i].records.toNat / .ofNat n = Binary64.finite false w
      ∧ runningSum (.ofNat n) allocations (i + 1) = .finite false t
      ∧ t.value ≤ 4 * (recordsBefore allocations (i + 1) / n)
      ∧ s.value ≤ t.value ∧ (s.value < t.value ↔ ¬ s.Absorbs w) := by
  have ha : allocations[i]? = some allocations[i] := List.getElem?_eq_getElem hi
  have hle : allocations[i].records.toNat ≤ n :=
    (Nat.le_add_left ..).trans (recordsBefore_add_le htotal hi)
  have hparts := recordsBefore_succ_div n hi
  have hone := recordsBefore_div_le_one hn htotal (show i + 1 ≤ allocations.length from hi)
  rw [hparts] at hone
  obtain ⟨w, hw, -, -, hnonneg, hweight⟩ := Binary64.div_word hn hle hword
  have hpart : (0 : ℚ) ≤ allocations[i].records.toNat / n := by positivity
  obtain ⟨t, ht, hst, htwice, hgrows⟩ :=
    Binary64.add_growth (e := 2) (by decide) (show s.value + w.value ≤ 2 ^ 2 by linarith)
  refine ⟨w, t, hw, ?_, ?_, hst, hgrows⟩
  · rw [runningSum_succ _ ha, hs, hw, ht]
  · rw [hparts]
    linarith

/-- The running sums are finite. -/
theorem exists_runningSum_le (hi : i ≤ allocations.length) :
    ∃ s, runningSum (.ofNat n) allocations i = .finite false s
      ∧ s.value ≤ 4 * (recordsBefore allocations i / n) := by
  induction i with
  | zero => exact ⟨.zero, rfl, by simp [recordsBefore_zero]⟩
  | succ i ih =>
    obtain ⟨s, hs, hbound⟩ := ih (by omega)
    obtain ⟨_, t, -, ht, hbound', -⟩ := runningSum_grows hn hword htotal hi hs hbound
    exact ⟨t, ht, hbound'⟩

/-- The running sums ascend. -/
theorem runningSum_le {j : ℕ} (hij : i ≤ j) (hj : j ≤ allocations.length) {s t : Magnitude}
    (hs : runningSum (.ofNat n) allocations i = .finite false s)
    (ht : runningSum (.ofNat n) allocations j = .finite false t) : s.value ≤ t.value := by
  induction j, hij using Nat.le_induction generalizing t with
  | base =>
    rw [hs] at ht
    cases ht
    exact le_rfl
  | succ j hij ih =>
    obtain ⟨u, hu, hbound⟩ :=
      exists_runningSum_le hn hword htotal (show j ≤ allocations.length by omega)
    obtain ⟨_, t', -, ht', -, hle, -⟩ := runningSum_grows hn hword htotal hj hu hbound
    rw [ht] at ht'
    cases ht'
    exact (ih (by omega) hu).trans hle

end

/-- Slots that are more than `slack` apart have places further apart than the errors. -/
theorem add_lt_of_slack_lt {n m k l : ℕ} (hn : 0 < n) (h : k + slack n m < l) :
    (k : ℚ) / n + (2 * m + 3) / 2 ^ 54 < l / n := by
  have hpos : (0 : ℚ) < n := by exact_mod_cast hn
  have hslack : n * (2 * m + 3) < (slack n m + 1) * 2 ^ 54 :=
    (Nat.div_lt_iff_lt_mul (by decide)).mp (Nat.lt_succ_self _)
  have hslots : k * 2 ^ 54 + n * (2 * m + 3) < l * 2 ^ 54 := by omega
  have hcast : (k * 2 ^ 54 + n * (2 * m + 3) : ℚ) < l * 2 ^ 54 := by exact_mod_cast hslots
  rw [div_add_div _ _ hpos.ne' (by norm_num), div_lt_div_iff₀ (by positivity) hpos]
  nlinarith

/-! ## How far the sums are off -/

section

variable {n : ℕ} {allocations : List Allocation} {i : ℕ}
  (hsize : n ≤ 2 ^ 53) (htotal : recordsBefore allocations allocations.length ≤ n)
  (hlength : allocations.length ≤ n)

include hsize htotal hlength

/-- One more weight adds the error of the weight and that of the addition. -/
theorem runningSum_step (hi : i < allocations.length) {s : Magnitude}
    (hs : runningSum (.ofNat n) allocations i = .finite false s)
    (herror : |s.value - recordsBefore allocations i / n|
      ≤ (recordsBefore allocations i / n + i) / 2 ^ 53) :
    ∃ t, runningSum (.ofNat n) allocations (i + 1) = .finite false t
      ∧ |t.value - recordsBefore allocations (i + 1) / n|
        ≤ (recordsBefore allocations (i + 1) / n + (i + 1 : ℕ)) / 2 ^ 53 := by
  have ha : allocations[i]? = some allocations[i] := List.getElem?_eq_getElem hi
  have hn : 0 < n := by omega
  have hle : allocations[i].records.toNat ≤ n :=
    (Nat.le_add_left ..).trans (recordsBefore_add_le htotal hi)
  obtain ⟨w, hw, -, hweight⟩ := Binary64.ofNat_div_ofNat hn hle hsize
  -- in parts of the inserts
  have hparts := recordsBefore_succ_div n hi
  have hone := recordsBefore_div_le_one hn htotal (show i + 1 ≤ allocations.length by omega)
  have hcount : ((i + 1 : ℕ) : ℚ) ≤ 2 ^ 53 := by
    have hcount : i + 1 ≤ 2 ^ 53 := by omega
    exact_mod_cast hcount
  rw [hparts] at hone ⊢
  push_cast at hcount ⊢
  obtain ⟨hs1, hs2⟩ := abs_le.mp herror
  obtain ⟨hw1, hw2⟩ := abs_le.mp hweight
  obtain ⟨t, ht, hadd⟩ := Binary64.add_eq (show s.value + w.value ≤ 2 by linarith)
  obtain ⟨ht1, ht2⟩ := abs_le.mp hadd
  refine ⟨t, ?_, ?_⟩
  · rw [runningSum_succ _ ha, hs, hw, ht]
  · rw [abs_le]
    constructor <;> linarith

/-- The running sums are finite, and none of them is far off. -/
theorem exists_runningSum (hi : i ≤ allocations.length) :
    ∃ s, runningSum (.ofNat n) allocations i = .finite false s
      ∧ |s.value - recordsBefore allocations i / n|
        ≤ (recordsBefore allocations i / n + i) / 2 ^ 53 := by
  induction i with
  | zero =>
    refine ⟨.zero, rfl, ?_⟩
    simp [recordsBefore_zero]
  | succ i ih =>
    obtain ⟨s, hs, herror⟩ := ih (by omega)
    obtain ⟨t, ht, herror'⟩ := runningSum_step hsize htotal hlength hi hs herror
    exact ⟨t, ht, herror'⟩

/-! ## Running sums and slots -/

/-- A slot that is well below the records allocated so far has its place within the running sum. -/
theorem runningSum_lt_slotPlace_eq_false (hi : i ≤ allocations.length) {k : ℕ} (hk : k < n)
    (h : k + slack n allocations.length < recordsBefore allocations i) :
    (runningSum (.ofNat n) allocations i).lt (slotPlace n k) = false := by
  have hn : 0 < n := by omega
  obtain ⟨s, hs, herror⟩ := exists_runningSum hsize htotal hlength hi
  obtain ⟨r, hr, hplace, -⟩ := Binary64.ofNat_div_ofNat hn hk.le hsize
  have hapart := add_lt_of_slack_lt hn h
  have hone := recordsBefore_div_le_one hn htotal hi
  have hcount : (i : ℚ) ≤ allocations.length := by exact_mod_cast hi
  rw [hs, slotPlace, hr, Bool.eq_false_iff, ne_eq, Binary64.lt_iff, not_lt]
  obtain ⟨hs1, hs2⟩ := abs_le.mp herror
  obtain ⟨hr1, hr2⟩ := abs_le.mp hplace
  linarith

/-- A slot that is well above the records allocated so far has its place past the running sum. -/
theorem runningSum_lt_slotPlace (hi : i ≤ allocations.length) {k : ℕ} (hk : k < n)
    (h : recordsBefore allocations i + slack n allocations.length < k) :
    (runningSum (.ofNat n) allocations i).lt (slotPlace n k) = true := by
  have hn : 0 < n := by omega
  obtain ⟨s, hs, herror⟩ := exists_runningSum hsize htotal hlength hi
  obtain ⟨r, hr, hplace, -⟩ := Binary64.ofNat_div_ofNat hn hk.le hsize
  have hapart := add_lt_of_slack_lt hn h
  have hone := recordsBefore_div_le_one hn htotal hi
  have hcount : (i : ℚ) ≤ allocations.length := by exact_mod_cast hi
  rw [hs, slotPlace, hr, Binary64.lt_iff]
  obtain ⟨hs1, hs2⟩ := abs_le.mp herror
  obtain ⟨hr1, hr2⟩ := abs_le.mp hplace
  linarith

end

end InsertTable

end Upsert
