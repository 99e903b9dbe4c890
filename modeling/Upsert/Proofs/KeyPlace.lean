import Upsert.KeyHash
import Upsert.Proofs.Binary64.Words

/-! # Where the place of a key lies

The place of a key is its slot over the number of slots. The slot is the lesser of the two, but both
are rounded to doubles before they are divided. So the place of a key is between zero and one, and
it is one exactly where the slot and the number of slots become the same double
(`keyFraction_lt_one_iff`). Up to `2 ^ 53` slots no two numbers of slots do.
-/

namespace Upsert

open Binary64 (ofNat)

theorem slotCount_le (total : UInt64) : slotCount total ≤ 2 ^ 64 :=
  (min_le_right ..).trans (by decide)

/-- The slots are as many as the inserts, but at least one and at most the greatest signed word. -/
theorem slotCount_le_of_le {total : UInt64} (h : total.toNat ≤ 2 ^ 53) :
    slotCount total ≤ 2 ^ 53 :=
  (min_le_left ..).trans (max_le h Nat.one_le_two_pow)

/-- The place of a hash is a number from zero to one, and one only where its slot and the number of
slots are the same double. -/
theorem slotFraction_bounds (hash : Int64) (total : UInt64) :
    ∃ place, slotFraction hash total = .finite false place ∧ 0 ≤ place.value ∧ place.value ≤ 1
      ∧ (place.value < 1 ↔ ofNat (slot hash total) ≠ ofNat (slotCount total)) := by
  obtain ⟨place, hplace, hone, hlt, -⟩ :=
    Binary64.div_word (slotCount_pos total) (slot_lt hash total).le (slotCount_le total)
  exact ⟨place, hplace, place.value_nonneg, hone, hlt⟩

/-- The place of a key is from zero to one, and less than one exactly where its slot and the number
of slots are different doubles. They are where there are at most `2 ^ 53` inserts. -/
theorem keyFraction_lt_one_iff (key : String) (total : UInt64) :
    (ofNat 0).le (keyFraction key total) = true ∧ (keyFraction key total).le (ofNat 1) = true
      ∧ ((keyFraction key total).lt (ofNat 1) = true
        ↔ ofNat (slot (keyHash key) total) ≠ ofNat (slotCount total))
      ∧ (total.toNat ≤ 2 ^ 53 → (keyFraction key total).lt (ofNat 1) = true) := by
  obtain ⟨place, hplace, hzero, hone, hlt⟩ := slotFraction_bounds (keyHash key) total
  obtain ⟨bottom, hbottom, hvalue⟩ := Binary64.exists_value_eq (Nat.zero_le _)
  rw [keyFraction, hplace, hbottom, Binary64.le_iff, hvalue, Nat.cast_zero, Binary64.le_one_iff,
    Binary64.lt_one_iff, hlt]
  refine ⟨hzero, hone, Iff.rfl, fun htotal => ?_⟩
  exact Binary64.ofNat_ne_of_lt (slot_lt _ total) (slotCount_le_of_le htotal)

/-- The last of `2 ^ 53 + 1` slots has the place one. -/
example : slotFraction 9007199254740992 9007199254740993 = ofNat 1 := by decide +kernel

/-- A key whose slot is the last one, of so many that the slot and their number are the same
double. -/
theorem keyFraction_of_last_slot :
    slot (keyHash "c") 4014738744300571211 = 4014738744300571210
      ∧ keyFraction "c" 4014738744300571211 = ofNat 1
      ∧ (keyFraction "c" 4014738744300571211).lt (ofNat 1) = false := by
  decide +kernel

end Upsert
