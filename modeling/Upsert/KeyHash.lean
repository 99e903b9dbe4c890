import Upsert.Binary64.Arithmetic
import Upsert.Md5

/-! # The hash of a record key

A key is hashed to the first eight bytes of its MD5 digest, read as a signed little-endian word.
With `total` inserts to share out, the hash falls into one of `total` slots, and the slot divided by
`total` is the key's place between zero and one. The place depends on the key and the total alone,
so that a record is sent to the same place whenever it is routed again.
-/

namespace Upsert

/-- The number whose bytes, the least significant first, are given. -/
def littleEndian : List UInt8 → Nat
  | [] => 0
  | byte :: rest => byte.toNat + 256 * littleEndian rest

/-- The hash of a record key. -/
def keyHash (key : String) : Int64 :=
  let digest := Md5.digest key.toUTF8.data.toList
  (UInt64.ofNat (littleEndian (digest.take 8))).toInt64

/-- The greatest number of slots: the greatest signed word. -/
def maxSlots : Nat := 1 <<< 63 - 1

/-- The number of slots for `total` inserts. -/
def slotCount (total : UInt64) : Nat := min (max total.toNat 1) maxSlots

/-- The slot a hash falls into: its remainder, never negative, by the number of slots. -/
def slot (hash : Int64) (total : UInt64) : Nat :=
  (hash.toInt % (slotCount total : Int)).toNat

/-- The place of a hash among `total` inserts: its slot over the number of slots. -/
def slotFraction (hash : Int64) (total : UInt64) : Binary64 :=
  .ofNat (slot hash total) / .ofNat (slotCount total)

/-- The place of a record key among `total` inserts. -/
def keyFraction (key : String) (total : UInt64) : Binary64 :=
  slotFraction (keyHash key) total

theorem slotCount_pos (total : UInt64) : 0 < slotCount total := by
  unfold slotCount maxSlots
  omega

/-- Every hash falls into one of the slots. -/
theorem slot_lt (hash : Int64) (total : UInt64) : slot hash total < slotCount total := by
  have hpos : (0 : Int) < (slotCount total : Int) := Int.natCast_pos.mpr (slotCount_pos total)
  have hlt := Int.emod_lt_of_pos hash.toInt hpos
  have hle := Int.emod_nonneg hash.toInt (Int.ne_of_gt hpos)
  unfold slot
  omega

end Upsert
