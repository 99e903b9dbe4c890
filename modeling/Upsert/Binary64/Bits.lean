import Upsert.Binary64.Basic
import Upsert.Text.Digits

/-! # The interchange form of doubles

Sixty-four bits: the sign, eleven bits of exponent, fifty-two bits of fraction. `ofBits` and
`toBits` go between the bits and the exact value; every NaN is written with the one quiet pattern
`7ff8000000000000`. `ofHex?` and `toHex` write the bits as sixteen lower-case hexadecimal digits,
the most significant first.
-/

namespace Upsert.Binary64

/-- The number of bits in the fraction field. -/
def fractionBits : Nat := precision - 1

/-- The exponent field of the infinities and of NaN: eleven ones. -/
def topExponent : Nat := 2047

/-- The double with the given fields. A fraction that does not fit its field gives NaN. -/
def ofFields (negative : Bool) (exponent fraction : Nat) : Binary64 :=
  if hf : fraction < 1 <<< fractionBits then
    if exponent = 0 then
      .finite negative ⟨fraction, short_of_lt (Nat.lt_trans hf (by decide))⟩
    else if he : exponent < topExponent then
      .finite negative ⟨(1 <<< fractionBits + fraction) <<< (exponent - 1),
        short_of_scaled (by unfold precision; unfold fractionBits precision at *; omega)
          (by unfold topExponent at he; omega)⟩
    else if fraction = 0 then .infinite negative else .nan
  else .nan

/-- The double with the given bits. -/
def ofBits (bits : UInt64) : Binary64 :=
  let word := bits.toNat
  ofFields (decide (word >>> 63 = 1)) ((word >>> fractionBits) % (topExponent + 1))
    (word % 1 <<< fractionBits)

/-- The exponent and fraction fields of a finite magnitude, as one number. -/
def Magnitude.fields (magnitude : Magnitude) : Nat :=
  let n := magnitude.quanta
  if n < 1 <<< fractionBits then n
  else
    let place := n.log2 - fractionBits
    -- the leading bit of the significand is not written: it adds one to the exponent
    place <<< fractionBits + n >>> place

/-- The bits of a double. -/
def toBits (x : Binary64) : UInt64 :=
  match x with
  | .nan => UInt64.ofNat (topExponent <<< fractionBits + 1 <<< (fractionBits - 1))
  | .infinite negative => UInt64.ofNat (sign negative + topExponent <<< fractionBits)
  | .finite negative magnitude => UInt64.ofNat (sign negative + magnitude.fields)
where
  /-- The sign bit. -/
  sign (negative : Bool) : Nat := if negative then 1 <<< 63 else 0

/-- The value of a hexadecimal digit. -/
def hexValue? (c : Char) : Option Nat :=
  if '0' ≤ c ∧ c ≤ '9' then some (c.toNat - '0'.toNat)
  else if 'a' ≤ c ∧ c ≤ 'f' then some (c.toNat - 'a'.toNat + 10)
  else none

/-- Reads the sixteen hexadecimal digits of a double. -/
def ofHex? (text : String) : Option Binary64 := do
  let digits ← text.toList.mapM hexValue?
  if digits.length = 16 then
    some (ofBits (UInt64.ofNat (digits.foldl (fun value digit => 16 * value + digit) 0)))
  else none

/-- The sixteen hexadecimal digits of a double. -/
def toHex (x : Binary64) : String :=
  String.ofList (Text.paddedDigits 16 16 x.toBits.toNat)

end Upsert.Binary64
