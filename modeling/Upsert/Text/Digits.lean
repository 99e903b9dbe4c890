/-! # Digits with leading zeros

Numbers of a fixed width are written with zeros in front: the bits of a double, the decimal places
after a point and the groups of a random identifier.
-/

namespace Upsert.Text

/-- The digits of `n` in a base, in lower case, with zeros in front up to `width` digits. -/
def paddedDigits (base width n : Nat) : List Char :=
  (Nat.toDigits base n).leftpad width '0'

end Upsert.Text
