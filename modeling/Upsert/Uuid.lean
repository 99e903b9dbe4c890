import Upsert.Text.Digits

/-! # Random identifiers

The id of a new file group is a version 4 UUID: 128 bits, of which four state the version and two
the variant, and all others are free. It is written as lower-case hexadecimal digits in groups of
eight, four, four, four and twelve.
-/

namespace Upsert.Uuid

/-- The free bits of a version 4 UUID: 48 before the version, 12 between it and the variant, and 62
after the variant. -/
structure Bits where
  high : BitVec 48
  middle : BitVec 12
  low : BitVec 62

/-- The free bits given by the 122 low bits of a number. -/
def Bits.ofNat (n : Nat) : Bits :=
  ⟨BitVec.ofNat 48 (n >>> 74), BitVec.ofNat 12 (n >>> 62), BitVec.ofNat 62 n⟩

/-- The text of a version 4 UUID. -/
def text (bits : Bits) : String :=
  let high := Text.paddedDigits 16 12 bits.high.toNat
  let middle := '4' :: Text.paddedDigits 16 3 bits.middle.toNat
  let low := Text.paddedDigits 16 16 (2 <<< 62 + bits.low.toNat)
  String.ofList (high.take 8 ++ '-' :: high.drop 8 ++ '-' :: middle ++ '-' :: low.take 4 ++
    '-' :: low.drop 4)

/-- A lower-case hexadecimal digit. -/
def isHexDigit (c : Char) : Bool := ('0' ≤ c && c ≤ '9') || ('a' ≤ c && c ≤ 'f')

/-- The text has the form of a version 4 UUID. -/
def isText (text : String) : Bool :=
  let chars := text.toList
  let hyphens := [8, 13, 18, 23]
  chars.length == 36 &&
    (List.range 36).all (fun i =>
      match chars[i]? with
      | some c => if hyphens.contains i then c == '-' else isHexDigit c
      | none => false) &&
    chars[14]? == some '4' && (chars[19]?.any fun c => ['8', '9', 'a', 'b'].contains c)

end Upsert.Uuid
