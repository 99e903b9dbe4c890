import Upsert.Binary64.Rounding
import Upsert.Text.Digits

/-! # Decimal text of doubles

`toFixed places x` writes `x` with a fixed number of decimal places: the exact value of `x`, rounded
once at the last place, where a half goes to the even digit. The sign is written also for the
negative zero.
-/

namespace Upsert.Binary64

/-- The decimal text of a number with `places` digits after the point. -/
def toFixed (places : Nat) : Binary64 → String
  | .nan => "NaN"
  | .infinite negative => (if negative then "-" else "") ++ "inf"
  | .finite negative magnitude =>
    let unit := Nat.pow 10 places
    let scaled := roundHalfEven (magnitude.quanta * unit) one
    let whole := Nat.toDigits 10 (scaled / unit)
    let fraction :=
      if places = 0 then [] else '.' :: Text.paddedDigits 10 places (scaled % unit)
    (if negative then "-" else "") ++ String.ofList (whole ++ fraction)

end Upsert.Binary64
