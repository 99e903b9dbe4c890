/-! # `Binary64`: double-precision numbers as exact values

A finite double is a whole number of *quanta* of `2 ^ (-1074)`, the least positive double, so its
value is kept as a natural number of quanta and a sign. Nothing is rounded in this representation:
`1.0` is `2 ^ 1074` quanta, and the finite doubles are exactly the numbers of quanta below
`2 ^ 2098` (that is, below the number `2 ^ 1024`) with at most 53 significant bits.

There is one value for all the NaNs, and the two zeros differ by their sign only. Two values are
equal as terms exactly when their bits are equal; the comparison of numbers is in
`Upsert.Binary64.Arithmetic`.
-/

namespace Upsert

namespace Binary64

/-- The number of significant bits of a double. -/
def precision : Nat := 53

/-- A quantum is two to the power of minus this. -/
def scale : Nat := 1074

/-- The number of quanta in `1.0`. -/
def one : Nat := 1 <<< scale

/-- The number of quanta in `2 ^ 1024`, the least magnitude that no finite double reaches. -/
def limit : Nat := 1 <<< (scale + 1024)

/-- A number of quanta is the magnitude of a finite double. -/
def Short (n : Nat) : Prop :=
  n < limit ∧ ∃ m e, m < 1 <<< precision ∧ n = m <<< e

/-- The magnitude of a finite double, in quanta. -/
structure Magnitude where
  quanta : Nat
  short : Short quanta
deriving DecidableEq

end Binary64

/-- A double-precision number. -/
inductive Binary64 where
  | nan
  | infinite (negative : Bool)
  | finite (negative : Bool) (magnitude : Binary64.Magnitude)
deriving DecidableEq

namespace Binary64

theorem one_pos : 0 < one := by
  rw [one, Nat.one_shiftLeft]
  exact Nat.two_pow_pos scale

/-- A significand below `2 ^ 53` at a scale of at most `2 ^ 2045` quanta stays below the limit. -/
theorem shiftLeft_lt_limit {m e : Nat} (hm : m < 1 <<< precision) (he : e ≤ 2045) :
    m <<< e < limit := by
  rw [Nat.one_shiftLeft] at hm
  have hlt : m * 2 ^ e < 2 ^ precision * 2 ^ e :=
    Nat.mul_lt_mul_of_pos_right hm (Nat.two_pow_pos e)
  have hle : 2 ^ (precision + e) ≤ 2 ^ (scale + 1024) :=
    Nat.pow_le_pow_right (by decide) (by unfold precision scale; omega)
  rw [← Nat.pow_add] at hlt
  have h := Nat.lt_of_lt_of_le hlt hle
  rwa [← Nat.shiftLeft_eq, ← Nat.one_shiftLeft] at h

/-- A significand below `2 ^ 53` at a scale of at most `2 ^ 2045` quanta is a finite double. -/
theorem short_of_scaled {m e : Nat} (hm : m < 1 <<< precision) (he : e ≤ 2045) :
    Short (m <<< e) :=
  ⟨shiftLeft_lt_limit hm he, m, e, hm, rfl⟩

/-- Every number of quanta below `2 ^ 53` is a finite double. -/
theorem short_of_lt {n : Nat} (h : n < 1 <<< precision) : Short n := by
  have h' := short_of_scaled h (Nat.zero_le 2045)
  rwa [Nat.shiftLeft_zero] at h'

namespace Magnitude

/-- The magnitude of the zeros. -/
def zero : Magnitude := ⟨0, short_of_lt (by decide)⟩

@[ext] theorem ext {x y : Magnitude} (h : x.quanta = y.quanta) : x = y := by
  cases x
  cases y
  cases h
  rfl

end Magnitude

/-- The zero of the given sign. -/
def zero (negative : Bool) : Binary64 := .finite negative .zero

/-- The value is neither NaN nor an infinity. -/
def isFinite : Binary64 → Bool
  | .finite .. => true
  | _ => false

end Binary64

end Upsert
