import Upsert.Binary64.Basic

/-! # Rounding of an exact quotient to the nearest double

Every operation on doubles is the exact result, a quotient of two natural numbers of quanta,
rounded once. `nearest` keeps the 53 leading bits of a quotient (fewer below `2 ^ (-1022)`, where
the last place is one quantum) and sends a half to the even neighbour; `rounded` gives the infinity
of the sign when the rounded magnitude reaches `2 ^ 1024`.
-/

namespace Upsert.Binary64

/-- The natural number nearest to `num / den`; a half goes to the even neighbour. -/
def roundHalfEven (num den : Nat) : Nat :=
  let q := num / den
  let twice := 2 * (num % den)
  if twice < den ∨ (twice = den ∧ q % 2 = 0) then q else q + 1

/-- The scale of the last place kept of `num / den` quanta, as a power of two. -/
def lastPlace (num den : Nat) : Nat := (num / den).log2 - (precision - 1)

/-- The number of quanta with at most 53 significant bits that is nearest to `num / den`. -/
def nearest (num den : Nat) : Nat :=
  roundHalfEven num (den <<< lastPlace num den) <<< lastPlace num den

theorem roundHalfEven_le (num den : Nat) : roundHalfEven num den ≤ num / den + 1 := by
  unfold roundHalfEven
  dsimp only
  split <;> omega

theorem le_roundHalfEven (num den : Nat) : num / den ≤ roundHalfEven num den := by
  unfold roundHalfEven
  dsimp only
  split <;> omega

/-- A whole quotient is not changed. -/
theorem roundHalfEven_mul (n : Nat) {den : Nat} (h : 0 < den) :
    roundHalfEven (n * den) den = n := by
  simp [roundHalfEven, Nat.mul_div_cancel _ h, h]

/-- The quotient, cut at its last place, has at most 53 bits. -/
theorem div_lastPlace_lt (num den : Nat) :
    num / (den <<< lastPlace num den) < 1 <<< precision := by
  rw [Nat.shiftLeft_eq, Nat.one_shiftLeft, ← Nat.div_div_eq_div_mul,
    Nat.div_lt_iff_lt_mul (Nat.two_pow_pos _), ← Nat.pow_add]
  refine Nat.lt_of_lt_of_le Nat.lt_log2_self (Nat.pow_le_pow_right (by decide) ?_)
  unfold lastPlace precision
  omega

theorem short_nearest {num den : Nat} (h : nearest num den < limit) :
    Short (nearest num den) := by
  refine ⟨h, ?_⟩
  have hle : roundHalfEven num (den <<< lastPlace num den) ≤ 1 <<< precision :=
    Nat.le_trans (roundHalfEven_le _ _) (div_lastPlace_lt num den)
  rcases Nat.lt_or_eq_of_le hle with hlt | heq
  · exact ⟨_, _, hlt, rfl⟩
  · -- the carry out of the 53 bits leaves a power of two
    refine ⟨1, precision + lastPlace num den, by decide, ?_⟩
    rw [nearest, heq, Nat.shiftLeft_add]

/-- The double nearest to `num / den` quanta, with the given sign. -/
def rounded (negative : Bool) (num den : Nat) : Binary64 :=
  if h : nearest num den < limit then
    .finite negative ⟨nearest num den, short_nearest h⟩
  else
    .infinite negative

end Upsert.Binary64
