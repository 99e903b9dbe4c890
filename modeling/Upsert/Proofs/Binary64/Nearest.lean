import Mathlib
import Upsert.Binary64.Rounding

/-! # How far rounding goes

Rounding sends no quotient past a double: a double that is at most the quotient is at most the
rounded one (`le_nearest`), and a double that is at least the quotient is at least the rounded one
(`nearest_le`). What it changes is at most half of the last place that it keeps, which is stated in
two ways: by the size of the quotient, for a bound on all quotients up to some power of two
(`abs_nearest_sub_le_of_le`), and in proportion to it (`abs_nearest_sub_le_div`).

No double is nearer to the quotient than the rounded one (`abs_nearest_sub_le_abs_sub`), from which
rounding is monotone (`nearest_le_nearest`). What is added to a double is lost exactly where it does
not make up half of the double's last place (`nearest_add_eq_iff`).
-/

namespace Upsert.Binary64

variable {num den : ℕ}

/-! ## To the nearest whole number -/

theorem le_roundHalfEven_of_le (hden : 0 < den) {n : ℕ} (h : n * den ≤ num) :
    n ≤ roundHalfEven num den :=
  ((Nat.le_div_iff_mul_le hden).mpr h).trans (le_roundHalfEven num den)

theorem roundHalfEven_le_of_le (hden : 0 < den) {n : ℕ} (h : num ≤ n * den) :
    roundHalfEven num den ≤ n := by
  rcases h.eq_or_lt with rfl | hlt
  · exact (roundHalfEven_mul n hden).le
  · have hdiv : num / den < n := (Nat.div_lt_iff_lt_mul hden).mpr hlt
    have hle := roundHalfEven_le num den
    omega

theorem abs_roundHalfEven_sub_le (num : ℕ) (hden : 0 < den) :
    |(roundHalfEven num den : ℚ) - num / den| ≤ 1 / 2 := by
  have hpos : (0 : ℚ) < den := by exact_mod_cast hden
  have hsplit : (num : ℚ) = den * (num / den : ℕ) + (num % den : ℕ) := by
    exact_mod_cast (Nat.div_add_mod num den).symm
  have hmod : num % den < den := Nat.mod_lt num hden
  -- both sides are multiplied by twice the denominator
  have hscaled : |(2 * den : ℚ) * (roundHalfEven num den - num / den)| ≤ den := by
    rw [mul_sub, mul_assoc 2 (den : ℚ) (num / den), mul_div_cancel₀ _ hpos.ne', hsplit, abs_le]
    unfold roundHalfEven
    dsimp only
    split
    · rename_i h
      have htwice : 2 * (num % den) ≤ den := by omega
      have htwice' : 2 * ((num % den : ℕ) : ℚ) ≤ den := by exact_mod_cast htwice
      have hnonneg : (0 : ℚ) ≤ (num % den : ℕ) := Nat.cast_nonneg _
      constructor <;> linarith
    · rename_i h
      have htwice : den ≤ 2 * (num % den) := by omega
      have htwice' : (den : ℚ) ≤ 2 * ((num % den : ℕ) : ℚ) := by exact_mod_cast htwice
      have hlt : ((num % den : ℕ) : ℚ) < den := by exact_mod_cast hmod
      push_cast
      constructor <;> linarith
  rw [abs_mul, abs_of_pos (by linarith : (0 : ℚ) < 2 * den)] at hscaled
  rw [← mul_le_mul_iff_right₀ hpos]
  linarith

/-! ## To the nearest double -/

theorem nearest_eq_mul (num den : ℕ) :
    nearest num den
      = roundHalfEven num (den * 2 ^ lastPlace num den) * 2 ^ lastPlace num den := by
  rw [nearest, Nat.shiftLeft_eq, Nat.shiftLeft_eq]

/-- A quotient of which a place above the units is the last one kept has 53 bits from there on. -/
theorem pow_le_div_of_lastPlace_pos (h : 0 < lastPlace num den) :
    2 ^ (lastPlace num den + 52) ≤ num / den := by
  have hlog : (num / den).log2 = lastPlace num den + 52 := by
    unfold lastPlace precision at *
    omega
  rw [← hlog]
  apply Nat.log2_self_le
  intro hzero
  rw [hzero, Nat.log2_zero] at hlog
  omega

theorem Short.exists_eq_mul_pow {n : ℕ} (h : Short n) : ∃ m e, m < 2 ^ 53 ∧ n = m * 2 ^ e := by
  obtain ⟨-, m, e, hm, rfl⟩ := h
  rw [Nat.one_shiftLeft] at hm
  exact ⟨m, e, hm, Nat.shiftLeft_eq m e⟩

/-- A double is a whole number of last places of a quotient, unless it is below all quotients with
that last place. -/
theorem Short.dvd_or_lt {n : ℕ} (h : Short n) (num den : ℕ) :
    2 ^ lastPlace num den ∣ n ∨ n < 2 ^ (lastPlace num den + 52) ∧ 0 < lastPlace num den := by
  obtain ⟨m, e, hm, rfl⟩ := h.exists_eq_mul_pow
  rcases Nat.lt_or_ge e (lastPlace num den) with hlt | hge
  · refine Or.inr ⟨?_, by omega⟩
    calc m * 2 ^ e < 2 ^ 53 * 2 ^ e := Nat.mul_lt_mul_of_pos_right hm (Nat.two_pow_pos e)
      _ = 2 ^ (e + 53) := by rw [Nat.add_comm, Nat.pow_add]
      _ ≤ 2 ^ (lastPlace num den + 52) := Nat.pow_le_pow_right (by decide) (by omega)
  · exact Or.inl (Dvd.dvd.mul_left (Nat.pow_dvd_pow 2 hge) m)

/-- A double that is at most the quotient is at most the rounded one. -/
theorem le_nearest (hden : 0 < den) {n : ℕ} (hn : Short n) (h : n * den ≤ num) :
    n ≤ nearest num den := by
  have hplace : 0 < den * 2 ^ lastPlace num den := Nat.mul_pos hden (Nat.two_pow_pos _)
  rw [nearest_eq_mul]
  rcases hn.dvd_or_lt num den with ⟨k, hk⟩ | ⟨hlt, hpos⟩
  · rw [hk, Nat.mul_comm]
    apply Nat.mul_le_mul_right
    apply le_roundHalfEven_of_le hplace
    rw [hk] at h
    linarith
  · -- the quotient has more bits than the double
    have hbits : 2 ^ 52 ≤ roundHalfEven num (den * 2 ^ lastPlace num den) := by
      apply le_roundHalfEven_of_le hplace
      have hdiv := (Nat.le_div_iff_mul_le hden).mp (pow_le_div_of_lastPlace_pos hpos)
      rw [Nat.pow_add] at hdiv
      linarith
    calc n ≤ 2 ^ (lastPlace num den + 52) := hlt.le
      _ = 2 ^ 52 * 2 ^ lastPlace num den := by rw [Nat.add_comm, Nat.pow_add]
      _ ≤ _ := Nat.mul_le_mul_right _ hbits

/-- A double that is at least the quotient is at least the rounded one. -/
theorem nearest_le (hden : 0 < den) {n : ℕ} (hn : Short n) (h : num ≤ n * den) :
    nearest num den ≤ n := by
  have hplace : 0 < den * 2 ^ lastPlace num den := Nat.mul_pos hden (Nat.two_pow_pos _)
  rw [nearest_eq_mul]
  rcases hn.dvd_or_lt num den with ⟨k, hk⟩ | ⟨hlt, hpos⟩
  · rw [hk, Nat.mul_comm _ k]
    apply Nat.mul_le_mul_right
    apply roundHalfEven_le_of_le hplace
    rw [hk] at h
    linarith
  · -- the quotient would have fewer bits than it has
    have hdiv : num / den ≤ n := Nat.div_le_of_le_mul (by rwa [Nat.mul_comm])
    have hbits := pow_le_div_of_lastPlace_pos hpos
    omega

/-- A quotient that is a double is not changed. -/
theorem nearest_of_short (hden : 0 < den) {n : ℕ} (hn : Short n) : nearest (n * den) den = n :=
  Nat.le_antisymm (nearest_le hden hn le_rfl) (le_nearest hden hn le_rfl)

@[simp] theorem nearest_zero (hden : 0 < den) : nearest 0 den = 0 := by
  have hzero := nearest_of_short hden (short_of_lt (show 0 < 1 <<< precision by decide))
  rwa [Nat.zero_mul] at hzero

/-! ## What rounding changes -/

/-- A number of places and the quotient, counted in places. -/
theorem mul_two_pow_sub_div (num : ℕ) (hden : 0 < den) (n e : ℕ) :
    ((n * 2 ^ e : ℕ) : ℚ) - num / den = (n - num / (den * 2 ^ e : ℕ)) * 2 ^ e := by
  have hne : (den : ℚ) ≠ 0 := by exact_mod_cast hden.ne'
  push_cast
  field_simp

theorem abs_nearest_sub_le (num : ℕ) (hden : 0 < den) :
    |(nearest num den : ℚ) - num / den| ≤ 2 ^ lastPlace num den / 2 := by
  have hplace : 0 < den * 2 ^ lastPlace num den := Nat.mul_pos hden (Nat.two_pow_pos _)
  have hpos : (0 : ℚ) < 2 ^ lastPlace num den := by positivity
  have hhalf := abs_roundHalfEven_sub_le num hplace
  rw [nearest_eq_mul, mul_two_pow_sub_div num hden, abs_mul, abs_of_pos hpos]
  calc _ ≤ 1 / 2 * 2 ^ lastPlace num den := mul_le_mul_of_nonneg_right hhalf hpos.le
    _ = 2 ^ lastPlace num den / 2 := by ring

/-- Half of the last place, for all quotients up to a power of two. -/
theorem abs_nearest_sub_le_of_le (hden : 0 < den) {b : ℕ} (hshort : Short (2 ^ (b + 53)))
    (h : num ≤ 2 ^ (b + 53) * den) : |(nearest num den : ℚ) - num / den| ≤ 2 ^ b / 2 := by
  rcases h.eq_or_lt with rfl | hlt
  · -- the power of two itself is not changed
    have hne : (den : ℚ) ≠ 0 := by exact_mod_cast hden.ne'
    rw [nearest_of_short hden hshort, Nat.cast_mul, mul_div_cancel_right₀ _ hne, sub_self, abs_zero]
    positivity
  · have hlast : lastPlace num den ≤ b := by
      by_contra hgt
      have hbits : 2 ^ (lastPlace num den + 52) ≤ num / den :=
        pow_le_div_of_lastPlace_pos (by omega)
      have hmono : 2 ^ (b + 53) ≤ 2 ^ (lastPlace num den + 52) :=
        Nat.pow_le_pow_right (by decide) (by omega)
      have hdiv : num / den < 2 ^ (b + 53) := (Nat.div_lt_iff_lt_mul hden).mpr hlt
      omega
    have hpow : (2 : ℚ) ^ lastPlace num den ≤ 2 ^ b := pow_le_pow_right₀ (by norm_num) hlast
    exact (abs_nearest_sub_le num hden).trans (by linarith)

/-- Rounding is exact to 53 bits where the quotient has as many. -/
theorem abs_nearest_sub_le_div (hden : 0 < den) (h : 2 ^ 52 * den ≤ num) :
    |(nearest num den : ℚ) - num / den| ≤ num / den / 2 ^ 53 := by
  have hpos : (0 : ℚ) < den := by exact_mod_cast hden
  have hdiv : 2 ^ 52 ≤ num / den := (Nat.le_div_iff_mul_le hden).mpr h
  have hlog : lastPlace num den + 52 = (num / den).log2 := by
    have hge : 52 ≤ (num / den).log2 := (Nat.le_log2 (by omega)).mpr hdiv
    unfold lastPlace precision
    omega
  have hbits : (2 : ℚ) ^ lastPlace num den * 2 ^ 52 ≤ num / den := by
    rw [← pow_add, hlog, le_div_iff₀ hpos]
    have hle := (Nat.le_div_iff_mul_le hden).mp (Nat.log2_self_le (by omega : num / den ≠ 0))
    exact_mod_cast hle
  refine (abs_nearest_sub_le num hden).trans ?_
  rw [le_div_iff₀ (by positivity)]
  calc (2 : ℚ) ^ lastPlace num den / 2 * 2 ^ 53 = 2 ^ lastPlace num den * 2 ^ 52 := by ring
    _ ≤ (num : ℚ) / den := hbits

/-! ## No double is nearer -/

theorem abs_roundHalfEven_sub_le_abs_sub (num : ℕ) (hden : 0 < den) (n : ℕ) :
    |(roundHalfEven num den : ℚ) - num / den| ≤ |(n : ℚ) - num / den| := by
  rcases eq_or_ne n (roundHalfEven num den) with rfl | hne
  · exact le_rfl
  · -- another whole number is at least one away from the rounded one
    have hone : (1 : ℚ) ≤ |(n : ℚ) - roundHalfEven num den| := by
      have hint : (1 : ℤ) ≤ |(n : ℤ) - roundHalfEven num den| := by
        apply Int.one_le_abs
        omega
      exact_mod_cast hint
    have hhalf := abs_roundHalfEven_sub_le num hden
    have htriangle := abs_sub_le (n : ℚ) (num / den) (roundHalfEven num den)
    rw [abs_sub_comm (num / den : ℚ)] at htriangle
    linarith

theorem abs_nearest_sub_le_abs_sub (num : ℕ) (hden : 0 < den) {n : ℕ} (hn : Short n) :
    |(nearest num den : ℚ) - num / den| ≤ |(n : ℚ) - num / den| := by
  have hplace : 0 < den * 2 ^ lastPlace num den := Nat.mul_pos hden (Nat.two_pow_pos _)
  have hplaces : ∀ k : ℕ, |(nearest num den : ℚ) - num / den|
      ≤ |((k * 2 ^ lastPlace num den : ℕ) : ℚ) - num / den| := by
    intro k
    rw [nearest_eq_mul, mul_two_pow_sub_div num hden, mul_two_pow_sub_div num hden, abs_mul,
      abs_mul]
    exact mul_le_mul_of_nonneg_right (abs_roundHalfEven_sub_le_abs_sub num hplace k) (abs_nonneg _)
  rcases hn.dvd_or_lt num den with ⟨k, rfl⟩ | ⟨hlt, hpos⟩
  · rw [Nat.mul_comm]
    exact hplaces k
  · -- the least quotient with that last place is a number of places, and lies between
    have hbits : 2 ^ 52 * 2 ^ lastPlace num den ≤ num / den := by
      rw [← Nat.pow_add, Nat.add_comm]
      exact pow_le_div_of_lastPlace_pos hpos
    have hquotient : ((2 ^ 52 * 2 ^ lastPlace num den : ℕ) : ℚ) ≤ num / den := by
      rw [le_div_iff₀ (by exact_mod_cast hden)]
      exact_mod_cast (Nat.le_div_iff_mul_le hden).mp hbits
    have hbelow : (n : ℚ) ≤ (2 ^ 52 * 2 ^ lastPlace num den : ℕ) := by
      rw [Nat.add_comm, Nat.pow_add] at hlt
      exact_mod_cast hlt.le
    refine (hplaces (2 ^ 52)).trans ?_
    rw [abs_of_nonpos (sub_nonpos.mpr hquotient),
      abs_of_nonpos (sub_nonpos.mpr (hbelow.trans hquotient))]
    exact neg_le_neg (sub_le_sub_right hbelow _)

/-- Rounding is monotone: of two numbers that were rounded to doubles in the other order, each would
be nearer to the other one's. -/
theorem nearest_le_nearest (hden : 0 < den) {a b : ℕ} (ha : Short (nearest a den))
    (hb : Short (nearest b den)) (h : a ≤ b) : nearest a den ≤ nearest b den := by
  by_contra hgt
  have hlt : (0 : ℚ) < nearest a den - nearest b den := by
    rw [sub_pos]
    exact_mod_cast Nat.lt_of_not_le hgt
  have hfirst := sq_le_sq.mpr (abs_nearest_sub_le_abs_sub a hden hb)
  have hsecond := sq_le_sq.mpr (abs_nearest_sub_le_abs_sub b hden ha)
  have hproduct : ((nearest a den : ℚ) - nearest b den) * (b / den - a / den) ≤ 0 := by linarith
  have hle : (b : ℚ) / den ≤ a / den := sub_nonpos.mp (nonpos_of_mul_nonpos_right hproduct hlt)
  rw [div_le_div_iff_of_pos_right (by exact_mod_cast hden), Nat.cast_le] at hle
  rw [Nat.le_antisymm h hle, sub_self] at hlt
  exact lt_irrefl _ hlt

/-! ## Terms that are lost -/

/-- The last place of a double, as a number of quanta. -/
def lastUnit (n : ℕ) : ℕ := 2 ^ lastPlace n 1

theorem lastUnit_pos (n : ℕ) : 0 < lastUnit n := Nat.two_pow_pos _

/-- The last place of a number of at most `e + 53` bits. -/
theorem lastUnit_le {n e : ℕ} (h : n < 2 ^ (e + 53)) : lastUnit n ≤ 2 ^ e := by
  refine Nat.pow_le_pow_right Nat.two_pos ?_
  have hlog : n.log2 < e + 53 := by
    rcases Nat.eq_zero_or_pos n with rfl | hpos
    · rw [Nat.log2_zero]
      omega
    · exact (Nat.log2_lt hpos.ne').mpr h
  unfold lastPlace precision
  rw [Nat.div_one]
  omega

theorem div_lastUnit_lt (n : ℕ) : n / lastUnit n < 2 ^ 53 := by
  have hlt := div_lastPlace_lt n 1
  rwa [Nat.one_shiftLeft, Nat.one_shiftLeft] at hlt

theorem Short.div_mul_lastUnit {n : ℕ} (h : Short n) : n / lastUnit n * lastUnit n = n := by
  refine Nat.div_mul_cancel ?_
  rcases h.dvd_or_lt n 1 with hdvd | ⟨hlt, hpos⟩
  · exact hdvd
  · have hbits := pow_le_div_of_lastPlace_pos hpos
    rw [Nat.div_one] at hbits
    omega

theorem Short.add_lastUnit_eq {n : ℕ} (h : Short n) :
    n + lastUnit n = (n / lastUnit n + 1) * lastUnit n := by
  rw [Nat.add_mul, Nat.one_mul, h.div_mul_lastUnit]

/-- A double and its last place make up a double. -/
theorem Short.add_lastUnit {n : ℕ} (h : Short n) (hlt : n + lastUnit n < limit) :
    Short (n + lastUnit n) := by
  have hle : n / lastUnit n + 1 ≤ 2 ^ 53 := div_lastUnit_lt n
  refine ⟨hlt, ?_⟩
  rcases hle.lt_or_eq with hdigits | hcarry
  · refine ⟨_, lastPlace n 1, ?_, h.add_lastUnit_eq.trans (Nat.shiftLeft_eq ..).symm⟩
    rwa [Nat.one_shiftLeft]
  · refine ⟨1, 53 + lastPlace n 1, by decide, ?_⟩
    rw [h.add_lastUnit_eq, hcarry, lastUnit, Nat.one_shiftLeft, Nat.pow_add]

/-- Less than a last place added to a double does not move the last place. -/
theorem Short.lastPlace_add {n d : ℕ} (h : Short n) (hd : d < lastUnit n) :
    lastPlace (n + d) 1 = lastPlace n 1 := by
  rcases Nat.eq_zero_or_pos (lastPlace n 1) with hzero | hpos
  · rw [lastUnit, hzero, Nat.pow_zero, Nat.lt_one_iff] at hd
    rw [hd, Nat.add_zero]
  · have hbits := pow_le_div_of_lastPlace_pos hpos
    have hnext : n + lastUnit n ≤ 2 ^ (lastPlace n 1 + 53) := by
      calc n + lastUnit n = (n / lastUnit n + 1) * lastUnit n := h.add_lastUnit_eq
        _ ≤ 2 ^ 53 * lastUnit n := Nat.mul_le_mul_right _ (div_lastUnit_lt n)
        _ = 2 ^ (lastPlace n 1 + 53) := by rw [lastUnit, Nat.add_comm, Nat.pow_add]
    rw [Nat.div_one] at hbits
    have hlog : (n + d).log2 = lastPlace n 1 + 52 := by
      have hne : n + d ≠ 0 := by
        have htwo := Nat.two_pow_pos (lastPlace n 1 + 52)
        omega
      have hlt : n + d < 2 ^ (lastPlace n 1 + 53) := by omega
      exact (Nat.log2_eq_iff hne).mpr ⟨by omega, hlt⟩
    rw [lastPlace, Nat.div_one, hlog]
    exact Nat.add_sub_cancel ..

/-- A double plus a number is rounded back to the double exactly where the number is less than half
of the last place, or half of it where the last digit is even. -/
theorem nearest_add_eq_iff {n d : ℕ} (hn : Short n) (hlt : n + d < limit) :
    nearest (n + d) 1 = n
      ↔ 2 * d < lastUnit n ∨ 2 * d = lastUnit n ∧ Even (n / lastUnit n) := by
  rcases Nat.lt_or_ge d (lastUnit n) with hd | hd
  · have hdvd : lastUnit n ∣ n := Dvd.intro_left _ hn.div_mul_lastUnit
    have hdigits : (n + d) / lastUnit n = n / lastUnit n := by
      rw [Nat.add_div_of_dvd_right hdvd, Nat.div_eq_of_lt hd, Nat.add_zero]
    have hrest : (n + d) % lastUnit n = d := by
      rw [Nat.add_mod, Nat.mod_eq_zero_of_dvd hdvd, Nat.zero_add, Nat.mod_mod, Nat.mod_eq_of_lt hd]
    have hround : roundHalfEven (n + d) (lastUnit n)
        = if 2 * d < lastUnit n ∨ 2 * d = lastUnit n ∧ Even (n / lastUnit n) then n / lastUnit n
          else n / lastUnit n + 1 := by
      rw [roundHalfEven, hdigits, hrest]
      simp only [Nat.even_iff]
    rw [nearest_eq_mul, hn.lastPlace_add hd, Nat.one_mul, ← lastUnit, hround]
    split
    · rename_i hlost
      exact iff_of_true hn.div_mul_lastUnit hlost
    · rename_i hkept
      have hpos := lastUnit_pos n
      rw [← hn.add_lastUnit_eq]
      exact iff_of_false (by omega) hkept
  · -- the next double is not passed
    have hnext := le_nearest Nat.one_pos (hn.add_lastUnit (by omega))
      (show (n + lastUnit n) * 1 ≤ n + d by omega)
    have hpos := lastUnit_pos n
    constructor <;> intro h <;> omega

end Upsert.Binary64
