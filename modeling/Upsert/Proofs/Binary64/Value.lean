import Upsert.Binary64.Arithmetic
import Upsert.Proofs.Binary64.Nearest

/-! # The values of doubles

The value of a magnitude is the rational number that it stands for. On numbers that are not
negative and not greater than two, each operation is the exact one up to half of the last place of
its result: whole numbers are exact, a quotient that is at most one is off by `2 ^ (-54)` at most,
and a sum that is at most two by `2 ^ (-53)`. A sum is greater than its first term, unless that one
absorbs the second (`add_growth`).
-/

namespace Upsert.Binary64

/-- The number that a magnitude stands for. -/
def Magnitude.value (magnitude : Magnitude) : ℚ := magnitude.quanta / one

theorem one_eq : one = 2 ^ scale := Nat.one_shiftLeft scale

theorem cast_one_pos : (0 : ℚ) < one := by exact_mod_cast one_pos

theorem Magnitude.value_le_iff {a b : Magnitude} : a.value ≤ b.value ↔ a.quanta ≤ b.quanta := by
  rw [value, value, div_le_div_iff_of_pos_right cast_one_pos, Nat.cast_le]

@[simp] theorem Magnitude.value_zero : Magnitude.zero.value = 0 := by
  simp [Magnitude.value, Magnitude.zero]

theorem lt_iff {a b : Magnitude} :
    (Binary64.finite false a).lt (.finite false b) = true ↔ a.value < b.value := by
  rw [← not_le, Magnitude.value_le_iff, not_le]
  simp [lt, position?, signedQuanta]

theorem le_iff {a b : Magnitude} :
    (Binary64.finite false a).le (.finite false b) = true ↔ a.value ≤ b.value := by
  rw [Magnitude.value_le_iff]
  simp [le, position?, signedQuanta]

theorem Magnitude.value_nonneg (magnitude : Magnitude) : 0 ≤ magnitude.value :=
  div_nonneg (Nat.cast_nonneg _) cast_one_pos.le

theorem abs_value_sub (magnitude : Magnitude) (x : ℚ) :
    |magnitude.value - x / one| = |(magnitude.quanta : ℚ) - x| / one := by
  rw [Magnitude.value, ← sub_div, abs_div, abs_of_pos cast_one_pos]

/-! ## Rounding -/

/-- Numbers with 53 bits, and `2 ^ 53` times a power of two, are doubles. -/
theorem short_mul_two_pow {m e : ℕ} (hm : m ≤ 2 ^ 53) (he : e ≤ 2044) : Short (m * 2 ^ e) := by
  rcases hm.eq_or_lt with rfl | hlt
  · have hexponent : e + 53 < scale + 1024 := by
      unfold scale
      omega
    have hlt : 2 ^ (e + 53) < 2 ^ (scale + 1024) := Nat.pow_lt_pow_right Nat.one_lt_two hexponent
    rw [← Nat.pow_add, Nat.add_comm, ← Nat.one_shiftLeft]
    rw [← Nat.one_shiftLeft, ← Nat.one_shiftLeft] at hlt
    exact ⟨hlt, 1, e + 53, by decide, rfl⟩
  · rw [← Nat.shiftLeft_eq]
    exact short_of_scaled (by rwa [Nat.one_shiftLeft]) (by omega)

/-- A quotient up to a power of two is rounded to a finite number, off by half of the last place of
the numbers below that power. -/
theorem rounded_eq {num den e : ℕ} (negative : Bool) (hden : 0 < den) (he : e ≤ 970)
    (h : num ≤ 2 ^ e * one * den) :
    ∃ magnitude, rounded negative num den = .finite negative magnitude
      ∧ magnitude.quanta = nearest num den
      ∧ |magnitude.value - num / den / one| ≤ 2 ^ e / 2 ^ 54 := by
  have hpow : 2 ^ e * one = 2 ^ (e + (scale - 53) + 53) := by
    rw [one_eq, ← Nat.pow_add]
    congr 1
  have hshort : Short (2 ^ (e + (scale - 53) + 53)) := by
    rw [← hpow, one_eq, ← Nat.pow_add, ← Nat.one_mul (2 ^ _)]
    exact short_mul_two_pow Nat.one_le_two_pow (by unfold scale; omega)
  rw [hpow] at h
  have hlt : nearest num den < limit := (nearest_le hden hshort h).trans_lt hshort.1
  refine ⟨⟨_, short_nearest hlt⟩, dif_pos hlt, rfl, ?_⟩
  have hnear := abs_nearest_sub_le_of_le hden hshort h
  have hone : (one : ℚ) = 2 ^ (scale - 53) * 2 ^ 53 := by
    rw [one_eq, ← pow_add, Nat.cast_pow, Nat.cast_two]
    congr 1
  rw [abs_value_sub, div_le_iff₀ cast_one_pos]
  refine hnear.trans_eq ?_
  rw [hone, pow_add]
  ring

/-- A rounded quotient with 53 bits is off by half of its own last place. -/
theorem abs_value_sub_le_div {magnitude : Magnitude} {num den : ℕ} (hden : 0 < den)
    (hquanta : magnitude.quanta = nearest num den) (h : 2 ^ 52 * den ≤ num) :
    |magnitude.value - num / den / one| ≤ num / den / one / 2 ^ 53 := by
  rw [abs_value_sub, hquanta, div_right_comm _ (one : ℚ)]
  exact div_le_div_of_nonneg_right (abs_nearest_sub_le_div hden h) cast_one_pos.le

/-- No double is nearer to a quotient than what the quotient is rounded to. -/
theorem abs_value_sub_le_abs_value_sub {magnitude : Magnitude} {num den : ℕ} (hden : 0 < den)
    (hquanta : magnitude.quanta = nearest num den) (other : Magnitude) :
    |magnitude.value - num / den / one| ≤ |other.value - num / den / one| := by
  rw [abs_value_sub, abs_value_sub, hquanta]
  exact div_le_div_of_nonneg_right (abs_nearest_sub_le_abs_sub num hden other.short) cast_one_pos.le

theorem exists_value_eq_div {m e : ℕ} (hm : m ≤ 2 ^ 53) (he : e ≤ scale) :
    ∃ magnitude : Magnitude, magnitude.value = m / 2 ^ e := by
  have hexponent : scale - e ≤ 2044 := by
    unfold scale
    omega
  refine ⟨⟨m * 2 ^ (scale - e), short_mul_two_pow hm hexponent⟩, ?_⟩
  have hone : (one : ℚ) = 2 ^ (scale - e) * 2 ^ e := by
    rw [one_eq, ← pow_add, Nat.sub_add_cancel he, Nat.cast_pow, Nat.cast_two]
  rw [Magnitude.value, hone]
  push_cast
  field_simp

/-! ## Whole numbers -/

theorem ofNat_eq {n : ℕ} (hn : n ≤ 2 ^ 53) :
    ∃ magnitude, ofNat n = .finite false magnitude ∧ magnitude.quanta = n * one := by
  have hshort : Short (n * one) := by
    rw [one_eq]
    exact short_mul_two_pow hn (by unfold scale; omega)
  have hexact : nearest (n * one) 1 = n * one := by
    have hnearest := nearest_of_short Nat.one_pos hshort
    rwa [Nat.mul_one] at hnearest
  have hlt : nearest (n * one) 1 < limit := hexact.symm ▸ hshort.1
  exact ⟨⟨_, short_nearest hlt⟩, dif_pos hlt, hexact⟩

theorem exists_value_eq {n : ℕ} (hn : n ≤ 2 ^ 53) :
    ∃ magnitude, ofNat n = .finite false magnitude ∧ magnitude.value = n := by
  obtain ⟨magnitude, heq, hquanta⟩ := ofNat_eq hn
  refine ⟨magnitude, heq, ?_⟩
  rw [Magnitude.value, hquanta, Nat.cast_mul, mul_div_cancel_right₀ _ cast_one_pos.ne']

theorem le_one_iff {a : Magnitude} :
    (Binary64.finite false a).le (ofNat 1) = true ↔ a.value ≤ 1 := by
  obtain ⟨top, htop, hvalue⟩ := exists_value_eq Nat.one_le_two_pow
  rw [htop, le_iff, hvalue, Nat.cast_one]

theorem lt_one_iff {a : Magnitude} :
    (Binary64.finite false a).lt (ofNat 1) = true ↔ a.value < 1 := by
  obtain ⟨top, htop, hvalue⟩ := exists_value_eq Nat.one_le_two_pow
  rw [htop, lt_iff, hvalue, Nat.cast_one]

/-- Numbers of at most 53 bits are different doubles. -/
theorem ofNat_ne_of_lt {k n : ℕ} (hlt : k < n) (hn : n ≤ 2 ^ 53) : ofNat k ≠ ofNat n := by
  obtain ⟨a, ha, hak⟩ := exists_value_eq (hlt.le.trans hn)
  obtain ⟨b, hb, hbn⟩ := exists_value_eq hn
  rw [ha, hb]
  intro heq
  cases heq
  rw [hak, Nat.cast_inj] at hbn
  exact hlt.ne hbn

/-! ## Fractions -/

theorem div_eq_rounded (a : Magnitude) {b : Magnitude} (hb : 0 < b.quanta) :
    Binary64.finite false a / Binary64.finite false b
      = rounded false (a.quanta * one) b.quanta := by
  show div _ _ = _
  rw [div, if_neg hb.ne']
  rfl

theorem cast_mul_one_div (k n : ℕ) :
    ((k * one * one : ℕ) : ℚ) / (n * one : ℕ) / one = k / n := by
  have hpos := cast_one_pos.ne'
  push_cast
  field_simp

/-- The numerator of a proper fraction that is not zero has enough bits. -/
theorem two_pow_mul_le_of_pos {k n : ℕ} (hk : 0 < k) (hsize : n ≤ 2 ^ 53) :
    2 ^ 52 * (n * one) ≤ k * one * one := by
  have hexponent : 52 + 53 ≤ scale := by
    unfold scale
    omega
  have hbound : 2 ^ 52 * n ≤ one :=
    calc 2 ^ 52 * n ≤ 2 ^ 52 * 2 ^ 53 := Nat.mul_le_mul_left _ hsize
      _ = 2 ^ (52 + 53) := (Nat.pow_add ..).symm
      _ ≤ 2 ^ scale := Nat.pow_le_pow_right Nat.two_pos hexponent
      _ = one := one_eq.symm
  calc 2 ^ 52 * (n * one) = 2 ^ 52 * n * one := (Nat.mul_assoc ..).symm
    _ ≤ one * one := Nat.mul_le_mul_right _ hbound
    _ ≤ k * one * one := Nat.mul_le_mul_right _ (Nat.le_mul_of_pos_left _ hk)

/-- The quotient of whole numbers is the rounded fraction. -/
theorem ofNat_div_eq_nearest {k n : ℕ} (hn : 0 < n) (hk : k ≤ n) (hsize : n ≤ 2 ^ 53) :
    ∃ q, ofNat k / ofNat n = .finite false q ∧ q.quanta = nearest (k * one * one) (n * one)
      ∧ |q.value - k / n| ≤ 1 / 2 ^ 54
      ∧ ∀ other : Magnitude, |q.value - k / n| ≤ |other.value - k / n| := by
  obtain ⟨a, ha, haq⟩ := ofNat_eq (hk.trans hsize)
  obtain ⟨b, hb, hbq⟩ := ofNat_eq hsize
  have hden : 0 < n * one := Nat.mul_pos hn one_pos
  have hle : k * one * one ≤ 2 ^ 0 * one * (n * one) := by
    rw [Nat.pow_zero, Nat.one_mul, Nat.mul_comm one]
    exact Nat.mul_le_mul_right _ (Nat.mul_le_mul_right _ hk)
  obtain ⟨q, hq, hquanta, habs⟩ := rounded_eq false hden (Nat.zero_le 970) hle
  have hnear := abs_value_sub_le_abs_value_sub hden hquanta
  rw [cast_mul_one_div] at habs
  simp only [cast_mul_one_div] at hnear
  refine ⟨q, ?_, hquanta, by rwa [pow_zero] at habs, hnear⟩
  rw [ha, hb, div_eq_rounded a (hbq ▸ hden), haq, hbq, hq]

/-- A proper fraction is off by half of the last place of the numbers below one, and by half of its
own last place. -/
theorem ofNat_div_ofNat {k n : ℕ} (hn : 0 < n) (hk : k ≤ n) (hsize : n ≤ 2 ^ 53) :
    ∃ magnitude, ofNat k / ofNat n = .finite false magnitude
      ∧ |magnitude.value - k / n| ≤ 1 / 2 ^ 54
      ∧ |magnitude.value - k / n| ≤ k / n / 2 ^ 53 := by
  obtain ⟨q, hdiv, hquanta, habs, -⟩ := ofNat_div_eq_nearest hn hk hsize
  have hden : 0 < n * one := Nat.mul_pos hn one_pos
  refine ⟨q, hdiv, habs, ?_⟩
  rcases Nat.eq_zero_or_pos k with rfl | hkpos
  · have hzero : q.quanta = 0 := by
      rw [hquanta, Nat.zero_mul, Nat.zero_mul, nearest_zero hden]
    simp [Magnitude.value, hzero]
  · have hown := abs_value_sub_le_div hden hquanta (two_pow_mul_le_of_pos hkpos hsize)
    rwa [cast_mul_one_div] at hown

/-! ## Sums -/

/-- Without signs the sum is the rounded one, also where it is zero. -/
theorem add_eq_rounded (a b : Magnitude) :
    Binary64.finite false a + Binary64.finite false b
      = rounded false (a.quanta + b.quanta) 1 := by
  have hsigned : signedQuanta false a + signedQuanta false b = ((a.quanta + b.quanta : ℕ) : ℤ) :=
    (Nat.cast_add ..).symm
  have hnonneg : decide (((a.quanta + b.quanta : ℕ) : ℤ) < 0) = false := by
    simp only [decide_eq_false_iff_not, not_lt, Nat.cast_nonneg]
  show add _ _ = _
  rw [add, hsigned]
  split
  · rename_i hzero
    have hlt : nearest 0 1 < limit := by
      rw [nearest_zero Nat.one_pos]
      exact Magnitude.zero.short.1
    have hext : Magnitude.zero = ⟨nearest 0 1, short_nearest hlt⟩ :=
      Magnitude.ext (nearest_zero Nat.one_pos).symm
    rw [Nat.cast_eq_zero.mp hzero, rounded, dif_pos hlt]
    exact congrArg (Binary64.finite false) hext
  · rw [hnonneg, Int.natAbs_natCast]

theorem quanta_add_le {a b : Magnitude} {e : ℕ} (h : a.value + b.value ≤ 2 ^ e) :
    a.quanta + b.quanta ≤ 2 ^ e * one := by
  rw [Magnitude.value, Magnitude.value, ← add_div, div_le_iff₀ cast_one_pos] at h
  exact_mod_cast h

/-- A sum up to a power of two is finite, off by half of the last place of the numbers below that
power. -/
theorem add_eq_nearest {a b : Magnitude} {e : ℕ} (he : e ≤ 970) (h : a.value + b.value ≤ 2 ^ e) :
    ∃ sum, Binary64.finite false a + Binary64.finite false b = .finite false sum
      ∧ sum.quanta = nearest (a.quanta + b.quanta) 1
      ∧ |sum.value - (a.value + b.value)| ≤ 2 ^ e / 2 ^ 54
      ∧ ∀ other : Magnitude,
        |sum.value - (a.value + b.value)| ≤ |other.value - (a.value + b.value)| := by
  have hle : a.quanta + b.quanta ≤ 2 ^ e * one * 1 :=
    (quanta_add_le h).trans_eq (Nat.mul_one _).symm
  obtain ⟨sum, hsum, hquanta, habs⟩ := rounded_eq false Nat.one_pos he hle
  have hnear := abs_value_sub_le_abs_value_sub Nat.one_pos hquanta
  have hexact : ((a.quanta + b.quanta : ℕ) : ℚ) / (1 : ℕ) / one = a.value + b.value := by
    rw [Magnitude.value, Magnitude.value]
    push_cast
    ring
  rw [hexact] at habs
  simp only [hexact] at hnear
  exact ⟨sum, (add_eq_rounded a b).trans hsum, hquanta, habs, hnear⟩

/-- A sum up to two is off by half of the last place of the numbers below two. -/
theorem add_eq {a b : Magnitude} (h : a.value + b.value ≤ 2) :
    ∃ sum, Binary64.finite false a + Binary64.finite false b = .finite false sum
      ∧ |sum.value - (a.value + b.value)| ≤ 1 / 2 ^ 53 := by
  obtain ⟨sum, hsum, -, habs, -⟩ := add_eq_nearest (e := 1) (by decide) (by rwa [pow_one])
  exact ⟨sum, hsum, habs.trans_eq (by norm_num)⟩

/-- The term is less than half of the last place of the sum, or half of it where the last digit of
the sum is even: the sum is rounded as if there were no such term. -/
def Magnitude.Absorbs (sum term : Magnitude) : Prop :=
  2 * term.quanta < lastUnit sum.quanta
    ∨ 2 * term.quanta = lastUnit sum.quanta ∧ Even (sum.quanta / lastUnit sum.quanta)

theorem Magnitude.Absorbs.two_mul_le {sum term : Magnitude} (h : sum.Absorbs term) {e : ℕ}
    (hsum : sum.value < 2 ^ e) : 2 * term.value ≤ 2 ^ e / 2 ^ 53 := by
  have hscale : e + scale - 53 + 53 = e + scale := Nat.sub_add_cancel (by unfold scale; omega)
  have hlt : sum.quanta < 2 ^ (e + scale - 53 + 53) := by
    rw [value, div_lt_iff₀ cast_one_pos, one_eq] at hsum
    rw [hscale, Nat.pow_add]
    exact_mod_cast hsum
  have hle : 2 * term.quanta ≤ 2 ^ (e + scale - 53) := by
    have hunit := lastUnit_le hlt
    rcases h with hless | ⟨hhalf, -⟩ <;> omega
  have hcast : 2 * (term.quanta : ℚ) ≤ 2 ^ (e + scale - 53) := by exact_mod_cast hle
  rw [value, one_eq, mul_div_assoc', Nat.cast_pow, Nat.cast_two, div_le_div_iff₀ (by positivity)
    (by positivity), ← pow_add, ← hscale, pow_add _ (e + scale - 53)]
  exact mul_le_mul_of_nonneg_right hcast (by positivity)

/-- A sum absorbs a term, both being numbers that are not negative. -/
def Absorbs : Binary64 → Binary64 → Prop
  | .finite false sum, .finite false term => sum.Absorbs term
  | _, _ => False

/-- A double grows by a term that it does not absorb, and by no more than twice the term. -/
theorem add_growth {a b : Magnitude} {e : ℕ} (he : e ≤ 970) (h : a.value + b.value ≤ 2 ^ e) :
    ∃ sum, Binary64.finite false a + Binary64.finite false b = .finite false sum
      ∧ a.value ≤ sum.value ∧ sum.value ≤ a.value + 2 * b.value
      ∧ (a.value < sum.value ↔ ¬ a.Absorbs b) := by
  obtain ⟨sum, hsum, hquanta, -, hnear⟩ := add_eq_nearest he h
  have hle : a.quanta ≤ sum.quanta := by
    rw [hquanta]
    exact le_nearest Nat.one_pos a.short (by omega)
  refine ⟨sum, hsum, Magnitude.value_le_iff.mpr hle, ?_, ?_⟩
  · -- the sum is not further off than `a`
    have htwice := hnear a
    rw [sub_add_cancel_left, abs_neg, abs_of_nonneg b.value_nonneg, abs_le] at htwice
    linarith
  · have hexponent : e + scale < scale + 1024 := by omega
    have hlimit : a.quanta + b.quanta < limit :=
      calc a.quanta + b.quanta ≤ 2 ^ e * one := quanta_add_le h
        _ = 2 ^ (e + scale) := by rw [one_eq, Nat.pow_add]
        _ < 2 ^ (scale + 1024) := Nat.pow_lt_pow_right Nat.one_lt_two hexponent
        _ = limit := (Nat.one_shiftLeft _).symm
    rw [← not_le, Magnitude.value_le_iff, Magnitude.Absorbs,
      ← nearest_add_eq_iff a.short hlimit, ← hquanta]
    omega

end Upsert.Binary64
