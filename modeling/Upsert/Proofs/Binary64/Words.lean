import Upsert.Proofs.Binary64.Value

/-! # Words as doubles

A word of more than 53 bits is rounded when it becomes a double. Words keep their order, though two
of them can become the same double (`word_le_word`), and so the quotient of a word by a word that is
not less is at most one (`div_word`). It is one where both are the same double, and nowhere else:
two doubles differ by enough that their quotient is not rounded to one (`Short.mul_two_pow_le`).
-/

namespace Upsert.Binary64

theorem short_two_pow {e : ℕ} (he : e ≤ 2044) : Short (2 ^ e) := by
  have hshort := short_mul_two_pow (show 1 ≤ 2 ^ 53 by decide) he
  rwa [Nat.one_mul] at hshort

theorem short_one : Short one := one_eq ▸ short_two_pow (by decide)

/-! ## Words -/

section

variable {k n : ℕ} {a b : Magnitude}

/-- A number of at most 64 bits is a double up to half of its last place. -/
theorem ofNat_word (hn : n ≤ 2 ^ 64) :
    ∃ word, ofNat n = .finite false word ∧ word.quanta = nearest (n * one) 1
      ∧ |word.value - n| ≤ n / 2 ^ 53 := by
  have hle : n * one ≤ 2 ^ 64 * one * 1 := by
    rw [Nat.mul_one]
    exact Nat.mul_le_mul_right _ hn
  obtain ⟨word, hword, hquanta, -⟩ := rounded_eq false Nat.one_pos (by decide) hle
  refine ⟨word, hword, hquanta, ?_⟩
  rcases Nat.eq_zero_or_pos n with rfl | hpos
  · have hzero : word.quanta = 0 := by
      rw [hquanta, Nat.zero_mul, nearest_zero Nat.one_pos]
    simp [Magnitude.value, hzero]
  · have hbits : 2 ^ 52 * 1 ≤ n * one := by
      have hone : 2 ^ 52 ≤ one := by
        rw [one_eq]
        exact Nat.pow_le_pow_right Nat.two_pos (by decide)
      rw [Nat.mul_one]
      exact hone.trans (Nat.le_mul_of_pos_left _ hpos)
    have hexact : ((n * one : ℕ) : ℚ) / (1 : ℕ) / one = n := by
      have hne := cast_one_pos.ne'
      push_cast
      field_simp
    have habs := abs_value_sub_le_div Nat.one_pos hquanta hbits
    rwa [hexact] at habs

theorem word_le_word (hk : k ≤ n) (ha : a.quanta = nearest (k * one) 1)
    (hb : b.quanta = nearest (n * one) 1) : a.quanta ≤ b.quanta := by
  have hshort := a.short
  have hshort' := b.short
  rw [ha, hb] at *
  exact nearest_le_nearest Nat.one_pos hshort hshort' (Nat.mul_le_mul_right _ hk)

theorem one_le_word (hn : 0 < n) (hb : b.quanta = nearest (n * one) 1) : one ≤ b.quanta := by
  rw [hb]
  apply le_nearest Nat.one_pos short_one
  rw [Nat.mul_one]
  exact Nat.le_mul_of_pos_left _ hn

end

/-! ## Quotients -/

/-- The gap between a double and a greater one is at least the part `2 ^ (-53)` of the greater
one. -/
theorem Short.mul_two_pow_le {a b : ℕ} (ha : Short a) (hb : Short b) (hlt : a < b) :
    a * 2 ^ 53 ≤ b * (2 ^ 53 - 1) := by
  have hgap : ∀ {x y : ℕ} (unit : ℕ), x < y → x < 2 ^ 53 →
      x * unit * 2 ^ 53 ≤ y * unit * (2 ^ 53 - 1) := by
    intro x y unit hxy hx
    have hdigits : x * 2 ^ 53 ≤ y * (2 ^ 53 - 1) := by omega
    rw [Nat.mul_right_comm x, Nat.mul_right_comm y]
    exact Nat.mul_le_mul_right unit hdigits
  obtain ⟨m, e, hm, rfl⟩ := ha.exists_eq_mul_pow
  obtain ⟨k, f, hk, rfl⟩ := hb.exists_eq_mul_pow
  -- both are multiples of the smaller of the two units
  rcases Nat.le_total e f with hef | hfe
  · obtain ⟨d, rfl⟩ := Nat.exists_eq_add_of_le hef
    rw [Nat.add_comm e, Nat.pow_add, ← Nat.mul_assoc] at hlt ⊢
    exact hgap _ (Nat.lt_of_mul_lt_mul_right hlt) hm
  · obtain ⟨d, rfl⟩ := Nat.exists_eq_add_of_le hfe
    rw [Nat.add_comm f, Nat.pow_add, ← Nat.mul_assoc] at hlt ⊢
    have hdigits := Nat.lt_of_mul_lt_mul_right hlt
    exact hgap _ hdigits (hdigits.trans hk)

section

variable {a b q : Magnitude}

theorem div_eq_nearest (hb : 0 < b.quanta) (hle : a.quanta ≤ b.quanta) :
    ∃ q, Binary64.finite false a / Binary64.finite false b = .finite false q
      ∧ q.quanta = nearest (a.quanta * one) b.quanta ∧ q.value ≤ 1 := by
  have hone : a.quanta * one ≤ one * b.quanta := by
    rw [Nat.mul_comm one]
    exact Nat.mul_le_mul_right _ hle
  have hzero : a.quanta * one ≤ 2 ^ 0 * one * b.quanta := by rwa [Nat.pow_zero, Nat.one_mul]
  obtain ⟨q, hq, hquanta, -⟩ := rounded_eq false hb (Nat.zero_le 970) hzero
  refine ⟨q, (div_eq_rounded a hb).trans hq, hquanta, ?_⟩
  rw [Magnitude.value, div_le_one cast_one_pos, Nat.cast_le, hquanta]
  exact nearest_le hb short_one hone

/-- A quotient is less than one where its terms are different doubles. -/
theorem value_lt_one_iff (hb : 0 < b.quanta) (hle : a.quanta ≤ b.quanta)
    (hq : q.quanta = nearest (a.quanta * one) b.quanta) : q.value < 1 ↔ a ≠ b := by
  rw [Magnitude.value, div_lt_one cast_one_pos, Nat.cast_lt, hq]
  constructor
  · rintro hlt rfl
    rw [Nat.mul_comm, nearest_of_short hb short_one] at hlt
    exact lt_irrefl _ hlt
  · intro hne
    have hlt : a.quanta < b.quanta :=
      lt_of_le_of_ne hle fun heq => hne (Magnitude.ext heq)
    -- the greatest double below one
    have hone : one = 2 ^ 53 * 2 ^ (scale - 53) := by
      rw [one_eq, ← Nat.pow_add]
      congr 1
    have hshort : Short ((2 ^ 53 - 1) * 2 ^ (scale - 53)) :=
      short_mul_two_pow (Nat.sub_le ..) (by decide)
    have hgap := a.short.mul_two_pow_le b.short hlt
    have hnum : a.quanta * one ≤ (2 ^ 53 - 1) * 2 ^ (scale - 53) * b.quanta :=
      calc a.quanta * one = a.quanta * 2 ^ 53 * 2 ^ (scale - 53) := by rw [hone, Nat.mul_assoc]
        _ ≤ b.quanta * (2 ^ 53 - 1) * 2 ^ (scale - 53) := Nat.mul_le_mul_right _ hgap
        _ = _ := by rw [Nat.mul_assoc, Nat.mul_comm]
    refine (nearest_le hb hshort hnum).trans_lt ?_
    rw [hone]
    exact Nat.mul_lt_mul_of_pos_right (by decide) (Nat.two_pow_pos _)

/-- The numerator of a quotient of words that is not zero has enough bits. -/
theorem two_pow_mul_word_le {n : ℕ} (hsize : n ≤ 2 ^ 64) (hb : b.quanta = nearest (n * one) 1)
    (ha : one ≤ a.quanta) : 2 ^ 52 * b.quanta ≤ a.quanta * one := by
  have hshort : Short (2 ^ 64 * one) := by
    rw [one_eq, ← Nat.pow_add]
    exact short_two_pow (by decide)
  have hword : b.quanta ≤ 2 ^ 64 * one := by
    rw [hb]
    apply nearest_le Nat.one_pos hshort
    rw [Nat.mul_one]
    exact Nat.mul_le_mul_right _ hsize
  have hbits : 2 ^ 52 * 2 ^ 64 ≤ one := by
    rw [one_eq, ← Nat.pow_add]
    exact Nat.pow_le_pow_right Nat.two_pos (by decide)
  calc 2 ^ 52 * b.quanta ≤ 2 ^ 52 * (2 ^ 64 * one) := Nat.mul_le_mul_left _ hword
    _ = 2 ^ 52 * 2 ^ 64 * one := (Nat.mul_assoc ..).symm
    _ ≤ one * one := Nat.mul_le_mul_right _ hbits
    _ ≤ a.quanta * one := Nat.mul_le_mul_right _ ha

end

/-- A quotient of numbers that are off by the part `2 ^ (-53)`, and that is off by as much itself,
is off by a factor of two at most. -/
theorem quotient_within_two {x y a b q : ℚ} (hx : 0 < x) (hy : 0 < y) (ha : |a - x| ≤ x / 2 ^ 53)
    (hb : |b - y| ≤ y / 2 ^ 53) (hq : |q - a / b| ≤ a / b / 2 ^ 53) :
    x / y / 2 ≤ q ∧ q ≤ 2 * (x / y) := by
  obtain ⟨ha1, ha2⟩ := abs_le.mp ha
  obtain ⟨hb1, hb2⟩ := abs_le.mp hb
  obtain ⟨hq1, hq2⟩ := abs_le.mp hq
  have hpos : 0 < x / y := div_pos hx hy
  have hbpos : 0 < b := by linarith
  have hbelow : x / y * (3 / 4) ≤ a / b := by
    rw [le_div_iff₀ hbpos]
    calc x / y * (3 / 4) * b ≤ x / y * (3 / 4) * (y + y / 2 ^ 53) :=
          mul_le_mul_of_nonneg_left (by linarith) (by positivity)
      _ = x * (3 / 4 * (1 + 1 / 2 ^ 53)) := by field_simp
      _ ≤ a := by linarith
  have habove : a / b ≤ x / y * (5 / 4) := by
    rw [div_le_iff₀ hbpos]
    calc a ≤ x * (5 / 4 * (1 - 1 / 2 ^ 53)) := by linarith
      _ = x / y * (5 / 4) * (y - y / 2 ^ 53) := by field_simp
      _ ≤ x / y * (5 / 4) * b := mul_le_mul_of_nonneg_left (by linarith) (by positivity)
  constructor <;> linarith

/-- The quotient of two words is at most one, and less where they are different doubles. It is off
by a factor of two at most. -/
theorem div_word {k n : ℕ} (hn : 0 < n) (hk : k ≤ n) (hsize : n ≤ 2 ^ 64) :
    ∃ q, ofNat k / ofNat n = .finite false q ∧ q.value ≤ 1
      ∧ (q.value < 1 ↔ ofNat k ≠ ofNat n)
      ∧ (k : ℚ) / n / 2 ≤ q.value ∧ q.value ≤ 2 * (k / n) := by
  obtain ⟨a, ha, haq, haerror⟩ := ofNat_word (hk.trans hsize)
  obtain ⟨b, hb, hbq, hberror⟩ := ofNat_word hsize
  have hpos : 0 < b.quanta := one_pos.trans_le (one_le_word hn hbq)
  have hle : a.quanta ≤ b.quanta := word_le_word hk haq hbq
  obtain ⟨q, hq, hquanta, hone⟩ := div_eq_nearest hpos hle
  refine ⟨q, ?_, hone, ?_, ?_⟩
  · rw [ha, hb, hq]
  · rw [value_lt_one_iff hpos hle hquanta, ha, hb, ne_eq, ne_eq, Binary64.finite.injEq]
    simp only [true_and]
  · rcases Nat.eq_zero_or_pos k with rfl | hkpos
    · have hzero : q.quanta = 0 := by
        rw [hquanta, haq, Nat.zero_mul, nearest_zero Nat.one_pos, Nat.zero_mul, nearest_zero hpos]
      simp [Magnitude.value, hzero]
    · have hbits := two_pow_mul_word_le hsize hbq (one_le_word hkpos haq)
      have hexact : ((a.quanta * one : ℕ) : ℚ) / b.quanta / one = a.value / b.value := by
        have hone := cast_one_pos.ne'
        rw [Magnitude.value, Magnitude.value]
        push_cast
        field_simp
      have hquotient := abs_value_sub_le_div hpos hquanta hbits
      rw [hexact] at hquotient
      exact quotient_within_two (by exact_mod_cast hkpos) (by exact_mod_cast hn) haerror hberror
        hquotient

end Upsert.Binary64
