import Upsert.Proofs.RunningSums

/-! # Small numbers of inserts

A weight is lost where the running sum before it absorbs it. For at most `2 ^ 53` inserts that does
not happen (`not_absorbs`): a weight is at least `2 ^ (-53)`, which is more than half of the last
place of a sum below one. A sum that is past one through its errors stays below two, and absorbs
`2 ^ (-53)` at most; but a weight is as small as that for exactly `2 ^ 53` inserts only, and then
all the sums are exact.
-/

namespace Upsert

namespace Binary64

/-! ## Small weights -/

theorem two_mul_le_add_of_abs_sub_le {x y z : ℚ} (hlt : x < y) (h : |x - z| ≤ |y - z|) :
    2 * z ≤ x + y := by
  have hsquares := sq_le_sq.mpr h
  have hproduct : 0 ≤ (y - x) * (x + y - 2 * z) := by linarith
  exact sub_nonneg.mp (nonneg_of_mul_nonneg_right hproduct (sub_pos.mpr hlt))

section

variable {k n : ℕ} {w : Magnitude}

theorem two_pow_le_weight (hk : 0 < k) (hkn : k ≤ n) (hsize : n ≤ 2 ^ 53)
    (hw : ofNat k / ofNat n = .finite false w) : 1 / 2 ^ 53 ≤ w.value := by
  obtain ⟨q, hq, -, -, hnear⟩ := ofNat_div_eq_nearest (hk.trans_le hkn) hkn hsize
  cases hw.symm.trans hq
  obtain ⟨u, hu⟩ := exists_value_eq_div (m := 1) (e := 53) (by decide) (by decide)
  have hfraction : (1 : ℚ) / 2 ^ 53 ≤ k / n := by
    rw [div_le_div_iff₀ (by positivity) (by exact_mod_cast hk.trans_le hkn)]
    exact_mod_cast Nat.mul_le_mul hk hsize
  have hbound := hnear u
  rw [hu, Nat.cast_one, abs_sub_comm _ (k / n : ℚ), abs_sub_comm _ (k / n : ℚ),
    abs_of_nonneg (sub_nonneg.mpr hfraction), abs_le] at hbound
  linarith

/-- The double after `2 ^ (-53)` is as near to the least weight of fewer inserts. -/
theorem two_pow_lt_weight (hk : 0 < k) (hkn : k ≤ n) (hsize : n < 2 ^ 53)
    (hw : ofNat k / ofNat n = .finite false w) : 1 / 2 ^ 53 < w.value := by
  obtain ⟨q, hq, -, -, hnear⟩ := ofNat_div_eq_nearest (hk.trans_le hkn) hkn hsize.le
  cases hw.symm.trans hq
  obtain ⟨u, hu⟩ := exists_value_eq_div (m := 2 ^ 52 + 1) (e := 105) (by decide) (by decide)
  have hfraction : (1 : ℚ) / (2 ^ 53 - 1) ≤ k / n := by
    have hpos : (0 : ℚ) < n := by exact_mod_cast hk.trans_le hkn
    have hle : n + 1 ≤ 2 ^ 53 := hsize
    have hle' : (n : ℚ) ≤ 2 ^ 53 - 1 := by
      rw [le_sub_iff_add_le]
      exact_mod_cast hle
    exact div_le_div₀ (Nat.cast_nonneg k) (by exact_mod_cast hk) hpos hle'
  have hnext : u.value = 1 / 2 ^ 53 + 1 / 2 ^ 105 := by
    rw [hu]
    norm_num
  by_contra hle
  -- a weight that is not greater would be nearer to `2 ^ (-53)` than to the double after it
  have hmiddle : 2 * (k / n : ℚ) ≤ w.value + u.value :=
    two_mul_le_add_of_abs_sub_le (by linarith) (hnear u)
  have hleast : (1 : ℚ) / 2 ^ 53 + 1 / 2 ^ 106 < 1 / (2 ^ 53 - 1) := by norm_num
  linarith

end

/-- A sum below two absorbs no weight of `2 ^ (-53)` and more, but for `2 ^ (-53)` itself past
one. -/
theorem Magnitude.not_absorbs {sum term : Magnitude} (hsum : sum.value < 2)
    (hterm : 1 / 2 ^ 53 ≤ term.value) (hpast : 1 ≤ sum.value → 1 / 2 ^ 53 < term.value) :
    ¬ sum.Absorbs term := by
  intro h
  rcases lt_or_ge sum.value 1 with hlt | hge
  · have hhalf := h.two_mul_le (e := 0) (by rwa [pow_zero])
    norm_num at hhalf hterm
    linarith
  · have hhalf := h.two_mul_le (e := 1) (by rwa [pow_one])
    have hmore := hpast hge
    norm_num at hhalf hmore
    linarith

end Binary64

namespace InsertTable

open Binary64 (Magnitude)

section

variable {n : ℕ} {allocations : List Allocation} {i : ℕ}
  (htotal : recordsBefore allocations allocations.length ≤ n)

include htotal

/-- Of `2 ^ 53` inserts every weight and every sum is exact. -/
theorem exists_runningSum_eq (hn : n = 2 ^ 53) (hi : i ≤ allocations.length) :
    ∃ s, runningSum (.ofNat n) allocations i = .finite false s
      ∧ s.value = recordsBefore allocations i / n := by
  have hpos : 0 < n := hn ▸ Nat.two_pow_pos 53
  have hexact : ∀ m ≤ n, ∃ u : Magnitude, u.value = m / n := by
    intro m hm
    obtain ⟨u, hu⟩ := Binary64.exists_value_eq_div (e := 53) (hn ▸ hm) (by decide)
    refine ⟨u, hu.trans ?_⟩
    rw [hn, Nat.cast_pow, Nat.cast_two]
  induction i with
  | zero => exact ⟨.zero, rfl, by simp [recordsBefore_zero]⟩
  | succ i ih =>
    obtain ⟨s, hs, hvalue⟩ := ih (by omega)
    have ha : allocations[i]? = some allocations[i] := List.getElem?_eq_getElem hi
    have hle : allocations[i].records.toNat ≤ n :=
      (Nat.le_add_left ..).trans (recordsBefore_add_le htotal hi)
    have hparts := recordsBefore_succ_div n hi
    obtain ⟨w, hw, -, -, hwnear⟩ := Binary64.ofNat_div_eq_nearest hpos hle hn.le
    obtain ⟨u, hu⟩ := hexact _ hle
    have hweight := hwnear u
    rw [hu, sub_self, abs_zero, abs_nonpos_iff, sub_eq_zero] at hweight
    have hone := recordsBefore_div_le_one hpos htotal hi
    obtain ⟨t, ht, -, -, htnear⟩ := Binary64.add_eq_nearest (e := 0) (by decide)
      (show s.value + w.value ≤ 2 ^ 0 by rwa [hvalue, hweight, ← hparts, pow_zero])
    obtain ⟨v, hv⟩ := hexact _ ((recordsBefore_le_of_le hi).trans htotal)
    have hsum := htnear v
    rw [hvalue, hweight, ← hparts, hv, sub_self, abs_zero, abs_nonpos_iff, sub_eq_zero] at hsum
    exact ⟨t, by rw [runningSum_succ _ ha, hs, hw, ht], hsum⟩

/-- The sum before an allocation is below two. -/
theorem runningSum_lt_two (hsize : n ≤ 2 ^ 53) (hlength : allocations.length ≤ n)
    (hi : i < allocations.length) (hpos : 0 < allocations[i].records.toNat) {s : Magnitude}
    (hs : runningSum (.ofNat n) allocations i = .finite false s) : s.value < 2 := by
  obtain ⟨s', hs', herror⟩ := exists_runningSum hsize htotal hlength hi.le
  cases hs.symm.trans hs'
  have hn : (0 : ℚ) < n := by
    have hn : 0 < n := by omega
    exact_mod_cast hn
  have hrest : (recordsBefore allocations i : ℚ) / n < 1 := by
    have hlt : recordsBefore allocations i < n := by
      have hle := recordsBefore_add_le htotal hi
      omega
    rw [div_lt_one hn]
    exact_mod_cast hlt
  have hcount : (i : ℚ) + 1 ≤ 2 ^ 53 := by
    have hcount : i + 1 ≤ 2 ^ 53 := by omega
    exact_mod_cast hcount
  have habove := (abs_le.mp herror).2
  linarith

/-- For at most `2 ^ 53` inserts no weight is lost. -/
theorem runningSum_not_absorbs (hsize : n ≤ 2 ^ 53) (hlength : allocations.length ≤ n)
    (hi : i < allocations.length) (hpos : 0 < allocations[i].records.toNat) {s w : Magnitude}
    (hs : runningSum (.ofNat n) allocations i = .finite false s)
    (hw : .ofNat allocations[i].records.toNat / .ofNat n = Binary64.finite false w) :
    ¬ s.Absorbs w := by
  have hprefix := recordsBefore_add_le htotal hi
  have hle : allocations[i].records.toNat ≤ n := (Nat.le_add_left ..).trans hprefix
  refine Magnitude.not_absorbs (runningSum_lt_two htotal hsize hlength hi hpos hs)
    (Binary64.two_pow_le_weight hpos hle hsize hw) fun hpast => ?_
  rcases hsize.lt_or_eq with hlt | heq
  · exact Binary64.two_pow_lt_weight hpos hle hlt hw
  · -- an exact sum before an allocation is below one
    obtain ⟨s', hs', hvalue⟩ := exists_runningSum_eq htotal heq hi.le
    cases hs.symm.trans hs'
    have hlt : recordsBefore allocations i < n := by omega
    rw [hvalue, le_div_iff₀ (by exact_mod_cast (by omega : 0 < n)), one_mul, Nat.cast_le] at hpast
    exact absurd hpast (Nat.not_le.mpr hlt)

end

end InsertTable

end Upsert
