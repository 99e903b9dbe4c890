import Mathlib
import Upsert.Text.Quoted

/-!
# Characters that can be seen

The ranges of unprintable code points are in ascending order and do not touch, so that bisection
finds the only one that may hold a code point. A character is unprintable exactly where one of the
ranges holds its code point (`isUnprintable_iff`). Quoting leaves no such character in a text
(`printable_of_mem_quoted`).
-/

namespace Upsert.Text

variable {code i j : ℕ} {range next : ℕ × ℕ}

/-! ## The ranges -/

/-- A range lies before another one and does not touch it. -/
def Before (range next : ℕ × ℕ) : Prop :=
  range.1 ≤ range.2 ∧ range.2 + 1 < next.1 ∧ next.1 ≤ next.2

instance : DecidableRel Before :=
  fun _ _ => inferInstanceAs (Decidable (_ ∧ _ ∧ _))

instance : IsTrans (ℕ × ℕ) Before where
  trans _ _ _ := by
    rintro ⟨hone, hbefore, -⟩ ⟨htwo, hbefore', hthree⟩
    exact ⟨hone, by omega, hthree⟩

theorem unprintableRanges_pairwise : unprintableRanges.toList.Pairwise Before :=
  List.isChain_iff_pairwise.mp (by decide +kernel)

theorem before_of_lt (hi : unprintableRanges[i]? = some range)
    (hj : unprintableRanges[j]? = some next) (h : i < j) : Before range next := by
  rw [← Array.getElem?_toList, List.getElem?_eq_some_iff] at hi hj
  obtain ⟨hi, rfl⟩ := hi
  obtain ⟨hj, rfl⟩ := hj
  exact List.pairwise_iff_getElem.mp unprintableRanges_pairwise i j hi hj h

/-! ## The search for a range -/

theorem endsBefore_iff (hi : unprintableRanges[i]? = some range) :
    endsBefore code i = true ↔ range.2 < code := by
  unfold endsBefore
  rw [hi]
  exact decide_eq_true_iff

/-- The ranges that end before a code point come first. -/
theorem endsBefore_of_le (code i j : ℕ) (hij : i ≤ j) (hj : j < unprintableRanges.size)
    (h : endsBefore code j = true) : endsBefore code i = true := by
  rcases hij.eq_or_lt with rfl | hlt
  · exact h
  · have hnext := Array.getElem?_eq_getElem hj
    have hrange := Array.getElem?_eq_getElem (hlt.trans hj)
    obtain ⟨-, hbefore, hle⟩ := before_of_lt hrange hnext hlt
    rw [endsBefore_iff hnext] at h
    rw [endsBefore_iff hrange]
    omega

/-- The search finds the range that holds a code point. -/
theorem boundary_endsBefore (hi : unprintableRanges[i]? = some range) (hfirst : range.1 ≤ code)
    (hlast : code ≤ range.2) :
    Search.boundary (endsBefore code) 0 unprintableRanges.size = i := by
  obtain ⟨hsize, -⟩ := Array.getElem?_eq_some_iff.mp hi
  apply le_antisymm
  · by_contra hlt
    have hends := Search.holds_of_lt_boundary (endsBefore_of_le code) i.zero_le (not_le.mp hlt)
    rw [endsBefore_iff hi] at hends
    omega
  · by_contra hlt
    -- a range before this one ends before the code point
    have hbound := (not_le.mp hlt).trans hsize
    have hfails := Search.fails_of_boundary_le (endsBefore_of_le code) le_rfl hbound
    have hrange := Array.getElem?_eq_getElem hbound
    obtain ⟨-, hbefore, -⟩ := before_of_lt hrange hi (not_le.mp hlt)
    refine Bool.eq_false_iff.mp hfails ((endsBefore_iff hrange).mpr ?_)
    omega

/-- A character is unprintable where one of the ranges holds its code point. -/
theorem isUnprintable_iff {c : Char} :
    isUnprintable c = true
      ↔ ∃ range ∈ unprintableRanges, range.1 ≤ c.toNat ∧ c.toNat ≤ range.2 := by
  constructor
  · intro h
    unfold isUnprintable at h
    dsimp only at h
    split at h
    · rename_i range hrange
      refine ⟨range, Array.mem_of_getElem? hrange, of_decide_eq_true h, ?_⟩
      obtain ⟨hsize, -⟩ := Array.getElem?_eq_some_iff.mp hrange
      have hfails := Search.fails_of_boundary_le (endsBefore_of_le c.toNat) le_rfl hsize
      rw [Bool.eq_false_iff, ne_eq, endsBefore_iff hrange] at hfails
      omega
    · cases h
  · rintro ⟨range, hmem, hfirst, hlast⟩
    obtain ⟨i, hi⟩ := Array.mem_iff_getElem?.mp hmem
    unfold isUnprintable
    dsimp only
    rw [boundary_endsBefore hi hfirst hlast, hi]
    exact decide_eq_true hfirst

/-! ## Quoted texts -/

/-- The character is one of those from the space to the tilde. -/
def isPrintableAscii (c : Char) : Bool := 0x20 ≤ c.toNat && c.toNat < 0x7f

theorem isUnprintable_of_isPrintableAscii {c : Char} (h : isPrintableAscii c = true) :
    isUnprintable c = false := by
  have hranges : ∀ range ∈ unprintableRanges.toList, range.2 < 0x20 ∨ 0x7f ≤ range.1 := by
    decide +kernel
  rw [isPrintableAscii, Bool.and_eq_true, decide_eq_true_eq, decide_eq_true_eq] at h
  rw [Bool.eq_false_iff, ne_eq, isUnprintable_iff]
  rintro ⟨range, hmem, hfirst, hlast⟩
  rcases hranges range (Array.mem_toList_iff.mpr hmem) with hbefore | hafter <;> omega

theorem exists_digitChar_of_mem_toDigits {base n : ℕ} (hbase : 1 < base) {c : Char}
    (h : c ∈ Nat.toDigits base n) : ∃ digit < base, c = digit.digitChar := by
  induction n using Nat.strong_induction_on with
  | h n ih =>
    rw [Nat.toDigits_eq_if hbase] at h
    split at h
    · rename_i hlt
      exact ⟨n, hlt, List.mem_singleton.mp h⟩
    · rename_i hge
      rcases List.mem_append.mp h with hmem | hmem
      · exact ih _ (Nat.div_lt_self (by omega) hbase) hmem
      · exact ⟨n % base, Nat.mod_lt _ (by omega), List.mem_singleton.mp hmem⟩

/-- An escape by code point is written in ASCII. -/
theorem all_isPrintableAscii_codePointEscape (c : Char) :
    (codePointEscape c).all isPrintableAscii = true := by
  have hdigits : ∀ digit < 16, isPrintableAscii (Nat.digitChar digit) = true := by decide
  have hcode : (Nat.toDigits 16 c.toNat).all isPrintableAscii = true := by
    rw [List.all_eq_true]
    intro shown hmem
    obtain ⟨digit, hlt, rfl⟩ := exists_digitChar_of_mem_toDigits (by decide) hmem
    exact hdigits digit hlt
  simp only [codePointEscape, List.all_cons, List.all_append, hcode, Bool.true_and]
  decide

theorem printable_of_mem_escaped {c shown : Char} (h : shown ∈ escaped c) :
    isUnprintable shown = false := by
  have hascii : ∀ {text : List Char}, text.all isPrintableAscii = true → shown ∈ text →
      isUnprintable shown = false :=
    fun htext hmem => isUnprintable_of_isPrintableAscii (List.all_eq_true.mp htext shown hmem)
  unfold escaped at h
  split at h
  case h_7 =>
    split at h
    · exact hascii (all_isPrintableAscii_codePointEscape c) h
    · rename_i hprintable
      rw [List.mem_singleton.mp h]
      exact Bool.eq_false_iff.mpr hprintable
  -- the escapes of two characters
  all_goals exact hascii (by decide) h

/-- Every character of a quoted text can be seen. -/
theorem printable_of_mem_quoted {text : String} {shown : Char}
    (h : shown ∈ (quoted text).toList) : isUnprintable shown = false := by
  have hquote : isUnprintable '"' = false := isUnprintable_of_isPrintableAscii (by decide)
  rw [quoted, String.toList_ofList] at h
  simp only [List.mem_cons, List.mem_append, List.not_mem_nil, or_false, List.mem_flatMap] at h
  rcases h with rfl | ⟨c, -, hmem⟩ | rfl
  · exact hquote
  · exact printable_of_mem_escaped hmem
  · exact hquote

end Upsert.Text
