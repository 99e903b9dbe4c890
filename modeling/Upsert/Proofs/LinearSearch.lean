import Upsert.Proofs.Selection

/-!
# Selecting is looking for the first running sum that is reached

A table is searched by bisection. Where its running sums do not decrease, the bisection ends where a
search from the first entry on does: at the first running sum that is not less than the place
(`find?_eq_of_ne_nan`), so that of equal running sums the earliest counts. A place past all running
sums goes to the first entry, and so does NaN, which is not compared with any of them.
-/

namespace Upsert.InsertTable

/-- The running sums are numbers, and none of them is less than one before it. -/
structure NonDecreasing (table : InsertTable) : Prop where
  ne_nan : ∀ entry ∈ table.entries, entry.cumulative ≠ .nan
  pairwise : table.entries.toList.Pairwise fun earlier later =>
    earlier.cumulative.le later.cumulative = true

/-- The bucket of a place, looked for from the first entry on: the first one whose running sum is
not less than the place, or else the first bucket of the table. -/
def selectLinear (table : InsertTable) (place : Binary64) : Option ℕ :=
  ((table.entries.toList.find? fun entry => place.le entry.cumulative).or
    table.entries.toList.head?).map (·.bucket)

variable {table : InsertTable} {place : Binary64}

/-! ## Where the bisection ends -/

/-- The number of running sums that a bisection takes to be below a place. -/
def below (table : InsertTable) (place : Binary64) : ℕ :=
  Search.boundary (table.isBelow place) 0 table.size

theorem isBelow_of_getElem? {i : ℕ} {entry : InsertEntry} (h : table.entries[i]? = some entry)
    (place : Binary64) : table.isBelow place i = entry.cumulative.lt place := by
  rw [isBelow, h]

theorem isBelow_eq_true_iff {i : ℕ} :
    table.isBelow place i = true
      ↔ ∃ entry, table.entries[i]? = some entry ∧ entry.cumulative.lt place = true := by
  rw [isBelow]
  cases table.entries[i]? <;> simp

/-- A running sum that is below a place is not greater than it, and neither are those before it. -/
theorem NonDecreasing.ascending (h : table.NonDecreasing) (place : Binary64) :
    table.Ascending place := by
  intro i j hij hj hbelow
  rcases hij.eq_or_lt with rfl | hlt
  · exact hbelow
  obtain ⟨later, hlater, hsum⟩ := isBelow_eq_true_iff.mp hbelow
  have hi : i < table.entries.toList.length := hlt.trans hj
  refine isBelow_eq_true_iff.mpr ⟨table.entries[i], Array.getElem?_eq_getElem _, ?_⟩
  have hle := List.pairwise_iff_getElem.mp h.pairwise i j hi hj hlt
  obtain ⟨_, rfl⟩ := Array.getElem?_eq_some_iff.mp hlater
  exact Binary64.lt_of_le_of_lt hle hsum

/-- For a number, the bisection ends at the entry that a search from the first one finds. -/
theorem NonDecreasing.find?_eq_of_ne_nan (h : table.NonDecreasing) (hplace : place ≠ .nan) :
    (table.entries.toList.find? fun entry => place.le entry.cumulative)
      = table.entries[table.below place]? := by
  have hcompare : ∀ i (hi : i < table.entries.size),
      table.isBelow place i = !place.le table.entries[i].cumulative := by
    intro i hi
    rw [isBelow_of_getElem? (Array.getElem?_eq_getElem hi)]
    exact Binary64.lt_eq_not_le (h.ne_nan _ (Array.getElem_mem hi)) hplace
  have hbefore : ∀ i < table.below place, table.isBelow place i = true := fun i =>
    Search.holds_of_lt_boundary (h.ascending place) (Nat.zero_le i)
  have hafter : ∀ i, table.below place ≤ i → i < table.size → table.isBelow place i = false :=
    fun i => Search.fails_of_boundary_le (h.ascending place)
  have hsize : table.below place ≤ table.size := Search.boundary_le _ (Nat.zero_le _)
  rcases hsize.eq_or_lt with heq | hlt
  · -- no running sum is reached
    rw [Array.getElem?_eq_none heq.ge, List.find?_eq_none]
    intro entry hentry hle
    obtain ⟨i, hi, rfl⟩ := List.mem_iff_getElem.mp hentry
    have hbelow := hbefore i (heq.symm ▸ hi)
    rw [hcompare i hi, Bool.not_eq_true'] at hbelow
    exact absurd hle (by simpa using hbelow)
  · rw [Array.getElem?_eq_getElem hlt, List.find?_eq_some_iff_getElem]
    have hreached := hafter _ le_rfl hlt
    rw [hcompare _ hlt, Bool.not_eq_false'] at hreached
    refine ⟨hreached, table.below place, hlt, rfl, fun i hi => ?_⟩
    rw [← hbefore i hi, hcompare i (hi.trans hlt)]
    rfl

/-- No running sum is below NaN. -/
theorem below_nan (table : InsertTable) : table.below .nan = 0 := by
  by_contra hne
  have hnone : ∀ i, table.isBelow .nan i = false := by
    intro i
    rw [isBelow]
    cases table.entries[i]? <;> simp
  have hbelow : table.isBelow .nan 0 = true := by
    refine Search.holds_of_lt_boundary (fun i j _ _ hj => ?_) le_rfl (Nat.pos_of_ne_zero hne)
    simp [hnone] at hj
  simp [hnone] at hbelow

/-! ## What is selected -/

theorem select_eq_getElem?_below (table : InsertTable) (place : Binary64) :
    table.select place
      = (table.entries[table.below place]?.or table.entries.toList.head?).map (·.bucket) := by
  rw [select, List.head?_eq_getElem?, Array.getElem?_toList, ← below]
  cases table.entries[table.below place]? <;> rfl

theorem NonDecreasing.select_eq_selectLinear (h : table.NonDecreasing) (place : Binary64) :
    table.select place = table.selectLinear place := by
  rw [select_eq_getElem?_below, selectLinear]
  by_cases hplace : place = .nan
  · -- NaN reaches no running sum, and is below none
    subst hplace
    have hnone :
        (table.entries.toList.find? fun entry => Binary64.nan.le entry.cumulative) = none :=
      List.find?_eq_none.mpr fun _ _ => by simp
    rw [below_nan, hnone, List.head?_eq_getElem?, Array.getElem?_toList, Option.or_self,
      Option.none_or]
  · rw [h.find?_eq_of_ne_nan hplace]

/-- Where the place is not past all running sums, the first entry with a running sum that it is not
past is found. -/
theorem NonDecreasing.exists_find?_of_le (h : table.NonDecreasing) {entry : InsertEntry}
    (hentry : entry ∈ table.entries) (hle : place.le entry.cumulative = true) :
    ∃ first, (table.entries.toList.find? fun entry => place.le entry.cumulative) = some first
      ∧ table.select place = some first.bucket := by
  have hfound : (table.entries.toList.find? fun entry => place.le entry.cumulative).isSome :=
    List.find?_isSome.mpr ⟨entry, Array.mem_toList_iff.mpr hentry, hle⟩
  obtain ⟨first, hfirst⟩ := Option.isSome_iff_exists.mp hfound
  refine ⟨first, hfirst, ?_⟩
  rw [h.select_eq_selectLinear, selectLinear, hfirst]
  rfl

theorem select_eq_none_iff : table.select place = none ↔ table.size = 0 := by
  constructor
  · intro hnone
    by_contra hne
    obtain ⟨entry, -, hselect⟩ := exists_select (Nat.pos_of_ne_zero hne) place
    simp [hselect] at hnone
  · intro hempty
    rw [select_eq_serving, Array.getElem?_eq_none (hempty.trans_le (Nat.zero_le _)),
      Option.map_none]

/-- An entry before the one that serves a place has another running sum. -/
theorem NonDecreasing.same_eq_false_of_lt_serving (h : table.NonDecreasing) {i : ℕ}
    (hi : i < table.serving place) {earlier chosen : InsertEntry}
    (hearlier : table.entries[i]? = some earlier)
    (hchosen : table.entries[table.serving place]? = some chosen) :
    earlier.cumulative.same chosen.cumulative = false := by
  obtain ⟨j, hj⟩ := Nat.exists_eq_add_one_of_ne_zero (Nat.ne_zero_of_lt hi)
  obtain ⟨hserving, -⟩ := Array.getElem?_eq_some_iff.mp hchosen
  rw [hj] at hi hserving hchosen
  obtain ⟨hbelow, hreached⟩ := ((h.ascending place).serving_eq_succ_iff hserving).mp hj
  have hfirst := h.ascending place i j (Nat.le_of_lt_succ hi) (Nat.lt_of_succ_lt hserving) hbelow
  rw [isBelow_of_getElem? hchosen] at hreached
  rw [isBelow_of_getElem? hearlier] at hfirst
  -- the place lies between the two sums
  refine Bool.eq_false_iff.mpr fun hsame => ?_
  rw [Binary64.lt_congr_left hsame, hreached] at hfirst
  cases hfirst

/-- Where the running sums of a table do not decrease, a place selects the bucket of the first entry
whose running sum is not less than the place, and the first bucket of the table if there is no such
entry. Only an empty table selects nothing. The entry that serves a place is the first one with its
running sum. -/
theorem select_eq_linear (h : table.NonDecreasing) (place : Binary64) :
    table.select place = table.selectLinear place
      ∧ (table.select place = none ↔ table.size = 0)
      ∧ table.select place = table.entries[table.serving place]?.map (·.bucket)
      ∧ ∀ i < table.serving place, ∀ earlier chosen, table.entries[i]? = some earlier →
        table.entries[table.serving place]? = some chosen →
          earlier.cumulative.same chosen.cumulative = false :=
  ⟨h.select_eq_selectLinear place, select_eq_none_iff, select_eq_serving table place,
    fun _ hi _ _ => h.same_eq_false_of_lt_serving hi⟩

/-- A table with running sums zero, one, one and two. -/
def tiedTable : InsertTable :=
  ⟨#[⟨7, .ofNat 0, .ofNat 0⟩, ⟨8, .ofNat 1, .ofNat 1⟩, ⟨9, .zero true, .ofNat 1⟩,
    ⟨6, .ofNat 1, .ofNat 2⟩]⟩

theorem select_eq_linear_of_ties :
    tiedTable.NonDecreasing ∧ tiedTable.select (.ofNat 1) = some 8
      ∧ tiedTable.select (.zero true) = some 7 ∧ tiedTable.select .nan = some 7
      ∧ tiedTable.select (.infinite false) = some 7 := by
  have htied : tiedTable.NonDecreasing := ⟨by decide +kernel, by decide +kernel⟩
  have hlinear := fun place => (select_eq_linear htied place).1
  simp only [hlinear]
  exact ⟨htied, by decide +kernel⟩

end Upsert.InsertTable
