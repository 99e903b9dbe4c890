import Mathlib

/-! # Dividing an amount

Two ways to divide an amount, in natural numbers without a bound. `fills` pours it into vessels of
given capacities, each vessel taking what it holds of what the vessels before it leave. `portions`
cuts it into portions of one size, the last of which takes the rest.

Neither loses anything: `sum_fills` and `sum_portions` say what the parts add up to.
-/

namespace Upsert.Greedy

/-! ## Vessels filled in turn -/

/-- What the vessel number `i` takes: what it holds of what the vessels before it leave. -/
def taken (amount : ℕ) (capacities : List ℕ) (i : ℕ) : ℕ :=
  min (capacities[i]?.getD 0) (amount - min amount (capacities.take i).sum)

/-- What each vessel takes. -/
def fills (amount : ℕ) (capacities : List ℕ) : List ℕ :=
  (List.range capacities.length).map (taken amount capacities)

@[simp] theorem fills_nil (amount : ℕ) : fills amount [] = [] := rfl

/-- The first vessel takes what it holds, and the others share what it leaves. -/
theorem fills_cons (amount capacity : ℕ) (capacities : List ℕ) :
    fills amount (capacity :: capacities)
      = min capacity amount :: fills (amount - capacity) capacities := by
  have hfirst : taken amount (capacity :: capacities) 0 = min capacity amount := by
    simp [taken]
  have hrest : ∀ i, taken amount (capacity :: capacities) (i + 1)
      = taken (amount - capacity) capacities i := by
    intro i
    simp only [taken, List.getElem?_cons_succ, List.take_succ_cons, List.sum_cons]
    omega
  rw [fills, List.length_cons, List.range_succ_eq_map, List.map_cons, List.map_map, hfirst, fills]
  exact congrArg _ (List.map_congr_left fun i _ => hrest i)

theorem sum_fills (amount : ℕ) (capacities : List ℕ) :
    (fills amount capacities).sum = min amount capacities.sum := by
  induction capacities generalizing amount with
  | nil => simp
  | cons capacity capacities ih =>
    rw [fills_cons, List.sum_cons, List.sum_cons, ih]
    omega

/-- An amount that fills all the vessels fills each of them to its capacity. -/
theorem fills_of_sum_le {amount : ℕ} {capacities : List ℕ} (h : capacities.sum ≤ amount) :
    fills amount capacities = capacities := by
  induction capacities generalizing amount with
  | nil => simp
  | cons capacity capacities ih =>
    rw [List.sum_cons] at h
    rw [fills_cons, ih (by omega), min_eq_left (by omega)]

/-! ## Portions of one size -/

/-- The number of portions, the last one being smaller where the size does not divide the
amount. -/
def portionCount (amount size : ℕ) : ℕ := (amount + size - 1) / size

/-- The portions of an amount. -/
def portions (amount size : ℕ) : List ℕ :=
  (List.range (portionCount amount size)).map fun i =>
    if i + 1 < portionCount amount size then size
    else amount - (portionCount amount size - 1) * size

@[simp] theorem length_portions (amount size : ℕ) :
    (portions amount size).length = portionCount amount size := by
  rw [portions, List.length_map, List.length_range]

@[simp] theorem portionCount_zero (size : ℕ) : portionCount 0 size = 0 := by
  rcases Nat.eq_zero_or_pos size with rfl | hsize
  · rfl
  · exact Nat.div_eq_of_lt (by omega)

theorem portionCount_eq (amount : ℕ) {size : ℕ} (hsize : 0 < size) :
    portionCount amount size = amount / size + if amount % size = 0 then 0 else 1 := by
  have hdiv := Nat.div_add_mod amount size
  have hmod := Nat.mod_lt amount hsize
  rw [portionCount]
  generalize amount / size = quotient at hdiv ⊢
  generalize amount % size = remainder at hdiv hmod ⊢
  -- a remainder carries the dividend into the next multiple of the size
  rw [← hdiv, Nat.add_assoc, Nat.add_sub_assoc (by omega), Nat.mul_add_div hsize]
  split
  · rw [Nat.div_eq_of_lt (by omega)]
  · rw [Nat.div_eq_of_lt_le (k := 1) (by omega) (by omega)]

theorem portionCount_pos {amount size : ℕ} (hsize : 0 < size) (hamount : 0 < amount) :
    0 < portionCount amount size :=
  Nat.div_pos (by omega) hsize

theorem portionCount_le (amount size : ℕ) : portionCount amount size ≤ amount := by
  rcases Nat.eq_zero_or_pos amount with rfl | hamount
  · rw [portionCount_zero]
  · rcases Nat.eq_zero_or_pos size with rfl | hsize
    · rw [portionCount, Nat.div_zero]
      exact Nat.zero_le _
    · -- neither is zero, so their sum exceeds their product by one at most
      have hle : amount + size - 1 ≤ amount * size := by
        have hmul : (amount - 1) * 1 ≤ (amount - 1) * size := Nat.mul_le_mul_left _ hsize
        have hsplit : amount * size = (amount - 1) * size + size := by
          rw [← Nat.succ_mul, Nat.succ_eq_add_one, Nat.sub_add_cancel hamount]
        omega
      exact Nat.div_le_of_le_mul (by rwa [Nat.mul_comm])

/-- A number of portions is enough exactly where they make up the amount. -/
theorem portionCount_le_iff {amount size count : ℕ} (hsize : 0 < size) :
    portionCount amount size ≤ count ↔ amount ≤ count * size := by
  rw [Nat.mul_comm]
  exact ceilDiv_le_iff_le_mul hsize

/-- All portions but the last leave something for the last one, and no more than its size. -/
theorem portionCount_bounds {amount size : ℕ} (hsize : 0 < size) (hamount : 0 < amount) :
    (portionCount amount size - 1) * size < amount
      ∧ amount ≤ (portionCount amount size - 1) * size + size := by
  have hdiv := Nat.div_add_mod (amount + size - 1) size
  have hmod := Nat.mod_lt (amount + size - 1) hsize
  have hcount := portionCount_pos hsize hamount
  rw [portionCount] at hcount ⊢
  -- with `k + 1` portions both bounds are what the remainder of the division says
  obtain ⟨k, hk⟩ := Nat.exists_eq_add_of_lt hcount
  rw [hk, Nat.zero_add, Nat.mul_add, Nat.mul_one] at hdiv
  rw [hk, Nat.zero_add, Nat.add_sub_cancel, Nat.mul_comm]
  omega

/-- The portions, each with its number. -/
theorem mapIdx_portions {α : Type} (amount size : ℕ) (f : ℕ → ℕ → α) :
    (portions amount size).mapIdx f
      = (List.range (portionCount amount size)).map fun i =>
          f i (if i + 1 < portionCount amount size then size
            else amount - (portionCount amount size - 1) * size) := by
  refine List.ext_getElem? fun i => ?_
  rw [List.getElem?_mapIdx, portions, List.getElem?_map, List.getElem?_map, Option.map_map]
  by_cases hi : i < portionCount amount size
  · rw [List.getElem?_range hi]
    rfl
  · rw [List.getElem?_eq_none (by rw [List.length_range]; omega)]
    rfl

theorem mem_portions {amount size portion : ℕ} (hsize : 0 < size)
    (h : portion ∈ portions amount size) : 0 < portion ∧ portion ≤ size := by
  obtain ⟨i, hi, rfl⟩ := List.mem_map.mp h
  have hamount : 0 < amount := by
    have hcount := List.mem_range.mp hi
    have hle := portionCount_le amount size
    omega
  have hbounds := portionCount_bounds hsize hamount
  split <;> omega

theorem sum_portions (amount : ℕ) {size : ℕ} (hsize : 0 < size) :
    (portions amount size).sum = amount := by
  rcases Nat.eq_zero_or_pos amount with rfl | hamount
  · rw [portions, portionCount_zero, List.range_zero, List.map_nil, List.sum_nil]
  · have hbounds := portionCount_bounds hsize hamount
    obtain ⟨k, hk⟩ := Nat.exists_eq_add_of_lt (portionCount_pos hsize hamount)
    rw [Nat.zero_add] at hk
    rw [hk, Nat.add_sub_cancel] at hbounds
    -- all but the last portion are full
    have hfull : (List.range k).map (fun i => if i + 1 < k + 1 then size else amount - k * size)
        = (List.range k).map fun _ => size := by
      refine List.map_congr_left fun i hi => ?_
      rw [if_pos (Nat.succ_lt_succ (List.mem_range.mp hi))]
    rw [portions, hk, Nat.add_sub_cancel, List.range_succ, List.map_append, List.sum_append, hfull,
      List.map_const', List.sum_replicate, List.length_range, smul_eq_mul, List.map_singleton,
      List.sum_singleton, if_neg (lt_irrefl _)]
    omega

end Upsert.Greedy
