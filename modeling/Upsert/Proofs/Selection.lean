import Mathlib
import Upsert.InsertTable

/-! # What a table can select

The entries of a table stand for its allocations, one each, and whatever the place is, a table that
is not empty selects the bucket of one of its entries.

How many of some places an entry serves depends on the running sums on either side of it only: each
sum splits the places into those that it reaches and those past it (`level`), and an entry serves
what its own sum reaches and the sum before it does not. Places past all of the sums return to the
first entry.
-/

namespace Upsert.InsertTable

theorem map_bucket_accumulate (total sum : Binary64) (allocations : List Allocation) :
    (accumulate total sum allocations).map (·.bucket) = allocations.map (·.bucket) := by
  induction allocations generalizing sum with
  | nil => rfl
  | cons allocation rest ih => rw [accumulate, List.map_cons, List.map_cons, ih]

/-- The entry of an allocation has its bucket. -/
theorem map_bucket_getElem? (allocations : List Allocation) (total : UInt64) (i : ℕ) :
    (ofAllocations allocations total).entries[i]?.map (·.bucket)
      = allocations[i]?.map (·.bucket) := by
  rw [ofAllocations, List.getElem?_toArray, ← List.getElem?_map, map_bucket_accumulate,
    List.getElem?_map]

/-- The buckets of the entries are those of the allocations. -/
theorem exists_entry_iff {allocations : List Allocation} {total : UInt64} {bucket : ℕ} :
    (∃ entry ∈ (ofAllocations allocations total).entries, entry.bucket = bucket)
      ↔ ∃ allocation ∈ allocations, allocation.bucket = bucket := by
  rw [← List.mem_map, ← map_bucket_accumulate (.ofNat (max total.toNat 1)) (.zero false),
    List.mem_map]
  exact exists_congr fun entry => and_congr_left fun _ => List.mem_toArray

/-- A table with an entry selects the bucket of one of its entries. -/
theorem exists_select {table : InsertTable} (h : 0 < table.size) (place : Binary64) :
    ∃ entry ∈ table.entries, table.select place = some entry.bucket := by
  rw [select]
  cases hfound : table.entries[Search.boundary (table.isBelow place) 0 table.size]? with
  | some entry => exact ⟨entry, Array.mem_of_getElem? hfound, rfl⟩
  | none =>
    -- the place is above all running sums
    refine ⟨table.entries[0], Array.getElem_mem h, ?_⟩
    rw [Array.getElem?_eq_getElem h, Option.map_some]

/-! ## The entry that serves a place -/

/-- The number of the entry whose bucket a place selects. -/
def serving (table : InsertTable) (place : Binary64) : ℕ :=
  let found := Search.boundary (table.isBelow place) 0 table.size
  if found < table.size then found else 0

theorem select_eq_serving (table : InsertTable) (place : Binary64) :
    table.select place = table.entries[table.serving place]?.map (·.bucket) := by
  rw [select, serving]
  split
  · rename_i entry hentry
    have hlt : Search.boundary (table.isBelow place) 0 table.size < table.size :=
      (Array.getElem?_eq_some_iff.mp hentry).1
    rw [if_pos hlt, hentry, Option.map_some]
  · rename_i hnone
    have hge : table.size ≤ Search.boundary (table.isBelow place) 0 table.size :=
      Array.getElem?_eq_none_iff.mp hnone
    rw [if_neg (Nat.not_lt.mpr hge)]

theorem serving_lt {table : InsertTable} (h : 0 < table.size) (place : Binary64) :
    table.serving place < table.size := by
  rw [serving]
  split
  · assumption
  · exact h

/-- The running sums below a place are those of the first entries. -/
def Ascending (table : InsertTable) (place : Binary64) : Prop :=
  ∀ i j, i ≤ j → j < table.size → table.isBelow place j = true → table.isBelow place i = true

/-- An entry after the first one serves the places between the sum before it and its own. -/
theorem Ascending.serving_eq_succ_iff {table : InsertTable} {place : Binary64}
    (h : table.Ascending place) {i : ℕ} (hi : i + 1 < table.size) :
    table.serving place = i + 1
      ↔ table.isBelow place i = true ∧ table.isBelow place (i + 1) = false := by
  have hbefore : ∀ {j}, j < Search.boundary (table.isBelow place) 0 table.size →
      table.isBelow place j = true := Search.holds_of_lt_boundary h (Nat.zero_le _)
  have hafter : ∀ {j}, Search.boundary (table.isBelow place) 0 table.size ≤ j → j < table.size →
      table.isBelow place j = false := Search.fails_of_boundary_le h
  rw [serving]
  constructor
  · intro heq
    split at heq
    · exact ⟨hbefore (by omega), hafter heq.le hi⟩
    · omega
  · intro ⟨hbelow, hreached⟩
    have hlt : i < Search.boundary (table.isBelow place) 0 table.size := by
      by_contra hge
      rw [hafter (by omega) (by omega)] at hbelow
      cases hbelow
    have hle : Search.boundary (table.isBelow place) 0 table.size ≤ i + 1 := by
      by_contra hgt
      rw [hbefore (by omega)] at hreached
      cases hreached
    rw [if_pos (by omega)]
    omega

/-- The first entry serves the places up to its own sum and those past the last one. -/
theorem Ascending.serving_eq_zero_iff {table : InsertTable} {place : Binary64}
    (h : table.Ascending place) (hsize : 0 < table.size) :
    table.serving place = 0
      ↔ table.isBelow place 0 = false ∨ table.isBelow place (table.size - 1) = true := by
  have hbefore : ∀ {j}, j < Search.boundary (table.isBelow place) 0 table.size →
      table.isBelow place j = true := Search.holds_of_lt_boundary h (Nat.zero_le _)
  have hafter : ∀ {j}, Search.boundary (table.isBelow place) 0 table.size ≤ j → j < table.size →
      table.isBelow place j = false := Search.fails_of_boundary_le h
  rw [serving]
  constructor
  · intro heq
    split at heq
    · exact Or.inl (hafter heq.le hsize)
    · exact Or.inr (hbefore (by omega))
  · intro hends
    split
    · rename_i hlt
      by_contra hne
      rcases hends with hfirst | hlast
      · rw [hbefore (by omega)] at hfirst
        cases hfirst
      · rw [hafter (by omega) (by omega)] at hlast
        cases hlast
    · rfl

/-! ## How many places an entry serves -/

section

variable (table : InsertTable) (places : ℕ → Binary64) (count : ℕ)

/-- The number of places that the running sum of an entry reaches. -/
def reached (i : ℕ) : ℕ := Nat.count (fun k => table.isBelow (places k) i = false) count

/-- How far the places go that are served before an entry: those that the sum before it reaches, or
for the first entry, less than none by the places that return to it. -/
def level : ℕ → ℤ
  | 0 => table.reached places count (table.size - 1) - count
  | i + 1 => table.reached places count i

variable {table places count}

/-- An entry serves the places between two levels. -/
theorem count_serving (h : ∀ k < count, table.Ascending (places k)) {i : ℕ} (hi : i < table.size) :
    (Nat.count (fun k => table.serving (places k) = i) count : ℤ)
      = table.level places count (i + 1) - table.level places count i := by
  induction count with
  | zero => cases i <;> simp [level, reached]
  | succ count ih =>
    have hrest := ih fun k hk => h k (by omega)
    have hlast := h count (Nat.lt_succ_self count)
    cases i with
    | zero =>
      have hends := hlast 0 (table.size - 1) (Nat.zero_le _) (by omega)
      simp only [level, reached, Nat.count_succ, hlast.serving_eq_zero_iff hi] at hrest ⊢
      -- the new place is reached by the first sum, or past the last one, or neither
      cases hfirst : table.isBelow (places count) 0 <;>
        cases hfinal : table.isBelow (places count) (table.size - 1) <;>
        simp [hfirst, hfinal] at hends ⊢ <;>
        omega
    | succ i =>
      have hends := hlast i (i + 1) (Nat.le_succ i) hi
      simp only [level, reached, Nat.count_succ, hlast.serving_eq_succ_iff hi] at hrest ⊢
      cases hfirst : table.isBelow (places count) i <;>
        cases hfinal : table.isBelow (places count) (i + 1) <;>
        simp [hfirst, hfinal] at hends ⊢ <;>
        omega

/-- A bucket is selected by the places that its entries serve. -/
theorem count_select (hsize : 0 < table.size) (bucket : ℕ) :
    Nat.count (fun k => table.select (places k) = some bucket) count
      = ∑ i ∈ Finset.range table.size, if table.entries[i]?.map (·.bucket) = some bucket then
          Nat.count (fun k => table.serving (places k) = i) count else 0 := by
  induction count with
  | zero => simp
  | succ count ih =>
    have hserving := Finset.mem_range.mpr (serving_lt hsize (places count))
    have hone : (if table.select (places count) = some bucket then 1 else 0)
        = ∑ i ∈ Finset.range table.size, if table.entries[i]?.map (·.bucket) = some bucket then
            (if table.serving (places count) = i then 1 else 0) else 0 := by
      rw [Finset.sum_eq_single_of_mem _ hserving, select_eq_serving, if_pos rfl]
      intro i _ hi
      rw [if_neg (Ne.symm hi), ite_self]
    rw [Nat.count_succ, ih, hone, ← Finset.sum_add_distrib]
    apply Finset.sum_congr rfl
    intro i _
    rw [Nat.count_succ]
    split <;> rfl

end

end Upsert.InsertTable
