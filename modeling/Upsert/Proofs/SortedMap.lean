import Mathlib
import Upsert.SortedMap

/-!
# What an insertion into a sorted map changes, and when two maps are equal

An insertion puts the new entry in one place and takes the old entry of the key, if there was one,
out of the same place (`toList_insert`). Everything that is read off the list of entries follows
from this. Maps are equal where they have the same keys and no key has two values (`ext_of_isSome`).
-/

namespace Upsert.SortedMap

variable {α β : Type}

theorem mem_keys {map : SortedMap α} {key : String} :
    key ∈ map.keys ↔ (map.find? key).isSome := by
  rw [Option.isSome_iff_exists]
  simp [keys, find?_eq_some_iff, toList]

theorem mem_values {map : SortedMap α} {value : α} :
    value ∈ map.values ↔ ∃ key, map.find? key = some value := by
  simp [values, find?_eq_some_iff, toList]

/-- The map of the values that `f` gives, where it gives one. -/
def filterMap (f : α → Option β) (map : SortedMap α) : SortedMap β where
  entries := map.entries.filterMap fun entry => (f entry.2).map (entry.1, ·)
  sorted := by
    refine map.sorted.filterMap _ fun entry other hlt shown hshown shown' hshown' => ?_
    obtain ⟨value, -, rfl⟩ := Option.map_eq_some_iff.mp hshown
    obtain ⟨value', -, rfl⟩ := Option.map_eq_some_iff.mp hshown'
    exact hlt

theorem find?_filterMap (f : α → Option β) (map : SortedMap α) (key : String) :
    (map.filterMap f).find? key = (map.find? key).bind f := by
  ext value
  rw [find?_eq_some_iff, Option.bind_eq_some_iff]
  simp only [find?_eq_some_iff, toList, filterMap, List.mem_filterMap, Option.map_eq_some_iff,
    Prod.mk.injEq]
  constructor
  · rintro ⟨⟨_, old⟩, hmem, _, hvalue, rfl, rfl⟩
    exact ⟨old, hmem, hvalue⟩
  · rintro ⟨old, hmem, hvalue⟩
    exact ⟨(key, old), hmem, value, hvalue, rfl, rfl⟩

theorem values_filterMap (f : α → Option β) (map : SortedMap α) :
    (map.filterMap f).values = map.values.filterMap f := by
  rw [values, values, filterMap, List.map_filterMap, List.filterMap_map]
  congr 1
  funext entry
  rw [Option.map_map]
  exact Option.map_id'

theorem insertEntry_eq (key : String) (value : α) {entries : List (String × α)}
    (h : entries.Pairwise fun x y => x.1 < y.1) :
    ∃ before after, insertEntry key value entries = before ++ (key, value) :: after
      ∧ entries = before ++ ((lookup? key entries).toList.map (key, ·) ++ after) := by
  induction entries with
  | nil => exact ⟨[], [], rfl, rfl⟩
  | cons first rest ih =>
    obtain ⟨hfirst, hrest⟩ := List.pairwise_cons.mp h
    unfold insertEntry lookup?
    by_cases hlt : key < first.1
    · -- the key is before all others, so it has no entry
      have hnone : lookup? key rest = none := by
        rw [Option.eq_none_iff_forall_ne_some]
        intro old hold
        exact absurd (hlt.trans (hfirst _ ((lookup?_eq_some_iff hrest).mp hold)))
          (String.lt_irrefl _)
      rw [if_pos hlt, if_neg (ne_of_lt hlt), hnone]
      exact ⟨[], first :: rest, rfl, rfl⟩
    · rw [if_neg hlt]
      by_cases heq : key = first.1
      · subst heq
        rw [if_pos rfl, if_pos rfl]
        exact ⟨[], rest, rfl, rfl⟩
      · rw [if_neg heq, if_neg heq]
        obtain ⟨before, after, hinsert, hentries⟩ := ih hrest
        exact ⟨first :: before, after, congrArg (first :: ·) hinsert,
          congrArg (first :: ·) hentries⟩

/-- The new entry stands where the old one of its key was, or where it would have been. -/
theorem toList_insert (map : SortedMap α) (key : String) (value : α) :
    ∃ before after, (map.insert key value).toList = before ++ (key, value) :: after
      ∧ map.toList = before ++ ((map.find? key).toList.map (key, ·) ++ after) :=
  insertEntry_eq key value map.sorted

/-- Looking for the last key of some kind passes over a new key of another kind. -/
theorem find?_reverse_keys_insert {p : String → Bool} {key : String} (h : p key = false)
    (map : SortedMap α) (value : α) :
    (map.insert key value).keys.reverse.find? p = map.keys.reverse.find? p := by
  obtain ⟨before, after, hinsert, hmap⟩ := map.toList_insert key value
  change ((map.insert key value).toList.map (·.1)).reverse.find? p
    = (map.toList.map (·.1)).reverse.find? p
  rw [hinsert, hmap]
  cases map.find? key <;> simp [List.find?_append, h]

/-- The sum over a map's values gains what the new value adds and loses what the old one did, which
is nothing where there was none. -/
theorem sum_values_insert {g : α → ℕ} {fallback : α} (h : g fallback = 0) (map : SortedMap α)
    (key : String) (value : α) :
    ((map.insert key value).values.map g).sum + g (map.findD key fallback)
      = (map.values.map g).sum + g value := by
  obtain ⟨before, after, hinsert, hmap⟩ := map.toList_insert key value
  have hvalues : ∀ other : SortedMap α, other.values.map g = other.toList.map (g ·.2) :=
    fun other => List.map_map
  rw [hvalues, hvalues, hinsert, hmap, findD]
  cases map.find? key with
  | none =>
    simp [h]
    omega
  | some old =>
    simp
    omega

/-- Maps with the same keys are equal where no key has two values. -/
theorem ext_of_isSome {map other : SortedMap α}
    (hkeys : ∀ key, (map.find? key).isSome ↔ (other.find? key).isSome)
    (hvalues : ∀ key value value', map.find? key = some value → other.find? key = some value' →
      value = value') : map = other := by
  apply ext_find?
  intro key
  have hkey := hkeys key
  cases hmap : map.find? key with
  | none =>
    rw [hmap, Option.isSome_none, Bool.false_eq_true, false_iff, Option.not_isSome_iff_eq_none]
      at hkey
    exact hkey.symm
  | some value =>
    rw [hmap] at hkey
    obtain ⟨value', hother⟩ := Option.isSome_iff_exists.mp (hkey.mp rfl)
    rw [hother, hvalues key value value' hmap hother]

end Upsert.SortedMap
