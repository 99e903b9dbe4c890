/-! # Maps with sorted string keys

A `SortedMap α` gives values to finitely many strings. Its entries are kept as a list with strictly
ascending keys, where strings are compared by their code points, so two maps that answer every
look-up alike are equal (`SortedMap.ext_find?`), and walking a map visits its keys in ascending
order. A set of strings, `KeySet`, is a map to `Unit`.
-/

namespace Upsert

/-- A map from strings, its entries in ascending order of their keys. -/
structure SortedMap (α : Type u) where
  entries : List (String × α)
  sorted : entries.Pairwise fun x y => x.1 < y.1
deriving DecidableEq

namespace SortedMap

variable {α : Type u} {β : Type v}

/-! ## Entry lists -/

/-- Puts an entry into an ascending list, in place of an entry with the same key. -/
def insertEntry (key : String) (value : α) : List (String × α) → List (String × α)
  | [] => [(key, value)]
  | entry :: rest =>
    if key < entry.1 then (key, value) :: entry :: rest
    else if key = entry.1 then (key, value) :: rest
    else entry :: insertEntry key value rest

/-- The value of the first entry with the key. -/
def lookup? (key : String) : List (String × α) → Option α
  | [] => none
  | entry :: rest => if key = entry.1 then some entry.2 else lookup? key rest

theorem fst_mem_insertEntry {key : String} {value : α} {entries : List (String × α)}
    {entry : String × α} (h : entry ∈ insertEntry key value entries) :
    entry.1 = key ∨ entry ∈ entries := by
  induction entries with
  | nil =>
    simp only [insertEntry, List.mem_singleton] at h
    exact Or.inl (congrArg Prod.fst h)
  | cons first rest ih =>
    unfold insertEntry at h
    split at h
    · rcases List.mem_cons.mp h with rfl | h
      · exact Or.inl rfl
      · exact Or.inr h
    · split at h
      · rcases List.mem_cons.mp h with rfl | h
        · exact Or.inl rfl
        · exact Or.inr (List.mem_cons_of_mem _ h)
      · rcases List.mem_cons.mp h with rfl | h
        · exact Or.inr (List.mem_cons_self ..)
        · exact (ih h).imp_right (List.mem_cons_of_mem _)

theorem lt_of_not_lt_of_ne {a b : String} (hlt : ¬ a < b) (hne : a ≠ b) : b < a :=
  Decidable.byContradiction fun h => hne (String.le_antisymm (String.not_lt.mp h)
    (String.not_lt.mp hlt))

theorem pairwise_insertEntry {key : String} {value : α} {entries : List (String × α)}
    (h : entries.Pairwise fun x y => x.1 < y.1) :
    (insertEntry key value entries).Pairwise fun x y => x.1 < y.1 := by
  induction entries with
  | nil => simp [insertEntry]
  | cons first rest ih =>
    obtain ⟨hfirst, hrest⟩ := List.pairwise_cons.mp h
    unfold insertEntry
    split
    · rename_i hlt
      refine List.pairwise_cons.mpr ⟨fun entry hentry => ?_, h⟩
      rcases List.mem_cons.mp hentry with rfl | hentry
      · exact hlt
      · exact String.lt_trans hlt (hfirst entry hentry)
    · split
      · rename_i heq
        refine List.pairwise_cons.mpr ⟨fun entry hentry => ?_, hrest⟩
        exact heq ▸ hfirst entry hentry
      · rename_i hlt hne
        refine List.pairwise_cons.mpr ⟨fun entry hentry => ?_, ih hrest⟩
        rcases fst_mem_insertEntry hentry with heq | hentry
        · exact heq ▸ lt_of_not_lt_of_ne hlt hne
        · exact hfirst entry hentry

theorem lookup?_insertEntry (key other : String) (value : α) (entries : List (String × α)) :
    lookup? other (insertEntry key value entries) =
      if other = key then some value else lookup? other entries := by
  induction entries with
  | nil => rfl
  | cons first rest ih =>
    unfold insertEntry
    split
    · rfl
    · split
      · rename_i heq
        subst heq
        by_cases h : other = first.1 <;> simp [lookup?, h]
      · rename_i hne
        by_cases h : other = first.1
        · have hother : other ≠ key := fun heq => hne (heq.symm.trans h)
          simp [lookup?, h, Ne.symm hne]
        · simp [lookup?, h, ih]

/-- A look-up finds exactly the entries of a list with distinct keys. -/
theorem lookup?_eq_some_iff {key : String} {value : α} {entries : List (String × α)}
    (h : entries.Pairwise fun x y => x.1 < y.1) :
    lookup? key entries = some value ↔ (key, value) ∈ entries := by
  induction entries with
  | nil => simp [lookup?]
  | cons first rest ih =>
    obtain ⟨hfirst, hrest⟩ := List.pairwise_cons.mp h
    by_cases hkey : key = first.1
    · subst hkey
      simp only [lookup?, if_true, Option.some.injEq, List.mem_cons]
      constructor
      · intro hvalue
        exact Or.inl (hvalue ▸ rfl)
      · rintro (heq | hmem)
        · exact (congrArg Prod.snd heq).symm
        · exact absurd (hfirst _ hmem) (String.lt_irrefl _)
    · simp only [lookup?, if_neg hkey, List.mem_cons, ih hrest]
      constructor
      · exact Or.inr
      · rintro (heq | hmem)
        · exact absurd (congrArg Prod.fst heq) hkey
        · exact hmem

/-- Ascending lists with the same look-ups are equal. -/
theorem eq_of_lookup?_eq {xs ys : List (String × α)}
    (hx : xs.Pairwise fun x y => x.1 < y.1) (hy : ys.Pairwise fun x y => x.1 < y.1)
    (h : ∀ key, lookup? key xs = lookup? key ys) : xs = ys := by
  have hmem : ∀ entry, entry ∈ xs ↔ entry ∈ ys := by
    intro entry
    obtain ⟨key, value⟩ := entry
    rw [← lookup?_eq_some_iff hx, h, lookup?_eq_some_iff hy]
  have hnodup : ∀ {zs : List (String × α)}, zs.Pairwise (fun x y => x.1 < y.1) → zs.Nodup := by
    intro zs hz
    refine List.Pairwise.imp ?_ hz
    intro x y hlt heq
    subst heq
    exact String.lt_irrefl _ hlt
  have hperm := (List.perm_ext_iff_of_nodup (hnodup hx) (hnodup hy)).mpr hmem
  exact hperm.eq_of_pairwise
    (fun _ _ _ _ hab hba => absurd (String.lt_trans hab hba) (String.lt_irrefl _)) hx hy

/-! ## Maps -/

/-- The map without entries. -/
def empty : SortedMap α := ⟨[], List.Pairwise.nil⟩

instance : Inhabited (SortedMap α) := ⟨empty⟩

/-- The value of a key. -/
def find? (map : SortedMap α) (key : String) : Option α := lookup? key map.entries

/-- The value of a key, or `fallback` where the map has none. -/
def findD (map : SortedMap α) (key : String) (fallback : α) : α :=
  (map.find? key).getD fallback

/-- The map has a value for the key. -/
def contains (map : SortedMap α) (key : String) : Bool := (map.find? key).isSome

/-- Gives a key a value, in place of the one it had. -/
def insert (map : SortedMap α) (key : String) (value : α) : SortedMap α :=
  ⟨insertEntry key value map.entries, pairwise_insertEntry map.sorted⟩

/-- The entries, in ascending order of their keys. -/
def toList (map : SortedMap α) : List (String × α) := map.entries

/-- The keys, ascending. -/
def keys (map : SortedMap α) : List String := map.entries.map (·.1)

/-- The values, in ascending order of their keys. -/
def values (map : SortedMap α) : List α := map.entries.map (·.2)

/-- The map has no entry. -/
def isEmpty (map : SortedMap α) : Bool := map.entries.isEmpty

/-- The map of the entries of a list; of several entries with one key the last counts. -/
def ofList (entries : List (String × α)) : SortedMap α :=
  entries.foldl (fun map entry => map.insert entry.1 entry.2) empty

@[simp] theorem find?_empty (key : String) : (empty : SortedMap α).find? key = none := rfl

theorem find?_insert (map : SortedMap α) (key other : String) (value : α) :
    (map.insert key value).find? other = if other = key then some value else map.find? other :=
  lookup?_insertEntry key other value map.entries

@[simp] theorem find?_insert_self (map : SortedMap α) (key : String) (value : α) :
    (map.insert key value).find? key = some value := by
  simp [find?_insert]

theorem find?_insert_of_ne {key other : String} (h : other ≠ key) (map : SortedMap α) (value : α) :
    (map.insert key value).find? other = map.find? other := by
  simp [find?_insert, h]

theorem findD_of_find?_eq_some {map : SortedMap α} {key : String} {value : α}
    (h : map.find? key = some value) (fallback : α) : map.findD key fallback = value := by
  rw [findD, h, Option.getD_some]

theorem findD_of_find?_eq_none {map : SortedMap α} {key : String} (h : map.find? key = none)
    (fallback : α) : map.findD key fallback = fallback := by
  rw [findD, h, Option.getD_none]

theorem findD_insert (map : SortedMap α) (key other : String) (value fallback : α) :
    (map.insert key value).findD other fallback =
      if other = key then value else map.findD other fallback := by
  rw [findD, find?_insert]
  split <;> rfl

theorem find?_eq_some_iff (map : SortedMap α) (key : String) (value : α) :
    map.find? key = some value ↔ (key, value) ∈ map.toList :=
  lookup?_eq_some_iff map.sorted

/-- Maps with the same look-ups are equal. -/
theorem ext_find? {map other : SortedMap α} (h : ∀ key, map.find? key = other.find? key) :
    map = other := by
  cases map with
  | mk entries sorted =>
    cases other with
    | mk entries' sorted' =>
      have heq : entries = entries' := eq_of_lookup?_eq sorted sorted' h
      subst heq
      rfl

/-- The keys ascend. -/
theorem keys_pairwise (map : SortedMap α) : map.keys.Pairwise (· < ·) :=
  List.pairwise_map.mpr map.sorted

end SortedMap

/-! ## Sets of strings -/

/-- A set of strings. -/
abbrev KeySet := SortedMap Unit

namespace KeySet

/-- Adds a string to a set. -/
def add (set : KeySet) (key : String) : KeySet := set.insert key ()

/-- The set of the strings of a list. -/
def ofList (keys : List String) : KeySet := keys.foldl add .empty

end KeySet

end Upsert
