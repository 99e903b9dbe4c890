import Upsert.Proofs.Table.History

/-!
# What a table shows as of an instant

A listing goes through the slices of a file group once and keeps the best one so far. What comes out
is the slice that the group `Shows`: it is not past the instant, none of the others that are not
past it is later, and of several slices of the same instant it is the last one added
(`latestSlice?_eq_some_iff`). A listing gives the files of the slices that the groups of a partition
show (`list_eq`).
-/

namespace Upsert.Table

variable {bound : Instant} {slices : List FileSlice} {slice last : FileSlice}

/-! ## A file group -/

/-- The file group with these slices shows the slice as of an instant. Slices past the instant do
not count, and neither do earlier ones; of several with one instant the last one added counts. -/
def Shows (bound : Instant) (slices : List FileSlice) (slice : FileSlice) : Prop :=
  ∃ before after, slices = before ++ slice :: after ∧ slice.instant ≤ bound
    ∧ (∀ other ∈ before, other.instant ≤ bound → other.instant ≤ slice.instant)
    ∧ ∀ other ∈ after, other.instant ≤ bound → other.instant < slice.instant

theorem Shows.mem (h : Shows bound slices slice) : slice ∈ slices := by
  obtain ⟨before, after, rfl, -⟩ := h
  simp

theorem Shows.within (h : Shows bound slices slice) : slice.instant ≤ bound := by
  obtain ⟨_, _, -, hwithin, -⟩ := h
  exact hwithin

/-- No slice that is not past the instant is later than the one that is shown. -/
theorem Shows.le (h : Shows bound slices slice) {other : FileSlice} (hmem : other ∈ slices)
    (hother : other.instant ≤ bound) : other.instant ≤ slice.instant := by
  obtain ⟨before, after, rfl, -, hbefore, hafter⟩ := h
  rcases List.mem_append.mp hmem with hmem | hmem
  · exact hbefore other hmem hother
  · rcases List.mem_cons.mp hmem with rfl | hmem
    · exact le_rfl
    · exact (hafter other hmem hother).le

/-- A new slice is shown where none of the old ones is later, and otherwise leaves everything as it
was. -/
theorem shows_concat_iff :
    Shows bound (slices ++ [last]) slice
      ↔ (last.instant ≤ bound ∧ (∀ other ∈ slices, other.instant ≤ bound →
            other.instant ≤ last.instant) ∧ slice = last)
        ∨ Shows bound slices slice ∧ (last.instant ≤ bound → last.instant < slice.instant) := by
  constructor
  · rintro ⟨before, after, heq, hwithin, hbefore, hafter⟩
    rcases List.eq_nil_or_concat after with rfl | ⟨after, final, rfl⟩
    · obtain ⟨rfl, hlast⟩ := List.append_inj' heq rfl
      cases hlast
      exact Or.inl ⟨hwithin, hbefore, rfl⟩
    · rw [List.concat_eq_append, ← List.cons_append, ← List.append_assoc] at heq
      rw [List.concat_eq_append] at hafter
      obtain ⟨rfl, hlast⟩ := List.append_inj' heq rfl
      cases hlast
      refine Or.inr ⟨⟨before, after, rfl, hwithin, hbefore, fun other hother => ?_⟩, ?_⟩
      · exact hafter other (List.mem_append_left _ hother)
      · exact hafter last (by simp)
  · rintro (⟨hwithin, hbefore, rfl⟩ | ⟨⟨before, after, rfl, hwithin, hbefore, hafter⟩, hlast⟩)
    · exact ⟨slices, [], rfl, hwithin, hbefore, by simp⟩
    · refine ⟨before, after ++ [last], by simp, hwithin, hbefore, fun other hother => ?_⟩
      rcases List.mem_append.mp hother with hother | hother
      · exact hafter other hother
      · rw [List.mem_singleton] at hother
        exact hother ▸ hlast

theorem latestSlice?_concat (bound : Instant) (slices : List FileSlice) (last : FileSlice) :
    latestSlice? bound (slices ++ [last]) = laterSlice bound (latestSlice? bound slices) last :=
  List.foldl_concat ..

/-- A group shows nothing where all of its slices are past the instant. -/
theorem latestSlice?_eq_none_iff :
    latestSlice? bound slices = none ↔ ∀ slice ∈ slices, ¬ slice.instant ≤ bound := by
  induction slices using List.reverseRecOn with
  | nil => simp [latestSlice?]
  | append_singleton slices last ih =>
    simp only [latestSlice?_concat, List.forall_mem_append, List.forall_mem_singleton, ← ih]
    by_cases hwithin : last.instant ≤ bound
    · cases latestSlice? bound slices <;> simp [laterSlice, hwithin]
      split <;> simp
    · simp [laterSlice, hwithin]

/-- The slice that a listing picks for a group is the one that the group shows. -/
theorem latestSlice?_eq_some_iff :
    latestSlice? bound slices = some slice ↔ Shows bound slices slice := by
  induction slices using List.reverseRecOn generalizing slice with
  | nil => simp [latestSlice?, Shows]
  | append_singleton slices last ih =>
    rw [latestSlice?_concat, shows_concat_iff, ← ih]
    unfold laterSlice
    by_cases hwithin : last.instant ≤ bound
    · rw [if_pos hwithin]
      cases hbest : latestSlice? bound slices with
      | none =>
        have hold : ∀ other ∈ slices, other.instant ≤ bound → other.instant ≤ last.instant :=
          fun other hother hle => absurd hle (latestSlice?_eq_none_iff.mp hbest other hother)
        constructor
        · intro heq
          cases heq
          exact Or.inl ⟨hwithin, hold, rfl⟩
        · rintro (⟨-, -, rfl⟩ | ⟨heq, -⟩)
          · rfl
          · cases heq
      | some best =>
        -- none of the old slices is later than the new one if the best of them is not
        have hshows := ih.mp hbest
        have hold : (∀ other ∈ slices, other.instant ≤ bound → other.instant ≤ last.instant)
            ↔ best.instant ≤ last.instant :=
          ⟨fun hall => hall best hshows.mem hshows.within,
            fun hle other hother hother' => (hshows.le hother hother').trans hle⟩
        simp only [hwithin, hold, true_and, true_implies, Option.some.injEq]
        by_cases hle : best.instant ≤ last.instant
        · rw [if_pos hle]
          constructor
          · intro heq
            cases heq
            exact Or.inl ⟨hle, rfl⟩
          · rintro (⟨-, rfl⟩ | ⟨rfl, hlt⟩)
            · rfl
            · exact absurd hle (not_le_of_gt hlt)
        · rw [if_neg hle]
          constructor
          · intro heq
            cases heq
            exact Or.inr ⟨rfl, lt_of_not_ge hle⟩
          · rintro (⟨hle', -⟩ | ⟨rfl, -⟩)
            · exact absurd hle' hle
            · rfl
    · simp [hwithin]

/-! ## A partition -/

/-- The slices that a table shows for a partition as of an instant. -/
def shown (table : Table) (partition : String) (instant : Instant) : SortedMap FileSlice :=
  (table.groups partition).filterMap (latestSlice? instant)

theorem find?_shown (table : Table) (partition : String) (instant : Instant) (group : String) :
    (table.shown partition instant).find? group
      = latestSlice? instant (table.slicesOf partition group) := by
  rw [shown, SortedMap.find?_filterMap, slicesOf, SortedMap.findD]
  cases (table.groups partition).find? group <;> rfl

/-- A listing gives the files that a partition shows, in the order of their groups. -/
theorem list_eq (table : Table) (partition : String) (instant : Instant) :
    table.list partition instant
      = if table.unavailable.contains partition then
          .error (.unavailable partition "partition marked unavailable")
        else .ok ((table.shown partition instant).values.map (·.file)) := by
  rw [list, checkAvailable, shown, SortedMap.values_filterMap, List.map_filterMap]
  split <;> rfl

theorem mem_of_list_eq_ok {table : Table} {partition : String} {instant : Instant}
    {files : List BaseFile} (h : table.list partition instant = .ok files) (file : BaseFile) :
    file ∈ files
      ↔ ∃ group slices slice, (table.groups partition).find? group = some slices
        ∧ Shows instant slices slice ∧ slice.file = file := by
  rw [list_eq] at h
  split at h
  · cases h
  · cases h
    simp only [List.mem_map, SortedMap.mem_values, shown, SortedMap.find?_filterMap,
      Option.bind_eq_some_iff, latestSlice?_eq_some_iff]
    constructor
    · rintro ⟨slice, ⟨group, slices, hfind, hshows⟩, hfile⟩
      exact ⟨group, slices, slice, hfind, hshows, hfile⟩
    · rintro ⟨group, slices, slice, hfind, hshows, hfile⟩
      exact ⟨slice, ⟨group, slices, hfind, hshows⟩, hfile⟩

end Upsert.Table
