import Mathlib
import Upsert.Proofs.SortedMap
import Upsert.Table.Basic

/-!
# What a table holds after a list of additions

A table is made by additions, and each of its readings looks at one kind of them. A file group holds
the slices that were added to it, in order (`slicesOf_empty_applyAll`); an instant has the commit
that was recorded last for it (`find?_commits_empty_applyAll`); a partition is unavailable once it
was marked so (`contains_unavailable_empty_applyAll`). The other additions make no difference.
-/

namespace Upsert.Table

variable {table : Table} {change : Change} {changes : List Change} {partition group : String}
  {instant : Instant} {slice : FileSlice}

/-! ## What the additions say -/

/-- The slice that an addition puts into a file group. -/
def Change.sliceIn? (partition group : String) : Change → Option FileSlice
  | .slice owner other added => if owner = partition ∧ other = group then some added else none
  | .commit .. | .pendingClustering .. | .unavailable .. => none

/-- The commit that an addition records for an instant. -/
def Change.commitAt? (instant : Instant) : Change → Option Commit
  | .commit other recorded => if other = instant then some recorded else none
  | .slice .. | .pendingClustering .. | .unavailable .. => none

/-- The instant for which an addition records a commit. -/
def Change.commitInstant? : Change → Option Instant
  | .commit instant _ => some instant
  | .slice .. | .pendingClustering .. | .unavailable .. => none

/-- The slices that are added to a file group, in order. -/
def slicesAdded (changes : List Change) (partition group : String) : List FileSlice :=
  changes.filterMap (·.sliceIn? partition group)

/-- The commit that is recorded last for an instant. -/
def lastCommit? (changes : List Change) (instant : Instant) : Option Commit :=
  changes.reverse.findSome? (·.commitAt? instant)

theorem Change.sliceIn?_eq_some_iff :
    change.sliceIn? partition group = some slice ↔ change = .slice partition group slice := by
  cases change with
  | slice owner other added =>
    rw [sliceIn?, Option.ite_none_right_eq_some, Option.some.injEq, Change.slice.injEq,
      and_assoc]
  | commit => simp [sliceIn?]
  | pendingClustering => simp [sliceIn?]
  | unavailable => simp [sliceIn?]

theorem Change.commitAt?_eq_some_iff {commit : Commit} :
    change.commitAt? instant = some commit ↔ change = .commit instant commit := by
  cases change with
  | commit other recorded =>
    rw [commitAt?, Option.ite_none_right_eq_some, Option.some.injEq, Change.commit.injEq]
  | slice => simp [commitAt?]
  | pendingClustering => simp [commitAt?]
  | unavailable => simp [commitAt?]

theorem mem_slicesAdded :
    slice ∈ slicesAdded changes partition group ↔ .slice partition group slice ∈ changes := by
  simp [slicesAdded, List.mem_filterMap, Change.sliceIn?_eq_some_iff]

/-- An instant has a last commit where a commit was recorded for it. -/
theorem isSome_lastCommit?_iff :
    (lastCommit? changes instant).isSome ↔ ∃ commit, .commit instant commit ∈ changes := by
  rw [lastCommit?, List.findSome?_isSome_iff]
  simp only [List.mem_reverse, Option.isSome_iff_exists, Change.commitAt?_eq_some_iff]
  exact ⟨fun ⟨change, hmem, commit, heq⟩ => ⟨commit, heq ▸ hmem⟩,
    fun ⟨commit, hmem⟩ => ⟨_, hmem, commit, rfl⟩⟩

theorem mem_of_lastCommit?_eq_some {commit : Commit}
    (h : lastCommit? changes instant = some commit) : .commit instant commit ∈ changes := by
  obtain ⟨change, hmem, hcommit⟩ := List.exists_of_findSome?_eq_some h
  rw [← Change.commitAt?_eq_some_iff.mp hcommit]
  exact List.mem_reverse.mp hmem

theorem commit_unique_of_nodup (h : (changes.filterMap Change.commitInstant?).Nodup)
    {commit other : Commit} (hmem : .commit instant commit ∈ changes)
    (hother : .commit instant other ∈ changes) : other = commit := by
  obtain ⟨before, after, rfl⟩ := List.append_of_mem hmem
  have hcommit : (Change.commit instant commit).commitInstant? = some instant := rfl
  rw [List.filterMap_append, List.filterMap_cons_some hcommit, List.nodup_middle,
    ← List.filterMap_append, List.nodup_cons, List.mem_filterMap] at h
  rw [List.mem_append, List.mem_cons, or_left_comm, ← List.mem_append] at hother
  rcases hother with heq | hrest
  · exact (Change.commit.inj heq).2
  · exact absurd ⟨_, hrest, rfl⟩ h.1

/-- Where no instant is recorded twice, the last commit of an instant is the only one. -/
theorem lastCommit?_eq_some_iff_of_nodup (h : (changes.filterMap Change.commitInstant?).Nodup)
    {commit : Commit} :
    lastCommit? changes instant = some commit ↔ .commit instant commit ∈ changes := by
  refine ⟨mem_of_lastCommit?_eq_some, fun hmem => ?_⟩
  obtain ⟨last, hlast⟩ := Option.isSome_iff_exists.mp (isSome_lastCommit?_iff.mpr ⟨commit, hmem⟩)
  rw [hlast, commit_unique_of_nodup h hmem (mem_of_lastCommit?_eq_some hlast)]

/-- Where no instant is recorded twice, the order of the additions makes no difference. -/
theorem lastCommit?_of_perm {other : List Change} (hperm : changes.Perm other)
    (h : (changes.filterMap Change.commitInstant?).Nodup) (instant : Instant) :
    lastCommit? changes instant = lastCommit? other instant := by
  have hother := (hperm.filterMap Change.commitInstant?).nodup_iff.mp h
  ext commit
  rw [lastCommit?_eq_some_iff_of_nodup h, lastCommit?_eq_some_iff_of_nodup hother, hperm.mem_iff]

/-! ## File groups -/

/-- The slices of a file group, in the order in which they were added. -/
def slicesOf (table : Table) (partition group : String) : List FileSlice :=
  (table.groups partition).findD group []

theorem mem_slicesOf_iff :
    slice ∈ table.slicesOf partition group
      ↔ ∃ slices, (table.groups partition).find? group = some slices ∧ slice ∈ slices := by
  rw [slicesOf, SortedMap.findD]
  cases (table.groups partition).find? group <;> simp

theorem slicesOf_apply (table : Table) (change : Change) (partition group : String) :
    (table.apply change).slicesOf partition group
      = table.slicesOf partition group ++ (change.sliceIn? partition group).toList := by
  cases change with
  | slice owner other added =>
    rw [slicesOf, groups, apply, SortedMap.findD_insert, Change.sliceIn?]
    by_cases howner : owner = partition
    · subst howner
      rw [if_pos rfl, SortedMap.findD_insert]
      by_cases hother : other = group
      · subst hother
        simp [slicesOf]
      · simp [slicesOf, hother, Ne.symm hother]
    · rw [if_neg (Ne.symm howner), if_neg fun h => howner h.1, Option.toList_none,
        List.append_nil]
      rfl
  | commit => simp [apply, slicesOf, groups, Change.sliceIn?]
  | pendingClustering => simp [apply, slicesOf, groups, Change.sliceIn?]
  | unavailable => simp [apply, slicesOf, groups, Change.sliceIn?]

theorem slicesOf_applyAll (table : Table) (changes : List Change) (partition group : String) :
    (table.applyAll changes).slicesOf partition group
      = table.slicesOf partition group ++ slicesAdded changes partition group := by
  induction changes generalizing table with
  | nil => simp [applyAll, slicesAdded]
  | cons change changes ih =>
    have hrest := ih (table.apply change)
    rw [slicesOf_apply, List.append_assoc] at hrest
    rw [slicesAdded, List.filterMap_cons]
    cases hslice : change.sliceIn? partition group with
    | none =>
      rw [hslice] at hrest
      exact hrest
    | some added =>
      rw [hslice] at hrest
      exact hrest

/-- A file group holds the slices that were added to it. -/
theorem slicesOf_empty_applyAll (changes : List Change) (partition group : String) :
    (empty.applyAll changes).slicesOf partition group = slicesAdded changes partition group :=
  slicesOf_applyAll empty changes partition group

theorem mem_slicesOf_empty_applyAll :
    slice ∈ (empty.applyAll changes).slicesOf partition group
      ↔ .slice partition group slice ∈ changes := by
  rw [slicesOf_empty_applyAll, mem_slicesAdded]

/-! ## Commits -/

theorem find?_commits_apply (table : Table) (change : Change) (instant : Instant) :
    (table.apply change).commits.find? instant
      = (change.commitAt? instant).or (table.commits.find? instant) := by
  cases change with
  | commit other commit =>
    rw [apply, SortedMap.find?_insert, Change.commitAt?]
    by_cases hother : other = instant
    · rw [if_pos hother.symm, if_pos hother, Option.some_or]
    · rw [if_neg (Ne.symm hother), if_neg hother, Option.none_or]
  | slice => rfl
  | pendingClustering => rfl
  | unavailable => rfl

theorem find?_commits_applyAll (table : Table) (changes : List Change) (instant : Instant) :
    (table.applyAll changes).commits.find? instant
      = (lastCommit? changes instant).or (table.commits.find? instant) := by
  induction changes generalizing table with
  | nil => rfl
  | cons change changes ih =>
    have hrest := ih (table.apply change)
    rw [find?_commits_apply, ← Option.or_assoc] at hrest
    rw [lastCommit?, List.reverse_cons, List.findSome?_append, List.findSome?_singleton]
    exact hrest

/-- An instant has the commit that was recorded last for it. -/
theorem find?_commits_empty_applyAll (changes : List Change) (instant : Instant) :
    (empty.applyAll changes).commits.find? instant = lastCommit? changes instant :=
  (find?_commits_applyAll empty changes instant).trans Option.or_none

/-- The instants of a table are those for which a commit was recorded. -/
theorem mem_instants_empty_applyAll :
    instant ∈ (empty.applyAll changes).timeline.instants
      ↔ ∃ commit, .commit instant commit ∈ changes := by
  rw [← isSome_lastCommit?_iff, ← find?_commits_empty_applyAll, ← SortedMap.mem_keys]
  rfl

/-! ## Unavailable partitions -/

theorem contains_unavailable_apply (table : Table) (change : Change) (partition : String) :
    (table.apply change).unavailable.contains partition = true
      ↔ table.unavailable.contains partition = true ∨ change = .unavailable partition := by
  cases change with
  | unavailable marked =>
    rw [apply, KeySet.add, SortedMap.contains, SortedMap.contains, SortedMap.find?_insert,
      Change.unavailable.injEq]
    by_cases hmarked : partition = marked
    · simp [hmarked]
    · simp [hmarked, Ne.symm hmarked]
  | slice => simp [apply]
  | commit => simp [apply]
  | pendingClustering => simp [apply]

theorem contains_unavailable_applyAll (table : Table) (changes : List Change)
    (partition : String) :
    (table.applyAll changes).unavailable.contains partition = true
      ↔ table.unavailable.contains partition = true ∨ .unavailable partition ∈ changes := by
  induction changes generalizing table with
  | nil => simp [applyAll]
  | cons change changes ih =>
    have hrest := ih (table.apply change)
    rw [contains_unavailable_apply, or_assoc, @eq_comm _ change, ← List.mem_cons] at hrest
    exact hrest

/-- A partition is unavailable once it was marked so. -/
theorem contains_unavailable_empty_applyAll (changes : List Change) (partition : String) :
    (empty.applyAll changes).unavailable.contains partition = true
      ↔ .unavailable partition ∈ changes := by
  rw [contains_unavailable_applyAll]
  exact or_iff_right Bool.false_ne_true

end Upsert.Table
