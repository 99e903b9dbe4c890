import Upsert.Proofs.FirstFailure
import Upsert.Proofs.Table.BaseFile
import Upsert.Proofs.Table.History
import Upsert.Proofs.Table.Reading

/-!
# Listings and scans of a table, by what was added to it

What a table gives back is settled by the additions that made it. As of an instant, a partition
shows one slice for each file group that has one by then, the last one added among the latest
(`Snapshot`); a listing gives their files in ascending order of the groups, unless the partition was
marked unavailable (`Lists`). A scan is made as of the greatest instant for which a commit was
recorded, be it one that cannot be read. It keeps the files below the limit and reads their names,
and only theirs, up to the first one that cannot be read (`Scans`).

`Lists` and `Scans` look at the list of additions alone; `list_eq_iff` and `scan_eq_iff` say that
the table gives exactly what they allow.
-/

namespace Upsert.Table

variable {changes : List Change} {partition : String} {instant : Instant}
  {bound : Option Instant} {limit : UInt64}

/-! ## The snapshot of a partition -/

/-- The slices that a partition shows as of an instant, by their file groups in ascending order: one
for each group that has a slice by then, and that the latest one, the last one added among those of
one instant. -/
structure Snapshot (changes : List Change) (partition : String) (instant : Instant)
    (shown : SortedMap FileSlice) : Prop where
  groups_iff : ∀ group, (∃ slice, shown.find? group = some slice)
    ↔ ∃ slice ∈ slicesAdded changes partition group, slice.instant ≤ instant
  shows : ∀ {group slice}, shown.find? group = some slice →
    Shows instant (slicesAdded changes partition group) slice

/-- What a table shows for a partition is the snapshot of what was added to it. -/
theorem snapshot_shown (changes : List Change) (partition : String) (instant : Instant) :
    Snapshot changes partition instant ((empty.applyAll changes).shown partition instant) where
  groups_iff group := by
    rw [find?_shown, slicesOf_empty_applyAll, ← Option.isSome_iff_exists,
      Option.isSome_iff_ne_none, ne_eq, latestSlice?_eq_none_iff]
    simp only [not_forall, not_not, exists_prop]
  shows {group slice} h := by
    rw [find?_shown, slicesOf_empty_applyAll] at h
    exact latestSlice?_eq_some_iff.mp h

/-- A partition has one snapshot as of an instant. -/
theorem Snapshot.eq_shown {shown : SortedMap FileSlice}
    (h : Snapshot changes partition instant shown) :
    shown = (empty.applyAll changes).shown partition instant := by
  have hshown := snapshot_shown changes partition instant
  refine SortedMap.ext_of_isSome (fun group => ?_) fun group slice slice' hslice hslice' => ?_
  · rw [Option.isSome_iff_exists, Option.isSome_iff_exists, h.groups_iff, hshown.groups_iff]
  · -- the slice that a group shows is the one that a listing picks
    have hpicked := latestSlice?_eq_some_iff.mpr (h.shows hslice)
    rw [latestSlice?_eq_some_iff.mpr (hshown.shows hslice'), Option.some.injEq] at hpicked
    exact hpicked.symm

/-! ## Listings -/

/-- What a listing of a partition gives as of an instant. -/
inductive Lists (changes : List Change) (partition : String) (instant : Instant) :
    Except TableError (List BaseFile) → Prop
  | unavailable (marked : .unavailable partition ∈ changes) :
    Lists changes partition instant
      (.error (.unavailable partition "partition marked unavailable"))
  | listed {shown : SortedMap FileSlice} (available : .unavailable partition ∉ changes)
      (snapshot : Snapshot changes partition instant shown) :
    Lists changes partition instant (.ok (shown.values.map (·.file)))

theorem list_eq_iff {outcome : Except TableError (List BaseFile)} :
    (empty.applyAll changes).list partition instant = outcome
      ↔ Lists changes partition instant outcome := by
  have hmarked := contains_unavailable_empty_applyAll changes partition
  rw [list_eq]
  constructor
  · rintro rfl
    split
    · rename_i hcontains
      exact .unavailable (hmarked.mp hcontains)
    · rename_i hcontains
      exact .listed (fun hmem => hcontains (hmarked.mpr hmem))
        (snapshot_shown changes partition instant)
  · rintro (hmem | ⟨havailable, hsnapshot⟩)
    · rw [if_pos (hmarked.mpr hmem)]
    · rw [if_neg fun hcontains => havailable (hmarked.mp hcontains), hsnapshot.eq_shown]

/-! ## Scans -/

/-- The instants within a bound for which a commit was recorded, readable or not. -/
def commitsWithin (changes : List Change) (bound : Option Instant) : Set Instant :=
  {instant | (∃ commit, .commit instant commit ∈ changes)
    ∧ ∀ last, bound = some last → instant ≤ last}

theorem allowed_timeline (changes : List Change) (bound : Option Instant) :
    (empty.applyAll changes).timeline.allowed bound = commitsWithin changes bound := by
  ext instant
  exact and_congr_left fun _ => mem_instants_empty_applyAll

/-- The small file of a base file has the file group and the instant that the name says. -/
def ReadsAs (base : BaseFile) (file : SmallFile) : Prop :=
  base.instant = .ok file.location.instant ∧ base.fileId = .ok file.location.fileId
    ∧ file.size = base.size

/-- What a scan of a partition gives within a bound. -/
inductive Scans (changes : List Change) (limit : UInt64) (bound : Option Instant)
    (partition : String) : Except TableError (List SmallFile) → Prop
  | uncommitted (none : commitsWithin changes bound = ∅) :
    Scans changes limit bound partition (.ok [])
  | unlisted {instant : Instant} {error : TableError}
      (latest : IsGreatest (commitsWithin changes bound) instant)
      (listed : Lists changes partition instant (.error error)) :
    Scans changes limit bound partition (.error error)
  | read {instant : Instant} {bases : List BaseFile} {files : List SmallFile}
      (latest : IsGreatest (commitsWithin changes bound) instant)
      (listed : Lists changes partition instant (.ok bases))
      (read : List.Forall₂ ReadsAs (bases.filter (·.size < limit)) files) :
    Scans changes limit bound partition (.ok files)
  | malformed {instant : Instant} {bases before after : List BaseFile} {base : BaseFile}
      (latest : IsGreatest (commitsWithin changes bound) instant)
      (listed : Lists changes partition instant (.ok bases))
      (small : bases.filter (·.size < limit) = before ++ base :: after)
      (refused : base.fileId = .error (.invalidFileName base.name))
      (first : ∀ earlier ∈ before, ∃ file, ReadsAs earlier file) :
    Scans changes limit bound partition (.error (.invalidFileName base.name))

theorem ofBaseFile_eq_ok_iff_readsAs {base : BaseFile} {file : SmallFile} :
    SmallFile.ofBaseFile base = .ok file ↔ ReadsAs base file := by
  obtain ⟨⟨instant, fileId⟩, size⟩ := file
  rw [SmallFile.ofBaseFile_eq_ok_iff, ReadsAs, BaseFile.instant, BaseFile.fileId,
    BaseFile.parsedName]
  cases FileName.parse? base.name <;> simp [Except.map, eq_comm, and_assoc]

theorem ofBaseFile_eq_error_iff_refused {base : BaseFile} {error : TableError} :
    SmallFile.ofBaseFile base = .error error
      ↔ error = .invalidFileName base.name ∧ base.fileId = .error (.invalidFileName base.name) := by
  rw [SmallFile.ofBaseFile_eq_error_iff, ← FileName.parse?_eq_none_iff, BaseFile.fileId,
    BaseFile.parsedName]
  cases FileName.parse? base.name <;> simp [Except.map]

theorem latest?_timeline_eq_none_iff :
    (empty.applyAll changes).timeline.latest? bound = none ↔ commitsWithin changes bound = ∅ := by
  rw [Timeline.latest?_eq_none_iff_allowed, allowed_timeline]

theorem latest?_timeline_eq_some_iff :
    (empty.applyAll changes).timeline.latest? bound = some instant
      ↔ IsGreatest (commitsWithin changes bound) instant := by
  rw [← allowed_timeline]
  exact Timeline.latest?_eq_some_iff_of_ascending
    ((empty.applyAll changes).commits.keys_pairwise.imp le_of_lt)

theorem scan_eq_iff {outcome : Except TableError (List SmallFile)} :
    SmallFile.scan (empty.applyAll changes) (empty.applyAll changes).timeline limit bound partition
        = outcome
      ↔ Scans changes limit bound partition outcome := by
  constructor
  · rintro rfl
    cases hlatest : (empty.applyAll changes).timeline.latest? bound with
    | none =>
      rw [scan_of_latest?_eq_none hlatest]
      exact .uncommitted (latest?_timeline_eq_none_iff.mp hlatest)
    | some instant =>
      have hgreatest := latest?_timeline_eq_some_iff.mp hlatest
      cases hlist : (empty.applyAll changes).list partition instant with
      | error error =>
        rw [scan_of_list_eq_error hlatest hlist]
        exact .unlisted hgreatest (list_eq_iff.mp hlist)
      | ok bases =>
        rw [scan_of_list_eq_ok hlatest hlist]
        have hlisted := list_eq_iff.mp hlist
        cases hread : (bases.filter fun base => base.size < limit).mapM SmallFile.ofBaseFile with
        | ok files =>
          simp only [mapM_eq_ok_iff, ofBaseFile_eq_ok_iff_readsAs] at hread
          exact .read hgreatest hlisted hread
        | error error =>
          simp only [mapM_eq_error_iff, ofBaseFile_eq_error_iff_refused,
            ofBaseFile_eq_ok_iff_readsAs] at hread
          obtain ⟨before, base, after, hsmall, ⟨rfl, hrefused⟩, hfirst⟩ := hread
          exact .malformed hgreatest hlisted hsmall hrefused hfirst
  · rintro (hnone | ⟨hgreatest, hlisted⟩ | ⟨hgreatest, hlisted, hread⟩
      | ⟨hgreatest, hlisted, hsmall, hrefused, hfirst⟩)
    · exact scan_of_latest?_eq_none (latest?_timeline_eq_none_iff.mpr hnone) ..
    · exact scan_of_list_eq_error (latest?_timeline_eq_some_iff.mpr hgreatest)
        (list_eq_iff.mpr hlisted)
    · rw [scan_of_list_eq_ok (latest?_timeline_eq_some_iff.mpr hgreatest)
        (list_eq_iff.mpr hlisted)]
      simpa only [mapM_eq_ok_iff, ofBaseFile_eq_ok_iff_readsAs] using hread
    · rw [scan_of_list_eq_ok (latest?_timeline_eq_some_iff.mpr hgreatest)
        (list_eq_iff.mpr hlisted)]
      simp only [mapM_eq_error_iff, ofBaseFile_eq_error_iff_refused, ofBaseFile_eq_ok_iff_readsAs]
      exact ⟨_, _, _, hsmall, ⟨rfl, hrefused⟩, hfirst⟩

/-- A listing and a scan of a table give what the additions to it allow, and nothing else. -/
theorem snapshot_readings (changes : List Change) (partition : String) :
    (∀ instant outcome, (empty.applyAll changes).list partition instant = outcome
        ↔ Lists changes partition instant outcome)
      ∧ ∀ limit bound outcome,
        SmallFile.scan (empty.applyAll changes) (empty.applyAll changes).timeline limit bound
            partition = outcome
          ↔ Scans changes limit bound partition outcome :=
  ⟨fun _ _ => list_eq_iff, fun _ _ _ => scan_eq_iff⟩

/-- A table whose file was written with the first of three commits and again with the last. -/
def threeCommits : List Change :=
  [.commit "001" (.completed ⟨1000, 100⟩), .commit "002" (.completed ⟨500, 50⟩),
    .commit "003" (.completed ⟨500, 50⟩), .slice "p" "a" ⟨"001", ⟨"a_0_001.parquet", 10⟩⟩,
    .slice "p" "a" ⟨"003", ⟨"a_0_003.parquet", 20⟩⟩]

/-- Up to the second commit the file is the one that the first commit wrote. -/
theorem snapshot_readings_below_last_commit :
    let table := empty.applyAll threeCommits
    SmallFile.scan table table.timeline 100 (some "002") "p" = .ok [⟨⟨"001", "a"⟩, 10⟩]
      ∧ Scans threeCommits 100 (some "002") "p" (.ok [⟨⟨"001", "a"⟩, 10⟩])
      ∧ ¬ Scans threeCommits 100 (some "002") "p" (.ok [⟨⟨"003", "a"⟩, 20⟩])
      ∧ Scans threeCommits 100 none "p" (.ok [⟨⟨"003", "a"⟩, 20⟩]) := by
  intro table
  have hscan : SmallFile.scan table table.timeline 100 (some "002") "p"
      = .ok [⟨⟨"001", "a"⟩, 10⟩] := by decide +kernel
  obtain ⟨-, hscans⟩ := snapshot_readings threeCommits "p"
  refine ⟨hscan, (hscans _ _ _).mp hscan, fun hlast => ?_, (hscans _ _ _).mp (by decide +kernel)⟩
  have hother := hscan.symm.trans ((hscans _ _ _).mpr hlast)
  exact absurd hother (by decide)

/-- Of two slices of one instant the last one added is listed, and a file that is not below the
limit may have any name. -/
example :
    let table := empty.applyAll [.commit "001" (.corrupt "bad header"),
      .slice "p" "a" ⟨"001", ⟨"old", 10⟩⟩, .slice "p" "a" ⟨"001", ⟨"a_0_001.parquet", 20⟩⟩,
      .slice "p" "b" ⟨"001", ⟨"nonsense", 90⟩⟩]
    table.list "p" "001" = .ok [⟨"a_0_001.parquet", 20⟩, ⟨"nonsense", 90⟩]
      ∧ SmallFile.scan table table.timeline 90 none "p" = .ok [⟨⟨"001", "a"⟩, 20⟩]
      ∧ SmallFile.scan table table.timeline 91 none "p" = .error (.invalidFileName "nonsense") := by
  decide +kernel

end Upsert.Table
