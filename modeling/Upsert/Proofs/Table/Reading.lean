import Upsert.Proofs.FileName
import Upsert.Proofs.FirstFailure
import Upsert.Proofs.SortedMap
import Upsert.Proofs.Table.Snapshot
import Upsert.Proofs.Timeline
import Upsert.SmallFile

/-!
# What is read of a partition, and why it cannot be read

A partition is read twice: for its small files and for what is under pending clustering. Both fail
where the partition is unavailable. The small files are read only as of a commit, and they fail too
where a file group shows a small file with a malformed name, the first group that does so deciding
(`Unreadable`). The failure of either reading is this one (`failure?_scan`, `failure?_pending`).
What is read are the small files that the file groups show (`mem_scan_iff`).
-/

namespace Upsert

theorem SmallFile.ofBaseFile_eq_error_iff {file : BaseFile} {error : TableError} :
    ofBaseFile file = .error error
      ↔ error = .invalidFileName file.name ∧ ∀ parts : FileName, ¬ parts.Spells file.name := by
  rw [← FileName.parse?_eq_none_iff]
  unfold ofBaseFile BaseFile.parsedName
  cases FileName.parse? file.name with
  | none => simp [bind, Except.bind, eq_comm]
  | some name => simp [bind, Except.bind, pure, Except.pure]

theorem SmallFile.ofBaseFile_eq_ok_iff {file : BaseFile} {small : SmallFile} :
    ofBaseFile file = .ok small
      ↔ ∃ name, FileName.parse? file.name = some name
        ∧ small = ⟨⟨name.instant, name.fileId⟩, file.size⟩ := by
  unfold ofBaseFile BaseFile.parsedName
  cases FileName.parse? file.name with
  | none => simp [bind, Except.bind]
  | some name => simp [bind, Except.bind, pure, Except.pure, eq_comm]

namespace Table

/-! ## What can go wrong -/

/-- The file group with these slices shows a small file with a malformed name. -/
def ShowsMalformed (limit : UInt64) (instant : Instant) (slices : List FileSlice)
    (name : String) : Prop :=
  ∃ slice, Shows instant slices slice ∧ slice.file.size < limit ∧ slice.file.name = name
    ∧ ∀ parts : FileName, ¬ parts.Spells name

/-- A partition cannot be read as of a snapshot, and why. Without a snapshot no file is looked
at. -/
inductive Unreadable (view : Table) (limit : UInt64) (snapshot : Option Instant)
    (partition : String) : TableError → Prop
  | unavailable (marked : view.unavailable.contains partition = true) :
    Unreadable view limit snapshot partition
      (.unavailable partition "partition marked unavailable")
  | malformed {instant : Instant} {group name : String} {slices : List FileSlice}
      (available : view.unavailable.contains partition = false)
      (pinned : snapshot = some instant)
      (found : (view.groups partition).find? group = some slices)
      (shown : ShowsMalformed limit instant slices name)
      (first : ∀ earlier < group, ∀ others name,
        (view.groups partition).find? earlier = some others →
          ¬ ShowsMalformed limit instant others name) :
    Unreadable view limit snapshot partition (.invalidFileName name)

/-! ## The failure as a value -/

/-- The failure of reading the small file that a file group shows. -/
def malformed? (limit : UInt64) (instant : Instant) (slices : List FileSlice) : Option TableError :=
  (latestSlice? instant slices).bind fun slice =>
    if slice.file.size < limit then failure? (SmallFile.ofBaseFile slice.file) else none

/-- The failure of reading a partition. -/
def unreadable? (view : Table) (limit : UInt64) (snapshot : Option Instant) (partition : String) :
    Option TableError :=
  (failure? (view.checkAvailable partition)).or <|
    snapshot.bind fun instant =>
      (view.groups partition).values.findSome? (malformed? limit instant)

variable {view : Table} {limit : UInt64} {partition : String}

theorem malformed?_eq_some_iff {instant : Instant} {slices : List FileSlice} {error : TableError} :
    malformed? limit instant slices = some error
      ↔ ∃ name, ShowsMalformed limit instant slices name ∧ error = .invalidFileName name := by
  simp only [malformed?, Option.bind_eq_some_iff, latestSlice?_eq_some_iff,
    Option.ite_none_right_eq_some, failure?_eq_some_iff, SmallFile.ofBaseFile_eq_error_iff]
  constructor
  · rintro ⟨slice, hshows, hsmall, rfl, hname⟩
    exact ⟨_, ⟨slice, hshows, hsmall, rfl, hname⟩, rfl⟩
  · rintro ⟨_, ⟨slice, hshows, hsmall, rfl, hname⟩, rfl⟩
    exact ⟨slice, hshows, hsmall, rfl, hname⟩

theorem malformed?_eq_none_iff {instant : Instant} {slices : List FileSlice} :
    malformed? limit instant slices = none
      ↔ ∀ name, ¬ ShowsMalformed limit instant slices name := by
  rw [Option.eq_none_iff_forall_ne_some]
  simp only [ne_eq, malformed?_eq_some_iff]
  exact ⟨fun hall name hshows => hall _ ⟨name, hshows, rfl⟩,
    fun hall error ⟨name, hshows, _⟩ => hall name hshows⟩

theorem failure?_checkAvailable (view : Table) (partition : String) :
    failure? (view.checkAvailable partition)
      = if view.unavailable.contains partition then
          some (.unavailable partition "partition marked unavailable")
        else none := by
  rw [checkAvailable]
  split <;> rfl

/-- The first file group that shows a malformed name decides. -/
theorem findSome?_malformed?_eq_some_iff {groups : SortedMap (List FileSlice)} {instant : Instant}
    {error : TableError} :
    groups.values.findSome? (malformed? limit instant) = some error
      ↔ ∃ group slices name, groups.find? group = some slices
        ∧ ShowsMalformed limit instant slices name
        ∧ (∀ earlier < group, ∀ others name, groups.find? earlier = some others →
            ¬ ShowsMalformed limit instant others name)
        ∧ error = .invalidFileName name := by
  rw [SortedMap.values, List.findSome?_map, findSome?_eq_some_iff_of_sorted groups.sorted]
  simp only [Function.comp_apply, malformed?_eq_some_iff, malformed?_eq_none_iff,
    SortedMap.find?_eq_some_iff, SortedMap.toList]
  constructor
  · rintro ⟨⟨group, slices⟩, hmem, ⟨name, hshows, rfl⟩, hfirst⟩
    exact ⟨group, slices, name, hmem, hshows,
      fun earlier hlt others name hother => hfirst (earlier, others) hother hlt name, rfl⟩
  · rintro ⟨group, slices, name, hmem, hshows, hfirst, rfl⟩
    exact ⟨(group, slices), hmem, ⟨name, hshows, rfl⟩,
      fun other hother hlt name => hfirst other.1 hlt other.2 name hother⟩

theorem unreadable?_eq_some_iff {snapshot : Option Instant} {error : TableError} :
    view.unreadable? limit snapshot partition = some error
      ↔ Unreadable view limit snapshot partition error := by
  rw [unreadable?, failure?_checkAvailable]
  cases havailable : view.unavailable.contains partition with
  | true =>
    rw [if_pos rfl, Option.some_or, Option.some.injEq]
    constructor
    · rintro rfl
      exact .unavailable havailable
    · rintro (_ | ⟨available, -, -, -, -⟩)
      · rfl
      · simp [havailable] at available
  | false =>
    rw [if_neg (by simp), Option.none_or, Option.bind_eq_some_iff]
    simp only [findSome?_malformed?_eq_some_iff]
    constructor
    · rintro ⟨instant, rfl, group, slices, name, hfind, hshows, hfirst, rfl⟩
      exact .malformed havailable rfl hfind hshows hfirst
    · rintro (marked | ⟨-, rfl, hfind, hshows, hfirst⟩)
      · simp [havailable] at marked
      · exact ⟨_, rfl, _, _, _, hfind, hshows, hfirst, rfl⟩

/-- A partition can be read as of a snapshot where it is available and no file group shows a
malformed name. -/
theorem unreadable?_eq_none_iff {instant : Instant} :
    view.unreadable? limit (some instant) partition = none
      ↔ view.unavailable.contains partition = false
        ∧ ∀ group slices name, (view.groups partition).find? group = some slices →
          ¬ ShowsMalformed limit instant slices name := by
  rw [unreadable?, Option.or_eq_none_iff, failure?_checkAvailable, ite_eq_right_iff,
    Option.bind_some, List.findSome?_eq_none_iff]
  simp only [reduceCtorEq, imp_false, Bool.not_eq_true, malformed?_eq_none_iff,
    SortedMap.mem_values]
  refine and_congr_right fun _ => ⟨fun h group slices name hfind => ?_, ?_⟩
  · exact h slices ⟨group, hfind⟩ name
  · rintro h slices ⟨group, hfind⟩ name
    exact h group slices name hfind

/-! ## The two readings -/

theorem failure?_pending (view : Table) (limit : UInt64) (partition : String) :
    failure? (view.pending partition) = view.unreadable? limit none partition :=
  failure?_bind fun _ => rfl

/-- Reading small files off a listing fails as the first group that shows a malformed name. -/
theorem failure?_mapM_ofBaseFile (limit : UInt64) (instant : Instant)
    (groups : List (List FileSlice)) :
    failure? (((groups.filterMap fun slices => (latestSlice? instant slices).map (·.file)).filter
        fun file => file.size < limit).mapM SmallFile.ofBaseFile)
      = groups.findSome? (malformed? limit instant) := by
  rw [failure?_mapM]
  induction groups with
  | nil => rfl
  | cons slices groups ih =>
    rw [List.filterMap_cons, List.findSome?_cons, malformed?]
    cases latestSlice? instant slices with
    | none => exact ih
    | some slice =>
      rw [Option.map_some, Option.bind_some, List.filter_cons]
      split
      · rename_i hsmall
        rw [if_pos (by simpa using hsmall), List.findSome?_cons]
        cases failure? (SmallFile.ofBaseFile slice.file) with
        | none => exact ih
        | some error => rfl
      · rename_i hlarge
        rw [if_neg (by simpa using hlarge)]
        exact ih

theorem failure?_scan {timeline : Timeline} {bound : Option Instant} {instant : Instant}
    (hlatest : timeline.latest? bound = some instant) (view : Table) (limit : UInt64)
    (partition : String) :
    failure? (SmallFile.scan view timeline limit bound partition)
      = view.unreadable? limit (some instant) partition := by
  rw [SmallFile.scan, hlatest]
  simp only [list, bind_assoc, pure_bind]
  rw [failure?_bind fun _ => failure?_mapM_ofBaseFile ..]
  rfl

theorem exists_scan_iff {timeline : Timeline} {bound : Option Instant} {instant : Instant}
    (hlatest : timeline.latest? bound = some instant) :
    (∃ files, SmallFile.scan view timeline limit bound partition = .ok files)
      ↔ view.unavailable.contains partition = false
        ∧ ∀ group slices name, (view.groups partition).find? group = some slices →
          ¬ ShowsMalformed limit instant slices name := by
  rw [← failure?_eq_none_iff, failure?_scan hlatest, unreadable?_eq_none_iff]

/-- A partition that cannot be listed cannot be scanned. -/
theorem scan_of_list_eq_error {timeline : Timeline} {bound : Option Instant} {instant : Instant}
    (hlatest : timeline.latest? bound = some instant) {error : TableError}
    (hlist : view.list partition instant = .error error) :
    SmallFile.scan view timeline limit bound partition = .error error := by
  rw [SmallFile.scan, hlatest]
  dsimp only
  rw [hlist]
  rfl

/-- The files below the limit are read in the order of the listing. -/
theorem scan_of_list_eq_ok {timeline : Timeline} {bound : Option Instant} {instant : Instant}
    (hlatest : timeline.latest? bound = some instant) {bases : List BaseFile}
    (hlist : view.list partition instant = .ok bases) :
    SmallFile.scan view timeline limit bound partition
      = (bases.filter fun base => base.size < limit).mapM SmallFile.ofBaseFile := by
  rw [SmallFile.scan, hlatest]
  dsimp only
  rw [hlist]
  rfl

/-- The small files are those that the file groups show below the limit. -/
theorem mem_scan_iff {timeline : Timeline} {bound : Option Instant} {instant : Instant}
    (hlatest : timeline.latest? bound = some instant) {files : List SmallFile}
    (hscan : SmallFile.scan view timeline limit bound partition = .ok files) (file : SmallFile) :
    file ∈ files
      ↔ ∃ group slices slice, (view.groups partition).find? group = some slices
        ∧ Shows instant slices slice ∧ slice.file.size < limit
        ∧ SmallFile.ofBaseFile slice.file = .ok file := by
  cases hlist : view.list partition instant with
  | error failure =>
    rw [scan_of_list_eq_error hlatest hlist] at hscan
    cases hscan
  | ok bases =>
    rw [scan_of_list_eq_ok hlatest hlist] at hscan
    rw [mem_of_mapM_eq_ok hscan]
    simp only [List.mem_filter, mem_of_list_eq_ok hlist, decide_eq_true_eq]
    constructor
    · rintro ⟨_, ⟨⟨group, slices, slice, hfind, hshows, rfl⟩, hsmall⟩, hfile⟩
      exact ⟨group, slices, slice, hfind, hshows, hsmall, hfile⟩
    · rintro ⟨group, slices, slice, hfind, hshows, hsmall, hfile⟩
      exact ⟨slice.file, ⟨⟨group, slices, slice, hfind, hshows, rfl⟩, hsmall⟩, hfile⟩

/-- Without a commit nothing is read. -/
theorem scan_of_latest?_eq_none {timeline : Timeline} {bound : Option Instant}
    (hlatest : timeline.latest? bound = none) (view : Table) (limit : UInt64)
    (partition : String) : SmallFile.scan view timeline limit bound partition = .ok [] := by
  rw [SmallFile.scan, hlatest]

/-- What can be read as of a snapshot can be listed. -/
theorem unreadable?_none_eq_none {snapshot : Option Instant}
    (h : view.unreadable? limit snapshot partition = none) :
    view.unreadable? limit none partition = none := by
  rw [unreadable?, Option.or_eq_none_iff] at h
  rw [unreadable?, h.1]
  rfl

end Table

end Upsert
