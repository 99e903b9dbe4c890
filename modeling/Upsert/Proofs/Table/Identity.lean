import Upsert.Proofs.FileName
import Upsert.Proofs.Plan.Routing
import Upsert.Proofs.Table.History
import Upsert.Proofs.Table.Reading

/-!
# When a file keeps its identity in a table

A base file goes into a table under its file group and instant, and is known from then on by its
name alone. It comes back from a scan as the same file of the same instant exactly where the file
group and the instant can be told apart in the name (`identifies_iff`): the name of a file group
with an underscore is read as that of another file group. A scan that fails gives back no file at
all, so none of the other small files may have a malformed name.
-/

namespace Upsert

variable {partition group fileId : String}

/-! ## The bucket of a file -/

namespace Plan

/-- The records located at a file and the inserts of a partition share an update bucket of the
file. -/
def SharesBucket (plan : Plan) (partition fileId : String) : Prop :=
  ∃ bucket, (∃ owner, plan.bucket? bucket = some (.update fileId owner))
    ∧ (∀ key instant, plan.route key (some ⟨instant, fileId⟩) = .ok bucket)
    ∧ ∃ table, plan.insertTable? partition = some table
      ∧ ∃ entry ∈ table.entries, entry.bucket = bucket

/-- The inserts that top up a file go where the records located at it go. -/
theorem sharesBucket_of_mem_topUps {sizing : Sizing} {fresh : ℕ → String} {profile : Profile}
    {smallFiles : SortedMap (List SmallFile)} {pending : SortedMap KeySet} {average : UInt64}
    {plan : Plan} (hplan : build sizing fresh profile smallFiles pending average = .ok plan)
    {file : SmallFile} {records : ℕ}
    (h : (file, records) ∈ (profile.demand smallFiles pending partition).topUps sizing average) :
    plan.SharesBucket partition file.fileId := by
  obtain ⟨table, htable, entry, hentry, hupdate⟩ :=
    exists_entry_of_mem_toppedUpFiles hplan (List.mem_map.mpr ⟨_, h, rfl⟩)
  refine ⟨entry.bucket, (consistent_of_build hplan).bucket_of_update hupdate, ?_, table, htable,
    entry, hentry, rfl⟩
  intro key instant
  rw [route_eq_routeHashed]
  exact routeHashed_of_updateBucket? hupdate (keyHash key.key) key.partition

end Plan

/-! ## The file as it comes back -/

/-- The parts of the name that a file gets by its file group and instant. -/
def SmallFile.nameParts (file : SmallFile) : FileName :=
  ⟨file.fileId, "1-0-1", file.location.instant⟩

/-- Only files whose file group and instant can be told apart come back from a scan. -/
theorem SmallFile.wellFormed_of_ofBaseFile {base : BaseFile} {file : SmallFile}
    (h : ofBaseFile base = .ok file) : file.nameParts.WellFormed := by
  obtain ⟨name, hname, rfl⟩ := ofBaseFile_eq_ok_iff.mp h
  have hwell := (FileName.parse?_eq_some_iff.mp hname).1
  have htoken : '_' ∉ "1-0-1".toList := by decide
  exact ⟨hwell.fileId_ne, hwell.fileId_notMem, htoken, hwell.instant_ne, hwell.instant_notMem⟩

namespace Table

/-- A slice whose file is named after its file group and instant. -/
def Change.Named : Change → Prop
  | .slice partition group added =>
    .slice partition group added = baseFile partition group added.instant added.file.size
  | .commit .. | .pendingClustering .. | .unavailable .. => True

instance : DecidablePred Change.Named
  | .slice partition group added => inferInstanceAs <| Decidable <|
      .slice partition group added
        = Change.baseFile partition group added.instant added.file.size
  | .commit .. => inferInstanceAs (Decidable True)
  | .pendingClustering .. => inferInstanceAs (Decidable True)
  | .unavailable .. => inferInstanceAs (Decidable True)

/-- A list of additions writes a file to a partition, as the latest of its file group as of the
latest commit and with no other of its instant beside it. The partition is available, and all files
are named after their file groups and instants. -/
structure Written (changes : List Change) (commit : Instant) (partition : String)
    (file : SmallFile) : Prop where
  written : .baseFile partition file.fileId file.location.instant file.size ∈ changes
  named : ∀ change ∈ changes, change.Named
  available : (empty.applyAll changes).unavailable.contains partition = false
  pinned : (empty.applyAll changes).timeline.latest? none = some commit
  within : file.location.instant ≤ commit
  latest : ∀ slice ∈ (empty.applyAll changes).slicesOf partition file.fileId,
    slice.instant ≤ commit → slice.instant ≤ file.location.instant
  single : ∀ slice ∈ (empty.applyAll changes).slicesOf partition file.fileId,
    slice.instant = file.location.instant → slice.file.size = file.size

/-- A scan as of the latest commit gives back the file. In every plan that is made with the outcome
of the scan, the inserts that top up the file share a bucket with the records located at it. -/
def Identifies (table : Table) (limit : UInt64) (partition : String) (file : SmallFile) : Prop :=
  ∃ files, SmallFile.scan table table.timeline limit none partition = .ok files ∧ file ∈ files
    ∧ ∀ sizing fresh profile smallFiles pending average plan,
      smallFiles.find? partition = some files →
      Plan.build sizing fresh profile smallFiles pending average = .ok plan →
      (∃ records, (file, records)
        ∈ (profile.demand smallFiles pending partition).topUps sizing average) →
      plan.SharesBucket partition file.fileId

variable {changes : List Change} {commit : Instant} {limit : UInt64} {file : SmallFile}

/-- The file group of the file shows a slice with the file's name and size. -/
theorem Written.shows (h : Written changes commit partition file) :
    ∃ slices slice,
      ((empty.applyAll changes).groups partition).find? file.fileId = some slices
        ∧ Shows commit slices slice
        ∧ slice.file = ⟨file.nameParts.render "parquet", file.size⟩ := by
  obtain ⟨slices, hfind, hmem⟩ := mem_slicesOf_iff.mp (mem_slicesOf_empty_applyAll.mpr h.written)
  cases hlatest : latestSlice? commit slices with
  | none => exact absurd h.within (latestSlice?_eq_none_iff.mp hlatest _ hmem)
  | some slice =>
    have hshows := latestSlice?_eq_some_iff.mp hlatest
    have hslice : slice ∈ (empty.applyAll changes).slicesOf partition file.fileId :=
      mem_slicesOf_iff.mpr ⟨slices, hfind, hshows.mem⟩
    -- the slice that is shown is neither later nor earlier than the file
    have hinstant : slice.instant = file.location.instant :=
      le_antisymm (h.latest slice hslice hshows.within) (hshows.le hmem h.within)
    refine ⟨slices, slice, hfind, hshows, ?_⟩
    have hnamed := h.named _ (mem_slicesOf_empty_applyAll.mp hslice)
    rw [Change.Named, Change.baseFile, hinstant, h.single slice hslice hinstant,
      Change.slice.injEq] at hnamed
    exact congrArg FileSlice.file hnamed.2.2

/-- A small file that is written to a table keeps its identity exactly where its file group and its
instant can be told apart in its name, and no file group shows a small file with a malformed
name. -/
theorem identifies_iff (h : Written changes commit partition file) (hsmall : file.size < limit) :
    (empty.applyAll changes).Identifies limit partition file
      ↔ file.nameParts.WellFormed
        ∧ ∀ group slices name,
          ((empty.applyAll changes).groups partition).find? group = some slices →
          ¬ ShowsMalformed limit commit slices name := by
  constructor
  · rintro ⟨files, hscan, hmem, -⟩
    obtain ⟨-, hreadable⟩ := (exists_scan_iff h.pinned).mp ⟨files, hscan⟩
    obtain ⟨_, _, _, -, -, -, hfile⟩ := (mem_scan_iff h.pinned hscan file).mp hmem
    exact ⟨SmallFile.wellFormed_of_ofBaseFile hfile, hreadable⟩
  · rintro ⟨hwell, hreadable⟩
    obtain ⟨files, hscan⟩ := (exists_scan_iff h.pinned).mpr ⟨h.available, hreadable⟩
    obtain ⟨slices, slice, hfind, hshows, hslice⟩ := h.shows
    have hfile : SmallFile.ofBaseFile slice.file = .ok file := by
      refine SmallFile.ofBaseFile_eq_ok_iff.mpr ⟨file.nameParts, ?_, ?_⟩
      · rw [hslice]
        exact (FileName.parse?_render_iff _ _).mpr hwell
      · rw [hslice]
        rfl
    refine ⟨files, hscan, ?_, ?_⟩
    · refine (mem_scan_iff h.pinned hscan file).mpr ⟨_, slices, slice, hfind, hshows, ?_, hfile⟩
      rw [hslice]
      exact hsmall
    · rintro sizing fresh profile smallFiles pending average plan - hplan ⟨records, htopUp⟩
      exact Plan.sharesBucket_of_mem_topUps hplan htopUp

/-- A file with three slices, of which the commit wrote the second, and beside it a file whose id
holds an underscore. -/
def rewrittenFile : List Change :=
  [.baseFile "p" "f-1" "000" 5, .baseFile "p" "f-1" "001" 10, .baseFile "p" "f-1" "002" 7,
    .baseFile "p" "a_b" "001" 20, .commit "001" (.completed ⟨30, 3⟩)]

theorem identifies_rewrittenFile :
    Written rewrittenFile "001" "p" ⟨⟨"001", "f-1"⟩, 10⟩ ∧ (10 : UInt64) < 100
      ∧ (empty.applyAll rewrittenFile).Identifies 100 "p" ⟨⟨"001", "f-1"⟩, 10⟩ := by
  have hwritten : Written rewrittenFile "001" "p" ⟨⟨"001", "f-1"⟩, 10⟩ := by
    constructor <;> decide +kernel
  have hscan : ∃ files, SmallFile.scan (empty.applyAll rewrittenFile)
      (empty.applyAll rewrittenFile).timeline 100 none "p" = .ok files :=
    ⟨[⟨⟨"1-0-1_001", "a"⟩, 20⟩, ⟨⟨"001", "f-1"⟩, 10⟩], by decide +kernel⟩
  refine ⟨hwritten, by decide, (identifies_iff hwritten (by decide)).mpr ⟨?_, ?_⟩⟩
  · decide +kernel
  · exact ((exists_scan_iff hwritten.pinned).mp hscan).2

/-- A commit and its only file, whose id holds an underscore. -/
def underscoredFile : List Change :=
  [.baseFile "p" "a_b" "001" 10, .commit "001" (.completed ⟨0, 0⟩)]

/-- A file whose id holds an underscore comes back as another file, written at another instant. The
record located at the file and the insert that should top it up are sent to different buckets. -/
theorem id_with_underscore_lost :
    Written underscoredFile "001" "p" ⟨⟨"001", "a_b"⟩, 10⟩ ∧ (10 : UInt64) < 100
      ∧ SmallFile.scan (empty.applyAll underscoredFile) (empty.applyAll underscoredFile).timeline
          100 none "p" = .ok [⟨⟨"1-0-1_001", "a"⟩, 10⟩]
      ∧ ¬ (empty.applyAll underscoredFile).Identifies 100 "p" ⟨⟨"001", "a_b"⟩, 10⟩
      ∧ ∃ profile plan,
        Profile.ofRecords [⟨⟨"k1", "p"⟩, some ⟨"001", "a_b"⟩⟩, ⟨⟨"k2", "p"⟩, none⟩] = .ok profile
        ∧ Plan.build ⟨100, 10, false⟩ (fun _ => "new") profile
            (.insert .empty "p" [⟨⟨"1-0-1_001", "a"⟩, 10⟩]) .empty 10 = .ok plan
        ∧ plan.route ⟨"k1", "p"⟩ (some ⟨"001", "a_b"⟩) = .ok 0
        ∧ plan.route ⟨"k2", "p"⟩ none = .ok 1 ∧ plan.bucket? 1 = some (.update "a" "p") := by
  have hscan : SmallFile.scan (empty.applyAll underscoredFile)
      (empty.applyAll underscoredFile).timeline 100 none "p"
        = .ok [⟨⟨"1-0-1_001", "a"⟩, 10⟩] := by decide +kernel
  refine ⟨by constructor <;> decide +kernel, by decide, hscan, ?_, ?_⟩
  · rintro ⟨files, hfiles, hmem, -⟩
    cases hscan.symm.trans hfiles
    revert hmem
    decide
  · refine ⟨⟨.insert .empty "p" ⟨1, .insert .empty "a_b" 1⟩⟩, _, by decide +kernel,
      Plan.build_eq (by decide), ?_, ?_, ?_⟩ <;> decide +kernel

end Table

end Upsert
