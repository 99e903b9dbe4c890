import Upsert.Proofs.FileName
import Upsert.Proofs.FirstFailure
import Upsert.Table.BaseFile

/-!
# What the name of a base file says

The file group and the instant of a base file are read off its name. A name that is not made of a
file id, a write token and an instant is refused as a whole, with the name itself as the reason, so
that neither of the two is read off it.
-/

namespace Upsert.BaseFile

variable {file : BaseFile} {error : TableError}

theorem parsedName_eq_ok_iff {parts : FileName} :
    file.parsedName = .ok parts ↔ parts.Spells file.name := by
  rw [← FileName.parse?_eq_some_iff, parsedName]
  cases FileName.parse? file.name <;> simp

theorem parsedName_eq_error_iff :
    file.parsedName = .error error
      ↔ (∀ parts : FileName, ¬ parts.Spells file.name) ∧ error = .invalidFileName file.name := by
  rw [← FileName.parse?_eq_none_iff, parsedName]
  cases FileName.parse? file.name <;> simp [eq_comm]

theorem fileId_eq_ok_iff {fileId : String} :
    file.fileId = .ok fileId
      ↔ ∃ parts : FileName, parts.Spells file.name ∧ parts.fileId = fileId := by
  rw [BaseFile.fileId, map_eq_ok_iff]
  simp only [parsedName_eq_ok_iff]

theorem instant_eq_ok_iff {instant : Instant} :
    file.instant = .ok instant
      ↔ ∃ parts : FileName, parts.Spells file.name ∧ parts.instant = instant := by
  rw [BaseFile.instant, map_eq_ok_iff]
  simp only [parsedName_eq_ok_iff]

/-- The name of a base file is read as the parts that it is made of: a file id and a write token
without an underscore and an instant without a full stop, of which the file id and the instant are
not empty. Every other name is refused, for the file group as for the instant. The parts that come
back from a name that is built from them are those that keep to this. -/
theorem name_reading (name : String) (size : UInt64) :
    (∀ parts, (BaseFile.mk name size).parsedName = .ok parts ↔ parts.Spells name)
      ∧ (∀ fileId, (BaseFile.mk name size).fileId = .ok fileId
        ↔ ∃ parts : FileName, parts.Spells name ∧ parts.fileId = fileId)
      ∧ (∀ instant, (BaseFile.mk name size).instant = .ok instant
        ↔ ∃ parts : FileName, parts.Spells name ∧ parts.instant = instant)
      ∧ (∀ error, (BaseFile.mk name size).fileId = .error error
        ↔ (∀ parts : FileName, ¬ parts.Spells name) ∧ error = .invalidFileName name)
      ∧ (∀ error, (BaseFile.mk name size).instant = .error error
        ↔ (∀ parts : FileName, ¬ parts.Spells name) ∧ error = .invalidFileName name)
      ∧ ∀ (parts : FileName) extension,
        (BaseFile.mk (parts.render extension) size).parsedName = .ok parts ↔ parts.WellFormed := by
  refine ⟨fun _ => parsedName_eq_ok_iff, fun _ => fileId_eq_ok_iff, fun _ => instant_eq_ok_iff,
    fun _ => map_eq_error_iff.trans parsedName_eq_error_iff,
    fun _ => map_eq_error_iff.trans parsedName_eq_error_iff, fun parts extension => ?_⟩
  rw [parsedName_eq_ok_iff]
  exact and_iff_left (Or.inr ⟨extension, rfl⟩)

/-- The write token may be empty and hold full stops, and the instant may hold underscores. -/
example : (BaseFile.mk "f__0_0.1_x.parquet" 10).parsedName = .ok ⟨"f", "", "0_0"⟩
    ∧ (BaseFile.mk "f_.._i" 10).parsedName = .ok ⟨"f", "..", "i"⟩ := by decide +kernel

end Upsert.BaseFile
