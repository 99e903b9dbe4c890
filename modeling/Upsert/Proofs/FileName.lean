import Mathlib
import Upsert.FileName

/-!
# The grammar of file names

A name is read off from the left, and so its parts are what the name is made of, with nothing left
open: the file id and the write token end at an underscore and hold none, the instant ends at a full
stop and holds none (`parse?_eq_some_iff`). Parts that keep to this are `WellFormed`, and are the
ones that come back from the name they are made into (`parse?_render_iff`).
-/

namespace Upsert

/-- What stands before the first `c`, or everything where there is none. -/
theorem takeWhile_ne_eq_iff {c : Char} {text before : List Char} :
    (text.takeWhile fun x => x ≠ c) = before
      ↔ c ∉ before ∧ (text = before ∨ ∃ after, text = before ++ c :: after) := by
  constructor
  · rintro rfl
    refine ⟨fun hmem => by simpa using List.mem_takeWhile_imp hmem, ?_⟩
    have happend : text.takeWhile (fun x => x ≠ c) ++ text.dropWhile (fun x => x ≠ c) = text :=
      List.takeWhile_append_dropWhile
    cases hrest : text.dropWhile fun x => x ≠ c with
    | nil =>
      rw [hrest, List.append_nil] at happend
      exact Or.inl happend.symm
    | cons x after =>
      -- the text goes on with the first character that is not passed over
      have hx : x = c := by
        have := List.head?_dropWhile_not (fun x => decide (x ≠ c)) text
        rw [hrest] at this
        simpa using this
      rw [hrest, hx] at happend
      exact Or.inr ⟨after, happend.symm⟩
  · have hall : c ∉ before → ∀ x ∈ before, decide (x ≠ c) = true := by
      intro hmem x hx
      exact decide_eq_true fun heq => hmem (heq ▸ hx)
    rintro ⟨hmem, rfl | ⟨after, rfl⟩⟩
    · exact List.takeWhile_eq_self_iff.mpr (hall hmem)
    · rw [List.takeWhile_append_of_pos (hall hmem), List.takeWhile_cons_of_neg (by simp),
        List.append_nil]

namespace FileName

variable {name : String} {parts : FileName}

/-- The parts can be told apart in a name. -/
structure WellFormed (parts : FileName) : Prop where
  fileId_ne : parts.fileId ≠ ""
  fileId_notMem : '_' ∉ parts.fileId.toList
  token_notMem : '_' ∉ parts.token.toList
  instant_ne : parts.instant ≠ ""
  instant_notMem : '.' ∉ parts.instant.toList

/-- The name in full, without an extension. -/
def stem (parts : FileName) : String :=
  parts.fileId ++ "_" ++ parts.token ++ "_" ++ parts.instant

theorem toList_stem (parts : FileName) :
    parts.stem.toList
      = parts.fileId.toList ++ '_' :: (parts.token.toList ++ '_' :: parts.instant.toList) := by
  simp [stem]

theorem toList_render (parts : FileName) (extension : String) :
    (parts.render extension).toList
      = parts.fileId.toList ++ '_' :: (parts.token.toList ++ '_' ::
          (parts.instant.toList ++ '.' :: extension.toList)) := by
  simp [render]

/-- A name is made of parts that can be told apart in it, with or without an extension. -/
def Spells (parts : FileName) (name : String) : Prop :=
  parts.WellFormed ∧ (name = parts.stem ∨ ∃ extension, name = parts.render extension)

/-- A name is made of the parts where its instant is followed by nothing or by a full stop. -/
theorem name_eq_iff :
    (name = parts.stem ∨ ∃ extension, name = parts.render extension)
      ↔ ∃ rest, name.toList
          = parts.fileId.toList ++ '_' :: (parts.token.toList ++ '_' :: rest)
        ∧ (rest = parts.instant.toList ∨ ∃ after, rest = parts.instant.toList ++ '.' :: after) := by
  constructor
  · rintro (rfl | ⟨extension, rfl⟩)
    · exact ⟨_, parts.toList_stem, Or.inl rfl⟩
    · exact ⟨_, parts.toList_render extension, Or.inr ⟨_, rfl⟩⟩
  · rintro ⟨_, hname, rfl | ⟨after, rfl⟩⟩
    · exact Or.inl (String.toList_inj.mp (hname.trans parts.toList_stem.symm))
    · refine Or.inr ⟨String.ofList after, String.toList_inj.mp ?_⟩
      rw [hname, toList_render, String.toList_ofList]

/-- A name is read as the parts that spell it. -/
theorem parse?_eq_some_iff : parse? name = some parts ↔ parts.Spells name := by
  obtain ⟨fileId, token, instant⟩ := parts
  simp only [Spells, parse?, bind, Option.bind_eq_some_iff, Prod.exists, splitFirst?_eq_some_iff,
    Option.ite_none_left_eq_some, Bool.or_eq_true, not_or, Option.some.injEq, mk.injEq,
    name_eq_iff, List.isEmpty_iff]
  constructor
  · rintro ⟨fileId, _, ⟨hfileId, hname⟩, token, rest, ⟨htoken, rfl⟩, ⟨hne, hne'⟩, rfl, rfl, rfl⟩
    have hinstant := takeWhile_ne_eq_iff.mp (Eq.refl (rest.takeWhile fun x => x ≠ '.'))
    refine ⟨⟨?_, ?_, ?_, ?_, ?_⟩, rest, ?_, ?_⟩
    · simpa using hne
    · simpa using hfileId
    · simpa using htoken
    · simpa using hne'
    · simpa only [String.toList_ofList] using hinstant.1
    · simpa using hname
    · simpa only [String.toList_ofList] using hinstant.2
  · rintro ⟨⟨hne, hfileId, htoken, hne', hinstant⟩, rest, hname, hrest⟩
    have htake := takeWhile_ne_eq_iff.mpr ⟨hinstant, hrest⟩
    refine ⟨_, _, ⟨hfileId, hname⟩, _, rest, ⟨htoken, rfl⟩, ⟨?_, ?_⟩, ?_, ?_, ?_⟩
    · simpa using hne
    · rw [htake]
      simpa using hne'
    · exact String.ofList_toList
    · exact String.ofList_toList
    · rw [htake, String.ofList_toList]

theorem parse?_eq_none_iff : parse? name = none ↔ ∀ parts : FileName, ¬ parts.Spells name := by
  rw [Option.eq_none_iff_forall_ne_some]
  exact forall_congr' fun parts => not_congr parse?_eq_some_iff

/-- The parts that come back from a name that is made of them are the well-formed ones. -/
theorem parse?_render_iff (parts : FileName) (extension : String) :
    parse? (parts.render extension) = some parts ↔ parts.WellFormed := by
  rw [parse?_eq_some_iff, Spells, and_iff_left (Or.inr ⟨extension, rfl⟩)]

instance (parts : FileName) : Decidable parts.WellFormed :=
  decidable_of_iff (parse? (parts.render "") = some parts) (parse?_render_iff parts "")

end FileName

end Upsert
