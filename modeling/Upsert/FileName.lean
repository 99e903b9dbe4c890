/-! # Names of base files

A base file is named `FILE_TOKEN_INSTANT.EXTENSION`. A name is read from the left: the file id ends
at the first underscore, the write token at the second, and the instant at the first full stop after
that, or at the end of the name. So the write token may hold full stops, the instant may hold
underscores, and the extension may be missing; the file id and the instant must not be empty.
-/

namespace Upsert

/-- The characters before and after the first `c`, where there is one. -/
def splitFirst? (c : Char) : List Char → Option (List Char × List Char)
  | [] => none
  | x :: rest =>
    if x = c then some ([], rest)
    else (splitFirst? c rest).map fun parts => (x :: parts.1, parts.2)

theorem splitFirst?_eq_some_iff {c : Char} {text before after : List Char} :
    splitFirst? c text = some (before, after) ↔ c ∉ before ∧ text = before ++ c :: after := by
  induction text generalizing before with
  | nil => simp [splitFirst?]
  | cons x rest ih =>
    by_cases hx : x = c
    · subst hx
      cases before with
      | nil => simp [splitFirst?, eq_comm]
      | cons y before =>
        simp only [splitFirst?, if_true, Option.some.injEq, Prod.mk.injEq, List.cons_append,
          List.cons.injEq, List.mem_cons, not_or]
        constructor
        · rintro ⟨h, _⟩
          cases h
        · rintro ⟨⟨h, _⟩, h', _⟩
          exact absurd h' h
    · simp only [splitFirst?, if_neg hx, Option.map_eq_some_iff]
      constructor
      · rintro ⟨⟨before', after'⟩, h, heq⟩
        cases heq
        obtain ⟨hmem, htext⟩ := ih.mp h
        refine ⟨?_, by rw [htext, List.cons_append]⟩
        simp only [List.mem_cons, not_or]
        exact ⟨Ne.symm hx, hmem⟩
      · rintro ⟨hmem, htext⟩
        cases before with
        | nil =>
          simp only [List.nil_append, List.cons.injEq] at htext
          exact absurd htext.1 hx
        | cons y before =>
          simp only [List.cons_append, List.cons.injEq] at htext
          obtain ⟨rfl, htext⟩ := htext
          simp only [List.mem_cons, not_or] at hmem
          exact ⟨(before, after), ih.mpr ⟨hmem.2, htext⟩, rfl⟩

/-- The parts of a base file's name that mean something to the table. -/
structure FileName where
  fileId : String
  token : String
  instant : String
deriving DecidableEq

namespace FileName

/-- The name in full, with an extension. -/
def render (name : FileName) (extension : String) : String :=
  name.fileId ++ "_" ++ name.token ++ "_" ++ name.instant ++ "." ++ extension

/-- Reads a name; a name that is not of the form above is refused. -/
def parse? (name : String) : Option FileName := do
  let (fileId, rest) ← splitFirst? '_' name.toList
  let (token, rest) ← splitFirst? '_' rest
  let instant := rest.takeWhile fun c => c ≠ '.'
  if fileId.isEmpty || instant.isEmpty then none
  else some ⟨String.ofList fileId, String.ofList token, String.ofList instant⟩

end FileName

end Upsert
