import Mathlib
import Upsert.SortedMap

/-!
# The first failure

Reading one thing after the other ends with the first failure. `failure?` looks at the failure of an
outcome alone, and so turns a walk that may fail into a search for the first item that does
(`failure?_mapM`). Along ascending keys the first item found is the one with the least key
(`findSome?_eq_some_iff_of_sorted`).
-/

namespace Upsert

variable {α β ε : Type}

/-- The failure of an outcome. -/
def failure? : Except ε α → Option ε
  | .ok _ => none
  | .error failure => some failure

@[simp] theorem failure?_ok (value : α) : failure? (.ok value : Except ε α) = none := rfl

@[simp] theorem failure?_error (failure : ε) :
    failure? (.error failure : Except ε α) = some failure := rfl

theorem failure?_eq_some_iff {outcome : Except ε α} {failure : ε} :
    failure? outcome = some failure ↔ outcome = .error failure := by
  cases outcome <;> simp

theorem failure?_eq_none_iff {outcome : Except ε α} :
    failure? outcome = none ↔ ∃ value, outcome = .ok value := by
  cases outcome <;> simp

theorem map_eq_ok_iff {outcome : Except ε α} {f : α → β} {value : β} :
    outcome.map f = .ok value ↔ ∃ before, outcome = .ok before ∧ f before = value := by
  cases outcome <;> simp [Except.map]

theorem map_eq_error_iff {outcome : Except ε α} {f : α → β} {failure : ε} :
    outcome.map f = .error failure ↔ outcome = .error failure := by
  cases outcome <;> simp [Except.map]

/-- Of two steps the first decides, where the failure of the second does not depend on what the
first gives. -/
theorem failure?_bind {outcome : Except ε α} {next : α → Except ε β} {after : Option ε}
    (h : ∀ value, failure? (next value) = after) :
    failure? (outcome >>= next) = (failure? outcome).or after := by
  cases outcome with
  | error failure => rfl
  | ok value => exact h value

/-- Reading a list fails as the first of its items that fails. -/
theorem failure?_mapM (f : α → Except ε β) (items : List α) :
    failure? (items.mapM f) = items.findSome? fun item => failure? (f item) := by
  induction items with
  | nil => rfl
  | cons item items ih =>
    rw [List.mapM_cons, List.findSome?_cons]
    cases f item with
    | error failure => rfl
    | ok value =>
      rw [failure?_ok, ← ih]
      cases items.mapM f <;> rfl

/-- Reading a list succeeds where every item can be read. -/
theorem mapM_eq_ok_iff {f : α → Except ε β} {items : List α} {values : List β} :
    items.mapM f = .ok values
      ↔ List.Forall₂ (fun item value => f item = .ok value) items values := by
  induction items generalizing values with
  | nil => simp [pure, Except.pure, eq_comm]
  | cons item items ih =>
    rw [List.mapM_cons, List.forall₂_cons_left_iff]
    simp only [← ih]
    cases f item with
    | error failure => simp [bind, Except.bind]
    | ok value =>
      cases items.mapM f with
      | error failure => simp [bind, Except.bind]
      | ok rest => simp [bind, Except.bind, pure, Except.pure, eq_comm]

/-- Where reading a list fails, an item cannot be read and all before it can. -/
theorem mapM_eq_error_iff {f : α → Except ε β} {items : List α} {failure : ε} :
    items.mapM f = .error failure
      ↔ ∃ before item after, items = before ++ item :: after ∧ f item = .error failure
        ∧ ∀ earlier ∈ before, ∃ value, f earlier = .ok value := by
  rw [← failure?_eq_some_iff, failure?_mapM, List.findSome?_eq_some_iff]
  simp only [failure?_eq_some_iff, failure?_eq_none_iff]

/-- What is read off a list is read off one of its items. -/
theorem mem_of_mapM_eq_ok {f : α → Except ε β} {items : List α} {values : List β}
    (h : items.mapM f = .ok values) (value : β) :
    value ∈ values ↔ ∃ item ∈ items, f item = .ok value := by
  induction mapM_eq_ok_iff.mp h with
  | nil => simp
  | cons hitem hrest ih =>
    rw [List.mem_cons, List.exists_mem_cons_iff, hitem, Except.ok.injEq,
      ih (mapM_eq_ok_iff.mpr hrest), eq_comm]

/-- The first item found in an ascending list is the one with the least key. -/
theorem findSome?_eq_some_iff_of_sorted {key : α → String} {items : List α}
    (hsorted : items.Pairwise fun x y => key x < key y) {f : α → Option β} {found : β} :
    items.findSome? f = some found
      ↔ ∃ item ∈ items, f item = some found
        ∧ ∀ earlier ∈ items, key earlier < key item → f earlier = none := by
  rw [List.findSome?_eq_some_iff]
  constructor
  · rintro ⟨before, item, after, rfl, hitem, hbefore⟩
    refine ⟨item, by simp, hitem, fun earlier hearlier hlt => ?_⟩
    rw [List.pairwise_append, List.pairwise_cons] at hsorted
    rcases List.mem_append.mp hearlier with hmem | hmem
    · exact hbefore earlier hmem
    · -- neither the item nor one after it is before the item
      rcases List.mem_cons.mp hmem with rfl | hmem
      · exact absurd hlt (String.lt_irrefl _)
      · exact absurd (String.lt_trans hlt (hsorted.2.1.1 earlier hmem)) (String.lt_irrefl _)
  · rintro ⟨item, hmem, hitem, hleast⟩
    obtain ⟨before, after, rfl⟩ := List.append_of_mem hmem
    rw [List.pairwise_append] at hsorted
    refine ⟨before, item, after, rfl, hitem, fun earlier hearlier => ?_⟩
    exact hleast earlier (List.mem_append_left _ hearlier)
      (hsorted.2.2 earlier hearlier item List.mem_cons_self)

end Upsert
