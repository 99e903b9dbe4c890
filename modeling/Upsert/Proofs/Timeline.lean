import Mathlib
import Upsert.Timeline

/-!
# Pinning a timeline to a snapshot

The latest commit that is not past a bound is found from the end of the timeline, which need not be
ascending. The commits that were passed over are past the bound, and so they are past the commit
that is found: asking again with that commit as the bound gives the commit itself. On an ascending
timeline it is the greatest commit that is not past the bound, and a later bound finds no earlier
one.
-/

namespace Upsert.Timeline

variable {timeline : Timeline}

/-- Going through a descending list, the first match is the greatest one. -/
theorem le_of_first_match {α β : Type} [Preorder β] (key : α → β) {p : α → Prop}
    {before after : List α} {first other : α}
    (hdescending : (before ++ first :: after).Pairwise fun a b => key b ≤ key a)
    (hpassed : ∀ a ∈ before, ¬ p a) (hmem : other ∈ before ++ first :: after) (hother : p other) :
    key other ≤ key first := by
  rcases List.mem_append.mp hmem with hbefore | hrest
  · exact absurd hother (hpassed other hbefore)
  · rcases List.mem_cons.mp hrest with rfl | hafter
    · exact le_rfl
    · exact (List.pairwise_cons.mp (List.pairwise_append.mp hdescending).2.1).1 other hafter

theorem within_of_latest? {bound : Option Instant} {instant : Instant}
    (h : timeline.latest? bound = some instant) : within bound instant = true :=
  List.find?_some h

/-- Within a bound is what does not pass it. -/
theorem within_iff {bound : Option Instant} {instant : Instant} :
    within bound instant = true ↔ ∀ last, bound = some last → instant ≤ last := by
  cases bound <;> simp [within]

/-- What is not past an allowed instant is allowed too. -/
theorem within_of_le {bound : Option Instant} {instant earlier : Instant}
    (h : within bound instant = true) (hle : earlier ≤ instant) : within bound earlier = true :=
  within_iff.mpr fun last hlast => hle.trans (within_iff.mp h last hlast)

theorem within_some_iff {bound instant : Instant} :
    within (some bound) instant = true ↔ instant ≤ bound := by
  rw [within_iff]
  exact ⟨fun hle => hle bound rfl, fun hle last hlast => Option.some.inj hlast ▸ hle⟩

theorem latest?_eq_none_iff {bound : Option Instant} :
    timeline.latest? bound = none
      ↔ ∀ instant ∈ timeline.instants, ¬ within bound instant = true := by
  rw [latest?, List.find?_eq_none]
  simp only [List.mem_reverse]

/-- The commits that are not past a bound. -/
def allowed (timeline : Timeline) (bound : Option Instant) : Set Instant :=
  {instant | instant ∈ timeline.instants ∧ ∀ last, bound = some last → instant ≤ last}

/-- On an ascending timeline the commit that is found is the greatest one that is allowed. -/
theorem latest?_eq_some_iff_of_ascending (h : timeline.instants.Pairwise (· ≤ ·))
    {bound : Option Instant} {instant : Instant} :
    timeline.latest? bound = some instant ↔ IsGreatest (timeline.allowed bound) instant := by
  have hgreatest : ∀ {last}, timeline.latest? bound = some last →
      IsGreatest (timeline.allowed bound) last := by
    intro last hlast
    rw [latest?, List.find?_eq_some_iff_append] at hlast
    obtain ⟨hwithin, after, before, heq, hpassed⟩ := hlast
    have hmem : last ∈ timeline.instants.reverse := by simp [heq]
    refine ⟨⟨List.mem_reverse.mp hmem, within_iff.mp hwithin⟩, fun other ⟨hother, hle⟩ => ?_⟩
    have hdescending := List.pairwise_reverse.mpr h
    rw [← List.mem_reverse] at hother
    rw [heq] at hother hdescending
    -- what was passed over is not allowed
    have hafter : ∀ passed ∈ after, ¬ within bound passed = true := by simpa using hpassed
    exact le_of_first_match id hdescending hafter hother (within_iff.mpr hle)
  refine ⟨hgreatest, fun hinstant => ?_⟩
  cases hlatest : timeline.latest? bound with
  | none =>
    exact absurd (within_iff.mpr hinstant.1.2) (latest?_eq_none_iff.mp hlatest _ hinstant.1.1)
  | some last => rw [(hgreatest hlatest).unique hinstant]

/-- No commit is allowed where none is found, in whatever order the timeline is. -/
theorem latest?_eq_none_iff_allowed {bound : Option Instant} :
    timeline.latest? bound = none ↔ timeline.allowed bound = ∅ := by
  rw [latest?_eq_none_iff, Set.eq_empty_iff_forall_notMem]
  simp only [within_iff]
  exact forall_congr' fun _ => not_and.symm

/-- Without a bound the last commit of the timeline is found. -/
theorem latest?_none (timeline : Timeline) :
    timeline.latest? none = timeline.instants.getLast? := by
  rw [latest?, ← List.head?_reverse]
  cases timeline.instants.reverse with
  | nil => rfl
  | cons last _ => rw [List.find?_cons_of_pos rfl, List.head?_cons]

/-- A later bound allows more; no bound is the greatest one. -/
theorem allowed_mono (timeline : Timeline) :
    @Monotone (WithTop Instant) (Set Instant) _ _ timeline.allowed := by
  intro bound later hbound instant ⟨hmem, hallowed⟩
  exact ⟨hmem, WithTop.coe_le_iff.mp ((WithTop.coe_le_iff.mpr hallowed).trans hbound)⟩

/-- On an ascending timeline a later bound finds the same commit or a later one; no bound is the
greatest one, and no commit the least. -/
theorem latest?_mono (h : timeline.instants.Pairwise (· ≤ ·)) :
    @Monotone (WithTop Instant) (WithBot Instant) _ _ timeline.latest? := by
  intro bound later hbound
  cases hlatest : timeline.latest? bound with
  | none => exact bot_le
  | some instant =>
    have hgreatest := (latest?_eq_some_iff_of_ascending h).mp hlatest
    have hallowed : instant ∈ timeline.allowed later :=
      timeline.allowed_mono hbound hgreatest.1
    cases hlater : timeline.latest? later with
    | none =>
      rw [latest?_eq_none_iff_allowed.mp hlater] at hallowed
      exact absurd hallowed (Set.notMem_empty _)
    | some last =>
      have hle := ((latest?_eq_some_iff_of_ascending h).mp hlater).2 hallowed
      exact WithBot.coe_le_coe.mpr hle

/-- A snapshot is its own latest commit. -/
theorem latest?_of_latest? {bound : Option Instant} {instant : Instant}
    (h : timeline.latest? bound = some instant) :
    timeline.latest? (some instant) = some instant := by
  have hwithin := within_of_latest? h
  rw [latest?, List.find?_eq_some_iff_append] at h ⊢
  obtain ⟨-, before, after, heq, hbefore⟩ := h
  refine ⟨within_some_iff.mpr le_rfl, before, after, heq, fun passed hpassed => ?_⟩
  have hpast := hbefore passed hpassed
  rw [Bool.not_eq_true', Bool.eq_false_iff] at hpast ⊢
  exact fun hpinned => hpast (within_of_le hwithin (within_some_iff.mp hpinned))

end Upsert.Timeline
