import Upsert.Proofs.Plan.Assignment
import Upsert.SizeEstimate

/-!
# What decides an estimate

Commits are looked at newest first, up to the first one that `Ends` the search: one whose details
cannot be read, or one that wrote enough bytes and some records. That commit alone `Settles` the
estimate, and no later one is looked at. `Finds` says this without a search, and the search gives
what it says and nothing else (`search_eq_iff`).

The size that a commit settles is the least one at which its records make up its bytes. The commit
wrote some bytes, so the size is positive, and every estimate is positive as soon as the fallback
is.
-/

namespace Upsert

/-- The quotient rounded up is the least number of divisors that make up the dividend. -/
theorem isLeast_ceilDiv (a : UInt64) {b : UInt64} (h : 0 < b) :
    IsLeast {quotient : ℕ | a.toNat ≤ quotient * b.toNat} (ceilDiv a b).toNat := by
  have hpos := UInt64.lt_iff_toNat_lt.mp h
  rw [Plan.toNat_ceilDiv a hpos]
  exact ⟨(Greedy.portionCount_le_iff hpos).mp le_rfl,
    fun _ hquotient => (Greedy.portionCount_le_iff hpos).mpr hquotient⟩

namespace SizeEstimator

variable {estimator : SizeEstimator} {commit : Timeline.Entry}
  {commits older before : List Timeline.Entry} {estimate other : SizeEstimate} {looked : ℕ}

/-! ## The commit that ends the search -/

/-- The commit ends the search: its details cannot be read, or it wrote more bytes than the
threshold and at least one record. -/
def Ends (estimator : SizeEstimator) : Timeline.Entry → Prop
  | (_, .error _) => True
  | (_, .ok details) => estimator.threshold < details.bytes ∧ 0 < details.records

/-- The estimate that the commit settles: the fallback and the failure where its details cannot be
read, and otherwise the least size at which its records make up its bytes. -/
inductive Settles (estimator : SizeEstimator) : Timeline.Entry → SizeEstimate → Prop
  | failed (instant : Instant) (failure : TimelineError) :
    Settles estimator (instant, .error failure) ⟨estimator.fallback, .fallback, some failure⟩
  | decided {instant : Instant} {details : CommitDetails} {size : UInt64}
      (exceeds : estimator.threshold < details.bytes) (written : 0 < details.records)
      (least : IsLeast {v : ℕ | details.bytes.toNat ≤ v * details.records.toNat} size.toNat) :
    Settles estimator (instant, .ok details) ⟨size, .commit instant, none⟩

/-- The estimate from commits, newest first, and how many of them are looked at. -/
inductive Finds (estimator : SizeEstimator) (commits : List Timeline.Entry) :
    SizeEstimate → ℕ → Prop
  | exhausted (passed : ∀ commit ∈ commits, ¬ estimator.Ends commit) :
    Finds estimator commits ⟨estimator.fallback, .fallback, none⟩ commits.length
  | settled {before after : List Timeline.Entry} {commit : Timeline.Entry}
      {estimate : SizeEstimate} (split : commits = before ++ commit :: after)
      (passed : ∀ earlier ∈ before, ¬ estimator.Ends earlier)
      (settles : estimator.Settles commit estimate) :
    Finds estimator commits estimate (before.length + 1)

theorem Settles.ends (h : estimator.Settles commit estimate) : estimator.Ends commit := by
  cases h with
  | failed => trivial
  | decided exceeds written => exact ⟨exceeds, written⟩

theorem Settles.unique (h : estimator.Settles commit estimate)
    (h' : estimator.Settles commit other) : estimate = other := by
  cases h with
  | failed =>
    cases h'
    rfl
  | decided _ _ least =>
    cases h' with
    | decided _ _ least' => rw [UInt64.toNat_inj.mp (least.unique least')]

/-! ## The search -/

theorem search_cons_of_not_ends (h : ¬ estimator.Ends commit) (older : List Timeline.Entry) :
    estimator.search (commit :: older)
      = ((estimator.search older).1, (estimator.search older).2 + 1) := by
  obtain ⟨instant, outcome⟩ := commit
  cases outcome with
  | error failure => exact absurd trivial h
  | ok details =>
    rw [search, if_neg]
    simpa [decides, Ends] using h

theorem settles_search (h : estimator.Ends commit) (older : List Timeline.Entry) :
    estimator.Settles commit (estimator.search (commit :: older)).1
      ∧ (estimator.search (commit :: older)).2 = 1 := by
  obtain ⟨instant, outcome⟩ := commit
  cases outcome with
  | error failure => exact ⟨.failed instant failure, rfl⟩
  | ok details =>
    obtain ⟨hexceeds, hwritten⟩ := h
    rw [search, if_pos (by simp [decides, hexceeds, hwritten])]
    exact ⟨.decided hexceeds hwritten (isLeast_ceilDiv _ hwritten), rfl⟩

theorem search_cons_of_settles (h : estimator.Settles commit estimate)
    (older : List Timeline.Entry) : estimator.search (commit :: older) = (estimate, 1) := by
  obtain ⟨hsettles, hlooked⟩ := settles_search h.ends older
  exact Prod.ext (hsettles.unique h) hlooked

/-- Commits that do not end the search are passed over. -/
theorem search_append_of_passed (h : ∀ earlier ∈ before, ¬ estimator.Ends earlier)
    (older : List Timeline.Entry) :
    estimator.search (before ++ older)
      = ((estimator.search older).1, (estimator.search older).2 + before.length) := by
  induction before with
  | nil => rfl
  | cons commit before ih =>
    obtain ⟨hcommit, hbefore⟩ := List.forall_mem_cons.mp h
    rw [List.cons_append, search_cons_of_not_ends hcommit, ih hbefore, List.length_cons,
      Nat.add_assoc]

theorem Finds.cons_of_not_ends (h : estimator.Finds older estimate looked)
    (hcommit : ¬ estimator.Ends commit) :
    estimator.Finds (commit :: older) estimate (looked + 1) := by
  cases h with
  | exhausted passed => exact .exhausted (List.forall_mem_cons.mpr ⟨hcommit, passed⟩)
  | @settled before after last _ split passed settles =>
    have hsplit : commit :: older = (commit :: before) ++ last :: after := by
      rw [split, List.cons_append]
    exact .settled hsplit (List.forall_mem_cons.mpr ⟨hcommit, passed⟩) settles

theorem finds_search (estimator : SizeEstimator) (commits : List Timeline.Entry) :
    estimator.Finds commits (estimator.search commits).1 (estimator.search commits).2 := by
  induction commits with
  | nil => exact .exhausted (List.forall_mem_nil _)
  | cons commit older ih =>
    by_cases hends : estimator.Ends commit
    · obtain ⟨hsettles, hlooked⟩ := settles_search hends older
      have hsplit : commit :: older = [] ++ commit :: older := rfl
      rw [hlooked]
      exact .settled hsplit (List.forall_mem_nil _) hsettles
    · rw [search_cons_of_not_ends hends]
      exact ih.cons_of_not_ends hends

theorem Finds.search_eq (h : estimator.Finds commits estimate looked) :
    estimator.search commits = (estimate, looked) := by
  cases h with
  | exhausted passed =>
    have hpassed := search_append_of_passed passed []
    rw [List.append_nil] at hpassed
    rw [hpassed, search, Nat.zero_add]
  | settled split passed settles =>
    rw [split, search_append_of_passed passed, search_cons_of_settles settles, Nat.add_comm]

/-- The search finds what the first commit that ends it settles. -/
theorem search_eq_iff :
    estimator.search commits = (estimate, looked) ↔ estimator.Finds commits estimate looked := by
  refine ⟨fun h => ?_, Finds.search_eq⟩
  have hfinds := finds_search estimator commits
  rw [h] at hfinds
  exact hfinds

/-- What comes after the commits that were looked at makes no difference. -/
theorem Finds.search_take_append (h : estimator.Finds commits estimate looked)
    (hends : ∃ commit ∈ commits, estimator.Ends commit) (others : List Timeline.Entry) :
    estimator.search (commits.take looked ++ others) = (estimate, looked) := by
  cases h with
  | exhausted passed =>
    obtain ⟨commit, hmem, hcommit⟩ := hends
    exact absurd hcommit (passed commit hmem)
  | @settled before after commit _ split passed settles =>
    have htake : commits.take (before.length + 1) = before ++ [commit] := by
      rw [split, List.take_length_add_append, List.take_succ_cons, List.take_zero]
    rw [htake, List.append_assoc, List.singleton_append]
    exact (Finds.settled rfl passed settles).search_eq

/-! ## Positive estimates -/

theorem Settles.bytesPerRecord_ne_zero (h : estimator.Settles commit estimate)
    (hfallback : estimator.fallback ≠ 0) : estimate.bytesPerRecord ≠ 0 := by
  cases h with
  | failed => exact hfallback
  | @decided _ details size exceeds _ least =>
    rintro rfl
    have hbytes : details.bytes.toNat ≤ 0 := by simpa using least.1
    have hthreshold := UInt64.lt_iff_toNat_lt.mp exceeds
    omega

theorem Finds.bytesPerRecord_ne_zero (h : estimator.Finds commits estimate looked)
    (hfallback : estimator.fallback ≠ 0) : estimate.bytesPerRecord ≠ 0 := by
  cases h with
  | exhausted => exact hfallback
  | settled _ _ settles => exact settles.bytesPerRecord_ne_zero hfallback

theorem bytesPerRecord_estimate_ne_zero (h : estimator.fallback ≠ 0) (timeline : Timeline) :
    (estimator.estimate timeline).bytesPerRecord ≠ 0 :=
  (finds_search estimator timeline.newestFirst).bytesPerRecord_ne_zero h

end SizeEstimator

end Upsert
