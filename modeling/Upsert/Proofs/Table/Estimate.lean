import Upsert.Proofs.SizeEstimate
import Upsert.Proofs.Table.History
import Upsert.Proofs.Timeline

/-!
# The estimate from a table

The instants of a table ascend, so its newest decisive commit is the one of the greatest instant.
Older commits are not looked at, and newer ones are passed over (`estimate_eq_iff`). The additions
to a table matter through the commit that was recorded last for each instant: a commit that another
one took the place of makes no difference, and neither does the order of the instants.
-/

namespace Upsert

namespace SizeEstimator

variable {estimator : SizeEstimator} {commits : Instant → Option Commit}
  {estimate other : SizeEstimate} {table : Table} {instant : Instant} {commit : Commit}
  {entry : Timeline.Entry} {looked : ℕ} {changes changes' : List Table.Change}

/-! ## The commits of a table -/

/-- What a timeline shows for a commit of a table. -/
def entryOf (instant : Instant) : Commit → Timeline.Entry
  | .completed details => (instant, .ok details)
  | .corrupt reason => (instant, .error (.corruptDetails instant reason))

theorem fst_entryOf (instant : Instant) (commit : Commit) :
    (entryOf instant commit).1 = instant := by
  cases commit <;> rfl

theorem entryOf_eq_of_find? (h : table.commits.find? instant = some commit) :
    entryOf instant commit = (instant, table.timeline.details instant) := by
  cases commit <;> simp [entryOf, Table.timeline, Table.commitDetails, h]

theorem mem_newestFirst_timeline :
    entry ∈ table.timeline.newestFirst
      ↔ ∃ commit, table.commits.find? entry.1 = some commit ∧ entryOf entry.1 commit = entry := by
  rw [Timeline.newestFirst, List.mem_map]
  constructor
  · rintro ⟨instant, hmem, rfl⟩
    rw [List.mem_reverse, Table.timeline, SortedMap.mem_keys, Option.isSome_iff_exists] at hmem
    obtain ⟨commit, hcommit⟩ := hmem
    exact ⟨commit, hcommit, entryOf_eq_of_find? hcommit⟩
  · rintro ⟨commit, hcommit, heq⟩
    rw [entryOf_eq_of_find? hcommit] at heq
    refine ⟨entry.1, List.mem_reverse.mpr (SortedMap.mem_keys.mpr ?_), heq⟩
    rw [hcommit, Option.isSome_some]

theorem pairwise_newestFirst_timeline (table : Table) :
    table.timeline.newestFirst.Pairwise fun entry older => older.1 < entry.1 := by
  rw [Timeline.newestFirst, List.pairwise_map, List.pairwise_reverse]
  exact table.commits.keys_pairwise

/-! ## The decisive commit -/

/-- The commit of the instant ends a search. -/
def Decisive (estimator : SizeEstimator) (commits : Instant → Option Commit)
    (instant : Instant) : Prop :=
  ∃ commit, commits instant = some commit ∧ estimator.Ends (entryOf instant commit)

/-- The estimate from the commits of instants: the decisive commit of the greatest instant settles
it, and without a decisive commit it is the fallback. -/
inductive DecidedBy (estimator : SizeEstimator) (commits : Instant → Option Commit) :
    SizeEstimate → Prop
  | undecided (passed : ∀ instant, ¬ estimator.Decisive commits instant) :
    DecidedBy estimator commits ⟨estimator.fallback, .fallback, none⟩
  | decided {instant : Instant} {commit : Commit} {estimate : SizeEstimate}
      (greatest : IsGreatest {instant | estimator.Decisive commits instant} instant)
      (found : commits instant = some commit)
      (settles : estimator.Settles (entryOf instant commit) estimate) :
    DecidedBy estimator commits estimate

theorem DecidedBy.unique (h : estimator.DecidedBy commits estimate)
    (h' : estimator.DecidedBy commits other) : estimate = other := by
  cases h with
  | undecided passed =>
    cases h' with
    | undecided => rfl
    | decided greatest => exact absurd greatest.1 (passed _)
  | decided greatest found settles =>
    cases h' with
    | undecided passed => exact absurd greatest.1 (passed _)
    | decided greatest' found' settles' =>
      obtain rfl := greatest.unique greatest'
      obtain rfl := Option.some.inj (found.symm.trans found')
      exact settles.unique settles'

theorem Decisive.exists_mem (h : estimator.Decisive table.commits.find? instant) :
    ∃ entry ∈ table.timeline.newestFirst, entry.1 = instant ∧ estimator.Ends entry := by
  obtain ⟨commit, hcommit, hends⟩ := h
  refine ⟨_, mem_newestFirst_timeline.mpr ⟨commit, ?_, ?_⟩, fst_entryOf instant commit, hends⟩
  · rw [fst_entryOf, hcommit]
  · rw [fst_entryOf]

theorem decisive_of_mem (hmem : entry ∈ table.timeline.newestFirst)
    (hends : estimator.Ends entry) : estimator.Decisive table.commits.find? entry.1 := by
  obtain ⟨commit, hcommit, heq⟩ := mem_newestFirst_timeline.mp hmem
  exact ⟨commit, hcommit, by rwa [heq]⟩

/-- On a table, the first commit that ends a search is the decisive one of the greatest instant. -/
theorem Finds.decidedBy (h : estimator.Finds table.timeline.newestFirst estimate looked) :
    estimator.DecidedBy table.commits.find? estimate := by
  cases h with
  | exhausted passed =>
    refine .undecided fun instant hdecisive => ?_
    obtain ⟨entry, hmem, -, hends⟩ := hdecisive.exists_mem
    exact passed entry hmem hends
  | @settled before after last _ split passed settles =>
    have hmem : last ∈ table.timeline.newestFirst := by simp [split]
    have hdescending := pairwise_newestFirst_timeline table
    have hgreatest : IsGreatest {i | estimator.Decisive table.commits.find? i} last.1 := by
      refine ⟨decisive_of_mem hmem settles.ends, fun instant hdecisive => ?_⟩
      obtain ⟨entry, hentry, rfl, hends⟩ := hdecisive.exists_mem
      rw [split] at hentry hdescending
      exact Timeline.le_of_first_match _ (hdescending.imp le_of_lt) passed hentry hends
    obtain ⟨commit, hcommit, heq⟩ := mem_newestFirst_timeline.mp hmem
    exact .decided hgreatest hcommit (by rwa [heq])

/-- A table's estimate is the one that its decisive commit of the greatest instant settles. -/
theorem estimate_eq_iff :
    estimator.estimate table.timeline = estimate
      ↔ estimator.DecidedBy table.commits.find? estimate := by
  have hdecided : estimator.DecidedBy table.commits.find? (estimator.estimate table.timeline) :=
    (finds_search estimator table.timeline.newestFirst).decidedBy
  constructor
  · rintro rfl
    exact hdecided
  · exact hdecided.unique

/-- A table's estimate depends on the last commits of its instants alone. -/
theorem estimate_empty_applyAll_eq_iff :
    estimator.estimate (Table.empty.applyAll changes).timeline = estimate
      ↔ estimator.DecidedBy (Table.lastCommit? changes) estimate := by
  rw [estimate_eq_iff, funext (Table.find?_commits_empty_applyAll changes)]

/-- Equal last commits give equal estimates. -/
theorem estimate_congr
    (h : ∀ instant, Table.lastCommit? changes instant = Table.lastCommit? changes' instant) :
    estimator.estimate (Table.empty.applyAll changes).timeline
      = estimator.estimate (Table.empty.applyAll changes').timeline := by
  rw [estimate_empty_applyAll_eq_iff, funext h, ← estimate_empty_applyAll_eq_iff]

/-- The first commit that ends the search settles the estimate, and what comes after it makes no
difference. On a table that is the decisive commit of the greatest instant, where for each instant
the commit that was recorded last counts, whatever the order of the instants. -/
theorem settled_by_first_decisive (estimator : SizeEstimator) :
    (∀ commits estimate looked,
        estimator.search commits = (estimate, looked) ↔ estimator.Finds commits estimate looked)
      ∧ (∀ commits estimate looked, estimator.search commits = (estimate, looked) →
          (∃ commit ∈ commits, estimator.Ends commit) →
          ∀ others, estimator.search (commits.take looked ++ others) = (estimate, looked))
      ∧ (∀ changes estimate,
          estimator.estimate (Table.empty.applyAll changes).timeline = estimate
            ↔ estimator.DecidedBy (Table.lastCommit? changes) estimate)
      ∧ (∀ changes changes',
          (∀ instant, Table.lastCommit? changes instant = Table.lastCommit? changes' instant) →
          estimator.estimate (Table.empty.applyAll changes).timeline
            = estimator.estimate (Table.empty.applyAll changes').timeline)
      ∧ ∀ changes changes', changes.Perm changes' →
          (changes.filterMap Table.Change.commitInstant?).Nodup →
          estimator.estimate (Table.empty.applyAll changes).timeline
            = estimator.estimate (Table.empty.applyAll changes').timeline := by
  refine ⟨fun _ _ _ => search_eq_iff, fun _ _ _ hsearch hends others => ?_,
    fun _ _ => estimate_empty_applyAll_eq_iff, fun _ _ => estimate_congr,
    fun _ _ hperm hnodup => ?_⟩
  · exact (search_eq_iff.mp hsearch).search_take_append hends others
  · exact estimate_congr (Table.lastCommit?_of_perm hperm hnodup)

/-- An estimator for which more than 100 bytes are enough. -/
def lowThreshold : SizeEstimator := ⟨1024, 100⟩

/-- Three commits, of which "003" wrote too little to decide and "001" cannot be read. -/
def mixedCommits : List Table.Change :=
  [.commit "001" (.corrupt "bad header"), .commit "002" (.completed ⟨200, 3⟩),
    .commit "003" (.completed ⟨50, 5⟩)]

/-- Newest first, the second commit settles the estimate. The table gives the same one where a
corrupt commit was recorded for "002" before, and where the commits were recorded newest first. -/
theorem settled_by_first_decisive_of_mixedCommits :
    (∀ others, lowThreshold.search ([("003", .ok ⟨50, 5⟩), ("002", .ok ⟨200, 3⟩)] ++ others)
        = (⟨67, .commit "002", none⟩, 2))
      ∧ lowThreshold.estimate (Table.empty.applyAll mixedCommits).timeline
          = ⟨67, .commit "002", none⟩
      ∧ lowThreshold.estimate
            (Table.empty.applyAll (.commit "002" (.corrupt "truncated") :: mixedCommits)).timeline
          = lowThreshold.estimate (Table.empty.applyAll mixedCommits).timeline
      ∧ lowThreshold.estimate (Table.empty.applyAll mixedCommits).timeline
          = lowThreshold.estimate (Table.empty.applyAll mixedCommits.reverse).timeline := by
  obtain ⟨-, hlooked, -, hlast, hperm⟩ := settled_by_first_decisive lowThreshold
  have hends : lowThreshold.Ends ("002", .ok ⟨200, 3⟩) := by simp [Ends, lowThreshold]
  refine ⟨?_, by decide +kernel, hlast _ _ fun instant => ?_,
    hperm _ _ (List.reverse_perm _).symm (by decide +kernel)⟩
  · exact hlooked [("003", .ok ⟨50, 5⟩), ("002", .ok ⟨200, 3⟩), ("001", .ok ⟨900, 1⟩)]
      ⟨67, .commit "002", none⟩ 2 (by decide +kernel) ⟨_, by simp, hends⟩
  · -- the corrupt commit is not the last one of its instant
    have hcommits : (Table.empty.applyAll
          (.commit "002" (.corrupt "truncated") :: mixedCommits)).commits
        = (Table.empty.applyAll mixedCommits).commits := by decide +kernel
    rw [← Table.find?_commits_empty_applyAll, hcommits, Table.find?_commits_empty_applyAll]

end SizeEstimator

end Upsert
