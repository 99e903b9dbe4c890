import Upsert.Fanout
import Upsert.Proofs.FirstFailure

/-!
# Gathering does not depend on the order of the results

Results that come back in any order are collected by key. A failure anywhere makes the collection
fail, with the failure of some key; otherwise the map holds the value of every key that was asked
for, and nothing else (`gather_cases`). So two fan-outs that hand back every item once both fail, or
collect the same map (`gather_agree`). Which failure it is depends on the order: with the keys read
one after the other it is that of the first key that fails (`failure?_gather_sequential`).
-/

namespace Upsert.Fanout

variable {β ε : Type} {first second fanout : Fanout}

/-- One item after the other, from the last to the first. -/
def backward : Fanout where
  run f items := (items.map fun item => (item, f item)).reverse

theorem backward_faithful : backward.Faithful := fun _ _ => List.reverse_perm _

/-- Collecting results of a reader into a map: it fails with some key's failure, or adds the value
of each key. -/
theorem foldlM_insert_cases (read : String → Except ε β) (results : List (String × Except ε β))
    (h : ∀ entry ∈ results, entry.2 = read entry.1) (map : SortedMap β) :
    (∃ entry ∈ results, ∃ failure, read entry.1 = .error failure
        ∧ results.foldlM (fun map entry => entry.2.map (map.insert entry.1)) map = .error failure)
      ∨ ((∀ entry ∈ results, ∃ value, read entry.1 = .ok value)
        ∧ ∃ collected,
          results.foldlM (fun map entry => entry.2.map (map.insert entry.1)) map = .ok collected
            ∧ ∀ key, collected.find? key
              = if key ∈ results.map (·.1) then (read key).toOption else map.find? key) := by
  induction results generalizing map with
  | nil => exact Or.inr ⟨by simp, map, rfl, by simp⟩
  | cons entry results ih =>
    have hentry := h entry List.mem_cons_self
    cases hread : read entry.1 with
    | error failure =>
      refine Or.inl ⟨entry, List.mem_cons_self, failure, hread, ?_⟩
      rw [List.foldlM_cons, hentry, hread]
      rfl
    | ok value =>
      have hstep : (entry :: results).foldlM
            (fun map entry => entry.2.map (map.insert entry.1)) map
          = results.foldlM (fun map entry => entry.2.map (map.insert entry.1))
              (map.insert entry.1 value) := by
        rw [List.foldlM_cons, hentry, hread]
        rfl
      rw [hstep]
      rcases ih (fun other hother => h other (List.mem_cons_of_mem _ hother))
        (map.insert entry.1 value) with
        ⟨other, hother, failure, hfailure, hrun⟩ | ⟨hvalues, collected, hrun, hfind⟩
      · exact Or.inl ⟨other, List.mem_cons_of_mem _ hother, failure, hfailure, hrun⟩
      · refine Or.inr ⟨?_, collected, hrun, ?_⟩
        · intro other hother
          rcases List.mem_cons.mp hother with rfl | hother
          · exact ⟨value, hread⟩
          · exact hvalues other hother
        · -- a key that comes back again has the value that it had before
          intro key
          simp only [hfind, SortedMap.find?_insert, List.map_cons, List.mem_cons]
          by_cases hkey : key = entry.1
          · simp [hkey, hread, Except.toOption]
          · simp only [hkey, if_false, false_or]

/-- Gathering fails with the failure of a key, or the map has the values of exactly the keys. -/
theorem gather_cases (h : fanout.Faithful) (read : String → Except ε β) (keys : List String) :
    (∃ key ∈ keys, ∃ failure, read key = .error failure
        ∧ fanout.gather read keys = .error failure)
      ∨ ((∀ key ∈ keys, ∃ value, read key = .ok value)
        ∧ ∃ collected, fanout.gather read keys = .ok collected
          ∧ ∀ key, collected.find? key = if key ∈ keys then (read key).toOption else none) := by
  have hperm := h read keys
  have hown : ∀ entry ∈ fanout.run read keys, entry.2 = read entry.1 := by
    intro entry hentry
    obtain ⟨key, -, rfl⟩ := List.mem_map.mp (hperm.mem_iff.mp hentry)
    rfl
  have hkeys : ∀ key, key ∈ (fanout.run read keys).map (·.1) ↔ key ∈ keys := by
    intro key
    rw [(hperm.map (·.1)).mem_iff]
    simp
  rcases foldlM_insert_cases read _ hown .empty with
    ⟨entry, hentry, failure, hfailure, hrun⟩ | ⟨hvalues, collected, hrun, hfind⟩
  · exact Or.inl ⟨entry.1, (hkeys _).mp (List.mem_map_of_mem hentry), failure, hfailure, hrun⟩
  · refine Or.inr ⟨?_, collected, hrun, ?_⟩
    · intro key hkey
      obtain ⟨entry, hentry, rfl⟩ := List.mem_map.mp ((hkeys key).mpr hkey)
      exact hvalues entry hentry
    · intro key
      simp [hfind, hkeys]

/-- What can be read for every key is collected, and nothing else. -/
theorem exists_gather (h : fanout.Faithful) {read : String → Except ε β} {keys : List String}
    (hread : ∀ key ∈ keys, ∃ value, read key = .ok value) :
    ∃ collected, fanout.gather read keys = .ok collected
      ∧ ∀ key, collected.find? key = if key ∈ keys then (read key).toOption else none := by
  rcases gather_cases h read keys with ⟨key, hkey, failure, hfailure, -⟩ | ⟨-, hcollected⟩
  · obtain ⟨value, hvalue⟩ := hread key hkey
    rw [hvalue] at hfailure
    cases hfailure
  · exact hcollected

/-- Two fan-outs both fail, or collect the same map. -/
theorem gather_agree (hfirst : first.Faithful) (hsecond : second.Faithful)
    (read : String → Except ε β) (keys : List String) :
    (∃ failure failure', first.gather read keys = .error failure
        ∧ second.gather read keys = .error failure')
      ∨ ∃ collected, first.gather read keys = .ok collected
        ∧ second.gather read keys = .ok collected := by
  rcases gather_cases hfirst read keys with
    ⟨key, hkey, failure, hfailure, hrun⟩ | ⟨hvalues, collected, hrun, hfind⟩
  · rcases gather_cases hsecond read keys with ⟨_, -, failure', -, hrun'⟩ | ⟨hvalues, -⟩
    · exact Or.inl ⟨failure, failure', hrun, hrun'⟩
    · obtain ⟨value, hvalue⟩ := hvalues key hkey
      simp [hfailure] at hvalue
  · rcases gather_cases hsecond read keys with
      ⟨key, hkey, failure, hfailure, -⟩ | ⟨-, collected', hrun', hfind'⟩
    · obtain ⟨value, hvalue⟩ := hvalues key hkey
      simp [hfailure] at hvalue
    · have hsame : collected' = collected := by
        apply SortedMap.ext_find?
        intro key
        rw [hfind, hfind']
      exact Or.inr ⟨collected, hrun, hsame ▸ hrun'⟩

/-! ## The failure of a gathering -/

/-- Collecting fails with the first failure among the results. -/
theorem failure?_foldlM_insert (results : List (String × Except ε β)) (map : SortedMap β) :
    failure? (results.foldlM (fun map entry => entry.2.map (map.insert entry.1)) map)
      = results.findSome? fun entry => failure? entry.2 := by
  induction results generalizing map with
  | nil => rfl
  | cons entry results ih =>
    obtain ⟨key, outcome⟩ := entry
    rw [List.foldlM_cons, List.findSome?_cons]
    cases outcome with
    | error failure => rfl
    | ok value => exact ih (map.insert key value)

theorem failure?_gather_sequential (read : String → Except ε β) (keys : List String) :
    failure? (sequential.gather read keys) = keys.findSome? fun key => failure? (read key) := by
  rw [gather, collect, failure?_foldlM_insert, sequential, List.findSome?_map]
  rfl

end Upsert.Fanout
