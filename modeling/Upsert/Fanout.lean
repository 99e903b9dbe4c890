import Upsert.Pool
import Upsert.SortedMap

/-! # Fanning out over keys

A fan-out applies a function to every item of a list and hands back each item with its result, in
an order of its own. It may run on one thread or on a pool of workers; readers of its results may
not depend on their order, and so collect them into a map by key.
-/

namespace Upsert

/-- A way to apply a function to all items of a list. -/
structure Fanout where
  run : {α β : Type} → (α → β) → List α → List (α × β)

namespace Fanout

/-- Every item comes back exactly once, with its own result. -/
def Faithful (fanout : Fanout) : Prop :=
  ∀ {α β : Type} (f : α → β) (items : List α),
    (fanout.run f items).Perm (items.map fun item => (item, f item))

/-- One item after the other. -/
def sequential : Fanout where
  run f items := items.map fun item => (item, f item)

/-- With a pool of workers. -/
def pool (threads : Nat) : Fanout where
  run f items :=
    match Pool.map threads (fun item => (.ok (f item) : Except Empty _)) items with
    | .ok results => results

theorem sequential_faithful : sequential.Faithful := fun _ _ => List.Perm.refl _

/-- Collects results by key; the first failure, in the order of the results, is the outcome. -/
def collect {β ε : Type} (results : List (String × Except ε β)) : Except ε (SortedMap β) :=
  results.foldlM (fun map entry => entry.2.map (map.insert entry.1)) .empty

/-- Reads something for every key and collects it by key. -/
def gather {β ε : Type} (fanout : Fanout) (read : String → Except ε β) (keys : List String) :
    Except ε (SortedMap β) :=
  collect (fanout.run read keys)

end Fanout

end Upsert
