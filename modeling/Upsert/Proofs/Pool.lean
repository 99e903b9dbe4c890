import Mathlib
import Upsert.Fanout

/-!
# A pool loses and duplicates nothing

An item is queued, held by a worker or delivered, and these make up the inventory. A move passes an
item on within the inventory, or takes it out of it for good when a worker dies of it
(`Step.inventory_cases`). So after any interleaving of moves every item is in the inventory or lost
to a failure of its own (`State.Accounts`, `accounts_of_run`). When no worker can move any more
nothing is held. Without a dead worker nothing is lost then, and the workers have finished only
because the queue was empty: every item has come back once. With an item that fails somebody is
dead, for that item cannot have come back, and the call fails, however many items are still queued.

Running the items in turn is such an outcome too (`maps_sequential`), and any two of them agree up
to the order of the results (`Maps.agree`).
-/

namespace Upsert.Pool

variable {α β ε : Type} {task : α → Except ε β} {items : List α} {state next : State α β ε}

/-! ## Where the items are -/

/-- The item that a worker holds. -/
def Worker.held : Worker α ε → List α
  | .holding item => [item]
  | _ => []

/-- The items that are queued, held or delivered. -/
def State.inventory (state : State α β ε) : List α :=
  state.queue ++ (state.workers.flatMap Worker.held ++ state.results.map (·.1))

/-- The failures that workers died of. -/
def State.failures (state : State α β ε) : List ε := state.workers.filterMap Worker.failure?

theorem inventory_withWorker (queue : List α) (before : List (Worker α ε)) (worker : Worker α ε)
    (after : List (Worker α ε)) (results : List (α × β)) :
    (State.withWorker queue before worker after results).inventory
      = queue ++ (before.flatMap Worker.held ++ (worker.held ++ after.flatMap Worker.held)
        ++ results.map (·.1)) := by
  rw [State.inventory, State.withWorker, List.flatMap_append, List.flatMap_cons]

theorem failures_withWorker (queue : List α) (before : List (Worker α ε)) (worker : Worker α ε)
    (after : List (Worker α ε)) (results : List (α × β)) :
    (State.withWorker queue before worker after results).failures
      = before.filterMap Worker.failure?
        ++ (worker.failure?.toList ++ after.filterMap Worker.failure?) := by
  rw [State.failures, State.withWorker, List.filterMap_append, List.filterMap_cons]
  cases worker.failure? <;> rfl

theorem mem_workers_withWorker {queue : List α} {before : List (Worker α ε)} {worker : Worker α ε}
    {after : List (Worker α ε)} {results : List (α × β)} {other : Worker α ε} :
    other ∈ (State.withWorker queue before worker after results).workers
      ↔ other = worker ∨ other ∈ before ∨ other ∈ after := by
  rw [State.withWorker, List.mem_append, List.mem_cons]
  exact or_left_comm

/-- A move passes an item on, or loses it with the worker that dies of it. -/
theorem Step.inventory_cases (step : Step task state next) :
    (state.inventory.Perm next.inventory ∧ next.failures = state.failures)
      ∨ ∃ item failure, task item = .error failure
        ∧ state.inventory.Perm (item :: next.inventory)
        ∧ next.failures.Perm (failure :: state.failures) := by
  classical
  cases step with
  | take =>
    refine Or.inl ⟨?_, by rw [failures_withWorker, failures_withWorker]; rfl⟩
    rw [inventory_withWorker, inventory_withWorker, List.perm_iff_count]
    intro item
    simp only [Worker.held, List.count_append, List.count_cons, List.count_nil]
    omega
  | finish =>
    rw [inventory_withWorker, inventory_withWorker, failures_withWorker, failures_withWorker]
    exact Or.inl ⟨List.Perm.refl _, rfl⟩
  | deliver =>
    refine Or.inl ⟨?_, by rw [failures_withWorker, failures_withWorker]; rfl⟩
    rw [inventory_withWorker, inventory_withWorker, List.perm_iff_count]
    intro item
    simp only [Worker.held, List.map_append, List.map_cons, List.map_nil, List.count_append,
      List.count_cons, List.count_nil]
    omega
  | @die item failure queue before after results failed =>
    refine Or.inr ⟨item, failure, failed, ?_, ?_⟩
    · rw [inventory_withWorker, inventory_withWorker, List.perm_iff_count]
      intro item
      simp only [Worker.held, List.count_append, List.count_cons, List.count_nil]
      omega
    · rw [failures_withWorker, failures_withWorker]
      exact List.perm_middle

/-! ## What every interleaving keeps -/

/-- The items are accounted for: those that are not in the inventory are lost, each to a failure of
its own. What is delivered is the item's own result, and a worker finishes only once the queue is
empty. -/
structure State.Accounts (task : α → Except ε β) (items : List α) (state : State α β ε) : Prop where
  kept : ∃ lost, items.Perm (lost ++ state.inventory)
    ∧ (lost.map task).Perm (state.failures.map .error)
  delivered : ∀ entry ∈ state.results, task entry.1 = .ok entry.2
  drained : .finished ∈ state.workers → state.queue = []
  manned : state.workers ≠ []

theorem accounts_start {workers : ℕ} (hworkers : 0 < workers) (items : List α) :
    (State.start workers items : State α β ε).Accounts task items := by
  have hheld : (List.replicate workers (.idle : Worker α ε)).flatMap Worker.held = [] := by
    simp [List.flatMap_eq_nil_iff, Worker.held]
  refine ⟨⟨[], ?_, ?_⟩, ?_, ?_, ?_⟩
  · simp [State.inventory, State.start, hheld]
  · simp [State.failures, State.start, Worker.failure?]
  · simp [State.start]
  · simp [State.start, List.mem_replicate]
  · simp [State.start, hworkers.ne']

theorem Step.kept (step : Step task state next)
    (h : ∃ lost, items.Perm (lost ++ state.inventory)
      ∧ (lost.map task).Perm (state.failures.map .error)) :
    ∃ lost, items.Perm (lost ++ next.inventory)
      ∧ (lost.map task).Perm (next.failures.map .error) := by
  obtain ⟨lost, hitems, hlost⟩ := h
  rcases step.inventory_cases with ⟨hperm, hfailures⟩ | ⟨item, failure, hfailed, hperm, hfailures⟩
  · exact ⟨lost, hitems.trans (hperm.append_left lost), hfailures ▸ hlost⟩
  · refine ⟨item :: lost, ?_, ?_⟩
    · exact (hitems.trans (hperm.append_left lost)).trans List.perm_middle
    · rw [List.map_cons, hfailed]
      exact (hlost.cons _).trans (hfailures.map _).symm

theorem Step.delivered (step : Step task state next)
    (h : ∀ entry ∈ state.results, task entry.1 = .ok entry.2) :
    ∀ entry ∈ next.results, task entry.1 = .ok entry.2 := by
  cases step with
  | take => exact h
  | finish => exact h
  | die => exact h
  | deliver ok =>
    intro entry hentry
    rcases List.mem_append.mp hentry with hold | hnew
    · exact h entry hold
    · cases List.mem_singleton.mp hnew
      exact ok

theorem Step.drained (step : Step task state next)
    (h : .finished ∈ state.workers → state.queue = []) :
    .finished ∈ next.workers → next.queue = [] := by
  cases step with
  | finish => exact fun _ => rfl
  | take =>
    -- no worker has finished while there was an item to take
    simp only [mem_workers_withWorker, reduceCtorEq, false_or] at h ⊢
    intro hfinished
    cases h hfinished
  | deliver =>
    simp only [mem_workers_withWorker, reduceCtorEq, false_or] at h ⊢
    exact h
  | die =>
    simp only [mem_workers_withWorker, reduceCtorEq, false_or] at h ⊢
    exact h

theorem Step.manned (step : Step task state next) : next.workers ≠ [] := by
  cases step <;> exact List.append_ne_nil_of_right_ne_nil _ (List.cons_ne_nil _ _)

theorem Step.accounts (step : Step task state next) (h : state.Accounts task items) :
    next.Accounts task items :=
  ⟨step.kept h.kept, step.delivered h.delivered, step.drained h.drained, step.manned⟩

/-- Whatever the interleaving, all items stay accounted for. -/
theorem accounts_of_run (run : Relation.ReflTransGen (Step task) state next)
    (h : state.Accounts task items) : next.Accounts task items := by
  induction run with
  | refl => exact h
  | tail _ step ih => exact step.accounts ih

/-! ## When no worker can move any more -/

/-- A worker is at rest once it has finished or died. -/
def Worker.AtRest (worker : Worker α ε) : Prop :=
  worker = .finished ∨ ∃ failure, worker = .dead failure

/-- No worker can move any more. -/
def State.Settled (state : State α β ε) : Prop := ∀ worker ∈ state.workers, worker.AtRest

/-- An outcome that loses and duplicates nothing: every item has come back once and with its own
result, in some order, or the outcome is the failure of an item. -/
def Maps (task : α → Except ε β) (items : List α) : Except ε (List (α × β)) → Prop
  | .ok results =>
    (results.map (Prod.map id .ok)).Perm (items.map fun item => (item, task item))
  | .error failure => ∃ item ∈ items, task item = .error failure

theorem outcome_eq_error {failure : ε}
    (h : state.workers.findSome? Worker.failure? = some failure) :
    state.outcome = .error failure := by
  rw [State.outcome, h]

theorem outcome_eq_ok (h : state.workers.findSome? Worker.failure? = none) :
    state.outcome = .ok state.results := by
  rw [State.outcome, h]

theorem failures_eq_nil_iff :
    state.failures = [] ↔ state.workers.findSome? Worker.failure? = none := by
  rw [State.failures, List.filterMap_eq_nil_iff, List.findSome?_eq_none_iff]

theorem State.Accounts.maps_of_dead (h : state.Accounts task items) {failure : ε}
    (hdead : state.workers.findSome? Worker.failure? = some failure) :
    Maps task items state.outcome := by
  rw [outcome_eq_error hdead]
  obtain ⟨lost, hitems, hlost⟩ := h.kept
  obtain ⟨worker, hworker, hfailure⟩ := List.exists_of_findSome?_eq_some hdead
  have hmem : .error failure ∈ lost.map task :=
    hlost.mem_iff.mpr (List.mem_map_of_mem (List.mem_filterMap.mpr ⟨worker, hworker, hfailure⟩))
  obtain ⟨item, hitem, hfailed⟩ := List.mem_map.mp hmem
  exact ⟨item, hitems.mem_iff.mpr (List.mem_append_left _ hitem), hfailed⟩

theorem State.Settled.eq_finished (h : state.Settled)
    (hdead : state.workers.findSome? Worker.failure? = none) :
    ∀ worker ∈ state.workers, worker = .finished := by
  intro worker hworker
  rcases h worker hworker with hfinished | ⟨failure, rfl⟩
  · exact hfinished
  · cases List.findSome?_eq_none_iff.mp hdead _ hworker

theorem State.Accounts.maps_of_finished (h : state.Accounts task items)
    (hfinished : ∀ worker ∈ state.workers, worker = .finished)
    (hdead : state.workers.findSome? Worker.failure? = none) :
    Maps task items state.outcome := by
  rw [outcome_eq_ok hdead]
  obtain ⟨lost, hitems, hlost⟩ := h.kept
  -- nothing is lost without a dead worker, held by finished workers, or left in the queue by them
  have hnone : lost = [] := by
    rw [failures_eq_nil_iff.mpr hdead, List.map_nil, List.perm_nil, List.map_eq_nil_iff] at hlost
    exact hlost
  have hheld : state.workers.flatMap Worker.held = [] :=
    List.flatMap_eq_nil_iff.mpr fun worker hworker => by rw [hfinished worker hworker]; rfl
  have hqueue : state.queue = [] := by
    obtain ⟨worker, hworker⟩ := List.exists_mem_of_ne_nil _ h.manned
    exact h.drained (hfinished worker hworker ▸ hworker)
  rw [State.inventory, hnone, hheld, hqueue] at hitems
  have hown : state.results.map (Prod.map id .ok)
      = (state.results.map (·.1)).map fun item => (item, task item) := by
    rw [List.map_map]
    exact List.map_congr_left fun entry hentry => Prod.ext rfl (h.delivered entry hentry).symm
  rw [Maps, hown]
  exact (hitems.map _).symm

theorem State.Accounts.maps (h : state.Accounts task items) (hsettled : state.Settled) :
    Maps task items state.outcome := by
  cases hdead : state.workers.findSome? Worker.failure? with
  | some failure => exact h.maps_of_dead hdead
  | none => exact h.maps_of_finished (hsettled.eq_finished hdead) hdead

/-! ## The run of the first worker -/

theorem Worker.move?_eq_none_iff (queue : List α) {worker : Worker α ε} :
    worker.move? task queue = none ↔ worker.AtRest := by
  cases worker with
  | idle => cases queue <;> simp [Worker.move?, Worker.AtRest]
  | holding item => cases hitem : task item <;> simp [Worker.move?, Worker.AtRest, hitem]
  | finished => simp [Worker.move?, Worker.AtRest]
  | dead failure => simp [Worker.move?, Worker.AtRest]

theorem State.moveFirst?_eq_none_iff {queue : List α} {results : List (α × β)}
    {before after : List (Worker α ε)} :
    State.moveFirst? task queue results before after = none ↔ ∀ worker ∈ after, worker.AtRest := by
  induction after generalizing before with
  | nil => simp [State.moveFirst?]
  | cons worker after ih =>
    rw [List.forall_mem_cons, ← Worker.move?_eq_none_iff queue, State.moveFirst?]
    cases worker.move? task queue with
    | none => simp [ih]
    | some moved => simp

/-- The workers are at rest where no first one can move. -/
theorem State.next?_eq_none_iff : state.next? task = none ↔ state.Settled :=
  State.moveFirst?_eq_none_iff

/-- The run in which the first worker moves is one of the interleavings, and it comes to an end. -/
theorem State.run_settled (task : α → Except ε β) (state : State α β ε) :
    Relation.ReflTransGen (Step task) state (state.run task) ∧ (state.run task).Settled := by
  fun_induction State.run task state with
  | case1 state hrest => exact ⟨.refl, State.next?_eq_none_iff.mp hrest⟩
  | case2 state next hmove _ ih => exact ⟨.head (State.step_of_next? hmove) ih.1, ih.2⟩

/-! ## The outcomes of a call -/

/-- What a call may end with: with several workers the outcome of any interleaving that has come to
an end, and otherwise that of running the items in turn. -/
inductive Ends (threads : ℕ) (task : α → Except ε β) (items : List α) :
    Except ε (List (α × β)) → Prop
  | inTurn (few : min (parallelism threads) items.length ≤ 1) :
    Ends threads task items (sequential task items)
  | pooled {final : State α β ε} (several : 1 < min (parallelism threads) items.length)
      (run : Relation.ReflTransGen (Step task)
        (.start (min (parallelism threads) items.length) items) final)
      (settled : final.Settled) :
    Ends threads task items final.outcome

theorem ends_map (threads : ℕ) (task : α → Except ε β) (items : List α) :
    Ends threads task items (map threads task items) := by
  rw [map]
  split
  · rename_i few
    exact .inTurn few
  · rename_i several
    have hrun := State.run_settled task (.start (min (parallelism threads) items.length) items)
    exact .pooled (Nat.lt_of_not_le several) hrun.1 hrun.2

theorem maps_sequential (task : α → Except ε β) (items : List α) :
    Maps task items (sequential task items) := by
  induction items with
  | nil => exact List.Perm.refl _
  | cons item items ih =>
    rw [sequential, List.mapM_cons]
    cases hitem : task item with
    | error failure => exact ⟨item, List.mem_cons_self, hitem⟩
    | ok result =>
      change Maps task (item :: items)
        ((fun rest => (item, result) :: rest) <$> sequential task items)
      cases hrest : sequential task items with
      | error failure =>
        rw [hrest] at ih
        obtain ⟨other, hother, hfailed⟩ := ih
        exact ⟨other, List.mem_cons_of_mem _ hother, hfailed⟩
      | ok results =>
        rw [hrest] at ih
        change ((item, .ok result) :: results.map (Prod.map id .ok)).Perm
          ((item, task item) :: items.map fun item => (item, task item))
        rw [hitem]
        exact List.Perm.cons _ ih

theorem Ends.maps {threads : ℕ} {outcome : Except ε (List (α × β))}
    (h : Ends threads task items outcome) : Maps task items outcome := by
  cases h with
  | inTurn few => exact maps_sequential task items
  | pooled several run settled =>
    exact (accounts_of_run run (accounts_start (Nat.zero_lt_of_lt several) items)).maps settled

/-! ## What the outcomes have in common -/

section

variable {outcome other : Except ε (List (α × β))}

theorem map_ok_injective :
    Function.Injective (Prod.map id .ok : α × β → α × Except ε β) :=
  Function.Injective.prodMap Function.injective_id fun _ _ => Except.ok.inj

/-- Without a failing item every item comes back with its result. -/
theorem Maps.exists_ok (h : Maps task items outcome) {f : α → β}
    (hok : ∀ item ∈ items, task item = .ok (f item)) :
    ∃ results, outcome = .ok results ∧ results.Perm (items.map fun item => (item, f item)) := by
  cases outcome with
  | error failure =>
    obtain ⟨item, hitem, hfailed⟩ := h
    cases (hok item hitem).symm.trans hfailed
  | ok results =>
    refine ⟨results, rfl, (List.map_perm_map_iff (map_ok_injective (ε := ε))).mp ?_⟩
    rw [List.map_map]
    refine h.trans (List.Perm.of_eq (List.map_congr_left fun item hitem => ?_))
    exact Prod.ext rfl (hok item hitem)

/-- With a failing item there are no results. -/
theorem Maps.exists_error (h : Maps task items outcome) {item : α} (hitem : item ∈ items)
    {failure : ε} (hfailed : task item = .error failure) :
    ∃ failure, outcome = .error failure ∧ ∃ item ∈ items, task item = .error failure := by
  cases outcome with
  | error failure => exact ⟨failure, rfl, h⟩
  | ok results =>
    obtain ⟨entry, -, heq⟩ := List.mem_map.mp (h.mem_iff.mpr (List.mem_map_of_mem hitem))
    cases (congrArg Prod.snd heq).trans hfailed

theorem Maps.agree (h : Maps task items outcome) (hother : Maps task items other) :
    (∃ results others, outcome = .ok results ∧ other = .ok others ∧ results.Perm others)
      ∨ ∃ failure failure', outcome = .error failure ∧ other = .error failure' := by
  cases outcome with
  | error failure =>
    obtain ⟨item, hitem, hfailed⟩ := h
    obtain ⟨failure', hother, -⟩ := hother.exists_error hitem hfailed
    exact Or.inr ⟨failure, failure', rfl, hother⟩
  | ok results =>
    cases other with
    | error failure =>
      obtain ⟨item, hitem, hfailed⟩ := hother
      obtain ⟨_, houtcome, -⟩ := h.exists_error hitem hfailed
      cases houtcome
    | ok others =>
      exact Or.inl ⟨results, others, rfl, rfl,
        (List.map_perm_map_iff map_ok_injective).mp (h.trans hother.symm)⟩

end

/-- However the moves of the workers are interleaved, a call of the pool hands back every item once
and with its result, in some order, where no item fails, and fails with the failure of an item where
one does. So it agrees with running the items in turn up to the order of the results. -/
theorem interleaving_outcome (threads : ℕ) (task : α → Except ε β) (items : List α) :
    Ends threads task items (map threads task items)
      ∧ ∀ outcome, Ends threads task items outcome →
        (∀ f : α → β, (∀ item ∈ items, task item = .ok (f item)) →
            ∃ results, outcome = .ok results
              ∧ results.Perm (items.map fun item => (item, f item))
              ∧ results.length = items.length)
          ∧ (∀ item ∈ items, ∀ failure, task item = .error failure →
            ∃ failure, outcome = .error failure ∧ ∃ item ∈ items, task item = .error failure)
          ∧ ((∃ results others, outcome = .ok results ∧ sequential task items = .ok others
              ∧ results.Perm others)
            ∨ ∃ failure failure', outcome = .error failure
              ∧ sequential task items = .error failure') := by
  refine ⟨ends_map threads task items, fun outcome hends => ⟨fun f hok => ?_, ?_, ?_⟩⟩
  · obtain ⟨results, heq, hperm⟩ := hends.maps.exists_ok hok
    exact ⟨results, heq, hperm, hperm.length_eq.trans (List.length_map _)⟩
  · exact fun item hitem failure hfailed => hends.maps.exists_error hitem hfailed
  · exact hends.maps.agree (maps_sequential task items)

/-- A task that fails on one number. -/
def squareUnlessThree (n : ℕ) : Except String ℕ :=
  if n = 3 then .error "three" else .ok (n * n)

/-- Two workers die of the first two items while the third is still queued; without a three among
the items all of them come back. -/
theorem interleaving_outcome_of_dead_workers :
    (∃ final : State ℕ ℕ String,
        Relation.ReflTransGen (Step squareUnlessThree) (.start 2 [3, 3, 1]) final
          ∧ final.Settled ∧ final.queue = [1]
          ∧ ∃ failure, final.outcome = .error failure)
      ∧ ∃ results, map 2 squareUnlessThree [1, 2, 1] = .ok results
          ∧ results.Perm [(1, 1), (2, 4), (1, 1)] := by
  constructor
  · have hrun : Relation.ReflTransGen (Step squareUnlessThree) (.start 2 [3, 3, 1])
        (⟨[1], [.dead "three", .dead "three"], []⟩ : State ℕ ℕ String) := by
      have htake : Step squareUnlessThree (.withWorker [3, 3, 1] [] .idle [.idle] [])
          (.withWorker [3, 1] [] (.holding 3) [.idle] []) :=
        .take
      have htake' : Step squareUnlessThree (.withWorker [3, 1] [.holding 3] .idle [] [])
          (.withWorker [1] [.holding 3] (.holding 3) [] []) :=
        .take
      have hdie : Step squareUnlessThree (.withWorker [1] [] (.holding 3) [.holding 3] [])
          (.withWorker [1] [] (.dead "three") [.holding 3] []) :=
        .die rfl
      have hdie' : Step squareUnlessThree (.withWorker [1] [.dead "three"] (.holding 3) [] [])
          (.withWorker [1] [.dead "three"] (.dead "three") [] []) :=
        .die rfl
      exact .head htake (.head htake' (.head hdie (.single hdie')))
    have hsettled : (⟨[1], [.dead "three", .dead "three"], []⟩ : State ℕ ℕ String).Settled := by
      simp [State.Settled, Worker.AtRest]
    have hends : Ends 2 squareUnlessThree [3, 3, 1] _ := .pooled (by decide) hrun hsettled
    obtain ⟨failure, hfailure, -⟩ := ((interleaving_outcome 2 squareUnlessThree [3, 3, 1]).2 _
      hends).2.1 3 (by decide) "three" rfl
    exact ⟨_, hrun, hsettled, rfl, failure, hfailure⟩
  · have houtcome := interleaving_outcome 2 squareUnlessThree [1, 2, 1]
    obtain ⟨results, heq, hperm, -⟩ := (houtcome.2 _ houtcome.1).1 (fun n => n * n) (by decide)
    exact ⟨results, heq, hperm⟩

end Upsert.Pool

namespace Upsert.Fanout

/-- A pool of workers hands back every item once, with its own result. -/
theorem pool_faithful (threads : ℕ) : (pool threads).Faithful := by
  intro α β f items
  have hmaps := (Pool.ends_map threads (fun item => (.ok (f item) : Except Empty β)) items).maps
  obtain ⟨results, heq, hperm⟩ := hmaps.exists_ok fun _ _ => rfl
  simp only [pool, heq]
  exact hperm

end Upsert.Fanout
