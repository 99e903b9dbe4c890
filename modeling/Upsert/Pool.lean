/-! # A pool of workers on one queue

Several workers serve one queue of items. An idle worker takes the first item of the queue, or
finishes when the queue is empty; a worker that holds an item runs the task on it and delivers the
result, or dies of the task's failure. `Step` is one such move of any worker, so its runs are all
the interleavings; `State.run` is the one in which the first worker that can move does. When no
worker can move any more, the failure of the first dead worker is the outcome, and without a dead
worker the delivered results are.
-/

namespace Upsert.Pool

variable {α β ε : Type}

/-! ## Workers -/

/-- What a worker is doing. -/
inductive Worker (α ε : Type) where
  | idle
  | holding (item : α)
  | finished
  | dead (failure : ε)

/-- The failure that a worker died of. -/
def Worker.failure? : Worker α ε → Option ε
  | .dead failure => some failure
  | _ => none

/-- The moves that a worker can still make with the item it holds. -/
def Worker.work : Worker α ε → Nat
  | .idle => 1
  | .holding _ => 2
  | .finished => 0
  | .dead _ => 0

/-- The queue of items, the workers, and the results delivered so far, each with its item. -/
structure State (α β ε : Type) where
  queue : List α
  workers : List (Worker α ε)
  results : List (α × β)

/-- All items queued, the given number of idle workers, no results. -/
def State.start (workers : Nat) (items : List α) : State α β ε :=
  ⟨items, List.replicate workers .idle, []⟩

/-- The state whose workers are those `before`, then `worker`, then those `after`. -/
def State.withWorker (queue : List α) (before : List (Worker α ε)) (worker : Worker α ε)
    (after : List (Worker α ε)) (results : List (α × β)) : State α β ε :=
  ⟨queue, before ++ worker :: after, results⟩

/-! ## Moves -/

/-- One move of one worker. -/
inductive Step (task : α → Except ε β) : State α β ε → State α β ε → Prop where
  | take {item queue before after results} :
    Step task (.withWorker (item :: queue) before .idle after results)
      (.withWorker queue before (.holding item) after results)
  | finish {before after results} :
    Step task (.withWorker [] before .idle after results)
      (.withWorker [] before .finished after results)
  | deliver {item result queue before after results} (ok : task item = .ok result) :
    Step task (.withWorker queue before (.holding item) after results)
      (.withWorker queue before .idle after (results ++ [(item, result)]))
  | die {item failure queue before after results} (failed : task item = .error failure) :
    Step task (.withWorker queue before (.holding item) after results)
      (.withWorker queue before (.dead failure) after results)

/-- The moves that workers can still make with the items they hold. -/
def heldWork : List (Worker α ε) → Nat
  | [] => 0
  | worker :: rest => worker.work + heldWork rest

theorem heldWork_append (before after : List (Worker α ε)) :
    heldWork (before ++ after) = heldWork before + heldWork after := by
  induction before with
  | nil => rw [List.nil_append, heldWork, Nat.zero_add]
  | cons worker before ih => rw [List.cons_append, heldWork, heldWork, ih, Nat.add_assoc]

/-- The moves left: two for every queued item, and those of the workers. -/
def State.work (state : State α β ε) : Nat :=
  2 * state.queue.length + heldWork state.workers

theorem work_withWorker (queue : List α) (before : List (Worker α ε)) (worker : Worker α ε)
    (after : List (Worker α ε)) (results : List (α × β)) :
    (State.withWorker queue before worker after results).work =
      2 * queue.length + (heldWork before + (worker.work + heldWork after)) := by
  rw [State.work, State.withWorker, heldWork_append, heldWork]

/-- Every move leaves fewer moves. -/
theorem Step.work_lt {task : α → Except ε β} {state next : State α β ε}
    (step : Step task state next) : next.work < state.work := by
  cases step <;> simp only [work_withWorker, Worker.work, List.length_cons, List.length_nil] <;>
    omega

/-! ## The run in which the first worker moves -/

/-- What a worker does next: the queue it leaves, what it becomes, and what it delivers. -/
def Worker.move? (task : α → Except ε β) (queue : List α) :
    Worker α ε → Option (List α × Worker α ε × List (α × β))
  | .idle =>
    match queue with
    | [] => some ([], .finished, [])
    | item :: rest => some (rest, .holding item, [])
  | .holding item =>
    match task item with
    | .ok result => some (queue, .idle, [(item, result)])
    | .error failure => some (queue, .dead failure, [])
  | .finished => none
  | .dead _ => none

theorem Worker.step_of_move? {task : α → Except ε β} {queue queue' : List α}
    {worker worker' : Worker α ε} {delivered : List (α × β)}
    (h : worker.move? task queue = some (queue', worker', delivered))
    (before after : List (Worker α ε)) (results : List (α × β)) :
    Step task (.withWorker queue before worker after results)
      (.withWorker queue' before worker' after (results ++ delivered)) := by
  cases worker with
  | idle =>
    cases queue with
    | nil =>
      cases h
      rw [List.append_nil]
      exact .finish
    | cons item rest =>
      cases h
      rw [List.append_nil]
      exact .take
  | holding item =>
    simp only [Worker.move?] at h
    split at h
    · rename_i result hok
      cases h
      exact .deliver hok
    · rename_i failure hfailed
      cases h
      rw [List.append_nil]
      exact .die hfailed
  | finished => cases h
  | dead failure => cases h

/-- The move of the first worker that can move, those in `before` being at rest. -/
def State.moveFirst? (task : α → Except ε β) (queue : List α) (results : List (α × β))
    (before : List (Worker α ε)) : List (Worker α ε) → Option (State α β ε)
  | [] => none
  | worker :: after =>
    match worker.move? task queue with
    | some (queue', worker', delivered) =>
      some (.withWorker queue' before worker' after (results ++ delivered))
    | none => moveFirst? task queue results (before ++ [worker]) after

theorem State.step_of_moveFirst? {task : α → Except ε β} {queue : List α}
    {results : List (α × β)} {before after : List (Worker α ε)} {next : State α β ε}
    (h : State.moveFirst? task queue results before after = some next) :
    Step task ⟨queue, before ++ after, results⟩ next := by
  induction after generalizing before with
  | nil => cases h
  | cons worker after ih =>
    unfold State.moveFirst? at h
    split at h
    · rename_i queue' worker' delivered hmove
      cases h
      exact Worker.step_of_move? hmove before after results
    · have hstep := ih h
      rwa [List.append_assoc, List.singleton_append] at hstep

/-- The state after one more move, where a worker can move. -/
def State.next? (task : α → Except ε β) (state : State α β ε) : Option (State α β ε) :=
  State.moveFirst? task state.queue state.results [] state.workers

theorem State.step_of_next? {task : α → Except ε β} {state next : State α β ε}
    (h : state.next? task = some next) : Step task state next :=
  State.step_of_moveFirst? h

/-- The state when no worker can move any more. -/
def State.run (task : α → Except ε β) (state : State α β ε) : State α β ε :=
  match h : state.next? task with
  | none => state
  | some next =>
    have : next.work < state.work := (State.step_of_next? h).work_lt
    State.run task next
termination_by state.work

/-! ## Mapping a task over items -/

/-- The results, or the failure of the first dead worker. -/
def State.outcome (state : State α β ε) : Except ε (List (α × β)) :=
  match state.workers.findSome? Worker.failure? with
  | some failure => .error failure
  | none => .ok state.results

/-- Runs the task on each item in turn, up to the first failure. -/
def sequential (task : α → Except ε β) (items : List α) : Except ε (List (α × β)) :=
  items.mapM fun item => return (item, ← task item)

/-- The size of a pool: a pool has at least one worker. -/
def parallelism (threads : Nat) : Nat := max threads 1

/-- Runs the task on every item with a pool of workers, no more than there are items. A single
worker goes through the items in turn. -/
def map (threads : Nat) (task : α → Except ε β) (items : List α) : Except ε (List (α × β)) :=
  let workers := min (parallelism threads) items.length
  if workers ≤ 1 then sequential task items
  else ((State.start workers items).run task).outcome

end Upsert.Pool
