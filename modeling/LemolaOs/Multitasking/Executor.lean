import LemolaOs.Library.RoundRobin

/-!
# The cooperative executor

`Executor` and `Task` of `kernel/src/multitasking`. A task owns the future it
polls, so it is told from all others by that future; what the futures do is not
modelled, and a poll may answer anything. `run` never returns: `Executor.run` is
the executor after a number of rounds of its loop, for an arbitrary answer to the
poll of every round.

The queue is the library's queue served in turns, and who stays in it is who
answered `Pending`. The priority of a task is kept but never looked at.
-/

namespace LemolaOs.Multitasking

inductive Priority where
  | high
  | default
  deriving DecidableEq, Repr

structure Task where
  priority : Priority
  /-- Which future is in the task's box. -/
  future : Nat
  deriving DecidableEq, Repr

/-- `Poll<()>`. -/
inductive Poll where
  | ready
  | pending
  deriving DecidableEq, Repr

structure Executor where
  taskQueue : List Task
  deriving DecidableEq, Repr

namespace Executor

def new : Executor := ⟨[]⟩

def spawn (e : Executor) (task : Task) : Executor := ⟨e.taskQueue ++ [task]⟩

/-- One round of the loop of `run`; `poll` is what the poll of a task answers. -/
def runOnce (e : Executor) (poll : Task → Poll) : Executor :=
  match e.taskQueue with
  | [] => e
  | task :: rest =>
    match poll task with
    | .ready => ⟨rest⟩
    | .pending => ⟨rest ++ [task]⟩

/-- `run` after `n` rounds, when `poll i` is what polls answer in round `i`. -/
def run (e : Executor) (poll : Nat → Task → Poll) : Nat → Executor
  | 0 => e
  | n + 1 => (e.run poll n).runOnce (poll n)

/-- The task that is polled in round `n`. -/
def polled (e : Executor) (poll : Nat → Task → Poll) (n : Nat) : Option Task :=
  (e.run poll n).taskQueue.head?

/-- An executor with one task for each priority of the list, each with a future of
its own, spawned in this order. -/
def spawnAll (priorities : List Priority) : Executor :=
  priorities.zipIdx.foldl (fun e p => e.spawn ⟨p.1, p.2⟩) new

end Executor

/-- The tasks that `spawnAll` spawns. -/
def tasks (priorities : List Priority) : List Task := priorities.zipIdx.map fun p => ⟨p.1, p.2⟩

theorem nodup_tasks (priorities : List Priority) : (tasks priorities).Nodup := by
  have hfutures : ((tasks priorities).map Task.future).Nodup := by
    have hmap : (tasks priorities).map Task.future = priorities.zipIdx.map Prod.snd := by
      rw [tasks, List.map_map]
      rfl
    rw [hmap, List.zipIdx_map_snd]
    exact List.nodup_range'
  exact hfutures.of_map

namespace Executor

theorem taskQueue_spawnAll (priorities : List Priority) :
    (spawnAll priorities).taskQueue = tasks priorities := by
  have hfold : ∀ (l : List (Priority × Nat)) (e : Executor),
      (l.foldl (fun e p => e.spawn ⟨p.1, p.2⟩) e).taskQueue =
        e.taskQueue ++ l.map fun p => ⟨p.1, p.2⟩ := by
    intro l
    induction l with
    | nil => simp
    | cons p l ih =>
        intro e
        rw [List.foldl_cons, ih]
        simp [spawn]
  exact hfold _ new

/-- A round of the loop is a turn of the queue. -/
theorem taskQueue_runOnce (e : Executor) (poll : Task → Poll) :
    (e.runOnce poll).taskQueue = turn (fun task => poll task = .pending) e.taskQueue := by
  unfold runOnce turn
  cases hqueue : e.taskQueue with
  | nil => exact hqueue
  | cons task rest => cases hpoll : poll task <;> simp [hpoll]

theorem taskQueue_run (e : Executor) (poll : Nat → Task → Poll) (n : Nat) :
    (e.run poll n).taskQueue =
      turns (fun i task => decide (poll i task = .pending)) e.taskQueue n := by
  induction n with
  | zero => rfl
  | succ n ih => rw [run, taskQueue_runOnce, ih, turns]

/-- What the loop of `run` owes to the tasks it was given. -/
structure Schedules (spawned : List Task) (e : Executor) (poll : Nat → Task → Poll) : Prop where
  /-- Before every round the queue holds the spawned tasks that are not yet ready. -/
  queue : ∀ n task, task ∈ (e.run poll n).taskQueue ↔
    task ∈ spawned ∧ ∀ i < n, e.polled poll i = some task → poll i task = .pending
  /-- No task is queued twice. -/
  once : ∀ n, (e.run poll n).taskQueue.Nodup
  /-- Every queued task is polled at some later round. -/
  notLost : ∀ n task, task ∈ (e.run poll n).taskQueue → ∃ j, n ≤ j ∧ e.polled poll j = some task
  notAfterReady : ∀ i j task, e.polled poll i = some task → poll i task = .ready → i < j →
    e.polled poll j ≠ some task
  /-- Between two consecutive polls of a task every other unfinished one is polled
  exactly once. -/
  roundRobin : ∀ i j task other, i < j → e.polled poll i = some task →
    e.polled poll j = some task → (∀ k, i < k → k < j → e.polled poll k ≠ some task) →
    other ∈ (e.run poll i).taskQueue → other ≠ task →
      ∃! k, i < k ∧ k < j ∧ e.polled poll k = some other

/-- Every list of spawned tasks is scheduled round-robin, without loss, whatever
their polls answer. -/
theorem run_schedules (priorities : List Priority) (poll : Nat → Task → Poll) :
    (spawnAll priorities).Schedules (tasks priorities) poll := by
  have hnodup := nodup_tasks priorities
  have hqueue := fun n => taskQueue_run (spawnAll priorities) poll n
  simp only [taskQueue_spawnAll] at hqueue
  refine ⟨?_, ?_, ?_, ?_, ?_⟩
  all_goals simp only [polled, hqueue]
  · intro n task
    rw [mem_turns_iff hnodup]
    simp only [decide_eq_true_eq]
  · exact nodup_turns hnodup
  · intro n task hmem
    exact exists_turn hmem
  · intro i j task hi hready hij hj
    have hstays := stays_of_served_again hnodup hij hi hj
    rw [hready] at hstays
    simp at hstays
  · intro i j task other hij hi hj hnone hother hne
    exact existsUnique_turn_between hnodup hij hi hj hnone hother hne

-- three tasks, of which the second is ready at its first poll
example : (List.range 6).map ((spawnAll [.default, .high, .default]).polled
    fun _ task => if task.future = 1 then .ready else .pending) =
    [some ⟨.default, 0⟩, some ⟨.high, 1⟩, some ⟨.default, 2⟩, some ⟨.default, 0⟩,
      some ⟨.default, 2⟩, some ⟨.default, 0⟩] := by
  decide

end Executor

end LemolaOs.Multitasking
