import ChronoDB.Downsample.Running

namespace ChronoDB.Downsample

open Library Columnstore List

/-!
# The lock of the worker pool

The scheduling loop holds the lock of the pool for reading while it submits a
task.  The result loop holds it for writing while it waits for a result.  Tasks
and results pass through bounded channels, and workers need no lock.
-/

/-- What the result loop does: it wants the lock, or it holds it, and so on. -/
inductive ResultLoop where
  | idle
  | receiving
  | received (result : TaskResult)
  | settling (taskId : String)
  deriving Repr, DecidableEq

structure PoolState where
  scheduler : Scheduler
  /-- The scheduling loop holds the lock. -/
  submitting : Bool
  resultLoop : ResultLoop
  /-- What the channels hold, and what the workers work on. -/
  tasks : List WorkerTask
  working : List WorkerTask
  results : List TaskResult

/-- The capacity of both channels. -/
def taskBuffer : ℕ := 100

inductive PoolAction where
  | scheduler (action : SchedulerAction)
  | lockForSubmit (slots : ℕ) (scheduled : ScheduledTask)
  | send (slots : ℕ) (scheduled : ScheduledTask)
  | dispatch
  | report (task : WorkerTask) (result : TaskResult)
  | lockForResult
  | receive
  | handleTaskResult (now : Timestamp)
  | settle

def PoolAction.IsSubmission : PoolAction → Prop
  | scheduler (.submitTask _ _ _) => True
  | _ => False

/-- The parts of submissions and of one scheduling loop that need no pool. -/
def Scheduler.mayTake (scheduler : Scheduler) : SchedulerAction → Bool
  | .submitTask _ _ _ => true
  | .push _ => true
  | .scheduleTasks => scheduler.operations.all fun other => !other.isLoop
  | .pop _ _ => true
  | .popNothing _ => true
  | .markRunning _ _ _ => true
  | .count _ _ => true
  | _ => false

namespace PoolState

def start : PoolState where
  scheduler := .new
  submitting := false
  resultLoop := .idle
  tasks := []
  working := []
  results := []

def next (concurrency : ℕ) (state : PoolState) :
    PoolAction → Option PoolState
  | .scheduler action =>
    if state.scheduler.mayTake action then
      (state.scheduler.next concurrency action).map fun scheduler =>
        { state with scheduler := scheduler }
    else none
  | .lockForSubmit slots scheduled =>
    if .counted slots scheduled ∈ state.scheduler.operations ∧
        state.submitting = false ∧ state.resultLoop ≠ .receiving then
      some { state with submitting := true }
    else none
  | .send slots scheduled =>
    if state.submitting = true ∧ state.tasks.length < taskBuffer then
      (state.scheduler.next concurrency
        (.dispatch slots scheduled .sent)).map fun scheduler =>
          {
            state with
            scheduler := scheduler
            submitting := false
            tasks := state.tasks ++ [scheduled.workerTask]
          }
    else none
  | .dispatch =>
    match state.tasks with
    | [] => none
    | task :: rest =>
      some { state with tasks := rest, working := task :: state.working }
  | .report task result =>
    if task ∈ state.working ∧ result.taskId = task.taskId ∧
        state.results.length < taskBuffer then
      some {
        state with
        working := state.working.erase task
        results := state.results ++ [result]
      }
    else none
  | .lockForResult =>
    if state.resultLoop = .idle ∧ state.submitting = false then
      some { state with resultLoop := .receiving }
    else none
  | .receive =>
    if state.resultLoop = .receiving then
      match state.results with
      | [] => none
      | result :: rest =>
        some { state with resultLoop := .received result, results := rest }
    else none
  | .handleTaskResult now =>
    match state.resultLoop with
    | .received result =>
      (state.scheduler.next concurrency (.handleTaskResult result now)).map
        fun scheduler =>
          {
            state with
            scheduler := scheduler
            resultLoop := .settling result.taskId
          }
    | _ => none
  | .settle =>
    match state.resultLoop with
    | .settling taskId =>
      (state.scheduler.next concurrency (.settle taskId)).map
        fun scheduler =>
          { state with scheduler := scheduler, resultLoop := .idle }
    | _ => none

/-- A task that was given to the pool has a result still to come. -/
def ResultUnderWay (state : PoolState) : Prop :=
  state.tasks ≠ [] ∨ state.working ≠ [] ∨ state.results ≠ []

/-- The result loop takes the lock only if a result is still to come. -/
def AwaitsResult (state : PoolState) : PoolAction → Prop
  | .lockForResult => state.ResultUnderWay
  | _ => True

/-- A task is pending and a slot is free, but nothing can go on. -/
def LockedUp (concurrency : ℕ) (state : PoolState) : Prop :=
  (∃ taskId, state.scheduler.statusOf taskId = some .pending) ∧
    state.scheduler.runningTasks.card < concurrency ∧
      ∀ action after,
        state.next concurrency action = some after → action.IsSubmission

end PoolState

/-- One step of a submission, of one of the two loops or of the pool. -/
def PoolStep (concurrency : ℕ) (before : PoolState) (action : PoolAction)
    (after : PoolState) :
    Prop :=
  before.next concurrency action = some after

/-!
## Something is always possible
-/

namespace PoolState

variable {concurrency : ℕ} {before after : PoolState}
variable {action : PoolAction}

/-- Holders of the lock are in the middle of what they hold it for. -/
structure Sound (state : PoolState) : Prop where
  submits :
    state.submitting = true →
      ∃ slots scheduled, .counted slots scheduled ∈ state.scheduler.operations
  settles :
    ∀ taskId, state.resultLoop = .settling taskId →
      .settling taskId ∈ state.scheduler.operations
  awaits : state.resultLoop = .receiving → state.ResultUnderWay

theorem sound_start : start.Sound where
  submits := fun submits => Bool.noConfusion submits
  settles := fun _ settles => ResultLoop.noConfusion settles
  awaits := fun receives => ResultLoop.noConfusion receives

theorem mem_operations_of_mayTake
    {before after : Scheduler} {action : SchedulerAction}
    (may : before.mayTake action = true)
    (step : SchedulerStep concurrency before action after)
    {operation : Operation}
    (holds :
      (∃ slots scheduled, operation = .counted slots scheduled) ∨
        ∃ taskId, operation = .settling taskId)
    (inProgress : operation ∈ before.operations) :
    operation ∈ after.operations := by
  have effect := effect_of_step step
  have differs :
      ∀ {other : Operation},
        (∀ slots scheduled, other ≠ .counted slots scheduled) →
        (∀ taskId, other ≠ .settling taskId) → operation ≠ other := by
    rintro other notCounted notSettling rfl
    rcases holds with ⟨slots, scheduled, same⟩ | ⟨taskId, same⟩
    · exact notCounted slots scheduled same
    · exact notSettling taskId same
  cases effect with
  | submitted | scheduling free => exact mem_cons_of_mem _ inProgress
  | full => exact inProgress
  | pushed isOld | popped isOld queued | nothingPopped isOld
  | marked isOld starts | skipped isOld | counted isOld =>
    refine Scheduler.mem_resume_of_ne _ (differs ?_ ?_) inProgress <;>
      intros <;> exact Operation.noConfusion
  | refused | cancelled cancels | settled isOld
  | dispatched isOld isSent isNext | checked | expired isOld
  | uncounted isOld | reported => cases may

/-- A step keeps the pool sound if the lock is taken only to await a result. -/
theorem sound_of_step
    (sound : before.Sound) (awaits : before.AwaitsResult action)
    (step : PoolStep concurrency before action after) :
    after.Sound := by
  rw [PoolStep] at step
  cases action with
  | scheduler action =>
    obtain ⟨may, isNext⟩ := Option.ite_none_right_eq_some.mp step
    obtain ⟨scheduler, taken, rfl⟩ := Option.map_eq_some_iff.mp isNext
    refine ⟨fun submits => ?_, fun taskId settles => ?_, sound.awaits⟩
    · obtain ⟨slots, scheduled, inProgress⟩ := sound.submits submits
      exact ⟨slots, scheduled, mem_operations_of_mayTake may taken
        (.inl ⟨slots, scheduled, rfl⟩) inProgress⟩
    · exact mem_operations_of_mayTake may taken (.inr ⟨taskId, rfl⟩)
        (sound.settles taskId settles)
  | lockForSubmit slots scheduled =>
    obtain ⟨possible, isNext⟩ := Option.ite_none_right_eq_some.mp step
    cases isNext
    exact ⟨fun _ => ⟨slots, scheduled, possible.1⟩, sound.settles, sound.awaits⟩
  | send slots scheduled =>
    obtain ⟨_, isNext⟩ := Option.ite_none_right_eq_some.mp step
    obtain ⟨scheduler, taken, rfl⟩ := Option.map_eq_some_iff.mp isNext
    refine ⟨fun submits => Bool.noConfusion submits,
      fun taskId settles => ?_, fun _ => .inl ?_⟩
    · obtain ⟨_, isNext⟩ := Option.ite_none_right_eq_some.mp taken
      cases isNext
      exact Scheduler.mem_resume_of_ne _ Operation.noConfusion
        (sound.settles taskId settles)
    · exact append_ne_nil_of_right_ne_nil _ (cons_ne_nil _ _)
  | dispatch =>
    rw [next] at step
    split at step
    · cases step
    · cases step
      exact ⟨sound.submits, sound.settles,
        fun _ => .inr (.inl (cons_ne_nil _ _))⟩
  | report task result =>
    obtain ⟨_, isNext⟩ := Option.ite_none_right_eq_some.mp step
    cases isNext
    refine ⟨sound.submits, sound.settles, fun _ => .inr (.inr ?_)⟩
    exact append_ne_nil_of_right_ne_nil _ (cons_ne_nil _ _)
  | lockForResult =>
    obtain ⟨_, isNext⟩ := Option.ite_none_right_eq_some.mp step
    cases isNext
    exact ⟨sound.submits, fun _ settles => ResultLoop.noConfusion settles,
      fun _ => awaits⟩
  | receive =>
    obtain ⟨_, isNext⟩ := Option.ite_none_right_eq_some.mp step
    split at isNext
    · cases isNext
    · cases isNext
      exact ⟨sound.submits,
        fun _ settles => ResultLoop.noConfusion settles,
        fun receives => ResultLoop.noConfusion receives⟩
  | handleTaskResult now =>
    rw [next] at step
    split at step
    · cases step
      refine ⟨fun submits => ?_, fun taskId settles => ?_,
        fun receives => ResultLoop.noConfusion receives⟩
      · obtain ⟨slots, scheduled, inProgress⟩ := sound.submits submits
        exact ⟨slots, scheduled, mem_cons_of_mem _ inProgress⟩
      · cases settles
        exact mem_cons_self
    · cases step
  | settle =>
    rw [next] at step
    split at step
    · obtain ⟨scheduler, taken, rfl⟩ := Option.map_eq_some_iff.mp step
      refine ⟨fun submits => ?_,
        fun _ settles => ResultLoop.noConfusion settles,
        fun receives => ResultLoop.noConfusion receives⟩
      obtain ⟨slots, scheduled, inProgress⟩ := sound.submits submits
      obtain ⟨_, isNext⟩ := Option.ite_none_right_eq_some.mp taken
      cases isNext
      exact ⟨slots, scheduled,
        Scheduler.mem_resume_of_ne _ Operation.noConfusion inProgress⟩
    · cases step

theorem exists_step_of_isSome (action : PoolAction)
    (possible : (before.next concurrency action).isSome = true)
    (isOther : ¬action.IsSubmission) :
    ∃ action after,
      PoolStep concurrency before action after ∧ ¬action.IsSubmission := by
  obtain ⟨after, step⟩ := Option.isSome_iff_exists.mp possible
  exact ⟨action, after, step, isOther⟩

/-- A result that a worker can always report. -/
def doneResult (task : WorkerTask) : TaskResult :=
  ⟨task.taskId, true, 0, 0, none⟩

theorem exists_step_of_resultUnderWay
    (receives : before.resultLoop = .receiving)
    (underWay : before.ResultUnderWay) :
    ∃ action after,
      PoolStep concurrency before action after ∧ ¬action.IsSubmission := by
  rcases underWay with sent | working | reported
  · obtain ⟨task, rest, isTasks⟩ := exists_cons_of_ne_nil sent
    refine exists_step_of_isSome .dispatch ?_ id
    rw [next, isTasks]
    rfl
  · by_cases full : before.results.length < taskBuffer
    · obtain ⟨task, inWork⟩ := exists_mem_of_ne_nil _ working
      have possible :
          task ∈ before.working ∧ (doneResult task).taskId = task.taskId ∧
            before.results.length < taskBuffer :=
        ⟨inWork, rfl, full⟩
      refine exists_step_of_isSome (.report task (doneResult task)) ?_ id
      rw [next, if_pos possible]
      rfl
    · have nonempty : before.results ≠ [] := by
        rintro empty
        rw [empty] at full
        exact full (by decide)
      obtain ⟨result, rest, isResults⟩ := exists_cons_of_ne_nil nonempty
      refine exists_step_of_isSome .receive ?_ id
      rw [next, if_pos receives, isResults]
      rfl
  · obtain ⟨result, rest, isResults⟩ := exists_cons_of_ne_nil reported
    refine exists_step_of_isSome .receive ?_ id
    rw [next, if_pos receives, isResults]
    rfl

theorem exists_step (sound : before.Sound) :
    ∃ action after,
      PoolStep concurrency before action after ∧ ¬action.IsSubmission := by
  cases loop : before.resultLoop with
  | receiving => exact exists_step_of_resultUnderWay loop (sound.awaits loop)
  | received result =>
    refine exists_step_of_isSome (.handleTaskResult 0) ?_ id
    rw [next, loop]
    rfl
  | settling taskId =>
    refine exists_step_of_isSome .settle ?_ id
    rw [next, loop]
    dsimp only
    rw [Scheduler.next, if_pos (sound.settles taskId loop)]
    rfl
  | idle =>
    cases submits : before.submitting with
    | false =>
      refine exists_step_of_isSome .lockForResult ?_ id
      rw [next, if_pos ⟨loop, submits⟩]
      rfl
    | true =>
      by_cases room : before.tasks.length < taskBuffer
      · obtain ⟨slots, scheduled, inProgress⟩ := sound.submits submits
        refine exists_step_of_isSome (.send slots scheduled) ?_ id
        rw [next, if_pos ⟨submits, room⟩, Scheduler.next, if_pos inProgress]
        rfl
      · have nonempty : before.tasks ≠ [] := by
          rintro empty
          rw [empty] at room
          exact room (by decide)
        obtain ⟨task, rest, isTasks⟩ := exists_cons_of_ne_nil nonempty
        refine exists_step_of_isSome .dispatch ?_ id
        rw [next, isTasks]
        rfl

/-- The result loop holds the lock, and no result will ever come. -/
structure Starved (state : PoolState) : Prop where
  receives : state.resultLoop = .receiving
  submitsNot : state.submitting = false
  nothing : ¬state.ResultUnderWay

theorem exists_scheduler_of_starved (starved : before.Starved)
    (step : PoolStep concurrency before action after) :
    ∃ own scheduler,
      action = .scheduler own ∧ before.scheduler.mayTake own = true ∧
        SchedulerStep concurrency before.scheduler own scheduler ∧
          after = { before with scheduler := scheduler } := by
  obtain ⟨receives, submitsNot, nothing⟩ := starved
  rw [PoolStep] at step
  cases action with
  | scheduler own =>
    rw [next] at step
    split at step
    · rename_i may
      obtain ⟨scheduler, taken, rfl⟩ := Option.map_eq_some_iff.mp step
      exact ⟨own, scheduler, rfl, may, taken, rfl⟩
    · cases step
  | lockForSubmit slots scheduled =>
    rw [next] at step
    split at step
    · rename_i possible
      exact absurd receives possible.2.2
    · cases step
  | send slots scheduled =>
    rw [next, submitsNot] at step
    cases step
  | dispatch =>
    have noTasks : before.tasks = [] :=
      Classical.not_not.mp fun sent => nothing (.inl sent)
    rw [next, noTasks] at step
    cases step
  | report task result =>
    rw [next] at step
    split at step
    · rename_i possible
      exact absurd (.inr (.inl (ne_nil_of_mem possible.1))) nothing
    · cases step
  | receive =>
    have noResults : before.results = [] :=
      Classical.not_not.mp fun reported => nothing (.inr (.inr reported))
    rw [next, if_pos receives, noResults] at step
    cases step
  | lockForResult | handleTaskResult now | settle =>
    rw [next, receives] at step
    cases step

theorem starved_of_step (starved : before.Starved)
    (step : PoolStep concurrency before action after) :
    after.Starved := by
  obtain ⟨own, scheduler, rfl, _, _, rfl⟩ :=
    exists_scheduler_of_starved starved step
  exact ⟨starved.receives, starved.submitsNot, starved.nothing⟩

theorem starved_of_not_awaitsResult (violates : ¬before.AwaitsResult action)
    (step : PoolStep concurrency before action after) :
    after.Starved := by
  rw [PoolStep] at step
  cases action with
  | lockForResult =>
    rw [next] at step
    split at step
    · rename_i possible
      cases step
      exact ⟨rfl, possible.2, violates⟩
    · cases step
  | scheduler _ | lockForSubmit _ _ | send _ _ | dispatch | report _ _
  | receive | handleTaskResult _ | settle => exact absurd trivial violates

theorem starved_of_not_awaiting_run {actions : List PoolAction}
    (run : Run (PoolStep concurrency) before actions after)
    (violates :
      ¬Run (Restrict (PoolStep concurrency) AwaitsResult) before actions
        after) :
    after.Starved := by
  induction run with
  | nil state => exact absurd (.nil state) violates
  | @cons initial middle final action rest first later inductionHypothesis =>
    by_cases awaits : initial.AwaitsResult action
    · apply inductionHypothesis
      intro restricted
      exact violates (.cons ⟨awaits, first⟩ restricted)
    · have starved := starved_of_not_awaitsResult awaits first
      refine later.preserves ?_ starved
      intro before action after starvedBefore step
      exact starved_of_step starvedBefore step

theorem isSubmission_of_starved
    (starved : before.Starved) {slots : ℕ} {scheduled : ScheduledTask}
    (wants : before.scheduler.operations = [.counted slots scheduled])
    (step : PoolStep concurrency before action after) :
    action.IsSubmission := by
  obtain ⟨own, scheduler, rfl, may, taken, rfl⟩ :=
    exists_scheduler_of_starved starved step
  cases own with
  | submitTask task priority now => trivial
  | scheduleTasks =>
    rw [Scheduler.mayTake, wants] at may
    cases may
  | push _ | pop _ _ | popNothing _ | markRunning _ _ _ | count _ _ =>
    simp [SchedulerStep, Scheduler.next, wants] at taken
  | cancelTask _ | settle _ | dispatch _ _ _ | checkTimeouts _
  | expire _ _ | uncount _ _ | handleTaskResult _ _ => cases may

end PoolState

/--
A pool whose result loop takes the lock only while a result is still to come is
never locked up.  Otherwise the result loop holds the lock for ever, and no task
gets to the pool any more.
-/
theorem not_lockedUp_of_awaiting_run {concurrency : ℕ}
    {actions : List PoolAction} {final : PoolState}
    (run : Run (PoolStep concurrency) PoolState.start actions final) :
    (Run (Restrict (PoolStep concurrency) PoolState.AwaitsResult)
        PoolState.start actions final →
      ¬final.LockedUp concurrency) ∧
    (¬Run (Restrict (PoolStep concurrency) PoolState.AwaitsResult)
        PoolState.start actions final →
      final.Starved) := by
  refine ⟨fun restricted => ?_, PoolState.starved_of_not_awaiting_run run⟩
  have sound : final.Sound := by
    refine restricted.preserves ?_ PoolState.sound_start
    intro before action after sound step
    exact PoolState.sound_of_step sound step.1 step.2
  obtain ⟨action, after, step, isOther⟩ :=
    @PoolState.exists_step concurrency final sound
  rintro ⟨_, _, submits⟩
  exact isOther (submits action after step)

/-!
## Runs with two tasks
-/

/-- Another task with an id of its own. -/
def otherScheduled : ScheduledTask where
  task := { exampleTask with taskId := "ds_1_0_1000_1" }
  priority := .normal
  enqueueTime := 2

/-- Two tasks are submitted. -/
def submitBoth : List PoolAction := [
  .scheduler (.submitTask exampleTask .normal 1),
  .scheduler (.push exampleScheduled),
  .scheduler (.submitTask otherScheduled.task .normal 2),
  .scheduler (.push otherScheduled)
]

/-- The scheduling loop takes the first task and enters it as running. -/
def startFirst : List PoolAction := [
  .scheduler .scheduleTasks,
  .scheduler (.pop 1 exampleScheduled),
  .scheduler (.markRunning 1 exampleScheduled 3),
  .scheduler (.count 1 exampleScheduled)
]

/-- If the first task is sent before the result loop starts, all goes on. -/
theorem first_task_sent_goes_on :
    ∃ final,
      Run (PoolStep 2) PoolState.start
          (submitBoth ++ startFirst ++
            [.lockForSubmit 1 exampleScheduled, .send 1 exampleScheduled,
              .lockForResult])
          final ∧
        final.resultLoop = .receiving ∧ ¬final.LockedUp 2 := by
  have restricted :
      ∃ final,
        Run (Restrict (PoolStep 2) PoolState.AwaitsResult) PoolState.start
            (submitBoth ++ startFirst ++
              [.lockForSubmit 1 exampleScheduled, .send 1 exampleScheduled,
                .lockForResult])
            final ∧
          final.resultLoop = .receiving := by
    refine ⟨_, .cons ⟨trivial, rfl⟩ (.cons ⟨trivial, rfl⟩
      (.cons ⟨trivial, rfl⟩ (.cons ⟨trivial, rfl⟩ (.cons ⟨trivial, rfl⟩
      (.cons ⟨trivial, rfl⟩ (.cons ⟨trivial, rfl⟩ (.cons ⟨trivial, rfl⟩
      (.cons ⟨trivial, rfl⟩ (.cons ⟨trivial, rfl⟩
      (.cons ⟨.inl (cons_ne_nil _ _), rfl⟩ (.nil _))))))))))), rfl⟩
  obtain ⟨final, restrictedRun, receives⟩ := restricted
  have run := restrictedRun.ofRestrict
  exact ⟨final, run, receives,
    (not_lockedUp_of_awaiting_run run).1 restrictedRun⟩

/-- If the result loop takes the lock first, the second task never starts. -/
theorem result_loop_locks_up_pool :
    ¬ ∀ final,
      Run (PoolStep 2) PoolState.start
        (submitBoth ++ [.lockForResult] ++ startFirst) final →
      ¬final.LockedUp 2 := by
  intro goesOn
  obtain ⟨final, run, starved, wants, isPending, free⟩ :
      ∃ final,
        Run (PoolStep 2) PoolState.start
            (submitBoth ++ [.lockForResult] ++ startFirst) final ∧
          final.Starved ∧
            final.scheduler.operations = [.counted 1 exampleScheduled] ∧
              final.scheduler.statusOf otherScheduled.task.taskId =
                  some .pending ∧
                final.scheduler.runningTasks.card < 2 := by
    refine ⟨_, .cons rfl (.cons rfl (.cons rfl (.cons rfl (.cons rfl
      (.cons rfl (.cons rfl (.cons rfl (.cons rfl (.nil _))))))))), ?_, rfl,
      rfl, by decide⟩
    refine ⟨rfl, rfl, ?_⟩
    rintro (sent | working | reported)
    · exact sent rfl
    · exact working rfl
    · exact reported rfl
  apply goesOn final run
  refine ⟨⟨_, isPending⟩, free, fun action after step => ?_⟩
  exact PoolState.isSubmission_of_starved starved wants step

end ChronoDB.Downsample
