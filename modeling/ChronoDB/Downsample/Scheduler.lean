import ChronoDB.Downsample.Worker
import Mathlib.Data.Finset.Insert

namespace ChronoDB.Downsample

open Library Columnstore

/-!
# The downsample scheduler

The operations of the scheduler hold no lock across their parts, so other
operations can run between any two parts.  A state keeps what every operation
in progress has yet to do, and a step is one part of one operation.
-/

inductive TaskPriority where
  | low
  | normal
  | high
  | critical
  deriving Repr, DecidableEq

def TaskPriority.rank : TaskPriority → ℕ
  | low => 0
  | normal => 1
  | high => 2
  | critical => 3

structure ScheduledTask where
  task : DownsampleTask
  priority : TaskPriority
  enqueueTime : Timestamp
  deriving Repr, DecidableEq

/-- The order of the queue: by priority, then the one that came first. -/
def ScheduledTask.NotBefore (first second : ScheduledTask) : Prop :=
  second.priority.rank < first.priority.rank ∨
    second.priority.rank = first.priority.rank ∧
      first.enqueueTime ≤ second.enqueueTime

instance (first second : ScheduledTask) :
    Decidable (first.NotBefore second) :=
  inferInstanceAs (Decidable (_ ∨ _))

def ScheduledTask.workerTask (scheduled : ScheduledTask) : WorkerTask where
  taskId := scheduled.task.taskId
  targetLevel := scheduled.task.targetLevel
  sourceLevel := scheduled.task.sourceLevel
  startTime := scheduled.task.startTime
  endTime := scheduled.task.endTime
  seriesIds := scheduled.task.seriesIds.getD []

abbrev AllTasks := FiniteMap String DownsampleTask

/-!
## The parts of the operations that hold the lock of all tasks
-/

namespace AllTasks

def update (tasks : AllTasks) (taskId : String)
    (change : DownsampleTask → DownsampleTask) :
    AllTasks :=
  match tasks.lookup taskId with
  | none => tasks
  | some task => tasks.insert taskId (change task)

/-- Whether `cancel_task` cancels a task. -/
def canCancel (tasks : AllTasks) (taskId : String) : Bool :=
  match tasks.lookup taskId with
  | none => false
  | some task => !task.status.isTerminal

/-- Whether `schedule_tasks` starts a task that it took from the queue. -/
def canStart (tasks : AllTasks) (taskId : String) : Bool :=
  match tasks.lookup taskId with
  | none => false
  | some task => !(task.status.isTerminal || task.status = .running)

/-- The tasks that ran too long, each by its own reading of the clock. -/
def timeoutTasks (tasks : AllTasks) (now : String → Timestamp) :
    List String :=
  tasks.keys.filter fun taskId =>
    match tasks.lookup taskId with
    | none => false
    | some task => task.status = .running && task.isTimeout (now taskId)

/-- What `check_timeouts` does to a task that it found before. -/
def expire (task : DownsampleTask) : DownsampleTask :=
  if task.canRetry then task.resetForRetry
  else task.markFailed "Task timeout"

/-- What `handle_task_result` does to the task of the result. -/
def report (result : TaskResult) (now : Timestamp) (task : DownsampleTask) :
    DownsampleTask :=
  let error := result.error.getD "Unknown error"
  if result.success then
    task.markCompleted result.samplesProcessed result.samplesGenerated now
  else if task.canRetry then
    (task.markFailed error).resetForRetry
  else
    task.markFailed error

end AllTasks

/-!
## States and steps
-/

/-- What an operation in progress has yet to do. -/
inductive Operation where
  | submitting (scheduled : ScheduledTask)
  | settling (taskId : String)
  | scheduling (slots : ℕ)
  | popped (slots : ℕ) (scheduled : ScheduledTask)
  | marked (slots : ℕ) (scheduled : ScheduledTask)
  | counted (slots : ℕ) (scheduled : ScheduledTask)
  | expiring (taskIds : List String)
  | expired (taskId : String) (taskIds : List String)
  deriving Repr, DecidableEq

structure Scheduler where
  taskQueue : List ScheduledTask
  runningTasks : Finset String
  allTasks : AllTasks
  /-- What the pool was given. -/
  sent : List WorkerTask
  operations : List Operation

/-- How handing a task to the pool can end. -/
inductive Submission where
  | sent
  | noPool
  | failed
  deriving Repr, DecidableEq

inductive SchedulerAction where
  | submitTask
      (task : DownsampleTask)
      (priority : TaskPriority)
      (now : Timestamp)
  | push (scheduled : ScheduledTask)
  | cancelTask (taskId : String)
  | settle (taskId : String)
  | scheduleTasks
  | pop (slots : ℕ) (scheduled : ScheduledTask)
  | popNothing (slots : ℕ)
  | markRunning (slots : ℕ) (scheduled : ScheduledTask) (now : Timestamp)
  | count (slots : ℕ) (scheduled : ScheduledTask)
  | dispatch (slots : ℕ) (scheduled : ScheduledTask) (outcome : Submission)
  | checkTimeouts (now : String → Timestamp)
  | expire (taskId : String) (taskIds : List String)
  | uncount (taskId : String) (taskIds : List String)
  | handleTaskResult (result : TaskResult) (now : Timestamp)

namespace Scheduler

def new : Scheduler where
  taskQueue := []
  runningTasks := ∅
  allTasks := ∅
  sent := []
  operations := []

/-- Go on with an operation, which has other things to do now or nothing. -/
def resume
    (scheduler : Scheduler) (operation : Operation) (next : List Operation) :
    Scheduler :=
  {
    scheduler with
    operations := next ++ scheduler.operations.erase operation
  }

/-- The loop of `schedule_tasks` with some slots left. -/
def loopWith (slots : ℕ) : List Operation :=
  if slots = 0 then [] else [.scheduling slots]

/-- The loop of `check_timeouts` with some tasks left. -/
def expireWith (taskIds : List String) : List Operation :=
  if taskIds = [] then [] else [.expiring taskIds]

/-- The next state, if the operation is in progress and the action possible. -/
def next (concurrency : ℕ) (scheduler : Scheduler) :
    SchedulerAction → Option Scheduler
  | .submitTask task priority now =>
    some {
      scheduler with
      allTasks := scheduler.allTasks.insert task.taskId task
      operations := .submitting ⟨task, priority, now⟩ :: scheduler.operations
    }
  | .push scheduled =>
    if .submitting scheduled ∈ scheduler.operations then
      some {
        scheduler.resume (.submitting scheduled) [] with
        taskQueue := scheduled :: scheduler.taskQueue
      }
    else none
  | .cancelTask taskId =>
    if scheduler.allTasks.canCancel taskId then
      some {
        scheduler with
        allTasks :=
          scheduler.allTasks.update taskId DownsampleTask.markCancelled
        operations := .settling taskId :: scheduler.operations
      }
    else some scheduler
  | .settle taskId =>
    if .settling taskId ∈ scheduler.operations then
      some {
        scheduler.resume (.settling taskId) [] with
        runningTasks := scheduler.runningTasks.erase taskId
      }
    else none
  | .scheduleTasks =>
    let currentRunning := scheduler.runningTasks.card
    if concurrency ≤ currentRunning then some scheduler
    else
      some {
        scheduler with
        operations :=
          .scheduling (concurrency - currentRunning) :: scheduler.operations
      }
  | .pop slots scheduled =>
    if .scheduling (slots + 1) ∈ scheduler.operations ∧
        scheduled ∈ scheduler.taskQueue ∧
        ∀ other ∈ scheduler.taskQueue, scheduled.NotBefore other then
      some {
        scheduler.resume (.scheduling (slots + 1))
          [.popped slots scheduled] with
        taskQueue := scheduler.taskQueue.erase scheduled
      }
    else none
  | .popNothing slots =>
    if .scheduling slots ∈ scheduler.operations ∧ scheduler.taskQueue = [] then
      some (scheduler.resume (.scheduling slots) [])
    else none
  | .markRunning slots scheduled now =>
    let taskId := scheduled.task.taskId
    if .popped slots scheduled ∈ scheduler.operations then
      if scheduler.allTasks.canStart taskId then
        some {
          scheduler.resume (.popped slots scheduled)
            [.marked slots scheduled] with
          allTasks :=
            scheduler.allTasks.update taskId fun task =>
              task.markRunning now
        }
      else
        some (scheduler.resume (.popped slots scheduled) (loopWith slots))
    else none
  | .count slots scheduled =>
    if .marked slots scheduled ∈ scheduler.operations then
      some {
        scheduler.resume (.marked slots scheduled)
          [.counted slots scheduled] with
        runningTasks := insert scheduled.task.taskId scheduler.runningTasks
      }
    else none
  | .dispatch slots scheduled outcome =>
    if .counted slots scheduled ∈ scheduler.operations then
      match outcome with
      | .sent =>
        some {
          scheduler.resume (.counted slots scheduled) (loopWith slots) with
          sent := scheduler.sent ++ [scheduled.workerTask]
        }
      | .noPool =>
        some (scheduler.resume (.counted slots scheduled) (loopWith slots))
      | .failed => some (scheduler.resume (.counted slots scheduled) [])
    else none
  | .checkTimeouts now =>
    some {
      scheduler with
      operations :=
        expireWith (scheduler.allTasks.timeoutTasks now) ++ scheduler.operations
    }
  | .expire taskId taskIds =>
    if .expiring (taskId :: taskIds) ∈ scheduler.operations then
      some {
        scheduler.resume (.expiring (taskId :: taskIds))
          [.expired taskId taskIds] with
        allTasks := scheduler.allTasks.update taskId AllTasks.expire
      }
    else none
  | .uncount taskId taskIds =>
    if .expired taskId taskIds ∈ scheduler.operations then
      some {
        scheduler.resume (.expired taskId taskIds) (expireWith taskIds) with
        runningTasks := scheduler.runningTasks.erase taskId
      }
    else none
  | .handleTaskResult result now =>
    some {
      scheduler with
      allTasks :=
        scheduler.allTasks.update result.taskId (AllTasks.report result now)
      operations := .settling result.taskId :: scheduler.operations
    }

end Scheduler

/-- One part of one operation. -/
def SchedulerStep
    (concurrency : ℕ) (before : Scheduler) (action : SchedulerAction)
    (after : Scheduler) :
    Prop :=
  before.next concurrency action = some after

/-!
## What a step does
-/

section Effects

variable {concurrency : ℕ} {before after : Scheduler}
variable {action : SchedulerAction}

inductive Effect (concurrency : ℕ) (before : Scheduler) :
    SchedulerAction → Scheduler → Prop where
  | submitted
      {task : DownsampleTask}
      {priority : TaskPriority}
      {now : Timestamp} :
      Effect concurrency before (.submitTask task priority now)
        {
          before with
          allTasks := before.allTasks.insert task.taskId task
          operations := .submitting ⟨task, priority, now⟩ :: before.operations
        }
  | pushed
      {scheduled : ScheduledTask}
      (inProgress : .submitting scheduled ∈ before.operations) :
      Effect concurrency before (.push scheduled)
        {
          before.resume (.submitting scheduled) [] with
          taskQueue := scheduled :: before.taskQueue
        }
  | refused
      {taskId : String} :
      Effect concurrency before (.cancelTask taskId) before
  | cancelled
      {taskId : String}
      (cancels : before.allTasks.canCancel taskId = true) :
      Effect concurrency before (.cancelTask taskId)
        {
          before with
          allTasks := before.allTasks.update taskId DownsampleTask.markCancelled
          operations := .settling taskId :: before.operations
        }
  | settled
      {taskId : String}
      (inProgress : .settling taskId ∈ before.operations) :
      Effect concurrency before (.settle taskId)
        {
          before.resume (.settling taskId) [] with
          runningTasks := before.runningTasks.erase taskId
        }
  | full :
      Effect concurrency before .scheduleTasks before
  | scheduling
      (free : before.runningTasks.card < concurrency) :
      Effect concurrency before .scheduleTasks
        {
          before with
          operations :=
            .scheduling (concurrency - before.runningTasks.card) ::
              before.operations
        }
  | popped
      {slots : ℕ}
      {scheduled : ScheduledTask}
      (inProgress : .scheduling (slots + 1) ∈ before.operations)
      (queued : scheduled ∈ before.taskQueue) :
      Effect concurrency before (.pop slots scheduled)
        {
          before.resume (.scheduling (slots + 1)) [.popped slots scheduled] with
          taskQueue := before.taskQueue.erase scheduled
        }
  | nothingPopped
      {slots : ℕ}
      (inProgress : .scheduling slots ∈ before.operations) :
      Effect concurrency before (.popNothing slots)
        (before.resume (.scheduling slots) [])
  | marked
      {slots : ℕ}
      {scheduled : ScheduledTask}
      {now : Timestamp}
      (inProgress : .popped slots scheduled ∈ before.operations)
      (starts : before.allTasks.canStart scheduled.task.taskId = true) :
      Effect concurrency before (.markRunning slots scheduled now)
        {
          before.resume (.popped slots scheduled) [.marked slots scheduled] with
          allTasks :=
            before.allTasks.update scheduled.task.taskId fun task =>
              task.markRunning now
        }
  | skipped
      {slots : ℕ}
      {scheduled : ScheduledTask}
      {now : Timestamp}
      (inProgress : .popped slots scheduled ∈ before.operations) :
      Effect concurrency before (.markRunning slots scheduled now)
        (before.resume (.popped slots scheduled) (Scheduler.loopWith slots))
  | counted
      {slots : ℕ}
      {scheduled : ScheduledTask}
      (inProgress : .marked slots scheduled ∈ before.operations) :
      Effect concurrency before (.count slots scheduled)
        {
          before.resume (.marked slots scheduled)
            [.counted slots scheduled] with
          runningTasks := insert scheduled.task.taskId before.runningTasks
        }
  | dispatched
      {slots : ℕ}
      {scheduled : ScheduledTask}
      {outcome : Submission}
      {sent : List WorkerTask}
      {next : List Operation}
      (inProgress : .counted slots scheduled ∈ before.operations)
      (isSent : sent = [] ∨ sent = [scheduled.workerTask])
      (isNext : next = [] ∨ next = Scheduler.loopWith slots) :
      Effect concurrency before (.dispatch slots scheduled outcome)
        {
          before.resume (.counted slots scheduled) next with
          sent := before.sent ++ sent
        }
  | checked
      {now : String → Timestamp} :
      Effect concurrency before (.checkTimeouts now)
        {
          before with
          operations :=
            Scheduler.expireWith (before.allTasks.timeoutTasks now) ++
              before.operations
        }
  | expired
      {taskId : String}
      {taskIds : List String}
      (inProgress : .expiring (taskId :: taskIds) ∈ before.operations) :
      Effect concurrency before (.expire taskId taskIds)
        {
          before.resume (.expiring (taskId :: taskIds))
            [.expired taskId taskIds] with
          allTasks := before.allTasks.update taskId AllTasks.expire
        }
  | uncounted
      {taskId : String}
      {taskIds : List String}
      (inProgress : .expired taskId taskIds ∈ before.operations) :
      Effect concurrency before (.uncount taskId taskIds)
        {
          before.resume (.expired taskId taskIds)
            (Scheduler.expireWith taskIds) with
          runningTasks := before.runningTasks.erase taskId
        }
  | reported
      {result : TaskResult}
      {now : Timestamp} :
      Effect concurrency before (.handleTaskResult result now)
        {
          before with
          allTasks :=
            before.allTasks.update result.taskId (AllTasks.report result now)
          operations := .settling result.taskId :: before.operations
        }

/-- Every step has one of these effects. -/
theorem effect_of_step (step : SchedulerStep concurrency before action after) :
    Effect concurrency before action after := by
  rw [SchedulerStep] at step
  cases action with
  | submitTask task priority now =>
    cases step
    exact .submitted
  | handleTaskResult result now =>
    cases step
    exact .reported
  | checkTimeouts now =>
    cases step
    exact .checked
  | cancelTask taskId =>
    rw [Scheduler.next] at step
    split at step
    · rename_i cancels
      cases step
      exact .cancelled cancels
    · cases step
      exact .refused
  | scheduleTasks =>
    rw [Scheduler.next] at step
    split at step
    · cases step
      exact .full
    · rename_i free
      cases step
      exact .scheduling (Nat.lt_of_not_le free)
  | markRunning slots scheduled now =>
    obtain ⟨inProgress, isNext⟩ := Option.ite_none_right_eq_some.mp step
    split at isNext
    · rename_i starts
      cases isNext
      exact .marked inProgress starts
    · cases isNext
      exact .skipped inProgress
  | dispatch slots scheduled outcome =>
    cases outcome with
    | sent =>
      obtain ⟨inProgress, isNext⟩ := Option.ite_none_right_eq_some.mp step
      cases isNext
      exact .dispatched inProgress (.inr rfl) (.inr rfl)
    | noPool =>
      obtain ⟨inProgress, isNext⟩ := Option.ite_none_right_eq_some.mp step
      cases isNext
      have effect :=
        @Effect.dispatched concurrency before slots scheduled .noPool []
          _ inProgress (.inl rfl) (.inr rfl)
      rwa [List.append_nil] at effect
    | failed =>
      obtain ⟨inProgress, isNext⟩ := Option.ite_none_right_eq_some.mp step
      cases isNext
      have effect :=
        @Effect.dispatched concurrency before slots scheduled .failed []
          _ inProgress (.inl rfl) (.inl rfl)
      rwa [List.append_nil] at effect
  | pop slots scheduled =>
    obtain ⟨possible, isNext⟩ := Option.ite_none_right_eq_some.mp step
    cases isNext
    exact .popped possible.1 possible.2.1
  | popNothing slots =>
    obtain ⟨possible, isNext⟩ := Option.ite_none_right_eq_some.mp step
    cases isNext
    exact .nothingPopped possible.1
  | push scheduled =>
    obtain ⟨inProgress, isNext⟩ := Option.ite_none_right_eq_some.mp step
    cases isNext
    exact .pushed inProgress
  | settle taskId =>
    obtain ⟨inProgress, isNext⟩ := Option.ite_none_right_eq_some.mp step
    cases isNext
    exact .settled inProgress
  | count slots scheduled =>
    obtain ⟨inProgress, isNext⟩ := Option.ite_none_right_eq_some.mp step
    cases isNext
    exact .counted inProgress
  | expire taskId taskIds =>
    obtain ⟨inProgress, isNext⟩ := Option.ite_none_right_eq_some.mp step
    cases isNext
    exact .expired inProgress
  | uncount taskId taskIds =>
    obtain ⟨inProgress, isNext⟩ := Option.ite_none_right_eq_some.mp step
    cases isNext
    exact .uncounted inProgress

end Effects

end ChronoDB.Downsample
