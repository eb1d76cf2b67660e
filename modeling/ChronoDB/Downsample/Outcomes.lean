import ChronoDB.Downsample.Scheduler

namespace ChronoDB.Downsample

open Library Columnstore AllTasks Scheduler

/-!
# What becomes of downsample tasks

A task that is running cannot be retried, and a result overwrites the status of
its task whatever it is.  Tasks therefore keep their outcomes, and none is lost,
exactly in the runs in which every failure is that of a last try and every
result comes in time.
-/

/-!
## What a step does to a task
-/

/-- What one action can do to the task under an id. -/
inductive TaskChange (taskId : String) :
    SchedulerAction → Option DownsampleTask → Option DownsampleTask → Prop where
  | same
      {action : SchedulerAction}
      {task : Option DownsampleTask} :
      TaskChange taskId action task task
  | submitted
      {task : DownsampleTask}
      {priority : TaskPriority}
      {now : Timestamp}
      {known : Option DownsampleTask}
      (isId : task.taskId = taskId) :
      TaskChange taskId (.submitTask task priority now) known (some task)
  | cancelled
      {task : DownsampleTask}
      (goesOn : task.status.isTerminal = false) :
      TaskChange taskId (.cancelTask taskId) (some task)
        (some task.markCancelled)
  | started
      {task : DownsampleTask}
      {slots : ℕ}
      {scheduled : ScheduledTask}
      {now : Timestamp}
      (goesOn : task.status.isTerminal = false) :
      TaskChange taskId (.markRunning slots scheduled now) (some task)
        (some (task.markRunning now))
  | expired
      {task : DownsampleTask}
      {taskIds : List String} :
      TaskChange taskId (.expire taskId taskIds) (some task)
        (some (expire task))
  | reported
      {task : DownsampleTask}
      {result : TaskResult}
      {now : Timestamp}
      (isId : result.taskId = taskId) :
      TaskChange taskId (.handleTaskResult result now) (some task)
        (some (report result now task))

namespace AllTasks

variable {tasks : AllTasks} {taskId other : String}
variable {change : DownsampleTask → DownsampleTask}

theorem lookup_update :
    (tasks.update taskId change).lookup other =
      if other = taskId then (tasks.lookup taskId).map change
      else tasks.lookup other := by
  rw [update]
  by_cases same : other = taskId
  · subst same
    rw [if_pos rfl]
    cases found : tasks.lookup other with
    | none => exact found
    | some task => exact AList.lookup_insert _
  · rw [if_neg same]
    cases tasks.lookup taskId with
    | none => rfl
    | some task => exact AList.lookup_insert_ne same

theorem canCancel_iff :
    tasks.canCancel taskId = true ↔
      ∃ task, tasks.lookup taskId = some task ∧
        task.status.isTerminal = false := by
  rw [canCancel]
  cases tasks.lookup taskId <;> simp

theorem canStart_iff :
    tasks.canStart taskId = true ↔
      ∃ task, tasks.lookup taskId = some task ∧
        task.status.isTerminal = false ∧ task.status ≠ .running := by
  rw [canStart]
  cases tasks.lookup taskId <;> simp

end AllTasks

section Steps

variable {concurrency : ℕ} {before after : Scheduler}
variable {action : SchedulerAction}

theorem taskChange_of_step
    (step : SchedulerStep concurrency before action after) (taskId : String) :
    TaskChange taskId action (before.allTasks.lookup taskId)
      (after.allTasks.lookup taskId) := by
  cases effect_of_step step with
  | @submitted task priority now =>
    by_cases same : taskId = task.taskId
    · subst same
      rw [AList.lookup_insert]
      exact .submitted rfl
    · rw [AList.lookup_insert_ne same]
      exact .same
  | cancelled cancels =>
    obtain ⟨task, found, goesOn⟩ := canCancel_iff.mp cancels
    rw [lookup_update]
    split
    · rename_i same
      subst same
      rw [found]
      exact .cancelled goesOn
    · exact .same
  | marked inProgress starts =>
    obtain ⟨task, found, goesOn, _⟩ := canStart_iff.mp starts
    rw [lookup_update]
    split
    · rename_i same
      subst same
      rw [found]
      exact .started goesOn
    · exact .same
  | @expired other taskIds inProgress =>
    rw [lookup_update]
    split
    · rename_i same
      subst same
      cases before.allTasks.lookup taskId with
      | none => exact .same
      | some task => exact .expired
    · exact .same
  | @reported result now =>
    rw [lookup_update]
    split
    · rename_i same
      subst same
      cases before.allTasks.lookup result.taskId with
      | none => exact .same
      | some task => exact .reported rfl
    · exact .same
  | pushed | refused | settled | full | scheduling | popped | nothingPopped
  | skipped | counted | dispatched | checked | uncounted => exact .same

theorem not_pending_of_markRunning
    {slots : ℕ} {scheduled : ScheduledTask} {now : Timestamp}
    (step :
      SchedulerStep concurrency before (.markRunning slots scheduled now) after)
    {task : DownsampleTask}
    (found :
      after.allTasks.lookup scheduled.task.taskId = some task) :
    task.status ≠ .pending := by
  rw [SchedulerStep, next] at step
  split at step
  · split at step
    · rename_i starts
      cases step
      obtain ⟨known, isKnown, _⟩ := canStart_iff.mp starts
      change AList.lookup _ (before.allTasks.update _ _) = _ at found
      rw [lookup_update, if_pos rfl, isKnown] at found
      cases found
      exact TaskStatus.noConfusion
    · rename_i starts
      cases step
      change before.allTasks.lookup _ = _ at found
      intro pending
      apply starts
      refine canStart_iff.mpr ⟨task, found, ?_, ?_⟩ <;>
        rw [pending]
      · rfl
      · exact TaskStatus.noConfusion
  · cases step

end Steps

/-!
## Tasks that wait
-/

/-- An operation in progress will put a task into the queue, or start it. -/
def Operation.Carries (taskId : String) : Operation → Prop
  | submitting scheduled => scheduled.task.taskId = taskId
  | popped _ scheduled => scheduled.task.taskId = taskId
  | _ => False

namespace Scheduler

/-- A task is in the queue, or on its way there, or about to start. -/
def Waiting (scheduler : Scheduler) (taskId : String) : Prop :=
  (∃ scheduled ∈ scheduler.taskQueue, scheduled.task.taskId = taskId) ∨
    ∃ operation ∈ scheduler.operations, operation.Carries taskId

theorem Waiting.mono {scheduler after : Scheduler} {taskId : String}
    (waiting : scheduler.Waiting taskId)
    (inProgress : scheduler.operations ⊆ after.operations)
    (sameQueue : after.taskQueue = scheduler.taskQueue := by rfl) :
    after.Waiting taskId := by
  rw [Waiting, sameQueue]
  rcases waiting with queued | ⟨operation, member, carries⟩
  · exact .inl queued
  · exact .inr ⟨operation, inProgress member, carries⟩

theorem carried_resume
    {scheduler : Scheduler} {operation : Operation} {taskId : String}
    (carriesNot : ¬ operation.Carries taskId) (next : List Operation)
    (carried :
      ∃ other ∈ scheduler.operations, other.Carries taskId) :
    ∃ other ∈ (scheduler.resume operation next).operations,
      other.Carries taskId := by
  obtain ⟨other, member, carries⟩ := carried
  refine ⟨other, List.mem_append_right _ ?_, carries⟩
  apply (List.mem_erase_of_ne ?_).mpr member
  rintro rfl
  exact carriesNot carries

theorem waiting_of_step
    {concurrency : ℕ} {before after : Scheduler} {action : SchedulerAction}
    (step : SchedulerStep concurrency before action after) {taskId : String}
    (waiting : before.Waiting taskId) :
    after.Waiting taskId ∨
      ∃ slots scheduled now,
        action = .markRunning slots scheduled now ∧
          scheduled.task.taskId = taskId := by
  cases effect_of_step step with
  | submitted | cancelled | scheduling | reported =>
    exact .inl (waiting.mono (List.subset_cons_self _ _))
  | refused | full => exact .inl waiting
  | checked => exact .inl (waiting.mono (List.subset_append_right _ _))
  | @pushed scheduled inProgress =>
    left
    rcases waiting with ⟨other, queued, isId⟩ | carried
    · exact .inl ⟨other, List.mem_cons_of_mem _ queued, isId⟩
    · by_cases isId : scheduled.task.taskId = taskId
      · exact .inl ⟨scheduled, List.mem_cons_self, isId⟩
      · have carriesNot :
            ¬ (Operation.submitting scheduled).Carries taskId := isId
        exact .inr (carried_resume carriesNot [] carried)
  | @popped slots scheduled inProgress isQueued =>
    left
    rcases waiting with ⟨other, queued, isId⟩ | carried
    · by_cases same : other = scheduled
      · subst same
        exact .inr ⟨.popped slots other, List.mem_cons_self, isId⟩
      · exact .inl
          ⟨other, (List.mem_erase_of_ne same).mpr queued, isId⟩
    · exact .inr (carried_resume id _ carried)
  | @marked slots scheduled now | @skipped slots scheduled now =>
    by_cases isId : scheduled.task.taskId = taskId
    · exact .inr ⟨slots, scheduled, now, rfl, isId⟩
    · have carriesNot :
          ¬ (Operation.popped slots scheduled).Carries taskId := isId
      exact .inl (waiting.imp id (carried_resume carriesNot _))
  | dispatched | settled | nothingPopped | counted | expired | uncounted =>
    exact .inl (waiting.imp id (carried_resume id _))

end Scheduler

/-!
## Outcomes
-/

namespace DownsampleTask

/-- The retries of a task are used up. -/
def Exhausted (task : DownsampleTask) : Prop :=
  task.config.maxRetries ≤ task.retryCount

instance (task : DownsampleTask) : Decidable task.Exhausted :=
  inferInstanceAs (Decidable (_ ≤ _))

/-- One more failure uses up the retries of a task. -/
def LastTry (task : DownsampleTask) : Prop :=
  task.config.maxRetries ≤ task.retryCount + 1

/-- A task is completed or cancelled, or failed with its retries used up. -/
def Final (task : DownsampleTask) : Prop :=
  task.status = .completed ∨ task.status = .cancelled ∨
    task.status = .failed ∧ task.Exhausted

theorem Final.isTerminal {task : DownsampleTask} (isFinal : task.Final) :
    task.status.isTerminal = true := by
  rcases isFinal with isStatus | isStatus | ⟨isStatus, _⟩ <;>
    rw [isStatus] <;> rfl

/-- A status that is final stays final with the retries used up. -/
theorem Final.congr {task other : DownsampleTask} (isFinal : task.Final)
    (sameStatus : other.status = task.status)
    (retried : other.status = .failed → other.Exhausted) :
    other.Final := by
  rw [Final, sameStatus]
  rw [sameStatus] at retried
  rcases isFinal with isStatus | isStatus | ⟨isStatus, _⟩
  · exact .inl isStatus
  · exact .inr (.inl isStatus)
  · exact .inr (.inr ⟨isStatus, retried isStatus⟩)

theorem canRetry_eq_false
    {task : DownsampleTask} (retried : task.status = .failed → task.Exhausted) :
    task.canRetry = false := by
  rw [canRetry, Bool.and_eq_false_iff, decide_eq_false_iff_not,
    decide_eq_false_iff_not, UInt32.not_lt]
  by_cases isFailed : task.status = .failed
  · exact .inr (retried isFailed)
  · exact .inl isFailed

end DownsampleTask

namespace Scheduler

/-- No task waits for a retry that never comes, and pending tasks wait. -/
structure NothingLost (scheduler : Scheduler) : Prop where
  retried :
    ∀ taskId task,
      scheduler.allTasks.lookup taskId = some task →
      task.status = .failed → task.Exhausted
  queued :
    ∀ taskId task,
      scheduler.allTasks.lookup taskId = some task →
      task.status = .pending → scheduler.Waiting taskId

def KeepsOutcomes (before after : Scheduler) : Prop :=
  ∀ taskId task,
    before.allTasks.lookup taskId = some task → task.Final →
    ∃ later,
      after.allTasks.lookup taskId = some later ∧
        later.status = task.status ∧ later.Final

/-- A failure of this task is that of its last try, and comes in time. -/
def FailsInTime (task : DownsampleTask) : Prop :=
  task.status ≠ .completed ∧ task.status ≠ .cancelled ∧ task.LastTry

/--
Submitted tasks leave the outcomes of known ones, completions come in time, and
failures are in time and those of last tries.
-/
def Respects (scheduler : Scheduler) : SchedulerAction → Prop
  | .submitTask task _ _ =>
    (task.status = .failed → task.Exhausted) ∧
      ∀ known,
        scheduler.allTasks.lookup task.taskId = some known →
        known.Final → task.status = known.status
  | .expire taskId _ =>
    ∀ task, scheduler.allTasks.lookup taskId = some task → FailsInTime task
  | .handleTaskResult result _ =>
    ∀ task,
      scheduler.allTasks.lookup result.taskId = some task →
      if result.success then
        task.status ≠ .cancelled ∧ task.status ≠ .failed
      else
        FailsInTime task
  | _ => True

theorem nothingLost_new : NothingLost new where
  retried := fun _ _ found => absurd found (Option.not_mem_none _)
  queued := fun _ _ found => absurd found (Option.not_mem_none _)

theorem KeepsOutcomes.refl (scheduler : Scheduler) :
    scheduler.KeepsOutcomes scheduler :=
  fun _ task found isFinal => ⟨task, found, rfl, isFinal⟩

theorem KeepsOutcomes.trans
    {first second third : Scheduler} (earlier : first.KeepsOutcomes second)
    (later : second.KeepsOutcomes third) :
    first.KeepsOutcomes third := by
  intro taskId task found isFinal
  obtain ⟨between, foundBetween, sameStatus, stillFinal⟩ :=
    earlier taskId task found isFinal
  obtain ⟨last, foundLast, lastStatus, lastFinal⟩ :=
    later taskId between foundBetween stillFinal
  exact ⟨last, foundLast, lastStatus.trans sameStatus, lastFinal⟩

section Step

variable {concurrency : ℕ} {before after : Scheduler}
variable {action : SchedulerAction}

variable {task : DownsampleTask}

theorem expire_eq (retried : task.status = .failed → task.Exhausted) :
    expire task = task.markFailed "Task timeout" := by
  rw [expire, DownsampleTask.canRetry_eq_false retried]
  rfl

theorem report_eq
    (retried : task.status = .failed → task.Exhausted) {result : TaskResult}
    (fails : result.success = false) (now : Timestamp) :
    report result now task =
      task.markFailed (result.error.getD "Unknown error") := by
  rw [report, DownsampleTask.canRetry_eq_false retried, fails]
  rfl

/-- A failure in time keeps an outcome. -/
theorem FailsInTime.final
    (inTime : FailsInTime task) (isFinal : task.Final) (error : String) :
    (task.markFailed error).status = task.status ∧
      (task.markFailed error).Final := by
  obtain ⟨notCompleted, notCancelled, lastTry⟩ := inTime
  rcases isFinal with isStatus | isStatus | ⟨isStatus, _⟩
  · exact absurd isStatus notCompleted
  · exact absurd isStatus notCancelled
  · exact ⟨isStatus.symm, .inr (.inr ⟨rfl, lastTry⟩)⟩

theorem failsInTime_of_kept {error : String}
    (keeps :
      task.Final → (task.markFailed error).status = task.status)
    (exhausted : (task.markFailed error).Exhausted) :
    FailsInTime task := by
  refine ⟨fun isStatus => ?_, fun isStatus => ?_, exhausted⟩
  · have same := keeps (.inl isStatus)
    rw [isStatus] at same
    cases same
  · have same := keeps (.inr (.inl isStatus))
    rw [isStatus] at same
    cases same

theorem keepsOutcomes_of_respects
    (step : SchedulerStep concurrency before action after)
    (sound : before.NothingLost) (respects : before.Respects action) :
    before.KeepsOutcomes after := by
  intro taskId task found isFinal
  have change := taskChange_of_step step taskId
  have retried := sound.retried taskId task found
  rw [found] at change
  generalize after.allTasks.lookup taskId = changed at change
  cases change with
  | same => exact ⟨task, rfl, rfl, isFinal⟩
  | submitted isId =>
    subst isId
    have sameStatus := respects.2 task found isFinal
    exact ⟨_, rfl, sameStatus, isFinal.congr sameStatus respects.1⟩
  | cancelled goesOn | started goesOn =>
    rw [isFinal.isTerminal] at goesOn
    cases goesOn
  | expired =>
    rw [expire_eq retried]
    exact ⟨_, rfl, FailsInTime.final (respects task found) isFinal _⟩
  | @reported _ result now isId =>
    subst isId
    have inTime := respects task found
    cases success : result.success with
    | false =>
      rw [success] at inTime
      rw [report_eq retried success]
      exact ⟨_, rfl, FailsInTime.final inTime isFinal _⟩
    | true =>
      rw [success] at inTime
      rcases isFinal with isStatus | isStatus | ⟨isStatus, _⟩
      · refine ⟨_, rfl, ?_, .inl ?_⟩ <;>
          rw [report, success]
        · exact isStatus.symm
        · rfl
      · exact absurd isStatus inTime.1
      · exact absurd isStatus inTime.2

theorem nothingLost_of_respects
    (step : SchedulerStep concurrency before action after)
    (sound : before.NothingLost) (respects : before.Respects action) :
    after.NothingLost := by
  constructor
  · intro taskId task found isFailed
    have change := taskChange_of_step step taskId
    rw [found] at change
    generalize known : before.allTasks.lookup taskId = earlier at change
    cases change with
    | same => exact sound.retried taskId task known isFailed
    | submitted isId => exact respects.1 isFailed
    | cancelled goesOn | started goesOn => cases isFailed
    | @expired earlier =>
      rw [expire_eq (sound.retried taskId earlier known)]
      exact (respects earlier known).2.2
    | @reported earlier result now isId =>
      subst isId
      have inTime := respects earlier known
      cases success : result.success with
      | false =>
        rw [success] at inTime
        rw [report_eq (sound.retried _ earlier known) success]
        exact inTime.2.2
      | true =>
        rw [report, success] at isFailed
        cases isFailed
  · intro taskId task found isPending
    have change := taskChange_of_step step taskId
    rw [found] at change
    generalize known : before.allTasks.lookup taskId = earlier at change
    cases change with
    | same =>
      rcases waiting_of_step step (sound.queued taskId task known isPending)
        with waiting | ⟨slots, scheduled, now, rfl, rfl⟩
      · exact waiting
      · exact absurd isPending (not_pending_of_markRunning step found)
    | @submitted _ priority now _ isId =>
      cases step
      exact .inr ⟨_, List.mem_cons_self, isId⟩
    | cancelled goesOn | started goesOn => cases isPending
    | @expired earlier =>
      rw [expire_eq (sound.retried taskId earlier known)] at isPending
      cases isPending
    | @reported earlier result now isId =>
      subst isId
      cases success : result.success with
      | false =>
        rw [report_eq (sound.retried _ earlier known) success] at isPending
        cases isPending
      | true =>
        rw [report, success] at isPending
        cases isPending

theorem lookup_of_expire {taskId : String} {taskIds : List String}
    (step : SchedulerStep concurrency before (.expire taskId taskIds) after)
    (found : before.allTasks.lookup taskId = some task) :
    after.allTasks.lookup taskId = some (expire task) := by
  rw [SchedulerStep, next] at step
  split at step
  · cases step
    refine lookup_update.trans ?_
    rw [if_pos rfl, found]
    rfl
  · cases step

theorem lookup_of_handleTaskResult {result : TaskResult} {now : Timestamp}
    (step :
      SchedulerStep concurrency before (.handleTaskResult result now) after)
    {task : DownsampleTask}
    (found : before.allTasks.lookup result.taskId = some task) :
    after.allTasks.lookup result.taskId =
      some (report result now task) := by
  cases step
  refine lookup_update.trans ?_
  rw [if_pos rfl, found]
  rfl

theorem respects_of_kept (step : SchedulerStep concurrency before action after)
    (sound : before.NothingLost) (keeps : before.KeepsOutcomes after)
    (kept : after.NothingLost) :
    before.Respects action := by
  cases action with
  | submitTask task priority now =>
    cases step
    have found :
        (before.allTasks.insert task.taskId task).lookup task.taskId =
          some task :=
      AList.lookup_insert _
    refine ⟨kept.retried _ _ found, fun known isKnown isFinal => ?_⟩
    obtain ⟨later, foundLater, sameStatus, _⟩ := keeps _ known isKnown isFinal
    rw [found] at foundLater
    cases foundLater
    exact sameStatus
  | expire taskId taskIds =>
    intro task found
    have foundLater := lookup_of_expire step found
    rw [expire_eq (sound.retried taskId task found)] at foundLater
    refine failsInTime_of_kept (fun isFinal => ?_)
      (kept.retried _ _ foundLater rfl)
    obtain ⟨later, sameLater, sameStatus, _⟩ := keeps taskId task found isFinal
    rw [foundLater] at sameLater
    cases sameLater
    exact sameStatus
  | handleTaskResult result now =>
    intro task found
    have retried := sound.retried _ task found
    have foundLater := lookup_of_handleTaskResult step found
    have keepsTask := keeps _ task found
    rw [foundLater] at keepsTask
    simp only [Option.some.injEq, exists_eq_left'] at keepsTask
    cases success : result.success with
    | false =>
      rw [report_eq retried success] at foundLater keepsTask
      exact failsInTime_of_kept (fun isFinal => (keepsTask isFinal).1)
        (kept.retried _ _ foundLater rfl)
    | true =>
      rw [report, success] at keepsTask
      constructor
      · intro isStatus
        have same := (keepsTask (.inr (.inl isStatus))).1
        rw [isStatus] at same
        cases same
      · intro isStatus
        have same := (keepsTask (.inr (.inr ⟨isStatus, retried isStatus⟩))).1
        rw [isStatus] at same
        cases same
  | push scheduled | cancelTask taskId | settle taskId | scheduleTasks
  | pop slots scheduled | popNothing slots
  | markRunning slots scheduled now | count slots scheduled
  | dispatch slots scheduled outcome | checkTimeouts now
  | uncount taskId taskIds => trivial

theorem kept_iff_respects (sound : before.NothingLost)
    (step : SchedulerStep concurrency before action after) :
    before.KeepsOutcomes after ∧ after.NothingLost ↔
      before.Respects action := by
  constructor
  · rintro ⟨keeps, kept⟩
    exact respects_of_kept step sound keeps kept
  · intro respects
    exact ⟨keepsOutcomes_of_respects step sound respects,
      nothingLost_of_respects step sound respects⟩

end Step

end Scheduler

/--
In a run from a new scheduler, final tasks keep their status for ever, no task
is left failed with retries left, and every pending task is in the queue or on
its way, exactly when all steps of the run meet the condition.
-/
theorem tasks_kept_iff_respecting_run {concurrency : ℕ}
    {actions : List SchedulerAction} {final : Scheduler}
    (run : Run (SchedulerStep concurrency) new actions final) :
    (∀ passed between remaining earlier later,
        actions = passed ++ (between ++ remaining) →
          Run (SchedulerStep concurrency) new passed earlier →
          Run (SchedulerStep concurrency) earlier between later →
          earlier.KeepsOutcomes later ∧ later.NothingLost) ↔
      Run (Restrict (SchedulerStep concurrency) Scheduler.Respects)
        new actions final := by
  apply run.related_iff_restrict
  · intro before action after other taken takenAgain
    rw [SchedulerStep] at taken takenAgain
    rw [taken] at takenAgain
    exact Option.some.inj takenAgain
  · exact Scheduler.KeepsOutcomes.refl
  · exact Scheduler.KeepsOutcomes.trans
  · exact nothingLost_new
  · exact kept_iff_respects

/-!
## Runs of one task
-/

def exampleTask : DownsampleTask :=
  .new "ds_1_0_1000_0" .l1 .l0 0 1000 none

/-- That task in the queue. -/
def exampleScheduled : ScheduledTask :=
  ⟨exampleTask, .normal, 1⟩

/-- The task is submitted and given to the pool. -/
def startActions : List SchedulerAction := [
  .submitTask exampleTask .normal 1,
  .push exampleScheduled,
  .scheduleTasks,
  .pop 1 exampleScheduled,
  .markRunning 1 exampleScheduled 2,
  .count 1 exampleScheduled,
  .dispatch 1 exampleScheduled .sent,
  .popNothing 1
]

/-- What a worker reports about the task. -/
def exampleResult (success : Bool) : TaskResult where
  taskId := "ds_1_0_1000_0"
  success := success
  samplesProcessed := 0
  samplesGenerated := 0
  error := if success then none else some "Disk full"

theorem exists_startRun :
    ∃ started,
      Run (Restrict (SchedulerStep 2) Scheduler.Respects) new
          startActions started ∧
        started.allTasks.lookup exampleTask.taskId =
          some (exampleTask.markRunning 2) := by
  have submits : new.Respects (.submitTask exampleTask .normal 1) :=
    ⟨TaskStatus.noConfusion,
      fun _ found => absurd found (Option.not_mem_none _)⟩
  refine ⟨_, .cons ⟨submits, rfl⟩ (.cons ⟨trivial, rfl⟩
    (.cons ⟨trivial, rfl⟩ (.cons ⟨trivial, rfl⟩ (.cons ⟨trivial, rfl⟩
    (.cons ⟨trivial, rfl⟩ (.cons ⟨trivial, rfl⟩ (.cons ⟨trivial, rfl⟩
    (.nil _)))))))), ?_⟩
  rfl

theorem completed_task_is_kept :
    ∃ final,
      Run (SchedulerStep 2) new
          (startActions ++ [.handleTaskResult (exampleResult true) 3])
          final ∧
        ∀ passed between remaining earlier later,
          startActions ++ [.handleTaskResult (exampleResult true) 3] =
            passed ++ (between ++ remaining) →
          Run (SchedulerStep 2) new passed earlier →
          Run (SchedulerStep 2) earlier between later →
          earlier.KeepsOutcomes later ∧ later.NothingLost := by
  obtain ⟨started, startRun, isRunning⟩ := exists_startRun
  have inTime :
      started.Respects (.handleTaskResult (exampleResult true) 3) := by
    intro task found
    rw [show (exampleResult true).taskId = exampleTask.taskId from rfl,
      isRunning] at found
    cases found
    exact ⟨TaskStatus.noConfusion, TaskStatus.noConfusion⟩
  have restricted := startRun.append (.single ⟨inTime, rfl⟩)
  exact ⟨_, restricted.ofRestrict,
    (tasks_kept_iff_respecting_run restricted.ofRestrict).mpr restricted⟩

/--
A task that fails at its first try stays failed although two retries are left,
and a result that comes after a cancellation completes the task.
-/
theorem first_failure_and_late_result_break_tasks :
    (¬ ∀ final,
      Run (SchedulerStep 2) new
        (startActions ++ [.handleTaskResult (exampleResult false) 3])
        final →
      final.NothingLost) ∧
      ¬ ∀ cancelled final,
        Run (SchedulerStep 2) new
          (startActions ++ [.cancelTask exampleTask.taskId]) cancelled →
        Run (SchedulerStep 2) cancelled
          [.handleTaskResult (exampleResult true) 3] final →
        cancelled.KeepsOutcomes final := by
  obtain ⟨started, startRun, isRunning⟩ := exists_startRun
  constructor
  · intro lost
    let result : SchedulerAction := .handleTaskResult (exampleResult false) 3
    obtain ⟨final, step⟩ : ∃ final, SchedulerStep 2 started result final :=
      ⟨_, rfl⟩
    have found := lookup_of_handleTaskResult step isRunning
    have exhausted :=
      (lost final (startRun.ofRestrict.append (.single step))).retried _ _
        found rfl
    exact absurd exhausted (by decide)
  · intro keeps
    let cancel : SchedulerAction := .cancelTask exampleTask.taskId
    have cancels : started.allTasks.canCancel exampleTask.taskId = true :=
      canCancel_iff.mpr ⟨_, isRunning, rfl⟩
    obtain ⟨cancelled, cancelStep, isCancelled⟩ :
        ∃ cancelled,
          SchedulerStep 2 started cancel cancelled ∧
            cancelled.allTasks.lookup exampleTask.taskId =
              some (exampleTask.markRunning 2).markCancelled := by
      refine ⟨_, if_pos cancels, ?_⟩
      refine lookup_update.trans ?_
      rw [if_pos rfl, isRunning]
      rfl
    obtain ⟨final, step⟩ :
        ∃ final,
          SchedulerStep 2 cancelled
            (.handleTaskResult (exampleResult true) 3) final :=
      ⟨_, rfl⟩
    have found := lookup_of_handleTaskResult step isCancelled
    obtain ⟨later, foundLater, sameStatus, _⟩ :=
      keeps cancelled final
        (startRun.ofRestrict.append (.single cancelStep)) (.single step)
        _ _ isCancelled (.inr (.inl rfl))
    rw [show exampleTask.taskId = (exampleResult true).taskId from rfl,
      found] at foundLater
    cases foundLater
    cases sameStatus

end ChronoDB.Downsample
