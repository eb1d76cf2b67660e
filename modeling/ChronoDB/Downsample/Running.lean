import ChronoDB.Downsample.Outcomes

namespace ChronoDB.Downsample

open Library Columnstore List Scheduler

/-!
# The set of running tasks

Every operation changes the status of a task under one lock and the set of
running tasks under another.  In between, a task that runs has yet to be entered
into the set, or one that stopped has yet to be struck out.  All other tasks are
in the set exactly if they run, unless the loop enters a task that was stopped
and struck out since it was marked.
-/

/-!
## The claims of the operations
-/

namespace Operation

/-- The task that an operation will put into the queue, or start. -/
def waitingIds : Operation → List String
  | submitting scheduled => [scheduled.task.taskId]
  | popped _ scheduled => [scheduled.task.taskId]
  | _ => []

/-- How many tasks the loop can still enter into the set. -/
def slots : Operation → ℕ
  | scheduling slots => slots
  | popped slots _ => slots + 1
  | marked slots _ => slots + 1
  | counted slots _ => slots
  | _ => 0

def isLoop : Operation → Bool
  | scheduling _ => true
  | popped _ _ => true
  | marked _ _ => true
  | counted _ _ => true
  | _ => false

theorem slots_eq_zero
    {operation : Operation} (notLoop : operation.isLoop = false) :
    operation.slots = 0 := by
  cases operation <;> first | rfl | cases notLoop

end Operation

namespace Scheduler

/-- The tasks in the queue, on the way there, or about to start. -/
def waitingIds (scheduler : Scheduler) : List String :=
  scheduler.operations.flatMap Operation.waitingIds ++
    scheduler.taskQueue.map fun scheduled => scheduled.task.taskId

def statusOf (scheduler : Scheduler) (taskId : String) : Option TaskStatus :=
  (scheduler.allTasks.lookup taskId).map DownsampleTask.status

def IsRunning (scheduler : Scheduler) (taskId : String) : Prop :=
  scheduler.statusOf taskId = some .running

/-- The loop marked the task and has yet to enter it into the set. -/
def Starting (scheduler : Scheduler) (taskId : String) : Prop :=
  ∃ slots scheduled,
    .marked slots scheduled ∈ scheduler.operations ∧
      scheduled.task.taskId = taskId

/-- An operation stopped the task and has yet to strike it out of the set. -/
def Stopping (scheduler : Scheduler) (taskId : String) : Prop :=
  .settling taskId ∈ scheduler.operations ∨
    ∃ taskIds, .expired taskId taskIds ∈ scheduler.operations

/-- Tasks come with new ids, one loop schedules them, and the pool reports. -/
def Serves (scheduler : Scheduler) : SchedulerAction → Prop
  | .submitTask task _ _ => scheduler.statusOf task.taskId = none
  | .scheduleTasks =>
    ∀ operation ∈ scheduler.operations, operation.isLoop = false
  | .handleTaskResult result _ =>
    ∃ worker ∈ scheduler.sent, worker.taskId = result.taskId
  | _ => True

/--
No task is submitted as running, and a task that the loop enters into the set
still runs, or has yet to be struck out.
-/
def EntersRunning (scheduler : Scheduler) : SchedulerAction → Prop
  | .submitTask task _ _ => task.status ≠ .running
  | .count _ scheduled =>
    scheduler.IsRunning scheduled.task.taskId ∨
      scheduler.Stopping scheduled.task.taskId
  | _ => True

/--
The set is no larger than the concurrency, and it holds the tasks that run but
for those in between.
-/
structure RunningAccurate (concurrency : ℕ) (scheduler : Scheduler) : Prop where
  bounded : scheduler.runningTasks.card ≤ concurrency
  entered :
    ∀ taskId, scheduler.IsRunning taskId →
      taskId ∈ scheduler.runningTasks ∨ scheduler.Starting taskId
  struckOut :
    ∀ taskId ∈ scheduler.runningTasks,
      scheduler.IsRunning taskId ∨ scheduler.Stopping taskId

theorem RunningAccurate.mem_runningTasks_iff
    {concurrency : ℕ} {scheduler : Scheduler}
    (accurate : scheduler.RunningAccurate concurrency) {taskId : String}
    (started : ¬scheduler.Starting taskId)
    (stopped : ¬scheduler.Stopping taskId) :
    taskId ∈ scheduler.runningTasks ↔ scheduler.IsRunning taskId :=
  ⟨fun member => (accurate.struckOut taskId member).resolve_right stopped,
    fun runs => (accurate.entered taskId runs).resolve_right started⟩

/-!
## What the operations in progress rely on
-/

/-- The task is known and does not wait any more. -/
def Taken (scheduler : Scheduler) (taskId : String) : Prop :=
  scheduler.statusOf taskId ≠ none ∧ taskId ∉ scheduler.waitingIds

/-- The task does not run, and if it waits it never will. -/
structure Stopped (scheduler : Scheduler) (taskId : String) : Prop where
  known : scheduler.statusOf taskId ≠ none
  notRunning : ¬scheduler.IsRunning taskId
  cancelled :
    taskId ∈ scheduler.waitingIds → scheduler.statusOf taskId = some .cancelled

end Scheduler

/-- The tasks of an operation are as far as the operation supposes. -/
def Operation.Sound (scheduler : Scheduler) : Operation → Prop
  | settling taskId => scheduler.Stopped taskId
  | expired taskId taskIds =>
    (scheduler.Stopped taskId ∧ scheduler.Taken taskId) ∧
      ∀ other ∈ taskIds, scheduler.Taken other
  | expiring taskIds => ∀ taskId ∈ taskIds, scheduler.Taken taskId
  | marked _ scheduled => scheduler.Taken scheduled.task.taskId
  | counted _ scheduled => scheduler.Taken scheduled.task.taskId
  | _ => True

namespace Scheduler

structure Tracked (concurrency : ℕ) (scheduler : Scheduler) : Prop where
  waitingOnce : scheduler.waitingIds.Nodup
  waitingKnown :
    ∀ taskId ∈ scheduler.waitingIds, scheduler.statusOf taskId ≠ none
  operations : ∀ operation ∈ scheduler.operations, operation.Sound scheduler
  running : ∀ taskId ∈ scheduler.runningTasks, scheduler.Taken taskId
  sent : ∀ worker ∈ scheduler.sent, scheduler.Taken worker.taskId
  reserved :
    scheduler.runningTasks.card +
        (scheduler.operations.map Operation.slots).sum ≤
      concurrency

/-- What no step takes back. -/
structure Continues (before after : Scheduler) : Prop where
  known : ∀ taskId, before.statusOf taskId ≠ none → after.statusOf taskId ≠ none
  waiting :
    ∀ taskId, before.statusOf taskId ≠ none →
      taskId ∈ after.waitingIds → taskId ∈ before.waitingIds
  stopped : ∀ taskId, before.Stopped taskId → after.Stopped taskId

namespace Continues

variable {before after : Scheduler}

theorem taken (continues : before.Continues after) {taskId : String}
    (taken : before.Taken taskId) :
    after.Taken taskId :=
  ⟨continues.known taskId taken.1,
    fun waits => taken.2 (continues.waiting taskId taken.1 waits)⟩

theorem sound (continues : before.Continues after) {operation : Operation}
    (isSound : operation.Sound before) :
    operation.Sound after := by
  cases operation with
  | settling taskId => exact continues.stopped taskId isSound
  | expired taskId taskIds =>
    obtain ⟨⟨stopped, taken⟩, others⟩ := isSound
    exact ⟨⟨continues.stopped taskId stopped, continues.taken taken⟩,
      fun other member => continues.taken (others other member)⟩
  | expiring taskIds =>
    exact fun taskId member => continues.taken (isSound taskId member)
  | marked slots scheduled | counted slots scheduled =>
    exact continues.taken isSound
  | submitting scheduled | scheduling slots | popped slots scheduled => trivial

theorem ofChange (taskId : String)
    (others :
      ∀ other, other ≠ taskId → after.statusOf other = before.statusOf other)
    (waiting : after.waitingIds ⊆ before.waitingIds)
    (known : before.statusOf taskId ≠ none → after.statusOf taskId ≠ none)
    (stopped : before.Stopped taskId → after.Stopped taskId) :
    before.Continues after := by
  refine ⟨fun other isKnown => ?_, fun other _ waits => waiting waits,
    fun other isStopped => ?_⟩
  · by_cases same : other = taskId
    · subst same
      exact known isKnown
    · rwa [others other same]
  · by_cases same : other = taskId
    · subst same
      exact stopped isStopped
    · refine ⟨?_, ?_, fun waits => ?_⟩
      · rw [others other same]
        exact isStopped.known
      · rw [IsRunning, others other same]
        exact isStopped.notRunning
      · rw [others other same]
        exact isStopped.cancelled (waiting waits)

theorem ofStatus
    (same : ∀ taskId, after.statusOf taskId = before.statusOf taskId)
    (waiting : after.waitingIds ⊆ before.waitingIds) :
    before.Continues after := by
  refine ⟨fun taskId isKnown => ?_, fun taskId _ waits => waiting waits,
    fun taskId isStopped => ⟨?_, ?_, fun waits => ?_⟩⟩
  · rwa [same]
  · rw [same]
    exact isStopped.known
  · rw [IsRunning, same]
    exact isStopped.notRunning
  · rw [same]
    exact isStopped.cancelled (waiting waits)

end Continues

section Step

variable {concurrency : ℕ} {before after : Scheduler}
variable {action : SchedulerAction}

variable {scheduler : Scheduler} {operation : Operation} {taskId : String}
  {next : List Operation} {change : DownsampleTask → DownsampleTask} {slots : ℕ}

theorem waitingIds_perm (inProgress : operation ∈ scheduler.operations) :
    scheduler.waitingIds.Perm
      (operation.waitingIds ++
        ((scheduler.operations.erase operation).flatMap Operation.waitingIds ++
          scheduler.taskQueue.map fun scheduled => scheduled.task.taskId)) := by
  rw [waitingIds, ← append_assoc]
  apply List.Perm.append_right
  exact (perm_cons_erase inProgress).flatMap_right _

theorem waitingIds_resume (inProgress : operation ∈ scheduler.operations)
    (carries : next.flatMap Operation.waitingIds = []) :
    (scheduler.resume operation next).waitingIds.Subperm
      scheduler.waitingIds := by
  refine List.Subperm.trans ?_ (waitingIds_perm inProgress).symm.subperm
  rw [waitingIds, resume, flatMap_append, carries, nil_append]
  exact (sublist_append_right _ _).subperm

theorem waitingIds_loopWith (slots : ℕ) :
    (loopWith slots).flatMap Operation.waitingIds = [] := by
  rw [loopWith]
  split <;> rfl

theorem waitingIds_expireWith (taskIds : List String) :
    (expireWith taskIds).flatMap Operation.waitingIds = [] := by
  rw [expireWith]
  split <;> rfl

theorem waitingIds_of_effect (effect : Effect concurrency before action after) :
    after.waitingIds.Subperm before.waitingIds ∨
      ∃ task priority now,
        action = .submitTask task priority now ∧
          after.waitingIds = task.taskId :: before.waitingIds := by
  cases effect with
  | @submitted task priority now => exact .inr ⟨task, priority, now, rfl, rfl⟩
  | pushed inProgress =>
    left
    refine List.Perm.subperm (.trans ?_ (waitingIds_perm inProgress).symm)
    exact perm_middle
  | popped inProgress queued =>
    left
    refine List.Perm.subperm (.trans ?_ (waitingIds_perm inProgress).symm)
    refine List.Perm.trans perm_middle.symm ?_
    apply List.Perm.append_left
    exact
      ((perm_cons_erase queued).map fun scheduled => scheduled.task.taskId).symm
  | marked inProgress starts | skipped inProgress =>
    left
    first
    | exact waitingIds_resume inProgress rfl
    | exact waitingIds_resume inProgress (waitingIds_loopWith _)
  | settled inProgress | nothingPopped inProgress | counted inProgress
  | expired inProgress => exact .inl (waitingIds_resume inProgress rfl)
  | dispatched inProgress isSent isNext =>
    left
    rcases isNext with rfl | rfl
    · exact waitingIds_resume inProgress rfl
    · exact waitingIds_resume inProgress (waitingIds_loopWith _)
  | uncounted inProgress =>
    exact .inl (waitingIds_resume inProgress (waitingIds_expireWith _))
  | checked =>
    left
    rw [waitingIds, flatMap_append, waitingIds_expireWith, nil_append]
    exact List.Subperm.refl _
  | refused | cancelled cancels | full | scheduling free | reported =>
    exact .inl (List.Subperm.refl _)

theorem statusOf_update {scheduler updated : Scheduler}
    (isUpdated :
      updated.allTasks = scheduler.allTasks.update taskId change)
    (other : String) :
    updated.statusOf other =
      if other = taskId then
        (scheduler.allTasks.lookup taskId).map fun task =>
          (change task).status
      else
        scheduler.statusOf other := by
  rw [statusOf, isUpdated, AllTasks.lookup_update]
  split
  · rw [Option.map_map]
    rfl
  · rfl

theorem status_expire_ne (task : DownsampleTask) :
    (AllTasks.expire task).status ≠ .running := by
  rw [AllTasks.expire]
  split
  · rename_i retries
    rw [DownsampleTask.resetForRetry, if_pos retries]
    exact TaskStatus.noConfusion
  · exact TaskStatus.noConfusion

theorem status_report_ne
    (result : TaskResult) (now : Timestamp) (task : DownsampleTask) :
    (AllTasks.report result now task).status ≠ .running := by
  rw [AllTasks.report]
  split
  · exact TaskStatus.noConfusion
  · split
    · rw [DownsampleTask.resetForRetry]
      split <;> exact TaskStatus.noConfusion
    · exact TaskStatus.noConfusion

theorem stopped_of_update {scheduler updated : Scheduler}
    (isUpdated :
      updated.allTasks = scheduler.allTasks.update taskId change)
    (waiting : updated.waitingIds ⊆ scheduler.waitingIds)
    (notRunning : ∀ task, (change task).status ≠ .running)
    (taken : scheduler.Taken taskId) :
    updated.Stopped taskId := by
  have status := statusOf_update isUpdated taskId
  rw [if_pos rfl] at status
  refine ⟨?_, ?_, fun waits => absurd (waiting waits) taken.2⟩
  · rw [status]
    intro unknown
    apply taken.1
    rw [statusOf, Option.map_eq_none_iff.mp unknown, Option.map_none]
  · rw [IsRunning, status]
    intro runs
    obtain ⟨task, _, isRunning⟩ := Option.map_eq_some_iff.mp runs
    exact notRunning task isRunning

theorem Continues.ofUpdate {scheduler updated : Scheduler}
    (isUpdated :
      updated.allTasks = scheduler.allTasks.update taskId change)
    (waiting : updated.waitingIds ⊆ scheduler.waitingIds)
    (stopped : scheduler.Stopped taskId → updated.Stopped taskId) :
    scheduler.Continues updated := by
  refine .ofChange taskId (fun other differs => ?_) waiting
    (fun isKnown => ?_) stopped
  · rw [statusOf_update isUpdated, if_neg differs]
  · rw [statusOf_update isUpdated, if_pos rfl]
    intro unknown
    apply isKnown
    rw [statusOf, Option.map_eq_none_iff.mp unknown, Option.map_none]

theorem not_stopped_of_canStart {scheduled : ScheduledTask}
    (inProgress : .popped slots scheduled ∈ scheduler.operations)
    (starts :
      scheduler.allTasks.canStart scheduled.task.taskId = true) :
    ¬scheduler.Stopped scheduled.task.taskId := by
  intro stopped
  obtain ⟨task, found, goesOn, _⟩ := AllTasks.canStart_iff.mp starts
  have isWaiting : scheduled.task.taskId ∈ scheduler.waitingIds := by
    refine (waitingIds_perm inProgress).mem_iff.mpr ?_
    exact mem_append_left _ (mem_singleton_self _)
  have isCancelled := stopped.cancelled isWaiting
  rw [statusOf, found] at isCancelled
  rw [Option.some.inj isCancelled] at goesOn
  cases goesOn

theorem waitingIds_subset (effect : Effect concurrency before action after)
    (submitsNot :
      ∀ task priority now, action ≠ .submitTask task priority now) :
    after.waitingIds ⊆ before.waitingIds := by
  rcases waitingIds_of_effect effect with
    fewer | ⟨task, priority, now, isSubmit, _⟩
  · exact fewer.subset
  · exact absurd isSubmit (submitsNot task priority now)

theorem stopped_of_cancel (cancels : before.allTasks.canCancel taskId = true) :
    Stopped
      {
        before with
        allTasks := before.allTasks.update taskId DownsampleTask.markCancelled
        operations := .settling taskId :: before.operations
      }
      taskId := by
  obtain ⟨task, found, _⟩ := AllTasks.canCancel_iff.mp cancels
  have isCancelled :
      statusOf
          {
            before with
            allTasks :=
              before.allTasks.update taskId DownsampleTask.markCancelled
            operations := .settling taskId :: before.operations
          }
          taskId =
        some .cancelled := by
    rw [statusOf_update rfl, if_pos rfl, found]
    rfl
  refine ⟨?_, ?_, fun _ => isCancelled⟩
  · rw [isCancelled]
    exact Option.some_ne_none _
  · rw [IsRunning, isCancelled]
    exact fun runs => TaskStatus.noConfusion (Option.some.inj runs)

theorem taken_of_mark
    (tracked : before.Tracked concurrency) {scheduled : ScheduledTask}
    {now : Timestamp} (inProgress : .popped slots scheduled ∈ before.operations)
    (continues :
      before.Continues
        {
          before.resume (.popped slots scheduled) [.marked slots scheduled] with
          allTasks :=
            before.allTasks.update scheduled.task.taskId fun task =>
              task.markRunning now
        }) :
    Taken
      {
        before.resume (.popped slots scheduled) [.marked slots scheduled] with
        allTasks :=
          before.allTasks.update scheduled.task.taskId fun task =>
            task.markRunning now
      }
      scheduled.task.taskId := by
  have carried := waitingIds_perm inProgress
  have once := carried.nodup_iff.mp tracked.waitingOnce
  refine ⟨continues.known _ (tracked.waitingKnown _ ?_), (nodup_cons.mp once).1⟩
  exact carried.mem_iff.mpr mem_cons_self

theorem continues_of_effect
    (tracked : before.Tracked concurrency) (serves : before.Serves action)
    (effect : Effect concurrency before action after) :
    before.Continues after := by
  have submitsOrNot := waitingIds_subset effect
  cases effect with
  | @submitted task priority now =>
    have others :
        ∀ taskId, before.statusOf taskId ≠ none → taskId ≠ task.taskId := by
      rintro taskId isKnown rfl
      exact isKnown serves
    refine ⟨fun taskId isKnown => ?_, fun taskId isKnown waits => ?_,
      fun taskId isStopped => ?_⟩
    · rw [statusOf, AList.lookup_insert_ne (others taskId isKnown)]
      exact isKnown
    · exact mem_of_ne_of_mem (others taskId isKnown) waits
    · have isOther := others taskId isStopped.known
      refine ⟨?_, ?_, fun waits => ?_⟩
      · rw [statusOf, AList.lookup_insert_ne isOther]
        exact isStopped.known
      · rw [IsRunning, statusOf, AList.lookup_insert_ne isOther]
        exact isStopped.notRunning
      · rw [statusOf, AList.lookup_insert_ne isOther]
        exact isStopped.cancelled (mem_of_ne_of_mem isOther waits)
  | refused | full =>
    exact .ofStatus (fun _ => rfl) (List.Subset.refl _)
  | cancelled cancels =>
    exact .ofUpdate rfl (submitsOrNot (by simp)) fun _ =>
      stopped_of_cancel cancels
  | marked inProgress starts =>
    refine .ofUpdate rfl (submitsOrNot (by simp)) fun isStopped => ?_
    exact absurd isStopped (not_stopped_of_canStart inProgress starts)
  | @expired taskId taskIds inProgress =>
    have taken := tracked.operations _ inProgress taskId mem_cons_self
    have waiting := submitsOrNot (by simp)
    exact .ofUpdate rfl waiting fun _ =>
      stopped_of_update rfl waiting status_expire_ne taken
  | reported =>
    obtain ⟨worker, isSent, isId⟩ := serves
    have taken := tracked.sent worker isSent
    rw [isId] at taken
    have waiting := submitsOrNot (by simp)
    exact .ofUpdate rfl waiting fun _ =>
      stopped_of_update rfl waiting (status_report_ne _ _) taken
  | pushed inProgress | settled inProgress | scheduling free
  | popped inProgress queued | nothingPopped inProgress
  | skipped inProgress | counted inProgress
  | dispatched inProgress isSent isNext | checked | uncounted inProgress =>
    exact .ofStatus (fun _ => rfl) (submitsOrNot (by simp))

theorem mem_resume {operation other : Operation}
    (member : other ∈ (scheduler.resume operation next).operations) :
    other ∈ next ∨ other ∈ scheduler.operations :=
  (mem_append.mp member).imp_right mem_of_mem_erase

theorem mem_expireWith
    {taskIds : List String} (member : operation ∈ expireWith taskIds) :
    operation = .expiring taskIds := by
  rw [expireWith] at member
  split at member
  · cases member
  · exact mem_singleton.mp member

theorem mem_loopWith (member : operation ∈ loopWith slots) :
    operation = .scheduling slots := by
  rw [loopWith] at member
  split at member
  · cases member
  · exact mem_singleton.mp member

theorem slots_resume
    (inProgress : operation ∈ scheduler.operations) (next : List Operation) :
    ((scheduler.resume operation next).operations.map Operation.slots).sum +
        operation.slots =
      (next.map Operation.slots).sum +
        (scheduler.operations.map Operation.slots).sum := by
  have before := ((perm_cons_erase inProgress).map Operation.slots).sum_nat
  rw [before, map_cons, sum_cons, resume, map_append,
    sum_append, Nat.add_assoc, Nat.add_comm operation.slots]

theorem slots_loopWith (slots : ℕ) :
    ((loopWith slots).map Operation.slots).sum = slots := by
  rw [loopWith]
  split
  · rename_i isZero
    exact isZero.symm
  · rfl

theorem slots_expireWith (taskIds : List String) :
    ((expireWith taskIds).map Operation.slots).sum = 0 := by
  rw [expireWith]
  split <;> rfl

theorem reserved_resume (tracked : before.Tracked concurrency)
    (inProgress : operation ∈ before.operations) {entered : Finset String}
    (fits :
      entered.card + (next.map Operation.slots).sum ≤
        before.runningTasks.card + operation.slots) :
    entered.card +
        ((before.resume operation next).operations.map Operation.slots).sum ≤
      concurrency := by
  have reserved := tracked.reserved
  have sums := slots_resume inProgress next
  omega

theorem reserved_of_effect
    (tracked : before.Tracked concurrency) (serves : before.Serves action)
    (effect : Effect concurrency before action after) :
    after.runningTasks.card + (after.operations.map Operation.slots).sum ≤
      concurrency := by
  cases effect with
  | scheduling free =>
    have noLoop : (before.operations.map Operation.slots).sum = 0 := by
      apply List.sum_eq_zero_iff_forall_eq_nat.mpr
      intro slots member
      obtain ⟨operation, inProgress, rfl⟩ := mem_map.mp member
      exact Operation.slots_eq_zero (serves operation inProgress)
    rw [map_cons, sum_cons, noLoop]
    exact (Nat.add_sub_cancel' free.le).le
  | @counted slots scheduled inProgress =>
    apply reserved_resume tracked inProgress
    have grown :=
      Finset.card_insert_le scheduled.task.taskId before.runningTasks
    change
      (insert scheduled.task.taskId before.runningTasks).card + slots ≤
        before.runningTasks.card + (slots + 1)
    omega
  | settled inProgress =>
    apply reserved_resume tracked inProgress
    exact Nat.add_le_add_right Finset.card_erase_le _
  | uncounted inProgress =>
    apply reserved_resume tracked inProgress
    rw [slots_expireWith]
    exact Nat.add_le_add_right Finset.card_erase_le _
  | skipped inProgress =>
    apply reserved_resume tracked inProgress
    rw [slots_loopWith]
    exact Nat.add_le_add_left (Nat.le_succ _) _
  | dispatched inProgress isSent isNext =>
    apply reserved_resume tracked inProgress
    apply Nat.add_le_add_left
    rcases isNext with rfl | rfl
    · exact Nat.zero_le _
    · rw [slots_loopWith]
      exact Nat.le_refl _
  | checked =>
    rw [map_append, sum_append, slots_expireWith, Nat.zero_add]
    exact tracked.reserved
  | pushed inProgress | popped inProgress queued | marked inProgress starts
  | expired inProgress =>
    apply reserved_resume tracked inProgress
    exact Nat.le_refl _
  | nothingPopped inProgress =>
    apply reserved_resume tracked inProgress
    exact Nat.add_le_add_left (Nat.zero_le _) _
  | submitted | cancelled cancels | reported =>
    rw [map_cons, sum_cons, Operation.slots_eq_zero rfl, Nat.zero_add]
    exact tracked.reserved
  | refused | full => exact tracked.reserved

theorem taken_of_running (tracked : before.Tracked concurrency)
    (accurate : before.RunningAccurate concurrency)
    (runs : before.IsRunning taskId) :
    before.Taken taskId := by
  rcases accurate.entered taskId runs with
    member | ⟨slots, scheduled, inProgress, rfl⟩
  · exact tracked.running taskId member
  · exact tracked.operations _ inProgress

theorem isRunning_of_timeout {now : String → Timestamp}
    (member : taskId ∈ scheduler.allTasks.timeoutTasks now) :
    scheduler.IsRunning taskId := by
  have tooLong := (mem_filter.mp member).2
  rw [IsRunning, statusOf]
  cases found : scheduler.allTasks.lookup taskId with
  | none =>
    rw [found] at tooLong
    cases tooLong
  | some task =>
    rw [found] at tooLong
    have runs := (Bool.and_eq_true_iff.mp tooLong).1
    rw [Option.map_some, of_decide_eq_true runs]

/-- The operations after a step are old ones and sound new ones. -/
theorem sound_of_effect (tracked : before.Tracked concurrency)
    (accurate : before.RunningAccurate concurrency)
    (serves : before.Serves action)
    (effect : Effect concurrency before action after) (operation : Operation)
    (inProgress : operation ∈ after.operations) :
    operation.Sound after := by
  have continues := continues_of_effect tracked serves effect
  have old : operation ∈ before.operations → operation.Sound after :=
    fun member => continues.sound (tracked.operations operation member)
  cases effect with
  | submitted | scheduling free =>
    rcases mem_cons.mp inProgress with rfl | member
    · trivial
    · exact old member
  | cancelled cancels =>
    rcases mem_cons.mp inProgress with rfl | member
    · exact stopped_of_cancel cancels
    · exact old member
  | reported =>
    rcases mem_cons.mp inProgress with rfl | member
    · obtain ⟨worker, isSent, isId⟩ := serves
      have taken := tracked.sent worker isSent
      rw [isId] at taken
      exact stopped_of_update rfl (List.Subset.refl _) (status_report_ne _ _)
        taken
    · exact old member
  | checked =>
    rcases mem_append.mp inProgress with isNew | member
    · rw [mem_expireWith isNew]
      intro taskId tooLong
      exact continues.taken
        (taken_of_running tracked accurate (isRunning_of_timeout tooLong))
    · exact old member
  | popped isOld queued =>
    rcases mem_resume inProgress with isNext | member
    · cases mem_singleton.mp isNext
      trivial
    · exact old member
  | marked isOld starts =>
    rcases mem_resume inProgress with isNext | member
    · cases mem_singleton.mp isNext
      exact taken_of_mark tracked isOld continues
    · exact old member
  | @counted slots scheduled isOld =>
    rcases mem_resume inProgress with isNext | member
    · cases mem_singleton.mp isNext
      have taken : before.Taken scheduled.task.taskId :=
        tracked.operations _ isOld
      exact continues.taken taken
    · exact old member
  | expired isOld =>
    rcases mem_resume inProgress with isNext | member
    · cases mem_singleton.mp isNext
      have taken := tracked.operations _ isOld
      have takenFirst := taken _ mem_cons_self
      refine ⟨⟨?_, continues.taken takenFirst⟩, fun other member => ?_⟩
      · exact stopped_of_update rfl (waitingIds_resume isOld rfl).subset
          status_expire_ne takenFirst
      · exact continues.taken (taken other (mem_cons_of_mem _ member))
    · exact old member
  | uncounted isOld =>
    rcases mem_resume inProgress with isNext | member
    · rw [mem_expireWith isNext]
      intro taskId member
      exact continues.taken ((tracked.operations _ isOld).2 taskId member)
    · exact old member
  | skipped isOld =>
    rcases mem_resume inProgress with isNext | member
    · rw [mem_loopWith isNext]
      trivial
    · exact old member
  | dispatched isOld isSent isNext =>
    rcases mem_resume inProgress with member | member
    · rcases isNext with rfl | rfl
      · cases member
      · rw [mem_loopWith member]
        trivial
    · exact old member
  | pushed isOld | settled isOld | nothingPopped isOld =>
    rcases mem_resume inProgress with isNext | member
    · cases isNext
    · exact old member
  | refused | full => exact old inProgress

theorem mem_runningTasks_of_effect
    (effect : Effect concurrency before action after)
    (member : taskId ∈ after.runningTasks) :
    taskId ∈ before.runningTasks ∨ before.Starting taskId := by
  cases effect with
  | @counted slots scheduled inProgress =>
    rcases Finset.mem_insert.mp member with rfl | known
    · exact .inr ⟨slots, scheduled, inProgress, rfl⟩
    · exact .inl known
  | settled inProgress | uncounted inProgress =>
    exact .inl (Finset.mem_of_mem_erase member)
  | submitted | pushed inProgress | refused | full | cancelled cancels
  | scheduling free | popped inProgress queued | nothingPopped inProgress
  | marked inProgress starts | skipped inProgress
  | dispatched inProgress isSent isNext | checked | expired inProgress
  | reported => exact .inl member

theorem mem_sent_of_effect
    (effect : Effect concurrency before action after) {worker : WorkerTask}
    (member : worker ∈ after.sent) :
    worker ∈ before.sent ∨
      ∃ slots scheduled,
        .counted slots scheduled ∈ before.operations ∧
          worker.taskId = scheduled.task.taskId := by
  cases effect with
  | @dispatched slots scheduled outcome sent next inProgress isSent isNext =>
    rcases mem_append.mp member with known | isNew
    · exact .inl known
    · rcases isSent with rfl | rfl
      · cases isNew
      · cases mem_singleton.mp isNew
        exact .inr ⟨slots, scheduled, inProgress, rfl⟩
  | submitted | pushed inProgress | refused | full | cancelled cancels
  | settled inProgress | scheduling free | popped inProgress queued
  | nothingPopped inProgress | marked inProgress starts | skipped inProgress
  | counted inProgress | checked | expired inProgress | uncounted inProgress
  | reported => exact .inl member

theorem tracked_of_effect (tracked : before.Tracked concurrency)
    (accurate : before.RunningAccurate concurrency)
    (serves : before.Serves action)
    (effect : Effect concurrency before action after) :
    after.Tracked concurrency := by
  have continues := continues_of_effect tracked serves effect
  refine ⟨?_, ?_, sound_of_effect tracked accurate serves effect, ?_, ?_,
    reserved_of_effect tracked serves effect⟩
  · rcases waitingIds_of_effect effect with
      ⟨fewer, isFewer, sublist⟩ | ⟨task, priority, now, rfl, isAfter⟩
    · exact isFewer.nodup_iff.mp (tracked.waitingOnce.sublist sublist)
    · rw [isAfter]
      refine nodup_cons.mpr ⟨fun waits => ?_, tracked.waitingOnce⟩
      exact tracked.waitingKnown _ waits serves
  · intro taskId waits
    rcases waitingIds_of_effect effect with
      fewer | ⟨task, priority, now, rfl, isAfter⟩
    · exact continues.known _ (tracked.waitingKnown _ (fewer.subset waits))
    · rw [isAfter] at waits
      rcases mem_cons.mp waits with rfl | waited
      · cases effect with
        | submitted =>
          rw [statusOf, AList.lookup_insert]
          exact Option.some_ne_none _
      · exact continues.known _ (tracked.waitingKnown _ waited)
  · intro taskId member
    rcases mem_runningTasks_of_effect effect member with
      known | ⟨slots, scheduled, inProgress, rfl⟩
    · exact continues.taken (tracked.running taskId known)
    · have taken : before.Taken scheduled.task.taskId :=
        tracked.operations _ inProgress
      exact continues.taken taken
  · intro worker member
    rcases mem_sent_of_effect effect member with
      known | ⟨slots, scheduled, inProgress, isId⟩
    · exact continues.taken (tracked.sent worker known)
    · have taken : before.Taken scheduled.task.taskId :=
        tracked.operations _ inProgress
      rw [isId]
      exact continues.taken taken

theorem mem_resume_of_ne {operation other : Operation} (next : List Operation)
    (differs : other ≠ operation) (inProgress : other ∈ scheduler.operations) :
    other ∈ (scheduler.resume operation next).operations :=
  mem_append_right _ ((mem_erase_of_ne differs).mpr inProgress)

theorem starting_of_effect (effect : Effect concurrency before action after)
    (starting : before.Starting taskId) :
    after.Starting taskId ∨ taskId ∈ after.runningTasks := by
  obtain ⟨slots, scheduled, inProgress, rfl⟩ := starting
  have goesOn :
      .marked slots scheduled ∈ after.operations →
        after.Starting scheduled.task.taskId ∨
          scheduled.task.taskId ∈ after.runningTasks :=
    fun member => .inl ⟨slots, scheduled, member, rfl⟩
  cases effect with
  | @counted otherSlots other isOld =>
    by_cases same : Operation.marked slots scheduled = .marked otherSlots other
    · cases same
      exact .inr (Finset.mem_insert_self _ _)
    · exact goesOn (mem_resume_of_ne _ same inProgress)
  | refused | full => exact goesOn inProgress
  | submitted | cancelled cancels | scheduling free | reported =>
    exact goesOn (mem_cons_of_mem _ inProgress)
  | checked => exact goesOn (mem_append_right _ inProgress)
  | pushed isOld | settled isOld | popped isOld queued | nothingPopped isOld
  | marked isOld starts | skipped isOld | dispatched isOld isSent isNext
  | expired isOld | uncounted isOld =>
    exact goesOn (mem_resume_of_ne _ Operation.noConfusion inProgress)

theorem stopping_of_effect (effect : Effect concurrency before action after)
    (stopping : before.Stopping taskId) :
    after.Stopping taskId ∨ taskId ∉ after.runningTasks := by
  have goesOn :
      (∀ operation ∈ before.operations,
          (operation = .settling taskId ∨
            ∃ taskIds, operation = .expired taskId taskIds) →
          operation ∈ after.operations) →
        after.Stopping taskId ∨ taskId ∉ after.runningTasks := by
    intro kept
    rcases stopping with settling | ⟨taskIds, expired⟩
    · exact .inl (.inl (kept _ settling (.inl rfl)))
    · exact .inl (.inr ⟨taskIds, kept _ expired (.inr ⟨taskIds, rfl⟩)⟩)
  cases effect with
  | @settled other isOld =>
    by_cases same : other = taskId
    · subst same
      exact .inr (Finset.notMem_erase _ _)
    · refine goesOn fun operation member isStop => ?_
      refine mem_resume_of_ne _ ?_ member
      rintro rfl
      rcases isStop with isSame | ⟨taskIds, isSame⟩ <;> cases isSame
      exact same rfl
  | @uncounted other taskIds isOld =>
    by_cases same : other = taskId
    · subst same
      exact .inr (Finset.notMem_erase _ _)
    · refine goesOn fun operation member isStop => ?_
      refine mem_resume_of_ne _ ?_ member
      rintro rfl
      rcases isStop with isSame | ⟨otherIds, isSame⟩ <;> cases isSame
      exact same rfl
  | refused | full =>
    exact goesOn fun operation member _ => member
  | submitted | cancelled cancels | scheduling free | reported =>
    exact goesOn fun operation member _ => mem_cons_of_mem _ member
  | checked =>
    exact goesOn fun operation member _ => mem_append_right _ member
  | pushed isOld | popped isOld queued | nothingPopped isOld
  | marked isOld starts | skipped isOld | counted isOld
  | dispatched isOld isSent isNext | expired isOld =>
    refine goesOn fun operation member isStop => ?_
    refine mem_resume_of_ne _ ?_ member
    rintro rfl
    rcases isStop with isSame | ⟨taskIds, isSame⟩ <;> cases isSame

theorem isRunning_of_effect (effect : Effect concurrency before action after)
    (runs : after.IsRunning taskId) :
    before.IsRunning taskId ∨ after.Starting taskId ∨
      ∃ task priority now,
        action = .submitTask task priority now ∧ task.status = .running := by
  cases effect with
  | @submitted task priority now =>
    by_cases same : taskId = task.taskId
    · subst same
      rw [IsRunning, statusOf, AList.lookup_insert] at runs
      exact .inr (.inr ⟨task, priority, now, rfl, Option.some.inj runs⟩)
    · rw [IsRunning, statusOf, AList.lookup_insert_ne same] at runs
      exact .inl runs
  | @cancelled other cancels =>
    rw [IsRunning, statusOf_update rfl] at runs
    split at runs
    · obtain ⟨task, _, isRunning⟩ := Option.map_eq_some_iff.mp runs
      cases isRunning
    · exact .inl runs
  | @marked slots scheduled now inProgress starts =>
    rw [IsRunning, statusOf_update rfl] at runs
    split at runs
    · rename_i same
      exact .inr (.inl ⟨slots, scheduled, mem_cons_self, same.symm⟩)
    · exact .inl runs
  | expired inProgress =>
    rw [IsRunning, statusOf_update rfl] at runs
    split at runs
    · obtain ⟨task, _, isRunning⟩ := Option.map_eq_some_iff.mp runs
      exact absurd isRunning (status_expire_ne task)
    · exact .inl runs
  | reported =>
    rw [IsRunning, statusOf_update rfl] at runs
    split at runs
    · obtain ⟨task, _, isRunning⟩ := Option.map_eq_some_iff.mp runs
      exact absurd isRunning (status_report_ne _ _ task)
    · exact .inl runs
  | pushed isOld | refused | settled isOld | full | scheduling free
  | popped isOld queued | nothingPopped isOld | skipped isOld | counted isOld
  | dispatched isOld isSent isNext | checked | uncounted isOld =>
    exact .inl runs

theorem stillRunning_of_effect (serves : before.Serves action)
    (effect : Effect concurrency before action after)
    (runs : before.IsRunning taskId) :
    after.IsRunning taskId ∨ after.Stopping taskId := by
  cases effect with
  | @submitted task priority now =>
    have differs : taskId ≠ task.taskId := by
      rintro rfl
      rw [IsRunning, serves] at runs
      cases runs
    left
    rw [IsRunning, statusOf, AList.lookup_insert_ne differs]
    exact runs
  | @cancelled other cancels =>
    by_cases same : taskId = other
    · subst same
      exact .inr (.inl mem_cons_self)
    · left
      rwa [IsRunning, statusOf_update rfl, if_neg same]
  | @marked slots scheduled now inProgress starts =>
    left
    rw [IsRunning, statusOf_update rfl]
    split
    · obtain ⟨task, found, _⟩ := AllTasks.canStart_iff.mp starts
      rw [found]
      rfl
    · exact runs
  | @expired other taskIds inProgress =>
    by_cases same : taskId = other
    · subst same
      exact .inr (.inr ⟨taskIds, mem_cons_self⟩)
    · left
      rwa [IsRunning, statusOf_update rfl, if_neg same]
  | @reported result now =>
    by_cases same : taskId = result.taskId
    · subst same
      exact .inr (.inl mem_cons_self)
    · left
      rwa [IsRunning, statusOf_update rfl, if_neg same]
  | pushed isOld | refused | settled isOld | full | scheduling free
  | popped isOld queued | nothingPopped isOld | skipped isOld | counted isOld
  | dispatched isOld isSent isNext | checked | uncounted isOld =>
    exact .inl runs

theorem stillEntered_of_effect (tracked : before.Tracked concurrency)
    (effect : Effect concurrency before action after)
    (member : taskId ∈ before.runningTasks) :
    taskId ∈ after.runningTasks ∨ ¬after.IsRunning taskId := by
  cases effect with
  | @settled other inProgress =>
    by_cases same : taskId = other
    · subst same
      have stopped : before.Stopped taskId := tracked.operations _ inProgress
      exact .inr stopped.notRunning
    · exact .inl (Finset.mem_erase_of_ne_of_mem same member)
  | @uncounted other taskIds inProgress =>
    by_cases same : taskId = other
    · subst same
      exact .inr (tracked.operations _ inProgress).1.1.notRunning
    · exact .inl (Finset.mem_erase_of_ne_of_mem same member)
  | counted inProgress => exact .inl (Finset.mem_insert_of_mem member)
  | submitted | pushed isOld | refused | cancelled cancels | full
  | scheduling free | popped isOld queued | nothingPopped isOld
  | marked isOld starts | skipped isOld | dispatched isOld isSent isNext
  | checked | expired isOld | reported => exact .inl member

theorem accurate_of_entersRunning (tracked : before.Tracked concurrency)
    (accurate : before.RunningAccurate concurrency)
    (serves : before.Serves action)
    (effect : Effect concurrency before action after)
    (enters : before.EntersRunning action) :
    after.RunningAccurate concurrency := by
  have reserved := reserved_of_effect tracked serves effect
  refine ⟨Nat.le_of_add_right_le reserved, fun taskId runs => ?_,
    fun taskId member => ?_⟩
  · rcases isRunning_of_effect effect runs with
      ranBefore | starting | ⟨task, priority, now, rfl, isRunning⟩
    · rcases accurate.entered taskId ranBefore with known | starting
      · exact .inl
          ((stillEntered_of_effect tracked effect known).resolve_right
            (not_not_intro runs))
      · exact (starting_of_effect effect starting).symm
    · exact .inr starting
    · exact absurd isRunning enters
  · have kept :
        before.IsRunning taskId ∨ before.Stopping taskId →
          after.IsRunning taskId ∨ after.Stopping taskId := by
      rintro (runs | stopping)
      · exact stillRunning_of_effect serves effect runs
      · exact .inr
          ((stopping_of_effect effect stopping).resolve_right
            (not_not_intro member))
    cases effect with
    | @counted slots scheduled inProgress =>
      rcases Finset.mem_insert.mp member with rfl | known
      · exact kept enters
      · exact kept (accurate.struckOut taskId known)
    | settled inProgress | uncounted inProgress =>
      exact kept (accurate.struckOut taskId (Finset.mem_of_mem_erase member))
    | submitted | pushed isOld | refused | cancelled cancels | full
    | scheduling free | popped isOld queued | nothingPopped isOld
    | marked isOld starts | skipped isOld | dispatched isOld isSent isNext
    | checked | expired isOld | reported =>
      exact kept (accurate.struckOut taskId member)

theorem entersRunning_of_accurate
    (tracked : before.Tracked concurrency) (serves : before.Serves action)
    (effect : Effect concurrency before action after)
    (accurate : after.RunningAccurate concurrency) :
    before.EntersRunning action := by
  cases effect with
  | @submitted task priority now =>
    intro isRunning
    have unknown : ¬before.Taken task.taskId := fun taken => taken.1 serves
    have runs :
        IsRunning
          {
            before with
            allTasks := before.allTasks.insert task.taskId task
            operations := .submitting ⟨task, priority, now⟩ :: before.operations
          }
          task.taskId := by
      rw [IsRunning, statusOf, AList.lookup_insert, Option.map_some, isRunning]
    rcases accurate.entered _ runs with
      member | ⟨slots, scheduled, inProgress, isId⟩
    · exact unknown (tracked.running _ member)
    · have isOld :=
        mem_of_ne_of_mem Operation.noConfusion inProgress
      have taken : before.Taken scheduled.task.taskId :=
        tracked.operations _ isOld
      rw [isId] at taken
      exact unknown taken
  | @counted slots scheduled inProgress =>
    have next := Finset.mem_insert_self scheduled.task.taskId
      before.runningTasks
    rcases accurate.struckOut _ next with
      runs | settling | ⟨taskIds, expired⟩
    · exact .inl runs
    · rcases mem_resume settling with isNext | isOld
      · cases mem_singleton.mp isNext
      · exact .inr (.inl isOld)
    · rcases mem_resume expired with isNext | isOld
      · cases mem_singleton.mp isNext
      · exact .inr (.inr ⟨taskIds, isOld⟩)
  | pushed isOld | refused | cancelled cancels | settled isOld | full
  | scheduling free | popped isOld queued | nothingPopped isOld
  | marked isOld starts | skipped isOld | dispatched isOld isSent isNext
  | checked | expired isOld | uncounted isOld | reported => trivial

end Step

theorem tracked_new (concurrency : ℕ) :
    new.Tracked concurrency ∧ new.RunningAccurate concurrency := by
  refine ⟨⟨nodup_nil, ?_, ?_, ?_, ?_, Nat.zero_le _⟩, ⟨Nat.zero_le _, ?_, ?_⟩⟩
  · intro taskId waits
    cases waits
  · intro operation inProgress
    cases inProgress
  · intro taskId member
    exact absurd member (Finset.notMem_empty taskId)
  · intro worker member
    cases member
  · intro taskId runs
    cases runs
  · intro taskId member
    exact absurd member (Finset.notMem_empty taskId)

end Scheduler

/-- A step of a scheduler that is used by one loop, with new ids. -/
def ServedStep (concurrency : ℕ) :
    Scheduler → SchedulerAction → Scheduler → Prop :=
  Restrict (SchedulerStep concurrency) Scheduler.Serves

/-- The task is cancelled after the loop marked it and before it is entered. -/
def cancelledStart : List SchedulerAction := [
  .submitTask exampleTask .normal 1,
  .push exampleScheduled,
  .scheduleTasks,
  .pop 1 exampleScheduled,
  .markRunning 1 exampleScheduled 2,
  .cancelTask exampleTask.taskId,
  .settle exampleTask.taskId,
  .count 1 exampleScheduled,
  .dispatch 1 exampleScheduled .sent,
  .popNothing 1
]

end ChronoDB.Downsample
