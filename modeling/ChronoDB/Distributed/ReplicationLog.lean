import ChronoDB.Distributed.Replication

namespace ChronoDB.Distributed

open Library List

/-!
# What a completed entry means

Entries, tasks and calls under one number are about one request.  A finishing
worker completes all pending entries of its shard, so the log says the truth
exactly when these were all replicated.
-/

namespace Attempt

theorem task_of_ask {attempt asked : Attempt} {outcome : TargetOutcome}
    (isAsked : attempt.ask outcome = some asked) :
    asked.task = attempt.task := by
  rw [ask] at isAsked
  split at isAsked
  · split at isAsked <;>
      · cases isAsked
        rfl
  · cases isAsked

end Attempt

namespace ReplicationManager

variable
  {manager before after : ReplicationManager}
  {entry : ReplicationEntry}
  {log : List ReplicationEntry}

/-!
## Rewritten entries
-/

variable {worker : Fin 5} {attempt : Attempt}
  {selected : ReplicationEntry → Bool} {call : ℕ}

theorem exists_of_mem_settle
    {status : ReplicationStatus} (member : entry ∈ settle selected status log) :
    ∃ old ∈ log,
      entry.call = old.call ∧ entry.shardId = old.shardId ∧
        entry.series = old.series ∧
        (entry = old ∧ ¬(selected old ∧ old.status = .pending) ∨
          selected old ∧ old.status = .pending ∧ entry.status = status) := by
  obtain ⟨old, isOld, rfl⟩ := mem_map.mp member
  refine ⟨old, isOld, ?_⟩
  split
  · rename_i rewritten
    exact ⟨rfl, rfl, rfl, .inr ⟨rewritten.1, rewritten.2, rfl⟩⟩
  · rename_i kept
    exact ⟨rfl, rfl, rfl, .inl ⟨rfl, kept⟩⟩

theorem mem_settle_of_pending
    (status : ReplicationStatus) (member : entry ∈ log)
    (isSelected : selected entry) (isPending : entry.status = .pending) :
    { entry with status := status } ∈ settle selected status log := by
  refine mem_map.mpr ⟨entry, member, ?_⟩
  rw [if_pos ⟨isSelected, isPending⟩]

theorem mem_settle_of_not_pending
    (status : ReplicationStatus) (member : entry ∈ log)
    (notPending : entry.status ≠ .pending) :
    entry ∈ settle selected status log := by
  refine mem_map.mpr ⟨entry, member, ?_⟩
  rw [if_neg fun rewritten => notPending rewritten.2]

/-!
## Numbers of calls
-/

def Requested (manager : ReplicationManager) (call : ℕ) (shardId : UInt64)
    (series : TimeSeries) :
    Prop :=
  manager.requests[call]? = some ⟨shardId, series⟩

/-- Entries, tasks and calls agree with the requests under their numbers. -/
structure Recorded (manager : ReplicationManager) : Prop where
  entries :
    ∀ entry ∈ manager.replicationLog,
      manager.Requested entry.call entry.shardId entry.series
  tasks :
    ∀ task ∈ manager.replicationQueue,
      manager.Requested task.call task.shardId task.series
  attempts :
    ∀ worker, ∀ attempt ∈ manager.workers worker,
      manager.Requested attempt.task.call attempt.task.shardId
        attempt.task.series
  logging :
    ∀ call request, manager.caller = some (.logging call request) →
      manager.Requested call request.shardId request.series ∧
        call ∉ manager.succeeded
  sending :
    ∀ attempt, manager.caller = some (.sending attempt) →
      manager.Requested attempt.task.call attempt.task.shardId
        attempt.task.series
  succeeded : ∀ call ∈ manager.succeeded, call < manager.requests.length

theorem Requested.append {shardId : UInt64} {series : TimeSeries}
    (requested : manager.Requested call shardId series)
    (more : List ReplicationRequest) :
    (manager.requests ++ more)[call]? = some ⟨shardId, series⟩ := by
  rw [getElem?_append_left]
  · exact requested
  · exact (List.getElem?_eq_some_iff.mp requested).1

theorem getElem?_append_length (request : ReplicationRequest) :
    (manager.requests ++ [request])[manager.requests.length]? =
      some request := by
  rw [getElem?_append_right (Nat.le_refl _), Nat.sub_self]
  rfl

theorem Recorded.ofRequest
    (recorded : Recorded before) (request : ReplicationRequest)
    (queued : List ReplicationTask)
    (areQueued :
      ∀ task ∈ queued,
        (⟨task.shardId, task.series⟩ : ReplicationRequest) = request ∧
          task.call = before.requests.length)
    (caller : Option ReplicateCall)
    (isLogging :
      ∀ call other, caller = some (.logging call other) →
        other = request ∧ call = before.requests.length)
    (isSending :
      ∀ attempt, caller = some (.sending attempt) →
        (⟨attempt.task.shardId, attempt.task.series⟩ :
            ReplicationRequest) = request ∧
          attempt.task.call = before.requests.length) :
    Recorded {
      before with
      requests := before.requests ++ [request]
      replicationQueue := before.replicationQueue ++ queued
      caller := caller
    } := by
  constructor
  · intro entry member
    exact (recorded.entries entry member).append _
  · intro task member
    rcases mem_append.mp member with isOld | isNew
    · exact (recorded.tasks task isOld).append _
    · obtain ⟨same, isCall⟩ := areQueued task isNew
      rw [Requested, isCall, same]
      exact getElem?_append_length request
  · intro worker attempt isAttempt
    exact (recorded.attempts worker attempt isAttempt).append _
  · intro call other isCaller
    obtain ⟨rfl, rfl⟩ := isLogging call other isCaller
    refine ⟨getElem?_append_length other, fun hasSucceeded => ?_⟩
    exact Nat.lt_irrefl _ (recorded.succeeded _ hasSucceeded)
  · intro attempt isCaller
    obtain ⟨same, isCall⟩ := isSending attempt isCaller
    rw [Requested, isCall, same]
    exact getElem?_append_length request
  · intro call hasSucceeded
    rw [length_append]
    exact Nat.lt_add_right _ (recorded.succeeded call hasSucceeded)

theorem Recorded.entries_settle
    (recorded : Recorded manager) (selected : ReplicationEntry → Bool)
    (status : ReplicationStatus) :
    ∀ entry ∈ settle selected status manager.replicationLog,
      manager.Requested entry.call entry.shardId entry.series := by
  intro entry member
  obtain ⟨old, isOld, sameCall, sameShard, sameSeries, _⟩ :=
    exists_of_mem_settle member
  rw [sameCall, sameShard, sameSeries]
  exact recorded.entries old isOld

theorem Recorded.ofFewer
    (recorded : Recorded manager) {kept : List ReplicationEntry}
    (fewer : ∀ entry ∈ kept, entry ∈ manager.replicationLog) :
    Recorded { manager with replicationLog := kept } :=
  ⟨fun entry member => recorded.entries entry (fewer entry member),
    recorded.tasks, recorded.attempts, recorded.logging, recorded.sending,
    recorded.succeeded⟩

theorem Recorded.attempts_update
    (recorded : Recorded manager) (worker : Fin 5) {changed : Option Attempt}
    (isRequested :
      ∀ attempt ∈ changed,
        manager.Requested attempt.task.call attempt.task.shardId
          attempt.task.series) :
    ∀ other,
      ∀ attempt ∈ Function.update manager.workers worker changed other,
        manager.Requested attempt.task.call attempt.task.shardId
          attempt.task.series := by
  intro other attempt isAttempt
  by_cases same : other = worker
  · subst same
    rw [Function.update_self] at isAttempt
    exact isRequested attempt isAttempt
  · rw [Function.update_of_ne same] at isAttempt
    exact recorded.attempts other attempt isAttempt

/-!
## Acknowledgements
-/

theorem Replicated.mono (replicated : before.Replicated entry)
    (sameConfig : after.config = before.config)
    (more :
      ∀ acknowledgement ∈ before.acknowledged,
        acknowledgement ∈ after.acknowledged) :
    after.Replicated entry := by
  rw [Replicated, sameConfig]
  refine le_trans replicated (Finset.card_le_card ?_)
  intro node isNode
  obtain ⟨acknowledgement, isAcknowledged, rfl⟩ :=
    mem_map.mp (mem_toFinset.mp isNode)
  obtain ⟨member, matching⟩ := mem_filter.mp isAcknowledged
  exact mem_toFinset.mpr (mem_map_of_mem
    (mem_filter.mpr ⟨more acknowledgement member, matching⟩))

theorem CompletedIsReplicated.mono (holds : CompletedIsReplicated before)
    (sameConfig : after.config = before.config)
    (fewer :
      ∀ entry ∈ after.replicationLog, entry ∈ before.replicationLog)
    (sameSucceeded : after.succeeded = before.succeeded)
    (more :
      ∀ acknowledgement ∈ before.acknowledged,
        acknowledgement ∈ after.acknowledged) :
    CompletedIsReplicated after := by
  constructor
  · intro entry member isCompleted
    exact (holds.replicated entry (fewer entry member) isCompleted).mono
      sameConfig more
  · intro entry member hasSucceeded
    rw [sameSucceeded] at hasSucceeded
    exact holds.settled entry (fewer entry member) hasSucceeded

theorem CompletedIsReplicated.sameLog (holds : CompletedIsReplicated before)
    (sameConfig : after.config = before.config)
    (sameLog : after.replicationLog = before.replicationLog)
    (sameSucceeded : after.succeeded = before.succeeded)
    (more :
      ∀ acknowledgement ∈ before.acknowledged,
        acknowledgement ∈ after.acknowledged) :
    CompletedIsReplicated after := by
  refine holds.mono sameConfig ?_ sameSucceeded more
  rw [sameLog]
  exact fun _ => id

theorem CompletedIsReplicated.ofFewer
    (holds : CompletedIsReplicated before) {kept : List ReplicationEntry}
    (fewer : ∀ entry ∈ kept, entry ∈ before.replicationLog) :
    CompletedIsReplicated { before with replicationLog := kept } :=
  holds.mono rfl fewer rfl fun _ => id

theorem CompletedIsReplicated.fail
    (holds : CompletedIsReplicated before) (selected : ReplicationEntry → Bool)
    (isLog :
      after.replicationLog = settle selected .failed before.replicationLog)
    (sameConfig : after.config = before.config)
    (sameSucceeded : after.succeeded = before.succeeded)
    (sameAcknowledged : after.acknowledged = before.acknowledged) :
    CompletedIsReplicated after := by
  have more :
      ∀ acknowledgement ∈ before.acknowledged,
        acknowledgement ∈ after.acknowledged := by
    rw [sameAcknowledged]
    exact fun _ => id
  constructor
  · intro entry member isCompleted
    rw [isLog] at member
    obtain ⟨old, isOld, _, _, _, ⟨rfl, _⟩ | ⟨_, _, isFailed⟩⟩ :=
      exists_of_mem_settle member
    · exact (holds.replicated entry isOld isCompleted).mono sameConfig more
    · rw [isFailed] at isCompleted
      cases isCompleted
  · intro entry member hasSucceeded
    rw [isLog] at member
    rw [sameSucceeded] at hasSucceeded
    obtain ⟨old, isOld, sameCall, _, _, ⟨rfl, _⟩ | ⟨_, isPending, _⟩⟩ :=
      exists_of_mem_settle member
    · exact holds.settled entry isOld hasSucceeded
    · rw [sameCall] at hasSucceeded
      exact absurd isPending (holds.settled old isOld hasSucceeded).1

theorem CompletedIsReplicated.logReplication
    (holds : CompletedIsReplicated before)
    (notSucceeded : call ∉ before.succeeded) (request : ReplicationRequest)
    (timestamp : Timestamp) :
    CompletedIsReplicated (before.logReplication call request timestamp) := by
  constructor
  · intro entry member isCompleted
    rcases mem_append.mp member with isOld | isNew
    · exact holds.replicated entry isOld isCompleted
    · rw [mem_singleton.mp isNew] at isCompleted
      cases isCompleted
  · intro entry member hasSucceeded
    rcases mem_append.mp member with isOld | isNew
    · exact holds.settled entry isOld hasSucceeded
    · rw [mem_singleton.mp isNew] at hasSucceeded
      exact absurd hasSucceeded notSucceeded

/--
A task that succeeds leaves a true log exactly when the pending entries of its
shard are replicated and its own entry has not failed.
-/
theorem completed_complete_iff
    (recorded : Recorded before) (holds : CompletedIsReplicated before)
    (isAttempt : before.workers worker = some attempt) :
    CompletedIsReplicated (before.complete worker attempt.task) ↔
      (∀ entry ∈ before.replicationLog,
        entry.shardId = attempt.task.shardId →
          entry.status = .pending → before.Replicated entry) ∧
      ∀ entry ∈ before.replicationLog,
        entry.call = attempt.task.call → entry.status ≠ .failed := by
  constructor
  · intro holdsAfter
    constructor
    · intro entry member ofShard isPending
      have replicated :=
        holdsAfter.replicated { entry with status := .completed }
          (mem_settle_of_pending .completed member (decide_eq_true ofShard)
            isPending) rfl
      exact replicated
    · intro entry member sameCall isFailed
      have notPending : entry.status ≠ .pending := by
        rw [isFailed]
        exact ReplicationStatus.noConfusion
      refine (holdsAfter.settled entry
        (mem_settle_of_not_pending .completed member notPending) ?_).2
        isFailed
      rw [sameCall]
      exact Finset.mem_insert_self _ _
  · rintro ⟨replicated, notFailed⟩
    constructor
    · intro entry member isCompleted
      obtain ⟨old, isOld, _, sameShard, sameSeries,
        ⟨rfl, _⟩ | ⟨ofShard, isPending, _⟩⟩ := exists_of_mem_settle member
      · exact holds.replicated entry isOld isCompleted
      · have oldReplicated :=
          replicated old isOld (of_decide_eq_true ofShard) isPending
        rw [Replicated, sameShard, sameSeries]
        exact oldReplicated
    · intro entry member hasSucceeded
      obtain ⟨old, isOld, sameCall, _, _,
        ⟨rfl, kept⟩ | ⟨_, _, isCompleted⟩⟩ := exists_of_mem_settle member
      · rcases Finset.mem_insert.mp hasSucceeded with isTask | before
        · refine ⟨fun isPending => kept ⟨?_, isPending⟩,
            notFailed entry isOld isTask⟩
          -- the entry and the task of a call are of one shard
          have ofEntry := recorded.entries entry isOld
          have ofTask := recorded.attempts worker attempt isAttempt
          rw [Requested, isTask, ofTask] at ofEntry
          have sameRequest := Option.some.inj ofEntry
          exact decide_eq_true
            (congrArg ReplicationRequest.shardId sameRequest).symm
        · exact holds.settled entry isOld before
      · rw [isCompleted]
        exact ⟨ReplicationStatus.noConfusion, ReplicationStatus.noConfusion⟩

/-!
## Steps and runs
-/

theorem replicate_effect
    (recorded : Recorded before) (notHeld : before.caller = none)
    (shardId : UInt64) (series : TimeSeries) (targetNodes : List String) :
    Recorded (before.replicate shardId series targetNodes) ∧
      (before.replicate shardId series targetNodes).config = before.config ∧
      (before.replicate shardId series targetNodes).replicationLog =
        before.replicationLog ∧
      (before.replicate shardId series targetNodes).succeeded =
        before.succeeded ∧
      (before.replicate shardId series targetNodes).acknowledged =
        before.acknowledged := by
  have ofRequest := recorded.ofRequest ⟨shardId, series⟩
  rw [replicate]
  split
  · split
    · refine ⟨?_, rfl, rfl, rfl, rfl⟩
      refine ofRequest _ ?_ _ ?_ ?_
      · intro task isNew
        rw [mem_singleton.mp isNew]
        exact ⟨rfl, rfl⟩
      · rintro call other isCaller
        cases isCaller
        exact ⟨rfl, rfl⟩
      · rintro attempt isCaller
        cases isCaller
    · refine ⟨?_, rfl, rfl, rfl, rfl⟩
      have unqueued := ofRequest [] (by simp) none (by simp) (by simp)
      rw [append_nil, ← notHeld] at unqueued
      exact unqueued
  · split
    · refine ⟨?_, rfl, rfl, rfl, rfl⟩
      have unqueued := ofRequest [] (by simp) (some (.sending (.start {
        call := before.requests.length
        shardId := shardId
        series := series
        targetNodes := targetNodes
        retryCount := 0
        maxRetries := 3
      }))) (by simp) (by
        rintro attempt isCaller
        cases isCaller
        exact ⟨rfl, rfl⟩)
      rw [append_nil] at unqueued
      exact unqueued
    · refine ⟨?_, rfl, rfl, rfl, rfl⟩
      have unqueued := ofRequest [] (by simp)
        (some (.logging before.requests.length ⟨shardId, series⟩)) (by
          rintro call other isCaller
          cases isCaller
          exact ⟨rfl, rfl⟩) (by simp)
      rw [append_nil] at unqueued
      exact unqueued

theorem Recorded.logReplication
    (recorded : Recorded before) {request : ReplicationRequest}
    (requested :
      before.Requested call request.shardId request.series)
    (timestamp : Timestamp) :
    Recorded (before.logReplication call request timestamp) := by
  refine ⟨?_, recorded.tasks, recorded.attempts, ?_, ?_, recorded.succeeded⟩
  · intro entry member
    rcases mem_append.mp member with isOld | isNew
    · exact recorded.entries entry isOld
    · rw [mem_singleton.mp isNew]
      exact requested
  · intro call other isCaller
    cases isCaller
  · intro attempt isCaller
    cases isCaller

theorem Recorded.insert_succeeded
    (recorded : Recorded manager) (notHeld : manager.caller = none)
    {shardId : UInt64} {series : TimeSeries}
    (requested : manager.Requested call shardId series) :
    Recorded {
      manager with succeeded := insert call manager.succeeded
    } := by
  refine ⟨recorded.entries, recorded.tasks, recorded.attempts, ?_,
    recorded.sending, ?_⟩
  · intro call other isCaller
    rw [notHeld] at isCaller
    cases isCaller
  · intro other hasSucceeded
    rcases Finset.mem_insert.mp hasSucceeded with rfl | before
    · exact (List.getElem?_eq_some_iff.mp requested).1
    · exact recorded.succeeded other before

theorem completed_log_iff
    (recorded : Recorded before) (holds : CompletedIsReplicated before)
    {timestamp : Timestamp} (taken : before.log timestamp = some after) :
    Recorded after ∧
      (CompletedIsReplicated after ↔ KeepsLog before (.log timestamp)) := by
  rw [log] at taken
  split at taken
  · cases taken
  · rename_i call request isCaller
    cases taken
    obtain ⟨requested, notSucceeded⟩ := recorded.logging call request isCaller
    refine ⟨recorded.logReplication requested timestamp,
      iff_of_true (holds.logReplication notSucceeded request timestamp) ?_⟩
    intro attempt isSending
    rw [isCaller] at isSending
    cases isSending
  · rename_i attempt isCaller
    split at taken
    · cases taken
      have requested := recorded.sending attempt isCaller
      refine ⟨(recorded.logReplication requested
        timestamp).insert_succeeded rfl requested,
        iff_of_false ?_ fun keeps => keeps attempt isCaller⟩
      -- the entry of the call is pending though the call has succeeded
      intro holdsAfter
      exact (holdsAfter.settled _
        (mem_append_right _ (mem_singleton_self _))
        (Finset.mem_insert_self _ _)).1 rfl
    · cases taken

theorem Recorded.complete
    (recorded : Recorded before) (notHeld : before.caller = none)
    (isAttempt : before.workers worker = some attempt) :
    Recorded (before.complete worker attempt.task) := by
  have settled : Recorded {
        before with
        replicationLog :=
          settle (OfShard attempt.task.shardId) .completed before.replicationLog
        workers := Function.update before.workers worker none
      } :=
    ⟨recorded.entries_settle _ _, recorded.tasks,
      recorded.attempts_update worker (by simp),
      recorded.logging, recorded.sending, recorded.succeeded⟩
  exact settled.insert_succeeded notHeld
    (recorded.attempts worker attempt isAttempt)

theorem Recorded.fail (recorded : Recorded before)
    (isAttempt : before.workers worker = some attempt) :
    Recorded (before.fail worker attempt.task) := by
  refine ⟨recorded.entries_settle _ _, ?_,
    recorded.attempts_update worker (by simp), recorded.logging,
    recorded.sending, recorded.succeeded⟩
  intro task member
  dsimp only [ReplicationManager.fail] at member
  split at member
  · rcases mem_append.mp member with isOld | isRetry
    · exact recorded.tasks task isOld
    · rw [mem_singleton.mp isRetry]
      exact recorded.attempts worker attempt isAttempt
  · exact recorded.tasks task member

theorem completed_finish_iff
    (recorded : Recorded before) (holds : CompletedIsReplicated before)
    (taken : before.finish worker = some after) :
    Recorded after ∧
      (CompletedIsReplicated after ↔ KeepsLog before (.finish worker)) := by
  rw [finish] at taken
  split at taken
  · rename_i attempt notHeld isAttempt
    split at taken
    · rename_i succeeds
      cases taken
      refine ⟨recorded.complete notHeld isAttempt, ?_⟩
      rw [completed_complete_iff recorded holds isAttempt]
      constructor
      · intro keeps other isOther _
        rw [isAttempt] at isOther
        cases isOther
        exact keeps
      · intro keeps
        exact keeps attempt isAttempt succeeds
    · rename_i fails
      split at taken
      · cases taken
        refine ⟨recorded.fail isAttempt,
          iff_of_true (holds.fail _ rfl rfl rfl rfl) ?_⟩
        intro other isOther succeeds
        rw [isAttempt] at isOther
        cases isOther
        exact absurd succeeds fails
      · cases taken
  · cases taken

theorem completed_take
    (recorded : Recorded before) (holds : CompletedIsReplicated before)
    (taken : before.take worker = some after) :
    Recorded after ∧ CompletedIsReplicated after := by
  rw [take] at taken
  split at taken
  · rename_i task rest isStarted isIdle isQueue
    cases taken
    have tasks := recorded.tasks
    rw [isQueue] at tasks
    obtain ⟨isRecorded, areRecorded⟩ := forall_mem_cons.mp tasks
    refine ⟨⟨recorded.entries, areRecorded,
      recorded.attempts_update worker ?_, recorded.logging, recorded.sending,
      recorded.succeeded⟩, holds.sameLog rfl rfl rfl fun _ => id⟩
    intro attempt isAttempt
    cases isAttempt
    exact isRecorded
  · cases taken

theorem completed_ask
    (recorded : Recorded before) (holds : CompletedIsReplicated before)
    {outcome : TargetOutcome} (taken : before.ask worker outcome = some after) :
    Recorded after ∧ CompletedIsReplicated after := by
  rw [ask] at taken
  obtain ⟨attempt, isAttempt, taken⟩ := Option.bind_eq_some_iff.mp taken
  obtain ⟨asked, isAsked, rfl⟩ := Option.map_eq_some_iff.mp taken
  refine ⟨⟨recorded.entries, recorded.tasks,
    recorded.attempts_update worker ?_, recorded.logging, recorded.sending,
    recorded.succeeded⟩, holds.sameLog rfl rfl rfl fun _ =>
      mem_append_right _⟩
  intro other isOther
  cases isOther
  rw [Attempt.task_of_ask isAsked]
  exact recorded.attempts worker attempt isAttempt

/-- Every step is on record, and keeps the log true as its condition says. -/
theorem completed_iff_of_step
    {action : ReplicationAction} (recorded : Recorded before)
    (holds : CompletedIsReplicated before) (taken : Step before action after) :
    Recorded after ∧
      (CompletedIsReplicated after ↔ KeepsLog before action) := by
  rw [Step] at taken
  cases action with
  | start =>
    rw [next] at taken
    split at taken
    · cases taken
    · cases taken
      exact ⟨⟨recorded.entries, recorded.tasks, recorded.attempts,
        recorded.logging, recorded.sending, recorded.succeeded⟩,
        iff_of_true (holds.sameLog rfl rfl rfl fun _ => id) trivial⟩
  | replicate shardId series targetNodes =>
    rw [next] at taken
    split at taken
    · cases taken
      exact ⟨recorded, iff_of_true holds trivial⟩
    · split at taken
      · cases taken
      · rename_i notHeld
        cases taken
        obtain ⟨isRecorded, sameConfig, sameLog, sameSucceeded,
          sameAcknowledged⟩ :=
          replicate_effect recorded (Option.not_isSome_iff_eq_none.mp
            notHeld) shardId series targetNodes
        refine ⟨isRecorded, iff_of_true (holds.sameLog sameConfig sameLog
          sameSucceeded ?_) trivial⟩
        rw [sameAcknowledged]
        exact fun _ => id
  | askForCall outcome =>
    rw [next] at taken
    split at taken
    · rename_i attempt isCaller
      obtain ⟨asked, isAsked, rfl⟩ := Option.map_eq_some_iff.mp taken
      refine ⟨⟨recorded.entries, recorded.tasks, recorded.attempts, ?_,
        ?_, recorded.succeeded⟩, iff_of_true (holds.sameLog rfl rfl rfl
          fun _ => mem_append_right _) trivial⟩
      · intro call other isCaller
        cases isCaller
      · intro other isOther
        cases isOther
        rw [Attempt.task_of_ask isAsked]
        exact recorded.sending attempt isCaller
    · cases taken
  | refuse =>
    rw [next] at taken
    split at taken
    · split at taken
      · cases taken
        refine ⟨⟨recorded.entries, recorded.tasks, recorded.attempts, ?_,
          ?_, recorded.succeeded⟩, iff_of_true (holds.sameLog rfl rfl rfl
            fun _ => id) trivial⟩
        · intro call other isCaller
          cases isCaller
        · intro other isOther
          cases isOther
      · cases taken
    · cases taken
  | log timestamp => exact completed_log_iff recorded holds taken
  | take worker =>
    obtain ⟨isRecorded, kept⟩ := completed_take recorded holds taken
    exact ⟨isRecorded, iff_of_true kept trivial⟩
  | ask worker outcome =>
    obtain ⟨isRecorded, kept⟩ := completed_ask recorded holds taken
    exact ⟨isRecorded, iff_of_true kept trivial⟩
  | finish worker => exact completed_finish_iff recorded holds taken
  | handleNodeFailure =>
    cases taken
    exact ⟨⟨recorded.entries_settle _ _, recorded.tasks,
      recorded.attempts, recorded.logging, recorded.sending,
      recorded.succeeded⟩, iff_of_true (holds.fail _ rfl rfl rfl rfl) trivial⟩
  | cleanUp =>
    cases taken
    exact ⟨recorded.ofFewer fun _ => mem_of_mem_drop,
      iff_of_true (holds.ofFewer fun _ => mem_of_mem_drop) trivial⟩

theorem recorded_new (config : ReplicationConfig) :
    Recorded (new config) := by
  constructor
  · intro entry member
    cases member
  · intro task member
    cases member
  · intro worker attempt isAttempt
    cases isAttempt
  · intro call request isCaller
    cases isCaller
  · intro attempt isCaller
    cases isCaller
  · intro call hasSucceeded
    cases hasSucceeded

theorem completedIsReplicated_new (config : ReplicationConfig) :
    CompletedIsReplicated (new config) := by
  constructor
  · intro entry member
    cases member
  · intro entry member
    cases member

/--
In every run completed entries are replicated, and successful ones completed,
throughout exactly when every step keeps the log true.
-/
theorem completed_always_iff {config : ReplicationConfig}
    {actions : List ReplicationAction} {final : ReplicationManager}
    (run : Run Step (new config) actions final) :
    (∀ passed remaining middle,
        actions = passed ++ remaining →
          Run Step (new config) passed middle → CompletedIsReplicated middle) ↔
      Run (Restrict Step KeepsLog) (new config) actions final := by
  refine @Run.always_iff_restrict _ _ Step KeepsLog Recorded
    CompletedIsReplicated _ _ _ run ?_ (recorded_new config)
    (completedIsReplicated_new config) ?_
  · intro before action after other taken otherTaken
    exact Option.some.inj (taken.symm.trans otherTaken)
  · intro before action after recorded holds taken
    exact completed_iff_of_step recorded holds taken

/-!
## The numbers of the entries
-/

/-- The numbers of the entries go up from the front to the back. -/
def NumbersIncrease (log : List ReplicationEntry) : Prop :=
  log.Pairwise fun earlier later => earlier.sequence < later.sequence

inductive LogAction where
  | log (call : ℕ) (request : ReplicationRequest) (timestamp : Timestamp)
  | cleanUp
  deriving Repr, DecidableEq

def perform (manager : ReplicationManager) : LogAction → ReplicationManager
  | .log call request timestamp => manager.logReplication call request timestamp
  | .cleanUp => manager.cleanUp

def LogStep (before : ReplicationManager) (action : LogAction)
    (after : ReplicationManager) :
    Prop :=
  after = before.perform action

/-- An entry is logged only while the log is whole, and can still be counted. -/
def LogsWhole (manager : ReplicationManager) : LogAction → Prop
  | .log _ _ _ =>
    manager.replicationLog.length < 2 ^ 64 ∧
      ∀ entry ∈ manager.replicationLog.head?, entry.sequence = 0
  | .cleanUp => True

/-- The numbers go up by one; if some are gone, ten thousand are left. -/
structure NumberedFrom (first : ℕ) (log : List ReplicationEntry) : Prop where
  numbers :
    log.map (fun entry => entry.sequence.toNat) = range' first log.length
  fits : first + log.length ≤ 2 ^ 64
  kept : first ≠ 0 → log.length = 10000

section Numbers

variable {first : ℕ} {log : List ReplicationEntry}

theorem NumberedFrom.mem_iff (numbered : NumberedFrom first log) {number : ℕ} :
    (∃ entry ∈ log, entry.sequence.toNat = number) ↔
      first ≤ number ∧ number < first + log.length := by
  rw [← mem_map, numbered.numbers, mem_range'_1]

theorem NumberedFrom.numbersIncrease (numbered : NumberedFrom first log) :
    NumbersIncrease log := by
  have increases := @pairwise_lt_range' first log.length 1 Nat.one_pos
  rw [← numbered.numbers, pairwise_map] at increases
  exact increases.imp UInt64.lt_iff_toNat_lt.mpr

theorem NumberedFrom.front
    (numbered : NumberedFrom first log) {front : ReplicationEntry}
    (isFront : front ∈ log.head?) :
    front.sequence.toNat = first := by
  obtain ⟨rest, rfl⟩ := head?_eq_some_iff.mp isFront
  have numbers := numbered.numbers
  rw [length_cons, range'_succ] at numbers
  exact (List.cons.inj numbers).1

theorem NumberedFrom.next_iff (numbered : NumberedFrom first log) :
    (∀ entry ∈ log, entry.sequence < UInt64.ofNat log.length) ↔
      log.length < 2 ^ 64 ∧ ∀ entry ∈ log.head?, entry.sequence = 0 := by
  have fits := numbered.fits
  have isNext (entry : ReplicationEntry) :
      entry.sequence < UInt64.ofNat log.length ↔
        entry.sequence.toNat < log.length % 2 ^ 64 := by
    rw [UInt64.lt_iff_toNat_lt, UInt64.toNat_ofNat']
  simp only [isNext]
  cases isLog : log with
  | nil =>
    exact iff_of_true (fun _ => nofun) ⟨Nat.two_pow_pos 64, nofun⟩
  | cons front rest =>
    rw [← isLog]
    have nonempty : 0 < log.length := isLog ▸ Nat.succ_pos _
    have isFirst : front.sequence.toNat = first := numbered.front (isLog ▸ rfl)
    constructor
    · intro greater
      obtain ⟨last, isLast, lastNumber⟩ :=
        numbered.mem_iff.mpr
          (⟨by omega, by omega⟩ :
            first ≤ first + log.length - 1 ∧
              first + log.length - 1 < first + log.length)
      have lastLess := greater last isLast
      have notMore := Nat.mod_le log.length (2 ^ 64)
      have isWhole : first = 0 := by omega
      refine ⟨?_, ?_⟩
      · by_contra tooLong
        have full : log.length = 2 ^ 64 := by omega
        rw [full, Nat.mod_self] at lastLess
        exact absurd lastLess (Nat.not_lt_zero _)
      · rw [isLog]
        rintro entry ⟨⟩
        exact UInt64.toNat_inj.mp (isFirst.trans isWhole)
    · rintro ⟨short, atFront⟩ entry member
      have isWhole : first = 0 := by
        rw [← isFirst, atFront front (by rw [isLog]; rfl)]
        rfl
      have bounds := numbered.mem_iff.mp ⟨entry, member, rfl⟩
      rw [Nat.mod_eq_of_lt short]
      omega

theorem NumberedFrom.append
    (numbered : NumberedFrom 0 log) (short : log.length < 2 ^ 64)
    {entry : ReplicationEntry}
    (isNext : entry.sequence = UInt64.ofNat log.length) :
    NumberedFrom 0 (log ++ [entry]) := by
  refine ⟨?_, ?_, fun absurdly => absurd rfl absurdly⟩
  · rw [map_append, numbered.numbers, length_append, length_singleton,
      range'_concat, map_singleton, isNext, UInt64.toNat_ofNat',
      Nat.mod_eq_of_lt short, Nat.one_mul, Nat.zero_add]
  · rw [length_append, length_singleton, Nat.zero_add]
    exact short

/-- A tick leaves the last ten thousand numbers. -/
theorem NumberedFrom.drop (numbered : NumberedFrom first log) :
    NumberedFrom (first + (log.length - 10000))
      (log.drop (log.length - 10000)) := by
  have fits := numbered.fits
  have kept := numbered.kept
  constructor
  · rw [map_drop, numbered.numbers, drop_range', length_drop, Nat.mul_one]
  · rw [length_drop]
    omega
  · rw [length_drop]
    omega

end Numbers

theorem numbersIncrease_perform_iff {manager : ReplicationManager} {first : ℕ}
    (numbered : NumberedFrom first manager.replicationLog)
    (action : LogAction) :
    (NumbersIncrease (manager.perform action).replicationLog →
        ∃ next, NumberedFrom next (manager.perform action).replicationLog) ∧
      (NumbersIncrease (manager.perform action).replicationLog ↔
        manager.LogsWhole action) := by
  cases action with
  | log call request timestamp =>
    have increases :
        NumbersIncrease
            (manager.perform (.log call request timestamp)).replicationLog ↔
          manager.LogsWhole (.log call request timestamp) := by
      rw [LogsWhole, ← numbered.next_iff]
      exact pairwise_append.trans
        ⟨fun both entry member => both.2.2 entry member _ mem_cons_self,
          fun greater => ⟨numbered.numbersIncrease, pairwise_singleton _ _,
            fun entry member _ isNew =>
              mem_singleton.mp isNew ▸ greater entry member⟩⟩
    refine ⟨fun isSorted => ?_, increases⟩
    obtain ⟨short, atFront⟩ := increases.mp isSorted
    by_cases isWhole : first = 0
    · subst isWhole
      exact ⟨0, numbered.append short rfl⟩
    · have kept := numbered.kept isWhole
      cases isFront : manager.replicationLog.head? with
      | none =>
        rw [head?_eq_none_iff.mp isFront] at kept
        cases kept
      | some front =>
        have isZero := numbered.front isFront
        rw [atFront front isFront] at isZero
        exact absurd isZero.symm isWhole
  | cleanUp =>
    have dropped := numbered.drop
    simp only [perform, cleanUp]
    exact ⟨fun _ => ⟨_, dropped⟩, iff_of_true dropped.numbersIncrease trivial⟩

theorem numberedFrom_new (config : ReplicationConfig) :
    NumberedFrom 0 (new config).replicationLog := by
  constructor
  · rfl
  · simp [new]
  · simp

/--
The numbers increase in all states of a run of calls and ticks exactly when no
entry is logged after a tick has taken entries from the front.
-/
theorem numbersIncrease_always_iff {config : ReplicationConfig}
    {actions : List LogAction} {final : ReplicationManager}
    (run : Run LogStep (new config) actions final) :
    (∀ passed remaining middle,
        actions = passed ++ remaining →
          Run LogStep (new config) passed middle →
            NumbersIncrease middle.replicationLog) ↔
      Run (Restrict LogStep LogsWhole) (new config) actions final := by
  have numbered := numberedFrom_new config
  refine @Run.always_iff_restrict _ _ LogStep LogsWhole
    (fun manager =>
      NumbersIncrease manager.replicationLog →
        ∃ first, NumberedFrom first manager.replicationLog)
    (fun manager => NumbersIncrease manager.replicationLog) _ _ _ run ?_
    (fun _ => ⟨0, numbered⟩) numbered.numbersIncrease ?_
  · intro before action after other taken again
    exact taken.trans again.symm
  · rintro before action after valid increases rfl
    obtain ⟨first, numberedBefore⟩ := valid increases
    exact numbersIncrease_perform_iff numberedBefore action

/-!
## Two series of one shard
-/

def oneReplica : ReplicationConfig where
  minWriteReplicas := 1
  asyncReplication := true
  replicationQueueSize := 10

def firstSeries : TimeSeries :=
  ⟨1, [], []⟩

def secondSeries : TimeSeries :=
  ⟨2, [], []⟩

/-- A series is queued, logged, sent and acknowledged. -/
def replicatedAlone : List ReplicationAction :=
  [.start, .replicate 0 firstSeries ["a"], .take 0, .log 0,
    .ask 0 (.answered true), .finish 0]

/-- A second series of the shard is logged before the first is acknowledged. -/
def replicatedTogether : List ReplicationAction :=
  [.start, .replicate 0 firstSeries ["a"], .log 0,
    .replicate 0 secondSeries ["a"], .log 1, .take 0,
    .ask 0 (.answered true), .finish 0]

/-- The manager after actions that are possible one after the other. -/
def afterActions (actions : List ReplicationAction) :
    ReplicationManager :=
  (actions.foldlM next (new oneReplica)).getD (new oneReplica)

/-- A series that is alone in its shard is completed as it should be. -/
theorem replicatedAlone_is_completed :
    ∃ final,
      Run Step (new oneReplica) replicatedAlone final ∧
        final.replicationLog.map ReplicationEntry.status = [.completed] ∧
        ∀ passed remaining middle,
          replicatedAlone = passed ++ remaining →
            Run Step (new oneReplica) passed middle →
              CompletedIsReplicated middle := by
  have run :
      Run Step (new oneReplica) replicatedAlone
        (afterActions replicatedAlone) :=
    Run.ofFoldlM id rfl
  refine ⟨_, run, by decide, (completed_always_iff run).mpr ?_⟩
  refine .cons ⟨trivial, rfl⟩ (.cons ⟨trivial, rfl⟩ (.cons ⟨trivial, rfl⟩
    (.cons ⟨?_, rfl⟩ (.cons ⟨trivial, rfl⟩ (.cons ⟨?_, rfl⟩ (.nil _))))))
  · intro attempt isSending
    cases isSending
  · intro attempt isAttempt _
    cases isAttempt
    decide

/-- A series that no node has acknowledged is completed with another one. -/
theorem replicatedTogether_completes_both :
    ∃ final,
      Run Step (new oneReplica) replicatedTogether final ∧
        final.replicationLog.map ReplicationEntry.status =
          [.completed, .completed] ∧
        final.acknowledgers 0 secondSeries = ∅ ∧
        ¬CompletedIsReplicated final := by
  refine ⟨afterActions replicatedTogether, Run.ofFoldlM id rfl, by decide,
    by decide, ?_⟩
  intro holds
  have replicated :
      ∀ entry ∈ (afterActions replicatedTogether).replicationLog,
        entry.series = secondSeries → False := by
    intro entry member
    have replicated := holds.replicated entry member
    revert entry
    decide
  revert replicated
  decide

/-- Two entries before a tick have numbers in order in every state. -/
theorem two_entries_are_numbered :
    ∃ final,
      Run LogStep (new oneReplica)
          [.log 0 ⟨0, firstSeries⟩ 0, .log 1 ⟨0, secondSeries⟩ 1, .cleanUp]
          final ∧
        ∀ passed remaining middle,
          [.log 0 ⟨0, firstSeries⟩ 0, .log 1 ⟨0, secondSeries⟩ 1, .cleanUp] =
              passed ++ remaining →
            Run LogStep (new oneReplica) passed middle →
              NumbersIncrease middle.replicationLog := by
  refine ⟨_, .cons rfl (.cons rfl (.single rfl)),
    (numbersIncrease_always_iff (.cons rfl (.cons rfl (.single rfl)))).mpr ?_⟩
  refine .cons ⟨⟨by decide, nofun⟩, rfl⟩
    (.cons ⟨⟨by decide, ?_⟩, rfl⟩ (.single ⟨trivial, rfl⟩))
  rintro entry ⟨⟩
  rfl

/-- The manager after some calls. -/
def filled (count : ℕ) : ReplicationManager :=
  (List.replicate count (LogAction.log 0 ⟨0, firstSeries⟩ 0)).foldl perform
    (new oneReplica)

theorem numberedFrom_filled {count : ℕ} (few : count ≤ 10001) :
    NumberedFrom 0 (filled count).replicationLog ∧
      (filled count).replicationLog.length = count := by
  induction count with
  | zero => exact ⟨numberedFrom_new oneReplica, rfl⟩
  | succ count inductionHypothesis =>
    obtain ⟨numbered, isCount⟩ := inductionHypothesis (Nat.le_of_succ_le few)
    have oneMore :
        filled (count + 1) =
          (filled count).perform (.log 0 ⟨0, firstSeries⟩ 0) := by
      rw [filled, replicate_succ', foldl_append]
      rfl
    rw [oneMore]
    refine ⟨numbered.append (by omega) rfl, ?_⟩
    rw [perform, logReplication, length_append, isCount, length_singleton]

/-- After a tick has taken one entry, the next number is there already. -/
theorem number_repeats_after_tick :
    ¬NumbersIncrease
      (((filled 10001).perform .cleanUp).perform
        (.log 0 ⟨0, firstSeries⟩ 0)).replicationLog := by
  obtain ⟨numbered, isCount⟩ := numberedFrom_filled le_rfl
  have dropped :
      NumberedFrom 1 ((filled 10001).perform .cleanUp).replicationLog := by
    have dropped := numbered.drop
    simp only [isCount] at dropped
    simpa only [perform, cleanUp, isCount] using dropped
  rw [(numbersIncrease_perform_iff dropped _).2]
  rintro ⟨_, atFront⟩
  cases isFront : ((filled 10001).perform .cleanUp).replicationLog.head? with
  | none =>
    have kept := dropped.kept Nat.one_ne_zero
    rw [head?_eq_none_iff.mp isFront] at kept
    cases kept
  | some front =>
    have isOne := dropped.front isFront
    rw [atFront front isFront] at isOne
    cases isOne

end ReplicationManager

end ChronoDB.Distributed
