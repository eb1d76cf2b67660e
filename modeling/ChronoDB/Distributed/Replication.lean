import ChronoDB.Library.Transition
import ChronoDB.Model.Types
import Mathlib.Data.Finset.Card
import Mathlib.Data.Finset.Dedup

namespace ChronoDB.Distributed

open Library

/-!
# Replication of writes

Calls of `replicate` queue tasks, or send to the replicas themselves, and then
log an entry.  Five workers take tasks and, when all targets were asked, rewrite
the pending entries of a shard.  A call holds the lock of the metrics until its
entry is logged, and a worker needs that lock to finish.  The number of a call,
the requests, the acknowledgements and the calls that succeeded are not kept by
the source; they say what its entries are about.
-/

structure ReplicationConfig where
  minWriteReplicas : UInt32
  asyncReplication : Bool
  replicationQueueSize : ℕ
  deriving Repr, DecidableEq

inductive ReplicationStatus where
  | pending
  | inProgress
  | completed
  | failed
  deriving Repr, DecidableEq

structure ReplicationEntry where
  call : ℕ
  sequence : UInt64
  shardId : UInt64
  series : TimeSeries
  timestamp : Timestamp
  status : ReplicationStatus
  deriving Repr, DecidableEq

structure ReplicationTask where
  call : ℕ
  shardId : UInt64
  series : TimeSeries
  targetNodes : List String
  retryCount : UInt32
  maxRetries : UInt32
  deriving Repr, DecidableEq

/-- What a call of `replicate` is to replicate. -/
structure ReplicationRequest where
  shardId : UInt64
  series : TimeSeries
  deriving Repr, DecidableEq

structure Acknowledgement where
  shardId : UInt64
  series : TimeSeries
  node : String
  deriving Repr, DecidableEq

/-- What comes of a target: a timeout or an error of the call is a failure. -/
inductive TargetOutcome where
  | noClient
  | failed
  | answered (success : Bool)
  deriving Repr, DecidableEq

/-!
## Asking the targets of a task
-/

/-- A task, the targets still to be asked, and what came of the others. -/
structure Attempt where
  task : ReplicationTask
  remaining : List String
  successCount : ℕ
  failed : Bool
  deriving Repr, DecidableEq

namespace Attempt

def start (task : ReplicationTask) : Attempt where
  task := task
  remaining := task.targetNodes
  successCount := 0
  failed := false

/-- The attempt once its next target was asked; a failure ends it. -/
def ask (attempt : Attempt) (outcome : TargetOutcome) : Option Attempt :=
  match attempt.failed, attempt.remaining with
  | false, _ :: rest =>
    match outcome with
    | .noClient | .answered false => some { attempt with remaining := rest }
    | .failed => some { attempt with failed := true }
    | .answered true =>
      some {
        attempt with
        remaining := rest
        successCount := attempt.successCount + 1
      }
  | _, _ => none

def acknowledges (attempt : Attempt) (outcome : TargetOutcome) :
    List Acknowledgement :=
  match attempt.remaining, outcome with
  | node :: _, .answered true =>
    [⟨attempt.task.shardId, attempt.task.series, node⟩]
  | _, _ => []

/-- All targets were asked, or one of them failed. -/
def IsOver (attempt : Attempt) : Prop :=
  attempt.failed = true ∨ attempt.remaining = []

/-- Enough targets have answered with a success. -/
def Succeeds (config : ReplicationConfig) (attempt : Attempt) : Prop :=
  attempt.failed = false ∧ attempt.remaining = [] ∧
    config.minWriteReplicas.toNat ≤ attempt.successCount

instance (attempt : Attempt) : Decidable attempt.IsOver :=
  inferInstanceAs (Decidable (_ ∨ _))

instance (config : ReplicationConfig) (attempt : Attempt) :
    Decidable (attempt.Succeeds config) :=
  inferInstanceAs (Decidable (_ ∧ _ ∧ _))

end Attempt

/-!
## The manager
-/

/--
A call that holds the lock of the metrics: it is about to log its entry, or
still asks the targets.
-/
inductive ReplicateCall where
  | logging (call : ℕ) (request : ReplicationRequest)
  | sending (attempt : Attempt)
  deriving Repr, DecidableEq

structure ReplicationManager where
  config : ReplicationConfig
  replicationLog : List ReplicationEntry
  replicationQueue : List ReplicationTask
  workers : Fin 5 → Option Attempt
  caller : Option ReplicateCall
  started : Bool
  requests : List ReplicationRequest
  acknowledged : List Acknowledgement
  succeeded : Finset ℕ

inductive ReplicationAction where
  | start
  | replicate
      (shardId : UInt64)
      (series : TimeSeries)
      (targetNodes : List String)
  | askForCall (outcome : TargetOutcome)
  | refuse
  | log (timestamp : Timestamp)
  | take (worker : Fin 5)
  | ask (worker : Fin 5) (outcome : TargetOutcome)
  | finish (worker : Fin 5)
  | handleNodeFailure
  | cleanUp
  deriving Repr, DecidableEq

namespace ReplicationManager

def new (config : ReplicationConfig) : ReplicationManager where
  config := config
  replicationLog := []
  replicationQueue := []
  workers := fun _ => none
  caller := none
  started := false
  requests := []
  acknowledged := []
  succeeded := ∅

/-- The pending entries that are selected get a status. -/
def settle (selected : ReplicationEntry → Bool) (status : ReplicationStatus)
    (log : List ReplicationEntry) :
    List ReplicationEntry :=
  log.map fun entry =>
    if selected entry ∧ entry.status = .pending then
      { entry with status := status }
    else entry

def logReplication
    (manager : ReplicationManager) (call : ℕ) (request : ReplicationRequest)
    (timestamp : Timestamp) :
    ReplicationManager :=
  {
    manager with
    replicationLog := manager.replicationLog ++ [{
      call := call
      sequence := UInt64.ofNat manager.replicationLog.length
      shardId := request.shardId
      series := request.series
      timestamp := timestamp
      status := .pending
    }]
    caller := none
  }

/-- `replicate` up to the first target or the entry in the log. -/
def replicate
    (manager : ReplicationManager) (shardId : UInt64) (series : TimeSeries)
    (targetNodes : List String) :
    ReplicationManager :=
  let call := manager.requests.length
  let request : ReplicationRequest := ⟨shardId, series⟩
  let task : ReplicationTask := {
    call := call
    shardId := shardId
    series := series
    targetNodes := targetNodes
    retryCount := 0
    maxRetries := 3
  }
  let called := { manager with requests := manager.requests ++ [request] }
  if manager.config.asyncReplication then
    if manager.replicationQueue.length <
        manager.config.replicationQueueSize then
      {
        called with
        replicationQueue := manager.replicationQueue ++ [task]
        caller := some (.logging call request)
      }
    else called
  else if manager.started then
    { called with caller := some (.sending (.start task)) }
  else
    { called with caller := some (.logging call request) }

def askForCall (manager : ReplicationManager) (attempt : Attempt)
    (outcome : TargetOutcome) :
    Option ReplicationManager :=
  (attempt.ask outcome).map fun asked =>
    {
      manager with
      caller := some (.sending asked)
      acknowledged := attempt.acknowledges outcome ++ manager.acknowledged
    }

/-- The call logs its entry; a synchronous one must have succeeded. -/
def log (manager : ReplicationManager) (timestamp : Timestamp) :
    Option ReplicationManager :=
  match manager.caller with
  | none => none
  | some (.logging call request) =>
    some (manager.logReplication call request timestamp)
  | some (.sending attempt) =>
    if attempt.Succeeds manager.config then
      some {
        manager.logReplication attempt.task.call
          ⟨attempt.task.shardId, attempt.task.series⟩ timestamp with
        succeeded := insert attempt.task.call manager.succeeded
      }
    else none

/-- An idle worker takes the first task. -/
def take (manager : ReplicationManager) (worker : Fin 5) :
    Option ReplicationManager :=
  match manager.started, manager.workers worker, manager.replicationQueue with
  | true, none, task :: rest =>
    some {
      manager with
      replicationQueue := rest
      workers := Function.update manager.workers worker (some (.start task))
    }
  | _, _, _ => none

def ask
    (manager : ReplicationManager) (worker : Fin 5) (outcome : TargetOutcome) :
    Option ReplicationManager :=
  (manager.workers worker).bind fun attempt =>
    (attempt.ask outcome).map fun asked =>
      {
        manager with
        workers := Function.update manager.workers worker (some asked)
        acknowledged := attempt.acknowledges outcome ++ manager.acknowledged
      }

def OfShard (shardId : UInt64) (entry : ReplicationEntry) : Bool :=
  entry.shardId = shardId

/-- A worker whose attempt has succeeded is done with its task. -/
def complete
    (manager : ReplicationManager) (worker : Fin 5) (task : ReplicationTask) :
    ReplicationManager :=
  {
    manager with
    replicationLog :=
      settle (OfShard task.shardId) .completed manager.replicationLog
    workers := Function.update manager.workers worker none
    succeeded := insert task.call manager.succeeded
  }

/-- A worker whose attempt was in vain puts its task back for a retry. -/
def fail
    (manager : ReplicationManager) (worker : Fin 5) (task : ReplicationTask) :
    ReplicationManager :=
  {
    manager with
    replicationLog :=
      settle (OfShard task.shardId) .failed manager.replicationLog
    workers := Function.update manager.workers worker none
    replicationQueue :=
      if task.retryCount < task.maxRetries then
        manager.replicationQueue ++
          [{ task with retryCount := task.retryCount + 1 }]
      else manager.replicationQueue
  }

/-- A worker finishes, which it can do when no call holds the metrics. -/
def finish (manager : ReplicationManager) (worker : Fin 5) :
    Option ReplicationManager :=
  match manager.caller, manager.workers worker with
  | none, some attempt =>
    if attempt.Succeeds manager.config then
      some (manager.complete worker attempt.task)
    else if attempt.IsOver then
      some (manager.fail worker attempt.task)
    else none
  | _, _ => none

/-- All pending entries fail, whatever node has failed. -/
def handleNodeFailure (manager : ReplicationManager) :
    ReplicationManager :=
  {
    manager with
    replicationLog := settle (fun _ => true) .failed manager.replicationLog
  }

/-- The last ten thousand entries stay. -/
def cleanUp (manager : ReplicationManager) : ReplicationManager :=
  {
    manager with
    replicationLog :=
      manager.replicationLog.drop (manager.replicationLog.length - 10000)
  }

/-- The manager after an action, unless the action cannot happen now. -/
def next (manager : ReplicationManager) :
    ReplicationAction → Option ReplicationManager
  | .start =>
    if manager.started then none
    else some { manager with started := true }
  | .replicate shardId series targetNodes =>
    if targetNodes = [] then some manager
    else if manager.caller.isSome then none
    else some (manager.replicate shardId series targetNodes)
  | .askForCall outcome =>
    match manager.caller with
    | some (.sending attempt) => manager.askForCall attempt outcome
    | _ => none
  | .refuse =>
    match manager.caller with
    | some (.sending attempt) =>
      if attempt.IsOver ∧ ¬attempt.Succeeds manager.config then
        some { manager with caller := none }
      else none
    | _ => none
  | .log timestamp => manager.log timestamp
  | .take worker => manager.take worker
  | .ask worker outcome => manager.ask worker outcome
  | .finish worker => manager.finish worker
  | .handleNodeFailure => some manager.handleNodeFailure
  | .cleanUp => some manager.cleanUp

def Step (before : ReplicationManager) (action : ReplicationAction)
    (after : ReplicationManager) :
    Prop :=
  before.next action = some after

/-!
## What the log is to say
-/

def acknowledgers
    (manager : ReplicationManager) (shardId : UInt64) (series : TimeSeries) :
    Finset String :=
  ((manager.acknowledged.filter fun acknowledgement =>
    acknowledgement.shardId = shardId ∧
      acknowledgement.series = series).map Acknowledgement.node).toFinset

/-- Enough nodes have acknowledged the series of an entry. -/
def Replicated (manager : ReplicationManager) (entry : ReplicationEntry) :
    Prop :=
  manager.config.minWriteReplicas.toNat ≤
    (manager.acknowledgers entry.shardId entry.series).card

instance (manager : ReplicationManager) (entry : ReplicationEntry) :
    Decidable (manager.Replicated entry) :=
  inferInstanceAs (Decidable (_ ≤ _))

/--
What is completed was acknowledged by enough nodes, and what has succeeded is
neither pending nor failed.
-/
structure CompletedIsReplicated (manager : ReplicationManager) : Prop where
  replicated :
    ∀ entry ∈ manager.replicationLog,
      entry.status = .completed → manager.Replicated entry
  settled :
    ∀ entry ∈ manager.replicationLog,
      entry.call ∈ manager.succeeded →
        entry.status ≠ .pending ∧ entry.status ≠ .failed

/--
A task succeeds while every pending entry of its shard is replicated and its own
entry has not failed, and no synchronous call gets to its entry.
-/
def KeepsLog (manager : ReplicationManager) : ReplicationAction → Prop
  | .finish worker =>
    ∀ attempt ∈ manager.workers worker,
      attempt.Succeeds manager.config →
        (∀ entry ∈ manager.replicationLog,
          entry.shardId = attempt.task.shardId →
            entry.status = .pending → manager.Replicated entry) ∧
        ∀ entry ∈ manager.replicationLog,
          entry.call = attempt.task.call → entry.status ≠ .failed
  | .log _ => ∀ attempt, manager.caller ≠ some (.sending attempt)
  | _ => True

end ReplicationManager

end ChronoDB.Distributed
