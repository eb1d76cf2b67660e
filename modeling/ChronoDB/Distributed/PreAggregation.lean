import ChronoDB.Distributed.Shard
import Mathlib.Data.Finset.Card
import Mathlib.Data.Finset.Dedup
import Mathlib.Data.Finset.Lattice.Lemmas

namespace ChronoDB.Distributed

open Library

/-!
# Assignments of pre-aggregation rules

The coordinator keeps one map from rules to their assignments and one from
nodes to the rules they work on.  The second is what load balancing reads.  It
mirrors the first as long as a rule that is assigned anew leaves the set of the
node that had it before.
-/

inductive TaskStatus where
  | pending
  | running
  | completed
  | failed
  | timeout
  deriving Repr, DecidableEq

structure TaskAssignment where
  ruleId : String
  assignedNode : String
  assignedAt : Int64
  status : TaskStatus
  lastHeartbeat : Int64
  retryCount : UInt32
  deriving Repr, DecidableEq

/-- An assignment that is not over. -/
def TaskAssignment.IsActive (assignment : TaskAssignment) : Prop :=
  assignment.status = .running ∨ assignment.status = .pending

instance (assignment : TaskAssignment) : Decidable assignment.IsActive :=
  inferInstanceAs (Decidable (_ ∨ _))

structure PreAggregationConfig where
  taskTimeoutMs : UInt64
  maxRetries : UInt32
  enableAutoFailover : Bool
  deriving Repr, DecidableEq

abbrev TaskAssignments := FiniteMap String TaskAssignment

abbrev NodeTasks := FiniteMap String (Finset String)

/-- The rules of a node. -/
def NodeTasks.tasksOf (nodeTasks : NodeTasks) (node : String) :
    Finset String :=
  (nodeTasks.lookup node).getD ∅

structure PreAggregationCoordinator where
  config : PreAggregationConfig
  taskAssignments : TaskAssignments
  nodeTasks : NodeTasks
  pendingTasks : List String

def TaskAssignments.update (assignments : TaskAssignments) (ruleId : String)
    (change : TaskAssignment → TaskAssignment) :
    TaskAssignments :=
  match assignments.lookup ruleId with
  | none => assignments
  | some assignment => assignments.insert ruleId (change assignment)

namespace PreAggregationCoordinator

def new (config : PreAggregationConfig) : PreAggregationCoordinator where
  config := config
  taskAssignments := ∅
  nodeTasks := ∅
  pendingTasks := []

/-!
## The coordination loop
-/

/-- The assignment runs and was not heard of for too long. -/
def TimedOut (config : PreAggregationConfig) (now : Int64)
    (assignment : TaskAssignment) :
    Prop :=
  assignment.status = .running ∧
    config.taskTimeoutMs.toInt64 < now - assignment.lastHeartbeat

instance (config : PreAggregationConfig) (now : Int64)
    (assignment : TaskAssignment) :
    Decidable (TimedOut config now assignment) :=
  inferInstanceAs (Decidable (_ ∧ _))

/-- What the loop makes of a rule that it takes from the pending ones. -/
def retry (config : PreAggregationConfig) (assignment : TaskAssignment) :
    TaskAssignment :=
  if assignment.retryCount < config.maxRetries then
    {
      assignment with
      retryCount := assignment.retryCount + 1
      status := .pending
    }
  else { assignment with status := .failed }

/-- What the first half of the loop makes of an assignment. -/
def expire (config : PreAggregationConfig) (now : Int64)
    (assignment : TaskAssignment) :
    TaskAssignment :=
  if TimedOut config now assignment then
    { assignment with status := .timeout }
  else assignment

/-- The rules that the first half of the loop adds to the pending ones. -/
def expiredRules (coordinator : PreAggregationCoordinator) (now : Int64) :
    List String :=
  if coordinator.config.enableAutoFailover then
    coordinator.taskAssignments.keys.filter fun ruleId =>
      (coordinator.taskAssignments.lookup ruleId).any fun assignment =>
        TimedOut coordinator.config now assignment
  else []

/-- One turn of the loop that `start` spawns. -/
def coordinate (coordinator : PreAggregationCoordinator) (now : Int64) :
    PreAggregationCoordinator :=
  let assignments : TaskAssignments :=
    coordinator.taskAssignments.mapValues (expire coordinator.config now)
  let pending := coordinator.pendingTasks ++ coordinator.expiredRules now
  {
    coordinator with
    taskAssignments :=
      pending.foldl
        (fun assignments ruleId =>
          assignments.update ruleId (retry coordinator.config))
        assignments
    pendingTasks := []
  }

/-!
## The other operations
-/

/-- The loop body keeps the node with fewer rules. -/
def keepFewer (nodeTasks : NodeTasks) (best : ℕ × String) (nodeId : String) :
    ℕ × String :=
  let taskCount := (nodeTasks.tasksOf nodeId).card
  if taskCount < best.1 then (taskCount, nodeId) else best

def selectNodeForTask (nodeTasks : NodeTasks) :
    List String → Except ClusterError String
  | [] => .error (.internal "No available nodes for task assignment")
  | first :: rest =>
    .ok ((first :: rest).foldl (keepFewer nodeTasks) (2 ^ 64 - 1, first)).2

/-- The assignment entered in both maps. -/
def enter
    (coordinator : PreAggregationCoordinator) (ruleId selectedNode : String)
    (assignedAt lastHeartbeat : Int64) :
    PreAggregationCoordinator :=
  {
    coordinator with
    taskAssignments :=
      coordinator.taskAssignments.insert ruleId {
        ruleId := ruleId
        assignedNode := selectedNode
        assignedAt := assignedAt
        status := .pending
        lastHeartbeat := lastHeartbeat
        retryCount := 0
      }
    nodeTasks :=
      coordinator.nodeTasks.insert selectedNode
        (insert ruleId (coordinator.nodeTasks.tasksOf selectedNode))
  }

/-- The node that works on a rule already, if its assignment is not over. -/
def activeNode (coordinator : PreAggregationCoordinator) (ruleId : String) :
    Option String :=
  match coordinator.taskAssignments.lookup ruleId with
  | none => none
  | some assignment =>
    if assignment.IsActive then some assignment.assignedNode else none

/-- The clock is read once for each of the two times of an assignment. -/
def assignTask (coordinator : PreAggregationCoordinator) (ruleId : String)
    (availableNodes : List String) (assignedAt lastHeartbeat : Int64) :
    Except ClusterError String × PreAggregationCoordinator :=
  match coordinator.activeNode ruleId with
  | some assignedNode => (.ok assignedNode, coordinator)
  | none =>
    match selectNodeForTask coordinator.nodeTasks availableNodes with
    | .error cause => (.error cause, coordinator)
    | .ok selectedNode =>
      (.ok selectedNode,
        coordinator.enter ruleId selectedNode assignedAt lastHeartbeat)

def updateTaskStatus (coordinator : PreAggregationCoordinator) (ruleId : String)
    (status : TaskStatus) (now : Int64) :
    PreAggregationCoordinator :=
  {
    coordinator with
    taskAssignments :=
      coordinator.taskAssignments.update ruleId fun assignment =>
        { assignment with status := status, lastHeartbeat := now }
  }

def heartbeat
    (coordinator : PreAggregationCoordinator) (ruleId : String) (now : Int64) :
    PreAggregationCoordinator :=
  {
    coordinator with
    taskAssignments :=
      coordinator.taskAssignments.update ruleId fun assignment =>
        { assignment with lastHeartbeat := now }
  }

/-- Only the set of the node that the assignment names loses the rule. -/
def removeTask (coordinator : PreAggregationCoordinator) (ruleId : String) :
    PreAggregationCoordinator :=
  match coordinator.taskAssignments.lookup ruleId with
  | none => coordinator
  | some assignment =>
    {
      coordinator with
      taskAssignments := coordinator.taskAssignments.erase ruleId
      nodeTasks :=
        match coordinator.nodeTasks.lookup assignment.assignedNode with
        | none => coordinator.nodeTasks
        | some tasks =>
          coordinator.nodeTasks.insert assignment.assignedNode
            (tasks.erase ruleId)
    }

/-- The rules of a failed node become failed, wherever they are assigned. -/
def handleNodeFailure
    (coordinator : PreAggregationCoordinator) (failedNode : String) :
    Finset String × PreAggregationCoordinator :=
  let tasks := coordinator.nodeTasks.tasksOf failedNode
  (tasks.filter fun ruleId =>
      (coordinator.taskAssignments.lookup ruleId).isSome,
    {
      coordinator with
      taskAssignments :=
        coordinator.taskAssignments.mapKeyed fun ruleId assignment =>
          if ruleId ∈ tasks then { assignment with status := .failed }
          else assignment
      nodeTasks := coordinator.nodeTasks.erase failedNode
    })

end PreAggregationCoordinator

/-!
## Operations in any order
-/

inductive PreAggregationOperation where
  | assignTask
      (ruleId : String)
      (availableNodes : List String)
      (assignedAt lastHeartbeat : Int64)
  | updateTaskStatus (ruleId : String) (status : TaskStatus) (now : Int64)
  | heartbeat (ruleId : String) (now : Int64)
  | coordinate (now : Int64)
  | removeTask (ruleId : String)
  | handleNodeFailure (failedNode : String)
  deriving Repr, DecidableEq

namespace PreAggregationCoordinator

def apply (coordinator : PreAggregationCoordinator) :
    PreAggregationOperation → PreAggregationCoordinator
  | .assignTask ruleId availableNodes assignedAt lastHeartbeat =>
    (coordinator.assignTask ruleId availableNodes assignedAt lastHeartbeat).2
  | .updateTaskStatus ruleId status now =>
    coordinator.updateTaskStatus ruleId status now
  | .heartbeat ruleId now => coordinator.heartbeat ruleId now
  | .coordinate now => coordinator.coordinate now
  | .removeTask ruleId => coordinator.removeTask ruleId
  | .handleNodeFailure failedNode =>
    (coordinator.handleNodeFailure failedNode).2

def nodeOf (coordinator : PreAggregationCoordinator) (ruleId : String) :
    Option String :=
  (coordinator.taskAssignments.lookup ruleId).map TaskAssignment.assignedNode

def assignedTo (coordinator : PreAggregationCoordinator) (node : String) :
    Finset String :=
  (coordinator.taskAssignments.keys.filter fun ruleId =>
    coordinator.nodeOf ruleId = some node).toFinset

end PreAggregationCoordinator

/--
A coordinator with the rules whose node has failed since the assignment was
made.
-/
structure TrackedCoordinator where
  coordinator : PreAggregationCoordinator
  lost : Finset String

namespace TrackedCoordinator

def new (config : PreAggregationConfig) : TrackedCoordinator where
  coordinator := .new config
  lost := ∅

/-- A rule is lost with its node, until it is assigned anew or removed. -/
def nextLost (tracked : TrackedCoordinator) :
    PreAggregationOperation → Finset String
  | .assignTask ruleId availableNodes _ _ =>
    match tracked.coordinator.activeNode ruleId,
        PreAggregationCoordinator.selectNodeForTask
          tracked.coordinator.nodeTasks availableNodes with
    | none, .ok _ => tracked.lost.erase ruleId
    | _, _ => tracked.lost
  | .removeTask ruleId => tracked.lost.erase ruleId
  | .handleNodeFailure failedNode =>
    tracked.lost ∪ tracked.coordinator.assignedTo failedNode
  | _ => tracked.lost

def next (tracked : TrackedCoordinator) (operation : PreAggregationOperation) :
    TrackedCoordinator where
  coordinator := tracked.coordinator.apply operation
  lost := tracked.nextLost operation

def Step (before : TrackedCoordinator) (operation : PreAggregationOperation)
    (after : TrackedCoordinator) :
    Prop :=
  after = before.next operation

/--
Every rule whose node has not failed is in the set of its node and in no other,
and what a set lists is assigned to its node.
-/
structure Mirrors (tracked : TrackedCoordinator) : Prop where
  listed :
    ∀ {ruleId assignedNode : String},
      tracked.coordinator.nodeOf ruleId = some assignedNode →
      ruleId ∉ tracked.lost →
      ∀ node : String,
        ruleId ∈ tracked.coordinator.nodeTasks.tasksOf node ↔
          node = assignedNode
  assigned :
    ∀ {node ruleId : String},
      ruleId ∈ tracked.coordinator.nodeTasks.tasksOf node →
        tracked.coordinator.nodeOf ruleId = some node

/-- No set lists a rule whose node has failed. -/
def LostUnlisted (tracked : TrackedCoordinator) : Prop :=
  ∀ ruleId ∈ tracked.lost, ∀ node : String,
    ruleId ∉ tracked.coordinator.nodeTasks.tasksOf node

/--
A rule that is assigned anew stays with the node whose set lists it, or that
set does not list it any more.
-/
def KeepsNode (tracked : TrackedCoordinator) :
    PreAggregationOperation → Prop
  | .assignTask ruleId availableNodes _ _ =>
    tracked.coordinator.activeNode ruleId = none →
      ∀ node selectedNode : String,
        ruleId ∈ tracked.coordinator.nodeTasks.tasksOf node →
        PreAggregationCoordinator.selectNodeForTask
            tracked.coordinator.nodeTasks availableNodes =
          .ok selectedNode →
        selectedNode = node
  | _ => True

end TrackedCoordinator

end ChronoDB.Distributed
