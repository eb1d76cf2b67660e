import ChronoDB.Library.Locks

namespace ChronoDB.Distributed.Locks

open Library

/-!
# The locks of the cluster and shard managers

Each call takes the locks in an order of its own.  The heartbeat task holds the
nodes when it clears the leader and when it hands the shards of a failed node
to others; whoever asks for the leader holds its id when it takes the nodes.  A
failover of shards takes the map from nodes to shards under the shards, and at
its end the shards under the map.
-/

inductive ClusterLock where
  | nodes
  | leaderId
  | shards
  | nodeShards
  deriving Repr, DecidableEq

abbrev Guard := LockGuard ClusterLock

abbrev Trace := List (LockStep ClusterLock)

def reading (lock : ClusterLock) : Guard :=
  ⟨lock, .read⟩

def writing (lock : ClusterLock) : Guard :=
  ⟨lock, .write⟩

/-- A lock that is taken and given back at once. -/
def briefly (guard : Guard) : Trace :=
  guarded guard []

/-!
## Calls on the shard manager
-/

def assignShard : Trace :=
  guarded (writing .shards) (briefly (writing .nodeShards))

/-- Without nodes the call fails before it takes a lock. -/
def rebalanceShards (nodesGiven : Bool) : Trace :=
  if nodesGiven then briefly (writing .shards) else []

def getNodeShards : Trace :=
  briefly (reading .nodeShards)

def selectNewPrimary : Trace :=
  briefly (reading .nodeShards)

def selectNewFollowers : Trace :=
  briefly (reading .nodeShards)

/-- What a failover finds at a shard of the failed node. -/
inductive ShardVisit where
  | missing
  | primary
  | fewFollowers
  | enoughFollowers
  deriving Repr, DecidableEq

/-- The shards are locked anew for each shard. -/
def ShardVisit.locks (visit : ShardVisit) : Trace :=
  guarded (writing .shards)
    (match visit with
    | .missing | .enoughFollowers => []
    | .primary => selectNewPrimary ++ selectNewFollowers
    | .fewFollowers => selectNewFollowers)

/-- What a failover finds for the failed node. -/
inductive ShardFailover where
  | noHealthyNodes
  | noShards
  | reassigned (first : ShardVisit) (others : List ShardVisit)
  deriving Repr, DecidableEq

/-- The map is written last, from the shards that are read under its lock. -/
def ShardFailover.locks : ShardFailover → Trace
  | .noHealthyNodes => []
  | .noShards => getNodeShards
  | .reassigned first others =>
    getNodeShards ++
      ((first :: others).flatMap ShardVisit.locks ++
        guarded (writing .nodeShards) (briefly (reading .shards)))

/-!
## Calls on the cluster manager
-/

/-- The nodes are read, and the leader is set when some are healthy. -/
def electLeader (healthy : Bool) : Trace :=
  briefly (reading .nodes) ++
    if healthy then briefly (writing .leaderId) ++ briefly (writing .nodes)
    else []

/-- An election that is held, and whether it finds healthy nodes. -/
abbrev Election := Option Bool

/-- The guard of the condition is dropped before the election. -/
def checkLeaderElection (election : Election) : Trace :=
  briefly (reading .leaderId) ++ election.elim [] electLeader

/-- The guard of the condition lives to the end of the `if let`. -/
def getLeader (named : Bool) : Trace :=
  guarded (reading .leaderId) (if named then briefly (reading .nodes) else [])

/-- A check follows when the removed node led. -/
def removeNode (check : Option Election) : Trace :=
  briefly (writing .nodes) ++
    (briefly (reading .leaderId) ++
      check.elim [] fun election =>
        briefly (writing .leaderId) ++ checkLeaderElection election)

/-- A leader that has failed is cleared, and another one elected. -/
def replaceLeader (election : Election) : Trace :=
  briefly (reading .leaderId) ++
    election.elim [] fun healthy =>
      briefly (writing .leaderId) ++ electLeader healthy

def triggerFailover
    (election : Election) (shardManager : Option ShardFailover) :
    Trace :=
  replaceLeader election ++ shardManager.elim [] ShardFailover.locks

/-- The failover is triggered when there were healthy nodes. -/
def handleNodeFailure (election : Election)
    (failover : Option (Election × Option ShardFailover)) :
    Trace :=
  briefly (writing .nodes) ++
    (replaceLeader election ++
      failover.elim [] fun found => triggerFailover found.1 found.2)

/-- The nodes are locked for the whole tick. -/
def heartbeatTick (leaderTimedOut : Bool) (failedNodes : List ShardFailover)
    (recoveredNodes : List Bool) :
    Trace :=
  guarded (writing .nodes)
    ((if leaderTimedOut then briefly (writing .leaderId) else []) ++
      (failedNodes.flatMap ShardFailover.locks ++
        recoveredNodes.flatMap rebalanceShards))

/-- A call, with what it finds in the data that its locks guard. -/
inductive ClusterCall where
  | heartbeatTick
      (leaderTimedOut : Bool)
      (failedNodes : List ShardFailover)
      (recoveredNodes : List Bool)
  | getLeader (named : Bool)
  | electLeader (healthy : Bool)
  | removeNode (check : Option Election)
  | handleNodeFailure
      (election : Election)
      (failover : Option (Election × Option ShardFailover))
  | assignShard
  | rebalanceShards (nodesGiven : Bool)
  | shardFailover (failover : ShardFailover)
  deriving Repr, DecidableEq

def ClusterCall.locks : ClusterCall → Trace
  | .heartbeatTick leaderTimedOut failedNodes recoveredNodes =>
    Locks.heartbeatTick leaderTimedOut failedNodes recoveredNodes
  | .getLeader named => Locks.getLeader named
  | .electLeader healthy => Locks.electLeader healthy
  | .removeNode check => Locks.removeNode check
  | .handleNodeFailure election failover =>
    Locks.handleNodeFailure election failover
  | .assignShard => Locks.assignShard
  | .rebalanceShards nodesGiven => Locks.rebalanceShards nodesGiven
  | .shardFailover failover => failover.locks

/-!
## What is taken under what
-/

/-- The locks that some call takes while it holds another one. -/
def nestings : List (Guard × Guard) :=
  [(reading .leaderId, reading .nodes),
    (writing .nodes, writing .leaderId),
    (writing .nodes, reading .nodeShards),
    (writing .nodes, writing .nodeShards),
    (writing .nodes, reading .shards),
    (writing .nodes, writing .shards),
    (writing .shards, reading .nodeShards),
    (writing .shards, writing .nodeShards),
    (writing .nodeShards, reading .shards)]

def MayNest (outer inner : Guard) : Prop :=
  (outer, inner) ∈ nestings

instance (outer inner : Guard) : Decidable (MayNest outer inner) :=
  inferInstanceAs (Decidable (_ ∈ _))

section Nesting

variable {held : List Guard}

theorem nested_briefly
    {guard : Guard} (allowed : ∀ outer ∈ held, MayNest outer guard) :
    Nested MayNest held (briefly guard) :=
  .guarded allowed (.nothing _)

/-- Outside of every lock, or under the lock of a tick. -/
def AtMostTick (held : List Guard) : Prop :=
  held = [] ∨ held = [writing .nodes]

theorem nested_rebalanceShards (under : AtMostTick held) (nodesGiven : Bool) :
    Nested MayNest held (rebalanceShards nodesGiven) := by
  cases nodesGiven with
  | false => exact .nothing held
  | true =>
    refine nested_briefly ?_
    rcases under with rfl | rfl <;> decide

theorem ShardVisit.nested (under : AtMostTick held) (visit : ShardVisit) :
    Nested MayNest held visit.locks := by
  have selection :
      Nested MayNest (writing .shards :: held)
        (briefly (reading .nodeShards)) := by
    refine nested_briefly ?_
    rcases under with rfl | rfl <;> decide
  refine .guarded ?_ ?_
  · rcases under with rfl | rfl <;> decide
  · cases visit with
    | missing => exact .nothing _
    | primary => exact .append selection selection
    | fewFollowers => exact selection
    | enoughFollowers => exact .nothing _

theorem ShardFailover.nested
    (under : AtMostTick held) (failover : ShardFailover) :
    Nested MayNest held failover.locks := by
  have listed : Nested MayNest held getNodeShards := by
    refine nested_briefly ?_
    rcases under with rfl | rfl <;> decide
  cases failover with
  | noHealthyNodes => exact .nothing held
  | noShards => exact listed
  | reassigned first others =>
    refine .append listed
      (.append (.flatMap (ShardVisit.nested under) _)
        (.guarded ?_ (nested_briefly ?_)))
    · rcases under with rfl | rfl <;> decide
    · rcases under with rfl | rfl <;> decide

theorem nested_single (guard : Guard) :
    Nested MayNest [] (briefly guard) :=
  nested_briefly fun _ member => (List.not_mem_nil member).elim

theorem nested_electLeader (healthy : Bool) :
    Nested MayNest [] (electLeader healthy) := by
  refine .append (nested_single _) ?_
  cases healthy with
  | false => exact .nothing []
  | true => exact .append (nested_single _) (nested_single _)

theorem nested_checkLeaderElection (election : Election) :
    Nested MayNest [] (checkLeaderElection election) := by
  refine .append (nested_single _) ?_
  cases election with
  | none => exact .nothing []
  | some healthy => exact nested_electLeader healthy

theorem nested_replaceLeader (election : Election) :
    Nested MayNest [] (replaceLeader election) := by
  refine .append (nested_single _) ?_
  cases election with
  | none => exact .nothing []
  | some healthy => exact .append (nested_single _) (nested_electLeader healthy)

theorem nested_triggerFailover
    (election : Election) (shardManager : Option ShardFailover) :
    Nested MayNest [] (triggerFailover election shardManager) := by
  refine .append (nested_replaceLeader election) ?_
  cases shardManager with
  | none => exact .nothing []
  | some failover => exact ShardFailover.nested (.inl rfl) failover

theorem nested_heartbeatTick
    (leaderTimedOut : Bool) (failedNodes : List ShardFailover)
    (recoveredNodes : List Bool) :
    Nested MayNest []
      (heartbeatTick leaderTimedOut failedNodes recoveredNodes) := by
  refine .guarded (by decide) (.append ?_ (.append ?_ ?_))
  · cases leaderTimedOut with
    | false => exact .nothing _
    | true => exact nested_briefly (by decide)
  · exact .flatMap (ShardFailover.nested (.inr rfl)) failedNodes
  · exact .flatMap (nested_rebalanceShards (.inr rfl)) recoveredNodes

/-- Every call takes its locks as allowed. -/
theorem ClusterCall.nested (call : ClusterCall) :
    Nested MayNest [] call.locks := by
  cases call with
  | heartbeatTick leaderTimedOut failedNodes recoveredNodes =>
    exact nested_heartbeatTick leaderTimedOut failedNodes recoveredNodes
  | getLeader named =>
    refine .guarded (by decide) ?_
    cases named with
    | false => exact .nothing _
    | true => exact nested_briefly (by decide)
  | electLeader healthy => exact nested_electLeader healthy
  | removeNode check =>
    refine .append (nested_single _) (.append (nested_single _) ?_)
    cases check with
    | none => exact .nothing []
    | some election =>
      exact .append (nested_single _) (nested_checkLeaderElection election)
  | handleNodeFailure election failover =>
    refine .append (nested_single _)
      (.append (nested_replaceLeader election) ?_)
    cases failover with
    | none => exact .nothing []
    | some found => exact nested_triggerFailover found.1 found.2
  | assignShard => exact .guarded (by decide) (nested_briefly (by decide))
  | rebalanceShards nodesGiven =>
    exact nested_rebalanceShards (.inl rfl) nodesGiven
  | shardFailover failover => exact ShardFailover.nested (.inl rfl) failover

end Nesting

end ChronoDB.Distributed.Locks
