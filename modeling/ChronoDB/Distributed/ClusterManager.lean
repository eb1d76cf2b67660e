import Mathlib.Order.Defs.Unbundled
import ChronoDB.Library.FiniteMap
import ChronoDB.Library.Transition

namespace ChronoDB.Distributed

open Library

/-!
# The members of a cluster and their leader

The cluster manager keeps a table of nodes and the id of the leader, and each
node carries a flag that says whether it leads.  A task counts, tick by tick,
how often each node was silent for too long, and drops the nodes that were so
three times.
-/

inductive NodeStatus where
  | online
  | degraded
  | offline
  | suspect
  deriving Repr, DecidableEq

namespace NodeStatus

def isAvailable : NodeStatus → Bool
  | online | degraded => true
  | offline | suspect => false

def isHealthy : NodeStatus → Bool
  | online => true
  | degraded | offline | suspect => false

end NodeStatus

structure NodeInfo where
  nodeId : String
  address : String
  status : NodeStatus
  lastHeartbeat : Int64
  shardCount : UInt64
  seriesCount : UInt64
  isLeader : Bool
  version : String
  deriving Repr, DecidableEq

structure ClusterConfig where
  nodeTimeoutMs : UInt64
  deriving Repr, DecidableEq

abbrev NodeTable := FiniteMap String NodeInfo

/-- The table of nodes, the leader, and the counts of the heartbeat task. -/
structure ClusterManager where
  config : ClusterConfig
  nodes : NodeTable
  leaderId : Option String
  timeoutCounts : FiniteMap String ℕ

inductive ManagerCall where
  | shardFailover (failedNode : String) (nodes : List String)
  | replicationFailover (failedNode : String) (nodes : List String)
  | rebalanceShards (nodes : List String)
  deriving Repr, DecidableEq

namespace NodeTable

def values (nodes : NodeTable) : List NodeInfo :=
  nodes.entries.map Sigma.snd

def idsWith (hasStatus : NodeStatus → Bool) (nodes : NodeTable) :
    List String :=
  (nodes.values.filter fun node => hasStatus node.status).map NodeInfo.nodeId

def markOffline (nodes : NodeTable) (nodeId : String) : NodeTable :=
  match nodes.lookup nodeId with
  | none => nodes
  | some node => nodes.insert nodeId { node with status := .offline }

def without (nodes : NodeTable) (removed : List String) : NodeTable :=
  removed.foldl (fun nodes nodeId => nodes.erase nodeId) nodes

end NodeTable

/-!
## Elections
-/

/-- `str::parse` for an `u32`. -/
def parseU32 (text : List Char) : Option ℕ :=
  let digits := if text.head? = some '+' then text.tail else text
  let value :=
    digits.foldl (fun value digit => 10 * value + (digit.toNat - 48)) 0
  if digits = [] ∨ !digits.all Char.isDigit ∨ 2 ^ 32 ≤ value then none
  else some value

/-- The numbers of a version; parts that are no numbers are dropped. -/
def versionParts (version : String) : List ℕ :=
  (version.toList.splitOn '.').filterMap parseU32

def compareVersions (first second : String) : Ordering :=
  let parts := versionParts first
  let others := versionParts second
  let firstDifference :=
    ((parts.zip others).map fun pair => compare pair.1 pair.2).find?
      fun ordering => ordering ≠ .eq
  firstDifference.getD (compare parts.length others.length)

/-- The order of candidates: flagged first, then few shards, new versions, ids. -/
def compareCandidates (first second : NodeInfo) : Ordering :=
  if first.isLeader ∧ !second.isLeader then .lt
  else if !first.isLeader ∧ second.isLeader then .gt
  else if first.shardCount < second.shardCount then .lt
  else if second.shardCount < first.shardCount then .gt
  else
    let versions := compareVersions first.version second.version
    if versions ≠ .eq then versions.swap
    else compare first.nodeId second.nodeId

def firstCandidate (candidates : List NodeInfo) : Option NodeInfo :=
  (candidates.insertionSort fun first second =>
    compareCandidates first second ≠ .gt).head?

namespace ClusterManager

def new (config : ClusterConfig) : ClusterManager where
  config := config
  nodes := ∅
  leaderId := none
  timeoutCounts := ∅

/-- The leader and the flags of all nodes. -/
def lead (manager : ClusterManager) (leader : String) : ClusterManager :=
  {
    manager with
    leaderId := some leader
    nodes :=
      manager.nodes.mapKeyed fun nodeId node =>
        { node with isLeader := nodeId = leader }
  }

def electLeader (manager : ClusterManager) : ClusterManager :=
  let healthy := manager.nodes.values.filter fun node => node.status.isHealthy
  match firstCandidate healthy with
  | none => manager
  | some candidate => manager.lead candidate.nodeId

def checkLeaderElection (manager : ClusterManager) : ClusterManager :=
  if manager.leaderId = none then manager.electLeader else manager

def getLeader (manager : ClusterManager) : Option NodeInfo :=
  manager.leaderId.bind fun leader => manager.nodes.lookup leader

/-!
## Operations
-/

def registerNode (manager : ClusterManager) (info : NodeInfo) :
    ClusterManager :=
  ClusterManager.checkLeaderElection {
    manager with nodes := manager.nodes.insert info.nodeId info
  }

def updateHeartbeat (manager : ClusterManager) (nodeId : String) (now : Int64) :
    ClusterManager :=
  match manager.nodes.lookup nodeId with
  | none => manager
  | some node =>
    {
      manager with
      nodes :=
        manager.nodes.insert nodeId
          { node with lastHeartbeat := now, status := .online }
    }

/-- A leader that has gone is cleared, and another one elected. -/
def replaceLeader (manager : ClusterManager) (nodeId : String) :
    ClusterManager :=
  if manager.leaderId = some nodeId then
    ClusterManager.electLeader { manager with leaderId := none }
  else manager

def removeNode (manager : ClusterManager) (nodeId : String) :
    ClusterManager :=
  ClusterManager.replaceLeader
    { manager with nodes := manager.nodes.erase nodeId } nodeId

def triggerFailover (manager : ClusterManager) (failedNode : String)
    (healthyNodes : List String) :
    ClusterManager × List ManagerCall :=
  if healthyNodes = [] then (manager, [])
  else
    (manager.replaceLeader failedNode,
      [.shardFailover failedNode healthyNodes,
        .replicationFailover failedNode healthyNodes])

/-- The healthy nodes are those left once the node was marked as offline. -/
def handleNodeFailure (manager : ClusterManager) (nodeId : String) :
    ClusterManager × List ManagerCall :=
  let marked := manager.nodes.markOffline nodeId
  let healthyNodes := NodeTable.idsWith NodeStatus.isHealthy marked
  let removed := { manager with nodes := marked.erase nodeId }
  (removed.replaceLeader nodeId).triggerFailover nodeId healthyNodes

/-- The switch does not remove the leader from the nodes. -/
def triggerFailoverSwitch (manager : ClusterManager) (failedNode : String) :
    ClusterManager :=
  if manager.getLeader.map NodeInfo.nodeId = some failedNode then
    ClusterManager.electLeader { manager with leaderId := none }
  else manager

end ClusterManager

inductive RemoteStatus where
  | online
  | offline
  | suspect
  deriving Repr, DecidableEq

/-- A node as another one tells of it. -/
structure RemoteNode where
  nodeId : String
  address : String
  status : RemoteStatus
  lastHeartbeat : Int64
  deriving Repr, DecidableEq

/-- The answer of a node that was asked for the state of the cluster. -/
structure ClusterStatus where
  nodeId : String
  isCoordinator : Bool
  nodes : List RemoteNode
  deriving Repr, DecidableEq

def ClusterStatus.discovered (status : ClusterStatus) (node : RemoteNode) :
    NodeInfo where
  nodeId := node.nodeId
  address := node.address
  status :=
    match node.status with
    | .online => .online
    | .offline => .offline
    | .suspect => .degraded
  lastHeartbeat := node.lastHeartbeat
  shardCount := 0
  seriesCount := 0
  isLeader := status.isCoordinator && status.nodeId = node.nodeId
  version := "1.0.0"

namespace ClusterManager

/-- A node that is not known yet is entered. -/
def discover (status : ClusterStatus) (nodes : NodeTable) (node : RemoteNode) :
    NodeTable :=
  if node.nodeId ∈ nodes then nodes
  else nodes.insert node.nodeId (status.discovered node)

def performDiscovery (manager : ClusterManager) (status : ClusterStatus) :
    ClusterManager :=
  { manager with nodes := status.nodes.foldl (discover status) manager.nodes }

/-!
## The heartbeat task
-/

/-- What a tick makes of a node. -/
inductive NodeEvent where
  | unchanged
  | failed
  | degraded
  | recovered
  deriving Repr, DecidableEq

structure Visit where
  status : NodeStatus
  timeoutCount : ℕ
  event : NodeEvent
  deriving Repr, DecidableEq

/-- The last heartbeat is more than some time ago, in `i64` arithmetic. -/
def OlderThan (limitMs : UInt64) (now : Int64) (node : NodeInfo) : Prop :=
  limitMs.toInt64 < now - node.lastHeartbeat

instance (limitMs : UInt64) (now : Int64) (node : NodeInfo) :
    Decidable (OlderThan limitMs now node) :=
  inferInstanceAs (Decidable (_ < _))

/-- One more timeout; the third one is the last. -/
def timedOut (timeoutCount : ℕ) : Visit :=
  if 3 ≤ timeoutCount + 1 then ⟨.offline, timeoutCount + 1, .failed⟩
  else ⟨.suspect, timeoutCount + 1, .unchanged⟩

/-- The status machine of a node. -/
def visit (config : ClusterConfig) (now : Int64) (node : NodeInfo)
    (timeoutCount : ℕ) :
    Visit :=
  match node.status with
  | .online =>
    if OlderThan config.nodeTimeoutMs now node then timedOut timeoutCount
    else if OlderThan (config.nodeTimeoutMs / 2) now node then
      ⟨.degraded, timeoutCount, .degraded⟩
    else ⟨.online, timeoutCount, .unchanged⟩
  | .degraded =>
    if OlderThan config.nodeTimeoutMs now node then timedOut timeoutCount
    else if OlderThan (config.nodeTimeoutMs / 2) now node then
      ⟨.degraded, timeoutCount, .unchanged⟩
    else ⟨.online, 0, .recovered⟩
  | .suspect =>
    if OlderThan config.nodeTimeoutMs now node then timedOut timeoutCount
    else ⟨.online, 0, .recovered⟩
  | .offline => ⟨.offline, timeoutCount, .unchanged⟩

def timeoutCount (manager : ClusterManager) (nodeId : String) : ℕ :=
  (manager.timeoutCounts.lookup nodeId).getD 0

/-- What the tick makes of a node of the table. -/
def visitNode (manager : ClusterManager) (now : Int64) (nodeId : String)
    (node : NodeInfo) :
    Visit :=
  visit manager.config now node (manager.timeoutCount nodeId)

def idsOf (manager : ClusterManager) (happens : String → NodeInfo → Bool) :
    List String :=
  (manager.nodes.entries.filter fun entry =>
    happens entry.1 entry.2).map Sigma.fst

/-- Nodes that failed or recovered lose their counts, the others keep them. -/
def nextCount
    (manager : ClusterManager) (now : Int64) (counts : FiniteMap String ℕ)
    (entry : (_ : String) × NodeInfo) :
    FiniteMap String ℕ :=
  let visited := manager.visitNode now entry.1 entry.2
  match visited.event with
  | .failed | .recovered => counts.erase entry.1
  | .unchanged | .degraded => counts.insert entry.1 visited.timeoutCount

/-- Only a leader that fails while it is online is noticed. -/
def leaderTimedOut (manager : ClusterManager) (now : Int64) : Bool :=
  manager.nodes.entries.any fun entry =>
    (manager.visitNode now entry.1 entry.2).event = .failed &&
      entry.2.status = .online && entry.2.isLeader

/-- One tick of the heartbeat task, and the calls it makes. -/
def tick (manager : ClusterManager) (now : Int64) :
    ClusterManager × List ManagerCall :=
  let visited : NodeTable :=
    manager.nodes.mapKeyed fun nodeId node =>
      { node with status := (manager.visitNode now nodeId node).status }
  let failedNodes :=
    manager.idsOf fun nodeId node =>
      (manager.visitNode now nodeId node).event = .failed
  let recoveredNodes :=
    manager.idsOf fun nodeId node =>
      (manager.visitNode now nodeId node).event = .recovered
  let availableNodes := NodeTable.idsWith NodeStatus.isAvailable visited
  ({
      manager with
      nodes := visited.without failedNodes
      leaderId := if manager.leaderTimedOut now then none else manager.leaderId
      timeoutCounts :=
        manager.nodes.entries.foldl (manager.nextCount now)
          manager.timeoutCounts
    },
    (failedNodes.flatMap fun failedNode =>
      [.shardFailover failedNode availableNodes,
        .replicationFailover failedNode availableNodes]) ++
      recoveredNodes.map fun _ => .rebalanceShards availableNodes)

end ClusterManager

/-!
## Operations in any order
-/

inductive ClusterOperation where
  | registerNode (info : NodeInfo)
  | updateHeartbeat (nodeId : String) (now : Int64)
  | removeNode (nodeId : String)
  | handleNodeFailure (nodeId : String)
  | triggerFailoverSwitch (failedNode : String)
  | performDiscovery (status : ClusterStatus)
  | tick (now : Int64)
  deriving Repr, DecidableEq

def ClusterManager.apply (manager : ClusterManager) :
    ClusterOperation → ClusterManager
  | .registerNode info => manager.registerNode info
  | .updateHeartbeat nodeId now => manager.updateHeartbeat nodeId now
  | .removeNode nodeId => manager.removeNode nodeId
  | .handleNodeFailure nodeId => (manager.handleNodeFailure nodeId).1
  | .triggerFailoverSwitch failedNode =>
    manager.triggerFailoverSwitch failedNode
  | .performDiscovery status => manager.performDiscovery status
  | .tick now => (manager.tick now).1

/-!
## The least candidate

The order of candidates compares one criterion after the other, so only nodes
of one id are equal in it.
-/

theorem firstDifference_eq_compareLex (parts others : List ℕ) :
    (((parts.zip others).map fun pair => compare pair.1 pair.2).find?
        fun ordering => ordering ≠ .eq).getD
          (compare parts.length others.length) =
      List.compareLex compare parts others := by
  induction parts generalizing others with
  | nil =>
    cases others with
    | nil => rfl
    | cons other others =>
      rw [List.compareLex_nil_cons, List.zip_nil_left]
      exact Nat.compare_eq_lt.mpr (Nat.succ_pos _)
  | cons part parts inductionHypothesis =>
    cases others with
    | nil =>
      rw [List.compareLex_cons_nil, List.zip_nil_right]
      exact Nat.compare_eq_gt.mpr (Nat.succ_pos _)
    | cons other others =>
      have sameLengths :
          compare (part :: parts).length (other :: others).length =
            compare parts.length others.length := by
        simp [Nat.compare_eq_ite_lt]
      rw [List.compareLex_cons_cons, ← inductionHypothesis, sameLengths,
        List.zip_cons_cons, List.map_cons, List.find?_cons]
      cases compare part other <;> rfl

theorem compareVersions_eq (first second : String) :
    compareVersions first second =
      List.compareLex compare (versionParts first) (versionParts second) :=
  firstDifference_eq_compareLex _ _

/-- The newer version comes first. -/
def compareNewest (first second : NodeInfo) : Ordering :=
  compareVersions second.version first.version

instance : Std.TransCmp compareVersions where
  eq_swap {first second} := by
    rw [compareVersions_eq, compareVersions_eq]
    exact Std.OrientedCmp.eq_swap
  isLE_trans {first second third} := by
    rw [compareVersions_eq, compareVersions_eq, compareVersions_eq]
    exact Std.TransCmp.isLE_trans

instance : Std.TransCmp compareNewest where
  eq_swap {first second} :=
    @Std.OrientedCmp.eq_swap _ compareVersions _ second.version first.version
  isLE_trans {first second third} firstSecond secondThird :=
    @Std.TransCmp.isLE_trans _ compareVersions _ third.version second.version
      first.version secondThird firstSecond

theorem compareUInt64_eq (first second : UInt64) :
    compare first second =
      if first < second then .lt else if second < first then .gt else .eq := by
  rcases lt_trichotomy first.toNat second.toNat with less | same | greater
  · have isLess : first < second := less
    simp [compare, compareOfLessAndEq, isLess]
  · have isSame : first = second := UInt64.toNat_inj.mp same
    simp [compare, compareOfLessAndEq, isSame]
  · have isGreater : second < first := greater
    have notLess : ¬first < second := UInt64.not_lt.mpr (Nat.le_of_lt greater)
    have differs : first ≠ second := fun same => notLess (same ▸ isGreater)
    simp [compare, compareOfLessAndEq, isGreater, notLess, differs]

theorem compareCandidates_eq :
    compareCandidates =
      compareLex (compareOn fun node => !node.isLeader)
        (compareLex (compareOn NodeInfo.shardCount)
          (compareLex compareNewest (compareOn NodeInfo.nodeId))) := by
  funext first second
  have newest :
      (compareVersions first.version second.version).swap =
        compareNewest first second :=
    Std.OrientedCmp.eq_swap.symm
  have differs :
      compareVersions first.version second.version ≠ .eq ↔
        compareNewest first second ≠ .eq := by
    rw [← newest, ne_eq, ne_eq, Ordering.swap_eq_eq]
  simp only [compareCandidates, compareLex, compareOn, newest, differs,
    compareUInt64_eq]
  have rest :
      (if compareNewest first second ≠ .eq then compareNewest first second
        else compare first.nodeId second.nodeId) =
          (compareNewest first second).then
            (compare first.nodeId second.nodeId) := by
    cases compareNewest first second <;> rfl
  rw [rest]
  by_cases fewer : first.shardCount < second.shardCount
  · simp only [fewer, ↓reduceIte]
    cases first.isLeader <;> cases second.isLeader <;> rfl
  · by_cases more : second.shardCount < first.shardCount
    · simp only [fewer, more, ↓reduceIte]
      cases first.isLeader <;> cases second.isLeader <;> rfl
    · simp only [fewer, more, ↓reduceIte]
      cases first.isLeader <;> cases second.isLeader <;> rfl

instance : Std.TransCmp compareCandidates := by
  rw [compareCandidates_eq]
  infer_instance

theorem nodeId_eq_of_compareCandidates_eq
    {first second : NodeInfo} (same : compareCandidates first second = .eq) :
    first.nodeId = second.nodeId := by
  rw [compareCandidates_eq] at same
  simp only [compareLex_eq_eq, compareOn] at same
  exact Std.LawfulEqOrd.eq_of_compare same.2.2.2

def IsPreferred (first second : NodeInfo) : Prop :=
  compareCandidates first second = .lt

instance : Std.Irrefl IsPreferred where
  irrefl node preferred := by
    rw [IsPreferred, @Std.ReflCmp.compare_self _ compareCandidates] at preferred
    cases preferred

instance : IsTrans NodeInfo IsPreferred where
  trans _ _ _ firstSecond secondThird :=
    Std.TransCmp.lt_trans firstSecond secondThird

theorem firstCandidate_cases (candidates : List NodeInfo) :
    candidates = [] ∧ firstCandidate candidates = none ∨
      ∃ candidate ∈ candidates, firstCandidate candidates = some candidate := by
  have permuted :=
    List.perm_insertionSort
      (fun first second => compareCandidates first second ≠ .gt) candidates
  rw [firstCandidate]
  cases sorted :
      candidates.insertionSort fun first second =>
        compareCandidates first second ≠ .gt with
  | nil =>
    rw [sorted] at permuted
    exact .inl ⟨permuted.symm.eq_nil, rfl⟩
  | cons candidate rest =>
    rw [sorted] at permuted
    exact .inr ⟨candidate, permuted.mem_iff.mp List.mem_cons_self, rfl⟩

namespace ClusterManager

/-- The nodes among which a leader is elected. -/
def healthyNodes (manager : ClusterManager) : List NodeInfo :=
  manager.nodes.values.filter fun node => node.status.isHealthy

/-- The nodes of the table have different ids. -/
def DistinctIds (manager : ClusterManager) : Prop :=
  (manager.nodes.values.map NodeInfo.nodeId).Nodup

variable {manager : ClusterManager}

theorem DistinctIds.eq_of_nodeId_eq
    (distinct : manager.DistinctIds) {first second : NodeInfo}
    (isFirst : first ∈ manager.healthyNodes)
    (isSecond : second ∈ manager.healthyNodes)
    (same : first.nodeId = second.nodeId) :
    first = second :=
  List.inj_on_of_nodup_map distinct (List.mem_of_mem_filter isFirst)
    (List.mem_of_mem_filter isSecond) same

theorem healthyNodes_perm {manager reordered : ClusterManager}
    (sameNodes :
      reordered.nodes.entries.Perm manager.nodes.entries) :
    reordered.healthyNodes.Perm manager.healthyNodes :=
  List.Perm.filter _
    (List.Perm.map (fun entry : (_ : String) × NodeInfo => entry.2) sameNodes)

theorem DistinctIds.isStrictTotalOrder (distinct : manager.DistinctIds) :
    IsStrictTotalOrder { node // node ∈ manager.healthyNodes }
      fun first second => IsPreferred first.1 second.1 where
  trichotomous first second notPreferred notAfter := by
    have notGreater : compareCandidates first.1 second.1 ≠ .gt := by
      intro greater
      exact notAfter (Std.OrientedCmp.lt_of_gt greater)
    have same : compareCandidates first.1 second.1 = .eq := by
      cases compared : compareCandidates first.1 second.1 with
      | lt => exact absurd compared notPreferred
      | eq => rfl
      | gt => exact absurd compared notGreater
    exact Subtype.ext
      (distinct.eq_of_nodeId_eq first.2 second.2
        (nodeId_eq_of_compareCandidates_eq same))
  irrefl node := irrefl_of IsPreferred node.1
  trans _ _ _ := trans_of IsPreferred

theorem DistinctIds.isPreferred_of_firstCandidate
    (distinct : manager.DistinctIds) {candidates : List NodeInfo}
    (reordered : candidates.Perm manager.healthyNodes) {leader : NodeInfo}
    (isFirst : firstCandidate candidates = some leader) :
    leader ∈ manager.healthyNodes ∧
      ∀ other ∈ manager.healthyNodes, other ≠ leader →
        IsPreferred leader other := by
  obtain ⟨isCandidate, notAfter⟩ := ne_gt_of_head?_insertionSort isFirst
  have isHealthy := reordered.mem_iff.mp isCandidate
  refine ⟨isHealthy, ?_⟩
  intro other isOther differs
  have atLeast := notAfter other (reordered.mem_iff.mpr isOther)
  cases compared : compareCandidates leader other with
  | lt => exact compared
  | eq =>
    exact absurd
      (distinct.eq_of_nodeId_eq isOther isHealthy
        (nodeId_eq_of_compareCandidates_eq compared).symm)
      differs
  | gt => exact absurd compared atLeast

theorem DistinctIds.firstCandidate_eq
    (distinct : manager.DistinctIds) {candidates : List NodeInfo}
    (reordered : candidates.Perm manager.healthyNodes) {leader : NodeInfo}
    (isHealthy : leader ∈ manager.healthyNodes)
    (least :
      ∀ other ∈ manager.healthyNodes, other ≠ leader →
        IsPreferred leader other) :
    firstCandidate candidates = some leader := by
  obtain ⟨isEmpty, _⟩ | ⟨first, isCandidate, isFirst⟩ :=
    firstCandidate_cases candidates
  · have isCandidate := reordered.mem_iff.mpr isHealthy
    rw [isEmpty] at isCandidate
    cases isCandidate
  · obtain ⟨firstHealthy, firstLeast⟩ :=
      distinct.isPreferred_of_firstCandidate reordered isFirst
    by_cases same : first = leader
    · rw [isFirst, same]
    · have before := least first firstHealthy same
      have after := firstLeast leader isHealthy (Ne.symm same)
      exact absurd (trans_of IsPreferred before after)
        (irrefl_of IsPreferred leader)

/--
The order of candidates is consistent, strict and total on healthy nodes, and
in whatever order the table lists its nodes, the least one of them is elected.
-/
theorem electLeader_least (manager : ClusterManager)
    (distinct : manager.DistinctIds) :
    (∀ first second,
        compareCandidates first second =
          (compareCandidates second first).swap) ∧
      IsStrictTotalOrder { node // node ∈ manager.healthyNodes }
        (fun first second => IsPreferred first.1 second.1) ∧
      (manager.healthyNodes = [] ∨
        ∃ leader ∈ manager.healthyNodes,
          (∀ other ∈ manager.healthyNodes, other ≠ leader →
            IsPreferred leader other) ∧
          ∀ reordered : ClusterManager,
            reordered.nodes.entries.Perm manager.nodes.entries →
              reordered.electLeader = reordered.lead leader.nodeId) := by
  refine ⟨fun _ _ => Std.OrientedCmp.eq_swap, distinct.isStrictTotalOrder, ?_⟩
  obtain ⟨isEmpty, _⟩ | ⟨leader, _, isFirst⟩ :=
    firstCandidate_cases manager.healthyNodes
  · exact .inl isEmpty
  · obtain ⟨isHealthy, least⟩ :=
      distinct.isPreferred_of_firstCandidate (.refl _) isFirst
    refine .inr ⟨leader, isHealthy, least, ?_⟩
    intro reordered sameNodes
    have elected :=
      distinct.firstCandidate_eq (healthyNodes_perm sameNodes) isHealthy least
    rw [healthyNodes] at elected
    rw [electLeader, elected]

/-- Two nodes that only their versions tell apart, one with a part missing. -/
def twoVersions : ClusterManager :=
  let node (nodeId version : String) : NodeInfo :=
    {
      nodeId := nodeId
      address := ""
      status := .online
      lastHeartbeat := 0
      shardCount := 1
      seriesCount := 0
      isLeader := false
      version := version
    }
  {
    config := ⟨0⟩
    nodes := ((∅ : NodeTable).insert "a" (node "a" "1.x")).insert "b"
      (node "b" "1.0")
    leaderId := none
    timeoutCounts := ∅
  }

/-- Among two nodes there is a least one, which is elected in any order. -/
theorem electLeader_least_twoVersions :
    twoVersions.DistinctIds ∧
      ∃ leader ∈ twoVersions.healthyNodes,
        ∀ reordered : ClusterManager,
          reordered.nodes.entries.Perm twoVersions.nodes.entries →
            reordered.electLeader = reordered.lead leader.nodeId := by
  have distinct : twoVersions.DistinctIds := by
    rw [DistinctIds]
    decide
  refine ⟨distinct, ?_⟩
  obtain ⟨_, _, isEmpty | ⟨leader, isHealthy, _, elected⟩⟩ :=
    electLeader_least twoVersions distinct
  · cases isEmpty
  · exact ⟨leader, isHealthy, elected⟩

end ClusterManager

end ChronoDB.Distributed
