import ChronoDB.Distributed.ClusterManager

namespace ChronoDB.Distributed

open Library List FiniteMap

/-!
# The leader and the flags of the nodes

The manager names a leader in one place and flags it in another.  Elections set
both; nodes that come from elsewhere bring their own flags, and the task that
drops silent nodes clears the leader only when it was online to the last.
-/

namespace NodeTable

variable {nodes : NodeTable} {nodeId : String} {node : NodeInfo}

theorem mem_entries_iff :
    (⟨nodeId, node⟩ : (_ : String) × NodeInfo) ∈ nodes.entries ↔
      nodes.lookup nodeId = some node := by
  rw [← Option.mem_def, AList.mem_lookup_iff]

theorem mem_values_iff :
    node ∈ nodes.values ↔ ∃ nodeId, nodes.lookup nodeId = some node := by
  constructor
  · intro member
    obtain ⟨⟨nodeId, _⟩, isEntry, rfl⟩ := mem_map.mp member
    exact ⟨nodeId, mem_entries_iff.mp isEntry⟩
  · rintro ⟨nodeId, found⟩
    exact mem_map.mpr ⟨⟨nodeId, node⟩, mem_entries_iff.mpr found, rfl⟩

theorem lookup_without (removed : List String) :
    (nodes.without removed).lookup nodeId =
      if nodeId ∈ removed then none else nodes.lookup nodeId := by
  induction removed generalizing nodes with
  | nil => rfl
  | cons first rest inductionHypothesis =>
    rw [without, foldl_cons]
    refine inductionHypothesis.trans ?_
    by_cases isFirst : nodeId = first
    · subst isFirst
      simp
    · simp [AList.lookup_erase_ne isFirst, isFirst]

theorem erase_markOffline :
    AList.erase nodeId (nodes.markOffline nodeId) = nodes.erase nodeId := by
  rw [markOffline]
  split
  · rfl
  · exact AList.ext (kerase_cons_eq rfl)

/-- Every node is listed under its own id. -/
def Keyed (nodes : NodeTable) : Prop :=
  ∀ nodeId node, nodes.lookup nodeId = some node → node.nodeId = nodeId

def HasHealthy (nodes : NodeTable) : Prop :=
  ∃ nodeId node, nodes.lookup nodeId = some node ∧ node.status.isHealthy = true

theorem Keyed.insert (keyed : Keyed nodes) (isId : node.nodeId = nodeId) :
    Keyed (AList.insert nodeId node nodes) := by
  intro other found isFound
  by_cases same : other = nodeId
  · subst same
    rw [AList.lookup_insert] at isFound
    cases isFound
    exact isId
  · rw [AList.lookup_insert_ne same] at isFound
    exact keyed other found isFound

theorem Keyed.erase (keyed : Keyed nodes) (nodeId : String) :
    Keyed (AList.erase nodeId nodes) := by
  intro other found isFound
  by_cases same : other = nodeId
  · subst same
    rw [AList.lookup_erase] at isFound
    cases isFound
  · rw [AList.lookup_erase_ne same] at isFound
    exact keyed other found isFound

theorem Keyed.mapKeyed
    (keyed : Keyed nodes) {change : String → NodeInfo → NodeInfo}
    (keepsId : ∀ nodeId node, (change nodeId node).nodeId = node.nodeId) :
    Keyed (mapKeyed change nodes) := by
  intro nodeId found isFound
  rw [lookup_mapKeyed] at isFound
  obtain ⟨node, isNode, rfl⟩ := Option.map_eq_some_iff.mp isFound
  rw [keepsId]
  exact keyed nodeId node isNode

end NodeTable

/-!
## Consistent bookkeeping
-/

structure LeaderConsistent (manager : ClusterManager) : Prop where
  named : ∀ leader, manager.leaderId = some leader → leader ∈ manager.nodes
  flagged :
    ∀ nodeId node, manager.nodes.lookup nodeId = some node →
      (node.isLeader = true ↔ manager.leaderId = some nodeId)

/--
A step ends with consistent bookkeeping, and a leader that it removes is cleared
or replaced when a healthy node remains.
-/
def KeepsOffice (before after : ClusterManager) : Prop :=
  LeaderConsistent after ∧
    ∀ leader, before.leaderId = some leader →
      leader ∉ after.nodes → NodeTable.HasHealthy after.nodes →
        after.leaderId ≠ some leader

namespace ClusterManager

variable
  {manager before after : ClusterManager}
  {nodeId leader : String}
  {node info : NodeInfo}

/-- When an operation leaves the bookkeeping of the leader consistent. -/
def KeepsLeader (manager : ClusterManager) : ClusterOperation → Prop
  | .registerNode info =>
    (info.isLeader = true ↔ manager.leaderId = some info.nodeId) ∨
      manager.leaderId = none ∧
        NodeTable.HasHealthy (manager.nodes.insert info.nodeId info)
  | .triggerFailoverSwitch failedNode =>
    manager.leaderId = some failedNode → NodeTable.HasHealthy manager.nodes
  | .performDiscovery status =>
    ∀ node ∈ status.nodes, node.nodeId ∉ manager.nodes →
      ¬(status.isCoordinator = true ∧ status.nodeId = node.nodeId)
  | .tick now =>
    ∀ leader node, manager.leaderId = some leader →
      manager.nodes.lookup leader = some node →
        node.status ≠ .online →
          (manager.visitNode now leader node).event ≠ .failed
  | _ => True

/-!
## Elections
-/

theorem leaderConsistent_lead (isNode : leader ∈ manager.nodes) :
    LeaderConsistent (manager.lead leader) := by
  constructor
  · intro other isLeader
    cases isLeader
    rw [AList.mem_keys, lead, keys_mapKeyed]
    exact isNode
  · intro nodeId node found
    rw [lead, lookup_mapKeyed] at found
    obtain ⟨old, _, rfl⟩ := Option.map_eq_some_iff.mp found
    rw [decide_eq_true_iff, lead]
    exact ⟨fun same => congrArg some same.symm,
      fun same => (Option.some.inj same).symm⟩

theorem electLeader_cases (keyed : NodeTable.Keyed manager.nodes) :
    ¬NodeTable.HasHealthy manager.nodes ∧ manager.electLeader = manager ∨
      NodeTable.HasHealthy manager.nodes ∧
        ∃ leader ∈ manager.nodes,
          manager.electLeader = manager.lead leader := by
  rw [electLeader]
  obtain ⟨isEmpty, none⟩ | ⟨candidate, isCandidate, isFirst⟩ :=
    firstCandidate_cases
      (manager.nodes.values.filter fun node => node.status.isHealthy)
  · refine .inl ⟨?_, by rw [none]⟩
    rintro ⟨nodeId, node, found, isHealthy⟩
    have member :
        node ∈ manager.nodes.values.filter fun node =>
          node.status.isHealthy :=
      mem_filter.mpr ⟨NodeTable.mem_values_iff.mpr ⟨nodeId, found⟩, isHealthy⟩
    rw [isEmpty] at member
    cases member
  · obtain ⟨isValue, isHealthy⟩ := mem_filter.mp isCandidate
    obtain ⟨nodeId, found⟩ := NodeTable.mem_values_iff.mp isValue
    have isId := keyed nodeId candidate found
    refine .inr ⟨⟨nodeId, candidate, found, isHealthy⟩, nodeId,
      mem_of_lookup found, ?_⟩
    rw [isFirst]
    dsimp only
    rw [isId]

theorem keyed_electLeader (keyed : NodeTable.Keyed manager.nodes) :
    NodeTable.Keyed manager.electLeader.nodes := by
  obtain ⟨_, same⟩ | ⟨_, leader, _, elected⟩ := electLeader_cases keyed
  · rw [same]
    exact keyed
  · rw [elected]
    exact keyed.mapKeyed fun _ _ => rfl

theorem leaderConsistent_electLeader_iff (keyed : NodeTable.Keyed manager.nodes)
    (noLeader : manager.leaderId = none) :
    LeaderConsistent manager.electLeader ↔
      NodeTable.HasHealthy manager.nodes ∨
        ∀ nodeId node, manager.nodes.lookup nodeId = some node →
          node.isLeader = false := by
  obtain ⟨noHealthy, same⟩ | ⟨isHealthy, leader, isNode, elected⟩ :=
    electLeader_cases keyed
  · rw [same]
    constructor
    · intro consistent
      refine .inr fun nodeId node found => ?_
      have flagged := consistent.flagged nodeId node found
      rw [noLeader] at flagged
      simpa using flagged
    · rintro (isHealthy | noFlag)
      · exact absurd isHealthy noHealthy
      · constructor
        · intro leader isLeader
          rw [noLeader] at isLeader
          cases isLeader
        · intro nodeId node found
          rw [noLeader, noFlag nodeId node found]
          simp
  · rw [elected]
    exact iff_of_true (leaderConsistent_lead isNode) (.inl isHealthy)

/-!
## Operations
-/

theorem noFlag_erase (consistent : LeaderConsistent manager)
    (isLeader : manager.leaderId = some leader) {nodeId : String}
    {node : NodeInfo}
    (found : AList.lookup nodeId (manager.nodes.erase leader) = some node) :
    node.isLeader = false := by
  by_cases same : nodeId = leader
  · subst same
    rw [AList.lookup_erase] at found
    cases found
  · rw [AList.lookup_erase_ne same] at found
    have flagged := consistent.flagged nodeId node found
    rw [isLeader] at flagged
    rw [Bool.eq_false_iff]
    intro isFlagged
    exact same (Option.some.inj (flagged.mp isFlagged)).symm

theorem leaderConsistent_removeNode (keyed : NodeTable.Keyed manager.nodes)
    (consistent : LeaderConsistent manager) (nodeId : String) :
    LeaderConsistent (manager.removeNode nodeId) ∧
      NodeTable.Keyed (manager.removeNode nodeId).nodes := by
  have keyedAfter := keyed.erase nodeId
  rw [removeNode, replaceLeader]
  split
  · rename_i isLeader
    refine ⟨?_, keyed_electLeader keyedAfter⟩
    rw [leaderConsistent_electLeader_iff keyedAfter rfl]
    exact .inr fun other node found =>
      noFlag_erase consistent isLeader found
  · rename_i notLeader
    refine ⟨⟨?_, ?_⟩, keyedAfter⟩
    · intro leader isLeader
      rw [AList.mem_erase]
      refine ⟨?_, consistent.named leader isLeader⟩
      rintro rfl
      exact notLeader isLeader
    · intro other node found
      by_cases same : other = nodeId
      · subst same
        rw [AList.lookup_erase] at found
        cases found
      · rw [AList.lookup_erase_ne same] at found
        exact consistent.flagged other node found

theorem mem_electLeader (manager : ClusterManager) :
    nodeId ∈ manager.electLeader.nodes ↔ nodeId ∈ manager.nodes := by
  rw [electLeader]
  split
  · exact Iff.rfl
  · rw [lead, AList.mem_keys, AList.mem_keys, keys_mapKeyed]

theorem notMem_removeNode : nodeId ∉ (manager.removeNode nodeId).nodes := by
  intro isNode
  rw [removeNode, replaceLeader] at isNode
  split at isNode
  · rw [mem_electLeader, AList.mem_erase] at isNode
    exact isNode.1 rfl
  · rw [AList.mem_erase] at isNode
    exact isNode.1 rfl

theorem handleNodeFailure_eq (keyed : NodeTable.Keyed manager.nodes)
    (consistent : LeaderConsistent manager) (nodeId : String) :
    (manager.handleNodeFailure nodeId).1 = manager.removeNode nodeId := by
  have replaced := leaderConsistent_removeNode keyed consistent nodeId
  have notLeader : (manager.removeNode nodeId).leaderId ≠ some nodeId :=
    fun isLeader =>
      notMem_removeNode (replaced.1.named nodeId isLeader)
  rw [handleNodeFailure, NodeTable.erase_markOffline, triggerFailover]
  split
  · rfl
  · -- the failover finds the leader replaced already
    rw [replaceLeader]
    exact if_neg notLeader

/-- A registered node keeps the bookkeeping when its flag fits the leader. -/
theorem leaderConsistent_registerNode_iff
    (keyed : NodeTable.Keyed manager.nodes)
    (consistent : LeaderConsistent manager) (info : NodeInfo) :
    (LeaderConsistent (manager.registerNode info) ↔
        KeepsLeader manager (.registerNode info)) ∧
      NodeTable.Keyed (manager.registerNode info).nodes := by
  have keyedAfter : NodeTable.Keyed (manager.nodes.insert info.nodeId info) :=
    keyed.insert rfl
  have flaggedBefore :
      ∀ nodeId node, nodeId ≠ info.nodeId →
        AList.lookup nodeId (manager.nodes.insert info.nodeId info) =
          some node →
        (node.isLeader = true ↔ manager.leaderId = some nodeId) := by
    intro nodeId node differs found
    rw [AList.lookup_insert_ne differs] at found
    exact consistent.flagged nodeId node found
  rw [registerNode, checkLeaderElection]
  dsimp only
  split
  · rename_i noLeader
    refine ⟨?_, keyed_electLeader keyedAfter⟩
    have elected :=
      @leaderConsistent_electLeader_iff
        { manager with nodes := manager.nodes.insert info.nodeId info }
        keyedAfter noLeader
    rw [elected, KeepsLeader, noLeader]
    constructor
    · rintro (isHealthy | noFlag)
      · exact .inr ⟨rfl, isHealthy⟩
      · refine .inl ?_
        rw [noFlag info.nodeId info (AList.lookup_insert _)]
        simp
    · rintro (fits | ⟨_, isHealthy⟩)
      · refine .inr fun nodeId node found => ?_
        by_cases same : nodeId = info.nodeId
        · subst same
          rw [AList.lookup_insert] at found
          cases found
          simpa using fits
        · have flagged := flaggedBefore nodeId node same found
          rw [noLeader] at flagged
          simpa using flagged
      · exact .inl isHealthy
  · rename_i hasLeader
    refine ⟨?_, keyedAfter⟩
    constructor
    · intro consistentAfter
      exact .inl
        (consistentAfter.flagged info.nodeId info (AList.lookup_insert _))
    · rintro (fits | ⟨noLeader, _⟩)
      · constructor
        · intro leader isLeader
          exact (AList.mem_insert _).mpr
            (.inr (consistent.named leader isLeader))
        · intro nodeId node found
          by_cases same : nodeId = info.nodeId
          · subst same
            rw [AList.lookup_insert] at found
            cases found
            exact fits
          · exact flaggedBefore nodeId node same found
      · exact absurd noLeader hasLeader

theorem leaderConsistent_updateHeartbeat (keyed : NodeTable.Keyed manager.nodes)
    (consistent : LeaderConsistent manager) (nodeId : String) (now : Int64) :
    LeaderConsistent (manager.updateHeartbeat nodeId now) ∧
      NodeTable.Keyed (manager.updateHeartbeat nodeId now).nodes := by
  rw [updateHeartbeat]
  split
  · exact ⟨consistent, keyed⟩
  · rename_i node isNode
    refine ⟨⟨?_, ?_⟩, keyed.insert (keyed nodeId node isNode)⟩
    · intro leader isLeader
      exact (AList.mem_insert _).mpr (.inr (consistent.named leader isLeader))
    · intro other found isFound
      by_cases same : other = nodeId
      · subst same
        rw [AList.lookup_insert] at isFound
        cases isFound
        exact consistent.flagged other node isNode
      · rw [AList.lookup_insert_ne same] at isFound
        exact consistent.flagged other found isFound

theorem leaderConsistent_triggerFailoverSwitch_iff
    (keyed : NodeTable.Keyed manager.nodes)
    (consistent : LeaderConsistent manager) (failedNode : String) :
    (LeaderConsistent (manager.triggerFailoverSwitch failedNode) ↔
        KeepsLeader manager (.triggerFailoverSwitch failedNode)) ∧
      NodeTable.Keyed (manager.triggerFailoverSwitch failedNode).nodes := by
  have isLeaderIff :
      manager.getLeader.map NodeInfo.nodeId = some failedNode ↔
        manager.leaderId = some failedNode := by
    rw [getLeader]
    cases isLeader : manager.leaderId with
    | none => simp
    | some leader =>
      obtain ⟨node, found⟩ :=
        exists_lookup (consistent.named leader isLeader)
      rw [Option.bind_some, found, Option.map_some, keyed leader node found]
  rw [triggerFailoverSwitch, KeepsLeader]
  by_cases isLeader : manager.leaderId = some failedNode
  · rw [if_pos (isLeaderIff.mpr isLeader)]
    refine ⟨?_, keyed_electLeader keyed⟩
    have cleared :=
      @leaderConsistent_electLeader_iff
        { manager with leaderId := none } keyed rfl
    rw [cleared]
    constructor
    · rintro (isHealthy | noFlag) _
      · exact isHealthy
      · obtain ⟨node, found⟩ :=
          exists_lookup (consistent.named failedNode isLeader)
        have isFlagged :=
          (consistent.flagged failedNode node found).mpr isLeader
        rw [noFlag failedNode node found] at isFlagged
        cases isFlagged
    · intro remains
      exact .inl (remains isLeader)
  · rw [if_neg fun found => isLeader (isLeaderIff.mp found)]
    exact ⟨iff_of_true consistent fun same => absurd same isLeader, keyed⟩

/-!
## Discovery
-/

theorem lookup_foldl_discover
    (status : ClusterStatus) (told : List RemoteNode) (nodes : NodeTable) :
    (told.foldl (discover status) nodes).lookup nodeId =
      if nodeId ∈ nodes then nodes.lookup nodeId
      else (told.find? fun node => node.nodeId = nodeId).map
        status.discovered := by
  induction told generalizing nodes with
  | nil =>
    rw [foldl_nil]
    split
    · rfl
    · rename_i unknown
      exact AList.lookup_eq_none.mpr unknown
  | cons first rest inductionHypothesis =>
    rw [foldl_cons, inductionHypothesis, discover]
    by_cases isKnown : first.nodeId ∈ nodes
    · rw [if_pos isKnown]
      split
      · rfl
      · rename_i unknown
        have differs : first.nodeId ≠ nodeId := by
          rintro rfl
          exact unknown isKnown
        rw [find?_cons_of_neg (by simpa using differs)]
    · rw [if_neg isKnown]
      by_cases same : nodeId = first.nodeId
      · subst same
        rw [if_pos ((AList.mem_insert _).mpr (.inl rfl)),
          AList.lookup_insert, if_neg isKnown]
        simp
      · have found :
            nodeId ∈ nodes.insert first.nodeId (status.discovered first) ↔
              nodeId ∈ nodes := by
          rw [AList.mem_insert]
          exact or_iff_right same
        simp only [found, AList.lookup_insert_ne same]
        rw [find?_cons_of_neg (by simpa using Ne.symm same)]

theorem keyed_performDiscovery
    (keyed : NodeTable.Keyed manager.nodes) (status : ClusterStatus) :
    NodeTable.Keyed (manager.performDiscovery status).nodes := by
  intro nodeId node found
  rw [performDiscovery, lookup_foldl_discover] at found
  split at found
  · exact keyed nodeId node found
  · obtain ⟨told, isTold, rfl⟩ := Option.map_eq_some_iff.mp found
    have isId := find?_some isTold
    exact of_decide_eq_true isId

theorem leaderConsistent_performDiscovery_iff
    (consistent : LeaderConsistent manager) (status : ClusterStatus) :
    LeaderConsistent (manager.performDiscovery status) ↔
      KeepsLeader manager (.performDiscovery status) := by
  constructor
  · rintro consistentAfter node isTold unknown ⟨isCoordinator, isNode⟩
    have isFirst :
        ((status.nodes.find? fun other =>
          other.nodeId = node.nodeId)).isSome := by
      rw [find?_isSome]
      exact ⟨node, isTold, decide_eq_true rfl⟩
    obtain ⟨first, isFirst⟩ := Option.isSome_iff_exists.mp isFirst
    have sameId := find?_some isFirst
    have sameId : first.nodeId = node.nodeId := of_decide_eq_true sameId
    have found :
        (manager.performDiscovery status).nodes.lookup node.nodeId =
          some (status.discovered first) := by
      rw [performDiscovery, lookup_foldl_discover, if_neg unknown, isFirst]
      rfl
    have isFlagged : (status.discovered first).isLeader = true := by
      rw [ClusterStatus.discovered]
      simp [isCoordinator, isNode, sameId]
    have isLeader := (consistentAfter.flagged node.nodeId _ found).mp isFlagged
    exact unknown (consistent.named node.nodeId isLeader)
  · intro noCoordinator
    constructor
    · intro leader isLeader
      obtain ⟨node, found⟩ :=
        exists_lookup (consistent.named leader isLeader)
      have foundAfter :
          (manager.performDiscovery status).nodes.lookup leader =
            some node := by
        rw [performDiscovery, lookup_foldl_discover,
          if_pos (consistent.named leader isLeader), found]
      exact mem_of_lookup foundAfter
    · intro nodeId node found
      rw [performDiscovery, lookup_foldl_discover] at found
      split at found
      · exact consistent.flagged nodeId node found
      · rename_i unknown
        obtain ⟨told, isTold, rfl⟩ := Option.map_eq_some_iff.mp found
        have isId := find?_some isTold
        have isId : told.nodeId = nodeId := of_decide_eq_true isId
        have notFlagged :=
          noCoordinator told (mem_of_find?_eq_some isTold)
            (by rw [isId]; exact unknown)
        constructor
        · intro isFlagged
          rw [ClusterStatus.discovered] at isFlagged
          exact absurd (by simpa using isFlagged) notFlagged
        · intro isLeader
          exact absurd (consistent.named nodeId isLeader) unknown

/-!
## Ticks
-/

theorem mem_idsOf_iff (happens : String → NodeInfo → Bool) :
    nodeId ∈ manager.idsOf happens ↔
      ∃ node, manager.nodes.lookup nodeId = some node ∧
        happens nodeId node = true := by
  rw [idsOf, mem_map]
  constructor
  · rintro ⟨⟨_, node⟩, member, rfl⟩
    obtain ⟨isEntry, isHappening⟩ := mem_filter.mp member
    exact ⟨node, NodeTable.mem_entries_iff.mp isEntry, isHappening⟩
  · rintro ⟨node, found, isHappening⟩
    exact ⟨⟨nodeId, node⟩, mem_filter.mpr
      ⟨NodeTable.mem_entries_iff.mpr found, isHappening⟩, rfl⟩

theorem lookup_tick (now : Int64) :
    (manager.tick now).1.nodes.lookup nodeId =
      (manager.nodes.lookup nodeId).bind fun node =>
        if (manager.visitNode now nodeId node).event = .failed then none
        else some { node with
          status := (manager.visitNode now nodeId node).status } := by
  rw [tick]
  dsimp only
  rw [NodeTable.lookup_without, lookup_mapKeyed]
  cases found : manager.nodes.lookup nodeId with
  | none => split <;> rfl
  | some node =>
    rw [Option.bind_some, Option.map_some]
    refine if_congr ?_ rfl rfl
    rw [mem_idsOf_iff, found]
    constructor
    · rintro ⟨_, isNode, failed⟩
      cases isNode
      exact of_decide_eq_true failed
    · intro failed
      exact ⟨node, rfl, decide_eq_true failed⟩

theorem leaderTimedOut_iff
    (consistent : LeaderConsistent manager) (now : Int64) :
    manager.leaderTimedOut now = true ↔
      ∃ leader node, manager.leaderId = some leader ∧
        manager.nodes.lookup leader = some node ∧
        node.status = .online ∧
        (manager.visitNode now leader node).event = .failed := by
  rw [leaderTimedOut, any_eq_true]
  constructor
  · rintro ⟨⟨nodeId, node⟩, isEntry, timedOut⟩
    have found := NodeTable.mem_entries_iff.mp isEntry
    simp only [Bool.and_eq_true, decide_eq_true_iff] at timedOut
    obtain ⟨⟨failed, isOnline⟩, isFlagged⟩ := timedOut
    exact ⟨nodeId, node,
      (consistent.flagged nodeId node found).mp isFlagged, found, isOnline,
      failed⟩
  · rintro ⟨leader, node, isLeader, found, isOnline, failed⟩
    refine ⟨⟨leader, node⟩, NodeTable.mem_entries_iff.mpr found, ?_⟩
    have isFlagged := (consistent.flagged leader node found).mpr isLeader
    simp [failed, isOnline, isFlagged]

/-- A tick keeps the bookkeeping when no leader fails that was not online. -/
theorem leaderConsistent_tick_iff (keyed : NodeTable.Keyed manager.nodes)
    (consistent : LeaderConsistent manager) (now : Int64) :
    (LeaderConsistent (manager.tick now).1 ↔ KeepsLeader manager (.tick now)) ∧
      NodeTable.Keyed (manager.tick now).1.nodes := by
  have leaderAfter :
      (manager.tick now).1.leaderId =
        if manager.leaderTimedOut now then none else manager.leaderId :=
    rfl
  constructor
  · constructor
    · intro consistentAfter leader node isLeader found notOnline failed
      have notNoticed : ¬manager.leaderTimedOut now = true := by
        rw [leaderTimedOut_iff consistent]
        rintro ⟨other, otherNode, isOther, foundOther, isOnline, _⟩
        rw [isLeader] at isOther
        cases isOther
        rw [found] at foundOther
        cases foundOther
        exact notOnline isOnline
      rw [if_neg notNoticed] at leaderAfter
      obtain ⟨kept, isKept⟩ := exists_lookup
        (consistentAfter.named leader (leaderAfter.trans isLeader))
      rw [lookup_tick, found, Option.bind_some, if_pos failed] at isKept
      cases isKept
    · intro noticed
      constructor
      · intro leader isLeader
        rw [leaderAfter] at isLeader
        split at isLeader
        · cases isLeader
        · rename_i notNoticed
          obtain ⟨node, found⟩ :=
            exists_lookup (consistent.named leader isLeader)
          have notFailed :
              (manager.visitNode now leader node).event ≠ .failed := by
            intro failed
            by_cases isOnline : node.status = .online
            · exact notNoticed ((leaderTimedOut_iff consistent now).mpr
                ⟨leader, node, isLeader, found, isOnline, failed⟩)
            · exact noticed leader node isLeader found isOnline failed
          have isKept :
              (manager.tick now).1.nodes.lookup leader =
                some { node with
                  status := (manager.visitNode now leader node).status } := by
            rw [lookup_tick, found, Option.bind_some, if_neg notFailed]
          exact mem_of_lookup isKept
      · intro nodeId after isAfter
        rw [lookup_tick] at isAfter
        obtain ⟨node, found, isAfter⟩ := Option.bind_eq_some_iff.mp isAfter
        split at isAfter
        · cases isAfter
        · rename_i notFailed
          cases isAfter
          rw [leaderAfter]
          refine (consistent.flagged nodeId node found).trans ?_
          split
          · rename_i isNoticed
            obtain ⟨leader, leaderNode, isLeader, foundLeader, _, failed⟩ :=
              (leaderTimedOut_iff consistent now).mp isNoticed
            refine iff_of_false ?_ (by simp)
            intro isNode
            rw [isLeader] at isNode
            cases isNode
            rw [found] at foundLeader
            cases foundLeader
            exact notFailed failed
          · exact Iff.rfl
  · intro nodeId after isAfter
    rw [lookup_tick] at isAfter
    obtain ⟨node, found, isAfter⟩ := Option.bind_eq_some_iff.mp isAfter
    split at isAfter
    · cases isAfter
    · cases isAfter
      exact keyed nodeId node found

/-!
## Runs
-/

def LeaderStep (before : ClusterManager) (operation : ClusterOperation)
    (after : ClusterManager) :
    Prop :=
  after = before.apply operation

theorem leaderConsistent_iff_of_step
    {operation : ClusterOperation} (keyed : NodeTable.Keyed before.nodes)
    (consistent : LeaderConsistent before)
    (taken : LeaderStep before operation after) :
    NodeTable.Keyed after.nodes ∧
      (LeaderConsistent after ↔ KeepsLeader before operation) := by
  rw [LeaderStep] at taken
  subst taken
  cases operation with
  | registerNode info =>
    exact (leaderConsistent_registerNode_iff keyed consistent info).symm
  | updateHeartbeat nodeId now =>
    have kept := leaderConsistent_updateHeartbeat keyed consistent nodeId now
    exact ⟨kept.2, iff_of_true kept.1 trivial⟩
  | removeNode nodeId =>
    have kept := leaderConsistent_removeNode keyed consistent nodeId
    exact ⟨kept.2, iff_of_true kept.1 trivial⟩
  | handleNodeFailure nodeId =>
    have kept := leaderConsistent_removeNode keyed consistent nodeId
    rw [← handleNodeFailure_eq keyed consistent] at kept
    exact ⟨kept.2, iff_of_true kept.1 trivial⟩
  | triggerFailoverSwitch failedNode =>
    exact (leaderConsistent_triggerFailoverSwitch_iff keyed consistent
      failedNode).symm
  | performDiscovery status =>
    exact ⟨keyed_performDiscovery keyed status,
      leaderConsistent_performDiscovery_iff consistent status⟩
  | tick now => exact (leaderConsistent_tick_iff keyed consistent now).symm

theorem keepsOffice_iff (before after : ClusterManager) :
    KeepsOffice before after ↔ LeaderConsistent after := by
  refine and_iff_left_of_imp fun consistent leader _ removed _ isLeader => ?_
  exact removed (consistent.named leader isLeader)

theorem leaderConsistent_new (config : ClusterConfig) :
    LeaderConsistent (new config) := by
  constructor
  · intro leader isLeader
    cases isLeader
  · intro nodeId node found
    cases found

/--
In every run each operation keeps the bookkeeping of the leader exactly when all
of them meet their conditions.
-/
theorem keepsOffice_always_iff {config : ClusterConfig}
    {operations : List ClusterOperation} {final : ClusterManager}
    (run : Run LeaderStep (new config) operations final) :
    (∀ passed operation remaining before after,
        operations = passed ++ operation :: remaining →
          Run LeaderStep (new config) passed before →
          LeaderStep before operation after →
          KeepsOffice before after) ↔
      Run (Restrict LeaderStep KeepsLeader) (new config) operations final := by
  refine @Run.steps_iff_restrict _ _ LeaderStep KeepsLeader
    (fun manager => NodeTable.Keyed manager.nodes) LeaderConsistent
    KeepsOffice _ _ _ run ?_ ?_ (leaderConsistent_new config) ?_
  · intro before operation after other taken otherTaken
    exact taken.trans otherTaken.symm
  · intro nodeId node found
    cases found
  · intro before operation after keyed consistent taken
    obtain ⟨keyedAfter, keepsIff⟩ :=
      leaderConsistent_iff_of_step keyed consistent taken
    exact ⟨keyedAfter, (keepsOffice_iff before after).trans keepsIff, And.left⟩

/-!
## A leader that leaves
-/

theorem leaderStep_apply
    (manager : ClusterManager) (operation : ClusterOperation) :
    LeaderStep manager operation (manager.apply operation) :=
  rfl

def oneSecond : ClusterConfig where
  nodeTimeoutMs := 1000

/-- A node that was last heard of at some time. -/
def nodeNamed (nodeId : String) (lastHeartbeat : Int64) : NodeInfo where
  nodeId := nodeId
  address := ""
  status := .online
  lastHeartbeat := lastHeartbeat
  shardCount := 0
  seriesCount := 0
  isLeader := false
  version := "1.0.0"

/-- The leader is removed, and another node takes its place. -/
def leaderRemoved : List ClusterOperation :=
  [.registerNode (nodeNamed "a" 0), .registerNode (nodeNamed "b" 0),
    .updateHeartbeat "b" 500, .removeNode "a"]

def leaderSilent : List ClusterOperation :=
  [.registerNode (nodeNamed "a" 0), .registerNode (nodeNamed "b" 9000),
    .tick 2000, .tick 3000, .tick 4000]

/-- The bookkeeping is kept while a leader is removed and replaced. -/
theorem leaderRemoved_keeps_office :
    ∃ final,
      Run LeaderStep (new oneSecond) leaderRemoved final ∧
        final.leaderId = some "b" ∧
        ∀ passed operation remaining before after,
          leaderRemoved = passed ++ operation :: remaining →
            Run LeaderStep (new oneSecond) passed before →
            LeaderStep before operation after →
            KeepsOffice before after := by
  refine ⟨_, Run.ofFoldl leaderStep_apply _ _, by decide,
    (keepsOffice_always_iff (Run.ofFoldl leaderStep_apply _ _)).mpr ?_⟩
  refine .cons ⟨.inl ?_, rfl⟩ (.cons ⟨.inl ?_, rfl⟩
    (.cons ⟨trivial, rfl⟩ (.cons ⟨trivial, rfl⟩ (.nil _))))
  · decide
  · decide

/-- A silent leader is dropped, and still named. -/
theorem leaderSilent_still_named :
    ∃ final,
      Run LeaderStep (new oneSecond) leaderSilent final ∧
        final.leaderId = some "a" ∧ "a" ∉ final.nodes ∧
        (final.nodes.lookup "b").map NodeInfo.status = some .online ∧
        ¬LeaderConsistent final := by
  have absent : "a" ∉ (leaderSilent.foldl apply (new oneSecond)).nodes := by
    decide
  refine ⟨leaderSilent.foldl apply (new oneSecond),
    Run.ofFoldl leaderStep_apply leaderSilent _, by decide, absent,
    by decide, ?_⟩
  intro consistent
  exact absent (consistent.named "a" (by decide))

end ClusterManager

end ChronoDB.Distributed
