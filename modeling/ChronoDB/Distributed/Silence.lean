import ChronoDB.Distributed.LeaderBookkeeping

namespace ChronoDB.Distributed

open Library ClusterManager

/-!
# Silent nodes

A node is to be dropped when it was silent at three ticks in a row.  The count of
its timeouts is forgotten when it recovers from a suspicion, but not when a
heartbeat makes it online before a tick has seen it in time.
-/

/-- What there is to know of the past: heartbeats, and ticks with their nodes. -/
inductive HeartbeatEvent where
  | heartbeat (nodeId : String)
  | tick (now : Int64) (nodes : NodeTable)

def IsSilent (timeoutMs : UInt64) (now : Int64) (node : NodeInfo) : Prop :=
  (timeoutMs.toNat : ℤ) < now.toInt - node.lastHeartbeat.toInt

instance (timeoutMs : UInt64) (now : Int64) (node : NodeInfo) :
    Decidable (IsSilent timeoutMs now node) :=
  inferInstanceAs (Decidable (_ < _))

def SilentIn
    (timeoutMs : UInt64) (now : Int64) (nodes : NodeTable) (nodeId : String) :
    Prop :=
  ∃ node ∈ nodes.lookup nodeId, IsSilent timeoutMs now node

instance
    (timeoutMs : UInt64) (now : Int64) (nodes : NodeTable) (nodeId : String) :
    Decidable (SilentIn timeoutMs now nodes nodeId) :=
  decidable_of_iff
    ((nodes.lookup nodeId).any fun node => IsSilent timeoutMs now node)
    (by simp [SilentIn, Option.any_eq_true])

/--
The number of last ticks, in a row and with no heartbeat after the first of
them, at which a node was silent.  The newest event comes first.
-/
def silentTicks (timeoutMs : UInt64) (nodeId : String) :
    List HeartbeatEvent → ℕ
  | [] => 0
  | .heartbeat other :: earlier =>
    if other = nodeId then 0 else silentTicks timeoutMs nodeId earlier
  | .tick now nodes :: earlier =>
    if SilentIn timeoutMs now nodes nodeId then
      silentTicks timeoutMs nodeId earlier + 1
    else 0

/-- A manager with its past. -/
structure HeartbeatRun where
  manager : ClusterManager
  events : List HeartbeatEvent

inductive HeartbeatOperation where
  | registerNode (info : NodeInfo)
  | updateHeartbeat (nodeId : String) (now : Int64)
  | tick (now : Int64)
  deriving Repr, DecidableEq

namespace HeartbeatRun

def new (config : ClusterConfig) : HeartbeatRun where
  manager := .new config
  events := []

def next (run : HeartbeatRun) : HeartbeatOperation → HeartbeatRun
  | .registerNode info => { run with manager := run.manager.registerNode info }
  | .updateHeartbeat nodeId now =>
    {
      manager := run.manager.updateHeartbeat nodeId now
      events := .heartbeat nodeId :: run.events
    }
  | .tick now =>
    {
      manager := (run.manager.tick now).1
      events := .tick now run.manager.nodes :: run.events
    }

def Step (before : HeartbeatRun) (operation : HeartbeatOperation)
    (after : HeartbeatRun) :
    Prop :=
  after = before.next operation

/-- How often in a row a node was silent up to now. -/
def silence (run : HeartbeatRun) (nodeId : String) : ℕ :=
  silentTicks run.manager.config.nodeTimeoutMs nodeId run.events

/--
A node that a tick removes or marks as offline was silent at the last three
ticks, with no heartbeat between them.
-/
def DropsOnlySilent (before after : HeartbeatRun) : Prop :=
  ∀ nodeId node, before.manager.nodes.lookup nodeId = some node →
    (after.manager.nodes.lookup nodeId = none ∨
      node.status ≠ .offline ∧
        (after.manager.nodes.lookup nodeId).map NodeInfo.status =
          some .offline) →
      3 ≤ after.silence nodeId

/--
A heartbeat comes from a node without timeouts, and a tick leaves no timeouts
counted for a node that is not silent.
-/
def KeepsCounts (run : HeartbeatRun) : HeartbeatOperation → Prop
  | .registerNode _ => True
  | .updateHeartbeat nodeId _ => run.manager.timeoutCount nodeId = 0
  | .tick now =>
    ∀ nodeId node, run.manager.nodes.lookup nodeId = some node →
      ¬IsSilent run.manager.config.nodeTimeoutMs now node →
        ¬ClusterManager.OlderThan run.manager.config.nodeTimeoutMs now node ∧
          (run.manager.timeoutCount nodeId = 0 ∨
            node.status = .suspect ∨
            node.status = .degraded ∧
              ¬ClusterManager.OlderThan
                (run.manager.config.nodeTimeoutMs / 2) now node)

end HeartbeatRun

/-!
## Counts after a tick
-/

namespace ClusterManager

variable
  {manager : ClusterManager}
  {nodeId : String}
  {node : NodeInfo}
  {now : Int64}

theorem lookup_foldl_nextCount
    (entries : List ((_ : String) × NodeInfo)) (distinct : entries.NodupKeys)
    (counts : FiniteMap String ℕ) :
    (entries.foldl (manager.nextCount now) counts).lookup nodeId =
      (entries.dlookup nodeId).elim (counts.lookup nodeId) fun node =>
        let visited := manager.visitNode now nodeId node
        if visited.event = .failed ∨ visited.event = .recovered then none
        else some visited.timeoutCount := by
  induction entries generalizing counts with
  | nil => rfl
  | cons entry rest inductionHypothesis =>
    obtain ⟨own, node⟩ := entry
    obtain ⟨notLater, distinctRest⟩ := List.nodupKeys_cons.mp distinct
    rw [List.foldl_cons, inductionHypothesis distinctRest]
    by_cases same : nodeId = own
    · subst same
      rw [List.dlookup_eq_none.mpr notLater, List.dlookup_cons_eq,
        Option.elim_none, Option.elim_some, nextCount]
      dsimp only
      cases isEvent : (manager.visitNode now nodeId node).event with
      | failed => simp
      | recovered => simp
      | unchanged => simp
      | degraded => simp
    · rw [List.dlookup_cons_ne _ _ same]
      congr 1
      rw [nextCount]
      dsimp only
      split
      · exact AList.lookup_erase_ne same
      · exact AList.lookup_erase_ne same
      · exact AList.lookup_insert_ne same
      · exact AList.lookup_insert_ne same

theorem timeoutCount_tick (found : manager.nodes.lookup nodeId = some node) :
    (manager.tick now).1.timeoutCount nodeId =
      if (manager.visitNode now nodeId node).event = .failed ∨
          (manager.visitNode now nodeId node).event = .recovered then 0
      else (manager.visitNode now nodeId node).timeoutCount := by
  have isFound : manager.nodes.entries.dlookup nodeId = some node := found
  rw [timeoutCount, tick]
  dsimp only
  rw [lookup_foldl_nextCount _ manager.nodes.nodupKeys, isFound,
    Option.elim_some]
  dsimp only
  split <;> rfl

theorem timeoutCount_tick_of_absent
    (absent : manager.nodes.lookup nodeId = none) :
    (manager.tick now).1.timeoutCount nodeId = manager.timeoutCount nodeId := by
  have isAbsent : manager.nodes.entries.dlookup nodeId = none := absent
  rw [timeoutCount, tick]
  dsimp only
  rw [lookup_foldl_nextCount _ manager.nodes.nodupKeys, isAbsent]
  rfl

theorem visit_cases
    (config : ClusterConfig) (now : Int64) (node : NodeInfo) (count : ℕ) :
    node.status = .offline ∧
        visit config now node count = ⟨.offline, count, .unchanged⟩ ∨
      OlderThan config.nodeTimeoutMs now node ∧
        visit config now node count = timedOut count ∨
      (node.status = .suspect ∨
          node.status = .degraded ∧
            ¬OlderThan (config.nodeTimeoutMs / 2) now node) ∧
        visit config now node count = ⟨.online, 0, .recovered⟩ ∨
      (node.status = .online ∨
          node.status = .degraded ∧
            OlderThan (config.nodeTimeoutMs / 2) now node) ∧
        ∃ status event, status ≠ .offline ∧ event ≠ .failed ∧
          visit config now node count = ⟨status, count, event⟩ := by
  rw [visit]
  cases isStatus : node.status with
  | offline => exact .inl ⟨rfl, rfl⟩
  | online =>
    dsimp only
    split
    · rename_i isOld
      exact .inr (.inl ⟨isOld, rfl⟩)
    · refine .inr (.inr (.inr ⟨.inl rfl, ?_⟩))
      split
      · exact ⟨_, _, NodeStatus.noConfusion, NodeEvent.noConfusion, rfl⟩
      · exact ⟨_, _, NodeStatus.noConfusion, NodeEvent.noConfusion, rfl⟩
  | degraded =>
    dsimp only
    split
    · rename_i isOld
      exact .inr (.inl ⟨isOld, rfl⟩)
    · split
      · rename_i isDelayed
        exact .inr (.inr (.inr ⟨.inr ⟨rfl, isDelayed⟩, _, _,
          NodeStatus.noConfusion, NodeEvent.noConfusion, rfl⟩))
      · rename_i inTime
        exact .inr (.inr (.inl ⟨.inr ⟨rfl, inTime⟩, rfl⟩))
  | suspect =>
    dsimp only
    split
    · rename_i isOld
      exact .inr (.inl ⟨isOld, rfl⟩)
    · exact .inr (.inr (.inl ⟨.inl rfl, rfl⟩))

theorem timedOut_cases (count : ℕ) :
    2 ≤ count ∧ timedOut count = ⟨.offline, count + 1, .failed⟩ ∨
      timedOut count = ⟨.suspect, count + 1, .unchanged⟩ := by
  rw [timedOut]
  split
  · rename_i isLast
    exact .inl ⟨by omega, rfl⟩
  · exact .inr rfl

theorem of_visit_offline {config : ClusterConfig} {count : ℕ}
    (dropped :
      (visit config now node count).event = .failed ∨
        node.status ≠ .offline ∧
          (visit config now node count).status = .offline) :
    OlderThan config.nodeTimeoutMs now node ∧ 2 ≤ count := by
  obtain ⟨isOffline, isVisit⟩ | ⟨isOld, isVisit⟩ | ⟨_, isVisit⟩ |
    ⟨_, status, event, notOffline, notFailed, isVisit⟩ :=
      visit_cases config now node count
  · rw [isVisit] at dropped
    rcases dropped with failed | ⟨wasNot, _⟩
    · cases failed
    · exact absurd isOffline wasNot
  · refine ⟨isOld, ?_⟩
    obtain ⟨isLast, _⟩ | isSuspect := timedOut_cases count
    · exact isLast
    · rw [isVisit, isSuspect] at dropped
      rcases dropped with failed | ⟨_, isOffline⟩
      · cases failed
      · cases isOffline
  · rw [isVisit] at dropped
    rcases dropped with failed | ⟨_, isOffline⟩
    · cases failed
    · cases isOffline
  · rw [isVisit] at dropped
    rcases dropped with failed | ⟨_, isOffline⟩
    · exact absurd failed notFailed
    · exact absurd isOffline notOffline

end ClusterManager

/-!
## Counts along a run
-/

namespace HeartbeatRun

variable
  {before after : HeartbeatRun}
  {nodeId : String}
  {node : NodeInfo}
  {now : Int64}

/-- No node has more timeouts than ticks at which it was silent. -/
structure Counted (run : HeartbeatRun) : Prop where
  counted : ∀ nodeId, run.manager.timeoutCount nodeId ≤ run.silence nodeId
  absent :
    ∀ nodeId, run.manager.nodes.lookup nodeId = none →
      run.manager.timeoutCount nodeId = 0

/-- What a tick leaves counted for a node of the table. -/
theorem timeoutCount_tick_le
    (counted : Counted before) (keeps : KeepsCounts before (.tick now))
    (found : before.manager.nodes.lookup nodeId = some node) :
    (before.manager.tick now).1.timeoutCount nodeId ≤
      if IsSilent before.manager.config.nodeTimeoutMs now node then
        before.silence nodeId + 1
      else 0 := by
  have isCounted := counted.counted nodeId
  have bound :
      (before.manager.visitNode now nodeId node).timeoutCount ≤
        before.manager.timeoutCount nodeId + 1 := by
    rw [visitNode]
    obtain ⟨_, isVisit⟩ | ⟨_, isVisit⟩ | ⟨_, isVisit⟩ |
      ⟨_, _, _, _, _, isVisit⟩ :=
        visit_cases before.manager.config now node
          (before.manager.timeoutCount nodeId)
    · rw [isVisit]
      exact Nat.le_succ _
    · rw [isVisit]
      obtain ⟨_, isLast⟩ | isSuspect :=
        timedOut_cases (before.manager.timeoutCount nodeId)
      · rw [isLast]
      · rw [isSuspect]
    · rw [isVisit]
      exact Nat.zero_le _
    · rw [isVisit]
      exact Nat.le_succ _
  rw [timeoutCount_tick found]
  split
  · exact Nat.zero_le _
  · rename_i notRecovered
    split
    · omega
    · rename_i notSilent
      obtain ⟨notOld, isReset⟩ := keeps nodeId node found notSilent
      -- without a recovery the count is what it was before, which is zero
      rw [visitNode] at notRecovered ⊢
      obtain ⟨isOffline, isVisit⟩ | ⟨isOld, _⟩ | ⟨_, isVisit⟩ |
        ⟨isStatus, status, event, _, _, isVisit⟩ :=
          visit_cases before.manager.config now node
            (before.manager.timeoutCount nodeId)
      · rw [isVisit]
        obtain isZero | isSuspect | ⟨isDegraded, _⟩ := isReset
        · exact Nat.le_of_eq isZero
        · rw [isOffline] at isSuspect
          cases isSuspect
        · rw [isOffline] at isDegraded
          cases isDegraded
      · exact absurd isOld notOld
      · rw [isVisit] at notRecovered
        exact absurd (.inr rfl) notRecovered
      · rw [isVisit]
        obtain isZero | isSuspect | ⟨isDegraded, inTime⟩ := isReset
        · exact Nat.le_of_eq isZero
        · rw [isSuspect] at isStatus
          rcases isStatus with isOnline | ⟨isDegraded, _⟩
          · cases isOnline
          · cases isDegraded
        · rcases isStatus with isOnline | ⟨_, isDelayed⟩
          · rw [isDegraded] at isOnline
            cases isOnline
          · exact absurd isDelayed inTime

theorem silence_tick :
    (before.next (.tick now)).silence nodeId =
      if SilentIn before.manager.config.nodeTimeoutMs now
          before.manager.nodes nodeId then
        before.silence nodeId + 1
      else 0 :=
  rfl

theorem silentIn_iff {timeoutMs : UInt64} {nodes : NodeTable}
    (found : nodes.lookup nodeId = some node) :
    SilentIn timeoutMs now nodes nodeId ↔ IsSilent timeoutMs now node := by
  rw [SilentIn, found]
  simp

theorem checkLeaderElection_effect (manager : ClusterManager) :
    manager.checkLeaderElection.timeoutCounts = manager.timeoutCounts ∧
      manager.checkLeaderElection.config = manager.config ∧
      ∀ nodeId, nodeId ∈ manager.checkLeaderElection.nodes ↔
        nodeId ∈ manager.nodes := by
  rw [checkLeaderElection]
  split
  · refine ⟨?_, ?_, fun _ => mem_electLeader manager⟩
    · rw [electLeader]
      split <;> rfl
    · rw [electLeader]
      split <;> rfl
  · exact ⟨rfl, rfl, fun _ => Iff.rfl⟩

theorem Counted.step (counted : Counted before) {operation : HeartbeatOperation}
    (keeps : KeepsCounts before operation)
    (taken : Step before operation after) :
    Counted after := by
  rw [Step] at taken
  subst taken
  cases operation with
  | registerNode info =>
    obtain ⟨sameCounts, sameConfig, sameNodes⟩ :=
      checkLeaderElection_effect {
        before.manager with
        nodes := before.manager.nodes.insert info.nodeId info
      }
    have sameCount :
        ∀ nodeId,
          (before.manager.registerNode info).timeoutCount nodeId =
            before.manager.timeoutCount nodeId := by
      intro nodeId
      rw [timeoutCount, registerNode, sameCounts]
      rfl
    constructor
    · intro nodeId
      dsimp only [next]
      rw [sameCount, silence, registerNode, sameConfig]
      exact counted.counted nodeId
    · intro nodeId isAbsent
      dsimp only [next] at isAbsent ⊢
      rw [sameCount]
      refine counted.absent nodeId ?_
      rw [AList.lookup_eq_none] at isAbsent ⊢
      rw [registerNode, sameNodes, AList.mem_insert,
        not_or] at isAbsent
      exact isAbsent.2
  | updateHeartbeat other now =>
    have sameCount :
        ∀ nodeId,
          (before.manager.updateHeartbeat other now).timeoutCount nodeId =
            before.manager.timeoutCount nodeId := by
      intro nodeId
      rw [updateHeartbeat]
      split <;> rfl
    have sameConfig :
        (before.manager.updateHeartbeat other now).config =
          before.manager.config := by
      rw [updateHeartbeat]
      split <;> rfl
    constructor
    · intro nodeId
      dsimp only [next]
      rw [sameCount, silence, sameConfig, silentTicks]
      split
      · rename_i isSender
        subst isSender
        exact Nat.le_of_eq keeps
      · exact counted.counted nodeId
    · intro nodeId isAbsent
      dsimp only [next] at isAbsent ⊢
      rw [sameCount]
      refine counted.absent nodeId ?_
      rw [updateHeartbeat] at isAbsent
      split at isAbsent
      · exact isAbsent
      · rw [AList.lookup_eq_none, AList.mem_insert, not_or,
          ← AList.lookup_eq_none] at isAbsent
        exact isAbsent.2
  | tick now =>
    constructor
    · intro nodeId
      rw [silence_tick]
      cases found : before.manager.nodes.lookup nodeId with
      | none =>
        dsimp only [next]
        rw [timeoutCount_tick_of_absent found,
          counted.absent nodeId found]
        exact Nat.zero_le _
      | some node =>
        simp only [silentIn_iff found]
        exact timeoutCount_tick_le counted keeps found
    · intro nodeId isAbsent
      dsimp only [next] at isAbsent ⊢
      rw [lookup_tick] at isAbsent
      cases found : before.manager.nodes.lookup nodeId with
      | none =>
        rw [timeoutCount_tick_of_absent found]
        exact counted.absent nodeId found
      | some node =>
        rw [found, Option.bind_some] at isAbsent
        split at isAbsent
        · rename_i failed
          rw [timeoutCount_tick found, if_pos (.inl failed)]
        · cases isAbsent

theorem counted_new (config : ClusterConfig) : Counted (new config) := by
  constructor
  · intro nodeId
    exact Nat.le_refl 0
  · intro nodeId _
    rfl

theorem Counted.dropsOnlySilent
    (counted : Counted before) (keeps : KeepsCounts before (.tick now))
    (taken : Step before (.tick now) after) :
    DropsOnlySilent before after := by
  rw [Step] at taken
  subst taken
  intro nodeId node found dropped
  have isVisit :
      (before.manager.visitNode now nodeId node).event = .failed ∨
        node.status ≠ .offline ∧
          (before.manager.visitNode now nodeId node).status = .offline := by
    dsimp only [next] at dropped
    rw [lookup_tick, found, Option.bind_some] at dropped
    split at dropped
    · rename_i failed
      exact .inl failed
    · rcases dropped with isGone | ⟨wasNot, isOffline⟩
      · cases isGone
      · exact .inr ⟨wasNot, Option.some.inj isOffline⟩
  obtain ⟨isOld, twice⟩ := of_visit_offline isVisit
  have isSilent : IsSilent before.manager.config.nodeTimeoutMs now node := by
    by_contra notSilent
    exact (keeps nodeId node found notSilent).1 isOld
  have isCounted := counted.counted nodeId
  rw [silence_tick, if_pos ((silentIn_iff found).mpr isSilent)]
  omega

/--
In every run whose steps all meet their conditions, a tick removes or marks as
offline only nodes that were silent at the last three ticks.
-/
theorem dropsOnlySilent_of_run {config : ClusterConfig}
    {operations : List HeartbeatOperation}
    (run :
      Run (Restrict Step KeepsCounts) (new config) operations before)
    (taken : Restrict Step KeepsCounts before (.tick now) after) :
    DropsOnlySilent before after := by
  have counted : Counted before := by
    refine run.preserves ?_ (counted_new config)
    intro before operation after counted taken
    exact counted.step taken.1 taken.2
  exact counted.dropsOnlySilent taken.1 taken.2

/-!
## Timeouts that add up
-/

theorem step_next (run : HeartbeatRun) (operation : HeartbeatOperation) :
    Step run operation (run.next operation) :=
  rfl

def afterOperations (operations : List HeartbeatOperation) :
    HeartbeatRun :=
  operations.foldl next (new oneSecond)

def silentTwice : List HeartbeatOperation :=
  [.registerNode (nodeNamed "a" 0), .tick 2000, .tick 3000]

/-- A node whose heartbeats all come, each of them late. -/
def alwaysLate : List HeartbeatOperation :=
  [.registerNode (nodeNamed "a" 0), .tick 2000,
    .updateHeartbeat "a" 2500, .tick 4000, .updateHeartbeat "a" 4500]

/-- A node that is silent at a third tick is dropped, as it should be. -/
theorem silentTwice_drops_only_silent :
    "a" ∉ ((afterOperations silentTwice).next (.tick 4000)).manager.nodes ∧
      DropsOnlySilent (afterOperations silentTwice)
        ((afterOperations silentTwice).next (.tick 4000)) := by
  have isOnly :
      ∀ (run : HeartbeatRun) (now : Int64),
        (run.manager.nodes.entries.all fun entry =>
          IsSilent run.manager.config.nodeTimeoutMs now entry.2) = true →
        KeepsCounts run (.tick now) := by
    intro run now allSilent nodeId node found notSilent
    have isSilent := List.all_eq_true.mp allSilent _
      (NodeTable.mem_entries_iff.mpr found)
    exact absurd (of_decide_eq_true isSilent) notSilent
  have run :
      Run (Restrict Step KeepsCounts) (new oneSecond)
        silentTwice (afterOperations silentTwice) :=
    .cons ⟨trivial, rfl⟩ (.cons ⟨isOnly _ _ (by decide), rfl⟩
      (.cons ⟨isOnly _ _ (by decide), rfl⟩ (.nil _)))
  exact ⟨by decide, dropsOnlySilent_of_run run ⟨isOnly _ _ (by decide), rfl⟩⟩

/-- A node with three late heartbeats is dropped after one silent tick. -/
theorem alwaysLate_is_dropped :
    ∃ before after,
      Run Step (new oneSecond) alwaysLate before ∧
        Step before (.tick 6000) after ∧
        "a" ∈ before.manager.nodes ∧ "a" ∉ after.manager.nodes ∧
        after.silence "a" = 1 ∧ ¬DropsOnlySilent before after := by
  have isSilence :
      ((afterOperations alwaysLate).next (.tick 6000)).silence "a" = 1 := by
    decide
  have present : "a" ∈ (afterOperations alwaysLate).manager.nodes := by
    decide
  have isGone :
      "a" ∉ ((afterOperations alwaysLate).next (.tick 6000)).manager.nodes := by
    decide
  refine ⟨afterOperations alwaysLate,
    (afterOperations alwaysLate).next (.tick 6000),
    Run.ofFoldl step_next alwaysLate _, rfl, present, isGone, isSilence, ?_⟩
  intro drops
  obtain ⟨node, found⟩ := FiniteMap.exists_lookup present
  have longEnough :=
    drops "a" node found (.inl (AList.lookup_eq_none.mpr isGone))
  rw [isSilence] at longEnough
  exact absurd longEnough (by decide)

end HeartbeatRun

end ChronoDB.Distributed
