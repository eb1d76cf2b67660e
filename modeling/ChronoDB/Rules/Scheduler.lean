import ChronoDB.Distributed.TaskMirror
import ChronoDB.Query.Router

namespace ChronoDB.Rules

open Library Query Distributed

/-!
# The pre-aggregation scheduler

A task works on a copy of its rule and suspends at the lookup of the assignment,
at the updates of its status and at the query.  What it stores is stored whether
or not the rule is still there.  The node of the assignment is looked at once,
and a rule without an assignment is executed by every node.
-/

structure ScheduledRule extends PreAggregationRule where
  evaluationInterval : UInt64
  deriving Repr, DecidableEq

structure PreAggregatedData where
  ruleId : String
  timestamp : Timestamp
  value : Value
  labels : List (String × String)
  deriving Repr, DecidableEq

/-- The query engine at one moment, with an expression, start, end and step. -/
abbrev EngineAnswers :=
  Text → Timestamp → Timestamp → Int64 → Except Error QueryResult

structure PreAggregationScheduler where
  rules : FiniteMap String ScheduledRule
  dataStore : FiniteMap String (List PreAggregatedData)

namespace PreAggregationScheduler

def new : PreAggregationScheduler where
  rules := ∅
  dataStore := ∅

def addRule (scheduler : PreAggregationScheduler) (rule : ScheduledRule) :
    PreAggregationScheduler :=
  { scheduler with rules := scheduler.rules.insert rule.id rule }

/-- The lock of the rules is held until the data is gone as well. -/
def removeRule (scheduler : PreAggregationScheduler) (ruleId : String) :
    PreAggregationScheduler where
  rules := scheduler.rules.erase ruleId
  dataStore := scheduler.dataStore.erase ruleId

def store (scheduler : PreAggregationScheduler) (ruleId : String)
    (aggregatedData : List PreAggregatedData) :
    PreAggregationScheduler :=
  {
    scheduler with
    dataStore := scheduler.dataStore.insert ruleId aggregatedData
  }

end PreAggregationScheduler

namespace ScheduledRule

def aggregatedData (rule : ScheduledRule) (result : QueryResult) :
    List PreAggregatedData :=
  result.series.flatMap fun series =>
    series.samples.map fun sample => {
      ruleId := rule.id
      timestamp := sample.timestamp
      value := sample.value
      labels := series.labels.map fun label => (label.name, label.value)
    }

/-- The data of the last two intervals. -/
def evaluate (rule : ScheduledRule) (query : EngineAnswers) (now : Timestamp) :
    Except Error (List PreAggregatedData) :=
  let step := rule.evaluationInterval.toInt64 * 1000
  (query rule.expr (now - step * 2) now step).map rule.aggregatedData

end ScheduledRule

/-- Where a task is suspended. -/
inductive ExecutionStage where
  | lookingUp
  | starting
  | querying
  | storing (aggregatedData : List PreAggregatedData)
  | completing

/-- A call of `execute_task` that is in progress. -/
structure ExecutionTask where
  nodeId : String
  rule : ScheduledRule
  stage : ExecutionStage

/-- The node of the assignment has been looked at. -/
def ExecutionTask.isExecuting (task : ExecutionTask) : Bool :=
  match task.stage with
  | .lookingUp => false
  | _ => true

/--
The schedulers that share a coordinator, if there is one, and the nodes that
have executed a rule since its assigned node last changed.
-/
structure SharedSchedulers where
  schedulers : String → PreAggregationScheduler
  coordinator : Option PreAggregationCoordinator
  tasks : List ExecutionTask
  executedBy : String → Finset String

inductive SchedulerAction where
  | addRule (nodeId : String) (rule : ScheduledRule)
  | removeRule (nodeId ruleId : String)
  | executeTask (nodeId : String) (rule : ScheduledRule)
  | resume (index : ℕ) (query : EngineAnswers) (now : Timestamp)
  | coordinate (operation : PreAggregationOperation)

namespace SharedSchedulers

def new (coordinator : Option PreAggregationCoordinator) :
    SharedSchedulers where
  schedulers := fun _ => .new
  coordinator := coordinator
  tasks := []
  executedBy := fun _ => ∅

def assignedNode (shared : SharedSchedulers) (ruleId : String) :
    Option String :=
  shared.coordinator.bind fun coordinator => coordinator.nodeOf ruleId

def change (shared : SharedSchedulers) (nodeId : String)
    (changed : PreAggregationScheduler → PreAggregationScheduler) :
    SharedSchedulers :=
  {
    shared with
    schedulers :=
      Function.update shared.schedulers nodeId
        (changed (shared.schedulers nodeId))
  }

def updateTaskStatus (shared : SharedSchedulers) (ruleId : String)
    (status : TaskStatus) (now : Timestamp) :
    SharedSchedulers :=
  {
    shared with
    coordinator :=
      shared.coordinator.map fun coordinator =>
        coordinator.updateTaskStatus ruleId status now
  }

/-- What a task does until it is suspended again or returns. -/
def execute (shared : SharedSchedulers) (query : EngineAnswers)
    (now : Timestamp) (task : ExecutionTask) :
    SharedSchedulers × Option ExecutionStage :=
  match task.stage with
  | .lookingUp =>
    (shared,
      if (shared.assignedNode task.rule.id).all (· = task.nodeId) then
        some .starting
      else none)
  | .starting =>
    (shared.updateTaskStatus task.rule.id .running now, some .querying)
  | .querying =>
    match task.rule.evaluate query now with
    | .error _ => (shared, none)
    | .ok aggregatedData => (shared, some (.storing aggregatedData))
  | .storing aggregatedData =>
    (shared.change task.nodeId (·.store task.rule.id aggregatedData),
      some .completing)
  | .completing => (shared.updateTaskStatus task.rule.id .completed now, none)

/-- The tasks when one of them has gone on to a stage or returned. -/
def replaceTask
    (tasks : List ExecutionTask) (index : ℕ) (task : ExecutionTask) :
    Option ExecutionStage → List ExecutionTask
  | none => tasks.eraseIdx index
  | some stage => tasks.set index { task with stage := stage }

def resume (shared : SharedSchedulers) (index : ℕ) (query : EngineAnswers)
    (now : Timestamp) (task : ExecutionTask) :
    SharedSchedulers :=
  let executed := shared.execute query now task
  {
    executed.1 with
    tasks := replaceTask shared.tasks index task executed.2
    executedBy :=
      if task.isExecuting then
        Function.update shared.executedBy task.rule.id
          (insert task.nodeId (shared.executedBy task.rule.id))
      else shared.executedBy
  }

/-- The nodes of a rule are counted anew when it gets another node. -/
def coordinate (shared : SharedSchedulers)
    (coordinator : PreAggregationCoordinator)
    (operation : PreAggregationOperation) :
    SharedSchedulers :=
  let after := coordinator.apply operation
  {
    shared with
    coordinator := some after
    executedBy := fun ruleId =>
      if after.nodeOf ruleId = coordinator.nodeOf ruleId then
        shared.executedBy ruleId
      else ∅
  }

def next (shared : SharedSchedulers) :
    SchedulerAction → Option SharedSchedulers
  | .addRule nodeId rule => some (shared.change nodeId (·.addRule rule))
  | .removeRule nodeId ruleId =>
    some (shared.change nodeId (·.removeRule ruleId))
  | .executeTask nodeId rule =>
    some {
      shared with
      tasks := shared.tasks ++ [⟨nodeId, rule, .lookingUp⟩]
    }
  | .resume index query now =>
    shared.tasks[index]?.map (shared.resume index query now)
  | .coordinate operation =>
    shared.coordinator.map fun coordinator =>
      shared.coordinate coordinator operation

def Step (before : SharedSchedulers) (action : SchedulerAction)
    (after : SharedSchedulers) : Prop :=
  before.next action = some after

/--
A node without tasks stores data of its rules only, and no two nodes execute a
rule between two changes of its assigned node.
-/
structure Orderly (shared : SharedSchedulers) : Prop where
  storesRules :
    ∀ nodeId, (∀ task ∈ shared.tasks, task.nodeId ≠ nodeId) →
      ∀ ruleId ∈ (shared.schedulers nodeId).dataStore,
        ruleId ∈ (shared.schedulers nodeId).rules
  oneNode :
    shared.coordinator ≠ none →
      ∀ ruleId, (shared.executedBy ruleId).card ≤ 1

/--
The node of a task still has the rule when data is stored, a rule has an
assignment when it is looked up, and it keeps its node while it is executed.
-/
def Careful (shared : SharedSchedulers) : SchedulerAction → Prop
  | .resume index _ _ =>
    ∀ task, shared.tasks[index]? = some task →
      match task.stage with
      | .lookingUp =>
        shared.coordinator ≠ none → shared.assignedNode task.rule.id ≠ none
      | .storing _ => task.rule.id ∈ (shared.schedulers task.nodeId).rules
      | _ => True
  | .coordinate operation =>
    ∀ coordinator, shared.coordinator = some coordinator →
      ∀ task ∈ shared.tasks, task.isExecuting →
        (coordinator.apply operation).nodeOf task.rule.id =
          coordinator.nodeOf task.rule.id
  | _ => True

/-- The invariant of the runs whose steps are careful. -/
structure Kept (shared : SharedSchedulers) : Prop where
  stored :
    ∀ nodeId, ∀ ruleId ∈ (shared.schedulers nodeId).dataStore,
      ruleId ∈ (shared.schedulers nodeId).rules
  executing :
    shared.coordinator ≠ none →
      ∀ task ∈ shared.tasks, task.isExecuting →
        shared.assignedNode task.rule.id = some task.nodeId
  executed :
    shared.coordinator ≠ none →
      ∀ ruleId, ∀ nodeId ∈ shared.executedBy ruleId,
        shared.assignedNode ruleId = some nodeId

theorem Kept.orderly {shared : SharedSchedulers} (kept : Kept shared) :
    Orderly shared := by
  constructor
  · intro nodeId _
    exact kept.stored nodeId
  · intro distributed ruleId
    refine Finset.card_le_one.mpr fun first isFirst second isSecond => ?_
    have ofFirst := kept.executed distributed ruleId first isFirst
    have ofSecond := kept.executed distributed ruleId second isSecond
    exact Option.some.inj (ofFirst.symm.trans ofSecond)

section Preservation

variable {shared : SharedSchedulers}

theorem kept_new (coordinator : Option PreAggregationCoordinator) :
    Kept (new coordinator) :=
  ⟨fun _ _ member => absurd member (AList.notMem_empty _), nofun,
    fun _ _ _ member => absurd member (Finset.notMem_empty _)⟩

/-- Only the scheduler of the node has to be looked at when it changes. -/
theorem Kept.change (kept : Kept shared) {nodeId : String}
    {changed : PreAggregationScheduler → PreAggregationScheduler}
    (stored :
      ∀ ruleId ∈ (changed (shared.schedulers nodeId)).dataStore,
        ruleId ∈ (changed (shared.schedulers nodeId)).rules) :
    Kept (shared.change nodeId changed) := by
  refine ⟨fun other ruleId member => ?_, kept.executing, kept.executed⟩
  rw [SharedSchedulers.change] at member ⊢
  dsimp only at member ⊢
  by_cases same : other = nodeId
  · subst same
    rw [Function.update_self] at member ⊢
    exact stored ruleId member
  · rw [Function.update_of_ne same] at member ⊢
    exact kept.stored other ruleId member

theorem assignedNode_updateTaskStatus (ruleId other : String)
    (status : TaskStatus) (now : Timestamp) :
    (shared.updateTaskStatus other status now).assignedNode ruleId =
      shared.assignedNode ruleId := by
  rw [assignedNode, assignedNode, updateTaskStatus]
  cases shared.coordinator with
  | none => rfl
  | some coordinator =>
    exact PreAggregationCoordinator.nodeOf_updateTaskStatus status now

theorem Kept.updateTaskStatus (kept : Kept shared) (ruleId : String)
    (status : TaskStatus) (now : Timestamp) :
    Kept (shared.updateTaskStatus ruleId status now) := by
  have distributed :
      (shared.updateTaskStatus ruleId status now).coordinator ≠ none →
        shared.coordinator ≠ none :=
    fun isSome => mt Option.map_eq_none_iff.mpr isSome
  refine ⟨kept.stored, fun isSome task member isExecuting => ?_,
    fun isSome other nodeId member => ?_⟩
  · rw [assignedNode_updateTaskStatus]
    exact kept.executing (distributed isSome) task member isExecuting
  · rw [assignedNode_updateTaskStatus]
    exact kept.executed (distributed isSome) other nodeId member

theorem mem_replaceTask {tasks : List ExecutionTask} {index : ℕ}
    {task other : ExecutionTask} {stage : Option ExecutionStage}
    (member : other ∈ replaceTask tasks index task stage) :
    other ∈ tasks ∨
      ∃ reached ∈ stage, other = { task with stage := reached } := by
  cases stage with
  | none => exact .inl (List.mem_of_mem_eraseIdx member)
  | some stage =>
    obtain isOther | isTask := List.mem_or_eq_of_mem_set member
    · exact .inl isOther
    · exact .inr ⟨stage, rfl, isTask⟩

theorem Kept.execute (kept : Kept shared) {index : ℕ} {query : EngineAnswers}
    {now : Timestamp} {task : ExecutionTask} (member : task ∈ shared.tasks)
    (isTask : shared.tasks[index]? = some task)
    (careful : shared.Careful (.resume index query now)) :
    Kept (shared.execute query now task).1 ∧
      (∀ ruleId,
        (shared.execute query now task).1.assignedNode ruleId =
          shared.assignedNode ruleId) ∧
      ((shared.execute query now task).1.coordinator ≠ none →
        shared.coordinator ≠ none ∧
          ((shared.execute query now task).2 ≠ none →
            shared.assignedNode task.rule.id = some task.nodeId)) := by
  have meets := careful task isTask
  have assigned (distributed : shared.coordinator ≠ none)
      (isExecuting : task.isExecuting) :=
    kept.executing distributed task member isExecuting
  rw [SharedSchedulers.execute]
  rw [ExecutionTask.isExecuting] at assigned
  cases isStage : task.stage with
  | lookingUp =>
    rw [isStage] at meets
    refine ⟨kept, fun _ => rfl, fun distributed =>
      ⟨distributed, fun goesOn => ?_⟩⟩
    cases isNode : shared.assignedNode task.rule.id with
    | none => exact absurd isNode (meets distributed)
    | some nodeId => simpa [isNode] using goesOn
  | starting =>
    refine ⟨kept.updateTaskStatus _ _ _,
      fun ruleId => assignedNode_updateTaskStatus ruleId _ _ _,
      fun isSome => ?_⟩
    have distributed := mt Option.map_eq_none_iff.mpr isSome
    exact ⟨distributed, fun _ =>
      assigned distributed (by rw [isStage])⟩
  | querying =>
    dsimp only
    split
    all_goals
      exact ⟨kept, fun _ => rfl, fun distributed =>
        ⟨distributed, fun _ => assigned distributed (by rw [isStage])⟩⟩
  | storing aggregatedData =>
    rw [isStage] at meets
    dsimp only
    refine ⟨kept.change ?_, fun _ => rfl, fun distributed =>
      ⟨distributed, fun _ => assigned distributed (by rw [isStage])⟩⟩
    intro ruleId isStored
    obtain rfl | wasStored := AList.mem_insert _ |>.mp isStored
    · exact meets
    · exact kept.stored _ ruleId wasStored
  | completing =>
    refine ⟨kept.updateTaskStatus _ _ _,
      fun ruleId => assignedNode_updateTaskStatus ruleId _ _ _,
      fun isSome => ⟨mt Option.map_eq_none_iff.mpr isSome, fun goesOn =>
        absurd rfl goesOn⟩⟩

theorem Kept.resume (kept : Kept shared) {index : ℕ} {query : EngineAnswers}
    {now : Timestamp} {task : ExecutionTask}
    (isTask : shared.tasks[index]? = some task)
    (careful : shared.Careful (.resume index query now)) :
    Kept (shared.resume index query now task) := by
  have member := List.mem_of_getElem? isTask
  obtain ⟨executed, sameNode, isDistributed⟩ :=
    kept.execute member isTask careful
  refine ⟨executed.stored, fun isSome other isOther isExecuting => ?_,
    fun isSome ruleId nodeId isNode => ?_⟩
  · obtain ⟨distributed, goesOn⟩ := isDistributed isSome
    refine (sameNode _).trans ?_
    obtain isOld | ⟨stage, reached, rfl⟩ := mem_replaceTask isOther
    · exact kept.executing distributed other isOld isExecuting
    · exact goesOn fun ended => nomatch ended ▸ reached
  · obtain ⟨distributed, _⟩ := isDistributed isSome
    refine (sameNode _).trans ?_
    rw [SharedSchedulers.resume] at isNode
    dsimp only at isNode
    split at isNode
    · rename_i isExecuting
      by_cases same : ruleId = task.rule.id
      · subst same
        rw [Function.update_self] at isNode
        obtain rfl | wasNode := Finset.mem_insert.mp isNode
        · exact kept.executing distributed task member isExecuting
        · exact kept.executed distributed _ nodeId wasNode
      · rw [Function.update_of_ne same] at isNode
        exact kept.executed distributed ruleId nodeId isNode
    · exact kept.executed distributed ruleId nodeId isNode

theorem Kept.coordinate (kept : Kept shared)
    {coordinator : PreAggregationCoordinator}
    {operation : PreAggregationOperation}
    (isCoordinator : shared.coordinator = some coordinator)
    (careful : shared.Careful (.coordinate operation)) :
    Kept (shared.coordinate coordinator operation) := by
  have distributed : shared.coordinator ≠ none :=
    fun isNone => nomatch isCoordinator.symm.trans isNone
  have wasNode (ruleId : String) :
      shared.assignedNode ruleId = coordinator.nodeOf ruleId := by
    rw [assignedNode, isCoordinator]
    rfl
  refine ⟨kept.stored, fun _ task member isExecuting => ?_,
    fun _ ruleId nodeId isNode => ?_⟩
  · have sameNode := careful coordinator isCoordinator task member isExecuting
    refine sameNode.trans ((wasNode _).symm.trans ?_)
    exact kept.executing distributed task member isExecuting
  · rw [SharedSchedulers.coordinate] at isNode
    dsimp only at isNode
    split at isNode
    · rename_i sameNode
      refine sameNode.trans ((wasNode _).symm.trans ?_)
      exact kept.executed distributed ruleId nodeId isNode
    · exact absurd isNode (Finset.notMem_empty _)

theorem Kept.step {action : SchedulerAction} {after : SharedSchedulers}
    (kept : Kept shared) (careful : shared.Careful action)
    (taken : Step shared action after) :
    Kept after := by
  rw [Step] at taken
  cases action with
  | addRule nodeId rule =>
    cases taken
    exact kept.change fun ruleId isStored =>
      AList.mem_insert _ |>.mpr (.inr (kept.stored nodeId ruleId isStored))
  | removeRule nodeId ruleId =>
    cases taken
    refine kept.change fun other isStored => ?_
    obtain ⟨isOther, wasStored⟩ := AList.mem_erase.mp isStored
    exact AList.mem_erase.mpr ⟨isOther, kept.stored nodeId other wasStored⟩
  | executeTask nodeId rule =>
    cases taken
    refine ⟨kept.stored, fun distributed task member isExecuting => ?_,
      kept.executed⟩
    obtain isOld | isNew := List.mem_append.mp member
    · exact kept.executing distributed task isOld isExecuting
    · cases List.mem_singleton.mp isNew
      cases isExecuting
  | resume index query now =>
    obtain ⟨task, isTask, rfl⟩ := Option.map_eq_some_iff.mp taken
    exact kept.resume isTask careful
  | coordinate operation =>
    obtain ⟨coordinator, isCoordinator, rfl⟩ := Option.map_eq_some_iff.mp taken
    exact kept.coordinate isCoordinator careful

end Preservation

/--
In every run whose steps are careful, a node without tasks stores data of its
rules only, and one node executes a rule between two changes of its node.
-/
theorem orderly_of_run {coordinator : Option PreAggregationCoordinator}
    {actions : List SchedulerAction} {final : SharedSchedulers}
    (run : Run (Restrict Step Careful) (new coordinator) actions final) :
    Orderly final := by
  have kept : Kept final := by
    refine run.preserves ?_ (kept_new coordinator)
    intro before action after keptBefore taken
    exact keptBefore.step taken.1 taken.2
  exact kept.orderly

def exampleRule : ScheduledRule where
  id := "r"
  name := "requests"
  expr := "up".toList
  isAutoCreated := false
  queryFrequency := 0
  lastQueryTime := 0
  status := .active
  evaluationInterval := 60

/-- The step that a task takes when the engine finds no series. -/
def resumed (index : ℕ) : SchedulerAction :=
  .resume index
    (fun _ start stop step => .ok ⟨[], start, stop, step⟩) 1000000

def assignedRun : List SchedulerAction :=
  [.addRule "a" exampleRule, .coordinate (.assignTask "r" ["a"] 0 0),
    .executeTask "a" exampleRule, resumed 0, resumed 0, resumed 0, resumed 0,
    resumed 0]

theorem assigned_rule_is_orderly :
    ∃ final,
      Run Step (new (some (.new TrackedCoordinator.exampleConfig))) assignedRun
        final ∧
      "r" ∈ (final.schedulers "a").dataStore ∧ Orderly final := by
  obtain ⟨final, careful, isStored⟩ :
      ∃ final,
        Run (Restrict Step Careful)
          (new (some (.new TrackedCoordinator.exampleConfig))) assignedRun
          final ∧
        "r" ∈ (final.schedulers "a").dataStore := by
    refine ⟨_, .cons ⟨trivial, rfl⟩ (.cons ⟨fun _ _ _ => nofun, rfl⟩
      (.cons ⟨trivial, rfl⟩ (.cons ⟨?_, rfl⟩ (.cons ⟨?_, rfl⟩ (.cons ⟨?_, rfl⟩
        (.cons ⟨?_, rfl⟩ (.single ⟨?_, rfl⟩))))))), by decide⟩
    all_goals
      intro task isTask
      cases isTask
      trivial
  exact ⟨final, careful.ofRestrict, isStored, orderly_of_run careful⟩

theorem removed_rule_is_stored :
    ∃ actions final,
      Run Step (new (some (.new TrackedCoordinator.exampleConfig))) actions
        final ∧
      (∀ task ∈ final.tasks, task.nodeId ≠ "a") ∧
      "r" ∈ (final.schedulers "a").dataStore ∧
      "r" ∉ (final.schedulers "a").rules ∧
      final.executedBy "r" = {"a", "b"} ∧
      ¬Orderly final := by
  refine ⟨[.addRule "a" exampleRule, .executeTask "a" exampleRule,
    .executeTask "b" exampleRule, resumed 0, resumed 1, resumed 0, resumed 1,
    resumed 0, .removeRule "a" "r", resumed 0, resumed 0], _,
    .cons rfl (.cons rfl (.cons rfl (.cons rfl (.cons rfl (.cons rfl (.cons rfl
      (.cons rfl (.cons rfl (.cons rfl (.single rfl)))))))))), ?_, ?_, ?_, ?_,
    ?_⟩
  · decide
  · decide
  · decide
  · decide
  · intro orderly
    have one := orderly.oneNode nofun "r"
    revert one
    decide

end SharedSchedulers

end ChronoDB.Rules
