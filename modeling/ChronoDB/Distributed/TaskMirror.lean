import ChronoDB.Distributed.PreAggregation

namespace ChronoDB.Distributed

open Library PreAggregationCoordinator NodeTasks

/-!
# Node sets as the mirror of assignments

An operation enters a rule, removes a rule, drops the set of a node, or changes
neither the nodes of the assignments nor the sets.  Only entering a rule that
another set still lists breaks the mirror.
-/

variable
  {coordinator : PreAggregationCoordinator}
  {ruleId other node selectedNode : String}

theorem TaskAssignments.lookup_update
    (assignments : TaskAssignments) (change : TaskAssignment → TaskAssignment) :
    (assignments.update ruleId change).lookup other =
      if other = ruleId then (assignments.lookup ruleId).map change
      else assignments.lookup other := by
  rw [TaskAssignments.update]
  cases found : assignments.lookup ruleId with
  | none =>
    dsimp only
    split
    · rename_i same
      rw [same, found]
      rfl
    · rfl
  | some assignment =>
    dsimp only
    split
    · rename_i same
      rw [same, AList.lookup_insert]
      rfl
    · rename_i differs
      rw [AList.lookup_insert_ne differs]

theorem TaskAssignments.map_assignedNode_update
    (assignments : TaskAssignments) {change : TaskAssignment → TaskAssignment}
    (keepsNode :
      ∀ assignment, (change assignment).assignedNode =
        assignment.assignedNode) :
    ((assignments.update ruleId change).lookup other).map
        TaskAssignment.assignedNode =
      (assignments.lookup other).map TaskAssignment.assignedNode := by
  rw [lookup_update]
  split
  · rename_i same
    rw [same]
    cases assignments.lookup ruleId with
    | none => rfl
    | some assignment => exact congrArg some (keepsNode assignment)
  · rfl

namespace NodeTasks

variable (nodeTasks : NodeTasks)

@[simp] theorem tasksOf_insert (tasks : Finset String) (other : String) :
    tasksOf (nodeTasks.insert node tasks) other =
      if other = node then tasks else nodeTasks.tasksOf other := by
  rw [tasksOf]
  split
  · rename_i same
    rw [same, AList.lookup_insert]
    rfl
  · rename_i differs
    rw [AList.lookup_insert_ne differs]
    rfl

@[simp] theorem tasksOf_erase (other : String) :
    tasksOf (nodeTasks.erase node) other =
      if other = node then ∅ else nodeTasks.tasksOf other := by
  rw [tasksOf]
  split
  · rename_i same
    rw [same, AList.lookup_erase]
    rfl
  · rename_i differs
    rw [AList.lookup_erase_ne differs]
    rfl

end NodeTasks

namespace PreAggregationCoordinator

theorem assignedNode_retry
    (config : PreAggregationConfig) (assignment : TaskAssignment) :
    (retry config assignment).assignedNode = assignment.assignedNode := by
  rw [retry]
  split <;> rfl

theorem assignedNode_expire (config : PreAggregationConfig) (now : Int64)
    (assignment : TaskAssignment) :
    (expire config now assignment).assignedNode = assignment.assignedNode := by
  rw [expire]
  split <;> rfl

theorem nodeOf_coordinate (now : Int64) :
    (coordinator.coordinate now).nodeOf ruleId = coordinator.nodeOf ruleId := by
  have drained :
      ∀ (pending : List String) (assignments : TaskAssignments),
        ((pending.foldl
            (fun assignments ruleId =>
              assignments.update ruleId (retry coordinator.config))
            assignments).lookup ruleId).map TaskAssignment.assignedNode =
          (assignments.lookup ruleId).map TaskAssignment.assignedNode := by
    intro pending
    induction pending with
    | nil =>
      intro assignments
      rfl
    | cons first rest inductionHypothesis =>
      intro assignments
      rw [List.foldl_cons, inductionHypothesis,
        TaskAssignments.map_assignedNode_update _
          (assignedNode_retry coordinator.config)]
  rw [nodeOf, coordinate, drained, FiniteMap.lookup_mapValues,
    Option.map_map, nodeOf]
  congr 1
  funext assignment
  exact assignedNode_expire coordinator.config now assignment

theorem nodeOf_updateTaskStatus (status : TaskStatus) (now : Int64) :
    (coordinator.updateTaskStatus other status now).nodeOf ruleId =
      coordinator.nodeOf ruleId :=
  TaskAssignments.map_assignedNode_update _ fun _ => rfl

theorem nodeOf_heartbeat (now : Int64) :
    (coordinator.heartbeat other now).nodeOf ruleId =
      coordinator.nodeOf ruleId :=
  TaskAssignments.map_assignedNode_update _ fun _ => rfl

@[simp] theorem nodeOf_enter (assignedAt lastHeartbeat : Int64) :
    (coordinator.enter other selectedNode assignedAt lastHeartbeat).nodeOf
        ruleId =
      if ruleId = other then some selectedNode
      else coordinator.nodeOf ruleId := by
  rw [nodeOf, enter]
  split
  · rename_i same
    rw [same, AList.lookup_insert]
    rfl
  · rename_i differs
    rw [AList.lookup_insert_ne differs]
    rfl

@[simp] theorem mem_tasksOf_enter (assignedAt lastHeartbeat : Int64) :
    ruleId ∈
        (coordinator.enter other selectedNode assignedAt
          lastHeartbeat).nodeTasks.tasksOf node ↔
      ruleId = other ∧ node = selectedNode ∨
        ruleId ∈ coordinator.nodeTasks.tasksOf node := by
  rw [enter, tasksOf_insert]
  split
  · rename_i same
    rw [same, Finset.mem_insert]
    simp
  · rename_i differs
    simp [differs]

@[simp] theorem nodeOf_removeTask :
    (coordinator.removeTask other).nodeOf ruleId =
      if ruleId = other then none else coordinator.nodeOf ruleId := by
  rw [removeTask]
  cases found : coordinator.taskAssignments.lookup other with
  | none =>
    dsimp only
    split
    · rename_i same
      rw [nodeOf, same, found]
      rfl
    · rfl
  | some assignment =>
    by_cases same : ruleId = other
    · rw [if_pos same, nodeOf, same, AList.lookup_erase]
      rfl
    · rw [if_neg same, nodeOf, AList.lookup_erase_ne same]
      rfl

@[simp] theorem mem_tasksOf_removeTask :
    ruleId ∈ (coordinator.removeTask other).nodeTasks.tasksOf node ↔
      ruleId ∈ coordinator.nodeTasks.tasksOf node ∧
        ¬(ruleId = other ∧ coordinator.nodeOf other = some node) := by
  rw [removeTask, nodeOf]
  cases found : coordinator.taskAssignments.lookup other with
  | none => simp
  | some assignment =>
    dsimp only [Option.map_some]
    cases hasTasks : coordinator.nodeTasks.lookup assignment.assignedNode with
    | none =>
      have noTasks :
          coordinator.nodeTasks.tasksOf assignment.assignedNode = ∅ := by
        rw [tasksOf, hasTasks]
        rfl
      dsimp only
      constructor
      · intro member
        refine ⟨member, ?_⟩
        rintro ⟨_, isNode⟩
        cases isNode
        rw [noTasks] at member
        cases member
      · exact And.left
    | some tasks =>
      have isTasks :
          coordinator.nodeTasks.tasksOf assignment.assignedNode = tasks := by
        rw [tasksOf, hasTasks]
        rfl
      dsimp only
      rw [tasksOf_insert]
      split
      · rename_i same
        rw [same, isTasks, Finset.mem_erase]
        simp [and_comm]
      · rename_i differs
        simp [Ne.symm differs]

theorem nodeOf_handleNodeFailure (failedNode : String) :
    (coordinator.handleNodeFailure failedNode).2.nodeOf ruleId =
      coordinator.nodeOf ruleId := by
  rw [nodeOf, handleNodeFailure, FiniteMap.lookup_mapKeyed,
    Option.map_map, nodeOf]
  congr 1
  funext assignment
  rw [Function.comp_apply]
  split <;> rfl

theorem mem_assignedTo_iff :
    ruleId ∈ coordinator.assignedTo node ↔
      coordinator.nodeOf ruleId = some node := by
  rw [assignedTo, List.mem_toFinset, List.mem_filter, decide_eq_true_iff]
  refine and_iff_right_of_imp fun isNode => ?_
  obtain ⟨assignment, found, _⟩ := Option.map_eq_some_iff.mp isNode
  exact AList.mem_keys.mp (FiniteMap.mem_of_lookup found)

end PreAggregationCoordinator

/-!
## What an operation does
-/

namespace TrackedCoordinator

variable {before after : TrackedCoordinator}

structure Unchanged (before after : TrackedCoordinator) : Prop where
  nodeOf :
    ∀ ruleId, after.coordinator.nodeOf ruleId = before.coordinator.nodeOf ruleId
  nodeTasks : after.coordinator.nodeTasks = before.coordinator.nodeTasks
  lost : after.lost = before.lost

/-- An operation enters a rule, removes one, drops a set, or none of these. -/
theorem cases_of_step {operation : PreAggregationOperation}
    (taken : Step before operation after) :
    Unchanged before after ∧ KeepsNode before operation ∨
      (∃ ruleId availableNodes assignedAt lastHeartbeat selectedNode,
        operation = .assignTask ruleId availableNodes assignedAt lastHeartbeat ∧
          before.coordinator.activeNode ruleId = none ∧
          selectNodeForTask
              before.coordinator.nodeTasks availableNodes =
            .ok selectedNode ∧
          after = {
            coordinator :=
              before.coordinator.enter ruleId selectedNode assignedAt
                lastHeartbeat
            lost := before.lost.erase ruleId
          }) ∨
      (∃ ruleId,
        operation = .removeTask ruleId ∧
          after = {
            coordinator := before.coordinator.removeTask ruleId
            lost := before.lost.erase ruleId
          }) ∨
      ∃ failedNode,
        operation = .handleNodeFailure failedNode ∧
          after = {
            coordinator := (before.coordinator.handleNodeFailure failedNode).2
            lost := before.lost ∪ before.coordinator.assignedTo failedNode
          } := by
  rw [Step] at taken
  subst taken
  cases operation with
  | assignTask ruleId availableNodes assignedAt lastHeartbeat =>
    cases isActive : before.coordinator.activeNode ruleId with
    | some assignedNode =>
      refine .inl ⟨?_, fun ended => ?_⟩
      · constructor <;>
          simp [next, nextLost, apply,
            assignTask, isActive]
      · rw [isActive] at ended
        cases ended
    | none =>
      cases selected :
          selectNodeForTask
            before.coordinator.nodeTasks availableNodes with
      | error cause =>
        refine .inl ⟨?_, fun _ node selectedNode _ isSelected => ?_⟩
        · constructor <;>
            simp [next, nextLost, apply,
              assignTask, isActive, selected]
        · rw [selected] at isSelected
          cases isSelected
      | ok selectedNode =>
        refine .inr (.inl
          ⟨ruleId, availableNodes, assignedAt, lastHeartbeat,
            selectedNode, rfl, isActive, selected, ?_⟩)
        simp [next, nextLost, apply,
          assignTask, isActive, selected]
  | updateTaskStatus ruleId status now =>
    exact .inl
      ⟨⟨fun _ => nodeOf_updateTaskStatus _ _,
        rfl, rfl⟩, trivial⟩
  | heartbeat ruleId now =>
    exact .inl
      ⟨⟨fun _ => nodeOf_heartbeat _, rfl, rfl⟩,
        trivial⟩
  | coordinate now =>
    exact .inl
      ⟨⟨fun _ => nodeOf_coordinate _, rfl, rfl⟩,
        trivial⟩
  | removeTask ruleId => exact .inr (.inr (.inl ⟨ruleId, rfl, rfl⟩))
  | handleNodeFailure failedNode =>
    exact .inr (.inr (.inr ⟨failedNode, rfl, rfl⟩))

/-!
## The mirror along a run
-/

theorem Unchanged.mirrors_iff (unchanged : Unchanged before after) :
    Mirrors after ↔ Mirrors before := by
  constructor
  · intro mirrors
    constructor
    · intro ruleId assignedNode isNode kept node
      rw [← unchanged.nodeOf] at isNode
      rw [← unchanged.lost] at kept
      rw [← unchanged.nodeTasks]
      exact mirrors.listed isNode kept node
    · intro node ruleId isListed
      rw [← unchanged.nodeTasks] at isListed
      rw [← unchanged.nodeOf]
      exact mirrors.assigned isListed
  · intro mirrors
    constructor
    · intro ruleId assignedNode isNode kept node
      rw [unchanged.nodeOf] at isNode
      rw [unchanged.lost] at kept
      rw [unchanged.nodeTasks]
      exact mirrors.listed isNode kept node
    · intro node ruleId isListed
      rw [unchanged.nodeTasks] at isListed
      rw [unchanged.nodeOf]
      exact mirrors.assigned isListed

variable (mirrors : Mirrors before)

include mirrors

theorem mirrors_enter_iff (assignedAt lastHeartbeat : Int64) :
    Mirrors {
        coordinator :=
          before.coordinator.enter ruleId selectedNode assignedAt lastHeartbeat
        lost := before.lost.erase ruleId
      } ↔
      ∀ node, ruleId ∈ before.coordinator.nodeTasks.tasksOf node →
        selectedNode = node := by
  constructor
  · intro mirrorsAfter node isListed
    have isNode := mirrorsAfter.assigned
      (mem_tasksOf_enter assignedAt
        lastHeartbeat |>.mpr (.inr isListed))
    rw [nodeOf_enter, if_pos rfl] at isNode
    exact Option.some.inj isNode
  · intro staysThere
    constructor
    · intro other assignedNode isNode kept node
      rw [nodeOf_enter] at isNode
      rw [mem_tasksOf_enter]
      by_cases same : other = ruleId
      · subst same
        rw [if_pos rfl] at isNode
        cases isNode
        constructor
        · rintro (⟨_, isSelected⟩ | isListed)
          · exact isSelected
          · exact (staysThere node isListed).symm
        · intro isSelected
          exact .inl ⟨rfl, isSelected⟩
      · rw [if_neg same] at isNode
        have keptBefore : other ∉ before.lost := fun isLost =>
          kept (Finset.mem_erase.mpr ⟨same, isLost⟩)
        rw [← mirrors.listed isNode keptBefore node]
        simp [same]
    · intro node other isListed
      rw [mem_tasksOf_enter] at isListed
      rw [nodeOf_enter]
      rcases isListed with ⟨rfl, rfl⟩ | isListed
      · rw [if_pos rfl]
      · split
        · rename_i same
          subst same
          rw [staysThere node isListed]
        · exact mirrors.assigned isListed

theorem mirrors_removeTask :
    Mirrors {
      coordinator := before.coordinator.removeTask ruleId
      lost := before.lost.erase ruleId
    } := by
  constructor
  · intro other assignedNode isNode kept node
    rw [nodeOf_removeTask] at isNode
    rw [mem_tasksOf_removeTask]
    by_cases same : other = ruleId
    · rw [if_pos same] at isNode
      cases isNode
    · rw [if_neg same] at isNode
      have keptBefore : other ∉ before.lost := fun isLost =>
        kept (Finset.mem_erase.mpr ⟨same, isLost⟩)
      rw [← mirrors.listed isNode keptBefore node]
      simp [same]
  · intro node other isListed
    rw [mem_tasksOf_removeTask] at isListed
    rw [nodeOf_removeTask]
    obtain ⟨isListed, notRemoved⟩ := isListed
    have isNode := mirrors.assigned isListed
    by_cases same : other = ruleId
    · subst same
      exact absurd ⟨rfl, isNode⟩ notRemoved
    · rw [if_neg same]
      exact isNode

theorem mirrors_handleNodeFailure (failedNode : String) :
    Mirrors {
      coordinator := (before.coordinator.handleNodeFailure failedNode).2
      lost := before.lost ∪ before.coordinator.assignedTo failedNode
    } := by
  constructor
  · intro other assignedNode isNode kept node
    rw [nodeOf_handleNodeFailure] at isNode
    rw [Finset.mem_union,
      mem_assignedTo_iff, not_or] at kept
    have elsewhere : assignedNode ≠ failedNode := by
      rintro rfl
      exact kept.2 isNode
    have isListed := mirrors.listed isNode kept.1 node
    dsimp only [handleNodeFailure]
    rw [tasksOf_erase]
    split
    · rename_i isFailed
      refine iff_of_false (Finset.notMem_empty other) ?_
      rintro rfl
      exact elsewhere isFailed
    · exact isListed
  · intro node other isListed
    dsimp only [handleNodeFailure] at isListed
    rw [tasksOf_erase] at isListed
    rw [nodeOf_handleNodeFailure]
    split at isListed
    · cases isListed
    · exact mirrors.assigned isListed

theorem mirrors_iff_of_step
    (lostUnlisted : LostUnlisted before) {operation : PreAggregationOperation}
    (taken : Step before operation after) :
    LostUnlisted after ∧ (Mirrors after ↔ KeepsNode before operation) := by
  obtain ⟨unchanged, keeps⟩ |
    ⟨ruleId, availableNodes, assignedAt, lastHeartbeat, selectedNode, rfl,
      isOver, selected, rfl⟩ |
    ⟨ruleId, rfl, rfl⟩ | ⟨failedNode, rfl, rfl⟩ := cases_of_step taken
  · refine ⟨?_, iff_of_true (unchanged.mirrors_iff.mpr mirrors) keeps⟩
    intro ruleId isLost node
    rw [unchanged.nodeTasks]
    rw [unchanged.lost] at isLost
    exact lostUnlisted ruleId isLost node
  · constructor
    · intro other isLost node isListed
      obtain ⟨differs, wasLost⟩ := Finset.mem_erase.mp isLost
      rw [mem_tasksOf_enter] at isListed
      rcases isListed with ⟨same, _⟩ | wasListed
      · exact differs same
      · exact lostUnlisted other wasLost node wasListed
    · rw [mirrors_enter_iff mirrors]
      constructor
      · intro staysThere _ node otherSelected isListed isSelected
        rw [selected] at isSelected
        cases isSelected
        exact staysThere node isListed
      · intro keepsNode node isListed
        exact keepsNode isOver node selectedNode isListed selected
  · refine ⟨?_, iff_of_true (mirrors_removeTask mirrors) trivial⟩
    intro other isLost node isListed
    exact lostUnlisted other (Finset.mem_erase.mp isLost).2 node
      (mem_tasksOf_removeTask.mp isListed).1
  · refine ⟨?_,
      iff_of_true (mirrors_handleNodeFailure mirrors failedNode) trivial⟩
    intro other isLost node isListed
    dsimp only [handleNodeFailure] at isListed
    rw [tasksOf_erase] at isListed
    split at isListed
    · cases isListed
    · rename_i notFailed
      rcases Finset.mem_union.mp isLost with wasLost | isAssigned
      · exact lostUnlisted other wasLost node isListed
      · rw [mem_assignedTo_iff,
          mirrors.assigned isListed] at isAssigned
        exact notFailed (Option.some.inj isAssigned)

omit mirrors

theorem mirrors_new (config : PreAggregationConfig) :
    Mirrors (new config) := by
  constructor
  · intro ruleId assignedNode isNode
    cases isNode
  · intro node ruleId isListed
    cases isListed

/--
In every run the node sets mirror the assignments throughout exactly when no
rule is assigned to another node than the one whose set still lists it.
-/
theorem mirrors_always_iff {config : PreAggregationConfig}
    {operations : List PreAggregationOperation} {final : TrackedCoordinator}
    (run : Run Step (new config) operations final) :
    (∀ passed remaining middle,
        operations = passed ++ remaining →
          Run Step (new config) passed middle → Mirrors middle) ↔
      Run (Restrict Step KeepsNode) (new config) operations final := by
  refine @Run.always_iff_restrict _ _ Step KeepsNode LostUnlisted Mirrors
    _ _ _ run ?_ ?_ (mirrors_new config) ?_
  · intro before operation after other taken otherTaken
    exact taken.trans otherTaken.symm
  · intro ruleId isLost
    cases isLost
  · intro before operation after lostUnlisted mirrors taken
    exact mirrors_iff_of_step mirrors lostUnlisted taken

theorem step_next
    (tracked : TrackedCoordinator) (operation : PreAggregationOperation) :
    Step tracked operation (tracked.next operation) :=
  rfl

/-- A failed rule of one node that is assigned to another one. -/
def reassigned : List PreAggregationOperation :=
  [.assignTask "r" ["a"] 0 0, .updateTaskStatus "r" .failed 1,
    .assignTask "r" ["b"] 2 2]

def exampleConfig : PreAggregationConfig where
  taskTimeoutMs := 300000
  maxRetries := 3
  enableAutoFailover := true

/-- A rule that is assigned, runs and is removed. -/
def assignedOnce : List PreAggregationOperation :=
  [.assignTask "r" ["a", "b"] 0 0, .updateTaskStatus "r" .running 1,
    .removeTask "r"]

/-- The mirror holds while a rule is assigned, runs and is removed. -/
theorem assignedOnce_mirrors_always :
    ∃ final,
      Run Step (new exampleConfig) assignedOnce final ∧
        ∀ passed remaining middle,
          assignedOnce = passed ++ remaining →
            Run Step (new exampleConfig) passed middle → Mirrors middle := by
  refine ⟨_, Run.ofFoldl step_next _ _, ?_⟩
  refine (mirrors_always_iff (Run.ofFoldl step_next _ _)).mpr
    (.cons ⟨?_, rfl⟩ (.cons ⟨trivial, rfl⟩ (.cons ⟨trivial, rfl⟩ (.nil _))))
  intro _ node selectedNode isListed
  cases isListed

/-- A reassigned rule is in the sets of both nodes. -/
theorem reassigned_listed_twice :
    ∃ final,
      Run Step (new exampleConfig) reassigned final ∧
        "r" ∈ final.coordinator.nodeTasks.tasksOf "a" ∧
        "r" ∈ final.coordinator.nodeTasks.tasksOf "b" ∧
        ¬Mirrors final := by
  refine ⟨_, Run.ofFoldl step_next reassigned _, by decide, by decide, ?_⟩
  intro mirrors
  have isNode := @Mirrors.assigned _ mirrors "a" "r" (by decide)
  revert isNode
  decide

end TrackedCoordinator

/-!
## Loads
-/

section Loads

/-- The number of rules of a node. -/
def NodeTasks.load (nodeTasks : NodeTasks) (node : String) : ℕ :=
  (nodeTasks.tasksOf node).card

variable {nodeTasks : NodeTasks} {nodes : List String}

theorem load_foldl_keepFewer (best : String) :
    ∀ node ∈ best :: nodes,
      nodeTasks.load
          (nodes.foldl (keepFewer nodeTasks) (nodeTasks.load best, best)).2 ≤
        nodeTasks.load node := by
  induction nodes generalizing best with
  | nil => simp
  | cons first rest inductionHypothesis =>
    rw [List.forall_mem_cons, List.forall_mem_cons, List.foldl_cons, keepFewer]
    split
    · rename_i isFewer
      have least := List.forall_mem_cons.mp (inductionHypothesis first)
      exact ⟨least.1.trans isFewer.le, least⟩
    · rename_i notFewer
      obtain ⟨least, leastRest⟩ :=
        List.forall_mem_cons.mp (inductionHypothesis best)
      exact ⟨least, least.trans (not_lt.mp notFewer), leastRest⟩

theorem load_selectNodeForTask {selectedNode : String}
    (few : ∀ node ∈ nodes, nodeTasks.load node < 2 ^ 64 - 1)
    (selected : selectNodeForTask nodeTasks nodes = .ok selectedNode) :
    ∀ node ∈ nodes, nodeTasks.load selectedNode ≤ nodeTasks.load node := by
  cases nodes with
  | nil => cases selected
  | cons first rest =>
    have starts :
        keepFewer nodeTasks (2 ^ 64 - 1, first) first =
          (nodeTasks.load first, first) :=
      if_pos (few first List.mem_cons_self)
    cases selected
    rw [List.foldl_cons, starts]
    exact load_foldl_keepFewer first

/-- The sets after calls of `assign_task` for rules at clock readings. -/
def assigned (config : PreAggregationConfig) (nodes : List String)
    (calls : List (String × Int64 × Int64)) : PreAggregationCoordinator :=
  calls.foldl
    (fun coordinator call =>
      (coordinator.assignTask call.1 nodes call.2.1 call.2.2).2)
    (.new config)

/-- Rules that are assigned to the same nodes are spread evenly over them. -/
theorem loads_differ_by_one (config : PreAggregationConfig)
    {calls : List (String × Int64 × Int64)} (few : calls.length < 2 ^ 64) :
    ∀ busy ∈ nodes, ∀ idle ∈ nodes,
      (assigned config nodes calls).nodeTasks.load busy ≤
        (assigned config nodes calls).nodeTasks.load idle + 1 := by
  suffices balanced : ∀ busy ∈ nodes,
      (assigned config nodes calls).nodeTasks.load busy ≤ calls.length ∧
        ∀ idle ∈ nodes,
          (assigned config nodes calls).nodeTasks.load busy ≤
            (assigned config nodes calls).nodeTasks.load idle + 1
    from fun busy isBusy => (balanced busy isBusy).2
  induction calls using List.reverseRecOn with
  | nil => exact fun busy _ => ⟨Nat.zero_le _, fun idle _ => Nat.zero_le _⟩
  | append_singleton earlier call inductionHypothesis =>
    rw [List.length_append, List.length_singleton] at few ⊢
    have balanced := inductionHypothesis (by omega)
    rw [assigned, List.foldl_concat, ← assigned]
    generalize assigned config nodes earlier = coordinator at balanced ⊢
    have unchanged (busy : String) (isBusy : busy ∈ nodes) :=
      (balanced busy isBusy).imp_left (Nat.le_succ_of_le ·)
    rw [assignTask]
    split
    · exact unchanged
    split
    · exact unchanged
    rename_i selectedNode selected
    have least := load_selectNodeForTask
      (fun node isNode => (balanced node isNode).1.trans_lt (by omega))
      selected
    have grows :=
      Finset.card_le_card (Finset.subset_insert call.1
        (coordinator.nodeTasks.tasksOf selectedNode))
    have growsByOne :=
      Finset.card_insert_le call.1 (coordinator.nodeTasks.tasksOf selectedNode)
    rw [← load] at grows growsByOne
    have after (node : String) :
        (coordinator.enter call.1 selectedNode call.2.1 call.2.2).nodeTasks.load
            node =
          if node = selectedNode then
            (insert call.1 (coordinator.nodeTasks.tasksOf selectedNode)).card
          else coordinator.nodeTasks.load node := by
      rw [load, enter, tasksOf_insert]
      split <;> rfl
    intro busy isBusy
    obtain ⟨bounded, differs⟩ := balanced busy isBusy
    have notMore := least busy isBusy
    rw [after]
    refine ⟨by split <;> omega, fun idle isIdle => ?_⟩
    have differsIdle := differs idle isIdle
    have notMoreIdle := least idle isIdle
    rw [after]
    rcases eq_or_ne idle selectedNode with rfl | other
    · rw [if_pos rfl]
      split <;> omega
    · rw [if_neg other]
      split <;> omega

end Loads

/-- Two rules are assigned to two nodes. -/
theorem two_rules_on_two_nodes :
    let coordinator :=
      assigned ⟨0, 0, false⟩ ["a", "b"] [("r1", 0, 0), ("r2", 0, 0)]
    coordinator.nodeTasks.load "a" ≤ coordinator.nodeTasks.load "b" + 1 :=
  loads_differ_by_one _ (by decide) "a" (by decide) "b" (by decide)

end ChronoDB.Distributed
