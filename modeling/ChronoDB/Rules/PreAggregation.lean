import ChronoDB.Query.FrequencyTracker
import ChronoDB.Query.Router

namespace ChronoDB.Rules

open Library Query List FiniteMap

/-!
# Automatic pre-aggregation rules

Rules are created for queries that are frequent and deleted when they are not.
Creating does not look for a rule that exists, and deleting goes by the time of
the last query in the rule, which recording a query does not touch.
-/

structure PreAggregationManagerConfig where
  autoCreateEnabled : Bool
  frequencyThreshold : UInt64
  autoCleanupEnabled : Bool
  lowFrequencyThreshold : UInt64
  observationPeriodHours : UInt64
  maxAutoRules : ℕ
  deriving Repr, DecidableEq

structure RuleUpdates where
  name : Option String
  expr : Option Text
  status : Option RuleStatus
  deriving Repr, DecidableEq

abbrev RuleMap := FiniteMap String PreAggregationRule

structure PreAggregationManager where
  rules : RuleMap
  frequencyTracker : FrequencyTracker
  config : PreAggregationManagerConfig

/-- A frequent query, with the id that a rule for it would be given. -/
structure Candidate where
  query : Text
  frequency : UInt64
  newId : String
  deriving Repr, DecidableEq

/-- The letters and digits of a query, at most fifty of them. -/
def generateRuleName (isAlphanumeric : Char → Bool) (query : Text) : String :=
  let sanitized :=
    (query.filter fun char => isAlphanumeric char || char == '_').take 50
  "auto_" ++ String.ofList sanitized

/-- `PreAggregationRule::new`, in the state that `create_rule` gives it. -/
def newRule (id name : String) (expr : Text) (isAutoCreated : Bool) :
    PreAggregationRule where
  id := id
  name := name
  expr := expr
  isAutoCreated := isAutoCreated
  queryFrequency := 0
  lastQueryTime := 0
  status := .active

namespace PreAggregationManager

variable (classes : RegexClasses) (isAlphanumeric : Char → Bool)

def new (tracker : FrequencyTracker) (config : PreAggregationManagerConfig) :
    PreAggregationManager where
  rules := ∅
  frequencyTracker := tracker
  config := config

def getAutoCreatedRules (manager : PreAggregationManager) :
    List PreAggregationRule :=
  (manager.rules.entries.map Sigma.snd).filter PreAggregationRule.isAutoCreated

def updateRule
    (manager : PreAggregationManager) (id : String) (updates : RuleUpdates) :
    PreAggregationManager :=
  match manager.rules.lookup id with
  | none => manager
  | some rule =>
    { manager with
      rules := manager.rules.insert id
        { rule with
          name := updates.name.getD rule.name
          expr := updates.expr.getD rule.expr
          status := updates.status.getD rule.status } }

def deleteRule (manager : PreAggregationManager) (id : String) :
    PreAggregationManager :=
  { manager with rules := manager.rules.erase id }

/-- The loop of `auto_create_rules`; `count` is the number of automatic rules. -/
def createLoop
    (config : PreAggregationManagerConfig) (rules : RuleMap) (count : ℕ) :
    List Candidate → RuleMap × List Candidate
  | [] => (rules, [])
  | candidate :: rest =>
    if config.frequencyThreshold ≤ candidate.frequency then
      let created :=
        rules.insert candidate.newId
          (newRule candidate.newId
            (generateRuleName isAlphanumeric candidate.query)
            candidate.query true)
      if config.maxAutoRules ≤ count + 1 then
        (created, [candidate])
      else
        let later := createLoop config created (count + 1) rest
        (later.1, candidate :: later.2)
    else
      createLoop config rules count rest

/-- The manager after the call, and the candidates that got a rule. -/
def autoCreateRules
    (manager : PreAggregationManager) (candidates : List Candidate) :
    PreAggregationManager × List Candidate :=
  let autoRulesCount := manager.getAutoCreatedRules.length
  if manager.config.autoCreateEnabled = false then
    (manager, [])
  else if manager.config.maxAutoRules ≤ autoRulesCount then
    (manager, [])
  else
    let outcome :=
      createLoop isAlphanumeric manager.config manager.rules autoRulesCount
        candidates
    ({ manager with rules := outcome.1 }, outcome.2)

/-- Whether the clean-up takes a rule to be out of use. -/
def isStale (manager : PreAggregationManager) (rule : PreAggregationRule)
    (now : Timestamp) :
    Bool :=
  manager.frequencyTracker.getFrequencyPerHour classes rule.expr <
      (manager.config.lowFrequencyThreshold.toNat : Value) &&
    hoursInMillis manager.config.observationPeriodHours <
      now - rule.lastQueryTime

def autoCleanupRules
    (manager : PreAggregationManager) (clock : String → Timestamp) :
    PreAggregationManager × List PreAggregationRule :=
  if manager.config.autoCleanupEnabled = false then
    (manager, [])
  else
    let deleted :=
      manager.getAutoCreatedRules.filter fun rule =>
        manager.isStale classes rule (clock rule.id)
    (deleted.foldl (fun manager rule => manager.deleteRule rule.id) manager,
      deleted)

end PreAggregationManager

/-!
## Runs
-/

/--
A manager with the records of all queries, the rules by the queries they were
made for, and the rules that were deleted although their query was in use.
-/
structure AutoRules where
  manager : PreAggregationManager
  recorded : List QueryRecord
  madeFor : List (String × Text)
  deletedInUse : List PreAggregationRule

inductive AutoRulesAction where
  | recordQuery (query : Text) (clock : RecordClock)
  | autoCreateRules (candidates : List Candidate)
  | autoCleanupRules (clock : String → Timestamp)
  | updateRule (id : String) (updates : RuleUpdates)
  | deleteRule (id : String)

namespace AutoRules

variable (classes : RegexClasses) (isAlphanumeric : Char → Bool)

def start
    (trackerConfig : FrequencyConfig) (config : PreAggregationManagerConfig) :
    AutoRules where
  manager := .new (.new trackerConfig) config
  recorded := []
  madeFor := []
  deletedInUse := []

/-- A query with the normal form of a rule was recorded in the last period. -/
def InUse (state : AutoRules) (rule : PreAggregationRule) (now : Timestamp) :
    Prop :=
  ∃ record ∈ state.recorded,
    normalizeQuery classes record.query = normalizeQuery classes rule.expr ∧
      now.toInt - 3600000 * state.manager.config.observationPeriodHours.toNat ≤
          record.timestamp.toInt ∧
        record.timestamp.toInt ≤ now.toInt

instance (state : AutoRules) (rule : PreAggregationRule) (now : Timestamp) :
    Decidable (state.InUse classes rule now) :=
  inferInstanceAs (Decidable (∃ record ∈ _, _))

def perform (state : AutoRules) : AutoRulesAction → AutoRules
  | .recordQuery query clock =>
    { state with
      manager.frequencyTracker :=
        state.manager.frequencyTracker.recordQuery classes query clock
      recorded := ⟨clock.record, query⟩ :: state.recorded }
  | .autoCreateRules candidates =>
    let outcome := state.manager.autoCreateRules isAlphanumeric candidates
    { state with
      manager := outcome.1
      madeFor :=
        (outcome.2.map fun candidate => (candidate.newId, candidate.query)) ++
          state.madeFor }
  | .autoCleanupRules clock =>
    let outcome := state.manager.autoCleanupRules classes clock
    { state with
      manager := outcome.1
      deletedInUse :=
        (outcome.2.filter fun rule =>
            state.InUse classes rule (clock rule.id)) ++
          state.deletedInUse }
  | .updateRule id updates =>
    { state with manager := state.manager.updateRule id updates }
  | .deleteRule id => { state with manager := state.manager.deleteRule id }

/--
The candidates are the frequent queries in some order of the map, with ids that
were not used before.
-/
def Possible (state : AutoRules) : AutoRulesAction → Prop
  | .autoCreateRules candidates =>
    (candidates.map fun candidate =>
        (candidate.query, candidate.frequency)).Perm
        state.manager.frequencyTracker.getHighFrequencyQueries ∧
      (candidates.map Candidate.newId).Nodup ∧
        ∀ candidate ∈ candidates, candidate.newId ∉ state.madeFor.map Prod.fst
  | _ => True

def Step (state : AutoRules) (action : AutoRulesAction) (after : AutoRules) :
    Prop :=
  state.Possible action ∧ state.perform classes isAlphanumeric action = after

def OncePerQuery (state : AutoRules) : Prop :=
  ∀ id other query,
    (id, query) ∈ state.madeFor → (other, query) ∈ state.madeFor →
      id ∈ state.manager.rules → other ∈ state.manager.rules → id = other

structure Useful (state : AutoRules) : Prop where
  once : state.OncePerQuery
  unused : state.deletedInUse = []

def due (config : PreAggregationManagerConfig) (count : ℕ)
    (candidates : List Candidate) :
    List Candidate :=
  (candidates.filter fun candidate =>
      config.frequencyThreshold ≤ candidate.frequency).take
    (config.maxAutoRules - count)

/--
No rule is there yet for a query that gets one, and a clean-up after the period
finds the queries that are in use frequent.
-/
def KeepsUseful (state : AutoRules) : AutoRulesAction → Prop
  | .autoCreateRules candidates =>
    state.manager.config.autoCreateEnabled = true →
      ∀ candidate ∈ due state.manager.config
          state.manager.getAutoCreatedRules.length candidates,
        ∀ id, (id, candidate.query) ∈ state.madeFor → id ∉ state.manager.rules
  | .autoCleanupRules clock =>
    state.manager.config.autoCleanupEnabled = true →
      ∀ rule ∈ state.manager.getAutoCreatedRules,
        hoursInMillis state.manager.config.observationPeriodHours <
            clock rule.id →
          state.InUse classes rule (clock rule.id) →
            (state.manager.config.lowFrequencyThreshold.toNat : Value) ≤
              state.manager.frequencyTracker.getFrequencyPerHour classes
                rule.expr
  | _ => True

end AutoRules

/-!
## What creating and deleting does to the rules
-/

namespace PreAggregationManager

variable {classes : RegexClasses} {isAlphanumeric : Char → Bool}

def addRule
    (isAlphanumeric : Char → Bool) (rules : RuleMap) (candidate : Candidate) :
    RuleMap :=
  rules.insert candidate.newId
    (newRule candidate.newId
      (generateRuleName isAlphanumeric candidate.query)
      candidate.query true)

theorem createLoop_eq {config : PreAggregationManagerConfig} {count : ℕ}
    (below : count < config.maxAutoRules) (rules : RuleMap)
    (candidates : List Candidate) :
    createLoop isAlphanumeric config rules count candidates =
      ((AutoRules.due config count candidates).foldl
          (addRule isAlphanumeric) rules,
        AutoRules.due config count candidates) := by
  induction candidates generalizing rules count with
  | nil =>
    rw [AutoRules.due, filter_nil, take_nil]
    rfl
  | cons candidate rest inductionHypothesis =>
    rw [createLoop]
    by_cases frequent : config.frequencyThreshold ≤ candidate.frequency
    · have isDue :
          AutoRules.due config count (candidate :: rest) =
            candidate :: AutoRules.due config (count + 1) rest := by
        rw [AutoRules.due, AutoRules.due, filter_cons,
          if_pos (decide_eq_true frequent)]
        have isNext :
            config.maxAutoRules - count =
              config.maxAutoRules - (count + 1) + 1 := by
          omega
        rw [isNext, take_succ_cons]
      rw [if_pos frequent, isDue]
      by_cases last : config.maxAutoRules ≤ count + 1
      · have noOthers : AutoRules.due config (count + 1) rest = [] := by
          rw [AutoRules.due, Nat.sub_eq_zero_of_le last, take_zero]
        rw [if_pos last, noOthers]
        rfl
      · rw [if_neg last, inductionHypothesis (Nat.not_le.mp last)]
        rfl
    · have notDue :
          AutoRules.due config count (candidate :: rest) =
            AutoRules.due config count rest := by
        rw [AutoRules.due, filter_cons,
          if_neg (by rw [decide_eq_true_eq]; exact frequent)]
        rfl
      rw [if_neg frequent, notDue]
      exact inductionHypothesis below rules

def created (manager : PreAggregationManager) (candidates : List Candidate) :
    List Candidate :=
  if manager.config.autoCreateEnabled = true then
    AutoRules.due manager.config manager.getAutoCreatedRules.length candidates
  else
    []

variable {rules : RuleMap} {candidates : List Candidate} {id : String}
  (manager : PreAggregationManager) {rule : PreAggregationRule}

theorem autoCreateRules_eq (candidates : List Candidate) :
    manager.autoCreateRules isAlphanumeric candidates =
      ({ manager with
          rules :=
            (manager.created candidates).foldl (addRule isAlphanumeric)
              manager.rules },
        manager.created candidates) := by
  rw [autoCreateRules, created]
  dsimp only
  by_cases enabled : manager.config.autoCreateEnabled = true
  · rw [if_neg (by rw [enabled]; decide), if_pos enabled]
    by_cases full :
        manager.config.maxAutoRules ≤ manager.getAutoCreatedRules.length
    · have noneDue :
          AutoRules.due manager.config manager.getAutoCreatedRules.length
            candidates = [] := by
        rw [AutoRules.due, Nat.sub_eq_zero_of_le full, take_zero]
      rw [if_pos full, noneDue]
      rfl
    · rw [if_neg full, createLoop_eq (Nat.not_le.mp full)]
  · rw [if_pos (Bool.not_eq_true _ ▸ enabled), if_neg enabled]
    rfl

theorem lookup_addRules
    (found :
      (candidates.foldl (addRule isAlphanumeric) rules).lookup id = some rule) :
    rules.lookup id = some rule ∨
      ∃ candidate ∈ candidates, candidate.newId = id ∧
        rule =
          newRule id (generateRuleName isAlphanumeric candidate.query)
            candidate.query true := by
  induction candidates generalizing rules with
  | nil => exact .inl found
  | cons candidate rest inductionHypothesis =>
    rcases inductionHypothesis found with before | ⟨other, member, isRule⟩
    · rw [addRule] at before
      by_cases same : id = candidate.newId
      · subst same
        rw [AList.lookup_insert] at before
        cases before
        exact .inr ⟨candidate, mem_cons_self, rfl, rfl⟩
      · rw [AList.lookup_insert_ne same] at before
        exact .inl before
    · exact .inr ⟨other, mem_cons_of_mem _ member, isRule⟩

theorem mem_addRules_iff :
    id ∈ candidates.foldl (addRule isAlphanumeric) rules ↔
      id ∈ rules ∨ id ∈ candidates.map Candidate.newId := by
  induction candidates generalizing rules with
  | nil =>
    rw [foldl_nil, map_nil]
    exact (or_iff_left not_mem_nil).symm
  | cons candidate rest inductionHypothesis =>
    rw [foldl_cons, inductionHypothesis, addRule, AList.mem_insert, map_cons,
      mem_cons, or_comm (a := id = candidate.newId), or_assoc]

theorem length_keys_addRules
    (fresh : ∀ candidate ∈ candidates, candidate.newId ∉ rules)
    (distinct : (candidates.map Candidate.newId).Nodup) :
    (candidates.foldl (addRule isAlphanumeric) rules).keys.length =
      rules.keys.length + candidates.length := by
  induction candidates generalizing rules with
  | nil => rfl
  | cons candidate rest inductionHypothesis =>
    rw [map_cons, nodup_cons] at distinct
    have isNew : rules.lookup candidate.newId = none :=
      AList.lookup_eq_none.mpr (fresh candidate mem_cons_self)
    have restFresh : ∀ other ∈ rest,
        other.newId ∉ addRule isAlphanumeric rules candidate := by
      intro other member
      rw [addRule, AList.mem_insert]
      rintro (same | present)
      · exact distinct.1 (same ▸ mem_map_of_mem member)
      · exact fresh other (mem_cons_of_mem _ member) present
    rw [foldl_cons, inductionHypothesis restFresh distinct.2, addRule,
      length_keys_insert, isNew, length_cons]
    simp only [Option.isSome_none, Bool.false_eq_true, if_false]
    omega

def withoutRules (rules : RuleMap) (deleted : List PreAggregationRule) :
    RuleMap :=
  deleted.foldl (fun rules rule => rules.erase rule.id) rules

theorem foldl_deleteRule (deleted : List PreAggregationRule) :
    deleted.foldl (fun manager rule => manager.deleteRule rule.id) manager =
      { manager with rules := withoutRules manager.rules deleted } := by
  induction deleted generalizing manager with
  | nil => rfl
  | cons first rest inductionHypothesis =>
    exact inductionHypothesis (manager.deleteRule first.id)

theorem lookup_of_erase
    {erased id : String} (found : (rules.erase erased).lookup id = some rule) :
    rules.lookup id = some rule := by
  by_cases same : id = erased
  · subst same
    rw [AList.lookup_erase] at found
    cases found
  · rw [AList.lookup_erase_ne same] at found
    exact found

theorem lookup_withoutRules {deleted : List PreAggregationRule}
    (found : (withoutRules rules deleted).lookup id = some rule) :
    rules.lookup id = some rule := by
  induction deleted generalizing rules with
  | nil => exact found
  | cons first rest inductionHypothesis =>
    exact lookup_of_erase (inductionHypothesis found)

theorem length_keys_withoutRules_le
    (rules : RuleMap) (deleted : List PreAggregationRule) :
    (withoutRules rules deleted).keys.length ≤ rules.keys.length := by
  induction deleted generalizing rules with
  | nil => exact Nat.le_refl _
  | cons first rest inductionHypothesis =>
    exact (inductionHypothesis (rules.erase first.id)).trans
      (length_keys_erase_le rules first.id)

/-- The rules that a clean-up deletes. -/
def deletedRules (classes : RegexClasses) (manager : PreAggregationManager)
    (clock : String → Timestamp) :
    List PreAggregationRule :=
  if manager.config.autoCleanupEnabled = true then
    manager.getAutoCreatedRules.filter fun rule =>
      manager.isStale classes rule (clock rule.id)
  else
    []

theorem autoCleanupRules_eq (clock : String → Timestamp) :
    manager.autoCleanupRules classes clock =
      ({ manager with
          rules :=
            withoutRules manager.rules (manager.deletedRules classes clock) },
        manager.deletedRules classes clock) := by
  rw [autoCleanupRules, deletedRules]
  by_cases enabled : manager.config.autoCleanupEnabled = true
  · rw [if_neg (by rw [enabled]; decide), if_pos enabled]
    dsimp only
    rw [foldl_deleteRule]
  · rw [if_pos (Bool.not_eq_true _ ▸ enabled), if_neg enabled]
    rfl

theorem updateRule_cases (id : String) (updates : RuleUpdates) :
    manager.updateRule id updates = manager ∨
      ∃ rule changed,
        manager.rules.lookup id = some rule ∧
          manager.updateRule id updates =
              { manager with rules := manager.rules.insert id changed } ∧
            changed.id = rule.id ∧
              changed.isAutoCreated = rule.isAutoCreated ∧
                changed.lastQueryTime = rule.lastQueryTime := by
  rw [updateRule]
  cases found : manager.rules.lookup id with
  | none => exact .inl rfl
  | some rule => exact .inr ⟨rule, _, rfl, rfl, rfl, rfl, rfl⟩

end PreAggregationManager

/-!
## What every run keeps
-/

namespace AutoRules

variable {classes : RegexClasses} {isAlphanumeric : Char → Bool}

/--
All rules are automatic and were never marked as queried, each was made for a
query under an id of its own, and there are at most as many as allowed.
-/
structure Valid (config : PreAggregationManagerConfig) (state : AutoRules) :
    Prop where
  sameConfig : state.manager.config = config
  automatic : ∀ id rule, state.manager.rules.lookup id = some rule →
    rule.id = id ∧ rule.isAutoCreated = true ∧ rule.lastQueryTime = 0
  made : ∀ id ∈ state.manager.rules, id ∈ state.madeFor.map Prod.fst
  distinct : (state.madeFor.map Prod.fst).Nodup
  bounded : state.manager.rules.keys.length ≤ config.maxAutoRules

theorem valid_start
    (trackerConfig : FrequencyConfig) (config : PreAggregationManagerConfig) :
    (start trackerConfig config).Valid config where
  sameConfig := rfl
  automatic := by
    intro id rule found
    cases found
  made := by
    intro id member
    cases member
  distinct := nodup_nil
  bounded := Nat.zero_le _

variable {config : PreAggregationManagerConfig} {state : AutoRules}
  {candidates : List Candidate} {action : AutoRulesAction}

theorem Valid.autoCreated_eq (valid : state.Valid config) :
    state.manager.getAutoCreatedRules =
      state.manager.rules.entries.map Sigma.snd := by
  apply filter_eq_self.mpr
  intro rule member
  obtain ⟨entry, isEntry, rfl⟩ := mem_map.mp member
  exact (valid.automatic entry.1 entry.2 (AList.mem_lookup_iff.mpr isEntry)).2.1

theorem Valid.length_autoCreated (valid : state.Valid config) :
    state.manager.getAutoCreatedRules.length =
      state.manager.rules.keys.length := by
  rw [valid.autoCreated_eq, length_map, AList.keys, List.keys, length_map]

theorem Valid.removeRules {state after : AutoRules} (valid : state.Valid config)
    (sameConfig : after.manager.config = state.manager.config)
    (sameOrigins : after.madeFor = state.madeFor)
    (fewer : ∀ id rule, after.manager.rules.lookup id = some rule →
      state.manager.rules.lookup id = some rule)
    (shorter :
      after.manager.rules.keys.length ≤ state.manager.rules.keys.length) :
    after.Valid config where
  sameConfig := sameConfig.trans valid.sameConfig
  automatic := fun id rule found => valid.automatic id rule (fewer id rule found)
  made := by
    intro id member
    obtain ⟨rule, found⟩ := exists_lookup member
    rw [sameOrigins]
    exact valid.made id (mem_of_lookup (fewer id rule found))
  distinct := sameOrigins ▸ valid.distinct
  bounded := shorter.trans valid.bounded

theorem created_sublist
    (manager : PreAggregationManager) (candidates : List Candidate) :
    (manager.created candidates).Sublist candidates := by
  rw [PreAggregationManager.created]
  split
  · exact (take_sublist _ _).trans filter_sublist
  · exact nil_sublist _

theorem Valid.autoCreate (valid : state.Valid config)
    (possible : state.Possible (.autoCreateRules candidates)) :
    (state.perform classes isAlphanumeric
      (.autoCreateRules candidates)).Valid config := by
  obtain ⟨_, distinctIds, unused⟩ := possible
  have some := created_sublist state.manager candidates
  have createdDistinct :
      ((state.manager.created candidates).map Candidate.newId).Nodup :=
    distinctIds.sublist (some.map Candidate.newId)
  have createdUnused : ∀ candidate ∈ state.manager.created candidates,
      candidate.newId ∉ state.madeFor.map Prod.fst :=
    fun candidate member => unused candidate (some.subset member)
  have fresh : ∀ candidate ∈ state.manager.created candidates,
      candidate.newId ∉ state.manager.rules :=
    fun candidate member present =>
      createdUnused candidate member (valid.made _ present)
  rw [perform, PreAggregationManager.autoCreateRules_eq]
  refine ⟨valid.sameConfig, ?_, ?_, ?_, ?_⟩
  · intro id rule found
    rcases PreAggregationManager.lookup_addRules found with
      before | ⟨candidate, _, _, rfl⟩
    · exact valid.automatic id rule before
    · exact ⟨rfl, rfl, rfl⟩
  · intro id member
    dsimp only at member ⊢
    rw [map_append, map_map, mem_append]
    rcases PreAggregationManager.mem_addRules_iff.mp member with
      before | added
    · exact .inr (valid.made id before)
    · exact .inl added
  · dsimp only
    rw [map_append, map_map]
    refine createdDistinct.append valid.distinct ?_
    intro id isCreated isMade
    obtain ⟨candidate, member, rfl⟩ := mem_map.mp isCreated
    exact createdUnused candidate member isMade
  · dsimp only
    rw [PreAggregationManager.length_keys_addRules fresh createdDistinct]
    have bounded := valid.bounded
    have atMost :
        (state.manager.created candidates).length ≤
          config.maxAutoRules - state.manager.rules.keys.length := by
      rw [PreAggregationManager.created]
      split
      · rw [← valid.length_autoCreated, ← valid.sameConfig]
        exact length_take_le _ _
      · exact Nat.zero_le _
    omega

theorem Valid.step {state after : AutoRules} (valid : state.Valid config)
    (step : Step classes isAlphanumeric state action after) :
    after.Valid config := by
  obtain ⟨possible, rfl⟩ := step
  cases action with
  | recordQuery query clock =>
    exact valid.removeRules rfl rfl (fun _ _ found => found) (Nat.le_refl _)
  | autoCreateRules candidates => exact valid.autoCreate possible
  | autoCleanupRules clock =>
    rw [perform, PreAggregationManager.autoCleanupRules_eq]
    exact valid.removeRules rfl rfl
      (fun _ _ => PreAggregationManager.lookup_withoutRules)
      (PreAggregationManager.length_keys_withoutRules_le _ _)
  | updateRule id updates =>
    rw [perform]
    rcases state.manager.updateRule_cases id updates with
      same | ⟨rule, changed, found, isAfter, sameId, sameOrigin, sameTime⟩
    · rw [same]
      exact valid
    · rw [isAfter]
      have present := mem_of_lookup found
      refine ⟨valid.sameConfig, ?_, ?_, valid.distinct, ?_⟩
      · intro other otherRule isOther
        dsimp only at isOther
        by_cases same : other = id
        · subst same
          rw [AList.lookup_insert] at isOther
          cases isOther
          rw [sameId, sameOrigin, sameTime]
          exact valid.automatic other rule found
        · rw [AList.lookup_insert_ne same] at isOther
          exact valid.automatic other otherRule isOther
      · intro other member
        rcases (AList.mem_insert _).mp member with rfl | before
        · exact valid.made other present
        · exact valid.made other before
      · dsimp only
        rw [length_keys_insert, found]
        exact valid.bounded
  | deleteRule id =>
    rw [perform]
    exact valid.removeRules rfl rfl
      (fun _ _ => PreAggregationManager.lookup_of_erase)
      (length_keys_erase_le _ _)

theorem OncePerQuery.ofFewer
    {state after : AutoRules} (once : state.OncePerQuery)
    (sameOrigins : after.madeFor = state.madeFor)
    (fewer : ∀ id ∈ after.manager.rules, id ∈ state.manager.rules) :
    after.OncePerQuery := by
  intro id other query isMade otherMade member otherMember
  rw [sameOrigins] at isMade otherMade
  exact once id other query isMade otherMade (fewer id member)
    (fewer other otherMember)

theorem nodup_queries
    (possible : state.Possible (.autoCreateRules candidates)) :
    (candidates.map Candidate.query).Nodup := by
  have sameQueries := possible.1.map Prod.fst
  rw [map_map] at sameQueries
  exact sameQueries.nodup_iff.mpr
    state.manager.frequencyTracker.nodup_getHighFrequencyQueries

theorem not_mem_of_created
    (possible : state.Possible (.autoCreateRules candidates))
    {candidate : Candidate}
    (isCreated : candidate ∈ state.manager.created candidates) :
    candidate.newId ∉ state.madeFor.map Prod.fst :=
  possible.2.2 candidate
    ((created_sublist state.manager candidates).subset isCreated)

theorem mem_rules_of_made
    (possible : state.Possible (.autoCreateRules candidates)) {id : String}
    {query : Text} (isMade : (id, query) ∈ state.madeFor)
    (member :
      id ∈ (state.manager.created candidates).foldl
        (PreAggregationManager.addRule isAlphanumeric)
        state.manager.rules) :
    id ∈ state.manager.rules := by
  rcases PreAggregationManager.mem_addRules_iff.mp member with
    before | added
  · exact before
  · obtain ⟨candidate, isCreated, rfl⟩ := mem_map.mp added
    exact absurd (mem_map_of_mem (f := Prod.fst) isMade)
      (not_mem_of_created possible isCreated)

theorem once_autoCreate_iff (once : state.OncePerQuery)
    (possible : state.Possible (.autoCreateRules candidates)) :
    (state.perform classes isAlphanumeric
        (.autoCreateRules candidates)).OncePerQuery ↔
      ∀ candidate ∈ state.manager.created candidates,
        ∀ id, (id, candidate.query) ∈ state.madeFor →
          id ∉ state.manager.rules := by
  have distinctQueries := (nodup_queries possible).sublist
    ((created_sublist state.manager candidates).map Candidate.query)
  have earlier := @mem_rules_of_made isAlphanumeric _ _ possible
  rw [perform, PreAggregationManager.autoCreateRules_eq, OncePerQuery]
  dsimp only
  constructor
  · intro onceAfter candidate isCreated id isMade present
    have added := mem_map_of_mem
      (f := fun candidate : Candidate => (candidate.newId, candidate.query))
      isCreated
    have same := onceAfter id candidate.newId candidate.query
      (mem_append_right _ isMade) (mem_append_left _ added)
      (PreAggregationManager.mem_addRules_iff.mpr (.inl present))
      (PreAggregationManager.mem_addRules_iff.mpr
        (.inr (mem_map_of_mem isCreated)))
    rw [same] at isMade
    exact not_mem_of_created possible isCreated
      (mem_map_of_mem (f := Prod.fst) isMade)
  · intro noneAgain id other query isMade otherMade member otherMember
    rcases mem_append.mp isMade with added | before
    · obtain ⟨candidate, isCreated, isPair⟩ := mem_map.mp added
      cases isPair
      rcases mem_append.mp otherMade with otherAdded | otherBefore
      · obtain ⟨another, otherCreated, isPair⟩ := mem_map.mp otherAdded
        obtain ⟨rfl, sameQuery⟩ := Prod.mk.inj isPair
        rw [inj_on_of_nodup_map distinctQueries otherCreated isCreated
          sameQuery]
      · exact absurd (earlier otherBefore otherMember)
          (noneAgain candidate isCreated other otherBefore)
    · rcases mem_append.mp otherMade with otherAdded | otherBefore
      · obtain ⟨another, otherCreated, isPair⟩ := mem_map.mp otherAdded
        cases isPair
        exact absurd (earlier before member)
          (noneAgain another otherCreated id before)
      · exact once id other query before otherBefore
          (earlier before member) (earlier otherBefore otherMember)

theorem isStale_iff
    {manager : PreAggregationManager} {rule : PreAggregationRule}
    (neverQueried : rule.lastQueryTime = 0) (now : Timestamp) :
    manager.isStale classes rule now = true ↔
      manager.frequencyTracker.getFrequencyPerHour classes rule.expr <
          (manager.config.lowFrequencyThreshold.toNat : Value) ∧
        hoursInMillis manager.config.observationPeriodHours < now := by
  rw [PreAggregationManager.isStale, neverQueried, Int64.sub_zero,
    Bool.and_eq_true, decide_eq_true_eq, decide_eq_true_eq]

theorem unused_autoCleanup_iff
    {clock : String → Timestamp} (valid : state.Valid config) :
    (state.manager.deletedRules classes clock).filter
        (fun rule => state.InUse classes rule (clock rule.id)) = [] ↔
      state.KeepsUseful classes (.autoCleanupRules clock) := by
  rw [PreAggregationManager.deletedRules, KeepsUseful, filter_eq_nil_iff]
  by_cases enabled : state.manager.config.autoCleanupEnabled = true
  · rw [if_pos enabled]
    have neverQueried : ∀ rule ∈ state.manager.getAutoCreatedRules,
        rule.lastQueryTime = 0 := by
      intro rule member
      rw [valid.autoCreated_eq] at member
      obtain ⟨entry, isEntry, rfl⟩ := mem_map.mp member
      exact (valid.automatic entry.1 entry.2
        (AList.mem_lookup_iff.mpr isEntry)).2.2
    constructor
    · intro noneInUse _ rule isAuto pastPeriod inUse
      by_contra infrequent
      have stale := (isStale_iff (neverQueried rule isAuto) _).mpr
        ⟨not_le.mp infrequent, pastPeriod⟩
      exact noneInUse rule (mem_filter.mpr ⟨isAuto, stale⟩)
        (decide_eq_true inUse)
    · intro frequent rule deleted inUse
      obtain ⟨isAuto, stale⟩ := mem_filter.mp deleted
      obtain ⟨infrequent, pastPeriod⟩ :=
        (isStale_iff (neverQueried rule isAuto) _).mp stale
      exact absurd
        (frequent enabled rule isAuto pastPeriod (of_decide_eq_true inUse))
        (not_le.mpr infrequent)
  · rw [if_neg enabled]
    refine iff_of_true ?_ (fun isEnabled => absurd isEnabled enabled)
    intro rule member
    cases member

theorem created_none_again_iff :
    (∀ candidate ∈ state.manager.created candidates,
        ∀ id, (id, candidate.query) ∈ state.madeFor →
          id ∉ state.manager.rules) ↔
      state.KeepsUseful classes (.autoCreateRules candidates) := by
  rw [KeepsUseful, PreAggregationManager.created]
  by_cases enabled : state.manager.config.autoCreateEnabled = true
  · rw [if_pos enabled]
    exact ⟨fun noneAgain _ => noneAgain, fun noneAgain => noneAgain enabled⟩
  · rw [if_neg enabled]
    refine iff_of_true ?_ (fun isEnabled => absurd isEnabled enabled)
    intro candidate member
    cases member

theorem useful_iff_of_step
    {state after : AutoRules} (valid : state.Valid config)
    (useful : state.Useful)
    (step : Step classes isAlphanumeric state action after) :
    after.Useful ↔ state.KeepsUseful classes action := by
  obtain ⟨possible, rfl⟩ := step
  cases action with
  | recordQuery query clock =>
    exact iff_of_true ⟨useful.once, useful.unused⟩ trivial
  | autoCreateRules candidates =>
    rw [← created_none_again_iff,
      ← @once_autoCreate_iff classes isAlphanumeric _ _ useful.once possible]
    constructor
    · exact Useful.once
    · exact fun once => ⟨once, useful.unused⟩
  | autoCleanupRules clock =>
    rw [← unused_autoCleanup_iff valid]
    rw [perform, PreAggregationManager.autoCleanupRules_eq]
    constructor
    · intro usefulAfter
      exact (append_eq_nil_iff.mp usefulAfter.unused).1
    · intro noneInUse
      refine ⟨useful.once.ofFewer rfl ?_, ?_⟩
      · intro id member
        obtain ⟨rule, found⟩ := exists_lookup member
        exact mem_of_lookup
          (PreAggregationManager.lookup_withoutRules found)
      · exact append_eq_nil_iff.mpr ⟨noneInUse, useful.unused⟩
  | updateRule id updates =>
    refine iff_of_true ?_ trivial
    rw [perform]
    rcases state.manager.updateRule_cases id updates with
      same | ⟨rule, changed, found, isAfter, _⟩
    · rw [same]
      exact useful
    · rw [isAfter]
      refine ⟨useful.once.ofFewer rfl ?_, useful.unused⟩
      intro other member
      rcases (AList.mem_insert _).mp member with rfl | before
      · exact mem_of_lookup found
      · exact before
  | deleteRule id =>
    refine iff_of_true ⟨useful.once.ofFewer rfl ?_, useful.unused⟩ trivial
    intro other member
    obtain ⟨rule, found⟩ := exists_lookup member
    exact mem_of_lookup (PreAggregationManager.lookup_of_erase found)

theorem step_functional {state first second : AutoRules}
    (firstStep : Step classes isAlphanumeric state action first)
    (secondStep : Step classes isAlphanumeric state action second) :
    first = second :=
  firstStep.2.symm.trans secondStep.2

/--
In every run from a new manager there are at most as many automatic rules as
allowed.  At all times they are made once for a query and only those out of use
were deleted, exactly when no rule is made for a query that has one, and a
clean-up after the observation period finds the queries in use frequent.
-/
theorem autoRules_bounded_and_useful_iff {trackerConfig : FrequencyConfig}
    {config : PreAggregationManagerConfig} {actions : List AutoRulesAction}
    {final : AutoRules}
    (run :
      Run (Step classes isAlphanumeric) (start trackerConfig config) actions
        final) :
    final.manager.getAutoCreatedRules.length ≤ config.maxAutoRules ∧
      ((∀ passed remaining middle,
          actions = passed ++ remaining →
            Run (Step classes isAlphanumeric) (start trackerConfig config)
              passed middle →
              middle.Useful) ↔
        Run
          (Restrict (Step classes isAlphanumeric)
            fun state => state.KeepsUseful classes)
          (start trackerConfig config) actions final) := by
  have validStart := valid_start trackerConfig config
  have valid : final.Valid config :=
    run.preserves (fun valid step => valid.step step) validStart
  refine ⟨?_, ?_⟩
  · rw [valid.length_autoCreated]
    exact valid.bounded
  · have usefulStart : (start trackerConfig config).Useful := by
      refine ⟨?_, rfl⟩
      intro id other query isMade
      cases isMade
    exact run.always_iff_restrict step_functional validStart usefulStart
      fun valid useful step =>
        ⟨valid.step step, useful_iff_of_step valid useful step⟩

/-- A tracker over a day, to which a query is frequent from the second time. -/
def exampleTrackerConfig : FrequencyConfig where
  windowSizeHours := 24
  frequencyThreshold := 2
  maxTrackedQueries := 100

/-- A manager that makes up to a hundred rules and looks two days back. -/
def exampleManagerConfig : PreAggregationManagerConfig where
  autoCreateEnabled := true
  frequencyThreshold := 2
  autoCleanupEnabled := true
  lowFrequencyThreshold := 5
  observationPeriodHours := 48
  maxAutoRules := 100

abbrev exampleStart : AutoRules :=
  start exampleTrackerConfig exampleManagerConfig

/-- What all clocks read. -/
def exampleTime : Timestamp :=
  1700000000000

def recordExample : AutoRulesAction :=
  .recordQuery "up".toList ⟨exampleTime, exampleTime, exampleTime⟩

def createExample (newId : String) : AutoRulesAction :=
  .autoCreateRules [⟨"up".toList, 2, newId⟩]

/-- A query is recorded twice and gets a rule. -/
def exampleActions : List AutoRulesAction :=
  [recordExample, recordExample, createExample "rule-1"]

abbrev performExample : AutoRules → AutoRulesAction → AutoRules :=
  perform .ascii Char.isAlphanum

theorem run_exampleActions {later : List AutoRulesAction}
    (possible :
      Along performExample Possible
        (exampleActions.foldl performExample exampleStart) later) :
    Run (Step .ascii Char.isAlphanum) exampleStart (exampleActions ++ later)
      ((exampleActions ++ later).foldl performExample exampleStart) := by
  apply Run.ofAlong (fun allowed => ⟨allowed, rfl⟩)
  refine ⟨trivial, trivial, ?_, possible⟩
  rw [createExample, Possible]
  decide +kernel

/-- A rule for a query that was recorded twice is one rule, and stays. -/
theorem useful_exampleActions :
    (exampleActions.foldl performExample
          exampleStart).manager.getAutoCreatedRules.length ≤ 100 ∧
      (exampleActions.foldl performExample exampleStart).Useful := by
  have run := @run_exampleActions [] trivial
  obtain ⟨bounded, useful⟩ := autoRules_bounded_and_useful_iff run
  refine ⟨bounded, ?_⟩
  refine useful.mpr ?_ exampleActions [] _ rfl run
  have along :
      Along performExample
        (fun state action =>
          state.KeepsUseful .ascii action ∧ state.Possible action)
        exampleStart exampleActions := by
    refine ⟨⟨trivial, trivial⟩, ⟨trivial, trivial⟩, ⟨?_, ?_⟩, trivial⟩
    · intro _ candidate _ id isMade
      cases isMade
    · rw [createExample, Possible]
      decide +kernel
  exact Run.ofAlong (fun allowed => ⟨allowed.1, allowed.2, rfl⟩) along

/--
A query gets a second rule when rules are created again, and a rule is deleted
at the time at which its query is recorded.
-/
theorem not_useful_exampleActions :
    (∃ final,
        Run (Step .ascii Char.isAlphanum) exampleStart
            (exampleActions ++ [createExample "rule-2"]) final ∧
          ¬final.OncePerQuery) ∧
      ∃ final,
        Run (Step .ascii Char.isAlphanum) exampleStart
            (exampleActions ++ [.autoCleanupRules fun _ => exampleTime]) final ∧
          final.deletedInUse ≠ [] := by
  constructor
  · refine ⟨_, run_exampleActions ⟨?_, trivial⟩, ?_⟩
    · rw [createExample, Possible]
      decide +kernel
    · intro once
      have same :=
        once "rule-1" "rule-2" "up".toList (by decide +kernel)
          (by decide +kernel) (by decide +kernel) (by decide +kernel)
      exact absurd same (by decide)
  · exact ⟨_, run_exampleActions ⟨trivial, trivial⟩, by decide +kernel⟩

end AutoRules

end ChronoDB.Rules
