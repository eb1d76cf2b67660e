import Mathlib.Data.Finmap
import ChronoDB.Memstore.Store
import ChronoDB.Rules.LabelMatchers

namespace ChronoDB.Rules

open Library Memstore

/-!
# Alerts of a rule

An evaluation of an alerting rule creates or renews an alert for every sample of
the last five minutes that meets the condition.  Nothing else changes an alert:
it waits, and it fires once it is renewed long enough after it was created.
Times are nanoseconds since the epoch.
-/

inductive AlertCondition where
  | gt (threshold : Value)
  | gte (threshold : Value)
  | lt (threshold : Value)
  | lte (threshold : Value)
  | eq (threshold : Value)
  | ne (threshold : Value)
  deriving Repr, DecidableEq

/-- The sample value meets the condition. -/
def AlertCondition.IsMet (value : Value) : AlertCondition → Prop
  | gt threshold => threshold < value
  | gte threshold => threshold ≤ value
  | lt threshold => value < threshold
  | lte threshold => value ≤ threshold
  | eq threshold => value = threshold
  | ne threshold => value ≠ threshold

instance (value : Value) (condition : AlertCondition) :
    Decidable (condition.IsMet value) :=
  match condition with
  | .gt _ => inferInstanceAs (Decidable (_ < _))
  | .gte _ => inferInstanceAs (Decidable (_ ≤ _))
  | .lt _ => inferInstanceAs (Decidable (_ < _))
  | .lte _ => inferInstanceAs (Decidable (_ ≤ _))
  | .eq _ => inferInstanceAs (Decidable (_ = _))
  | .ne _ => inferInstanceAs (Decidable (_ ≠ _))

inductive AlertState where
  | inactive
  | pending
  | firing
  deriving Repr, DecidableEq

/-- Labels and annotations as hash maps. -/
abbrev TextMap := Finmap fun _ : String => String

/-- A `SystemTime`, in nanoseconds since the epoch. -/
abbrev SystemTime := ℤ

/-- A `Duration` in nanoseconds. -/
abbrev Duration := ℕ

/-- `Duration::from_secs`. -/
def seconds (count : ℕ) : Duration :=
  count * 1000000000

structure AlertRule where
  name : String
  expr : Text
  condition : AlertCondition
  duration : Duration
  annotations : TextMap

structure Alert where
  name : String
  state : AlertState
  labels : TextMap
  annotations : TextMap
  activeAt : Option SystemTime
  lastEvaluation : Option SystemTime
  value : Value

/-- The alerts, and what a notifier was told of so far. -/
structure AlertManager where
  alerts : List Alert
  notified : List Alert

/-- What `create_alert` is called with, and what it reads from the clock. -/
structure AlertCall where
  name : String
  labels : TextMap
  value : Value
  annotations : TextMap
  reading : SystemTime

/-- The labels of a series; the last of several values of a name counts. -/
def labelsMap (labels : Labels) : TextMap :=
  labels.foldl (fun map label => map.insert label.name label.value) ∅

/-- What tells alerts apart. -/
def Alert.key (alert : Alert) : String × TextMap :=
  (alert.name, alert.labels)

def AlertCall.key (call : AlertCall) : String × TextMap :=
  (call.name, call.labels)

namespace AlertManager

def new : AlertManager where
  alerts := []
  notified := []

/-- The alert of a call that finds none. -/
def newAlert (call : AlertCall) : Alert where
  name := call.name
  state := .pending
  labels := call.labels
  annotations := call.annotations
  activeAt := some call.reading
  lastEvaluation := some call.reading
  value := call.value

/-- The time that a pending alert waits before it fires. -/
def pendingPeriod : Duration :=
  seconds 300

/-- The fields that every call sets in the alert it finds. -/
def touch (call : AlertCall) (existing : Alert) : Alert :=
  {
    existing with
    value := call.value
    lastEvaluation := some call.reading
    annotations := call.annotations
  }

/--
What a call makes of the alert it finds, and whether the notifiers are told.
The clock must not be before the time at which a pending alert became active.
-/
def renew (call : AlertCall) (existing : Alert) :
    Except Fault (Alert × Bool) :=
  let updated := touch call existing
  match existing.state, existing.activeAt with
  | .inactive, _ =>
    .ok
      ({ updated with state := .pending, activeAt := some call.reading }, true)
  | .pending, some activeAt =>
    if call.reading < activeAt then
      .error .panic
    else if pendingPeriod ≤ call.reading - activeAt then
      .ok ({ updated with state := .firing }, true)
    else
      .ok (updated, false)
  | _, _ => .ok (updated, false)

/-- The place of the first alert with the name and the labels of a call. -/
def findAlert (manager : AlertManager) (call : AlertCall) : Option ℕ :=
  manager.alerts.findIdx? fun alert => alert.key = call.key

def createAlert (manager : AlertManager) (call : AlertCall) :
    Except Fault AlertManager :=
  match manager.findAlert call with
  | none =>
    .ok {
      alerts := manager.alerts ++ [newAlert call]
      notified := manager.notified ++ [newAlert call]
    }
  | some index => do
    let existing ← Query.orPanic manager.alerts[index]?
    let (updated, told) ← renew call existing
    .ok {
      alerts := manager.alerts.set index updated
      notified :=
        if told then manager.notified ++ [updated] else manager.notified
    }

/-- Calls one after the other. -/
def createAlerts (manager : AlertManager) :
    List AlertCall → Except Fault AlertManager
  | [] => .ok manager
  | call :: rest => do
    let created ← manager.createAlert call
    created.createAlerts rest

end AlertManager

/-!
## Evaluation
-/

/-- `as_millis() as i64` of a time, unless it is before the epoch. -/
def epochMillis (time : SystemTime) : Except Fault Timestamp :=
  if time < 0 then .error .panic
  else .ok (Int64.ofInt (time / 1000000))

def windowStart (now : Timestamp) : Except Fault Timestamp :=
  if now.toInt - 300000 < Int64.minValue.toInt then .error .panic
  else .ok (now - 300000)

/-- The samples of the window that meet the condition, with their labels. -/
def matchingSamples
    (rule : AlertRule) (store : MemStore) (matchers : List (String × String))
    (start now : Timestamp) :
    List (Labels × Sample) :=
  (store.query matchers start now).flatMap fun ts =>
    (ts.samples.filter fun sample =>
      rule.condition.IsMet sample.value).map fun sample =>
        (ts.labels, sample)

/--
One evaluation: the store, the clock when it starts, and the clock whenever an
alert is created, in order.
-/
structure Evaluation where
  store : MemStore
  now : SystemTime
  readings : ℕ → SystemTime

/-- The calls of `create_alert` for some samples, from the `first`-th on. -/
def alertCalls (rule : AlertRule) (readings : ℕ → SystemTime) (first : ℕ) :
    List (Labels × Sample) → List AlertCall
  | [] => []
  | (labels, sample) :: rest =>
    {
      name := rule.name
      labels := labelsMap labels
      value := sample.value
      annotations := rule.annotations
      reading := readings first
    } :: alertCalls rule readings (first + 1) rest

def Evaluation.calls (evaluation : Evaluation) (rule : AlertRule) :
    Except Fault (List AlertCall) := do
  let matchers ← parseLabelMatchers rule.expr
  let now ← epochMillis evaluation.now
  let start ← windowStart now
  .ok
    (alertCalls rule evaluation.readings 0
      (matchingSamples rule evaluation.store matchers start now))

/-- The calls that are made, none when the evaluation panics before them. -/
def Evaluation.callsMade (evaluation : Evaluation) (rule : AlertRule) :
    List AlertCall :=
  match evaluation.calls rule with
  | .ok calls => calls
  | .error _ => []

def evaluateAlerting
    (rule : AlertRule) (evaluation : Evaluation) (manager : AlertManager) :
    Except Fault AlertManager := do
  let calls ← evaluation.calls rule
  manager.createAlerts calls

/-!
## Runs of evaluations of one rule

An alert follows its rule when it is there once, fires after the latest sample
of its series met the condition for the duration of the rule, and is gone when
the latest sample does not meet it.  The alerts follow a rule along every run
in which no alert is ever due to be resolved, which the evaluator cannot do.
-/

open Columnstore List

/-- The alerts after some evaluations, the newest evaluation first. -/
structure AlertRun where
  manager : AlertManager
  history : List Evaluation
  panicked : Bool

namespace AlertRun

def new : AlertRun where
  manager := .new
  history := []
  panicked := false

/-- One more evaluation; nothing follows a panic. -/
def next (rule : AlertRule) (run : AlertRun) (evaluation : Evaluation) :
    AlertRun :=
  match evaluateAlerting rule evaluation run.manager with
  | .ok manager =>
    {
      manager := manager
      history := evaluation :: run.history
      panicked := false
    }
  | .error _ =>
    {
      manager := run.manager
      history := evaluation :: run.history
      panicked := true
    }

def Step (rule : AlertRule) (before : AlertRun) (evaluation : Evaluation)
    (after : AlertRun) :
    Prop :=
  before.panicked = false ∧ after = before.next rule evaluation

end AlertRun

/-!
## What the rule asks for
-/

/-- The sample with the greatest timestamp, the last stored among equals. -/
def latestSample (samples : List Sample) : Option Sample :=
  (sortByKey Sample.sortKey samples).getLast?

/-- The samples, up to the time of an evaluation, of the series with labels. -/
def seriesSamples
    (rule : AlertRule) (evaluation : Evaluation) (labels : TextMap) :
    List Sample :=
  match parseLabelMatchers rule.expr, epochMillis evaluation.now with
  | .ok matchers, .ok now =>
    (evaluation.store.queryWithDownsample matchers Int64.minValue now
      .l0).flatMap fun ts =>
        if labelsMap ts.labels = labels then ts.samples else []
  | _, _ => []

def LatestMeets
    (rule : AlertRule) (evaluation : Evaluation) (labels : TextMap) :
    Prop :=
  ∃ sample ∈ latestSample (seriesSamples rule evaluation labels),
    rule.condition.IsMet sample.value

instance (rule : AlertRule) (evaluation : Evaluation) (labels : TextMap) :
    Decidable (LatestMeets rule evaluation labels) :=
  decidable_of_iff
    ((latestSample (seriesSamples rule evaluation labels)).any
      fun sample => rule.condition.IsMet sample.value)
    (by simp [LatestMeets, Option.any_eq_true])

/-- The clock readings of an evaluation. -/
def Evaluation.times (evaluation : Evaluation) (rule : AlertRule) :
    List SystemTime :=
  evaluation.now :: (evaluation.callsMade rule).map AlertCall.reading

/--
At the last evaluations, over a period at least as long as the duration of the
rule, the latest sample met the condition.
-/
def MetForDuration
    (rule : AlertRule) (history : List Evaluation) (labels : TextMap) :
    Prop :=
  ∃ period older : List Evaluation,
    history = period ++ older ∧
      (∀ evaluation ∈ period, LatestMeets rule evaluation labels) ∧
      ∃ first ∈ period.getLast?, ∃ last ∈ period.head?,
        ∃ start ∈ first.times rule, ∃ stop ∈ last.times rule,
          rule.duration ≤ stop - start

structure FollowsRule (rule : AlertRule) (run : AlertRun) : Prop where
  running : run.panicked = false
  unique : (run.manager.alerts.map Alert.key).Nodup
  firing :
    ∀ alert ∈ run.manager.alerts,
      alert.state = .firing → MetForDuration rule run.history alert.labels
  resolved :
    ∀ alert ∈ run.manager.alerts, ∀ evaluation ∈ run.history.head?,
      ¬LatestMeets rule evaluation alert.labels →
        alert.state ≠ .pending ∧ alert.state ≠ .firing

/-!
## When an evaluation keeps to the rule
-/

/--
A pending alert is renewed no earlier than it became active, and if long enough
after that to fire, then long enough for the duration of the rule.
-/
def CallKeeps (rule : AlertRule) (manager : AlertManager) (call : AlertCall) :
    Prop :=
  ∀ alert ∈ manager.alerts,
    alert.key = call.key → alert.state = .pending →
      ∀ activeAt ∈ alert.activeAt,
        activeAt ≤ call.reading ∧
          (AlertManager.pendingPeriod ≤ call.reading - activeAt →
            rule.duration ≤ call.reading - activeAt)

instance (rule : AlertRule) (manager : AlertManager) (call : AlertCall) :
    Decidable (CallKeeps rule manager call) :=
  inferInstanceAs
    (Decidable
      (∀ alert ∈ manager.alerts,
        alert.key = call.key → alert.state = .pending →
          ∀ activeAt ∈ alert.activeAt, _ ∧ _))

/-- All calls of an evaluation keep to the rule, each after those before it. -/
def CallsKeep (rule : AlertRule) (manager : AlertManager) :
    List AlertCall → Prop
  | [] => True
  | call :: rest =>
    CallKeeps rule manager call ∧
      match manager.createAlert call with
      | .ok created => CallsKeep rule created rest
      | .error _ => True

instance decidableCallsKeep (rule : AlertRule) :
    ∀ (manager : AlertManager) (calls : List AlertCall),
      Decidable (CallsKeep rule manager calls)
  | _, [] => .isTrue trivial
  | manager, call :: rest =>
    have decideRest :
        Decidable
          (match manager.createAlert call with
            | .ok created => CallsKeep rule created rest
            | .error _ => True) := by
      cases manager.createAlert call with
      | error fault => exact .isTrue trivial
      | ok created => exact decidableCallsKeep rule created rest
    inferInstanceAs (Decidable (CallKeeps rule manager call ∧ _))

structure KeepsAlerts
    (rule : AlertRule) (before : AlertRun) (evaluation : Evaluation) :
    Prop where
  clock : 0 ≤ evaluation.now ∧ evaluation.now / 1000000 < 2 ^ 63
  parses : ∃ matchers, parseLabelMatchers rule.expr = .ok matchers
  latest :
    ∀ call ∈ evaluation.callsMade rule, LatestMeets rule evaluation call.labels
  active :
    ∀ alert ∈ before.manager.alerts,
      alert.state ≠ .inactive → LatestMeets rule evaluation alert.labels
  firing :
    ∀ alert ∈ before.manager.alerts,
      alert.state = .firing → ∀ activeAt ∈ alert.activeAt,
        ∃ time ∈ evaluation.times rule, rule.duration ≤ time - activeAt
  calls : CallsKeep rule before.manager (evaluation.callsMade rule)

/-!
## Alerts along a run
-/

/--
An alert became active in an evaluation after which, as in it, the latest sample
always met the condition.
-/
structure Tracked
    (rule : AlertRule) (history : List Evaluation) (alert : Alert) :
    Prop where
  isActive : alert.state ≠ .inactive
  since :
    ∃ activeAt ∈ alert.activeAt,
      ∃ (period older : List Evaluation) (first : Evaluation),
        history = (period ++ [first]) ++ older ∧
          (∀ evaluation ∈ period ++ [first],
            LatestMeets rule evaluation alert.labels) ∧
          activeAt ∈ first.times rule ∧
          (alert.state = .firing →
            ∃ last ∈ history.head?, ∃ stop ∈ last.times rule,
              rule.duration ≤ stop - activeAt)

/-- Every alert is there once and is tracked. -/
structure Steady
    (rule : AlertRule) (history : List Evaluation) (manager : AlertManager) :
    Prop where
  unique : (manager.alerts.map Alert.key).Nodup
  tracked : ∀ alert ∈ manager.alerts, Tracked rule history alert

variable
  {rule : AlertRule}
  {evaluation : Evaluation}
  {history : List Evaluation}
  {manager created : AlertManager}
  {alert : Alert}
  {call : AlertCall}

/-- An alert is tracked through an evaluation at which the condition is met. -/
theorem Tracked.cons (tracked : Tracked rule history alert)
    (meets : LatestMeets rule evaluation alert.labels)
    (longEnough :
      alert.state = .firing → ∀ activeAt ∈ alert.activeAt,
        ∃ time ∈ evaluation.times rule, rule.duration ≤ time - activeAt) :
    Tracked rule (evaluation :: history) alert := by
  obtain ⟨activeAt, isActiveAt, period, older, first, isHistory, met,
    inFirst, _⟩ := tracked.since
  refine ⟨tracked.isActive, activeAt, isActiveAt, evaluation :: period,
    older, first, ?_, ?_, inFirst, ?_⟩
  · rw [isHistory]
    rfl
  · intro passed isPassed
    rcases mem_cons.mp isPassed with rfl | isEarlier
    · exact meets
    · exact met passed isEarlier
  · intro isFiring
    obtain ⟨stop, isTime, long⟩ := longEnough isFiring activeAt isActiveAt
    exact ⟨evaluation, rfl, stop, isTime, long⟩

theorem tracked_newAlert (meets : LatestMeets rule evaluation call.labels)
    (isTime : call.reading ∈ evaluation.times rule) :
    Tracked rule (evaluation :: history) (AlertManager.newAlert call) := by
  refine ⟨AlertState.noConfusion, call.reading, rfl, [], history,
    evaluation, rfl, ?_, isTime, ?_⟩
  · intro passed isPassed
    rw [mem_singleton.mp isPassed]
    exact meets
  · intro isFiring
    cases isFiring

theorem Tracked.congr {other : Alert} (tracked : Tracked rule history alert)
    (sameLabels : other.labels = alert.labels)
    (sameTime : other.activeAt = alert.activeAt)
    (isActive : other.state ≠ .inactive)
    (fires :
      other.state = .firing → alert.state ≠ .firing →
        ∀ activeAt ∈ alert.activeAt,
          ∃ last ∈ history.head?, ∃ stop ∈ last.times rule,
            rule.duration ≤ stop - activeAt) :
    Tracked rule history other := by
  obtain ⟨activeAt, isActiveAt, period, older, first, isHistory, met,
    inFirst, firedBefore⟩ := tracked.since
  refine ⟨isActive, activeAt, ?_, period, older, first, isHistory, ?_,
    inFirst, ?_⟩
  · rw [sameTime]
    exact isActiveAt
  · rw [sameLabels]
    exact met
  · intro isFiring
    by_cases wasFiring : alert.state = .firing
    · exact firedBefore wasFiring
    · exact fires isFiring wasFiring activeAt isActiveAt

theorem Tracked.renew (tracked : Tracked rule (evaluation :: history) alert)
    (isTime : call.reading ∈ evaluation.times rule)
    (keeps :
      alert.state = .pending → ∀ activeAt ∈ alert.activeAt,
        activeAt ≤ call.reading ∧
          (AlertManager.pendingPeriod ≤ call.reading - activeAt →
            rule.duration ≤ call.reading - activeAt)) :
    ∃ updated told,
      AlertManager.renew call alert = .ok (updated, told) ∧
        updated.key = alert.key ∧
        Tracked rule (evaluation :: history) updated := by
  obtain ⟨activeAt, isActiveAt, _⟩ := tracked.since
  rw [Option.mem_def] at isActiveAt
  have touched :
      Tracked rule (evaluation :: history) (AlertManager.touch call alert) :=
    tracked.congr rfl rfl tracked.isActive fun isFiring notFiring =>
      absurd isFiring notFiring
  cases isState : alert.state with
  | inactive => exact absurd isState tracked.isActive
  | pending =>
    obtain ⟨notBefore, longEnough⟩ := keeps isState activeAt isActiveAt
    by_cases isDue : AlertManager.pendingPeriod ≤ call.reading - activeAt
    · refine ⟨{ AlertManager.touch call alert with state := .firing },
        true, ?_, rfl, ?_⟩
      · simp [AlertManager.renew, isState, isActiveAt, not_lt.mpr notBefore,
          isDue]
      · refine tracked.congr rfl rfl AlertState.noConfusion ?_
        intro _ _ time isTimeOf
        rw [isActiveAt] at isTimeOf
        cases isTimeOf
        exact ⟨evaluation, rfl, call.reading, isTime, longEnough isDue⟩
    · refine ⟨AlertManager.touch call alert, false, ?_, rfl, touched⟩
      simp [AlertManager.renew, isState, isActiveAt, not_lt.mpr notBefore,
        isDue]
  | firing =>
    refine ⟨AlertManager.touch call alert, false, ?_, rfl, touched⟩
    simp [AlertManager.renew, isState]

theorem Steady.createAlert
    (steady : Steady rule (evaluation :: history) manager)
    (meets : LatestMeets rule evaluation call.labels)
    (isTime : call.reading ∈ evaluation.times rule)
    (keeps : CallKeeps rule manager call) :
    ∃ created,
      manager.createAlert call = .ok created ∧
        Steady rule (evaluation :: history) created := by
  rw [AlertManager.createAlert]
  cases found : manager.findAlert call with
  | none =>
    refine ⟨_, rfl, ?_, ?_⟩
    · have isNew :
          (AlertManager.newAlert call).key ∉ manager.alerts.map Alert.key := by
        intro isListed
        obtain ⟨alert, member, sameKey⟩ := mem_map.mp isListed
        have differs := findIdx?_eq_none_iff.mp found alert member
        exact of_decide_eq_false differs sameKey
      rw [map_append, map_singleton, ← concat_eq_append]
      exact steady.unique.concat isNew
    · intro alert member
      rcases mem_append.mp member with isOld | isNew
      · exact steady.tracked alert isOld
      · rw [mem_singleton.mp isNew]
        exact tracked_newAlert meets isTime
  | some index =>
    obtain ⟨inRange, sameKey, _⟩ := findIdx?_eq_some_iff_getElem.mp found
    have member : manager.alerts[index] ∈ manager.alerts := getElem_mem inRange
    have sameKey := of_decide_eq_true sameKey
    obtain ⟨updated, told, renewed, keepsKey, tracked⟩ :=
      (steady.tracked _ member).renew isTime (keeps _ member sameKey)
    dsimp only
    rw [getElem?_eq_getElem inRange, Query.orPanic_some,
      Query.ok_bind, renewed, Query.ok_bind]
    refine ⟨_, rfl, ?_, ?_⟩
    · have sameKeys :
          (manager.alerts.set index updated).map Alert.key =
            manager.alerts.map Alert.key := by
        rw [map_set, keepsKey,
          ← getElem_map Alert.key (h := by simpa using inRange),
          set_getElem_self]
      rw [sameKeys]
      exact steady.unique
    · intro alert isMember
      rcases mem_or_eq_of_mem_set isMember with isOld | rfl
      · exact steady.tracked alert isOld
      · exact tracked

theorem Steady.createAlerts {calls : List AlertCall}
    (steady : Steady rule (evaluation :: history) manager)
    (meets : ∀ call ∈ calls, LatestMeets rule evaluation call.labels)
    (areTimes : ∀ call ∈ calls, call.reading ∈ evaluation.times rule)
    (keep : CallsKeep rule manager calls) :
    ∃ created,
      manager.createAlerts calls = .ok created ∧
        Steady rule (evaluation :: history) created := by
  induction calls generalizing manager with
  | nil => exact ⟨manager, rfl, steady⟩
  | cons call rest inductionHypothesis =>
    obtain ⟨meetsFirst, meetsRest⟩ := forall_mem_cons.mp meets
    obtain ⟨isTime, areTimesRest⟩ := forall_mem_cons.mp areTimes
    obtain ⟨keepsFirst, keepsRest⟩ := keep
    obtain ⟨middle, created, steadyMiddle⟩ :=
      steady.createAlert meetsFirst isTime keepsFirst
    rw [created] at keepsRest
    obtain ⟨final, createdRest, steadyFinal⟩ :=
      inductionHypothesis steadyMiddle meetsRest areTimesRest keepsRest
    refine ⟨final, ?_, steadyFinal⟩
    rw [AlertManager.createAlerts, created, Query.ok_bind, createdRest]

theorem exists_calls
    (clock : 0 ≤ evaluation.now ∧ evaluation.now / 1000000 < 2 ^ 63)
    (parses : ∃ matchers, parseLabelMatchers rule.expr = .ok matchers) :
    ∃ calls, evaluation.calls rule = .ok calls := by
  obtain ⟨notBefore, fits⟩ := clock
  obtain ⟨matchers, parsed⟩ := parses
  have positive : (0 : ℤ) ≤ evaluation.now / 1000000 :=
    Int.ediv_nonneg notBefore (by decide)
  have isMillis :
      (Int64.ofInt (evaluation.now / 1000000)).toInt =
        evaluation.now / 1000000 :=
    Int64.toInt_ofInt_of_le (le_trans (by decide) positive) fits
  have inWindow :
      ¬(Int64.ofInt (evaluation.now / 1000000)).toInt - 300000 <
        Int64.minValue.toInt := by
    rw [isMillis, not_lt]
    exact le_trans (by decide) (sub_le_sub_right positive 300000)
  rw [Evaluation.calls, parsed, Query.ok_bind, epochMillis, if_neg (not_lt.mpr
    notBefore), Query.ok_bind, windowStart, if_neg inWindow, Query.ok_bind]
  exact ⟨_, rfl⟩

namespace AlertRun

variable {before after : AlertRun}

/-- The alerts are steady, and no evaluation has panicked. -/
structure Sound (rule : AlertRule) (run : AlertRun) : Prop where
  running : run.panicked = false
  steady : Steady rule run.history run.manager

theorem Sound.step
    (sound : Sound rule before) (keeps : KeepsAlerts rule before evaluation)
    (taken : Step rule before evaluation after) :
    Sound rule after := by
  obtain ⟨calls, isCalls⟩ := exists_calls keeps.clock keeps.parses
  have steadyBefore :
      Steady rule (evaluation :: before.history) before.manager := by
    refine ⟨sound.steady.unique, fun alert member => ?_⟩
    have tracked := sound.steady.tracked alert member
    exact tracked.cons (keeps.active alert member tracked.isActive)
      (keeps.firing alert member)
  have areMade : evaluation.callsMade rule = calls := by
    rw [Evaluation.callsMade, isCalls]
  have areTimes :
      ∀ call ∈ evaluation.callsMade rule,
        call.reading ∈ evaluation.times rule :=
    fun call member =>
      mem_cons_of_mem _ (mem_map_of_mem member)
  obtain ⟨created, isCreated, steadyAfter⟩ :=
    steadyBefore.createAlerts keeps.latest areTimes keeps.calls
  have evaluated :
      evaluateAlerting rule evaluation before.manager = .ok created := by
    rw [evaluateAlerting, isCalls, Query.ok_bind, ← areMade, isCreated]
  rw [taken.2, next, evaluated]
  exact ⟨rfl, steadyAfter⟩

theorem Sound.followsRule {run : AlertRun} (sound : Sound rule run) :
    FollowsRule rule run := by
  refine ⟨sound.running, sound.steady.unique, ?_, ?_⟩
  · intro alert member isFiring
    obtain ⟨activeAt, _, period, older, first, isHistory, met, inFirst,
      fires⟩ := (sound.steady.tracked alert member).since
    obtain ⟨last, isLast, stop, isTime, longEnough⟩ := fires isFiring
    refine ⟨period ++ [first], older, isHistory, met, first, ?_, last, ?_,
      activeAt, inFirst, stop, isTime, longEnough⟩
    · rw [getLast?_append, getLast?_singleton]
      rfl
    · rw [isHistory] at isLast
      cases period with
      | nil => exact isLast
      | cons newest rest => exact isLast
  · intro alert member evaluation isLast fails
    obtain ⟨activeAt, _, period, older, first, isHistory, met, _⟩ :=
      (sound.steady.tracked alert member).since
    refine absurd (met evaluation ?_) fails
    rw [isHistory] at isLast
    cases period with
    | nil =>
      cases isLast
      exact mem_singleton_self _
    | cons newest rest =>
      cases isLast
      exact mem_cons_self

theorem sound_new (rule : AlertRule) : Sound rule new := by
  refine ⟨rfl, nodup_nil, ?_⟩
  intro alert member
  cases member

/--
The alerts follow their rule in every state of every run whose evaluations all
call for no alert to be resolved.
-/
theorem followsRule_of_run {evaluations : List Evaluation}
    (run :
      Run (Restrict (Step rule) (KeepsAlerts rule)) new evaluations after) :
    FollowsRule rule after := by
  refine Sound.followsRule (run.preserves ?_ (sound_new rule))
  intro before evaluation after sound taken
  exact sound.step taken.1 taken.2

/-!
## Runs that keep to a rule and runs that do not
-/

def storeOf (samples : List Sample) : MemStore where
  head :=
    ((HeadBlock.new ⟨1⟩).addSeries 1 [⟨"__name__", "up"⟩]).toOption.elim
      (HeadBlock.new ⟨1⟩)
      fun head => (MemStore.addSamples head 1 samples).2
  wal := none
  stats := {
    totalSeries := 1
    totalSamples := samples.length
    writes := 1
  }

/-- `up < 1` for a minute. -/
def exampleRule : AlertRule where
  name := "Down"
  expr := "up".toList
  condition := .lt 1
  duration := seconds 60
  annotations := ∅

/-- An evaluation during which the clock stands still at some second. -/
def evaluationAt (second : ℕ) (samples : List Sample) : Evaluation where
  store := storeOf samples
  now := seconds second
  readings := fun _ => seconds second

def firstDown : Evaluation :=
  evaluationAt 2 [⟨1000, 0⟩]

def stillDown : Evaluation :=
  evaluationAt 400 [⟨1000, 0⟩, ⟨399000, 0⟩]

def upAgain : Evaluation :=
  evaluationAt 4 [⟨1000, 0⟩, ⟨3000, 1⟩]

/-- An alert of a series that stays down fires, as its rule says. -/
theorem stillDown_follows_rule :
    ∃ after,
      Run (Restrict (Step exampleRule) (KeepsAlerts exampleRule)) new
          [firstDown, stillDown] after ∧
        after.manager.alerts.map Alert.state = [.firing] ∧
        FollowsRule exampleRule after := by
  have run :
      Run (Restrict (Step exampleRule) (KeepsAlerts exampleRule)) new
        [firstDown, stillDown]
        ((new.next exampleRule firstDown).next exampleRule stillDown) := by
    refine
      .cons
        ⟨⟨by decide, ⟨_, rfl⟩, by decide, by decide, by decide, by decide⟩,
          rfl, rfl⟩
        (.cons
          ⟨⟨by decide, ⟨_, rfl⟩, by decide, by decide, by decide,
            by decide⟩, rfl, rfl⟩
          (.nil _))
  exact ⟨_, run, by decide, followsRule_of_run run⟩

theorem upAgain_stays_pending :
    ∃ after,
      Run (Step exampleRule) new [firstDown, upAgain] after ∧
        ¬FollowsRule exampleRule after := by
  refine ⟨(new.next exampleRule firstDown).next exampleRule upAgain,
    .cons ⟨rfl, rfl⟩ (.single ⟨rfl, rfl⟩), ?_⟩
  intro follows
  have notPending :
      ∀ alert ∈
          ((new.next exampleRule firstDown).next exampleRule
            upAgain).manager.alerts,
        alert.state ≠ .pending := by
    intro alert member
    refine (follows.resolved alert member upAgain rfl ?_).1
    revert alert
    decide
  revert notPending
  decide

end AlertRun

end ChronoDB.Rules
