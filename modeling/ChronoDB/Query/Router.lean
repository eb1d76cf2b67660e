import ChronoDB.Library.QuotedTokens
import ChronoDB.Query.Frequency
import ChronoDB.Query.SeriesFunctions
import Mathlib.Algebra.Order.Monoid.WithTop

namespace ChronoDB.Query

open Library Memstore List

/-!
# Routing to pre-aggregation rules

A query is routed to a rule whose expression has the same normal form.  Among
several the best score wins, and with equal scores the first one in the order of
the map of rules.  The logarithm of the frequency is a parameter.
-/

inductive RuleStatus where
  | active
  | inactive
  | pending
  | failed
  deriving Repr, DecidableEq

structure PreAggregationRule where
  id : String
  name : String
  expr : Text
  isAutoCreated : Bool
  queryFrequency : UInt64
  lastQueryTime : Timestamp
  status : RuleStatus
  deriving Repr, DecidableEq

structure RouteDecision where
  usePreaggregated : Bool
  ruleId : Option String
  ruleName : Option String
  matchScore : Value
  deriving Repr, DecidableEq

namespace RouteDecision

def preaggregated (ruleId ruleName : String) (matchScore : Value) :
    RouteDecision :=
  ⟨true, some ruleId, some ruleName, matchScore⟩

def original : RouteDecision :=
  ⟨false, none, none, 0⟩

end RouteDecision

structure RouterConfig where
  enableRouting : Bool
  deriving Repr, DecidableEq

/-- A router; a rule stands in the map under its own id. -/
structure QueryRouter where
  rules : FiniteMap String PreAggregationRule
  keyed : ∀ id rule, rules.lookup id = some rule → rule.id = id
  config : RouterConfig

/-- What a rule scores; no frequency has the logarithm minus infinity. -/
def calculateMatchScore
    (log10 : Value → Value) (now : Timestamp) (rule : PreAggregationRule) :
    WithBot Value :=
  if rule.queryFrequency = 0 then
    ⊥
  else
    let autoCreated : Value := if rule.isAutoCreated then 1 / 10 else 0
    let frequency := log10 rule.queryFrequency.toNat / 10
    let hoursSinceQuery :=
      timeValue (now - rule.lastQueryTime) / (1000 * 60 * 60)
    let recency : Value :=
      if hoursSinceQuery < 1 then 3 / 10
      else if hoursSinceQuery < 24 then 2 / 10
      else if hoursSinceQuery < 168 then 1 / 10
      else 0
    ((min (autoCreated + frequency + recency) 1 : Value) : WithBot Value)

section Choosing

variable {Item : Type} (score : Item → WithBot Value)

/-- The loop body of `select_best_match`. -/
def keepBetter (best : Option Item × Value) (item : Item) :
    Option Item × Value :=
  if (best.2 : WithBot Value) < score item then
    (some item, (score item).unbotD 0)
  else
    best

def selectBestMatch (rules : List Item) : Option (Item × Value) :=
  if rules = [] then
    none
  else
    let best := rules.foldl (keepBetter score) (none, 0)
    best.1.map fun rule => (rule, best.2)

/-- What the loop has kept: nothing, or an item with the best positive score. -/
structure KeptBest (seen : List Item) (best : Option Item × Value) : Prop where
  nonneg : 0 ≤ best.2
  highest : ∀ item ∈ seen, score item ≤ best.2
  chosen : ∀ item ∈ best.1, item ∈ seen ∧ score item = best.2 ∧ 0 < best.2
  unchosen : best.1 = none → best.2 = 0

theorem KeptBest.keepBetter {seen : List Item} {best : Option Item × Value}
    (kept : KeptBest score seen best) (item : Item) :
    KeptBest score (seen ++ [item]) (keepBetter score best item) := by
  rw [ChronoDB.Query.keepBetter]
  split
  · rename_i better
    obtain ⟨value, isValue⟩ :=
      WithBot.ne_bot_iff_exists.mp (ne_bot_of_gt better)
    rw [← isValue, WithBot.coe_lt_coe] at better
    rw [← isValue, WithBot.unbotD_coe]
    have positive : 0 < value := kept.nonneg.trans_lt better
    refine ⟨positive.le, fun other member => ?_, fun other isOther => ?_,
      fun absent => by cases absent⟩
    · rcases mem_append.mp member with earlier | last
      · exact (kept.highest other earlier).trans
          (WithBot.coe_le_coe.mpr better.le)
      · rw [mem_singleton.mp last, ← isValue]
    · cases isOther
      exact ⟨mem_append_right _ (mem_singleton_self _), isValue.symm, positive⟩
  · rename_i notBetter
    refine ⟨kept.nonneg, fun other member => ?_, fun other isOther => ?_,
      kept.unchosen⟩
    · rcases mem_append.mp member with earlier | last
      · exact kept.highest other earlier
      · rw [mem_singleton.mp last]
        exact not_lt.mp notBetter
    · obtain ⟨earlier, isScore⟩ := kept.chosen other isOther
      exact ⟨mem_append_left _ earlier, isScore⟩

/-- The loop keeps the best item. -/
theorem KeptBest.foldl {seen : List Item} {best : Option Item × Value}
    (kept : KeptBest score seen best) (items : List Item) :
    KeptBest score (seen ++ items)
      (items.foldl (ChronoDB.Query.keepBetter score) best) := by
  induction items generalizing seen best with
  | nil => rwa [append_nil]
  | cons item rest inductionHypothesis =>
    have later := inductionHypothesis (kept.keepBetter score item)
    rwa [append_assoc] at later

theorem selectBestMatch_best {items : List Item} {item : Item} {value : Value}
    (selected : selectBestMatch score items = some (item, value)) :
    item ∈ items ∧ 0 < score item ∧
      ∀ other ∈ items, score other ≤ score item := by
  have start : KeptBest score [] (none, 0) :=
    ⟨le_rfl, forall_mem_nil _,
      fun other isOther => absurd isOther (Option.not_mem_none other),
      fun _ => rfl⟩
  have kept := start.foldl score items
  rw [nil_append] at kept
  rw [selectBestMatch] at selected
  split at selected
  · cases selected
  · obtain ⟨rule, isRule, same⟩ := Option.map_eq_some_iff.mp selected
    cases same
    obtain ⟨member, isScore, positive⟩ := kept.chosen item isRule
    rw [isScore]
    exact ⟨member, WithBot.coe_pos.mpr positive, kept.highest⟩

theorem selectBestMatch_cons
    {item : Item} {rest : List Item} (positive : 0 < score item)
    (highest : ∀ other ∈ rest, score other ≤ score item) :
    ∃ value, selectBestMatch score (item :: rest) = some (item, value) := by
  obtain ⟨value, isValue⟩ :=
    WithBot.ne_bot_iff_exists.mp (ne_bot_of_gt positive)
  have first : keepBetter score (none, 0) item = (some item, value) := by
    have better : ((0 : Value) : WithBot Value) < score item := positive
    rw [keepBetter, if_pos better, ← isValue, WithBot.unbotD_coe]
  have unchanged :
      rest.foldl (keepBetter score) (some item, value) =
        (some item, value) := by
    clear first positive
    induction rest with
    | nil => rfl
    | cons other rest inductionHypothesis =>
      obtain ⟨otherBelow, restBelow⟩ := forall_mem_cons.mp highest
      have notBetter :
          keepBetter score (some item, value) other = (some item, value) := by
        rw [keepBetter, if_neg]
        rw [← isValue] at otherBelow
        exact not_lt.mpr otherBelow
      rw [foldl_cons, notBetter, inductionHypothesis restBelow]
  refine ⟨value, ?_⟩
  rw [selectBestMatch, if_neg (cons_ne_nil _ _), foldl_cons, first, unchanged]
  rfl

end Choosing

namespace QueryRouter

variable (classes : RegexClasses)

/-- The rules with a normal form, in the order of the map. -/
def findMatchingRules
    (rules : List PreAggregationRule) (normalizedQuery : Text) :
    List PreAggregationRule :=
  rules.filter fun rule => normalizeQuery classes rule.expr = normalizedQuery

/-- `route`, with the rules in an order of their map. -/
def route (log10 : Value → Value) (router : QueryRouter)
    (rules : List PreAggregationRule) (now : Timestamp) (query : Text) :
    RouteDecision :=
  if router.config.enableRouting = false then
    .original
  else
    let normalized := normalizeQuery classes query
    let matchingRules := findMatchingRules classes rules normalized
    if matchingRules = [] then
      .original
    else
      match selectBestMatch (calculateMatchScore log10 now) matchingRules with
      | some (rule, score) => .preaggregated rule.id rule.name score
      | none => .original

def values (router : QueryRouter) : List PreAggregationRule :=
  router.rules.entries.map Sigma.snd

/-- A decision for a query, for any iteration order of the map. -/
def Routes (log10 : Value → Value) (router : QueryRouter) (now : Timestamp)
    (query : Text) (decision : RouteDecision) :
    Prop :=
  ∃ rules, rules.Perm router.values ∧
    router.route classes log10 rules now query = decision

/-- A rule with the normal form of the query. -/
def Matches (router : QueryRouter) (query : Text) (rule : PreAggregationRule) :
    Prop :=
  rule ∈ router.values ∧
    normalizeQuery classes rule.expr = normalizeQuery classes query

/-- A rule that can be chosen: it matches, and no other one scores higher. -/
structure CanWin
    (log10 : Value → Value) (router : QueryRouter) (now : Timestamp)
    (query : Text) (rule : PreAggregationRule) :
    Prop where
  isMatch : router.Matches classes query rule
  positive : 0 < calculateMatchScore log10 now rule
  highest : ∀ other, router.Matches classes query other →
    calculateMatchScore log10 now other ≤ calculateMatchScore log10 now rule

def RoutesSoundly
    (log10 : Value → Value) (router : QueryRouter) (now : Timestamp)
    (query : Text) :
    Prop :=
  ∀ decision, router.Routes classes log10 now query decision →
    decision.usePreaggregated = true →
      ∀ rule ∈ router.values, decision.ruleId = some rule.id →
        rule.status = .active ∧ SameExpression rule.expr query

variable {classes : RegexClasses}
variable {log10 : Value → Value} {router : QueryRouter} {now : Timestamp}

theorem eq_of_id_eq
    {rule other : PreAggregationRule} (isRule : rule ∈ router.values)
    (isOther : other ∈ router.values) (sameId : rule.id = other.id) :
    rule = other := by
  have found : ∀ rule ∈ router.values,
      router.rules.lookup rule.id = some rule := by
    intro rule member
    obtain ⟨entry, isEntry, rfl⟩ := mem_map.mp member
    have isFound := AList.mem_lookup_iff.mpr isEntry
    rwa [router.keyed _ _ isFound]
  have isFound := found rule isRule
  rw [sameId, found other isOther] at isFound
  exact (Option.some.inj isFound).symm

theorem mem_findMatchingRules
    {rules : List PreAggregationRule} {query : Text} {rule : PreAggregationRule}
    (isOrder : rules.Perm router.values) :
    rule ∈ findMatchingRules classes rules (normalizeQuery classes query) ↔
      router.Matches classes query rule := by
  rw [findMatchingRules, mem_filter, isOrder.mem_iff, decide_eq_true_iff]
  rfl

theorem exists_canWin_of_routes {query : Text} {decision : RouteDecision}
    (routed : router.Routes classes log10 now query decision)
    (preaggregated : decision.usePreaggregated = true) :
    router.config.enableRouting = true ∧
      ∃ rule, router.CanWin classes log10 now query rule ∧
        decision.ruleId = some rule.id := by
  obtain ⟨rules, isOrder, rfl⟩ := routed
  rw [route] at preaggregated ⊢
  split at preaggregated
  · cases preaggregated
  · rename_i enabled
    refine ⟨Bool.eq_true_of_not_eq_false enabled, ?_⟩
    dsimp only at preaggregated ⊢
    rw [if_neg enabled]
    split at preaggregated
    · cases preaggregated
    · rename_i nonempty
      rw [if_neg nonempty]
      split at preaggregated
      · rename_i rule score selected
        obtain ⟨member, positive, highest⟩ := selectBestMatch_best _ selected
        refine ⟨rule, ⟨?_, positive, fun other isMatch => ?_⟩, rfl⟩
        · exact (mem_findMatchingRules isOrder).mp member
        · exact highest other ((mem_findMatchingRules isOrder).mpr isMatch)
      · cases preaggregated

theorem CanWin.exists_routes {query : Text} {rule : PreAggregationRule}
    (canWin : router.CanWin classes log10 now query rule)
    (enabled : router.config.enableRouting = true) :
    ∃ decision, router.Routes classes log10 now query decision ∧
      decision.usePreaggregated = true ∧ decision.ruleId = some rule.id := by
  obtain ⟨before, after, isSplit⟩ := append_of_mem canWin.isMatch.1
  have isOrder : (rule :: (before ++ after)).Perm router.values := by
    rw [isSplit]
    exact perm_middle.symm
  have isFirst :
      findMatchingRules classes (rule :: (before ++ after))
          (normalizeQuery classes query) =
        rule :: findMatchingRules classes (before ++ after)
          (normalizeQuery classes query) :=
    filter_cons_of_pos (decide_eq_true canWin.isMatch.2)
  have highest :
      ∀ other ∈ findMatchingRules classes (before ++ after)
          (normalizeQuery classes query),
        calculateMatchScore log10 now other ≤
          calculateMatchScore log10 now rule := by
    intro other member
    apply canWin.highest
    apply (mem_findMatchingRules isOrder).mp
    rw [isFirst]
    exact mem_cons_of_mem _ member
  obtain ⟨value, selected⟩ := selectBestMatch_cons _ canWin.positive highest
  refine ⟨_, ⟨_, isOrder, rfl⟩, ?_⟩
  simp only [route, enabled, isFirst, selected]
  exact ⟨rfl, rfl⟩

/-- A rule that was queried once, just now. -/
def exampleRule (expr : String) (status : RuleStatus) : PreAggregationRule :=
  ⟨"rule-1", "rule", expr.toList, false, 1, 0, status⟩

def exampleRouter (rule : PreAggregationRule) : QueryRouter where
  rules := AList.insert rule.id rule ∅
  keyed := by
    intro id other found
    by_cases same : id = rule.id
    · subst same
      rw [AList.lookup_insert] at found
      exact congrArg _ (Option.some.inj found).symm
    · rw [AList.lookup_insert_ne same, AList.lookup_empty] at found
      cases found
  config := ⟨true⟩

theorem score_exampleRule (expr : String) (status : RuleStatus) :
    calculateMatchScore (fun _ => 0) 0 (exampleRule expr status) =
      ((3 / 10 : Value) : WithBot Value) := by
  have once : ¬(exampleRule expr status).queryFrequency = 0 :=
    show ¬(1 : UInt64) = 0 by decide
  have recent :
      timeValue (0 - (exampleRule expr status).lastQueryTime) /
          (1000 * 60 * 60) < 1 := by
    have noTime : timeValue (0 - 0) = 0 := rfl
    rw [exampleRule, noTime, zero_div]
    exact zero_lt_one
  have notCreated : ¬(exampleRule expr status).isAutoCreated = true :=
    Bool.false_ne_true
  rw [calculateMatchScore, if_neg once]
  dsimp only
  rw [if_neg notCreated, if_pos recent]
  exact congrArg _ (by norm_num)

theorem exampleRouter_routes
    {expr : String} {query : Text} (status : RuleStatus)
    (sameForm :
      normalizeQuery .ascii expr.toList = normalizeQuery .ascii query) :
    ∃ decision,
      (exampleRouter (exampleRule expr status)).Routes .ascii (fun _ => 0) 0
          query decision ∧
        decision.usePreaggregated = true ∧
          decision.ruleId = some (exampleRule expr status).id := by
  have canWin :
      (exampleRouter (exampleRule expr status)).CanWin .ascii (fun _ => 0) 0
        query (exampleRule expr status) := by
    refine ⟨⟨mem_singleton_self _, sameForm⟩, ?_, fun other isMatch => ?_⟩
    · rw [score_exampleRule]
      exact WithBot.coe_pos.mpr (by norm_num)
    · rw [mem_singleton.mp isMatch.1]
  exact canWin.exists_routes rfl

end QueryRouter

end ChronoDB.Query
