import ChronoDB.Memstore.Agreement
import ChronoDB.Query.Execution
import Mathlib.Data.Prod.Lex

namespace ChronoDB.Query

open Library Memstore Index List

/-!
# The optimizer

The optimizer rewrites the selectors, the ranges of subqueries and the grouping
labels of a plan and leaves its shape alone.  A selector whose conditions do not
contradict each other selects the same series afterwards.
-/

namespace QueryOptimizer

/-- Only the newest condition of a label is kept; a hash table orders them. -/
def eliminateRedundantConditions (matchers : List (String × String)) :
    Choice Error (List (String × String)) :=
  let uniqueMatchers : FiniteMap String String :=
    matchers.foldl (fun unique matcher => unique.insert matcher.1 matcher.2) ∅
  .anyOrder (uniqueMatchers.entries.map fun entry => (entry.1, entry.2))

/-- `__name__` comes first and the other labels follow by name. -/
def sortMatchers (matchers : List (String × String)) :
    List (String × String) :=
  sortByKey
    (fun matcher => toLex (decide (matcher.1 ≠ "__name__"), matcher.1))
    matchers

def optimizeVectorQuery (query : VectorQueryPlan) :
    Choice Error VectorQueryPlan := do
  let optimizedMatchers ← eliminateRedundantConditions query.matchers
  pure { query with matchers := sortMatchers optimizedMatchers }

/-- A range is at least 1 ms long. -/
def optimizeTimeRange (range : Int64) : Int64 :=
  max range 1

/-- Repeated labels are dropped, in the order of a hash table. -/
def optimizeGrouping (grouping : List String) : Choice Error (List String) :=
  .anyOrder grouping.dedup

mutual

def optimizePlan : PlanType → Choice Error PlanType
  | .vectorQuery query => do
    let optimized ← optimizeVectorQuery query
    pure (.vectorQuery optimized)
  | .matrixQuery vectorPlan range => do
    let optimizedVector ← optimizeVectorQuery vectorPlan
    pure (.matrixQuery optimizedVector (optimizeTimeRange range))
  | .subquery expr range resolution => do
    let optimizedExpr ← optimize expr
    pure (.subquery optimizedExpr (optimizeTimeRange range) (max resolution 1))
  | .call func args k quantile => do
    let optimizedArgs ← optimizeArgs args
    pure (.call func optimizedArgs k quantile)
  | .binaryExpr op lhs rhs => do
    let optimizedLhs ← optimize lhs
    let optimizedRhs ← optimize rhs
    -- no constants are folded
    pure (.binaryExpr op optimizedLhs optimizedRhs)
  | .unaryExpr op expr => do
    let optimizedExpr ← optimize expr
    pure (.unaryExpr op optimizedExpr)
  | .aggregation op expr grouping without => do
    let optimizedExpr ← optimize expr
    let optimizedGrouping ← optimizeGrouping grouping
    pure (.aggregation op optimizedExpr optimizedGrouping without)

def optimize : QueryPlan → Choice Error QueryPlan
  | ⟨planType, start, stop, step⟩ => do
    let optimized ← optimizePlan planType
    pure ⟨optimized, start, stop, step⟩

def optimizeArgs : List QueryPlan → Choice Error (List QueryPlan)
  | [] => pure []
  | arg :: rest => do
    let optimizedArg ← optimize arg
    let optimizedRest ← optimizeArgs rest
    pure (optimizedArg :: optimizedRest)

end

theorem nonempty_optimizeVectorQuery (query : VectorQueryPlan) :
    (optimizeVectorQuery query).outcomes.Nonempty :=
  Choice.nonempty_bind (Choice.nonempty_anyOrder _)
    fun _ => Choice.nonempty_pure _

mutual

theorem nonempty_optimizePlan :
    ∀ plan : PlanType, (optimizePlan plan).outcomes.Nonempty
  | .vectorQuery query => by
    rw [optimizePlan]
    exact Choice.nonempty_bind (nonempty_optimizeVectorQuery query)
      fun _ => Choice.nonempty_pure _
  | .matrixQuery vectorPlan range => by
    rw [optimizePlan]
    exact Choice.nonempty_bind (nonempty_optimizeVectorQuery vectorPlan)
      fun _ => Choice.nonempty_pure _
  | .subquery expr range resolution => by
    rw [optimizePlan]
    exact Choice.nonempty_bind (nonempty_optimize expr)
      fun _ => Choice.nonempty_pure _
  | .call func args k quantile => by
    rw [optimizePlan]
    exact Choice.nonempty_bind (nonempty_optimizeArgs args)
      fun _ => Choice.nonempty_pure _
  | .binaryExpr op lhs rhs => by
    rw [optimizePlan]
    exact Choice.nonempty_bind (nonempty_optimize lhs) fun _ =>
      Choice.nonempty_bind (nonempty_optimize rhs)
        fun _ => Choice.nonempty_pure _
  | .unaryExpr op expr => by
    rw [optimizePlan]
    exact Choice.nonempty_bind (nonempty_optimize expr)
      fun _ => Choice.nonempty_pure _
  | .aggregation op expr grouping without => by
    rw [optimizePlan]
    exact Choice.nonempty_bind (nonempty_optimize expr) fun _ =>
      Choice.nonempty_bind (Choice.nonempty_anyOrder _)
        fun _ => Choice.nonempty_pure _

theorem nonempty_optimize :
    ∀ part : QueryPlan, (optimize part).outcomes.Nonempty
  | ⟨planType, _, _, _⟩ => by
    rw [optimize]
    exact Choice.nonempty_bind (nonempty_optimizePlan planType)
      fun _ => Choice.nonempty_pure _

theorem nonempty_optimizeArgs :
    ∀ args : List QueryPlan, (optimizeArgs args).outcomes.Nonempty
  | [] => by
    rw [optimizeArgs]
    exact Choice.nonempty_pure _
  | arg :: rest => by
    rw [optimizeArgs]
    exact Choice.nonempty_bind (nonempty_optimize arg) fun _ =>
      Choice.nonempty_bind (nonempty_optimizeArgs rest)
        fun _ => Choice.nonempty_pure _

end

end QueryOptimizer

open QueryOptimizer

/-!
## Matchers
-/

/-- No label has two different values. -/
def Consistent (matchers : List (String × String)) : Prop :=
  ∀ first ∈ matchers, ∀ second ∈ matchers,
    first.1 = second.1 → first.2 = second.2

theorem lookup_newest
    (matchers : List (String × String)) (unique : FiniteMap String String)
    (name : String) :
    let newest :=
      matchers.foldl
        (fun unique matcher => unique.insert matcher.1 matcher.2) unique
    (∀ value,
        newest.lookup name = some value →
          (name, value) ∈ matchers ∨ unique.lookup name = some value) ∧
      ((unique.lookup name).isSome ∨ (∃ value, (name, value) ∈ matchers) →
        (newest.lookup name).isSome) := by
  induction matchers generalizing unique with
  | nil => simp
  | cons matcher rest inductionHypothesis =>
    obtain ⟨kept, present⟩ :=
      inductionHypothesis (unique.insert matcher.1 matcher.2)
    rw [foldl_cons]
    by_cases same : name = matcher.1
    · subst same
      rw [AList.lookup_insert] at kept present
      refine ⟨fun value found => ?_, fun _ => present (.inl rfl)⟩
      rcases kept value found with inRest | isHere
      · exact .inl (mem_cons_of_mem _ inRest)
      · rw [← Option.some.inj isHere]
        exact .inl mem_cons_self
    · rw [AList.lookup_insert_ne same] at kept present
      refine ⟨fun value found => ?_, fun somewhere => present ?_⟩
      · exact (kept value found).imp_left (mem_cons_of_mem _)
      · refine somewhere.imp_right ?_
        rintro ⟨value, member⟩
        rcases mem_cons.mp member with isHere | inRest
        · exact absurd (congrArg Prod.fst isHere) same
        · exact ⟨value, inRest⟩

/-- The conditions that are kept: one for each label, and no new ones. -/
structure Kept (matchers kept : List (String × String)) : Prop where
  distinct : (kept.map Prod.fst).Nodup
  mem_of_mem : ∀ matcher ∈ kept, matcher ∈ matchers
  exists_mem : ∀ matcher ∈ matchers, ∃ value, (matcher.1, value) ∈ kept

namespace Kept

variable {matchers kept : List (String × String)}

theorem mem_iff (isKept : Kept matchers kept) (consistent : Consistent matchers)
    (matcher : String × String) :
    matcher ∈ kept ↔ matcher ∈ matchers := by
  refine ⟨isKept.mem_of_mem matcher, fun member => ?_⟩
  obtain ⟨value, inKept⟩ := isKept.exists_mem matcher member
  have sameValue :=
    consistent (matcher.1, value) (isKept.mem_of_mem _ inKept) matcher member
      rfl
  rw [← Prod.mk.eta (p := matcher), ← sameValue]
  exact inKept

theorem eq_singleton_iff (isKept : Kept matchers kept)
    (several :
      2 ≤ matchers.length →
        ∃ first ∈ matchers, ∃ second ∈ matchers, first.1 ≠ second.1)
    (matcher : String × String) :
    kept = [matcher] ↔ matchers = [matcher] := by
  constructor
  · intro alone
    have onlyLabel : ∀ other ∈ matchers, other.1 = matcher.1 := by
      intro other member
      obtain ⟨value, inKept⟩ := isKept.exists_mem other member
      rw [alone, mem_singleton] at inKept
      rw [← inKept]
    have short : matchers.length < 2 := by
      by_contra long
      obtain ⟨first, isFirst, second, isSecond, different⟩ :=
        several (Nat.le_of_not_lt long)
      exact different
        ((onlyLabel first isFirst).trans (onlyLabel second isSecond).symm)
    have member : matcher ∈ matchers :=
      isKept.mem_of_mem matcher (alone ▸ mem_singleton_self matcher)
    rcases matchers with _ | ⟨only, _ | ⟨next, rest⟩⟩
    · exact absurd member not_mem_nil
    · rw [mem_singleton.mp member]
    · simp only [length_cons] at short
      omega
  · rintro rfl
    have onlyMatcher : ∀ other ∈ kept, other = matcher := fun other member =>
      mem_singleton.mp (isKept.mem_of_mem other member)
    obtain ⟨value, inKept⟩ :=
      isKept.exists_mem matcher (mem_singleton_self matcher)
    have distinct := isKept.distinct
    rcases kept with _ | ⟨first, _ | ⟨second, rest⟩⟩
    · exact absurd inKept not_mem_nil
    · rw [onlyMatcher first mem_cons_self]
    · rw [onlyMatcher first (by simp), onlyMatcher second (by simp)] at distinct
      simp at distinct

theorem perm (isKept : Kept matchers kept) {ordered : List (String × String)}
    (reordered : ordered.Perm kept) :
    Kept matchers ordered where
  distinct := (reordered.map Prod.fst).nodup_iff.mpr isKept.distinct
  mem_of_mem := fun matcher member =>
    isKept.mem_of_mem matcher (reordered.mem_iff.mp member)
  exists_mem := fun matcher member => by
    obtain ⟨value, inKept⟩ := isKept.exists_mem matcher member
    exact ⟨value, reordered.mem_iff.mpr inKept⟩

end Kept

theorem ensures_eliminateRedundantConditions
    (matchers : List (String × String)) :
    (eliminateRedundantConditions matchers).Ensures (Kept matchers) := by
  obtain ⟨fromMatchers, present⟩ := forall_and.mp (lookup_newest matchers ∅)
  refine (Choice.ensures_anyOrder _).imp fun ordered reordered => ?_
  refine Kept.perm ⟨?_, ?_, ?_⟩ reordered
  · rw [map_map]
    exact AList.keys_nodup _
  · intro matcher member
    obtain ⟨entry, isEntry, rfl⟩ := mem_map.mp member
    exact (fromMatchers entry.1 entry.2
      (AList.mem_lookup_iff.mpr isEntry)).resolve_right (by simp)
  · intro matcher member
    obtain ⟨value, found⟩ :=
      Option.isSome_iff_exists.mp (present matcher.1 (.inr ⟨matcher.2, member⟩))
    exact ⟨value,
      mem_map.mpr ⟨⟨matcher.1, value⟩, AList.mem_lookup_iff.mp found, rfl⟩⟩

/-- What a selector keeps. -/
structure SelectorKept (query optimized : VectorQueryPlan) : Prop where
  atTimestamp : optimized.atTimestamp = query.atTimestamp
  offset : optimized.offset = query.offset
  matchers : Kept query.matchers optimized.matchers

theorem ensures_optimizeVectorQuery (query : VectorQueryPlan) :
    (optimizeVectorQuery query).Ensures (SelectorKept query) := by
  refine Choice.ensures_bind
    (ensures_eliminateRedundantConditions query.matchers)
    fun optimizedMatchers isKept => Choice.ensures_pure ⟨rfl, rfl, ?_⟩
  exact isKept.perm (sortByKey_perm _ _)

/-!
## Selectors
-/

theorem findSeries_perm
    {store : MemStore} (distinct : store.head.index.Distinct)
    {matchers others : List (String × String)}
    (same : ∀ matcher, matcher ∈ matchers ↔ matcher ∈ others) :
    (store.findSeries matchers).Perm (store.findSeries others) := by
  cases matchers with
  | nil =>
    have nothing : others = [] :=
      eq_nil_iff_forall_not_mem.mpr fun matcher member =>
        absurd ((same matcher).mpr member) not_mem_nil
    rw [nothing]
  | cons first rest =>
    cases others with
    | nil => exact absurd ((same first).mp mem_cons_self) not_mem_nil
    | cons otherFirst otherRest =>
      obtain ⟨nodup, members⟩ :=
        foldl_intersect store.head.index rest (distinct first.1 first.2)
      obtain ⟨otherNodup, otherMembers⟩ :=
        foldl_intersect store.head.index otherRest
          (distinct otherFirst.1 otherFirst.2)
      refine (perm_ext_iff_of_nodup nodup otherNodup).mpr fun seriesId => ?_
      rw [members, otherMembers]
      have inAll :
          (∀ matcher ∈ first :: rest,
              seriesId ∈ store.head.index.lookup matcher.1 matcher.2) ↔
            ∀ matcher ∈ otherFirst :: otherRest,
              seriesId ∈ store.head.index.lookup matcher.1 matcher.2 :=
        forall_congr' fun matcher => imp_congr_left (same matcher)
      simpa only [forall_mem_cons] using inAll

theorem executesVectorQuery_congr
    {config : ParallelConfig} {parallel : ParallelQueryExecutor}
    {store : MemStore} {query other : VectorQueryPlan} {ctx : ExecutionContext}
    (sameRange : query.finalRange ctx = other.finalRange ctx)
    (sameSeries :
      (store.findSeries query.matchers).Perm (store.findSeries other.matchers))
    (outcome : Except Error (List TimeSeries)) :
    ExecutesVectorQuery config parallel store query ctx outcome ↔
      ExecutesVectorQuery config parallel store other ctx outcome := by
  have sameFound :
      ∀ seriesIds : List TimeSeriesId,
        seriesIds.Perm (store.findSeries query.matchers) ↔
          seriesIds.Perm (store.findSeries other.matchers) := fun seriesIds =>
    ⟨fun found => found.trans sameSeries,
      fun found => found.trans sameSeries.symm⟩
  simp only [ExecutesVectorQuery, sameRange, sameFound]

theorem executeVectorQuery_optimized {executor : QueryExecutor}
    (distinct : executor.memstore.head.index.Distinct)
    {query optimized : VectorQueryPlan} (isKept : SelectorKept query optimized)
    (consistent : Consistent query.matchers) (ctx : StepContext) :
    executor.executeVectorQuery optimized ctx =
      executor.executeVectorQuery query ctx := by
  have sameRange :
      optimized.finalRange ctx.toExecutionContext =
        query.finalRange ctx.toExecutionContext := by
    simp only [VectorQueryPlan.finalRange, VectorQueryPlan.queryRange,
      isKept.atTimestamp, isKept.offset]
  have sameSeries :=
    findSeries_perm distinct (isKept.matchers.mem_iff consistent)
  simp only [QueryExecutor.executeVectorQuery,
    executesVectorQuery_congr sameRange sameSeries]

theorem labelOf_optimized
    {query optimized : VectorQueryPlan} (isKept : SelectorKept query optimized)
    (several :
      2 ≤ query.matchers.length →
        ∃ first ∈ query.matchers, ∃ second ∈ query.matchers,
          first.1 ≠ second.1) :
    labelOf (.vectorQuery optimized) = labelOf (.vectorQuery query) := by
  have sameAlone := isKept.matchers.eq_singleton_iff several
  simp only [labelOf]
  by_cases alone : ∃ matcher, query.matchers = [matcher]
  · obtain ⟨matcher, isAlone⟩ := alone
    rw [(sameAlone matcher).mpr isAlone, isAlone]
  · split
    · rename_i name value isOptimized
      exact absurd ⟨_, (sameAlone _).mp isOptimized⟩ alone
    · split
      · rename_i name value isQuery
        exact absurd ⟨_, isQuery⟩ alone
      · rfl

end ChronoDB.Query
