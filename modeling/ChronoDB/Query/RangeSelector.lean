import ChronoDB.Memstore.Reading
import ChronoDB.Query.Execution

namespace ChronoDB.Query

open Library Memstore MemStore Columnstore DownsampleLevel QueryPlanner

/-!
# Range selectors

A range selector asks for the samples of the last while before the instant at
which it is evaluated.  Its range goes from the expression into the plan and no
further: what it reads is the window of the query.
-/

def VectorSelector.Selects (selector : VectorSelector) (labels : Labels) :
    Prop :=
  ∀ condition ∈ selector.conditions, ⟨condition.1, condition.2⟩ ∈ labels

/-- The instant at which a selector is evaluated, as an exact number. -/
def VectorSelector.evaluatedAt
    (selector : VectorSelector) (ctx : ExecutionContext) :
    ℤ :=
  let instant :=
    match selector.atModifier with
    | none => ctx.stop
    | some ⟨timestamp⟩ =>
      if timestamp = -1 then ctx.start
      else if timestamp = -2 then ctx.stop
      else timestamp
  instant.toInt - (selector.offset.getD 0).toInt

/-- The timestamps that a range selector asks for. -/
def MatrixSelector.Covers (selector : MatrixSelector) (ctx : ExecutionContext)
    (timestamp : Timestamp) :
    Prop :=
  let instant := selector.vectorSelector.evaluatedAt ctx
  instant - selector.range.toInt ≤ timestamp.toInt ∧ timestamp.toInt ≤ instant

/-- The result has every sample that the selector asks for. -/
def MatrixSelector.ReadsRange
    (selector : MatrixSelector) (store : MemStore) (ctx : ExecutionContext)
    (series : List TimeSeries) :
    Prop :=
  ∀ seriesId entry,
    store.head.series.lookup seriesId = some entry →
      selector.vectorSelector.Selects entry.labels →
        ∀ sample ∈ entry.samples,
          selector.Covers ctx sample.timestamp →
            ∃ ts ∈ series, ts.id = seriesId ∧ sample ∈ ts.samples

def VectorSelector.window (selector : VectorSelector) (ctx : ExecutionContext) :
    Timestamp × Timestamp :=
  VectorQueryPlan.finalRange {
    matchers := selector.conditions
    atTimestamp := selector.atModifier.map AtModifier.timestamp
    offset := selector.offset
  } ctx

/--
What a window shows of a series: its samples when the window is short, and the
averages of their runs when it is long.
-/
def ShownIn
    (window : Timestamp × Timestamp) (samples : List Sample) (sample : Sample) :
    Prop :=
  let (start, stop) := window
  let level := fromQueryRange (stop - start)
  let read := samples.filter (Sample.inRange start stop)
  if level = .l0 then
    sample ∈ read
  else
    ∃ run ∈ windowRuns level.resolutionMs read,
      averageRun level.resolutionMs run = some sample

/-- The window of the query shows every sample that the selector asks for. -/
def MatrixSelector.ShownInWindow
    (selector : MatrixSelector) (store : MemStore) (ctx : ExecutionContext) :
    Prop :=
  ∀ seriesId entry,
    store.head.series.lookup seriesId = some entry →
      selector.vectorSelector.Selects entry.labels →
        ∀ sample ∈ entry.samples,
          selector.Covers ctx sample.timestamp →
            ShownIn (selector.vectorSelector.window ctx) entry.samples sample

theorem exists_querySeries_iff
    {store : MemStore} {seriesId : TimeSeriesId} {entry : TimeSeriesEntry}
    (found : store.head.series.lookup seriesId = some entry)
    (start stop : Timestamp) (sample : Sample) :
    (∃ ts,
        store.querySeries start stop
            (fromQueryRange (stop - start)) seriesId =
          some ts ∧
        sample ∈ ts.samples) ↔
      ShownIn (start, stop) entry.samples sample := by
  have returned :
      (∃ ts,
          store.querySeries start stop
              (fromQueryRange (stop - start)) seriesId =
            some ts ∧
          sample ∈ ts.samples) ↔
        sample ∈
          applyDownsampling
            (entry.samples.filter (Sample.inRange start stop))
            (fromQueryRange (stop - start)) := by
    rw [querySeries_of_lookup found]
    split
    · rename_i nothing
      simp [nothing, applyDownsampling]
    · simp
  rw [returned]
  simp only [ShownIn]
  split
  · rename_i short
    rw [short]
    cases entry.samples.filter (Sample.inRange start stop) <;>
      simp [applyDownsampling]
  · rename_i long
    rw [applyDownsampling_eq long, List.mem_filterMap]

theorem executePlan_matrixSelector
    {selector : MatrixSelector} {planType : PlanType}
    (isPlanned :
      planMatrixSelector selector = .ok planType)
    (std : StdFloat) (executor : QueryExecutor) (ctx : StepContext) :
    let window := selector.vectorSelector.window ctx.toExecutionContext
    (executor.executePlan std planType ctx).outcomes.Nonempty ∧
      (executor.executePlan std planType ctx).Ensures fun series =>
        series.Perm
          (executor.memstore.queryWithDownsample
            selector.vectorSelector.conditions window.1 window.2
            (fromQueryRange (window.2 - window.1))) := by
  refine ⟨executor.nonempty_executePlan std planType ctx, ?_⟩
  rw [planMatrixSelector_eq_ok isPlanned,
    QueryExecutor.executePlan]
  exact executor.ensures_executeVectorQuery _ ctx

section Outcomes

variable {hasher : Bytes → TimeSeriesId} {config : HeadConfig}
variable {operations : List HeadOperation} {executor : QueryExecutor}
variable {selector : MatrixSelector} {planType : PlanType}

theorem shownInWindow_of_readsRange
    (isPlanned :
      planMatrixSelector selector = .ok planType)
    {std : StdFloat} {ctx : StepContext}
    (reads :
      (executor.executePlan std planType ctx).Ensures
        (selector.ReadsRange executor.memstore ctx.toExecutionContext)) :
    selector.ShownInWindow executor.memstore ctx.toExecutionContext := by
  obtain ⟨⟨outcome, isOutcome⟩, returns⟩ :=
    executePlan_matrixSelector isPlanned std executor ctx
  obtain ⟨series, rfl, readsAll⟩ := reads outcome isOutcome
  obtain ⟨_, sameOutcome, same⟩ := returns _ isOutcome
  cases sameOutcome
  intro seriesId entry found selects sample held covers
  obtain ⟨ts, isSeries, isId, isSample⟩ :=
    readsAll seriesId entry found selects sample held covers
  obtain ⟨queriedId, _, isQueried⟩ :=
    List.mem_filterMap.mp (same.mem_iff.mp isSeries)
  have sameId : queriedId = seriesId :=
    (id_of_querySeries isQueried).symm.trans isId
  rw [sameId] at isQueried
  exact (exists_querySeries_iff found _ _ sample).mp ⟨ts, isQueried, isSample⟩

theorem readsRange_of_shownInWindow
    (agrees : executor.memstore.head.Agrees config)
    (isPlanned :
      planMatrixSelector selector = .ok planType)
    {std : StdFloat} {ctx : StepContext}
    (shown :
      selector.ShownInWindow executor.memstore ctx.toExecutionContext) :
    (executor.executePlan std planType ctx).Ensures
      (selector.ReadsRange executor.memstore ctx.toExecutionContext) := by
  obtain ⟨_, returns⟩ := executePlan_matrixSelector isPlanned std executor ctx
  intro outcome isOutcome
  obtain ⟨series, rfl, same⟩ := returns outcome isOutcome
  refine ⟨series, rfl, ?_⟩
  intro seriesId entry found selects sample held covers
  obtain ⟨ts, isQueried, isSample⟩ :=
    (exists_querySeries_iff found _ _ sample).mpr
      (shown seriesId entry found selects sample held covers)
  have known :=
    ((MemStore.findSeries_exact agrees
      selector.vectorSelector.conditions).2 seriesId).mpr
        ⟨entry, found, selects⟩
  exact ⟨ts, same.mem_iff.mpr (List.mem_filterMap.mpr
    ⟨seriesId, known, isQueried⟩), id_of_querySeries isQueried, isSample⟩

/--
In every store that operations lead to, executing the plan of a range selector
returns every sample that the selector asks for exactly when the window of the
query shows all of them.
-/
theorem matrixSelector_reads_range_iff
    (run :
      Run (HeadStep hasher) (HeadBlock.new config) operations
        executor.memstore.head)
    (isPlanned :
      planMatrixSelector selector = .ok planType)
    (std : StdFloat)
    (ctx : StepContext) :
    (executor.executePlan std planType ctx).Ensures
        (selector.ReadsRange executor.memstore ctx.toExecutionContext) ↔
      selector.ShownInWindow executor.memstore ctx.toExecutionContext :=
  ⟨shownInWindow_of_readsRange isPlanned,
    readsRange_of_shownInWindow (.ofRun run) isPlanned⟩

end Outcomes

/--
At one instant, a range selector without modifiers gets what it asks for exactly
when no selected series has an older sample in the range.
-/
theorem shownInWindow_iff_of_instant {selector : MatrixSelector}
    (noTime : selector.vectorSelector.atModifier = none)
    (noOffset : selector.vectorSelector.offset = none) (store : MemStore)
    (timestamp : Timestamp) :
    selector.ShownInWindow store ⟨timestamp, timestamp⟩ ↔
      ∀ seriesId entry,
        store.head.series.lookup seriesId = some entry →
          selector.vectorSelector.Selects entry.labels →
            ∀ sample ∈ entry.samples,
              ¬ (timestamp.toInt - selector.range.toInt ≤
                  sample.timestamp.toInt ∧
                sample.timestamp.toInt < timestamp.toInt) := by
  have isWindow :
      selector.vectorSelector.window ⟨timestamp, timestamp⟩ =
        (timestamp, timestamp) := by
    rw [VectorSelector.window, noTime, noOffset]
    rfl
  have isInstant :
      selector.vectorSelector.evaluatedAt ⟨timestamp, timestamp⟩ =
        timestamp.toInt := by
    rw [VectorSelector.evaluatedAt, noTime, noOffset]
    exact sub_zero _
  have short : fromQueryRange (timestamp - timestamp) = .l0 := by
    rw [Int64.sub_self]
    decide
  simp only [MatrixSelector.ShownInWindow, MatrixSelector.Covers, isWindow,
    isInstant, ShownIn, short, if_true, List.mem_filter, Sample.inRange,
    Bool.and_eq_true, decide_eq_true_eq, Int64.le_iff_toInt_le]
  constructor
  · intro shown seriesId entry found selects sample held old
    obtain ⟨_, notOlder, _⟩ :=
      shown seriesId entry found selects sample held ⟨old.1, Int.le_of_lt old.2⟩
    exact Int.not_le.mpr old.2 notOlder
  · intro noneOlder seriesId entry found selects sample held covers
    have notOlder := noneOlder seriesId entry found selects sample held
    exact ⟨held,
      Int.not_lt.mp fun older => notOlder ⟨covers.1, older⟩, covers.2⟩

/-!
## A counter that was scraped twice
-/

/-- The series `up` with one sample at the start and one a minute later. -/
def upOperations : List HeadOperation :=
  let labels : Labels := [⟨"__name__", "up"⟩]
  let seriesId := calculateSeriesId SipHash.hash labels
  [.getOrCreateSeries labels, .addSample seriesId ⟨0, 1⟩,
    .addSample seriesId ⟨60000, 2⟩]

/-- The series table after some operations. -/
def headAfter (operations : List HeadOperation) : HeadBlock :=
  operations.foldl
    (fun head operation => (operation.run SipHash.hash head).2)
    (HeadBlock.new ⟨1⟩)

theorem run_headAfter (operations : List HeadOperation) :
    Run (HeadStep SipHash.hash) (HeadBlock.new ⟨1⟩) operations
      (headAfter operations) := by
  rw [headAfter]
  generalize HeadBlock.new ⟨1⟩ = head
  induction operations generalizing head with
  | nil => exact .nil head
  | cons first rest inductionHypothesis =>
    exact .cons rfl (inductionHypothesis _)

/-- An engine over the series `up`. -/
def upExecutor : QueryExecutor where
  memstore := {
    head := headAfter upOperations
    wal := none
    stats := ⟨1, 2, 2⟩
  }
  config := ⟨false, false, false, 0, 0⟩

theorem run_upExecutor :
    Run (HeadStep SipHash.hash) (HeadBlock.new ⟨1⟩) upOperations
      upExecutor.memstore.head := by
  rw [upExecutor]
  exact run_headAfter upOperations

/-- `up` over the last minutes. -/
def upRange (range : Int64) : MatrixSelector where
  vectorSelector := ⟨some "up", [], none, none⟩
  range := range

theorem lookup_up :
    ∃ seriesId entry,
      upExecutor.memstore.head.series.lookup seriesId = some entry ∧
        entry.labels = [⟨"__name__", "up"⟩] ∧
          entry.samples = [⟨0, 1⟩, ⟨60000, 2⟩] := by
  have found :
      (upExecutor.memstore.head.series.lookup
          (calculateSeriesId SipHash.hash [⟨"__name__", "up"⟩])).map
          (fun entry => (entry.labels, entry.samples)) =
        some ([⟨"__name__", "up"⟩], [⟨0, 1⟩, ⟨60000, 2⟩]) := by
    decide +kernel
  obtain ⟨entry, isEntry, isContent⟩ := Option.map_eq_some_iff.mp found
  obtain ⟨isLabels, isSamples⟩ := Prod.mk.inj isContent
  exact ⟨_, entry, isEntry, isLabels, isSamples⟩

/-- The last five minutes of `up` lack a sample at an instant. -/
theorem instant_query_misses_range :
    Run (HeadStep SipHash.hash) (HeadBlock.new ⟨1⟩) upOperations
        upExecutor.memstore.head ∧
      ∃ planType,
        planMatrixSelector (upRange 300000) = .ok planType ∧
          ∀ std,
            ¬ (upExecutor.executePlan std planType ⟨⟨60000, 60000⟩, 0⟩).Ensures
              ((upRange 300000).ReadsRange upExecutor.memstore
                ⟨60000, 60000⟩) := by
  refine ⟨run_upExecutor, _, rfl, fun std reads => ?_⟩
  have shownAll := shownInWindow_of_readsRange rfl reads
  have shown :=
    (@shownInWindow_iff_of_instant (upRange 300000) rfl rfl
      upExecutor.memstore 60000).mp shownAll
  obtain ⟨seriesId, entry, found, isLabels, isSamples⟩ := lookup_up
  have selects : (upRange 300000).vectorSelector.Selects entry.labels := by
    rw [isLabels]
    intro condition member
    simp_all [VectorSelector.conditions, upRange]
  have held : ⟨0, 1⟩ ∈ entry.samples := by
    simp [isSamples]
  exact shown seriesId entry found selects ⟨0, 1⟩ held (by decide +kernel)

theorem minute_query_reads_minute :
    ∃ planType,
      planMatrixSelector (upRange 60000) = .ok planType ∧
        ∀ std,
          (upExecutor.executePlan std planType ⟨⟨0, 60000⟩, 0⟩).Ensures
            ((upRange 60000).ReadsRange upExecutor.memstore ⟨0, 60000⟩) := by
  refine ⟨_, rfl, fun std => ?_⟩
  refine (matrixSelector_reads_range_iff run_upExecutor rfl std
    ⟨⟨0, 60000⟩, 0⟩).mpr ?_
  intro seriesId entry found _ sample held _
  have allInRange :
      ∀ stored ∈ (headAfter upOperations).series.entries,
        ∀ sample ∈ stored.2.samples,
          sample ∈ stored.2.samples.filter (Sample.inRange 0 60000) := by
    decide +kernel
  exact allInRange ⟨seriesId, entry⟩ (AList.mem_lookup_iff.mp found) sample held

end ChronoDB.Query
