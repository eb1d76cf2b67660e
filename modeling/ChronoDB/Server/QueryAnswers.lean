import ChronoDB.Query.Parametric
import ChronoDB.Server.QueryApi

namespace ChronoDB.Server

open Library Text Wal Memstore Columnstore Query Rules

/-!
# Answers of the HTTP query API

A selector without modifiers asks for the series that it denotes.  Any other
query asks for what the query engine computes.  An answer shows a series by the
labels that name it and by its samples.
-/

/-!
## What a query asks for
-/

/-- How a matcher of the query language compares. -/
def matchType : MatchOp → MatchType
  | .equal => .equal
  | .notEqual => .notEqual
  | .regexMatch | .regex => .regexMatch
  | .regexNotMatch | .notRegex => .regexNoMatch

def selectorMatchers (selector : VectorSelector) : List LabelMatcher :=
  (selector.name.map fun name => ⟨"__name__", .equal, name⟩).toList ++
    selector.matchers.map fun matcher =>
      ⟨matcher.name, matchType matcher.op, matcher.value⟩

def HasLabels (labelMatchers : List (String × String)) (labels : Labels) :
    Prop :=
  ∀ matcher ∈ labelMatchers, ⟨matcher.1, matcher.2⟩ ∈ labels

instance (labelMatchers : List (String × String)) (labels : Labels) :
    Decidable (HasLabels labelMatchers labels) :=
  inferInstanceAs (Decidable (∀ matcher ∈ labelMatchers, _))

def samplesIn (start stop : Timestamp) (entry : TimeSeriesEntry) :
    List Sample :=
  entry.samples.filter (Sample.inRange start stop)

/-- No other sample is later. -/
def IsLatest (samples : List Sample) (sample : Sample) : Prop :=
  sample ∈ samples ∧ ∀ other ∈ samples, other.timestamp ≤ sample.timestamp

def ShowsLatest
    (time : Timestamp) (entry : TimeSeriesEntry) (point : InstantVector) :
    Prop :=
  ShowsLabels point.metric entry.labels ∧
    ∃ sample,
      IsLatest (samplesIn Int64.minValue time entry) sample ∧
        point.value = (seconds sample.timestamp, sample.value)

def ShowsRange
    (start stop : Timestamp) (entry : TimeSeriesEntry) (vector : RangeVector) :
    Prop :=
  ShowsLabels vector.metric entry.labels ∧
    vector.values.Perm
      ((samplesIn start stop entry).map fun sample =>
        (seconds sample.timestamp, sample.value))

/-- A series of the engine with its values as they are. -/
def exactVector (ts : TimeSeries) : RangeVector where
  metric := metricOf ts.labels
  values :=
    ts.samples.map fun sample => (seconds sample.timestamp, sample.value)

/-- The engine beside the handlers, and what tells its queries apart. -/
structure QuerySemantics where
  std : StdText
  float : StdFloat
  executorConfig : ParallelConfig
  lru : BoundedCache CacheKey Query.QueryResult
  regex : String → Option (String → Bool)

namespace QuerySemantics

variable (semantics : QuerySemantics)

/-- The query is read as a selector without modifiers. -/
def IsPlain (query : Text) (selector : VectorSelector) : Prop :=
  parsePromql semantics.std query = .ok (.vectorSelector selector) ∧
    selector.offset = none ∧ selector.atModifier = none

def Denotes (selector : VectorSelector) (labels : Labels) : Prop :=
  ∀ matcher ∈ selectorMatchers selector,
    matcher.Satisfied semantics.regex labels

/-- The engine can return a result. -/
def IsResult (store : MemStore) (key : CacheKey) (result : Query.QueryResult) :
    Prop :=
  .ok result ∈
    (QueryEngine.executeQuery semantics.std semantics.float
      (QueryEngine.new store semantics.executorConfig :
        QueryEngine semantics.lru)
      key).outcomes

def AnswersInstant (store : MemStore) (query : Text) (time : Timestamp)
    (points : List InstantVector) :
    Prop :=
  (∀ selector,
      semantics.IsPlain query selector →
        store.Lists
          (fun entry =>
            semantics.Denotes selector entry.labels ∧
              samplesIn Int64.minValue time entry ≠ [])
          (ShowsLatest time) points) ∧
    ((∀ selector, ¬semantics.IsPlain query selector) →
      ∃ result,
        semantics.IsResult store ⟨query, time, time, 0⟩ result ∧
          points.Perm (result.series.flatMap seriesPoints))

def AnswersRange
    (store : MemStore) (query : Text) (start stop : Timestamp) (step : Int64)
    (vectors : List RangeVector) :
    Prop :=
  (∀ selector,
      semantics.IsPlain query selector →
        store.Lists
          (fun entry =>
            semantics.Denotes selector entry.labels ∧
              samplesIn start stop entry ≠ [])
          (ShowsRange start stop) vectors) ∧
    ((∀ selector, ¬semantics.IsPlain query selector) →
      ∃ result,
        semantics.IsResult store ⟨query, start, stop, step⟩ result ∧
          vectors.Perm (result.series.map exactVector))

end QuerySemantics

/-- An instant query ends with an error or with a right answer. -/
def InstantAnswered (semantics : QuerySemantics) (reader : ParamReader)
    (debugError : Error → String) (store : MemStore) (params : Params)
    (now : Timestamp) :
    Prop :=
  ∃ response,
    handleQueryInternal reader debugError store params now = .ok response ∧
      ∀ query data,
        params.lookup "query" = some query →
          response = .success data →
            ∃ points,
              data = .vector points ∧
                semantics.AnswersInstant store query.toList
                  (queryTime reader params now) points

/-- A range query ends with an error or with a right answer. -/
def RangeAnswered (semantics : QuerySemantics) (reader : ParamReader)
    (debugError : Error → String) (store : MemStore) (params : Params) :
    Prop :=
  ∃ response,
    handleQueryRangeInternal reader debugError store params = .ok response ∧
      ∀ query start stop step data,
        params.lookup "query" = some query →
          readRange reader params = .ok (.ok (start, stop, step)) →
            response = .success data →
              ∃ vectors,
                data = .matrix vectors ∧
                  semantics.AnswersRange store query.toList start stop step
                    vectors

/-!
## When a query is answered
-/

def Returns (store : MemStore) (labelMatchers : List (String × String))
    (start stop : Timestamp) (series : List TimeSeries) :
    Prop :=
  store.Lists
    (fun entry =>
      HasLabels labelMatchers entry.labels ∧ samplesIn start stop entry ≠ [])
    (fun entry ts =>
      ts.labels = entry.labels ∧
        ts.samples =
          applyDownsampling (samplesIn start stop entry)
            (MemStore.autoSelectDownsampleLevel start stop))
    series

/-- The only average that is returned is the latest sample. -/
def KeepsLatest (time : Timestamp) (samples : List Sample) : Prop :=
  ∃ sample,
    IsLatest samples sample ∧
      applyDownsampling samples
          (MemStore.autoSelectDownsampleLevel Int64.minValue time) =
        [sample]

/-- No sample is averaged, moved or rounded. -/
def KeepsAll (start stop : Timestamp) (samples : List Sample) : Prop :=
  KeptBy (MemStore.autoSelectDownsampleLevel start stop) samples ∧
    ∀ sample ∈ samples, roundDecimals 6 sample.value = sample.value

namespace QuerySemantics

variable (semantics : QuerySemantics)

/--
Of the series with samples in the range, those with the labels that the handler
looks for are those that the selector denotes, and each of these can be shown.
-/
def Selects (store : MemStore) (selector : VectorSelector)
    (labelMatchers : List (String × String)) (start stop : Timestamp)
    (CanShow : List Sample → Prop) :
    Prop :=
  ∀ seriesId entry,
    store.head.series.lookup seriesId = some entry →
      samplesIn start stop entry ≠ [] →
        (HasLabels labelMatchers entry.labels ↔
            semantics.Denotes selector entry.labels) ∧
          (semantics.Denotes selector entry.labels →
            HasDistinctNames entry.labels ∧
              CanShow (samplesIn start stop entry))

/--
The text can be split.  A selector is split into its own matchers, and every series
comes to its latest sample; any other query has by chance the same points in the
store as in the engine.
-/
def InstantKept (store : MemStore) (query : Text) (time : Timestamp) :
    Prop :=
  ∃ aggregation labelMatchers,
    readQueryText query = .ok (aggregation, labelMatchers) ∧
      (∀ selector,
          semantics.IsPlain query selector →
            semantics.Selects store selector labelMatchers Int64.minValue time
              (KeepsLatest time)) ∧
        ((∀ selector, ¬semantics.IsPlain query selector) →
          ∃ series result,
            Returns store labelMatchers Int64.minValue time series ∧
              semantics.IsResult store ⟨query, time, time, 0⟩ result ∧
                (instantVectors aggregation series).Perm
                  (result.series.flatMap seriesPoints))

/--
The text can be split.  A selector is split into its own matchers, and all samples
stay as they are; any other query has by chance the same series in the store as in
the engine.
-/
def RangeKept
    (store : MemStore) (query : Text) (start stop : Timestamp) (step : Int64) :
    Prop :=
  ∃ labelMatchers,
    parseLabelMatchers query = .ok labelMatchers ∧
      (∀ selector,
          semantics.IsPlain query selector →
            semantics.Selects store selector labelMatchers start stop
              (KeepsAll start stop)) ∧
        ((∀ selector, ¬semantics.IsPlain query selector) →
          ∃ series result,
            Returns store labelMatchers start stop series ∧
              semantics.IsResult store ⟨query, start, stop, step⟩ result ∧
                (series.map rangeVector).Perm (result.series.map exactVector))

end QuerySemantics

end ChronoDB.Server
