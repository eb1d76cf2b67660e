import ChronoDB.Query.Engine
import ChronoDB.Rules.LabelMatchers
import ChronoDB.Server.Metrics

namespace ChronoDB.Server

open Library Text Wal Memstore Columnstore Query Rules

/-!
# The HTTP query API

The handlers do not use the query engine.  They look for an aggregation around a
query, split what is left into equality matchers, and ask the store with them.  A
number is sent as a text; it stands for itself here, with the digits that the
text has.
-/

/-- A value with its time in seconds. -/
structure InstantVector where
  metric : Metric
  value : Value × Value
  deriving DecidableEq

structure RangeVector where
  metric : Metric
  values : List (Value × Value)
  deriving DecidableEq

inductive QueryResult where
  | vector (vectors : List InstantVector)
  | matrix (vectors : List RangeVector)

/-- The fields that the two ways to build a response fill. -/
inductive ApiResponse where
  | success (data : QueryResult)
  | error (errorType error : String)

abbrev Params :=
  FiniteMap String String

/--
What the handlers take from libraries: the milliseconds of seconds with decimals,
and the milliseconds of a duration, both cast to `i64`.
-/
structure ParamReader where
  parseSeconds : Text → Option Int64
  parseDuration : Text → Option Int64

def seconds (timestamp : Timestamp) : Value :=
  timeValue timestamp / 1000

/-!
## Instant queries
-/

inductive AggregationFunction where
  | sum
  | avg
  | max
  | min
  deriving Repr, DecidableEq

namespace AggregationFunction

/-- How an aggregated query begins. -/
def opening : AggregationFunction → Text
  | sum => "sum(".toList
  | avg => "avg(".toList
  | max => "max(".toList
  | min => "min(".toList

/-- The value of a group, which is never empty. -/
def aggregate : AggregationFunction → List Value → Value
  | sum, values => values.sum
  | avg, values => values.sum / values.length
  | max, values => values.max?.getD 0
  | min, values => values.min?.getD 0

end AggregationFunction

/-- The aggregation around a query, and the text that it is applied to. -/
def splitAggregation (query : Text) :
    Except Fault (Option AggregationFunction × Text) :=
  match
    [AggregationFunction.sum, .avg, .max, .min].find? fun function =>
      function.opening.isPrefixOf query && query.getLast? == some ')'
  with
  | none => .ok (none, query)
  | some function => do
    let inner ← orPanic (slice query 4 (byteLength query - 1))
    .ok (some function, trim inner)

def pointOf (labels : Labels) (sample : Sample) : InstantVector where
  metric := metricOf labels
  value := (seconds sample.timestamp, sample.value)

def seriesPoints (ts : TimeSeries) : List InstantVector :=
  ts.samples.map (pointOf ts.labels)

/-- One point for each time; the hash table orders them. -/
def aggregatePoints
    (function : AggregationFunction) (points : List InstantVector) :
    List InstantVector :=
  (points.map fun point => point.value.1).dedup.map fun time => {
    metric := ∅
    value :=
      (time,
        function.aggregate
          ((points.filter fun point => point.value.1 = time).map fun point =>
            point.value.2))
  }

def instantVectors
    (aggregation : Option AggregationFunction) (series : List TimeSeries) :
    List InstantVector :=
  match aggregation with
  | none => series.flatMap seriesPoints
  | some function => aggregatePoints function (series.flatMap seriesPoints)

/-- The aggregation and the matchers of an instant query. -/
def readQueryText (query : Text) :
    Except Fault (Option AggregationFunction × List (String × String)) := do
  let (aggregation, processedQuery) ← splitAggregation (trim query)
  let labelMatchers ← parseLabelMatchers processedQuery
  .ok (aggregation, labelMatchers)

section Handlers

variable (reader : ParamReader)

/-- The time of an instant query; a text that is no number is passed over. -/
def queryTime (params : Params) (now : Timestamp) : Timestamp :=
  ((params.lookup "time").bind fun time =>
    reader.parseSeconds time.toList).getD now

def badData (message : String) : ApiResponse :=
  .error "bad_data" message

/-- The response to what the store returns. -/
def respond
    (debugError : Error → String) (data : List TimeSeries → QueryResult) :
    Except Error (List TimeSeries) → ApiResponse
  | .ok series => .success (data series)
  | .error cause =>
    .error "execution" ("Query execution failed: " ++ debugError cause)

/-- The store does not fail a query. -/
def handleQueryInternal
    (debugError : Error → String) (store : MemStore) (params : Params)
    (now : Timestamp) :
    Except Fault ApiResponse :=
  match params.lookup "query" with
  | none => .ok (badData "Parameter 'query' is required")
  | some query =>
    if trim query.toList = [] then
      .ok (badData "Parameter 'query' cannot be empty")
    else do
      let (aggregation, labelMatchers) ← readQueryText query.toList
      .ok
        (respond debugError
          (fun series => .vector (instantVectors aggregation series))
          (.ok
            (store.query labelMatchers Int64.minValue
              (queryTime reader params now))))

/-!
## Range queries
-/

def parseI64 (text : Text) : Option Int64 :=
  let negative := text.head? = some '-'
  let digits := if negative ∨ text.head? = some '+' then text.tail else text
  if digits = [] ∨ ¬digits.all Char.isDigit then
    none
  else if negative then
    if digitsValue digits ≤ maxI64 + 1 then
      some (-Int64.ofNat (digitsValue digits))
    else
      none
  else if digitsValue digits ≤ maxI64 then
    some (Int64.ofNat (digitsValue digits))
  else
    none

/-- An `i64` multiplication by 1000. -/
def toMillis (time : Int64) : Except Fault Timestamp :=
  if Int64.minValue.toInt ≤ time.toInt * 1000 ∧
      time.toInt * 1000 ≤ Int64.maxValue.toInt then
    .ok (time * 1000)
  else
    .error .panic

/-- The reason to refuse a range. -/
def rangeFault (start stop : Timestamp) (step : Int64) : Option String :=
  if start < 0 then
    some "Invalid 'start' parameter: cannot be negative"
  else if stop < 0 then
    some "Invalid 'end' parameter: cannot be negative"
  else if stop < start then
    some "Invalid time range: 'start' cannot be greater than 'end'"
  else if step ≤ 0 then
    some "Invalid 'step' parameter: must be positive"
  else if 2592000000 < stop - start then
    some "Time range too large: maximum allowed is 30 days"
  else
    none

/-- Seconds with decimals, or a duration. -/
def parseStep (step : Text) : Option Int64 :=
  (reader.parseSeconds step).or (reader.parseDuration step)

/-- The range and the step of a query, or the reason to refuse it. -/
def readRange (params : Params) :
    Except Fault (Except String (Timestamp × Timestamp × Int64)) :=
  let start := (params.lookup "start").bind fun start => parseI64 start.toList
  let stop := (params.lookup "end").bind fun stop => parseI64 stop.toList
  let step :=
    (params.lookup "step").bind fun step => parseStep reader step.toList
  match start, stop, step with
  | some start, some stop, some step => do
    let start ← toMillis start
    let stop ← toMillis stop
    match rangeFault start stop step with
    | some message => .ok (.error message)
    | none => .ok (.ok (start, stop, step))
  | _, _, _ => .ok (.error "Parameters 'start', 'end' and 'step' are required")

/-- A number as it is written with some decimals: the even one of two nearest. -/
def roundDecimals (decimals : ℕ) (value : Value) : Value :=
  let scaled := value * 10 ^ decimals
  let below := scaled.floor
  let rounded :=
    if scaled - below < 1 / 2 then below
    else if 1 / 2 < scaled - below then below + 1
    else if below % 2 = 0 then below
    else below + 1
  rounded / 10 ^ decimals

def rangeVector (ts : TimeSeries) : RangeVector where
  metric := metricOf ts.labels
  values :=
    ts.samples.map fun sample =>
      (seconds sample.timestamp, roundDecimals 6 sample.value)

/-- The step is checked and not used. -/
def handleQueryRangeInternal
    (debugError : Error → String) (store : MemStore) (params : Params) :
    Except Fault ApiResponse :=
  match params.lookup "query" with
  | none => .ok (badData "Parameter 'query' is required")
  | some query =>
    if trim query.toList = [] then
      .ok (badData "Parameter 'query' cannot be empty")
    else do
      let range ← readRange reader params
      match range with
      | .error message => .ok (badData message)
      | .ok (start, stop, _) =>
        let labelMatchers ← parseLabelMatchers query.toList
        .ok
          (respond debugError
            (fun series => .matrix (series.map rangeVector))
            (.ok (store.query labelMatchers start stop)))

end Handlers

end ChronoDB.Server
