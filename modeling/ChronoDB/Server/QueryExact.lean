import ChronoDB.Server.QueryAnswers

namespace ChronoDB.Server

open Library Text Wal Memstore Columnstore Query Rules List

/-!
# When the HTTP query API answers right

A right answer to a selector has one item for each series.  The labels of an item
name its series, so the store must be asked for just the series that the selector
denotes.
-/

/-!
## Selectors
-/

section Selectors

variable {std : StdText} {text : Text} {selector : VectorSelector}

theorem aggregationNamed_of_selector
    (parsed : parsePromql std text = .ok (.vectorSelector selector))
    {before inside : Text}
    (isText : trim text = before ++ '(' :: inside)
    (first : '(' ∉ before) :
    aggregationNamed (trim before) = none := by
  have isParen :
      beforeParen (trim text) =
        .ok (some (byteLength before, trim before)) := by
    rw [isText, beforeParen, find_first first]
    simp only [sliceTo_append, orPanic_some, ok_bind]
  rw [parsePromql_eq, parseLevel] at parsed
  rw [isParen, ok_bind, Option.bind_some] at parsed
  cases named : aggregationNamed (trim before) with
  | none => rfl
  | some function =>
    rw [named] at parsed
    exact absurd parsed parseAggregation_ne_vectorSelector

theorem splitAggregation_of_selector
    (parsed : parsePromql std text = .ok (.vectorSelector selector)) :
    splitAggregation (trim text) = .ok (none, trim text) := by
  rw [splitAggregation]
  split
  · rfl
  · rename_i function found
    have matched := find?_some found
    rw [Bool.and_eq_true] at matched
    obtain ⟨rest, isText⟩ := isPrefixOf_iff_prefix.mp matched.1
    have isOpening : function.opening = function.opening.dropLast ++ ['('] := by
      cases function <;> rfl
    have isNamed :
        aggregationNamed (trim function.opening.dropLast) ≠ none := by
      cases function <;> decide
    rw [isOpening, append_assoc] at isText
    refine absurd (aggregationNamed_of_selector parsed isText.symm ?_) isNamed
    cases function <;> decide

theorem op_of_selector
    (parsed : parsePromql std text = .ok (.vectorSelector selector))
    (noOffset : selector.offset = none) (noAt : selector.atModifier = none) :
    ∀ matcher ∈ selector.matchers, matcher.op = .equal := by
  have isSelector : parseVectorSelector std (trim text) = .ok selector := by
    rw [parsePromql_eq, parseLevel] at parsed
    obtain ⟨paren, _, parsed⟩ := bind_eq_ok_iff.mp parsed
    split at parsed
    · exact absurd parsed parseAggregation_ne_vectorSelector
    · split at parsed
      · exact absurd parsed parseCall_ne_vectorSelector
      · obtain ⟨bracket, _, parsed⟩ := bind_eq_ok_iff.mp parsed
        split at parsed
        · exact absurd parsed parseBracket_ne_vectorSelector
        · obtain ⟨other, isOther, same⟩ := bind_eq_ok_iff.mp parsed
          cases same
          exact isOther
  obtain ⟨name, matchers, offset, atModifier⟩ := selector
  obtain rfl : offset = none := noOffset
  obtain rfl : atModifier = none := noAt
  obtain ⟨_, _, isBase⟩ := parseVectorSelector_eq_ok_iff.mp isSelector
  rw [parseBase] at isBase
  split at isBase
  · cases isBase
    exact forall_mem_nil _
  · obtain ⟨before, _, isBase⟩ := bind_eq_ok_iff.mp isBase
    obtain ⟨inside, _, isBase⟩ := bind_eq_ok_iff.mp isBase
    obtain ⟨parsedMatchers, areParsed, isBase⟩ := bind_eq_ok_iff.mp isBase
    have equal := parseParts_op areParsed
    split at isBase
    · cases isBase
      exact equal
    · cases isBase
      exact equal

end Selectors

section Denotations

variable {semantics : QuerySemantics} {query : Text}
variable {selector : VectorSelector}

theorem type_of_plain (plain : semantics.IsPlain query selector) :
    ∀ matcher ∈ selectorMatchers selector, matcher.type = .equal := by
  obtain ⟨parsed, noOffset, noAt⟩ := plain
  refine forall_mem_append.mpr ⟨fun matcher member => ?_, ?_⟩
  · obtain ⟨name, _, rfl⟩ :=
      Option.map_eq_some_iff.mp (Option.mem_toList.mp member)
    rfl
  · intro matcher member
    obtain ⟨read, isRead, rfl⟩ := mem_map.mp member
    have isEqual := op_of_selector parsed noOffset noAt read isRead
    change matchType read.op = .equal
    rw [isEqual]
    rfl

theorem denotes_of_shows
    (plain : semantics.IsPlain query selector) {labels others : Labels}
    (shows : ShowsLabels (metricOf labels) others)
    (denotes : semantics.Denotes selector others) :
    semantics.Denotes selector labels := by
  intro matcher member
  have isEqual := type_of_plain plain matcher member
  have satisfied := denotes matcher member
  rw [LabelMatcher.Satisfied, isEqual] at satisfied ⊢
  exact labelValues_of_shows shows satisfied

end Denotations

/-!
## Selectors that are answered
-/

section Answers

variable {semantics : QuerySemantics} {query : Text}
variable {selector : VectorSelector} {store : MemStore}
variable {hasher : Bytes → TimeSeriesId} {config : HeadConfig}
variable {labelMatchers : List (String × String)}
variable {start stop time : Timestamp} {series : List TimeSeries}

theorem seriesId_eq_of_shows
    (sound : store.head.Sound hasher config) {seriesId otherId : TimeSeriesId}
    {entry other : TimeSeriesEntry}
    (found : store.head.series.lookup seriesId = some entry)
    (otherFound : store.head.series.lookup otherId = some other)
    {metric : Metric} (shows : ShowsLabels metric entry.labels)
    (otherShows : ShowsLabels metric other.labels) :
    seriesId = otherId := by
  rw [← (sound.entries _ _ found).isId, ← (sound.entries _ _ otherFound).isId]
  exact calculateSeriesId_of_shows shows otherShows

/--
In a right answer an item with the metric of a series shows this series: a selector
that denotes what the item shows denotes the series too.
-/
theorem seriesId_eq_of_answer {Item : Type} {metric : Item → Metric}
    {Shows : TimeSeriesEntry → Item → Prop} {items : List Item}
    (plain : semantics.IsPlain query selector)
    (sound : store.head.Sound hasher config)
    (answer :
      store.Lists
        (fun entry =>
          semantics.Denotes selector entry.labels ∧
            samplesIn start stop entry ≠ [])
        Shows items)
    (showsLabels :
      ∀ entry item, Shows entry item → ShowsLabels (metric item) entry.labels)
    {seriesId otherId : TimeSeriesId} {entry other : TimeSeriesEntry}
    {item : Item} (found : store.head.series.lookup seriesId = some entry)
    (otherFound : store.head.series.lookup otherId = some other)
    (hasSamples : samplesIn start stop entry ≠ [])
    (denotes : semantics.Denotes selector other.labels)
    (isMetric : metric item = metricOf entry.labels)
    (shows : Shows other item) :
    seriesId = otherId := by
  have otherShows := showsLabels _ _ shows
  rw [isMetric] at otherShows
  obtain ⟨own, _, ownShows⟩ :=
    answer.exists_item found
      ⟨denotes_of_shows plain otherShows denotes, hasSamples⟩
  have distinct := (showsLabels _ _ ownShows).distinct
  exact seriesId_eq_of_shows sound found otherFound
    (showsLabels_metricOf distinct) otherShows

theorem seconds_inj {first second : Timestamp} :
    seconds first = seconds second ↔ first = second := by
  rw [seconds, seconds, div_left_inj' (by norm_num), timeValue, timeValue,
    Int.cast_inj, Int64.toInt_inj]

theorem shows_single_iff {entry : TimeSeriesEntry} :
    (∃ point,
        (applyDownsampling (samplesIn Int64.minValue time entry)
            (MemStore.autoSelectDownsampleLevel Int64.minValue time)).map
              (pointOf entry.labels) =
            [point] ∧
          ShowsLatest time entry point) ↔
      HasDistinctNames entry.labels ∧
        KeepsLatest time (samplesIn Int64.minValue time entry) := by
  constructor
  · rintro ⟨point, isPoint, isShown, sample, latest, isValue⟩
    refine ⟨isShown.distinct, sample, latest, ?_⟩
    obtain ⟨only, isOnly, rfl⟩ := map_eq_singleton_iff.mp isPoint
    rw [pointOf, Prod.mk.injEq, seconds_inj] at isValue
    have isSample : only = sample := by
      cases only
      cases sample
      rw [Sample.mk.injEq]
      exact isValue
    rw [isOnly, isSample]
  · rintro ⟨distinct, sample, latest, isOnly⟩
    refine ⟨pointOf entry.labels sample, ?_,
      showsLabels_metricOf_iff.mpr distinct, sample, latest, rfl⟩
    rw [isOnly, map_singleton]

/--
The points of the returned series answer a selector exactly when the series are
those that it denotes and each comes to its latest sample.
-/
theorem answer_points_iff (plain : semantics.IsPlain query selector)
    (sound : store.head.Sound hasher config)
    (returns : Returns store labelMatchers Int64.minValue time series) :
    store.Lists
        (fun entry =>
          semantics.Denotes selector entry.labels ∧
            samplesIn Int64.minValue time entry ≠ [])
        (ShowsLatest time) (series.flatMap seriesPoints) ↔
      semantics.Selects store selector labelMatchers Int64.minValue time
        (KeepsLatest time) := by
  have showsLabels :
      ∀ entry point,
        ShowsLatest time entry point → ShowsLabels point.metric entry.labels :=
    fun entry point shows => shows.1
  have hasPart :
      ∀ (entry : TimeSeriesEntry) (ts : TimeSeries),
        samplesIn Int64.minValue time entry ≠ [] →
          ts.samples =
              applyDownsampling (samplesIn Int64.minValue time entry)
                (MemStore.autoSelectDownsampleLevel Int64.minValue time) →
            seriesPoints ts ≠ [] := by
    intro entry ts hasSamples isSamples nothing
    rw [seriesPoints, map_eq_nil_iff, isSamples,
      applyDownsampling_eq_nil_iff] at nothing
    exact hasSamples nothing
  have single :=
    returns.flatMap_iff
      (fun seriesId entry ts _ selects shows =>
        hasPart entry ts selects.2 shows.2)
      (fun answer seriesId otherId entry other ts point isPoint found
        otherFound selects denoted shows showsPoint => by
        obtain ⟨sample, _, rfl⟩ := mem_map.mp isPoint
        refine seriesId_eq_of_answer plain sound answer showsLabels found
          otherFound selects.2 denoted.1 ?_ showsPoint
        rw [pointOf, shows.1])
  refine single.trans (returns.iff_of_named (fun entry ts shows => ?_) ?_)
  · rw [seriesPoints, shows.2, shows.1]
    exact shows_single_iff
  · intro answer seriesId otherId entry other ts found otherFound selects
      denoted shows showsPoint
    obtain ⟨point, isPoint, isShown⟩ := showsPoint
    refine seriesId_eq_of_answer plain sound (single.mpr answer) showsLabels
      found otherFound selects.2 denoted.1 ?_ isShown
    obtain ⟨sample, _, rfl⟩ := map_eq_singleton_iff.mp isPoint
    rw [pointOf, shows.1]

theorem roundDecimals_roundDecimals (decimals : ℕ) (value : Value) :
    roundDecimals decimals (roundDecimals decimals value) =
      roundDecimals decimals value := by
  have ofInt :
      ∀ number : ℤ,
        roundDecimals decimals ((number : Value) / 10 ^ decimals) =
          (number : Value) / 10 ^ decimals := by
    intro number
    have isScaled : (number : Value) / 10 ^ decimals * 10 ^ decimals = number :=
      div_mul_cancel₀ _ (pow_ne_zero _ (by norm_num))
    rw [roundDecimals, isScaled, Rat.floor_intCast, sub_self, if_pos (by norm_num)]
  exact ofInt _

theorem rounded_perm_iff {level : DownsampleLevel} {samples : List Sample} :
    ((applyDownsampling samples level).map fun sample =>
          (seconds sample.timestamp, roundDecimals 6 sample.value)).Perm
        (samples.map fun sample => (seconds sample.timestamp, sample.value)) ↔
      KeptBy level samples ∧
        ∀ sample ∈ samples, roundDecimals 6 sample.value = sample.value := by
  constructor
  · intro isPerm
    have sameTimes := isPerm.map Prod.fst
    rw [map_map, map_map] at sameTimes
    have kept : KeptBy level samples := by
      refine keptBy_of_timestamps ?_
      rw [← map_perm_map_iff
        (f := seconds) fun first second => seconds_inj.mp, map_map,
        map_map]
      exact sameTimes
    rw [applyDownsampling_of_kept kept] at isPerm
    refine ⟨kept, fun sample member => ?_⟩
    obtain ⟨other, _, same⟩ :=
      mem_map.mp (isPerm.mem_iff.mpr (mem_map_of_mem member))
    rw [Prod.mk.injEq] at same
    rw [← same.2]
    exact roundDecimals_roundDecimals 6 other.value
  · rintro ⟨kept, unrounded⟩
    rw [applyDownsampling_of_kept kept]
    refine .of_eq (map_congr_left fun sample member => ?_)
    rw [unrounded sample member]

/--
The returned series answer a selector over a range exactly when they are those
that it denotes and no sample changes.
-/
theorem answer_vectors_iff (plain : semantics.IsPlain query selector)
    (sound : store.head.Sound hasher config)
    (returns : Returns store labelMatchers start stop series) :
    store.Lists
        (fun entry =>
          semantics.Denotes selector entry.labels ∧
            samplesIn start stop entry ≠ [])
        (ShowsRange start stop) (series.map rangeVector) ↔
      semantics.Selects store selector labelMatchers start stop
        (KeepsAll start stop) := by
  have lists :
      store.Lists
        (fun entry =>
          HasLabels labelMatchers entry.labels ∧
            samplesIn start stop entry ≠ [])
        (fun entry vector =>
          vector.metric = metricOf entry.labels ∧
            vector.values =
              (applyDownsampling (samplesIn start stop entry)
                (MemStore.autoSelectDownsampleLevel start stop)).map
                fun sample =>
                  (seconds sample.timestamp, roundDecimals 6 sample.value))
        (series.map rangeVector) := by
    refine returns.map fun entry ts shows => ?_
    rw [rangeVector, shows.1, shows.2]
    exact ⟨rfl, rfl⟩
  refine lists.iff_of_named (fun entry vector shows => ?_)
    fun answer seriesId otherId entry other vector found otherFound selects
      denoted shows showsRange =>
      seriesId_eq_of_answer plain sound answer (fun _ _ shows => shows.1)
        found otherFound selects.2 denoted.1 shows.1 showsRange
  rw [ShowsRange, shows.1, shows.2]
  exact and_congr showsLabels_metricOf_iff rounded_perm_iff

end Answers

/-!
## Queries that are answered
-/

theorem aggregate_perm
    {values others : List Value} (permuted : values.Perm others)
    (function : AggregationFunction) :
    function.aggregate values = function.aggregate others := by
  cases function with
  | sum => exact permuted.sum_eq
  | avg =>
    rw [AggregationFunction.aggregate, AggregationFunction.aggregate,
      permuted.sum_eq, permuted.length_eq]
  | max =>
    refine congrArg (Option.getD · 0) (Option.ext fun value => ?_)
    rw [max?_eq_some_iff, max?_eq_some_iff, permuted.mem_iff]
    exact and_congr_right fun _ =>
      forall_congr' fun other => imp_congr_left permuted.mem_iff
  | min =>
    refine congrArg (Option.getD · 0) (Option.ext fun value => ?_)
    rw [min?_eq_some_iff, min?_eq_some_iff, permuted.mem_iff]
    exact and_congr_right fun _ =>
      forall_congr' fun other => imp_congr_left permuted.mem_iff

theorem aggregatePoints_perm
    {points others : List InstantVector} (permuted : points.Perm others)
    (function : AggregationFunction) :
    (aggregatePoints function points).Perm
      (aggregatePoints function others) := by
  have sameGroups :
      ∀ time,
        function.aggregate
            ((points.filter fun point => point.value.1 = time).map
              fun point => point.value.2) =
          function.aggregate
            ((others.filter fun point => point.value.1 = time).map
              fun point => point.value.2) :=
    fun time => aggregate_perm ((permuted.filter _).map _) function
  rw [aggregatePoints, aggregatePoints]
  simp only [sameGroups]
  exact (permuted.map fun point => point.value.1).dedup.map _

section Queries

variable {semantics : QuerySemantics} {query : Text} {store : MemStore}
variable {hasher : Bytes → TimeSeriesId} {config : HeadConfig}
variable {labelMatchers : List (String × String)}
variable {start stop time : Timestamp}
variable {aggregation : Option AggregationFunction}

theorem returns_query (sound : store.head.Sound hasher config)
    (labelMatchers : List (String × String)) (start stop : Timestamp) :
    Returns store labelMatchers start stop
      (store.query labelMatchers start stop) :=
  MemStore.lists_queryWithDownsample sound.agrees labelMatchers start stop
    (MemStore.autoSelectDownsampleLevel start stop)

theorem instantVectors_perm {series others : List TimeSeries}
    (returns : Returns store labelMatchers start stop series)
    (otherReturns : Returns store labelMatchers start stop others) :
    (instantVectors aggregation series).Perm
      (instantVectors aggregation others) := by
  have samePoints :
      (series.flatMap seriesPoints).Perm (others.flatMap seriesPoints) := by
    rw [flatMap_def, flatMap_def]
    refine (returns.perm otherReturns fun entry ts other shows otherShows =>
      ?_).flatten
    rw [seriesPoints, seriesPoints, shows.1, shows.2, otherShows.1,
      otherShows.2]
  cases aggregation with
  | none => exact samePoints
  | some function => exact aggregatePoints_perm samePoints function

theorem answersInstant_iff (sound : store.head.Sound hasher config)
    (isRead : readQueryText query = .ok (aggregation, labelMatchers)) :
    semantics.AnswersInstant store query time
        (instantVectors aggregation
          (store.query labelMatchers Int64.minValue time)) ↔
      semantics.InstantKept store query time := by
  have returns := returns_query sound labelMatchers Int64.minValue time
  have notAggregated :
      ∀ selector, semantics.IsPlain query selector → aggregation = none := by
    intro selector plain
    rw [readQueryText, splitAggregation_of_selector plain.1, ok_bind] at isRead
    obtain ⟨matchers, _, same⟩ := bind_eq_ok_iff.mp isRead
    cases same
    rfl
  constructor
  · rintro ⟨answers, equals⟩
    refine ⟨aggregation, labelMatchers, isRead, ?_, ?_⟩
    · intro selector plain
      have answer := answers selector plain
      rw [notAggregated selector plain] at answer
      exact (answer_points_iff plain sound returns).mp answer
    · intro notPlain
      obtain ⟨result, isResult, permuted⟩ := equals notPlain
      exact ⟨_, result, returns, isResult, permuted⟩
  · rintro ⟨_, _, isOther, selects, coincides⟩
    rw [isRead] at isOther
    cases isOther
    refine ⟨?_, ?_⟩
    · intro selector plain
      rw [notAggregated selector plain]
      exact (answer_points_iff plain sound returns).mpr (selects selector plain)
    · intro notPlain
      obtain ⟨series, result, returned, isResult, permuted⟩ :=
        coincides notPlain
      exact ⟨result, isResult,
        (instantVectors_perm returns returned).trans permuted⟩

theorem answersRange_iff {step : Int64} (sound : store.head.Sound hasher config)
    (isRead : parseLabelMatchers query = .ok labelMatchers) :
    semantics.AnswersRange store query start stop step
        ((store.query labelMatchers start stop).map rangeVector) ↔
      semantics.RangeKept store query start stop step := by
  have returns := returns_query sound labelMatchers start stop
  constructor
  · rintro ⟨answers, equals⟩
    refine ⟨labelMatchers, isRead, ?_, ?_⟩
    · intro selector plain
      exact (answer_vectors_iff plain sound returns).mp (answers selector plain)
    · intro notPlain
      obtain ⟨result, isResult, permuted⟩ := equals notPlain
      exact ⟨_, result, returns, isResult, permuted⟩
  · rintro ⟨_, isOther, selects, coincides⟩
    rw [isRead] at isOther
    cases isOther
    refine ⟨?_, ?_⟩
    · intro selector plain
      exact (answer_vectors_iff plain sound returns).mpr
        (selects selector plain)
    · intro notPlain
      obtain ⟨series, result, returned, isResult, permuted⟩ :=
        coincides notPlain
      refine ⟨result, isResult, .trans ?_ permuted⟩
      refine returns.perm returned fun entry ts other shows otherShows => ?_
      rw [rangeVector, rangeVector, shows.1, shows.2, otherShows.1,
        otherShows.2]

end Queries

/-!
## Requests that are answered
-/

section Requests

variable {semantics : QuerySemantics} {reader : ParamReader}
variable {debugError : Error → String} {store : MemStore}
variable {hasher : Bytes → TimeSeriesId} {config : HeadConfig}
variable {params : Params} {now : Timestamp}

theorem handle_of_blank
    (blank :
      ∀ query, params.lookup "query" = some query → trim query.toList = []) :
    ∃ message,
      handleQueryInternal reader debugError store params now =
          .ok (badData message) ∧
        handleQueryRangeInternal reader debugError store params =
          .ok (badData message) := by
  rw [handleQueryInternal, handleQueryRangeInternal]
  cases found : params.lookup "query" with
  | none => exact ⟨_, rfl, rfl⟩
  | some query =>
    dsimp only
    rw [if_pos (blank query found), if_pos (blank query found)]
    exact ⟨_, rfl, rfl⟩

theorem query_or_blank (params : Params) :
    (∃ query, params.lookup "query" = some query ∧ trim query.toList ≠ []) ∨
      ∀ query, params.lookup "query" = some query → trim query.toList = [] := by
  refine or_iff_not_imp_left.mpr fun missing query found => ?_
  exact not_not.mp fun notBlank => missing ⟨query, found, notBlank⟩

section Handled

variable {query : String}

theorem handleQueryInternal_of_query
    (found : params.lookup "query" = some query)
    (notBlank : trim query.toList ≠ []) :
    handleQueryInternal reader debugError store params now =
      (readQueryText query.toList >>= fun read =>
        .ok
          (.success
            (.vector
              (instantVectors read.1
                (store.query read.2 Int64.minValue
                  (queryTime reader params now)))))) := by
  rw [handleQueryInternal, found]
  exact if_neg notBlank

theorem handleQueryRangeInternal_of_fault
    (found : params.lookup "query" = some query)
    (notBlank : trim query.toList ≠ []) {fault : Fault}
    (isRange : readRange reader params = .error fault) :
    handleQueryRangeInternal reader debugError store params = .error fault := by
  rw [handleQueryRangeInternal, found]
  refine (if_neg notBlank).trans ?_
  rw [isRange]
  rfl

theorem handleQueryRangeInternal_of_refused
    (found : params.lookup "query" = some query)
    (notBlank : trim query.toList ≠ []) {message : String}
    (isRange : readRange reader params = .ok (.error message)) :
    handleQueryRangeInternal reader debugError store params =
      .ok (badData message) := by
  rw [handleQueryRangeInternal, found]
  refine (if_neg notBlank).trans ?_
  rw [isRange]
  rfl

theorem handleQueryRangeInternal_of_range
    (found : params.lookup "query" = some query)
    (notBlank : trim query.toList ≠ []) {start stop : Timestamp} {step : Int64}
    (isRange : readRange reader params = .ok (.ok (start, stop, step))) :
    handleQueryRangeInternal reader debugError store params =
      (parseLabelMatchers query.toList >>= fun labelMatchers =>
        .ok
          (.success
            (.matrix
              ((store.query labelMatchers start stop).map rangeVector)))) := by
  rw [handleQueryRangeInternal, found]
  refine (if_neg notBlank).trans ?_
  rw [isRange]
  rfl

theorem instantAnswered_of_query (sound : store.head.Sound hasher config)
    (found : params.lookup "query" = some query)
    (notBlank : trim query.toList ≠ []) :
    InstantAnswered semantics reader debugError store params now ↔
      semantics.InstantKept store query.toList
        (queryTime reader params now) := by
  rw [InstantAnswered, handleQueryInternal_of_query found notBlank]
  cases isRead : readQueryText query.toList with
  | error fault =>
    refine iff_of_false ?_ ?_
    · rintro ⟨response, isResponse, _⟩
      cases isResponse
    · rintro ⟨_, _, isOther, _⟩
      rw [isRead] at isOther
      cases isOther
  | ok read =>
    obtain ⟨aggregation, labelMatchers⟩ := read
    refine Iff.trans ?_ (answersInstant_iff sound isRead)
    constructor
    · rintro ⟨response, isResponse, answers⟩
      cases isResponse
      obtain ⟨points, same, isAnswer⟩ := answers query _ found rfl
      cases same
      exact isAnswer
    · intro isAnswer
      refine ⟨_, rfl, fun other data isOther isData => ?_⟩
      rw [found] at isOther
      cases isOther
      cases isData
      exact ⟨_, rfl, isAnswer⟩

theorem rangeAnswered_of_range (sound : store.head.Sound hasher config)
    (found : params.lookup "query" = some query)
    (notBlank : trim query.toList ≠ []) {start stop : Timestamp} {step : Int64}
    (isRange : readRange reader params = .ok (.ok (start, stop, step))) :
    RangeAnswered semantics reader debugError store params ↔
      semantics.RangeKept store query.toList start stop step := by
  rw [RangeAnswered, handleQueryRangeInternal_of_range found notBlank isRange]
  cases isRead : parseLabelMatchers query.toList with
  | error fault =>
    refine iff_of_false ?_ ?_
    · rintro ⟨response, isResponse, _⟩
      cases isResponse
    · rintro ⟨_, isOther, _⟩
      rw [isRead] at isOther
      cases isOther
  | ok labelMatchers =>
    refine Iff.trans ?_ (answersRange_iff sound isRead)
    constructor
    · rintro ⟨response, isResponse, answers⟩
      cases isResponse
      obtain ⟨vectors, same, isAnswer⟩ :=
        answers query start stop step _ found isRange rfl
      cases same
      exact isAnswer
    · intro isAnswer
      refine ⟨_, rfl, fun other _ _ _ data isOther isTimes isData => ?_⟩
      rw [found] at isOther
      cases isOther
      rw [isRange] at isTimes
      cases isTimes
      cases isData
      exact ⟨_, rfl, isAnswer⟩

end Handled

theorem instantAnswered_iff (sound : store.head.Sound hasher config) :
    InstantAnswered semantics reader debugError store params now ↔
      ∀ query,
        params.lookup "query" = some query →
          trim query.toList ≠ [] →
            semantics.InstantKept store query.toList
              (queryTime reader params now) := by
  rcases query_or_blank params with ⟨query, found, notBlank⟩ | blank
  · rw [instantAnswered_of_query sound found notBlank]
    constructor
    · intro kept other isOther _
      rw [found] at isOther
      cases isOther
      exact kept
    · exact fun kept => kept query found notBlank
  · refine iff_of_true ?_ fun query found notBlank =>
      absurd (blank query found) notBlank
    obtain ⟨message, isHandled, _⟩ :=
      @handle_of_blank reader debugError store params now blank
    refine ⟨_, isHandled, fun query data _ isData => ?_⟩
    cases isData

/--
A range query is answered exactly when it is blank, or when its range can be read
and the query is kept in this range.
-/
theorem rangeAnswered_iff (sound : store.head.Sound hasher config) :
    RangeAnswered semantics reader debugError store params ↔
      ∀ query,
        params.lookup "query" = some query →
          trim query.toList ≠ [] →
            ∃ range,
              readRange reader params = .ok range ∧
                ∀ start stop step,
                  range = .ok (start, stop, step) →
                    semantics.RangeKept store query.toList start stop step := by
  rcases query_or_blank params with ⟨query, found, notBlank⟩ | blank
  · rcases isRange : readRange reader params with
      fault | message | ⟨start, stop, step⟩
    · refine iff_of_false ?_ ?_
      · rintro ⟨response, isResponse, _⟩
        rw [handleQueryRangeInternal_of_fault found notBlank isRange]
          at isResponse
        cases isResponse
      · intro kept
        obtain ⟨range, isOther, _⟩ := kept query found notBlank
        cases isOther
    · refine iff_of_true ?_ fun _ _ _ => ⟨_, rfl, fun _ _ _ isOther => ?_⟩
      · refine ⟨_, handleQueryRangeInternal_of_refused found notBlank isRange,
          fun _ _ _ _ _ _ isOther => ?_⟩
        rw [isRange] at isOther
        cases isOther
      · cases isOther
    · rw [rangeAnswered_of_range sound found notBlank isRange]
      constructor
      · intro kept other isOther _
        rw [found] at isOther
        cases isOther
        refine ⟨_, rfl, fun _ _ _ isOther => ?_⟩
        cases isOther
        exact kept
      · intro kept
        obtain ⟨range, isOther, keptIn⟩ := kept query found notBlank
        cases isOther
        exact keptIn start stop step rfl
  · refine iff_of_true ?_ fun query found notBlank =>
      absurd (blank query found) notBlank
    obtain ⟨message, _, isHandled⟩ :=
      @handle_of_blank reader debugError store params 0 blank
    refine ⟨_, isHandled, fun query start stop step data _ _ isData => ?_⟩
    cases isData

end Requests

def upStore (timestamp : Timestamp) : MemStore where
  head :=
    ([.getOrCreateSeries exampleLabels,
      .addSample (calculateSeriesId SipHash.hash exampleLabels)
        ⟨timestamp, 1⟩]
        : List HeadOperation).foldl
      (fun head operation => (operation.run SipHash.hash head).2)
      (HeadBlock.new ⟨1024⟩)
  wal := none
  stats := ⟨1, 1, 1⟩

theorem run_upStore (timestamp : Timestamp) :
    Run (HeadStep SipHash.hash) (HeadBlock.new ⟨1024⟩)
      [.getOrCreateSeries exampleLabels,
        .addSample (calculateSeriesId SipHash.hash exampleLabels)
          ⟨timestamp, 1⟩]
      (upStore timestamp).head :=
  .cons rfl (.single rfl)

theorem lookup_upStore {seriesId : TimeSeriesId} {entry : TimeSeriesEntry}
    (found : (upStore 0).head.series.lookup seriesId = some entry) :
    entry.labels = exampleLabels ∧ entry.samples = [⟨0, 1⟩] := by
  have allEntries :
      ∀ item ∈ (upStore 0).head.series.entries,
        item.2.labels = exampleLabels ∧ item.2.samples = [⟨0, 1⟩] := by
    decide +kernel
  exact allEntries ⟨seriesId, entry⟩ (AList.mem_lookup_iff.mp found)

/-- Whole numbers of seconds; no duration is read. -/
def exampleReader : ParamReader where
  parseSeconds text := (parseI64 text).map (· * 1000)
  parseDuration _ := none

def exampleSemantics : QuerySemantics where
  std := .basic
  float := exampleStd
  executorConfig := ⟨false, false, false, 0, 0⟩
  lru := .recency CacheKey Query.QueryResult
  regex := noRegex

def exampleParams (query : String) (time : String) : Params :=
  AList.insert "query" query
    (AList.insert "time" time
      (AList.insert "start" "0"
        (AList.insert "end" "1" (AList.insert "step" "1" ∅))))

theorem isPlain_up {selector : VectorSelector}
    (plain : exampleSemantics.IsPlain "up".toList selector) :
    selector = ⟨some "up", [], none, none⟩ := by
  have isParsed :
      parsePromql StdText.basic "up".toList =
        .ok (.vectorSelector ⟨some "up", [], none, none⟩) :=
    rfl
  have parsed := plain.1
  rw [exampleSemantics, isParsed] at parsed
  cases parsed
  rfl

theorem plain_up :
    exampleSemantics.IsPlain "up".toList ⟨some "up", [], none, none⟩ :=
  ⟨rfl, rfl, rfl⟩

theorem denotes_up :
    exampleSemantics.Denotes ⟨some "up", [], none, none⟩ exampleLabels := by
  intro matcher member
  obtain rfl := mem_singleton.mp member
  change "up" ∈ labelValues exampleLabels "__name__"
  decide

theorem selects_up {start stop : Timestamp} {CanShow : List Sample → Prop}
    (canShow : CanShow ([⟨0, 1⟩].filter (Sample.inRange start stop))) :
    exampleSemantics.Selects (upStore 0) ⟨some "up", [], none, none⟩
      [("__name__", "up")] start stop CanShow := by
  intro seriesId entry found _
  obtain ⟨isLabels, isSamples⟩ := lookup_upStore found
  rw [samplesIn, isLabels, isSamples]
  exact ⟨iff_of_true (by decide) denotes_up, fun _ => ⟨by decide, canShow⟩⟩

theorem lookup_exampleParams {query time found : String}
    (isFound : (exampleParams query time).lookup "query" = some found) :
    found = query := by
  rw [exampleParams, AList.lookup_insert] at isFound
  cases isFound
  rfl

theorem readQueryText_closing :
    readQueryText ")(".toList = .error .panic ∧
      parseLabelMatchers ")(".toList = .error .panic := by
  decide

end ChronoDB.Server
