import ChronoDB.Memstore.Listing
import ChronoDB.Server.RemoteWrite

namespace ChronoDB.Server

open Library Wal Memstore Columnstore

/-!
# Remote read

The handler asks the store with the equality matchers of a query and lets the
store choose a resolution for the range.  The other matchers are not looked at.
-/

/-- The kinds of a matcher; a message can hold other numbers. -/
inductive MatchType where
  | equal
  | notEqual
  | regexMatch
  | regexNoMatch
  | unrecognized (number : Int32)
  deriving DecidableEq

structure LabelMatcher where
  name : String
  type : MatchType
  value : String
  deriving DecidableEq

/-- The fields of a query that the handler uses. -/
structure ReadQuery where
  startTimestampMs : Timestamp
  endTimestampMs : Timestamp
  matchers : List LabelMatcher
  deriving DecidableEq

structure ReadRequest where
  queries : List ReadQuery
  deriving DecidableEq

structure ReadResult where
  timeseries : List PromTimeSeries
  deriving Repr, DecidableEq

structure ReadResponse where
  results : List ReadResult
  deriving Repr, DecidableEq

/-- What the libraries for compression and messages do. -/
structure ReadCodec where
  decompress : Bytes → Except String Bytes
  decodeReadRequest : Bytes → Except String ReadRequest
  encodeReadResponse : ReadResponse → Except String Bytes
  compress : Bytes → Except String Bytes

/-- An error, or a response with the body that it is encoded to. -/
inductive ReadAnswer where
  | failed (status : StatusCode) (message : String)
  | ok (response : ReadResponse) (body : Bytes)

section Handler

/-- The matchers that the store is asked with. -/
def equalMatchers (query : ReadQuery) : List (String × String) :=
  (query.matchers.filter fun matcher => matcher.type = .equal).map
    fun matcher => (matcher.name, matcher.value)

/-- The result for a query; an error of the store gives an empty one. -/
def readResult : Except Error (List TimeSeries) → ReadResult
  | .ok seriesList =>
    ⟨seriesList.map fun ts => ⟨ts.labels, ts.samples⟩⟩
  | .error _ => ⟨[]⟩

/-- The store does not fail a query. -/
def readQuery (store : MemStore) (query : ReadQuery) : ReadResult :=
  readResult
    (.ok
      (store.query (equalMatchers query) query.startTimestampMs
        query.endTimestampMs))

def handleRemoteRead (codec : ReadCodec) (store : MemStore) (body : Bytes) :
    ReadAnswer :=
  match codec.decompress body with
  | .error cause => .failed .badRequest ("Decompression error: " ++ cause)
  | .ok decompressed =>
    match codec.decodeReadRequest decompressed with
    | .error cause => .failed .badRequest ("Decode error: " ++ cause)
    | .ok request =>
      let response : ReadResponse := ⟨request.queries.map (readQuery store)⟩
      match codec.encodeReadResponse response with
      | .error cause => .failed .internalServerError ("Encode error: " ++ cause)
      | .ok encoded =>
        match codec.compress encoded with
        | .error cause =>
          .failed .internalServerError ("Compression error: " ++ cause)
        | .ok compressed => .ok response compressed

end Handler

/-!
## What a query asks for
-/

def labelValues (labels : Labels) (name : String) : List String :=
  let values := (labels.filter fun label => label.name = name).map Label.value
  if values = [] then [""] else values

section Exact

variable (regex : String → Option (String → Bool))

/-- The kind is known, and a pattern is a regular expression. -/
def LabelMatcher.Valid (matcher : LabelMatcher) : Prop :=
  match matcher.type with
  | .equal | .notEqual => True
  | .regexMatch | .regexNoMatch => (regex matcher.value).isSome = true
  | .unrecognized _ => False

def LabelMatcher.Satisfied (matcher : LabelMatcher) (labels : Labels) : Prop :=
  match matcher.type with
  | .equal => matcher.value ∈ labelValues labels matcher.name
  | .notEqual => matcher.value ∉ labelValues labels matcher.name
  | .regexMatch =>
    ∃ accepts, regex matcher.value = some accepts ∧
      ∃ value ∈ labelValues labels matcher.name, accepts value = true
  | .regexNoMatch =>
    ∃ accepts, regex matcher.value = some accepts ∧
      ∀ value ∈ labelValues labels matcher.name, accepts value = false
  | .unrecognized _ => False

namespace ReadQuery

def Valid (query : ReadQuery) : Prop :=
  ∀ matcher ∈ query.matchers, matcher.Valid regex

def Satisfied (query : ReadQuery) (labels : Labels) : Prop :=
  ∀ matcher ∈ query.matchers, matcher.Satisfied regex labels

def samplesIn (query : ReadQuery) (entry : TimeSeriesEntry) : List Sample :=
  entry.samples.filter
    (Sample.inRange query.startTimestampMs query.endTimestampMs)

def level (query : ReadQuery) : DownsampleLevel :=
  MemStore.autoSelectDownsampleLevel query.startTimestampMs query.endTimestampMs

/--
The query has a meaning, and the result has the series that satisfy all matchers
and have samples in the range, each once, with just these samples.
-/
def Exact (query : ReadQuery) (store : MemStore) (result : ReadResult) :
    Prop :=
  query.Valid regex ∧
    store.Lists
      (fun entry =>
        query.Satisfied regex entry.labels ∧ query.samplesIn entry ≠ [])
      (fun entry series =>
        series.labels = entry.labels ∧
          series.samples.Perm (query.samplesIn entry))
      result.timeseries

/--
The query has a meaning, and of the series with samples in the range those that
satisfy all matchers have the labels of the equality matchers, no others have
them, and their samples are neither averaged nor moved.
-/
def Kept (query : ReadQuery) (store : MemStore) : Prop :=
  query.Valid regex ∧
    ∀ seriesId entry,
      store.head.series.lookup seriesId = some entry →
        query.samplesIn entry ≠ [] →
          ((∀ matcher ∈ equalMatchers query,
                ⟨matcher.1, matcher.2⟩ ∈ entry.labels) ↔
              query.Satisfied regex entry.labels) ∧
            (query.Satisfied regex entry.labels →
              KeptBy query.level (query.samplesIn entry))

end ReadQuery

def AnswersExactly (codec : ReadCodec) (store : MemStore) (body : Bytes) :
    Prop :=
  ∀ decompressed request response encoded,
    codec.decompress body = .ok decompressed →
      codec.decodeReadRequest decompressed = .ok request →
        handleRemoteRead codec store body = .ok response encoded →
          List.Forall₂ (fun query result => query.Exact regex store result)
            request.queries response.results

def CanBeSent (codec : ReadCodec) (store : MemStore) (request : ReadRequest) :
    Prop :=
  ∃ encoded compressed,
    codec.encodeReadResponse ⟨request.queries.map (readQuery store)⟩ =
        .ok encoded ∧
      codec.compress encoded = .ok compressed

end Exact

/-!
## Results of queries
-/

section Results

variable {regex : String → Option (String → Bool)}
variable {hasher : Bytes → TimeSeriesId} {config : HeadConfig}
variable {store : MemStore}

theorem lists_readQuery
    (agrees : store.head.Agrees config) (query : ReadQuery) :
    store.Lists
      (fun entry =>
        (∀ matcher ∈ equalMatchers query,
            ⟨matcher.1, matcher.2⟩ ∈ entry.labels) ∧
          query.samplesIn entry ≠ [])
      (fun entry series =>
        series.labels = entry.labels ∧
          series.samples =
            applyDownsampling (query.samplesIn entry) query.level)
      (readQuery store query).timeseries :=
  (MemStore.lists_queryWithDownsample agrees (equalMatchers query)
    query.startTimestampMs query.endTimestampMs query.level).map
    fun _ _ shows => shows

theorem exact_readQuery_iff
    (sound : store.head.Sound hasher config) (query : ReadQuery) :
    query.Exact regex store (readQuery store query) ↔
      query.Kept regex store := by
  refine and_congr_right fun _ => ?_
  refine (lists_readQuery sound.agrees query).iff_of_named
    (fun entry series shows => ?_)
    fun _ seriesId otherId entry other series found otherFound _ _ shows
      otherShows => ?_
  · rw [shows.2, and_iff_right shows.1]
    exact applyDownsampling_perm_iff
  · -- the labels of a series in the result name it
    rw [← (sound.entries _ _ found).isId,
      ← (sound.entries _ _ otherFound).isId, ← shows.1, ← otherShows.1]

theorem exact_response_iff
    (sound : store.head.Sound hasher config) (queries : List ReadQuery) :
    List.Forall₂ (fun query result => query.Exact regex store result) queries
        (queries.map (readQuery store)) ↔
      ∀ query ∈ queries, query.Kept regex store := by
  rw [List.forall₂_map_right_iff, List.forall₂_same]
  exact forall₂_congr fun query _ => exact_readQuery_iff sound query

variable {codec : ReadCodec} {body decompressed : Bytes} {request : ReadRequest}

theorem handleRemoteRead_of_request
    (isDecompressed : codec.decompress body = .ok decompressed)
    (isRequest : codec.decodeReadRequest decompressed = .ok request) :
    (∃ compressed,
        handleRemoteRead codec store body =
          .ok ⟨request.queries.map (readQuery store)⟩ compressed) ∨
      ¬CanBeSent codec store request ∧
        ∃ status message,
          handleRemoteRead codec store body = .failed status message := by
  rw [handleRemoteRead, isDecompressed]
  dsimp only
  rw [isRequest]
  dsimp only
  cases encodes :
      codec.encodeReadResponse ⟨request.queries.map (readQuery store)⟩ with
  | error cause =>
    refine .inr ⟨?_, _, _, rfl⟩
    rintro ⟨encoded, compressed, isEncoded, _⟩
    rw [encodes] at isEncoded
    cases isEncoded
  | ok encoded =>
    dsimp only
    cases compresses : codec.compress encoded with
    | error cause =>
      refine .inr ⟨?_, _, _, rfl⟩
      rintro ⟨other, compressed, isEncoded, isCompressed⟩
      rw [encodes] at isEncoded
      cases isEncoded
      rw [compresses] at isCompressed
      cases isCompressed
    | ok compressed => exact .inl ⟨compressed, rfl⟩

theorem canBeSent_of_ok {response : ReadResponse} {compressed : Bytes}
    (isDecompressed : codec.decompress body = .ok decompressed)
    (isRequest : codec.decodeReadRequest decompressed = .ok request)
    (isOk : handleRemoteRead codec store body = .ok response compressed) :
    CanBeSent codec store request := by
  rw [handleRemoteRead, isDecompressed] at isOk
  dsimp only at isOk
  rw [isRequest] at isOk
  dsimp only at isOk
  split at isOk
  · cases isOk
  · rename_i encoded isEncoded
    split at isOk
    · cases isOk
    · rename_i data isCompressed
      exact ⟨encoded, data, isEncoded, isCompressed⟩

theorem kept_of_answersExactly (sound : store.head.Sound hasher config)
    (exact : AnswersExactly regex codec store body)
    (isDecompressed : codec.decompress body = .ok decompressed)
    (isRequest : codec.decodeReadRequest decompressed = .ok request)
    (sent : CanBeSent codec store request) :
    ∀ query ∈ request.queries, query.Kept regex store := by
  rcases @handleRemoteRead_of_request store codec body decompressed request
      isDecompressed isRequest with
    ⟨compressed, isOk⟩ | ⟨notSent, _⟩
  · exact (exact_response_iff sound request.queries).mp
      (exact _ _ _ _ isDecompressed isRequest isOk)
  · exact absurd sent notSent

/--
A remote read of a reachable store that is answered with success is exact if and
only if each query has a meaning, its equality matchers decide which series
satisfy all of its matchers, and the range is read without averaging; or the
response cannot be encoded.
-/
theorem remote_read_exact_iff {operations : List HeadOperation}
    (run :
      Run (HeadStep hasher) (HeadBlock.new config) operations store.head)
    (codec : ReadCodec)
    (body : Bytes) :
    AnswersExactly regex codec store body ↔
      ∀ decompressed request,
        codec.decompress body = .ok decompressed →
          codec.decodeReadRequest decompressed = .ok request →
            CanBeSent codec store request →
              ∀ query ∈ request.queries, query.Kept regex store := by
  have sound : store.head.Sound hasher config :=
    (HeadBlock.Sound.new config).ofRun run
  constructor
  · intro exact decompressed request isDecompressed isRequest sent
    exact kept_of_answersExactly sound exact isDecompressed isRequest sent
  · intro kept decompressed request response compressed isDecompressed
      isRequest isOk
    rcases @handleRemoteRead_of_request store codec body decompressed request
        isDecompressed isRequest with
      ⟨data, isAnswer⟩ | ⟨_, status, message, isAnswer⟩
    · rw [isOk] at isAnswer
      cases isAnswer
      exact (exact_response_iff sound request.queries).mpr
        (kept _ _ isDecompressed isRequest
          (canBeSent_of_ok isDecompressed isRequest isOk))
    · rw [isOk] at isAnswer
      cases isAnswer

end Results

def messageField (tag : UInt8) (content : Bytes) : Bytes :=
  tag :: UInt8.ofNat content.length :: content

/-- A short message that is compressed to a literal. -/
def snappyLiteral (message : Bytes) : Bytes :=
  UInt8.ofNat message.length :: UInt8.ofNat ((message.length - 1) * 4) ::
    message

/-- The libraries on one request and its response. -/
def exampleReadCodec
    (message : Bytes) (request : ReadRequest) (encoded : Bytes) :
    ReadCodec where
  decompress body :=
    if body = snappyLiteral message then .ok message
    else .error "snappy: corrupt input"
  decodeReadRequest data :=
    if data = message then .ok request
    else .error "failed to decode Protobuf message"
  encodeReadResponse _ := .ok encoded
  compress data := .ok (snappyLiteral data)

theorem decompress_exampleReadCodec
    (message : Bytes) (request : ReadRequest) (encoded : Bytes) :
    (exampleReadCodec message request encoded).decompress
        (snappyLiteral message) =
      .ok message :=
  if_pos rfl

theorem decodeReadRequest_exampleReadCodec
    (message : Bytes) (request : ReadRequest) (encoded : Bytes) :
    (exampleReadCodec message request encoded).decodeReadRequest message =
      .ok request :=
  if_pos rfl

def exampleLabels : Labels :=
  [⟨"__name__", "up"⟩, ⟨"job", "a"⟩]

def readStore : MemStore where
  head :=
    ([.getOrCreateSeries exampleLabels,
      .addSample (calculateSeriesId SipHash.hash exampleLabels) ⟨1000, 1⟩]
        : List HeadOperation).foldl
      (fun head operation => (operation.run SipHash.hash head).2)
      (HeadBlock.new ⟨1024⟩)
  wal := none
  stats := ⟨1, 1, 1⟩

theorem run_readStore :
    Run (HeadStep SipHash.hash) (HeadBlock.new ⟨1024⟩)
      [.getOrCreateSeries exampleLabels,
        .addSample (calculateSeriesId SipHash.hash exampleLabels) ⟨1000, 1⟩]
      readStore.head :=
  .cons rfl (.single rfl)

theorem lookup_readStore {seriesId : TimeSeriesId} {entry : TimeSeriesEntry}
    (found : readStore.head.series.lookup seriesId = some entry) :
    entry.labels = exampleLabels ∧ entry.samples = [⟨1000, 1⟩] := by
  have allEntries :
      ∀ item ∈ readStore.head.series.entries,
        item.2.labels = exampleLabels ∧ item.2.samples = [⟨1000, 1⟩] := by
    decide +kernel
  exact allEntries ⟨seriesId, entry⟩ (AList.mem_lookup_iff.mp found)

theorem exists_lookup_readStore :
    ∃ entry,
      readStore.head.series.lookup
          (calculateSeriesId SipHash.hash exampleLabels) =
        some entry := by
  have isSome :
      (readStore.head.series.lookup
        (calculateSeriesId SipHash.hash exampleLabels)).isSome = true := by
    decide +kernel
  exact Option.isSome_iff_exists.mp isSome

def upMatcher : LabelMatcher :=
  ⟨"__name__", .equal, "up"⟩

/-- The message of a query from zero on, with the bytes of its end. -/
def queryMessage (stop : Bytes) (matchers : List Bytes) : Bytes :=
  messageField 0x0a
    (0x10 :: stop ++ matchers.flatMap fun matcher => messageField 0x1a matcher)

def upMatcherMessage : Bytes :=
  messageField 0x0a (stringBytes "__name__") ++
    messageField 0x1a (stringBytes "up")

def labelMessage (label : Label) : Bytes :=
  messageField 0x0a (stringBytes label.name) ++
    messageField 0x12 (stringBytes label.value)

/-- The message of a response with the series and its sample. -/
def upResponseMessage : Bytes :=
  messageField 0x0a
    (messageField 0x0a
      ((exampleLabels.flatMap fun label =>
          messageField 0x0a (labelMessage label)) ++
        messageField 0x12
          [0x09, 0, 0, 0, 0, 0, 0, 0xf0, 0x3f, 0x10, 0xe8, 0x07]))

/-- The first two seconds of the metric `up`. -/
def upQuery : ReadQuery :=
  ⟨0, 2000, [upMatcher]⟩

def upMessage : Bytes :=
  queryMessage [0xd0, 0x0f] [upMatcherMessage]

/-- No text is a regular expression. -/
def noRegex : String → Option (String → Bool) :=
  fun _ => none

/-- A query by the name alone over two seconds is answered exactly. -/
theorem name_query_is_exact :
    AnswersExactly noRegex
      (exampleReadCodec upMessage ⟨[upQuery]⟩ upResponseMessage) readStore
      (snappyLiteral upMessage) := by
  refine (remote_read_exact_iff run_readStore _ _).mpr ?_
  intro decompressed request isDecompressed isRequest _ query isQuery
  rw [decompress_exampleReadCodec] at isDecompressed
  cases isDecompressed
  rw [decodeReadRequest_exampleReadCodec] at isRequest
  cases isRequest
  obtain rfl := List.mem_singleton.mp isQuery
  refine ⟨?_, fun seriesId entry found _ => ⟨?_, fun _ => .inl (by decide)⟩⟩
  · intro matcher member
    obtain rfl := List.mem_singleton.mp member
    trivial
  · refine iff_of_true ?_ ?_
    · rw [(lookup_readStore found).1]
      decide
    · intro matcher member
      obtain rfl := List.mem_singleton.mp member
      rw [(lookup_readStore found).1]
      change "up" ∈ labelValues exampleLabels "__name__"
      decide

/-- All but the job `a`. -/
def otherJobsQuery : ReadQuery :=
  ⟨0, 2000, [upMatcher, ⟨"job", .notEqual, "a"⟩]⟩

def otherJobsMessage : Bytes :=
  queryMessage [0xd0, 0x0f]
    [upMatcherMessage,
      messageField 0x0a (stringBytes "job") ++ [0x10, 1] ++
        messageField 0x1a (stringBytes "a")]

/-- The first hour of the metric `up`. -/
def hourQuery : ReadQuery :=
  ⟨0, 3600000, [upMatcher]⟩

def hourMessage : Bytes :=
  queryMessage [0x80, 0xdd, 0xdb, 0x01] [upMatcherMessage]

/--
A series that a matcher excludes is returned, and over an hour its sample is moved
to the start of a window.
-/
theorem remote_read_not_exact :
    ∃ operations,
      Run (HeadStep SipHash.hash) (HeadBlock.new ⟨1024⟩) operations
          readStore.head ∧
        ¬AnswersExactly noRegex
            (exampleReadCodec otherJobsMessage ⟨[otherJobsQuery]⟩
              upResponseMessage)
            readStore (snappyLiteral otherJobsMessage) ∧
          ¬AnswersExactly noRegex
              (exampleReadCodec hourMessage ⟨[hourQuery]⟩ upResponseMessage)
              readStore (snappyLiteral hourMessage) := by
  have sound := (@HeadBlock.Sound.new SipHash.hash ⟨1024⟩).ofRun run_readStore
  obtain ⟨entry, found⟩ := exists_lookup_readStore
  obtain ⟨isLabels, isSamples⟩ := lookup_readStore found
  refine ⟨_, run_readStore, fun exact => ?_, fun exact => ?_⟩
  · obtain ⟨_, kept⟩ :=
      kept_of_answersExactly sound exact
        (decompress_exampleReadCodec _ _ _)
        (decodeReadRequest_exampleReadCodec _ _ _) ⟨_, _, rfl, rfl⟩
        otherJobsQuery (List.mem_singleton_self _)
    have some : otherJobsQuery.samplesIn entry ≠ [] := by
      rw [ReadQuery.samplesIn, isSamples]
      decide
    have satisfied := (kept _ entry found some).1.mp (by
      rw [isLabels]
      decide)
    have excluded := satisfied ⟨"job", .notEqual, "a"⟩ (by decide)
    rw [isLabels] at excluded
    change "a" ∉ labelValues exampleLabels "job" at excluded
    exact excluded (by decide)
  · obtain ⟨_, kept⟩ :=
      kept_of_answersExactly sound exact
        (decompress_exampleReadCodec _ _ _)
        (decodeReadRequest_exampleReadCodec _ _ _) ⟨_, _, rfl, rfl⟩
        hourQuery (List.mem_singleton_self _)
    have isShown : hourQuery.samplesIn entry = [⟨1000, 1⟩] := by
      rw [ReadQuery.samplesIn, isSamples]
      decide
    have some : hourQuery.samplesIn entry ≠ [] := by
      rw [isShown]
      decide
    obtain ⟨decides, isKept⟩ := kept _ entry found some
    have hasAll :
        ∀ matcher ∈ equalMatchers hourQuery,
          ⟨matcher.1, matcher.2⟩ ∈ entry.labels := by
      rw [isLabels]
      decide
    rcases isKept (decides.mp hasAll) with isRaw | ⟨starts, _⟩
    · exact absurd isRaw (by decide)
    · have atStart := starts ⟨1000, 1⟩ (by rw [isShown]; decide)
      exact absurd atStart (by decide)

end ChronoDB.Server
