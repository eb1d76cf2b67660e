import ChronoDB.Library.Grouping
import ChronoDB.Memstore.BatchFailure
import ChronoDB.Server.RemoteText

namespace ChronoDB.Server

open Library Text Wal Memstore List

/-!
# Remote write

A body is read as a compressed message or as text lines.  What is read is written
series by series; a write that fails and a line that cannot be read are logged,
and the answer is success all the same.
-/

/-- The fields of a series in a message that the handlers use. -/
structure PromTimeSeries where
  labels : Labels
  samples : List Sample
  deriving Repr, DecidableEq

/-- What the libraries for compression, messages and numbers do. -/
structure WriteCodec where
  decompress : Bytes → Except String Bytes
  decodeWriteRequest : Bytes → Except String (List PromTimeSeries)
  parseValue : Text → Option Value
  utf8Error : Bytes → String

/--
What a request finds: the clock and the log at each of its writes, the clock at
each of its lines, and the order in which a hash map of batches is read.
-/
structure WriteConditions where
  clock : ℕ → WriteClock
  fault : ℕ → Option LogFault
  now : ℕ → Timestamp
  order : List (Labels × List Sample) → List (Labels × List Sample)
  isOrder : ∀ batches, (order batches).Perm batches

inductive StatusCode where
  | ok
  | noContent
  | badRequest
  | internalServerError
  deriving Repr, DecidableEq

structure WriteAnswer where
  status : StatusCode
  body : String
  deriving Repr, DecidableEq

/-- `std::str::from_utf8`. -/
def decodeUtf8 (body : Bytes) : Option Text :=
  (String.fromUTF8? ⟨body.toArray⟩).map String.toList

/-- More than nine tenths of the first bytes are printable ASCII or spacing. -/
def isLikelyText (data : Bytes) : Bool :=
  if data = [] then false
  else
    let sampleSize := min data.length 512
    let textChars :=
      ((data.take sampleSize).filter fun byte =>
        byte == 10 || byte == 13 || (32 ≤ byte && byte < 127) ||
          byte == 9).length
    9 * sampleSize < 10 * textChars

section Handler

variable (codec : WalCodec) (hasher : Bytes → TimeSeriesId)
variable (remote : WriteCodec) (conditions : WriteConditions)

/-- Writes one after the other, whose errors are only logged. -/
def writeEach (store : MemStore) (items : List LoggedWrite) : MemStore :=
  items.foldl (fun store item => (store.writeUnder codec hasher item).2) store

/-- Batches as they are written, with what each write finds. -/
def toWrites (batches : List (Labels × List Sample)) : List LoggedWrite :=
  batches.zipIdx.map fun entry =>
    ⟨{
        labels := entry.1.1
        samples := entry.1.2
        clock := conditions.clock entry.2
      },
      conditions.fault entry.2⟩

def processProtobufWrite (store : MemStore) (body : Bytes) :
    Except String (ℕ × ℕ) × MemStore :=
  match remote.decompress body with
  | .error cause => (.error ("Snappy decompression failed: " ++ cause), store)
  | .ok decompressed =>
    match remote.decodeWriteRequest decompressed with
    | .error cause => (.error ("Protobuf decode failed: " ++ cause), store)
    | .ok timeseries =>
      (.ok
          (timeseries.length,
            (timeseries.map fun series => series.samples.length).sum),
        writeEach codec hasher store
          (toWrites conditions
            (timeseries.map fun series =>
              (series.labels, series.samples))))

def readLines (lines : List Text) : List (Labels × List Sample) :=
  lines.zipIdx.filterMap fun entry =>
    parseTextLine remote.parseValue (conditions.now entry.2) entry.1

def batchWrites (lines : List Text) : List (Labels × List Sample) :=
  conditions.order
    ((groupByKey (readLines remote conditions lines)).entries.map
      fun entry => (entry.1, entry.2))

def processTextWrite (store : MemStore) (body : Bytes) :
    Except String (ℕ × ℕ) × MemStore :=
  match decodeUtf8 body with
  | none => (.error ("Invalid UTF-8: " ++ remote.utf8Error body), store)
  | some text =>
    let lines := textLines text
    (.ok
        (lines.length,
          ((readLines remote conditions lines).map
            fun batch => batch.2.length).sum),
      writeEach codec hasher store
        (toWrites conditions (batchWrites remote conditions lines)))

/-- The answer to a write that was processed. -/
def answerOf : Except String (ℕ × ℕ) → WriteAnswer
  | .ok _ => ⟨.noContent, ""⟩
  | .error cause => ⟨.badRequest, "Write error: " ++ cause⟩

def isProtobuf (contentType : Text) : Bool :=
  (findPattern "application/x-protobuf".toList contentType).isSome ||
    (findPattern "application/vnd.google.protobuf".toList contentType).isSome

def handleRemoteWrite
    (store : MemStore) (contentType : Option Text) (body : Bytes) :
    WriteAnswer × MemStore :=
  if isProtobuf (contentType.getD []) then
    let (result, after) :=
      processProtobufWrite codec hasher remote conditions store body
    (answerOf result, after)
  else if isLikelyText body then
    let (result, after) :=
      processTextWrite codec hasher remote conditions store body
    (answerOf result, after)
  else
    match processProtobufWrite codec hasher remote conditions store body with
    | (.ok counts, after) => (answerOf (.ok counts), after)
    | (.error _, after) =>
      let (result, final) :=
        processTextWrite codec hasher remote conditions after body
      (answerOf result, final)

end Handler

/-!
## What a body holds
-/

/-- What a body is read as. -/
inductive WriteContent where
  | protobuf (timeseries : List PromTimeSeries)
  | text (lines : List Text)

def protobufContent (remote : WriteCodec) (body : Bytes) :
    Except String WriteContent :=
  match remote.decompress body with
  | .error cause => .error ("Snappy decompression failed: " ++ cause)
  | .ok decompressed =>
    match remote.decodeWriteRequest decompressed with
    | .error cause => .error ("Protobuf decode failed: " ++ cause)
    | .ok timeseries => .ok (.protobuf timeseries)

def textContent (remote : WriteCodec) (body : Bytes) :
    Except String WriteContent :=
  match decodeUtf8 body with
  | none => .error ("Invalid UTF-8: " ++ remote.utf8Error body)
  | some text => .ok (.text (textLines text))

/-- What the handler reads a body as, on the path that it takes. -/
def contentOf (remote : WriteCodec) (contentType : Option Text) (body : Bytes) :
    Except String WriteContent :=
  if isProtobuf (contentType.getD []) then
    protobufContent remote body
  else if isLikelyText body then
    textContent remote body
  else
    match protobufContent remote body with
    | .ok content => .ok content
    | .error _ => textContent remote body

namespace WriteContent

variable (hasher : Bytes → TimeSeriesId)
variable (remote : WriteCodec) (conditions : WriteConditions)

/-- The writes of what was read. -/
def writes : WriteContent → List LoggedWrite
  | .protobuf timeseries =>
    toWrites conditions
      (timeseries.map fun series => (series.labels, series.samples))
  | .text lines => toWrites conditions (batchWrites remote conditions lines)

def Stored (after : MemStore) : WriteContent → Prop
  | .protobuf timeseries =>
    ∀ series ∈ timeseries, ∀ sample ∈ series.samples,
      sample ∈ after.samplesOf (calculateSeriesId hasher series.labels)
  | .text lines =>
    ∀ entry ∈ lines.zipIdx,
      ∃ batch,
        parseTextLine remote.parseValue (conditions.now entry.2) entry.1 =
            some batch ∧
          ∀ sample ∈ batch.2,
            sample ∈ after.samplesOf (calculateSeriesId hasher batch.1)

/-- Every line can be read. -/
def Readable : WriteContent → Prop
  | .protobuf _ => True
  | .text lines =>
    ∀ entry ∈ lines.zipIdx,
      (parseTextLine remote.parseValue (conditions.now entry.2) entry.1).isSome

end WriteContent

section Outcomes

variable (codec : WalCodec) (hasher : Bytes → TimeSeriesId)

/-- Writes, each with whether it is admitted when its turn has come. -/
def outcomes (store : MemStore) : List LoggedWrite → List (LoggedWrite × Bool)
  | [] => []
  | item :: rest =>
    (item, (store.admission.accept codec hasher item).isSome) ::
      outcomes (store.writeUnder codec hasher item).2 rest

/-- The samples of a write that is refused are there before or after it. -/
def Covered (store : MemStore) (items : List LoggedWrite) : Prop :=
  ∀ item, (item, false) ∈ outcomes codec hasher store items →
    ∀ sample ∈ item.samples,
      sample ∈ store.samplesOf (item.seriesId hasher) ∨
        ∃ other,
          (other, true) ∈ outcomes codec hasher store items ∧
            other.seriesId hasher = item.seriesId hasher ∧
              sample ∈ other.samples

end Outcomes

/-- A success acknowledges only what is in the store. -/
def AcknowledgesStored
    (codec : WalCodec) (hasher : Bytes → TimeSeriesId) (remote : WriteCodec)
    (conditions : WriteConditions) (store : MemStore)
    (contentType : Option Text) (body : Bytes) :
    Prop :=
  (handleRemoteWrite codec hasher remote conditions store contentType
        body).1.status = .noContent →
    ∀ content,
      contentOf remote contentType body = .ok content →
        content.Stored hasher remote conditions
          (handleRemoteWrite codec hasher remote conditions store contentType
            body).2

/-!
## The handler reads and writes
-/

section Handled

variable {codec : WalCodec} {hasher : Bytes → TimeSeriesId}
variable {remote : WriteCodec} {conditions : WriteConditions}

theorem processProtobufWrite_eq (store : MemStore) (body : Bytes) :
    (∃ cause,
        protobufContent remote body = .error cause ∧
          processProtobufWrite codec hasher remote conditions store body =
            (.error cause, store)) ∨
      ∃ content counts,
        protobufContent remote body = .ok content ∧
          processProtobufWrite codec hasher remote conditions store body =
            (.ok counts,
              writeEach codec hasher store
                (content.writes remote conditions)) := by
  rw [protobufContent, processProtobufWrite]
  cases remote.decompress body with
  | error cause => exact .inl ⟨_, rfl, rfl⟩
  | ok decompressed =>
    dsimp only
    cases remote.decodeWriteRequest decompressed with
    | error cause => exact .inl ⟨_, rfl, rfl⟩
    | ok timeseries => exact .inr ⟨_, _, rfl, rfl⟩

theorem processTextWrite_eq (store : MemStore) (body : Bytes) :
    (∃ cause,
        textContent remote body = .error cause ∧
          processTextWrite codec hasher remote conditions store body =
            (.error cause, store)) ∨
      ∃ content counts,
        textContent remote body = .ok content ∧
          processTextWrite codec hasher remote conditions store body =
            (.ok counts,
              writeEach codec hasher store
                (content.writes remote conditions)) := by
  rw [textContent, processTextWrite]
  cases decodeUtf8 body with
  | none => exact .inl ⟨_, rfl, rfl⟩
  | some text => exact .inr ⟨_, _, rfl, rfl⟩

theorem handleRemoteWrite_eq
    (store : MemStore) (contentType : Option Text) (body : Bytes) :
    (∃ cause,
        contentOf remote contentType body = .error cause ∧
          handleRemoteWrite codec hasher remote conditions store contentType
              body =
            (⟨.badRequest, "Write error: " ++ cause⟩, store)) ∨
      ∃ content,
        contentOf remote contentType body = .ok content ∧
          handleRemoteWrite codec hasher remote conditions store contentType
              body =
            (⟨.noContent, ""⟩,
              writeEach codec hasher store
                (content.writes remote conditions)) := by
  rw [contentOf, handleRemoteWrite]
  by_cases isMessage : isProtobuf (contentType.getD []) = true
  · rw [if_pos isMessage, if_pos isMessage]
    rcases @processProtobufWrite_eq codec hasher remote conditions store body
      with ⟨cause, fails, isResult⟩ | ⟨content, counts, reads, isResult⟩
    · rw [isResult]
      exact .inl ⟨cause, fails, rfl⟩
    · rw [isResult]
      exact .inr ⟨content, reads, rfl⟩
  rw [if_neg isMessage, if_neg isMessage]
  have asText := @processTextWrite_eq codec hasher remote conditions store body
  by_cases isText : isLikelyText body = true
  · rw [if_pos isText, if_pos isText]
    rcases asText with
      ⟨cause, fails, isResult⟩ | ⟨content, counts, reads, isResult⟩
    · rw [isResult]
      exact .inl ⟨cause, fails, rfl⟩
    · rw [isResult]
      exact .inr ⟨content, reads, rfl⟩
  rw [if_neg isText, if_neg isText]
  rcases @processProtobufWrite_eq codec hasher remote conditions store body
    with ⟨cause, fails, isResult⟩ | ⟨content, counts, reads, isResult⟩
  · rw [isResult, fails]
    dsimp only
    rcases asText with
      ⟨textCause, textFails, isTextResult⟩ |
        ⟨content, counts, reads, isTextResult⟩
    · rw [isTextResult]
      exact .inl ⟨textCause, textFails, rfl⟩
    · rw [isTextResult]
      exact .inr ⟨content, reads, rfl⟩
  · rw [isResult, reads]
    exact .inr ⟨content, rfl, rfl⟩

/-!
## What the writes leave in the store
-/

theorem exists_outcome_iff {store : MemStore} {items : List LoggedWrite}
    {item : LoggedWrite} :
    (∃ isAdmitted, (item, isAdmitted) ∈ outcomes codec hasher store items) ↔
      item ∈ items := by
  induction items generalizing store with
  | nil =>
    refine iff_of_false ?_ not_mem_nil
    rintro ⟨isAdmitted, member⟩
    cases member
  | cons first rest inductionHypothesis =>
    rw [outcomes, mem_cons, ← inductionHypothesis]
    constructor
    · rintro ⟨isAdmitted, member⟩
      rcases mem_cons.mp member with same | later
      · exact .inl (Prod.mk.inj same).1
      · exact .inr ⟨isAdmitted, later⟩
    · rintro (rfl | ⟨isAdmitted, later⟩)
      · exact ⟨_, mem_cons_self⟩
      · exact ⟨isAdmitted, mem_cons_of_mem _ later⟩

theorem mem_samplesOf_writeUnder
    {store : MemStore} {item : LoggedWrite} {seriesId : TimeSeriesId}
    {sample : Sample} :
    sample ∈ (store.writeUnder codec hasher item).2.samplesOf seriesId ↔
      sample ∈ store.samplesOf seriesId ∨
        (store.admission.accept codec hasher item).isSome = true ∧
          item.seriesId hasher = seriesId ∧ sample ∈ item.samples := by
  cases admits : store.admission.accept codec hasher item with
  | none =>
    obtain ⟨cause, after, fails, samples⟩ :=
      MemStore.writeUnder_of_refused admits
    rw [fails, (samples seriesId).mem_iff]
    refine (or_iff_left ?_).symm
    rintro ⟨isSome, _⟩
    cases isSome
  | some admitted =>
    obtain ⟨after, succeeds, _, samples⟩ := MemStore.writeUnder_of_admit admits
    rw [succeeds, (samples seriesId).mem_iff, mem_append,
      Option.isSome_some, eq_self, true_and]
    refine or_congr_right ?_
    split
    · rename_i same
      exact (and_iff_right same).symm
    · rename_i different
      refine iff_of_false not_mem_nil ?_
      rintro ⟨same, _⟩
      exact different same

theorem mem_samplesOf_writeEach
    {store : MemStore} {items : List LoggedWrite} {seriesId : TimeSeriesId}
    {sample : Sample} :
    sample ∈ (writeEach codec hasher store items).samplesOf seriesId ↔
      sample ∈ store.samplesOf seriesId ∨
        ∃ item,
          (item, true) ∈ outcomes codec hasher store items ∧
            item.seriesId hasher = seriesId ∧ sample ∈ item.samples := by
  induction items generalizing store with
  | nil =>
    refine (or_iff_left ?_).symm
    rintro ⟨item, member, _⟩
    cases member
  | cons first rest inductionHypothesis =>
    rw [writeEach, foldl_cons, ← writeEach, inductionHypothesis,
      mem_samplesOf_writeUnder, or_assoc, outcomes]
    refine or_congr_right ?_
    constructor
    · rintro (⟨admitted, isId, inFirst⟩ | ⟨item, later, isId, inItem⟩)
      · refine ⟨first, ?_, isId, inFirst⟩
        rw [admitted]
        exact mem_cons_self
      · exact ⟨item, mem_cons_of_mem _ later, isId, inItem⟩
    · rintro ⟨item, member, isId, inItem⟩
      rcases mem_cons.mp member with same | later
      · obtain ⟨rfl, admitted⟩ := Prod.mk.inj same
        exact .inl ⟨admitted.symm, isId, inItem⟩
      · exact .inr ⟨item, later, isId, inItem⟩

theorem covered_iff {store : MemStore} {items : List LoggedWrite} :
    (∀ item ∈ items, ∀ sample ∈ item.samples,
        sample ∈
          (writeEach codec hasher store items).samplesOf
            (item.seriesId hasher)) ↔
      Covered codec hasher store items := by
  simp only [mem_samplesOf_writeEach]
  constructor
  · intro stored item refused
    exact stored item (exists_outcome_iff.mp ⟨false, refused⟩)
  · intro covered item member sample inItem
    obtain ⟨isAdmitted, isOutcome⟩ :=
      (@exists_outcome_iff codec hasher store items item).mpr member
    cases isAdmitted with
    | false => exact covered item isOutcome sample inItem
    | true => exact .inr ⟨item, isOutcome, rfl, inItem⟩

theorem forall_toWrites_iff {batches : List (Labels × List Sample)}
    {Holds : TimeSeriesId → Sample → Prop} :
    (∀ item ∈ toWrites conditions batches, ∀ sample ∈ item.samples,
        Holds (item.seriesId hasher) sample) ↔
      ∀ batch ∈ batches, ∀ sample ∈ batch.2,
        Holds (calculateSeriesId hasher batch.1) sample := by
  rw [toWrites, forall_mem_map]
  constructor
  · intro allEntries batch member
    rw [← zipIdx_map_fst 0 batches] at member
    obtain ⟨entry, isEntry, rfl⟩ := mem_map.mp member
    exact allEntries entry isEntry
  · intro allBatches entry isEntry
    refine allBatches entry.1 ?_
    rw [← zipIdx_map_fst 0 batches]
    exact mem_map_of_mem isEntry

theorem forall_batchWrites_iff
    {lines : List Text} {Holds : Labels → Sample → Prop} :
    (∀ batch ∈ batchWrites remote conditions lines, ∀ sample ∈ batch.2,
        Holds batch.1 sample) ↔
      ∀ batch ∈ readLines remote conditions lines, ∀ sample ∈ batch.2,
        Holds batch.1 sample := by
  refine Iff.trans ?_ forall_groups_iff
  simp only [batchWrites, (conditions.isOrder _).mem_iff, forall_mem_map]

theorem stored_iff {content : WriteContent} {after : MemStore} :
    content.Stored hasher remote conditions after ↔
      content.Readable remote conditions ∧
        ∀ item ∈ content.writes remote conditions,
          ∀ sample ∈ item.samples,
            sample ∈ after.samplesOf (item.seriesId hasher) := by
  cases content with
  | protobuf timeseries =>
    rw [WriteContent.Stored, WriteContent.Readable, WriteContent.writes,
      true_and]
    refine Iff.trans ?_
      (@forall_toWrites_iff hasher conditions _ fun seriesId sample =>
        sample ∈ after.samplesOf seriesId).symm
    rw [forall_mem_map]
  | text lines =>
    rw [WriteContent.Stored, WriteContent.Readable, WriteContent.writes]
    refine Iff.trans ?_
      (and_congr_right fun _ =>
        (@forall_toWrites_iff hasher conditions _ fun seriesId sample =>
          sample ∈ after.samplesOf seriesId).trans
            (@forall_batchWrites_iff remote conditions lines
              fun labels sample =>
                sample ∈
                  after.samplesOf (calculateSeriesId hasher labels))).symm
    constructor
    · intro stored
      constructor
      · intro entry isEntry
        obtain ⟨batch, isRead, _⟩ := stored entry isEntry
        rw [isRead]
        rfl
      · intro batch member
        obtain ⟨entry, isEntry, isRead⟩ := mem_filterMap.mp member
        obtain ⟨other, isOther, allStored⟩ := stored entry isEntry
        rw [isRead] at isOther
        cases isOther
        exact allStored
    · rintro ⟨readable, allStored⟩ entry isEntry
      obtain ⟨batch, isRead⟩ :=
        Option.isSome_iff_exists.mp (readable entry isEntry)
      exact
        ⟨batch, isRead,
          allStored batch (mem_filterMap.mpr ⟨entry, isEntry, isRead⟩)⟩

theorem stored_writeEach_iff {store : MemStore} {content : WriteContent} :
    content.Stored hasher remote conditions
        (writeEach codec hasher store (content.writes remote conditions)) ↔
      content.Readable remote conditions ∧
        Covered codec hasher store (content.writes remote conditions) := by
  rw [stored_iff, covered_iff]

/--
A remote write that answers success has stored every sample of the body exactly
when every line can be read, and the samples of every write that is refused when
its turn has come are in the store before or by another write of the request.
-/
theorem remote_write_acknowledges_stored_iff (store : MemStore)
    (contentType : Option Text) (body : Bytes) :
    AcknowledgesStored codec hasher remote conditions store contentType body ↔
      ∀ content,
        contentOf remote contentType body = .ok content →
          content.Readable remote conditions ∧
            Covered codec hasher store (content.writes remote conditions) := by
  rw [AcknowledgesStored]
  rcases @handleRemoteWrite_eq codec hasher remote conditions store contentType
      body with
    ⟨cause, fails, isAnswer⟩ | ⟨content, reads, isAnswer⟩
  · rw [isAnswer, fails]
    refine iff_of_true (fun isSuccess => ?_) fun content isContent => ?_
    · cases isSuccess
    · cases isContent
  · rw [isAnswer, reads]
    refine (forall_prop_of_true rfl).trans ?_
    refine forall_congr' fun other => imp_congr_right fun same => ?_
    cases same
    exact stored_writeEach_iff

theorem decodeUtf8_stringBytes (text : String) :
    decodeUtf8 (stringBytes text) = some text.toList := by
  rw [decodeUtf8, stringBytes, Array.toArray_toList]
  change (String.fromUTF8? text.toUTF8).map String.toList = _
  rw [String.fromUTF8?, String.toUTF8_eq_toByteArray, dif_pos text.isValidUTF8]
  rfl

theorem contentOf_of_text {contentType : Text} {text : String}
    (notMessage : isProtobuf contentType = false)
    (isText : isLikelyText (stringBytes text) = true) :
    contentOf remote (some contentType) (stringBytes text) =
      .ok (.text (textLines text.toList)) := by
  rw [contentOf, Option.getD_some, notMessage, if_neg Bool.false_ne_true,
    if_pos isText, textContent, decodeUtf8_stringBytes]

theorem not_acknowledgesStored
    {store : MemStore} {contentType : Option Text} {body : Bytes}
    {content : WriteContent}
    (reads : contentOf remote contentType body = .ok content)
    (lost :
      ¬content.Stored hasher remote conditions
        (writeEach codec hasher store (content.writes remote conditions))) :
    ¬AcknowledgesStored codec hasher remote conditions store contentType
      body := by
  intro acknowledged
  rw [AcknowledgesStored] at acknowledged
  rcases @handleRemoteWrite_eq codec hasher remote conditions store contentType
      body with
    ⟨cause, fails, _⟩ | ⟨other, readsOther, isAnswer⟩
  · rw [reads] at fails
    cases fails
  · rw [isAnswer] at acknowledged
    rw [reads] at readsOther
    cases readsOther
    exact lost (acknowledged rfl content reads)

end Handled

/-- Numbers are read as whole numbers, and no body is a message. -/
def exampleWriteCodec : WriteCodec where
  decompress _ := .error "snappy: corrupt input"
  decodeWriteRequest _ := .error "failed to decode Protobuf message"
  parseValue := Migration.ExportText.basic.parseValue
  utf8Error _ := ""

/-- The file system does not fail, and hash maps are read in one order. -/
def exampleConditions : WriteConditions where
  clock _ := { millis := 2000, now := 2, rotation := ⟨2, 2000⟩ }
  fault _ := none
  now _ := 2000
  order := id
  isOrder batches := .refl batches

/--
A sample is acknowledged by a full store that does not take it, and a line is
acknowledged that cannot be read.
-/
theorem remote_write_acknowledges_lost_samples :
    ¬AcknowledgesStored jsonCodec SipHash.hash exampleWriteCodec
        exampleConditions fullStore (some "text/plain".toList)
        (stringBytes "up 1 5\n") ∧
      ¬AcknowledgesStored jsonCodec SipHash.hash exampleWriteCodec
          exampleConditions smallStore (some "text/plain".toList)
          (stringBytes "up\x7bjob=\"a,b\"\x7d 1 5\n") := by
  constructor
  · refine not_acknowledgesStored
      (contentOf_of_text (by decide) (by decide +kernel)) ?_
    intro stored
    obtain ⟨batch, isRead, inStore⟩ :=
      stored ("up 1 5".toList, 0) (by decide +kernel)
    have isBatch :
        parseTextLine exampleWriteCodec.parseValue 2000 "up 1 5".toList =
          some ([⟨"__name__", "up"⟩], [⟨5, 1⟩]) := by
      decide +kernel
    cases isBatch.symm.trans isRead
    exact absurd (inStore ⟨5, 1⟩ (mem_singleton_self _)) (by decide +kernel)
  · refine not_acknowledgesStored
      (contentOf_of_text (by decide) (by decide +kernel)) ?_
    intro stored
    obtain ⟨batch, isRead, _⟩ :=
      stored ("up\x7bjob=\"a,b\"\x7d 1 5".toList, 0) (by decide +kernel)
    have notRead :
        parseTextLine exampleWriteCodec.parseValue 2000
            "up\x7bjob=\"a,b\"\x7d 1 5".toList =
          none := by
      decide +kernel
    cases notRead.symm.trans isRead

end ChronoDB.Server
