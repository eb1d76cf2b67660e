import Mathlib.Data.List.TakeWhile
import ChronoDB.Wal.Segment

namespace ChronoDB.Wal

open Library List WalEntry

/-!
# The segment reader

The reader works on the bytes of the segment files.  One iteration of its loop
either breaks out, fails, or reads one entry and leaves the bytes behind it.
-/

abbrev LogContents := NumberedMap Bytes

def SegmentDir.contents (codec : WalCodec) (dir : SegmentDir) : LogContents :=
  FiniteMap.mapValues (SegmentFile.bytes codec) dir

namespace WalReader

/-- Read a fixed number of bytes, or fail at the end of the file. -/
def readExact (data : Bytes) (count : ℕ) : Except Error (Bytes × Bytes) :=
  if data.length < count then
    .error (.io .unexpectedEof)
  else
    .ok (data.take count, data.drop count)

variable (codec : WalCodec)

/-- The end of one loop iteration: the bytes behind the entry header. -/
def readBody (header afterHeader : Bytes) :
    Except Error (Option (WalEntry × Bytes)) :=
  let dataLen := leValue (slice header 8 12)
  match readExact afterHeader dataLen with
  | .error cause => .error cause
  | .ok (entryData, rest) =>
    match decode codec (header ++ entryData) with
    | .ok entry => .ok (some (entry, rest))
    | .error _ => .ok none

/--
One iteration of the loop: `none` breaks out of it.  Running out of bytes is a
break inside the sequence number and a failure anywhere behind it.
-/
def readEntry (data : Bytes) : Except Error (Option (WalEntry × Bytes)) :=
  match readExact data 8 with
  | .error _ => .ok none
  | .ok (_, afterSequence) =>
    match readExact afterSequence walEntryHeaderSize with
    | .error cause => .error cause
    | .ok (header, afterHeader) => readBody codec header afterHeader

variable {frame : Frame} {data : Bytes} {count : ℕ}

theorem readExact_ok {data read rest : Bytes}
    (success : readExact data count = .ok (read, rest)) :
    data = read ++ rest ∧ read.length = count := by
  rw [readExact] at success
  split at success
  · cases success
  · rename_i enough
    cases success
    exact ⟨(take_append_drop count data).symm,
      length_take_of_le (not_lt.mp enough)⟩

theorem readEntry_length {data rest : Bytes} {entry : WalEntry}
    (success : readEntry codec data = .ok (some (entry, rest))) :
    rest.length < data.length := by
  rw [readEntry] at success
  cases sequence : readExact data 8 with
  | error cause => simp [sequence] at success
  | ok first =>
    obtain ⟨sequenceBytes, afterSequence⟩ := first
    simp only [sequence] at success
    cases headerRead : readExact afterSequence walEntryHeaderSize with
    | error cause => simp [headerRead] at success
    | ok second =>
      obtain ⟨header, afterHeader⟩ := second
      simp only [headerRead, readBody] at success
      cases bodyRead : readExact afterHeader (leValue (slice header 8 12)) with
      | error cause => simp [bodyRead] at success
      | ok third =>
        obtain ⟨entryData, remaining⟩ := third
        simp only [bodyRead] at success
        obtain ⟨wholeData, sequenceLength⟩ := readExact_ok sequence
        obtain ⟨wholeRest, _⟩ := readExact_ok headerRead
        obtain ⟨wholeTail, _⟩ := readExact_ok bodyRead
        split at success
        · cases success
          rw [wholeData, wholeRest, wholeTail]
          simp only [length_append]
          omega
        · cases success

/-- The loop over the entries behind the segment header. -/
def readEntries (data : Bytes) : Except Error (List WalEntry) :=
  match _found : readEntry codec data with
  | .error cause => .error cause
  | .ok none => .ok []
  | .ok (some (entry, rest)) =>
    match readEntries rest with
    | .error cause => .error cause
    | .ok entries => .ok (entry :: entries)
termination_by data.length
decreasing_by exact readEntry_length codec _found

def readSegment (data : Bytes) : Except Error (List WalEntry) :=
  match readExact data WalHeader.size with
  | .error cause => .error cause
  | .ok (headerData, rest) =>
    match WalHeader.decode headerData with
    | .error cause => .error cause
    | .ok _ => readEntries codec rest

/-- The segment numbers of a directory, sorted. -/
def listSegments (contents : LogContents) : List ℕ :=
  contents.numbers

def readSegmentFile (contents : LogContents) (segment : ℕ) :
    Except Error (List WalEntry) :=
  match contents.lookup segment with
  | none => .error (.io .notFound)
  | some data => readSegment codec data

/-- The entries of some segments; the first failing segment ends the read. -/
def readSegments (contents : LogContents) :
    List ℕ → Except Error (List WalEntry)
  | [] => .ok []
  | segment :: rest =>
    match readSegmentFile codec contents segment with
    | .error cause => .error cause
    | .ok segmentEntries =>
      match readSegments contents rest with
      | .error cause => .error cause
      | .ok entries => .ok (segmentEntries ++ entries)

def readAll (contents : LogContents) : Except Error (List WalEntry) :=
  readSegments codec contents (listSegments contents)

/-!
## Reading back what the writer wrote
-/

@[simp] theorem readExact_append
    {read rest : Bytes} (exact : read.length = count) :
    readExact (read ++ rest) count = .ok (read, rest) := by
  subst exact
  simp [readExact]

theorem readExact_short (short : data.length < count) :
    readExact data count = .error (.io .unexpectedEof) := by
  rw [readExact, if_pos short]

theorem readEntries_of_break (breaks : readEntry codec data = .ok none) :
    readEntries codec data = .ok [] := by
  rw [readEntries]
  split <;> simp_all

theorem readEntries_of_error
    {cause : Error} (fails : readEntry codec data = .error cause) :
    readEntries codec data = .error cause := by
  rw [readEntries]
  split <;> simp_all

theorem readEntries_of_entry {data rest : Bytes} {entry : WalEntry}
    (reads : readEntry codec data = .ok (some (entry, rest))) :
    readEntries codec data =
      match readEntries codec rest with
      | .error cause => .error cause
      | .ok entries => .ok (entry :: entries) := by
  rw [readEntries]
  split <;> simp_all

theorem readEntry_frame (frame : Frame) (rest : Bytes) :
    readEntry codec
        (leBytes 8 frame.sequence.toNat ++ (frame.entry.header codec ++ rest)) =
      readBody codec (frame.entry.header codec) rest := by
  simp [readEntry]

theorem readBody_header (entry : WalEntry) (data : Bytes) :
    readBody codec (entry.header codec) data =
      match readExact data (entry.recordedLength codec) with
      | .error cause => .error cause
      | .ok (entryData, rest) =>
        match decode codec (entry.header codec ++ entryData) with
        | .ok entry => .ok (some (entry, rest))
        | .error _ => .ok none := by
  have recorded :
      leValue (slice (entry.header codec) 8 12) =
        entry.recordedLength codec := by
    simpa using length_field codec entry []
  rw [readBody, recorded]

theorem readEntry_recordable
    (recordable : frame.entry.Recordable codec) (rest : Bytes) :
    readEntry codec (frame.bytes codec ++ rest) =
      .ok (some (frame.entry, rest)) := by
  have recorded :
      (frame.entry.body codec).length = frame.entry.recordedLength codec :=
    (recordedLength_of_recordable codec recordable).symm
  have decoded := decode_encode codec recordable
  rw [encode] at decoded
  rw [Frame.bytes, encode, append_assoc, append_assoc,
    readEntry_frame, readBody_header, readExact_append recorded]
  simp only [decoded]

/--
A frame with an oversized entry ends the loop once the recorded part of its
body is there.
-/
theorem readEntry_oversized (oversized : ¬ frame.entry.Recordable codec)
    (startsWith :
      (frame.entry.body codec).take
          (frame.entry.recordedLength codec) <+: data) :
    readEntry codec
        (leBytes 8 frame.sequence.toNat ++ (frame.entry.header codec ++ data)) =
      .ok none := by
  obtain ⟨rest, rfl⟩ := startsWith
  have short := recordedLength_lt codec oversized
  have recorded :
      ((frame.entry.body codec).take
          (frame.entry.recordedLength codec)).length =
        frame.entry.recordedLength codec := by
    rw [length_take]
    omega
  obtain ⟨cause, rejected⟩ := decode_oversized codec oversized
  rw [readEntry_frame, readBody_header, readExact_append recorded]
  simp only [rejected]

theorem readEntry_frame_oversized
    (oversized : ¬ frame.entry.Recordable codec) (rest : Bytes) :
    readEntry codec (frame.bytes codec ++ rest) = .ok none := by
  rw [Frame.bytes, encode, append_assoc, append_assoc]
  exact readEntry_oversized codec oversized
    ((List.take_prefix _ _).trans (prefix_append _ rest))

/-- The entries of frames in front of the first oversized one. -/
def readable (frames : List Frame) : List WalEntry :=
  (frames.map Frame.entry).takeWhile fun entry => entry.Recordable codec

theorem readable_prefix (frames : List Frame) :
    readable codec frames <+: frames.map Frame.entry :=
  takeWhile_prefix _

theorem readable_eq_iff (frames : List Frame) :
    readable codec frames = frames.map Frame.entry ↔
      ∀ frame ∈ frames, frame.entry.Recordable codec := by
  simp [readable, takeWhile_eq_self_iff]

theorem readEntries_frames (frames : List Frame) (rest : Bytes) :
    readEntries codec (SegmentFile.framesBytes codec frames ++ rest) =
      if ∀ frame ∈ frames, frame.entry.Recordable codec then
        (readEntries codec rest).map (frames.map Frame.entry ++ ·)
      else
        .ok (readable codec frames) := by
  induction frames with
  | nil =>
    cases read : readEntries codec rest <;>
      simp [read, Except.map]
  | cons frame frames inductionHypothesis =>
    rw [SegmentFile.framesBytes_cons, append_assoc]
    by_cases recordable : frame.entry.Recordable codec
    · rw [readEntries_of_entry codec
        (readEntry_recordable codec recordable _), inductionHypothesis]
      by_cases othersRecordable : ∀ other ∈ frames, other.entry.Recordable codec
      · have allRecordable :
            ∀ other ∈ frame :: frames, other.entry.Recordable codec :=
          forall_mem_cons.mpr ⟨recordable, othersRecordable⟩
        rw [if_pos othersRecordable, if_pos allRecordable]
        cases readEntries codec rest <;> rfl
      · have notAll :
            ¬ ∀ other ∈ frame :: frames, other.entry.Recordable codec :=
          fun all =>
            othersRecordable (forall_mem_cons.mp all).2
        rw [if_neg othersRecordable, if_neg notAll]
        simp [readable, recordable]
    · rw [readEntries_of_break codec
        (readEntry_frame_oversized codec recordable _)]
      have notAll : ¬ ∀ other ∈ frame :: frames, other.entry.Recordable codec :=
        fun all => recordable (forall_mem_cons.mp all).1
      rw [if_neg notAll]
      simp [readable, recordable]

@[simp] theorem readEntries_nil : readEntries codec [] = .ok [] :=
  readEntries_of_break codec (by simp [readEntry, readExact])

theorem readSegment_bytes
    {file : SegmentFile} (hasHeader : file.header.isSome) :
    readSegment codec (file.bytes codec) =
      .ok (readable codec file.frames) := by
  obtain ⟨header, isHeader⟩ := Option.isSome_iff_exists.mp hasHeader
  have read := readEntries_frames codec file.frames []
  rw [append_nil] at read
  rw [readSegment, SegmentFile.bytes, isHeader, Option.elim_some,
    readExact_append (WalHeader.length_encode header)]
  simp only [WalHeader.decode_encode, read]
  split
  · rename_i allRecordable
    simp [(readable_eq_iff codec file.frames).mpr allRecordable, Except.map]
  · rfl

end WalReader

end ChronoDB.Wal
