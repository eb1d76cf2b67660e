import ChronoDB.Wal.Recovery

namespace ChronoDB.Wal

open Library List WalReader WalHeader SegmentFile

/-!
# Recovery after a torn tail

A crash leaves the last segment file cut off at some byte.  The frames that lie
completely in front of the cut are intact, and at most one frame is torn.  A
torn frame is harmless when the reader runs out of bytes inside its sequence
number, where it breaks out of its loop; everywhere behind that the reader
fails, and recovery drops the segment with all its intact frames.
-/

variable (codec : WalCodec)

/--
The intact frames among the first `kept` bytes of some frames, and the torn
frame behind them with the number of its bytes that are left.
-/
def cutFrames : List Frame → ℕ → List Frame × Option (Frame × ℕ)
  | [], _ => ([], none)
  | frame :: rest, kept =>
    if frame.size codec ≤ kept then
      let (intact, torn) := cutFrames rest (kept - frame.size codec)
      (frame :: intact, torn)
    else
      ([], some (frame, kept))

/-- The reader breaks out of its loop at this torn frame. -/
def HarmlessTear : Option (Frame × ℕ) → Prop
  | none => True
  | some (frame, kept) =>
    kept < 8 ∨ 8 + walEntryHeaderSize + frame.entry.recordedLength codec ≤ kept

instance (torn : Option (Frame × ℕ)) :
    Decidable (HarmlessTear codec torn) :=
  match torn with
  | none => inferInstanceAs (Decidable True)
  | some _ => inferInstanceAs (Decidable (_ ∨ _))

def tornBytes : Option (Frame × ℕ) → Bytes
  | none => []
  | some (frame, kept) => (frame.bytes codec).take kept

theorem take_framesBytes (frames : List Frame) (kept : ℕ) :
    (framesBytes codec frames).take kept =
      framesBytes codec (cutFrames codec frames kept).1 ++
        tornBytes codec (cutFrames codec frames kept).2 := by
  induction frames generalizing kept with
  | nil => simp [cutFrames, tornBytes]
  | cons frame rest inductionHypothesis =>
    rw [cutFrames, framesBytes_cons, take_append,
      Frame.length_bytes]
    split
    · rename_i fits
      rw [inductionHypothesis, take_of_length_le (by simpa using fits)]
      simp
    · rename_i torn
      have nothingMore : kept - frame.size codec = 0 := by omega
      simp [nothingMore, tornBytes]

variable {file : SegmentFile} {frames : List Frame} {kept : ℕ}

theorem torn_lt_size {kept left : ℕ} {frame : Frame}
    (torn : (cutFrames codec frames kept).2 = some (frame, left)) :
    left < frame.size codec := by
  induction frames generalizing kept with
  | nil => cases torn
  | cons first rest inductionHypothesis =>
    rw [cutFrames] at torn
    split at torn
    · exact inductionHypothesis torn
    · cases torn
      omega

/-- The reader fails on a torn frame exactly when the tear is not harmless. -/
theorem readEntry_torn {frame : Frame} (short : kept < frame.size codec) :
    readEntry codec ((frame.bytes codec).take kept) =
      if HarmlessTear codec (some (frame, kept)) then .ok none
      else .error (.io .unexpectedEof) := by
  have keptLength : ((frame.bytes codec).take kept).length = kept := by
    rw [length_take, Frame.length_bytes]
    omega
  by_cases inSequence : kept < 8
  · simp [readEntry, readExact_short, keptLength,
      inSequence, HarmlessTear]
  have sequenceKept :
      (frame.bytes codec).take kept =
        leBytes 8 frame.sequence.toNat ++
          (frame.entry.encode codec).take (kept - 8) := by
    rw [Frame.bytes, take_append, length_leBytes,
      take_of_length_le (by simp; omega)]
  rw [sequenceKept]
  by_cases inHeader : kept < 24
  · have shortHeader :
        ((frame.entry.encode codec).take (kept - 8)).length <
          walEntryHeaderSize := by
      rw [length_take, walEntryHeaderSize]
      omega
    have harmful : ¬ HarmlessTear codec (some (frame, kept)) := by
      simp only [HarmlessTear, walEntryHeaderSize]
      omega
    rw [if_neg harmful, readEntry,
      readExact_append (length_leBytes _ _)]
    simp [readExact_short shortHeader]
  have headerKept :
      (frame.entry.encode codec).take (kept - 8) =
        frame.entry.header codec ++
          (frame.entry.body codec).take (kept - 24) := by
    rw [WalEntry.encode, take_append, WalEntry.length_header,
      take_of_length_le (by
        rw [WalEntry.length_header, walEntryHeaderSize]
        omega),
      walEntryHeaderSize, Nat.sub_sub]
  have bodyLength :
      ((frame.entry.body codec).take (kept - 24)).length = kept - 24 := by
    rw [Frame.size, walEntryHeaderSize] at short
    rw [length_take]
    omega
  rw [headerKept]
  by_cases recorded : kept - 24 < frame.entry.recordedLength codec
  · have harmful : ¬ HarmlessTear codec (some (frame, kept)) := by
      simp only [HarmlessTear, walEntryHeaderSize]
      omega
    rw [if_neg harmful, readEntry_frame,
      readBody_header,
      readExact_short (by rw [bodyLength]; exact recorded)]
  · have oversized : ¬ frame.entry.Recordable codec := by
      intro recordable
      rw [WalEntry.recordedLength_of_recordable codec recordable] at recorded
      rw [Frame.size, walEntryHeaderSize] at short
      omega
    have harmless : HarmlessTear codec (some (frame, kept)) := by
      simp only [HarmlessTear, walEntryHeaderSize]
      omega
    rw [if_pos harmless]
    refine readEntry_oversized codec oversized ?_
    exact take_prefix_take_left (by omega)

theorem readEntries_torn :
    readEntries codec
        (tornBytes codec (cutFrames codec frames kept).2) =
      if HarmlessTear codec (cutFrames codec frames kept).2 then .ok []
      else .error (.io .unexpectedEof) := by
  cases torn : (cutFrames codec frames kept).2 with
  | none => simp [tornBytes, HarmlessTear]
  | some found =>
    obtain ⟨frame, left⟩ := found
    have read := readEntry_torn codec (torn_lt_size codec torn)
    rw [tornBytes]
    split
    · rename_i harmless
      rw [if_pos harmless] at read
      exact readEntries_of_break codec read
    · rename_i harmful
      rw [if_neg harmful] at read
      exact readEntries_of_error codec read

/-- The intact frames and the torn frame of a file cut to `cut` bytes. -/
def cutFile (file : SegmentFile) (cut : ℕ) :
    List Frame × Option (Frame × ℕ) :=
  if cut < size then
    ([], none)
  else
    cutFrames codec file.frames (cut - size)

theorem segmentEntries_cut (hasHeader : file.header.isSome) (cut : ℕ) :
    segmentEntries codec ((file.bytes codec).take cut) =
      if (∀ frame ∈ (cutFile codec file cut).1, frame.entry.Recordable codec) ∧
          ¬ HarmlessTear codec (cutFile codec file cut).2 then
        []
      else
        readable codec (cutFile codec file cut).1 := by
  obtain ⟨header, isHeader⟩ := Option.isSome_iff_exists.mp hasHeader
  rw [cutFile, segmentEntries, readSegment]
  by_cases inHeader : cut < size
  · have short :
        ((file.bytes codec).take cut).length < size := by
      rw [length_take]
      omega
    simp [readExact_short short, inHeader, readable]
  · have headerKept :
        (file.bytes codec).take cut =
          header.encode ++
            (framesBytes codec file.frames).take
              (cut - size) := by
      rw [bytes, isHeader, Option.elim_some, take_append,
        length_encode,
        take_of_length_le (by
          rw [length_encode]
          omega)]
    rw [if_neg inHeader, headerKept,
      readExact_append (length_encode header)]
    simp only [decode_encode]
    rw [take_framesBytes, readEntries_frames, readEntries_torn]
    by_cases recordable :
        ∀ frame ∈
          (cutFrames codec file.frames (cut - size)).1,
          frame.entry.Recordable codec
    · rw [if_pos recordable]
      by_cases harmless :
          HarmlessTear codec
            (cutFrames codec file.frames (cut - size)).2
      · rw [if_pos harmless, if_neg (fun both => both.2 harmless),
          (readable_eq_iff codec _).mpr recordable]
        simp [Except.map]
      · rw [if_neg harmless, if_pos ⟨recordable, harmless⟩]
        rfl
    · rw [if_neg recordable, if_neg (fun both => recordable both.1)]

theorem segmentEntries_cut_sublist (hasHeader : file.header.isSome) (cut : ℕ) :
    (segmentEntries codec ((file.bytes codec).take cut)).Sublist
      ((cutFile codec file cut).1.map Frame.entry) := by
  rw [segmentEntries_cut codec hasHeader]
  split
  · exact nil_sublist _
  · exact ( readable_prefix codec _).sublist

theorem segmentEntries_cut_eq_iff (hasHeader : file.header.isSome) (cut : ℕ) :
    segmentEntries codec ((file.bytes codec).take cut) =
        (cutFile codec file cut).1.map Frame.entry ↔
      (∀ frame ∈ (cutFile codec file cut).1, frame.entry.Recordable codec) ∧
        ((cutFile codec file cut).1 = [] ∨
          HarmlessTear codec (cutFile codec file cut).2) := by
  have readAll := readable_eq_iff codec (cutFile codec file cut).1
  rw [segmentEntries_cut codec hasHeader]
  split
  · rename_i failed
    obtain ⟨recordable, harmful⟩ := failed
    constructor
    · intro nothing
      have noneIntact := map_eq_nil_iff.mp nothing.symm
      exact ⟨recordable, .inl noneIntact⟩
    · rintro ⟨_, noneIntact | harmless⟩
      · rw [noneIntact]
        rfl
      · exact absurd harmless harmful
  · rename_i notFailed
    rw [readAll]
    constructor
    · intro recordable
      refine ⟨recordable, .inr ?_⟩
      by_contra harmful
      exact notFailed ⟨recordable, harmful⟩
    · exact And.left

theorem isPrefix_cutFrames (frames : List Frame) (kept : ℕ) :
    (cutFrames codec frames kept).1 <+: frames := by
  induction frames generalizing kept with
  | nil => exact nil_prefix
  | cons frame rest inductionHypothesis =>
    rw [cutFrames]
    split
    · exact prefix_cons_inj frame |>.mpr (inductionHypothesis _)
    · exact nil_prefix

theorem length_cutFrames_lt
    (cut : kept < (framesBytes codec frames).length) :
    (cutFrames codec frames kept).1.length < frames.length := by
  induction frames generalizing kept with
  | nil => simp at cut
  | cons frame rest inductionHypothesis =>
    rw [framesBytes_cons, length_append, Frame.length_bytes] at cut
    rw [cutFrames]
    split
    · have shorter := inductionHypothesis
        (show kept - frame.size codec < _ by omega)
      simpa using shorter
    · simp

theorem readSegment_take_sublist
    (hasHeader : file.header.isSome) {cut : ℕ} {part : List WalEntry}
    (read :
      readSegment codec ((file.bytes codec).take cut) = .ok part) :
    part.Sublist (file.frames.map Frame.entry) := by
  have intact := segmentEntries_cut_sublist codec hasHeader cut
  rw [segmentEntries, read, cutFile] at intact
  refine intact.trans (List.Sublist.map _ ?_)
  split
  · exact nil_sublist _
  · exact (isPrefix_cutFrames codec _ _).sublist

/--
A file is read completely exactly when no byte is missing at its end and none of
its entries is oversized.
-/
theorem readSegment_missing_iff (hasHeader : file.header.isSome) (missing : ℕ) :
    readSegment codec
        ((file.bytes codec).take ((file.bytes codec).length - missing)) =
        .ok (file.frames.map Frame.entry) ↔
      missing = 0 ∧ ∀ frame ∈ file.frames, frame.entry.Recordable codec := by
  obtain ⟨header, isHeader⟩ := Option.isSome_iff_exists.mp hasHeader
  by_cases whole : missing = 0
  · subst whole
    rw [Nat.sub_zero, take_length, readSegment_bytes codec hasHeader,
      Except.ok.injEq, readable_eq_iff]
    simp
  · have lengthEq :
        (file.bytes codec).length =
          size +
            (framesBytes codec file.frames).length := by
      rw [bytes, isHeader, Option.elim_some,
        length_append, length_encode]
    refine iff_of_false ?_ (fun complete => whole complete.1)
    intro read
    generalize cutIs : (file.bytes codec).length - missing = cut at read
    by_cases inHeader : cut < size
    · have short :
          ((file.bytes codec).take cut).length < size := by
        rw [length_take]
        omega
      rw [readSegment, readExact_short short] at read
      cases read
    · have intact := segmentEntries_cut_sublist codec hasHeader cut
      rw [segmentEntries, read, cutFile, if_neg inHeader] at intact
      have torn : cut - size <
          (framesBytes codec file.frames).length := by
        rw [size] at *
        omega
      have fewer := length_cutFrames_lt codec torn
      have lengths := intact.length_le
      rw [length_map, length_map] at lengths
      omega

/-!
## Crashes of a log
-/

/-- The directory after a crash that cut the last segment file. -/
def crash (state : WalState) (cut : ℕ) : LogContents :=
  let contents := state.dir.contents codec
  match contents.lookup state.writer.currentSegment with
  | some data => contents.insert state.writer.currentSegment (data.take cut)
  | none => contents

/-- The intact frames and the torn frame of the last segment file. -/
def lastCut (state : WalState) (cut : ℕ) :
    List Frame × Option (Frame × ℕ) :=
  match state.dir.lookup state.writer.currentSegment with
  | some file => cutFile codec file cut
  | none => ([], none)

/--
The frames of the earlier segments, and those of the last segment that lie
completely in front of the cut.
-/
def survivingFrames (state : WalState) (cut : ℕ) : List Frame :=
  (NumberedMap.below state.dir state.writer.currentSegment).flatMap
      SegmentFile.frames ++
    (lastCut codec state cut).1

theorem recover_crash {state : WalState} (ready : state.Ready)
    (found :
      state.dir.lookup state.writer.currentSegment = some file)
    (cut : ℕ) :
    recover codec (crash codec state cut) =
      .ok (sortByKey WalEntry.sortKey
        ((NumberedMap.below state.dir state.writer.currentSegment).flatMap
            (fun earlier =>
              readable codec earlier.frames) ++
          segmentEntries codec ((file.bytes codec).take cut))) := by
  have foundBytes :
      (state.dir.contents codec).lookup state.writer.currentSegment =
        some (file.bytes codec) := by
    simp [SegmentDir.contents, found]
  have upTo :
      NumberedMap.UpTo (state.dir.contents codec) state.writer.currentSegment :=
    ready.wellFormed.upTo.mapValues _
  have crashed :
      crash codec state cut =
        (state.dir.contents codec).insert state.writer.currentSegment
          ((file.bytes codec).take cut) := by
    simp only [crash, foundBytes]
  rw [recover_eq, crashed, (upTo.insert_last _).inOrder_eq (AList.lookup_insert
    _), NumberedMap.below_insert le_rfl, flatMap_append, segmentEntries_below
    codec ready.wellFormed]
  simp

theorem recover_crash_perm_iff
    {state : WalState} (ready : state.Ready) (cut : ℕ) :
    (∃ entries,
        recover codec (crash codec state cut) = .ok entries ∧
          entries.Perm ((survivingFrames codec state cut).map Frame.entry)) ↔
      (∀ frame ∈ survivingFrames codec state cut,
          frame.entry.Recordable codec) ∧
        ((lastCut codec state cut).1 = [] ∨
          HarmlessTear codec (lastCut codec state cut).2) := by
  obtain ⟨file, found⟩ := ready.wellFormed.lookup_last
  have hasHeader := ready.wellFormed.hasHeader _ file found
  have sameCut : lastCut codec state cut = cutFile codec file cut := by
    simp only [lastCut, found]
  have earlierPart :=
    readable_sublist codec
      (NumberedMap.below state.dir state.writer.currentSegment)
  have lastPart := segmentEntries_cut_sublist codec hasHeader cut
  rw [recover_crash codec ready found, survivingFrames, sameCut,
    map_append, forall_mem_append]
  have whole := append_eq_append_of_sublist earlierPart lastPart
  rw [readable_files_iff, segmentEntries_cut_eq_iff codec hasHeader] at whole
  rw [and_assoc, ← whole]
  constructor
  · rintro ⟨entries, recovered, permuted⟩
    cases recovered
    have lengths := permuted.length_eq
    rw [length_sortByKey] at lengths
    exact (earlierPart.append lastPart).eq_of_length lengths
  · intro complete
    refine ⟨_, rfl, ?_⟩
    rw [complete]
    exact sortByKey_perm WalEntry.sortKey _

variable {codec}

/--
After a crash at any byte, recovery returns exactly the complete frames if and
only if none of them is oversized and the cut does not fall, behind a complete
frame of the same segment, between the sequence number of the torn frame and the
end of its recorded body.
-/
theorem recover_after_crash_iff {config : WalSegmentConfig}
    {created : ℕ → UInt64} {millis : Timestamp} {operations : List WalOperation}
    {final : WalState}
    (run :
      Run (WalStep codec)
        (WalState.initial codec config created millis) operations final)
    (cut : ℕ) :
    (∃ entries,
        recover codec (crash codec final cut) = .ok entries ∧
          entries.Perm ((survivingFrames codec final cut).map Frame.entry)) ↔
      (∀ frame ∈ survivingFrames codec final cut,
          frame.entry.Recordable codec) ∧
        ((lastCut codec final cut).1 = [] ∨
          HarmlessTear codec (lastCut codec final cut).2) :=
  recover_crash_perm_iff codec
    (ready_of_run run (WalState.Ready.initial codec config created millis)) cut

/-!
A log of two entries has a segment header of 20 bytes, a first frame of 180
bytes that ends at byte 200, and a second frame whose sequence number ends at
byte 208.
-/

def twoEntryLog : WalState :=
  (freshLog.appendEntry jsonCodec Json.writeEntry).appendEntry
    jsonCodec Json.deleteEntry

theorem twoEntryLog_run :
    Run (WalStep jsonCodec) freshLog
      [
        logWrite Json.seriesId Json.labels Json.samples 2000 1 ⟨1, 2000⟩,
        logDelete Json.seriesId 1999 2 ⟨2, 1999⟩
      ]
      twoEntryLog :=
  .cons (WalStep.write_of_stays (by decide +kernel) _)
    (.single (WalStep.write_of_stays (by decide +kernel) _))

theorem twoEntryLog_file :
    twoEntryLog.dir.lookup twoEntryLog.writer.currentSegment =
      some {
        header := some { sequence := 0, createdAt := 1000 }
        frames := [
          { sequence := 0, entry := Json.writeEntry },
          { sequence := 1, entry := Json.deleteEntry }
        ]
      } :=
  rfl

theorem lastCut_twoEntryLog
    {cut : ℕ} (behindFirst : 200 ≤ cut) (beforeEnd : cut < 324) :
    lastCut jsonCodec twoEntryLog cut =
      ([{ sequence := 0, entry := Json.writeEntry }],
        some ({ sequence := 1, entry := Json.deleteEntry }, cut - 200)) := by
  have writeLength : (stringBytes Json.writeText).length = 156 := by
    decide +kernel
  have deleteLength : (stringBytes Json.deleteText).length = 100 := by
    decide +kernel
  have behindHeader : ¬ cut < 20 := by omega
  have firstFits : 180 ≤ cut - 20 := by omega
  have secondTorn : ¬ 124 ≤ cut - 200 := by omega
  simp only [lastCut, twoEntryLog_file, cutFile, cutFrames, Frame.size,
    Json.body_writeEntry, Json.body_deleteEntry, writeLength, deleteLength,
    size, walEntryHeaderSize, behindHeader, ↓reduceIte,
    Nat.reduceAdd, firstFits, secondTorn, Nat.sub_sub]

/-- A crash inside a sequence number loses only the torn frame. -/
theorem recover_after_crash_in_sequence :
    ∃ entries,
      recover jsonCodec (crash jsonCodec twoEntryLog 204) = .ok entries ∧
        entries.Perm
          ((survivingFrames jsonCodec twoEntryLog 204).map Frame.entry) := by
  refine (recover_after_crash_iff twoEntryLog_run 204).mpr ⟨?_, .inr ?_⟩
  · have surviving :
        survivingFrames jsonCodec twoEntryLog 204 =
          [{ sequence := 0, entry := Json.writeEntry }] := by
      rw [survivingFrames, lastCut_twoEntryLog (by decide) (by decide)]
      rfl
    simp [surviving, Json.recordable_writeEntry]
  · rw [lastCut_twoEntryLog (by decide) (by decide)]
    exact .inl (by decide)

/--
A crash inside the entry header of the second frame loses the complete first
frame as well.
-/
theorem recover_after_crash_loses_complete_frame :
    ¬ ∃ entries,
      recover jsonCodec (crash jsonCodec twoEntryLog 209) = .ok entries ∧
        entries.Perm
          ((survivingFrames jsonCodec twoEntryLog 209).map Frame.entry) := by
  have ready := ready_of_run twoEntryLog_run ready_freshLog
  have recorded : (stringBytes Json.deleteText).length % 2 ^ 32 = 100 := by
    decide +kernel
  rw [recover_crash_perm_iff jsonCodec ready,
    lastCut_twoEntryLog (by decide) (by decide)]
  rintro ⟨_, noneIntact | inSequence | behindBody⟩
  · cases noneIntact
  · exact absurd inSequence (by decide)
  · rw [WalEntry.recordedLength, Json.body_deleteEntry, recorded,
      walEntryHeaderSize] at behindBody
    exact absurd behindBody (by decide)

end ChronoDB.Wal
