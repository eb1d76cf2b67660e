import ChronoDB.Columnstore.RoundTrip

namespace ChronoDB.Columnstore

open Library List

/-!
# Damaged block indexes

The reader of an index stops where the data ends and returns the entries it has.
A file that was cut is read as a shorter index, and only labels whose length
does not fit its field can make the reader fail.
-/

variable {json : Codec Error Labels} {entries : List SeriesIndexEntry}

/-!
## Cut entries
-/

/-- The bytes of an entry up to the end that the reader sees. -/
def SeriesIndexEntry.readLength
    (json : Codec Error Labels) (entry : SeriesIndexEntry) :
    ℕ :=
  28 + (json.encode entry.labels).length % 2 ^ 32

variable {entry : SeriesIndexEntry} {length : ℕ}

theorem length_indexEntryBytes_of_fit (fits : LabelsFit json entry.labels) :
    (indexEntryBytes json entry).length = entry.readLength json := by
  rw [length_indexEntryBytes, SeriesIndexEntry.readLength,
    Nat.mod_eq_of_lt fits]

/--
Some labels do not fit their length field, and the data goes on until the end
of them that the reader sees.  Those in front of them fit.
-/
def Refused
    (json : Codec Error Labels) (entries : List SeriesIndexEntry) (length : ℕ) :
    Prop :=
  ∃ before entry after,
    entries = before ++ entry :: after ∧
      (∀ earlier ∈ before, LabelsFit json earlier.labels) ∧
        ¬LabelsFit json entry.labels ∧
          (before.flatMap (indexEntryBytes json)).length +
              entry.readLength json ≤ length

theorem not_refused_nil (length : ℕ) : ¬Refused json [] length := by
  rintro ⟨before, entry, after, isSplit, _⟩
  exact append_ne_nil_of_right_ne_nil before (cons_ne_nil _ _) isSplit.symm

theorem refused_cons_iff :
    Refused json (entry :: entries) length ↔
      entry.readLength json ≤ length ∧
        (LabelsFit json entry.labels →
          Refused json entries (length - entry.readLength json)) := by
  constructor
  · rintro ⟨before, refused, after, isSplit, earlierFit, notFit, inside⟩
    cases before with
    | nil =>
      obtain ⟨rfl, rfl⟩ := List.cons.inj isSplit
      refine ⟨?_, fun fits => absurd fits notFit⟩
      simpa using inside
    | cons first before =>
      obtain ⟨rfl, rfl⟩ := List.cons.inj isSplit
      obtain ⟨firstFits, earlierFit⟩ := forall_mem_cons.mp earlierFit
      rw [flatMap_cons, length_append,
        length_indexEntryBytes_of_fit firstFits] at inside
      exact ⟨by omega, fun _ =>
        ⟨before, refused, after, rfl, earlierFit, notFit, by omega⟩⟩
  · rintro ⟨inside, later⟩
    by_cases fits : LabelsFit json entry.labels
    · obtain ⟨before, refused, after, rfl, earlierFit, notFit, laterInside⟩ :=
        later fits
      refine ⟨entry :: before, refused, after, rfl,
        forall_mem_cons.mpr ⟨fits, earlierFit⟩, notFit, ?_⟩
      rw [flatMap_cons, length_append, length_indexEntryBytes_of_fit fits]
      omega
    · exact ⟨[], entry, entries, rfl, forall_mem_nil _, fits,
        by simpa using inside⟩

theorem take_indexEntryHead_append
    (entry : SeriesIndexEntry) (rest : Bytes) (hasHead : 28 ≤ length) :
    (indexEntryBytes json entry ++ rest).take length =
      indexEntryHead json entry ++
        (json.encode entry.labels ++ rest).take (length - 28) := by
  rw [indexEntryBytes_eq, append_assoc, take_append,
    length_indexEntryHead, take_of_length_le]
  rw [length_indexEntryHead]
  exact hasHead

theorem readIndexEntries_of_short
    (count : ℕ) (numbersFit : entry.NumbersFit) (rest : Bytes)
    (short : length < entry.readLength json) :
    readIndexEntries json (count + 1)
        ((indexEntryBytes json entry ++ rest).take length) =
      .ok [] := by
  rw [SeriesIndexEntry.readLength] at short
  have atMost := Nat.mod_le (json.encode entry.labels).length (2 ^ 32)
  have long := length_indexEntryBytes json entry
  by_cases headMissing : length < 28
  · have few :
        ((indexEntryBytes json entry ++ rest).take length).length < 28 := by
      rw [length_take]
      omega
    rw [readIndexEntries]
    split <;> rfl
  · rw [take_indexEntryHead_append _ _ (Nat.le_of_not_lt headMissing),
      readIndexEntries_head json count numbersFit]
    refine if_pos ?_
    rw [length_take, length_append]
    omega

theorem take_indexEntryBytes_append
    (fits : LabelsFit json entry.labels) (rest : Bytes)
    (inside : entry.readLength json ≤ length) :
    (indexEntryBytes json entry ++ rest).take length =
      indexEntryBytes json entry ++
        rest.take (length - entry.readLength json) := by
  have whole := length_indexEntryBytes_of_fit fits
  rw [take_append, whole, take_of_length_le (by omega)]

theorem readIndexEntries_of_cut_not_fit
    (count : ℕ) (numbersFit : entry.NumbersFit)
    (tooLong : ¬LabelsFit json entry.labels) (rest : Bytes)
    (inside : entry.readLength json ≤ length) :
    ∃ cause,
      readIndexEntries json (count + 1)
          ((indexEntryBytes json entry ++ rest).take length) =
        .error cause := by
  rw [SeriesIndexEntry.readLength] at inside
  have long : 2 ^ 32 ≤ (json.encode entry.labels).length := not_lt.mp tooLong
  have shorter :
      (json.encode entry.labels).length % 2 ^ 32 <
        (json.encode entry.labels).length :=
    (Nat.mod_lt _ (by decide)).trans_le long
  obtain ⟨cause, rejects⟩ := json.decode_truncated entry.labels _ shorter
  refine ⟨cause, ?_⟩
  rw [take_indexEntryHead_append _ _ (by omega),
    readIndexEntries_head json count numbersFit]
  dsimp only
  rw [if_neg (by rw [length_take, length_append]; omega),
    take_take, min_eq_left (by omega),
    take_append_of_le_length shorter.le, rejects]

theorem readIndexEntries_eq_error_iff
    (numbersFit : ∀ entry ∈ entries, entry.NumbersFit) {count : ℕ}
    (enough : count ≤ entries.length) (length : ℕ) :
    (∃ cause,
        readIndexEntries json count
            ((entries.flatMap (indexEntryBytes json)).take length) =
          .error cause) ↔
      Refused json (entries.take count) length := by
  induction entries generalizing count length with
  | nil =>
    obtain rfl : count = 0 := by simpa using enough
    refine iff_of_false ?_ (not_refused_nil length)
    rintro ⟨cause, isError⟩
    cases isError
  | cons entry rest inductionHypothesis =>
    obtain ⟨firstFits, restFits⟩ := forall_mem_cons.mp numbersFit
    cases count with
    | zero =>
      refine iff_of_false ?_ (not_refused_nil length)
      rintro ⟨cause, isError⟩
      cases isError
    | succ count =>
      rw [flatMap_cons, take_succ_cons, refused_cons_iff]
      by_cases inside : entry.readLength json ≤ length
      · simp only [inside, true_and]
        by_cases fits : LabelsFit json entry.labels
        · have later :=
            inductionHypothesis restFits
              (Nat.le_of_succ_le_succ enough)
              (length - entry.readLength json)
          rw [take_indexEntryBytes_append fits _ inside,
            readIndexEntries_of_fit json count firstFits fits]
          simp only [fits, true_implies, ← later]
          cases readIndexEntries json count
              ((rest.flatMap (indexEntryBytes json)).take
                (length - entry.readLength json)) with
          | error cause => exact Iff.rfl
          | ok others =>
            refine iff_of_false ?_ ?_ <;>
              · rintro ⟨cause, isError⟩
                cases isError
        · exact iff_of_true
            (readIndexEntries_of_cut_not_fit count firstFits fits _ inside)
            fun isFit => absurd isFit fits
      · rw [readIndexEntries_of_short count firstFits _
          (Nat.lt_of_not_le inside)]
        refine iff_of_false ?_ fun refused => inside refused.1
        rintro ⟨cause, isError⟩
        cases isError

/-!
## Cut files
-/

theorem readIndex_of_take {reader : BlockReader}
    (isIndex :
      reader.dir.index = some ((buildIndex json entries).take length))
    (hasCount : 4 ≤ length) :
    reader.readIndex json =
      readIndexEntries json (entries.length % 2 ^ 32)
        ((entries.flatMap (indexEntryBytes json)).take (length - 4)) := by
  have isHead :
      (buildIndex json entries).take length =
        leBytes 4 entries.length ++
          (entries.flatMap (indexEntryBytes json)).take (length - 4) := by
    rw [buildIndex, take_append, length_leBytes, take_of_length_le]
    rw [length_leBytes]
    exact hasCount
  have countField :
      leValue (((buildIndex json entries).take length).take 4) =
        entries.length % 2 ^ 32 := by
    rw [isHead, take_left' (length_leBytes 4 _)]
    exact leValue_leBytes 4 _
  have notShort : ¬((buildIndex json entries).take length).length < 4 := by
    rw [isHead, length_append, length_leBytes]
    omega
  rw [BlockReader.readIndex, isIndex]
  dsimp only
  rw [if_neg notShort, countField, isHead, drop_left' (length_leBytes 4 _)]

/-- What an index of a file reads as: all its entries, or an error if cut. -/
def ReportsDamage
    (json : Codec Error Labels) (entries : List SeriesIndexEntry) (length : ℕ)
    (reader : BlockReader) :
    Prop :=
  if length < (buildIndex json entries).length then
    ∃ cause, reader.readIndex json = .error cause
  else
    reader.readIndex json = .ok entries

/--
The index of a cut file is an error only if the file still has the end that the
reader sees of labels that do not fit, among the entries that are counted; an
index with all its bytes is read back if its entries and their labels fit.
-/
theorem read_index_reports_damage_iff (json : Codec Error Labels)
    (entries : List SeriesIndexEntry)
    (numbersFit : ∀ entry ∈ entries, entry.NumbersFit) (length : ℕ)
    (reader : BlockReader)
    (isIndex :
      reader.dir.index = some ((buildIndex json entries).take length)) :
    ReportsDamage json entries length reader ↔
      if length < (buildIndex json entries).length then
        4 ≤ length ∧
          Refused json (entries.take (entries.length % 2 ^ 32)) (length - 4)
      else
        entries.length < 2 ^ 32 ∧
          ∀ entry ∈ entries, LabelsFit json entry.labels := by
  rw [ReportsDamage]
  split
  · rename_i isCut
    by_cases headMissing : length < 4
    · refine iff_of_false ?_ fun refused => by omega
      have short : ((buildIndex json entries).take length).length < 4 := by
        rw [length_take]
        omega
      rw [BlockReader.readIndex, isIndex]
      dsimp only
      rw [if_pos short]
      rintro ⟨cause, isError⟩
      cases isError
    · have hasCount := Nat.le_of_not_lt headMissing
      rw [readIndex_of_take isIndex hasCount,
        readIndexEntries_eq_error_iff numbersFit (Nat.mod_le _ _)]
      exact ⟨fun refused => ⟨hasCount, refused⟩, And.right⟩
  · rename_i isWhole
    rw [take_of_length_le (Nat.le_of_not_lt isWhole)] at isIndex
    rw [readIndex_buildIndex_eq_ok_iff json isIndex numbersFit]
    constructor
    · rintro ⟨isTaken, fit⟩
      have shorter := congrArg List.length isTaken
      rw [length_take] at shorter
      have fewer : entries.length < 2 ^ 32 := by omega
      rw [Nat.mod_eq_of_lt fewer, take_length] at fit
      exact ⟨fewer, fit⟩
    · rintro ⟨fewer, fit⟩
      rw [Nat.mod_eq_of_lt fewer, take_length]
      exact ⟨rfl, fit⟩

/-- Two series without labels, one behind the other. -/
def twoEntries : List SeriesIndexEntry :=
  [{ seriesId := 1, labels := [], offset := 0, count := 3 },
    { seriesId := 2, labels := [], offset := 3, count := 5 }]

/-- A reader of a block whose index lacks its end. -/
def cutReader (length : ℕ) : BlockReader where
  dir := {
    BlockDir.empty with
    index := some ((buildIndex labelsCodec twoEntries).take length)
  }
  metadata := {
    magic := blockMagic
    blockId := 1
    minTimestamp := 0
    maxTimestamp := 0
    totalSeries := 2
    totalSamples := 8
    compactionLevel := 0
  }

theorem whole_index_is_read :
    ReportsDamage labelsCodec twoEntries 64 (cutReader 64) := by
  have numbersFit : ∀ entry ∈ twoEntries, entry.NumbersFit := by
    simp [twoEntries, SeriesIndexEntry.NumbersFit]
  have bytes : (buildIndex labelsCodec twoEntries).length = 64 := by decide
  refine (read_index_reports_damage_iff labelsCodec twoEntries numbersFit 64
    (cutReader 64) rfl).mpr ?_
  rw [if_neg (by omega)]
  refine ⟨by decide, ?_⟩
  rw [twoEntries, forall_mem_cons, forall_mem_singleton]
  exact ⟨by rw [LabelsFit]; decide, by rw [LabelsFit]; decide⟩

/-- Without its last byte the index is read without its last series. -/
theorem cut_index_loses_series :
    63 < (buildIndex labelsCodec twoEntries).length ∧
      (cutReader 63).readIndex labelsCodec =
        .ok [{ seriesId := 1, labels := [], offset := 0, count := 3 }] ∧
        ¬ReportsDamage labelsCodec twoEntries 63 (cutReader 63) := by
  have bytes : (buildIndex labelsCodec twoEntries).length = 64 := by decide
  have isShorter :
      (cutReader 63).readIndex labelsCodec =
        .ok [{ seriesId := 1, labels := [], offset := 0, count := 3 }] := by
    decide
  refine ⟨by omega, isShorter, ?_⟩
  rw [ReportsDamage, if_pos (by omega), isShorter]
  rintro ⟨cause, isError⟩
  cases isError

end ChronoDB.Columnstore
