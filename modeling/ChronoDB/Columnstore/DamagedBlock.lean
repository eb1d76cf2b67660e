import ChronoDB.Columnstore.BlockTimestamps

namespace ChronoDB.Columnstore.BlockFormat

open Library Compression List BlockHeader

/-!
# Damaged blocks

A reader trusts the sizes and the flags that it finds.  It returns on the bytes
of a grammar only: on all others it reads past the end, cuts out of range or
overflows.
-/

def readBlock (data : Bytes) : Except Fault (List Timestamp) := do
  let reader ← BlockReader.new data
  reader.readTimestamps

/-- The reader returns a result or an error. -/
def ReadsSafely (data : Bytes) : Prop :=
  readBlock data ≠ .error .panic

/--
The data of a timestamp column is refused for its length, or consists of two
numbers and the codes of second differences whose exact sums fit.
-/
inductive SoundData : Bytes → Prop where
  | refused {data : Bytes} (short : data.length < 16) : SoundData data
  | decoded
      {first firstDelta : Int64}
      {deltas : List Int64}
      {buffer : Bytes}
      (secondFits : FitsInt64 (first.toInt + firstDelta.toInt))
      (codes : Codes deltas buffer)
      (sumsFit :
        SecondSumsFit (first.toInt + firstDelta.toInt) firstDelta.toInt
          deltas) :
      SoundData (putI64 first ++ (putI64 firstDelta ++ buffer))

/--
Columns from an offset on.  Those without timestamps are skipped, even past the
end of the data; the first one with timestamps is inside.  No end overflows.
-/
inductive SoundColumns : ℕ → Bytes → Prop where
  | missing (offset : ℕ) : SoundColumns offset []
  | skipped
      {offset : ℕ}
      {columnId : UInt32}
      {kind compression : UInt8}
      {uncompressedSize dataSize : UInt64}
      {rest : Bytes}
      (endFits : offset + 22 + dataSize.toNat < 2 ^ 64)
      (notTimestamps : kind ≠ 0)
      (sound :
        SoundColumns (offset + (22 + dataSize.toNat))
          (rest.drop dataSize.toNat)) :
      SoundColumns offset
        (columnHead columnId kind compression uncompressedSize dataSize ++ rest)
  | found
      {offset : ℕ}
      {columnId : UInt32}
      {compression : UInt8}
      {uncompressedSize dataSize : UInt64}
      {rest : Bytes}
      (endFits : offset + 22 + dataSize.toNat < 2 ^ 64)
      (inside : dataSize.toNat ≤ rest.length)
      (sound : SoundData (rest.take dataSize.toNat)) :
      SoundColumns offset
        (columnHead columnId 0 compression uncompressedSize dataSize ++ rest)

/-- The bytes are too few for a header, or sound columns follow it. -/
def SoundBlock (data : Bytes) : Prop :=
  data.length < size ∨
    SoundColumns size (data.drop size)

theorem takes_getHeader : Takes 48 BlockHeader.get :=
  takes_getU8.bind fun _ =>
    (takes_getU8.map _).bind fun _ =>
      (takes_getU8.map _).bind fun _ =>
        takes_getU8.bind fun _ =>
          takes_getU32.bind fun _ =>
            takes_getU32.bind fun _ =>
              takes_getI64.bind fun _ =>
                takes_getI64.bind fun _ =>
                  takes_getU64.bind fun _ =>
                    takes_getU64.bind fun _ =>
                      takes_getU32.bind fun _ => Takes.pure _

theorem BlockReader.new_cases (data : Bytes) :
    (data.length < size ∧
        new data = .error (.error (.invalidData "Block header too short"))) ∨
      size ≤ data.length ∧
        ∃ header, new data = .ok { data := data, header := header } := by
  by_cases short : data.length < size
  · refine .inl ⟨short, ?_⟩
    rw [new, decode, if_pos short]
    rfl
  · have enough := Nat.le_of_not_lt short
    rw [size] at enough
    obtain ⟨header, isHeader⟩ := takes_getHeader.enough data (by omega)
    refine .inr ⟨Nat.le_of_not_lt short, header, ?_⟩
    rw [new, decode, if_neg short, StateT.run'_eq, isHeader]
    rfl

theorem checked_ne_panic_iff {Result : Type} {computed : Option Result} :
    checked computed ≠ .error .panic ↔ ∃ result, computed = some result := by
  cases computed with
  | none =>
    refine iff_of_false (fun isOk => isOk rfl) ?_
    rintro ⟨_, isSome⟩
    cases isSome
  | some result =>
    exact iff_of_true (fun panics => by cases panics) ⟨result, rfl⟩

theorem exists_putI64 {buffer : Bytes} (enough : 8 ≤ buffer.length) :
    ∃ value rest, buffer = putI64 value ++ rest := by
  obtain ⟨value, isValue⟩ := takes_getI64.enough buffer enough
  exact ⟨value, _, eq_putI64_of_run isValue⟩

theorem soundData_put_iff {first firstDelta : Int64} {buffer : Bytes} :
    SoundData (putI64 first ++ (putI64 firstDelta ++ buffer)) ↔
      FitsInt64 (first.toInt + firstDelta.toInt) ∧
        ∃ deltas,
          Codes deltas buffer ∧
            SecondSumsFit (first.toInt + firstDelta.toInt) firstDelta.toInt
              deltas := by
  constructor
  · generalize isData :
      putI64 first ++ (putI64 firstDelta ++ buffer) = data
    rintro (short | @⟨other, otherDelta, deltas, codes, secondFits, isCodes,
      sumsFit⟩)
    · have wide := congrArg List.length isData
      simp only [length_append, length_putI64] at wide
      omega
    · have read := congrArg getI64.run isData
      rw [run_getI64_putI64, run_getI64_putI64] at read
      cases (Prod.mk.inj (Option.some.inj read)).1
      have readDelta :=
        congrArg getI64.run (Prod.mk.inj (Option.some.inj read)).2
      rw [run_getI64_putI64, run_getI64_putI64] at readDelta
      cases Option.some.inj readDelta
      exact ⟨secondFits, deltas, isCodes, sumsFit⟩
  · rintro ⟨secondFits, deltas, codes, sumsFit⟩
    exact .decoded secondFits codes sumsFit

theorem exists_decodeDeltas_iff (prevDelta last : Int64) (buffer : Bytes) :
    (∃ timestamps, decodeDeltas prevDelta last buffer = some timestamps) ↔
      ∃ deltas,
        Codes deltas buffer ∧
          SecondSumsFit last.toInt prevDelta.toInt deltas := by
  constructor
  · rintro ⟨timestamps, decoded⟩
    obtain ⟨deltas, codes, sumsFit, _⟩ := codes_of_decodeDeltas decoded
    exact ⟨deltas, codes, sumsFit⟩
  · rintro ⟨deltas, codes, sumsFit⟩
    obtain ⟨timestamps, decoded, _⟩ := codes.exists_decodeDeltas sumsFit
    exact ⟨timestamps, decoded⟩

theorem decodeTimestamps_ne_panic_iff (data : Bytes) :
    decodeTimestamps data ≠ .error .panic ↔ SoundData data := by
  by_cases short : data.length < 16
  · rw [decodeTimestamps, if_pos short]
    exact iff_of_true (fun panics => by cases panics) (.refused short)
  · have enough := Nat.le_of_not_lt short
    obtain ⟨first, others, rfl⟩ := @exists_putI64 data (by omega)
    rw [length_append, length_putI64] at enough
    obtain ⟨firstDelta, buffer, rfl⟩ := @exists_putI64 others (by omega)
    rw [soundData_put_iff, ← exists_plus_iff]
    cases isSecond : plus first firstDelta with
    | none =>
      refine iff_of_false (fun returns => returns ?_) ?_
      · rw [decodeTimestamps, if_neg short, decodeAll, run_getI64_putI64,
          Option.bind_some]
        dsimp only
        rw [run_getI64_putI64, Option.bind_some]
        dsimp only
        rw [isSecond]
        rfl
      · rintro ⟨⟨_, isSome⟩, _⟩
        cases isSome
    | some second =>
      rw [decodeTimestamps_put isSecond, checked_ne_panic_iff,
        and_iff_right ⟨second, rfl⟩, ← plus_eq_some_iff.mp isSecond,
        ← exists_decodeDeltas_iff]
      constructor
      · rintro ⟨_, isMapped⟩
        obtain ⟨later, isLater, _⟩ := Option.map_eq_some_iff.mp isMapped
        exact ⟨later, isLater⟩
      · rintro ⟨later, isLater⟩
        exact ⟨_, Option.map_eq_some_iff.mpr ⟨later, isLater, rfl⟩⟩

theorem ofUInt8_eq_timestamp_iff (kind : UInt8) :
    ColumnType.ofUInt8 kind = .timestamp ↔ kind = 0 := by
  rw [ColumnType.ofUInt8]
  split
  · next isZero =>
    exact iff_of_true rfl isZero
  · next notZero =>
    refine iff_of_false (fun isTimestamp => ?_) notZero
    repeat' split at isTimestamp
    all_goals cases isTimestamp

theorem exists_columnHead {buffer : Bytes} (enough : 22 ≤ buffer.length) :
    ∃ columnId kind compression uncompressedSize dataSize rest,
      buffer =
        columnHead columnId kind compression uncompressedSize dataSize ++
          rest := by
  obtain ⟨columnId, isId⟩ := takes_getU32.enough buffer (by omega)
  have afterId := eq_putU32_of_run isId
  match later : buffer.drop 4 with
  | kind :: compression :: others =>
    have lengths := congrArg List.length later
    simp only [length_drop, length_cons] at lengths
    obtain ⟨uncompressedSize, isSize⟩ := takes_getU64.enough others (by omega)
    obtain ⟨dataSize, isData⟩ :=
      takes_getU64.enough (others.drop 8) (by simp; omega)
    refine ⟨columnId, kind, compression, uncompressedSize, dataSize,
      (others.drop 8).drop 8, ?_⟩
    rw [columnHead, append_assoc, append_assoc, append_assoc,
      ← eq_putU64_of_run isData, ← eq_putU64_of_run isSize]
    rw [later] at afterId
    exact afterId
  | [] | [_] =>
    have lengths := congrArg List.length later
    simp only [length_drop, length_cons, length_nil] at lengths
    omega

theorem SoundColumns.findTimestamps_ne_panic
    {data buffer : Bytes} {offset : ℕ} (sound : SoundColumns offset buffer)
    (isBuffer : data.drop offset = buffer) :
    findTimestamps data offset ≠ .error .panic := by
  induction sound with
  | missing offset =>
    have atEnd : ¬offset < data.length :=
      Nat.not_lt.mpr (drop_eq_nil_iff.mp isBuffer)
    rw [findTimestamps, if_neg atEnd]
    exact fun panics => by cases panics
  | @skipped offset columnId kind compression uncompressedSize dataSize rest
      endFits notTimestamps sound inductionHypothesis =>
    rw [findTimestamps_columnHead isBuffer, if_neg (Nat.not_le.mpr endFits),
      if_neg (mt (ofUInt8_eq_timestamp_iff kind).mp notTimestamps)]
    refine inductionHypothesis ?_
    rw [← drop_drop, isBuffer, ← drop_drop, drop_left' length_columnHead]
  | found endFits inside sound =>
    rw [findTimestamps_columnHead isBuffer, if_neg (Nat.not_le.mpr endFits),
      if_pos ((ofUInt8_eq_timestamp_iff 0).mpr rfl),
      if_neg (Nat.not_lt.mpr inside)]
    exact (decodeTimestamps_ne_panic_iff _).mpr sound

theorem findTimestamps_short
    {data : Bytes} {offset : ℕ} (notEmpty : offset < data.length)
    (short : (data.drop offset).length < 22) :
    findTimestamps data offset = .error .panic := by
  rw [findTimestamps, if_pos notEmpty, StateT.run'_eq,
    takes_getColumn.short _ short]
  rfl

theorem soundColumns_of_findTimestamps {data : Bytes} {offset : ℕ}
    (returns : findTimestamps data offset ≠ .error .panic) :
    SoundColumns offset (data.drop offset) := by
  induction left : data.length - offset using Nat.strong_induction_on
    generalizing offset with
  | _ left inductionHypothesis =>
    by_cases notEmpty : offset < data.length
    · by_cases enough : 22 ≤ (data.drop offset).length
      · obtain ⟨columnId, kind, compression, uncompressedSize, dataSize, rest,
          isHead⟩ := exists_columnHead enough
        have lengths := congrArg List.length isHead
        rw [length_drop, length_append, length_columnHead] at lengths
        rw [findTimestamps_columnHead isHead] at returns
        rw [isHead]
        by_cases overflows : 2 ^ 64 ≤ offset + 22 + dataSize.toNat
        · rw [if_pos overflows] at returns
          exact (returns rfl).elim
        · rw [if_neg overflows] at returns
          have endFits := Nat.lt_of_not_le overflows
          by_cases isZero : kind = 0
          · subst isZero
            rw [if_pos ((ofUInt8_eq_timestamp_iff 0).mpr rfl)] at returns
            by_cases outside : rest.length < dataSize.toNat
            · rw [if_pos outside] at returns
              exact (returns rfl).elim
            · rw [if_neg outside] at returns
              exact .found endFits (Nat.le_of_not_lt outside)
                ((decodeTimestamps_ne_panic_iff _).mp returns)
          · rw [if_neg (mt (ofUInt8_eq_timestamp_iff kind).mp isZero)]
              at returns
            have sound := inductionHypothesis _ (by omega) returns rfl
            rw [← drop_drop, isHead, ← drop_drop,
              drop_left' length_columnHead] at sound
            exact .skipped endFits isZero sound
      · exact (returns (findTimestamps_short notEmpty
          (Nat.lt_of_not_le enough))).elim
    · rw [drop_eq_nil_of_le (Nat.le_of_not_lt notEmpty)]
      exact .missing offset

/-- A block is read without a panic exactly when it is sound. -/
theorem readsSafely_iff (data : Bytes) :
    ReadsSafely data ↔ SoundBlock data := by
  rw [ReadsSafely, readBlock, SoundBlock]
  obtain ⟨short, isError⟩ | ⟨enough, header, opened⟩ :=
    BlockReader.new_cases data
  · rw [isError]
    exact iff_of_true (fun panics => by cases panics) (.inl short)
  · rw [opened, or_iff_right (Nat.not_lt.mpr enough)]
    exact ⟨soundColumns_of_findTimestamps, fun sound =>
      sound.findTimestamps_ne_panic rfl⟩

/-- A header with one more byte is read past its end. -/
theorem byte_after_header_panics :
    ¬ReadsSafely (List.replicate 65 0) := by
  obtain ⟨short, _⟩ | ⟨_, header, opened⟩ :=
    BlockReader.new_cases (List.replicate 65 0)
  · exact absurd short (by decide)
  · have panics :
        findTimestamps (List.replicate 65 0) size = .error .panic :=
      findTimestamps_short (by decide) (by decide)
    rw [ReadsSafely, readBlock, opened, not_not]
    exact panics

end ChronoDB.Columnstore.BlockFormat
