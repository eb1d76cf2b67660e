import ChronoDB.Compression.DeltaLossless
import ChronoDB.Library.OrderStatistics
import ChronoDB.Memstore.ChunkVectors

namespace ChronoDB.Memstore

open Library Compression List ChunkVectors DeltaOfDeltaDecoder

/-!
# Chunk encoding

An encoder writes the timestamps of a chunk as second differences and the bits
of its values as differences.  It goes on from the chunk before, while a decoder
starts anew, and it refuses values whose bits are too far apart.
-/

structure EncodedChunk where
  timeData : Bytes
  valueData : Bytes
  minTimestamp : Timestamp
  maxTimestamp : Timestamp
  count : ℕ
  deriving Repr, DecidableEq

structure ChunkEncoder where
  timeEncoder : DeltaOfDeltaEncoder
  valueEncoder : DeltaEncoder
  deriving Repr, DecidableEq

namespace ChunkEncoder

def new : ChunkEncoder where
  timeEncoder := DeltaOfDeltaEncoder.new
  valueEncoder := DeltaEncoder.new

/-- The result for a chunk of values given by their bits, and the encoder after. -/
def encode (encoder : ChunkEncoder) (chunk : ChunkVectors UInt64) :
    Except Error EncodedChunk × ChunkEncoder :=
  let times :=
    batchInPlace DeltaOfDeltaEncoder.encode encoder.timeEncoder chunk.timestamps
  let values :=
    batchInPlace DeltaEncoder.encode encoder.valueEncoder
      (chunk.values.map UInt64.toInt64)
  match times.1 with
  | .error cause => (.error cause, { encoder with timeEncoder := times.2 })
  | .ok timeData =>
    (values.1.map fun valueData => {
        timeData := timeData
        valueData := valueData
        minTimestamp := chunk.minTimestamp
        maxTimestamp := chunk.maxTimestamp
        count := chunk.timestamps.length
      },
      {
        timeEncoder := times.2
        valueEncoder := values.2
      })

/-- The results for several chunks, encoded one after the other. -/
def encodeAll (encoder : ChunkEncoder) :
    List (ChunkVectors UInt64) → List (Except Error EncodedChunk)
  | [] => []
  | chunk :: rest =>
    (encoder.encode chunk).1 :: encodeAll (encoder.encode chunk).2 rest

end ChunkEncoder

structure ChunkDecoder where
  timeDecoder : DeltaOfDeltaDecoder
  valueDecoder : DeltaDecoder
  deriving Repr, DecidableEq

namespace ChunkDecoder

def new : ChunkDecoder where
  timeDecoder := DeltaOfDeltaDecoder.new
  valueDecoder := DeltaDecoder.new

/-- The decoded vectors are added to a new chunk pair by pair. -/
def join (timestamps valuesBits : List Int64) :
    Except Error (ChunkVectors UInt64) :=
  if timestamps.length ≠ valuesBits.length then
    .error (.invalidData "Timestamp and value count mismatch")
  else
    .ok (collect (timestamps.zip (valuesBits.map Int64.toUInt64)))

/-- The chunk or the error, and the decoder after; none when a sum overflows. -/
def decode (decoder : ChunkDecoder) (encoded : EncodedChunk) :
    Option (Except Error (ChunkVectors UInt64) × ChunkDecoder) :=
  (decoder.timeDecoder.decode encoded.timeData).bind fun times =>
    match times.1 with
    | .error cause =>
      some (.error cause, { decoder with timeDecoder := times.2 })
    | .ok timestamps =>
      (decoder.valueDecoder.decode encoded.valueData).map fun values =>
        (values.1.bind (join timestamps),
          {
            timeDecoder := times.2
            valueDecoder := values.2
          })

end ChunkDecoder

/-- A chunk is encoded, and a fresh decoder gives its samples back. -/
def ComesBack (chunk : ChunkVectors UInt64)
    (result : Except Error EncodedChunk) : Prop :=
  ∃ encoded decoded after,
    result = .ok encoded ∧
      ChunkDecoder.new.decode encoded = some (.ok decoded, after) ∧
        decoded.samples = chunk.samples

/-- A chunk as calls of `add` build it, with timestamps between 0 and 2^62. -/
structure Regular (chunk : ChunkVectors UInt64) : Prop where
  paired : chunk.Paired
  sorted : (chunk.timestamps.map Int64.toInt).Pairwise (· ≤ ·)
  bounded : ∀ timestamp ∈ chunk.timestamps,
    0 ≤ timestamp.toInt ∧ timestamp.toInt ≤ 2 ^ 62

/-- The differences of neighbouring value bits fit 64 bits with a sign. -/
def ValuesFit (chunk : ChunkVectors UInt64) : Prop :=
  DeltaEncoder.DifferencesFit 0 (chunk.values.map UInt64.toInt64)

/-- A chunk after which an encoder is as if it were new. -/
def LeavesNothing (chunk : ChunkVectors UInt64) : Prop :=
  (∀ timestamp ∈ chunk.timestamps, timestamp = 0) ∧
    ∀ last ∈ chunk.values.getLast?, last = 0

/-!
## The state of an encoder
-/

namespace ChunkEncoder

def lastTimestamp (encoder : ChunkEncoder) : ℤ :=
  (encoder.timeEncoder.lastValue.getD 0).toInt

/-- The last difference of timestamps that it saw. -/
def lastDelta (encoder : ChunkEncoder) : ℤ :=
  (encoder.timeEncoder.lastDelta.getD 0).toInt

def lastBits (encoder : ChunkEncoder) : ℤ :=
  (encoder.valueEncoder.lastValue.getD 0).toInt

/-- The last difference is between zero and the last timestamp. -/
def Rising (encoder : ChunkEncoder) : Prop :=
  0 ≤ encoder.lastDelta ∧ encoder.lastDelta ≤ encoder.lastTimestamp

/-- The encoder behaves as a new one. -/
def Neutral (encoder : ChunkEncoder) : Prop :=
  encoder.lastTimestamp = 0 ∧ encoder.lastDelta = 0 ∧ encoder.lastBits = 0

end ChunkEncoder

theorem lastValue_of_valueBatch
    {encoder next : DeltaEncoder} {values : List Int64} {encoded : Bytes}
    (accepted :
      batchInPlace DeltaEncoder.encode encoder values = (.ok encoded, next)) :
    next.lastValue = values.getLast?.or encoder.lastValue := by
  induction values generalizing encoder encoded with
  | nil =>
    cases accepted
    rfl
  | cons value rest inductionHypothesis =>
    rw [batchInPlace] at accepted
    rcases encoder.encode_cases value with
      ⟨_, delta, isOk, _⟩ | ⟨_, cause, isError⟩
    · rw [isOk, Prod.mk.injEq] at accepted
      obtain ⟨isEncoded, isNext⟩ := accepted
      cases later :
          (batchInPlace DeltaEncoder.encode
            { lastValue := some value } rest).1 with
      | error cause =>
        rw [later] at isEncoded
        cases isEncoded
      | ok others =>
        rw [inductionHypothesis (Prod.ext later isNext)]
        cases rest with
        | nil => rfl
        | cons second more =>
          rw [getLast?_cons_cons]
          cases found : (second :: more).getLast? with
          | none =>
            exact absurd (getLast?_eq_none_iff.mp found)
              (cons_ne_nil second more)
          | some last => rfl
    · rw [isError] at accepted
      cases accepted

theorem state_of_timeBatch
    {encoder next : DeltaOfDeltaEncoder} {values : List Int64} {encoded : Bytes}
    (rises :
      0 ≤ (encoder.lastDelta.getD 0).toInt ∧
        (encoder.lastDelta.getD 0).toInt ≤ (encoder.lastValue.getD 0).toInt)
    (sorted :
      ((encoder.lastValue.getD 0).toInt :: values.map Int64.toInt).Pairwise
        (· ≤ ·))
    (accepted :
      batchInPlace DeltaOfDeltaEncoder.encode encoder values =
        (.ok encoded, next)) :
    (0 ≤ (next.lastDelta.getD 0).toInt ∧
        (next.lastDelta.getD 0).toInt ≤ (next.lastValue.getD 0).toInt) ∧
      ((next.lastValue.getD 0).toInt = 0 →
        (encoder.lastValue.getD 0).toInt = 0 ∧ ∀ value ∈ values, value = 0) := by
  induction values generalizing encoder encoded with
  | nil =>
    cases accepted
    exact ⟨rises, fun isZero =>
      ⟨isZero, fun _ isMember => absurd isMember not_mem_nil⟩⟩
  | cons value rest inductionHypothesis =>
    rw [batchInPlace] at accepted
    rcases encoder.encode_cases value with
      ⟨_, piece, delta, isOk, isDelta⟩ | ⟨_, cause, isError⟩
    · rw [isOk, Prod.mk.injEq] at accepted
      obtain ⟨isEncoded, isNext⟩ := accepted
      rw [map_cons, pairwise_cons] at sorted
      have notBefore := sorted.1 value.toInt mem_cons_self
      have stillRises : 0 ≤ delta.toInt ∧ delta.toInt ≤ value.toInt := by
        omega
      cases later :
          (batchInPlace DeltaOfDeltaEncoder.encode
            { lastValue := some value, lastDelta := some delta } rest).1 with
      | error cause =>
        rw [later] at isEncoded
        cases isEncoded
      | ok others =>
        obtain ⟨nextRises, zeros⟩ :=
          @inductionHypothesis
            { lastValue := some value, lastDelta := some delta } others
            stillRises sorted.2 (Prod.ext later isNext)
        refine ⟨nextRises, fun isZero => ?_⟩
        obtain ⟨valueZero, restZero⟩ := zeros isZero
        rw [Option.getD_some] at valueZero
        refine ⟨by omega, forall_mem_cons.mpr ⟨?_, restZero⟩⟩
        exact Int64.toInt_inj.mp (valueZero.trans Int64.toInt_zero.symm)
    · rw [isError] at accepted
      cases accepted

theorem lastValue_of_zeros
    {encoder next : DeltaOfDeltaEncoder} {values : List Int64} {encoded : Bytes}
    (zeros : ∀ value ∈ values, value = 0)
    (startsZero : (encoder.lastValue.getD 0).toInt = 0)
    (accepted :
      batchInPlace DeltaOfDeltaEncoder.encode encoder values =
        (.ok encoded, next)) :
    (next.lastValue.getD 0).toInt = 0 := by
  induction values generalizing encoder encoded with
  | nil =>
    cases accepted
    exact startsZero
  | cons value rest inductionHypothesis =>
    rw [batchInPlace] at accepted
    rw [forall_mem_cons] at zeros
    rcases encoder.encode_cases value with
      ⟨_, piece, delta, isOk, _⟩ | ⟨_, cause, isError⟩
    · rw [isOk, Prod.mk.injEq] at accepted
      obtain ⟨isEncoded, isNext⟩ := accepted
      cases later :
          (batchInPlace DeltaOfDeltaEncoder.encode
            { lastValue := some value, lastDelta := some delta } rest).1 with
      | error cause =>
        rw [later] at isEncoded
        cases isEncoded
      | ok others =>
        refine inductionHypothesis zeros.2 ?_ (Prod.ext later isNext)
        rw [Option.getD_some, zeros.1, Int64.toInt_zero]
    · rw [isError] at accepted
      cases accepted

/-!
## What a fresh decoder makes of the differences
-/

theorem timeMirrorsNext :
    MirrorsNext DeltaOfDeltaEncoder.encode advance
      fun encoder decoder =>
        decoder.lastValue.getD 0 = encoder.lastValue.getD 0 ∧
          decoder.lastDelta.getD 0 = encoder.lastDelta.getD 0 := by
  intro encoder decoder value encoded next mirrors accepted
  obtain ⟨delta, dod, rfl, rfl, isValue, isDelta⟩ :=
    DeltaOfDeltaEncoder.encode_eq_ok accepted
  rw [← mirrors.1] at isValue
  rw [← mirrors.2] at isDelta
  refine ⟨dod, { lastValue := some value, lastDelta := some delta }, rfl, ?_,
    rfl, rfl⟩
  rw [advance, addToLast_eq_some_iff.mpr isDelta,
    Option.bind_some, addToLast_eq_some_iff.mpr isValue]
  rfl

theorem valueMirrorsNext :
    MirrorsNext DeltaEncoder.encode DeltaDecoder.advance
      fun encoder decoder =>
        decoder.lastValue.getD 0 = encoder.lastValue.getD 0 := by
  intro encoder decoder value encoded next mirrors accepted
  rcases encoder.encode_cases value with
    ⟨_, delta, isOk, added⟩ | ⟨_, cause, isError⟩
  · rw [isOk] at accepted
    cases accepted
    rw [addToLast_eq_some_iff, ← mirrors, ← addToLast_eq_some_iff] at added
    refine ⟨delta, { lastValue := some value }, rfl, ?_, rfl⟩
    rw [DeltaDecoder.advance, added]
    rfl
  · rw [isError] at accepted
    cases accepted

theorem sums_of_timeAdvance
    {decoder after : DeltaOfDeltaDecoder} {dods values : List Int64}
    (advanced :
      advanceAll advance decoder dods =
        some (values, after)) :
    values.map Int64.toInt =
      summedTwice (decoder.lastValue.getD 0).toInt
        (decoder.lastDelta.getD 0).toInt (dods.map Int64.toInt) := by
  induction dods generalizing decoder values with
  | nil =>
    cases advanced
    rfl
  | cons dod rest inductionHypothesis =>
    rw [advanceAll, advance] at advanced
    cases foundDelta : addToLast decoder.lastDelta dod with
    | none =>
      rw [foundDelta] at advanced
      cases advanced
    | some delta =>
      rw [foundDelta, Option.bind_some] at advanced
      cases foundValue : addToLast decoder.lastValue delta with
      | none =>
        rw [foundValue] at advanced
        cases advanced
      | some value =>
        rw [foundValue] at advanced
        obtain ⟨later, isLater, same⟩ := Option.map_eq_some_iff.mp advanced
        cases same
        rw [map_cons, map_cons, summedTwice_cons, ← addToLast_eq_some_iff.mp
          foundDelta, ← addToLast_eq_some_iff.mp foundValue, inductionHypothesis
          isLater]
        rfl

theorem summedTwice_gap {value delta lower lowerDelta gap deltaGap : ℤ}
    (valueGap : lower + gap ≤ value)
    (isDeltaGap : lowerDelta + deltaGap ≤ delta) (nonneg : 0 ≤ deltaGap)
    {dods : List ℤ} {below : ℤ}
    (isBelow : below ∈ summedTwice lower lowerDelta dods) :
    ∃ above ∈ summedTwice value delta dods,
      below + (gap + deltaGap) ≤ above := by
  induction dods generalizing value delta lower lowerDelta gap with
  | nil => exact absurd isBelow not_mem_nil
  | cons dod rest inductionHypothesis =>
    rw [summedTwice_cons] at isBelow ⊢
    rcases mem_cons.mp isBelow with rfl | inRest
    · exact ⟨_, mem_cons_self, by omega⟩
    · obtain ⟨above, isAbove, apart⟩ :=
        @inductionHypothesis (value + (delta + dod)) (delta + dod)
          (lower + (lowerDelta + dod)) (lowerDelta + dod) (gap + deltaGap)
          (by omega) (by omega) inRest
      exact ⟨above, mem_cons_of_mem _ isAbove, by omega⟩

theorem differences_of_batch {Encoder Decoder : Type}
    {encode : Encoder → Int64 → Except Error (Bytes × Encoder)}
    {advance : Decoder → Int64 → Option (Int64 × Decoder)}
    {Mirrors : Encoder → Decoder → Prop}
    (mirrorsNext : MirrorsNext encode advance Mirrors) {encoder next : Encoder}
    {decoder : Decoder} (mirrors : Mirrors encoder decoder)
    {values : List Int64} {data : Bytes}
    (accepted :
      batchInPlace encode encoder values = (.ok data, next)) :
    ∃ differences after,
      data = differences.flatMap encodeVarint ∧
        advanceAll advance decoder differences = some (values, after) := by
  obtain ⟨pieces, isPieces, rfl⟩ := encodeEach_of_batch encode accepted
  obtain ⟨differences, after, rfl, advanced⟩ :=
    advanceAll_of_encodeEach encode advance mirrorsNext mirrors isPieces
  exact ⟨differences, after, flatMap_def.symm, advanced⟩

/-!
## One chunk
-/

theorem ChunkEncoder.encode_eq_ok
    {encoder next : ChunkEncoder} {chunk : ChunkVectors UInt64}
    {encoded : EncodedChunk}
    (accepted : encoder.encode chunk = (.ok encoded, next)) :
    batchInPlace DeltaOfDeltaEncoder.encode encoder.timeEncoder
        chunk.timestamps = (.ok encoded.timeData, next.timeEncoder) ∧
      batchInPlace DeltaEncoder.encode encoder.valueEncoder
          (chunk.values.map UInt64.toInt64) =
        (.ok encoded.valueData, next.valueEncoder) := by
  rw [ChunkEncoder.encode] at accepted
  cases times :
      (batchInPlace DeltaOfDeltaEncoder.encode encoder.timeEncoder
        chunk.timestamps).1 with
  | error cause => simp [times] at accepted
  | ok timeData =>
    cases values :
        (batchInPlace DeltaEncoder.encode encoder.valueEncoder
          (chunk.values.map UInt64.toInt64)).1 with
    | error cause => simp [times, values, Except.map] at accepted
    | ok valueData =>
      simp only [times, values, Except.map, Prod.mk.injEq,
        Except.ok.injEq] at accepted
      obtain ⟨rfl, rfl⟩ := accepted
      exact ⟨Prod.ext times rfl, Prod.ext values rfl⟩

theorem ChunkEncoder.exists_encode
    {encoder : ChunkEncoder} {chunk : ChunkVectors UInt64}
    {timeData valueData : Bytes}
    (times :
      (batchInPlace DeltaOfDeltaEncoder.encode encoder.timeEncoder
        chunk.timestamps).1 = .ok timeData)
    (values :
      (batchInPlace DeltaEncoder.encode encoder.valueEncoder
        (chunk.values.map UInt64.toInt64)).1 = .ok valueData) :
    ∃ encoded, (encoder.encode chunk).1 = .ok encoded := by
  rw [ChunkEncoder.encode, times, values]
  exact ⟨_, rfl⟩

theorem decode_differences {encoded : EncodedChunk} {dods deltas : List Int64}
    (isTimeData : encoded.timeData = dods.flatMap encodeVarint)
    (isValueData : encoded.valueData = deltas.flatMap encodeVarint)
    (decoded : ChunkVectors UInt64) :
    (∃ after,
      ChunkDecoder.new.decode encoded = some (.ok decoded, after)) ↔
      ∃ timestamps timesAfter bits valuesAfter,
        advanceAll advance .new dods =
            some (timestamps, timesAfter) ∧
          advanceAll DeltaDecoder.advance .new deltas =
              some (bits, valuesAfter) ∧
            timestamps.length = bits.length ∧
              collect
                (timestamps.zip (bits.map Int64.toUInt64)) = decoded := by
  rw [ChunkDecoder.decode, isTimeData, isValueData, ChunkDecoder.new,
    DeltaOfDeltaDecoder.decode, DeltaDecoder.decode,
    decodeLoop_flatMap_encodeVarint, decodeLoop_flatMap_encodeVarint]
  cases advanceAll advance .new dods with
  | none => simp
  | some times =>
    cases advanceAll DeltaDecoder.advance .new deltas with
    | none => simp
    | some values =>
      obtain ⟨timestamps, timesAfter⟩ := times
      obtain ⟨bits, valuesAfter⟩ := values
      by_cases sameLength : timestamps.length = bits.length
      · simp [ChunkDecoder.join, sameLength, Except.bind]
      · simp [ChunkDecoder.join, sameLength, Except.bind]

theorem samples_collect_of_sorted {added : List (Timestamp × UInt64)}
    (sorted : added.Pairwise (KeyLE timeKey)) :
    (collect added).samples = added := by
  have sorting := sorting_collect added
  exact eq_of_filter_eq timeKey sorting.sorted sorted
    sorting.stable

theorem comesBack_iff
    {encoder next : ChunkEncoder} {chunk : ChunkVectors UInt64}
    {encoded : EncodedChunk} {timeDecoder : DeltaOfDeltaDecoder}
    {valueDecoder : DeltaDecoder}
    (accepted : encoder.encode chunk = (.ok encoded, next))
    (timeMirrors :
      timeDecoder.lastValue.getD 0 = encoder.timeEncoder.lastValue.getD 0 ∧
        timeDecoder.lastDelta.getD 0 = encoder.timeEncoder.lastDelta.getD 0)
    (valueMirrors :
      valueDecoder.lastValue.getD 0 = encoder.valueEncoder.lastValue.getD 0) :
    ∃ dods deltas,
      (∃ after,
        advanceAll advance timeDecoder dods =
          some (chunk.timestamps, after)) ∧
        (∃ after,
          advanceAll DeltaDecoder.advance valueDecoder deltas =
            some (chunk.values.map UInt64.toInt64, after)) ∧
          (ComesBack chunk (encoder.encode chunk).1 ↔
            ∃ timestamps timesAfter bits valuesAfter,
              advanceAll advance .new dods =
                  some (timestamps, timesAfter) ∧
                advanceAll DeltaDecoder.advance .new deltas =
                    some (bits, valuesAfter) ∧
                  timestamps.length = bits.length ∧
                    (collect
                      (timestamps.zip (bits.map Int64.toUInt64))).samples =
                        chunk.samples) := by
  obtain ⟨timesOk, valuesOk⟩ := ChunkEncoder.encode_eq_ok accepted
  obtain ⟨dods, timesAfter, isTimeData, times⟩ :=
    differences_of_batch timeMirrorsNext timeMirrors timesOk
  obtain ⟨deltas, valuesAfter, isValueData, values⟩ :=
    differences_of_batch valueMirrorsNext valueMirrors valuesOk
  refine ⟨dods, deltas, ⟨timesAfter, times⟩, ⟨valuesAfter, values⟩, ?_⟩
  have decodes := decode_differences isTimeData isValueData
  rw [accepted, ComesBack]
  constructor
  · rintro ⟨other, decoded, after, same, isDecoded, sameSamples⟩
    cases same
    obtain ⟨timestamps, timesAfter, bits, valuesAfter, isTimes, isValues,
      sameLength, rfl⟩ := (decodes decoded).mp ⟨after, isDecoded⟩
    exact ⟨timestamps, timesAfter, bits, valuesAfter, isTimes, isValues,
      sameLength, sameSamples⟩
  · rintro ⟨timestamps, timesAfter, bits, valuesAfter, isTimes, isValues,
      sameLength, sameSamples⟩
    obtain ⟨after, isDecoded⟩ :=
      (decodes _).mpr ⟨timestamps, timesAfter, bits, valuesAfter, isTimes,
        isValues, sameLength, rfl⟩
    exact ⟨encoded, _, after, rfl, isDecoded, sameSamples⟩

section Regular

variable
  {encoder : ChunkEncoder}
  {chunk : ChunkVectors UInt64}

theorem lastBits_of_same
    {decoder after other : DeltaDecoder} {deltas values : List Int64}
    (nonempty : values ≠ [])
    (mirrored :
      advanceAll DeltaDecoder.advance decoder deltas = some (values, after))
    (fresh :
      advanceAll DeltaDecoder.advance .new deltas = some (values, other)) :
    (decoder.lastValue.getD 0).toInt = 0 := by
  cases deltas with
  | nil =>
    cases mirrored
    exact absurd rfl nonempty
  | cons delta rest =>
    rw [advanceAll, DeltaDecoder.advance] at mirrored fresh
    cases found : addToLast decoder.lastValue delta with
    | none =>
      rw [found] at mirrored
      cases mirrored
    | some value =>
      rw [found] at mirrored
      obtain ⟨later, _, same⟩ := Option.map_eq_some_iff.mp mirrored
      obtain ⟨others, _, alsoSame⟩ := Option.map_eq_some_iff.mp fresh
      have sameHead : value = delta := by
        rw [Prod.mk.injEq] at same alsoSame
        exact (List.cons.inj (same.1.trans alsoSame.1.symm)).1
      have exact := addToLast_eq_some_iff.mp found
      rw [sameHead] at exact
      omega

theorem noGaps_of_perm
    {dods timestamps freshTimestamps : List Int64} (rising : encoder.Rising)
    (nonempty : timestamps ≠ [])
    (sums :
      timestamps.map Int64.toInt =
        summedTwice encoder.lastTimestamp encoder.lastDelta
          (dods.map Int64.toInt))
    (freshSums :
      freshTimestamps.map Int64.toInt = summedTwice 0 0 (dods.map Int64.toInt))
    (permuted :
      (timestamps.map Int64.toInt).Perm (freshTimestamps.map Int64.toInt)) :
    encoder.lastTimestamp = 0 ∧ encoder.lastDelta = 0 := by
  obtain ⟨greatest, isGreatest, atMost⟩ :=
    exists_greatest (mt map_eq_nil_iff.mp nonempty :
      timestamps.map Int64.toInt ≠ [])
  obtain ⟨rises, bounded⟩ := rising
  have isDecoded := permuted.mem_iff.mp isGreatest
  rw [freshSums] at isDecoded
  obtain ⟨above, isAbove, apart⟩ :=
    @summedTwice_gap encoder.lastTimestamp encoder.lastDelta 0 0
      encoder.lastTimestamp encoder.lastDelta (by omega) (by omega) rises
      (dods.map Int64.toInt) greatest isDecoded
  have isTimestamp : above ∈ timestamps.map Int64.toInt := by
    rw [sums]
    exact isAbove
  have notAbove := atMost above isTimestamp
  omega

theorem bits_of_samples (regular : Regular chunk) {bits : List Int64}
    (sameLength : chunk.timestamps.length = bits.length)
    (sameSamples :
      (collect
          (chunk.timestamps.zip (bits.map Int64.toUInt64))).samples =
        chunk.samples) :
    bits = chunk.values.map UInt64.toInt64 := by
  have timesInside :
      chunk.timestamps.length ≤ (bits.map Int64.toUInt64).length := by
    rw [length_map]
    exact Nat.le_of_eq sameLength
  have sorted :
      (chunk.timestamps.zip (bits.map Int64.toUInt64)).Pairwise
        (KeyLE timeKey) := by
    have ascending := regular.sorted
    rw [← map_fst_zip timesInside, pairwise_map, pairwise_map] at ascending
    exact ascending
  rw [samples_collect_of_sorted sorted] at sameSamples
  have sameBits : bits.map Int64.toUInt64 = chunk.values := by
    rw [← regular.paired.vectors.2, ← sameSamples, map_snd_zip]
    rw [length_map]
    exact Nat.le_of_eq sameLength.symm
  rw [← sameBits, map_map]
  exact (map_id'' Int64.toInt64_toUInt64 bits).symm

theorem neutral_of_comesBack (regular : Regular chunk) (rising : encoder.Rising)
    (nonempty : chunk.timestamps ≠ [])
    (back : ComesBack chunk (encoder.encode chunk).1) :
    encoder.Neutral := by
  obtain ⟨encoded, _, _, isOk, _⟩ := id back
  let timeDecoder : DeltaOfDeltaDecoder :=
    ⟨encoder.timeEncoder.lastValue, encoder.timeEncoder.lastDelta⟩
  let valueDecoder : DeltaDecoder := ⟨encoder.valueEncoder.lastValue⟩
  obtain ⟨dods, deltas, ⟨_, mirrored⟩, ⟨_, mirroredValues⟩, backIff⟩ :=
    @comesBack_iff encoder (encoder.encode chunk).2 chunk encoded timeDecoder
      valueDecoder (Prod.ext isOk rfl) ⟨rfl, rfl⟩ rfl
  obtain ⟨timestamps, _, bits, _, fresh, freshValues, sameLength,
    sameSamples⟩ := backIff.mp back
  have sums := sums_of_timeAdvance mirrored
  have freshSums := sums_of_timeAdvance fresh
  have timesInside : timestamps.length ≤ (bits.map Int64.toUInt64).length := by
    rw [length_map]
    exact Nat.le_of_eq sameLength
  have permuted :
      (chunk.timestamps.map Int64.toInt).Perm (timestamps.map Int64.toInt) := by
    have joined := ((sorting_collect
      (timestamps.zip (bits.map Int64.toUInt64))).exactly.map Prod.fst)
    rw [sameSamples, regular.paired.vectors.1,
      map_fst_zip timesInside] at joined
    exact joined.map Int64.toInt
  have noGaps := noGaps_of_perm rising nonempty sums freshSums permuted
  refine ⟨noGaps.1, noGaps.2, ?_⟩
  have sameTimestamps : timestamps = chunk.timestamps := by
    refine map_injective_iff.mpr (fun _ _ same => Int64.toInt_inj.mp same) ?_
    rw [sums, freshSums]
    show summedTwice 0 0 _ =
      summedTwice encoder.lastTimestamp encoder.lastDelta _
    rw [noGaps.1, noGaps.2]
  subst sameTimestamps
  have isBits := bits_of_samples regular sameLength sameSamples
  refine lastBits_of_same ?_ mirroredValues (isBits ▸ freshValues)
  intro noValues
  rw [map_eq_nil_iff] at noValues
  have paired := regular.paired
  rw [ChunkVectors.Paired, noValues] at paired
  exact nonempty (eq_nil_of_length_eq_zero paired)

theorem timestampsFit {last delta : ℤ} {timestamps : List Int64}
    (rises : 0 ≤ delta ∧ delta ≤ last)
    (sorted : (last :: timestamps.map Int64.toInt).Pairwise (· ≤ ·))
    (bounded : ∀ timestamp ∈ timestamps, timestamp.toInt ≤ 2 ^ 62) :
    DifferencesFit last delta timestamps := by
  induction timestamps generalizing last delta with
  | nil => trivial
  | cons timestamp rest inductionHypothesis =>
    rw [map_cons, pairwise_cons] at sorted
    rw [forall_mem_cons] at bounded
    have notBefore := sorted.1 timestamp.toInt mem_cons_self
    have inRange := bounded.1
    refine ⟨⟨by omega, by omega⟩, ⟨by omega, by omega⟩, ?_⟩
    exact inductionHypothesis ⟨by omega, by omega⟩ sorted.2 bounded.2

theorem Regular.sorted_from_zero (regular : Regular chunk) :
    (0 :: chunk.timestamps.map Int64.toInt).Pairwise (· ≤ ·) := by
  refine pairwise_cons.mpr ⟨?_, regular.sorted⟩
  intro number isTimestamp
  obtain ⟨timestamp, isMember, rfl⟩ := mem_map.mp isTimestamp
  exact (regular.bounded timestamp isMember).1

theorem comesBack_iff_of_neutral
    (regular : Regular chunk) (neutral : encoder.Neutral) :
    ComesBack chunk (encoder.encode chunk).1 ↔ ValuesFit chunk := by
  obtain ⟨noTimestamp, noDelta, noBits⟩ := neutral
  have valuesIff :=
    (encoder.valueEncoder.batch_outcome (chunk.values.map UInt64.toInt64)).1
  have timesIff := (encoder.timeEncoder.batch_outcome chunk.timestamps).1
  change _ ↔ DeltaEncoder.DifferencesFit encoder.lastBits _ at valuesIff
  change _ ↔ DifferencesFit encoder.lastTimestamp encoder.lastDelta _
    at timesIff
  rw [noBits] at valuesIff
  rw [noTimestamp, noDelta] at timesIff
  rw [ValuesFit, ← valuesIff]
  constructor
  · rintro ⟨encoded, _, _, isOk, _⟩
    obtain ⟨_, valuesOk⟩ :=
      ChunkEncoder.encode_eq_ok
        (Prod.ext isOk rfl :
          encoder.encode chunk = (.ok encoded, (encoder.encode chunk).2))
    exact ⟨encoded.valueData, congrArg Prod.fst valuesOk⟩
  · rintro ⟨valueData, valuesOk⟩
    obtain ⟨timeData, timesOk⟩ :=
      timesIff.mpr (timestampsFit ⟨Int.le_refl 0, Int.le_refl 0⟩
        regular.sorted_from_zero
        fun timestamp isMember => (regular.bounded timestamp isMember).2)
    obtain ⟨encoded, isOk⟩ := ChunkEncoder.exists_encode timesOk valuesOk
    obtain ⟨dods, deltas, ⟨_, decodedTimes⟩, ⟨_, decodedValues⟩, backIff⟩ :=
      @comesBack_iff encoder (encoder.encode chunk).2 chunk encoded .new .new
        (Prod.ext isOk rfl)
        ⟨Int64.toInt_inj.mp noTimestamp.symm, Int64.toInt_inj.mp noDelta.symm⟩
        (Int64.toInt_inj.mp noBits.symm)
    have sameBits :
        (chunk.values.map UInt64.toInt64).map Int64.toUInt64 =
          chunk.values := by
      rw [map_map]
      exact map_id'' UInt64.toUInt64_toInt64 chunk.values
    refine backIff.mpr ⟨_, _, _, _, decodedTimes, decodedValues, ?_, ?_⟩
    · rw [length_map]
      exact regular.paired
    · rw [sameBits]
      refine samples_collect_of_sorted ?_
      have ascending := regular.sorted
      rw [← regular.paired.vectors.1, pairwise_map, pairwise_map] at ascending
      exact ascending

theorem state_of_encode
    {next : ChunkEncoder} {encoded : EncodedChunk} (regular : Regular chunk)
    (neutral : encoder.Neutral)
    (accepted : encoder.encode chunk = (.ok encoded, next)) :
    next.Rising ∧ (next.Neutral ↔ LeavesNothing chunk) := by
  obtain ⟨noTimestamp, noDelta, noBits⟩ := neutral
  obtain ⟨timesOk, valuesOk⟩ := ChunkEncoder.encode_eq_ok accepted
  have startsZero : (encoder.timeEncoder.lastValue.getD 0).toInt = 0 :=
    noTimestamp
  have startsDelta : (encoder.timeEncoder.lastDelta.getD 0).toInt = 0 := noDelta
  obtain ⟨rises, zeros⟩ :=
    state_of_timeBatch (by omega)
      (by rw [startsZero]; exact regular.sorted_from_zero) timesOk
  have isLast := lastValue_of_valueBatch valuesOk
  have bitsIff :
      next.lastBits = 0 ↔ ∀ last ∈ chunk.values.getLast?, last = 0 := by
    rw [ChunkEncoder.lastBits, isLast, getLast?_map]
    cases chunk.values.getLast? with
    | none =>
      exact iff_of_true noBits fun _ isLast => by cases isLast
    | some last =>
      rw [Option.map_some, Option.some_or, Option.getD_some,
        ← Int64.toInt_zero, Int64.toInt_inj]
      constructor
      · intro isZero other isLast
        cases isLast
        rw [← UInt64.toUInt64_toInt64 last, isZero]
        rfl
      · intro isZero
        rw [isZero last rfl]
        rfl
  refine ⟨rises, ?_⟩
  rw [ChunkEncoder.Neutral, bitsIff, LeavesNothing]
  constructor
  · rintro ⟨isZero, _, lastZero⟩
    exact ⟨(zeros isZero).2, lastZero⟩
  · rintro ⟨allZero, lastZero⟩
    have isZero := lastValue_of_zeros allZero startsZero timesOk
    refine ⟨isZero, ?_, lastZero⟩
    show (next.timeEncoder.lastDelta.getD 0).toInt = 0
    omega

theorem encode_of_empty
    (regular : Regular chunk) (empty : chunk.timestamps = []) :
    (encoder.encode chunk).2 = encoder ∧
      ComesBack chunk (encoder.encode chunk).1 := by
  have noValues : chunk.values = [] := by
    have paired := regular.paired
    rw [ChunkVectors.Paired, empty] at paired
    exact eq_nil_of_length_eq_zero paired.symm
  have isEncoded :
      encoder.encode chunk =
        (.ok ⟨[], [], chunk.minTimestamp, chunk.maxTimestamp, 0⟩, encoder) := by
    rw [ChunkEncoder.encode, empty, noValues]
    rfl
  rw [isEncoded]
  obtain ⟨after, isDecoded⟩ :=
    (@decode_differences
      ⟨[], [], chunk.minTimestamp, chunk.maxTimestamp, 0⟩ [] [] rfl rfl
      new).mpr ⟨[], _, [], _, rfl, rfl, rfl, rfl⟩
  refine ⟨rfl, _, new, after, rfl, isDecoded, ?_⟩
  rw [samples, samples, empty]
  rfl

end Regular

/-!
## Several chunks
-/

theorem comesBack_all_iff_of_used
    {encoder : ChunkEncoder} {chunks : List (ChunkVectors UInt64)}
    (regular : ∀ chunk ∈ chunks, Regular chunk) (rising : encoder.Rising)
    (used : ¬encoder.Neutral) :
    List.Forall₂ ComesBack chunks (encoder.encodeAll chunks) ↔
      ∀ chunk ∈ chunks, chunk.timestamps = [] := by
  induction chunks with
  | nil =>
    exact iff_of_true List.Forall₂.nil
      fun _ isMember => absurd isMember not_mem_nil
  | cons chunk rest inductionHypothesis =>
    rw [forall_mem_cons] at regular ⊢
    rw [ChunkEncoder.encodeAll, List.forall₂_cons]
    by_cases empty : chunk.timestamps = []
    · obtain ⟨same, back⟩ :=
        @encode_of_empty encoder chunk regular.1 empty
      rw [same, and_iff_right back, and_iff_right empty]
      exact inductionHypothesis regular.2
    · refine iff_of_false ?_ fun allEmpty => empty allEmpty.1
      rintro ⟨back, _⟩
      exact used (neutral_of_comesBack regular.1 rising empty back)

/--
After a neutral encoder all chunks come back exactly when the values of each fit
and only empty ones follow a chunk that leaves something behind.
-/
theorem comesBack_all_iff
    {encoder : ChunkEncoder} {chunks : List (ChunkVectors UInt64)}
    (regular : ∀ chunk ∈ chunks, Regular chunk) (neutral : encoder.Neutral) :
    List.Forall₂ ComesBack chunks (encoder.encodeAll chunks) ↔
      (∀ chunk ∈ chunks, ValuesFit chunk) ∧
        chunks.Pairwise fun earlier later =>
          later.timestamps ≠ [] → LeavesNothing earlier := by
  induction chunks generalizing encoder with
  | nil =>
    exact iff_of_true List.Forall₂.nil
      ⟨fun _ isMember => absurd isMember not_mem_nil, List.Pairwise.nil⟩
  | cons chunk rest inductionHypothesis =>
    rw [forall_mem_cons] at regular ⊢
    rw [ChunkEncoder.encodeAll, List.forall₂_cons, pairwise_cons,
      comesBack_iff_of_neutral regular.1 neutral, and_assoc]
    refine and_congr_right fun fits => ?_
    obtain ⟨encoded, _, _, isOk, _⟩ :=
      (comesBack_iff_of_neutral regular.1 neutral).mpr fits
    obtain ⟨rising, neutralIff⟩ :=
      state_of_encode regular.1 neutral
        (Prod.ext isOk rfl :
          encoder.encode chunk = (.ok encoded, (encoder.encode chunk).2))
    by_cases leavesNothing : LeavesNothing chunk
    · rw [inductionHypothesis regular.2 (neutralIff.mpr leavesNothing),
        and_iff_right
          (fun _ _ _ => leavesNothing :
            ∀ later ∈ rest, later.timestamps ≠ [] → LeavesNothing chunk)]
    · rw [comesBack_all_iff_of_used regular.2 rising
        (mt neutralIff.mp leavesNothing)]
      constructor
      · intro allEmpty
        refine ⟨?_, fun later isMember nonempty =>
          absurd (allEmpty later isMember) nonempty, ?_⟩
        · intro later isMember
          have noValues : later.values = [] := by
            have paired := (regular.2 later isMember).paired
            rw [ChunkVectors.Paired, allEmpty later isMember] at paired
            exact eq_nil_of_length_eq_zero paired.symm
          rw [ValuesFit, noValues]
          trivial
        · refine pairwise_of_forall_mem_list ?_
          intro _ _ later isMember nonempty
          exact absurd (allEmpty later isMember) nonempty
      · rintro ⟨_, onlyEmpty, _⟩ later isMember
        by_contra nonempty
        exact leavesNothing (onlyEmpty later isMember nonempty)

theorem regular_collect {added : List (Timestamp × UInt64)}
    (inRange : ∀ sample ∈ added, 0 ≤ sample.1.toInt ∧ sample.1.toInt ≤ 2 ^ 62) :
    Regular (collect added) := by
  have sorting := sorting_collect added
  refine ⟨sorting.paired, ?_, ?_⟩
  · rw [← sorting.paired.vectors.1, pairwise_map, pairwise_map]
    exact sorting.sorted
  · intro timestamp isMember
    rw [← sorting.paired.vectors.1] at isMember
    obtain ⟨sample, isSample, rfl⟩ := mem_map.mp isMember
    exact inRange sample (sorting.exactly.mem_iff.mp isSample)

/-- The chunks that some sequences of calls of `add` build. -/
def collectAll (histories : List (List (Timestamp × UInt64))) :
    List (ChunkVectors UInt64) :=
  histories.map collect

/-- Exactly which sequences of chunks an encoder keeps. -/
theorem chunks_come_back_iff {histories : List (List (Timestamp × UInt64))}
    (inRange : ∀ added ∈ histories, ∀ sample ∈ added,
      0 ≤ sample.1.toInt ∧ sample.1.toInt ≤ 2 ^ 62) :
    List.Forall₂ ComesBack (collectAll histories)
        (ChunkEncoder.new.encodeAll (collectAll histories)) ↔
      (∀ chunk ∈ collectAll histories, ValuesFit chunk) ∧
        (collectAll histories).Pairwise fun earlier later =>
          later.timestamps ≠ [] → LeavesNothing earlier := by
  refine comesBack_all_iff ?_ ⟨rfl, rfl, rfl⟩
  rw [collectAll, forall_mem_map]
  intro added isHistory
  exact regular_collect (inRange added isHistory)

/-- Two samples out of order, with the values 1.0 and 2.0, come back. -/
theorem chunks_come_back_out_of_order :
    List.Forall₂ ComesBack
      (collectAll [[(2000, 0x4000000000000000), (1000, 0x3FF0000000000000)]])
      (ChunkEncoder.new.encodeAll (collectAll
        [[(2000, 0x4000000000000000), (1000, 0x3FF0000000000000)]])) := by
  have inRange :
      ∀ added ∈ ([[(2000, 0x4000000000000000), (1000, 0x3FF0000000000000)]] :
        List (List (Timestamp × UInt64))),
        ∀ sample ∈ added, 0 ≤ sample.1.toInt ∧ sample.1.toInt ≤ 2 ^ 62 := by
    rw [forall_mem_singleton, forall_mem_cons, forall_mem_singleton]
    exact ⟨by decide, by decide⟩
  refine (chunks_come_back_iff inRange).mpr ⟨?_, pairwise_singleton _ _⟩
  rw [collectAll, map_singleton, forall_mem_singleton]
  have isValues :
      (collect
        [((2000 : Timestamp), (0x4000000000000000 : UInt64)),
          (1000, 0x3FF0000000000000)]).values =
        [0x3FF0000000000000, 0x4000000000000000] := by
    decide
  rw [ValuesFit, isValues]
  simp only [map_cons, map_nil, DeltaEncoder.DifferencesFit]
  decide

/--
The values 2.0 and -1.0 are refused, and a second chunk is not read back.
-/
theorem chunks_lost :
    ¬List.Forall₂ ComesBack
        (collectAll [[(1000, 0x4000000000000000), (2000, 0xBFF0000000000000)]])
        (ChunkEncoder.new.encodeAll (collectAll
          [[(1000, 0x4000000000000000), (2000, 0xBFF0000000000000)]])) ∧
      ¬List.Forall₂ ComesBack (collectAll [[(10, 0)], [(20, 0)]])
        (ChunkEncoder.new.encodeAll (collectAll [[(10, 0)], [(20, 0)]])) := by
  constructor
  · intro back
    have regular :
        ∀ chunk ∈ collectAll
          [[(1000, 0x4000000000000000), (2000, 0xBFF0000000000000)]],
          Regular chunk := by
      rw [collectAll, forall_mem_map, forall_mem_singleton]
      refine regular_collect ?_
      rw [forall_mem_cons, forall_mem_singleton]
      exact ⟨by decide, by decide⟩
    obtain ⟨fit, _⟩ := (comesBack_all_iff regular ⟨rfl, rfl, rfl⟩).mp back
    have valuesFit := fit _ mem_cons_self
    have isValues :
        (collect
          [((1000 : Timestamp), (0x4000000000000000 : UInt64)),
            (2000, 0xBFF0000000000000)]).values =
          [0x4000000000000000, 0xBFF0000000000000] := by
      decide
    rw [ValuesFit, isValues] at valuesFit
    exact absurd valuesFit.2.1 (by decide)
  · intro back
    have regular :
        ∀ chunk ∈ collectAll [[(10, 0)], [(20, 0)]], Regular chunk := by
      rw [collectAll, forall_mem_map, forall_mem_cons, forall_mem_singleton]
      refine ⟨regular_collect ?_, regular_collect ?_⟩ <;>
        rw [forall_mem_singleton] <;> decide
    obtain ⟨_, onlyEmpty⟩ := (comesBack_all_iff regular ⟨rfl, rfl, rfl⟩).mp back
    have leavesNothing :=
      rel_of_pairwise_cons onlyEmpty mem_cons_self (cons_ne_nil _ _)
    exact absurd (leavesNothing.1 10 mem_cons_self) (by decide)

end ChronoDB.Memstore
