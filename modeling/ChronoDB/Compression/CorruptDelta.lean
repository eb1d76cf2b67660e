import ChronoDB.Compression.DeltaDecoder

namespace ChronoDB.Compression

open Library

/-!
# Delta decoders on any bytes

Damaged bytes are numbers too, as far as they can be read.  A decoder overflows
when one of their exact sums does not fit 64 bits, and the bytes of a number are
those of its encoding when they are canonical.
-/

/-- All sums fit, from a last value. -/
def SumsFit (last : ℤ) : List Int64 → Prop
  | [] => True
  | delta :: rest =>
    FitsInt64 (last + delta.toInt) ∧ SumsFit (last + delta.toInt) rest

/-- All differences and all values fit, from a last value and difference. -/
def SecondSumsFit (last delta : ℤ) : List Int64 → Prop
  | [] => True
  | dod :: rest =>
    FitsInt64 (delta + dod.toInt) ∧
      FitsInt64 (last + (delta + dod.toInt)) ∧
        SecondSumsFit (last + (delta + dod.toInt)) (delta + dod.toInt) rest

theorem DeltaDecoder.advanceAll_eq_none_iff
    (decoder : DeltaDecoder) (deltas : List Int64) :
    advanceAll advance decoder deltas = none ↔
      ¬SumsFit (decoder.lastValue.getD 0).toInt deltas := by
  induction deltas generalizing decoder with
  | nil => exact iff_of_false (Option.some_ne_none _) (not_not.mpr trivial)
  | cons delta rest inductionHypothesis =>
    rw [advanceAll, advance, SumsFit]
    cases added : addToLast decoder.lastValue delta with
    | none =>
      have overflows := addToLast_eq_none_iff.mp added
      exact iff_of_true rfl (fun fits => overflows fits.1)
    | some value =>
      have exact := addToLast_eq_some_iff.mp added
      have fits := fitsInt64_toInt value
      have later := inductionHypothesis { lastValue := some value }
      rw [exact] at fits
      rw [Option.getD_some, exact] at later
      rw [and_iff_right fits, ← later]
      exact Option.map_eq_none_iff

theorem DeltaOfDeltaDecoder.advanceAll_eq_none_iff
    (decoder : DeltaOfDeltaDecoder) (dods : List Int64) :
    advanceAll advance decoder dods = none ↔
      ¬SecondSumsFit (decoder.lastValue.getD 0).toInt
        (decoder.lastDelta.getD 0).toInt dods := by
  induction dods generalizing decoder with
  | nil => exact iff_of_false (Option.some_ne_none _) (not_not.mpr trivial)
  | cons dod rest inductionHypothesis =>
    rw [advanceAll, advance, SecondSumsFit]
    cases addedDelta : addToLast decoder.lastDelta dod with
    | none =>
      have overflows := addToLast_eq_none_iff.mp addedDelta
      exact iff_of_true rfl (fun fits => overflows fits.1)
    | some delta =>
      have exactDelta := addToLast_eq_some_iff.mp addedDelta
      have deltaFits := fitsInt64_toInt delta
      rw [exactDelta] at deltaFits
      rw [and_iff_right deltaFits, ← exactDelta]
      dsimp only [Option.bind_some]
      cases addedValue : addToLast decoder.lastValue delta with
      | none =>
        have overflows := addToLast_eq_none_iff.mp addedValue
        exact iff_of_true rfl (fun fits => overflows fits.1)
      | some value =>
        have exactValue := addToLast_eq_some_iff.mp addedValue
        have valueFits := fitsInt64_toInt value
        have later := inductionHypothesis
          { lastValue := some value, lastDelta := some delta }
        rw [exactValue] at valueFits
        rw [Option.getD_some, Option.getD_some, exactValue] at later
        rw [and_iff_right valueFits, ← later]
        exact Option.map_eq_none_iff

/--
For all bytes, a decoder in any state returns without an overflow exactly when
the exact sums of the numbers in the bytes fit 64 bits, and the bytes of a number
that is read are those of its encoding exactly when they are canonical.
-/
theorem delta_decoders_safe_iff (data : Bytes) :
    (∀ decoder : DeltaDecoder,
        (∃ outcome, decoder.decode data = some outcome) ↔
          SumsFit (decoder.lastValue.getD 0).toInt (varintsOf data)) ∧
      (∀ decoder : DeltaOfDeltaDecoder,
        (∃ outcome, decoder.decode data = some outcome) ↔
          SecondSumsFit (decoder.lastValue.getD 0).toInt
            (decoder.lastDelta.getD 0).toInt (varintsOf data)) ∧
        ∀ value count,
          decodeVarint data = .ok (value, count) →
            (data.take count = encodeVarint value ↔
              Canonical (data.take count)) := by
  refine ⟨?_, ?_, fun _ _ => take_eq_encodeVarint_iff⟩
  · intro decoder
    rw [← Option.ne_none_iff_exists', ne_eq, DeltaDecoder.decode,
      decodeLoop_eq_none_iff, DeltaDecoder.advanceAll_eq_none_iff, not_not]
  · intro decoder
    rw [← Option.ne_none_iff_exists', ne_eq, DeltaOfDeltaDecoder.decode,
      decodeLoop_eq_none_iff, DeltaOfDeltaDecoder.advanceAll_eq_none_iff,
      not_not]

/-- The two bytes of a thousand are those that are written for it. -/
theorem thousand_read_canonically :
    ([0xD0, 0x0F] : Bytes).take 2 = encodeVarint 1000 := by
  obtain ⟨_, _, writtenIff⟩ := delta_decoders_safe_iff [0xD0, 0x0F]
  exact (writtenIff 1000 2 (by decide)).mpr (by decide)

/-- The largest number, and a difference of one after it. -/
def pastLargest : Bytes :=
  [0xFE, 0xFF, 0xFF, 0xFF, 0xFF, 0xFF, 0xFF, 0xFF, 0xFF, 0x01, 0x02]

/-- The number zero in two bytes. -/
def overlongZero : Bytes :=
  [0x80, 0x00]

/-- Both decoders overflow on some bytes, and a number is read from others. -/
theorem corrupt_bytes_accepted :
    DeltaDecoder.new.decode pastLargest = none ∧
      DeltaOfDeltaDecoder.new.decode pastLargest = none ∧
        decodeVarint overlongZero = .ok (0, 2) ∧
          overlongZero.take 2 ≠ encodeVarint 0 := by
  have largest : decodeVarint pastLargest = .ok (0x7FFFFFFFFFFFFFFF, 10) := by
    decide
  have one : decodeVarint (pastLargest.drop 10) = .ok (1, 1) := by
    decide
  have nothing :
      decodeVarint ((pastLargest.drop 10).drop 1) =
        .error (.invalidData "Unexpected end of varint data") := by
    decide
  have numbers : varintsOf pastLargest = [0x7FFFFFFFFFFFFFFF, 1] := by
    rw [varintsOf_of_ok largest, varintsOf_of_ok one,
      varintsOf_of_error nothing]
  refine ⟨?_, ?_, by decide, ?_⟩
  · rw [DeltaDecoder.decode, decodeLoop_eq_none_iff, numbers]
    decide
  · rw [DeltaOfDeltaDecoder.decode, decodeLoop_eq_none_iff, numbers]
    decide
  · rw [encodeVarint_zero]
    decide

end ChronoDB.Compression
