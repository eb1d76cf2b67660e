import ChronoDB.Compression.Delta

namespace ChronoDB.Compression

/-!
# Prediction encoding

A column of values is stored as its first two values and, for every later one,
the error of the linear prediction from the two before it.
-/

namespace PredictionEncoder

/-- The value on the line through the two values before it. -/
def predicted (beforeLast last : Value) : Value :=
  2 * last - beforeLast

/-- The loop of the encoder behind the first two values. -/
def residualsFrom (beforeLast last : Value) : List Value → List Value
  | [] => []
  | value :: rest =>
    (value - predicted beforeLast last) :: residualsFrom last value rest

/-- The loop of the decoder behind the first two values. -/
def valuesFrom (beforeLast last : Value) : List Value → List Value
  | [] => []
  | residual :: rest =>
    (predicted beforeLast last + residual) ::
      valuesFrom last (predicted beforeLast last + residual) rest

def encode : List Value → List Value
  | first :: second :: rest =>
    first :: second :: residualsFrom first second rest
  | values => values

def decode : List Value → List Value
  | first :: second :: rest => first :: second :: valuesFrom first second rest
  | residuals => residuals

theorem valuesFrom_residualsFrom
    (beforeLast last : Value) (values : List Value) :
    valuesFrom beforeLast last (residualsFrom beforeLast last values) =
      values := by
  induction values generalizing beforeLast last with
  | nil => rfl
  | cons value rest inductionHypothesis =>
    have restored :
        predicted beforeLast last + (value - predicted beforeLast last) =
          value := by
      ring
    rw [residualsFrom, valuesFrom, restored, inductionHypothesis]

@[simp] theorem decode_encode (values : List Value) :
    decode (encode values) = values := by
  match values with
  | [] => rfl
  | [_] => rfl
  | first :: second :: rest => rw [encode, decode, valuesFrom_residualsFrom]

end PredictionEncoder

end ChronoDB.Compression

namespace ChronoDB.Columnstore

open Library Compression

/-!
# Columns

The payload of a timestamp column is a byte string, that of a value column a
list of residuals of eight bytes each; the compressor around both is lossless.
The builder of a timestamp column writes variable-width numbers, and the decoder
reads it in chunks of eight bytes.
-/

/-- `i64::to_le_bytes`. -/
def int64Bytes (value : Int64) : Bytes :=
  leBytes 8 value.toUInt64.toNat

/-- `i64::from_le_bytes`. -/
def int64OfBytes (bytes : Bytes) : Int64 :=
  Int64.ofNat (leValue bytes)

def buildTimestampColumn (timestamps : List Timestamp) : Except Error Bytes :=
  DeltaOfDeltaEncoder.new.encodeBatch timestamps

def buildValueColumn (values : List Value) : List Value :=
  PredictionEncoder.encode values

/--
The loop over chunks of eight bytes.  Indexing panics in a last chunk that is
shorter.
-/
def decodeTimestampsFrom (current delta : Int64) :
    Bytes → Except Fault (List Timestamp)
  | [] => .ok []
  | b0 :: b1 :: b2 :: b3 :: b4 :: b5 :: b6 :: b7 :: rest =>
    let deltaOfDelta := int64OfBytes [b0, b1, b2, b3, b4, b5, b6, b7]
    let delta := delta + deltaOfDelta
    let current := current + delta
    match decodeTimestampsFrom current delta rest with
    | .error fault => .error fault
    | .ok later => .ok (current :: later)
  | _ => .error .panic

def decodeTimestampColumn (payload : Bytes) : Except Fault (List Timestamp) :=
  decodeTimestampsFrom 0 0 payload

def decodeValueColumn (payload : List Value) : List Value :=
  PredictionEncoder.decode payload

theorem decodeValueColumn_buildValueColumn (values : List Value) :
    decodeValueColumn (buildValueColumn values) = values :=
  PredictionEncoder.decode_encode values

@[simp] theorem length_int64Bytes (value : Int64) :
    (int64Bytes value).length = 8 :=
  length_leBytes 8 _

theorem int64Bytes_int64OfBytes {bytes : Bytes} (wide : bytes.length = 8) :
    int64Bytes (int64OfBytes bytes) = bytes := by
  have fits := leValue_lt bytes
  rw [wide] at fits
  have sameNumber : (int64OfBytes bytes).toUInt64.toNat = leValue bytes := by
    rw [int64OfBytes, ← UInt64.toNat_toBitVec, Int64.toBitVec_toUInt64]
    exact Nat.mod_eq_of_lt fits
  rw [int64Bytes, sameNumber, ← wide, leBytes_leValue]

theorem decodeTimestampsFrom_eq_ok
    {current delta : Int64} {payload : Bytes} {timestamps : List Timestamp}
    (decoded : decodeTimestampsFrom current delta payload = .ok timestamps) :
    ∃ dods : List Int64,
      payload = dods.flatMap int64Bytes ∧
        timestamps = summedTwice current delta dods := by
  fun_induction decodeTimestampsFrom current delta payload
    generalizing timestamps with
  | case1 =>
    cases decoded
    exact ⟨[], rfl, rfl⟩
  | case2 => cases decoded
  | case3 =>
    rename_i b0 b1 b2 b3 b4 b5 b6 b7 rest _ _ _ later found inductionHypothesis
    cases decoded
    obtain ⟨dods, isRest, isLater⟩ := inductionHypothesis found
    refine ⟨int64OfBytes [b0, b1, b2, b3, b4, b5, b6, b7] :: dods, ?_, ?_⟩
    · rw [List.flatMap_cons, int64Bytes_int64OfBytes rfl, ← isRest]
      rfl
    · rw [isLater]
      rfl
  | case4 => cases decoded

theorem exists_decodeTimestampsFrom
    (current delta : Int64) {payload : Bytes} (whole : 8 ∣ payload.length) :
    ∃ timestamps,
      decodeTimestampsFrom current delta payload = .ok timestamps := by
  fun_induction decodeTimestampsFrom current delta payload with
  | case1 => exact ⟨_, rfl⟩
  | case2 =>
    rename_i failed inductionHypothesis
    obtain ⟨later, decoded⟩ := inductionHypothesis (by simpa using whole)
    rw [failed] at decoded
    cases decoded
  | case3 => exact ⟨_, rfl⟩
  | case4 =>
    rename_i short _ _ notNil notLong
    have wide : (short.take 8).length = 8 := by
      have long : 8 ≤ short.length :=
        Nat.le_of_dvd (List.length_pos_of_ne_nil notNil) whole
      simpa using long
    match leading : short.take 8, wide with
    | [b0, b1, b2, b3, b4, b5, b6, b7], _ =>
      refine (notLong b0 b1 b2 b3 b4 b5 b6 b7 (short.drop 8) ?_).elim
      calc
        short = short.take 8 ++ short.drop 8 :=
          (List.take_append_drop 8 short).symm
        _ = _ := by
          rw [leading]
          rfl

theorem decodeTimestampColumn_isOk_iff (payload : Bytes) :
    (∃ timestamps, decodeTimestampColumn payload = .ok timestamps) ↔
      8 ∣ payload.length := by
  constructor
  · rintro ⟨timestamps, decoded⟩
    obtain ⟨dods, rfl, _⟩ := decodeTimestampsFrom_eq_ok decoded
    refine ⟨dods.length, ?_⟩
    simp [List.length_flatMap, Nat.mul_comm]
  · exact exists_decodeTimestampsFrom 0 0

end ChronoDB.Columnstore
