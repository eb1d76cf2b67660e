import ChronoDB.Library.Leb128
import ChronoDB.Library.SecondDifferences
import ChronoDB.Model.Types

namespace ChronoDB.Compression

open Library

/-!
# Delta-of-delta encoding

A column of timestamps is stored as its second differences, each zigzagged and
written as a base-128 number.  The encoder refuses a first or second difference
that does not fit 64 bits.
-/

def zigzagEncode (value : Int64) : UInt64 :=
  ((value <<< 1) ^^^ (value >>> 63)).toUInt64

theorem toBitVec_zigzagEncode (value : Int64) :
    (zigzagEncode value).toBitVec =
      (value.toBitVec <<< 1) ^^^ value.toBitVec.sshiftRight 63 :=
  rfl

variable {value : Int64} {first second : Int64}

theorem toNat_zigzagEncode_of_nonneg (nonneg : 0 ≤ value.toInt) :
    ((zigzagEncode value).toNat : ℤ) = 2 * value.toInt := by
  have signBit : value.toBitVec.msb = false := by
    rw [BitVec.msb_eq_toInt]
    simpa using nonneg
  have small := BitVec.msb_eq_false_iff_two_mul_lt.mp signBit
  have asInt : value.toInt = value.toBitVec.toNat :=
    BitVec.toInt_eq_toNat_of_msb signBit
  have shifted : value.toBitVec.sshiftRight 63 = 0#64 := by
    rw [BitVec.sshiftRight_eq_of_msb_false signBit]
    apply BitVec.eq_of_toNat_eq
    simp [BitVec.toNat_ushiftRight, Nat.shiftRight_eq_div_pow]
    omega
  rw [← UInt64.toNat_toBitVec, toBitVec_zigzagEncode, shifted, asInt]
  simp [BitVec.toNat_shiftLeft, Nat.shiftLeft_eq]
  omega

theorem toNat_zigzagEncode_of_neg (negative : value.toInt < 0) :
    ((zigzagEncode value).toNat : ℤ) = -2 * value.toInt - 1 := by
  have signBit : value.toBitVec.msb = true := by
    rw [BitVec.msb_eq_toInt]
    simpa using negative
  have large := BitVec.msb_eq_true_iff_two_mul_ge.mp signBit
  have bound := value.toBitVec.isLt
  have asInt : value.toInt = value.toBitVec.toNat - 2 ^ 64 := by
    have bySign := BitVec.toInt_eq_toNat_cond value.toBitVec
    rw [if_neg (by omega)] at bySign
    simpa using bySign
  have shifted : value.toBitVec.sshiftRight 63 = BitVec.allOnes 64 := by
    rw [BitVec.sshiftRight_eq_of_msb_true signBit]
    apply BitVec.eq_of_toNat_eq
    simp [BitVec.toNat_ushiftRight, Nat.shiftRight_eq_div_pow, BitVec.toNat_not]
    omega
  rw [← UInt64.toNat_toBitVec, toBitVec_zigzagEncode, shifted, asInt,
    BitVec.xor_allOnes]
  simp [BitVec.toNat_shiftLeft, Nat.shiftLeft_eq, BitVec.toNat_not]
  omega

/-- `encode_varint`: the base-128 bytes of the zigzagged number. -/
def encodeVarint (value : Int64) : Bytes :=
  Leb128.encode (zigzagEncode value).toNat

example : encodeVarint 1000 = [0xD0, 0x0F] := by
  rw [encodeVarint, show (zigzagEncode 1000).toNat = 2000 by decide]
  simp [Leb128.encode]

@[simp] theorem encodeVarint_zero : encodeVarint 0 = [0] := by
  rw [encodeVarint, show (zigzagEncode 0).toNat = 0 by decide,
    Leb128.encode_of_lt (by decide)]
  rfl

theorem eq_zero_of_zigzagEncode (zero : (zigzagEncode value).toNat = 0) :
    value = 0 := by
  apply Int64.toInt_inj.mp
  rw [Int64.toInt_zero]
  rcases lt_or_ge value.toInt 0 with negative | nonneg
  · have zigzagged := toNat_zigzagEncode_of_neg negative
    omega
  · have zigzagged := toNat_zigzagEncode_of_nonneg nonneg
    omega

theorem encodeVarint_eq_zero_cons
    {rest : Bytes} (zeroFirst : encodeVarint value = 0 :: rest) :
    value = 0 ∧ rest = [] := by
  obtain ⟨zero, nothing⟩ := Leb128.encode_eq_zero_cons zeroFirst
  exact ⟨eq_zero_of_zigzagEncode zero, nothing⟩

def overflowingSub (first second : Int64) : Int64 × Bool :=
  (first - second, (first - second).toInt != first.toInt - second.toInt)

theorem toInt_sub_of_overflowingSub
    (exact : (overflowingSub first second).2 = false) :
    (first - second).toInt = first.toInt - second.toInt := by
  simpa [overflowingSub] using exact

structure DeltaOfDeltaEncoder where
  lastValue : Option Int64
  lastDelta : Option Int64
  deriving Repr, DecidableEq

namespace DeltaOfDeltaEncoder

def new : DeltaOfDeltaEncoder where
  lastValue := none
  lastDelta := none

/-- The difference to the last number, unless it overflows. -/
def checkedDifference (message : String) (last : Option Int64) (value : Int64) :
    Except Error Int64 :=
  match last with
  | none => .ok value
  | some last =>
    match overflowingSub value last with
    | (_, true) => .error (.overflow message)
    | (difference, false) => .ok difference

def delta (encoder : DeltaOfDeltaEncoder) (value : Int64) :
    Except Error Int64 :=
  checkedDifference "Delta encoding overflow" encoder.lastValue value

def deltaOfDelta (encoder : DeltaOfDeltaEncoder) (delta : Int64) :
    Except Error Int64 :=
  checkedDifference "Delta of delta encoding overflow" encoder.lastDelta delta

def encode (encoder : DeltaOfDeltaEncoder) (value : Int64) :
    Except Error (Bytes × DeltaOfDeltaEncoder) :=
  match encoder.delta value with
  | .error cause => .error cause
  | .ok delta =>
    match encoder.deltaOfDelta delta with
    | .error cause => .error cause
    | .ok dod =>
      .ok (encodeVarint dod,
        { lastValue := some value, lastDelta := some delta })

def encodeBatch (encoder : DeltaOfDeltaEncoder) :
    List Int64 → Except Error Bytes
  | [] => .ok []
  | value :: rest =>
    match encoder.encode value with
    | .error cause => .error cause
    | .ok (encoded, next) =>
      match encodeBatch next rest with
      | .error cause => .error cause
      | .ok later => .ok (encoded ++ later)

/-!
## What an encoded batch consists of
-/

instance isLeftCancelAddInt64 : IsLeftCancelAdd Int64 where
  add_left_cancel shared _ _ same := (Int64.add_right_inj shared).mp same

theorem toInt_of_checkedDifference
    {message : String} {last : Option Int64} {value difference : Int64}
    (accepted : checkedDifference message last value = .ok difference) :
    value.toInt = (last.getD 0).toInt + difference.toInt := by
  cases last with
  | none =>
    cases accepted
    simp
  | some last =>
    rw [checkedDifference] at accepted
    rcases computed : overflowingSub value last with ⟨result, overflow⟩
    rw [computed] at accepted
    cases overflow with
    | true => cases accepted
    | false =>
      cases accepted
      have exact := @toInt_sub_of_overflowingSub value last (by rw [computed])
      have isDifference : value - last = difference :=
        congrArg Prod.fst computed
      rw [← isDifference, exact, Option.getD_some]
      omega

theorem encode_eq_ok
    {encoder next : DeltaOfDeltaEncoder} {value : Int64} {encoded : Bytes}
    (accepted : encoder.encode value = .ok (encoded, next)) :
    ∃ delta dod,
      encoded = encodeVarint dod ∧
        next = { lastValue := some value, lastDelta := some delta } ∧
        value.toInt = (encoder.lastValue.getD 0).toInt + delta.toInt ∧
        delta.toInt = (encoder.lastDelta.getD 0).toInt + dod.toInt := by
  rw [encode] at accepted
  cases foundDelta : encoder.delta value with
  | error cause => simp [foundDelta] at accepted
  | ok delta =>
    cases foundDod : encoder.deltaOfDelta delta with
    | error cause => simp [foundDelta, foundDod] at accepted
    | ok dod =>
      simp only [foundDelta, foundDod, Except.ok.injEq,
        Prod.mk.injEq] at accepted
      exact ⟨delta, dod, accepted.1.symm, accepted.2.symm,
        toInt_of_checkedDifference foundDelta,
        toInt_of_checkedDifference foundDod⟩

theorem encodeBatch_eq_ok
    {encoder : DeltaOfDeltaEncoder} {values : List Int64} {encoded : Bytes}
    (accepted : encoder.encodeBatch values = .ok encoded) :
    ∃ dods : List Int64,
      encoded = dods.flatMap encodeVarint ∧
        values.map Int64.toInt =
          summedTwice (encoder.lastValue.getD 0).toInt
            (encoder.lastDelta.getD 0).toInt (dods.map Int64.toInt) := by
  induction values generalizing encoder encoded with
  | nil =>
    cases accepted
    exact ⟨[], rfl, rfl⟩
  | cons value rest inductionHypothesis =>
    rw [encodeBatch] at accepted
    cases first : encoder.encode value with
    | error cause => simp [first] at accepted
    | ok result =>
      obtain ⟨leading, next⟩ := result
      cases others : encodeBatch next rest with
      | error cause => simp [first, others] at accepted
      | ok later =>
        simp only [first, others, Except.ok.injEq] at accepted
        obtain ⟨delta, dod, isLeading, isNext, isValue, isDelta⟩ :=
          encode_eq_ok first
        obtain ⟨dods, isLater, sums⟩ := inductionHypothesis others
        refine ⟨dod :: dods, ?_, ?_⟩
        · rw [← accepted, isLeading, isLater, List.flatMap_cons]
        · subst isNext
          rw [List.map_cons, sums, List.map_cons, summedTwice_cons,
            ← isDelta, ← isValue]
          rfl

end DeltaOfDeltaEncoder

/-!
## Which batches are encoded
-/

/-- A number fits 64 bits with a sign. -/
def FitsInt64 (number : ℤ) : Prop :=
  -2 ^ 63 ≤ number ∧ number < 2 ^ 63

theorem fitsInt64_toInt (value : Int64) : FitsInt64 value.toInt :=
  ⟨value.le_toInt, value.toInt_lt⟩

theorem FitsInt64.bmod_eq {number : ℤ} (fits : FitsInt64 number) :
    number.bmod (2 ^ 64) = number := by
  obtain ⟨lower, upper⟩ := fits
  exact Int.bmod_eq_of_le (by omega) (by omega)

theorem FitsInt64.toInt_add (fits : FitsInt64 (first.toInt + second.toInt)) :
    (first + second).toInt = first.toInt + second.toInt := by
  rw [Int64.toInt_add, fits.bmod_eq]

theorem FitsInt64.toInt_sub (fits : FitsInt64 (first.toInt - second.toInt)) :
    (first - second).toInt = first.toInt - second.toInt := by
  rw [Int64.toInt_sub, fits.bmod_eq]

theorem FitsInt64.toInt_mul (fits : FitsInt64 (first.toInt * second.toInt)) :
    (first * second).toInt = first.toInt * second.toInt := by
  rw [Int64.toInt_mul, fits.bmod_eq]

theorem overflowingSub_eq_false_iff (first second : Int64) :
    (overflowingSub first second).2 = false ↔
      FitsInt64 (first.toInt - second.toInt) := by
  constructor
  · intro exact
    rw [← toInt_sub_of_overflowingSub exact]
    exact fitsInt64_toInt _
  · intro fits
    simp [overflowingSub, fits.toInt_sub]

/-- All first and second differences fit, from a value and a difference. -/
def DifferencesFit (last delta : ℤ) : List Int64 → Prop
  | [] => True
  | value :: rest =>
    FitsInt64 (value.toInt - last) ∧
      FitsInt64 (value.toInt - last - delta) ∧
        DifferencesFit value.toInt (value.toInt - last) rest

namespace DeltaOfDeltaEncoder

theorem checkedDifference_eq_ok_iff
    {message : String} {last : Option Int64} {value difference : Int64} :
    checkedDifference message last value = .ok difference ↔
      FitsInt64 (value.toInt - (last.getD 0).toInt) ∧
        difference.toInt = value.toInt - (last.getD 0).toInt := by
  constructor
  · intro accepted
    have exact := toInt_of_checkedDifference accepted
    have isDifference :
        difference.toInt = value.toInt - (last.getD 0).toInt := by
      omega
    refine ⟨?_, isDifference⟩
    rw [← isDifference]
    exact fitsInt64_toInt difference
  · rintro ⟨fits, isDifference⟩
    cases last with
    | none =>
      rw [Option.getD_none, Int64.toInt_zero, Int.sub_zero] at isDifference
      rw [checkedDifference, Int64.toInt_inj.mp isDifference]
    | some last =>
      rw [Option.getD_some] at fits isDifference
      have noOverflow := (overflowingSub_eq_false_iff value last).mpr fits
      have exact := toInt_sub_of_overflowingSub noOverflow
      rw [← isDifference] at exact
      rw [checkedDifference]
      rcases computed : overflowingSub value last with ⟨result, overflow⟩
      rw [computed] at noOverflow
      obtain rfl : overflow = false := noOverflow
      have isResult : value - last = result := congrArg Prod.fst computed
      rw [← isResult, Int64.toInt_inj.mp exact]

theorem exists_checkedDifference
    (message : String) {last : Option Int64} {value : Int64}
    (fits : FitsInt64 (value.toInt - (last.getD 0).toInt)) :
    ∃ difference, checkedDifference message last value = .ok difference :=
  ⟨_, checkedDifference_eq_ok_iff.mpr
    ⟨fits, Int64.toInt_ofInt_of_le fits.1 fits.2⟩⟩

theorem exists_encodeBatch_iff
    (encoder : DeltaOfDeltaEncoder) (values : List Int64) :
    (∃ encoded, encoder.encodeBatch values = .ok encoded) ↔
      DifferencesFit (encoder.lastValue.getD 0).toInt
        (encoder.lastDelta.getD 0).toInt values := by
  induction values generalizing encoder with
  | nil => exact iff_of_true ⟨[], rfl⟩ trivial
  | cons value rest inductionHypothesis =>
    rw [encodeBatch, DifferencesFit, encode, delta]
    cases foundDelta :
        checkedDifference "Delta encoding overflow" encoder.lastValue value with
    | error cause =>
      refine iff_of_false (fun ⟨_, accepted⟩ => by cases accepted) ?_
      rintro ⟨fits, _⟩
      obtain ⟨_, accepted⟩ :=
        exists_checkedDifference "Delta encoding overflow" fits
      rw [foundDelta] at accepted
      cases accepted
    | ok delta =>
      obtain ⟨deltaFits, isDelta⟩ := checkedDifference_eq_ok_iff.mp foundDelta
      rw [and_iff_right deltaFits, ← isDelta]
      dsimp only
      rw [deltaOfDelta]
      cases foundDod :
          checkedDifference "Delta of delta encoding overflow"
            encoder.lastDelta delta with
      | error cause =>
        refine iff_of_false (fun ⟨_, accepted⟩ => by cases accepted) ?_
        rintro ⟨fits, _⟩
        obtain ⟨_, accepted⟩ :=
          exists_checkedDifference "Delta of delta encoding overflow" fits
        rw [foundDod] at accepted
        cases accepted
      | ok dod =>
        obtain ⟨dodFits, _⟩ := checkedDifference_eq_ok_iff.mp foundDod
        rw [and_iff_right dodFits]
        have later :=
          inductionHypothesis
            { lastValue := some value, lastDelta := some delta }
        rw [Option.getD_some, Option.getD_some] at later
        rw [← later]
        dsimp only
        cases encodeBatch
            { lastValue := some value, lastDelta := some delta }
            rest with
        | error cause =>
          exact iff_of_false (fun ⟨_, accepted⟩ => by cases accepted)
            fun ⟨_, accepted⟩ => by cases accepted
        | ok others => exact iff_of_true ⟨_, rfl⟩ ⟨_, rfl⟩

end DeltaOfDeltaEncoder

end ChronoDB.Compression
