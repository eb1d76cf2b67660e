import ChronoDB.Compression.Delta
import Mathlib.Data.Nat.Bitwise

namespace ChronoDB.Compression

open Library List Leb128

/-!
# Reading numbers of variable length

The reader collects groups of seven bits until a byte is not continued, at most
ten of them.  It takes more than the writer gives: the last group can be zero,
and of the tenth group only the lowest bit fits the number.
-/

def zigzagDecode (value : UInt64) : Int64 :=
  (value >>> 1).toInt64 ^^^ -(value &&& 1).toInt64

def decodeVarintLoop (result : UInt64) (shift pos : ℕ) :
    Bytes → Except Error (Int64 × ℕ)
  | [] => .error (.invalidData "Unexpected end of varint data")
  | byte :: rest =>
    let result := result ||| (byte &&& 0x7F).toUInt64 <<< UInt64.ofNat shift
    if byte &&& 0x80 = 0 then
      .ok (zigzagDecode result, pos + 1)
    else if 64 ≤ shift + 7 then
      .error (.invalidData "Varint too long")
    else
      decodeVarintLoop result (shift + 7) (pos + 1) rest

/-- The number at the front of some bytes, and how many bytes it takes. -/
def decodeVarint (data : Bytes) : Except Error (Int64 × ℕ) :=
  decodeVarintLoop 0 0 0 data

example : decodeVarint [0xD0, 0x0F, 0x01] = .ok (1000, 2) := by decide

/-!
## Zigzag numbers
-/

theorem toInt_shiftRight_one (value : UInt64) :
    (value >>> 1).toInt64.toInt = value.toNat / 2 := by
  have fits := value.toNat_lt
  have half : (value >>> 1).toBitVec.toNat = value.toNat / 2 := by
    rw [UInt64.toNat_toBitVec, UInt64.toNat_shiftRight]
    exact Nat.shiftRight_eq_div_pow value.toNat 1
  change (value >>> 1).toBitVec.toInt = _
  rw [BitVec.toInt_eq_toNat_of_lt (by rw [half]; omega), half]
  rfl

theorem and_one_eq (value : UInt64) :
    (value &&& 1) = UInt64.ofNat (value.toNat % 2) := by
  apply UInt64.toNat_inj.mp
  rw [UInt64.toNat_and]
  have lastBit := Nat.and_two_pow_sub_one_eq_mod value.toNat 1
  rw [UInt64.toNat_ofNat_of_lt' (by rw [UInt64.size]; omega)]
  exact lastBit

theorem toInt_zigzagDecode_of_even
    {value : UInt64} (even : value.toNat % 2 = 0) :
    (zigzagDecode value).toInt = value.toNat / 2 := by
  rw [zigzagDecode, and_one_eq, even, ← toInt_shiftRight_one]
  congr 1
  simp

theorem toInt_zigzagDecode_of_odd {value : UInt64} (odd : value.toNat % 2 = 1) :
    (zigzagDecode value).toInt = -(value.toNat / 2 : ℕ) - 1 := by
  have fits := value.toNat_lt
  have flipped : zigzagDecode value = ~~~(value >>> 1).toInt64 := by
    rw [zigzagDecode, and_one_eq, odd]
    apply Int64.toBitVec_inj.mp
    rw [Int64.toBitVec_xor, Int64.toBitVec_not]
    exact BitVec.xor_allOnes
  rw [flipped, Int64.toInt_not, toInt_shiftRight_one]
  apply Int.bmod_eq_of_le
  · omega
  · omega

theorem zigzagEncode_zigzagDecode (value : UInt64) :
    zigzagEncode (zigzagDecode value) = value := by
  apply UInt64.toNat_inj.mp
  rcases Nat.mod_two_eq_zero_or_one value.toNat with even | odd
  · have isHalf := toInt_zigzagDecode_of_even even
    have doubled :=
      @toNat_zigzagEncode_of_nonneg (zigzagDecode value) (by omega)
    omega
  · have isHalf := toInt_zigzagDecode_of_odd odd
    have doubled := @toNat_zigzagEncode_of_neg (zigzagDecode value) (by omega)
    omega

theorem zigzagDecode_zigzagEncode (value : Int64) :
    zigzagDecode (zigzagEncode value) = value := by
  apply Int64.toInt_inj.mp
  rcases lt_or_ge value.toInt 0 with negative | nonneg
  · have written := toNat_zigzagEncode_of_neg negative
    have isHalf := @toInt_zigzagDecode_of_odd (zigzagEncode value) (by omega)
    omega
  · have written := toNat_zigzagEncode_of_nonneg nonneg
    have isHalf := @toInt_zigzagDecode_of_even (zigzagEncode value) (by omega)
    omega

/-!
## What the reader accepts
-/

theorem or_shiftLeft_eq_add
    {result group : UInt64} {shift : ℕ} (shiftFits : shift < 64)
    (below : result.toNat < 2 ^ shift) :
    result ||| group <<< UInt64.ofNat shift =
      result + UInt64.ofNat (group.toNat * 2 ^ shift) := by
  have isShift : (UInt64.ofNat shift).toNat % 64 = shift := by
    rw [UInt64.toNat_ofNat_of_lt' (by rw [UInt64.size]; omega)]
    exact Nat.mod_eq_of_lt shiftFits
  have splitsPower : 2 ^ 64 = 2 ^ shift * 2 ^ (64 - shift) := by
    rw [← pow_add, Nat.add_sub_cancel' shiftFits.le]
  have shifted :
      group.toNat * 2 ^ shift % 2 ^ 64 =
        2 ^ shift * (group.toNat % 2 ^ (64 - shift)) := by
    rw [splitsPower, Nat.mul_comm, Nat.mul_mod_mul_left]
  have groupFits : group.toNat % 2 ^ (64 - shift) + 1 ≤ 2 ^ (64 - shift) :=
    Nat.mod_lt _ (Nat.two_pow_pos _)
  have sumFits :
      result.toNat + 2 ^ shift * (group.toNat % 2 ^ (64 - shift)) < 2 ^ 64 := by
    have scaled := Nat.mul_le_mul_left (2 ^ shift) groupFits
    rw [← splitsPower, Nat.mul_add, Nat.mul_one] at scaled
    omega
  apply UInt64.toNat_inj.mp
  rw [UInt64.toNat_or, UInt64.toNat_shiftLeft, isShift, Nat.shiftLeft_eq,
    UInt64.toNat_add, UInt64.toNat_ofNat', shifted, Nat.or_comm,
    ← Nat.two_pow_add_eq_or_of_lt below, Nat.add_comm]
  exact (Nat.mod_eq_of_lt sumFits).symm

theorem toNat_and_low (byte : UInt8) :
    (byte &&& 0x7F).toUInt64.toNat = byte.toNat % 128 := by
  rw [UInt8.toNat_toUInt64, UInt8.toNat_and]
  exact Nat.and_two_pow_sub_one_eq_mod byte.toNat 7

theorem and_high_eq_zero_iff (byte : UInt8) :
    byte &&& 0x80 = 0 ↔ byte.toNat < 128 := by
  have fits := byte.toNat_lt
  have topBit : (byte &&& 0x80).toNat = (byte.toNat.testBit 7).toNat * 128 :=
    (UInt8.toNat_and byte 0x80).trans (Nat.and_two_pow byte.toNat 7)
  rw [← UInt8.toNat_inj, topBit, Nat.testBit_eq_decide_div_mod_eq,
    UInt8.toNat_zero]
  by_cases high : byte.toNat / 2 ^ 7 % 2 = 1
  · rw [decide_eq_true high]
    exact iff_of_false (by decide) (by omega)
  · rw [decide_eq_false high]
    exact iff_of_true rfl (by omega)

theorem toNat_add_group_lt {result : UInt64} {groups : ℕ} (within : groups ≤ 8)
    (below : result.toNat < 2 ^ (7 * groups)) (byte : UInt8) :
    (result + UInt64.ofNat (byte.toNat % 128 * 2 ^ (7 * groups))).toNat <
      2 ^ (7 * (groups + 1)) := by
  have scaled := Nat.mul_le_mul_right (2 ^ (7 * groups))
    (Nat.mod_lt byte.toNat (show 0 < 128 by decide))
  rw [Nat.succ_mul] at scaled
  have isPower : 2 ^ (7 * (groups + 1)) = 128 * 2 ^ (7 * groups) := by
    rw [Nat.mul_succ, pow_add, Nat.mul_comm]
    rfl
  have fits : 128 * 2 ^ (7 * groups) < 2 ^ 64 := by
    rw [← isPower]
    exact Nat.pow_lt_pow_right (by decide) (by omega)
  rw [UInt64.toNat_add, UInt64.toNat_ofNat', isPower,
    Nat.mod_eq_of_lt (show
      byte.toNat % 128 * 2 ^ (7 * groups) < 2 ^ 64 by omega),
    Nat.mod_eq_of_lt (by omega)]
  omega

theorem add_groups (result : UInt64) (high shift : ℕ) {byte : UInt8}
    (isLow : byte.toNat % 128 = byte.toNat - 128) :
    result + UInt64.ofNat (byte.toNat % 128 * 2 ^ shift) +
        UInt64.ofNat (high * 2 ^ (shift + 7)) =
      result + UInt64.ofNat ((byte.toNat - 128 + 128 * high) * 2 ^ shift) := by
  rw [UInt64.add_assoc, ← UInt64.ofNat_add, isLow, pow_add]
  congr 2
  ring

/--
The loop accepts a number of at most as many bytes as are left, and adds its bits
to the result.
-/
theorem decodeVarintLoop_eq_ok_iff
    {result : UInt64} {groups pos : ℕ} {data : Bytes} {value : Int64}
    {count : ℕ} (within : groups ≤ 9)
    (below : result.toNat < 2 ^ (7 * groups)) :
    decodeVarintLoop result (7 * groups) pos data = .ok (value, count) ↔
      ∃ number rest,
        decode data = some (number, rest) ∧
          count + rest.length = pos + data.length ∧
            groups + (data.length - rest.length) ≤ 10 ∧
              value = zigzagDecode
                (result + UInt64.ofNat (number * 2 ^ (7 * groups))) := by
  induction data generalizing result groups pos with
  | nil =>
    rw [decodeVarintLoop]
    refine iff_of_false (by intro accepted; cases accepted) ?_
    rintro ⟨number, rest, read, _⟩
    cases read
  | cons byte tail inductionHypothesis =>
    have added := @or_shiftLeft_eq_add result (byte &&& 0x7F).toUInt64
      (7 * groups) (by omega) below
    rw [toNat_and_low] at added
    rw [decodeVarintLoop, added]
    by_cases isLast : byte.toNat < 128
    · rw [if_pos ((and_high_eq_zero_iff byte).mpr isLast),
        decode_cons_of_lt isLast, Nat.mod_eq_of_lt isLast,
        Except.ok.injEq, Prod.mk.injEq]
      constructor
      · rintro ⟨rfl, rfl⟩
        refine ⟨byte.toNat, tail, rfl, ?_, ?_, rfl⟩
        · rw [length_cons]
          omega
        · rw [length_cons]
          omega
      · rintro ⟨number, rest, read, isCount, _, isValue⟩
        cases read
        rw [length_cons] at isCount
        exact ⟨isValue.symm, by omega⟩
    · rw [if_neg ((and_high_eq_zero_iff byte).not.mpr isLast)]
      simp only [decode_cons_eq_some_iff isLast, length_cons]
      by_cases tenth : 64 ≤ 7 * groups + 7
      · rw [if_pos tenth]
        refine iff_of_false (by intro accepted; cases accepted) ?_
        rintro ⟨_, rest, ⟨high, others, rfl⟩, _, fits, _⟩
        have shorter := length_lt_of_decode others
        omega
      · rw [if_neg tenth]
        have byteFits := byte.toNat_lt
        have isLow : byte.toNat % 128 = byte.toNat - 128 := by omega
        have later := @inductionHypothesis
          (result + UInt64.ofNat (byte.toNat % 128 * 2 ^ (7 * groups)))
          (groups + 1) (pos + 1) (by omega)
          (toNat_add_group_lt (by omega) below byte)
        rw [Nat.mul_succ] at later
        rw [later]
        constructor
        · rintro ⟨high, rest, others, isCount, fits, rfl⟩
          have shorter := length_lt_of_decode others
          refine ⟨_, rest, ⟨high, others, rfl⟩, by omega, by omega, ?_⟩
          rw [add_groups result high (7 * groups) isLow]
        · rintro ⟨_, rest, ⟨high, others, rfl⟩, isCount, fits, rfl⟩
          have shorter := length_lt_of_decode others
          refine ⟨high, rest, others, by omega, by omega, ?_⟩
          rw [add_groups result high (7 * groups) isLow]

theorem decodeVarint_eq_ok_iff {data : Bytes} {value : Int64} {count : ℕ} :
    decodeVarint data = .ok (value, count) ↔
      ∃ number read rest,
        data = read ++ rest ∧ read.length = count ∧ count ≤ 10 ∧
          decode data = some (number, rest) ∧
            value = zigzagDecode (UInt64.ofNat number) := by
  have byLoop := @decodeVarintLoop_eq_ok_iff 0 0 0 data value count
    (by decide) (by decide)
  rw [decodeVarint]
  rw [Nat.mul_zero] at byLoop
  rw [byLoop]
  constructor
  · rintro ⟨number, rest, decoded, isCount, fits, isValue⟩
    obtain ⟨leading, last, low, rfl, _⟩ := exists_of_decode decoded
    rw [pow_zero, Nat.mul_one, UInt64.zero_add] at isValue
    refine ⟨number, leading ++ [last], rest, by simp, ?_, ?_, decoded, isValue⟩
    · simp only [length_append, length_cons, length_nil] at *
      omega
    · omega
  · rintro ⟨number, read, rest, rfl, rfl, fits, decoded, isValue⟩
    refine ⟨number, rest, decoded, ?_, ?_, ?_⟩
    · rw [length_append]
      omega
    · rw [length_append]
      omega
    · rw [pow_zero, Nat.mul_one, UInt64.zero_add]
      exact isValue

theorem decodeVarint_count {data : Bytes} {value : Int64} {count : ℕ}
    (accepted : decodeVarint data = .ok (value, count)) :
    0 < count ∧ count ≤ data.length := by
  obtain ⟨number, read, rest, rfl, rfl, _, decoded, _⟩ :=
    decodeVarint_eq_ok_iff.mp accepted
  have shorter := length_lt_of_decode decoded
  rw [length_append] at shorter ⊢
  exact ⟨by omega, Nat.le_add_right _ _⟩

theorem decodeVarint_encodeVarint (value : Int64) (rest : Bytes) :
    decodeVarint (encodeVarint value ++ rest) =
      .ok (value, (encodeVarint value).length) := by
  have fits : (zigzagEncode value).toNat < 128 ^ (9 + 1) := by
    have below := (zigzagEncode value).toNat_lt
    exact below.trans (by decide)
  apply decodeVarint_eq_ok_iff.mpr
  refine ⟨(zigzagEncode value).toNat, encodeVarint value, rest, rfl, rfl,
    length_encode_le fits, decode_encode _ rest, ?_⟩
  rw [UInt64.ofNat_toNat, zigzagDecode_zigzagEncode]

/--
The bytes of a number are the shortest ones for it, and it fits 64 bits: they do
not end with a zero byte, other than a single one, and a tenth byte is at most
one.
-/
def Canonical (read : Bytes) : Prop :=
  (read.length = 1 ∨ read.getLast? ≠ some 0) ∧
    (read.length = 10 → ∀ last ∈ read.getLast?, last.toNat ≤ 1)

instance (read : Bytes) : Decidable (Canonical read) :=
  inferInstanceAs (Decidable (_ ∧ _))

theorem fits_iff_tenth {read rest : Bytes} {number : ℕ}
    (decoded : decode (read ++ rest) = some (number, rest))
    (within : read.length ≤ 10) :
    number < 2 ^ 64 ↔
      (read.length = 10 → ∀ last ∈ read.getLast?, last.toNat ≤ 1) := by
  obtain ⟨leading, last, low, isData, lastSmall, lowFits, isNumber⟩ :=
    exists_of_decode decoded
  obtain rfl : read = leading ++ [last] := by
    apply (append_left_inj rest).mp
    rw [isData, append_assoc]
    rfl
  rw [length_append, length_singleton] at *
  rw [getLast?_concat]
  by_cases isTenth : leading.length = 9
  · rw [isTenth] at lowFits isNumber
    constructor
    · rintro fits _ other isLast
      cases isLast
      by_contra large
      have scaled := Nat.mul_le_mul_right (128 ^ 9) (Nat.not_le.mp large)
      omega
    · intro tenth
      have small := tenth (by omega) last rfl
      have scaled := Nat.mul_le_mul_right (128 ^ 9) small
      omega
  · refine iff_of_true ?_ (fun isLast => absurd isLast (by omega))
    have scaled := Nat.mul_le_mul_right (128 ^ leading.length) lastSmall
    have isPower : 128 ^ (leading.length + 1) = 128 * 128 ^ leading.length := by
      rw [pow_succ, Nat.mul_comm]
    have fits : 128 ^ (leading.length + 1) ≤ 128 ^ 9 :=
      Nat.pow_le_pow_right (by decide) (by omega)
    rw [Nat.succ_mul] at scaled
    omega

/--
The bytes that are read are those that are written for the number exactly when
they are canonical.
-/
theorem take_eq_encodeVarint_iff {data : Bytes} {value : Int64} {count : ℕ}
    (accepted : decodeVarint data = .ok (value, count)) :
    data.take count = encodeVarint value ↔ Canonical (data.take count) := by
  obtain ⟨number, read, rest, rfl, rfl, within, decoded, rfl⟩ :=
    decodeVarint_eq_ok_iff.mp accepted
  rw [take_left, encodeVarint, zigzagEncode_zigzagDecode,
    UInt64.toNat_ofNat', Canonical, ← fits_iff_tenth decoded within]
  by_cases fits : number < 2 ^ 64
  · rw [Nat.mod_eq_of_lt fits, and_iff_left fits]
    exact read_eq_encode_iff decoded
  · refine iff_of_false ?_ (fun canonical => fits canonical.2)
    intro isEncoding
    rw [isEncoding, decode_encode] at decoded
    have same := (Prod.mk.inj (Option.some.inj decoded)).1
    omega

end ChronoDB.Compression
