import Mathlib.Data.Nat.ModEq
import ChronoDB.Library.LittleEndian

namespace ChronoDB.Library.Leb128

open List

/-!
# Base-128 variable length numbers

A number is cut into groups of seven bits, lowest group first, and every byte
but the last carries the continuation bit.  Besides the round trip, this module
compares such a byte string with the little-endian number its bytes denote:
reading the string at the wrong base gives a number that is never smaller than
the encoded one and whose top bit is never set.
-/

/-- The base-128 bytes of a number. -/
def encode (value : ℕ) : Bytes :=
  if value < 128 then
    [UInt8.ofNat value]
  else
    UInt8.ofNat (value % 128 + 128) :: encode (value / 128)
termination_by value
decreasing_by omega

/-- The number at the front of a byte string, and the bytes behind it. -/
def decode : Bytes → Option (ℕ × Bytes)
  | [] => none
  | byte :: rest =>
    if byte.toNat < 128 then
      some (byte.toNat, rest)
    else
      match decode rest with
      | some (value, tail) => some (byte.toNat - 128 + 128 * value, tail)
      | none => none

theorem decode_cons_of_lt
    {byte : UInt8} (isLast : byte.toNat < 128) (rest : Bytes) :
    decode (byte :: rest) = some (byte.toNat, rest) := by
  rw [decode, if_pos isLast]

variable {value : ℕ}

theorem decode_cons_eq_some_iff
    {byte : UInt8} {rest tail : Bytes} (continued : ¬byte.toNat < 128) :
    decode (byte :: rest) = some (value, tail) ↔
      ∃ high,
        decode rest = some (high, tail) ∧
          value = byte.toNat - 128 + 128 * high := by
  rw [decode, if_neg continued]
  cases decode rest with
  | none => simp
  | some read =>
    obtain ⟨high, other⟩ := read
    constructor
    · intro isRead
      cases isRead
      exact ⟨high, rfl, rfl⟩
    · rintro ⟨_, isRead, rfl⟩
      cases isRead
      rfl

theorem encode_of_lt (small : value < 128) :
    encode value = [UInt8.ofNat value] := by
  rw [encode, if_pos small]

theorem encode_of_le (large : 128 ≤ value) :
    encode value = UInt8.ofNat (value % 128 + 128) :: encode (value / 128) := by
  rw [encode, if_neg (by omega)]

theorem toNat_ofNat (fits : value < 256) :
    (UInt8.ofNat value).toNat = value := by
  simp [Nat.mod_eq_of_lt fits]

theorem decode_encode (value : ℕ) (rest : Bytes) :
    decode (encode value ++ rest) = some (value, rest) := by
  induction value using Nat.strongRecOn with
  | ind value inductionHypothesis =>
    by_cases small : value < 128
    · rw [encode_of_lt small]
      simp [decode, toNat_ofNat (show value < 256 by omega), small]
    · have large : 128 ≤ value := by omega
      have byteValue :
          (UInt8.ofNat (value % 128 + 128)).toNat = value % 128 + 128 :=
        toNat_ofNat (by omega)
      rw [encode_of_le large, cons_append, decode,
        if_neg (by omega), byteValue,
        inductionHypothesis (value / 128) (by omega)]
      simp only [Option.some.injEq, Prod.mk.injEq, and_true]
      omega

theorem length_encode_pos (value : ℕ) :
    0 < (encode value).length := by
  rw [encode]
  split <;> simp

theorem encode_eq_zero_cons
    {rest : Bytes} (zeroFirst : encode value = 0 :: rest) :
    value = 0 ∧ rest = [] := by
  by_cases small : value < 128
  · rw [encode_of_lt small, List.cons.injEq] at zeroFirst
    have byteValue := toNat_ofNat (show value < 256 by omega)
    rw [zeroFirst.1] at byteValue
    exact ⟨byteValue.symm, zeroFirst.2.symm⟩
  · rw [encode_of_le (by omega), List.cons.injEq] at zeroFirst
    have byteValue := toNat_ofNat (show value % 128 + 128 < 256 by omega)
    rw [zeroFirst.1] at byteValue
    exact absurd byteValue (by simp)

theorem lt_pow_length (value : ℕ) :
    value < 128 ^ (encode value).length := by
  induction value using Nat.strongRecOn with
  | ind value inductionHypothesis =>
    by_cases small : value < 128
    · simpa [encode_of_lt small] using small
    · have large : 128 ≤ value := by omega
      have tailBound := inductionHypothesis (value / 128) (by omega)
      rw [encode_of_le large, length_cons, pow_succ]
      omega

theorem length_encode_le
    {value length : ℕ} (fits : value < 128 ^ (length + 1)) :
    (encode value).length ≤ length + 1 := by
  induction length generalizing value with
  | zero => simp [encode_of_lt (show value < 128 by simpa using fits)]
  | succ length inductionHypothesis =>
    by_cases small : value < 128
    · simp [encode_of_lt small]
    · have tailFits : value / 128 < 128 ^ (length + 1) := by
        rw [pow_succ] at fits
        omega
      rw [encode_of_le (by omega), length_cons]
      have tailLength := inductionHypothesis tailFits
      omega

theorem pow_le_of_lt_length
    {value length : ℕ} (long : length + 1 < (encode value).length) :
    128 ^ (length + 1) ≤ value := by
  by_contra tooSmall
  have := length_encode_le (not_le.mp tooSmall)
  omega

theorem le_leValue_encode (value : ℕ) :
    value ≤ leValue (encode value) := by
  induction value using Nat.strongRecOn with
  | ind value inductionHypothesis =>
    by_cases small : value < 128
    · simp [encode_of_lt small, Nat.mod_eq_of_lt
        (show value < 256 by omega)]
    · have large : 128 ≤ value := by omega
      have tailBound := inductionHypothesis (value / 128) (by omega)
      rw [encode_of_le large, leValue_cons,
        toNat_ofNat (show value % 128 + 128 < 256 by omega)]
      omega

theorem two_mul_leValue_encode_lt (value : ℕ) :
    2 * leValue (encode value) < 256 ^ (encode value).length := by
  induction value using Nat.strongRecOn with
  | ind value inductionHypothesis =>
    by_cases small : value < 128
    · simp only [encode_of_lt small, leValue_cons, leValue_nil,
        toNat_ofNat (show value < 256 by omega),
        length_singleton]
      omega
    · have large : 128 ≤ value := by omega
      have tailBound := inductionHypothesis (value / 128) (by omega)
      obtain ⟨tail, tailLength⟩ :=
        Nat.exists_eq_succ_of_ne_zero (length_encode_pos (value / 128)).ne'
      rw [tailLength, pow_succ] at tailBound
      rw [encode_of_le large, leValue_cons, length_cons, tailLength,
        pow_succ, pow_succ,
        toNat_ofNat (show value % 128 + 128 < 256 by omega)]
      omega

/-!
## The leading bytes of long encodings
-/

/-- The first bytes of an encoding that goes on behind them. -/
def continued : ℕ → ℕ → Bytes
  | 0, _ => []
  | count + 1, value =>
    UInt8.ofNat (value % 128 + 128) :: continued count (value / 128)

@[simp] theorem length_continued (count value : ℕ) :
    (continued count value).length = count := by
  induction count generalizing value with
  | zero => rfl
  | succ count inductionHypothesis => simp [continued, inductionHypothesis]

theorem leValue_continued_succ (count value : ℕ) :
    leValue (continued (count + 1) value) =
      value % 128 + 128 + 256 * leValue (continued count (value / 128)) := by
  rw [continued, leValue_cons, toNat_ofNat (by omega)]

theorem encode_eq_continued_append
    {count value : ℕ} (large : 128 ^ count ≤ value) :
    encode value = continued count value ++ encode (value / 128 ^ count) := by
  induction count generalizing value with
  | zero => simp [continued]
  | succ count inductionHypothesis =>
    have rest : 128 ^ count ≤ value / 128 := by
      rw [Nat.le_div_iff_mul_le (by decide)]
      rwa [pow_succ] at large
    have notSmall : 128 ≤ value := by
      have := Nat.one_le_pow count 128 (by decide)
      omega
    rw [encode_of_le notSmall, inductionHypothesis rest,
      Nat.div_div_eq_div_mul, ← pow_succ']
    rfl

theorem le_two_mul_leValue_continued (count value : ℕ) :
    256 ^ (count + 1) ≤ 2 * leValue (continued (count + 1) value) := by
  induction count generalizing value with
  | zero =>
    rw [leValue_continued_succ]
    omega
  | succ count inductionHypothesis =>
    have rest := inductionHypothesis (value / 128)
    rw [leValue_continued_succ, pow_succ]
    omega

/--
A number is determined by an even multiple of its continued bytes, read at base
256, plus the number itself.
-/
theorem eq_of_leValue_continued
    {scale count first second : ℕ} (even : 2 ∣ scale)
    (same :
      scale * leValue (continued count first) + first =
        scale * leValue (continued count second) + second) :
    first = second := by
  induction count generalizing scale first second with
  | zero => simpa [continued] using same
  | succ count inductionHypothesis =>
    obtain ⟨half, rfl⟩ := even
    have byDigits :
        ∀ value,
          2 * half * leValue (continued (count + 1) value) + value =
            (2 * half + 1) * (value % 128) +
              128 * (4 * half * leValue (continued count (value / 128)) +
                value / 128) + 256 * half := by
      intro value
      calc
        2 * half * leValue (continued (count + 1) value) + value =
            2 * half * (value % 128 + 128 +
              256 * leValue (continued count (value / 128))) +
              (128 * (value / 128) + value % 128) := by
          rw [leValue_continued_succ, Nat.div_add_mod]
        _ = _ := by ring
    rw [byDigits first, byDigits second] at same
    have expanded := Nat.add_right_cancel same
    have sameDigit : first % 128 = second % 128 := by
      have congruent :
          (2 * half + 1) * (first % 128) ≡
            (2 * half + 1) * (second % 128) [MOD 128] := by
        have residues := congrArg (· % 128) expanded
        simpa [Nat.ModEq, Nat.add_mul_mod_self_left] using residues
      have coprime : Nat.gcd 128 (2 * half + 1) = 1 := by
        have odd : Nat.Coprime 2 (2 * half + 1) := by
          simp
        exact odd.pow_left 7
      have cancelled := Nat.ModEq.cancel_left_of_coprime coprime congruent
      simpa [Nat.ModEq] using cancelled
    have sameRest : first / 128 = second / 128 := by
      refine inductionHypothesis (Dvd.intro (2 * half) (by ring) :
        2 ∣ 4 * half) ?_
      rw [sameDigit] at expanded
      exact Nat.eq_of_mul_eq_mul_left (by decide) (Nat.add_left_cancel expanded)
    omega

/-!
## The bytes that are read
-/

theorem exists_of_decode
    {data rest : Bytes} (decoded : decode data = some (value, rest)) :
    ∃ leading last low,
      data = leading ++ last :: rest ∧ last.toNat < 128 ∧
        low < 128 ^ leading.length ∧
          value = low + last.toNat * 128 ^ leading.length := by
  induction data generalizing value with
  | nil => cases decoded
  | cons byte tail inductionHypothesis =>
    by_cases isLast : byte.toNat < 128
    · rw [decode_cons_of_lt isLast] at decoded
      cases decoded
      exact ⟨[], byte, 0, rfl, isLast, by simp, by simp⟩
    · obtain ⟨high, others, rfl⟩ :=
        (decode_cons_eq_some_iff isLast).mp decoded
      obtain ⟨leading, last, low, rfl, lastSmall, lowFits, rfl⟩ :=
        inductionHypothesis others
      have byteFits := byte.toNat_lt
      refine ⟨byte :: leading, last, byte.toNat - 128 + 128 * low, rfl,
        lastSmall, ?_, ?_⟩
      · rw [length_cons, pow_succ]
        omega
      · rw [length_cons, pow_succ]
        ring

theorem length_lt_of_decode
    {data rest : Bytes} (decoded : decode data = some (value, rest)) :
    rest.length < data.length := by
  obtain ⟨leading, last, _, rfl, _⟩ := exists_of_decode decoded
  rw [length_append, length_cons]
  omega

/--
The bytes that are read are the encoding of their number exactly when they are a
single one or do not end with a zero byte.
-/
theorem read_eq_encode_iff
    {read rest : Bytes} (decoded : decode (read ++ rest) = some (value, rest)) :
    read = encode value ↔ read.length = 1 ∨ read.getLast? ≠ some 0 := by
  induction read generalizing value with
  | nil => exact absurd (length_lt_of_decode decoded) (Nat.lt_irrefl _)
  | cons byte tail inductionHypothesis =>
    rw [cons_append] at decoded
    by_cases isLast : byte.toNat < 128
    · rw [decode_cons_of_lt isLast] at decoded
      obtain ⟨rfl, isRest⟩ := Prod.mk.injEq _ _ _ _ ▸ Option.some.inj decoded
      obtain rfl : tail = [] := append_left_eq_self.mp isRest
      rw [encode_of_lt isLast, UInt8.ofNat_toNat]
      exact iff_of_true rfl (.inl rfl)
    · obtain ⟨high, others, isValue⟩ :=
        (decode_cons_eq_some_iff isLast).mp decoded
      have canonical := inductionHypothesis others
      have byteFits := byte.toNat_lt
      have notEmpty : tail ≠ [] := by
        rintro rfl
        exact absurd (length_lt_of_decode others) (Nat.lt_irrefl _)
      have notSingle : (byte :: tail).length ≠ 1 := by
        have positive := length_pos_iff.mpr notEmpty
        rw [length_cons]
        omega
      rw [or_iff_right notSingle, getLast?_cons_of_ne_nil notEmpty]
      by_cases highZero : high = 0
      · subst highZero
        have small : value < 128 := by omega
        refine iff_of_false ?_ ?_
        · intro isEncoding
          rw [encode_of_lt small] at isEncoding
          exact notSingle (congrArg List.length isEncoding)
        · intro lastNotZero
          have isZero := canonical.mpr (.inr lastNotZero)
          rw [encode_of_lt (by decide)] at isZero
          exact lastNotZero (by rw [isZero]; rfl)
      · have large : 128 ≤ value := by omega
        have lowBits : value % 128 + 128 = byte.toNat := by omega
        have highBits : value / 128 = high := by omega
        rw [encode_of_le large, lowBits, highBits, UInt8.ofNat_toNat,
          cons_inj_right]
        refine ⟨?_, fun lastNotZero => canonical.mpr (.inr lastNotZero)⟩
        intro isEncoding lastZero
        have single := (canonical.mp isEncoding).resolve_right
          (not_not.mpr lastZero)
        obtain ⟨last, rfl⟩ := length_eq_one_iff.mp single
        cases lastZero
        exact highZero (encode_eq_zero_cons isEncoding.symm).1

end ChronoDB.Library.Leb128
