import ChronoDB.Columnstore.Column

namespace ChronoDB.Columnstore

open Library Compression List Leb128

/-!
# Variable width against fixed width

The writer of a timestamp column gives every second difference as many bytes as
it needs, and the reader takes eight bytes for each.  The two never agree: no
column with at least one timestamp that the encoder accepts starts, for the
reader, with the second differences that were written.
-/

theorem leValue_int64Bytes_of_nonneg
    {value : Int64} (nonneg : 0 ≤ value.toInt) :
    (leValue (int64Bytes value) : ℤ) = value.toInt := by
  have signBit : value.toBitVec.msb = false := by
    rw [BitVec.msb_eq_toInt]
    simpa using nonneg
  have asInt : value.toInt = value.toBitVec.toNat :=
    BitVec.toInt_eq_toNat_of_msb signBit
  rw [int64Bytes, leValue_leBytes_of_lt value.toUInt64.toNat_lt, asInt]
  rfl

theorem leValue_int64Bytes_of_neg {value : Int64} (negative : value.toInt < 0) :
    (leValue (int64Bytes value) : ℤ) = value.toInt + 2 ^ 64 := by
  have signBit : value.toBitVec.msb = true := by
    rw [BitVec.msb_eq_toInt]
    simpa using negative
  have large := BitVec.msb_eq_true_iff_two_mul_ge.mp signBit
  have asInt : value.toInt = value.toBitVec.toNat - 2 ^ 64 := by
    have bySign := BitVec.toInt_eq_toNat_cond value.toBitVec
    rw [if_neg (by omega)] at bySign
    simpa using bySign
  rw [int64Bytes, leValue_leBytes_of_lt value.toUInt64.toNat_lt, asInt,
    show value.toUInt64.toNat = value.toBitVec.toNat from rfl]
  omega

/--
The eight bytes of a negative number never contain its variable-width bytes
whole: these are few and leave the top bit of what they fill clear, while a
number that takes few bytes is small and has that bit set.
-/
theorem not_within_of_neg
    {leading tail : Bytes} {value : Int64} (negative : value.toInt < 0) :
    int64Bytes value ≠ leading ++ encodeVarint value ++ tail := by
  intro within
  have width := congrArg List.length within
  simp only [length_int64Bytes, length_append] at width
  have reads := congrArg leValue within
  rw [leValue_append, leValue_append, length_append] at reads
  have topClear := two_mul_leValue_encode_lt (zigzagEncode value).toNat
  have fits := lt_pow_length (zigzagEncode value).toNat
  rw [← encodeVarint] at topClear fits
  have leadingFits := leValue_lt leading
  have zigzagged := toNat_zigzagEncode_of_neg negative
  have asUnsigned := leValue_int64Bytes_of_neg negative
  have nonempty : 0 < (encodeVarint value).length := length_encode_pos _
  generalize leValue leading = leadingValue at *
  generalize leValue (encodeVarint value) = varintValue at *
  generalize (encodeVarint value).length = varintWidth at *
  generalize leading.length = leadingWidth at *
  -- the bytes up to the end of the number denote less than half of `whole`
  generalize isWhole : 256 ^ (leadingWidth + varintWidth) = whole at *
  generalize isFilled :
    leadingValue + 256 ^ leadingWidth * varintValue = filled at *
  have lowerHalf : 2 * filled + 2 ≤ whole := by
    obtain ⟨fewer, rfl⟩ := Nat.exists_eq_succ_of_ne_zero nonempty.ne'
    have evenBound : 2 * varintValue + 2 ≤ 256 ^ (fewer + 1) := by
      rw [pow_succ] at topClear ⊢
      omega
    calc
      2 * filled + 2 =
          2 * (leadingValue + 1) + 256 ^ leadingWidth * (2 * varintValue) := by
        rw [← isFilled]
        ring
      _ ≤ 2 * 256 ^ leadingWidth + 256 ^ leadingWidth * (2 * varintValue) := by
        omega
      _ = 256 ^ leadingWidth * (2 * varintValue + 2) := by
        ring
      _ ≤ 256 ^ leadingWidth * 256 ^ (fewer + 1) :=
        Nat.mul_le_mul_left _ evenBound
      _ = whole := (pow_add 256 leadingWidth (fewer + 1)).symm.trans isWhole
  -- so the magnitude of the number makes up the other half
  obtain ⟨magnitude, isMagnitude⟩ :=
    Int.eq_ofNat_of_zero_le (show 0 ≤ -value.toInt by omega)
  have complement :
      filled + magnitude + whole * leValue tail =
        whole * 256 ^ tail.length := by
    have total : whole * 256 ^ tail.length = 2 ^ 64 := by
      rw [← isWhole, ← pow_add, ← width]
      rfl
    omega
  have divides : whole ∣ filled + magnitude :=
    (Nat.dvd_add_left (Dvd.intro _ rfl)).mp (complement ▸ Dvd.intro _ rfl)
  have notSmall : whole ≤ filled + magnitude := Nat.le_of_dvd (by omega) divides
  have small : 128 ^ varintWidth ≤ whole := by
    rw [← isWhole]
    exact (Nat.pow_le_pow_left (by decide) varintWidth).trans
      (Nat.pow_le_pow_right (by decide) (Nat.le_add_left _ _))
  omega

/--
When the eight bytes of a number contain its own variable-width bytes whole, the
number is zero, and so are the bytes before them.
-/
theorem eq_zero_of_varint_within {leading tail : Bytes} {value : Int64}
    (within :
      int64Bytes value = leading ++ encodeVarint value ++ tail) :
    value = 0 ∧ leValue leading = 0 := by
  have width := congrArg List.length within
  simp only [length_int64Bytes, length_append] at width
  have reads := congrArg leValue within
  rw [append_assoc, leValue_append, leValue_append] at reads
  have atLeast := le_leValue_encode (zigzagEncode value).toNat
  rw [← encodeVarint] at atLeast
  have positive : 1 ≤ 256 ^ leading.length := Nat.one_le_pow _ _ (by decide)
  rcases lt_or_ge value.toInt 0 with negative | nonneg
  · exact absurd within (not_within_of_neg negative)
  · have zigzagged := toNat_zigzagEncode_of_nonneg nonneg
    have asUnsigned := leValue_int64Bytes_of_nonneg nonneg
    have inside :
        leValue (encodeVarint value) ≤
          256 ^ leading.length *
            (leValue (encodeVarint value) +
              256 ^ (encodeVarint value).length * leValue tail) :=
      (Nat.le_add_right _ _).trans (Nat.le_mul_of_pos_left _ positive)
    have isZero : value.toInt = 0 := by omega
    refine ⟨Int64.toInt_inj.mp (by rw [isZero, Int64.toInt_zero]), ?_⟩
    omega

theorem flatMap_encodeVarint_ne
    {count : ℕ} {written read : List Int64} (isPrefix : written <+: read) :
    written.flatMap encodeVarint ≠
      List.replicate (count + 1) 0 ++ read.flatMap int64Bytes := by
  intro same
  induction written generalizing read count with
  | nil => cases same
  | cons value rest inductionHypothesis =>
    obtain ⟨others, rfl⟩ := isPrefix
    rw [flatMap_cons, replicate_succ, cons_append] at same
    have zeroFirst : ∃ tail, encodeVarint value = 0 :: tail := by
      cases bytes : encodeVarint value with
      | nil =>
        have positive := length_encode_pos (zigzagEncode value).toNat
        rw [← encodeVarint, bytes] at positive
        cases positive
      | cons byte tail =>
        rw [bytes, cons_append, List.cons.injEq] at same
        exact ⟨tail, by rw [same.1]⟩
    obtain ⟨tail, zeroFirst⟩ := zeroFirst
    obtain ⟨rfl, rfl⟩ := encodeVarint_eq_zero_cons zeroFirst
    rw [zeroFirst, singleton_append, List.cons.injEq,
      cons_append, flatMap_cons,
      show int64Bytes 0 = List.replicate 8 0 by decide,
      ← append_assoc, ← replicate_add] at same
    exact inductionHypothesis (prefix_append rest others) same.2

theorem neg_of_continued {leading : Bytes} {value : Int64} {count : ℕ}
    (width : leading.length + (count + 1) = 8)
    (same :
      int64Bytes value =
        leading ++ continued (count + 1) (zigzagEncode value).toNat) :
    value.toInt < 0 := by
  by_contra notNegative
  have asUnsigned := leValue_int64Bytes_of_nonneg (not_lt.mp notNegative)
  have topSet :=
    le_two_mul_leValue_continued count (zigzagEncode value).toNat
  have reads := congrArg leValue same
  rw [leValue_append] at reads
  have scaled :
      256 ^ leading.length * 256 ^ (count + 1) ≤
        256 ^ leading.length *
          (2 * leValue
            (continued (count + 1) (zigzagEncode value).toNat)) :=
    Nat.mul_le_mul_left _ topSet
  rw [← pow_add, width, Nat.mul_left_comm] at scaled
  have bound := value.toInt_lt
  omega

/-- The only first number that may take more than eight bytes. -/
def longFirst : Int64 := -4055333401313293099

theorem eq_longFirst {value : Int64}
    (same :
      int64Bytes value = continued 8 (zigzagEncode value).toNat) :
    value = longFirst := by
  have negative := @neg_of_continued [] value 7 rfl same
  have zigzagged := toNat_zigzagEncode_of_neg negative
  have asUnsigned := leValue_int64Bytes_of_neg negative
  rw [same] at asUnsigned
  have solution :
      2 * leValue (continued 8 8110666802626586197) +
          8110666802626586197 =
        2 ^ 65 - 1 := by
    decide
  have unique : (zigzagEncode value).toNat = 8110666802626586197 := by
    refine @Leb128.eq_of_leValue_continued 2 8 _ _ (dvd_refl 2) ?_
    rw [solution]
    omega
  apply Int64.toInt_inj.mp
  rw [show longFirst.toInt = -4055333401313293099 by decide]
  omega

/-- The only second number that may follow `longFirst`. -/
def longSecond : Int64 := -4697673566139539600

theorem eq_longSecond {value : Int64}
    (same :
      int64Bytes value = 112 :: continued 7 (zigzagEncode value).toNat) :
    value = longSecond := by
  have negative := @neg_of_continued [112] value 6 rfl same
  have zigzagged := toNat_zigzagEncode_of_neg negative
  have asUnsigned := leValue_int64Bytes_of_neg negative
  rw [same, leValue_cons] at asUnsigned
  have solution :
      512 * leValue (continued 7 9395347132279079199) +
          9395347132279079199 =
        2 ^ 65 - 225 := by
    decide
  have unique : (zigzagEncode value).toNat = 9395347132279079199 := by
    refine @Leb128.eq_of_leValue_continued 512 7 _ _ (by decide) ?_
    rw [solution]
    have leadingByte : (112 : UInt8).toNat = 112 := rfl
    omega
  apply Int64.toInt_inj.mp
  rw [show longSecond.toInt = -4697673566139539600 by decide]
  omega

theorem not_exact_long {values : List Int64} {rest : List Int64} :
    values.map Int64.toInt ≠
      summedTwice 0 0 ((longFirst :: longSecond :: rest).map Int64.toInt) := by
  intro exact
  match values, exact with
  | [_], exact => simp [summedTwice_cons] at exact
  | _ :: second :: _, exact =>
    simp only [map_cons, summedTwice_cons, List.cons.injEq] at exact
    have lowest := second.le_toInt
    rw [exact.2.1, show longFirst.toInt = -4055333401313293099 by decide,
      show longSecond.toInt = -4697673566139539600 by decide] at lowest
    omega

theorem encodeVarint_longFirst :
    encodeVarint longFirst =
      continued 8 (zigzagEncode longFirst).toNat ++ [112] := by
  have zigzagged : (zigzagEncode longFirst).toNat = 8110666802626586197 := by
    decide
  rw [encodeVarint, zigzagged,
    @Leb128.encode_eq_continued_append 8 _ (by decide),
    encode_of_lt (by decide)]
  rfl

theorem prefix_of_append_eq
    {short rest long others : Bytes} (same : short ++ rest = long ++ others)
    (fits : short.length ≤ long.length) :
    ∃ tail, long = short ++ tail := by
  have isPrefix : short <+: long :=
    prefix_of_prefix_length_le (prefix_append short rest)
      (same ▸ prefix_append long others) fits
  obtain ⟨tail, isLong⟩ := isPrefix
  exact ⟨tail, isLong.symm⟩

/--
A nonempty list of exact second differences never has the reader's bytes start
with its own.
-/
theorem varints_ne_fixed
    {written read : List Int64} {values : List Int64} (nonempty : written ≠ [])
    (isPrefix : written <+: read)
    (exact :
      values.map Int64.toInt = summedTwice 0 0 (written.map Int64.toInt)) :
    written.flatMap encodeVarint ≠ read.flatMap int64Bytes := by
  intro same
  obtain ⟨others, rfl⟩ := isPrefix
  obtain ⟨first, rest, rfl⟩ := exists_cons_of_ne_nil nonempty
  rw [cons_append, flatMap_cons, flatMap_cons] at same
  by_cases short : (encodeVarint first).length ≤ 8
  · -- the first number is zero, and the reader is seven zero bytes ahead
    obtain ⟨tail, within⟩ := prefix_of_append_eq same (by simpa using short)
    obtain ⟨rfl, _⟩ := @eq_zero_of_varint_within [] tail first within
    rw [encodeVarint_zero,
      show int64Bytes 0 = [0] ++ List.replicate 7 0 by decide,
      append_assoc] at same
    exact flatMap_encodeVarint_ne (prefix_append rest others)
      (append_cancel_left same)
  · -- the first number is the long one, and one byte of it is left over
    have large := @Leb128.pow_le_of_lt_length _ 7 (not_le.mp short)
    have firstBytes := encode_eq_continued_append large
    rw [← encodeVarint] at firstBytes
    have isLong : first = longFirst := by
      rw [firstBytes, append_assoc] at same
      exact eq_longFirst (append_inj_left same (by simp)).symm
    subst isLong
    rw [encodeVarint_longFirst, append_assoc] at same
    have leftOver := append_inj_right same (by simp)
    cases rest with
    | nil =>
      have lengths := congrArg List.length leftOver
      simp [length_flatMap] at lengths
      omega
    | cons second tail =>
      have leftOver :
          ([112] ++ encodeVarint second) ++ tail.flatMap encodeVarint =
            int64Bytes second ++ (tail ++ others).flatMap int64Bytes :=
        leftOver
      by_cases shortSecond : (encodeVarint second).length ≤ 7
      · obtain ⟨_, within⟩ :=
          prefix_of_append_eq leftOver (by
            rw [length_int64Bytes, length_append]
            exact Nat.add_le_add_left shortSecond 1)
        have zeroByte := (eq_zero_of_varint_within within).2
        exact absurd zeroByte (by decide)
      · have largeSecond :=
          @Leb128.pow_le_of_lt_length _ 6 (not_le.mp shortSecond)
        have secondBytes := encode_eq_continued_append largeSecond
        rw [← encodeVarint] at secondBytes
        have isLongSecond : second = longSecond := by
          rw [secondBytes, ← append_assoc, append_assoc] at leftOver
          exact eq_longSecond (append_inj_left leftOver (by simp)).symm
        subst isLongSecond
        exact not_exact_long exact

end ChronoDB.Columnstore
