import ChronoDB.Columnstore.BlockFormat

namespace ChronoDB.Columnstore.BlockFormat

open Library Compression List

/-!
# Timestamps of a block

A second difference is written in the fewest bytes, but two that fit one byte
are taken for flags.  Whatever the decoder reads for these takes more bytes than
were written, so it never reads as many timestamps as there were.
-/

/-!
## The code of second differences
-/

/-- The bytes that are read as a list of second differences. -/
inductive Codes : List Int64 → Bytes → Prop where
  | nil : Codes [] []
  | cons
      {code rest : Bytes}
      {delta : Int64}
      {deltas : List Int64}
      (isCode : IsCode code delta)
      (codes : Codes deltas rest) :
      Codes (delta :: deltas) (code ++ rest)

theorem plus_eq_some_iff {first second sum : Int64} :
    plus first second = some sum ↔ sum.toInt = first.toInt + second.toInt :=
  @addToLast_eq_some_iff (some first) second sum

variable {prevDelta last : Int64} {first second : Int64} {buffer : Bytes}

theorem exists_plus_iff :
    (∃ sum, plus first second = some sum) ↔
      FitsInt64 (first.toInt + second.toInt) := by
  rw [plus]
  split
  · next fits =>
    exact iff_of_true ⟨_, rfl⟩ fits
  · next overflows =>
    refine iff_of_false ?_ overflows
    rintro ⟨_, isSum⟩
    cases isSum

theorem codes_of_decodeDeltas {timestamps : List Timestamp}
    (decoded : decodeDeltas prevDelta last buffer = some timestamps) :
    ∃ deltas,
      Codes deltas buffer ∧
        SecondSumsFit last.toInt prevDelta.toInt deltas ∧
          timestamps.map Int64.toInt =
            summedTwice last.toInt prevDelta.toInt
              (deltas.map Int64.toInt) := by
  induction prevDelta, last, buffer using decodeDeltas.induct
    generalizing timestamps with
  | case1 prevDelta last =>
    rw [decodeDeltas, if_pos rfl] at decoded
    cases decoded
    exact ⟨[], .nil, trivial, rfl⟩
  | case2 prevDelta last buffer notEmpty notRead =>
    rw [decodeDeltas, if_neg notEmpty] at decoded
    split at decoded
    · cases decoded
    · next isRead =>
      cases notRead.symm.trans isRead
  | case3 prevDelta last buffer notEmpty delta rest read
      inductionHypothesis =>
    rw [decodeDeltas, if_neg notEmpty] at decoded
    split at decoded
    · cases decoded
    · next isRead =>
      cases read.symm.trans isRead
      obtain ⟨nextDelta, isDelta, decoded⟩ := Option.bind_eq_some_iff.mp decoded
      obtain ⟨next, isNext, decoded⟩ := Option.bind_eq_some_iff.mp decoded
      obtain ⟨later, isLater, rfl⟩ := Option.map_eq_some_iff.mp decoded
      obtain ⟨deltas, codes, sumsFit, isSum⟩ :=
        inductionHypothesis nextDelta next isLater
      obtain ⟨code, isCode, rfl⟩ := getDelta_eq_some_iff.mp read
      have deltaFits := exists_plus_iff.mp ⟨_, isDelta⟩
      have nextFits := exists_plus_iff.mp ⟨_, isNext⟩
      rw [plus_eq_some_iff] at isDelta isNext
      rw [isNext, isDelta] at sumsFit isSum
      rw [isDelta] at nextFits
      refine ⟨delta :: deltas, .cons isCode codes,
        ⟨deltaFits, nextFits, sumsFit⟩, ?_⟩
      rw [map_cons, map_cons, summedTwice_cons, isSum, isNext, isDelta]

theorem Codes.exists_decodeDeltas
    {deltas : List Int64} (codes : Codes deltas buffer)
    (sumsFit : SecondSumsFit last.toInt prevDelta.toInt deltas) :
    ∃ timestamps,
      decodeDeltas prevDelta last buffer = some timestamps ∧
        timestamps.map Int64.toInt =
          summedTwice last.toInt prevDelta.toInt (deltas.map Int64.toInt) := by
  induction codes generalizing prevDelta last with
  | nil => exact ⟨[], by rw [decodeDeltas, if_pos rfl], rfl⟩
  | @cons code rest delta deltas isCode codes inductionHypothesis =>
    obtain ⟨deltaFits, nextFits, sumsFit⟩ := sumsFit
    obtain ⟨nextDelta, isDelta⟩ := exists_plus_iff.mpr deltaFits
    have exactDelta := plus_eq_some_iff.mp isDelta
    rw [← exactDelta] at nextFits
    obtain ⟨next, isNext⟩ := exists_plus_iff.mpr nextFits
    have exactNext := plus_eq_some_iff.mp isNext
    rw [← exactDelta, ← exactNext] at sumsFit
    obtain ⟨later, isLater, isSum⟩ := inductionHypothesis sumsFit
    refine ⟨next :: later, ?_, ?_⟩
    · have notEmpty : code ++ rest ≠ [] := by
        cases isCode <;> simp
      have read : getDelta.run (code ++ rest) = some (delta, rest) :=
        getDelta_eq_some_iff.mpr ⟨code, isCode, rfl⟩
      rw [decodeDeltas, if_neg notEmpty]
      split
      · next notRead =>
        cases notRead.symm.trans read
      · next isRead =>
        cases isRead.symm.trans read
        rw [isDelta, Option.bind_some, isNext, Option.bind_some, isLater]
        rfl
    · rw [map_cons, map_cons, summedTwice_cons, isSum, ← exactDelta,
        ← exactNext]

/-!
## What the encoder writes
-/

theorem isCode_encodeDelta
    {delta : Int64} (notShort : delta ≠ -128) (notLong : delta ≠ -127) :
    IsCode (encodeDelta delta) delta := by
  rw [encodeDelta]
  split
  · next isSmall =>
    have narrowed : delta.toInt8.toInt64 = delta := by
      rw [← Int64.toInt_inj, Int8.toInt_toInt64, Int64.toInt_toInt8]
      exact Int.bmod_eq_of_le (by omega) (by omega)
    have isByte := IsCode.small delta.toInt8.toUInt8
    rw [Int8.toInt8_toUInt8, narrowed] at isByte
    refine isByte (fun isFlag => notShort ?_) (fun isFlag => notLong ?_)
    · rw [← narrowed, ← Int8.toInt8_toUInt8 delta.toInt8, isFlag]
      rfl
    · rw [← narrowed, ← Int8.toInt8_toUInt8 delta.toInt8, isFlag]
      rfl
  · split
    · next isShort =>
      have narrowed : delta.toInt16.toInt64 = delta := by
        rw [← Int64.toInt_inj, Int16.toInt_toInt64, Int64.toInt_toInt16]
        exact Int.bmod_eq_of_le (by omega) (by omega)
      have isCode := IsCode.short delta.toInt16
      rw [narrowed] at isCode
      exact isCode
    · exact .long delta

theorem length_encodeDelta (delta : Int64) :
    (encodeDelta delta).length =
      if -128 ≤ delta.toInt ∧ delta.toInt ≤ 127 then 1
      else if -32768 ≤ delta.toInt ∧ delta.toInt ≤ 32767 then 3
      else 9 := by
  rw [encodeDelta]
  split
  · rfl
  · split
    · rw [length_cons, length_putI16]
    · rw [length_cons, length_putI64]

theorem IsCode.encodeDelta_length_le
    {code : Bytes} {delta : Int64} (isCode : IsCode code delta) :
    (encodeDelta delta).length ≤ code.length ∧
      (delta = -128 ∨ delta = -127 →
        (encodeDelta delta).length < code.length) := by
  have ofFlag (isFlag : delta = -128 ∨ delta = -127) :
      (encodeDelta delta).length = 1 := by
    rcases isFlag with rfl | rfl <;> rfl
  cases isCode with
  | small flag notShort notLong =>
    have below := flag.toInt8.toInt_lt
    have above := flag.toInt8.le_toInt
    have isOne : (encodeDelta flag.toInt8.toInt64).length = 1 := by
      rw [length_encodeDelta, Int8.toInt_toInt64, if_pos (by omega)]
    have byteOf {number : Int8} (same : flag.toInt8.toInt64 = number.toInt64) :
        flag = number.toUInt8 := by
      have sameInt := congrArg Int64.toInt same
      rw [Int8.toInt_toInt64, Int8.toInt_toInt64, Int8.toInt_inj] at sameInt
      rw [← sameInt, UInt8.toUInt8_toInt8]
    refine ⟨isOne.le, ?_⟩
    rintro (isFlag | isFlag)
    · exact (notShort (@byteOf (-128) isFlag)).elim
    · exact (notLong (@byteOf (-127) isFlag)).elim
  | short number =>
    have below := number.toInt_lt
    have above := number.le_toInt
    rw [length_cons, length_putI16]
    refine ⟨?_, fun isFlag => by rw [ofFlag isFlag]; decide⟩
    rw [length_encodeDelta, Int16.toInt_toInt64]
    split
    · exact Nat.le_add_left _ _
    · rw [if_pos (by omega)]
  | long number =>
    rw [length_cons, length_putI64]
    refine ⟨?_, fun isFlag => by rw [ofFlag isFlag]; decide⟩
    rw [length_encodeDelta]
    split_ifs <;> decide

theorem Codes.length_encode
    {deltas : List Int64} (codes : Codes deltas buffer) :
    (deltas.flatMap encodeDelta).length ≤ buffer.length ∧
      ((∃ delta ∈ deltas, delta = -128 ∨ delta = -127) →
        (deltas.flatMap encodeDelta).length < buffer.length) := by
  induction codes with
  | nil =>
    exact ⟨le_rfl, fun ⟨_, isMember, _⟩ => by cases isMember⟩
  | @cons code rest delta deltas isCode codes inductionHypothesis =>
    obtain ⟨noShorter, longer⟩ := isCode.encodeDelta_length_le
    obtain ⟨restNoShorter, restLonger⟩ := inductionHypothesis
    rw [flatMap_cons, length_append, length_append]
    refine ⟨Nat.add_le_add noShorter restNoShorter, ?_⟩
    rintro ⟨flag, isMember, isFlag⟩
    rcases mem_cons.mp isMember with rfl | isLater
    · exact Nat.add_lt_add_of_lt_of_le (longer isFlag) restNoShorter
    · exact Nat.add_lt_add_of_le_of_lt noShorter
        (restLonger ⟨flag, isLater, isFlag⟩)

theorem codes_flatMap_encodeDelta_iff (deltas : List Int64) :
    Codes deltas (deltas.flatMap encodeDelta) ↔
      ∀ delta ∈ deltas, delta ≠ -128 ∧ delta ≠ -127 := by
  constructor
  · intro codes delta isMember
    rw [← not_or]
    intro isFlag
    exact Nat.lt_irrefl _ (codes.length_encode.2 ⟨delta, isMember, isFlag⟩)
  · intro noFlags
    induction deltas with
    | nil => exact .nil
    | cons delta deltas inductionHypothesis =>
      obtain ⟨⟨notShort, notLong⟩, others⟩ := forall_mem_cons.mp noFlags
      rw [flatMap_cons]
      exact .cons (isCode_encodeDelta notShort notLong)
        (inductionHypothesis others)

theorem minus_eq_some_iff {first second difference : Int64} :
    minus first second = some difference ↔
      first.toInt = second.toInt + difference.toInt := by
  rw [minus]
  constructor
  · intro isDifference
    split at isDifference
    · next fits =>
      cases isDifference
      rw [fits.toInt_sub]
      omega
    · cases isDifference
  · intro isSum
    have isDifference : first.toInt - second.toInt = difference.toInt := by
      omega
    have fits : FitsInt64 (first.toInt - second.toInt) := by
      rw [isDifference]
      exact fitsInt64_toInt difference
    rw [if_pos fits, Option.some.injEq, ← Int64.toInt_inj, fits.toInt_sub,
      isDifference]

theorem exists_minus_iff :
    (∃ difference, minus first second = some difference) ↔
      FitsInt64 (first.toInt - second.toInt) := by
  rw [minus]
  split
  · next fits =>
    exact iff_of_true ⟨_, rfl⟩ fits
  · next overflows =>
    refine iff_of_false ?_ overflows
    rintro ⟨_, isSome⟩
    cases isSome

theorem secondDeltas_eq_some {timestamps deltas : List Int64}
    (computed : secondDeltas prevDelta last timestamps = some deltas) :
    SecondSumsFit last.toInt prevDelta.toInt deltas ∧
      timestamps.map Int64.toInt =
        summedTwice last.toInt prevDelta.toInt (deltas.map Int64.toInt) := by
  induction timestamps generalizing prevDelta last deltas with
  | nil =>
    cases computed
    exact ⟨trivial, rfl⟩
  | cons timestamp rest inductionHypothesis =>
    obtain ⟨delta, isDelta, computed⟩ := Option.bind_eq_some_iff.mp computed
    obtain ⟨dod, isDod, computed⟩ := Option.bind_eq_some_iff.mp computed
    obtain ⟨later, isLater, rfl⟩ := Option.map_eq_some_iff.mp computed
    obtain ⟨sumsFit, isSum⟩ := inductionHypothesis isLater
    rw [minus_eq_some_iff] at isDelta isDod
    rw [isDelta, isDod] at sumsFit isSum
    refine ⟨⟨?_, ?_, sumsFit⟩, ?_⟩
    · rw [← isDod]
      exact fitsInt64_toInt delta
    · rw [← isDod, ← isDelta]
      exact fitsInt64_toInt timestamp
    · rw [map_cons, isSum, map_cons, summedTwice_cons, isDelta, isDod]

theorem exists_secondDeltas_iff
    (prevDelta last : Int64) (timestamps : List Int64) :
    (∃ deltas, secondDeltas prevDelta last timestamps = some deltas) ↔
      DifferencesFit last.toInt prevDelta.toInt timestamps := by
  induction timestamps generalizing prevDelta last with
  | nil => exact iff_of_true ⟨[], rfl⟩ trivial
  | cons timestamp rest inductionHypothesis =>
    rw [DifferencesFit]
    constructor
    · rintro ⟨deltas, computed⟩
      obtain ⟨delta, isDelta, computed⟩ := Option.bind_eq_some_iff.mp computed
      obtain ⟨dod, isDod, computed⟩ := Option.bind_eq_some_iff.mp computed
      obtain ⟨later, isLater, _⟩ := Option.map_eq_some_iff.mp computed
      have deltaFits := exists_minus_iff.mp ⟨_, isDelta⟩
      have dodFits := exists_minus_iff.mp ⟨_, isDod⟩
      have laterFit := (inductionHypothesis _ _).mp ⟨_, isLater⟩
      have exact : delta.toInt = timestamp.toInt - last.toInt := by
        rw [minus_eq_some_iff] at isDelta
        omega
      rw [exact] at dodFits laterFit
      exact ⟨deltaFits, dodFits, laterFit⟩
    · rintro ⟨deltaFits, dodFits, laterFit⟩
      obtain ⟨delta, isDelta⟩ := exists_minus_iff.mpr deltaFits
      have exact : delta.toInt = timestamp.toInt - last.toInt := by
        have sums := minus_eq_some_iff.mp isDelta
        omega
      rw [← exact] at dodFits laterFit
      obtain ⟨dod, isDod⟩ := exists_minus_iff.mpr dodFits
      obtain ⟨later, isLater⟩ := (inductionHypothesis _ _).mpr laterFit
      refine ⟨dod :: later, ?_⟩
      rw [secondDeltas, isDelta, Option.bind_some, isDod, Option.bind_some,
        isLater]
      rfl

/-!
## The timestamps alone
-/

/-- First and second differences fit, and no second difference is a flag. -/
structure DifferencesCodable (timestamps : List Timestamp) : Prop where
  differencesFit :
    ∀ difference ∈ differences (timestamps.map Int64.toInt),
      FitsInt64 difference
  secondDifferencesFit :
    ∀ difference ∈ differences (differences (timestamps.map Int64.toInt)),
      FitsInt64 difference
  noFlags :
    ∀ difference ∈ differences (differences (timestamps.map Int64.toInt)),
      difference ≠ -128 ∧ difference ≠ -127

theorem differencesFit_iff (last delta : ℤ) (timestamps : List Timestamp) :
    DifferencesFit last delta timestamps ↔
      (∀ difference ∈ differences (last :: timestamps.map Int64.toInt),
          FitsInt64 difference) ∧
        ∀ difference ∈ differences
            (delta :: differences (last :: timestamps.map Int64.toInt)),
          FitsInt64 difference := by
  induction timestamps generalizing last delta with
  | nil => exact iff_of_true trivial ⟨forall_mem_nil _, forall_mem_nil _⟩
  | cons timestamp rest inductionHypothesis =>
    rw [DifferencesFit, inductionHypothesis, map_cons, differences,
      differences, forall_mem_cons, forall_mem_cons]
    tauto

theorem exists_encodeTimestamps_iff (first second : Int64) (rest : List Int64) :
    (∃ data, encodeTimestamps (first :: second :: rest) = some data) ↔
      (∀ difference ∈ differences ((first :: second :: rest).map Int64.toInt),
        FitsInt64 difference) ∧
      ∀ difference ∈ differences
          (differences ((first :: second :: rest).map Int64.toInt)),
        FitsInt64 difference := by
  rw [map_cons, map_cons, differences, forall_mem_cons,
    and_assoc, ← differencesFit_iff]
  constructor
  · rintro ⟨data, encoded⟩
    obtain ⟨firstDelta, isFirst, encoded⟩ := Option.bind_eq_some_iff.mp encoded
    obtain ⟨deltas, isDeltas, _⟩ := Option.map_eq_some_iff.mp encoded
    have exact := minus_eq_some_iff.mp isFirst
    have deltasFit := (exists_secondDeltas_iff _ _ _).mp ⟨_, isDeltas⟩
    have isDifference : firstDelta.toInt = second.toInt - first.toInt := by
      omega
    rw [isDifference] at deltasFit
    exact ⟨exists_minus_iff.mp ⟨_, isFirst⟩, deltasFit⟩
  · rintro ⟨firstFits, deltasFit⟩
    obtain ⟨firstDelta, isFirst⟩ := exists_minus_iff.mpr firstFits
    have exact := minus_eq_some_iff.mp isFirst
    have isDifference : firstDelta.toInt = second.toInt - first.toInt := by
      omega
    rw [← isDifference] at deltasFit
    obtain ⟨deltas, isDeltas⟩ := (exists_secondDeltas_iff _ _ _).mpr deltasFit
    exact ⟨_, by rw [encodeTimestamps, isFirst, Option.bind_some, isDeltas,
      Option.map_some]⟩

theorem decodeTimestamps_put {first firstDelta second : Int64}
    (isSecond : plus first firstDelta = some second) (buffer : Bytes) :
    decodeTimestamps (putI64 first ++ (putI64 firstDelta ++ buffer)) =
      checked ((decodeDeltas firstDelta second buffer).map fun later =>
        first :: second :: later) := by
  have enough :
      ¬(putI64 first ++ (putI64 firstDelta ++ buffer)).length < 16 := by
    simp
    omega
  rw [decodeTimestamps, if_neg enough, decodeAll, run_getI64_putI64,
    Option.bind_some]
  dsimp only
  rw [run_getI64_putI64, Option.bind_some]
  dsimp only
  rw [isSecond, Option.bind_some]

theorem decodeTimestamps_encode_iff {rest : List Int64} {data : Bytes}
    (encoded : encodeTimestamps (first :: second :: rest) = some data) :
    decodeTimestamps data = .ok (first :: second :: rest) ↔
      ∀ difference ∈ differences
          (differences ((first :: second :: rest).map Int64.toInt)),
        difference ≠ -128 ∧ difference ≠ -127 := by
  obtain ⟨firstDelta, isFirst, encoded⟩ := Option.bind_eq_some_iff.mp encoded
  obtain ⟨deltas, isDeltas, rfl⟩ := Option.map_eq_some_iff.mp encoded
  have exactFirst := minus_eq_some_iff.mp isFirst
  obtain ⟨sumsFit, isSum⟩ := secondDeltas_eq_some isDeltas
  have isDifference : firstDelta.toInt = second.toInt - first.toInt := by
    omega
  have areDifferences :
      differences (differences ((first :: second :: rest).map Int64.toInt)) =
        deltas.map Int64.toInt := by
    rw [map_cons, map_cons, differences, ← isDifference, isSum,
      differences_summedTwice]
  have fromCodes :
      decodeDeltas firstDelta second (deltas.flatMap encodeDelta) = some rest ↔
        Codes deltas (deltas.flatMap encodeDelta) := by
    constructor
    · intro decoded
      obtain ⟨read, codes, _, isRead⟩ := codes_of_decodeDeltas decoded
      have same : read = deltas :=
        map_injective_iff.mpr (fun _ _ => Int64.toInt_inj.mp)
          (summedTwice_injective (isRead.symm.trans isSum))
      rw [same] at codes
      exact codes
    · intro codes
      obtain ⟨read, decoded, isRead⟩ := codes.exists_decodeDeltas sumsFit
      have same : read = rest :=
        map_injective_iff.mpr (fun _ _ => Int64.toInt_inj.mp)
          (isRead.trans isSum.symm)
      rw [same] at decoded
      exact decoded
  have isMapped :
      checked ((decodeDeltas firstDelta second
            (deltas.flatMap encodeDelta)).map fun later =>
          first :: second :: later) = .ok (first :: second :: rest) ↔
        decodeDeltas firstDelta second (deltas.flatMap encodeDelta) =
          some rest := by
    rw [checked_eq_ok_iff, Option.map_eq_some_iff]
    constructor
    · rintro ⟨later, isLater, same⟩
      cases same
      exact isLater
    · intro isLater
      exact ⟨rest, isLater, rfl⟩
  rw [decodeTimestamps_put (plus_eq_some_iff.mpr exactFirst), isMapped,
    fromCodes, codes_flatMap_encodeDelta_iff, areDifferences, forall_mem_map]
  refine forall₂_congr fun delta _ => ?_
  rw [ne_eq, ne_eq, ne_eq, ne_eq, ← Int64.toInt_inj, ← Int64.toInt_inj]
  rfl

theorem exists_decoded_iff (timestamps : List Timestamp) :
    (∃ data,
        encodeTimestamps timestamps = some data ∧
          decodeTimestamps data = .ok timestamps) ↔
      2 ≤ timestamps.length ∧ DifferencesCodable timestamps := by
  have tooShort (few : List Timestamp) (isFew : few.length < 2) :
      decodeTimestamps (few.flatMap putI64) ≠ .ok few := by
    have short : (few.flatMap putI64).length < 16 := by
      rw [length_flatMap]
      simp only [length_putI64, map_const', sum_replicate_nat]
      omega
    intro decoded
    rw [decodeTimestamps, if_pos short] at decoded
    cases decoded
  match timestamps with
  | [] =>
    refine iff_of_false ?_ (fun several => by simp at several)
    rintro ⟨data, encoded, decoded⟩
    cases encoded
    exact tooShort [] (by decide) decoded
  | [only] =>
    refine iff_of_false ?_ (fun several => by simp at several)
    rintro ⟨data, encoded, decoded⟩
    cases encoded
    exact tooShort [only] (Nat.lt_succ_self 1) decoded
  | first :: second :: rest =>
    constructor
    · rintro ⟨data, encoded, decoded⟩
      obtain ⟨fit, secondFit⟩ :=
        (exists_encodeTimestamps_iff _ _ _).mp ⟨data, encoded⟩
      exact ⟨Nat.le_add_left _ _, fit, secondFit,
        (decodeTimestamps_encode_iff encoded).mp decoded⟩
    · rintro ⟨_, codable⟩
      obtain ⟨data, encoded⟩ := (exists_encodeTimestamps_iff _ _ _).mpr
        ⟨codable.differencesFit, codable.secondDifferencesFit⟩
      exact ⟨data, encoded,
        (decodeTimestamps_encode_iff encoded).mpr codable.noFlags⟩

theorem length_encodeTimestamps_le {timestamps : List Timestamp} {data : Bytes}
    (encoded : encodeTimestamps timestamps = some data) :
    data.length ≤ 16 + 9 * timestamps.length := by
  have atMostNine (delta : Int64) : (encodeDelta delta).length ≤ 9 := by
    rw [length_encodeDelta]
    split_ifs <;> decide
  have together (deltas : List Int64) :
      (deltas.flatMap encodeDelta).length ≤ 9 * deltas.length := by
    induction deltas with
    | nil => exact le_rfl
    | cons delta rest inductionHypothesis =>
      have first := atMostNine delta
      rw [flatMap_cons, length_append, length_cons]
      omega
  match timestamps with
  | [] =>
    cases encoded
    exact Nat.zero_le _
  | [only] =>
    cases encoded
    simp
  | first :: second :: rest =>
    obtain ⟨firstDelta, _, encoded⟩ := Option.bind_eq_some_iff.mp encoded
    obtain ⟨deltas, isDeltas, rfl⟩ := Option.map_eq_some_iff.mp encoded
    have sameLength := congrArg List.length (secondDeltas_eq_some isDeltas).2
    have bound := together deltas
    simp only [length_map, length_summedTwice] at sameLength
    simp only [length_append, length_putI64, length_cons]
    omega

end ChronoDB.Columnstore.BlockFormat
