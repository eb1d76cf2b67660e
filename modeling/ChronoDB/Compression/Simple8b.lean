import ChronoDB.Compression.DeltaDecoder
import ChronoDB.Library.WordBits

namespace ChronoDB.Compression

open Library List

/-!
# Simple8b packing

A word holds a selector in its four high bits and values of one width below.
The width comes from the largest of the values that are left, but it is too
small for every class of values, and the selectors of the two widest classes do
not fit four bits.  So only zeros come back.
-/

/-- The bits of each value and the values of a word, for the largest value. -/
def simple8bClass (maxValue : ℕ) : ℕ × ℕ :=
  if maxValue ≤ 1 then (0, 60)
  else if maxValue ≤ 3 then (1, 30)
  else if maxValue ≤ 15 then (2, 20)
  else if maxValue ≤ 255 then (4, 15)
  else if maxValue ≤ 65535 then (8, 7)
  else if maxValue ≤ 4294967295 then (16, 3)
  else (32, 1)

/-- `values.iter().max().unwrap_or(&0)`. -/
def maxValue (values : List UInt64) : ℕ :=
  (values.map UInt64.toNat).max?.getD 0

/-- A value in its place in the word. -/
def placed (values : List UInt64) (bitsPerValue place : ℕ) : UInt64 :=
  (values.getD place 0 &&& lowMask bitsPerValue) <<<
    UInt64.ofNat (place * bitsPerValue)

def encodeSimple8bChunk (values : List UInt64) : UInt64 × ℕ :=
  if values = [] then
    (0, 0)
  else
    let bitsPerValue := (simple8bClass (maxValue values)).1
    let count := min (simple8bClass (maxValue values)).2 values.length
    ((List.range count).foldl
      (fun result place => result ||| placed values bitsPerValue place)
      (UInt64.ofNat bitsPerValue <<< 60), count)

theorem simple8bClass_count_pos (maxValue : ℕ) :
    0 < (simple8bClass maxValue).2 := by
  rw [simple8bClass]
  split_ifs <;> decide

variable {values : List UInt64}

theorem encodeSimple8bChunk_count_pos (nonempty : values ≠ []) :
    0 < (encodeSimple8bChunk values).2 := by
  rw [encodeSimple8bChunk, if_neg nonempty]
  exact lt_min (simple8bClass_count_pos _) (length_pos_iff.mpr nonempty)

def encodeSimple8b (values : List UInt64) : List UInt64 :=
  if _nonempty : values = [] then
    []
  else
    let chunk := encodeSimple8bChunk values
    chunk.1 :: encodeSimple8b (values.drop chunk.2)
termination_by values.length
decreasing_by
  have taken := encodeSimple8bChunk_count_pos _nonempty
  have positive := length_pos_iff.mpr _nonempty
  rw [length_drop]
  omega

def selectedClass (selector : UInt8) : Option (ℕ × ℕ) :=
  if selector = 0 then some (0, 60)
  else if selector = 1 then some (1, 30)
  else if selector = 2 then some (2, 20)
  else if selector = 4 then some (4, 15)
  else if selector = 8 then some (8, 7)
  else if selector = 16 then some (16, 3)
  else if selector = 32 then some (32, 1)
  else none

def decodeSimple8b (encoded : UInt64) : List UInt64 :=
  match selectedClass (encoded >>> 60).toUInt8 with
  | none => []
  | some (bitsPerValue, count) =>
    (List.range count).map fun place =>
      (encoded >>> UInt64.ofNat (place * bitsPerValue)) &&& lowMask bitsPerValue

/-- The values come back, before any padding. -/
def Lossless (values : List UInt64) : Prop :=
  values <+: (encodeSimple8b values).flatMap decodeSimple8b

/-!
## What comes back from a word
-/

theorem simple8bClass_fits (maxValue : ℕ) :
    (simple8bClass maxValue).1 * (simple8bClass maxValue).2 ≤ 60 := by
  rw [simple8bClass]
  split_ifs <;> decide

theorem placed_shiftRight (values : List UInt64) {bitsPerValue place count : ℕ}
    (fits : bitsPerValue * count ≤ 60) (inWord : place < count) :
    placed values bitsPerValue place >>> 60 = 0 := by
  have upTo : bitsPerValue + place * bitsPerValue ≤ 60 := by
    calc bitsPerValue + place * bitsPerValue
        = bitsPerValue * (place + 1) := by ring
      _ ≤ bitsPerValue * count := Nat.mul_le_mul_left _ inWord
      _ ≤ 60 := fits
  have shift : place * bitsPerValue < 64 := by omega
  have masked :=
    toNat_and_lowMask_lt (show bitsPerValue < 64 by omega) (values.getD place 0)
  have below :
      (values.getD place 0 &&& lowMask bitsPerValue).toNat *
          2 ^ (place * bitsPerValue) < 2 ^ 60 := by
    calc (values.getD place 0 &&& lowMask bitsPerValue).toNat *
            2 ^ (place * bitsPerValue)
        < 2 ^ bitsPerValue * 2 ^ (place * bitsPerValue) :=
          Nat.mul_lt_mul_of_pos_right masked (Nat.two_pow_pos _)
      _ = 2 ^ (bitsPerValue + place * bitsPerValue) := (pow_add 2 _ _).symm
      _ ≤ 2 ^ 60 := Nat.pow_le_pow_right (by decide) upTo
  have small : (placed values bitsPerValue place).toNat < 2 ^ 60 := by
    rw [placed, UInt64.toNat_shiftLeft, UInt64.toNat_ofNat',
      Nat.mod_eq_of_lt (show place * bitsPerValue < 2 ^ 64 by omega),
      Nat.mod_eq_of_lt shift, Nat.shiftLeft_eq]
    exact (Nat.mod_le _ _).trans_lt below
  apply UInt64.toNat_inj.mp
  rw [UInt64.toNat_shiftRight, Nat.shiftRight_eq_div_pow]
  exact Nat.div_eq_of_lt small

theorem foldl_or_shiftRight {place : ℕ → UInt64} {places : List ℕ}
    (below : ∀ index ∈ places, place index >>> 60 = 0) (result : UInt64) :
    places.foldl (fun result index => result ||| place index) result >>> 60 =
      result >>> 60 := by
  induction places generalizing result with
  | nil => rfl
  | cons index rest inductionHypothesis =>
    rw [forall_mem_cons] at below
    rw [foldl_cons, inductionHypothesis below.2,
      UInt64.shiftRight_or, below.1, UInt64.or_zero]

theorem encodeSimple8bChunk_selector (nonempty : values ≠ []) :
    (encodeSimple8bChunk values).1 >>> 60 =
      (UInt64.ofNat (simple8bClass (maxValue values)).1 <<< 60) >>> 60 := by
  rw [encodeSimple8bChunk, if_neg nonempty]
  refine foldl_or_shiftRight ?_ _
  intro place inWord
  exact placed_shiftRight values (simple8bClass_fits _)
    ((mem_range.mp inWord).trans_le (Nat.min_le_left _ _))

theorem selectedClass_of_simple8bClass {largest bitsPerValue count : ℕ}
    (selected :
      selectedClass
          ((UInt64.ofNat (simple8bClass largest).1 <<< 60) >>> 60).toUInt8 =
        some (bitsPerValue, count)) :
    bitsPerValue < 64 ∧ 2 ^ bitsPerValue ≤ max 1 largest := by
  have widths :
      selectedClass ((UInt64.ofNat 0 <<< 60) >>> 60).toUInt8 = some (0, 60) ∧
        selectedClass ((UInt64.ofNat 1 <<< 60) >>> 60).toUInt8 = some (1, 30) ∧
        selectedClass ((UInt64.ofNat 2 <<< 60) >>> 60).toUInt8 = some (2, 20) ∧
        selectedClass ((UInt64.ofNat 4 <<< 60) >>> 60).toUInt8 = some (4, 15) ∧
        selectedClass ((UInt64.ofNat 8 <<< 60) >>> 60).toUInt8 = some (8, 7) ∧
        selectedClass ((UInt64.ofNat 16 <<< 60) >>> 60).toUInt8 = some (0, 60) ∧
        selectedClass ((UInt64.ofNat 32 <<< 60) >>> 60).toUInt8 =
          some (0, 60) := by
    decide
  obtain ⟨zero, one, two, four, eight, sixteen, thirtyTwo⟩ := widths
  rw [simple8bClass] at selected
  split_ifs at selected
  · rw [zero] at selected
    cases selected
    omega
  · rw [one] at selected
    cases selected
    omega
  · rw [two] at selected
    cases selected
    omega
  · rw [four] at selected
    cases selected
    omega
  · rw [eight] at selected
    cases selected
    omega
  · rw [sixteen] at selected
    cases selected
    omega
  · rw [thirtyTwo] at selected
    cases selected
    omega

theorem decodeSimple8b_encodeSimple8bChunk_lt
    (nonempty : values ≠ []) {decoded : UInt64}
    (isDecoded :
      decoded ∈ decodeSimple8b (encodeSimple8bChunk values).1) :
    decoded.toNat < max 1 (maxValue values) := by
  rw [decodeSimple8b, encodeSimple8bChunk_selector nonempty] at isDecoded
  split at isDecoded
  · exact absurd isDecoded not_mem_nil
  · next bitsPerValue count selected =>
    obtain ⟨narrow, tooSmall⟩ := selectedClass_of_simple8bClass selected
    obtain ⟨place, _, rfl⟩ := mem_map.mp isDecoded
    exact (toNat_and_lowMask_lt narrow _).trans_le tooSmall

/-!
## Only zeros are packed without loss
-/

theorem maxValue_le_iff {values : List UInt64} {bound : ℕ} :
    maxValue values ≤ bound ↔ ∀ value ∈ values, value.toNat ≤ bound := by
  rw [maxValue]
  cases largest : (values.map UInt64.toNat).max? with
  | none =>
    rw [map_eq_nil_iff.mp (max?_eq_none_iff.mp largest)]
    simp
  | some found =>
    obtain ⟨isValue, isBound⟩ := max?_eq_some_iff.mp largest
    rw [Option.getD_some]
    constructor
    · intro below value isMember
      exact (isBound _ (mem_map_of_mem isMember)).trans below
    · intro below
      obtain ⟨value, isMember, rfl⟩ := mem_map.mp isValue
      exact below value isMember

theorem decoded_lt_of_bound {bound : ℕ} (positive : 0 < bound)
    (bounded : ∀ value ∈ values, value.toNat ≤ bound) {decoded : UInt64}
    (isDecoded :
      decoded ∈ (encodeSimple8b values).flatMap decodeSimple8b) :
    decoded.toNat < bound := by
  induction values using encodeSimple8b.induct with
  | case1 =>
    rw [encodeSimple8b, dif_pos rfl] at isDecoded
    exact absurd isDecoded not_mem_nil
  | case2 values nonempty chunk inductionHypothesis =>
    rw [encodeSimple8b, dif_neg nonempty, flatMap_cons, mem_append] at isDecoded
    rcases isDecoded with inFirst | inRest
    · have below := decodeSimple8b_encodeSimple8bChunk_lt nonempty inFirst
      exact below.trans_le (max_le positive (maxValue_le_iff.mpr bounded))
    · refine inductionHypothesis ?_ inRest
      intro value isLeft
      exact bounded value (mem_of_mem_drop isLeft)

theorem decodeSimple8b_zero : decodeSimple8b 0 = List.replicate 60 0 := by
  decide

theorem encodeSimple8bChunk_of_zeros
    (nonempty : values ≠ []) (zeros : ∀ value ∈ values, value = 0) :
    encodeSimple8bChunk values = (0, min 60 values.length) := by
  have noneLarger : maxValue values = 0 := by
    refine Nat.le_zero.mp (maxValue_le_iff.mpr ?_)
    intro value isMember
    rw [zeros value isMember]
    exact Nat.le_refl 0
  have isClass : simple8bClass (maxValue values) = (0, 60) := by
    rw [noneLarger]
    rfl
  have isPlaced (place : ℕ) : placed values 0 place = 0 := by
    rw [placed]
    have isMask : lowMask 0 = 0 := by decide
    rw [isMask, UInt64.and_zero, Nat.mul_zero]
    rfl
  have isZero (places : List ℕ) :
      places.foldl (fun result place => result ||| placed values 0 place) 0 =
        0 := by
    induction places with
    | nil => rfl
    | cons place rest inductionHypothesis =>
      rw [foldl_cons, isPlaced, UInt64.or_zero, inductionHypothesis]
  rw [encodeSimple8bChunk, if_neg nonempty, isClass]
  exact Prod.ext (isZero _) rfl

theorem lossless_of_zeros (zeros : ∀ value ∈ values, value = 0) :
    Lossless values := by
  induction values using encodeSimple8b.induct with
  | case1 => exact nil_prefix
  | case2 values nonempty chunk inductionHypothesis =>
    have isChunk := encodeSimple8bChunk_of_zeros nonempty zeros
    have isTake :
        values.take (min 60 values.length) =
          List.replicate (min 60 values.length) 0 := by
      refine eq_replicate_iff.mpr ⟨?_, ?_⟩
      · rw [length_take]
        omega
      · intro value isTaken
        exact zeros value (mem_of_mem_take isTaken)
    have rest : Lossless (values.drop chunk.2) := by
      refine inductionHypothesis ?_
      intro value isLeft
      exact zeros value (mem_of_mem_drop isLeft)
    rw [Lossless, encodeSimple8b, dif_neg nonempty, flatMap_cons]
    rw [show chunk = (0, min 60 values.length) from isChunk] at rest
    rw [isChunk, decodeSimple8b_zero]
    by_cases full : values.length ≤ 60
    · refine List.IsPrefix.trans ?_ (prefix_append _ _)
      rw [Nat.min_eq_right full, take_length] at isTake
      rw [isTake]
      exact ⟨List.replicate (60 - values.length) 0, by
        rw [replicate_append_replicate]
        congr 1
        omega⟩
    · rw [Nat.min_eq_left (Nat.le_of_not_le full)] at isTake rest ⊢
      have split : List.replicate 60 0 ++ values.drop 60 = values := by
        rw [← isTake, take_append_drop]
      nth_rewrite 1 [← split]
      exact (prefix_append_right_inj _).mpr rest

theorem lossless_iff {values : List UInt64} :
    Lossless values ↔ ∀ value ∈ values, value = 0 := by
  refine ⟨?_, lossless_of_zeros⟩
  intro lossless
  by_contra notZeros
  have positive : 0 < maxValue values := by
    rw [Nat.pos_iff_ne_zero]
    intro noneLarger
    refine notZeros fun value isMember => ?_
    have below := maxValue_le_iff.mp (Nat.le_of_eq noneLarger) value isMember
    exact UInt64.toNat_inj.mp (Nat.le_zero.mp below)
  have bounded := maxValue_le_iff.mp (Nat.le_refl (maxValue values))
  have smaller : ∀ value ∈ values, value.toNat ≤ maxValue values - 1 := by
    intro value isMember
    have below := decoded_lt_of_bound positive bounded (lossless.mem isMember)
    omega
  have least := maxValue_le_iff.mpr smaller
  omega

/-!
## Batches of timestamps
-/

/-- `-`, without a result when it overflows. -/
def minus (first second : Int64) : Option Int64 :=
  if FitsInt64 (first.toInt - second.toInt) then some (first - second)
  else none

/-- The differences of successive numbers, from a previous one. -/
def successiveDifferences (previous : Int64) :
    List Int64 → Option (List Int64)
  | [] => some []
  | value :: rest =>
    (minus value previous).bind fun difference =>
      (successiveDifferences value rest).map (difference :: ·)

/-- The first number, and the differences after it. -/
def firstAndDifferences : List Int64 → Option (List Int64)
  | [] => some []
  | first :: rest => (successiveDifferences first rest).map (first :: ·)

/-- The bytes of a batch, without a result when a difference overflows. -/
def encodeBatchOptimized (values : List Int64) :
    Option (Except Error Bytes) :=
  if values = [] then
    some (.ok [])
  else
    (firstAndDifferences values).bind fun deltas =>
      (firstAndDifferences deltas).map fun dods =>
        .ok ((encodeSimple8b (dods.map zigzagEncode)).flatMap fun word =>
          leBytes 8 word.toNat)

/-- The words that some bytes hold, eight little-endian bytes each. -/
def wordsOf (data : Bytes) : List UInt64 :=
  if data.length < 8 then
    []
  else
    UInt64.ofNat (leValue (data.take 8)) :: wordsOf (data.drop 8)
termination_by data.length
decreasing_by
  rw [length_drop]
  omega

/-- What undoes the steps of the batch encoder: two running sums at the end. -/
def decodeBatchOptimized (data : Bytes) : List Int64 :=
  summedTwice 0 0 (((wordsOf data).flatMap decodeSimple8b).map zigzagDecode)

/-- A batch is encoded, and comes back before any padding. -/
def LosslessBatch (timestamps : List Int64) : Prop :=
  ∃ encoded,
    encodeBatchOptimized timestamps = some (.ok encoded) ∧
      timestamps <+: decodeBatchOptimized encoded

theorem wordsOf_flatMap_leBytes (words : List UInt64) :
    wordsOf (words.flatMap fun word => leBytes 8 word.toNat) = words := by
  induction words with
  | nil =>
    rw [wordsOf]
    rfl
  | cons word rest inductionHypothesis =>
    have isTake :
        (leBytes 8 word.toNat ++
          rest.flatMap fun word => leBytes 8 word.toNat).take 8 =
            leBytes 8 word.toNat :=
      take_left' (length_leBytes 8 word.toNat)
    have isDrop :
        (leBytes 8 word.toNat ++
          rest.flatMap fun word => leBytes 8 word.toNat).drop 8 =
            rest.flatMap fun word => leBytes 8 word.toNat :=
      drop_left' (length_leBytes 8 word.toNat)
    have fits : word.toNat < 256 ^ 8 := word.toNat_lt
    rw [flatMap_cons, wordsOf, isTake, isDrop, inductionHypothesis,
      if_neg, leValue_leBytes_of_lt fits, UInt64.ofNat_toNat]
    rw [length_append, length_leBytes]
    omega

theorem summedTwice_of_successiveDifferences
    {value delta : Int64} {values deltas dods : List Int64}
    (first : successiveDifferences value values = some deltas)
    (second : successiveDifferences delta deltas = some dods) :
    summedTwice value delta dods = values := by
  induction values generalizing value delta deltas dods with
  | nil =>
    cases first
    cases second
    rfl
  | cons next rest inductionHypothesis =>
    obtain ⟨difference, isDifference, isDeltas⟩ :=
      Option.bind_eq_some_iff.mp first
    obtain ⟨later, isLater, rfl⟩ := Option.map_eq_some_iff.mp isDeltas
    obtain ⟨dod, isDod, isDods⟩ := Option.bind_eq_some_iff.mp second
    obtain ⟨laterDods, isLaterDods, rfl⟩ := Option.map_eq_some_iff.mp isDods
    have exact
        {number previous result : Int64}
        (computed : minus number previous = some result) :
        previous + result = number := by
      rw [minus] at computed
      split at computed
      · cases computed
        rw [Int64.add_comm, Int64.sub_add_cancel]
      · cases computed
    rw [summedTwice_cons, exact isDod, exact isDifference,
      inductionHypothesis isLater isLaterDods]

theorem exists_successiveDifferences {value delta : Int64} {values : List Int64}
    (fit : DifferencesFit value.toInt delta.toInt values) :
    ∃ deltas dods,
      successiveDifferences value values = some deltas ∧
        successiveDifferences delta deltas = some dods := by
  induction values generalizing value delta with
  | nil => exact ⟨[], [], rfl, rfl⟩
  | cons next rest inductionHypothesis =>
    obtain ⟨deltaFits, dodFits, restFit⟩ := fit
    rw [← deltaFits.toInt_sub] at dodFits restFit
    obtain ⟨deltas, dods, isDeltas, isDods⟩ := inductionHypothesis restFit
    refine ⟨(next - value) :: deltas, (next - value - delta) :: dods, ?_, ?_⟩
    · rw [successiveDifferences, minus, if_pos deltaFits, isDeltas]
      rfl
    · rw [successiveDifferences, minus, if_pos dodFits, isDods]
      rfl

theorem exists_encodeBatchOptimized
    {values : List Int64} (fit : DifferencesFit 0 0 values) :
    ∃ dods,
      encodeBatchOptimized values =
          some (.ok ((encodeSimple8b (dods.map zigzagEncode)).flatMap
            fun word => leBytes 8 word.toNat)) ∧
        summedTwice 0 0 dods = values := by
  cases values with
  | nil =>
    refine ⟨[], ?_, rfl⟩
    rw [map_nil, encodeSimple8b]
    rfl
  | cons first rest =>
    obtain ⟨_, _, restFit⟩ := fit
    rw [Int.sub_zero] at restFit
    obtain ⟨deltas, dods, isDeltas, isDods⟩ :=
      exists_successiveDifferences restFit
    refine ⟨first :: dods, ?_, ?_⟩
    · rw [encodeBatchOptimized, if_neg (cons_ne_nil first rest),
        firstAndDifferences, isDeltas, Option.map_some, Option.bind_some,
        firstAndDifferences, isDods]
      rfl
    · rw [summedTwice_cons, Int64.zero_add, Int64.zero_add,
        summedTwice_of_successiveDifferences isDeltas isDods]

theorem summedTwice_zeros_iff {dods : List Int64} :
    (∀ value ∈ summedTwice 0 0 dods, value = 0) ↔ ∀ dod ∈ dods, dod = 0 := by
  induction dods with
  | nil => rfl
  | cons dod rest inductionHypothesis =>
    rw [summedTwice_cons, forall_mem_cons, forall_mem_cons,
      Int64.zero_add, Int64.zero_add]
    refine and_congr_right ?_
    rintro rfl
    exact inductionHypothesis

theorem losslessBatch_iff_lossless {timestamps dods : List Int64}
    (isEncoded :
      encodeBatchOptimized timestamps =
        some (.ok ((encodeSimple8b (dods.map zigzagEncode)).flatMap
          fun word => leBytes 8 word.toNat)))
    (sums : summedTwice 0 0 dods = timestamps) :
    LosslessBatch timestamps ↔ Lossless (dods.map zigzagEncode) := by
  have isDecoded :
      LosslessBatch timestamps ↔
        summedTwice 0 0 dods <+:
          summedTwice 0 0
            (((encodeSimple8b (dods.map zigzagEncode)).flatMap
              decodeSimple8b).map zigzagDecode) := by
    rw [LosslessBatch, isEncoded, sums]
    constructor
    · rintro ⟨encoded, same, isPrefix⟩
      cases same
      rw [decodeBatchOptimized, wordsOf_flatMap_leBytes] at isPrefix
      exact isPrefix
    · intro isPrefix
      refine ⟨_, rfl, ?_⟩
      rw [decodeBatchOptimized, wordsOf_flatMap_leBytes]
      exact isPrefix
  rw [isDecoded, Lossless]
  generalize (encodeSimple8b (dods.map zigzagEncode)).flatMap
    decodeSimple8b = decoded
  constructor
  · intro isPrefix
    have back := (isPrefix_of_summedTwice isPrefix).map zigzagEncode
    have same : (decoded.map zigzagDecode).map zigzagEncode = decoded := by
      rw [map_map]
      exact map_id'' zigzagEncode_zigzagDecode decoded
    rw [same] at back
    exact back
  · intro isPrefix
    have back := isPrefix.map zigzagDecode
    have same : (dods.map zigzagEncode).map zigzagDecode = dods := by
      rw [map_map]
      exact map_id'' zigzagDecode_zigzagEncode dods
    rw [same] at back
    rw [prefix_iff_eq_take.mp back, ← take_summedTwice]
    exact take_prefix _ _

theorem losslessBatch_iff
    {timestamps : List Int64} (fit : DifferencesFit 0 0 timestamps) :
    LosslessBatch timestamps ↔ ∀ timestamp ∈ timestamps, timestamp = 0 := by
  obtain ⟨dods, isEncoded, sums⟩ := exists_encodeBatchOptimized fit
  rw [losslessBatch_iff_lossless isEncoded sums, lossless_iff, ← sums,
    summedTwice_zeros_iff, forall_mem_map]
  refine forall₂_congr fun dod _ => ?_
  constructor
  · intro zigzagged
    exact eq_zero_of_zigzagEncode (congrArg UInt64.toNat zigzagged)
  · rintro rfl
    decide

/-- Packing keeps lists of zeros, and no others. -/
theorem simple8b_lossless_iff_zeros (values : List UInt64)
    (timestamps : List Int64) :
    (Lossless values ↔ ∀ value ∈ values, value = 0) ∧
      (DifferencesFit 0 0 timestamps →
        (LosslessBatch timestamps ↔ ∀ timestamp ∈ timestamps, timestamp = 0)) :=
  ⟨lossless_iff, losslessBatch_iff⟩

/-- Two timestamps at the epoch come back. -/
theorem simple8b_lossless_epoch :
    DifferencesFit 0 0 [0, 0] ∧ LosslessBatch [0, 0] := by
  have fit : DifferencesFit 0 0 [0, 0] := by
    simp only [DifferencesFit, FitsInt64]
    decide
  exact ⟨fit, ((simple8b_lossless_iff_zeros [] [0, 0]).2 fit).mpr (by simp)⟩

/-- The value one, and a timestamp of five, do not come back. -/
theorem simple8b_loses_one :
    ¬Lossless [1] ∧ DifferencesFit 0 0 [5] ∧ ¬LosslessBatch [5] := by
  have fit : DifferencesFit 0 0 [5] := by
    simp only [DifferencesFit, FitsInt64]
    decide
  refine ⟨fun lossless => ?_, fit, fun lossless => ?_⟩
  · exact absurd (lossless_iff.mp lossless 1 mem_cons_self) (by decide)
  · exact absurd ((losslessBatch_iff fit).mp lossless 5 mem_cons_self)
      (by decide)

end ChronoDB.Compression
