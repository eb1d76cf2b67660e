import ChronoDB.Index.Bloom

namespace ChronoDB.Index

open Library List

/-!
# Bloom filters that are united and read back

A union keeps the number of hashes of the filter it changes, so it finds the
items of the other filter when that one has at least as many.  Reading back does
not compare the size in the header with the bytes that follow.
-/

namespace BloomFilter

/-- The bytes of a union; the other filter may have too few. -/
def unionBits : Bytes → Bytes → Option Bytes
  | [], _ => some []
  | _ :: _, [] => none
  | byte :: rest, other :: others =>
    (unionBits rest others).map ((byte ||| other) :: ·)

def union (filter other : BloomFilter) : Except Fault BloomFilter :=
  if filter.numBits ≠ other.numBits then
    .error (.error (.invalidData "Bloom filters have different sizes"))
  else
    match unionBits filter.bits other.bits with
    | none => .error .panic
    | some bits => .ok { filter with bits := bits }

/--
The filters that runs build, with the items that were inserted into them or into
a filter that was united into them.  Unions are taken from those that are allowed.
-/
inductive Built
    (hasher : Bytes → UInt64) (allowed : BloomFilter → BloomFilter → Prop) :
    BloomFilter → List Bytes → Prop where
  | withSize
      {numBits numHashes : ℕ}
      (nonempty : 0 < numBits)
      (bitsFit : numBits + 7 < 2 ^ 64)
      (hashesFit : numHashes < 2 ^ 64) :
      Built hasher allowed (.withSize numBits numHashes) []
  | insert
      {filter after : BloomFilter}
      {items : List Bytes}
      {item : Bytes}
      (built : Built hasher allowed filter items)
      (inserted : filter.insert hasher item = .ok after) :
      Built hasher allowed after (item :: items)
  | union
      {filter other after : BloomFilter}
      {items others : List Bytes}
      (built : Built hasher allowed filter items)
      (otherBuilt : Built hasher allowed other others)
      (isAllowed : allowed filter other)
      (united : filter.union other = .ok after) :
      Built hasher allowed after (items ++ others)
  | reload
      {filter after : BloomFilter}
      {items : List Bytes}
      (built : Built hasher allowed filter items)
      (reloaded : deserialize filter.serialize = .ok after) :
      Built hasher allowed after items

/-- The other filter has at least as many hashes. -/
def HashesCovered (filter other : BloomFilter) : Prop :=
  filter.numHashes ≤ other.numHashes

/-- Every item is found. -/
def FindsAll (hasher : Bytes → UInt64) (filter : BloomFilter)
    (items : List Bytes) : Prop :=
  ∀ item ∈ items, filter.contains hasher item = .ok true

/-!
## Unions
-/

theorem unionBits_eq_some {bits others united : Bytes}
    (isUnion : unionBits bits others = some united) :
    united.length = bits.length ∧
      ∀ (place : ℕ) (byte other : UInt8),
        bits[place]? = some byte → others[place]? = some other →
          united[place]? = some (byte ||| other) := by
  induction bits generalizing others united with
  | nil =>
    cases isUnion
    exact ⟨rfl, fun place byte other found => by cases found⟩
  | cons byte rest inductionHypothesis =>
    cases others with
    | nil => cases isUnion
    | cons other more =>
      obtain ⟨later, isLater, rfl⟩ := Option.map_eq_some_iff.mp isUnion
      obtain ⟨sameLength, united⟩ := inductionHypothesis isLater
      refine ⟨congrArg Nat.succ sameLength, ?_⟩
      intro place first second isFirst isSecond
      cases place with
      | zero =>
        cases isFirst
        cases isSecond
        rfl
      | succ place => exact united place first second isFirst isSecond

theorem union_eq_ok {filter other after : BloomFilter} (sized : filter.Sized)
    (otherSized : other.Sized) (united : filter.union other = .ok after) :
    filter.numBits = other.numBits ∧ Gains filter after other.HasBit := by
  rw [union] at united
  split at united
  · cases united
  · next sameSize =>
    rw [not_not] at sameSize
    cases bytes : unionBits filter.bits other.bits with
    | none =>
      rw [bytes] at united
      cases united
    | some bits =>
      rw [bytes] at united
      cases united
      obtain ⟨sameLength, isUnion⟩ := unionBits_eq_some bytes
      refine ⟨sameSize, rfl, rfl, sameLength, fun index => ?_⟩
      have sameBytes : filter.bits.length = other.bits.length := by
        rw [sized.2, otherSized.2, sameSize]
      by_cases inside : index / 8 < filter.bits.length
      · have found := getElem?_eq_getElem inside
        have otherFound := getElem?_eq_getElem (sameBytes ▸ inside)
        have unitedFound := isUnion _ _ _ found otherFound
        simp only [HasBit, found, otherFound, unitedFound, Option.some.injEq,
          exists_eq_left']
        rw [UInt8.toNat_or, Nat.testBit_or, Bool.or_eq_true]
      · have missing := getElem?_eq_none (Nat.le_of_not_lt inside)
        have otherMissing :=
          getElem?_eq_none (sameBytes ▸ Nat.le_of_not_lt inside)
        have unitedMissing :=
          getElem?_eq_none (sameLength ▸ Nat.le_of_not_lt inside)
        simp [HasBit, missing, otherMissing, unitedMissing]

/-!
## Runs
-/

/-- The filter has a right size, and all bits that its items name. -/
structure Holds (hasher : Bytes → UInt64) (filter : BloomFilter)
    (items : List Bytes) : Prop where
  sized : filter.Sized
  bitsFit : filter.numBits < 2 ^ 64
  hashesFit : filter.numHashes < 2 ^ 64
  probed : ∀ item ∈ items, ∀ index,
    filter.Probes hasher item index → filter.HasBit index

variable {hasher : Bytes → UInt64} {filter : BloomFilter} {items : List Bytes}

theorem Holds.gains {filter after : BloomFilter} {gained : ℕ → Prop}
    (holds : Holds hasher filter items) (gains : Gains filter after gained) :
    Holds hasher after items where
  sized := gains.sized holds.sized
  bitsFit := gains.numBits ▸ holds.bitsFit
  hashesFit := gains.numHashes ▸ holds.hashesFit
  probed := by
    intro item isItem index probes
    rw [Probes, gains.numBits, gains.numHashes] at probes
    exact (gains.hasBit index).mpr (.inl (holds.probed item isItem index probes))

theorem Holds.append
    {items others : List Bytes} (holds : Holds hasher filter items)
    (probed : ∀ item ∈ others, ∀ index,
      filter.Probes hasher item index → filter.HasBit index) :
    Holds hasher filter (items ++ others) where
  sized := holds.sized
  bitsFit := holds.bitsFit
  hashesFit := holds.hashesFit
  probed := by
    intro item isItem
    rcases mem_append.mp isItem with isOld | isNew
    · exact holds.probed item isOld
    · exact probed item isNew

theorem Built.holds (built : Built hasher HashesCovered filter items) :
    Holds hasher filter items := by
  induction built with
  | withSize nonempty bitsFit hashesFit =>
    refine ⟨sized_withSize nonempty _, ?_, hashesFit, forall_mem_nil _⟩
    exact (Nat.le_add_right _ 7).trans_lt bitsFit
  | @insert filter after items item _ inserted holds =>
    obtain ⟨other, isOther, gains⟩ := exists_insert hasher holds.sized item
    cases inserted.symm.trans isOther
    have kept := holds.gains gains
    refine ⟨kept.sized, kept.bitsFit, kept.hashesFit, ?_⟩
    refine forall_mem_cons.mpr ⟨fun index probes => ?_, kept.probed⟩
    rw [Probes, gains.numBits, gains.numHashes] at probes
    exact (gains.hasBit index).mpr (.inr probes)
  | @union filter other after items others _ _ covered united holds
      otherHolds =>
    obtain ⟨sameSize, gains⟩ := union_eq_ok holds.sized otherHolds.sized united
    refine (holds.gains gains).append fun item isItem index probes => ?_
    rw [Probes, gains.numBits, gains.numHashes, sameSize] at probes
    obtain ⟨i, inRange, isProbe⟩ := probes
    refine (gains.hasBit index).mpr (.inr ?_)
    exact otherHolds.probed item isItem index
      ⟨i, inRange.trans_le covered, isProbe⟩
  | reload _ reloaded holds =>
    have same := deserialize_serialize holds.bitsFit holds.hashesFit
    cases reloaded.symm.trans same
    exact holds

theorem Holds.findsAll (holds : Holds hasher filter items) :
    FindsAll hasher filter items := by
  intro item isItem
  obtain ⟨answer, answers, answerIff⟩ := exists_contains hasher holds.sized item
  rw [answers, answerIff.mpr (holds.probed item isItem)]

/-!
## Filters from bytes
-/

/-- No item divides by zero or indexes out of bounds, for any hasher. -/
def ContainsSafely (filter : BloomFilter) : Prop :=
  ∀ (hasher : Bytes → UInt64) (item : Bytes),
    ∃ answer, filter.contains hasher item = .ok answer

/-- The header names no hash, or a size above zero that the bytes reach. -/
def SafeHeader (data : Bytes) : Prop :=
  leValue ((data.drop 8).take 8) = 0 ∨
    0 < leValue (data.take 8) ∧ leValue (data.take 8) ≤ 8 * (data.length - 16)

theorem exists_containsFrom_of_reached (positive : 0 < filter.numBits)
    (reached : filter.numBits ≤ 8 * filter.bits.length) (hash1 hash2 : UInt64)
    (left : List ℕ) :
    ∃ answer, filter.containsFrom hash1 hash2 left = .ok answer := by
  induction left with
  | nil => exact ⟨true, rfl⟩
  | cons i rest inductionHypothesis =>
    have below := Nat.mod_lt (hash1 + UInt64.ofNat i * hash2).toNat positive
    have inside :
        (hash1 + UInt64.ofNat i * hash2).toNat % filter.numBits / 8 <
          filter.bits.length := by
      omega
    obtain ⟨isSet, reads, _⟩ := exists_getBit inside
    rw [containsFrom, bitIndex, if_neg positive.ne']
    simp only [reads]
    cases isSet with
    | false => exact ⟨false, rfl⟩
    | true => exact inductionHypothesis

theorem containsSafely_iff (bitsFit : filter.numBits < 2 ^ 64) :
    filter.ContainsSafely ↔
      filter.numHashes = 0 ∨
        0 < filter.numBits ∧ filter.numBits ≤ 8 * filter.bits.length := by
  constructor
  · intro safely
    by_contra risky
    rw [not_or, not_and_or] at risky
    obtain ⟨hashed, tooShort⟩ := risky
    obtain ⟨count, isCount⟩ := Nat.exists_eq_succ_of_ne_zero hashed
    -- A hasher whose first index is the last bit of the filter.
    obtain ⟨answer, answers⟩ :=
      safely (fun _ => UInt64.ofNat (filter.numBits - 1)) []
    have isRange :
        List.range filter.numHashes = 0 :: (List.range count).map Nat.succ := by
      rw [isCount, range_succ_eq_map]
    rw [contains, isRange] at answers
    dsimp only at answers
    rw [containsFrom, bitIndex] at answers
    by_cases empty : filter.numBits = 0
    · rw [if_pos empty] at answers
      cases answers
    · rw [if_neg empty] at answers
      have lastBit :
          ((hashes (fun _ => UInt64.ofNat (filter.numBits - 1)) []).1 +
              UInt64.ofNat 0 *
                (hashes (fun _ => UInt64.ofNat (filter.numBits - 1))
                  []).2).toNat % filter.numBits =
            filter.numBits - 1 := by
        rw [hashes]
        dsimp only
        rw [show UInt64.ofNat 0 = 0 from rfl, UInt64.zero_mul,
          UInt64.add_zero, UInt64.toNat_ofNat', Nat.mod_eq_of_lt (by omega),
          Nat.mod_eq_of_lt (by omega)]
      have outside : filter.bits[(filter.numBits - 1) / 8]? = none := by
        refine getElem?_eq_none ?_
        rcases tooShort with notPositive | notReached
        · omega
        · omega
      dsimp only at answers
      rw [lastBit, getBit, outside] at answers
      cases answers
  · rintro (noHashes | ⟨positive, reached⟩) hasher item
    · refine ⟨true, ?_⟩
      rw [contains, noHashes]
      rfl
    · exact exists_containsFrom_of_reached positive reached _ _ _

theorem containsSafely_iff_safeHeader
    {data : Bytes} (accepted : deserialize data = .ok filter) :
    filter.ContainsSafely ↔ SafeHeader data := by
  rw [deserialize] at accepted
  split at accepted
  · cases accepted
  · cases accepted
    have fits : leValue (data.take 8) < 2 ^ 64 := by
      have below := leValue_lt (data.take 8)
      have short : (data.take 8).length ≤ 8 := length_take_le _ _
      calc leValue (data.take 8)
          < 256 ^ (data.take 8).length := below
        _ ≤ 256 ^ 8 := Nat.pow_le_pow_right (by decide) short
        _ = 2 ^ 64 := by norm_num
    rw [containsSafely_iff fits, SafeHeader, length_drop]

/--
Runs with covered unions have no false negatives, and exactly the safe headers
give filters that answer without a panic.
-/
theorem bloom_runs_and_bytes (hasher : Bytes → UInt64) (filter : BloomFilter)
    (items : List Bytes) (data : Bytes) (read : BloomFilter) :
    (Built hasher HashesCovered filter items → FindsAll hasher filter items) ∧
      (deserialize data = .ok read → (read.ContainsSafely ↔ SafeHeader data)) :=
  ⟨fun built => built.holds.findsAll, containsSafely_iff_safeHeader⟩

theorem built_one_item (allowed : BloomFilter → BloomFilter → Prop) :
    Built (fun _ => 1) allowed ⟨[2], 8, 1⟩ [[7]] := by
  have empty : Built (fun _ => 1) allowed (withSize 8 1) [] :=
    .withSize (by decide) (by decide) (by decide)
  exact .insert empty (by decide)

/-- One item is found, and a header without hashes is safe. -/
theorem bloom_finds_one_item :
    FindsAll (fun _ => 1) ⟨[2], 8, 1⟩ [[7]] ∧ ContainsSafely ⟨[], 0, 0⟩ := by
  have accepted : deserialize (List.replicate 16 0) = .ok ⟨[], 0, 0⟩ := by
    decide
  obtain ⟨findsAll, safely⟩ := bloom_runs_and_bytes (fun _ => 1)
    ⟨[2], 8, 1⟩ [[7]] (List.replicate 16 0) ⟨[], 0, 0⟩
  exact ⟨findsAll (built_one_item HashesCovered),
    (safely accepted).mpr (.inl (by decide))⟩

/--
A filter with two hashes loses the item of a filter with one, and a header of
eight bits without bytes ends in a panic.
-/
theorem bloom_loses_united_item :
    (∃ filter,
      Built (fun _ => 1) (fun _ _ => True) filter [[7]] ∧
        filter.contains (fun _ => 1) [7] = .ok false) ∧
      ∃ filter,
        deserialize (leBytes 8 8 ++ leBytes 8 1) = .ok filter ∧
          ¬filter.ContainsSafely := by
  constructor
  · have twoHashes :
        Built (fun _ => 1) (fun _ _ => True) (withSize 8 2) [] :=
      .withSize (by decide) (by decide) (by decide)
    have united : (withSize 8 2).union ⟨[2], 8, 1⟩ = .ok ⟨[2], 8, 2⟩ := by
      decide
    exact ⟨⟨[2], 8, 2⟩, .union twoHashes (built_one_item _) trivial united,
      by decide⟩
  · refine ⟨⟨[], 8, 1⟩, by decide, ?_⟩
    rw [containsSafely_iff (by decide)]
    decide

end BloomFilter

end ChronoDB.Index
