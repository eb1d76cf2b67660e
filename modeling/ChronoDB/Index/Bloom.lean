import ChronoDB.Model.Types
import Mathlib.Data.Nat.Bitwise

namespace ChronoDB.Index

open Library List

/-!
# Bloom filters

A filter is an array of bits.  Every item names as many bits as the filter has
hashes, all derived from two hash values.  The hasher is an argument.  A filter
that was read from a file can have any size, so both loops can end in a panic.
-/

structure BloomFilter where
  bits : Bytes
  numBits : ℕ
  numHashes : ℕ
  deriving Repr, DecidableEq

namespace BloomFilter

def withSize (numBits numHashes : ℕ) : BloomFilter where
  bits := List.replicate ((numBits + 7) / 8) 0
  numBits := numBits
  numHashes := numHashes

/-- A byte string is hashed with its length in front, a number by its bytes. -/
def hashes (hasher : Bytes → UInt64) (item : Bytes) : UInt64 × UInt64 :=
  let hash1 := hasher (leBytes 8 item.length ++ item)
  let hash2 := hasher (leBytes 8 hash1.toNat)
  (hash1, hash2)

def bitIndex (filter : BloomFilter) (hash1 hash2 : UInt64) (i : ℕ) :
    Except Fault ℕ :=
  if filter.numBits = 0 then .error .panic
  else .ok ((hash1 + UInt64.ofNat i * hash2).toNat % filter.numBits)

def setBit (filter : BloomFilter) (index : ℕ) : Except Fault BloomFilter :=
  if index / 8 < filter.bits.length then
    .ok {
      filter with
      bits :=
        filter.bits.modify (index / 8) fun byte =>
          byte ||| (1 <<< UInt8.ofNat (index % 8))
    }
  else
    .error .panic

def getBit (filter : BloomFilter) (index : ℕ) : Except Fault Bool :=
  match filter.bits[index / 8]? with
  | none => .error .panic
  | some byte => .ok ((byte >>> UInt8.ofNat (index % 8)) &&& 1 == 1)

/-- The loop of `insert` over the hashes that are left. -/
def insertFrom (hash1 hash2 : UInt64) :
    List ℕ → BloomFilter → Except Fault BloomFilter
  | [], filter => .ok filter
  | i :: rest, filter =>
    match filter.bitIndex hash1 hash2 i with
    | .error fault => .error fault
    | .ok index =>
      match filter.setBit index with
      | .error fault => .error fault
      | .ok filter => insertFrom hash1 hash2 rest filter

def insert (hasher : Bytes → UInt64) (filter : BloomFilter) (item : Bytes) :
    Except Fault BloomFilter :=
  let (hash1, hash2) := hashes hasher item
  insertFrom hash1 hash2 (List.range filter.numHashes) filter

def insertAll (hasher : Bytes → UInt64) :
    List Bytes → BloomFilter → Except Fault BloomFilter
  | [], filter => .ok filter
  | item :: rest, filter =>
    match filter.insert hasher item with
    | .error fault => .error fault
    | .ok filter => insertAll hasher rest filter

/-- The loop of `contains` over the hashes that are left. -/
def containsFrom (filter : BloomFilter) (hash1 hash2 : UInt64) :
    List ℕ → Except Fault Bool
  | [] => .ok true
  | i :: rest =>
    match filter.bitIndex hash1 hash2 i with
    | .error fault => .error fault
    | .ok index =>
      match filter.getBit index with
      | .error fault => .error fault
      | .ok false => .ok false
      | .ok true => containsFrom filter hash1 hash2 rest

def contains (hasher : Bytes → UInt64) (filter : BloomFilter) (item : Bytes) :
    Except Fault Bool :=
  let (hash1, hash2) := hashes hasher item
  filter.containsFrom hash1 hash2 (List.range filter.numHashes)

def serialize (filter : BloomFilter) : Bytes :=
  leBytes 8 filter.numBits ++ leBytes 8 filter.numHashes ++ filter.bits

def deserialize (data : Bytes) : Except Error BloomFilter :=
  if data.length < 16 then
    .error (.invalidData "Bloom filter data too short")
  else
    .ok {
      bits := data.drop 16
      numBits := leValue (data.take 8)
      numHashes := leValue ((data.drop 8).take 8)
    }

/-!
## Filters as sets of bits
-/

/-- A filter has exactly the bytes of its bits, and at least one bit. -/
def Sized (filter : BloomFilter) : Prop :=
  0 < filter.numBits ∧ filter.bits.length = (filter.numBits + 7) / 8

/-- The bit at a position is set. -/
def HasBit (filter : BloomFilter) (index : ℕ) : Prop :=
  ∃ byte, filter.bits[index / 8]? = some byte ∧ byte.toNat.testBit (index % 8)

def probe (hasher : Bytes → UInt64) (numBits : ℕ) (item : Bytes) (i : ℕ) :
    ℕ :=
  ((hashes hasher item).1 + UInt64.ofNat i * (hashes hasher item).2).toNat %
    numBits

def Probes (hasher : Bytes → UInt64) (filter : BloomFilter) (item : Bytes)
    (index : ℕ) :
    Prop :=
  ∃ i < filter.numHashes, probe hasher filter.numBits item i = index

theorem shiftRight_and_one_eq (byte : UInt8) {offset : ℕ} (small : offset < 8) :
    ((byte >>> UInt8.ofNat offset) &&& 1 == 1) = byte.toNat.testBit offset := by
  have sameOffset : (UInt8.ofNat offset).toNat % 8 = offset := by
    rw [UInt8.toNat_ofNat']
    omega
  rw [Nat.testBit_eq_decide_div_mod_eq, Bool.eq_iff_iff, beq_iff_eq,
    decide_eq_true_eq, ← UInt8.toNat_inj, UInt8.toNat_and,
    UInt8.toNat_shiftRight, sameOffset, Nat.shiftRight_eq_div_pow]
  rw [show UInt8.toNat 1 = 1 from rfl, Nat.and_one_is_mod]

theorem testBit_or_shiftLeft
    (byte : UInt8) {offset other : ℕ} (small : offset < 8)
    (otherSmall : other < 8) :
    (byte ||| (1 <<< UInt8.ofNat offset)).toNat.testBit other ↔
      byte.toNat.testBit other ∨ offset = other := by
  have sameOffset : (UInt8.ofNat offset).toNat % 8 = offset := by
    rw [UInt8.toNat_ofNat']
    omega
  rw [UInt8.toNat_or, UInt8.toNat_shiftLeft, sameOffset, Nat.testBit_or,
    show UInt8.toNat 1 = 1 from rfl, Nat.one_shiftLeft,
    Nat.testBit_mod_two_pow, Nat.testBit_two_pow]
  simp [otherSmall]

variable (hasher : Bytes → UInt64) {filter : BloomFilter}

theorem exists_getBit {index : ℕ} (inside : index / 8 < filter.bits.length) :
    ∃ answer,
      filter.getBit index = .ok answer ∧
        (answer = true ↔ filter.HasBit index) := by
  have found := getElem?_eq_getElem inside
  refine ⟨_, by rw [getBit, found], ?_⟩
  rw [shiftRight_and_one_eq _ (Nat.mod_lt _ (by decide)), HasBit, found]
  simp

/-- What a filter has after some bits were set. -/
structure Gains (before after : BloomFilter) (gained : ℕ → Prop) :
    Prop where
  numBits : after.numBits = before.numBits
  numHashes : after.numHashes = before.numHashes
  length : after.bits.length = before.bits.length
  hasBit : ∀ index, after.HasBit index ↔ before.HasBit index ∨ gained index

namespace Gains

variable {before between after : BloomFilter} {first second : ℕ → Prop}

theorem refl (filter : BloomFilter) : Gains filter filter fun _ => False where
  numBits := rfl
  numHashes := rfl
  length := rfl
  hasBit := fun _ => (or_false _).symm.to_iff

theorem trans (gainsFirst : Gains before between first)
    (gainsSecond : Gains between after second) :
    Gains before after fun index => first index ∨ second index where
  numBits := gainsSecond.numBits.trans gainsFirst.numBits
  numHashes := gainsSecond.numHashes.trans gainsFirst.numHashes
  length := gainsSecond.length.trans gainsFirst.length
  hasBit := by
    intro index
    rw [gainsSecond.hasBit, gainsFirst.hasBit, or_assoc]

theorem congr (gains : Gains before after first)
    (same : ∀ index, first index ↔ second index) :
    Gains before after second where
  numBits := gains.numBits
  numHashes := gains.numHashes
  length := gains.length
  hasBit := fun index => by rw [gains.hasBit, same]

theorem sized (gains : Gains before after first) (sized : before.Sized) :
    after.Sized := by
  rw [Sized, gains.numBits, gains.length]
  exact sized

end Gains

theorem exists_setBit {index : ℕ} (inside : index / 8 < filter.bits.length) :
    ∃ after,
      filter.setBit index = .ok after ∧ Gains filter after (index = ·) := by
  refine ⟨_, if_pos inside, rfl, rfl, length_modify _ _ _, ?_⟩
  intro other
  rw [HasBit, HasBit]
  simp only [getElem?_modify]
  by_cases sameByte : index / 8 = other / 8
  · obtain ⟨byte, found⟩ :
        ∃ byte, filter.bits[other / 8]? = some byte :=
      ⟨_, getElem?_eq_getElem (sameByte ▸ inside)⟩
    have sameBit : index % 8 = other % 8 ↔ index = other := by omega
    simp only [sameByte, found, if_true, Option.map_eq_map, Option.map_some,
      Option.some.injEq, exists_eq_left']
    rw [testBit_or_shiftLeft byte (Nat.mod_lt _ (by decide))
      (Nat.mod_lt _ (by decide)), sameBit]
  · have different : index ≠ other := fun same => sameByte (by rw [same])
    simp [sameByte, different]

/-- Every bit that a hash names lies in a filter of the right size. -/
theorem Sized.inside (sized : filter.Sized) (number : ℕ) :
    number % filter.numBits / 8 < filter.bits.length := by
  have small := Nat.mod_lt number sized.1
  rw [sized.2]
  omega

theorem exists_insertFrom
    (hash1 hash2 : UInt64) (sized : filter.Sized) (left : List ℕ) :
    ∃ after,
      insertFrom hash1 hash2 left filter = .ok after ∧
        Gains filter after fun index =>
          ∃ i ∈ left,
            (hash1 + UInt64.ofNat i * hash2).toNat % filter.numBits =
              index := by
  induction left generalizing filter with
  | nil => exact ⟨filter, rfl, (Gains.refl filter).congr (by simp)⟩
  | cons i rest inductionHypothesis =>
    obtain ⟨marked, sets, gains⟩ :=
      exists_setBit (sized.inside (hash1 + UInt64.ofNat i * hash2).toNat)
    obtain ⟨after, inserts, gainsRest⟩ :=
      inductionHypothesis (gains.sized sized)
    refine ⟨after, ?_, (gains.trans gainsRest).congr ?_⟩
    · rw [insertFrom, bitIndex, if_neg sized.1.ne']
      simp only [sets]
      exact inserts
    · intro index
      rw [gains.numBits, exists_mem_cons_iff]

theorem exists_insert (sized : filter.Sized) (item : Bytes) :
    ∃ after,
      filter.insert hasher item = .ok after ∧
        Gains filter after (filter.Probes hasher item) := by
  obtain ⟨after, inserts, gains⟩ :=
    exists_insertFrom (hashes hasher item).1 (hashes hasher item).2 sized
      (List.range filter.numHashes)
  refine ⟨after, inserts, gains.congr fun index => ?_⟩
  simp only [mem_range]
  rfl

theorem exists_insertAll (sized : filter.Sized) (items : List Bytes) :
    ∃ after,
      insertAll hasher items filter = .ok after ∧
        Gains filter after fun index =>
          ∃ item ∈ items, filter.Probes hasher item index := by
  induction items generalizing filter with
  | nil => exact ⟨filter, rfl, (Gains.refl filter).congr (by simp)⟩
  | cons item rest inductionHypothesis =>
    obtain ⟨between, inserts, gains⟩ := exists_insert hasher sized item
    obtain ⟨after, insertsRest, gainsRest⟩ :=
      inductionHypothesis (gains.sized sized)
    refine ⟨after, ?_, (gains.trans gainsRest).congr ?_⟩
    · rw [insertAll, inserts]
      exact insertsRest
    · intro index
      simp only [Probes, gains.numBits, gains.numHashes, exists_mem_cons_iff]

theorem exists_containsFrom
    (hash1 hash2 : UInt64) (sized : filter.Sized) (left : List ℕ) :
    ∃ answer,
      filter.containsFrom hash1 hash2 left = .ok answer ∧
        (answer = true ↔
          ∀ i ∈ left,
            filter.HasBit
              ((hash1 + UInt64.ofNat i * hash2).toNat % filter.numBits)) := by
  induction left with
  | nil => exact ⟨true, rfl, by simp⟩
  | cons i rest inductionHypothesis =>
    obtain ⟨isSet, reads, isSetIff⟩ :=
      exists_getBit (sized.inside (hash1 + UInt64.ofNat i * hash2).toNat)
    obtain ⟨others, readsOthers, othersIff⟩ := inductionHypothesis
    rw [containsFrom, bitIndex, if_neg sized.1.ne']
    simp only [reads]
    cases isSet with
    | false =>
      refine ⟨false, rfl, ?_⟩
      simp only [reduceCtorEq, false_iff] at isSetIff ⊢
      exact fun all => isSetIff (all i mem_cons_self)
    | true =>
      refine ⟨others, readsOthers, ?_⟩
      rw [othersIff, forall_mem_cons, and_iff_right]
      exact isSetIff.mp rfl

theorem exists_contains (sized : filter.Sized) (item : Bytes) :
    ∃ answer,
      filter.contains hasher item = .ok answer ∧
        (answer = true ↔
          ∀ index, filter.Probes hasher item index → filter.HasBit index) := by
  obtain ⟨answer, answers, answerIff⟩ :=
    exists_containsFrom (hashes hasher item).1 (hashes hasher item).2 sized
      (List.range filter.numHashes)
  refine ⟨answer, answers, answerIff.trans ?_⟩
  simp only [mem_range]
  constructor
  · rintro all _ ⟨i, inRange, rfl⟩
    exact all i inRange
  · intro all i inRange
    exact all _ ⟨i, inRange, rfl⟩

theorem not_hasBit_withSize (numBits numHashes index : ℕ) :
    ¬ (withSize numBits numHashes).HasBit index := by
  rintro ⟨byte, found, isSet⟩
  obtain rfl : byte = 0 := eq_of_mem_replicate (mem_of_getElem? found)
  simp at isSet

theorem sized_withSize {numBits : ℕ} (nonempty : 0 < numBits) (numHashes : ℕ) :
    (withSize numBits numHashes).Sized :=
  ⟨nonempty, length_replicate⟩

theorem deserialize_serialize (bitsFit : filter.numBits < 2 ^ 64)
    (hashesFit : filter.numHashes < 2 ^ 64) :
    deserialize filter.serialize = .ok filter := by
  have long : ¬ filter.serialize.length < 16 := by
    rw [serialize, length_append, length_append, length_leBytes, length_leBytes]
    omega
  rw [deserialize, if_neg long, serialize]
  simp only [append_assoc, take_left' (length_leBytes 8 _),
    drop_left' (length_leBytes 8 _)]
  rw [← append_assoc, drop_left' (by simp),
    leValue_leBytes_of_lt bitsFit, leValue_leBytes_of_lt hashesFit]

end BloomFilter

end ChronoDB.Index
