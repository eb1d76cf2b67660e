import Mathlib.Data.List.GetD
import Mathlib.Data.Set.Card
import ChronoDB.Library.FallibleFold
import ChronoDB.Library.WordBits
import ChronoDB.Model.Types

namespace ChronoDB.Index

open Library List

/-!
# Bitmaps

A bitmap keeps a set of numbers of 32 bits as a row of words.  The complement
masks its last word with a shift by one more than the last place, which is too
far when the bound ends a word.
-/

structure RoaringBitmap where
  bits : List UInt64
  deriving Repr, DecidableEq

namespace RoaringBitmap

def new : RoaringBitmap where
  bits := []

def add (bitmap : RoaringBitmap) (value : UInt32) : RoaringBitmap :=
  let index := value.toNat / 64
  let bit := value.toNat % 64
  let resized :=
    if bitmap.bits.length ≤ index then
      bitmap.bits ++ List.replicate (index + 1 - bitmap.bits.length) 0
    else
      bitmap.bits
  { bits := resized.modify index (· ||| oneBit bit) }

def contains (bitmap : RoaringBitmap) (value : UInt32) : Bool :=
  match bitmap.bits[value.toNat / 64]? with
  | none => false
  | some word => (word >>> UInt64.ofNat (value.toNat % 64)) &&& 1 == 1

def and (bitmap other : RoaringBitmap) : RoaringBitmap where
  bits := bitmap.bits.zipWith (· &&& ·) other.bits

def or (bitmap other : RoaringBitmap) : RoaringBitmap where
  bits :=
    (List.range (max bitmap.bits.length other.bits.length)).map fun index =>
      bitmap.bits.getD index 0 ||| other.bits.getD index 0

/-- The complement up to a bound; a shift by 64 overflows. -/
def not (bitmap : RoaringBitmap) (maxValue : UInt32) :
    Except Fault RoaringBitmap :=
  let maxIndex := maxValue.toNat / 64 + 1
  let lastBit := maxValue.toNat % 64
  let complement :=
    (List.range maxIndex).map fun index =>
      if index < bitmap.bits.length then ~~~(bitmap.bits.getD index 0)
      else ~~~0
  if 64 ≤ lastBit + 1 then
    .error .panic
  else
    .ok {
      bits := complement.modify (maxIndex - 1) (· &&& lowMask (lastBit + 1))
    }

def cardinality (bitmap : RoaringBitmap) : ℕ :=
  (bitmap.bits.map countOnes).sum

def isEmpty (bitmap : RoaringBitmap) : Bool :=
  bitmap.bits.all (· == 0)

/-!
## The iterator
-/

/-- The inner loop of `next`: the next bit of a word that is set. -/
def nextBit (word : UInt64) (currentBit : ℕ) : Option ℕ :=
  if currentBit < 64 then
    if word &&& oneBit currentBit ≠ 0 then some currentBit
    else nextBit word (currentBit + 1)
  else
    none
termination_by 64 - currentBit

/--
What `next` returns with a current word and bit, and those after it.  The index
of a word is below 2^26 in every bitmap that is built, so the product fits.
-/
def next (bitmap : RoaringBitmap) (currentIndex currentBit : ℕ) :
    Option (UInt32 × ℕ × ℕ) :=
  if _inside : currentIndex < bitmap.bits.length then
    match nextBit bitmap.bits[currentIndex] currentBit with
    | some found =>
      some (UInt32.ofNat currentIndex * 64 + UInt32.ofNat found,
        currentIndex, found + 1)
    | none => next bitmap (currentIndex + 1) 0
  else
    none
termination_by bitmap.bits.length - currentIndex

def placesFrom (word : UInt64) (place : ℕ) : List ℕ :=
  (List.range' place (64 - place)).filter (wordBit word)

/-- The numbers that an iterator has not returned yet. -/
def remaining (bitmap : RoaringBitmap) (currentIndex currentBit : ℕ) :
    List ℕ :=
  if _inside : currentIndex < bitmap.bits.length then
    (placesFrom bitmap.bits[currentIndex] currentBit).map
        (currentIndex * 64 + ·) ++
      rowNumbersFrom (currentIndex + 1) (bitmap.bits.drop (currentIndex + 1))
  else
    []

theorem placesFrom_zero (word : UInt64) :
    placesFrom word 0 = setPlaces word := by
  rw [placesFrom, setPlaces, range_eq_range']

theorem placesFrom_of_lt (word : UInt64) {place : ℕ} (inWord : place < 64) :
    placesFrom word place =
      if wordBit word place = true then
        place :: placesFrom word (place + 1)
      else
        placesFrom word (place + 1) := by
  have isSucc : 64 - place = (64 - (place + 1)) + 1 := by omega
  rw [placesFrom, isSucc, range'_succ, filter_cons]
  rfl

theorem placesFrom_of_nextBit (word : UInt64) (currentBit : ℕ) :
    (nextBit word currentBit = none ∧ placesFrom word currentBit = []) ∨
      ∃ found,
        nextBit word currentBit = some found ∧
          placesFrom word currentBit = found :: placesFrom word (found + 1) := by
  induction currentBit using nextBit.induct word with
  | case1 currentBit inWord isSet =>
    refine .inr ⟨currentBit, ?_, ?_⟩
    · rw [nextBit, if_pos inWord, if_pos isSet]
    · rw [placesFrom_of_lt word inWord,
        if_pos ((and_oneBit_ne_zero word inWord).mp isSet)]
  | case2 currentBit inWord notSet inductionHypothesis =>
    rw [nextBit, if_pos inWord, if_neg notSet, placesFrom_of_lt word inWord,
      if_neg (mt (and_oneBit_ne_zero word inWord).mpr notSet)]
    exact inductionHypothesis
  | case3 currentBit outside =>
    refine .inl ⟨?_, ?_⟩
    · rw [nextBit, if_neg outside]
    · rw [placesFrom, Nat.sub_eq_zero_of_le (Nat.le_of_not_lt outside)]
      rfl

theorem remaining_start (bitmap : RoaringBitmap) (currentIndex : ℕ) :
    bitmap.remaining currentIndex 0 =
      rowNumbersFrom currentIndex (bitmap.bits.drop currentIndex) := by
  rw [remaining]
  by_cases inside : currentIndex < bitmap.bits.length
  · rw [dif_pos inside, drop_eq_getElem_cons inside, rowNumbersFrom,
      ← placesFrom_zero]
  · rw [dif_neg inside, drop_eq_nil_of_le (Nat.le_of_not_lt inside)]
    rfl

theorem remaining_of_next
    (bitmap : RoaringBitmap) (currentIndex currentBit : ℕ) :
    (bitmap.next currentIndex currentBit = none ∧
        bitmap.remaining currentIndex currentBit = []) ∨
      ∃ number nextIndex followingBit,
        bitmap.next currentIndex currentBit =
            some (UInt32.ofNat number, nextIndex, followingBit) ∧
          bitmap.remaining currentIndex currentBit =
            number :: bitmap.remaining nextIndex followingBit := by
  induction currentIndex, currentBit using next.induct bitmap with
  | case1 currentIndex currentBit inside found isFound =>
    obtain ⟨isNone, _⟩ | ⟨other, isOther, places⟩ :=
      placesFrom_of_nextBit bitmap.bits[currentIndex] currentBit
    · cases isNone.symm.trans isFound
    · cases isFound.symm.trans isOther
      refine .inr ⟨currentIndex * 64 + found, currentIndex, found + 1, ?_, ?_⟩
      · rw [next, dif_pos inside, isFound, UInt32.ofNat_add, UInt32.ofNat_mul]
        rfl
      · rw [remaining, dif_pos inside, remaining, dif_pos inside, places]
        rfl
  | case2 currentIndex currentBit inside noneFound inductionHypothesis =>
    obtain ⟨_, places⟩ | ⟨other, isOther, _⟩ :=
      placesFrom_of_nextBit bitmap.bits[currentIndex] currentBit
    · have atNext : bitmap.remaining currentIndex currentBit =
          bitmap.remaining (currentIndex + 1) 0 := by
        rw [remaining_start, remaining, dif_pos inside, places]
        rfl
      rw [next, dif_pos inside, noneFound, atNext]
      exact inductionHypothesis
    · cases noneFound.symm.trans isOther
  | case3 currentIndex currentBit outside =>
    rw [next, dif_neg outside, remaining, dif_neg outside]
    exact .inl ⟨rfl, rfl⟩

/-- What an iterator still returns. -/
def iterFrom (bitmap : RoaringBitmap) (currentIndex currentBit : ℕ) :
    List UInt32 :=
  match _returned : bitmap.next currentIndex currentBit with
  | none => []
  | some (number, nextIndex, followingBit) =>
    number :: iterFrom bitmap nextIndex followingBit
termination_by (bitmap.remaining currentIndex currentBit).length
decreasing_by
  obtain ⟨isNone, _⟩ | ⟨found, index, bit, isNext, left⟩ :=
    bitmap.remaining_of_next currentIndex currentBit
  · cases isNone.symm.trans _returned
  · cases isNext.symm.trans _returned
    rw [left]
    exact Nat.lt_succ_self _

/-- `iter`, collected. -/
def iter (bitmap : RoaringBitmap) : List UInt32 :=
  bitmap.iterFrom 0 0

theorem iterFrom_eq (bitmap : RoaringBitmap) (currentIndex currentBit : ℕ) :
    bitmap.iterFrom currentIndex currentBit =
      (bitmap.remaining currentIndex currentBit).map UInt32.ofNat := by
  induction currentIndex, currentBit using iterFrom.induct bitmap with
  | case1 currentIndex currentBit noneLeft =>
    obtain ⟨_, left⟩ | ⟨found, index, bit, isNext, _⟩ :=
      bitmap.remaining_of_next currentIndex currentBit
    · rw [iterFrom, left]
      split
      · rfl
      · next isSome =>
        cases noneLeft.symm.trans isSome
    · cases noneLeft.symm.trans isNext
  | case2 currentIndex currentBit number nextIndex followingBit returned
      inductionHypothesis =>
    obtain ⟨isNone, _⟩ | ⟨found, index, bit, isNext, left⟩ :=
      bitmap.remaining_of_next currentIndex currentBit
    · cases isNone.symm.trans returned
    · cases isNext.symm.trans returned
      rw [iterFrom, left]
      split
      · next isNone =>
        cases isNone.symm.trans returned
      · next isSome =>
        cases isSome.symm.trans returned
        rw [inductionHypothesis]
        rfl

theorem iter_eq (bitmap : RoaringBitmap) :
    bitmap.iter = (rowNumbersFrom 0 bitmap.bits).map UInt32.ofNat := by
  rw [iter, iterFrom_eq, remaining_start, drop_zero]

/-!
## Each operation on the bits
-/

theorem contains_eq (bitmap : RoaringBitmap) (value : UInt32) :
    bitmap.contains value = rowBit bitmap.bits value.toNat := by
  rw [contains, rowBit, getD_eq_getElem?_getD]
  cases bitmap.bits[value.toNat / 64]? with
  | none => rw [Option.getD_none, wordBit_zero]
  | some word => exact shiftRight_and_one word (Nat.mod_lt _ (by decide))

theorem rowBit_add (bitmap : RoaringBitmap) (value : UInt32) (number : ℕ) :
    rowBit (bitmap.add value).bits number =
      (rowBit bitmap.bits number || decide (value.toNat = number)) := by
  have resized (place : ℕ) :
      value.toNat / 64 <
          (if bitmap.bits.length ≤ value.toNat / 64 then
            bitmap.bits ++
              List.replicate (value.toNat / 64 + 1 - bitmap.bits.length) 0
          else bitmap.bits).length ∧
        (if bitmap.bits.length ≤ value.toNat / 64 then
          bitmap.bits ++
            List.replicate (value.toNat / 64 + 1 - bitmap.bits.length) 0
        else bitmap.bits).getD place 0 = bitmap.bits.getD place 0 := by
    split
    · refine ⟨?_, ?_⟩
      · rw [length_append, length_replicate]
        omega
      · by_cases inside : place < bitmap.bits.length
        · rw [getD_append _ _ _ _ inside]
        · have outside := Nat.le_of_not_lt inside
          rw [getD_append_right _ _ _ _ outside, getD_eq_getElem?_getD,
            getElem?_getD_replicate_default_eq, getD_eq_default _ _ outside]
    · exact ⟨by omega, rfl⟩
  rw [add, rowBit]
  dsimp only
  rw [getD_modify (resized 0).1, (resized _).2]
  split
  · next sameWord =>
    have sameBit : value.toNat % 64 = number % 64 ↔ value.toNat = number := by
      omega
    rw [wordBit_or, wordBit_oneBit (Nat.mod_lt _ (by decide)),
      decide_eq_decide.mpr sameBit]
    rfl
  · next otherWord =>
    have differs : value.toNat ≠ number := by
      rintro rfl
      exact otherWord rfl
    rw [decide_eq_false differs, Bool.or_false]
    rfl

theorem rowBit_and (bitmap other : RoaringBitmap) (number : ℕ) :
    rowBit (bitmap.and other).bits number =
      (rowBit bitmap.bits number && rowBit other.bits number) := by
  rw [rowBit, rowBit, rowBit, ← wordBit_and, and, getD_eq_getElem?_getD,
    getD_eq_getElem?_getD, getD_eq_getElem?_getD, getElem?_zipWith]
  cases bitmap.bits[number / 64]? with
  | none => simp
  | some word =>
    cases other.bits[number / 64]? with
    | none => simp
    | some otherWord => rfl

theorem rowBit_or (bitmap other : RoaringBitmap) (number : ℕ) :
    rowBit (bitmap.or other).bits number =
      (rowBit bitmap.bits number || rowBit other.bits number) := by
  rw [rowBit, rowBit, rowBit, ← wordBit_or, or]
  congr 1
  by_cases inside : number / 64 < max bitmap.bits.length other.bits.length
  · rw [getD_eq_getElem?_getD, getElem?_map, getElem?_range inside]
    rfl
  · have outside := Nat.le_of_not_lt inside
    rw [getD_eq_default _ _ (by simpa using outside),
      getD_eq_default _ _ (by omega),
      getD_eq_default _ _ (by omega)]
    rfl

theorem rowBit_not {bitmap complement : RoaringBitmap} {maxValue : UInt32}
    (built : bitmap.not maxValue = .ok complement) (number : ℕ) :
    rowBit complement.bits number =
      (decide (number ≤ maxValue.toNat) && !rowBit bitmap.bits number) := by
  rw [not] at built
  split at built
  · cases built
  · next inWord =>
    cases built
    have turned (index : ℕ) :
        ((List.range (maxValue.toNat / 64 + 1)).map fun index =>
            if index < bitmap.bits.length then
              ~~~(bitmap.bits.getD index 0)
            else ~~~0).getD index 0 =
          if index < maxValue.toNat / 64 + 1 then
            ~~~(bitmap.bits.getD index 0)
          else 0 := by
      rw [getD_eq_getElem?_getD, getElem?_map]
      split
      · next inRange =>
        rw [getElem?_range inRange, Option.map_some, Option.getD_some]
        split
        · rfl
        · next outside =>
          rw [getD_eq_default _ _ (Nat.le_of_not_lt outside)]
      · next outOfRange =>
        rw [getElem?_eq_none]
        · rfl
        · rw [length_range]
          exact Nat.le_of_not_lt outOfRange
    have placeFits : number % 64 < 64 := Nat.mod_lt _ (by decide)
    rw [rowBit, getD_modify (by simp), turned]
    split
    · next lastWord =>
      have below :
          number % 64 < maxValue.toNat % 64 + 1 ↔ number ≤ maxValue.toNat := by
        omega
      rw [if_pos (by omega), wordBit_and, wordBit_not _ placeFits,
        wordBit_lowMask (by omega), decide_eq_decide.mpr below,
        Bool.and_comm]
      rfl
    · next otherWord =>
      split
      · next inRange =>
        have below : number ≤ maxValue.toNat := by omega
        rw [wordBit_not _ placeFits, decide_eq_true below, Bool.true_and]
        rfl
      · next outOfRange =>
        have above : ¬number ≤ maxValue.toNat := by omega
        rw [wordBit_zero, decide_eq_false above, Bool.false_and]

theorem exists_not_iff (bitmap : RoaringBitmap) (maxValue : UInt32) :
    (∃ complement, bitmap.not maxValue = .ok complement) ↔
      maxValue.toNat % 64 ≠ 63 := by
  rw [not]
  split
  · next tooFar =>
    exact iff_of_false (fun ⟨_, isOk⟩ => by cases isOk) (by omega)
  · next inWord =>
    exact iff_of_true ⟨_, rfl⟩ (by omega)

/-- A bitmap has no more words than there are for numbers of 32 bits. -/
def Fits (bitmap : RoaringBitmap) : Prop :=
  bitmap.bits.length ≤ 2 ^ 26

theorem fits_new : new.Fits :=
  Nat.zero_le _

theorem Fits.add
    {bitmap : RoaringBitmap} (fits : bitmap.Fits) (value : UInt32) :
    (bitmap.add value).Fits := by
  have below := value.toNat_lt
  rw [Fits] at fits
  rw [Fits, RoaringBitmap.add, length_modify]
  split
  · rw [length_append, length_replicate]
    omega
  · exact fits

theorem Fits.and
    {bitmap : RoaringBitmap} (fits : bitmap.Fits) (other : RoaringBitmap) :
    (bitmap.and other).Fits := by
  rw [Fits, RoaringBitmap.and, length_zipWith]
  exact (Nat.min_le_left _ _).trans fits

theorem Fits.or {bitmap other : RoaringBitmap} (fits : bitmap.Fits)
    (otherFits : other.Fits) :
    (bitmap.or other).Fits := by
  rw [Fits, RoaringBitmap.or, length_map, length_range]
  exact Nat.max_le.mpr ⟨fits, otherFits⟩

theorem fits_of_not {bitmap complement : RoaringBitmap} {maxValue : UInt32}
    (built : bitmap.not maxValue = .ok complement) :
    complement.Fits := by
  have below := maxValue.toNat_lt
  rw [not] at built
  split at built
  · cases built
  · cases built
    rw [Fits, length_modify, length_map, length_range]
    omega

/-!
## Bitmaps as sets
-/

/-- All that a bitmap tells agrees with a set of numbers. -/
structure Denotes (bitmap : RoaringBitmap)
    (numbers : Set UInt32) : Prop where
  contains : ∀ value, bitmap.contains value = true ↔ value ∈ numbers
  ascending : bitmap.iter.Pairwise (· < ·)
  iter : ∀ value, value ∈ bitmap.iter ↔ value ∈ numbers
  cardinality : bitmap.cardinality = numbers.ncard
  isEmpty : bitmap.isEmpty = true ↔ numbers = ∅

section Denotes

variable {bitmap : RoaringBitmap}

theorem Fits.lt_of_mem (fits : bitmap.Fits) {number : ℕ}
    (member : number ∈ rowNumbersFrom 0 bitmap.bits) :
    number < 2 ^ 32 := by
  rw [Fits] at fits
  obtain ⟨_, isSet⟩ := mem_rowNumbersFrom.mp member
  by_contra tooLarge
  rw [Nat.zero_mul, Nat.sub_zero, rowBit,
    getD_eq_default _ _ (by omega), wordBit_zero] at isSet
  cases isSet

theorem Fits.mem_iter (fits : bitmap.Fits) (value : UInt32) :
    value ∈ bitmap.iter ↔ rowBit bitmap.bits value.toNat = true := by
  rw [iter_eq, mem_map]
  constructor
  · rintro ⟨number, member, rfl⟩
    rw [UInt32.toNat_ofNat', Nat.mod_eq_of_lt (fits.lt_of_mem member)]
    obtain ⟨_, isSet⟩ := mem_rowNumbersFrom.mp member
    rw [Nat.zero_mul, Nat.sub_zero] at isSet
    exact isSet
  · intro isSet
    refine ⟨value.toNat, mem_rowNumbersFrom.mpr ⟨by omega, ?_⟩,
      UInt32.ofNat_toNat⟩
    rw [Nat.zero_mul, Nat.sub_zero]
    exact isSet

theorem Fits.pairwise_iter (fits : bitmap.Fits) :
    bitmap.iter.Pairwise (· < ·) := by
  rw [iter_eq, pairwise_map]
  refine List.Pairwise.imp_of_mem ?_ (pairwise_rowNumbersFrom 0 bitmap.bits)
  intro first second isFirst isSecond ascending
  rw [UInt32.lt_iff_toNat_lt, UInt32.toNat_ofNat', UInt32.toNat_ofNat',
    Nat.mod_eq_of_lt (fits.lt_of_mem isFirst),
    Nat.mod_eq_of_lt (fits.lt_of_mem isSecond)]
  exact ascending

theorem cardinality_eq (bitmap : RoaringBitmap) :
    bitmap.cardinality = bitmap.iter.length := by
  rw [iter_eq, length_map, length_rowNumbersFrom]
  rfl

theorem isEmpty_iff (bitmap : RoaringBitmap) :
    bitmap.isEmpty = true ↔ bitmap.iter = [] := by
  rw [← length_eq_zero_iff, ← cardinality_eq, cardinality,
    List.sum_eq_zero_iff_forall_eq_nat, isEmpty, all_eq_true, forall_mem_map]
  refine forall₂_congr fun word _ => ?_
  rw [beq_iff_eq, countOnes, length_eq_zero_iff]
  constructor
  · rintro rfl
    exact filter_eq_nil_iff.mpr fun place _ => by simp
  · intro noPlaces
    refine eq_zero_of_wordBit fun place inWord => ?_
    have notSet := filter_eq_nil_iff.mp noPlaces place (mem_range.mpr inWord)
    simpa using notSet

theorem Fits.denotes (fits : bitmap.Fits) {numbers : Set UInt32}
    (bits : ∀ value, rowBit bitmap.bits value.toNat = true ↔ value ∈ numbers) :
    bitmap.Denotes numbers := by
  have members (value : UInt32) : value ∈ bitmap.iter ↔ value ∈ numbers :=
    (fits.mem_iter value).trans (bits value)
  have ascending := fits.pairwise_iter
  refine ⟨fun value => ?_, ascending, members, ?_, ?_⟩
  · rw [contains_eq]
    exact bits value
  · have distinct : bitmap.iter.Nodup :=
      ascending.imp fun below same => by
        subst same
        exact UInt32.lt_irrefl _ below
    have isFinset : numbers = (bitmap.iter.toFinset : Set UInt32) := by
      ext value
      rw [coe_toFinset, Set.mem_ofPred_eq, members]
    rw [isFinset, Set.ncard_coe_finset, toFinset_card_of_nodup distinct,
      cardinality_eq]
  · rw [isEmpty_iff, eq_nil_iff_forall_not_mem, Set.eq_empty_iff_forall_notMem]
    exact forall_congr' fun value => not_congr (members value)

end Denotes

end RoaringBitmap

/-- How a bitmap is built. -/
inductive BitmapExpr where
  | new
  | add (bitmap : BitmapExpr) (value : UInt32)
  | and (bitmap other : BitmapExpr)
  | or (bitmap other : BitmapExpr)
  | not (bitmap : BitmapExpr) (maxValue : UInt32)
  deriving Repr, DecidableEq

namespace BitmapExpr

/-- The bitmap, or the panic of a complement. -/
def build : BitmapExpr → Except Fault RoaringBitmap
  | new => .ok .new
  | add bitmap value => do
    let built ← bitmap.build
    .ok (built.add value)
  | and bitmap other => do
    let built ← bitmap.build
    let otherBuilt ← other.build
    .ok (built.and otherBuilt)
  | or bitmap other => do
    let built ← bitmap.build
    let otherBuilt ← other.build
    .ok (built.or otherBuilt)
  | not bitmap maxValue => do
    let built ← bitmap.build
    built.not maxValue

/-- The set that is meant. -/
def numbers : BitmapExpr → Set UInt32
  | new => ∅
  | add bitmap value => bitmap.numbers ∪ {value}
  | and bitmap other => bitmap.numbers ∩ other.numbers
  | or bitmap other => bitmap.numbers ∪ other.numbers
  | not bitmap maxValue => {value | value ≤ maxValue ∧ value ∉ bitmap.numbers}

/-- No bound of a complement ends a word. -/
def Inside : BitmapExpr → Prop
  | new => True
  | add bitmap _ => bitmap.Inside
  | and bitmap other => bitmap.Inside ∧ other.Inside
  | or bitmap other => bitmap.Inside ∧ other.Inside
  | not bitmap maxValue => bitmap.Inside ∧ maxValue.toNat % 64 ≠ 63

def Agrees (bitmap : BitmapExpr) : Prop :=
  ∃ built, bitmap.build = .ok built ∧ built.Denotes bitmap.numbers

theorem exists_build_iff (bitmap : BitmapExpr) :
    (∃ built, bitmap.build = .ok built) ↔ bitmap.Inside := by
  induction bitmap with
  | new => exact iff_of_true ⟨_, rfl⟩ trivial
  | add bitmap value inductionHypothesis =>
    rw [Inside, ← inductionHypothesis]
    constructor
    · rintro ⟨_, isBuilt⟩
      obtain ⟨before, isBefore, _⟩ := bind_eq_ok_iff.mp isBuilt
      exact ⟨before, isBefore⟩
    · rintro ⟨before, isBefore⟩
      exact ⟨_, bind_eq_ok_iff.mpr ⟨before, isBefore, rfl⟩⟩
  | and bitmap other inductionHypothesis otherHypothesis
  | or bitmap other inductionHypothesis otherHypothesis =>
    rw [Inside, ← inductionHypothesis, ← otherHypothesis]
    constructor
    · rintro ⟨_, isBuilt⟩
      obtain ⟨before, isBefore, isBuilt⟩ := bind_eq_ok_iff.mp isBuilt
      obtain ⟨second, isSecond, _⟩ := bind_eq_ok_iff.mp isBuilt
      exact ⟨⟨before, isBefore⟩, second, isSecond⟩
    · rintro ⟨⟨before, isBefore⟩, second, isSecond⟩
      exact ⟨_, bind_eq_ok_iff.mpr ⟨before, isBefore,
        bind_eq_ok_iff.mpr ⟨second, isSecond, rfl⟩⟩⟩
  | not bitmap maxValue inductionHypothesis =>
    rw [Inside, ← inductionHypothesis]
    constructor
    · rintro ⟨after, isBuilt⟩
      obtain ⟨before, isBefore, isAfter⟩ := bind_eq_ok_iff.mp isBuilt
      exact ⟨⟨before, isBefore⟩,
        (before.exists_not_iff maxValue).mp ⟨after, isAfter⟩⟩
    · rintro ⟨⟨before, isBefore⟩, inside⟩
      obtain ⟨after, isAfter⟩ := (before.exists_not_iff maxValue).mpr inside
      exact ⟨after, bind_eq_ok_iff.mpr ⟨before, isBefore, isAfter⟩⟩

theorem bits_of_build {bitmap : BitmapExpr} {built : RoaringBitmap}
    (isBuilt : bitmap.build = .ok built) :
    built.Fits ∧
      ∀ value : UInt32,
        rowBit built.bits value.toNat = true ↔ value ∈ bitmap.numbers := by
  induction bitmap generalizing built with
  | new =>
    cases isBuilt
    refine ⟨RoaringBitmap.fits_new, fun value => ?_⟩
    rw [RoaringBitmap.new, rowBit, getD_nil, wordBit_zero]
    exact iff_of_false Bool.false_ne_true id
  | add bitmap value inductionHypothesis =>
    obtain ⟨before, isBefore, same⟩ := bind_eq_ok_iff.mp isBuilt
    cases same
    obtain ⟨fits, bits⟩ := inductionHypothesis isBefore
    refine ⟨fits.add value, fun number => ?_⟩
    rw [RoaringBitmap.rowBit_add, Bool.or_eq_true, bits, decide_eq_true_iff,
      UInt32.toNat_inj, eq_comm]
    rfl
  | and bitmap other inductionHypothesis otherHypothesis =>
    obtain ⟨before, isBefore, isBuilt⟩ := bind_eq_ok_iff.mp isBuilt
    obtain ⟨second, isSecond, same⟩ := bind_eq_ok_iff.mp isBuilt
    cases same
    obtain ⟨fits, bits⟩ := inductionHypothesis isBefore
    obtain ⟨_, otherBits⟩ := otherHypothesis isSecond
    refine ⟨fits.and second, fun number => ?_⟩
    rw [RoaringBitmap.rowBit_and, Bool.and_eq_true, bits, otherBits]
    rfl
  | or bitmap other inductionHypothesis otherHypothesis =>
    obtain ⟨before, isBefore, isBuilt⟩ := bind_eq_ok_iff.mp isBuilt
    obtain ⟨second, isSecond, same⟩ := bind_eq_ok_iff.mp isBuilt
    cases same
    obtain ⟨fits, bits⟩ := inductionHypothesis isBefore
    obtain ⟨otherFits, otherBits⟩ := otherHypothesis isSecond
    refine ⟨fits.or otherFits, fun number => ?_⟩
    rw [RoaringBitmap.rowBit_or, Bool.or_eq_true, bits, otherBits]
    rfl
  | not bitmap maxValue inductionHypothesis =>
    obtain ⟨before, isBefore, isAfter⟩ := bind_eq_ok_iff.mp isBuilt
    obtain ⟨_, bits⟩ := inductionHypothesis isBefore
    refine ⟨RoaringBitmap.fits_of_not isAfter, fun number => ?_⟩
    rw [RoaringBitmap.rowBit_not isAfter, Bool.and_eq_true,
      decide_eq_true_iff, Bool.not_eq_true', ← Bool.not_eq_true, bits]
    rfl

theorem agrees_iff (bitmap : BitmapExpr) :
    bitmap.Agrees ↔ bitmap.Inside := by
  rw [← exists_build_iff]
  refine exists_congr fun built => and_iff_left_of_imp fun isBuilt => ?_
  obtain ⟨fits, bits⟩ := bits_of_build isBuilt
  exact fits.denotes bits

end BitmapExpr

end ChronoDB.Index
