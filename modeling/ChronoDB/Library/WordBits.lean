import Mathlib.Data.Nat.Bitwise
import Mathlib.Data.List.Basic

namespace ChronoDB.Library

open List

/-!
# The bits of words

A word of 64 bits is known by its bits at the places below 64.  Every bitwise
operation acts at each place on its own.  A list of words holds the numbers
whose bits are set, 64 to a word.
-/

def wordBit (word : UInt64) (place : ℕ) : Bool :=
  word.toNat.testBit place

/-- A word with one bit. -/
def oneBit (place : ℕ) : UInt64 :=
  1 <<< UInt64.ofNat place

/-- A word with all bits below a place. -/
def lowMask (width : ℕ) : UInt64 :=
  (1 <<< UInt64.ofNat width) - 1

@[simp] theorem wordBit_zero (place : ℕ) : wordBit 0 place = false :=
  Nat.zero_testBit place

@[simp] theorem wordBit_and (first second : UInt64) (place : ℕ) :
    wordBit (first &&& second) place =
      (wordBit first place && wordBit second place) := by
  rw [wordBit, UInt64.toNat_and, Nat.testBit_and]
  rfl

@[simp] theorem wordBit_or (first second : UInt64) (place : ℕ) :
    wordBit (first ||| second) place =
      (wordBit first place || wordBit second place) := by
  rw [wordBit, UInt64.toNat_or, Nat.testBit_or]
  rfl

variable (word : UInt64) {place : ℕ}

theorem wordBit_not (inWord : place < 64) :
    wordBit (~~~word) place = !wordBit word place := by
  have complement :
      UInt64.size - 1 - word.toNat = 2 ^ 64 - (word.toNat + 1) := by
    rw [Nat.add_comm word.toNat, ← Nat.sub_sub]
    rfl
  rw [wordBit, UInt64.toNat_not, complement, Nat.testBit_two_pow_sub_succ
    word.toNat_lt, decide_eq_true inWord, Bool.true_and]
  rfl

theorem toNat_oneBit {place : ℕ} (inWord : place < 64) :
    (oneBit place).toNat = 2 ^ place := by
  have power : 2 ^ place < 2 ^ 64 := Nat.pow_lt_pow_right (by decide) inWord
  rw [oneBit, UInt64.toNat_shiftLeft, UInt64.toNat_ofNat', Nat.shiftLeft_eq,
    UInt64.toNat_one, Nat.one_mul,
    Nat.mod_eq_of_lt (show place < 2 ^ 64 by omega),
    Nat.mod_eq_of_lt inWord, Nat.mod_eq_of_lt power]

theorem wordBit_oneBit (inWord : place < 64) (other : ℕ) :
    wordBit (oneBit place) other = decide (place = other) := by
  rw [wordBit, toNat_oneBit inWord, Nat.testBit_two_pow]

theorem toNat_lowMask {width : ℕ} (narrow : width < 64) :
    (lowMask width).toNat = 2 ^ width - 1 := by
  have isPower := toNat_oneBit narrow
  rw [oneBit] at isPower
  rw [lowMask, UInt64.toNat_sub_of_le, isPower, UInt64.toNat_one]
  rw [UInt64.le_iff_toNat_le, isPower, UInt64.toNat_one]
  exact Nat.two_pow_pos width

theorem wordBit_lowMask {width : ℕ} (narrow : width < 64) (place : ℕ) :
    wordBit (lowMask width) place = decide (place < width) := by
  rw [wordBit, toNat_lowMask narrow, Nat.testBit_two_pow_sub_one]

theorem toNat_and_lowMask_lt {width : ℕ} (narrow : width < 64) (word : UInt64) :
    (word &&& lowMask width).toNat < 2 ^ width := by
  have masked := @Nat.and_le_right word.toNat (2 ^ width - 1)
  have positive := Nat.two_pow_pos width
  rw [UInt64.toNat_and, toNat_lowMask narrow]
  omega

theorem shiftRight_and_one (inWord : place < 64) :
    ((word >>> UInt64.ofNat place) &&& 1 == 1) = wordBit word place := by
  rw [wordBit, Nat.testBit_eq_decide_div_mod_eq, Bool.eq_iff_iff, beq_iff_eq,
    decide_eq_true_eq, ← UInt64.toNat_inj, UInt64.toNat_and,
    UInt64.toNat_shiftRight, UInt64.toNat_ofNat',
    Nat.mod_eq_of_lt (show place < 2 ^ 64 by omega),
    Nat.mod_eq_of_lt inWord, Nat.shiftRight_eq_div_pow, UInt64.toNat_one,
    Nat.and_one_is_mod]

theorem and_oneBit_ne_zero (inWord : place < 64) :
    word &&& oneBit place ≠ 0 ↔ wordBit word place = true := by
  rw [ne_eq, ← UInt64.toNat_inj, UInt64.toNat_and, toNat_oneBit inWord,
    Nat.and_two_pow, UInt64.toNat_zero, wordBit]
  have positive := Nat.two_pow_pos place
  cases word.toNat.testBit place with
  | false => simp
  | true => simp

theorem eq_zero_of_wordBit
    {word : UInt64} (noBit : ∀ place < 64, wordBit word place = false) :
    word = 0 := by
  apply UInt64.toNat_inj.mp
  apply Nat.eq_of_testBit_eq
  intro place
  rw [UInt64.toNat_zero, Nat.zero_testBit]
  by_cases inWord : place < 64
  · exact noBit place inWord
  · exact Nat.testBit_lt_two_pow (word.toNat_lt.trans_le
      (Nat.pow_le_pow_right (by decide) (Nat.le_of_not_lt inWord)))

/-!
## Words in a row
-/

def rowBit (words : List UInt64) (number : ℕ) : Bool :=
  wordBit (words.getD (number / 64) 0) (number % 64)

def setPlaces (word : UInt64) : List ℕ :=
  (List.range 64).filter (wordBit word)

def countOnes (word : UInt64) : ℕ :=
  (setPlaces word).length

/-- The numbers that a row of words holds, ascending, from the number of a word. -/
def rowNumbersFrom (index : ℕ) : List UInt64 → List ℕ
  | [] => []
  | word :: rest =>
    (setPlaces word).map (index * 64 + ·) ++ rowNumbersFrom (index + 1) rest

theorem getD_modify
    {words : List UInt64} {index : ℕ} (inside : index < words.length)
    (change : UInt64 → UInt64) (place : ℕ) :
    (words.modify index change).getD place 0 =
      if index = place then change (words.getD place 0)
      else words.getD place 0 := by
  rw [getD_eq_getElem?_getD, getD_eq_getElem?_getD, getElem?_modify]
  split
  · next same =>
    subst same
    rw [getElem?_eq_getElem inside]
    rfl
  · rw [Option.map_eq_map, Option.map_id']

theorem mem_setPlaces {word : UInt64} {place : ℕ} :
    place ∈ setPlaces word ↔ place < 64 ∧ wordBit word place = true := by
  rw [setPlaces, mem_filter, mem_range]

theorem mem_rowNumbersFrom {index number : ℕ} {words : List UInt64} :
    number ∈ rowNumbersFrom index words ↔
      index * 64 ≤ number ∧ rowBit words (number - index * 64) = true := by
  induction words generalizing index with
  | nil => simp [rowNumbersFrom, rowBit]
  | cons word rest inductionHypothesis =>
    rw [rowNumbersFrom, mem_append, inductionHypothesis, mem_map]
    constructor
    · rintro (⟨place, isPlace, rfl⟩ | ⟨later, isSet⟩)
      · obtain ⟨inWord, isSet⟩ := mem_setPlaces.mp isPlace
        refine ⟨Nat.le_add_right _ _, ?_⟩
        rw [Nat.add_sub_cancel_left, rowBit, Nat.div_eq_of_lt inWord,
          Nat.mod_eq_of_lt inWord]
        exact isSet
      · refine ⟨by omega, ?_⟩
        have isNext :
            number - index * 64 = (number - (index + 1) * 64) + 64 := by
          omega
        rw [isNext, rowBit, Nat.add_div_right _ (by decide), Nat.add_mod_right]
        exact isSet
    · rintro ⟨notBefore, isSet⟩
      by_cases inWord : number - index * 64 < 64
      · rw [rowBit, Nat.div_eq_of_lt inWord, Nat.mod_eq_of_lt inWord] at isSet
        exact .inl ⟨number - index * 64, mem_setPlaces.mpr ⟨inWord, isSet⟩,
          by omega⟩
      · have isNext :
            number - index * 64 = (number - (index + 1) * 64) + 64 := by
          omega
        rw [isNext, rowBit, Nat.add_div_right _ (by decide),
          Nat.add_mod_right] at isSet
        exact .inr ⟨by omega, isSet⟩

theorem pairwise_rowNumbersFrom (index : ℕ) (words : List UInt64) :
    (rowNumbersFrom index words).Pairwise (· < ·) := by
  induction words generalizing index with
  | nil => exact List.Pairwise.nil
  | cons word rest inductionHypothesis =>
    refine pairwise_append.mpr ⟨?_, inductionHypothesis (index + 1), ?_⟩
    · rw [pairwise_map]
      refine (pairwise_lt_range.filter _).imp ?_
      intro first second ascending
      exact Nat.add_lt_add_left ascending _
    · intro first isFirst second isSecond
      obtain ⟨place, isPlace, rfl⟩ := mem_map.mp isFirst
      have inWord := (mem_setPlaces.mp isPlace).1
      have later := (mem_rowNumbersFrom.mp isSecond).1
      omega

theorem length_rowNumbersFrom (index : ℕ) (words : List UInt64) :
    (rowNumbersFrom index words).length = (words.map countOnes).sum := by
  induction words generalizing index with
  | nil => rfl
  | cons word rest inductionHypothesis =>
    rw [rowNumbersFrom, length_append, length_map,
      inductionHypothesis, map_cons, sum_cons, countOnes]

end ChronoDB.Library
