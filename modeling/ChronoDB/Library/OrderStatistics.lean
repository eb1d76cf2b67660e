import Mathlib.Algebra.Order.Field.Basic
import Mathlib.Algebra.Order.Floor.Semiring
import Mathlib.Data.List.Sort
import Mathlib.Tactic.Linarith

namespace ChronoDB.Library

/-!
# Ranks in a sorted list

The element that many places before the end of a sorted list is reached by at
least as many elements of the list.  Between the elements of a sorted list there
is a line that ascends.
-/

theorem exists_greatest {numbers : List ℤ} (nonempty : numbers ≠ []) :
    ∃ greatest ∈ numbers, ∀ number ∈ numbers, number ≤ greatest := by
  cases found : numbers.max? with
  | none => exact absurd (List.max?_eq_none_iff.mp found) nonempty
  | some greatest => exact ⟨greatest, List.max?_eq_some_iff.mp found⟩

section OrderStatistics

variable
  {Value : Type}
  {precedes : Value → Value → Prop}
  [Std.Total precedes]

theorem precedes_of_mem_drop
    {values : List Value} (sorted : values.Pairwise precedes) {place : ℕ}
    {bound : Value} (isBound : values[place]? = some bound) :
    ∀ value ∈ values.drop place, precedes bound value := by
  obtain ⟨inside, rfl⟩ := List.getElem?_eq_some_iff.mp isBound
  have tailSorted := sorted.drop (i := place)
  rw [List.drop_eq_getElem_cons inside] at tailSorted ⊢
  intro value member
  rcases List.mem_cons.mp member with rfl | later
  · exact (Std.Total.total _ _).elim id id
  · exact List.rel_of_pairwise_cons tailSorted later

variable [DecidableRel precedes] [IsTrans Value precedes]

/--
The element with a rank from the end of the sorted list is reached by at least
that many elements.
-/
theorem rank_le_countP
    {values : List Value} {rank : ℕ} (within : rank ≤ values.length)
    {bound : Value}
    (isBound :
      (values.insertionSort precedes)[values.length - rank]? = some bound) :
    rank ≤ values.countP (precedes bound ·) := by
  have sameElements := List.perm_insertionSort precedes values
  have reach := precedes_of_mem_drop
    (List.pairwise_insertionSort precedes values) isBound
  have tailLength :
      ((values.insertionSort precedes).drop (values.length - rank)).length =
        rank := by
    rw [List.length_drop, sameElements.length_eq]
    omega
  calc
    rank =
        ((values.insertionSort precedes).drop (values.length - rank)).countP
          (precedes bound ·) := by
      rw [List.countP_eq_length.mpr fun value member =>
        decide_eq_true (reach value member), tailLength]
    _ ≤ (values.insertionSort precedes).countP (precedes bound ·) :=
      (List.drop_sublist _ _).countP_le
    _ = values.countP (precedes bound ·) := sameElements.countP_eq _

end OrderStatistics

/-!
## Interpolation between neighbours
-/

section Interpolation

variable
  {Value : Type}
  [Field Value]
  [LinearOrder Value]
  [IsStrictOrderedRing Value]
  [FloorSemiring Value]

/-- The line between the two numbers of a sequence around a position. -/
def interpolate (sequence : ℕ → Value) (position : Value) : Value :=
  let lower := ⌊position⌋₊
  let fraction := position - lower
  sequence lower * (1 - fraction) + sequence (lower + 1) * fraction

variable {sequence : ℕ → Value} {position : Value}

@[simp] theorem interpolate_natCast (index : ℕ) :
    interpolate sequence index = sequence index := by
  simp [interpolate]

theorem interpolate_mem_neighbours
    (ascends : Monotone sequence) (notNegative : 0 ≤ position) :
    sequence ⌊position⌋₊ ≤ interpolate sequence position ∧
      interpolate sequence position ≤ sequence (⌊position⌋₊ + 1) := by
  have step : sequence ⌊position⌋₊ ≤ sequence (⌊position⌋₊ + 1) :=
    ascends (Nat.le_succ _)
  have atLeast : (0 : Value) ≤ position - ⌊position⌋₊ :=
    sub_nonneg.mpr (Nat.floor_le notNegative)
  have below : (0 : Value) ≤ 1 - (position - ⌊position⌋₊) := by
    have next := Nat.lt_floor_add_one position
    linarith
  rw [interpolate]
  constructor
  · have gain := mul_nonneg (sub_nonneg.mpr step) atLeast
    linarith
  · have loss := mul_nonneg (sub_nonneg.mpr step) below
    linarith

theorem interpolate_le_interpolate
    (ascends : Monotone sequence) (notNegative : 0 ≤ position) {later : Value}
    (notLater : position ≤ later) :
    interpolate sequence position ≤ interpolate sequence later := by
  have laterNotNegative := notNegative.trans notLater
  rcases (Nat.floor_mono notLater).eq_or_lt with same | less
  · have step : sequence ⌊later⌋₊ ≤ sequence (⌊later⌋₊ + 1) :=
      ascends (Nat.le_succ _)
    have gain := mul_nonneg (sub_nonneg.mpr step) (sub_nonneg.mpr notLater)
    rw [interpolate, interpolate, same]
    linarith
  · calc
      interpolate sequence position
        ≤ sequence (⌊position⌋₊ + 1) :=
          (interpolate_mem_neighbours ascends notNegative).2
      _ ≤ sequence ⌊later⌋₊ := ascends less
      _ ≤ interpolate sequence later :=
          (interpolate_mem_neighbours ascends laterNotNegative).1

end Interpolation

end ChronoDB.Library
