import Mathlib.Algebra.Group.Basic
import Mathlib.Data.List.Basic

namespace ChronoDB.Library

/-!
# Lists of second differences

Summing a list up twice, from a first value and a first difference, gives the
list whose second differences it holds.  A list of second differences is
determined by its sums.
-/

variable {Number : Type} [Add Number]

/-- The values with given second differences, from a value and a difference. -/
def summedTwice (value delta : Number) : List Number → List Number
  | [] => []
  | dod :: rest =>
    (value + (delta + dod)) ::
      summedTwice (value + (delta + dod)) (delta + dod) rest

@[simp] theorem summedTwice_nil (value delta : Number) :
    summedTwice value delta [] = [] :=
  rfl

theorem summedTwice_cons (value delta dod : Number) (rest : List Number) :
    summedTwice value delta (dod :: rest) =
      (value + (delta + dod)) ::
        summedTwice (value + (delta + dod)) (delta + dod) rest :=
  rfl

@[simp] theorem length_summedTwice (value delta : Number) (dods : List Number) :
    (summedTwice value delta dods).length = dods.length := by
  induction dods generalizing value delta with
  | nil => rfl
  | cons dod rest inductionHypothesis =>
    simp [summedTwice_cons, inductionHypothesis]

theorem take_summedTwice
    (value delta : Number) (dods : List Number) (count : ℕ) :
    (summedTwice value delta dods).take count =
      summedTwice value delta (dods.take count) := by
  induction dods generalizing value delta count with
  | nil => simp
  | cons dod rest inductionHypothesis =>
    cases count with
    | zero => rfl
    | succ count => simp [summedTwice_cons, inductionHypothesis]

theorem map_summedTwice {Image : Type} [Add Image] {transform : Number → Image}
    (additive :
      ∀ first second,
        transform (first + second) = transform first + transform second)
    (value delta : Number) (dods : List Number) :
    (summedTwice value delta dods).map transform =
      summedTwice (transform value) (transform delta) (dods.map transform) := by
  induction dods generalizing value delta with
  | nil => rfl
  | cons dod rest inductionHypothesis =>
    simp [summedTwice_cons, inductionHypothesis, additive]

theorem summedTwice_injective
    [IsLeftCancelAdd Number] {value delta : Number} {first second : List Number}
    (same :
      summedTwice value delta first = summedTwice value delta second) :
    first = second := by
  induction first generalizing value delta second with
  | nil =>
    have lengths := congrArg List.length same
    simp only [length_summedTwice, List.length_nil] at lengths
    exact (List.eq_nil_of_length_eq_zero lengths.symm).symm
  | cons dod rest inductionHypothesis =>
    cases second with
    | nil => cases same
    | cons otherDod otherRest =>
      rw [summedTwice_cons, summedTwice_cons, List.cons.injEq] at same
      obtain ⟨sameValue, sameRest⟩ := same
      have sameDod : dod = otherDod :=
        add_left_cancel (add_left_cancel sameValue)
      subst sameDod
      rw [inductionHypothesis sameRest]

theorem isPrefix_of_summedTwice
    [IsLeftCancelAdd Number] {value delta : Number} {first second : List Number}
    (isPrefix :
      summedTwice value delta first <+: summedTwice value delta second) :
    first <+: second := by
  have taken := List.prefix_iff_eq_take.mp isPrefix
  rw [take_summedTwice, length_summedTwice] at taken
  rw [summedTwice_injective taken]
  exact List.take_prefix _ _

/-!
## Differences of neighbours
-/

/-- The difference of each member to the one before. -/
def differences {Number : Type} [Sub Number] : List Number → List Number
  | first :: second :: rest => (second - first) :: differences (second :: rest)
  | _ => []

theorem differences_summedTwice
    {Number : Type} [AddCommGroup Number] (value delta : Number)
    (dods : List Number) :
    differences (delta :: differences (value :: summedTwice value delta dods)) =
      dods := by
  induction dods generalizing value delta with
  | nil => rfl
  | cons dod rest inductionHypothesis =>
    rw [summedTwice_cons, differences, differences, add_sub_cancel_left,
      add_sub_cancel_left, inductionHypothesis]

end ChronoDB.Library
