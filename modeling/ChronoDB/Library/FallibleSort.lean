import ChronoDB.Library.Choice
import Mathlib.Data.List.Sort
import Mathlib.Order.Compare

namespace ChronoDB.Library

open List

/-!
# Sorting with comparisons that can fail

A stable sort makes at least one comparison with each item of a list, unless it
is the only one.  When a comparison has no result, the sort has none.  When the
results contradict each other, the sort may fail or leave the items in any
order.
-/

section Unwrapping

variable {Item : Type} (compare : Item → Item → Option Ordering)

/-- Insert an item before the first one that is not less. -/
def insertUnwrapping (item : Item) : List Item → Option (List Item)
  | [] => some [item]
  | first :: rest =>
    match compare item first with
    | none => none
    | some .gt => (insertUnwrapping item rest).map (first :: ·)
    | some _ => some (item :: first :: rest)

/-- Sort by comparisons that are unwrapped. -/
def sortUnwrapping : List Item → Option (List Item)
  | [] => some []
  | item :: rest => (sortUnwrapping rest).bind (insertUnwrapping compare item)

variable {compare}

theorem insertUnwrapping_perm {item : Item} {items inserted : List Item}
    (isInserted : insertUnwrapping compare item items = some inserted) :
    inserted.Perm (item :: items) := by
  induction items generalizing inserted with
  | nil =>
    cases isInserted
    exact .refl _
  | cons first rest inductionHypothesis =>
    rw [insertUnwrapping] at isInserted
    split at isInserted
    · cases isInserted
    · obtain ⟨others, areOthers, rfl⟩ := Option.map_eq_some_iff.mp isInserted
      exact ((inductionHypothesis areOthers).cons first).trans
        (.swap item first rest)
    · cases isInserted
      exact .refl _

theorem sortUnwrapping_perm {items sorted : List Item}
    (isSorted : sortUnwrapping compare items = some sorted) :
    sorted.Perm items := by
  induction items generalizing sorted with
  | nil =>
    cases isSorted
    exact .refl _
  | cons item rest inductionHypothesis =>
    obtain ⟨others, areOthers, isInserted⟩ :=
      Option.bind_eq_some_iff.mp isSorted
    exact (insertUnwrapping_perm isInserted).trans
      ((inductionHypothesis areOthers).cons item)

/-- A comparison that has a result when both sides have a key. -/
def ComparesKeys {Key : Type} (compare : Item → Item → Option Ordering)
    (key : Item → Option Key) :
    Prop :=
  ∀ first second,
    (compare first second).isSome ↔ (key first).isSome ∧ (key second).isSome

variable {Key : Type} {key : Item → Option Key}

theorem insertUnwrapping_isSome
    (comparesKeys : ComparesKeys compare key) {item : Item}
    (hasKey : (key item).isSome) {items : List Item}
    (haveKeys : ∀ other ∈ items, (key other).isSome) :
    (insertUnwrapping compare item items).isSome := by
  induction items with
  | nil => rfl
  | cons first rest inductionHypothesis =>
    obtain ⟨firstHasKey, restHaveKeys⟩ := forall_mem_cons.mp haveKeys
    obtain ⟨order, isOrder⟩ :=
      Option.isSome_iff_exists.mp
        ((comparesKeys item first).mpr ⟨hasKey, firstHasKey⟩)
    rw [insertUnwrapping, isOrder]
    cases order with
    | gt =>
      rw [Option.isSome_map]
      exact inductionHypothesis restHaveKeys
    | lt | eq => rfl

theorem sortUnwrapping_isSome
    (comparesKeys : ComparesKeys compare key) {items : List Item}
    (haveKeys : ∀ item ∈ items, (key item).isSome) :
    (sortUnwrapping compare items).isSome := by
  induction items with
  | nil => rfl
  | cons item rest inductionHypothesis =>
    obtain ⟨hasKey, restHaveKeys⟩ := forall_mem_cons.mp haveKeys
    obtain ⟨sorted, isSorted⟩ :=
      Option.isSome_iff_exists.mp (inductionHypothesis restHaveKeys)
    rw [sortUnwrapping, isSorted, Option.bind_some]
    refine insertUnwrapping_isSome comparesKeys hasKey fun other member => ?_
    exact restHaveKeys other ((sortUnwrapping_perm isSorted).mem_iff.mp member)

theorem sortUnwrapping_isSome_iff
    (comparesKeys : ComparesKeys compare key) (items : List Item) :
    (sortUnwrapping compare items).isSome ↔
      items.length ≤ 1 ∨ ∀ item ∈ items, (key item).isSome := by
  constructor
  · intro hasResult
    induction items with
    | nil => exact .inl (Nat.zero_le 1)
    | cons item rest inductionHypothesis =>
      obtain ⟨sorted, isSorted⟩ := Option.isSome_iff_exists.mp hasResult
      obtain ⟨others, areOthers, isInserted⟩ :=
        Option.bind_eq_some_iff.mp isSorted
      have sameOthers := sortUnwrapping_perm areOthers
      -- the item is compared with the first of the others
      cases others with
      | nil =>
        rw [nil_perm.mp sameOthers]
        exact .inl (Nat.le_refl 1)
      | cons first later =>
        have compared : (compare item first).isSome := by
          rw [insertUnwrapping] at isInserted
          split at isInserted
          · cases isInserted
          · simp [*]
          · simp [*]
        obtain ⟨hasKey, firstHasKey⟩ := (comparesKeys item first).mp compared
        refine .inr (forall_mem_cons.mpr ⟨hasKey, ?_⟩)
        have restSorts : (sortUnwrapping compare rest).isSome := by
          rw [areOthers]
          rfl
        rcases inductionHypothesis restSorts with short | haveKeys
        · have onlyFirst : later = [] := by
            have sameLength := sameOthers.length_eq
            rw [length_cons] at sameLength
            exact length_eq_zero_iff.mp (by omega)
          subst onlyFirst
          rw [← singleton_perm.mp sameOthers]
          exact forall_mem_singleton.mpr firstHasKey
        · exact haveKeys
  · rintro (short | haveKeys)
    · rcases items with _ | ⟨item, _ | ⟨second, rest⟩⟩
      · rfl
      · rfl
      · simp at short
    · exact sortUnwrapping_isSome comparesKeys haveKeys

end Unwrapping

section Contradictions

variable {Item : Type}

/-- Comparisons that put some items into a linear order. -/
structure OrdersAll (compare : Item → Item → Ordering) (items : List Item) :
    Prop where
  swap :
    ∀ first ∈ items, ∀ second ∈ items,
      compare second first = (compare first second).swap
  trans :
    ∀ first ∈ items, ∀ second ∈ items, ∀ third ∈ items,
      compare first second ≠ .gt →
        compare second third ≠ .gt → compare first third ≠ .gt

/-- A stable sort; it may fail when the comparisons are no linear order. -/
def sortOrFail
    {Failure : Type} (failure : Failure) (compare : Item → Item → Ordering)
    (items : List Item) :
    Choice Failure (List Item) :=
  .ofOutcomes
    {outcome |
      OrdersAll compare items ∧
          outcome =
            .ok
              (items.insertionSort fun first second =>
                compare first second ≠ .gt) ∨
        ¬OrdersAll compare items ∧
          (outcome = .error failure ∨
            ∃ ordered, ordered.Perm items ∧ outcome = .ok ordered)}

theorem avoids_sortOrFail_iff
    {Failure : Type} {failure : Failure} {compare : Item → Item → Ordering}
    {items : List Item} :
    (sortOrFail failure compare items).Avoids failure ↔
      OrdersAll compare items := by
  by_cases ordersAll : OrdersAll compare items <;>
    simp [Choice.Avoids, sortOrFail, ordersAll]

theorem returns_sortOrFail
    {Failure : Type} (failure : Failure) (compare : Item → Item → Ordering)
    (items : List Item) :
    (sortOrFail failure compare items).Returns := by
  by_cases ordersAll : OrdersAll compare items
  · exact ⟨_, .inl ⟨ordersAll, rfl⟩⟩
  · exact ⟨items, .inr ⟨ordersAll, .inr ⟨items, .refl items, rfl⟩⟩⟩

theorem perm_of_mem_sortOrFail
    {Failure : Type} {failure : Failure} {compare : Item → Item → Ordering}
    {items sorted : List Item}
    (isSorted : .ok sorted ∈ (sortOrFail failure compare items).outcomes) :
    sorted.Perm items := by
  rcases isSorted with ⟨_, isOutcome⟩ | ⟨_, fails | ⟨_, isPerm, isOutcome⟩⟩
  · cases isOutcome
    exact perm_insertionSort _ items
  · cases fails
  · cases isOutcome
    exact isPerm

variable {Key : Type} [LinearOrder Key]

/-- The order of keys; without a key items count as equal. -/
def compareOrEqual (key : Item → Option Key) (first second : Item) : Ordering :=
  match key first, key second with
  | some firstKey, some secondKey => compare firstKey secondKey
  | _, _ => .eq

theorem ordersAll_of_allEqual
    {compare : Item → Item → Ordering} {items : List Item}
    (allEqual : ∀ first ∈ items, ∀ second ∈ items, compare first second = .eq) :
    OrdersAll compare items := by
  refine ⟨?_, ?_⟩
  · intro first isFirst second isSecond
    rw [allEqual first isFirst second isSecond,
      allEqual second isSecond first isFirst]
    rfl
  · intro first isFirst _ _ third isThird _ _
    rw [allEqual first isFirst third isThird]
    exact Ordering.noConfusion

theorem ordersAll_of_keys {key : Item → Option Key} {items : List Item}
    (haveKeys : ∀ item ∈ items, (key item).isSome) :
    OrdersAll (compareOrEqual key) items := by
  have hasKey : ∀ item ∈ items, ∃ found, key item = some found :=
    fun item isItem => Option.isSome_iff_exists.mp (haveKeys item isItem)
  refine ⟨?_, ?_⟩
  · intro first isFirst second isSecond
    obtain ⟨firstKey, hasFirst⟩ := hasKey first isFirst
    obtain ⟨secondKey, hasSecond⟩ := hasKey second isSecond
    simp only [compareOrEqual, hasFirst, hasSecond]
    exact Std.OrientedOrd.eq_swap
  · intro first isFirst second isSecond third isThird
    obtain ⟨firstKey, hasFirst⟩ := hasKey first isFirst
    obtain ⟨secondKey, hasSecond⟩ := hasKey second isSecond
    obtain ⟨thirdKey, hasThird⟩ := hasKey third isThird
    simp only [compareOrEqual, hasFirst, hasSecond, hasThird, compare_le_iff_le]
    exact le_trans

theorem compareOrEqual_of_sameKeys {key : Item → Option Key} {items : List Item}
    (sameKeys :
      ∀ first ∈ items.filterMap key, ∀ second ∈ items.filterMap key,
        first = second)
    {first second : Item} (isFirst : first ∈ items)
    (isSecond : second ∈ items) :
    compareOrEqual key first second = .eq := by
  cases hasFirst : key first with
  | none => simp only [compareOrEqual, hasFirst]
  | some firstKey =>
    cases hasSecond : key second with
    | none => simp only [compareOrEqual, hasFirst, hasSecond]
    | some secondKey =>
      have same :=
        sameKeys firstKey
          (mem_filterMap.mpr ⟨first, isFirst, hasFirst⟩)
          secondKey
          (mem_filterMap.mpr ⟨second, isSecond, hasSecond⟩)
      simp only [compareOrEqual, hasFirst, hasSecond, same, Std.compare_self]

theorem key_le_of_ordersAll {key : Item → Option Key} {items : List Item}
    (ordersAll : OrdersAll (compareOrEqual key) items) {odd : Item}
    (isOdd : odd ∈ items) (noKey : key odd = none) {firstKey secondKey : Key}
    (isFirst : firstKey ∈ items.filterMap key)
    (isSecond : secondKey ∈ items.filterMap key) :
    firstKey ≤ secondKey := by
  obtain ⟨first, firstMember, hasFirst⟩ := mem_filterMap.mp isFirst
  obtain ⟨second, secondMember, hasSecond⟩ := mem_filterMap.mp isSecond
  -- two different keys are both equal to the item without one
  have notGreater :=
    ordersAll.trans first firstMember odd isOdd second secondMember
      (by simp [compareOrEqual, noKey]) (by simp [compareOrEqual, noKey])
  simp only [compareOrEqual, hasFirst, hasSecond] at notGreater
  exact compare_le_iff_le.mp notGreater

/--
Items that count as equal without a key are in a linear order when all of them
have keys, or when all their keys are the same.
-/
theorem ordersAll_compareOrEqual_iff
    (key : Item → Option Key) (items : List Item) :
    OrdersAll (compareOrEqual key) items ↔
      (∀ item ∈ items, (key item).isSome) ∨
        ∀ first ∈ items.filterMap key, ∀ second ∈ items.filterMap key,
          first = second := by
  constructor
  · intro ordersAll
    by_contra! contradiction
    obtain ⟨⟨odd, isOdd, noKey⟩, firstKey, isFirst, secondKey, isSecond,
      different⟩ := contradiction
    rw [ne_eq, Option.not_isSome_iff_eq_none] at noKey
    exact different
      (le_antisymm
        (key_le_of_ordersAll ordersAll isOdd noKey isFirst isSecond)
        (key_le_of_ordersAll ordersAll isOdd noKey isSecond isFirst))
  · rintro (haveKeys | sameKeys)
    · exact ordersAll_of_keys haveKeys
    · exact ordersAll_of_allEqual fun _ isFirst _ isSecond =>
        compareOrEqual_of_sameKeys sameKeys isFirst isSecond

end Contradictions

end ChronoDB.Library
