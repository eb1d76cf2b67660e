import Mathlib.Data.Set.Functor
import Mathlib.Control.Monad.Basic
import Mathlib.Data.List.Forall2

namespace ChronoDB.Library

open List

/-!
# Choices that can fail

A computation whose steps may go one of several ways, each of them with a result
or with a failure.  It is read through the set of its outcomes.
-/

theorem exists_right_of_forall₂
    {Item Other : Type} {related : Item → Other → Prop} {items : List Item}
    {others : List Other} (relates : List.Forall₂ related items others) :
    ∀ item ∈ items, ∃ other ∈ others, related item other := by
  induction relates with
  | nil => exact forall_mem_nil _
  | cons isRelated _ inductionHypothesis =>
    refine forall_mem_cons.mpr
      ⟨⟨_, mem_cons_self, isRelated⟩, fun item member => ?_⟩
    obtain ⟨other, isOther, isRelatedThere⟩ := inductionHypothesis item member
    exact ⟨other, mem_cons_of_mem _ isOther, isRelatedThere⟩

theorem exists_left_of_forall₂
    {Item Other : Type} {related : Item → Other → Prop} {items : List Item}
    {others : List Other} (relates : List.Forall₂ related items others) :
    ∀ other ∈ others, ∃ item ∈ items, related item other :=
  exists_right_of_forall₂ relates.flip

theorem forall₂_exists_iff
    {Item Source Made : Type} {related : Item → Source → Prop}
    {make : Item → Source → Made} {items : List Item} {results : List Made} :
    List.Forall₂
        (fun item result =>
          ∃ source, related item source ∧ make item source = result)
        items results ↔
      ∃ sources, List.Forall₂ related items sources ∧
        (items.zip sources).map (fun pair => make pair.1 pair.2) = results := by
  induction items generalizing results with
  | nil =>
    simp only [List.forall₂_nil_left_iff, exists_eq_left, zip_nil_left,
      map_nil, eq_comm]
  | cons item rest inductionHypothesis =>
    simp only [List.forall₂_cons_left_iff, inductionHypothesis]
    constructor
    · rintro ⟨_, _, ⟨first, isFirst, rfl⟩, ⟨others, areOthers, rfl⟩, rfl⟩
      exact ⟨first :: others, ⟨first, others, isFirst, areOthers, rfl⟩, rfl⟩
    · rintro ⟨_, ⟨first, others, isFirst, areOthers, rfl⟩, rfl⟩
      exact ⟨_, _, ⟨first, isFirst, rfl⟩, ⟨others, areOthers, rfl⟩, rfl⟩

/-- Computations with choices, in which a failure ends everything. -/
abbrev Choice (Failure : Type) := ExceptT Failure SetM

namespace Choice

variable {Failure Result Next : Type}

/-- What a computation can end with. -/
def outcomes (computation : Choice Failure Result) :
    Set (Except Failure Result) :=
  SetM.run computation.run

/-- The computation with given outcomes. -/
def ofOutcomes (allowed : Set (Except Failure Result)) :
    Choice Failure Result :=
  ExceptT.mk allowed

def choose (allowed : Set Result) : Choice Failure Result :=
  ofOutcomes (Except.ok '' allowed)

def anyOrder {Item : Type} (items : List Item) : Choice Failure (List Item) :=
  choose {ordered | ordered.Perm items}

theorem choose_singleton (result : Result) :
    (choose {result} : Choice Failure Result) = pure result := by
  rw [choose, Set.image_singleton]
  rfl

theorem anyOrder_singleton {Item : Type} (item : Item) :
    (anyOrder [item] : Choice Failure (List Item)) = pure [item] := by
  simp only [anyOrder, perm_singleton]
  exact choose_singleton [item]

@[simp] theorem outcomes_ofOutcomes (allowed : Set (Except Failure Result)) :
    (ofOutcomes allowed).outcomes = allowed :=
  rfl

@[simp] theorem outcomes_choose (allowed : Set Result) :
    (choose allowed : Choice Failure Result).outcomes = Except.ok '' allowed :=
  rfl

@[simp] theorem outcomes_pure (result : Result) :
    outcomes (pure result : Choice Failure Result) = {.ok result} :=
  rfl

@[simp] theorem outcomes_throw (failure : Failure) :
    outcomes (throw failure : Choice Failure Result) = {.error failure} :=
  rfl

variable {Item : Type} {step : Item → Choice Failure Result}
  {first : Choice Failure Result} {items : List Item} {holds : Result → Prop}
  {second : Result → Choice Failure Next} {results : List Result}

theorem mem_outcomes_bind {outcome : Except Failure Next} :
    outcome ∈ (first >>= second).outcomes ↔
      ∃ reached ∈ first.outcomes,
        match reached with
        | .ok result => outcome ∈ (second result).outcomes
        | .error failure => outcome = .error failure := by
  change outcome ∈
    ⋃ reached ∈ first.outcomes, SetM.run (ExceptT.bindCont second reached) ↔ _
  rw [Set.mem_iUnion₂]
  simp only [exists_prop]
  refine exists_congr fun reached => and_congr_right fun _ => ?_
  cases reached <;> exact Iff.rfl

theorem choose_map (allowed : Set Result) (f : Result → Next) :
    (do let result ← choose allowed; pure (f result) : Choice Failure Next) =
      choose (f '' allowed) := by
  refine Set.ext fun outcome => mem_outcomes_bind.trans ?_
  rw [outcomes_choose, Set.exists_mem_image]
  constructor
  · rintro ⟨result, isAllowed, rfl⟩
    exact ⟨f result, ⟨result, isAllowed, rfl⟩, rfl⟩
  · rintro ⟨_, ⟨result, isAllowed, rfl⟩, rfl⟩
    exact ⟨result, isAllowed, rfl⟩

theorem choose_bind_choose
    (allowed : Set Result) (allowedThen : Result → Set Next) :
    (choose allowed >>= fun result => choose (allowedThen result) :
        Choice Failure Next) =
      choose {next | ∃ result ∈ allowed, next ∈ allowedThen result} := by
  refine Set.ext fun outcome => mem_outcomes_bind.trans ?_
  rw [outcomes_choose, Set.exists_mem_image]
  constructor
  · rintro ⟨result, isAllowed, next, isNext, rfl⟩
    exact ⟨next, ⟨result, isAllowed, isNext⟩, rfl⟩
  · rintro ⟨next, ⟨result, isAllowed, isNext⟩, rfl⟩
    exact ⟨result, isAllowed, next, isNext, rfl⟩

theorem mapM_choose (allowed : Item → Set Result) (items : List Item) :
    (items.mapM fun item => (choose (allowed item) : Choice Failure Result)) =
      choose
        {results |
          List.Forall₂ (fun item result => result ∈ allowed item) items
            results} := by
  induction items with
  | nil =>
    simp only [mapM_nil, List.forall₂_nil_left_iff]
    exact (choose_singleton []).symm
  | cons item rest inductionHypothesis =>
    rw [mapM_cons, inductionHypothesis]
    simp only [choose_map, choose_bind_choose]
    congr 1
    ext results
    refine Iff.trans ?_ List.forall₂_cons_left_iff.symm
    constructor
    · rintro ⟨first, isFirst, others, areOthers, rfl⟩
      exact ⟨first, others, isFirst, areOthers, rfl⟩
    · rintro ⟨first, others, isFirst, areOthers, rfl⟩
      exact ⟨first, isFirst, others, areOthers, rfl⟩

theorem ok_mem_outcomes_bind {next : Next} :
    .ok next ∈ (first >>= second).outcomes ↔
      ∃ result,
        .ok result ∈ first.outcomes ∧ .ok next ∈ (second result).outcomes := by
  rw [mem_outcomes_bind]
  constructor
  · rintro ⟨_ | result, isFirst, isNext⟩
    · cases isNext
    · exact ⟨result, isFirst, isNext⟩
  · rintro ⟨result, isFirst, isNext⟩
    exact ⟨.ok result, isFirst, isNext⟩

theorem ok_mem_outcomes_mapM_iff :
    .ok results ∈ (items.mapM step).outcomes ↔
      List.Forall₂ (fun item result => .ok result ∈ (step item).outcomes)
        items results := by
  induction items generalizing results with
  | nil =>
    rw [mapM_nil, List.forall₂_nil_left_iff]
    exact Except.ok.injEq results [] ▸ Iff.rfl
  | cons item rest inductionHypothesis =>
    rw [mapM_cons, ok_mem_outcomes_bind, List.forall₂_cons_left_iff]
    simp only [ok_mem_outcomes_bind, inductionHypothesis]
    constructor
    · rintro ⟨first, isFirst, others, areOthers, isWhole⟩
      exact ⟨first, others, isFirst, areOthers, Except.ok.inj isWhole⟩
    · rintro ⟨first, others, isFirst, areOthers, rfl⟩
      exact ⟨first, isFirst, others, areOthers, rfl⟩

theorem forall_of_mem_outcomes_mapM
    (each : ∀ item result, .ok result ∈ (step item).outcomes → holds result)
    (isOutcome : .ok results ∈ (items.mapM step).outcomes) :
    ∀ result ∈ results, holds result := by
  intro result isResult
  obtain ⟨item, _, isOutcomeThere⟩ :=
    exists_left_of_forall₂ (ok_mem_outcomes_mapM_iff.mp isOutcome) result
      isResult
  exact each item result isOutcomeThere

theorem exists_of_mem_outcomes_mapM
    (isOutcome : .ok results ∈ (items.mapM step).outcomes) :
    ∀ item ∈ items, ∃ result, .ok result ∈ (step item).outcomes := by
  intro item isItem
  obtain ⟨result, _, isOutcomeThere⟩ :=
    exists_right_of_forall₂ (ok_mem_outcomes_mapM_iff.mp isOutcome) item isItem
  exact ⟨result, isOutcomeThere⟩

def Ensures (computation : Choice Failure Result) (holds : Result → Prop) :
    Prop :=
  ∀ outcome ∈ computation.outcomes,
    ∃ result, outcome = .ok result ∧ holds result

theorem ensures_choose_iff {allowed : Set Result} :
    (choose allowed : Choice Failure Result).Ensures holds ↔
      ∀ result ∈ allowed, holds result := by
  constructor
  · intro ensures result isAllowed
    obtain ⟨reached, isReached, holdsThere⟩ :=
      ensures _ ⟨result, isAllowed, rfl⟩
    exact Except.ok.inj isReached ▸ holdsThere
  · rintro each _ ⟨result, isAllowed, rfl⟩
    exact ⟨result, rfl, each result isAllowed⟩

theorem Ensures.imp
    {computation : Choice Failure Result} {stronger weaker : Result → Prop}
    (ensures : computation.Ensures stronger)
    (implies : ∀ result, stronger result → weaker result) :
    computation.Ensures weaker := by
  intro outcome isOutcome
  obtain ⟨result, isResult, isStronger⟩ := ensures outcome isOutcome
  exact ⟨result, isResult, implies result isStronger⟩

theorem ensures_pure {result : Result} (isResult : holds result) :
    Ensures (pure result : Choice Failure Result) holds := by
  rintro _ rfl
  exact ⟨result, rfl, isResult⟩

theorem ensures_bind {between : Result → Prop} {holds : Next → Prop}
    (ensures : first.Ensures between)
    (ensuresThen : ∀ result, between result → (second result).Ensures holds) :
    (first >>= second).Ensures holds := by
  intro outcome isOutcome
  obtain ⟨reached, isReached, reaches⟩ := mem_outcomes_bind.mp isOutcome
  obtain ⟨result, rfl, isBetween⟩ := ensures reached isReached
  exact ensuresThen result isBetween outcome reaches

theorem ensures_anyOrder {Item : Type} (items : List Item) :
    Ensures (anyOrder items : Choice Failure (List Item))
      fun ordered => ordered.Perm items := by
  rintro _ ⟨ordered, isOrder, rfl⟩
  exact ⟨ordered, rfl, isOrder⟩

def Avoids (computation : Choice Failure Result) (failure : Failure) : Prop :=
  .error failure ∉ computation.outcomes

/-- A computation that can come to a result. -/
def Returns (computation : Choice Failure Result) : Prop :=
  ∃ result, .ok result ∈ computation.outcomes

theorem Returns.nonempty
    {computation : Choice Failure Result} (returns : computation.Returns) :
    computation.outcomes.Nonempty :=
  let ⟨result, isResult⟩ := returns
  ⟨.ok result, isResult⟩

section Avoidance

variable {failure : Failure}

@[simp] theorem avoids_pure (result : Result) :
    Avoids (pure result : Choice Failure Result) failure :=
  fun isFailure => nomatch isFailure

theorem avoids_throw_iff {other : Failure} :
    Avoids (throw other : Choice Failure Result) failure ↔ failure ≠ other := by
  simp [Avoids]

@[simp] theorem avoids_choose (allowed : Set Result) :
    Avoids (choose allowed : Choice Failure Result) failure := by
  simp [Avoids]

@[simp] theorem avoids_anyOrder {Item : Type} (items : List Item) :
    Avoids (anyOrder items : Choice Failure (List Item)) failure :=
  avoids_choose _

theorem avoids_bind_iff
    {first : Choice Failure Result} {second : Result → Choice Failure Next} :
    (first >>= second).Avoids failure ↔
      first.Avoids failure ∧
        ∀ result,
          .ok result ∈ first.outcomes → (second result).Avoids failure := by
  simp only [Avoids, mem_outcomes_bind]
  constructor
  · intro avoids
    exact ⟨fun fails => avoids ⟨_, fails, rfl⟩,
      fun result isResult fails => avoids ⟨_, isResult, fails⟩⟩
  · rintro ⟨avoidsFirst, avoidsThen⟩ ⟨reached, isReached, fails⟩
    cases reached with
    | ok result => exact avoidsThen result isReached fails
    | error other =>
      cases fails
      exact avoidsFirst isReached

/--
Steps over a list avoid a failure when each of them does that is reached: all
steps before it can come to a result.
-/
theorem avoids_mapM_iff
    {Item : Type} {step : Item → Choice Failure Result} {items : List Item} :
    (items.mapM step).Avoids failure ↔
      ∀ earlier item later,
        items = earlier ++ item :: later →
          (∀ before ∈ earlier, (step before).Returns) →
            (step item).Avoids failure := by
  induction items with
  | nil =>
    rw [mapM_nil]
    refine iff_of_true (avoids_pure _) fun earlier item later isSplit => ?_
    exact absurd isSplit.symm (by simp)
  | cons first rest inductionHypothesis =>
    simp only [mapM_cons, avoids_bind_iff, avoids_pure, implies_true,
      and_true, inductionHypothesis]
    constructor
    · rintro ⟨avoidsFirst, avoidsRest⟩ earlier item later isSplit returns
      cases earlier with
      | nil =>
        cases isSplit
        exact avoidsFirst
      | cons before others =>
        cases isSplit
        obtain ⟨⟨result, isResult⟩, othersReturn⟩ := forall_mem_cons.mp returns
        exact avoidsRest result isResult others item later rfl othersReturn
    · intro avoids
      refine ⟨avoids [] first rest rfl (forall_mem_nil _), ?_⟩
      rintro result isResult earlier item later rfl returns
      exact avoids (first :: earlier) item later rfl
        (forall_mem_cons.mpr ⟨⟨result, isResult⟩, returns⟩)

theorem range_eq_append_cons_iff {count i : ℕ} {earlier later : List ℕ} :
    List.range count = earlier ++ i :: later ↔
      i < count ∧ earlier = List.range i ∧
        later = List.range' (i + 1) (count - i - 1) := by
  rw [range_eq_range', range'_eq_append_iff]
  constructor
  · rintro ⟨length, fits, isEarlier, isRest⟩
    obtain ⟨isFirst, remains, isLater⟩ := range'_eq_cons_iff.mp isRest.symm
    obtain rfl : length = i := by omega
    exact ⟨by omega, isEarlier.trans range_eq_range'.symm, isLater⟩
  · rintro ⟨inside, rfl, rfl⟩
    refine ⟨i, Nat.le_of_lt inside, range_eq_range', ?_⟩
    exact (range'_eq_cons_iff.mpr ⟨by omega, by omega, rfl⟩).symm

theorem avoids_mapM_range_iff {count : ℕ} {step : ℕ → Choice Failure Result} :
    ((List.range count).mapM step).Avoids failure ↔
      ∀ i < count,
        (∀ before < i, (step before).Returns) → (step i).Avoids failure := by
  simp only [avoids_mapM_iff, range_eq_append_cons_iff]
  constructor
  · intro avoids i inside returns
    exact avoids _ i _ ⟨inside, rfl, rfl⟩
      fun before isBefore => returns before (mem_range.mp isBefore)
  · rintro avoids _ i _ ⟨inside, rfl, rfl⟩ returns
    exact avoids i inside
      fun before isBefore => returns before (mem_range.mpr isBefore)

theorem avoids_mapM
    {Item : Type} {step : Item → Choice Failure Result} {items : List Item}
    (avoids : ∀ item ∈ items, (step item).Avoids failure) :
    (items.mapM step).Avoids failure := by
  refine avoids_mapM_iff.mpr fun earlier item later isSplit _ => ?_
  exact avoids item (isSplit ▸ mem_append_right _ mem_cons_self)

end Avoidance

theorem nonempty_pure (result : Result) :
    (pure result : Choice Failure Result).outcomes.Nonempty :=
  Set.singleton_nonempty _

theorem nonempty_throw (failure : Failure) :
    (throw failure : Choice Failure Result).outcomes.Nonempty :=
  Set.singleton_nonempty _

theorem nonempty_bind (ends : first.outcomes.Nonempty)
    (endsThen : ∀ result, (second result).outcomes.Nonempty) :
    (first >>= second).outcomes.Nonempty := by
  obtain ⟨reached, isOutcome⟩ := ends
  cases reached with
  | error failure =>
    exact ⟨.error failure, mem_outcomes_bind.mpr ⟨_, isOutcome, rfl⟩⟩
  | ok result =>
    obtain ⟨outcome, isNext⟩ := endsThen result
    exact ⟨outcome, mem_outcomes_bind.mpr ⟨_, isOutcome, isNext⟩⟩

theorem nonempty_choose {allowed : Set Result} (some : allowed.Nonempty) :
    (choose allowed : Choice Failure Result).outcomes.Nonempty :=
  some.image _

theorem nonempty_anyOrder {Item : Type} (items : List Item) :
    (anyOrder items : Choice Failure (List Item)).outcomes.Nonempty :=
  nonempty_choose ⟨items, .refl items⟩

theorem nonempty_mapM
    (ends : ∀ item, (step item).outcomes.Nonempty) (items : List Item) :
    (items.mapM step).outcomes.Nonempty := by
  induction items with
  | nil =>
    rw [mapM_nil]
    exact nonempty_pure []
  | cons item rest inductionHypothesis =>
    rw [mapM_cons]
    refine nonempty_bind (ends item) fun first => ?_
    exact nonempty_bind inductionHypothesis fun others => nonempty_pure _

end Choice

end ChronoDB.Library
