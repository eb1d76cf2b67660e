import ChronoDB.Query.SeriesFunctions
import Mathlib.Algebra.Order.BigOperators.Group.List
import Mathlib.Tactic.FieldSimp
import Mathlib.Tactic.Linarith

namespace ChronoDB.Query

open List

/-!
# Counters that are reset

A counter only falls when it is reset.  The rate leaves out the pairs of samples
with a reset between them, but the increase and the instant rate are differences
of two values.
-/

/-!
## What counter functions should return
-/

/-- The milliseconds between two samples. -/
def timeBetween (prev curr : Sample) : ℤ :=
  curr.timestamp.toInt - prev.timestamp.toInt

def ratedDelta (pair : Sample × Sample) : Value :=
  ((calculateRate [pair.1, pair.2]).map fun rate =>
    rate.value * (timeBetween pair.1 pair.2 : Value)).sum

def resetPairs (samples : List Sample) : List (Sample × Sample) :=
  (neighbours samples).filter fun pair => pair.2.value < pair.1.value

/-- The increase of a counter, which starts from zero after every reset. -/
def countedIncrease (samples : List Sample) : Value :=
  ((neighbours samples).map ratedDelta).sum +
    ((resetPairs samples).map fun pair => pair.2.value).sum

/-- The increase is the counted one, and no rate is negative. -/
structure CountsResets (samples : List Sample) : Prop where
  increase :
    2 ≤ samples.length →
      ∃ sample, calculateIncrease samples = [sample] ∧
        0 ≤ sample.value ∧ sample.value = countedIncrease samples
  irate : ∀ sample ∈ calculateIrate samples, 0 ≤ sample.value

/-- A counter: its values are not negative and its timestamps ascend. -/
structure IsCounter (samples : List Sample) : Prop where
  values : ∀ sample ∈ samples, 0 ≤ sample.value
  ascending :
    samples.Pairwise fun first second => first.timestamp < second.timestamp

/-- No value falls, and the time from the first to the last is an `i64`. -/
structure NeverReset (samples : List Sample) : Prop where
  rising : ∀ pair ∈ neighbours samples, pair.1.value ≤ pair.2.value
  representable :
    ∀ first ∈ samples, ∀ last ∈ samples, timeBetween first last < 2 ^ 63

/-!
## Differences of timestamps
-/

theorem timeValue_sub
    {prev curr : Sample} (ascending : 0 ≤ timeBetween prev curr)
    (representable : timeBetween prev curr < 2 ^ 63) :
    timeValue (curr.timestamp - prev.timestamp) = timeBetween prev curr := by
  rw [timeValue, Int64.toInt_sub]
  refine congrArg Int.cast (Int.bmod_eq_of_le ?_ ?_)
  · exact le_trans (by decide) ascending
  · exact representable

theorem timeValue_sub_nonpos
    {prev curr : Sample} (overflows : 2 ^ 63 ≤ timeBetween prev curr) :
    timeValue (curr.timestamp - prev.timestamp) ≤ 0 := by
  have wraps :
      (curr.timestamp - prev.timestamp).toInt =
        timeBetween prev curr - 2 ^ 64 := by
    rw [Int64.toInt_sub, ← Int.sub_bmod_right]
    have above := curr.timestamp.toInt_lt
    have below := prev.timestamp.le_toInt
    rw [timeBetween] at overflows ⊢
    refine Int.bmod_eq_of_le ?_ ?_ <;> omega
  have bounded : timeBetween prev curr ≤ 2 ^ 64 := by
    have above := curr.timestamp.toInt_lt
    have below := prev.timestamp.le_toInt
    rw [timeBetween]
    omega
  rw [timeValue, wraps]
  exact Int.cast_nonpos.mpr (Int.sub_nonpos_of_le bounded)

/-!
## Pairs of samples
-/

section Pairs

variable {first second : Sample} {samples rest : List Sample}
variable {pair : Sample × Sample}

theorem ratedDelta_eq (ascending : 0 < timeBetween pair.1 pair.2)
    (representable : timeBetween pair.1 pair.2 < 2 ^ 63) :
    ratedDelta pair =
      if pair.2.value < pair.1.value then 0
      else pair.2.value - pair.1.value := by
  have positive : (0 : Value) < timeBetween pair.1 pair.2 :=
    Int.cast_pos.mpr ascending
  have isTime := timeValue_sub ascending.le representable
  rw [ratedDelta, calculateRate]
  change (List.map _ (List.filterMap _ [(pair.1, pair.2)])).sum = _
  by_cases reset : pair.2.value < pair.1.value
  · simp [reset]
  · simp [reset, isTime, not_le.mpr positive, positive.ne']

theorem sum_ratedDelta {pairs : List (Sample × Sample)}
    (rated :
      ∀ pair ∈ pairs,
        ratedDelta pair =
          if pair.2.value < pair.1.value then 0
          else pair.2.value - pair.1.value) :
    (pairs.map ratedDelta).sum +
        ((pairs.filter fun pair => pair.2.value < pair.1.value).map
          fun pair => pair.2.value).sum =
      (pairs.map fun pair => pair.2.value - pair.1.value).sum +
        ((pairs.filter fun pair => pair.2.value < pair.1.value).map
          fun pair => pair.1.value).sum := by
  induction pairs with
  | nil => rfl
  | cons pair rest inductionHypothesis =>
    obtain ⟨ratedFirst, ratedRest⟩ := forall_mem_cons.mp rated
    have sums := inductionHypothesis ratedRest
    by_cases reset : pair.2.value < pair.1.value
    · simp only [map_cons, sum_cons, filter_cons, reset,
        decide_true, if_true, ratedFirst]
      linarith
    · simp only [map_cons, sum_cons, filter_cons, reset,
        decide_false, Bool.false_eq_true, if_false, ratedFirst]
      linarith

theorem sum_differences (first second : Sample) (rest : List Sample) :
    ((neighbours (first :: second :: rest)).map fun pair =>
        pair.2.value - pair.1.value).sum =
      (rest.getLastD second).value - first.value := by
  induction rest generalizing first second with
  | nil => simp [neighbours]
  | cons third rest inductionHypothesis =>
    have step :
        neighbours (first :: second :: third :: rest) =
          (first, second) :: neighbours (second :: third :: rest) :=
      rfl
    rw [step, map_cons, sum_cons, inductionHypothesis, getLastD_cons]
    ring

theorem mem_of_neighbours (isPair : pair ∈ neighbours samples) :
    pair.1 ∈ samples ∧ pair.2 ∈ samples :=
  ⟨(of_mem_zip isPair).1, mem_of_mem_tail (of_mem_zip isPair).2⟩

theorem rel_of_neighbours
    {related : Sample → Sample → Prop} (relates : samples.Pairwise related)
    (isPair : pair ∈ neighbours samples) :
    related pair.1 pair.2 := by
  induction samples with
  | nil => cases isPair
  | cons first rest inductionHypothesis =>
    cases rest with
    | nil => cases isPair
    | cons second more =>
      rcases mem_cons.mp isPair with rfl | inRest
      · exact rel_of_pairwise_cons relates mem_cons_self
      · exact inductionHypothesis relates.of_cons inRest

theorem IsCounter.timeBetween_pos
    (counter : IsCounter samples) (isPair : pair ∈ neighbours samples) :
    0 < timeBetween pair.1 pair.2 :=
  Int.sub_pos_of_lt
    (Int64.lt_iff_toInt_lt.mp (rel_of_neighbours counter.ascending isPair))

end Pairs

/-!
## Increases
-/

section Increase

variable {first second : Sample} {samples rest : List Sample}

theorem timestamp_le_getLastD
    (ascending :
      (second :: rest).Pairwise fun first second =>
        first.timestamp < second.timestamp) :
    ∀ sample ∈ second :: rest,
      sample.timestamp.toInt ≤ (rest.getLastD second).timestamp.toInt := by
  induction rest generalizing second with
  | nil =>
    intro sample isSample
    rw [mem_singleton.mp isSample]
    exact le_refl _
  | cons third more inductionHypothesis =>
    have restBefore := inductionHypothesis ascending.of_cons
    have isBefore := rel_of_pairwise_cons ascending mem_cons_self
    rw [getLastD_cons]
    refine forall_mem_cons.mpr ⟨?_, restBefore⟩
    exact (Int64.lt_iff_toInt_lt.mp isBefore).le.trans
      (restBefore third mem_cons_self)

theorem IsCounter.timeBetween_le
    (counter : IsCounter (first :: second :: rest)) {sample other : Sample}
    (isSample : sample ∈ first :: second :: rest)
    (isOther : other ∈ first :: second :: rest) :
    timeBetween sample other ≤ timeBetween first (rest.getLastD second) := by
  have notBefore : first.timestamp.toInt ≤ sample.timestamp.toInt := by
    rcases mem_cons.mp isSample with rfl | inRest
    · exact le_refl _
    · exact (Int64.lt_iff_toInt_lt.mp
        (rel_of_pairwise_cons counter.ascending inRest)).le
  have notAfter := timestamp_le_getLastD counter.ascending other isOther
  rw [getLastD_cons] at notAfter
  exact Int.sub_le_sub notAfter notBefore

theorem IsCounter.timeBetween_ends
    (counter : IsCounter (first :: second :: rest)) :
    0 < timeBetween first (rest.getLastD second) := by
  have isLater :=
    Int64.lt_iff_toInt_lt.mp
      (rel_of_pairwise_cons counter.ascending mem_cons_self)
  have notAfter :=
    timestamp_le_getLastD counter.ascending.of_cons second mem_cons_self
  exact Int.sub_pos_of_lt (isLater.trans_le notAfter)

theorem countedIncrease_eq (counter : IsCounter (first :: second :: rest))
    (representable :
      timeBetween first (rest.getLastD second) < 2 ^ 63) :
    countedIncrease (first :: second :: rest) =
      (rest.getLastD second).value - first.value +
        ((resetPairs (first :: second :: rest)).map fun pair =>
          pair.1.value).sum := by
  rw [countedIncrease, resetPairs, sum_ratedDelta, sum_differences]
  intro pair isPair
  have areSamples := mem_of_neighbours isPair
  exact ratedDelta_eq (counter.timeBetween_pos isPair)
    (lt_of_le_of_lt (counter.timeBetween_le areSamples.1 areSamples.2)
      representable)

theorem IsCounter.lost_eq_zero_iff (counter : IsCounter samples) :
    ((resetPairs samples).map fun pair => pair.1.value).sum = 0 ↔
      ∀ pair ∈ neighbours samples, pair.1.value ≤ pair.2.value := by
  have positive : ∀ pair ∈ resetPairs samples, 0 < pair.1.value := by
    intro pair isReset
    obtain ⟨isPair, falls⟩ := mem_filter.mp isReset
    exact lt_of_le_of_lt (counter.values _ (mem_of_neighbours isPair).2)
      (of_decide_eq_true falls)
  have noneFalls :
      resetPairs samples = [] ↔
        ∀ pair ∈ neighbours samples, pair.1.value ≤ pair.2.value := by
    rw [resetPairs, filter_eq_nil_iff]
    simp only [decide_eq_true_eq, not_lt]
  rw [← noneFalls]
  constructor
  · intro nothing
    by_contra some
    have lost :=
      sum_pos ((resetPairs samples).map fun pair => pair.1.value)
        (forall_mem_map.mpr positive)
        (fun empty => some (map_eq_nil_iff.mp empty))
    exact lost.ne' nothing
  · intro nothing
    rw [nothing]
    rfl

theorem IsCounter.calculateIncrease_eq
    (counter : IsCounter (first :: second :: rest)) :
    calculateIncrease (first :: second :: rest) =
      if timeBetween first (rest.getLastD second) < 2 ^ 63 then
        [{
          timestamp := (rest.getLastD second).timestamp
          value := (rest.getLastD second).value - first.value
        }]
      else [] := by
  have ascending := counter.timeBetween_ends
  rw [calculateIncrease, endSamples]
  dsimp only
  split
  · rename_i fails
    rw [if_neg]
    intro representable
    rw [timeValue_sub ascending.le representable] at fails
    exact absurd (Int.cast_nonpos.mp fails) (not_le.mpr ascending)
  · rename_i shows
    rw [if_pos]
    by_contra overflows
    exact shows (timeValue_sub_nonpos (not_lt.mp overflows))

theorem IsCounter.increase_iff (counter : IsCounter (first :: second :: rest)) :
    (∃ sample, calculateIncrease (first :: second :: rest) = [sample] ∧
        0 ≤ sample.value ∧
          sample.value = countedIncrease (first :: second :: rest)) ↔
      NeverReset (first :: second :: rest) := by
  rw [counter.calculateIncrease_eq]
  split
  · rename_i representable
    rw [countedIncrease_eq counter representable]
    constructor
    · rintro ⟨_, isSample, _, isCounted⟩
      rw [← (List.cons.inj isSample).1, left_eq_add] at isCounted
      exact ⟨counter.lost_eq_zero_iff.mp isCounted,
        fun sample isSample other isOther =>
          (counter.timeBetween_le isSample isOther).trans_lt representable⟩
    · intro never
      refine ⟨_, rfl, ?_, ?_⟩
      · dsimp only
        rw [← sum_differences]
        refine sum_nonneg (forall_mem_map.mpr fun pair isPair => ?_)
        exact sub_nonneg.mpr (never.rising pair isPair)
      · rw [counter.lost_eq_zero_iff.mpr never.rising, add_zero]
  · rename_i overflows
    refine iff_of_false ?_ fun never => ?_
    · rintro ⟨sample, isSample, _⟩
      cases isSample
    · refine overflows (never.representable first mem_cons_self _ ?_)
      exact mem_cons_of_mem first getLastD_mem_cons

theorem IsCounter.irate_nonneg
    (counter : IsCounter samples) (never : NeverReset samples) :
    ∀ sample ∈ calculateIrate samples, 0 ≤ sample.value := by
  intro sample isSample
  rw [calculateIrate] at isSample
  cases isLast : (neighbours samples).getLast? with
  | none =>
    rw [isLast] at isSample
    cases isSample
  | some pair =>
    rw [isLast] at isSample
    have isPair := mem_of_getLast? isLast
    obtain ⟨isFirst, isSecond⟩ := mem_of_neighbours isPair
    have isTime :=
      timeValue_sub (counter.timeBetween_pos isPair).le
        (never.representable _ isFirst _ isSecond)
    dsimp only at isSample
    split at isSample
    · cases isSample
    · rename_i positive
      rw [mem_singleton.mp isSample]
      exact div_nonneg (sub_nonneg.mpr (never.rising pair isPair))
        (not_le.mp positive).le

end Increase

/--
The increase of a counter is the counted one, and its instant rate is not
negative, exactly when no value falls and all samples are less than `2 ^ 63`
milliseconds apart.
-/
theorem counter_resets_iff {samples : List Sample}
    (counter : IsCounter samples) :
    CountsResets samples ↔ NeverReset samples := by
  match samples with
  | [] =>
    exact iff_of_true ⟨by simp, by simp [calculateIrate, neighbours]⟩
      ⟨by simp [neighbours], by simp⟩
  | [only] =>
    exact iff_of_true ⟨by simp, by simp [calculateIrate, neighbours]⟩
      ⟨by simp [neighbours], by simp [timeBetween]⟩
  | first :: second :: rest =>
    constructor
    · intro counts
      exact counter.increase_iff.mp (counts.increase (by simp))
    · intro never
      exact ⟨fun _ => counter.increase_iff.mpr never,
        counter.irate_nonneg never⟩

/-- Three samples of a counter that is not reset. -/
theorem rising_counter_is_counted :
    CountsResets [⟨1000, 1⟩, ⟨2000, 5⟩, ⟨3000, 9⟩] :=
  (@counter_resets_iff [⟨1000, 1⟩, ⟨2000, 5⟩, ⟨3000, 9⟩]
    ⟨by decide, by decide⟩).mpr ⟨by decide, by decide⟩

/-- The increase of a counter that is reset from 10 to 3 is negative. -/
theorem reset_counter_falls :
    ¬CountsResets [⟨1000, 10⟩, ⟨2000, 3⟩] := by
  intro counts
  have counter : IsCounter [⟨1000, 10⟩, ⟨2000, 3⟩] := ⟨by decide, by decide⟩
  have never := counter.increase_iff.mp (counts.increase (by decide))
  exact absurd (never.rising (⟨1000, 10⟩, ⟨2000, 3⟩) mem_cons_self) (by decide)

end ChronoDB.Query
