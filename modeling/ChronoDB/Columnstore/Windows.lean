import Mathlib.Data.List.SplitBy
import ChronoDB.Model.Types

namespace ChronoDB.Columnstore

/-!
# Downsample levels

A level replaces the samples of each window by their average.  Windows start at
multiples of the resolution, with the truncated remainder of the source.
-/

inductive DownsampleLevel where
  | l0
  | l1
  | l2
  | l3
  | l4
  deriving Repr, DecidableEq

namespace DownsampleLevel

def intervalMs : DownsampleLevel → Int64
  | l0 => 10000
  | l1 => 60000
  | l2 => 300000
  | l3 => 3600000
  | l4 => 86400000

def resolutionMs (level : DownsampleLevel) : Int64 :=
  level.intervalMs

def fromQueryRange (rangeMs : Int64) : DownsampleLevel :=
  let rangeHours := rangeMs / 3600000
  if rangeHours < 1 then l0
  else if rangeHours < 24 then l1
  else if rangeHours < 168 then l2
  else if rangeHours < 720 then l3
  else l4

end DownsampleLevel

def windowOf (resolution : Int64) (timestamp : Timestamp) : Timestamp :=
  timestamp - timestamp % resolution

/-- The average of a window, unless the window is empty. -/
def closeWindow (window : Timestamp) (sum : Value) (count : ℕ) :
    List Sample :=
  if 0 < count then [{ timestamp := window, value := sum / count }] else []

/-- The loop over the samples with the open window and its sum and count. -/
def downsampleFrom
    (resolution : Int64) (window : Timestamp) (sum : Value) (count : ℕ) :
    List Sample → List Sample
  | [] => closeWindow window sum count
  | sample :: rest =>
    if windowOf resolution sample.timestamp ≠ window then
      closeWindow window sum count ++
        downsampleFrom resolution
          (windowOf resolution sample.timestamp) sample.value 1 rest
    else
      downsampleFrom resolution window (sum + sample.value) (count + 1) rest

def applyDownsampling (samples : List Sample) (level : DownsampleLevel) :
    List Sample :=
  match samples with
  | [] => []
  | first :: _ =>
    if level = .l0 then samples
    else
      downsampleFrom level.resolutionMs
        (windowOf level.resolutionMs first.timestamp) 0 0 samples

theorem downsampleFrom_ne_nil
    {resolution : Int64} {window : Timestamp} {sum : Value} {count : ℕ}
    {samples : List Sample} (holdsSamples : 0 < count ∨ samples ≠ []) :
    downsampleFrom resolution window sum count samples ≠ [] := by
  induction samples generalizing window sum count with
  | nil =>
    have counted : 0 < count := by simpa using holdsSamples
    simp [downsampleFrom, closeWindow, counted]
  | cons sample rest inductionHypothesis =>
    rw [downsampleFrom]
    split
    · intro nothing
      exact inductionHypothesis (.inl Nat.one_pos)
        (List.append_eq_nil_iff.mp nothing).2
    · exact inductionHypothesis (.inl (Nat.succ_pos count))

@[simp] theorem applyDownsampling_eq_nil_iff
    {samples : List Sample} {level : DownsampleLevel} :
    applyDownsampling samples level = [] ↔ samples = [] := by
  cases samples with
  | nil => simp [applyDownsampling]
  | cons first rest =>
    rw [applyDownsampling]
    split
    · rfl
    · have remains :=
        @downsampleFrom_ne_nil level.resolutionMs
          (windowOf level.resolutionMs first.timestamp) 0 0
          (first :: rest) (.inr (List.cons_ne_nil _ _))
      simp [remains]

/-!
## Windows as runs

The loop of the downsampling looks at one sample after the other.  It averages
the runs of neighbours that lie in one window.
-/

open List

def sameWindow (resolution : Int64) (first second : Sample) : Bool :=
  windowOf resolution first.timestamp = windowOf resolution second.timestamp

/-- The longest runs of neighbours that lie in one window. -/
def windowRuns (resolution : Int64) (samples : List Sample) :
    List (List Sample) :=
  samples.splitBy (sameWindow resolution)

/-- The sample that stands for a run. -/
def averageRun (resolution : Int64) (run : List Sample) : Option Sample :=
  run.head?.map fun first => {
    timestamp := windowOf resolution first.timestamp
    value := (run.map Sample.value).sum / run.length
  }

section Runs

variable {resolution : Int64} {window : Timestamp} {run : List Sample}

theorem isChain_sameWindow
    (inWindow :
      ∀ sample ∈ run, windowOf resolution sample.timestamp = window) :
    run.IsChain fun first second => sameWindow resolution first second := by
  refine List.Pairwise.isChain (pairwise_of_forall_mem_list ?_)
  intro first isFirst second isSecond
  simp [sameWindow, inWindow first isFirst, inWindow second isSecond]

theorem closeWindow_eq_averageRun
    (inWindow :
      ∀ sample ∈ run, windowOf resolution sample.timestamp = window) :
    closeWindow window (run.map Sample.value).sum run.length =
      (averageRun resolution run).toList := by
  cases run with
  | nil => rfl
  | cons first rest =>
    have isFirst := inWindow first mem_cons_self
    simp [closeWindow, averageRun, isFirst]

/--
With a run of the open window behind it, the loop averages the runs of all
samples.  The induction is on the samples that are left.
-/
theorem downsampleFrom_eq (holdsSamples : run ≠ [])
    (inWindow :
      ∀ sample ∈ run, windowOf resolution sample.timestamp = window)
    (samples : List Sample) :
    downsampleFrom resolution window (run.map Sample.value).sum run.length
        samples =
      (windowRuns resolution (run ++ samples)).filterMap
        (averageRun resolution) := by
  induction samples generalizing window run with
  | nil =>
    rw [downsampleFrom, closeWindow_eq_averageRun inWindow, append_nil,
      windowRuns, splitBy_of_isChain holdsSamples (isChain_sameWindow inWindow)]
    cases averaged : averageRun resolution run <;> simp [averaged]
  | cons sample rest inductionHypothesis =>
    rw [downsampleFrom]
    split
    · rename_i otherWindow
      have separate :
          windowRuns resolution (run ++ sample :: rest) =
            run :: windowRuns resolution (sample :: rest) := by
        rw [windowRuns, splitBy_append_cons,
          splitBy_of_isChain holdsSamples (isChain_sameWindow inWindow)]
        · rfl
        · intro last isLast
          have isWindow := inWindow last (mem_of_getLast? isLast)
          simp [sameWindow, isWindow, Ne.symm otherWindow]
      have next :=
        @inductionHypothesis
          (windowOf resolution sample.timestamp) [sample]
          (cons_ne_nil _ _) (by simp)
      rw [map_singleton, sum_singleton, length_singleton,
        singleton_append] at next
      rw [closeWindow_eq_averageRun inWindow, next, separate]
      cases averaged : averageRun resolution run <;>
        simp [averaged]
    · rename_i isWindow
      have next :=
        @inductionHypothesis window (run ++ [sample]) (by simp) (by
          intro other member
          rcases mem_append.mp member with early | isSample
          · exact inWindow other early
          · rw [mem_singleton.mp isSample]
            exact not_not.mp isWindow)
      rw [map_append, sum_append, length_append, append_assoc] at next
      simpa using next

theorem applyDownsampling_eq
    {level : DownsampleLevel} (averages : level ≠ .l0) (samples : List Sample) :
    applyDownsampling samples level =
      (windowRuns level.resolutionMs samples).filterMap
        (averageRun level.resolutionMs) := by
  cases samples with
  | nil => rfl
  | cons first rest =>
    rw [applyDownsampling, if_neg averages, downsampleFrom,
      if_neg (not_not.mpr rfl)]
    have runs :=
      @downsampleFrom_eq level.resolutionMs
        (windowOf level.resolutionMs first.timestamp) [first]
        (cons_ne_nil _ _) (by simp) rest
    rw [map_singleton, sum_singleton] at runs
    rw [zero_add]
    exact runs

end Runs

/-!
## Samples that averaging keeps
-/

theorem toInt_windowOf (resolution : Int64) (timestamp : Timestamp) :
    (windowOf resolution timestamp).toInt =
      timestamp.toInt - timestamp.toInt.tmod resolution.toInt := by
  have remainder := Int.natAbs_tmod timestamp.toInt resolution.toInt
  have small :
      timestamp.toInt.natAbs % resolution.toInt.natAbs ≤
        timestamp.toInt.natAbs :=
    Nat.mod_le _ _
  have least := timestamp.le_toInt
  have greatest := timestamp.toInt_lt
  rw [windowOf, Int64.toInt_sub, Int64.toInt_mod]
  rcases Int.le_total 0 timestamp.toInt with nonnegative | negative
  · have := Int.tmod_nonneg resolution.toInt nonnegative
    refine Int.bmod_eq_of_le ?_ ?_ <;> omega
  · have := Int.tmod_nonneg resolution.toInt (Int.neg_nonneg.mpr negative)
    rw [Int.neg_tmod] at this
    refine Int.bmod_eq_of_le ?_ ?_ <;> omega

theorem toInt_windowOf_eq_mul (resolution : Int64) (timestamp : Timestamp) :
    (windowOf resolution timestamp).toInt =
      resolution.toInt * timestamp.toInt.tdiv resolution.toInt := by
  have parts := Int.mul_tdiv_add_tmod timestamp.toInt resolution.toInt
  have start := toInt_windowOf resolution timestamp
  omega

theorem windowOf_mod (resolution : Int64) (timestamp : Timestamp) :
    windowOf resolution timestamp % resolution = 0 := by
  rw [← Int64.toInt_inj, Int64.toInt_mod, toInt_windowOf_eq_mul]
  exact Int.mul_tmod_right _ _

theorem windowOf_eq_self_iff {resolution : Int64} {timestamp : Timestamp} :
    windowOf resolution timestamp = timestamp ↔ timestamp % resolution = 0 := by
  constructor
  · intro isStart
    rw [← isStart]
    exact windowOf_mod resolution timestamp
  · intro isMultiple
    rw [windowOf, isMultiple, Int64.sub_zero]

/-- Samples that are neither averaged nor moved at a level. -/
def KeptBy (level : DownsampleLevel) (samples : List Sample) : Prop :=
  level = .l0 ∨
    (∀ sample ∈ samples, sample.timestamp % level.resolutionMs = 0) ∧
      samples.IsChain fun first second => first.timestamp ≠ second.timestamp

theorem length_downsampleFrom
    {resolution : Int64} {window : Timestamp} {sum : Value} {count : ℕ}
    (counted : 0 < count) (samples : List Sample) :
    (downsampleFrom resolution window sum count samples).length ≤
        samples.length + 1 ∧
      ((downsampleFrom resolution window sum count samples).length =
          samples.length + 1 ↔
        (window :: samples.map fun sample =>
          windowOf resolution sample.timestamp).IsChain (· ≠ ·)) := by
  induction samples generalizing window sum count with
  | nil => simp [downsampleFrom, closeWindow, counted]
  | cons sample rest inductionHypothesis =>
    rw [downsampleFrom, map_cons, isChain_cons_cons]
    split
    · rename_i otherWindow
      obtain ⟨atMost, exactly⟩ :=
        @inductionHypothesis (windowOf resolution sample.timestamp)
          sample.value 1 Nat.one_pos
      rw [closeWindow, if_pos counted, singleton_append, length_cons,
        length_cons, Nat.add_right_cancel_iff, exactly]
      exact ⟨Nat.succ_le_succ atMost,
        (and_iff_right (Ne.symm otherWindow)).symm⟩
    · rename_i isWindow
      obtain ⟨atMost, _⟩ :=
        @inductionHypothesis window (sum + sample.value) (count + 1)
          (Nat.succ_pos count)
      rw [length_cons]
      refine ⟨Nat.le_succ_of_le atMost, iff_of_false (by omega) ?_⟩
      exact fun separate => separate.1 (not_not.mp isWindow).symm

theorem downsampleFrom_of_kept
    {resolution : Int64} (first : Sample) (samples : List Sample)
    (starts :
      ∀ sample ∈ first :: samples, sample.timestamp % resolution = 0)
    (separate :
      (first :: samples).IsChain fun earlier later =>
        earlier.timestamp ≠ later.timestamp) :
    downsampleFrom resolution first.timestamp first.value 1 samples =
      first :: samples := by
  induction samples generalizing first with
  | nil => simp [downsampleFrom, closeWindow]
  | cons second rest inductionHypothesis =>
    obtain ⟨differ, others⟩ := isChain_cons_cons.mp separate
    obtain ⟨_, startsRest⟩ := forall_mem_cons.mp starts
    have isStart : windowOf resolution second.timestamp = second.timestamp :=
      windowOf_eq_self_iff.mpr (startsRest second mem_cons_self)
    rw [downsampleFrom, isStart, if_pos (Ne.symm differ),
      inductionHypothesis second startsRest others]
    simp [closeWindow]

variable {level : DownsampleLevel} {samples : List Sample}

theorem applyDownsampling_cons
    (averages : level ≠ .l0) (first : Sample) (rest : List Sample) :
    applyDownsampling (first :: rest) level =
      downsampleFrom level.resolutionMs
        (windowOf level.resolutionMs first.timestamp) first.value 1 rest := by
  rw [applyDownsampling, if_neg averages, downsampleFrom,
    if_neg (not_not.mpr rfl), zero_add]

theorem keptBy_of_timestamps
    (sameTimes :
      ((applyDownsampling samples level).map Sample.timestamp).Perm
        (samples.map Sample.timestamp)) :
    KeptBy level samples := by
  cases samples with
  | nil => exact .inr ⟨forall_mem_nil _, .nil⟩
  | cons first rest =>
    refine or_iff_not_imp_left.mpr fun averages => ?_
    have starts :
        ∀ sample ∈ first :: rest,
          sample.timestamp % level.resolutionMs = 0 := by
      intro sample member
      have isTime := sameTimes.mem_iff.mpr (mem_map_of_mem member)
      obtain ⟨average, isAverage, isTime⟩ := mem_map.mp isTime
      rw [applyDownsampling_eq averages, mem_filterMap] at isAverage
      obtain ⟨run, _, averaged⟩ := isAverage
      obtain ⟨head, _, rfl⟩ := Option.map_eq_some_iff.mp averaged
      rw [← isTime]
      exact windowOf_mod _ _
    refine ⟨starts, ?_⟩
    have sameLength := sameTimes.length_eq
    rw [length_map, length_map, applyDownsampling_cons averages,
      length_cons, (length_downsampleFrom Nat.one_pos rest).2] at sameLength
    have inWindows :
        ((first :: rest).map fun sample =>
          windowOf level.resolutionMs sample.timestamp) =
          (first :: rest).map Sample.timestamp :=
      map_congr_left fun sample member =>
        windowOf_eq_self_iff.mpr (starts sample member)
    rw [← map_cons
      (f := fun sample : Sample =>
        windowOf level.resolutionMs sample.timestamp), inWindows,
      isChain_map] at sameLength
    exact sameLength

theorem applyDownsampling_of_kept (kept : KeptBy level samples) :
    applyDownsampling samples level = samples := by
  cases samples with
  | nil => rfl
  | cons first rest =>
    by_cases original : level = .l0
    · rw [applyDownsampling, if_pos original]
    · obtain ⟨starts, separate⟩ := kept.resolve_left original
      have isStart := windowOf_eq_self_iff.mpr (starts first mem_cons_self)
      rw [applyDownsampling_cons original, isStart,
        downsampleFrom_of_kept first rest starts separate]

theorem applyDownsampling_perm_iff :
    (applyDownsampling samples level).Perm samples ↔ KeptBy level samples := by
  constructor
  · intro isPerm
    exact keptBy_of_timestamps (isPerm.map Sample.timestamp)
  · intro kept
    rw [applyDownsampling_of_kept kept]

end ChronoDB.Columnstore
