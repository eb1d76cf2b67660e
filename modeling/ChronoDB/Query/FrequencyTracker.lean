import ChronoDB.Library.FiniteMap
import ChronoDB.Library.Transition
import ChronoDB.Model.Types
import ChronoDB.Query.Frequency

namespace ChronoDB.Query

open Library List

/-!
# Frequencies of queries

The tracker counts, for each normal form of a query, the records in a window
that ends at the last query of that form.  The records are not looked at again
until the next one, so a frequency can be out of date.  A full tracker cuts the
queries of low frequency, which frees no room when there are none.
-/

structure QueryRecord where
  timestamp : Timestamp
  query : Text
  deriving Repr, DecidableEq

structure QueryFrequencyStats where
  normalizedQuery : Text
  frequency : UInt64
  lastQueryTime : Timestamp
  queryCountWindow : List QueryRecord
  windowSizeHours : UInt64
  deriving Repr, DecidableEq

/-- The clock readings while a query is recorded. -/
structure RecordClock where
  record : Timestamp
  lastQuery : Timestamp
  cleanup : Timestamp
  deriving Repr, DecidableEq

/-- Hours in milliseconds, as the source computes them. -/
def hoursInMillis (hours : UInt64) : Int64 :=
  (hours * 60 * 60 * 1000).toInt64

namespace QueryFrequencyStats

def new (normalizedQuery : Text) (windowSizeHours : UInt64) :
    QueryFrequencyStats where
  normalizedQuery := normalizedQuery
  frequency := 0
  lastQueryTime := 0
  queryCountWindow := []
  windowSizeHours := windowSizeHours

def cleanupOldRecords (stats : QueryFrequencyStats) (now : Timestamp) :
    QueryFrequencyStats :=
  let cutoff := now - hoursInMillis stats.windowSizeHours
  let window :=
    stats.queryCountWindow.filter fun record => cutoff < record.timestamp
  { stats with
    queryCountWindow := window
    frequency := UInt64.ofNat window.length }

def recordQuery
    (stats : QueryFrequencyStats) (query : Text) (clock : RecordClock) :
    QueryFrequencyStats :=
  let record : QueryRecord := ⟨clock.record, query⟩
  ({ stats with
    queryCountWindow := stats.queryCountWindow ++ [record]
    frequency := stats.frequency + 1
    lastQueryTime := clock.lastQuery } : QueryFrequencyStats).cleanupOldRecords
      clock.cleanup

def getFrequencyPerHour (stats : QueryFrequencyStats) : Value :=
  if stats.queryCountWindow = [] then
    0
  else
    (stats.frequency.toNat : Value) / stats.windowSizeHours.toNat

end QueryFrequencyStats

structure FrequencyConfig where
  windowSizeHours : UInt64
  frequencyThreshold : UInt64
  maxTrackedQueries : ℕ
  deriving Repr, DecidableEq

structure FrequencyTracker where
  stats : FiniteMap Text QueryFrequencyStats
  config : FrequencyConfig

namespace FrequencyTracker

variable (classes : RegexClasses)

def new (config : FrequencyConfig) : FrequencyTracker where
  stats := ∅
  config := config

theorem nodupKeys_filter (stats : FiniteMap Text QueryFrequencyStats)
    (keep : (_ : Text) × QueryFrequencyStats → Bool) :
    (stats.entries.filter keep).NodupKeys :=
  List.NodupKeys.sublist filter_sublist stats.nodupKeys

def cleanupLowFrequencyQueries
    (tracker : FrequencyTracker) (stats : FiniteMap Text QueryFrequencyStats) :
    FiniteMap Text QueryFrequencyStats :=
  let threshold := tracker.config.frequencyThreshold / 2
  ⟨stats.entries.filter fun entry => threshold < entry.2.frequency,
    nodupKeys_filter stats _⟩

def recordQuery
    (tracker : FrequencyTracker) (query : Text) (clock : RecordClock) :
    FrequencyTracker :=
  let normalized := normalizeQuery classes query
  match tracker.stats.lookup normalized with
  | some queryStats =>
    { tracker with
      stats :=
        tracker.stats.insert normalized (queryStats.recordQuery query clock) }
  | none =>
    let stats :=
      if tracker.config.maxTrackedQueries ≤ tracker.stats.keys.length then
        tracker.cleanupLowFrequencyQueries tracker.stats
      else
        tracker.stats
    let queryStats :=
      QueryFrequencyStats.new normalized tracker.config.windowSizeHours
    { tracker with
      stats := stats.insert normalized (queryStats.recordQuery query clock) }

def getFrequencyPerHour (tracker : FrequencyTracker) (query : Text) : Value :=
  ((tracker.stats.lookup (normalizeQuery classes query)).map
    QueryFrequencyStats.getFrequencyPerHour).getD 0

def getHighFrequencyQueries (tracker : FrequencyTracker) :
    List (Text × UInt64) :=
  (tracker.stats.entries.filter fun entry =>
      tracker.config.frequencyThreshold ≤ entry.2.frequency).map
    fun entry => (entry.1, entry.2.frequency)

/--
Expired records leave every query, which reads the clock for itself, and queries
without records leave the tracker.
-/
def cleanupExpired (tracker : FrequencyTracker) (now : Text → Timestamp) :
    FrequencyTracker :=
  let stats :=
    tracker.stats.mapKeyed fun form queryStats =>
      queryStats.cleanupOldRecords (now form)
  { tracker with
    stats :=
      ⟨stats.entries.filter fun entry => 0 < entry.2.frequency,
        nodupKeys_filter stats _⟩ }

theorem nodup_getHighFrequencyQueries (tracker : FrequencyTracker) :
    (tracker.getHighFrequencyQueries.map Prod.fst).Nodup := by
  rw [getHighFrequencyQueries, map_map]
  exact nodupKeys_filter tracker.stats _

theorem lookup_of_lookup_filter {stats : FiniteMap Text QueryFrequencyStats}
    {keep : (_ : Text) × QueryFrequencyStats → Bool} {form : Text}
    {found : QueryFrequencyStats}
    (isFound :
      AList.lookup form ⟨stats.entries.filter keep,
        nodupKeys_filter stats keep⟩ = some found) :
    stats.lookup form = some found :=
  AList.mem_lookup_iff.mpr (mem_filter.mp (AList.mem_lookup_iff.mp isFound)).1

theorem mem_getHighFrequencyQueries {tracker : FrequencyTracker} {form : Text} :
    form ∈ tracker.getHighFrequencyQueries.map Prod.fst ↔
      ∃ stats ∈ tracker.stats.lookup form,
        tracker.config.frequencyThreshold ≤ stats.frequency := by
  simp only [getHighFrequencyQueries, map_map, mem_map,
    mem_filter, Function.comp_apply, decide_eq_true_eq]
  constructor
  · rintro ⟨⟨key, stats⟩, ⟨isEntry, frequent⟩, rfl⟩
    exact ⟨stats, AList.mem_lookup_iff.mpr isEntry, frequent⟩
  · rintro ⟨stats, found, frequent⟩
    exact ⟨⟨form, stats⟩, ⟨AList.mem_lookup_iff.mp found, frequent⟩, rfl⟩

end FrequencyTracker

/-!
## Recordings and listings in any order
-/

/-- The clock readings of the records that are kept. -/
def QueryFrequencyStats.times (stats : QueryFrequencyStats) :
    List Timestamp :=
  stats.queryCountWindow.map QueryRecord.timestamp

/-- A reading lies in the window that ends at another one. -/
def FrequencyConfig.inWindow
    (config : FrequencyConfig) (now timestamp : Timestamp) :
    Bool :=
  now.toInt - config.windowSizeHours.toNat * 3600000 < timestamp.toInt ∧
    timestamp.toInt ≤ now.toInt

inductive TrackerCall where
  | record (query : Text) (clock : RecordClock)
  | expire (now : Text → Timestamp)
  | list (now : Timestamp)

/--
A tracker with the clock readings at which each normal form was recorded, and
whether all listings were current.
-/
structure RecordedTracker where
  tracker : FrequencyTracker
  history : Text → List Timestamp
  listsCurrent : Prop

namespace RecordedTracker

def new (config : FrequencyConfig) : RecordedTracker where
  tracker := FrequencyTracker.new config
  history := fun _ => []
  listsCurrent := True

def ListsCurrent (recorded : RecordedTracker) (now : Timestamp) : Prop :=
  ∀ form,
    form ∈ recorded.tracker.getHighFrequencyQueries.map Prod.fst ↔
      form ∈ recorded.tracker.stats ∧
        recorded.tracker.config.frequencyThreshold.toNat ≤
          (recorded.history form).countP (recorded.tracker.config.inWindow now)

/-- A call and what is known of its recordings. -/
def call (classes : RegexClasses) (recorded : RecordedTracker) :
    TrackerCall → RecordedTracker
  | .record query clock =>
    let form := normalizeQuery classes query
    { recorded with
      tracker := recorded.tracker.recordQuery classes query clock
      history :=
        Function.update recorded.history form
          (recorded.history form ++ [clock.record]) }
  | .expire now =>
    { recorded with tracker := recorded.tracker.cleanupExpired now }
  | .list now =>
    { recorded with
      listsCurrent := recorded.listsCurrent ∧ recorded.ListsCurrent now }

/-- No more queries are tracked than allowed, and all listings were current. -/
def KeepsTrack (recorded : RecordedTracker) : Prop :=
  recorded.tracker.stats.keys.length ≤
      recorded.tracker.config.maxTrackedQueries ∧
    recorded.listsCurrent

/-- The recordings of a query that its records no longer show. -/
def dropped
    (recorded : RecordedTracker) (form : Text) (stats : QueryFrequencyStats) :
    List Timestamp :=
  (recorded.history form).diff stats.times

/-- The records of a query outside the window that ends at a reading. -/
def stale (recorded : RecordedTracker) (now : Timestamp)
    (stats : QueryFrequencyStats) :
    ℕ :=
  stats.times.countP fun timestamp =>
    !recorded.tracker.config.inWindow now timestamp

def missing (recorded : RecordedTracker) (now : Timestamp) (form : Text)
    (stats : QueryFrequencyStats) :
    ℕ :=
  (recorded.dropped form stats).countP (recorded.tracker.config.inWindow now)

/--
Taking away the stale records and adding the missing recordings moves no tracked
query over the threshold.
-/
def Balanced (recorded : RecordedTracker) (now : Timestamp) : Prop :=
  ∀ form, ∀ stats ∈ recorded.tracker.stats.lookup form,
    recorded.tracker.config.frequencyThreshold ≤ stats.frequency ↔
      recorded.tracker.config.frequencyThreshold.toNat +
          recorded.stale now stats ≤
        stats.times.length + recorded.missing now form stats

/-- A query that is not tracked finds room, at the latest after the cut. -/
def HasRoom (recorded : RecordedTracker) (form : Text) : Prop :=
  form ∉ recorded.tracker.stats →
    recorded.tracker.config.maxTrackedQueries ≤
        recorded.tracker.stats.keys.length →
      (recorded.tracker.stats.entries.filter fun entry =>
        recorded.tracker.config.frequencyThreshold / 2 <
          entry.2.frequency).length <
        recorded.tracker.config.maxTrackedQueries

/-- The condition on a call under which the tracker keeps track. -/
def Careful (classes : RegexClasses) (recorded : RecordedTracker) :
    TrackerCall → Prop
  | .record query _ => recorded.HasRoom (normalizeQuery classes query)
  | .expire _ => True
  | .list now => recorded.Balanced now

/-- The records of a tracked query are among its recordings. -/
def Consistent (recorded : RecordedTracker) : Prop :=
  ∀ form, ∀ stats ∈ recorded.tracker.stats.lookup form,
    stats.times.Sublist (recorded.history form)

variable {classes : RegexClasses} {recorded : RecordedTracker}

theorem countP_history {form : Text} {stats : QueryFrequencyStats}
    (among : stats.times.Sublist (recorded.history form))
    (property : Timestamp → Bool) :
    (recorded.history form).countP property =
      stats.times.countP property +
        (recorded.dropped form stats).countP property := by
  rw [dropped, ← countP_append]
  exact (subperm_append_diff_self_of_count_le
    fun timestamp _ => among.count_le timestamp).countP_eq property |>.symm

theorem Consistent.listsCurrent_iff
    (consistent : recorded.Consistent) (now : Timestamp) :
    recorded.ListsCurrent now ↔ recorded.Balanced now := by
  refine forall_congr' fun form => ?_
  rw [FrequencyTracker.mem_getHighFrequencyQueries, ← AList.lookup_isSome]
  cases found : recorded.tracker.stats.lookup form with
  | none => simp
  | some stats =>
    have recordings :=
      countP_history (consistent form stats found)
        (recorded.tracker.config.inWindow now)
    have records :
        stats.times.length =
          stats.times.countP (recorded.tracker.config.inWindow now) +
            recorded.stale now stats := by
      simpa [stale] using @length_eq_countP_add_countP _
        (recorded.tracker.config.inWindow now) stats.times
    simp only [Option.mem_def, Option.some.injEq, exists_eq_left',
      forall_eq', Option.isSome_some, true_and]
    rw [recordings, records, missing]
    refine iff_congr Iff.rfl ?_
    omega

/-!
## What a call keeps
-/

theorem times_cleanupOldRecords
    (stats : QueryFrequencyStats) (now : Timestamp) :
    (stats.cleanupOldRecords now).times.Sublist stats.times :=
  filter_sublist.map _

theorem times_recordQuery
    (stats : QueryFrequencyStats) (query : Text) (clock : RecordClock) :
    (stats.recordQuery query clock).times.Sublist
      (stats.times ++ [clock.record]) := by
  refine (times_cleanupOldRecords _ _).trans ?_
  rw [QueryFrequencyStats.times, QueryFrequencyStats.times, map_append]
  exact List.Sublist.refl _

theorem config_recordQuery
    (tracker : FrequencyTracker) (query : Text) (clock : RecordClock) :
    (tracker.recordQuery classes query clock).config = tracker.config := by
  rw [FrequencyTracker.recordQuery]
  split <;> rfl

theorem lookup_recordQuery
    {tracker : FrequencyTracker} {query form : Text} {clock : RecordClock}
    {stats : QueryFrequencyStats}
    (found :
      (tracker.recordQuery classes query clock).stats.lookup form =
        some stats) :
    (form = normalizeQuery classes query ∧
        ∃ earlier : QueryFrequencyStats,
          (earlier.times = [] ∨ tracker.stats.lookup form = some earlier) ∧
            stats = earlier.recordQuery query clock) ∨
      (form ≠ normalizeQuery classes query ∧
        tracker.stats.lookup form = some stats) := by
  rw [FrequencyTracker.recordQuery] at found
  by_cases isForm : form = normalizeQuery classes query
  · subst isForm
    refine .inl ⟨rfl, ?_⟩
    split at found
    · rename_i earlier isEarlier
      rw [AList.lookup_insert] at found
      cases found
      exact ⟨earlier, .inr isEarlier, rfl⟩
    · rw [AList.lookup_insert] at found
      cases found
      exact ⟨_, .inl rfl, rfl⟩
  · refine .inr ⟨isForm, ?_⟩
    split at found
    · rwa [AList.lookup_insert_ne isForm] at found
    · rw [AList.lookup_insert_ne isForm] at found
      split at found
      · exact FrequencyTracker.lookup_of_lookup_filter found
      · exact found

theorem length_keys_recordQuery
    (recorded : RecordedTracker) (query : Text) (clock : RecordClock)
    (bounded :
      recorded.tracker.stats.keys.length ≤
        recorded.tracker.config.maxTrackedQueries) :
    (recorded.tracker.recordQuery classes query clock).stats.keys.length ≤
        recorded.tracker.config.maxTrackedQueries ↔
      recorded.HasRoom (normalizeQuery classes query) := by
  rw [FrequencyTracker.recordQuery, HasRoom, ← AList.lookup_isSome]
  cases found :
      recorded.tracker.stats.lookup (normalizeQuery classes query) with
  | some stats =>
    refine iff_of_true ?_ fun untracked => absurd rfl untracked
    simp only [FiniteMap.length_keys_insert, found, Option.isSome_some, if_true]
    exact bounded
  | none =>
    have isNew : ¬(none : Option QueryFrequencyStats).isSome = true := nofun
    rw [forall_prop_of_true isNew]
    by_cases full :
        recorded.tracker.config.maxTrackedQueries ≤
          recorded.tracker.stats.keys.length
    · have cutAway :
          (recorded.tracker.cleanupLowFrequencyQueries
            recorded.tracker.stats).lookup (normalizeQuery classes query) =
            none := by
        rw [Option.eq_none_iff_forall_not_mem]
        intro stats isFound
        rw [FrequencyTracker.lookup_of_lookup_filter isFound] at found
        cases found
      have keptKeys :
          (recorded.tracker.cleanupLowFrequencyQueries
              recorded.tracker.stats).keys.length =
            (recorded.tracker.stats.entries.filter fun entry =>
              recorded.tracker.config.frequencyThreshold / 2 <
                entry.2.frequency).length :=
        length_map _
      simp only [if_pos full, FiniteMap.length_keys_insert, cutAway, keptKeys,
        if_neg isNew, Nat.succ_le_iff]
      rw [forall_prop_of_true full]
    · refine iff_of_true ?_ fun isFull => absurd isFull full
      simp only [if_neg full, FiniteMap.length_keys_insert, found, if_neg isNew]
      omega

theorem length_keys_cleanupExpired_le
    (tracker : FrequencyTracker) (now : Text → Timestamp) :
    (tracker.cleanupExpired now).stats.keys.length ≤
      tracker.stats.keys.length := by
  have sameKeys :
      (tracker.stats.mapKeyed fun form queryStats =>
          queryStats.cleanupOldRecords (now form)).keys.length =
        tracker.stats.keys.length := by
    rw [FiniteMap.keys_mapKeyed]
  rw [← sameKeys]
  exact (filter_sublist.map _).length_le

theorem Consistent.call
    (consistent : recorded.Consistent) (trackerCall : TrackerCall) :
    (recorded.call classes trackerCall).Consistent := by
  cases trackerCall with
  | record query clock =>
    intro form stats found
    rcases lookup_recordQuery found with
      ⟨rfl, earlier, isEarlier, rfl⟩ | ⟨differs, isFound⟩
    · simp only [RecordedTracker.call, Function.update_self]
      refine (times_recordQuery earlier query clock).trans ?_
      refine List.Sublist.append_right ?_ _
      rcases isEarlier with isEmpty | isFound
      · rw [isEmpty]
        exact nil_sublist _
      · exact consistent _ earlier isFound
    · simp only [RecordedTracker.call, Function.update_of_ne differs]
      exact consistent form stats isFound
  | expire now =>
    intro form stats found
    have isFound := FrequencyTracker.lookup_of_lookup_filter found
    rw [FiniteMap.lookup_mapKeyed, Option.map_eq_some_iff] at isFound
    obtain ⟨earlier, isEarlier, rfl⟩ := isFound
    exact (times_cleanupOldRecords earlier _).trans
      (consistent form earlier isEarlier)
  | list now => exact consistent

theorem Consistent.keepsTrack_call_iff
    (consistent : recorded.Consistent) (keeps : recorded.KeepsTrack)
    (trackerCall : TrackerCall) :
    (recorded.call classes trackerCall).KeepsTrack ↔
      recorded.Careful classes trackerCall := by
  cases trackerCall with
  | record query clock =>
    simp only [KeepsTrack, RecordedTracker.call, Careful,
      config_recordQuery, keeps.2, and_true]
    exact recorded.length_keys_recordQuery query clock keeps.1
  | expire now =>
    refine iff_of_true ⟨?_, keeps.2⟩ trivial
    exact (length_keys_cleanupExpired_le recorded.tracker now).trans keeps.1
  | list now =>
    simp only [KeepsTrack, RecordedTracker.call, Careful, keeps.1, keeps.2,
      true_and]
    exact consistent.listsCurrent_iff now

/-!
## Runs of calls
-/

/-- A call takes a tracker and its recordings to what it makes of them. -/
def Step (classes : RegexClasses) (before : RecordedTracker)
    (trackerCall : TrackerCall) (after : RecordedTracker) :
    Prop :=
  after = before.call classes trackerCall

/--
From a new tracker, every state that a run passes keeps track exactly when every
new query finds room, at the latest after the cut, and every listing is
balanced.
-/
theorem keepsTrack_iff_of_run {config : FrequencyConfig}
    {calls : List TrackerCall} {final : RecordedTracker}
    (run : Run (Step classes) (new config) calls final) :
    (∀ passed remaining middle,
        calls = passed ++ remaining →
          Run (Step classes) (new config) passed middle → middle.KeepsTrack) ↔
      Run (Restrict (Step classes) (Careful classes)) (new config) calls
        final := by
  have consistent : (new config).Consistent := nofun
  refine run.always_iff_restrict ?_ consistent ⟨Nat.zero_le _, trivial⟩ ?_
  · intro before trackerCall after other taken again
    exact taken.trans again.symm
  · rintro before trackerCall after consistentBefore keepsBefore rfl
    exact ⟨consistentBefore.call trackerCall,
      consistentBefore.keepsTrack_call_iff keepsBefore trackerCall⟩

theorem normalizeQuery_letter :
    normalizeQuery .ascii "a".toList = "a".toList ∧
      normalizeQuery .ascii "b".toList = "b".toList := by
  rw [normalizeQuery_eq, normalizeQuery_eq]
  decide

/-- One query is recorded and listed while its record is in the window. -/
theorem listing_within_the_hour :
    ∃ final,
      Run (Step .ascii) (new ⟨1, 1, 1⟩)
          [.record "a".toList ⟨0, 0, 0⟩, .list 3599999] final ∧
        ∀ passed remaining middle,
          [.record "a".toList ⟨0, 0, 0⟩, .list 3599999] = passed ++ remaining →
            Run (Step .ascii) (new ⟨1, 1, 1⟩) passed middle →
              middle.KeepsTrack := by
  refine ⟨_, .cons rfl (.single rfl),
    (keepsTrack_iff_of_run (.cons rfl (.single rfl))).mpr ?_⟩
  refine .cons ⟨fun _ full => absurd full (by decide), rfl⟩ (.single ⟨?_, rfl⟩)
  have isFirst :
      (new ⟨1, 1, 1⟩).call .ascii (.record "a".toList ⟨0, 0, 0⟩) =
        ⟨⟨AList.insert "a".toList
            ⟨"a".toList, 1, 0, [⟨0, "a".toList⟩], 1⟩ ∅, ⟨1, 1, 1⟩⟩,
          Function.update (fun _ => []) "a".toList [0], True⟩ := by
    simp only [call, FrequencyTracker.recordQuery]
    rw [normalizeQuery_letter.1]
    rfl
  rw [isFirst]
  intro form stats found
  by_cases isForm : form = "a".toList
  · subst isForm
    rw [AList.lookup_insert] at found
    cases found
    decide
  · rw [AList.lookup_insert_ne isForm] at found
    cases found

/--
A query that is at the threshold stays listed after its record left the window,
and leaves no room for another one.
-/
theorem cut_frees_no_room :
    let first := (new ⟨1, 1, 1⟩).call .ascii (.record "a".toList ⟨0, 0, 0⟩)
    ¬first.ListsCurrent 3600000 ∧
      ¬(first.call .ascii (.record "b".toList ⟨1, 1, 1⟩)).KeepsTrack := by
  refine ⟨fun current => ?_, fun keeps => ?_⟩
  · have listed := (current "a".toList).mp
    simp only [call, FrequencyTracker.recordQuery] at listed
    rw [normalizeQuery_letter.1] at listed
    revert listed
    decide
  · have bounded := keeps.1
    simp only [call, FrequencyTracker.recordQuery] at bounded
    rw [normalizeQuery_letter.1, normalizeQuery_letter.2] at bounded
    revert bounded
    decide

end RecordedTracker

end ChronoDB.Query
