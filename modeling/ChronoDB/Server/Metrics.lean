import Mathlib.Data.Finmap
import ChronoDB.Server.RemoteRead

namespace ChronoDB.Server

open Library Memstore List

/-!
# Metrics of an answer

An answer names a series by a JSON object of its labels.  The object has just the
labels of the series unless two of them have the same name, of which it keeps one.
-/

/-- A JSON object of labels, in which a label replaces an earlier one. -/
abbrev Metric :=
  Finmap fun _ : String => String

def metricOf (labels : Labels) : Metric :=
  labels.foldl (fun metric label => metric.insert label.name label.value) ∅

def labelMember (label : Label) : (_ : String) × String :=
  ⟨label.name, label.value⟩

/-- The metric has just the labels of a series. -/
def ShowsLabels (metric : Metric) (labels : Labels) : Prop :=
  metric.entries = (labels.map labelMember : List ((_ : String) × String))

/-- No two labels of a series have the same name. -/
def HasDistinctNames (labels : Labels) : Prop :=
  (labels.map Label.name).Nodup

instance (labels : Labels) : Decidable (HasDistinctNames labels) :=
  inferInstanceAs (Decidable (List.Nodup _))

theorem metricOf_append (labels : Labels) (label : Label) :
    metricOf (labels ++ [label]) =
      (metricOf labels).insert label.name label.value := by
  rw [metricOf, foldl_append]
  rfl

theorem mem_metricOf {labels : Labels} {name : String} :
    name ∈ metricOf labels ↔ name ∈ labels.map Label.name := by
  induction labels using List.reverseRecOn with
  | nil => exact iff_of_false Finmap.notMem_empty not_mem_nil
  | append_singleton labels label inductionHypothesis =>
    rw [metricOf_append, Finmap.mem_insert, inductionHypothesis, map_append,
      mem_append, map_singleton, mem_singleton]
    exact or_comm

theorem mem_of_lookup_metricOf {labels : Labels} {name value : String}
    (found : (metricOf labels).lookup name = some value) :
    ⟨name, value⟩ ∈ labels := by
  induction labels using List.reverseRecOn with
  | nil => cases found
  | append_singleton labels label inductionHypothesis =>
    rw [metricOf_append] at found
    by_cases isName : name = label.name
    · rw [isName, Finmap.lookup_insert] at found
      cases found
      rw [isName]
      exact mem_append_right _ (mem_singleton_self label)
    · rw [Finmap.lookup_insert_of_ne _ isName] at found
      exact mem_append_left _ (inductionHypothesis found)

theorem showsLabels_metricOf
    {labels : Labels} (distinct : HasDistinctNames labels) :
    ShowsLabels (metricOf labels) labels := by
  induction labels using List.reverseRecOn with
  | nil => rfl
  | append_singleton labels label inductionHypothesis =>
    rw [HasDistinctNames, map_append, nodup_append] at distinct
    have isNew : label.name ∉ metricOf labels := by
      intro member
      exact distinct.2.2 _ (mem_metricOf.mp member) _ mem_cons_self rfl
    rw [ShowsLabels, metricOf_append, Finmap.entries_insert_of_notMem isNew,
      inductionHypothesis distinct.1, Multiset.cons_coe, Multiset.coe_eq_coe,
      map_append]
    exact (perm_append_singleton _ _).symm

namespace ShowsLabels

variable {metric : Metric} {labels others : Labels}

theorem distinct (shows : ShowsLabels metric labels) :
    HasDistinctNames labels := by
  have distinctKeys := metric.nodupKeys
  rw [shows, Multiset.coe_nodupKeys, List.NodupKeys, List.keys,
    map_map] at distinctKeys
  exact distinctKeys

theorem perm (shows : ShowsLabels metric labels)
    (otherShows : ShowsLabels metric others) :
    labels.Perm others := by
  rw [ShowsLabels] at shows otherShows
  rw [shows, Multiset.coe_eq_coe, map_perm_map_iff] at otherShows
  · exact otherShows
  · rintro ⟨name, value⟩ ⟨otherName, otherValue⟩ same
    cases same
    rfl

theorem lookup_eq_some_iff
    (shows : ShowsLabels metric labels) {name value : String} :
    metric.lookup name = some value ↔ ⟨name, value⟩ ∈ labels := by
  refine Finmap.lookup_eq_some_iff.trans ?_
  rw [shows, Multiset.mem_coe]
  constructor
  · intro member
    obtain ⟨label, isLabel, same⟩ := mem_map.mp member
    cases same
    exact isLabel
  · intro member
    exact mem_map_of_mem (f := labelMember) member

theorem mem_iff (shows : ShowsLabels metric labels) {name : String} :
    name ∈ metric ↔ name ∈ labels.map Label.name := by
  rw [Finmap.mem_iff, mem_map]
  constructor
  · rintro ⟨value, found⟩
    exact ⟨_, shows.lookup_eq_some_iff.mp found, rfl⟩
  · rintro ⟨label, isLabel, rfl⟩
    exact ⟨label.value, shows.lookup_eq_some_iff.mpr isLabel⟩

end ShowsLabels

theorem showsLabels_metricOf_iff {labels : Labels} :
    ShowsLabels (metricOf labels) labels ↔ HasDistinctNames labels :=
  ⟨ShowsLabels.distinct, showsLabels_metricOf⟩

theorem mem_labelValues {labels : Labels} {name value : String} :
    value ∈ labelValues labels name ↔
      ⟨name, value⟩ ∈ labels ∨ value = "" ∧ name ∉ labels.map Label.name := by
  have inValues :
      value ∈ (labels.filter fun label => label.name = name).map Label.value ↔
        ⟨name, value⟩ ∈ labels := by
    rw [mem_map]
    constructor
    · rintro ⟨label, member, rfl⟩
      obtain ⟨isLabel, isName⟩ := mem_filter.mp member
      rw [← of_decide_eq_true isName]
      exact isLabel
    · intro isLabel
      exact ⟨_, mem_filter.mpr ⟨isLabel, decide_eq_true rfl⟩, rfl⟩
  have isMissing :
      (labels.filter fun label => label.name = name).map Label.value = [] ↔
        name ∉ labels.map Label.name := by
    rw [map_eq_nil_iff, filter_eq_nil_iff, mem_map, not_exists]
    refine forall_congr' fun label => ?_
    rw [decide_eq_true_eq, not_and]
  rw [labelValues]
  split
  · rename_i missing
    have notLabel : ⟨name, value⟩ ∉ labels := by
      rw [← inValues, missing]
      exact not_mem_nil
    rw [mem_singleton, or_iff_right notLabel]
    exact (and_iff_left (isMissing.mp missing)).symm
  · rename_i present
    rw [inValues]
    refine (or_iff_left ?_).symm
    rintro ⟨_, missing⟩
    exact present (isMissing.mpr missing)

theorem labelValues_of_shows
    {labels others : Labels} (shows : ShowsLabels (metricOf labels) others)
    {name value : String} (hasValue : value ∈ labelValues others name) :
    value ∈ labelValues labels name := by
  rw [mem_labelValues] at hasValue ⊢
  refine hasValue.imp ?_ (And.imp_right ?_)
  · intro isLabel
    exact mem_of_lookup_metricOf (shows.lookup_eq_some_iff.mpr isLabel)
  · intro missing isName
    exact missing (shows.mem_iff.mp (mem_metricOf.mpr isName))

theorem calculateSeriesId_of_shows
    {hasher : Bytes → TimeSeriesId} {metric : Metric} {labels others : Labels}
    (shows : ShowsLabels metric labels)
    (otherShows : ShowsLabels metric others) :
    calculateSeriesId hasher labels = calculateSeriesId hasher others := by
  rw [calculateSeriesId, calculateSeriesId, seriesIdBytes, seriesIdBytes,
    sortByKey_congr Label.name shows.distinct (shows.perm otherShows)]

end ChronoDB.Server
