import ChronoDB.Index.Inverted

namespace ChronoDB.Index

open Library

/-!
# What lookups find

The id sets under label names and values and the labels of the series say the
same.  Adding a series that is not there yet and removing a series keep this.
-/

@[simp] theorem mem_insertId
    {seriesId other : TimeSeriesId} {ids : List TimeSeriesId} :
    other ∈ insertId seriesId ids ↔ other = seriesId ∨ other ∈ ids := by
  rw [insertId]
  split
  · rename_i present
    refine (or_iff_right_of_imp ?_).symm
    rintro rfl
    exact present
  · rw [mem_sortByKey, List.mem_cons]

theorem nodup_insertId
    {seriesId : TimeSeriesId} {ids : List TimeSeriesId} (distinct : ids.Nodup) :
    (insertId seriesId ids).Nodup := by
  rw [insertId]
  split
  · exact distinct
  · rename_i absent
    exact (sortByKey_perm UInt64.toNat _).nodup_iff.mpr
      (List.nodup_cons.mpr ⟨absent, distinct⟩)

namespace InvertedIndex

variable {index : InvertedIndex} {seriesId : TimeSeriesId}

theorem lookup_eq_getD (index : InvertedIndex) (name value : String) :
    index.lookup name value =
      (((index.labelNameToValues.lookup name).getD ∅).lookup
        value).getD [] := by
  rw [lookup]
  cases index.labelNameToValues.lookup name <;> rfl

theorem lookup_addLabelEntry
    (index : InvertedIndex) (seriesId : TimeSeriesId) (label : Label)
    (name value : String) :
    (index.addLabelEntry seriesId label).lookup name value =
      if label = ⟨name, value⟩ then
        insertId seriesId (index.lookup name value)
      else
        index.lookup name value := by
  obtain ⟨ownName, ownValue⟩ := label
  simp only [lookup_eq_getD, addLabelEntry, Label.mk.injEq]
  by_cases sameName : ownName = name
  · subst sameName
    rw [AList.lookup_insert, Option.getD_some]
    by_cases sameValue : ownValue = value
    · subst sameValue
      rw [AList.lookup_insert, Option.getD_some, if_pos ⟨rfl, rfl⟩]
    · rw [AList.lookup_insert_ne (Ne.symm sameValue),
        if_neg fun same => sameValue same.2]
  · rw [AList.lookup_insert_ne (Ne.symm sameName),
      if_neg fun same => sameName same.1]

theorem lookup_removeLabelEntry
    (index : InvertedIndex) (seriesId : TimeSeriesId) (label : Label)
    (name value : String) :
    (index.removeLabelEntry seriesId label).lookup name value =
      if label = ⟨name, value⟩ then
        (index.lookup name value).erase seriesId
      else
        index.lookup name value := by
  obtain ⟨ownName, ownValue⟩ := label
  simp only [Label.mk.injEq]
  rw [removeLabelEntry]
  cases named : index.labelNameToValues.lookup ownName with
  | none =>
    by_cases sameName : ownName = name
    · subst sameName
      simp [lookup, named]
    · simp [sameName]
  | some valuesMap =>
    cases valued : valuesMap.lookup ownValue with
    | none =>
      by_cases same : ownName = name ∧ ownValue = value
      · obtain ⟨rfl, rfl⟩ := same
        simp [lookup, named, valued]
      · simp only [valued, if_neg same]
    | some seriesSet =>
      simp only [lookup, valued]
      by_cases sameName : ownName = name
      · subst sameName
        rw [AList.lookup_insert, named]
        by_cases sameValue : ownValue = value
        · subst sameValue
          simp [valued]
        · simp [sameValue, AList.lookup_insert_ne (Ne.symm sameValue)]
      · rw [AList.lookup_insert_ne (Ne.symm sameName)]
        simp [sameName]

/-- The id sets repeat no id. -/
def Distinct (index : InvertedIndex) : Prop :=
  ∀ name value, (index.lookup name value).Nodup

theorem foldl_addLabelEntry
    (distinct : index.Distinct) (seriesId : TimeSeriesId) (labels : Labels) :
    (labels.foldl
        (fun index label => index.addLabelEntry seriesId label)
        index).Distinct ∧
      ∀ other name value,
        other ∈ (labels.foldl
            (fun index label => index.addLabelEntry seriesId label)
            index).lookup name value ↔
          other ∈ index.lookup name value ∨
            other = seriesId ∧ ⟨name, value⟩ ∈ labels := by
  induction labels generalizing index with
  | nil => exact ⟨distinct, by simp⟩
  | cons label rest inductionHypothesis =>
    have distinctFirst : (index.addLabelEntry seriesId label).Distinct := by
      intro name value
      rw [lookup_addLabelEntry]
      split
      · exact nodup_insertId (distinct name value)
      · exact distinct name value
    obtain ⟨distinctAll, members⟩ := inductionHypothesis distinctFirst
    refine ⟨distinctAll, fun other name value => ?_⟩
    rw [List.foldl_cons, members, lookup_addLabelEntry, List.mem_cons]
    by_cases same : label = ⟨name, value⟩
    · rw [if_pos same, mem_insertId]
      simp only [same, true_or, and_true]
      tauto
    · simp only [if_neg same, Ne.symm same, false_or]

theorem foldl_removeLabelEntry
    (distinct : index.Distinct) (seriesId : TimeSeriesId) (labels : Labels) :
    (labels.foldl
        (fun index label => index.removeLabelEntry seriesId label)
        index).Distinct ∧
      ∀ other name value,
        other ∈ (labels.foldl
            (fun index label => index.removeLabelEntry seriesId label)
            index).lookup name value ↔
          other ∈ index.lookup name value ∧
            ¬ (other = seriesId ∧ ⟨name, value⟩ ∈ labels) := by
  induction labels generalizing index with
  | nil => exact ⟨distinct, by simp⟩
  | cons label rest inductionHypothesis =>
    have distinctFirst : (index.removeLabelEntry seriesId label).Distinct := by
      intro name value
      rw [lookup_removeLabelEntry]
      split
      · exact (distinct name value).erase seriesId
      · exact distinct name value
    obtain ⟨distinctAll, members⟩ := inductionHypothesis distinctFirst
    refine ⟨distinctAll, fun other name value => ?_⟩
    rw [List.foldl_cons, members, lookup_removeLabelEntry, List.mem_cons]
    by_cases same : label = ⟨name, value⟩
    · rw [if_pos same, (distinct name value).mem_erase_iff]
      simp only [same, true_or, and_true]
      tauto
    · simp only [if_neg same, Ne.symm same, false_or]

/-- The id sets and the labels of the series say the same. -/
structure Exact (index : InvertedIndex) : Prop where
  distinct : index.Distinct
  mem_lookup_iff :
    ∀ seriesId name value,
      seriesId ∈ index.lookup name value ↔
        ∃ labels,
          index.seriesLabels.lookup seriesId = some labels ∧
            ⟨name, value⟩ ∈ labels

namespace Exact

theorem empty : Exact InvertedIndex.empty where
  distinct := fun _ _ => List.nodup_nil
  mem_lookup_iff := fun seriesId name value => by
    simp [InvertedIndex.empty, lookup]

theorem addSeries_of_kept (exact : index.Exact) {labels : Labels}
    (kept : ∀ old,
      index.seriesLabels.lookup seriesId = some old →
        ∀ label ∈ old, label ∈ labels) :
    (index.addSeries seriesId labels).Exact := by
  have entries :=
    @foldl_addLabelEntry
      { index with
        seriesLabels := index.seriesLabels.insert seriesId labels }
      exact.distinct seriesId labels
  refine ⟨entries.1, fun other name value => ?_⟩
  rw [seriesLabels_addSeries, InvertedIndex.addSeries]
  refine (entries.2 other name value).trans ?_
  have before := exact.mem_lookup_iff other name value
  change other ∈ index.lookup name value ∨ _ ↔ _
  rw [before]
  by_cases same : other = seriesId
  · subst same
    rw [AList.lookup_insert]
    constructor
    · rintro (⟨old, found, isLabel⟩ | ⟨_, isLabel⟩)
      · exact ⟨labels, rfl, kept old found _ isLabel⟩
      · exact ⟨labels, rfl, isLabel⟩
    · rintro ⟨_, isLabels, isLabel⟩
      cases isLabels
      exact .inr ⟨rfl, isLabel⟩
  · simp [same, AList.lookup_insert_ne]

theorem addSeries
    (exact : index.Exact) (absent : index.seriesLabels.lookup seriesId = none)
    (labels : Labels) :
    (index.addSeries seriesId labels).Exact := by
  refine exact.addSeries_of_kept fun old found => ?_
  rw [absent] at found
  cases found

theorem removeSeries (exact : index.Exact) (seriesId : TimeSeriesId) :
    (index.removeSeries seriesId).Exact := by
  cases found : index.seriesLabels.lookup seriesId with
  | none =>
    rw [InvertedIndex.removeSeries, found]
    exact exact
  | some labels =>
    have entries := foldl_removeLabelEntry exact.distinct seriesId labels
    have sameLookup :
        ∀ name value,
          (index.removeSeries seriesId).lookup name value =
            (labels.foldl
              (fun index label => index.removeLabelEntry seriesId label)
              index).lookup name value := by
      intro name value
      rw [InvertedIndex.removeSeries, found]
      rfl
    refine ⟨fun name value => ?_, fun other name value => ?_⟩
    · rw [sameLookup]
      exact entries.1 name value
    · rw [sameLookup, entries.2, exact.mem_lookup_iff,
        lookup_seriesLabels_removeSeries]
      by_cases same : other = seriesId
      · subst same
        simp [found]
      · simp [same]

end Exact

end InvertedIndex

end ChronoDB.Index
