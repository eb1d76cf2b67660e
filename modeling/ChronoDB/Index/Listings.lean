import ChronoDB.Index.Matchers

namespace ChronoDB.Index

open Library List

/-!
# Listings of labels

The listings show the keys of the nested maps.  A removal takes an id out of its
sets but leaves the keys of empty sets behind, so a listing stays right as long
as no step takes away the last series with a label.
-/

namespace InvertedIndex

def labelNames (index : InvertedIndex) : List String :=
  index.labelNameToValues.keys

def labelValues (index : InvertedIndex) (name : String) : List String :=
  match index.labelNameToValues.lookup name with
  | none => []
  | some valuesMap => valuesMap.keys

def Carried (index : InvertedIndex) (label : Label) : Prop :=
  ∃ seriesId labels, index.Live seriesId labels ∧ label ∈ labels

/-- The listings show exactly the names and values of the series, once each. -/
structure ListsLive (index : InvertedIndex) : Prop where
  distinctNames : index.labelNames.Nodup
  names : ∀ name, name ∈ index.labelNames ↔ ∃ value, index.Carried ⟨name, value⟩
  distinctValues : ∀ name, (index.labelValues name).Nodup
  values : ∀ name value,
    value ∈ index.labelValues name ↔ index.Carried ⟨name, value⟩

def CarriedByOther (index : InvertedIndex) (seriesId : TimeSeriesId)
    (label : Label) : Prop :=
  ∃ other labels, other ≠ seriesId ∧ index.Live other labels ∧ label ∈ labels

/-- A step leaves every label of the series that it changes with some series. -/
def KeepsCarried (index : InvertedIndex) : IndexCall → Prop
  | .addSeries seriesId labels =>
    ∀ old, index.Live seriesId old →
      ∀ label ∈ old, label ∈ labels ∨ index.CarriedByOther seriesId label
  | .removeSeries seriesId =>
    ∀ old, index.Live seriesId old →
      ∀ label ∈ old, index.CarriedByOther seriesId label

/-!
## What is listed after a step
-/

section Listed

variable {index : InvertedIndex} {seriesId : TimeSeriesId}

variable {label : Label} {name value : String}

theorem mem_labelValues :
    value ∈ index.labelValues name ↔
      ∃ valuesMap,
        index.labelNameToValues.lookup name = some valuesMap ∧
          value ∈ valuesMap := by
  rw [labelValues]
  cases index.labelNameToValues.lookup name <;>
    simp [AList.mem_keys]

/-- Every listed name has a listed value. -/
def NamesHaveValues (index : InvertedIndex) : Prop :=
  ∀ name ∈ index.labelNames, ∃ value, value ∈ index.labelValues name

theorem mem_labelValues_addLabelEntry :
    value ∈ (index.addLabelEntry seriesId label).labelValues name ↔
      label = ⟨name, value⟩ ∨ value ∈ index.labelValues name := by
  obtain ⟨ownName, ownValue⟩ := label
  rw [mem_labelValues, mem_labelValues, addLabelEntry, Label.mk.injEq]
  by_cases sameName : ownName = name
  · subst sameName
    simp only [AList.lookup_insert, Option.some.injEq, exists_eq_left',
      true_and]
    rw [AList.mem_insert, eq_comm]
    refine or_congr_right ?_
    cases index.labelNameToValues.lookup ownName with
    | none => simp
    | some valuesMap => simp
  · rw [AList.lookup_insert_ne (Ne.symm sameName)]
    simp [sameName]

theorem mem_labelValues_removeLabelEntry :
    value ∈ (index.removeLabelEntry seriesId label).labelValues name ↔
      value ∈ index.labelValues name := by
  obtain ⟨ownName, ownValue⟩ := label
  rw [removeLabelEntry]
  cases named : index.labelNameToValues.lookup ownName with
  | none => rfl
  | some valuesMap =>
    cases valued : valuesMap.lookup ownValue with
    | none => simp only [valued]
    | some seriesSet =>
      simp only [valued]
      rw [mem_labelValues, mem_labelValues]
      by_cases sameName : ownName = name
      · subst sameName
        rw [AList.lookup_insert, named]
        have present : ownValue ∈ valuesMap := FiniteMap.mem_of_lookup valued
        simp only [Option.some.injEq, exists_eq_left', AList.mem_insert]
        refine or_iff_right_of_imp ?_
        rintro rfl
        exact present
      · rw [AList.lookup_insert_ne (Ne.symm sameName)]

theorem mem_labelNames_addLabelEntry {name : String} :
    name ∈ (index.addLabelEntry seriesId label).labelNames ↔
      label.name = name ∨ name ∈ index.labelNames := by
  rw [labelNames, addLabelEntry, ← AList.mem_keys, AList.mem_insert,
    labelNames, ← AList.mem_keys, eq_comm]

theorem mem_labelNames_removeLabelEntry {name : String} :
    name ∈ (index.removeLabelEntry seriesId label).labelNames ↔
      name ∈ index.labelNames := by
  rw [removeLabelEntry]
  cases named : index.labelNameToValues.lookup label.name with
  | none => rfl
  | some valuesMap =>
    cases valued : valuesMap.lookup label.value with
    | none => simp only [valued]
    | some seriesSet =>
      simp only [valued]
      rw [labelNames, ← AList.mem_keys, AList.mem_insert, labelNames,
        ← AList.mem_keys]
      refine or_iff_right_of_imp ?_
      rintro rfl
      exact FiniteMap.mem_of_lookup named

theorem listed_addLabelEntries
    (seriesId : TimeSeriesId) (labels : Labels) (index : InvertedIndex) :
    (∀ name value,
        value ∈ (labels.foldl
            (fun index label => index.addLabelEntry seriesId label)
            index).labelValues name ↔
          ⟨name, value⟩ ∈ labels ∨ value ∈ index.labelValues name) ∧
      ∀ name,
        name ∈ (labels.foldl
            (fun index label => index.addLabelEntry seriesId label)
            index).labelNames ↔
          (∃ label ∈ labels, label.name = name) ∨ name ∈ index.labelNames := by
  induction labels generalizing index with
  | nil => simp
  | cons label rest inductionHypothesis =>
    obtain ⟨values, names⟩ :=
      inductionHypothesis (index.addLabelEntry seriesId label)
    constructor
    · intro name value
      rw [foldl_cons, values, mem_labelValues_addLabelEntry,
        mem_cons, or_left_comm, or_assoc, eq_comm]
    · intro name
      simp only [mem_cons, exists_eq_or_imp]
      rw [foldl_cons, names, mem_labelNames_addLabelEntry,
        or_left_comm, or_assoc]

theorem listed_removeLabelEntries
    (seriesId : TimeSeriesId) (labels : Labels) (index : InvertedIndex) :
    (∀ name value,
        value ∈ (labels.foldl
            (fun index label => index.removeLabelEntry seriesId label)
            index).labelValues name ↔
          value ∈ index.labelValues name) ∧
      ∀ name,
        name ∈ (labels.foldl
            (fun index label => index.removeLabelEntry seriesId label)
            index).labelNames ↔
          name ∈ index.labelNames := by
  induction labels generalizing index with
  | nil => simp
  | cons label rest inductionHypothesis =>
    obtain ⟨values, names⟩ :=
      inductionHypothesis (index.removeLabelEntry seriesId label)
    constructor
    · intro name value
      rw [foldl_cons, values, mem_labelValues_removeLabelEntry]
    · intro name
      rw [foldl_cons, names, mem_labelNames_removeLabelEntry]

theorem listed_addSeries
    (index : InvertedIndex) (seriesId : TimeSeriesId) (labels : Labels) :
    (∀ name value,
        value ∈ (index.addSeries seriesId labels).labelValues name ↔
          ⟨name, value⟩ ∈ labels ∨ value ∈ index.labelValues name) ∧
      ∀ name,
        name ∈ (index.addSeries seriesId labels).labelNames ↔
          (∃ label ∈ labels, label.name = name) ∨ name ∈ index.labelNames :=
  listed_addLabelEntries seriesId labels
    { index with
      seriesLabels := index.seriesLabels.insert seriesId labels }

theorem listed_removeSeries (index : InvertedIndex) (seriesId : TimeSeriesId) :
    (∀ name value,
        value ∈ (index.removeSeries seriesId).labelValues name ↔
          value ∈ index.labelValues name) ∧
      ∀ name,
        name ∈ (index.removeSeries seriesId).labelNames ↔
          name ∈ index.labelNames := by
  rw [removeSeries]
  cases index.seriesLabels.lookup seriesId with
  | none =>
    exact ⟨fun _ _ => Iff.rfl, fun _ => Iff.rfl⟩
  | some labels => exact listed_removeLabelEntries seriesId labels index

theorem NamesHaveValues.step {after : InvertedIndex} {call : IndexCall}
    (haveValues : index.NamesHaveValues) (taken : IndexStep index call after) :
    after.NamesHaveValues := by
  subst taken
  cases call with
  | addSeries seriesId labels =>
    obtain ⟨values, names⟩ := index.listed_addSeries seriesId labels
    intro name isName
    rcases (names name).mp isName with ⟨label, isLabel, rfl⟩ | wasName
    · exact ⟨label.value, (values _ _).mpr (.inl isLabel)⟩
    · obtain ⟨value, wasValue⟩ := haveValues name wasName
      exact ⟨value, (values _ _).mpr (.inr wasValue)⟩
  | removeSeries seriesId =>
    obtain ⟨values, names⟩ := index.listed_removeSeries seriesId
    intro name isName
    obtain ⟨value, wasValue⟩ := haveValues name ((names name).mp isName)
    exact ⟨value, (values _ _).mpr wasValue⟩

theorem NamesHaveValues.listsLive_iff (haveValues : index.NamesHaveValues) :
    index.ListsLive ↔
      ∀ name value,
        value ∈ index.labelValues name ↔ index.Carried ⟨name, value⟩ := by
  constructor
  · exact fun live => live.values
  · intro values
    refine ⟨index.labelNameToValues.keys_nodup, fun name => ?_,
      fun name => ?_, values⟩
    · constructor
      · intro isName
        obtain ⟨value, isValue⟩ := haveValues name isName
        exact ⟨value, (values name value).mp isValue⟩
      · rintro ⟨value, carried⟩
        obtain ⟨valuesMap, named, _⟩ :=
          mem_labelValues.mp ((values name value).mpr carried)
        exact AList.mem_keys.mp (FiniteMap.mem_of_lookup named)
    · rw [labelValues]
      cases index.labelNameToValues.lookup name with
      | none => exact nodup_nil
      | some valuesMap => exact valuesMap.keys_nodup

/-!
## What is carried after a step
-/

theorem carried_iff_or_other :
    index.Carried label ↔
      (∃ old, index.Live seriesId old ∧ label ∈ old) ∨
        index.CarriedByOther seriesId label := by
  constructor
  · rintro ⟨other, labels, live, isLabel⟩
    by_cases same : other = seriesId
    · exact .inl ⟨labels, same ▸ live, isLabel⟩
    · exact .inr ⟨other, labels, same, live, isLabel⟩
  · rintro (⟨old, live, isLabel⟩ | ⟨other, labels, _, live, isLabel⟩)
    · exact ⟨seriesId, old, live, isLabel⟩
    · exact ⟨other, labels, live, isLabel⟩

theorem carried_addSeries {labels : Labels} :
    (index.addSeries seriesId labels).Carried label ↔
      label ∈ labels ∨ index.CarriedByOther seriesId label := by
  constructor
  · rintro ⟨other, others, live, isLabel⟩
    rw [Live, seriesLabels_addSeries] at live
    by_cases same : other = seriesId
    · subst same
      rw [AList.lookup_insert] at live
      cases live
      exact .inl isLabel
    · rw [AList.lookup_insert_ne same] at live
      exact .inr ⟨other, others, same, live, isLabel⟩
  · rintro (isLabel | ⟨other, others, differs, live, isLabel⟩)
    · refine ⟨seriesId, labels, ?_, isLabel⟩
      rw [Live, seriesLabels_addSeries, AList.lookup_insert]
    · refine ⟨other, others, ?_, isLabel⟩
      rw [Live, seriesLabels_addSeries, AList.lookup_insert_ne differs]
      exact live

theorem carried_removeSeries :
    (index.removeSeries seriesId).Carried label ↔
      index.CarriedByOther seriesId label := by
  constructor
  · rintro ⟨other, others, live, isLabel⟩
    rw [Live, lookup_seriesLabels_removeSeries] at live
    split at live
    · cases live
    · next differs => exact ⟨other, others, differs, live, isLabel⟩
  · rintro ⟨other, others, differs, live, isLabel⟩
    refine ⟨other, others, ?_, isLabel⟩
    rw [Live, lookup_seriesLabels_removeSeries, if_neg differs]
    exact live

theorem ListsLive.step_iff {after : InvertedIndex} {call : IndexCall}
    (haveValues : index.NamesHaveValues) (live : index.ListsLive)
    (taken : IndexStep index call after) :
    after.ListsLive ↔ index.KeepsCarried call := by
  rw [(haveValues.step taken).listsLive_iff]
  subst taken
  cases call with
  | addSeries seriesId labels =>
    obtain ⟨values, _⟩ := index.listed_addSeries seriesId labels
    constructor
    · intro right old isOld label isLabel
      rw [← carried_addSeries]
      refine (right label.name label.value).mp ?_
      refine (values _ _).mpr (.inr ?_)
      exact (live.values _ _).mpr ⟨seriesId, old, isOld, isLabel⟩
    · intro keeps name value
      rw [perform, values, live.values, carried_addSeries,
        @carried_iff_or_other index seriesId]
      constructor
      · rintro (isLabel | ⟨old, isOld, isLabel⟩ | carried)
        · exact .inl isLabel
        · exact keeps old isOld _ isLabel
        · exact .inr carried
      · rintro (isLabel | carried)
        · exact .inl isLabel
        · exact .inr (.inr carried)
  | removeSeries seriesId =>
    obtain ⟨values, _⟩ := index.listed_removeSeries seriesId
    constructor
    · intro right old isOld label isLabel
      rw [← carried_removeSeries]
      refine (right label.name label.value).mp ?_
      refine (values _ _).mpr ?_
      exact (live.values _ _).mpr ⟨seriesId, old, isOld, isLabel⟩
    · intro keeps name value
      rw [perform, values, live.values, carried_removeSeries,
        @carried_iff_or_other index seriesId]
      constructor
      · rintro (⟨old, isOld, isLabel⟩ | carried)
        · exact keeps old isOld _ isLabel
        · exact carried
      · exact .inr

end Listed

theorem listsLive_empty : empty.ListsLive := by
  refine ⟨nodup_nil, fun name => ?_, fun name => nodup_nil,
    fun name value => ?_⟩
  · refine iff_of_false not_mem_nil ?_
    rintro ⟨_, _, _, live, _⟩
    cases live
  · refine iff_of_false not_mem_nil ?_
    rintro ⟨_, _, live, _⟩
    cases live

/--
The listings are right in every state of a run exactly when every step leaves the
labels of the series that it changes with some series.
-/
theorem listings_live_iff {actions : List IndexCall} {final : InvertedIndex}
    (run : Run IndexStep empty actions final) :
    (∀ passed remaining middle,
        actions = passed ++ remaining →
          Run IndexStep empty passed middle → middle.ListsLive) ↔
      Run (Restrict IndexStep KeepsCarried) empty actions final := by
  have noNames : NamesHaveValues empty := fun _ isName =>
    absurd isName not_mem_nil
  refine run.always_iff_restrict (fun taken again => taken.trans again.symm)
    noNames listsLive_empty ?_
  intro before call after haveValues live taken
  exact ⟨haveValues.step taken, live.step_iff haveValues taken⟩

/-- Two series share a label, and one of them is removed. -/
def sharedLabel : List IndexCall :=
  [.addSeries 1 [⟨"host", "a"⟩], .addSeries 2 [⟨"host", "a"⟩], .removeSeries 1]

theorem listings_live_of_sharedLabel :
    (sharedLabel.foldl perform empty).ListsLive := by
  have run : Run IndexStep empty sharedLabel (sharedLabel.foldl perform empty) :=
    @Run.ofFoldl _ _ IndexStep perform (fun _ _ => rfl) _ _
  refine (listings_live_iff run).mpr ?_ sharedLabel [] _ (append_nil _).symm run
  refine .cons ⟨?_, rfl⟩ (.cons ⟨?_, rfl⟩ (.single ⟨?_, rfl⟩))
  · intro old live
    cases live
  · intro old live
    cases live
  · intro old live label isLabel
    cases live
    exact ⟨2, [⟨"host", "a"⟩], by decide, rfl, isLabel⟩

/-- The last series with a label leaves its name and value behind. -/
theorem listings_keep_removed_label :
    ¬((empty.perform (.addSeries 1 [⟨"host", "a"⟩])).perform
      (.removeSeries 1)).ListsLive := by
  intro live
  obtain ⟨_, _, isLive, _⟩ := (live.values "host" "a").mp (by decide)
  rw [perform, perform, Live, lookup_seriesLabels_removeSeries] at isLive
  split at isLive
  · cases isLive
  · next differs =>
    rw [seriesLabels_addSeries, AList.lookup_insert_ne differs] at isLive
    cases isLive

end InvertedIndex

end ChronoDB.Index
