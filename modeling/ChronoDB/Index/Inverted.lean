import ChronoDB.Library.FiniteMap
import ChronoDB.Model.Types

namespace ChronoDB.Index

open Library

/-!
# The inverted index

The index maps label names and values to sets of series ids, and series ids to
their labels.  An id set is kept as an ascending list without repetitions.
-/

def insertId (seriesId : TimeSeriesId) (ids : List TimeSeriesId) :
    List TimeSeriesId :=
  if seriesId ∈ ids then ids
  else sortByKey UInt64.toNat (seriesId :: ids)

structure InvertedIndex where
  labelNameToValues : FiniteMap String (FiniteMap String (List TimeSeriesId))
  seriesLabels : FiniteMap TimeSeriesId Labels

namespace InvertedIndex

def empty : InvertedIndex where
  labelNameToValues := ∅
  seriesLabels := ∅

def addLabelEntry
    (index : InvertedIndex) (seriesId : TimeSeriesId) (label : Label) :
    InvertedIndex :=
  let valuesMap := (index.labelNameToValues.lookup label.name).getD ∅
  let seriesSet := (valuesMap.lookup label.value).getD []
  {
    index with
    labelNameToValues :=
      index.labelNameToValues.insert label.name
        (valuesMap.insert label.value (insertId seriesId seriesSet))
  }

def addSeries
    (index : InvertedIndex) (seriesId : TimeSeriesId) (labels : Labels) :
    InvertedIndex :=
  labels.foldl
    (fun index label => index.addLabelEntry seriesId label)
    { index with
      seriesLabels := index.seriesLabels.insert seriesId labels }

def removeLabelEntry
    (index : InvertedIndex) (seriesId : TimeSeriesId) (label : Label) :
    InvertedIndex :=
  match index.labelNameToValues.lookup label.name with
  | none => index
  | some valuesMap =>
    match valuesMap.lookup label.value with
    | none => index
    | some seriesSet =>
      {
        index with
        labelNameToValues :=
          index.labelNameToValues.insert label.name
            (valuesMap.insert label.value (seriesSet.erase seriesId))
      }

def removeSeries (index : InvertedIndex) (seriesId : TimeSeriesId) :
    InvertedIndex :=
  match index.seriesLabels.lookup seriesId with
  | none => index
  | some labels =>
    let cleared :=
      labels.foldl
        (fun index label => index.removeLabelEntry seriesId label)
        index
    { cleared with
      seriesLabels := cleared.seriesLabels.erase seriesId }

def lookup (index : InvertedIndex) (name value : String) :
    List TimeSeriesId :=
  match index.labelNameToValues.lookup name with
  | none => []
  | some valuesMap => (valuesMap.lookup value).getD []

/-- The ids of all series, in one iteration order of the hash map. -/
def allSeriesIds (index : InvertedIndex) : List TimeSeriesId :=
  index.seriesLabels.keys

@[simp] theorem lookup_empty (name value : String) :
    empty.lookup name value = [] :=
  rfl

variable (index : InvertedIndex) (seriesId : TimeSeriesId)

@[simp] theorem seriesLabels_addLabelEntry (label : Label) :
    (index.addLabelEntry seriesId label).seriesLabels = index.seriesLabels :=
  rfl

@[simp] theorem seriesLabels_removeLabelEntry (label : Label) :
    (index.removeLabelEntry seriesId label).seriesLabels =
      index.seriesLabels := by
  rw [removeLabelEntry]
  split
  · rfl
  · split <;> rfl

@[simp] theorem seriesLabels_addSeries (labels : Labels) :
    (index.addSeries seriesId labels).seriesLabels =
      index.seriesLabels.insert seriesId labels := by
  have keeps :
      ∀ (rest : Labels) (start : InvertedIndex),
        (rest.foldl
          (fun index label => index.addLabelEntry seriesId label)
          start).seriesLabels =
          start.seriesLabels := by
    intro rest
    induction rest with
    | nil =>
      exact fun start => rfl
    | cons label rest inductionHypothesis =>
      intro start
      rw [List.foldl_cons, inductionHypothesis, seriesLabels_addLabelEntry]
  exact keeps labels _

@[simp] theorem lookup_seriesLabels_removeSeries
    (seriesId other : TimeSeriesId) :
    (index.removeSeries seriesId).seriesLabels.lookup other =
      if other = seriesId then none
      else index.seriesLabels.lookup other := by
  have keeps :
      ∀ (rest : Labels) (start : InvertedIndex),
        (rest.foldl
          (fun index label => index.removeLabelEntry seriesId label)
          start).seriesLabels =
          start.seriesLabels := by
    intro rest
    induction rest with
    | nil =>
      exact fun start => rfl
    | cons label rest inductionHypothesis =>
      intro start
      rw [List.foldl_cons, inductionHypothesis, seriesLabels_removeLabelEntry]
  rw [removeSeries]
  by_cases same : other = seriesId
  · subst same
    cases found : index.seriesLabels.lookup other with
    | none => simp [found]
    | some labels => simp
  · cases found : index.seriesLabels.lookup seriesId with
    | none => simp [same]
    | some labels => simp [same, keeps, AList.lookup_erase_ne]

end InvertedIndex

end ChronoDB.Index
