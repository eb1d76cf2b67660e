import Mathlib.Data.List.Nodup
import ChronoDB.Index.Lookup
import ChronoDB.Library.Transition

namespace ChronoDB.Index

open Library List

/-!
# Lookups by a matcher

Each kind of matcher is answered by a set of its own: one id set, a complement,
or a scan of the values.  A series without the label counts as one with an empty
value for the matcher, but no id set holds it.
-/

/-- A matcher of one label; a pattern may be invalid. -/
inductive LabelMatcher where
  | equal (value : String)
  | notEqual (value : String)
  | regex (pattern : String)
  | notRegex (pattern : String)
  deriving Repr, DecidableEq

/-- A regular expression engine: a test for each valid pattern. -/
abbrev RegexEngine := String → Option (String → Bool)

def LabelMatcher.accepts
    (regex : RegexEngine) (matcher : LabelMatcher) (value : String) :
    Bool :=
  match matcher with
  | .equal expected => value = expected
  | .notEqual expected => value ≠ expected
  | .regex pattern => ((regex pattern).map (· value)).getD false
  | .notRegex pattern => ((regex pattern).map (!· value)).getD true

namespace InvertedIndex

/-- The ids under the values of a name that pass a test, value by value. -/
def scan (index : InvertedIndex) (name : String) (test : String → Bool) :
    List TimeSeriesId :=
  match index.labelNameToValues.lookup name with
  | none => []
  | some valuesMap =>
    valuesMap.entries.flatMap fun entry =>
      if test entry.1 then entry.2 else []

/-- The ids that a matcher finds; an invalid pattern is unwrapped. -/
def lookupByMatcher
    (regex : RegexEngine) (index : InvertedIndex) (name : String)
    (matcher : LabelMatcher) :
    Except Fault (List TimeSeriesId) :=
  match matcher with
  | .equal value => .ok (index.lookup name value)
  | .notEqual value =>
    .ok (index.allSeriesIds.filter (· ∉ index.lookup name value))
  | .regex pattern =>
    match regex pattern with
    | none => .error .panic
    | some isMatch => .ok (index.scan name isMatch)
  | .notRegex pattern =>
    match regex pattern with
    | none => .error .panic
    | some isMatch => .ok (index.scan name (!isMatch ·))

inductive IndexCall where
  | addSeries (seriesId : TimeSeriesId) (labels : Labels)
  | removeSeries (seriesId : TimeSeriesId)
  deriving Repr, DecidableEq

def perform (index : InvertedIndex) : IndexCall → InvertedIndex
  | .addSeries seriesId labels => index.addSeries seriesId labels
  | .removeSeries seriesId => index.removeSeries seriesId

def IndexStep (before : InvertedIndex) (call : IndexCall)
    (after : InvertedIndex) : Prop :=
  after = before.perform call

def Live (index : InvertedIndex) (seriesId : TimeSeriesId)
    (labels : Labels) : Prop :=
  index.seriesLabels.lookup seriesId = some labels

def valueOf (labels : Labels) (name : String) : String :=
  ((labels.find? fun label => label.name = name).map Label.value).getD ""

/-- A lookup finds, without repetition, the series whose value is accepted. -/
def AnswersRight (regex : RegexEngine) (index : InvertedIndex) (name : String)
    (matcher : LabelMatcher) : Prop :=
  ∃ ids,
    index.lookupByMatcher regex name matcher = .ok ids ∧
      ids.Nodup ∧
        ∀ seriesId,
          seriesId ∈ ids ↔
            ∃ labels,
              index.Live seriesId labels ∧
                matcher.accepts regex (valueOf labels name) = true

def AllHave (index : InvertedIndex) (name : String) : Prop :=
  ∀ seriesId labels,
    index.Live seriesId labels → ∃ label ∈ labels, label.name = name

/-- A matcher that does not take a missing label for an empty one. -/
def Decided (regex : RegexEngine) (index : InvertedIndex) (name : String) :
    LabelMatcher → Prop
  | .equal value => value ≠ "" ∨ index.AllHave name
  | .notEqual value => value ≠ "" ∨ index.AllHave name
  | .regex pattern =>
    ∃ isMatch,
      regex pattern = some isMatch ∧ (isMatch "" = false ∨ index.AllHave name)
  | .notRegex pattern =>
    ∃ isMatch,
      regex pattern = some isMatch ∧ (isMatch "" = true ∨ index.AllHave name)

/--
A series is added with one value for each name, and keeps the labels it has.
-/
def AddsCleanly (index : InvertedIndex) : IndexCall → Prop
  | .addSeries seriesId labels =>
    (labels.map Label.name).Nodup ∧
      ∀ old, index.Live seriesId old → ∀ label ∈ old, label ∈ labels
  | .removeSeries _ => True

/-!
## What every step keeps
-/

/-- The id sets are exact, and each series has one value for each name. -/
structure Clean (index : InvertedIndex) : Prop where
  exact : index.Exact
  oneValue : ∀ seriesId labels,
    index.Live seriesId labels → (labels.map Label.name).Nodup

theorem clean_empty : Clean empty where
  exact := Exact.empty
  oneValue := fun _ _ live => by cases live

theorem Clean.step
    {index after : InvertedIndex} {call : IndexCall} (clean : index.Clean)
    (cleanly : index.AddsCleanly call) (taken : IndexStep index call after) :
    after.Clean := by
  subst taken
  cases call with
  | addSeries seriesId labels =>
    refine ⟨clean.exact.addSeries_of_kept cleanly.2, ?_⟩
    intro other otherLabels live
    rw [Live, perform, seriesLabels_addSeries] at live
    by_cases same : other = seriesId
    · subst same
      rw [AList.lookup_insert] at live
      cases live
      exact cleanly.1
    · rw [AList.lookup_insert_ne same] at live
      exact clean.oneValue other otherLabels live
  | removeSeries seriesId =>
    refine ⟨clean.exact.removeSeries seriesId, ?_⟩
    intro other otherLabels live
    rw [Live, perform, lookup_seriesLabels_removeSeries] at live
    split at live
    · cases live
    · exact clean.oneValue other otherLabels live

theorem clean_of_run {actions : List IndexCall} {final : InvertedIndex}
    (run : Run (Restrict IndexStep AddsCleanly) empty actions final) :
    final.Clean := by
  refine run.preserves ?_ clean_empty
  intro before action after clean step
  exact clean.step step.1 step.2

/-!
## What each kind of matcher finds
-/

theorem valueOf_of_mem
    {labels : Labels} (oneValue : (labels.map Label.name).Nodup)
    {name value : String} (isLabel : (⟨name, value⟩ : Label) ∈ labels) :
    valueOf labels name = value := by
  rw [valueOf]
  cases found : labels.find? fun label => label.name = name with
  | none => exact absurd (decide_eq_true rfl) (find?_eq_none.mp found _ isLabel)
  | some label =>
    have sameName : label.name = name := by
      simpa using find?_some found
    have same := inj_on_of_nodup_map oneValue
      (mem_of_find?_eq_some found) isLabel sameName
    rw [same]
    rfl

theorem valueOf_of_missing {labels : Labels} {name : String}
    (missing : ¬∃ label ∈ labels, label.name = name) :
    valueOf labels name = "" := by
  have notFound : labels.find? (fun label => label.name = name) = none := by
    rw [find?_eq_none]
    intro label isLabel sameName
    exact missing ⟨label, isLabel, of_decide_eq_true sameName⟩
  rw [valueOf, notFound]
  rfl

section Clean

variable {index : InvertedIndex}

theorem mem_scan
    {name : String} {test : String → Bool} {seriesId : TimeSeriesId} :
    seriesId ∈ index.scan name test ↔
      ∃ value, test value = true ∧ seriesId ∈ index.lookup name value := by
  rw [scan]
  cases named : index.labelNameToValues.lookup name with
  | none => simp [lookup, named]
  | some valuesMap =>
    simp only [mem_flatMap, lookup, named]
    constructor
    · rintro ⟨⟨value, ids⟩, isEntry, isMember⟩
      by_cases passes : test value = true
      · rw [if_pos passes] at isMember
        refine ⟨value, passes, ?_⟩
        rw [AList.mem_lookup_iff.mpr isEntry]
        exact isMember
      · rw [if_neg passes] at isMember
        exact absurd isMember not_mem_nil
    · rintro ⟨value, passes, isMember⟩
      cases valued : valuesMap.lookup value with
      | none =>
        rw [valued] at isMember
        exact absurd isMember not_mem_nil
      | some ids =>
        rw [valued] at isMember
        refine ⟨⟨value, ids⟩, AList.mem_lookup_iff.mp valued, ?_⟩
        rw [if_pos passes]
        exact isMember

theorem Clean.mem_lookup_iff
    (clean : index.Clean) {name value : String} {seriesId : TimeSeriesId} :
    seriesId ∈ index.lookup name value ↔
      ∃ labels, index.Live seriesId labels ∧ ⟨name, value⟩ ∈ labels :=
  clean.exact.mem_lookup_iff seriesId name value

theorem Clean.value_unique
    (clean : index.Clean) {name first second : String} {seriesId : TimeSeriesId}
    (underFirst : seriesId ∈ index.lookup name first)
    (underSecond : seriesId ∈ index.lookup name second) :
    first = second := by
  obtain ⟨labels, live, isFirst⟩ := clean.mem_lookup_iff.mp underFirst
  obtain ⟨others, alsoLive, isSecond⟩ := clean.mem_lookup_iff.mp underSecond
  cases live.symm.trans alsoLive
  have oneValue := clean.oneValue seriesId labels live
  exact (valueOf_of_mem oneValue isFirst).symm.trans
    (valueOf_of_mem oneValue isSecond)

theorem Clean.nodup_scan
    (clean : index.Clean) (name : String) (test : String → Bool) :
    (index.scan name test).Nodup := by
  rw [scan]
  cases named : index.labelNameToValues.lookup name with
  | none => exact nodup_nil
  | some valuesMap =>
    have isSet {entry : (_ : String) × List TimeSeriesId}
        (isEntry : entry ∈ valuesMap.entries) :
        index.lookup name entry.1 = entry.2 := by
      have valued : valuesMap.lookup entry.1 = some entry.2 :=
        AList.mem_lookup_iff.mpr isEntry
      rw [lookup, named]
      dsimp only
      rw [valued]
      rfl
    refine nodup_flatMap.mpr ⟨?_, ?_⟩
    · intro entry isEntry
      split
      · rw [← isSet isEntry]
        exact clean.exact.distinct name entry.1
      · exact nodup_nil
    · have distinct := nodupKeys_iff_pairwise.mp valuesMap.nodupKeys
      refine List.Pairwise.imp_of_mem ?_ distinct
      intro first second isFirst isSecond differ
      refine disjoint_left.mpr fun seriesId inFirst inSecond => differ ?_
      dsimp only at inFirst inSecond
      have underFirst : seriesId ∈ index.lookup name first.1 := by
        rw [isSet isFirst]
        split at inFirst
        · exact inFirst
        · exact absurd inFirst not_mem_nil
      have underSecond : seriesId ∈ index.lookup name second.1 := by
        rw [isSet isSecond]
        split at inSecond
        · exact inSecond
        · exact absurd inSecond not_mem_nil
      exact clean.value_unique underFirst underSecond

theorem Clean.carried_iff
    (clean : index.Clean) (name : String) (test : String → Bool) :
    (∀ seriesId labels,
        index.Live seriesId labels →
          ((∃ value, test value = true ∧ ⟨name, value⟩ ∈ labels) ↔
            test (valueOf labels name) = true)) ↔
      test "" = false ∨ index.AllHave name := by
  constructor
  · intro agree
    refine or_iff_not_imp_left.mpr fun acceptsEmpty => ?_
    rw [Bool.not_eq_false] at acceptsEmpty
    intro seriesId labels live
    by_contra missing
    obtain ⟨value, _, isLabel⟩ :=
      (agree seriesId labels live).mpr
        ((congrArg test (valueOf_of_missing missing)).trans acceptsEmpty)
    exact missing ⟨_, isLabel, rfl⟩
  · intro decided seriesId labels live
    have oneValue := clean.oneValue seriesId labels live
    constructor
    · rintro ⟨value, passes, isLabel⟩
      rw [valueOf_of_mem oneValue isLabel]
      exact passes
    · intro passes
      by_cases present : ∃ label ∈ labels, label.name = name
      · obtain ⟨label, isLabel, rfl⟩ := present
        rw [valueOf_of_mem oneValue isLabel] at passes
        exact ⟨label.value, passes, isLabel⟩
      · rw [valueOf_of_missing present] at passes
        rcases decided with refusesEmpty | allHave
        · rw [refusesEmpty] at passes
          cases passes
        · exact absurd (allHave seriesId labels live) present

theorem Clean.right_iff
    (clean : index.Clean) (name : String) (test : String → Bool)
    {ids : List TimeSeriesId}
    (members : ∀ seriesId,
      seriesId ∈ ids ↔
        ∃ value, test value = true ∧ seriesId ∈ index.lookup name value) :
    (∀ seriesId,
        seriesId ∈ ids ↔
          ∃ labels,
            index.Live seriesId labels ∧ test (valueOf labels name) = true) ↔
      test "" = false ∨ index.AllHave name := by
  rw [← clean.carried_iff name test]
  have carried (seriesId : TimeSeriesId) :
      seriesId ∈ ids ↔
        ∃ labels,
          index.Live seriesId labels ∧
            ∃ value, test value = true ∧ ⟨name, value⟩ ∈ labels := by
    rw [members]
    constructor
    · rintro ⟨value, passes, isMember⟩
      obtain ⟨labels, live, isLabel⟩ := clean.mem_lookup_iff.mp isMember
      exact ⟨labels, live, value, passes, isLabel⟩
    · rintro ⟨labels, live, value, passes, isLabel⟩
      exact ⟨value, passes, clean.mem_lookup_iff.mpr ⟨labels, live, isLabel⟩⟩
  constructor
  · intro right seriesId labels live
    have both := (carried seriesId).symm.trans (right seriesId)
    constructor
    · intro hasValue
      obtain ⟨others, alsoLive, passes⟩ := both.mp ⟨labels, live, hasValue⟩
      cases live.symm.trans alsoLive
      exact passes
    · intro passes
      obtain ⟨others, alsoLive, hasValue⟩ := both.mpr ⟨labels, live, passes⟩
      cases live.symm.trans alsoLive
      exact hasValue
  · intro agree seriesId
    rw [carried]
    constructor
    · rintro ⟨labels, live, hasValue⟩
      exact ⟨labels, live, (agree seriesId labels live).mp hasValue⟩
    · rintro ⟨labels, live, passes⟩
      exact ⟨labels, live, (agree seriesId labels live).mpr passes⟩

theorem Clean.complement_iff (clean : index.Clean) (name value : String) :
    (∀ seriesId,
        seriesId ∈ index.allSeriesIds.filter (· ∉ index.lookup name value) ↔
          ∃ labels, index.Live seriesId labels ∧ valueOf labels name ≠ value) ↔
      ∀ seriesId,
        seriesId ∈ index.lookup name value ↔
          ∃ labels,
            index.Live seriesId labels ∧ valueOf labels name = value := by
  refine forall_congr' fun seriesId => ?_
  rw [mem_filter, decide_eq_true_eq]
  cases found : index.seriesLabels.lookup seriesId with
  | none =>
    have notListed : seriesId ∉ index.allSeriesIds := by
      rw [allSeriesIds, ← AList.mem_keys, ← AList.lookup_isSome, found]
      exact Bool.false_ne_true
    have notCarried : seriesId ∉ index.lookup name value := by
      rw [clean.mem_lookup_iff]
      rintro ⟨labels, live, _⟩
      cases found.symm.trans live
    have notLive (labels : Labels) : ¬index.Live seriesId labels := by
      intro live
      cases found.symm.trans live
    simp [notListed, notCarried, notLive]
  | some labels =>
    have listed : seriesId ∈ index.allSeriesIds := by
      rw [allSeriesIds, ← AList.mem_keys, ← AList.lookup_isSome, found]
      rfl
    have isLive (others : Labels) :
        index.Live seriesId others ↔ labels = others := by
      rw [Live, found, Option.some_inj]
    simp only [listed, true_and, isLive, exists_eq_left', ne_eq]
    exact not_iff_not

theorem answersRight_iff_of_result
    {regex : RegexEngine} {name : String} {matcher : LabelMatcher}
    {ids : List TimeSeriesId} (distinct : ids.Nodup)
    (isResult : index.lookupByMatcher regex name matcher = .ok ids) :
    index.AnswersRight regex name matcher ↔
      ∀ seriesId,
        seriesId ∈ ids ↔
          ∃ labels,
            index.Live seriesId labels ∧
              matcher.accepts regex (valueOf labels name) = true := by
  constructor
  · rintro ⟨others, isOther, _, right⟩
    cases isResult.symm.trans isOther
    exact right
  · intro right
    exact ⟨ids, isResult, distinct, right⟩

theorem Clean.equal_iff (clean : index.Clean) (name value : String) :
    (∀ seriesId,
        seriesId ∈ index.lookup name value ↔
          ∃ labels, index.Live seriesId labels ∧ valueOf labels name = value) ↔
      value ≠ "" ∨ index.AllHave name := by
  have right :=
    @Clean.right_iff index clean name (fun other => other = value)
      (index.lookup name value) (by simp)
  simp only [decide_eq_true_eq, decide_eq_false_iff_not] at right
  rw [right, ne_comm]

theorem Clean.answersRight_iff
    (clean : index.Clean) (regex : RegexEngine) (name : String)
    (matcher : LabelMatcher) :
    index.AnswersRight regex name matcher ↔
      index.Decided regex name matcher := by
  cases matcher with
  | equal value =>
    rw [answersRight_iff_of_result (clean.exact.distinct name value) rfl]
    simp only [LabelMatcher.accepts, decide_eq_true_eq]
    exact clean.equal_iff name value
  | notEqual value =>
    rw [answersRight_iff_of_result (List.Nodup.filter _ index.seriesLabels.keys_nodup) rfl]
    simp only [LabelMatcher.accepts, decide_eq_true_eq]
    exact (clean.complement_iff name value).trans (clean.equal_iff name value)
  | regex pattern =>
    rw [Decided]
    cases compiled : regex pattern with
    | none =>
      refine iff_of_false ?_ (by simp)
      rintro ⟨ids, isResult, _⟩
      rw [lookupByMatcher, compiled] at isResult
      cases isResult
    | some isMatch =>
      have isResult :
          index.lookupByMatcher regex name (.regex pattern) =
            .ok (index.scan name isMatch) := by
        rw [lookupByMatcher, compiled]
      rw [answersRight_iff_of_result (clean.nodup_scan name isMatch) isResult]
      simpa [LabelMatcher.accepts, compiled] using
        clean.right_iff name isMatch fun _ => mem_scan
  | notRegex pattern =>
    rw [Decided]
    cases compiled : regex pattern with
    | none =>
      refine iff_of_false ?_ (by simp)
      rintro ⟨ids, isResult, _⟩
      rw [lookupByMatcher, compiled] at isResult
      cases isResult
    | some isMatch =>
      have isResult :
          index.lookupByMatcher regex name (.notRegex pattern) =
            .ok (index.scan name (!isMatch ·)) := by
        rw [lookupByMatcher, compiled]
      rw [answersRight_iff_of_result (clean.nodup_scan name _) isResult]
      simpa [LabelMatcher.accepts, compiled] using
        clean.right_iff name (!isMatch ·) fun _ => mem_scan

end Clean

/--
In every state of a run of clean steps, exactly when a lookup by a matcher agrees
with the matcher.
-/
theorem lookupByMatcher_iff_of_run {actions : List IndexCall}
    {final : InvertedIndex}
    (run : Run (Restrict IndexStep AddsCleanly) empty actions final)
    (regex : RegexEngine) (name : String) (matcher : LabelMatcher) :
    final.AnswersRight regex name matcher ↔ final.Decided regex name matcher :=
  (clean_of_run run).answersRight_iff regex name matcher

/-- An engine with one valid pattern, which accepts every value. -/
def acceptAll : RegexEngine := fun pattern =>
  if pattern = ".*" then some fun _ => true else none

theorem lookupByMatcher_right_for_host :
    (empty.perform (.addSeries 1 [⟨"host", "a"⟩])).AnswersRight acceptAll
      "host" (.notEqual "b") := by
  have run :
      Run (Restrict IndexStep AddsCleanly) empty
        [.addSeries 1 [⟨"host", "a"⟩]]
        (empty.perform (.addSeries 1 [⟨"host", "a"⟩])) :=
    .single ⟨⟨by decide, fun old live => by cases live⟩, rfl⟩
  exact (lookupByMatcher_iff_of_run run acceptAll "host"
    (.notEqual "b")).mpr (.inl (by decide))

/--
A series without labels is not found for an empty value, and an invalid pattern
ends in a panic.
-/
theorem lookupByMatcher_wrong_without_label :
    ¬(empty.perform (.addSeries 1 [])).AnswersRight acceptAll "host"
        (.equal "") ∧
      ¬(empty.perform (.addSeries 1 [])).AnswersRight acceptAll "host"
        (.regex "[") := by
  have live : (empty.perform (.addSeries 1 [])).Live 1 [] := rfl
  constructor
  · rintro ⟨ids, isResult, _, right⟩
    cases isResult
    exact absurd ((right 1).mpr ⟨[], live, rfl⟩) not_mem_nil
  · rintro ⟨ids, isResult, _⟩
    cases isResult

end InvertedIndex

end ChronoDB.Index
