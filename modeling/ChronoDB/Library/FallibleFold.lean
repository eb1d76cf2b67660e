import Mathlib.Data.List.Basic

namespace ChronoDB.Library

/-!
# Sequences and folds that can fail

A sequence succeeds when its parts do.  A fold whose step either fails or
appends to a list that can be read off its state appends, in order, what every
item contributes.  It succeeds exactly when no item makes the step fail, if the
state has no part in that.  What every step keeps, it keeps.
-/

theorem bind_eq_ok_iff
    {First Second Fault : Type} {outcome : Except Fault First}
    {next : First → Except Fault Second} {result : Second} :
    outcome >>= next = .ok result ↔
      ∃ first, outcome = .ok first ∧ next first = .ok result := by
  cases outcome with
  | error fault => simp [bind, Except.bind]
  | ok first => simp [bind, Except.bind]

theorem mapM_isSome_iff {Source Result : Type} {step : Source → Option Result}
    {items : List Source} :
    (items.mapM step).isSome ↔ ∀ item ∈ items, (step item).isSome := by
  induction items with
  | nil => simp
  | cons first rest inductionHypothesis =>
    rw [List.mapM_cons, List.forall_mem_cons, ← inductionHypothesis]
    cases step first with
    | none => simp
    | some result => cases rest.mapM step <;> simp

variable {State Item Part Fault : Type}
variable {step : State → Item → Except Fault State}

theorem foldlM_appends
    {view : State → List Part} {contributed : Item → List Part}
    (stepAppends :
      ∀ {before : State} {item : Item} {after : State},
        step before item = .ok after →
          view after = view before ++ contributed item)
    {start final : State} {items : List Item}
    (folded : items.foldlM step start = .ok final) :
    view final = view start ++ items.flatMap contributed := by
  induction items generalizing start with
  | nil =>
    cases folded
    simp
  | cons first rest inductionHypothesis =>
    rw [List.foldlM_cons] at folded
    cases taken : step start first with
    | error fault =>
      rw [taken] at folded
      cases folded
    | ok middle =>
      rw [taken] at folded
      rw [inductionHypothesis folded, stepAppends taken,
        List.flatMap_cons, List.append_assoc]

theorem foldlM_preserves {Good : State → Prop} {items : List Item}
    (stepKeeps :
      ∀ before, ∀ item ∈ items, ∀ after,
        Good before → step before item = .ok after → Good after)
    {start final : State} (good : Good start)
    (folded : items.foldlM step start = .ok final) :
    Good final := by
  induction items generalizing start with
  | nil =>
    cases folded
    exact good
  | cons first rest inductionHypothesis =>
    rw [List.foldlM_cons] at folded
    cases taken : step start first with
    | error fault =>
      rw [taken] at folded
      cases folded
    | ok middle =>
      rw [taken] at folded
      exact inductionHypothesis
        (fun before item member =>
          stepKeeps before item (List.mem_cons_of_mem _ member))
        (stepKeeps start first List.mem_cons_self middle good taken)
        folded

theorem exists_foldlM_iff {fine : Item → Prop}
    (stepFine :
      ∀ before item, (∃ after, step before item = .ok after) ↔ fine item)
    (start : State) (items : List Item) :
    (∃ final, items.foldlM step start = .ok final) ↔
      ∀ item ∈ items, fine item := by
  induction items generalizing start with
  | nil => exact iff_of_true ⟨start, rfl⟩ nofun
  | cons first rest inductionHypothesis =>
    rw [List.foldlM_cons, List.forall_mem_cons, ← stepFine start first]
    cases taken : step start first with
    | error fault =>
      refine iff_of_false ?_ ?_
      · rintro ⟨_, folded⟩
        cases folded
      · rintro ⟨⟨_, impossible⟩, _⟩
        cases impossible
    | ok middle =>
      exact (inductionHypothesis middle).trans
        (and_iff_right ⟨middle, rfl⟩).symm

end ChronoDB.Library
