import Mathlib.Data.List.Basic

namespace ChronoDB.Library

/-!
# Runs of a labelled transition relation

A run is a finite sequence of steps.  An invariant that every step keeps holds
at the end of every run, and since every prefix of a run is a run, in every
state a run passes through.  A transition relation can be restricted to the
steps that meet a condition on the state before them.
-/

variable {State Action : Type}

/-- A finite sequence of steps with its list of actions. -/
inductive Run (step : State → Action → State → Prop) :
    State → List Action → State → Prop where
  | nil (state : State) :
      Run step state [] state
  | cons
      {initial middle final : State}
      {action : Action}
      {rest : List Action}
      (first : step initial action middle)
      (later : Run step middle rest final) :
      Run step initial (action :: rest) final

namespace Run

variable {step : State → Action → State → Prop}

theorem single {initial final : State} {action : Action}
    (first : step initial action final) :
    Run step initial [action] final :=
  .cons first (.nil final)

theorem append {initial middle final : State} {leading trailing : List Action}
    (first : Run step initial leading middle)
    (later : Run step middle trailing final) :
    Run step initial (leading ++ trailing) final := by
  induction first with
  | nil state => exact later
  | cons head tail inductionHypothesis =>
    exact .cons head (inductionHypothesis later)

/-- A run is a run of its first actions, then one of the others. -/
theorem split {initial final : State} {leading trailing : List Action}
    (run : Run step initial (leading ++ trailing) final) :
    ∃ middle,
      Run step initial leading middle ∧ Run step middle trailing final := by
  induction leading generalizing initial with
  | nil => exact ⟨initial, .nil initial, run⟩
  | cons action rest inductionHypothesis =>
    cases run with
    | cons first later =>
      obtain ⟨middle, leadingRun, trailingRun⟩ := inductionHypothesis later
      exact ⟨middle, .cons first leadingRun, trailingRun⟩

theorem preserves {Invariant : State → Prop}
    (stepPreserves :
      ∀ {before action after},
        Invariant before →
        step before action after →
        Invariant after)
    {initial final : State} {actions : List Action}
    (run : Run step initial actions final) (holds : Invariant initial) :
    Invariant final := by
  induction run with
  | nil state => exact holds
  | cons first later inductionHypothesis =>
    exact inductionHypothesis (stepPreserves holds first)

theorem relates
    {Related : State → State → Prop} (refl : ∀ state, Related state state)
    (trans :
      ∀ {first second third},
        Related first second →
        Related second third →
        Related first third)
    (stepRelates :
      ∀ {before action after}, step before action after → Related before after)
    {initial final : State} {actions : List Action}
    (run : Run step initial actions final) :
    Related initial final := by
  induction run with
  | nil state => exact refl state
  | cons first later inductionHypothesis =>
    exact trans (stepRelates first) inductionHypothesis

theorem unique
    (functional :
      ∀ {before action first second},
        step before action first →
        step before action second →
        first = second)
    {initial first second : State} {actions : List Action}
    (firstRun : Run step initial actions first)
    (secondRun : Run step initial actions second) :
    first = second := by
  induction firstRun with
  | nil state =>
    cases secondRun
    rfl
  | cons head tail inductionHypothesis =>
    cases secondRun with
    | cons otherHead otherTail =>
      apply inductionHypothesis
      rwa [functional head otherHead]

theorem holdsInitially
    {Valid Holds : State → Prop} {initial final : State} {actions : List Action}
    (run : Run step initial actions final)
    (validStep :
      ∀ {before action after},
        Valid before →
        step before action after →
        Valid after)
    (holdsBefore :
      ∀ {before action after},
        Valid before →
        step before action after →
        Holds after →
        Holds before)
    (valid : Valid initial) (holdsFinal : Holds final) :
    Holds initial := by
  induction run with
  | nil state => exact holdsFinal
  | cons first later inductionHypothesis =>
    exact holdsBefore valid first
      (inductionHypothesis (validStep valid first) holdsFinal)

end Run

theorem Run.ofFoldlM {step : State → Action → State → Prop}
    {next : State → Action → Option State}
    (sound :
      ∀ {before action after},
        next before action = some after → step before action after)
    {initial final : State} {actions : List Action}
    (folded : actions.foldlM next initial = some final) :
    Run step initial actions final := by
  induction actions generalizing initial with
  | nil =>
    cases folded
    exact .nil final
  | cons action rest inductionHypothesis =>
    rw [List.foldlM_cons] at folded
    obtain ⟨middle, first, later⟩ := Option.bind_eq_some_iff.mp folded
    exact .cons (sound first) (inductionHypothesis later)

theorem Run.ofFoldl
    {step : State → Action → State → Prop} {next : State → Action → State}
    (taken : ∀ state action, step state action (next state action))
    (actions : List Action) (initial : State) :
    Run step initial actions (actions.foldl next initial) := by
  induction actions generalizing initial with
  | nil => exact .nil initial
  | cons action rest inductionHypothesis =>
    exact .cons (taken initial action) (inductionHypothesis _)

/-- The actions meet a condition on the states that a function passes. -/
def Along (next : State → Action → State) (allowed : State → Action → Prop) :
    State → List Action → Prop
  | _, [] => True
  | state, action :: rest =>
    allowed state action ∧ Along next allowed (next state action) rest

theorem Run.ofAlong
    {step : State → Action → State → Prop} {next : State → Action → State}
    {allowed : State → Action → Prop}
    (taken :
      ∀ {state action},
        allowed state action → step state action (next state action))
    {initial : State} {actions : List Action}
    (along : Along next allowed initial actions) :
    Run step initial actions (actions.foldl next initial) := by
  induction actions generalizing initial with
  | nil => exact .nil initial
  | cons action rest inductionHypothesis =>
    exact .cons (taken along.1) (inductionHypothesis along.2)

/-- The steps of a relation whose state before the step meets a condition. -/
def Restrict
    (step : State → Action → State → Prop) (allowed : State → Action → Prop) :
    State → Action → State → Prop :=
  fun before action after =>
    allowed before action ∧ step before action after

theorem Run.ofRestrict
    {step : State → Action → State → Prop} {allowed : State → Action → Prop}
    {initial final : State} {actions : List Action}
    (run : Run (Restrict step allowed) initial actions final) :
    Run step initial actions final := by
  induction run with
  | nil state => exact .nil state
  | cons first later inductionHypothesis =>
    exact .cons first.2 inductionHypothesis

/--
When a property is lost for good by the first step that violates a condition,
and kept by the steps that meet it, a run ends with the property exactly when
all of its steps meet the condition.
-/
theorem Run.holds_iff_restrict
    {step : State → Action → State → Prop} {allowed : State → Action → Prop}
    {Valid Invariant Holds : State → Prop} {initial final : State}
    {actions : List Action} (run : Run step initial actions final)
    (holds : Invariant initial)
    (invariantHolds :
      ∀ {state}, Invariant state → Valid state ∧ Holds state)
    (validStep :
      ∀ {before action after},
        Valid before →
        step before action after →
        Valid after)
    (stepPreserves :
      ∀ {before action after},
        Invariant before →
        allowed before action →
        step before action after →
        Invariant after)
    (stepAllowed :
      ∀ {before action after},
        Invariant before →
        step before action after →
        Holds after →
        allowed before action)
    (holdsBefore :
      ∀ {before action after},
        Valid before →
        step before action after →
        Holds after →
        Holds before) :
    Holds final ↔ Run (Restrict step allowed) initial actions final := by
  constructor
  · intro holdsFinal
    induction run with
    | nil state => exact .nil state
    | cons first later inductionHypothesis =>
      have validMiddle := validStep (invariantHolds holds).1 first
      have holdsMiddle :=
        later.holdsInitially validStep holdsBefore validMiddle holdsFinal
      have allowedFirst := stepAllowed holds first holdsMiddle
      exact .cons ⟨allowedFirst, first⟩
        (inductionHypothesis
          (stepPreserves holds allowedFirst first) holdsFinal)
  · intro restricted
    have invariantFinal : Invariant final := by
      refine restricted.preserves ?_ holds
      intro before action after invariant allowedStep
      exact stepPreserves invariant allowedStep.1 allowedStep.2
    exact (invariantHolds invariantFinal).2

/--
When a step ends with a property exactly when it starts with it and meets a
condition, a run from a state with the property ends with it exactly when all
of its steps meet the condition.
-/
theorem Run.holds_iff_restrict_of_step
    {step : State → Action → State → Prop} {allowed : State → Action → Prop}
    {Valid Holds : State → Prop} {initial final : State} {actions : List Action}
    (run : Run step initial actions final) (valid : Valid initial)
    (holds : Holds initial)
    (stepHolds :
      ∀ {before action after},
        Valid before →
        step before action after →
        Valid after ∧ (Holds after ↔ Holds before ∧ allowed before action)) :
    Holds final ↔ Run (Restrict step allowed) initial actions final := by
  refine
    @Run.holds_iff_restrict _ _ step allowed Valid
      (fun state => Valid state ∧ Holds state) Holds _ _ _ run
      ⟨valid, holds⟩ id ?_ ?_ ?_ ?_
  · intro before action after validBefore taken
    exact (stepHolds validBefore taken).1
  · intro before action after invariant meets taken
    obtain ⟨validAfter, holdsIff⟩ := stepHolds invariant.1 taken
    exact ⟨validAfter, holdsIff.mpr ⟨invariant.2, meets⟩⟩
  · intro before action after invariant taken holdsAfter
    exact ((stepHolds invariant.1 taken).2.mp holdsAfter).2
  · intro before action after validBefore taken holdsAfter
    exact ((stepHolds validBefore taken).2.mp holdsAfter).1

/--
When a step from a state with a property ends with it exactly when it meets a
condition, a run of a deterministic relation stays in states with the property
exactly when all of its steps meet the condition.
-/
theorem Run.always_iff_restrict
    {step : State → Action → State → Prop} {allowed : State → Action → Prop}
    {Valid Holds : State → Prop} {initial final : State} {actions : List Action}
    (run : Run step initial actions final)
    (deterministic :
      ∀ {before action after other},
        step before action after → step before action other → after = other)
    (valid : Valid initial) (holds : Holds initial)
    (stepHolds :
      ∀ {before action after},
        Valid before →
        Holds before →
        step before action after →
        Valid after ∧ (Holds after ↔ allowed before action)) :
    (∀ passed remaining middle,
        actions = passed ++ remaining →
          Run step initial passed middle → Holds middle) ↔
      Run (Restrict step allowed) initial actions final := by
  induction run with
  | nil state =>
    refine iff_of_true ?_ (.nil state)
    intro passed remaining middle isPassed reached
    obtain ⟨rfl, _⟩ := List.append_eq_nil_iff.mp isPassed.symm
    cases reached
    exact holds
  | cons first later inductionHypothesis =>
    obtain ⟨validMiddle, holdsIff⟩ := stepHolds valid holds first
    constructor
    · intro always
      have holdsMiddle := always [_] _ _ rfl (.single first)
      refine .cons ⟨holdsIff.mp holdsMiddle, first⟩
        ((inductionHypothesis validMiddle holdsMiddle).mp ?_)
      intro passed remaining middle isPassed reached
      refine always (_ :: passed) remaining middle ?_ (.cons first reached)
      rw [isPassed, List.cons_append]
    · intro restricted passed remaining middle isPassed reached
      cases restricted with
      | cons allowedStep restrictedLater =>
        obtain ⟨meets, taken⟩ := allowedStep
        cases deterministic taken first
        have holdsMiddle := holdsIff.mpr meets
        cases reached with
        | nil state => exact holds
        | cons firstTaken reachedLater =>
          obtain ⟨rfl, isRest⟩ := List.cons.inj isPassed
          cases deterministic firstTaken first
          exact
            (inductionHypothesis validMiddle holdsMiddle).mpr
              restrictedLater _ remaining middle isRest reachedLater

/--
When a step from a state with a property keeps to a relation exactly when it
meets a condition, and then ends with the property, all steps of a run of a
deterministic relation keep to the relation exactly when they meet the condition.
-/
theorem Run.steps_iff_restrict
    {step : State → Action → State → Prop} {allowed : State → Action → Prop}
    {Valid Holds : State → Prop} {Keeps : State → State → Prop}
    {initial final : State} {actions : List Action}
    (run : Run step initial actions final)
    (deterministic :
      ∀ {before action after other},
        step before action after → step before action other → after = other)
    (valid : Valid initial) (holds : Holds initial)
    (stepKeeps :
      ∀ {before action after},
        Valid before →
        Holds before →
        step before action after →
        Valid after ∧
          (Keeps before after ↔ allowed before action) ∧
          (Keeps before after → Holds after)) :
    (∀ passed action remaining before after,
        actions = passed ++ action :: remaining →
          Run step initial passed before →
          step before action after →
          Keeps before after) ↔
      Run (Restrict step allowed) initial actions final := by
  induction run with
  | nil state =>
    refine iff_of_true ?_ (.nil state)
    intro passed action remaining before after isPassed
    simp at isPassed
  | cons first later inductionHypothesis =>
    obtain ⟨validMiddle, keepsIff, keepsHolds⟩ := stepKeeps valid holds first
    constructor
    · intro always
      have keeps := always [] _ _ _ _ rfl (.nil _) first
      refine .cons ⟨keepsIff.mp keeps, first⟩
        ((inductionHypothesis validMiddle (keepsHolds keeps)).mp ?_)
      intro passed action remaining before after isPassed reached taken
      refine always (_ :: passed) action remaining before after ?_
        (.cons first reached) taken
      rw [isPassed, List.cons_append]
    · intro restricted passed action remaining before after isPassed
        reached taken
      cases restricted with
      | cons allowedStep restrictedLater =>
        obtain ⟨meets, firstTaken⟩ := allowedStep
        cases deterministic firstTaken first
        have keeps := keepsIff.mpr meets
        cases reached with
        | nil state =>
          obtain ⟨rfl, _⟩ := List.cons.inj isPassed
          cases deterministic taken first
          exact keeps
        | cons firstAgain reachedLater =>
          obtain ⟨rfl, isRest⟩ := List.cons.inj isPassed
          cases deterministic firstAgain first
          exact
            (inductionHypothesis validMiddle (keepsHolds keeps)).mpr
              restrictedLater _ action remaining before after isRest
              reachedLater taken

/--
When a step from a state with a property keeps it and extends a relation
exactly when it meets a condition, a run of a deterministic relation relates
each of its states to all later ones exactly when all of its steps meet the
condition.
-/
theorem Run.related_iff_restrict
    {step : State → Action → State → Prop} {allowed : State → Action → Prop}
    {Holds : State → Prop} {Related : State → State → Prop}
    {initial final : State} {actions : List Action}
    (run : Run step initial actions final)
    (deterministic :
      ∀ {before action after other},
        step before action after → step before action other → after = other)
    (refl : ∀ state, Related state state)
    (trans :
      ∀ {first second third},
        Related first second → Related second third → Related first third)
    (holds : Holds initial)
    (stepHolds :
      ∀ {before action after},
        Holds before →
        step before action after →
        (Related before after ∧ Holds after ↔ allowed before action)) :
    (∀ passed between remaining earlier later,
        actions = passed ++ (between ++ remaining) →
          Run step initial passed earlier →
          Run step earlier between later →
          Related earlier later ∧ Holds later) ↔
      Run (Restrict step allowed) initial actions final := by
  constructor
  · intro always
    induction run with
    | nil state => exact .nil state
    | cons first later inductionHypothesis =>
      have kept := always [] [_] _ _ _ rfl (.nil _) (.single first)
      refine .cons ⟨(stepHolds holds first).mp kept, first⟩
        (inductionHypothesis kept.2 ?_)
      intro passed between remaining earlier last isPassed reached goesOn
      refine always (_ :: passed) between remaining earlier last ?_
        (.cons first reached) goesOn
      rw [isPassed, List.cons_append]
  · rintro restricted passed between remaining earlier later rfl reached
      goesOn
    have stepKeeps :
        ∀ {before action after},
          Restrict step allowed before action after →
          Holds before → Related before after ∧ Holds after :=
      fun taken holdsBefore => (stepHolds holdsBefore taken.2).mpr taken.1
    have runKeeps :
        ∀ {before after taken},
          Run (Restrict step allowed) before taken after →
          Holds before → Related before after ∧ Holds after := by
      intro before after taken steps
      refine
        @Run.relates _ _ _
          (fun before after => Holds before → Related before after ∧ Holds after)
          (fun state holdsState => ⟨refl state, holdsState⟩) ?_ stepKeeps
          _ _ _ steps
      intro first second third firstKeeps secondKeeps holdsFirst
      have toSecond := firstKeeps holdsFirst
      have toThird := secondKeeps toSecond.2
      exact ⟨trans toSecond.1 toThird.1, toThird.2⟩
    obtain ⟨sameEarlier, reachedAgain, rest⟩ := restricted.split
    obtain ⟨sameLater, goesOnAgain, _⟩ := rest.split
    cases
      @Run.unique _ _ step deterministic _ _ _ _ reachedAgain.ofRestrict reached
    cases
      @Run.unique _ _ step deterministic _ _ _ _ goesOnAgain.ofRestrict goesOn
    exact runKeeps goesOnAgain (runKeeps reachedAgain holds).2

end ChronoDB.Library
