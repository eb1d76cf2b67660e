import ChronoDB.Query.CheckedExecution

namespace ChronoDB.Query.Checked

/-!
# The cost-based optimizer

The optimizer leaves plans as they are, notes the rules that are enabled, and
estimates costs and rows.  The estimates divide by the resolutions of subqueries
and multiply rows in 64 bits, which can panic; they never return an error.
-/

structure OptimizerConfig where
  enablePredicatePushdown : Bool
  enableColumnPruning : Bool
  enableIndexSelection : Bool
  enableJoinReordering : Bool
  deriving Repr, DecidableEq

inductive OptimizationRule where
  | predicatePushdown
  | columnPruning
  | indexSelection
  | joinReordering
  | constantFolding
  | deadCodeElimination
  deriving Repr, DecidableEq

def OptimizerConfig.default : OptimizerConfig where
  enablePredicatePushdown := true
  enableColumnPruning := true
  enableIndexSelection := true
  enableJoinReordering := true

/-- The rules that are applied, in their order; the last two always are. -/
def OptimizerConfig.appliedRules (config : OptimizerConfig) :
    List OptimizationRule :=
  (if config.enablePredicatePushdown then [.predicatePushdown] else []) ++
    (if config.enableColumnPruning then [.columnPruning] else []) ++
    (if config.enableIndexSelection then [.indexSelection] else []) ++
    (if config.enableJoinReordering then [.joinReordering] else []) ++
    [.constantFolding, .deadCodeElimination]

structure CostModel (F : Type) where
  cpuCostFactor : F
  ioCostFactor : F
  networkCostFactor : F
  memoryCostFactor : F

section Estimates

variable {F : Type} (doubles : Doubles F)

def CostModel.default : CostModel F where
  cpuCostFactor := doubles.nearest 1
  ioCostFactor := doubles.nearest 10
  networkCostFactor := doubles.nearest 100
  memoryCostFactor := doubles.nearest 5

namespace CostModel

variable (model : CostModel F)

def calculateTableScanCost (rowCount : ℕ) : F :=
  doubles.mul model.ioCostFactor (doubles.nearest rowCount)

def calculateFilterCost (inputRows : ℕ) : F :=
  doubles.mul model.cpuCostFactor (doubles.nearest inputRows)

def calculateAggregationCost (inputRows outputRows : ℕ) : F :=
  doubles.add (doubles.mul model.cpuCostFactor (doubles.nearest inputRows))
    (doubles.mul model.memoryCostFactor (doubles.nearest outputRows))

def calculateJoinCost (leftRows rightRows : ℕ) : F :=
  doubles.mul (doubles.mul model.cpuCostFactor (doubles.nearest leftRows))
    (doubles.nearest rightRows)

/-- The cost of a call without the cost of its argument. -/
def functionCost (func : Function) : F :=
  match func with
  | .sum | .avg | .min | .max => model.calculateAggregationCost doubles 1000 1
  | _ => doubles.mul model.cpuCostFactor (doubles.nearest 1000)

end CostModel

/-- The steps of a subquery, as the cast of a quotient. -/
def estimatedSteps (range resolution : Int64) : Option ℕ :=
  (checkedDiv range resolution).map fun quotient => quotient.toUInt64.toNat

/-- A product of 64 bits without a sign; an overflow has no result. -/
def checkedRows (innerRows numSteps : ℕ) : Option ℕ :=
  if innerRows * numSteps < 2 ^ 64 then some (innerRows * numSteps) else none

mutual

def estimateRows : PlanType → Option ℕ
  | .vectorQuery _ => some 1000
  | .matrixQuery _ _ => some 1000
  | .call _ args _ _ => estimateFirstRows args
  | .binaryExpr _ lhs rhs => do
    let lhsRows ← estimatePartRows lhs
    let rhsRows ← estimatePartRows rhs
    some (min lhsRows rhsRows)
  | .unaryExpr _ expr => estimatePartRows expr
  | .aggregation _ expr _ _ => do
    let inputRows ← estimatePartRows expr
    some (max 1 (inputRows / 10))
  | .subquery expr range resolution => do
    let innerRows ← estimatePartRows expr
    let numSteps ← estimatedSteps range resolution
    checkedRows innerRows numSteps

def estimatePartRows : QueryPlan → Option ℕ
  | ⟨planType, _, _, _⟩ => estimateRows planType

/-- Only the first argument of a call is looked at. -/
def estimateFirstRows : List QueryPlan → Option ℕ
  | [] => some 1
  | arg :: _ => estimatePartRows arg

end

section Costs

variable (model : CostModel F)

mutual

def estimateCost : PlanType → Option F
  | .vectorQuery _ => some (model.calculateTableScanCost doubles 1000)
  | .matrixQuery _ _ => some (model.calculateTableScanCost doubles 1000)
  | .call func args _ _ => do
    let inputCost ← estimateFirstCost args
    some (doubles.add inputCost (model.functionCost doubles func))
  | .binaryExpr _ lhs rhs => do
    let lhsCost ← estimatePartCost lhs
    let rhsCost ← estimatePartCost rhs
    some
      (doubles.add (doubles.add lhsCost rhsCost)
        (model.calculateJoinCost doubles 1000 1000))
  | .unaryExpr _ expr => do
    let inputCost ← estimatePartCost expr
    some (doubles.add inputCost (model.calculateFilterCost doubles 1000))
  | .aggregation _ expr _ _ => do
    let inputCost ← estimatePartCost expr
    some
      (doubles.add inputCost (model.calculateAggregationCost doubles 1000 100))
  | .subquery expr range resolution => do
    let innerCost ← estimatePartCost expr
    let numSteps ← estimatedSteps range resolution
    some (doubles.mul innerCost (doubles.nearest numSteps))

def estimatePartCost : QueryPlan → Option F
  | ⟨planType, _, _, _⟩ => estimateCost planType

/-- Only the first argument of a call is looked at. -/
def estimateFirstCost : List QueryPlan → Option F
  | [] => some (doubles.nearest 0)
  | arg :: _ => estimatePartCost arg

end

end Costs

structure OptimizedPlan (F : Type) where
  originalPlan : QueryPlan
  optimizedPlanType : PlanType
  estimatedCost : F
  estimatedRows : ℕ
  appliedRules : List OptimizationRule

/-- `CostBasedOptimizer::optimize`; no result is a panic. -/
def CostBasedOptimizer.optimize (config : OptimizerConfig) (plan : QueryPlan) :
    Option (OptimizedPlan F) := do
  let estimatedCost ←
    estimateCost doubles (CostModel.default doubles) plan.planType
  let estimatedRows ← estimateRows plan.planType
  some {
    originalPlan := plan
    optimizedPlanType := plan.planType
    estimatedCost := estimatedCost
    estimatedRows := estimatedRows
    appliedRules := config.appliedRules
  }

end Estimates

/-!
## When plans can be estimated
-/

mutual

/-- The estimate of the rows in unbounded arithmetic. -/
def rowsOf : PlanType → ℕ
  | .vectorQuery _ | .matrixQuery _ _ => 1000
  | .call _ args _ _ => rowsOfFirst args
  | .binaryExpr _ lhs rhs => min (rowsOfPart lhs) (rowsOfPart rhs)
  | .unaryExpr _ expr => rowsOfPart expr
  | .aggregation _ expr _ _ => max 1 (rowsOfPart expr / 10)
  | .subquery expr range resolution =>
    rowsOfPart expr * (range / resolution).toUInt64.toNat

def rowsOfPart : QueryPlan → ℕ
  | ⟨planType, _, _, _⟩ => rowsOf planType

def rowsOfFirst : List QueryPlan → ℕ
  | [] => 1
  | arg :: _ => rowsOfPart arg

end

/-- A quotient of times that is defined and fits into 64 bits. -/
def QuotientFits (left right : Int64) : Prop :=
  right ≠ 0 ∧ ¬(left = Int64.minValue ∧ right = -1)

theorem checkedDiv_eq_some_iff {left right quotient : Int64} :
    checkedDiv left right = some quotient ↔
      QuotientFits left right ∧ left / right = quotient := by
  rw [checkedDiv, QuotientFits, ← not_or]
  split
  · rename_i fails
    simp [fails]
  · rename_i fits
    simp [fits]

mutual

/-- The subqueries that the optimizer looks at have steps and rows to count. -/
def EstimateFits : PlanType → Prop
  | .vectorQuery _ | .matrixQuery _ _ => True
  | .call _ args _ _ => FirstEstimateFits args
  | .binaryExpr _ lhs rhs => PartEstimateFits lhs ∧ PartEstimateFits rhs
  | .unaryExpr _ expr => PartEstimateFits expr
  | .aggregation _ expr _ _ => PartEstimateFits expr
  | .subquery expr range resolution =>
    PartEstimateFits expr ∧ QuotientFits range resolution ∧
      rowsOfPart expr * (range / resolution).toUInt64.toNat < 2 ^ 64

def PartEstimateFits : QueryPlan → Prop
  | ⟨planType, _, _, _⟩ => EstimateFits planType

def FirstEstimateFits : List QueryPlan → Prop
  | [] => True
  | arg :: _ => PartEstimateFits arg

end

theorem estimatedSteps_eq_some_iff {range resolution : Int64} {numSteps : ℕ} :
    estimatedSteps range resolution = some numSteps ↔
      QuotientFits range resolution ∧
        (range / resolution).toUInt64.toNat = numSteps := by
  simp only [estimatedSteps, Option.map_eq_some_iff, checkedDiv_eq_some_iff]
  constructor
  · rintro ⟨quotient, ⟨fits, rfl⟩, isSteps⟩
    exact ⟨fits, isSteps⟩
  · rintro ⟨fits, isSteps⟩
    exact ⟨_, ⟨fits, rfl⟩, isSteps⟩

theorem checkedRows_eq_some_iff {innerRows numSteps rows : ℕ} :
    checkedRows innerRows numSteps = some rows ↔
      innerRows * numSteps < 2 ^ 64 ∧ innerRows * numSteps = rows := by
  rw [checkedRows]
  split
  · rename_i fits
    simp only [fits, true_and, Option.some.injEq]
  · rename_i overflows
    simp only [overflows, false_and, reduceCtorEq]

mutual

theorem estimateRows_eq_some_iff :
    ∀ (plan : PlanType) (rows : ℕ),
      estimateRows plan = some rows ↔ EstimateFits plan ∧ rowsOf plan = rows
  | .vectorQuery _, rows => by
    simp [estimateRows, EstimateFits, rowsOf]
  | .matrixQuery _ _, rows => by
    simp [estimateRows, EstimateFits, rowsOf]
  | .call _ args _ _, rows => by
    rw [estimateRows, EstimateFits, rowsOf]
    exact estimateFirstRows_eq_some_iff args rows
  | .binaryExpr _ lhs rhs, rows => by
    simp only [estimateRows, EstimateFits, rowsOf, bind,
      Option.bind_eq_some_iff, estimatePartRows_eq_some_iff]
    constructor
    · rintro ⟨_, ⟨lhsFits, rfl⟩, _, ⟨rhsFits, rfl⟩, isRows⟩
      exact ⟨⟨lhsFits, rhsFits⟩, Option.some.inj isRows⟩
    · rintro ⟨⟨lhsFits, rhsFits⟩, rfl⟩
      exact ⟨_, ⟨lhsFits, rfl⟩, _, ⟨rhsFits, rfl⟩, rfl⟩
  | .unaryExpr _ expr, rows => by
    rw [estimateRows, EstimateFits, rowsOf]
    exact estimatePartRows_eq_some_iff expr rows
  | .aggregation _ expr _ _, rows => by
    simp only [estimateRows, EstimateFits, rowsOf, bind,
      Option.bind_eq_some_iff, estimatePartRows_eq_some_iff]
    constructor
    · rintro ⟨_, ⟨fits, rfl⟩, isRows⟩
      exact ⟨fits, Option.some.inj isRows⟩
    · rintro ⟨fits, rfl⟩
      exact ⟨_, ⟨fits, rfl⟩, rfl⟩
  | .subquery expr range resolution, rows => by
    simp only [estimateRows, EstimateFits, rowsOf, bind,
      Option.bind_eq_some_iff, estimatePartRows_eq_some_iff,
      estimatedSteps_eq_some_iff, checkedRows_eq_some_iff]
    constructor
    · rintro ⟨_, ⟨fits, rfl⟩, _, ⟨stepsFit, rfl⟩, rowsFit, isRows⟩
      exact ⟨⟨fits, stepsFit, rowsFit⟩, isRows⟩
    · rintro ⟨⟨fits, stepsFit, rowsFit⟩, isRows⟩
      exact ⟨_, ⟨fits, rfl⟩, _, ⟨stepsFit, rfl⟩, rowsFit, isRows⟩

theorem estimatePartRows_eq_some_iff :
    ∀ (part : QueryPlan) (rows : ℕ),
      estimatePartRows part = some rows ↔
        PartEstimateFits part ∧ rowsOfPart part = rows
  | ⟨planType, _, _, _⟩, rows => by
    rw [estimatePartRows, PartEstimateFits, rowsOfPart]
    exact estimateRows_eq_some_iff planType rows

theorem estimateFirstRows_eq_some_iff :
    ∀ (args : List QueryPlan) (rows : ℕ),
      estimateFirstRows args = some rows ↔
        FirstEstimateFits args ∧ rowsOfFirst args = rows
  | [], rows => by
    simp [estimateFirstRows, FirstEstimateFits, rowsOfFirst]
  | arg :: _, rows => by
    rw [estimateFirstRows, FirstEstimateFits, rowsOfFirst]
    exact estimatePartRows_eq_some_iff arg rows

end

section Costs

variable {F : Type} (doubles : Doubles F) (model : CostModel F)

mutual

theorem exists_estimateCost :
    ∀ plan : PlanType,
      EstimateFits plan → ∃ cost, estimateCost doubles model plan = some cost
  | .vectorQuery _, _ => ⟨_, by rw [estimateCost]⟩
  | .matrixQuery _ _, _ => ⟨_, by rw [estimateCost]⟩
  | .call _ args _ _, fits => by
    rw [EstimateFits] at fits
    obtain ⟨cost, isCost⟩ := exists_estimateFirstCost args fits
    exact ⟨_, by rw [estimateCost, isCost]; rfl⟩
  | .binaryExpr _ lhs rhs, fits => by
    rw [EstimateFits] at fits
    obtain ⟨lhsCost, isLhsCost⟩ := exists_estimatePartCost lhs fits.1
    obtain ⟨rhsCost, isRhsCost⟩ := exists_estimatePartCost rhs fits.2
    exact ⟨_, by rw [estimateCost, isLhsCost, isRhsCost]; rfl⟩
  | .unaryExpr _ expr, fits => by
    rw [EstimateFits] at fits
    obtain ⟨cost, isCost⟩ := exists_estimatePartCost expr fits
    exact ⟨_, by rw [estimateCost, isCost]; rfl⟩
  | .aggregation _ expr _ _, fits => by
    rw [EstimateFits] at fits
    obtain ⟨cost, isCost⟩ := exists_estimatePartCost expr fits
    exact ⟨_, by rw [estimateCost, isCost]; rfl⟩
  | .subquery expr range resolution, fits => by
    rw [EstimateFits] at fits
    obtain ⟨cost, isCost⟩ := exists_estimatePartCost expr fits.1
    have isSteps := estimatedSteps_eq_some_iff.mpr ⟨fits.2.1, rfl⟩
    exact ⟨_, by rw [estimateCost, isCost, isSteps]; rfl⟩

theorem exists_estimatePartCost :
    ∀ part : QueryPlan,
      PartEstimateFits part →
        ∃ cost, estimatePartCost doubles model part = some cost
  | ⟨planType, _, _, _⟩, fits => by
    rw [PartEstimateFits] at fits
    rw [estimatePartCost]
    exact exists_estimateCost planType fits

theorem exists_estimateFirstCost :
    ∀ args : List QueryPlan,
      FirstEstimateFits args →
        ∃ cost, estimateFirstCost doubles model args = some cost
  | [], _ => ⟨_, by rw [estimateFirstCost]⟩
  | arg :: _, fits => by
    rw [FirstEstimateFits] at fits
    rw [estimateFirstCost]
    exact exists_estimatePartCost arg fits

end

theorem CostBasedOptimizer.optimize_isSome_iff
    (config : OptimizerConfig) (plan : QueryPlan) :
    (CostBasedOptimizer.optimize doubles config plan).isSome ↔
      EstimateFits plan.planType := by
  constructor
  · intro returns
    obtain ⟨optimized, isOptimized⟩ := Option.isSome_iff_exists.mp returns
    obtain ⟨cost, _, isOptimized⟩ := Option.bind_eq_some_iff.mp isOptimized
    obtain ⟨rows, isRows, _⟩ := Option.bind_eq_some_iff.mp isOptimized
    exact ((estimateRows_eq_some_iff plan.planType rows).mp isRows).1
  · intro fits
    obtain ⟨cost, isCost⟩ :=
      exists_estimateCost doubles (CostModel.default doubles) plan.planType fits
    have isRows := (estimateRows_eq_some_iff plan.planType _).mpr ⟨fits, rfl⟩
    rw [CostBasedOptimizer.optimize, isCost, isRows]
    rfl

end Costs

end ChronoDB.Query.Checked
