import ChronoDB.Model.Types

namespace ChronoDB.Query

/-!
# Query expressions

The syntax tree of queries.  The parser produces selectors, subqueries, calls
and aggregations; the other expressions only occur in trees that are built by
hand.
-/

inductive Function where
  | sum
  | avg
  | min
  | max
  | count
  | stddev
  | stdvar
  | topK
  | bottomK
  | quantile
  | countValues
  | rate
  | irate
  | increase
  | delta
  | idelta
  | deriv
  | predictLinear
  | holtWinters
  | resets
  | changes
  | abs
  | ceil
  | floor
  | exp
  | ln
  | log2
  | log10
  | sqrt
  | round
  | sin
  | cos
  | tan
  | asin
  | acos
  | atan
  | sinh
  | cosh
  | tanh
  | asinh
  | acosh
  | atanh
  | deg
  | rad
  | time
  | timestamp
  | dayOfMonth
  | dayOfWeek
  | daysInMonth
  | hour
  | minute
  | month
  | year
  | labelReplace
  | labelJoin
  | sort
  | sortDesc
  | clamp
  | clampMax
  | clampMin
  | absent
  | absentOverTime
  | presentOverTime
  | scalar
  | vector
  | histogramQuantile
  | custom (name : String)
  deriving Repr, DecidableEq

namespace Function

def name : Function → String
  | sum => "sum"
  | avg => "avg"
  | min => "min"
  | max => "max"
  | count => "count"
  | stddev => "stddev"
  | stdvar => "stdvar"
  | topK => "topk"
  | bottomK => "bottomk"
  | quantile => "quantile"
  | countValues => "count_values"
  | rate => "rate"
  | irate => "irate"
  | increase => "increase"
  | delta => "delta"
  | idelta => "idelta"
  | deriv => "deriv"
  | predictLinear => "predict_linear"
  | holtWinters => "holt_winters"
  | resets => "resets"
  | changes => "changes"
  | abs => "abs"
  | ceil => "ceil"
  | floor => "floor"
  | exp => "exp"
  | ln => "ln"
  | log2 => "log2"
  | log10 => "log10"
  | sqrt => "sqrt"
  | round => "round"
  | sin => "sin"
  | cos => "cos"
  | tan => "tan"
  | asin => "asin"
  | acos => "acos"
  | atan => "atan"
  | sinh => "sinh"
  | cosh => "cosh"
  | tanh => "tanh"
  | asinh => "asinh"
  | acosh => "acosh"
  | atanh => "atanh"
  | deg => "deg"
  | rad => "rad"
  | time => "time"
  | timestamp => "timestamp"
  | dayOfMonth => "day_of_month"
  | dayOfWeek => "day_of_week"
  | daysInMonth => "days_in_month"
  | hour => "hour"
  | minute => "minute"
  | month => "month"
  | year => "year"
  | labelReplace => "label_replace"
  | labelJoin => "label_join"
  | sort => "sort"
  | sortDesc => "sort_desc"
  | clamp => "clamp"
  | clampMax => "clamp_max"
  | clampMin => "clamp_min"
  | absent => "absent"
  | absentOverTime => "absent_over_time"
  | presentOverTime => "present_over_time"
  | scalar => "scalar"
  | vector => "vector"
  | histogramQuantile => "histogram_quantile"
  | custom name => name

/-- The functions that have a name of their own. -/
def builtin : List Function :=
  [.sum, .avg, .min, .max, .count, .stddev, .stdvar, .topK, .bottomK,
    .quantile, .countValues, .rate, .irate, .increase, .delta, .idelta,
    .deriv, .predictLinear, .holtWinters, .resets, .changes, .abs, .ceil,
    .floor, .exp, .ln, .log2, .log10, .sqrt, .round, .sin, .cos, .tan, .asin,
    .acos, .atan, .sinh, .cosh, .tanh, .asinh, .acosh, .atanh, .deg, .rad,
    .time, .timestamp, .dayOfMonth, .dayOfWeek, .daysInMonth, .hour, .minute,
    .month, .year, .labelReplace, .labelJoin, .sort, .sortDesc, .clamp,
    .clampMax, .clampMin, .absent, .absentOverTime, .presentOverTime, .scalar,
    .vector, .histogramQuantile]

/-- The function with a name; each built-in function is read by its own name. -/
def fromName (name : String) : Option Function :=
  builtin.find? fun function => function.name == name

/-- `is_aggregation_function` of the parser. -/
def isAggregationFunction : Function → Bool
  | sum | avg | min | max | count | stddev | stdvar | topK | bottomK
  | quantile | countValues => true
  | _ => false

end Function

inductive MatchOp where
  | equal
  | notEqual
  | regexMatch
  | regexNotMatch
  | regex
  | notRegex
  deriving Repr, DecidableEq

/-- How a match operator is displayed. -/
def MatchOp.display : MatchOp → String
  | equal => "="
  | notEqual => "!="
  | regexMatch => "=~"
  | regexNotMatch => "!~"
  | regex => "=~"
  | notRegex => "!~"

structure Matcher where
  name : String
  value : String
  op : MatchOp
  deriving Repr, DecidableEq

def Matcher.eq (name value : String) : Matcher where
  name := name
  value := value
  op := .equal

structure AtModifier where
  timestamp : Int64
  deriving Repr, DecidableEq

structure VectorSelector where
  name : Option String
  matchers : List Matcher
  offset : Option Int64
  atModifier : Option AtModifier
  deriving Repr, DecidableEq

structure MatrixSelector where
  vectorSelector : VectorSelector
  range : Int64
  deriving Repr, DecidableEq

inductive UnaryOp where
  | add
  | sub
  deriving Repr, DecidableEq

inductive BinaryOp where
  | add
  | sub
  | mul
  | div
  | mod
  | pow
  | eq
  | ne
  | lt
  | le
  | gt
  | ge
  | and
  | or
  | unless
  deriving Repr, DecidableEq

inductive Expr where
  | vectorSelector (selector : VectorSelector)
  | matrixSelector (selector : MatrixSelector)
  | subquery (expr : Expr) (range resolution : Int64)
  | call (func : Function) (args : List Expr)
  | binaryExpr (op : BinaryOp) (lhs rhs : Expr)
  | unaryExpr (op : UnaryOp) (expr : Expr)
  | aggregation
      (op : Function)
      (expr : Expr)
      (grouping : List String)
      (without : Bool)
  | numberLiteral (value : Value)
  | stringLiteral (value : String)

end ChronoDB.Query
