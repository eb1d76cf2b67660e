import ChronoDB.Library.FallibleFold
import ChronoDB.Library.Utf8Text
import ChronoDB.Query.Expr

namespace ChronoDB.Query

open Library Text

/-!
# The query parser

The parser searches for brackets and keywords and slices the query at what it
finds.  Every slice is written out with its byte offsets and panics where the
source would.  Durations are multiplied with overflow checks.  The recursion of
the parser is an argument of its parts; it is tied at the end.
-/

/--
What the parser takes from the standard library: the lower case of a character,
and the millisecond timestamp that a floating-point text is cast to.
-/
structure StdText where
  lowercase : Char → Text
  parseTimestamp : Text → Option Int64
  lowercase_ne_nil : ∀ char : Char, lowercase char ≠ []
  lowercase_ascii :
    ∀ char : Char, char.toNat < 128 → lowercase char = [char.toLower]
  lowercase_kelvin : lowercase (Char.ofNat 0x212A) = ['k']
  lowercase_dotted : lowercase (Char.ofNat 0x130) = ['i', Char.ofNat 0x307]
  lowercase_other :
    ∀ char : Char,
      128 ≤ char.toNat → char.toNat ≠ 0x212A → char.toNat ≠ 0x130 →
        ∀ lower ∈ lowercase char, 128 ≤ lower.toNat

/-- `str::to_lowercase`, which spells every capital sigma alike here. -/
def StdText.toLowercase (std : StdText) (text : Text) : Text :=
  text.flatMap std.lowercase

/-- A library that lowers ASCII letters and reads whole numbers. -/
def StdText.basic : StdText where
  lowercase char :=
    if char = Char.ofNat 0x212A then ['k']
    else if char = Char.ofNat 0x130 then ['i', Char.ofNat 0x307]
    else [char.toLower]
  parseTimestamp text :=
    if text ≠ [] ∧ text.all Char.isDigit then
      (String.ofList text).toNat?.map Int64.ofNat
    else none
  lowercase_ne_nil := by
    intro char
    split
    · exact List.cons_ne_nil _ _
    · split <;> exact List.cons_ne_nil _ _
  lowercase_ascii := by
    intro char isAscii
    have notKelvin : char ≠ Char.ofNat 0x212A := by
      rintro rfl
      revert isAscii
      decide
    have notDotted : char ≠ Char.ofNat 0x130 := by
      rintro rfl
      revert isAscii
      decide
    rw [if_neg notKelvin, if_neg notDotted]
  lowercase_kelvin := rfl
  lowercase_dotted := rfl
  lowercase_other := by
    intro char wide notKelvin notDotted lower member
    rw [if_neg (by rintro rfl; exact notKelvin rfl),
      if_neg (by rintro rfl; exact notDotted rfl), List.mem_singleton] at member
    have unchanged : char.toLower = char := by
      refine dif_neg fun upper => ?_
      have small : char.toNat ≤ 90 := UInt32.le_iff_toNat_le.mp upper.2
      omega
    rw [member, unchanged]
    exact wide

/-- A slice or a value that must be there. -/
def orPanic {Result : Type} : Option Result → Except Fault Result
  | some result => .ok result
  | none => .error .panic

def invalidData {Result : Type} (message : String) : Except Fault Result :=
  .error (.error (.invalidData message))

/-!
## Numbers and modifiers
-/

/-- The greatest `i64`. -/
def maxI64 : ℕ := 2 ^ 63 - 1

/-- An `i64` multiplication of numbers that are not negative. -/
def checkedMul (first second : ℕ) : Except Fault ℕ :=
  if first * second ≤ maxI64 then .ok (first * second) else .error .panic

/-- The number that decimal digits denote. -/
def digitsValue (digits : Text) : ℕ :=
  digits.foldl (fun value digit => 10 * value + (digit.toNat - 48)) 0

def unitSeconds : Text → Option ℕ
  | ['s'] => some 1
  | ['m'] => some 60
  | ['h'] => some 3600
  | ['d'] => some 86400
  | ['w'] => some 604800
  | ['y'] => some 31536000
  | _ => none

def parseDuration (text : Text) : Except Fault Int64 := do
  let text := trim text
  let numEnd := (find (fun char => !char.isDigit) text).getD (byteLength text)
  let digits ← orPanic (sliceTo text numEnd)
  if digits = [] ∨ maxI64 < digitsValue digits then
    invalidData ("Invalid duration number: " ++ String.ofList text)
  else
    let unit ← orPanic (sliceFrom text numEnd)
    match unitSeconds unit with
    | none => invalidData ("Invalid duration unit: " ++ String.ofList unit)
    | some factor =>
      let seconds ← checkedMul (digitsValue digits) factor
      let millis ← checkedMul seconds 1000
      .ok (Int64.ofNat millis)

def parseOffsetModifier (text : Text) : Except Fault Int64 := do
  let text := trim text
  if text.head? = some '-' then
    let rest ← orPanic (sliceFrom text 1)
    let duration ← parseDuration (trim rest)
    .ok (-duration)
  else if text.head? = some '+' then
    let rest ← orPanic (sliceFrom text 1)
    parseDuration (trim rest)
  else
    parseDuration text

def parseAtModifier (std : StdText) (text : Text) :
    Except Fault AtModifier :=
  let text := trim text
  if text.map Char.toLower = "start()".toList then
    .ok ⟨-1⟩
  else if text.map Char.toLower = "end()".toList then
    .ok ⟨-2⟩
  else
    match std.parseTimestamp text with
    | some timestamp => .ok ⟨timestamp⟩
    | none =>
      invalidData ("Invalid @ modifier timestamp: " ++ String.ofList text)

/-!
## Selectors
-/

/-- A quoted value without its quotes. -/
def unquote (quote : Char) (text : Text) : Option (Except Fault Text) :=
  if text.head? = some quote ∧ text.getLast? = some quote then
    some (orPanic (slice text 1 (byteLength text - 1)))
  else
    none

def parseMatcher (part : Text) : Except Fault (Option Matcher) :=
  match find (· == '=') part with
  | none => .ok none
  | some eqIdx => do
    let name ← orPanic (sliceTo part eqIdx)
    let valuePart ← orPanic (sliceFrom part (eqIdx + 1))
    let valuePart := trim valuePart
    let value ←
      ((unquote '"' valuePart).or (unquote '\'' valuePart)).getD
        (.ok valuePart)
    .ok (some (Matcher.eq (String.ofList (trim name)) (String.ofList value)))

/-- The loop of `parse_matchers`; a part without `=` is passed over. -/
def parseParts : List Text → Except Fault (List Matcher)
  | [] => .ok []
  | part :: rest =>
    if trim part = [] then
      parseParts rest
    else do
      let matcher ← parseMatcher (trim part)
      let matchers ← parseParts rest
      .ok (matcher.toList ++ matchers)

def parseMatchers (text : Text) : Except Fault (List Matcher) :=
  parseParts (text.splitOn ',')

def splitAtModifier (text : Text) : Except Fault (Option (Text × Text)) :=
  match findPattern " @".toList text with
  | some atIdx => do
    let base ← orPanic (sliceTo text atIdx)
    let atPart ← orPanic (sliceFrom text (atIdx + 2))
    .ok (some (base, atPart))
  | none =>
    match find (· == '@') text with
    | some atIdx => do
      let base ← orPanic (sliceTo text atIdx)
      let atPart ← orPanic (sliceFrom text (atIdx + 1))
      .ok (some (base, atPart))
    | none => .ok none

/-- The offset of a selector, and the text before its modifier. -/
def splitOffset (std : StdText) (text : Text) :
    Except Fault (Option Int64 × Text) :=
  match findPattern " offset ".toList (std.toLowercase text) with
  | none => .ok (none, text)
  | some offsetIdx => do
    let beforeOffset ← orPanic (sliceTo text offsetIdx)
    let afterOffset ← orPanic (sliceFrom text (offsetIdx + 8))
    let cut ← splitAtModifier (trim afterOffset)
    let offsetValue := (cut.map Prod.fst).getD (trim afterOffset)
    let offset ← parseOffsetModifier (trim offsetValue)
    .ok (some offset, beforeOffset)

/-- The name and the matchers of a selector without modifiers. -/
def parseBase (base : Text) :
    Except Fault (Option String × List Matcher) :=
  match find (· == '{') base with
  | none => .ok (some (String.ofList base), [])
  | some braceIdx => do
    let name ← orPanic (sliceTo base braceIdx)
    let matchersStr ← orPanic (slice base (braceIdx + 1) (byteLength base - 1))
    let matchers ← parseMatchers matchersStr
    if 0 < braceIdx then
      .ok (some (String.ofList (trim name)), matchers)
    else
      .ok (none, matchers)

def parseVectorSelector (std : StdText) (text : Text) :
    Except Fault VectorSelector := do
  let (offset, withoutOffset) ← splitOffset std (trim text)
  let cut ← splitAtModifier withoutOffset
  match cut with
  | none =>
    let (name, matchers) ← parseBase withoutOffset
    .ok ⟨name, matchers, offset, none⟩
  | some (base, atPart) =>
    let atModifier ← parseAtModifier std atPart
    let (name, matchers) ← parseBase base
    .ok ⟨name, matchers, offset, some atModifier⟩

/-!
## Brackets
-/

/--
The loop that looks for the bracket that closes the current depth.  The result
counts characters, as the loop does.
-/
def closingFrom (depth index : ℕ) : Text → Option ℕ
  | [] => none
  | char :: rest =>
    if char = '(' then closingFrom (depth + 1) (index + 1) rest
    else if char = ')' then
      if depth = 1 then some index
      else closingFrom (depth - 1) (index + 1) rest
    else closingFrom depth (index + 1) rest

/-- The number of characters before the bracket that closes an open one. -/
def closingParen (text : Text) : Option ℕ :=
  closingFrom 1 0 text

/-- The loop down from a position to the bracket that opens the depth. -/
def openingBefore (query : Text) (innerDepth : ℕ) :
    ℕ → Except Fault (Option ℕ)
  | 0 => .ok none
  | position + 1 => do
    let char ← orPanic query[position]?
    if char = '[' then
      if innerDepth = 1 then .ok (some position)
      else openingBefore query (innerDepth - 1) position
    else if char = ']' then
      openingBefore query (innerDepth + 1) position
    else openingBefore query innerDepth position

/-- How a character changes the bracket depth. -/
def bracketStep (char : Char) : ℤ :=
  if char = '(' ∨ char = '[' then 1
  else if char = ')' ∨ char = ']' then -1
  else 0

/-- The bracket that a closing one at depth zero belongs to. -/
def openingOf (query : Text) (depth : ℤ) (index : ℕ) (char : Char) :
    Except Fault (Option ℕ) :=
  if char = ']' ∧ depth = 0 then openingBefore query 1 index else .ok none

/-- The loop of `find_outermost_bracket`. -/
def outermostFrom (query : Text) (depth : ℤ) (index : ℕ) :
    Text → Except Fault (Option ℕ)
  | [] => .ok none
  | char :: rest => do
    let depth := depth + bracketStep char
    let found ← openingOf query depth index char
    match found with
    | some position => .ok (some position)
    | none => outermostFrom query depth (index + 1) rest

def findOutermostBracket (query : Text) : Except Fault (Option ℕ) :=
  outermostFrom query 0 0 query

/-!
## Expressions
-/

def parseSubquerySuffix (expr : Expr) (suffix : Text) :
    Except Fault Expr :=
  if suffix.head? ≠ some '[' ∨ suffix.getLast? ≠ some ']' then
    invalidData "Invalid subquery suffix"
  else do
    let inner ← orPanic (slice suffix 1 (byteLength suffix - 1))
    match inner.splitOn ':' with
    | [rangeText, resolutionText] =>
      let range ← parseDuration (trim rangeText)
      let resolution ← parseDuration (trim resolutionText)
      .ok (.subquery expr range resolution)
    | _ =>
      invalidData "Invalid subquery syntax, expected [<range>:<resolution>]"

/-- A trailing text is a subquery suffix. -/
def isSubquerySuffix (text : Text) : Prop :=
  text.head? = some '[' ∧ ':' ∈ text

instance decidableIsSubquerySuffix (text : Text) :
    Decidable (isSubquerySuffix text) :=
  inferInstanceAs (Decidable (_ ∧ _))

/-- An expression with the subquery suffix after it, if there is one. -/
def finishExpr (expr : Expr) (trailing : Text) : Except Fault Expr :=
  if isSubquerySuffix trailing then parseSubquerySuffix expr trailing
  else .ok expr

def parseGroupingLabels (text : Text) :
    Except Fault (List String × Text) :=
  let text := trim text
  if text.head? ≠ some '(' then
    invalidData ("Expected '(' after by/without, got: " ++ String.ofList text)
  else do
    let inside ← orPanic (sliceFrom text 1)
    match closingParen inside with
    | none => invalidData "Unclosed parenthesis in grouping labels"
    | some index =>
      let labelsStr ← orPanic (slice text 1 (index + 1))
      let rest ← orPanic (sliceFrom text (index + 2))
      let labels :=
        ((labelsStr.splitOn ',').map trim).filter fun label => label ≠ []
      .ok (labels.map String.ofList, rest)

/-- A `by` or `without` clause at the start of a text, and the text after it. -/
def groupingModifier (std : StdText) (text : Text) :
    Except Fault (Option (List String × Bool × Text)) :=
  if "by ".toList.isPrefixOf (std.toLowercase text) then do
    let clause ← orPanic (sliceFrom text 3)
    let (labels, rest) ← parseGroupingLabels clause
    .ok (some (labels, false, trim rest))
  else if "without ".toList.isPrefixOf (std.toLowercase text) then do
    let clause ← orPanic (sliceFrom text 8)
    let (labels, rest) ← parseGroupingLabels clause
    .ok (some (labels, true, trim rest))
  else
    .ok none

section Recursion

variable (std : StdText) (recurse : Text → Except Fault Expr)

/-- What follows the bracketed expression of an aggregation. -/
def parseAggregationTail
    (op : Function) (expr : Expr) (grouping : List String) (without : Bool)
    (afterExpr : Text) :
    Except Fault Expr := do
  let modifier ← groupingModifier std afterExpr
  let (grouping, without, remaining) :=
    modifier.getD (grouping, without, afterExpr)
  finishExpr (.aggregation op expr grouping without) remaining

def parseAggregation (query : Text) (op : Function) :
    Except Fault Expr := do
  let query := trim query
  let afterName ← orPanic (sliceFrom query (byteLength op.name.toList))
  let afterFunc := trim afterName
  let modifier ← groupingModifier std afterFunc
  let (grouping, without, exprStr) := modifier.getD ([], false, afterFunc)
  if exprStr.head? ≠ some '(' then
    invalidData
      ("Expected '(' after aggregation modifier, got: " ++
        String.ofList exprStr)
  else
    let inside ← orPanic (sliceFrom exprStr 1)
    match closingParen inside with
    | none => invalidData "Unclosed parenthesis in aggregation"
    | some index =>
      let innerExpr ← orPanic (slice exprStr 1 (index + 1))
      let expr ← recurse innerExpr
      let afterExpr ← orPanic (sliceFrom exprStr (index + 2))
      parseAggregationTail std op expr grouping without (trim afterExpr)

/-- The loop of `parse_args` over the characters and their byte offsets. -/
def parseArgsFrom (text : Text) (depth : ℤ) (start offset : ℕ) :
    Text → Except Fault (List Expr)
  | [] => do
    let lastArg ← orPanic (sliceFrom text start)
    let arg ← recurse lastArg
    .ok [arg]
  | char :: rest =>
    let next := offset + char.utf8Size
    if char = '(' ∨ char = '[' ∨ char = '{' then
      parseArgsFrom text (depth + 1) start next rest
    else if char = ')' ∨ char = ']' ∨ char = '}' then
      parseArgsFrom text (depth - 1) start next rest
    else if char = ',' ∧ depth = 0 then do
      let argStr ← orPanic (slice text start offset)
      let arg ← recurse argStr
      let args ← parseArgsFrom text depth (offset + 1) next rest
      .ok (arg :: args)
    else
      parseArgsFrom text depth start next rest

def parseArgs (text : Text) : Except Fault (List Expr) :=
  if trim text = [] then .ok []
  else parseArgsFrom recurse text 0 0 0 text

/-- The call branch, from the position of the opening bracket. -/
def parseCall (query : Text) (parenIdx : ℕ) (func : Function) :
    Except Fault Expr := do
  let inside ← orPanic (sliceFrom query (parenIdx + 1))
  let endIdx := parenIdx + 1 + (closingParen inside).getD 0
  let argsStr ← orPanic (slice query (parenIdx + 1) endIdx)
  let args ← parseArgs recurse argsStr
  let afterCall ← orPanic (sliceFrom query (endIdx + 1))
  finishExpr (.call func args) (trim afterCall)

/-- The branch of texts with an outermost bracket. -/
def parseBracket (query : Text) (bracketIdx : ℕ) : Except Fault Expr := do
  let exprPart ← orPanic (sliceTo query bracketIdx)
  let inner ← orPanic (slice query (bracketIdx + 1) (byteLength query - 1))
  match inner.splitOn ':' with
  | [rangeText, resolutionText] =>
    let range ← parseDuration (trim rangeText)
    let resolution ← parseDuration (trim resolutionText)
    let expr ← recurse (trim exprPart)
    .ok (.subquery expr range resolution)
  | _ =>
    let range ← parseDuration inner
    let selector ← parseVectorSelector std exprPart
    .ok (.matrixSelector ⟨selector, range⟩)

/-- The text before the first opening bracket, and its position. -/
def beforeParen (query : Text) : Except Fault (Option (ℕ × Text)) :=
  match find (· == '(') query with
  | none => .ok none
  | some parenIdx => do
    let before ← orPanic (sliceTo query parenIdx)
    .ok (some (parenIdx, trim before))

def aggregationNamed (before : Text) : Option Function :=
  (Function.fromName (String.ofList (firstWord before))).filter
    Function.isAggregationFunction

def functionNamed (before : Text) : Option Function :=
  Function.fromName (String.ofList before)

/-- One level of `parse_promql`. -/
def parseLevel (query : Text) : Except Fault Expr := do
  let query := trim query
  let paren ← beforeParen query
  match paren.bind fun found => aggregationNamed found.2 with
  | some func => parseAggregation std recurse query func
  | none =>
    match paren.bind fun found =>
        (functionNamed found.2).map fun func => (found.1, func) with
    | some (parenIdx, func) => parseCall recurse query parenIdx func
    | none =>
      let bracket ← findOutermostBracket query
      match bracket with
      | some bracketIdx => parseBracket std recurse query bracketIdx
      | none =>
        let selector ← parseVectorSelector std query
        .ok (.vectorSelector selector)

end Recursion

/-- The parser with a bound on its recursion depth. -/
def parseDepth (std : StdText) : ℕ → Text → Except Fault Expr
  | 0 => fun _ => .error .panic
  | depth + 1 => parseLevel std (parseDepth std depth)

/-- `parse_promql`; a text is nested at most as deep as it is long. -/
def parsePromql (std : StdText) (query : Text) : Except Fault Expr :=
  parseDepth std (query.length + 1) query

/-!
## The recursion
-/

@[simp] theorem orPanic_eq_ok_iff
    {Result : Type} {found : Option Result} {result : Result} :
    orPanic found = .ok result ↔ found = some result := by
  cases found <;> simp [orPanic]

@[simp] theorem orPanic_some {Result : Type} (result : Result) :
    orPanic (some result) = .ok result :=
  rfl

@[simp] theorem orPanic_none {Result : Type} :
    orPanic (none : Option Result) = .error .panic :=
  rfl

@[simp] theorem ok_bind
    {First Second : Type} (first : First) (next : First → Except Fault Second) :
    (.ok first >>= next) = next first :=
  rfl

@[simp] theorem error_bind
    {First Second : Type} (fault : Fault) (next : First → Except Fault Second) :
    (.error fault >>= next) = .error fault :=
  rfl

theorem bind_congr_ok {First Second : Type} {outcome : Except Fault First}
    {continue_ other : First → Except Fault Second}
    (agree : ∀ result, outcome = .ok result → continue_ result = other result) :
    outcome >>= continue_ = outcome >>= other := by
  cases outcome with
  | error fault => rfl
  | ok result => exact agree result rfl

theorem length_of_parseGroupingLabels {text rest : Text} {labels : List String}
    (parsed : parseGroupingLabels text = .ok (labels, rest)) :
    rest.length ≤ text.length := by
  rw [parseGroupingLabels] at parsed
  split at parsed
  · cases parsed
  · obtain ⟨inside, _, parsed⟩ := bind_eq_ok_iff.mp parsed
    split at parsed
    · cases parsed
    · obtain ⟨_, _, parsed⟩ := bind_eq_ok_iff.mp parsed
      obtain ⟨after, isAfter, parsed⟩ := bind_eq_ok_iff.mp parsed
      cases parsed
      exact (length_sliceFrom_le (orPanic_eq_ok_iff.mp isAfter)).trans
        (length_trim_le text)

theorem length_of_groupingModifier
    {std : StdText} {text rest : Text} {labels : List String} {without : Bool}
    (parsed :
      groupingModifier std text = .ok (some (labels, without, rest))) :
    rest.length ≤ text.length := by
  have clauseLength :
      ∀ {start : ℕ} {flag : Bool},
        (do
          let clause ← orPanic (sliceFrom text start)
          let (labels, rest) ← parseGroupingLabels clause
          (.ok (some (labels, flag, trim rest)) :
            Except Fault (Option (List String × Bool × Text)))) =
            .ok (some (labels, without, rest)) →
          rest.length ≤ text.length := by
    intro start flag parsed
    obtain ⟨clause, isClause, parsed⟩ := bind_eq_ok_iff.mp parsed
    obtain ⟨⟨_, after⟩, isParsed, parsed⟩ := bind_eq_ok_iff.mp parsed
    cases parsed
    exact (length_trim_le after).trans
      ((length_of_parseGroupingLabels isParsed).trans
        (length_sliceFrom_le (orPanic_eq_ok_iff.mp isClause)))
  rw [groupingModifier] at parsed
  split at parsed
  · exact clauseLength parsed
  · split at parsed
    · exact clauseLength parsed
    · cases parsed

section Congruence

variable {std : StdText} {recurse other : Text → Except Fault Expr}

theorem parseArgs_congr {text : Text}
    (agree :
      ∀ part : Text, part.length ≤ text.length → recurse part = other part) :
    parseArgs recurse text = parseArgs other text := by
  have sameLoop :
      ∀ (rest : Text) (depth : ℤ) (start offset : ℕ),
        parseArgsFrom recurse text depth start offset rest =
          parseArgsFrom other text depth start offset rest := by
    intro rest
    induction rest with
    | nil =>
      intro depth start offset
      refine bind_congr_ok fun lastArg isLast => ?_
      rw [agree lastArg (length_sliceFrom_le (orPanic_eq_ok_iff.mp isLast))]
    | cons char rest inductionHypothesis =>
      intro depth start offset
      simp only [parseArgsFrom, inductionHypothesis]
      split
      · rfl
      · split
        · rfl
        · split
          · refine bind_congr_ok fun argStr isArg => ?_
            rw [agree argStr (length_slice_le (orPanic_eq_ok_iff.mp isArg))]
          · rfl
  rw [parseArgs, parseArgs, sameLoop]

theorem lt_of_findOutermostBracket {query : Text} {position : ℕ}
    (found : findOutermostBracket query = .ok (some position)) :
    position < query.length := by
  have opens :
      ∀ (bound innerDepth : ℕ),
        openingBefore query innerDepth bound = .ok (some position) →
          position < bound := by
    intro bound
    induction bound with
    | zero =>
      intro innerDepth isFound
      cases isFound
    | succ bound inductionHypothesis =>
      intro innerDepth isFound
      obtain ⟨char, _, isFound⟩ := bind_eq_ok_iff.mp isFound
      split at isFound
      · split at isFound
        · cases isFound
          exact Nat.lt_succ_self _
        · exact (inductionHypothesis _ isFound).trans (Nat.lt_succ_self _)
      · split at isFound
        · exact (inductionHypothesis _ isFound).trans (Nat.lt_succ_self _)
        · exact (inductionHypothesis _ isFound).trans (Nat.lt_succ_self _)
  have inside :
      ∀ (rest : Text) (depth : ℤ) (index : ℕ),
        outermostFrom query depth index rest = .ok (some position) →
          position < index + rest.length := by
    intro rest
    induction rest with
    | nil =>
      intro depth index isFound
      cases isFound
    | cons char rest inductionHypothesis =>
      intro depth index isFound
      rw [outermostFrom] at isFound
      rw [List.length_cons]
      obtain ⟨found, isOpening, isFound⟩ := bind_eq_ok_iff.mp isFound
      split at isFound
      · cases isFound
        rw [openingOf] at isOpening
        split at isOpening
        · have before := opens index 1 isOpening
          omega
        · cases isOpening
      · have later := inductionHypothesis _ _ isFound
        omega
  have bounded := inside query 0 0 found
  omega

/-- One level of the parser recurses on shorter texts only. -/
theorem parseLevel_congr {query : Text}
    (agree :
      ∀ part : Text, part.length < query.length → recurse part = other part) :
    parseLevel std recurse query = parseLevel std other query := by
  have shorter : (trim query).length ≤ query.length := length_trim_le query
  rw [parseLevel, parseLevel]
  refine bind_congr_ok fun paren isParen => ?_
  split
  · rename_i func isAggregation
    rw [parseAggregation, parseAggregation]
    refine bind_congr_ok fun afterName isAfter => ?_
    refine bind_congr_ok fun modifier isModifier => ?_
    -- the bracketed expression is a part of the query
    have exprShort :
        (modifier.getD ([], false, trim afterName)).2.2.length ≤
          query.length := by
      have afterShort :=
        (length_trim_le afterName).trans
          (length_sliceFrom_le (orPanic_eq_ok_iff.mp isAfter))
      have queryShort := length_trim_le (trim query)
      cases modifier with
      | none =>
        simp only [Option.getD_none]
        omega
      | some clause =>
        obtain ⟨labels, without, rest⟩ := clause
        have restShort := length_of_groupingModifier isModifier
        simp only [Option.getD_some]
        omega
    simp only
    split
    · rfl
    · refine bind_congr_ok fun inside isInside => ?_
      split
      · rfl
      · refine bind_congr_ok fun innerExpr isInner => ?_
        rw [agree innerExpr (Nat.lt_of_lt_of_le (length_slice_lt Nat.one_pos
          (orPanic_eq_ok_iff.mp isInner)) exprShort)]
  · split
    · rename_i parenIdx func isCall
      rw [parseCall, parseCall]
      refine bind_congr_ok fun inside isInside => ?_
      refine bind_congr_ok fun argsStr isArgs => ?_
      rw [parseArgs_congr fun part isPart => ?_]
      have inQuery :=
        length_slice_lt (Nat.succ_pos _) (orPanic_eq_ok_iff.mp isArgs)
      exact agree part (by omega)
    · refine bind_congr_ok fun bracket isBracket => ?_
      split
      · rename_i bracketIdx
        rw [parseBracket, parseBracket]
        refine bind_congr_ok fun exprPart isPart => ?_
        refine bind_congr_ok fun inner isInner => ?_
        split
        · refine bind_congr_ok fun range isRange => ?_
          refine bind_congr_ok fun resolution isResolution => ?_
          rw [agree (trim exprPart)]
          obtain ⟨after, _, isIndex⟩ :=
            sliceTo_eq_some_iff.mp (orPanic_eq_ok_iff.mp isPart)
          have inQuery := lt_of_findOutermostBracket isBracket
          have partShort := length_trim_le exprPart
          have partBytes := length_le_byteLength exprPart
          omega
        · rfl
      · rfl

end Congruence

theorem parseDepth_eq (std : StdText) {first second : ℕ} {query : Text}
    (firstDeep : query.length < first) (secondDeep : query.length < second) :
    parseDepth std first query = parseDepth std second query := by
  induction first generalizing second query with
  | zero => exact absurd firstDeep (Nat.not_lt_zero _)
  | succ first inductionHypothesis =>
    cases second with
    | zero => exact absurd secondDeep (Nat.not_lt_zero _)
    | succ second =>
      exact parseLevel_congr fun part shorter =>
        inductionHypothesis
          (Nat.lt_of_lt_of_le shorter (Nat.le_of_lt_succ firstDeep))
          (Nat.lt_of_lt_of_le shorter (Nat.le_of_lt_succ secondDeep))

theorem parsePromql_eq (std : StdText) (query : Text) :
    parsePromql std query = parseLevel std (parsePromql std) query :=
  parseLevel_congr fun _ shorter =>
    parseDepth_eq std shorter (Nat.lt_succ_self _)

end ChronoDB.Query
