import ChronoDB.Query.Complete
import ChronoDB.Query.Engine
import ChronoDB.Query.SelectorRoundTrip
import Mathlib.Tactic.IntervalCases

namespace ChronoDB.Query

open Library Text Verdict List

/-!
# Aggregations with a parameter

`topk`, `bottomk` and `quantile` are written with a number before their
selector.  The parser takes their names for those of aggregations, which have
one expression in their brackets: the number, the comma and the selector are
read together as one selector.
-/

/-- A number written with digits, and with a point when it has a fraction. -/
structure Decimal where
  whole : Text
  fraction : Text
  nonempty : whole ≠ []
  digits : ∀ digit ∈ whole ++ fraction, digit.isDigit = true

namespace Decimal

def text (decimal : Decimal) : Text :=
  decimal.whole ++ if decimal.fraction = [] then [] else '.' :: decimal.fraction

def value (decimal : Decimal) : Value :=
  digitsValue (decimal.whole ++ decimal.fraction) / 10 ^ decimal.fraction.length

end Decimal

/-- An aggregation with its parameter; the selector is still missing. -/
inductive ParametricCall where
  | topk (k : ℕ) (positive : 1 ≤ k)
  | bottomk (k : ℕ) (positive : 1 ≤ k)
  | quantile (q : Decimal) (atMostOne : q.value ≤ 1)

namespace ParametricCall

def op : ParametricCall → Function
  | topk _ _ => .topK
  | bottomk _ _ => .bottomK
  | quantile _ _ => .quantile

theorem op_mem (call : ParametricCall) :
    call.op ∈ [Function.topK, .bottomK, .quantile] := by
  cases call <;> simp [op]

def parameter : ParametricCall → Text
  | topk k _ => Nat.toDigits 10 k
  | bottomk k _ => Nat.toDigits 10 k
  | quantile q _ => q.text

/-- The text after the opening bracket. -/
def inside (call : ParametricCall) (selector : Text) : Text :=
  call.parameter ++ ", ".toList ++ selector ++ [')']

def text (call : ParametricCall) (selector : Text) : Text :=
  call.op.name.toList ++ '(' :: call.inside selector

/-!
## The parameter
-/

variable (call : ParametricCall)

theorem parameter_chars :
    call.parameter ≠ [] ∧
      ∀ char ∈ call.parameter, char.isDigit = true ∨ char = '.' := by
  cases call with
  | topk k positive =>
    exact ⟨Nat.toDigits_ne_nil, fun char member =>
      .inl (Nat.isDigit_of_mem_toDigits (by decide) (by decide) member)⟩
  | bottomk k positive =>
    exact ⟨Nat.toDigits_ne_nil, fun char member =>
      .inl (Nat.isDigit_of_mem_toDigits (by decide) (by decide) member)⟩
  | quantile q atMostOne =>
    refine ⟨append_ne_nil_of_left_ne_nil q.nonempty _, ?_⟩
    intro char member
    rcases mem_append.mp member with member | member
    · exact .inl (q.digits char (mem_append_left _ member))
    · split at member
      · cases member
      · rcases mem_cons.mp member with rfl | member
        · exact .inr rfl
        · exact .inl (q.digits char (mem_append_right _ member))

/-- A visible character of one byte without a meaning for the parser. -/
def IsPlainChar (char : Char) : Prop :=
  isWhitespace char = false ∧ char.utf8Size = 1 ∧ char ∉ "()[],".toList

instance (char : Char) : Decidable (IsPlainChar char) :=
  inferInstanceAs (Decidable (_ ∧ _))

theorem parameter_plain : ∀ char ∈ call.parameter, IsPlainChar char := by
  have digitsPlain : ∀ char ∈ "0123456789".toList, IsPlainChar char := by
    decide
  intro char member
  rcases call.parameter_chars.2 char member with isDigit | rfl
  · refine digitsPlain char ?_
    have bounds : 48 ≤ char.toNat ∧ char.toNat ≤ 57 := by
      simpa [Char.isDigit, UInt32.le_iff_toNat_le] using isDigit
    have isChar : char = Char.ofNat char.toNat := (Char.ofNat_toNat char).symm
    obtain ⟨low, high⟩ := bounds
    generalize char.toNat = code at isChar low high
    subst isChar
    interval_cases code <;> decide
  · decide

end ParametricCall

/-!
## Brackets in parts of a text
-/

theorem HasOutermostBracket.append
    {text : Text} (found : HasOutermostBracket text) (more : Text) :
    HasOutermostBracket (text ++ more) := by
  obtain ⟨before, after, rfl, atZero, opens⟩ := found
  exact ⟨before, after ++ more, by simp, atZero, opens⟩

theorem HasOutermostBracket.of_append
    {text more : Text} (found : HasOutermostBracket (text ++ more))
    (noClosing : ']' ∉ more) :
    HasOutermostBracket text := by
  obtain ⟨before, after, isText, atZero, opens⟩ := found
  rcases append_eq_append_iff.mp isText with
    ⟨middle, _, isMore⟩ | ⟨middle, isBefore, isRest⟩
  · exact absurd (by simp [isMore]) noClosing
  · cases middle with
    | nil => exact absurd (by rw [← nil_append more, ← isRest]; simp) noClosing
    | cons first middle =>
      obtain ⟨rfl, _⟩ := List.cons.inj isRest
      exact ⟨before, middle, isBefore, atZero, opens⟩

theorem HasOutermostBracket.of_append_left
    {plain text : Text} (found : HasOutermostBracket (plain ++ text))
    (noBracket : ∀ char ∈ plain, char ∉ "()[]".toList) :
    HasOutermostBracket text := by
  have flat : bracketDepth plain = 0 := by
    refine sum_eq_zero fun step member => ?_
    obtain ⟨char, isChar, rfl⟩ := mem_map.mp member
    have other := noBracket char isChar
    simp at other
    simp [bracketStep, other]
  have isClosing : ']' ∈ "()[]".toList := by decide
  have isOpening : '[' ∈ "()[]".toList := by decide
  obtain ⟨before, after, isText, atZero, opening, inner, isBefore, balanced⟩ :=
    found
  rcases append_eq_append_iff.mp isText with
    ⟨middle, rfl, isRest⟩ | ⟨middle, isPlain, isRest⟩
  · refine ⟨middle, after, isRest, ?_, ?_⟩
    · simpa [flat] using atZero
    · rcases append_eq_append_iff.mp isBefore with
        ⟨others, rfl, isMiddle⟩ | ⟨others, isPlain, isMiddle⟩
      · exact ⟨others, inner, isMiddle, balanced⟩
      · cases others with
        | nil => exact ⟨[], inner, by simpa using isMiddle.symm, balanced⟩
        | cons first others =>
          obtain ⟨rfl, _⟩ := List.cons.inj isMiddle
          exact absurd isOpening (noBracket '[' (by simp [isPlain]))
  · cases middle with
    | nil =>
      rw [append_nil] at isPlain
      rw [← isPlain, bracketDepth_append, flat] at atZero
      exact absurd atZero (by decide)
    | cons first middle =>
      obtain ⟨rfl, _⟩ := List.cons.inj isRest
      exact absurd isClosing (noBracket ']' (by simp [isPlain]))

/-- A bracket that is found stands in the trimmed text. -/
theorem HasOutermostBracket.trim
    {text : Text} (found : HasOutermostBracket text) :
    HasOutermostBracket (trim text) := by
  have visible : ∀ char ∈ "()[]".toList, isWhitespace char = false := by
    decide
  have notBracket : ∀ char, isWhitespace char = true → char ∉ "()[]".toList :=
    fun char isBlank member => by simp [visible char member] at isBlank
  have inStart : HasOutermostBracket (trimStart text) := by
    rw [← takeWhile_append_dropWhile (p := isWhitespace) (l := text)] at found
    exact found.of_append_left fun char member =>
      notBracket char (mem_takeWhile_imp member)
  rw [← @rdropWhile_append_rtakeWhile _ isWhitespace (trimStart text)]
    at inStart
  refine inStart.of_append fun member => ?_
  exact notBracket ']' (mem_rtakeWhile_imp member) (by decide)

/-!
## Texts that are selectors
-/

section Reading

variable {std : StdText}

theorem finishExpr_eq_ok {expr result : Expr} {trailing : Text}
    (finished : finishExpr expr trailing = .ok result) :
    result = expr ∨
      (isSubquerySuffix trailing ∧ trailing.getLast? = some ']' ∧
        ∃ range resolution, result = .subquery expr range resolution) := by
  rw [finishExpr] at finished
  split at finished
  · rename_i isSuffix
    rw [parseSubquerySuffix] at finished
    split at finished
    · cases finished
    · rename_i bracketed
      rw [not_or, not_not, not_not] at bracketed
      obtain ⟨inner, _, finished⟩ := bind_eq_ok_iff.mp finished
      split at finished
      · obtain ⟨range, _, finished⟩ := bind_eq_ok_iff.mp finished
        obtain ⟨resolution, _, finished⟩ := bind_eq_ok_iff.mp finished
        cases finished
        exact .inr ⟨isSuffix, bracketed.2, range, resolution, rfl⟩
      · cases finished
  · cases finished
    exact .inl rfl

theorem parseAggregation_ne_vectorSelector
    {recurse : Text → Except Fault Expr} {query : Text} {op : Function}
    {selector : VectorSelector} :
    parseAggregation std recurse query op ≠ .ok (.vectorSelector selector) := by
  intro parsed
  rw [parseAggregation] at parsed
  obtain ⟨afterName, _, parsed⟩ := bind_eq_ok_iff.mp parsed
  obtain ⟨modifier, _, parsed⟩ := bind_eq_ok_iff.mp parsed
  dsimp only at parsed
  split at parsed
  · cases parsed
  · obtain ⟨inside, _, parsed⟩ := bind_eq_ok_iff.mp parsed
    split at parsed
    · cases parsed
    · obtain ⟨inner, _, parsed⟩ := bind_eq_ok_iff.mp parsed
      obtain ⟨expr, _, parsed⟩ := bind_eq_ok_iff.mp parsed
      obtain ⟨after, _, parsed⟩ := bind_eq_ok_iff.mp parsed
      rw [parseAggregationTail] at parsed
      obtain ⟨clause, _, parsed⟩ := bind_eq_ok_iff.mp parsed
      rcases finishExpr_eq_ok parsed with isExpr | ⟨_, _, _, _, isExpr⟩
      · cases isExpr
      · cases isExpr

theorem parseCall_ne_vectorSelector
    {recurse : Text → Except Fault Expr} {query : Text} {parenIdx : ℕ}
    {func : Function} {selector : VectorSelector} :
    parseCall recurse query parenIdx func ≠ .ok (.vectorSelector selector) := by
  intro parsed
  rw [parseCall] at parsed
  obtain ⟨inside, _, parsed⟩ := bind_eq_ok_iff.mp parsed
  obtain ⟨argsStr, _, parsed⟩ := bind_eq_ok_iff.mp parsed
  obtain ⟨args, _, parsed⟩ := bind_eq_ok_iff.mp parsed
  obtain ⟨after, _, parsed⟩ := bind_eq_ok_iff.mp parsed
  rcases finishExpr_eq_ok parsed with isExpr | ⟨_, _, _, _, isExpr⟩
  · cases isExpr
  · cases isExpr

theorem not_hasOutermostBracket_of_selector
    {text : Text} {selector : VectorSelector}
    (parsed : parsePromql std text = .ok (.vectorSelector selector)) :
    ¬HasOutermostBracket text := by
  rw [parsePromql_eq, parseLevel] at parsed
  obtain ⟨paren, _, parsed⟩ := bind_eq_ok_iff.mp parsed
  split at parsed
  · exact absurd parsed parseAggregation_ne_vectorSelector
  · split at parsed
    · exact absurd parsed parseCall_ne_vectorSelector
    · obtain ⟨bracket, isFound, parsed⟩ := bind_eq_ok_iff.mp parsed
      split at parsed
      · exact absurd parsed parseBracket_ne_vectorSelector
      · exact fun found =>
          findOutermostBracket_eq_none_iff.mp isFound found.trim

theorem parsePromql_of_plain {text : Text}
    (notFunction :
      ∀ before after,
        trim text = before ++ '(' :: after →
          '(' ∉ before →
          aggregationNamed (trim before) = none ∧
            functionNamed (trim before) = none)
    (noBracket : ¬HasOutermostBracket (trim text)) :
    parsePromql std text =
      (do
        let selector ← parseVectorSelector std text
        .ok (.vectorSelector selector)) := by
  have sameSelector :
      parseVectorSelector std (trim text) = parseVectorSelector std text := by
    rw [parseVectorSelector, parseVectorSelector, trim_trim]
  rw [parsePromql_eq, parseLevel]
  rcases beforeParen_cases (trim text) with
    ⟨_, noParen⟩ | ⟨before, after, isText, first, isParen⟩
  · rw [noParen, findOutermostBracket_eq_none_iff.mpr noBracket, sameSelector]
    rfl
  · obtain ⟨noAggregation, noFunction⟩ := notFunction before after isText first
    rw [isParen]
    simp only [ok_bind, Option.bind_some, noAggregation, noFunction,
      Option.map_none, findOutermostBracket_eq_none_iff.mpr noBracket,
      sameSelector]

end Reading

/-!
## What stands in the brackets
-/

namespace ParametricCall

variable {std : StdText} {call : ParametricCall} {selector inner after : Text}

/-- The parameter and what separates it from the selector. -/
def lead (call : ParametricCall) : Text :=
  call.parameter ++ ", ".toList

theorem inside_eq :
    call.inside selector = call.lead ++ (selector ++ [')']) := by
  rw [inside, lead, append_assoc]

theorem byteLength_lead : byteLength call.lead = call.lead.length := by
  have separatorBytes : ∀ char ∈ ", ".toList, char.utf8Size = 1 := by
    decide
  have oneByte : ∀ char ∈ call.lead, char.utf8Size = 1 := by
    intro char member
    rcases mem_append.mp member with member | member
    · exact (call.parameter_plain char member).2.1
    · exact separatorBytes char member
  generalize call.lead = lead at oneByte
  induction lead with
  | nil => rfl
  | cons first rest inductionHypothesis =>
    rw [byteLength_cons, oneByte first mem_cons_self,
      inductionHypothesis fun char member =>
        oneByte char (mem_cons_of_mem _ member),
      length_cons, Nat.add_comm]

theorem not_mem_lead {char : Char} (isBracket : char ∈ "()[]".toList) :
    char ∉ call.lead := by
  have notSeparator : ∀ char ∈ "()[]".toList, char ∉ ", ".toList := by
    decide
  have inSyntax : ∀ char ∈ "()[]".toList, char ∈ "()[],".toList := by
    decide
  intro member
  rcases mem_append.mp member with member | member
  · exact (call.parameter_plain char member).2.2 (inSyntax char isBracket)
  · exact notSeparator char isBracket member

/--
The brackets hold the parameter and a first part of the selector; what follows
them ends with the last bracket, unless it is empty.
-/
theorem exists_of_bracketed_inside
    (found : bracketed ('(' :: call.inside selector) = some (inner, after)) :
    (∃ read unread, inner = call.lead ++ read ∧ selector = read ++ unread) ∧
      (after = [] ∨ after.getLast? = some ')') := by
  obtain ⟨inside, stop, isText, closes, isInner, isAfter⟩ :=
    bracketed_eq_some_iff.mp found
  obtain ⟨_, rfl⟩ := List.cons.inj isText
  obtain ⟨before, rest, isInside, isStop, _⟩ := exists_of_closingFrom closes
  rw [Nat.zero_add] at isStop
  obtain ⟨others, isSplit, innerBytes⟩ := sliceTo_eq_some_iff.mp isInner
  obtain ⟨skipped, isSkipped, _⟩ := sliceFrom_eq_some_iff.mp isAfter
  have beforeBytes := length_le_byteLength before
  constructor
  · obtain ⟨middle, isBefore, _⟩ :=
      exists_append_of_byteLength_le (isSplit.symm.trans isInside) (by omega)
    obtain ⟨closed, isClosed, isEnd⟩ :
        ∃ closed,
          before = call.lead ++ closed ∧
            selector ++ [')'] = closed ++ ')' :: rest := by
      rw [inside_eq] at isInside
      rcases append_eq_append_iff.mp isInside with
        ⟨closed, isClosed, isEnd⟩ | ⟨between, isLead, isEnd⟩
      · exact ⟨closed, isClosed, isEnd⟩
      · cases between with
        | nil => exact ⟨[], by simpa using isLead.symm, isEnd.symm⟩
        | cons bracket between =>
          obtain ⟨rfl, _⟩ := List.cons.inj isEnd
          have inLead : ')' ∈ call.lead := by
            simp [isLead]
          exact absurd inLead (not_mem_lead (by decide))
    have closedLength := congrArg List.length isClosed
    rw [length_append] at closedLength
    have leadBytes := @byteLength_lead call
    obtain ⟨read, isRead, isMiddle⟩ :=
      exists_append_of_byteLength_le (isClosed.symm.trans isBefore) (by omega)
    rw [isMiddle, append_assoc] at isEnd
    refine ⟨read, ?_⟩
    rcases append_eq_append_iff.mp isEnd with
      ⟨extra, isLonger, isClosing⟩ | ⟨unread, isSelector, _⟩
    · have lengths := congrArg List.length isClosing
      simp only [length_append, length_cons, length_nil] at lengths
      have noExtra : extra = [] := eq_nil_of_length_eq_zero (by omega)
      exact ⟨[], isRead, by rw [isLonger, noExtra]; simp⟩
    · exact ⟨unread, isRead, isSelector⟩
  · by_cases isNil : after = []
    · exact .inl isNil
    · right
      have sameLast := congrArg List.getLast? isSkipped
      rw [inside_eq, ← append_assoc, getLast?_concat,
        getLast?_append_of_ne_nil _ isNil] at sameLast
      exact sameLast.symm

theorem trimStart_lead_append (text : Text) :
    trimStart (call.lead ++ text) = call.lead ++ text := by
  refine trimStart_eq_self fun char isFirst => ?_
  obtain ⟨first, rest, isParameter⟩ :=
    exists_cons_of_ne_nil call.parameter_chars.1
  rw [lead, isParameter] at isFirst
  cases isFirst
  exact (call.parameter_plain char (by simp [isParameter])).1

theorem lead_not_function {text before rest : Text}
    (isText : trim (call.lead ++ text) = before ++ '(' :: rest)
    (first : '(' ∉ before) :
    aggregationNamed (trim before) = none ∧
      functionNamed (trim before) = none := by
  have isTrimmed :
      trim (call.lead ++ text) =
        call.parameter ++ ',' :: trimEnd (' ' :: text) := by
    have isLead : call.lead ++ text = call.parameter ++ ',' :: ' ' :: text := by
      simp [lead]
    rw [trim, trimStart_lead_append, isLead,
      trimEnd_append_cons _ _ (by decide)]
  rw [isTrimmed] at isText
  obtain ⟨more, rfl⟩ : ∃ more, before = call.parameter ++ ',' :: more := by
    rcases append_eq_append_iff.mp isText with
      ⟨between, isBefore, isRest⟩ | ⟨between, isParameter, isRest⟩
    · cases between with
      | nil => cases isRest
      | cons comma between =>
        obtain ⟨rfl, _⟩ := List.cons.inj isRest
        exact ⟨between, isBefore⟩
    · cases between with
      | nil => cases isRest
      | cons paren between =>
        obtain ⟨rfl, _⟩ := List.cons.inj isRest
        have inParameter : '(' ∈ call.parameter := by
          simp [isParameter]
        exact absurd (by decide) (call.parameter_plain '(' inParameter).2.2
  have visibleStart :
      ∀ text,
        trimStart (call.parameter ++ ',' :: text) =
          call.parameter ++ ',' :: text := by
    intro text
    refine trimStart_eq_self fun char isFirst => ?_
    obtain ⟨first, rest, isParameter⟩ :=
      exists_cons_of_ne_nil call.parameter_chars.1
    rw [isParameter] at isFirst
    cases isFirst
    exact (call.parameter_plain char (by simp [isParameter])).1
  have isBefore :
      trim (call.parameter ++ ',' :: more) =
        call.parameter ++ ',' :: trimEnd more := by
    rw [trim, visibleStart, trimEnd_append_cons _ _ (by decide)]
  have comma : ',' ∈ ['{', ','] := by
    decide
  constructor
  · rw [aggregationNamed, isBefore, fromName_eq_none comma]
    · rfl
    · rw [firstWord, visibleStart, takeWhile_append_of_pos]
      · simp [show isWhitespace ',' = false by decide]
      · intro char member
        simp [(call.parameter_plain char member).1]
  · rw [functionNamed, isBefore, fromName_eq_none comma (by simp)]

theorem parsePromql_lead
    {read unread : Text} (noBracket : ¬HasOutermostBracket (read ++ unread)) :
    parsePromql std (call.lead ++ read) =
      (do
        let swallowed ← parseVectorSelector std (call.lead ++ read)
        .ok (.vectorSelector swallowed)) := by
  refine parsePromql_of_plain
    (fun before after isText first => lead_not_function isText first) ?_
  intro found
  obtain ⟨blank, isBlank⟩ := exists_trim_append (call.lead ++ read)
  rw [trimStart_lead_append] at isBlank
  have inRead := found.append blank
  rw [isBlank] at inRead
  have inWhole := inRead.append unread
  rw [append_assoc] at inWhole
  exact noBracket
    (inWhole.of_append_left fun char member isBracket =>
      not_mem_lead isBracket member)

theorem parsePromql_text :
    parsePromql std (call.text selector) =
      parseGroup std (parsePromql std) call.op
        ('(' :: call.inside selector) [] false := by
  have named :
      ∀ op ∈ [Function.topK, .bottomK, .quantile],
        '(' ∉ op.name.toList ∧
          trimStart op.name.toList = op.name.toList ∧
          aggregationNamed (trim op.name.toList) = some op := by
    decide +kernel
  obtain ⟨noParen, isStart, isNamed⟩ := named call.op call.op_mem
  have opened :
      trim ('(' :: call.inside selector) = '(' :: call.inside selector := by
    have isWhole :
        '(' :: call.inside selector =
          ('(' :: call.lead ++ selector) ++ ')' :: [] := by
      simp [inside_eq]
    rw [isWhole, trim_append_cons _ _ (by decide)]
    rfl
  have trimmed : trim (call.text selector) = call.text selector := by
    rw [text, trim_append_cons _ _ (by decide), isStart]
    rw [← nil_append ('(' :: call.inside selector),
      trim_append_cons _ _ (by decide)] at opened
    rw [(List.cons.inj opened).2]
  have isParen :
      beforeParen (call.text selector) =
        .ok (some
          (byteLength call.op.name.toList, trim call.op.name.toList)) := by
    rw [beforeParen, text, find_first noParen]
    simp only [sliceTo_append, orPanic_some, ok_bind]
  have noClause :
      groupingModifier std ('(' :: call.inside selector) = .ok none := by
    have isText :
        trimStart ('(' :: call.inside selector) = '(' :: call.inside selector :=
      rfl
    rw [← opened]
    exact groupingModifier_of_clauseText_eq_none
      (clauseText_eq_none isText (by decide))
  rw [parsePromql_eq, parseLevel, trimmed, isParen]
  simp only [ok_bind, Option.bind_some, isNamed]
  rw [parseAggregation, trimmed, text, sliceFrom_append, orPanic_some,
    ok_bind, opened]
  dsimp only
  rw [noClause, ok_bind]
  rfl

end ParametricCall

/-!
## What follows the brackets
-/

/-- A text that is empty or ends with a closing bracket. -/
def EndsClosed (text : Text) : Prop :=
  text = [] ∨ text.getLast? = some ')'

namespace EndsClosed

theorem of_append {before text : Text} (closed : EndsClosed (before ++ text)) :
    EndsClosed text := by
  by_cases isNil : text = []
  · exact .inl isNil
  · rcases closed with nothing | isLast
    · exact absurd (append_eq_nil_iff.mp nothing).2 isNil
    · rw [getLast?_append_of_ne_nil _ isNil] at isLast
      exact .inr isLast

theorem sliceFrom {text rest : Text} {start : ℕ} (closed : EndsClosed text)
    (isRest : text.sliceFrom start = some rest) :
    EndsClosed rest := by
  obtain ⟨before, rfl, _⟩ := sliceFrom_eq_some_iff.mp isRest
  exact closed.of_append

/-- White space is only trimmed before it. -/
theorem trim {text : Text} (closed : EndsClosed text) :
    EndsClosed (trim text) := by
  rcases closed with rfl | isLast
  · exact .inl rfl
  · obtain ⟨before, rfl⟩ := getLast?_eq_some_iff.mp isLast
    rw [trim_append_cons _ _ (by decide)]
    exact .inr getLast?_concat

theorem of_groupingModifier
    {std : StdText} {text rest : Text} {labels : List String} {without : Bool}
    (closed : EndsClosed text)
    (parsed :
      groupingModifier std text = .ok (some (labels, without, rest))) :
    EndsClosed rest := by
  have clauseClosed :
      ∀ {clause rest : Text} {labels : List String} {start : ℕ},
        text.sliceFrom start = some clause →
          parseGroupingLabels clause = .ok (labels, rest) →
          EndsClosed (Text.trim rest) := by
    intro clause rest labels start isClause isParsed
    rw [parseGroupingLabels] at isParsed
    split at isParsed
    · cases isParsed
    · obtain ⟨inside, _, isParsed⟩ := bind_eq_ok_iff.mp isParsed
      split at isParsed
      · cases isParsed
      · obtain ⟨_, _, isParsed⟩ := bind_eq_ok_iff.mp isParsed
        obtain ⟨after, isAfter, isParsed⟩ := bind_eq_ok_iff.mp isParsed
        cases isParsed
        exact ((closed.sliceFrom isClause).trim.sliceFrom
          (orPanic_eq_ok_iff.mp isAfter)).trim
  rw [groupingModifier] at parsed
  split at parsed
  · obtain ⟨clause, isClause, parsed⟩ := bind_eq_ok_iff.mp parsed
    obtain ⟨⟨labels, after⟩, isParsed, parsed⟩ := bind_eq_ok_iff.mp parsed
    cases parsed
    exact clauseClosed (orPanic_eq_ok_iff.mp isClause) isParsed
  · split at parsed
    · obtain ⟨clause, isClause, parsed⟩ := bind_eq_ok_iff.mp parsed
      obtain ⟨⟨labels, after⟩, isParsed, parsed⟩ := bind_eq_ok_iff.mp parsed
      cases parsed
      exact clauseClosed (orPanic_eq_ok_iff.mp isClause) isParsed
    · cases parsed

theorem eq_aggregation {std : StdText} {op : Function} {expr result : Expr}
    {grouping : List String} {without : Bool} {text : Text}
    (closed : EndsClosed text)
    (parsed :
      parseAggregationTail std op expr grouping without text = .ok result) :
    ∃ grouping without, result = .aggregation op expr grouping without := by
  rw [parseAggregationTail] at parsed
  obtain ⟨modifier, isModifier, parsed⟩ := bind_eq_ok_iff.mp parsed
  have remainingClosed :
      EndsClosed (modifier.getD (grouping, without, text)).2.2 := by
    cases modifier with
    | none => exact closed
    | some clause => exact closed.of_groupingModifier isModifier
  generalize modifier.getD (grouping, without, text) = clause
    at parsed remainingClosed
  obtain ⟨labels, without, remaining⟩ := clause
  rcases finishExpr_eq_ok parsed with rfl | ⟨_, isLast, _⟩
  · exact ⟨labels, without, rfl⟩
  · rcases remainingClosed with isNil | otherLast
    · dsimp only at isNil
      rw [isNil] at isLast
      cases isLast
    · rw [otherLast] at isLast
      exact absurd isLast (by decide)

end EndsClosed

theorem ofOutcome_eq_accepted_iff
    {Result : Type} {outcome : Except Fault Result} :
    ofOutcome outcome = .accepted ↔ ∃ result, outcome = .ok result := by
  rcases outcome with (cause | _) | result <;> simp [ofOutcome]

namespace ParametricCall

variable {std : StdText} {call : ParametricCall} {selector : Text}

/--
The brackets close, and what stands in them is read as one selector, the
parameter included; what follows them is accepted.
-/
def Swallows (std : StdText) (call : ParametricCall) (selector : Text)
    (swallowed : VectorSelector) :
    Prop :=
  ∃ inner after,
    bracketed ('(' :: call.inside selector) = some (inner, after) ∧
      parseVectorSelector std inner = .ok swallowed ∧
      clauseVerdict std (trim after) finishVerdict = .accepted

theorem parsePromql_text_of_bracketed
    {inner after : Text} (noBracket : ¬HasOutermostBracket selector)
    (found :
      bracketed ('(' :: call.inside selector) = some (inner, after)) :
    parsePromql std (call.text selector) =
      (do
        let swallowed ← parseVectorSelector std inner
        parseAggregationTail std call.op (.vectorSelector swallowed) [] false
          (trim after)) := by
  obtain ⟨⟨read, unread, rfl, isSelector⟩, _⟩ :=
    exists_of_bracketed_inside found
  obtain ⟨inside, stop, isText, closes, isInner, isAfter⟩ :=
    bracketed_eq_some_iff.mp found
  obtain ⟨_, rfl⟩ := List.cons.inj isText
  have isInside :
      sliceFrom ('(' :: call.inside selector) 1 = some (call.inside selector) :=
    sliceFrom_append_cons [] _ rfl
  rw [isSelector] at noBracket
  rw [parsePromql_text, parseGroup]
  simp only [head?_cons, ne_eq, not_true_eq_false, if_false, isInside,
    orPanic_some, ok_bind, closes, slice_cons, sliceFrom_cons, isInner,
    isAfter, parsePromql_lead noBracket]
  cases parseVectorSelector std (call.lead ++ read) with
  | error fault => rfl
  | ok swallowed => rfl

theorem exists_bracketed_of_parsePromql_text
    {expr : Expr} (parsed : parsePromql std (call.text selector) = .ok expr) :
    ∃ inner after,
      bracketed ('(' :: call.inside selector) = some (inner, after) := by
  have isInside :
      sliceFrom ('(' :: call.inside selector) 1 = some (call.inside selector) :=
    sliceFrom_append_cons [] _ rfl
  rw [parsePromql_text, parseGroup] at parsed
  simp only [head?_cons, ne_eq, not_true_eq_false, if_false, isInside,
    orPanic_some, ok_bind] at parsed
  split at parsed
  · cases parsed
  · rename_i stop closes
    obtain ⟨inner, isInner, parsed⟩ := bind_eq_ok_iff.mp parsed
    obtain ⟨_, _, parsed⟩ := bind_eq_ok_iff.mp parsed
    obtain ⟨after, isAfter, _⟩ := bind_eq_ok_iff.mp parsed
    rw [orPanic_eq_ok_iff, slice_cons] at isInner
    rw [orPanic_eq_ok_iff, sliceFrom_cons] at isAfter
    exact ⟨inner, after, bracketed_eq_some_iff.mpr
      ⟨_, stop, rfl, closes, isInner, isAfter⟩⟩

theorem exists_swallows_of_parsePromql_text
    {expr : Expr} (noBracket : ¬HasOutermostBracket selector)
    (parsed : parsePromql std (call.text selector) = .ok expr) :
    ∃ swallowed grouping without,
      Swallows std call selector swallowed ∧
        expr =
          .aggregation call.op (.vectorSelector swallowed) grouping
            without := by
  obtain ⟨inner, after, found⟩ := exists_bracketed_of_parsePromql_text parsed
  rw [parsePromql_text_of_bracketed noBracket found] at parsed
  obtain ⟨swallowed, isSwallowed, parsed⟩ := bind_eq_ok_iff.mp parsed
  have closed : EndsClosed (trim after) :=
    EndsClosed.trim (exists_of_bracketed_inside found).2
  have accepted := ofOutcome_eq_accepted_iff.mpr ⟨expr, parsed⟩
  rw [ofOutcome_parseAggregationTail] at accepted
  obtain ⟨grouping, without, isExpr⟩ := closed.eq_aggregation parsed
  exact ⟨swallowed, grouping, without,
    ⟨inner, after, found, isSwallowed, accepted⟩, isExpr⟩

theorem Swallows.exists_parsed
    {swallowed : VectorSelector} (noBracket : ¬HasOutermostBracket selector)
    (swallows : Swallows std call selector swallowed) :
    ∃ grouping without,
      parsePromql std (call.text selector) =
        .ok
          (.aggregation call.op (.vectorSelector swallowed) grouping
            without) := by
  obtain ⟨inner, after, found, isSwallowed, accepted⟩ := swallows
  have closed : EndsClosed (trim after) :=
    EndsClosed.trim (exists_of_bracketed_inside found).2
  rw [parsePromql_text_of_bracketed noBracket found, isSwallowed, ok_bind]
  rw [← ofOutcome_parseAggregationTail call.op (.vectorSelector swallowed) []
    false] at accepted
  obtain ⟨expr, parsed⟩ := ofOutcome_eq_accepted_iff.mp accepted
  obtain ⟨grouping, without, rfl⟩ := closed.eq_aggregation parsed
  exact ⟨grouping, without, parsed⟩

end ParametricCall

end ChronoDB.Query
