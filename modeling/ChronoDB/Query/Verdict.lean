import ChronoDB.Query.Searches

namespace ChronoDB.Query

open Library Text

/-!
# Verdicts on queries

How the reading of a query ends, from its text alone: it is accepted, it is
rejected with an error, or it breaks.  A verdict follows the parts of a text in
the order in which they are read and stops at the first one that is not accepted.
A text breaks where a duration overflows, a value is a lone quote, an opening
brace has no room for its closing one, or a cut falls outside the text or inside
a character.
-/

inductive Verdict where
  | accepted
  | rejected
  | broken
  deriving Repr, DecidableEq

namespace Verdict

/-- The verdict on two parts that are read one after the other. -/
def andThen : Verdict → Verdict → Verdict
  | accepted, next => next
  | rejected, _ => rejected
  | broken, _ => broken

/-- Parts that are read in their order. -/
def all (verdicts : List Verdict) : Verdict :=
  verdicts.foldr andThen accepted

/-- How a computation ended. -/
def ofOutcome {Result : Type} : Except Fault Result → Verdict
  | .ok _ => accepted
  | .error (.error _) => rejected
  | .error .panic => broken

end Verdict

/-!
## Parts that are read without recursion
-/

/-- Digits and a unit, whose product with the unit must fit in 64 bits. -/
def durationVerdict (text : Text) : Verdict :=
  let digits := (trim text).takeWhile Char.isDigit
  if digits = [] ∨ maxI64 < digitsValue digits then .rejected
  else
    match unitSeconds ((trim text).dropWhile Char.isDigit) with
    | none => .rejected
    | some factor =>
      if digitsValue digits * factor * 1000 ≤ maxI64 then .accepted
      else .broken

/-- A duration with or without a sign. -/
def offsetVerdict (text : Text) : Verdict :=
  match trim text with
  | '-' :: rest => durationVerdict rest
  | '+' :: rest => durationVerdict rest
  | _ => durationVerdict text

/-- `start()`, `end()` or a number. -/
def atVerdict (std : StdText) (text : Text) : Verdict :=
  if (trim text).map Char.toLower = "start()".toList ∨
      (trim text).map Char.toLower = "end()".toList ∨
      (std.parseTimestamp (trim text)).isSome then
    .accepted
  else .rejected

/-- The value of a matcher is one quote, which opens and closes it at once. -/
def IsLoneQuote (part : Text) : Prop :=
  trim (part.dropWhile (· ≠ '=')).tail ∈ [['"'], ['\'']]

instance decidableIsLoneQuote (part : Text) : Decidable (IsLoneQuote part) :=
  inferInstanceAs (Decidable (_ ∈ _))

def matchersVerdict (text : Text) : Verdict :=
  if ∃ part ∈ text.splitOn ',', IsLoneQuote (trim part) then .broken
  else .accepted

/-- A name, or a name and matchers up to a last character of one byte. -/
def baseVerdict (base : Text) : Verdict :=
  match base.dropWhile (· ≠ '{') with
  | [] => .accepted
  | _ :: inside =>
    match inside.getLast? with
    | none => .broken
    | some last =>
      if last.utf8Size = 1 then matchersVerdict inside.dropLast
      else .broken

/-- The text before and after the `@` that the parser finds. -/
def atCut (text : Text) : Option (Text × Text) :=
  (splitAtModifier text).toOption.join

def modifiersVerdict (std : StdText) (text : Text) : Verdict :=
  match atCut text with
  | none => baseVerdict text
  | some (base, atPart) => (atVerdict std atPart).andThen (baseVerdict base)

/-- A selector; an offset is cut out where it stands in the lower-case text. -/
def selectorVerdict (std : StdText) (text : Text) : Verdict :=
  match findPattern " offset ".toList (std.toLowercase (trim text)) with
  | none => modifiersVerdict std (trim text)
  | some offsetIdx =>
    match sliceTo (trim text) offsetIdx,
        sliceFrom (trim text) (offsetIdx + 8) with
    | some before, some after =>
      (offsetVerdict
          (((atCut (trim after)).map Prod.fst).getD (trim after))).andThen
        (modifiersVerdict std before)
    | _, _ => .broken

/-- Two durations in square brackets. -/
def suffixVerdict (text : Text) : Verdict :=
  if text.head? ≠ some '[' ∨ text.getLast? ≠ some ']' then .rejected
  else
    match text.tail.dropLast.splitOn ':' with
    | [range, resolution] =>
      (durationVerdict range).andThen (durationVerdict resolution)
    | _ => .rejected

/-- What follows a complete expression. -/
def finishVerdict (text : Text) : Verdict :=
  if isSubquerySuffix text then suffixVerdict text else .accepted

/-!
## Brackets
-/

/--
The text up to a closing bracket and the text after it.  The position counts
characters and is used as a byte offset.
-/
def cutVerdict
    (inside : Text) (stop : ℕ) (readInner readRest : Text → Verdict) :
    Verdict :=
  match sliceTo inside stop with
  | none => .broken
  | some inner =>
    (readInner inner).andThen
      (match sliceFrom inside (stop + 1) with
      | none => .broken
      | some rest => readRest rest)

/-- A text in brackets and the text after it. -/
def groupVerdict (text : Text) (readInner readRest : Text → Verdict) :
    Verdict :=
  match text with
  | '(' :: inside =>
    match closingParen inside with
    | none => .rejected
    | some stop => cutVerdict inside stop readInner readRest
  | _ => .rejected

/-- A `by` or `without` clause, if there is one, and what follows it. -/
def clauseVerdict (std : StdText) (text : Text) (next : Text → Verdict) :
    Verdict :=
  let readClause := fun length =>
    groupVerdict (trim (text.drop length)) (fun _ => .accepted) fun rest =>
      next (trim rest)
  if "by ".toList.isPrefixOf (std.toLowercase text) then readClause 3
  else if "without ".toList.isPrefixOf (std.toLowercase text) then
    readClause 8
  else next text

/-- How a character changes the depth between arguments. -/
def argumentStep (char : Char) : ℤ :=
  if char = '(' ∨ char = '[' ∨ char = '{' then 1
  else if char = ')' ∨ char = ']' ∨ char = '}' then -1
  else 0

/-- The arguments of a call, cut at the commas outside of all brackets. -/
def splitArguments (depth : ℤ) : Text → List Text
  | [] => [[]]
  | char :: rest =>
    if char = ',' ∧ depth = 0 then [] :: splitArguments depth rest
    else
      (splitArguments (depth + argumentStep char) rest).modifyHead (char :: ·)

/-!
## Expressions
-/

section Recursion

variable (std : StdText) (recurse : Text → Verdict)

/-- An aggregation, from the text after its name. -/
def aggregationVerdict (afterFunc : Text) : Verdict :=
  clauseVerdict std afterFunc fun exprStr =>
    groupVerdict exprStr recurse fun afterExpr =>
      clauseVerdict std (trim afterExpr) finishVerdict

def argumentsVerdict (text : Text) : Verdict :=
  if trim text = [] then .accepted
  else .all ((splitArguments 0 text).map recurse)

/-- A call, from the text after its opening bracket. -/
def callVerdict (inside : Text) : Verdict :=
  cutVerdict inside ((closingParen inside).getD 0) (argumentsVerdict recurse)
    fun rest => finishVerdict (trim rest)

/-- A subquery or a matrix selector, from the position of its bracket. -/
def bracketVerdict (query : Text) (bracketIdx : ℕ) : Verdict :=
  match sliceTo query bracketIdx,
      slice query (bracketIdx + 1) (byteLength query - 1) with
  | some exprPart, some inner =>
    match inner.splitOn ':' with
    | [range, resolution] =>
      Verdict.all
        [durationVerdict range, durationVerdict resolution,
          recurse (trim exprPart)]
    | _ => (durationVerdict inner).andThen (selectorVerdict std exprPart)
  | _, _ => .broken

/-- A text that starts with neither an aggregation nor a call. -/
def plainVerdict (query : Text) : Verdict :=
  match (findOutermostBracket query).toOption.join with
  | some bracketIdx => bracketVerdict std recurse query bracketIdx
  | none => selectorVerdict std query

def levelVerdict (query : Text) : Verdict :=
  let before := trim ((trim query).takeWhile (· ≠ '('))
  match (trim query).dropWhile (· ≠ '(') with
  | [] => plainVerdict std recurse (trim query)
  | _ :: inside =>
    match aggregationNamed before with
    | some op =>
      aggregationVerdict std recurse
        (trim ((trim query).drop op.name.toList.length))
    | none =>
      if (functionNamed before).isSome then callVerdict recurse inside
      else plainVerdict std recurse (trim query)

end Recursion

def depthVerdict (std : StdText) : ℕ → Text → Verdict
  | 0 => fun _ => .broken
  | depth + 1 => levelVerdict std (depthVerdict std depth)

/-- How the reading of a query ends. -/
def queryVerdict (std : StdText) (query : Text) : Verdict :=
  depthVerdict std (query.length + 1) query

end ChronoDB.Query
