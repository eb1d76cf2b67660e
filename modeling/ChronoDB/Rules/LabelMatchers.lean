import ChronoDB.Query.Searches

namespace ChronoDB.Rules

open Library Text Query

/-!
# Matchers of a rule expression

Rules do not use the query parser.  Their expressions are searched for brackets,
and what stands between the first opening and the last closing one is taken for
a selector.
-/

/-- The byte offset of the last character with a property. -/
def rfind (property : Char → Bool) : Text → Option ℕ
  | [] => none
  | char :: rest =>
    match rfind property rest with
    | some offset => some (char.utf8Size + offset)
    | none => if property char then some 0 else none

/-- `trim_matches` with one character. -/
def trimMatches (char : Char) (text : Text) : Text :=
  (text.dropWhile (· == char)).rdropWhile (· == char)

/-- The text between the outermost round brackets, if it has any. -/
def insideParens (query : Text) : Except Fault Text :=
  match find (· == '(') query, rfind (· == ')') query with
  | some start, some stop => do
    let inside ← orPanic (slice query (start + 1) stop)
    .ok (trim inside)
  | _, _ => .ok query

/-- One matcher; a part without exactly one `=` is passed over. -/
def parseLabel (label : Text) : Option (String × String) :=
  match label.splitOn '=' with
  | [name, value] =>
    some (String.ofList (trim name),
      String.ofList (trimMatches '\'' (trimMatches '"' (trim value))))
  | _ => none

/-- The matchers between the first curly brackets. -/
def parseBraces (query : Text) : Except Fault (List (String × String)) :=
  match find (· == '{') query, find (· == '}') query with
  | some start, some stop => do
    let labelsStr ← orPanic (slice query (start + 1) stop)
    .ok ((labelsStr.splitOn ',').filterMap parseLabel)
  | _, _ => .ok []

def parseLabelMatchers (query : Text) :
    Except Fault (List (String × String)) := do
  let processed ← insideParens (trim query)
  let name ←
    match find (· == '{') processed with
    | some start => orPanic (sliceTo processed start)
    | none => .ok processed
  let metricName := trim name
  let matchers ← parseBraces processed
  .ok
    ((if metricName = [] then []
      else [("__name__", String.ofList metricName)]) ++ matchers)

/-- The expression of an ordinary rule. -/
example :
    parseLabelMatchers "avg(cpu\x7bhost = \"a\",x\x7d)".toList =
      .ok [("__name__", "cpu"), ("host", "a")] := by
  decide

end ChronoDB.Rules
