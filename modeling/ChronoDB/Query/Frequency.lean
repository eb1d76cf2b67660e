import ChronoDB.Library.StableSort
import ChronoDB.Library.Utf8Text
import Mathlib.Data.Char
import Mathlib.Data.List.Lex

namespace ChronoDB.Query

open Library Text

/-!
# The normal form of queries

The text of a query is rewritten in passes: white space, range durations, label
matchers and constants.  The passes use regular expressions, whose classes of
characters beyond ASCII are a parameter.
-/

/-- The classes of the regular expressions. -/
structure RegexClasses where
  digit : Char → Bool
  word : Char → Bool
  digit_ascii : ∀ char, char.toNat < 128 → digit char = char.isDigit
  word_ascii : ∀ char, char.toNat < 128 →
    word char = (char.isAlphanum || char == '_')

def RegexClasses.ascii : RegexClasses where
  digit := Char.isDigit
  word := fun char => char.isAlphanum || char == '_'
  digit_ascii := fun _ _ => rfl
  word_ascii := fun _ _ => rfl

/-- The length of a match at the start of a text and what replaces it. -/
abbrev Replacement :=
  Option (ℕ × Text)

/--
`replace_all`: leftmost matches that do not overlap.  A rule sees the character
before the text, and `skip` characters of the last match are still ahead.
-/
def replaceAll (rule : Option Char → Text → Replacement) :
    Option Char → ℕ → Text → Text
  | _, _, [] => []
  | _, skip + 1, char :: rest => replaceAll rule (some char) skip rest
  | previous, 0, char :: rest =>
    match rule previous (char :: rest) with
    | some (length, replacement) =>
      replacement ++ replaceAll rule (some char) (length - 1) rest
    | none => char :: replaceAll rule (some char) 0 rest

/-- `replace("  ", " ")`: one pass over the text. -/
def replaceDoubleSpaces : Text → Text
  | ' ' :: ' ' :: rest => ' ' :: replaceDoubleSpaces rest
  | char :: rest => char :: replaceDoubleSpaces rest
  | [] => []

/-- Whether a text has two spaces in a row. -/
def hasDoubleSpace : Text → Bool
  | ' ' :: ' ' :: _ => true
  | _ :: rest => hasDoubleSpace rest
  | [] => false

theorem length_replaceDoubleSpaces_le (text : Text) :
    (replaceDoubleSpaces text).length ≤ text.length := by
  fun_induction replaceDoubleSpaces text with
  | case1 rest inductionHypothesis =>
    simp only [List.length_cons]
    omega
  | case2 char rest _ inductionHypothesis =>
    simpa only [List.length_cons, Nat.add_le_add_iff_right]
  | case3 => exact Nat.le_refl 0

theorem length_replaceDoubleSpaces_lt
    {text : Text} (double : hasDoubleSpace text = true) :
    (replaceDoubleSpaces text).length < text.length := by
  fun_induction replaceDoubleSpaces text with
  | case1 rest _ =>
    have shorter := length_replaceDoubleSpaces_le rest
    simp only [List.length_cons]
    omega
  | case2 char rest notDouble inductionHypothesis =>
    rw [hasDoubleSpace] at double
    · have shorter := inductionHypothesis double
      simpa only [List.length_cons, Nat.add_lt_add_iff_right]
    · exact notDouble
  | case3 => cases double

/-- The loop that replaces two spaces by one until there are none. -/
def collapseSpaces (text : Text) : Text :=
  if hasDoubleSpace text = true then
    collapseSpaces (replaceDoubleSpaces text)
  else
    text
termination_by text.length
decreasing_by
  exact length_replaceDoubleSpaces_lt ‹_›

/-- A text without the spaces that stand before a space. -/
def dropRepeatedSpaces : Text → Text
  | [] => []
  | char :: rest =>
    if char = ' ' ∧ rest.head? = some ' ' then
      dropRepeatedSpaces rest
    else
      char :: dropRepeatedSpaces rest

theorem head_replaceDoubleSpaces (text : Text) :
    (replaceDoubleSpaces text).head? = text.head? := by
  fun_cases replaceDoubleSpaces text <;> rfl

theorem dropRepeatedSpaces_replaceDoubleSpaces (text : Text) :
    dropRepeatedSpaces (replaceDoubleSpaces text) =
      dropRepeatedSpaces text := by
  fun_induction replaceDoubleSpaces text with
  | case1 rest inductionHypothesis =>
    have repeated :
        dropRepeatedSpaces (' ' :: ' ' :: rest) =
          dropRepeatedSpaces (' ' :: rest) :=
      if_pos ⟨rfl, rfl⟩
    rw [repeated, dropRepeatedSpaces, head_replaceDoubleSpaces,
      inductionHypothesis, dropRepeatedSpaces]
  | case2 char rest _ inductionHypothesis =>
    rw [dropRepeatedSpaces, head_replaceDoubleSpaces, inductionHypothesis,
      dropRepeatedSpaces]
  | case3 => rfl

theorem dropRepeatedSpaces_eq_self
    {text : Text} (single : ¬hasDoubleSpace text = true) :
    dropRepeatedSpaces text = text := by
  induction text with
  | nil => rfl
  | cons char rest inductionHypothesis =>
    rw [dropRepeatedSpaces, if_neg]
    · refine congrArg (char :: ·) (inductionHypothesis fun double => single ?_)
      rw [hasDoubleSpace.eq_def]
      split <;> simp_all
    · rintro ⟨rfl, next⟩
      obtain ⟨others, rfl⟩ := List.head?_eq_some_iff.mp next
      exact single rfl

theorem collapseSpaces_eq (text : Text) :
    collapseSpaces text = dropRepeatedSpaces text := by
  fun_induction collapseSpaces text with
  | case1 text _ inductionHypothesis =>
    rw [inductionHypothesis, dropRepeatedSpaces_replaceDoubleSpaces]
  | case2 text single => exact (dropRepeatedSpaces_eq_self single).symm

variable (classes : RegexClasses)

/-- A match of a range duration: an opening bracket, digits and a unit. -/
def durationRule (_previous : Option Char) : Text → Replacement
  | '[' :: rest =>
    match rest.dropWhile classes.digit with
    | unit :: ']' :: _ =>
      let digits := rest.takeWhile classes.digit
      if digits ≠ [] ∧ unit ∈ "smhdwy".toList then
        some (digits.length + 3, "[DURATION]".toList)
      else
        none
    | _ => none
  | _ => none

def removeTimeParameters (query : Text) : Text :=
  replaceAll (durationRule classes) none 0 query

/-- A match of braces around at least one character other than `}`. -/
def labelsRule (_previous : Option Char) : Text → Replacement
  | '{' :: rest =>
    let labelsStr := rest.takeWhile (· ≠ '}')
    if labelsStr ≠ [] ∧ (rest.dropWhile (· ≠ '}')).head? = some '}' then
      let labels := sortByKey id ((labelsStr.splitOn ',').map trim)
      some (labelsStr.length + 2,
        '{' :: (", ".toList.intercalate labels ++ ['}']))
    else
      none
  | _ => none

def sortLabelMatchers (query : Text) : Text :=
  replaceAll labelsRule none 0 query

/-- Whether an optional character is one of a word. -/
def wordAt (char : Option Char) : Bool :=
  (char.map classes.word).getD false

/-- A match of a word on its own. -/
def constantRule
    (constant replacement : Text) (previous : Option Char) (text : Text) :
    Replacement :=
  if wordAt classes previous ≠ wordAt classes text.head? ∧
      constant.isPrefixOf text = true ∧
      wordAt classes constant.getLast? ≠
        wordAt classes (text.drop constant.length).head? then
    some (constant.length, replacement)
  else
    none

def constantReplacements : List (String × String) :=
  [("true", "TRUE"), ("false", "FALSE"), ("inf", "INF"), ("nan", "NAN")]

def simplifyConstants (query : Text) : Text :=
  constantReplacements.foldl
    (fun result change =>
      replaceAll (constantRule classes change.1.toList change.2.toList)
        none 0 result)
    query

/-- `replace` of one character by another. -/
def replaceChar (old new : Char) (text : Text) : Text :=
  text.map fun char => if char = old then new else char

def normalizeQuery (query : Text) : Text :=
  let normalized := trim query
  let normalized := replaceChar '\n' ' ' normalized
  let normalized := replaceChar '\t' ' ' normalized
  let normalized := collapseSpaces normalized
  let normalized := removeTimeParameters classes normalized
  let normalized := sortLabelMatchers normalized
  let normalized := simplifyConstants classes normalized
  trim normalized

theorem normalizeQuery_eq (query : Text) :
    normalizeQuery classes query =
      trim (simplifyConstants classes (sortLabelMatchers
        (removeTimeParameters classes (dropRepeatedSpaces
          (replaceChar '\t' ' ' (replaceChar '\n' ' ' (trim query))))))) := by
  rw [normalizeQuery, collapseSpaces_eq]

example :
    normalizeQuery .ascii "rate( up [5m])  + true".toList =
      "rate( up [DURATION]) + TRUE".toList := by
  rw [normalizeQuery_eq]
  decide

end ChronoDB.Query
