import ChronoDB.Query.Totality

namespace ChronoDB.Query

open Library Text Verdict List

/-!
# Complete expressions

A call or an aggregation is complete when its closing bracket stands in the text.
It is the same expression whatever follows the bracket, and the parser reads it
and the text after it separately.
-/

/-!
## Where an expression ends
-/

/-- The text in brackets at the start of a text, and the text after them. -/
def bracketed (text : Text) : Option (Text × Text) :=
  match trimStart text with
  | '(' :: inside => do
    let stop ← closingParen inside
    let inner ← sliceTo inside stop
    let after ← sliceFrom inside (stop + 1)
    some (inner, after)
  | _ => none

/-- Whether a clause leaves its labels out, and the text after its keyword. -/
def clauseText (std : StdText) (text : Text) : Option (Bool × Text) :=
  if "by ".toList.isPrefixOf (std.toLowercase (trimStart text)) then
    some (false, (trimStart text).drop 3)
  else if "without ".toList.isPrefixOf (std.toLowercase (trimStart text)) then
    some (true, (trimStart text).drop 8)
  else
    none

def groupingLabels (labelsStr : Text) : List String :=
  (((labelsStr.splitOn ',').map trim).filter fun label => label ≠ []).map
    String.ofList

/-- A call or an aggregation up to its closing bracket, and the text after it. -/
inductive Complete where
  | call (func : Function) (inner after : Text)
  | aggregation
      (op : Function)
      (grouping : List String)
      (without : Bool)
      (inner after : Text)
  deriving Repr, DecidableEq

/-- An aggregation, from the text after its name. -/
def completeAggregation (std : StdText) (op : Function) (text : Text) :
    Option Complete :=
  match clauseText std text with
  | none => do
    let (inner, after) ← bracketed text
    some (.aggregation op [] false inner after)
  | some (without, clause) => do
    let (labels, exprStr) ← bracketed clause
    let (inner, after) ← bracketed exprStr
    some (.aggregation op (groupingLabels labels) without inner after)

def complete (std : StdText) (text : Text) : Option Complete :=
  let before := trim ((trimStart text).takeWhile (· ≠ '('))
  match aggregationNamed before with
  | some op =>
    completeAggregation std op ((trimStart text).drop op.name.toList.length)
  | none => do
    let func ← functionNamed before
    let (inner, after) ← bracketed ((trimStart text).dropWhile (· ≠ '('))
    some (.call func inner after)

/-- The same expression with more text after it. -/
def Complete.append (expr : Complete) (more : Text) : Complete :=
  match expr with
  | .call func inner after => .call func inner (after ++ more)
  | .aggregation op grouping without inner after =>
    .aggregation op grouping without inner (after ++ more)

theorem bracketed_eq_some_iff {text inner after : Text} :
    bracketed text = some (inner, after) ↔
      ∃ inside stop,
        trimStart text = '(' :: inside ∧
          closingParen inside = some stop ∧
            sliceTo inside stop = some inner ∧
              sliceFrom inside (stop + 1) = some after := by
  rw [bracketed]
  split
  · rename_i inside isText
    simp only [Option.bind_eq_bind, Option.bind_eq_some_iff, isText,
      List.cons.injEq, true_and, Option.some.injEq, Prod.mk.injEq]
    constructor
    · rintro ⟨stop, closes, _, isInner, _, isAfter, rfl, rfl⟩
      exact ⟨inside, stop, rfl, closes, isInner, isAfter⟩
    · rintro ⟨_, stop, rfl, closes, isInner, isAfter⟩
      exact ⟨stop, closes, inner, isInner, after, isAfter, rfl, rfl⟩
  · rename_i notOpened
    refine iff_of_false nofun ?_
    rintro ⟨inside, _, isText, _⟩
    exact notOpened inside isText

theorem exists_of_closingFrom {depth index stop : ℕ} {text : Text}
    (closes : closingFrom depth index text = some stop) :
    ∃ before after,
      text = before ++ ')' :: after ∧
        stop = index + before.length ∧
          ∀ other,
            closingFrom depth index (before ++ ')' :: other) = some stop := by
  induction text generalizing depth index with
  | nil => cases closes
  | cons char rest inductionHypothesis =>
    rw [closingFrom] at closes
    split at closes
    · rename_i opens
      obtain ⟨before, after, rfl, rfl, again⟩ := inductionHypothesis closes
      refine ⟨char :: before, after, rfl, by simp; omega, fun other => ?_⟩
      rw [cons_append, closingFrom, if_pos opens]
      exact again other
    · rename_i notOpens
      split at closes
      · rename_i isClosing
        split at closes
        · rename_i isLast
          cases closes
          subst isClosing
          refine ⟨[], rest, rfl, rfl, fun other => ?_⟩
          rw [nil_append, closingFrom, if_neg notOpens, if_pos rfl,
            if_pos isLast]
        · rename_i notLast
          obtain ⟨before, after, rfl, rfl, again⟩ := inductionHypothesis closes
          refine ⟨char :: before, after, rfl, by simp; omega, fun other => ?_⟩
          rw [cons_append, closingFrom, if_neg notOpens,
            if_pos isClosing, if_neg notLast]
          exact again other
      · rename_i notClosing
        obtain ⟨before, after, rfl, rfl, again⟩ := inductionHypothesis closes
        refine ⟨char :: before, after, rfl, by simp; omega, fun other => ?_⟩
        rw [cons_append, closingFrom, if_neg notOpens, if_neg notClosing]
        exact again other

/--
The cuts at a closing bracket depend on the text up to the bracket only, so
that they are the same with any other text after it.
-/
theorem exists_of_cut {inside inner after : Text} {stop : ℕ}
    (closes : closingParen inside = some stop)
    (isInner : sliceTo inside stop = some inner)
    (isAfter : sliceFrom inside (stop + 1) = some after) :
    ∃ before middle rest,
      inside = before ++ ')' :: rest ∧
        after = middle ++ rest ∧
          ∀ other,
            closingParen (before ++ ')' :: other) = some stop ∧
              sliceTo (before ++ ')' :: other) stop = some inner ∧
                sliceFrom (before ++ ')' :: other) (stop + 1) =
                  some (middle ++ other) := by
  obtain ⟨before, rest, rfl, isStop, again⟩ := exists_of_closingFrom closes
  rw [Nat.zero_add] at isStop
  have bytes := length_le_byteLength before
  obtain ⟨innerRest, isText, innerBytes⟩ := sliceTo_eq_some_iff.mp isInner
  obtain ⟨skipped, isSkipped, skippedBytes⟩ := sliceFrom_eq_some_iff.mp isAfter
  obtain ⟨innerMiddle, isBefore, _⟩ :=
    exists_append_of_byteLength_le isText.symm (by omega)
  have closeByte : Char.utf8Size ')' = 1 := rfl
  have isSplit : skipped ++ after = (before ++ [')']) ++ rest := by
    rw [← isSkipped]
    simp
  obtain ⟨middle, isMiddle, rfl⟩ :=
    exists_append_of_byteLength_le isSplit (by simp [closeByte]; omega)
  refine ⟨before, middle, rest, rfl, rfl, fun other => ⟨again other, ?_, ?_⟩⟩
  · exact sliceTo_eq_some_iff.mpr
      ⟨innerMiddle ++ ')' :: other, by rw [isBefore]; simp, innerBytes⟩
  · refine sliceFrom_eq_some_iff.mpr ⟨skipped, ?_, skippedBytes⟩
    rw [← append_assoc, ← isMiddle]
    simp

theorem bracketed_append
    {text inner after : Text} (found : bracketed text = some (inner, after))
    (more : Text) :
    bracketed (text ++ more) = some (inner, after ++ more) := by
  obtain ⟨inside, stop, isText, closes, isInner, isAfter⟩ :=
    bracketed_eq_some_iff.mp found
  obtain ⟨before, middle, rest, rfl, rfl, again⟩ :=
    exists_of_cut closes isInner isAfter
  obtain ⟨closesAgain, isInnerAgain, isAfterAgain⟩ := again (rest ++ more)
  refine bracketed_eq_some_iff.mpr ⟨before ++ ')' :: (rest ++ more), stop, ?_,
    closesAgain, isInnerAgain, by rw [isAfterAgain, append_assoc]⟩
  rw [trimStart_append (by rw [isText]; exact cons_ne_nil _ _), isText]
  simp

theorem exists_of_bracketed
    {text inner after : Text} (found : bracketed text = some (inner, after)) :
    ∃ inside stop rest,
      trim text = '(' :: inside ∧
        closingParen inside = some stop ∧
          sliceTo inside stop = some inner ∧
            sliceFrom inside (stop + 1) = some rest ∧
              trim rest = trim after := by
  obtain ⟨inside, stop, isText, closes, isInner, isAfter⟩ :=
    bracketed_eq_some_iff.mp found
  obtain ⟨before, middle, rest, rfl, rfl, again⟩ :=
    exists_of_cut closes isInner isAfter
  obtain ⟨closesAgain, isInnerAgain, isAfterAgain⟩ := again (trimEnd rest)
  refine ⟨before ++ ')' :: trimEnd rest, stop, middle ++ trimEnd rest, ?_,
    closesAgain, isInnerAgain, isAfterAgain, trim_append_trimEnd middle rest⟩
  rw [trim, isText, ← cons_append, trimEnd_append_cons _ _ (by decide)]
  rfl

theorem exists_trim_append (text : Text) :
    ∃ blank, trim text ++ blank = trimStart text :=
  rdropWhile_prefix _ _

/-!
## Grouping clauses
-/

theorem parseGroupingLabels_of_bracketed
    {text labels after : Text} (found : bracketed text = some (labels, after)) :
    ∃ rest,
      parseGroupingLabels text = .ok (groupingLabels labels, rest) ∧
        trim rest = trim after := by
  obtain ⟨inside, stop, rest, isText, closes, isLabels, isRest, sameRest⟩ :=
    exists_of_bracketed found
  have isInside : sliceFrom ('(' :: inside) 1 = some inside :=
    sliceFrom_append_cons [] inside rfl
  refine ⟨rest, ?_, sameRest⟩
  rw [parseGroupingLabels, isText]
  simp only [head?_cons, ne_eq, not_true_eq_false, if_false, isInside,
    orPanic_some, ok_bind, closes, slice_cons, sliceFrom_cons, isLabels, isRest]
  rfl

theorem exists_bracketed_of_parseGroupingLabels
    {text rest : Text} {labels : List String}
    (parsed : parseGroupingLabels text = .ok (labels, rest)) :
    ∃ inner after, bracketed text = some (inner, after) := by
  rw [parseGroupingLabels] at parsed
  by_cases opens : (trim text).head? = some '('
  · obtain ⟨inside, isText⟩ := head?_eq_some_iff.mp opens
    have isInside : sliceFrom ('(' :: inside) 1 = some inside :=
      sliceFrom_append_cons [] inside rfl
    rw [isText] at parsed
    simp only [head?_cons, ne_eq, not_true_eq_false, if_false, isInside,
      orPanic_some, ok_bind] at parsed
    split at parsed
    · cases parsed
    · rename_i stop closes
      rw [slice_cons, sliceFrom_cons] at parsed
      obtain ⟨inner, isInner, parsed⟩ := bind_eq_ok_iff.mp parsed
      obtain ⟨after, isAfter, _⟩ := bind_eq_ok_iff.mp parsed
      rw [orPanic_eq_ok_iff] at isInner isAfter
      obtain ⟨before, middle, others, rfl, rfl, again⟩ :=
        exists_of_cut closes isInner isAfter
      obtain ⟨blank, isBlank⟩ := exists_trim_append text
      obtain ⟨closesAgain, isInnerAgain, isAfterAgain⟩ :=
        again (others ++ blank)
      refine ⟨inner, middle ++ (others ++ blank), bracketed_eq_some_iff.mpr
        ⟨before ++ ')' :: (others ++ blank), stop, ?_, closesAgain,
          isInnerAgain, isAfterAgain⟩⟩
      rw [← isBlank, isText]
      simp
  · rw [if_pos opens] at parsed
    cases parsed

section Clauses

variable {std : StdText} {text : Text}

theorem toLowercase_append (first second : Text) :
    std.toLowercase (first ++ second) =
      std.toLowercase first ++ std.toLowercase second :=
  flatMap_append

theorem isPrefixOf_toLowercase_append
    {keyword : Text} (starts : keyword.isPrefixOf (std.toLowercase text) = true)
    (more : Text) :
    keyword.isPrefixOf (std.toLowercase (text ++ more)) = true := by
  rw [List.isPrefixOf_iff_prefix] at starts ⊢
  rw [toLowercase_append]
  exact starts.trans (prefix_append _ _)

theorem not_by_of_without
    (startsWithout :
      "without ".toList.isPrefixOf (std.toLowercase text) = true) :
    ¬"by ".toList.isPrefixOf (std.toLowercase text) = true := by
  intro startsBy
  obtain ⟨afterBy, isBy⟩ := isPrefixOf_iff_prefix.mp startsBy
  obtain ⟨afterWithout, isWithout⟩ := isPrefixOf_iff_prefix.mp startsWithout
  have same := congrArg List.head? (isBy.trans isWithout.symm)
  revert same
  simp

theorem clauseText_eq_none
    {char : Char} {rest : Text} (isText : trimStart text = char :: rest)
    (isBracket : char ∈ ['(', '[']) :
    clauseText std text = none := by
  have isPlain :
      ∀ char ∈ ['(', '['],
        char.toNat < 128 ∧ char.toLower = char ∧ char ≠ 'b' ∧ char ≠ 'w' := by
    decide
  obtain ⟨isAscii, isLower, notB, notW⟩ := isPlain char isBracket
  have lowered :
      std.toLowercase (trimStart text) = char :: std.toLowercase rest := by
    rw [isText, StdText.toLowercase, flatMap_cons,
      std.lowercase_ascii char isAscii, isLower]
    rfl
  have notBy :
      ¬"by ".toList.isPrefixOf (std.toLowercase (trimStart text)) = true := by
    rw [lowered, isPrefixOf_iff_prefix]
    exact fun starts => notB (cons_prefix_cons.mp starts).1.symm
  have notWithout :
      ¬"without ".toList.isPrefixOf (std.toLowercase (trimStart text)) =
        true := by
    rw [lowered, isPrefixOf_iff_prefix]
    exact fun starts => notW (cons_prefix_cons.mp starts).1.symm
  rw [clauseText, if_neg notBy, if_neg notWithout]

theorem groupingModifier_of_clauseText_eq_none
    (noClause : clauseText std text = none) :
    groupingModifier std (trim text) = .ok none := by
  obtain ⟨blank, isBlank⟩ := exists_trim_append text
  rw [clauseText] at noClause
  split at noClause
  · cases noClause
  · rename_i notBy
    split at noClause
    · cases noClause
    · rename_i notWithout
      rw [groupingModifier, if_neg, if_neg]
      · intro starts
        have startsLonger := isPrefixOf_toLowercase_append starts blank
        rw [isBlank] at startsLonger
        exact notWithout startsLonger
      · intro starts
        have startsLonger := isPrefixOf_toLowercase_append starts blank
        rw [isBlank] at startsLonger
        exact notBy startsLonger

theorem exists_keyword
    {keyword : Text} (isAscii : ∀ char ∈ keyword, char.toNat < 128 ∧ char ≠ 'k')
    (isLast : ∀ char ∈ keyword.getLast?, char ≠ 'i')
    (starts :
      keyword.isPrefixOf (std.toLowercase (trimStart text)) = true)
    (visible : trimStart ((trimStart text).drop keyword.length) ≠ []) :
    keyword.isPrefixOf (std.toLowercase (trim text)) = true ∧
      sliceFrom (trim text) keyword.length =
        some (trimEnd ((trimStart text).drop keyword.length)) := by
  obtain ⟨first, rest, isText, isKeyword, sameLength, sameBytes⟩ :=
    exists_of_isPrefix_toLowercase isAscii isLast
      (List.isPrefixOf_iff_prefix.mp starts)
  rw [isText, ← sameLength, drop_left] at visible ⊢
  have isTrimmed : trim text = first ++ trimEnd rest := by
    rcases exists_visible_or_blank rest with
      ⟨before, char, after, rfl, charVisible⟩ | blank
    · rw [trim, isText, ← append_assoc, trimEnd_append_cons _ _ charVisible,
        trimEnd_append_cons _ _ charVisible, append_assoc]
    · exact absurd (trimStart_eq_nil blank) visible
  rw [isTrimmed]
  refine ⟨?_, ?_⟩
  · rw [List.isPrefixOf_iff_prefix, toLowercase_append, isKeyword]
    exact prefix_append _ _
  · rw [sameLength, ← sameBytes, sliceFrom_append]

theorem groupingModifier_of_clauseText
    {without : Bool} {clause labels after : Text}
    (isClause : clauseText std text = some (without, clause))
    (found : bracketed clause = some (labels, after)) :
    groupingModifier std (trim text) =
      .ok (some (groupingLabels labels, without, trim after)) := by
  have visible : trimStart clause ≠ [] := by
    obtain ⟨inside, _, isText, _⟩ := bracketed_eq_some_iff.mp found
    rw [isText]
    exact cons_ne_nil _ _
  obtain ⟨rest, isParsed, sameRest⟩ := parseGroupingLabels_of_bracketed found
  have parsed :
      parseGroupingLabels (trimEnd clause) =
        .ok (groupingLabels labels, rest) := by
    rw [← isParsed, parseGroupingLabels, parseGroupingLabels, trim_trimEnd]
  rw [clauseText] at isClause
  split at isClause
  · rename_i starts
    cases isClause
    obtain ⟨startsTrimmed, isSlice⟩ :=
      exists_keyword (by decide) (by decide) starts visible
    rw [groupingModifier, if_pos startsTrimmed, show sliceFrom (trim text) 3 =
      some (trimEnd ((trimStart text).drop 3)) from isSlice, orPanic_some,
      ok_bind, parsed, ok_bind]
    dsimp only
    rw [sameRest]
  · split at isClause
    · rename_i starts
      cases isClause
      obtain ⟨startsTrimmed, isSlice⟩ :=
        exists_keyword (by decide) (by decide) starts visible
      rw [groupingModifier, if_neg (not_by_of_without startsTrimmed), if_pos
        startsTrimmed, show sliceFrom (trim text) 8 = some (trimEnd ((trimStart
        text).drop 8)) from isSlice, orPanic_some, ok_bind, parsed, ok_bind]
      dsimp only
      rw [sameRest]
    · cases isClause

theorem clauseText_append {without : Bool} {clause : Text}
    (isClause : clauseText std text = some (without, clause)) (more : Text) :
    clauseText std (text ++ more) = some (without, clause ++ more) := by
  have isTrimmed :
      ∀ keyword : Text, keyword ≠ [] →
        keyword.isPrefixOf (std.toLowercase (trimStart text)) = true →
          trimStart (text ++ more) = trimStart text ++ more := by
    intro keyword nonempty starts
    refine trimStart_append (fun blank => ?_) more
    rw [blank, isPrefixOf_iff_prefix] at starts
    exact nonempty (prefix_nil.mp starts)
  have dropped :
      ∀ keyword : Text,
        (∀ char ∈ keyword, char.toNat < 128 ∧ char ≠ 'k') →
          (∀ char ∈ keyword.getLast?, char ≠ 'i') →
            keyword.isPrefixOf (std.toLowercase (trimStart text)) = true →
              (trimStart text ++ more).drop keyword.length =
                (trimStart text).drop keyword.length ++ more := by
    intro keyword isAscii isLast starts
    obtain ⟨first, rest, isText, _, sameLength, _⟩ :=
      exists_of_isPrefix_toLowercase isAscii isLast
        (List.isPrefixOf_iff_prefix.mp starts)
    rw [isText, append_assoc, ← sameLength, drop_left, drop_left]
  rw [clauseText] at isClause
  split at isClause
  · rename_i starts
    cases isClause
    rw [clauseText, isTrimmed "by ".toList (by decide) starts,
      if_pos (isPrefixOf_toLowercase_append starts more)]
    exact congrArg (fun clause => some (false, clause))
      (dropped "by ".toList (by decide) (by decide) starts)
  · split at isClause
    · rename_i starts
      cases isClause
      have startsLonger := isPrefixOf_toLowercase_append starts more
      rw [clauseText, isTrimmed "without ".toList (by decide) starts,
        if_neg (not_by_of_without startsLonger), if_pos startsLonger]
      exact congrArg (fun clause => some (true, clause))
        (dropped "without ".toList (by decide) (by decide) starts)
    · cases isClause

/-- What is read of a clause that starts with a keyword. -/
def keywordClause (keyword : Text) (flag : Bool) (text : Text) :
    Except Fault (Option (List String × Bool × Text)) := do
  let clause ← orPanic (sliceFrom (trim text) keyword.length)
  let (labels, rest) ← parseGroupingLabels clause
  .ok (some (labels, flag, trim rest))

theorem exists_bracketed_of_keywordClause
    {keyword : Text} {flag : Bool} {clause : List String × Bool × Text}
    (isAscii : ∀ char ∈ keyword, char.toNat < 128 ∧ char ≠ 'k')
    (isLast : ∀ char ∈ keyword.getLast?, char ≠ 'i')
    (starts : keyword.isPrefixOf (std.toLowercase (trim text)) = true)
    (parsed : keywordClause keyword flag text = .ok (some clause)) :
    ∃ labels after,
      bracketed ((trimStart text).drop keyword.length) =
        some (labels, after) := by
  obtain ⟨blank, isBlank⟩ := exists_trim_append text
  obtain ⟨first, rest, isText, _, sameLength, sameBytes⟩ :=
    exists_of_isPrefix_toLowercase isAscii isLast
      (List.isPrefixOf_iff_prefix.mp starts)
  rw [keywordClause, isText, ← sameBytes, sliceFrom_append, orPanic_some, ok_bind]
    at parsed
  obtain ⟨⟨labels, after⟩, isParsed, _⟩ := bind_eq_ok_iff.mp parsed
  obtain ⟨inner, others, found⟩ :=
    exists_bracketed_of_parseGroupingLabels isParsed
  rw [← isBlank, isText, append_assoc, ← sameLength, drop_left]
  exact ⟨inner, others ++ blank, bracketed_append found blank⟩

theorem exists_clauseText_of_groupingModifier
    {clause : List String × Bool × Text}
    (parsed : groupingModifier std (trim text) = .ok (some clause)) :
    ∃ without rest labels after,
      clauseText std text = some (without, rest) ∧
        bracketed rest = some (labels, after) := by
  obtain ⟨blank, isBlank⟩ := exists_trim_append text
  rw [groupingModifier] at parsed
  split at parsed
  · rename_i starts
    obtain ⟨labels, after, found⟩ :=
      @exists_bracketed_of_keywordClause std text "by ".toList false clause
        (by decide) (by decide) starts parsed
    have startsLonger := isPrefixOf_toLowercase_append starts blank
    rw [isBlank] at startsLonger
    exact ⟨false, _, labels, after, by
      rw [clauseText, if_pos startsLonger]
      rfl, found⟩
  · split at parsed
    · rename_i starts
      obtain ⟨labels, after, found⟩ :=
        @exists_bracketed_of_keywordClause std text "without ".toList true clause
          (by decide) (by decide) starts parsed
      have startsLonger := isPrefixOf_toLowercase_append starts blank
      rw [isBlank] at startsLonger
      exact ⟨true, _, labels, after, by
        rw [clauseText, if_neg (not_by_of_without startsLonger),
          if_pos startsLonger]
        rfl, found⟩
    · cases parsed

end Clauses

/-!
## Complete expressions
-/

/-- What the parser makes of a complete expression. -/
def Complete.read (std : StdText) (recurse : Text → Except Fault Expr) :
    Complete → Except Fault Expr
  | .call func inner after => do
    let args ← parseArgs recurse inner
    finishExpr (.call func args) (trim after)
  | .aggregation op grouping without inner after => do
    let expr ← recurse inner
    parseAggregationTail std op expr grouping without (trim after)

theorem mem_of_bracketed
    {text inner after : Text} (found : bracketed text = some (inner, after)) :
    '(' ∈ text := by
  obtain ⟨inside, _, isText, _⟩ := bracketed_eq_some_iff.mp found
  refine (dropWhile_suffix isWhitespace).subset ?_
  rw [← trimStart, isText]
  exact mem_cons_self

section Expressions

variable {std : StdText} {text : Text} {expr : Complete}

theorem mem_of_completeAggregation
    {op : Function} (isComplete : completeAggregation std op text = some expr) :
    '(' ∈ text := by
  rw [completeAggregation] at isComplete
  split at isComplete
  · obtain ⟨⟨inner, after⟩, found, _⟩ :=
      Option.bind_eq_some_iff.mp isComplete
    exact mem_of_bracketed found
  · rename_i without clause isClause
    obtain ⟨⟨labels, exprStr⟩, found, _⟩ :=
      Option.bind_eq_some_iff.mp isComplete
    have inClause := mem_of_bracketed found
    have inText : '(' ∈ trimStart text := by
      rw [clauseText] at isClause
      split at isClause
      · cases isClause
        exact mem_of_mem_drop inClause
      · split at isClause
        · cases isClause
          exact mem_of_mem_drop inClause
        · cases isClause
    exact (dropWhile_suffix _).subset inText

theorem exists_of_complete (isComplete : complete std text = some expr) :
    ∃ before inside,
      trimStart text = before ++ '(' :: inside ∧
        '(' ∉ before ∧
          ((∃ op,
              aggregationNamed (trim before) = some op ∧
                completeAggregation std op
                    ((trimStart text).drop op.name.toList.length) =
                  some expr) ∨
            (aggregationNamed (trim before) = none ∧
              ∃ func inner after,
                functionNamed (trim before) = some func ∧
                  bracketed ('(' :: inside) = some (inner, after) ∧
                    expr = .call func inner after)) := by
  rw [complete] at isComplete
  have hasParen : '(' ∈ trimStart text := by
    split at isComplete
    · exact mem_of_mem_drop (mem_of_completeAggregation isComplete)
    · obtain ⟨func, _, isComplete⟩ := Option.bind_eq_some_iff.mp isComplete
      obtain ⟨⟨inner, after⟩, found, _⟩ := Option.bind_eq_some_iff.mp isComplete
      exact (dropWhile_suffix _).subset (mem_of_bracketed found)
  obtain ⟨before, inside, isText, first⟩ := eq_append_cons_of_mem hasParen
  have passed : ∀ char ∈ before, decide (char ≠ '(') = true := by
    intro char member
    rw [decide_eq_true_eq]
    rintro rfl
    exact first member
  have isBefore : (trimStart text).takeWhile (· ≠ '(') = before := by
    rw [isText, takeWhile_append_of_pos passed]
    simp
  have isInside : (trimStart text).dropWhile (· ≠ '(') = '(' :: inside := by
    rw [isText, dropWhile_append_of_pos passed]
    simp
  refine ⟨before, inside, isText, first, ?_⟩
  rw [isBefore, isInside] at isComplete
  split at isComplete
  · rename_i op named
    exact Or.inl ⟨op, named, isComplete⟩
  · rename_i notNamed
    obtain ⟨func, isFunction, isComplete⟩ :=
      Option.bind_eq_some_iff.mp isComplete
    obtain ⟨⟨inner, after⟩, found, same⟩ :=
      Option.bind_eq_some_iff.mp isComplete
    cases same
    exact Or.inr ⟨notNamed, func, inner, after, isFunction, found, rfl⟩

theorem completeAggregation_append
    {op : Function} (isComplete : completeAggregation std op text = some expr)
    (more : Text) :
    completeAggregation std op (text ++ more) = some (expr.append more) := by
  rw [completeAggregation] at isComplete
  split at isComplete
  · rename_i noClause
    obtain ⟨⟨inner, after⟩, found, same⟩ :=
      Option.bind_eq_some_iff.mp isComplete
    cases same
    have stillNone : clauseText std (text ++ more) = none := by
      obtain ⟨inside, _, isText, _⟩ :=
        bracketed_eq_some_iff.mp (bracketed_append found more)
      exact clauseText_eq_none isText (by decide)
    rw [completeAggregation, stillNone]
    simp only [bracketed_append found more]
    rfl
  · rename_i without clause isClause
    obtain ⟨⟨labels, exprStr⟩, foundLabels, isComplete⟩ :=
      Option.bind_eq_some_iff.mp isComplete
    obtain ⟨⟨inner, after⟩, found, same⟩ :=
      Option.bind_eq_some_iff.mp isComplete
    cases same
    rw [completeAggregation, clauseText_append isClause more]
    simp only [bracketed_append foundLabels more]
    simp only [Option.bind_eq_bind, Option.bind_some,
      bracketed_append found more]
    rfl

theorem complete_append
    (isComplete : complete std text = some expr) (more : Text) :
    complete std (text ++ more) = some (expr.append more) := by
  obtain ⟨before, inside, isText, first, isExpr⟩ :=
    exists_of_complete isComplete
  have isTextMore :
      trimStart (text ++ more) = before ++ '(' :: (inside ++ more) := by
    rw [trimStart_append (by rw [isText]; simp), isText]
    simp
  have passed : ∀ char ∈ before, decide (char ≠ '(') = true := by
    intro char member
    rw [decide_eq_true_eq]
    rintro rfl
    exact first member
  have isBefore : (trimStart (text ++ more)).takeWhile (· ≠ '(') = before := by
    rw [isTextMore, takeWhile_append_of_pos passed]
    simp
  have isInside :
      (trimStart (text ++ more)).dropWhile (· ≠ '(') =
        ('(' :: inside) ++ more := by
    rw [isTextMore, dropWhile_append_of_pos passed]
    simp
  rw [complete, isBefore, isInside]
  rcases isExpr with
    ⟨op, named, isAggregation⟩ |
    ⟨notNamed, func, inner, after, isFunction, found, rfl⟩
  · have longName :
        op.name.toList.length ≤ (trimStart text).length := by
      by_contra tooLong
      have noText : (trimStart text).drop op.name.toList.length = [] :=
        drop_eq_nil_of_le (Nat.le_of_not_le tooLong)
      have member := mem_of_completeAggregation isAggregation
      rw [noText] at member
      cases member
    rw [named, trimStart_append (by rw [isText]; simp)]
    dsimp only
    rw [drop_append_of_le_length longName]
    exact completeAggregation_append isAggregation more
  · rw [notNamed, isFunction]
    simp only [Option.bind_eq_bind, Option.bind_some,
      bracketed_append found more]
    rfl

theorem parseAggregation_of_complete
    {recurse : Text → Except Fault Expr} {op : Function} {query rest : Text}
    (isQuery : trim query = op.name.toList ++ trimEnd rest)
    (isComplete : completeAggregation std op rest = some expr) :
    parseAggregation std recurse query op = expr.read std recurse := by
  rw [parseAggregation, isQuery, sliceFrom_append, orPanic_some, ok_bind,
    trim_trimEnd]
  rw [completeAggregation] at isComplete
  split at isComplete
  · rename_i noClause
    obtain ⟨⟨inner, after⟩, found, same⟩ :=
      Option.bind_eq_some_iff.mp isComplete
    cases same
    obtain ⟨inside, stop, others, isText, closes, isInner, isOthers,
      sameRest⟩ := exists_of_bracketed found
    have isInside : sliceFrom ('(' :: inside) 1 = some inside :=
      sliceFrom_append_cons [] inside rfl
    dsimp only
    rw [groupingModifier_of_clauseText_eq_none noClause, ok_bind]
    simp only [Option.getD_none, isText, head?_cons, ne_eq,
      not_true_eq_false, if_false, isInside, orPanic_some, ok_bind, closes,
      slice_cons, sliceFrom_cons, isInner, isOthers, sameRest]
    rfl
  · rename_i without clause isClause
    obtain ⟨⟨labels, exprStr⟩, foundLabels, isComplete⟩ :=
      Option.bind_eq_some_iff.mp isComplete
    obtain ⟨⟨inner, after⟩, found, same⟩ :=
      Option.bind_eq_some_iff.mp isComplete
    cases same
    obtain ⟨inside, stop, others, isText, closes, isInner, isOthers,
      sameRest⟩ := exists_of_bracketed found
    have isInside : sliceFrom ('(' :: inside) 1 = some inside :=
      sliceFrom_append_cons [] inside rfl
    dsimp only
    rw [groupingModifier_of_clauseText isClause foundLabels, ok_bind]
    simp only [Option.getD_some, isText, head?_cons, ne_eq,
      not_true_eq_false, if_false, isInside, orPanic_some, ok_bind, closes,
      slice_cons, sliceFrom_cons, isInner, isOthers, sameRest]
    rfl

theorem parsePromql_of_complete (isComplete : complete std text = some expr) :
    parsePromql std text = expr.read std (parsePromql std) := by
  obtain ⟨before, inside, isText, first, isExpr⟩ :=
    exists_of_complete isComplete
  have isQuery : trim text = before ++ '(' :: trimEnd inside := by
    rw [trim, isText, trimEnd_append_cons _ _ (by decide)]
  have isParen :
      beforeParen (trim text) =
        .ok (some (byteLength before, trim before)) := by
    rw [beforeParen, isQuery, find_first first]
    simp only [sliceTo_append, orPanic_some, ok_bind]
  rw [parsePromql_eq, parseLevel, isParen]
  simp only [ok_bind, Option.bind_some]
  rcases isExpr with
    ⟨op, named, isAggregation⟩ |
    ⟨notNamed, func, inner, after, isFunction, found, rfl⟩
  · rw [named]
    dsimp only
    refine parseAggregation_of_complete ?_ isAggregation
    obtain ⟨rest, isNamed⟩ := exists_of_aggregationNamed isQuery named
    obtain ⟨blank, isBlank⟩ := exists_trim_append text
    have isDrop :
        (trimStart text).drop op.name.toList.length = rest ++ blank := by
      rw [← isBlank, isNamed, append_assoc, drop_left]
    have member := mem_of_completeAggregation isAggregation
    rw [isDrop] at member ⊢
    obtain ⟨first, others, isRest⟩ := mem_iff_append.mp member
    rw [trim_trim, trim, ← isBlank, isNamed, append_assoc, isRest,
      ← append_assoc, trimEnd_append_cons _ _ (by decide),
      trimEnd_append_cons _ _ (by decide), append_assoc]
  · obtain ⟨inside', stop, rest, isTrimmed, closes, isInner, isRest,
      sameRest⟩ := exists_of_bracketed found
    have sameInside : inside' = trimEnd inside := by
      have isTrim :=
        trim_append_cons [] inside (show isWhitespace '(' = false by decide)
      rw [nil_append, isTrimmed] at isTrim
      exact (List.cons.inj isTrim).2
    rw [notNamed, isFunction]
    simp only [Option.map_some]
    rw [isQuery, parseCall_eq, ← sameInside, closes, Option.getD_some,
      isInner, orPanic_some, ok_bind, isRest, orPanic_some, Complete.read]
    simp only [ok_bind, sameRest]

end Expressions

end ChronoDB.Query
