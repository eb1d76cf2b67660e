import ChronoDB.Query.Complete

namespace ChronoDB.Query

open Library Text Verdict List StdText

/-!
# Text after a complete expression

The text after the closing bracket of a call or an aggregation is looked at only
when it starts with a grouping clause, for aggregations, or with a square bracket
and has a colon; any other text is dropped.
-/

/-- The grouping that a text ends with, and what remains of the text. -/
def readClause
    (std : StdText) (grouping : List String) (without : Bool) (text : Text) :
    List String × Bool × Text :=
  match clauseText std text with
  | none => (grouping, without, trim text)
  | some (without', clause) =>
    match bracketed clause with
    | none => (grouping, without, trim text)
    | some (labels, rest) => (groupingLabels labels, without', trim rest)

/-- A text is read as a subquery suffix, which does not break. -/
def isReadSuffix (text : Text) : Prop :=
  isSubquerySuffix text ∧ suffixVerdict text ≠ .broken

/--
The parser notices more text after a complete expression: as a subquery suffix,
or, after an aggregation, as a grouping clause that is rejected or gives another
grouping.
-/
def Complete.notices (std : StdText) (more : Text) : Complete → Prop
  | .call _ _ after => isReadSuffix (trim (after ++ more))
  | .aggregation _ grouping without _ after =>
    let old := readClause std grouping without after
    let new := readClause std grouping without (after ++ more)
    match clauseVerdict std (trim (after ++ more)) fun _ => .accepted with
    | .rejected => True
    | .broken => False
    | .accepted =>
      isReadSuffix new.2.2 ∨
        (¬isSubquerySuffix new.2.2 ∧ (new.1 ≠ old.1 ∨ new.2.1 ≠ old.2.1))

/-- An outcome is an error, or an expression other than a given one. -/
def IsErrorOrOther (outcome : Except Fault Expr) (expr : Expr) : Prop :=
  (∃ cause, outcome = .error (.error cause)) ∨
    ∃ other, outcome = .ok other ∧ other ≠ expr

theorem exists_trim_append_more {text more : Text} (visible : trim text ≠ [])
    (moreVisible : trim more ≠ []) :
    ∃ added, added ≠ [] ∧ trim (text ++ more) = trim text ++ added := by
  obtain ⟨blank, isBlank⟩ := exists_trim_append text
  have startVisible : trimStart text ≠ [] := by
    intro empty
    rw [trim, empty] at visible
    exact visible rfl
  rcases exists_visible_or_blank more with
    ⟨before, char, after, rfl, charVisible⟩ | allBlank
  · refine ⟨blank ++ (before ++ char :: trimEnd after), by simp, ?_⟩
    rw [trim, trimStart_append startVisible, ← isBlank, ← append_assoc,
      trimEnd_append_cons _ _ charVisible]
    simp
  · rw [trim, trimStart_eq_nil allBlank] at moreVisible
    exact absurd rfl moreVisible

theorem unitSeconds_of_mem {unit : Text} (closing : ']' ∈ unit) :
    unitSeconds unit = none := by
  rw [unitSeconds.eq_def]
  split
  all_goals first | rfl | (exact absurd closing (by decide))

theorem durationVerdict_of_closing (before after : Text) :
    durationVerdict (before ++ ']' :: after) = .rejected := by
  have inUnit :
      ']' ∈ (trim (before ++ ']' :: after)).dropWhile Char.isDigit := by
    have member : ']' ∈ trim (before ++ ']' :: after) := by
      rw [trim_append_cons _ _ (by decide)]
      simp
    rw [← takeWhile_append_dropWhile (p := Char.isDigit)
      (l := trim (before ++ ']' :: after)), mem_append] at member
    rcases member with inDigits | inUnit
    · exact absurd (mem_takeWhile_imp inDigits) (by decide)
    · exact inUnit
  rw [durationVerdict]
  split
  · rfl
  · rw [unitSeconds_of_mem inUnit]

/-- A subquery suffix with more text after it is rejected. -/
theorem suffixVerdict_append
    {text more : Text} (isSuffix : suffixVerdict text = .accepted)
    (added : more ≠ []) :
    suffixVerdict (text ++ more) = .rejected := by
  rw [suffixVerdict] at isSuffix
  split at isSuffix
  · cases isSuffix
  · rename_i isBracketed
    rw [not_or, not_ne_iff, not_ne_iff] at isBracketed
    obtain ⟨rest, rfl⟩ := head?_eq_some_iff.mp isBracketed.1
    obtain ⟨inner, isRest⟩ : ∃ inner, rest = inner ++ [']'] := by
      cases rest using List.reverseRecOn with
      | nil => exact absurd isBracketed.2 (by decide)
      | append_singleton inner last =>
        rw [← cons_append, getLast?_concat] at isBracketed
        cases isBracketed.2
        exact ⟨inner, rfl⟩
    subst isRest
    rw [tail_cons, dropLast_concat] at isSuffix
    rw [suffixVerdict]
    split
    · rfl
    · rename_i stillBracketed
      rw [not_or, not_ne_iff, not_ne_iff] at stillBracketed
      cases more using List.reverseRecOn with
      | nil => exact absurd rfl added
      | append_singleton others last =>
        have isInner :
            ('[' :: (inner ++ [']']) ++ (others ++ [last])).tail.dropLast =
              inner ++ ']' :: others := by
          rw [cons_append, tail_cons, ← append_assoc, dropLast_concat]
          simp
        rw [isInner]
        split at isSuffix
        · rename_i range resolution isSplit
          obtain ⟨rfl, notRange, notResolution⟩ := splitOn_eq_pair isSplit
          have rangeAccepted : durationVerdict range = .accepted := by
            cases isRange : durationVerdict range with
            | accepted => rfl
            | rejected =>
              rw [isRange] at isSuffix
              cases isSuffix
            | broken =>
              rw [isRange] at isSuffix
              cases isSuffix
          rw [append_assoc, cons_append,
            splitOn_append_cons_self_of_not_mem notRange]
          by_cases colon : ':' ∈ others
          · obtain ⟨before, after, rfl, notBefore⟩ :=
              eq_append_cons_of_mem colon
            have notFirst : ':' ∉ resolution ++ ']' :: before := by
              simp [notResolution, notBefore]
            rw [← cons_append, ← append_assoc,
              splitOn_append_cons_self_of_not_mem notFirst]
            obtain ⟨third, rest, isThird⟩ :=
              exists_cons_of_ne_nil (splitOn_ne_nil ':' after)
            rw [isThird]
          · have notFirst : ':' ∉ resolution ++ ']' :: others := by
              simp [notResolution, colon]
            rw [splitOn_eq_singleton notFirst]
            dsimp only
            rw [rangeAccepted, durationVerdict_of_closing]
            rfl
        · cases isSuffix

section Notice

variable {std : StdText}

theorem readClause_eq
    {text : Text} {modifier : Option (List String × Bool × Text)}
    (parsed : groupingModifier std (trim text) = .ok modifier)
    (grouping : List String) (without : Bool) :
    modifier.getD (grouping, without, trim text) =
      readClause std grouping without text := by
  rw [readClause]
  cases modifier with
  | none =>
    cases isClause : clauseText std text with
    | none => rfl
    | some found =>
      obtain ⟨flag, clause⟩ := found
      cases inBrackets : bracketed clause with
      | none => simp only [inBrackets, Option.getD_none]
      | some pieces =>
        rw [groupingModifier_of_clauseText isClause inBrackets] at parsed
        cases parsed
  | some clause =>
    obtain ⟨flag, rest, labels, after, isClause, inBrackets⟩ :=
      exists_clauseText_of_groupingModifier parsed
    rw [groupingModifier_of_clauseText isClause inBrackets] at parsed
    cases parsed
    simp only [isClause, inBrackets, Option.getD_some]

theorem readClause_append
    {grouping : List String} {without : Bool} {text more : Text}
    (isSuffix : isSubquerySuffix (readClause std grouping without text).2.2)
    (moreVisible : trim more ≠ []) :
    ∃ added, added ≠ [] ∧
      (readClause std grouping without (text ++ more)).2.2 =
        (readClause std grouping without text).2.2 ++ added := by
  have visible :
      ∀ {rest : Text}, isSubquerySuffix (trim rest) → trim rest ≠ [] := by
    rintro rest ⟨isBracket, _⟩ empty
    rw [empty] at isBracket
    cases isBracket
  -- a text that starts with a square bracket has no clause
  have noClause :
      isSubquerySuffix (trim text) →
        clauseText std text = none ∧ clauseText std (text ++ more) = none := by
    intro isBracket
    obtain ⟨rest, isText⟩ := head?_eq_some_iff.mp isBracket.1
    obtain ⟨blank, isBlank⟩ := exists_trim_append text
    rw [isText, cons_append] at isBlank
    refine ⟨clauseText_eq_none isBlank.symm (by decide), ?_⟩
    have isLonger : trimStart (text ++ more) = '[' :: (rest ++ blank) ++ more := by
      rw [trimStart_append (by rw [← isBlank]; exact cons_ne_nil _ _), isBlank]
    exact clauseText_eq_none isLonger (by decide)
  have withoutClause :
      isSubquerySuffix (trim text) →
        ∃ added, added ≠ [] ∧
          (readClause std grouping without (text ++ more)).2.2 =
            trim text ++ added := by
    intro isBracket
    obtain ⟨_, stillNone⟩ := noClause isBracket
    rw [readClause, stillNone]
    exact exists_trim_append_more (visible isBracket) moreVisible
  rw [readClause.eq_def std grouping without text] at isSuffix ⊢
  cases isClause : clauseText std text with
  | none =>
    rw [isClause] at isSuffix
    exact withoutClause isSuffix
  | some found =>
    obtain ⟨flag, clause⟩ := found
    rw [isClause] at isSuffix
    cases inBrackets : bracketed clause with
    | none =>
      simp only [inBrackets] at isSuffix ⊢
      exact withoutClause isSuffix
    | some pieces =>
      obtain ⟨labels, rest⟩ := pieces
      simp only [inBrackets] at isSuffix ⊢
      rw [readClause, clauseText_append isClause more]
      simp only [bracketed_append inBrackets more]
      exact exists_trim_append_more (visible isSuffix) moreVisible

theorem isErrorOrOther_iff {outcome : Except Fault Expr} {expr : Expr} :
    IsErrorOrOther outcome expr ↔
      ofOutcome outcome = .rejected ∨
        (ofOutcome outcome = .accepted ∧ outcome ≠ .ok expr) := by
  rcases outcome with (cause | _) | other <;>
    simp [IsErrorOrOther, ofOutcome]

/--
An expression with a remaining text is an error or another one exactly when the
text is read as a suffix, or when the expression itself is another one.
-/
theorem finishExpr_isErrorOrOther_iff {old new expr : Expr} {rest more : Text}
    (finished : finishExpr old rest = .ok expr)
    (oldPlain : ∀ inner range resolution,
      old ≠ .subquery inner range resolution)
    (suffixGrows :
      isSubquerySuffix rest → ∃ added, added ≠ [] ∧ more = rest ++ added) :
    IsErrorOrOther (finishExpr new more) expr ↔
      isReadSuffix more ∨ (¬isSubquerySuffix more ∧ new ≠ old) := by
  rw [isErrorOrOther_iff, ofOutcome_finishExpr, finishVerdict, isReadSuffix]
  have grown : isSubquerySuffix rest →
      isSubquerySuffix more ∧ suffixVerdict more = .rejected := by
    intro isSuffix
    obtain ⟨added, nonempty, rfl⟩ := suffixGrows isSuffix
    refine ⟨⟨?_, mem_append_left _ isSuffix.2⟩, ?_⟩
    · rw [head?_append, isSuffix.1]
      rfl
    · refine suffixVerdict_append ?_ nonempty
      have accepted := congrArg ofOutcome finished
      rw [ofOutcome_finishExpr, finishVerdict, if_pos isSuffix] at accepted
      exact accepted
  by_cases isSuffix : isSubquerySuffix more
  · rw [if_pos isSuffix]
    cases verdict : suffixVerdict more with
    | rejected => simp [isSuffix]
    | broken => simp [isSuffix]
    | accepted =>
      refine iff_of_true (Or.inr ⟨rfl, fun same => ?_⟩)
        (Or.inl ⟨isSuffix, by decide⟩)
      -- a suffix before would have been rejected with more text
      have notBefore : ¬isSubquerySuffix rest := by
        intro isBefore
        rw [(grown isBefore).2] at verdict
        cases verdict
      rw [finishExpr, if_neg notBefore] at finished
      cases finished
      rw [finishExpr, if_pos isSuffix, parseSubquerySuffix] at same
      split at same
      · cases same
      · obtain ⟨inner, _, same⟩ := bind_eq_ok_iff.mp same
        split at same
        · obtain ⟨range, _, same⟩ := bind_eq_ok_iff.mp same
          obtain ⟨resolution, _, same⟩ := bind_eq_ok_iff.mp same
          exact oldPlain _ _ _ (Except.ok.inj same).symm
        · cases same
  · have notBefore : ¬isSubquerySuffix rest := fun isBefore =>
      isSuffix (grown isBefore).1
    rw [finishExpr, if_neg notBefore] at finished
    cases finished
    rw [if_neg isSuffix, finishExpr, if_neg isSuffix]
    simp [isSuffix]

theorem ofOutcome_groupingModifier (text : Text) :
    ofOutcome (groupingModifier std text) =
      clauseVerdict std text fun _ => .accepted := by
  have read :=
    @ofOutcome_groupingModifier_bind _ std text
      (fun modifier => .ok modifier) (fun _ => .accepted) rfl
      fun _ _ _ => rfl
  rwa [show groupingModifier std text >>= (fun modifier => .ok modifier) =
    groupingModifier std text from bind_pure _] at read

/--
More visible text after a complete call or aggregation gives an error or another
expression exactly when the parser notices it.
-/
theorem parsePromql_append_iff (std : StdText) (query more : Text)
    (complete_ : Complete) (expr : Expr)
    (isComplete : complete std query = some complete_)
    (parsed : parsePromql std query = .ok expr) (moreVisible : trim more ≠ []) :
    IsErrorOrOther (parsePromql std (query ++ more)) expr ↔
      complete_.notices std more := by
  rw [parsePromql_of_complete (complete_append isComplete more)]
  rw [parsePromql_of_complete isComplete] at parsed
  cases complete_ with
  | call func inner after =>
    obtain ⟨args, isArgs, finished⟩ := bind_eq_ok_iff.mp parsed
    rw [Complete.append, Complete.read, isArgs, ok_bind,
      finishExpr_isErrorOrOther_iff finished fun _ _ _ same => by cases same]
    · simp [Complete.notices]
    · intro isSuffix
      refine exists_trim_append_more (fun empty => ?_) moreVisible
      rw [empty] at isSuffix
      cases isSuffix.1
  | aggregation op grouping without inner after =>
    obtain ⟨innerExpr, isInner, finished⟩ := bind_eq_ok_iff.mp parsed
    obtain ⟨oldModifier, isOld, finished⟩ := bind_eq_ok_iff.mp finished
    rw [Complete.append, Complete.read, isInner, ok_bind,
      parseAggregationTail, Complete.notices, ← ofOutcome_groupingModifier]
    rw [readClause_eq isOld] at finished
    rcases isNew : groupingModifier std (trim (after ++ more)) with
      (cause | _) | newModifier
    · simp [IsErrorOrOther, ofOutcome]
    · simp [IsErrorOrOther, ofOutcome]
    · rw [ok_bind, readClause_eq isNew]
      dsimp only [ofOutcome] at finished ⊢
      rw [finishExpr_isErrorOrOther_iff finished
        (fun _ _ _ same => by cases same)
        fun isSuffix => readClause_append isSuffix moreVisible]
      simp only [ne_eq, Expr.aggregation.injEq, true_and, not_and_or]

end Notice

theorem exists_of_accepted (std : StdText) (query : Text)
    (accepted : queryVerdict std query = .accepted) :
    ∃ expr, parsePromql std query = .ok expr := by
  rw [← ofOutcome_parsePromql] at accepted
  rcases parsed : parsePromql std query with (cause | _) | expr
  · rw [parsed] at accepted
    cases accepted
  · rw [parsed] at accepted
    cases accepted
  · exact ⟨expr, rfl⟩

theorem trailing_clause_noticed :
    ∃ expr,
      parsePromql basic "sum(x)".toList = .ok expr ∧
        IsErrorOrOther
          (parsePromql basic
            ("sum(x)".toList ++ " by (job)".toList)) expr := by
  obtain ⟨expr, parsed⟩ :=
    exists_of_accepted basic "sum(x)".toList (by decide +kernel)
  refine ⟨expr, parsed, (parsePromql_append_iff basic
    "sum(x)".toList " by (job)".toList
    (.aggregation .sum [] false ['x'] []) expr (by decide +kernel) parsed
    (by decide)).mpr ?_⟩
  have isClause :
      clauseVerdict basic (trim " by (job)".toList)
          (fun _ => .accepted) = .accepted := by
    decide +kernel
  have oldGrouping : readClause basic [] false [] = ([], false, []) := by
    decide +kernel
  have newGrouping :
      readClause basic [] false " by (job)".toList =
        (["job"], false, []) := by
    decide +kernel
  rw [Complete.notices, nil_append, isClause, oldGrouping, newGrouping]
  exact Or.inr ⟨by decide, Or.inl (by decide)⟩

theorem trailing_division_dropped :
    ∃ expr,
      parsePromql basic "rate(x[5m])".toList = .ok expr ∧
        parsePromql basic ("rate(x[5m])".toList ++ " / sum(b)".toList) =
          .ok expr := by
  obtain ⟨expr, parsed⟩ :=
    exists_of_accepted basic "rate(x[5m])".toList (by decide +kernel)
  have isComplete :
      complete basic "rate(x[5m])".toList =
        some (.call .rate "x[5m]".toList []) := by
    decide +kernel
  refine ⟨expr, parsed, ?_⟩
  rw [parsePromql_of_complete isComplete] at parsed
  rw [parsePromql_of_complete (complete_append isComplete _), ← parsed]
  rfl

end ChronoDB.Query
