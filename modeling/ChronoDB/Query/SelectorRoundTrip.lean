import ChronoDB.Query.Searches

namespace ChronoDB.Query

open Library Text List

/-!
# Selectors that are written out

A selector is written as its name and the list of its matchers.  Reading it back
gives the same selector exactly when every matcher tests equality, no value holds
a comma or an `@`, and the text has neither an offset nor an outermost bracket.
-/

/-!
## The text of a selector
-/

/-- The characters that the query syntax uses. -/
def syntaxChars : Text :=
  "(){}[],=!~\"'@".toList

/-- A name of a metric or of a label. -/
def IsName (name : String) : Prop :=
  name.toList ≠ [] ∧
    ∀ char ∈ name.toList, isWhitespace char = false ∧ char ∉ syntaxChars

instance decidableIsName (name : String) : Decidable (IsName name) :=
  inferInstanceAs (Decidable (_ ∧ _))

/-- A matcher with a name, and with a value that is quoted as it is. -/
def IsPlain (matcher : Matcher) : Prop :=
  IsName matcher.name ∧ '"' ∉ matcher.value.toList

instance decidableIsPlain (matcher : Matcher) : Decidable (IsPlain matcher) :=
  inferInstanceAs (Decidable (_ ∧ _))

def blanks (count : ℕ) : Text :=
  List.replicate count ' '

/-- A matcher with as many blanks around its operator. -/
def renderMatcher (gap : ℕ) (matcher : Matcher) : Text :=
  matcher.name.toList ++ blanks gap ++ matcher.op.display.toList ++
    (blanks gap ++ '"' :: (matcher.value.toList ++ ['"']))

def renderMatchers (gap : ℕ) (matchers : List Matcher) : Text :=
  ", ".toList.intercalate (matchers.map (renderMatcher gap))

def renderSelector (gap : ℕ) (name : String) (matchers : List Matcher) :
    Text :=
  name.toList ++ '{' :: (renderMatchers gap matchers ++ ['}'])

variable {name : String} {matchers : List Matcher} {char : Char}

theorem isWhitespace_of_mem_blanks {count : ℕ} (member : char ∈ blanks count) :
    isWhitespace char = true := by
  rw [eq_of_mem_replicate member]
  decide

theorem not_mem_blanks {count : ℕ} (visible : isWhitespace char = false) :
    char ∉ blanks count := by
  intro member
  rw [isWhitespace_of_mem_blanks member] at visible
  cases visible

theorem IsName.not_mem (isName : IsName name) (isSyntax : char ∈ syntaxChars) :
    char ∉ name.toList :=
  fun member => (isName.2 char member).2 isSyntax

/-!
## One matcher
-/

/-- A value as the parser reads it. -/
def readValue (valuePart : Text) : Except Fault Text :=
  ((unquote '"' valuePart).or (unquote '\'' valuePart)).getD (.ok valuePart)

theorem parseMatcher_trim {before after : Text} (first : '=' ∉ before) :
    parseMatcher (trim (before ++ '=' :: after)) =
      (do
        let value ← readValue (trim after)
        .ok (some (Matcher.eq (String.ofList (trim before))
          (String.ofList value)))) := by
  have isTrimmed :
      trim (before ++ '=' :: after) =
        trimStart before ++ '=' :: trimEnd after :=
    trim_append_cons before after (by decide)
  have firstTrimmed : '=' ∉ trimStart before := fun member =>
    first ((dropWhile_suffix _).subset member)
  rw [isTrimmed, parseMatcher, find_first firstTrimmed]
  simp only [sliceTo_append, sliceFrom_append_cons _ _ (show '='.utf8Size = 1
    from rfl), orPanic_some, ok_bind, trim_trimStart, trim_trimEnd]
  rfl

theorem readValue_quoted (value : Text) :
    readValue ('"' :: (value ++ ['"'])) = .ok value := by
  have inner :
      slice ('"' :: (value ++ ['"'])) 1
          (byteLength ('"' :: (value ++ ['"'])) - 1) =
        some value := by
    refine slice_eq_some_iff.mpr ⟨['"'], ['"'], by simp, rfl, ?_⟩
    have oneByte : Char.utf8Size '"' = 1 := rfl
    simp [oneByte, Nat.add_comm]
  have isLast : ('"' :: (value ++ ['"'])).getLast? = some '"' := by
    rw [← cons_append, getLast?_concat]
  rw [readValue, unquote, if_pos ⟨rfl, isLast⟩, inner]
  rfl

theorem readValue_opened {value read : Text} (noQuote : '"' ∉ value)
    (isRead : readValue ('"' :: value) = .ok read) :
    '"' ∈ read := by
  cases value using List.reverseRecOn with
  | nil => cases isRead
  | append_singleton others last =>
    have lastPlain : last ≠ '"' := by
      rintro rfl
      exact noQuote (by simp)
    have notQuoted :
        ¬(('"' :: (others ++ [last])).head? = some '"' ∧
          ('"' :: (others ++ [last])).getLast? = some '"') := by
      rw [← cons_append, getLast?_concat]
      simpa using lastPlain
    rw [readValue, unquote, if_neg notQuoted, unquote,
      if_neg (by simp)] at isRead
    cases isRead
    exact mem_cons_self

/-!
## The list of matchers
-/

theorem parseMatcher_op {part : Text} {matcher : Matcher}
    (parsed : parseMatcher part = .ok (some matcher)) :
    matcher.op = .equal := by
  rw [parseMatcher] at parsed
  split at parsed
  · cases parsed
  · obtain ⟨_, _, parsed⟩ := bind_eq_ok_iff.mp parsed
    obtain ⟨_, _, parsed⟩ := bind_eq_ok_iff.mp parsed
    obtain ⟨_, _, parsed⟩ := bind_eq_ok_iff.mp parsed
    cases parsed
    rfl

theorem parseParts_op
    {parts : List Text} (parsed : parseParts parts = .ok matchers) :
    ∀ matcher ∈ matchers, matcher.op = .equal := by
  induction parts generalizing matchers with
  | nil =>
    cases parsed
    exact nofun
  | cons part rest inductionHypothesis =>
    rw [parseParts] at parsed
    split at parsed
    · exact inductionHypothesis parsed
    · obtain ⟨first, isFirst, parsed⟩ := bind_eq_ok_iff.mp parsed
      obtain ⟨others, isRest, parsed⟩ := bind_eq_ok_iff.mp parsed
      cases parsed
      refine forall_mem_append.mpr
        ⟨fun matcher member => ?_, inductionHypothesis isRest⟩
      rw [Option.mem_toList] at member
      exact parseMatcher_op (isFirst.trans (congrArg _ member))

section Equality

variable {gap : ℕ} {matcher : Matcher}

/-- The text of a matcher up to its equality sign. -/
def matcherHead (indent gap : ℕ) (matcher : Matcher) : Text :=
  blanks indent ++ matcher.name.toList ++ blanks gap

theorem trim_matcherHead (isName : IsName matcher.name) (indent : ℕ) :
    trim (matcherHead indent gap matcher) = matcher.name.toList :=
  trim_surrounded (fun _ => isWhitespace_of_mem_blanks)
    (fun char member => (isName.2 char member).1)
    (fun _ => isWhitespace_of_mem_blanks)

theorem not_mem_matcherHead
    (isName : IsName matcher.name) (indent : ℕ) {char : Char}
    (isSyntax : char ∈ syntaxChars) :
    char ∉ matcherHead indent gap matcher := by
  have visible : isWhitespace char = false := by
    revert char
    decide
  simp [matcherHead, not_mem_blanks visible, isName.not_mem isSyntax]

theorem trim_opened (value : Text) :
    trim (blanks gap ++ '"' :: value) = '"' :: trimEnd value := by
  rw [trim_append_cons _ _ (by decide),
    trimStart_eq_nil fun _ => isWhitespace_of_mem_blanks]
  rfl

theorem renderMatcher_of_equal (isEqual : matcher.op = .equal) (indent : ℕ) :
    blanks indent ++ renderMatcher gap matcher =
      matcherHead indent gap matcher ++
        '=' :: (blanks gap ++ '"' :: (matcher.value.toList ++ ['"'])) := by
  rw [renderMatcher, isEqual, matcherHead]
  simp [MatchOp.display]

theorem parseMatcher_renderMatcher
    (isPlain : IsPlain matcher) (isEqual : matcher.op = .equal) (indent : ℕ) :
    parseMatcher (trim (blanks indent ++ renderMatcher gap matcher)) =
      .ok (some matcher) := by
  have endTrimmed :
      trimEnd (matcher.value.toList ++ ['"']) =
        matcher.value.toList ++ ['"'] := by
    rw [trimEnd_append_cons _ _ (by decide)]
    rfl
  rw [renderMatcher_of_equal isEqual,
    parseMatcher_trim (not_mem_matcherHead isPlain.1 indent (by decide)),
    trim_matcherHead isPlain.1, trim_opened, endTrimmed, readValue_quoted]
  simp only [bind, Except.bind, String.ofList_toList, ← isEqual, Matcher.eq]

end Equality

theorem renderMatchers_singleton (gap : ℕ) (matcher : Matcher) :
    renderMatchers gap [matcher] = renderMatcher gap matcher :=
  intercalate_singleton

theorem renderMatchers_cons_cons
    (gap : ℕ) (matcher next : Matcher) (rest : List Matcher) :
    renderMatchers gap (matcher :: next :: rest) =
      renderMatcher gap matcher ++
        ',' :: (blanks 1 ++ renderMatchers gap (next :: rest)) := by
  simp only [renderMatchers, map_cons]
  rw [intercalate_cons_cons, append_assoc]
  rfl

theorem parseMatchers_append_cons {first rest : Text} (noComma : ',' ∉ first) :
    parseMatchers (first ++ ',' :: rest) =
      parseParts (first :: rest.splitOn ',') := by
  rw [parseMatchers, splitOn_append_cons_self_of_not_mem noComma]

theorem parseMatchers_of_not_mem {text : Text} (noComma : ',' ∉ text) :
    parseMatchers text = parseParts [text] := by
  rw [parseMatchers, splitOn_eq_singleton noComma]

theorem parseParts_cons {part : Text} {matcher : Matcher}
    (parsed : parseMatcher (trim part) = .ok (some matcher))
    (rest : List Text) :
    parseParts (part :: rest) =
      (do
        let matchers ← parseParts rest
        .ok (matcher :: matchers)) := by
  have visible : trim part ≠ [] := by
    intro blank
    rw [blank] at parsed
    cases parsed
  rw [parseParts, if_neg visible, parsed]
  rfl

section EqualityList

variable {gap : ℕ} {matcher : Matcher}

theorem not_mem_renderMatcher
    (isPlain : IsPlain matcher) (isEqual : matcher.op = .equal)
    (noComma : ',' ∉ matcher.value.toList) (indent : ℕ) :
    ',' ∉ blanks indent ++ renderMatcher gap matcher := by
  have notBlank : ',' ∉ blanks gap := not_mem_blanks (by decide)
  have notHead : ',' ∉ matcherHead indent gap matcher :=
    not_mem_matcherHead isPlain.1 indent (by decide)
  rw [renderMatcher_of_equal isEqual]
  simp [notBlank, notHead, noComma]

theorem parseMatchers_of_comma
    {others : List Matcher} {tail : Text} (isPlain : IsPlain matcher)
    (isEqual : matcher.op = .equal) (comma : ',' ∈ matcher.value.toList)
    (indent : ℕ) :
    parseMatchers (blanks indent ++ (renderMatcher gap matcher ++ tail)) ≠
      .ok (matcher :: others) := by
  intro isParsed
  obtain ⟨before, after, isValue, noComma⟩ := eq_append_cons_of_mem comma
  have noQuote : '"' ∉ before := fun member =>
    isPlain.2 (by simp [isValue, member])
  have noQuoteTrimmed : '"' ∉ trimEnd before := fun member =>
    noQuote ((List.rdropWhile_prefix _ _).subset member)
  have isText :
      blanks indent ++ (renderMatcher gap matcher ++ tail) =
        (matcherHead indent gap matcher ++
            '=' :: (blanks gap ++ '"' :: before)) ++
          ',' :: (after ++ '"' :: tail) := by
    rw [← append_assoc, renderMatcher_of_equal isEqual, isValue]
    simp
  have notHead : ',' ∉ matcherHead indent gap matcher :=
    not_mem_matcherHead isPlain.1 indent (by decide)
  have notBlank : ',' ∉ blanks gap := not_mem_blanks (by decide)
  rw [isText, parseMatchers_append_cons (by simp [notHead, notBlank, noComma])]
    at isParsed
  have notSign : '=' ∉ matcherHead indent gap matcher :=
    not_mem_matcherHead isPlain.1 indent (by decide)
  have isMatcher := @parseMatcher_trim _ (blanks gap ++ '"' :: before) notSign
  rw [trim_matcherHead isPlain.1, trim_opened] at isMatcher
  cases isRead : readValue ('"' :: trimEnd before) with
  | error fault =>
    rw [isRead, error_bind] at isMatcher
    rw [parseParts] at isParsed
    split at isParsed
    · rename_i blank
      rw [blank] at isMatcher
      cases isMatcher
    · rw [isMatcher] at isParsed
      cases isParsed
  | ok read =>
    rw [isRead, ok_bind] at isMatcher
    rw [parseParts_cons isMatcher] at isParsed
    obtain ⟨_, _, same⟩ := bind_eq_ok_iff.mp isParsed
    have sameFirst := (List.cons.inj (Except.ok.inj same)).1
    have hasQuote := readValue_opened noQuoteTrimmed isRead
    refine isPlain.2 ?_
    rw [← sameFirst]
    simpa [Matcher.eq] using hasQuote

theorem parseMatchers_renderMatchers_iff
    {matchers : List Matcher} (plain : ∀ matcher ∈ matchers, IsPlain matcher)
    (equal : ∀ matcher ∈ matchers, matcher.op = .equal) (indent : ℕ) :
    parseMatchers (blanks indent ++ renderMatchers gap matchers) =
        .ok matchers ↔
      ∀ matcher ∈ matchers, ',' ∉ matcher.value.toList := by
  induction matchers generalizing indent with
  | nil =>
    have isBlank : trim (blanks indent) = [] := by
      rw [trim, trimStart_eq_nil fun _ => isWhitespace_of_mem_blanks]
      rfl
    refine iff_of_true ?_ (forall_mem_nil _)
    rw [renderMatchers, map_nil, intercalate_nil, append_nil,
      parseMatchers_of_not_mem (not_mem_blanks (by decide)), parseParts,
      if_pos isBlank, parseParts]
  | cons matcher rest inductionHypothesis =>
    obtain ⟨isPlain, plainRest⟩ := forall_mem_cons.mp plain
    obtain ⟨isEqual, equalRest⟩ := forall_mem_cons.mp equal
    rw [forall_mem_cons]
    by_cases comma : ',' ∈ matcher.value.toList
    · refine iff_of_false ?_ fun noComma => noComma.1 comma
      cases rest with
      | nil =>
        rw [renderMatchers_singleton, ← append_nil (renderMatcher _ _)]
        exact parseMatchers_of_comma isPlain isEqual comma indent
      | cons next rest =>
        rw [renderMatchers_cons_cons]
        exact parseMatchers_of_comma isPlain isEqual comma indent
    · rw [and_iff_right comma]
      have noComma : ',' ∉ blanks indent ++ renderMatcher gap matcher :=
        not_mem_renderMatcher isPlain isEqual comma indent
      have isMatcher :
          parseMatcher (trim (blanks indent ++ renderMatcher gap matcher)) =
            .ok (some matcher) :=
        parseMatcher_renderMatcher isPlain isEqual indent
      cases rest with
      | nil =>
        refine iff_of_true ?_ (forall_mem_nil _)
        rw [renderMatchers_singleton, parseMatchers_of_not_mem noComma,
          parseParts_cons isMatcher]
        rfl
      | cons next rest =>
        rw [← inductionHypothesis plainRest equalRest 1,
          renderMatchers_cons_cons, ← append_assoc, parseMatchers_append_cons
          noComma, parseParts_cons isMatcher, bind_eq_ok_iff]
        constructor
        · rintro ⟨matchers, isParsed, same⟩
          rw [parseMatchers, isParsed]
          cases same
          rfl
        · intro isParsed
          exact ⟨next :: rest, isParsed, rfl⟩

end EqualityList

/-!
## The selector
-/

theorem not_mem_builtin_name :
    ∀ char ∈ ['{', ','],
      ∀ function ∈ Function.builtin, char ∉ function.name.toList := by
  decide +kernel

theorem fromName_eq_none {text : Text}
    (isSyntax : char ∈ ['{', ','])
    (inText : char ∈ text) :
    Function.fromName (String.ofList text) = none := by
  rw [Function.fromName, find?_eq_none]
  intro function member isNamed
  refine not_mem_builtin_name char isSyntax function member ?_
  rw [eq_of_beq isNamed, String.toList_ofList]
  exact inText

theorem IsName.trimStart_append (isName : IsName name) (after : Text) :
    trimStart (name.toList ++ after) = name.toList ++ after := by
  obtain ⟨first, rest, isList⟩ := exists_cons_of_ne_nil isName.1
  have visible := (isName.2 first (by simp [isList])).1
  rw [isList, trimStart, cons_append, dropWhile_cons_of_neg (by simp [visible])]

theorem IsName.not_function (isName : IsName name) (inner : Text) :
    aggregationNamed (trim (name.toList ++ '{' :: inner)) = none ∧
      functionNamed (trim (name.toList ++ '{' :: inner)) = none := by
  have isTrimmed :
      trim (name.toList ++ '{' :: inner) =
        name.toList ++ '{' :: trimEnd inner := by
    rw [trim, isName.trimStart_append, trimEnd_append_cons _ _ (by decide)]
  refine ⟨?_, ?_⟩
  · rw [aggregationNamed, isTrimmed,
      fromName_eq_none (show '{' ∈ ['{', ','] by decide)]
    · rfl
    · rw [firstWord, isName.trimStart_append, takeWhile_append_of_pos]
      · simp [show isWhitespace '{' = false by decide]
      · intro char member
        simp [(isName.2 char member).1]
  · rw [functionNamed, isTrimmed,
      fromName_eq_none (show '{' ∈ ['{', ','] by decide) (by simp)]

section Selector

variable
  {std : StdText}
  {gap : ℕ}
  {name : String}
  {matchers : List Matcher}

theorem trim_renderSelector (isName : IsName name) :
    trim (renderSelector gap name matchers) =
      renderSelector gap name matchers := by
  rw [renderSelector, trim, isName.trimStart_append, ← cons_append,
    ← append_assoc, trimEnd_append_cons _ _ (by decide)]
  rfl

theorem parsePromql_renderSelector (isName : IsName name) :
    parsePromql std (renderSelector gap name matchers) =
      (do
        let bracket ← findOutermostBracket (renderSelector gap name matchers)
        match bracket with
        | some bracketIdx =>
          parseBracket std (parsePromql std)
            (renderSelector gap name matchers) bracketIdx
        | none =>
          let selector ←
            parseVectorSelector std (renderSelector gap name matchers)
          .ok (.vectorSelector selector)) := by
  rw [parsePromql_eq, parseLevel, trim_renderSelector isName]
  rcases beforeParen_cases (renderSelector gap name matchers) with
    ⟨_, noParen⟩ | ⟨before, after, isText, first, isParen⟩
  · rw [noParen]
    rfl
  · -- the bracket stands inside the braces
    have inBraces : ∃ inner, before = name.toList ++ '{' :: inner := by
      have notName : '(' ∉ name.toList := isName.not_mem (by decide)
      rw [renderSelector] at isText
      rcases append_eq_append_iff.mp isText with
        ⟨inner, isBefore, isRest⟩ | ⟨inner, isBefore, isRest⟩
      · cases inner with
        | nil => cases isRest
        | cons brace inner =>
          obtain ⟨rfl, _⟩ := List.cons.inj isRest
          exact ⟨inner, isBefore⟩
      · cases inner with
        | nil => cases isRest
        | cons paren inner =>
          cases isRest
          exact absurd (by simp [isBefore]) notName
    obtain ⟨inner, rfl⟩ := inBraces
    obtain ⟨noAggregation, noFunction⟩ := isName.not_function inner
    rw [isParen]
    simp only [ok_bind, Option.bind_some, noAggregation, noFunction]
    rfl

theorem parseBase_renderSelector (isName : IsName name) :
    parseBase (renderSelector gap name matchers) =
      (do
        let parsed ← parseMatchers (renderMatchers gap matchers)
        .ok (some name, parsed)) := by
  have oneByte : ∀ char ∈ syntaxChars, char.utf8Size = 1 := by
    decide
  have noBrace : '{' ∉ name.toList := isName.not_mem (by decide)
  have inBraces :
      slice (renderSelector gap name matchers)
          (byteLength name.toList + 1)
          (byteLength (renderSelector gap name matchers) - 1) =
        some (renderMatchers gap matchers) := by
    refine slice_eq_some_iff.mpr
      ⟨name.toList ++ ['{'], ['}'], by simp [renderSelector], ?_, ?_⟩
    · simp [oneByte '{' (by decide)]
    · simp [renderSelector, oneByte '{' (by decide), oneByte '}' (by decide)]
      omega
  have nameBytes : 0 < byteLength name.toList :=
    Nat.lt_of_lt_of_le (length_pos_of_ne_nil isName.1) (length_le_byteLength _)
  have nameTrimmed : trim name.toList = name.toList := by
    simpa using @trim_surrounded [] _ [] nofun
      (fun char member => (isName.2 char member).1) nofun
  have isFound :
      find (· == '{') (renderSelector gap name matchers) =
        some (byteLength name.toList) :=
    find_first noBrace
  rw [parseBase, isFound]
  simp only [inBraces, orPanic_some, ok_bind, if_pos nameBytes]
  rw [renderSelector, sliceTo_append, orPanic_some, ok_bind, nameTrimmed,
    String.ofList_toList]

end Selector

theorem parseVectorSelector_eq_ok_iff
    {std : StdText} {text : Text} {name : Option String} :
    parseVectorSelector std text = .ok ⟨name, matchers, none, none⟩ ↔
      findPattern " offset ".toList (std.toLowercase (trim text)) = none ∧
        '@' ∉ trim text ∧ parseBase (trim text) = .ok (name, matchers) := by
  rw [parseVectorSelector, splitOffset]
  generalize trim text = text
  cases isFound : findPattern " offset ".toList (std.toLowercase text) with
  | some offsetIdx =>
    refine iff_of_false ?_ nofun
    intro parsed
    obtain ⟨⟨offset, rest⟩, isSplit, parsed⟩ := bind_eq_ok_iff.mp parsed
    obtain ⟨_, _, isSplit⟩ := bind_eq_ok_iff.mp isSplit
    obtain ⟨_, _, isSplit⟩ := bind_eq_ok_iff.mp isSplit
    obtain ⟨_, _, isSplit⟩ := bind_eq_ok_iff.mp isSplit
    obtain ⟨_, _, isSplit⟩ := bind_eq_ok_iff.mp isSplit
    cases isSplit
    obtain ⟨cut, _, parsed⟩ := bind_eq_ok_iff.mp parsed
    split at parsed
    · obtain ⟨_, _, parsed⟩ := bind_eq_ok_iff.mp parsed
      cases parsed
    · obtain ⟨_, _, parsed⟩ := bind_eq_ok_iff.mp parsed
      obtain ⟨_, _, parsed⟩ := bind_eq_ok_iff.mp parsed
      cases parsed
  | none =>
    simp only [true_and, ok_bind]
    rcases splitAtModifier_cases text with
      ⟨noSign, isCut⟩ | ⟨sign, base, atPart, isCut⟩
    · rw [isCut, and_iff_right noSign, ok_bind]
      simp only [bind_eq_ok_iff]
      constructor
      · rintro ⟨⟨parsedName, parsed⟩, isParsed, same⟩
        cases same
        exact isParsed
      · intro isParsed
        exact ⟨(name, matchers), isParsed, rfl⟩
    · refine iff_of_false ?_ fun noSign => noSign.1 sign
      rw [isCut, ok_bind]
      intro parsed
      obtain ⟨_, _, parsed⟩ := bind_eq_ok_iff.mp parsed
      obtain ⟨_, _, parsed⟩ := bind_eq_ok_iff.mp parsed
      cases parsed

theorem parseBracket_ne_vectorSelector
    {std : StdText} {recurse : Text → Except Fault Expr} {query : Text}
    {bracketIdx : ℕ} {selector : VectorSelector} :
    parseBracket std recurse query bracketIdx ≠
      .ok (.vectorSelector selector) := by
  intro parsed
  obtain ⟨_, _, parsed⟩ := bind_eq_ok_iff.mp parsed
  obtain ⟨_, _, parsed⟩ := bind_eq_ok_iff.mp parsed
  split at parsed
  · obtain ⟨_, _, parsed⟩ := bind_eq_ok_iff.mp parsed
    obtain ⟨_, _, parsed⟩ := bind_eq_ok_iff.mp parsed
    obtain ⟨_, _, parsed⟩ := bind_eq_ok_iff.mp parsed
    cases parsed
  · obtain ⟨_, _, parsed⟩ := bind_eq_ok_iff.mp parsed
    obtain ⟨_, _, parsed⟩ := bind_eq_ok_iff.mp parsed
    cases parsed

theorem mem_renderSelector_iff {gap : ℕ} (isName : IsName name)
    (plain : ∀ matcher ∈ matchers, IsPlain matcher) :
    '@' ∈ renderSelector gap name matchers ↔
      ∃ matcher ∈ matchers, '@' ∈ matcher.value.toList := by
  have inMatcher :
      ∀ matcher ∈ matchers,
        '@' ∈ renderMatcher gap matcher ↔ '@' ∈ matcher.value.toList := by
    intro matcher member
    have notName : '@' ∉ matcher.name.toList :=
      (plain matcher member).1.not_mem (by decide)
    have notBlank : '@' ∉ blanks gap := not_mem_blanks (by decide)
    have notOp : '@' ∉ matcher.op.display.toList := by
      cases matcher.op <;> decide
    simp [renderMatcher, notName, notBlank, notOp]
  have inMatchers :
      ∀ matchers : List Matcher,
        '@' ∈ renderMatchers gap matchers ↔
          ∃ matcher ∈ matchers, '@' ∈ renderMatcher gap matcher := by
    intro matchers
    induction matchers with
    | nil => simp [renderMatchers]
    | cons matcher rest inductionHypothesis =>
      cases rest with
      | nil =>
        rw [renderMatchers_singleton]
        simp
      | cons next rest =>
        rw [renderMatchers_cons_cons, mem_append, mem_cons,
          mem_append, inductionHypothesis, exists_mem_cons_iff]
        simp [not_mem_blanks (show isWhitespace '@' = false by decide)]
  have notName : '@' ∉ name.toList := isName.not_mem (by decide)
  rw [renderSelector, mem_append, mem_cons, mem_append, inMatchers]
  simp only [notName, false_or, mem_singleton, Char.reduceEq, or_false]
  exact exists_congr fun matcher => and_congr_right (inMatcher matcher)

/--
A selector that is written out is read as itself exactly when all its matchers
test equality, no value holds a comma or an `@`, and neither an offset modifier
nor an outermost bracket is found in the text.
-/
theorem parsePromql_renderSelector_iff (std : StdText) (gap : ℕ) (name : String)
    (matchers : List Matcher) (isName : IsName name)
    (plain : ∀ matcher ∈ matchers, IsPlain matcher) :
    parsePromql std (renderSelector gap name matchers) =
        .ok (.vectorSelector ⟨some name, matchers, none, none⟩) ↔
      (∀ matcher ∈ matchers,
          matcher.op = .equal ∧
            ',' ∉ matcher.value.toList ∧ '@' ∉ matcher.value.toList) ∧
        findPattern " offset ".toList
            (std.toLowercase (renderSelector gap name matchers)) =
          none ∧
        ¬HasOutermostBracket (renderSelector gap name matchers) := by
  obtain ⟨found, isFound, foundIff⟩ :=
    exists_findOutermostBracket (renderSelector gap name matchers)
  rw [parsePromql_renderSelector isName, isFound, ok_bind, ← foundIff]
  cases found with
  | some bracketIdx => simp [parseBracket_ne_vectorSelector]
  | none =>
    have readsSelector :
        (do
          let selector ←
            parseVectorSelector std (renderSelector gap name matchers)
          (.ok (.vectorSelector selector) : Except Fault Expr)) =
            .ok (.vectorSelector ⟨some name, matchers, none, none⟩) ↔
          parseVectorSelector std (renderSelector gap name matchers) =
            .ok ⟨some name, matchers, none, none⟩ := by
      simp [bind_eq_ok_iff]
    have readsMatchers :
        parseBase (renderSelector gap name matchers) =
            .ok (some name, matchers) ↔
          ∀ matcher ∈ matchers,
            matcher.op = .equal ∧ ',' ∉ matcher.value.toList := by
      rw [parseBase_renderSelector isName]
      simp only [bind_eq_ok_iff, Except.ok.injEq, Prod.mk.injEq, true_and,
        exists_eq_right]
      constructor
      · intro parsed
        have equal := parseParts_op parsed
        have noComma :=
          (parseMatchers_renderMatchers_iff plain equal 0).mp parsed
        exact fun matcher member =>
          ⟨equal matcher member, noComma matcher member⟩
      · intro good
        exact (parseMatchers_renderMatchers_iff plain
          (fun matcher member => (good matcher member).1) 0).mpr
            fun matcher member => (good matcher member).2
    simp only
    rw [readsSelector, parseVectorSelector_eq_ok_iff, trim_renderSelector
      isName, readsMatchers, mem_renderSelector_iff isName plain]
    simp only [not_exists, not_and, Option.isSome_none, Bool.false_eq_true,
      not_false_eq_true, and_true]
    constructor
    · rintro ⟨noOffset, noSign, good⟩
      exact ⟨fun matcher member =>
        ⟨(good matcher member).1, (good matcher member).2,
          noSign matcher member⟩, noOffset⟩
    · rintro ⟨good, noOffset⟩
      exact ⟨noOffset, fun matcher member => (good matcher member).2.2,
        fun matcher member =>
          ⟨(good matcher member).1, (good matcher member).2.1⟩⟩

/-- Tests for equality are read as they were written. -/
theorem equal_selector_round_trip :
    parsePromql StdText.basic
        (renderSelector 0 "up" [.eq "job" "a{b}=(c)", .eq "zone" "offset"]) =
      .ok (.vectorSelector
        ⟨some "up", [.eq "job" "a{b}=(c)", .eq "zone" "offset"], none, none⟩) :=
  (parsePromql_renderSelector_iff StdText.basic 0 "up"
    [.eq "job" "a{b}=(c)", .eq "zone" "offset"] (by decide) (by decide)).mpr
      ⟨by decide, by decide +kernel, not_hasOutermostBracket (by decide)⟩

/-- The selector that an expression is. -/
def Expr.selector? : Expr → Option VectorSelector
  | .vectorSelector selector => some selector
  | _ => none

theorem notEqual_selector_misread :
    (parsePromql StdText.basic
        (renderSelector 0 "up" [⟨"job", "api", .notEqual⟩])).toOption.bind
          Expr.selector? =
        some ⟨some "up", [.eq "job!" "api"], none, none⟩ ∧
      parsePromql StdText.basic
          (renderSelector 0 "up" [⟨"job", "api", .notEqual⟩]) ≠
        .ok (.vectorSelector
          ⟨some "up", [⟨"job", "api", .notEqual⟩], none, none⟩) := by
  have misread :
      (parsePromql StdText.basic
        (renderSelector 0 "up" [⟨"job", "api", .notEqual⟩])).toOption.bind
          Expr.selector? =
        some ⟨some "up", [.eq "job!" "api"], none, none⟩ := by
    decide +kernel
  refine ⟨misread, fun same => ?_⟩
  rw [same] at misread
  revert misread
  decide

end ChronoDB.Query
