import ChronoDB.Query.Verdict

namespace ChronoDB.Query

open Library Text

/-!
# The verdict is the outcome

The parser ends as the verdict on its text says, at every level of the
recursion.  It panics exactly on the texts that break.
-/

namespace Verdict

@[simp] theorem andThen_accepted (verdict : Verdict) :
    verdict.andThen .accepted = verdict := by
  cases verdict <;> rfl

@[simp] theorem accepted_andThen (verdict : Verdict) :
    Verdict.accepted.andThen verdict = verdict :=
  rfl

@[simp] theorem rejected_andThen (verdict : Verdict) :
    Verdict.rejected.andThen verdict = .rejected :=
  rfl

@[simp] theorem broken_andThen (verdict : Verdict) :
    Verdict.broken.andThen verdict = .broken :=
  rfl

@[simp] theorem ofOutcome_ok {Result : Type} (result : Result) :
    ofOutcome (.ok result) = .accepted :=
  rfl

@[simp] theorem ofOutcome_panic {Result : Type} :
    ofOutcome (.error .panic : Except Fault Result) = .broken :=
  rfl

@[simp] theorem ofOutcome_invalidData {Result : Type} (message : String) :
    ofOutcome (invalidData message : Except Fault Result) = .rejected :=
  rfl

theorem ofOutcome_bind {First Second : Type} {outcome : Except Fault First}
    {next : First → Except Fault Second} (verdict : Verdict)
    (sameNext :
      ∀ first, outcome = .ok first → ofOutcome (next first) = verdict) :
    ofOutcome (outcome >>= next) = (ofOutcome outcome).andThen verdict := by
  rcases outcome with (cause | _) | first
  · rfl
  · rfl
  · rw [ok_bind, sameNext first rfl]
    rfl

theorem ofOutcome_eq_broken_iff
    {Result : Type} {outcome : Except Fault Result} :
    ofOutcome outcome = .broken ↔ outcome = .error .panic := by
  rcases outcome with (cause | _) | result <;> simp [ofOutcome]

end Verdict

open Verdict

/-!
## Parts that are read without recursion
-/

theorem ofOutcome_parseDuration (text : Text) :
    ofOutcome (parseDuration text) = durationVerdict text := by
  rw [parseDuration, durationVerdict, find_getD_eq]
  simp only [Bool.not_not, sliceTo_takeWhile, sliceFrom_takeWhile,
    orPanic_some, ok_bind]
  generalize (trim text).takeWhile Char.isDigit = digits
  generalize (trim text).dropWhile Char.isDigit = unit
  split
  · rfl
  · cases unitSeconds unit with
    | none => rfl
    | some factor =>
      simp only [checkedMul]
      by_cases secondsFit : digitsValue digits * factor ≤ maxI64
      · rw [if_pos secondsFit, ok_bind]
        split
        · rfl
        · rfl
      · have tooLong : ¬digitsValue digits * factor * 1000 ≤ maxI64 := by
          omega
        rw [if_neg secondsFit, if_neg tooLong]
        rfl

@[simp] theorem durationVerdict_trim (text : Text) :
    durationVerdict (trim text) = durationVerdict text := by
  rw [durationVerdict, durationVerdict, trim_trim]

theorem ofOutcome_parseOffsetModifier (text : Text) :
    ofOutcome (parseOffsetModifier text) = offsetVerdict text := by
  have afterSign :
      ∀ (sign : Char) (rest : Text), sign.utf8Size = 1 →
        sliceFrom (sign :: rest) 1 = some rest :=
    fun sign rest oneByte => sliceFrom_append_cons [] rest oneByte
  rw [parseOffsetModifier, offsetVerdict]
  cases isText : trim text with
  | nil =>
    rw [← durationVerdict_trim text, isText]
    exact ofOutcome_parseDuration []
  | cons sign rest =>
    by_cases isMinus : sign = '-'
    · subst isMinus
      simp only [List.head?_cons, if_true]
      rw [afterSign '-' rest rfl, orPanic_some, ok_bind,
        ofOutcome_bind .accepted fun _ _ => rfl,
        andThen_accepted, ofOutcome_parseDuration, durationVerdict_trim]
    · by_cases isPlus : sign = '+'
      · subst isPlus
        simp only [List.head?_cons, Option.some.injEq, Char.reduceEq,
          if_false, if_true]
        rw [afterSign '+' rest rfl, orPanic_some, ok_bind,
          ofOutcome_parseDuration, durationVerdict_trim]
      · rw [← durationVerdict_trim text, isText]
        simp [isMinus, isPlus, ofOutcome_parseDuration]

@[simp] theorem offsetVerdict_trim (text : Text) :
    offsetVerdict (trim text) = offsetVerdict text := by
  rw [offsetVerdict, offsetVerdict, trim_trim, durationVerdict_trim]

theorem ofOutcome_parseAtModifier (std : StdText) (text : Text) :
    ofOutcome (parseAtModifier std text) = atVerdict std text := by
  rw [parseAtModifier, atVerdict]
  split
  · rename_i isStart
    rw [if_pos (Or.inl isStart)]
    rfl
  · rename_i notStart
    split
    · rename_i isEnd
      rw [if_pos (Or.inr (Or.inl isEnd))]
      rfl
    · rename_i notEnd
      cases std.parseTimestamp (trim text) with
      | none =>
        rw [if_neg (by
          simp only [notStart, notEnd, Option.isSome_none,
            Bool.false_eq_true, or_self, not_false_eq_true])]
        rfl
      | some timestamp =>
        rw [if_pos (by simp)]
        rfl

theorem ofOutcome_readValue (valuePart : Text) :
    ofOutcome
        (((unquote '"' valuePart).or (unquote '\'' valuePart)).getD
          (.ok valuePart)) =
      if valuePart ∈ [['"'], ['\'']] then .broken else .accepted := by
  have quoted :
      ∀ quote : Char, quote.utf8Size = 1 →
        valuePart.head? = some quote → valuePart.getLast? = some quote →
          ofOutcome (orPanic (slice valuePart 1 (byteLength valuePart - 1))) =
            if valuePart = [quote] then .broken else .accepted := by
    intro quote oneByte isFirst isLast
    obtain ⟨rest, rfl⟩ := List.head?_eq_some_iff.mp isFirst
    cases rest using List.reverseRecOn with
    | nil => simp [oneByte, slice]
    | append_singleton inner last =>
      rw [← List.cons_append, List.getLast?_concat] at isLast
      cases isLast
      have isInner :
          slice (quote :: (inner ++ [quote])) 1
              (byteLength (quote :: (inner ++ [quote])) - 1) =
            some inner :=
        slice_eq_some_iff.mpr ⟨[quote], [quote], by simp, by simp [oneByte],
          by simp [oneByte]; omega⟩
      rw [isInner]
      simp
  rw [unquote, unquote]
  by_cases isDouble : valuePart.head? = some '"' ∧ valuePart.getLast? = some '"'
  · rw [if_pos isDouble]
    have notSingle : valuePart ≠ ['\''] := by
      rintro rfl
      exact absurd isDouble.1 (by decide)
    simp [quoted '"' rfl isDouble.1 isDouble.2, notSingle]
  · rw [if_neg isDouble]
    have notDouble : valuePart ≠ ['"'] := by
      rintro rfl
      exact isDouble ⟨rfl, rfl⟩
    by_cases isSingle :
        valuePart.head? = some '\'' ∧ valuePart.getLast? = some '\''
    · rw [if_pos isSingle]
      simp [quoted '\'' rfl isSingle.1 isSingle.2, notDouble]
    · rw [if_neg isSingle]
      have notSingle : valuePart ≠ ['\''] := by
        rintro rfl
        exact isSingle ⟨rfl, rfl⟩
      simp [notDouble, notSingle]

theorem ofOutcome_parseMatcher (part : Text) :
    ofOutcome (parseMatcher part) =
      if IsLoneQuote part then .broken else .accepted := by
  by_cases sign : '=' ∈ part
  · obtain ⟨before, after, rfl, first⟩ := List.eq_append_cons_of_mem sign
    have isValue :
        (before ++ '=' :: after).dropWhile (· ≠ '=') = '=' :: after := by
      rw [List.dropWhile_append_of_pos]
      · simp
      · intro char member
        rw [decide_eq_true_eq]
        rintro rfl
        exact first member
    have loneIff :
        IsLoneQuote (before ++ '=' :: after) ↔
          trim after ∈ [['"'], ['\'']] := by
      rw [IsLoneQuote, isValue, List.tail_cons]
    simp only [loneIff]
    rw [parseMatcher, find_first first, ← ofOutcome_readValue]
    simp only [sliceTo_append, sliceFrom_append_cons _ _ (show '='.utf8Size = 1
      from rfl), orPanic_some, ok_bind]
    rw [ofOutcome_bind .accepted fun _ _ => rfl, andThen_accepted]
  · have noValue : part.dropWhile (· ≠ '=') = [] := by
      rw [List.dropWhile_eq_nil_iff]
      intro char member
      rw [decide_eq_true_eq]
      rintro rfl
      exact sign member
    have notLone : ¬IsLoneQuote part := by
      rw [IsLoneQuote, noValue]
      decide
    rw [parseMatcher, find_eq_none_of_not_mem sign, if_neg notLone]
    rfl

theorem ofOutcome_parseMatchers (text : Text) :
    ofOutcome (parseMatchers text) = matchersVerdict text := by
  rw [parseMatchers, matchersVerdict]
  induction text.splitOn ',' with
  | nil => simp [parseParts]
  | cons part rest inductionHypothesis =>
    rw [parseParts]
    simp only [List.exists_mem_cons_iff]
    split
    · rename_i blank
      have notLone : ¬IsLoneQuote (trim part) := by
        rw [blank]
        decide
      simpa [notLone] using inductionHypothesis
    · rw [ofOutcome_bind (ofOutcome (parseParts rest)),
        ofOutcome_parseMatcher, inductionHypothesis]
      · by_cases isLone : IsLoneQuote (trim part)
        · simp [isLone]
        · simp [isLone]
      · intro matcher _
        rw [ofOutcome_bind .accepted fun _ _ => rfl, andThen_accepted]

/-!
## Selectors
-/

theorem slice_inside (name inside : Text) :
    slice (name ++ '{' :: inside) (byteLength name + 1)
        (byteLength (name ++ '{' :: inside) - 1) =
      inside.getLast?.bind fun last =>
        if last.utf8Size = 1 then some inside.dropLast else none := by
  have braceByte : Char.utf8Size '{' = 1 := rfl
  cases inside using List.reverseRecOn with
  | nil => simp [slice, braceByte]
  | append_singleton inner last =>
    rw [List.getLast?_concat, List.dropLast_concat, Option.bind_some]
    split
    · rename_i oneByte
      refine slice_eq_some_iff.mpr ⟨name ++ ['{'], [last], by simp, ?_, ?_⟩
      · simp [braceByte]
      · simp [braceByte, oneByte]
        omega
    · rename_i wide
      rw [Option.eq_none_iff_forall_ne_some]
      intro middle isSlice
      obtain ⟨before, after, isText, isStart, isStop⟩ :=
        slice_eq_some_iff.mp isSlice
      have lastBytes := last.utf8Size_pos
      -- the cut would fall inside the last character
      have bytes := congrArg byteLength isText
      simp only [byteLength_append, byteLength_cons, byteLength_nil]
        at bytes isStop
      cases after using List.reverseRecOn with
      | nil =>
        simp only [byteLength_nil] at bytes
        omega
      | append_singleton others final =>
        rw [← List.append_assoc, ← List.cons_append, ← List.append_assoc]
          at isText
        have sameLast := List.append_inj' isText rfl
        have isFinal : last = final := by simpa using sameLast.2
        simp only [byteLength_append, byteLength_cons, byteLength_nil,
          ← isFinal] at bytes
        omega

theorem ofOutcome_parseBase (base : Text) :
    ofOutcome (parseBase base) = baseVerdict base := by
  by_cases brace : '{' ∈ base
  · obtain ⟨name, inside, rfl, first⟩ := List.eq_append_cons_of_mem brace
    have isInside :
        (name ++ '{' :: inside).dropWhile (· ≠ '{') = '{' :: inside := by
      rw [List.dropWhile_append_of_pos]
      · simp
      · intro char member
        rw [decide_eq_true_eq]
        rintro rfl
        exact first member
    rw [parseBase, find_first first, baseVerdict, isInside]
    simp only [sliceTo_append, orPanic_some, ok_bind]
    rw [slice_inside]
    cases inside.getLast? with
    | none => rfl
    | some last =>
      simp only [Option.bind_some]
      split
      · rw [orPanic_some, ok_bind, ofOutcome_bind .accepted,
          andThen_accepted, ofOutcome_parseMatchers]
        intro matchers _
        split <;> rfl
      · rfl
  · have noBrace : base.dropWhile (· ≠ '{') = [] := by
      rw [List.dropWhile_eq_nil_iff]
      intro char member
      rw [decide_eq_true_eq]
      rintro rfl
      exact brace member
    rw [parseBase, find_eq_none_of_not_mem brace, baseVerdict, noBrace]
    rfl

theorem splitAtModifier_eq_ok (text : Text) :
    splitAtModifier text = .ok (atCut text) := by
  rcases splitAtModifier_cases text with
    ⟨_, isCut⟩ | ⟨_, base, atPart, isCut⟩
  · rw [atCut, isCut]
    rfl
  · rw [atCut, isCut]
    rfl

/-- What is read of a selector once its offset is known. -/
def selectorAfterOffset
    (std : StdText) (offset : Option Int64) (withoutOffset : Text) :
    Except Fault VectorSelector := do
  let cut ← splitAtModifier withoutOffset
  match cut with
  | none =>
    let (name, matchers) ← parseBase withoutOffset
    .ok ⟨name, matchers, offset, none⟩
  | some (base, atPart) =>
    let atModifier ← parseAtModifier std atPart
    let (name, matchers) ← parseBase base
    .ok ⟨name, matchers, offset, some atModifier⟩

theorem ofOutcome_selectorAfterOffset
    (std : StdText) (offset : Option Int64) (withoutOffset : Text) :
    ofOutcome (selectorAfterOffset std offset withoutOffset) =
      modifiersVerdict std withoutOffset := by
  rw [selectorAfterOffset, splitAtModifier_eq_ok, ok_bind, modifiersVerdict]
  cases atCut withoutOffset with
  | none =>
    dsimp only
    rw [ofOutcome_bind .accepted fun _ _ => rfl,
      andThen_accepted, ofOutcome_parseBase]
  | some cut =>
    obtain ⟨base, atPart⟩ := cut
    dsimp only
    rw [ofOutcome_bind (baseVerdict base), ofOutcome_parseAtModifier]
    intro atModifier _
    rw [ofOutcome_bind .accepted fun _ _ => rfl,
      andThen_accepted, ofOutcome_parseBase]

theorem ofOutcome_parseVectorSelector (std : StdText) (text : Text) :
    ofOutcome (parseVectorSelector std text) = selectorVerdict std text := by
  rw [parseVectorSelector, splitOffset, selectorVerdict]
  cases findPattern " offset ".toList (std.toLowercase (trim text)) with
  | none => exact ofOutcome_selectorAfterOffset std none (trim text)
  | some offsetIdx =>
    dsimp only
    cases isBefore : sliceTo (trim text) offsetIdx with
    | none => simp only [orPanic_none, error_bind, ofOutcome_panic]
    | some before =>
      cases isAfter : sliceFrom (trim text) (offsetIdx + 8) with
      | none =>
        simp only [orPanic_some, orPanic_none, ok_bind, error_bind,
          ofOutcome_panic]
      | some after =>
        simp only [orPanic_some, ok_bind, splitAtModifier_eq_ok (trim _)]
        rw [ofOutcome_bind (modifiersVerdict std before),
          ofOutcome_bind .accepted fun _ _ => rfl,
          andThen_accepted, ofOutcome_parseOffsetModifier,
          offsetVerdict_trim]
        intro split isSplit
        obtain ⟨offset, _, same⟩ := bind_eq_ok_iff.mp isSplit
        cases same
        exact ofOutcome_selectorAfterOffset std (some offset) before

/-!
## What follows an expression
-/

theorem ofOutcome_parseSubquerySuffix (expr : Expr) (suffix : Text) :
    ofOutcome (parseSubquerySuffix expr suffix) = suffixVerdict suffix := by
  rw [parseSubquerySuffix, suffixVerdict]
  split
  · rfl
  · rename_i isBracketed
    rw [not_or, not_ne_iff, not_ne_iff] at isBracketed
    obtain ⟨rest, rfl⟩ := List.head?_eq_some_iff.mp isBracketed.1
    have isInner :
        slice ('[' :: rest) 1 (byteLength ('[' :: rest) - 1) =
          some rest.dropLast := by
      cases rest using List.reverseRecOn with
      | nil => exact absurd isBracketed.2 (by decide)
      | append_singleton inner last =>
        rw [← List.cons_append, List.getLast?_concat] at isBracketed
        cases isBracketed.2
        rw [List.dropLast_concat]
        have openByte : Char.utf8Size '[' = 1 := rfl
        have closeByte : Char.utf8Size ']' = 1 := rfl
        exact slice_eq_some_iff.mpr ⟨['['], [']'], by simp, rfl, by
          simp [openByte, closeByte]; omega⟩
    rw [isInner, orPanic_some, ok_bind, List.tail_cons]
    rcases rest.dropLast.splitOn ':' with
      _ | ⟨range, _ | ⟨resolution, _ | ⟨third, others⟩⟩⟩
    · rfl
    · rfl
    · dsimp only
      rw [ofOutcome_bind (durationVerdict resolution),
        ofOutcome_parseDuration, durationVerdict_trim]
      intro rangeMillis _
      rw [ofOutcome_bind .accepted fun _ _ => rfl,
        andThen_accepted, ofOutcome_parseDuration, durationVerdict_trim]
    · rfl

theorem ofOutcome_finishExpr (expr : Expr) (text : Text) :
    ofOutcome (finishExpr expr text) = finishVerdict text := by
  rw [finishExpr, finishVerdict]
  split
  · exact ofOutcome_parseSubquerySuffix expr text
  · rfl

/-!
## Brackets
-/

theorem ofOutcome_cut {Inner Result : Type} {inside : Text} {stop : ℕ}
    {parseInner : Text → Except Fault Inner}
    {parseRest : Inner → Text → Except Fault Result}
    {readInner readRest : Text → Verdict}
    (sameInner : ∀ inner, ofOutcome (parseInner inner) = readInner inner)
    (sameRest :
      ∀ result rest, ofOutcome (parseRest result rest) = readRest rest) :
    ofOutcome
        (do
          let inner ← orPanic (sliceTo inside stop)
          let result ← parseInner inner
          let rest ← orPanic (sliceFrom inside (stop + 1))
          parseRest result rest) =
      cutVerdict inside stop readInner readRest := by
  rw [cutVerdict]
  cases sliceTo inside stop with
  | none => rfl
  | some inner =>
    rw [orPanic_some, ok_bind, ofOutcome_bind _, sameInner]
    intro result _
    cases sliceFrom inside (stop + 1) with
    | none => rfl
    | some rest => exact sameRest result rest

theorem slice_cons (inside : Text) (stop : ℕ) :
    slice ('(' :: inside) 1 (stop + 1) = sliceTo inside stop := by
  have cut := slice_append_left ['('] inside stop
  rwa [Nat.add_comm] at cut

theorem sliceFrom_cons (inside : Text) (start : ℕ) :
    sliceFrom ('(' :: inside) (start + 1) = sliceFrom inside start := by
  have cut := sliceFrom_append_left ['('] inside start
  rwa [Nat.add_comm] at cut

theorem ofOutcome_parseGroupingLabels_bind {Result : Type} {text : Text}
    {parseNext : List String × Text → Except Fault Result}
    {next : Text → Verdict}
    (sameNext :
      ∀ labels rest, ofOutcome (parseNext (labels, rest)) = next rest) :
    ofOutcome (parseGroupingLabels text >>= parseNext) =
      groupVerdict (trim text) (fun _ => .accepted) next := by
  rw [parseGroupingLabels]
  generalize trim text = text
  by_cases opens : text.head? = some '('
  · obtain ⟨inside, rfl⟩ := List.head?_eq_some_iff.mp opens
    have isInside : sliceFrom ('(' :: inside) 1 = some inside :=
      sliceFrom_append_cons [] inside rfl
    simp only [opens, ne_eq, not_true_eq_false, if_false, isInside,
      orPanic_some, ok_bind, slice_cons, sliceFrom_cons, groupVerdict]
    cases closingParen inside with
    | none => rfl
    | some stop =>
      simp only [cutVerdict]
      cases sliceTo inside stop with
      | none => rfl
      | some inner =>
        cases sliceFrom inside (stop + 1) with
        | none => rfl
        | some rest => exact sameNext _ rest
  · have noGroup : groupVerdict text (fun _ => .accepted) next = .rejected := by
      rw [groupVerdict.eq_def]
      split
      · exact absurd rfl opens
      · rfl
    rw [noGroup]
    simp only [ne_eq, opens, not_false_eq_true, if_true]
    rfl

/-- A lower-cased text starts with a keyword where the text itself does. -/
theorem exists_of_isPrefix_toLowercase {std : StdText} {keyword text : Text}
    (isAscii : ∀ char ∈ keyword, char.toNat < 128 ∧ char ≠ 'k')
    (isLast : ∀ char ∈ keyword.getLast?, char ≠ 'i')
    (starts : keyword <+: std.toLowercase text) :
    ∃ first rest,
      text = first ++ rest ∧
        std.toLowercase first = keyword ∧
          first.length = keyword.length ∧
            byteLength first = keyword.length := by
  induction keyword generalizing text with
  | nil => exact ⟨[], text, rfl, rfl, rfl, rfl⟩
  | cons char keyword inductionHypothesis =>
    cases text with
    | nil => exact absurd (List.prefix_nil.mp starts) (List.cons_ne_nil _ _)
    | cons original text =>
      obtain ⟨⟨charAscii, notKelvin⟩, keywordAscii⟩ :=
        List.forall_mem_cons.mp isAscii
      have isLower :
          ∀ rest : Text, std.toLowercase (original :: rest) =
            std.lowercase original ++ std.toLowercase rest :=
        fun _ => List.flatMap_cons
      rw [isLower] at starts
      by_cases originalAscii : original.toNat < 128
      · rw [std.lowercase_ascii original originalAscii,
          List.singleton_append, List.cons_prefix_cons] at starts
        have lastOfRest : ∀ char ∈ keyword.getLast?, char ≠ 'i' := by
          intro last isLastOfRest
          refine isLast last ?_
          rw [Option.mem_def] at isLastOfRest ⊢
          rw [List.getLast?_cons, isLastOfRest]
          rfl
        obtain ⟨first, rest, rfl, isKeyword, sameLength, sameBytes⟩ :=
          inductionHypothesis keywordAscii lastOfRest starts.2
        refine ⟨original :: first, rest, rfl, ?_, by simp [sameLength], ?_⟩
        · rw [isLower, std.lowercase_ascii original originalAscii,
            isKeyword, ← starts.1]
          rfl
        have oneByte : original.utf8Size = 1 := by
          rw [Char.utf8Size, if_pos]
          rw [UInt32.le_iff_toNat_le]
          exact Nat.le_of_lt_succ originalAscii
        rw [byteLength_cons, oneByte, sameBytes, List.length_cons, Nat.add_comm]
      · exfalso
        rcases hLower : std.lowercase original with _ | ⟨lower, others⟩
        · exact std.lowercase_ne_nil original hLower
        · rw [hLower, List.cons_append, List.cons_prefix_cons] at starts
          obtain ⟨rfl, startsRest⟩ := starts
          by_cases isKelvin : original.toNat = 0x212A
          · have isChar : original = Char.ofNat 0x212A :=
              Char.toNat_inj.mp isKelvin
            rw [isChar, std.lowercase_kelvin] at hLower
            exact notKelvin (List.cons.inj hLower).1.symm
          · by_cases isDotted : original.toNat = 0x130
            · have isChar : original = Char.ofNat 0x130 :=
                Char.toNat_inj.mp isDotted
              rw [isChar, std.lowercase_dotted] at hLower
              obtain ⟨rfl, rfl⟩ := List.cons.inj hLower
              cases keyword with
              | nil => exact isLast 'i' rfl rfl
              | cons next keyword =>
                rw [List.singleton_append, List.cons_prefix_cons] at startsRest
                have nextAscii := (keywordAscii next (by simp)).1
                rw [startsRest.1] at nextAscii
                revert nextAscii
                decide
            · have wide := std.lowercase_other original
                (Nat.le_of_not_lt originalAscii) isKelvin isDotted char
                (by rw [hLower]; exact List.mem_cons_self)
              omega

theorem sliceFrom_of_isPrefix {std : StdText} {keyword text : Text}
    (isAscii : ∀ char ∈ keyword, char.toNat < 128 ∧ char ≠ 'k')
    (isLast : ∀ char ∈ keyword.getLast?, char ≠ 'i')
    (starts : keyword.isPrefixOf (std.toLowercase text) = true) :
    sliceFrom text keyword.length = some (text.drop keyword.length) := by
  obtain ⟨first, rest, rfl, _, sameLength, sameBytes⟩ :=
    exists_of_isPrefix_toLowercase isAscii isLast
      (List.isPrefixOf_iff_prefix.mp starts)
  rw [← sameLength, List.drop_left]
  exact sliceFrom_eq_some_iff.mpr ⟨first, rfl, sameBytes.trans sameLength.symm⟩

theorem ofOutcome_groupingModifier_bind
    {Result : Type} {std : StdText} {text : Text}
    {parseNext :
      Option (List String × Bool × Text) → Except Fault Result}
    {next : Text → Verdict} (sameNone : ofOutcome (parseNext none) = next text)
    (sameSome :
      ∀ labels without rest,
        ofOutcome (parseNext (some (labels, without, rest))) = next rest) :
    ofOutcome (groupingModifier std text >>= parseNext) =
      clauseVerdict std text next := by
  rw [groupingModifier, clauseVerdict]
  split
  · rename_i startsBy
    have clause := sliceFrom_of_isPrefix (by decide) (by decide) startsBy
    rw [show sliceFrom text 3 = some (text.drop 3) from clause, orPanic_some,
      ok_bind, bind_assoc]
    exact ofOutcome_parseGroupingLabels_bind fun labels rest =>
      sameSome labels false (trim rest)
  · split
    · rename_i startsWithout
      have clause := sliceFrom_of_isPrefix (by decide) (by decide) startsWithout
      rw [show sliceFrom text 8 = some (text.drop 8) from clause,
        orPanic_some, ok_bind, bind_assoc]
      exact ofOutcome_parseGroupingLabels_bind fun labels rest =>
        sameSome labels true (trim rest)
    · exact sameNone

/-!
## Expressions
-/

section Recursion

variable
  {std : StdText}
  {recurse : Text → Except Fault Expr}
  {verdict : Text → Verdict}

theorem ofOutcome_parseAggregationTail
    (op : Function) (expr : Expr) (grouping : List String) (without : Bool)
    (afterExpr : Text) :
    ofOutcome (parseAggregationTail std op expr grouping without afterExpr) =
      clauseVerdict std afterExpr finishVerdict :=
  ofOutcome_groupingModifier_bind (ofOutcome_finishExpr _ _)
    fun _ _ _ => ofOutcome_finishExpr _ _

/-- What is read of an aggregation from the bracket before its expression. -/
def parseGroup
    (std : StdText) (recurse : Text → Except Fault Expr) (op : Function)
    (exprStr : Text) (grouping : List String) (without : Bool) :
    Except Fault Expr :=
  if exprStr.head? ≠ some '(' then
    invalidData
      ("Expected '(' after aggregation modifier, got: " ++
        String.ofList exprStr)
  else do
    let inside ← orPanic (sliceFrom exprStr 1)
    match closingParen inside with
    | none => invalidData "Unclosed parenthesis in aggregation"
    | some index =>
      let innerExpr ← orPanic (slice exprStr 1 (index + 1))
      let expr ← recurse innerExpr
      let afterExpr ← orPanic (sliceFrom exprStr (index + 2))
      parseAggregationTail std op expr grouping without (trim afterExpr)

theorem ofOutcome_parseGroup
    (same : ∀ text, ofOutcome (recurse text) = verdict text) (op : Function)
    (exprStr : Text) (grouping : List String) (without : Bool) :
    ofOutcome (parseGroup std recurse op exprStr grouping without) =
      groupVerdict exprStr verdict fun afterExpr =>
        clauseVerdict std (trim afterExpr) finishVerdict := by
  by_cases opens : exprStr.head? = some '('
  · obtain ⟨inside, rfl⟩ := List.head?_eq_some_iff.mp opens
    have isInside : sliceFrom ('(' :: inside) 1 = some inside :=
      sliceFrom_append_cons [] inside rfl
    simp only [parseGroup, opens, ne_eq, not_true_eq_false, if_false, isInside,
      orPanic_some, ok_bind, slice_cons, sliceFrom_cons, groupVerdict]
    cases closingParen inside with
    | none => rfl
    | some stop =>
      exact ofOutcome_cut same fun expr afterExpr =>
        ofOutcome_parseAggregationTail op expr grouping without (trim afterExpr)
  · rw [parseGroup, if_pos opens, groupVerdict.eq_def]
    split
    · exact absurd rfl opens
    · rfl

theorem ofOutcome_parseAggregation
    (same : ∀ text, ofOutcome (recurse text) = verdict text) {op : Function}
    {query rest : Text} (isQuery : trim query = op.name.toList ++ rest) :
    ofOutcome (parseAggregation std recurse query op) =
      aggregationVerdict std verdict (trim rest) := by
  rw [parseAggregation, aggregationVerdict, isQuery, sliceFrom_append,
    orPanic_some, ok_bind]
  exact ofOutcome_groupingModifier_bind (ofOutcome_parseGroup same op _ _ _)
    fun labels without rest =>
      ofOutcome_parseGroup same op rest labels without

theorem modifyHead_self (texts : List Text) :
    texts.modifyHead (fun text => text) = texts := by
  cases texts <;> rfl

/-- Arguments end as their texts say, one after the other. -/
theorem ofOutcome_parseArgsFrom
    (same : ∀ text, ofOutcome (recurse text) = verdict text)
    (before current rest : Text) (depth : ℤ) :
    ofOutcome
        (parseArgsFrom recurse (before ++ (current ++ rest)) depth
          (byteLength before) (byteLength before + byteLength current) rest) =
      all
        (((splitArguments depth rest).modifyHead (current ++ ·)).map
          verdict) := by
  induction rest generalizing before current depth with
  | nil =>
    rw [parseArgsFrom, List.append_nil, sliceFrom_append, orPanic_some,
      ok_bind, ofOutcome_bind .accepted fun _ _ => rfl, same]
    simp [splitArguments, all]
  | cons char rest inductionHypothesis =>
    -- the argument goes on with this character
    have goesOn :
        ofOutcome
            (parseArgsFrom recurse (before ++ (current ++ char :: rest))
              (depth + argumentStep char) (byteLength before)
              (byteLength before + byteLength current + char.utf8Size)
              rest) =
          all
            ((((splitArguments (depth + argumentStep char)
              rest).modifyHead (char :: ·)).modifyHead (current ++ ·)).map
                verdict) := by
      have later :=
        inductionHypothesis before (current ++ [char])
          (depth + argumentStep char)
      rw [List.append_assoc, List.singleton_append, byteLength_append,
        byteLength_cons, byteLength_nil, Nat.add_zero, ← Nat.add_assoc]
        at later
      rw [later, List.modifyHead_modifyHead]
      congr 3
      funext text
      simp
    rw [parseArgsFrom, splitArguments]
    by_cases opens : char = '(' ∨ char = '[' ∨ char = '{'
    · have noComma : ¬(char = ',' ∧ depth = 0) := by
        rintro ⟨rfl, _⟩
        revert opens
        decide
      have step : argumentStep char = 1 := if_pos opens
      rw [if_pos opens, if_neg noComma]
      rw [step] at goesOn ⊢
      exact goesOn
    · by_cases closes : char = ')' ∨ char = ']' ∨ char = '}'
      · have noComma : ¬(char = ',' ∧ depth = 0) := by
          rintro ⟨rfl, _⟩
          revert closes
          decide
        have step : argumentStep char = -1 := by
          rw [argumentStep, if_neg opens, if_pos closes]
        rw [if_neg opens, if_pos closes, if_neg noComma]
        rw [step] at goesOn ⊢
        exact goesOn
      · by_cases comma : char = ',' ∧ depth = 0
        · obtain ⟨rfl, rfl⟩ := comma
          have isArgument :
              slice (before ++ (current ++ ',' :: rest)) (byteLength before)
                  (byteLength before + byteLength current) =
                some current := by
            rw [slice_append_left, sliceTo_append]
          have later := inductionHypothesis (before ++ current ++ [',']) [] 0
          simp only [List.append_assoc, List.nil_append, List.singleton_append,
            byteLength_append, byteLength_cons, byteLength_nil, Nat.add_zero, ←
            Nat.add_assoc, modifyHead_self] at later
          rw [if_neg opens, if_neg closes, if_pos ⟨rfl, rfl⟩,
            if_pos ⟨rfl, rfl⟩, isArgument, orPanic_some, ok_bind,
            ofOutcome_bind (all ((splitArguments 0 rest).map verdict)), same]
          · simp [all]
          · intro arg _
            rw [ofOutcome_bind .accepted fun _ _ => rfl, andThen_accepted]
            exact later
        · have step : argumentStep char = 0 := by
            rw [argumentStep, if_neg opens, if_neg closes]
          rw [if_neg opens, if_neg closes, if_neg comma, if_neg comma]
          rw [step] at goesOn ⊢
          rw [Int.add_zero] at goesOn ⊢
          exact goesOn

theorem ofOutcome_parseArgs
    (same : ∀ text, ofOutcome (recurse text) = verdict text) (text : Text) :
    ofOutcome (parseArgs recurse text) = argumentsVerdict verdict text := by
  rw [parseArgs, argumentsVerdict]
  split
  · rfl
  · have whole := ofOutcome_parseArgsFrom same [] [] text 0
    simpa [modifyHead_self] using whole

theorem parseCall_eq (recurse : Text → Except Fault Expr) (before inside : Text)
    (func : Function) :
    parseCall recurse (before ++ '(' :: inside) (byteLength before) func =
      (do
        let argsStr ← orPanic (sliceTo inside ((closingParen inside).getD 0))
        let args ← parseArgs recurse argsStr
        let rest ← orPanic (sliceFrom inside ((closingParen inside).getD 0 + 1))
        finishExpr (.call func args) (trim rest)) := by
  have isInside :
      sliceFrom (before ++ '(' :: inside) (byteLength before + 1) =
        some inside :=
    sliceFrom_append_cons before inside rfl
  have isQuery : before ++ '(' :: inside = (before ++ ['(']) ++ inside := by
    simp
  have bytes : byteLength before + 1 = byteLength (before ++ ['(']) := by
    rw [byteLength_append]
    rfl
  have isArgs :
      ∀ stop,
        slice (before ++ '(' :: inside) (byteLength before + 1)
            (byteLength before + 1 + stop) =
          sliceTo inside stop := by
    intro stop
    rw [isQuery, bytes, slice_append_left]
  have isRest :
      ∀ stop,
        sliceFrom (before ++ '(' :: inside) (byteLength before + 1 + stop + 1) =
          sliceFrom inside (stop + 1) := by
    intro stop
    rw [isQuery, bytes, Nat.add_assoc, sliceFrom_append_left]
  rw [parseCall, isInside, orPanic_some, ok_bind]
  simp only [isArgs, isRest]

theorem ofOutcome_parseCall
    (same : ∀ text, ofOutcome (recurse text) = verdict text)
    (before inside : Text) (func : Function) :
    ofOutcome
        (parseCall recurse (before ++ '(' :: inside) (byteLength before) func) =
      callVerdict verdict inside := by
  rw [parseCall_eq, callVerdict]
  exact ofOutcome_cut (ofOutcome_parseArgs same)
    fun args rest => ofOutcome_finishExpr _ _

theorem ofOutcome_parseBracket
    (same : ∀ text, ofOutcome (recurse text) = verdict text) (query : Text)
    (bracketIdx : ℕ) :
    ofOutcome (parseBracket std recurse query bracketIdx) =
      bracketVerdict std verdict query bracketIdx := by
  rw [parseBracket, bracketVerdict]
  cases sliceTo query bracketIdx with
  | none => rfl
  | some exprPart =>
    cases slice query (bracketIdx + 1) (byteLength query - 1) with
    | none => rfl
    | some inner =>
      simp only [orPanic_some, ok_bind]
      have matrix :
          ofOutcome
              (do
                let range ← parseDuration inner
                let selector ← parseVectorSelector std exprPart
                .ok (Expr.matrixSelector ⟨selector, range⟩)) =
            (durationVerdict inner).andThen (selectorVerdict std exprPart) := by
        rw [ofOutcome_bind (selectorVerdict std exprPart),
          ofOutcome_parseDuration]
        intro range _
        rw [ofOutcome_bind .accepted fun _ _ => rfl,
          andThen_accepted, ofOutcome_parseVectorSelector]
      rcases inner.splitOn ':' with
        _ | ⟨range, _ | ⟨resolution, _ | ⟨third, others⟩⟩⟩
      · exact matrix
      · exact matrix
      · dsimp only [all, List.foldr]
        rw [andThen_accepted, ofOutcome_bind
          ((durationVerdict resolution).andThen (verdict (trim exprPart))),
          ofOutcome_parseDuration, durationVerdict_trim]
        intro rangeMillis _
        rw [ofOutcome_bind (verdict (trim exprPart)),
          ofOutcome_parseDuration, durationVerdict_trim]
        intro resolutionMillis _
        rw [ofOutcome_bind .accepted fun _ _ => rfl, andThen_accepted, same]
      · exact matrix

theorem ofOutcome_plain
    (same : ∀ text, ofOutcome (recurse text) = verdict text) (query : Text) :
    ofOutcome
        (do
          let bracket ← findOutermostBracket query
          match bracket with
          | some bracketIdx => parseBracket std recurse query bracketIdx
          | none =>
            let selector ← parseVectorSelector std query
            .ok (.vectorSelector selector)) =
      plainVerdict std verdict query := by
  obtain ⟨found, isFound, _⟩ := exists_findOutermostBracket query
  rw [plainVerdict, isFound, ok_bind]
  cases found with
  | none =>
    dsimp only
    rw [ofOutcome_bind .accepted fun _ _ => rfl, andThen_accepted]
    exact ofOutcome_parseVectorSelector std query
  | some bracketIdx => exact ofOutcome_parseBracket same query bracketIdx

theorem exists_of_aggregationNamed {query before inside : Text} {op : Function}
    (isQuery : trim query = before ++ '(' :: inside)
    (named : aggregationNamed (trim before) = some op) :
    ∃ rest, trim query = op.name.toList ++ rest := by
  have visibleStart :
      ∀ text, text <+: before →
        ∀ char ∈ text.head?, isWhitespace char = false := by
    intro text starts char isFirst
    obtain ⟨rest, rfl⟩ := List.head?_eq_some_iff.mp isFirst
    obtain ⟨others, isBefore⟩ := starts
    refine @visible_of_head_trim query char ?_
    rw [isQuery, ← isBefore]
    rfl
  have trimmed : trim before <+: before := by
    rw [trim, trimStart_eq_self (visibleStart before List.prefix_rfl)]
    exact List.rdropWhile_prefix _ _
  have isWord : firstWord (trim before) <+: before := by
    rw [firstWord, trimStart_eq_self (visibleStart _ trimmed)]
    exact (List.takeWhile_prefix _).trans trimmed
  rw [aggregationNamed, Option.filter_eq_some_iff] at named
  have isName := List.find?_some named.1
  rw [eq_of_beq isName, String.toList_ofList]
  obtain ⟨rest, isStart⟩ :=
    isWord.trans (List.prefix_append before ('(' :: inside))
  exact ⟨rest, by rw [isQuery, isStart]⟩

theorem ofOutcome_parseLevel
    (same : ∀ text, ofOutcome (recurse text) = verdict text) (query : Text) :
    ofOutcome (parseLevel std recurse query) =
      levelVerdict std verdict query := by
  rw [parseLevel, levelVerdict]
  rcases beforeParen_cases (trim query) with
    ⟨noParen, isParen⟩ | ⟨before, inside, isQuery, first, isParen⟩
  · have noInside : (trim query).dropWhile (· ≠ '(') = [] := by
      rw [List.dropWhile_eq_nil_iff]
      intro char member
      rw [decide_eq_true_eq]
      rintro rfl
      exact noParen member
    rw [isParen, noInside]
    exact ofOutcome_plain same (trim query)
  · have passed : ∀ char ∈ before, decide (char ≠ '(') = true := by
      intro char member
      rw [decide_eq_true_eq]
      rintro rfl
      exact first member
    have isBefore : (trim query).takeWhile (· ≠ '(') = before := by
      rw [isQuery, List.takeWhile_append_of_pos passed]
      simp
    have isInside : (trim query).dropWhile (· ≠ '(') = '(' :: inside := by
      rw [isQuery, List.dropWhile_append_of_pos passed]
      simp
    rw [isParen, isBefore, isInside]
    simp only [ok_bind, Option.bind_some]
    cases named : aggregationNamed (trim before) with
    | some op =>
      obtain ⟨rest, isNamed⟩ := exists_of_aggregationNamed isQuery named
      have isRest : (trim query).drop op.name.toList.length = rest := by
        rw [isNamed, List.drop_left]
      dsimp only
      rw [isRest]
      exact ofOutcome_parseAggregation same (by rw [trim_trim, isNamed])
    | none =>
      cases functionNamed (trim before) with
      | none => exact ofOutcome_plain same (trim query)
      | some func =>
        simp only [Option.map_some, Option.isSome_some, if_true]
        rw [isQuery]
        exact ofOutcome_parseCall same before inside func

end Recursion

theorem ofOutcome_parseDepth (std : StdText) (depth : ℕ) (query : Text) :
    ofOutcome (parseDepth std depth query) = depthVerdict std depth query := by
  induction depth generalizing query with
  | zero => rfl
  | succ depth inductionHypothesis =>
    exact ofOutcome_parseLevel inductionHypothesis query

theorem ofOutcome_parsePromql (std : StdText) (query : Text) :
    ofOutcome (parsePromql std query) = queryVerdict std query :=
  ofOutcome_parseDepth std (query.length + 1) query

/-- The parser returns an expression or an error unless its text breaks. -/
theorem parsePromql_returns_iff (std : StdText) (query : Text) :
    ((∃ expr, parsePromql std query = .ok expr) ∨
        ∃ cause, parsePromql std query = .error (.error cause)) ↔
      queryVerdict std query ≠ .broken := by
  rw [← ofOutcome_parsePromql, Ne, ofOutcome_eq_broken_iff]
  rcases parsePromql std query with (cause | _) | expr <;> simp

theorem unclosed_call_panics :
    parsePromql StdText.basic "rate(".toList = .error .panic := by
  rw [← ofOutcome_eq_broken_iff]
  decide +kernel

end ChronoDB.Query
