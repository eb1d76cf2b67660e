import ChronoDB.Library.Fields
import ChronoDB.Query.Frequency

namespace ChronoDB.Query

open Library Text List

/-!
# The passes of the normal form

What each pass makes of a text, without the positions that a search keeps.
Constants are replaced word by word, durations where they stand, and labels are
sorted group by group.
-/

/-!
## Words
-/

section Words

variable {classes : RegexClasses}

/-- All characters of a text are ones of words. -/
def IsWordText (classes : RegexClasses) (text : Text) : Prop :=
  ∀ char ∈ text, classes.word char = true

theorem isWordText_of_ascii {text : Text}
    (ascii : ∀ char ∈ text, char.toNat < 128 ∧ char.isAlphanum = true) :
    IsWordText classes text := by
  intro char member
  rw [classes.word_ascii char (ascii char member).1, (ascii char member).2]
  rfl

theorem word_cases (classes : RegexClasses) (text : Text) :
    IsWordText classes text ∨
      ∃ word stop rest,
        text = word ++ stop :: rest ∧ IsWordText classes word ∧
          classes.word stop = false := by
  induction text with
  | nil => exact .inl nofun
  | cons char rest inductionHypothesis =>
    cases isWord : classes.word char with
    | false => exact .inr ⟨[], char, rest, rfl, nofun, isWord⟩
    | true =>
      rcases inductionHypothesis with
        isText | ⟨word, stop, after, rfl, isText, stops⟩
      · exact .inl (forall_mem_cons.mpr ⟨isWord, isText⟩)
      · exact .inr ⟨char :: word, stop, after, rfl,
          forall_mem_cons.mpr ⟨isWord, isText⟩, stops⟩

theorem word_induction (classes : RegexClasses) {Holds : Text → Prop}
    (word : ∀ text, IsWordText classes text → Holds text)
    (stop :
      ∀ text char rest,
        IsWordText classes text →
          classes.word char = false → Holds rest → Holds (text ++ char :: rest))
    (text : Text) :
    Holds text := by
  generalize isLength : text.length = length
  induction length using Nat.strongRecOn generalizing text with
  | ind length inductionHypothesis =>
    rcases word_cases classes text with
      isWord | ⟨first, char, rest, rfl, isWord, stops⟩
    · exact word text isWord
    · refine stop first char rest isWord stops ?_
      refine inductionHypothesis rest.length ?_ rest rfl
      rw [← isLength, length_append, length_cons]
      omega

end Words

/-!
## One constant
-/

theorem replaceAll_of_length_le
    {rule : Option Char → Text → Replacement} {previous : Option Char}
    {skip : ℕ} {text : Text} (short : text.length ≤ skip) :
    replaceAll rule previous skip text = [] := by
  induction text generalizing previous skip with
  | nil => rw [replaceAll]
  | cons char rest inductionHypothesis =>
    cases skip with
    | zero => cases short
    | succ skip =>
      rw [replaceAll]
      exact inductionHypothesis (Nat.le_of_succ_le_succ short)

section Constant

variable
  {classes : RegexClasses}
  {constant replacement : Text}

/-- The pass for one constant. -/
def replaceConstant (classes : RegexClasses) (constant replacement : Text) :
    Text → Text :=
  replaceAll (constantRule classes constant replacement) none 0

theorem replaceAll_inside {previous : Char} {text : Text}
    (isWord : IsWordText classes (previous :: text)) :
    replaceAll (constantRule classes constant replacement) (some previous) 0
        text =
      text := by
  induction text generalizing previous with
  | nil => rw [replaceAll]
  | cons char rest inductionHypothesis =>
    obtain ⟨previousWord, restWord⟩ := forall_mem_cons.mp isWord
    have noMatch :
        constantRule classes constant replacement (some previous)
            (char :: rest) =
          none := by
      refine if_neg fun applies => applies.1 ?_
      simp [wordAt, previousWord, restWord char mem_cons_self]
    rw [replaceAll, noMatch]
    exact congrArg (char :: ·) (inductionHypothesis restWord)

theorem replaceConstant_self
    (isWord : IsWordText classes constant) (nonempty : constant ≠ []) :
    replaceConstant classes constant replacement constant = replacement := by
  obtain ⟨first, rest, rfl⟩ := exists_cons_of_ne_nil nonempty
  have lastWord : wordAt classes (first :: rest).getLast? = true := by
    rw [getLast?_eq_some_getLast nonempty]
    exact isWord _ (getLast_mem nonempty)
  have isMatch :
      constantRule classes (first :: rest) replacement none (first :: rest) =
        some ((first :: rest).length, replacement) := by
    refine if_pos ⟨?_, by simp, ?_⟩
    · simp [wordAt, isWord first mem_cons_self]
    · rw [lastWord, drop_length]
      simp [wordAt]
  rw [replaceConstant, replaceAll, isMatch]
  simp [replaceAll_of_length_le]

theorem replaceConstant_of_ne
    (constantWord : IsWordText classes constant) (nonempty : constant ≠ [])
    {text : Text} (isWord : IsWordText classes text) (other : text ≠ constant) :
    replaceConstant classes constant replacement text = text := by
  cases text with
  | nil => rfl
  | cons first rest =>
    have lastWord : wordAt classes constant.getLast? = true := by
      rw [getLast?_eq_some_getLast nonempty]
      exact constantWord _ (getLast_mem nonempty)
    have noMatch :
        constantRule classes constant replacement none (first :: rest) =
          none := by
      refine if_neg fun ⟨_, isPrefix, atEnd⟩ => ?_
      rw [List.isPrefixOf_iff_prefix] at isPrefix
      obtain ⟨after, isText⟩ := isPrefix
      cases after with
      | nil => exact other (by simpa using isText.symm)
      | cons next after =>
        have nextWord : classes.word next = true :=
          isWord next (by rw [← isText]; simp)
        rw [lastWord, ← isText, drop_left] at atEnd
        simp [wordAt, nextWord] at atEnd
    rw [replaceConstant, replaceAll, noMatch]
    exact congrArg (first :: ·) (replaceAll_inside isWord)

theorem replaceAll_congr_previous {previous other : Option Char}
    (same : wordAt classes previous = wordAt classes other) (text : Text) :
    replaceAll (constantRule classes constant replacement) previous 0 text =
      replaceAll (constantRule classes constant replacement) other 0 text := by
  cases text with
  | nil => rw [replaceAll, replaceAll]
  | cons char rest =>
    rw [replaceAll, replaceAll, constantRule, constantRule, same]

theorem constantRule_append_cons
    (constantWord : IsWordText classes constant) {stop : Char}
    (stops : classes.word stop = false) (previous : Option Char) (char : Char)
    (before after : Text) :
    constantRule classes constant replacement previous
        (char :: before ++ stop :: after) =
      constantRule classes constant replacement previous (char :: before) := by
  have notMember : stop ∉ constant := by
    intro member
    rw [constantWord stop member] at stops
    cases stops
  have samePrefix :
      constant.isPrefixOf (char :: before ++ stop :: after) =
        constant.isPrefixOf (char :: before) := by
    rw [Bool.eq_iff_iff, isPrefixOf_iff_prefix,
      isPrefixOf_iff_prefix, prefix_append_cons_iff notMember]
  by_cases isPrefix : constant.isPrefixOf (char :: before) = true
  · have sameNext :
        wordAt classes
            ((char :: before ++ stop :: after).drop constant.length).head? =
          wordAt classes ((char :: before).drop constant.length).head? := by
      obtain ⟨rest, isText⟩ := isPrefixOf_iff_prefix.mp isPrefix
      rw [← isText, append_assoc, drop_left, drop_left]
      cases rest with
      | nil => simp [wordAt, stops]
      | cons first rest => rfl
    rw [constantRule, constantRule, samePrefix, sameNext]
    rfl
  · rw [constantRule, constantRule, samePrefix,
      if_neg fun applies => isPrefix applies.2.1,
      if_neg fun applies => isPrefix applies.2.1]

/-- The pass goes on by itself after the end of a word. -/
theorem replaceConstant_append_cons
    (constantWord : IsWordText classes constant) (nonempty : constant ≠ [])
    {stop : Char} (stops : classes.word stop = false) (before after : Text) :
    replaceConstant classes constant replacement (before ++ stop :: after) =
      replaceConstant classes constant replacement before ++
        stop :: replaceConstant classes constant replacement after := by
  have inside :
      ∀ (previous : Option Char) (skip : ℕ),
        skip ≤ before.length →
          replaceAll (constantRule classes constant replacement) previous skip
              (before ++ stop :: after) =
            replaceAll (constantRule classes constant replacement) previous
                skip before ++
              stop :: replaceConstant classes constant replacement after := by
    induction before with
    | nil =>
      intro previous skip short
      obtain rfl := Nat.le_zero.mp short
      have noMatch :
          constantRule classes constant replacement previous (stop :: after) =
            none := by
        refine if_neg fun ⟨_, isPrefix, _⟩ => ?_
        obtain ⟨first, rest, rfl⟩ := exists_cons_of_ne_nil nonempty
        obtain ⟨rfl, _⟩ :=
          cons_prefix_cons.mp (List.isPrefixOf_iff_prefix.mp isPrefix)
        rw [constantWord first mem_cons_self] at stops
        cases stops
      have isKept :
          replaceAll (constantRule classes constant replacement) previous 0
              (stop :: after) =
            stop :: replaceAll (constantRule classes constant replacement)
              (some stop) 0 after := by
        rw [replaceAll, noMatch]
      rw [nil_append, isKept, replaceAll, nil_append]
      refine congrArg (stop :: ·) ?_
      exact replaceAll_congr_previous (by simp [wordAt, stops]) after
    | cons char before inductionHypothesis =>
      intro previous skip short
      cases skip with
      | succ skip =>
        rw [cons_append, replaceAll, replaceAll]
        exact inductionHypothesis _ _ (Nat.le_of_succ_le_succ short)
      | zero =>
        have sameRule :=
          @constantRule_append_cons classes constant replacement
            constantWord stop stops previous char before after
        rw [cons_append] at sameRule
        rw [cons_append, replaceAll, replaceAll, sameRule]
        cases isMatch :
            constantRule classes constant replacement previous
              (char :: before) with
        | none =>
          exact congrArg (char :: ·) (inductionHypothesis _ 0 (Nat.zero_le _))
        | some found =>
          obtain ⟨applies, isFound⟩ := Option.ite_none_right_eq_some.mp isMatch
          cases isFound
          have isShort := (List.isPrefixOf_iff_prefix.mp applies.2.1).length_le
          rw [length_cons] at isShort
          simp only [append_assoc]
          exact congrArg (replacement ++ ·) (inductionHypothesis _ _ (by omega))
  exact inside none 0 (Nat.zero_le _)

end Constant

/-!
## All constants
-/

section Constants

variable {classes : RegexClasses}

theorem constants_are_words :
    ∀ change ∈ constantReplacements,
      change.1.toList ≠ [] ∧
        IsWordText classes change.1.toList ∧
          IsWordText classes change.2.toList := by
  have ascii :
      ∀ change ∈ constantReplacements,
        change.1.toList ≠ [] ∧
          (∀ char ∈ change.1.toList,
            char.toNat < 128 ∧ char.isAlphanum = true) ∧
          ∀ char ∈ change.2.toList,
            char.toNat < 128 ∧ char.isAlphanum = true := by
    decide
  intro change member
  obtain ⟨nonempty, constantAscii, replacementAscii⟩ := ascii change member
  exact ⟨nonempty, isWordText_of_ascii constantAscii,
    isWordText_of_ascii replacementAscii⟩

/-- The passes for some constants, in their order. -/
def replaceConstants
    (classes : RegexClasses) (changes : List (String × String)) (text : Text) :
    Text :=
  changes.foldl
    (fun result change =>
      replaceConstant classes change.1.toList change.2.toList result)
    text

theorem replaceConstants_append_cons
    {changes : List (String × String)} (known : changes ⊆ constantReplacements)
    {stop : Char} (stops : classes.word stop = false) (before after : Text) :
    replaceConstants classes changes (before ++ stop :: after) =
      replaceConstants classes changes before ++
        stop :: replaceConstants classes changes after := by
  induction changes generalizing before after with
  | nil => rfl
  | cons change rest inductionHypothesis =>
    obtain ⟨isKnown, restKnown⟩ := cons_subset.mp known
    obtain ⟨nonempty, isWord, _⟩ := @constants_are_words classes change isKnown
    simp only [replaceConstants, foldl_cons] at inductionHypothesis ⊢
    rw [replaceConstant_append_cons isWord nonempty stops]
    exact inductionHypothesis restKnown _ _

theorem replaceConstants_of_ne
    {changes : List (String × String)} (known : changes ⊆ constantReplacements)
    {text : Text} (isWord : IsWordText classes text)
    (other : ∀ change ∈ changes, text ≠ change.1.toList) :
    replaceConstants classes changes text = text := by
  induction changes with
  | nil => rfl
  | cons change rest inductionHypothesis =>
    obtain ⟨isKnown, restKnown⟩ := cons_subset.mp known
    obtain ⟨differs, restDiffers⟩ := forall_mem_cons.mp other
    obtain ⟨nonempty, constantWord, _⟩ :=
      @constants_are_words classes change isKnown
    simp only [replaceConstants, foldl_cons] at inductionHypothesis ⊢
    rw [replaceConstant_of_ne constantWord nonempty isWord differs]
    exact inductionHypothesis restKnown restDiffers

theorem replacement_ne_constant :
    ∀ change ∈ constantReplacements, ∀ other ∈ constantReplacements,
      change.2.toList ≠ other.1.toList := by
  decide

theorem replaceConstants_constant
    {changes : List (String × String)} (known : changes ⊆ constantReplacements)
    (distinct : (changes.map fun change => change.1.toList).Nodup)
    {change : String × String} (member : change ∈ changes) :
    replaceConstants classes changes change.1.toList = change.2.toList := by
  induction changes with
  | nil => cases member
  | cons first rest inductionHypothesis =>
    obtain ⟨isKnown, restKnown⟩ := cons_subset.mp known
    obtain ⟨notLater, restDistinct⟩ := nodup_cons.mp distinct
    obtain ⟨nonempty, firstWord, _⟩ :=
      @constants_are_words classes first isKnown
    have isStep :
        ∀ text,
          replaceConstants classes (first :: rest) text =
            replaceConstants classes rest
              (replaceConstant classes first.1.toList first.2.toList text) :=
      fun _ => rfl
    rw [isStep]
    rcases mem_cons.mp member with rfl | later
    · obtain ⟨_, _, replacementWord⟩ :=
        @constants_are_words classes change isKnown
      rw [replaceConstant_self firstWord nonempty]
      exact replaceConstants_of_ne restKnown replacementWord
        fun other isOther =>
          replacement_ne_constant change isKnown other (restKnown isOther)
    · have differs : change.1.toList ≠ first.1.toList := fun same =>
        notLater (mem_map.mpr ⟨change, later, same⟩)
      obtain ⟨_, changeWord, _⟩ :=
        @constants_are_words classes change (restKnown later)
      rw [replaceConstant_of_ne firstWord nonempty changeWord differs]
      exact inductionHypothesis restKnown restDistinct later

theorem simplifyConstants_append_cons
    {stop : Char} (stops : classes.word stop = false) (before after : Text) :
    simplifyConstants classes (before ++ stop :: after) =
      simplifyConstants classes before ++
        stop :: simplifyConstants classes after :=
  replaceConstants_append_cons (List.Subset.refl _) stops before after

theorem simplifyConstants_word
    {text : Text} (isWord : IsWordText classes text) :
    ((∀ change ∈ constantReplacements, text ≠ change.1.toList) ∧
        simplifyConstants classes text = text) ∨
      ∃ change ∈ constantReplacements,
        text = change.1.toList ∧
          simplifyConstants classes text = change.2.toList := by
  by_cases constant : ∃ change ∈ constantReplacements, text = change.1.toList
  · obtain ⟨change, member, rfl⟩ := constant
    exact .inr ⟨change, member, rfl,
      replaceConstants_constant (List.Subset.refl _) (by decide) member⟩
  · have other :
        ∀ change ∈ constantReplacements, text ≠ change.1.toList :=
      fun change member same => constant ⟨change, member, same⟩
    exact .inl ⟨other, replaceConstants_of_ne (List.Subset.refl _) isWord other⟩

/-- A character stays, or a letter of a constant gets large. -/
def Raised (char result : Char) : Prop :=
  result = char ∨ char.isLower = true ∧ result.isUpper = true

instance decidableRaised (char result : Char) :
    Decidable (Raised char result) :=
  inferInstanceAs (Decidable (_ ∨ _ ∧ _))

theorem forall₂_replacement :
    ∀ change ∈ constantReplacements,
      List.Forall₂ Raised change.1.toList change.2.toList := by
  decide

theorem forall₂_simplifyConstants (text : Text) :
    List.Forall₂ Raised text (simplifyConstants classes text) := by
  have wordRaised :
      ∀ text, IsWordText classes text →
        List.Forall₂ Raised text (simplifyConstants classes text) := by
    intro text isWord
    rcases simplifyConstants_word isWord with
      ⟨_, isKept⟩ | ⟨change, member, rfl, isReplaced⟩
    · rw [isKept]
      exact List.forall₂_same.mpr fun _ _ => .inl rfl
    · rw [isReplaced]
      exact forall₂_replacement change member
  induction text using word_induction classes with
  | word text isWord => exact wordRaised text isWord
  | stop text char rest isWord stops inductionHypothesis =>
    rw [simplifyConstants_append_cons stops]
    exact rel_append (wordRaised text isWord)
      (.cons (.inl rfl) inductionHypothesis)

theorem simplifyConstants_idem (text : Text) :
    simplifyConstants classes (simplifyConstants classes text) =
      simplifyConstants classes text := by
  have wordIdem :
      ∀ text, IsWordText classes text →
        simplifyConstants classes (simplifyConstants classes text) =
          simplifyConstants classes text := by
    intro text isWord
    rcases simplifyConstants_word isWord with
      ⟨_, isKept⟩ | ⟨change, member, rfl, isReplaced⟩
    · rw [isKept, isKept]
    · rw [isReplaced]
      obtain ⟨_, _, replacementWord⟩ :=
        @constants_are_words classes change member
      exact replaceConstants_of_ne (List.Subset.refl _) replacementWord
        (replacement_ne_constant change member)
  induction text using word_induction classes with
  | word text isWord => exact wordIdem text isWord
  | stop text char rest isWord stops inductionHypothesis =>
    rw [simplifyConstants_append_cons stops, simplifyConstants_append_cons
      stops, inductionHypothesis, wordIdem text isWord]

end Constants

/-!
## Durations
-/

theorem replaceAll_of_blind {rule : Option Char → Text → Replacement}
    (blind : ∀ previous text, rule previous text = rule none text)
    (previous : Option Char) (skip : ℕ) (text : Text) :
    replaceAll rule previous skip text =
      replaceAll rule none 0 (text.drop skip) := by
  induction text generalizing previous skip with
  | nil => rw [drop_nil, replaceAll, replaceAll]
  | cons char rest inductionHypothesis =>
    cases skip with
    | zero => rw [drop_zero, replaceAll, replaceAll, blind]
    | succ skip =>
      rw [replaceAll, drop_succ_cons]
      exact inductionHypothesis _ _

section Durations

variable {classes : RegexClasses}

/-- What the rule for durations matches. -/
def IsDuration (classes : RegexClasses) (text : Text) : Prop :=
  ∃ digits unit,
    text = '[' :: (digits ++ [unit, ']']) ∧ digits ≠ [] ∧
      (∀ char ∈ digits, classes.digit char = true) ∧ unit ∈ "smhdwy".toList

theorem IsDuration.ne_nil
    {duration : Text} (isDuration : IsDuration classes duration) :
    duration ≠ [] := by
  obtain ⟨_, _, rfl, _⟩ := isDuration
  exact cons_ne_nil _ _

theorem not_digit_of_unit {unit : Char} (isUnit : unit ∈ "smhdwy".toList) :
    classes.digit unit = false := by
  have ascii :
      ∀ unit ∈ "smhdwy".toList, unit.toNat < 128 ∧ unit.isDigit = false := by
    decide
  rw [classes.digit_ascii unit (ascii unit isUnit).1]
  exact (ascii unit isUnit).2

theorem durationRule_append
    {duration : Text} (isDuration : IsDuration classes duration)
    (after : Text) :
    durationRule classes none (duration ++ after) =
      some (duration.length, "[DURATION]".toList) := by
  obtain ⟨digits, unit, rfl, nonempty, areDigits, isUnit⟩ := isDuration
  have notDigit := @not_digit_of_unit classes unit isUnit
  have isText :
      '[' :: (digits ++ [unit, ']']) ++ after =
        '[' :: (digits ++ unit :: ']' :: after) := by
    simp
  have isTake :
      (digits ++ unit :: ']' :: after).takeWhile classes.digit = digits := by
    rw [takeWhile_append_of_pos areDigits]
    simp [notDigit]
  have isDrop :
      (digits ++ unit :: ']' :: after).dropWhile classes.digit =
        unit :: ']' :: after := by
    rw [dropWhile_append_of_pos areDigits,
      dropWhile_cons_of_neg (by simp [notDigit])]
  rw [isText, durationRule]
  simp only [isDrop, isTake, if_pos (And.intro nonempty isUnit)]
  simp

theorem durationRule_cases (text : Text) :
    (∃ duration after,
        IsDuration classes duration ∧ text = duration ++ after ∧
          durationRule classes none text =
            some (duration.length, "[DURATION]".toList)) ∨
      (∀ duration, IsDuration classes duration → ¬duration <+: text) ∧
        durationRule classes none text = none := by
  by_cases starts : ∃ duration, IsDuration classes duration ∧ duration <+: text
  · obtain ⟨duration, isDuration, after, rfl⟩ := starts
    exact .inl ⟨duration, after, isDuration, rfl,
      durationRule_append isDuration after⟩
  · refine .inr ⟨fun duration isDuration isPrefix =>
      starts ⟨duration, isDuration, isPrefix⟩, ?_⟩
    rw [durationRule.eq_def]
    split
    · rename_i rest
      split
      · rename_i unit after isDrop
        refine if_neg fun matched => starts ?_
        refine ⟨'[' :: (rest.takeWhile classes.digit ++ [unit, ']']),
          ⟨_, unit, rfl, matched.1, fun char member =>
            mem_takeWhile_imp member, matched.2⟩, after, ?_⟩
        have isRest := @takeWhile_append_dropWhile _ classes.digit rest
        rw [isDrop] at isRest
        rw [cons_append, append_assoc]
        exact congrArg ('[' :: ·) isRest
      · rfl
    · rfl

/-- The second text is the first one with its durations replaced. -/
inductive Abbreviated (classes : RegexClasses) : Text → Text → Prop where
  | nil :
      Abbreviated classes [] []
  | keep
      {char : Char}
      {rest result : Text}
      (noDuration :
        ∀ duration, IsDuration classes duration → ¬duration <+: char :: rest)
      (later : Abbreviated classes rest result) :
      Abbreviated classes (char :: rest) (char :: result)
  | replace
      {duration rest result : Text}
      (isDuration : IsDuration classes duration)
      (later : Abbreviated classes rest result) :
      Abbreviated classes (duration ++ rest) ("[DURATION]".toList ++ result)

theorem abbreviated (text : Text) :
    Abbreviated classes text (removeTimeParameters classes text) := by
  generalize isLength : text.length = length
  induction length using Nat.strongRecOn generalizing text with
  | ind length inductionHypothesis =>
    cases text with
    | nil => exact .nil
    | cons char rest =>
      rw [removeTimeParameters, replaceAll]
      rcases @durationRule_cases classes (char :: rest) with
        ⟨duration, after, isDuration, isText, isMatch⟩ | ⟨noDuration, noMatch⟩
      · obtain ⟨first, others, isFirst⟩ :=
          exists_cons_of_ne_nil isDuration.ne_nil
        obtain ⟨rfl, isRest⟩ : char = first ∧ rest = others ++ after :=
          List.cons.inj (isText.trans (congrArg (· ++ after) isFirst))
        have isAfter : rest.drop (duration.length - 1) = after := by
          rw [isRest, isFirst, length_cons, Nat.add_sub_cancel]
          exact drop_left
        rw [isMatch, isText]
        simp only
        rw [replaceAll_of_blind fun _ _ => rfl, isAfter]
        refine .replace isDuration ?_
        refine inductionHypothesis after.length ?_ after rfl
        rw [← isLength, isRest, length_cons, length_append]
        omega
      · rw [noMatch]
        refine .keep noDuration ?_
        rw [replaceAll_of_blind fun _ _ => rfl, drop_zero]
        exact inductionHypothesis rest.length (by simp [← isLength]) rest rfl

end Durations

/-!
## Labels in braces
-/

/-- The labels between braces, without the white space around them. -/
def labelsOf (inner : Text) : List Text :=
  (inner.splitOn ',').map trim

/-- Labels as they are written in a normal form. -/
def joinLabels (labels : List Text) : Text :=
  ", ".toList.intercalate labels

/-- A text with no group, or what stands before its first group and after it. -/
inductive Grouped : Text → Prop where
  | plain
      {text : Text}
      (noBrace : '{' ∉ text) :
      Grouped text
  | unclosed
      {lead inner : Text}
      (first : '{' ∉ lead)
      (noEnd : '}' ∉ inner) :
      Grouped (lead ++ '{' :: inner)
  | group
      {lead inner rest : Text}
      (first : '{' ∉ lead)
      (noEnd : '}' ∉ inner)
      (later : Grouped rest) :
      Grouped (lead ++ '{' :: (inner ++ '}' :: rest))

theorem grouped (text : Text) : Grouped text := by
  generalize isLength : text.length = length
  induction length using Nat.strongRecOn generalizing text with
  | ind length inductionHypothesis =>
    by_cases brace : '{' ∈ text
    · obtain ⟨lead, after, rfl, first⟩ := eq_append_cons_of_mem brace
      by_cases closed : '}' ∈ after
      · obtain ⟨inner, rest, rfl, noEnd⟩ := eq_append_cons_of_mem closed
        refine .group first noEnd (inductionHypothesis rest.length ?_ rest rfl)
        simp only [← isLength, length_append, length_cons]
        omega
      · exact .unclosed first closed
    · exact .plain brace

theorem sortLabelMatchers_append {lead : Text}
    (noBrace : '{' ∉ lead)
    (rest : Text) :
    sortLabelMatchers (lead ++ rest) = lead ++ sortLabelMatchers rest := by
  induction lead with
  | nil => rfl
  | cons char lead inductionHypothesis =>
    obtain ⟨differs, noLater⟩ := not_or.mp (mem_cons.not.mp noBrace)
    have noMatch : labelsRule none (char :: (lead ++ rest)) = none := by
      rw [labelsRule.eq_def]
      split
      · rename_i isText
        exact absurd (List.cons.inj isText).1.symm differs
      · rfl
    rw [cons_append, sortLabelMatchers, replaceAll, noMatch]
    refine congrArg (char :: ·) ?_
    rw [replaceAll_of_blind fun _ _ => rfl, drop_zero]
    exact inductionHypothesis noLater

theorem sortLabelMatchers_of_not_mem {text : Text}
    (noEnd : '}' ∉ text) :
    sortLabelMatchers text = text := by
  induction text with
  | nil => rfl
  | cons char rest inductionHypothesis =>
    obtain ⟨_, noLater⟩ := not_or.mp (mem_cons.not.mp noEnd)
    have noMatch : labelsRule none (char :: rest) = none := by
      rw [labelsRule.eq_def]
      split
      · rename_i other isText
        obtain ⟨_, rfl⟩ := List.cons.inj isText
        refine if_neg fun matched => noLater ?_
        exact (dropWhile_suffix _).subset (mem_of_mem_head? matched.2)
      · rfl
    rw [sortLabelMatchers, replaceAll, noMatch]
    refine congrArg (char :: ·) ?_
    rw [replaceAll_of_blind fun _ _ => rfl, drop_zero]
    exact inductionHypothesis noLater

theorem sortLabelMatchers_group {inner : Text}
    (noEnd : '}' ∉ inner)
    (rest : Text) :
    sortLabelMatchers ('{' :: (inner ++ '}' :: rest)) =
      '{' :: (joinLabels (sortByKey id (labelsOf inner)) ++
        '}' :: sortLabelMatchers rest) := by
  have inside : ∀ char ∈ inner, decide (char ≠ '}') = true := by
    intro char member
    simp only [decide_eq_true_eq]
    rintro rfl
    exact noEnd member
  have isTake :
      (inner ++ '}' :: rest).takeWhile (fun char => decide (char ≠ '}')) =
        inner := by
    rw [takeWhile_append_of_pos inside]
    simp
  have isDrop :
      (inner ++ '}' :: rest).dropWhile (fun char => decide (char ≠ '}')) =
        '}' :: rest := by
    rw [dropWhile_append_of_pos inside]
    simp
  rw [sortLabelMatchers, replaceAll]
  by_cases empty : inner = []
  · subst empty
    have noMatch : labelsRule none ('{' :: ([] ++ '}' :: rest)) = none := by
      rw [labelsRule]
      exact if_neg fun matched => matched.1 isTake
    rw [noMatch]
    refine congrArg ('{' :: ·) ?_
    rw [replaceAll_of_blind fun _ _ => rfl, drop_zero, nil_append]
    exact sortLabelMatchers_append (by decide : '{' ∉ ['}']) rest
  · have isMatch :
        labelsRule none ('{' :: (inner ++ '}' :: rest)) =
          some (inner.length + 2,
            '{' :: (joinLabels (sortByKey id (labelsOf inner)) ++ ['}'])) := by
      rw [labelsRule]
      simp only [isTake, isDrop]
      exact if_pos ⟨empty, rfl⟩
    rw [isMatch]
    simp only
    rw [replaceAll_of_blind fun _ _ => rfl]
    have isAfter :
        (inner ++ '}' :: rest).drop (inner.length + 2 - 1) = rest := by
      rw [append_cons]
      exact drop_left' (by simp)
    rw [isAfter]
    simp [sortLabelMatchers]

structure IsLabel (label : Text) : Prop where
  noComma : ',' ∉ label
  trimmed : trim label = label

theorem isLabel_of_mem {label inner : Text} (member : label ∈ labelsOf inner) :
    IsLabel label ∧ label <:+: inner := by
  obtain ⟨part, isPart, rfl⟩ := mem_map.mp member
  refine ⟨⟨fun isComma => ?_, trim_trim part⟩,
    (isInfix_trim part).trans (infix_of_mem_splitOn isPart)⟩
  exact (mem_of_mem_splitOn isPart ((isInfix_trim part).subset isComma)).2 rfl

theorem labelsOf_ne_nil (inner : Text) : labelsOf inner ≠ [] := by
  rw [labelsOf, ne_eq, map_eq_nil_iff]
  exact splitOn_ne_nil _ _

theorem joinLabels_cons (label : Text) (labels : List Text) :
    joinLabels (label :: labels) =
      [','].intercalate (label :: labels.map (' ' :: ·)) := by
  induction labels generalizing label with
  | nil => rfl
  | cons next rest inductionHypothesis =>
    have isRest := inductionHypothesis next
    rw [joinLabels] at isRest ⊢
    rw [intercalate_cons_cons, isRest, map_cons, intercalate_cons_cons]
    cases rest <;> simp [intercalate_cons_cons]

theorem labelsOf_joinLabels {labels : List Text} (nonempty : labels ≠ [])
    (areLabels : ∀ label ∈ labels, IsLabel label) :
    labelsOf (joinLabels labels) = labels := by
  obtain ⟨first, rest, rfl⟩ := exists_cons_of_ne_nil nonempty
  obtain ⟨isFirst, areRest⟩ := forall_mem_cons.mp areLabels
  have noComma : ∀ part ∈ first :: rest.map (' ' :: ·), ',' ∉ part := by
    refine forall_mem_cons.mpr ⟨isFirst.noComma, fun part isPart => ?_⟩
    obtain ⟨label, member, rfl⟩ := mem_map.mp isPart
    simpa using (areRest label member).noComma
  have trimmed : ∀ label ∈ rest, trim (' ' :: label) = label := by
    intro label member
    have noBlank : trim (' ' :: label) = trim label := by
      rw [trim, trimStart, dropWhile_cons_of_pos (by decide)]
      rfl
    rw [noBlank, (areRest label member).trimmed]
  rw [labelsOf, joinLabels_cons, splitOn_intercalate _ noComma (cons_ne_nil _
    _), map_cons, isFirst.trimmed, map_map]
  exact congrArg (first :: ·) ((map_congr_left trimmed).trans (map_id rest))

/-- The labels of the groups, from inside a group or from outside of one. -/
def groupsFrom : Option Text → Text → List Text
  | _, [] => []
  | none, char :: rest => groupsFrom (if char = '{' then some [] else none) rest
  | some inner, char :: rest =>
    if char = '}' then inner :: groupsFrom none rest
    else groupsFrom (some (inner ++ [char])) rest

/-- What stands between the braces of a text. -/
def labelGroups (text : Text) : List Text :=
  groupsFrom none text

theorem labelGroups_append {lead : Text}
    (noBrace : '{' ∉ lead)
    (rest : Text) :
    labelGroups (lead ++ rest) = labelGroups rest := by
  induction lead with
  | nil => rfl
  | cons char lead inductionHypothesis =>
    obtain ⟨differs, noLater⟩ := not_or.mp (mem_cons.not.mp noBrace)
    rw [cons_append, labelGroups, groupsFrom, if_neg (Ne.symm differs)]
    exact inductionHypothesis noLater

theorem groupsFrom_append {inner : Text}
    (noEnd : '}' ∉ inner)
    (before rest : Text) :
    groupsFrom (some before) (inner ++ rest) =
      groupsFrom (some (before ++ inner)) rest := by
  induction inner generalizing before with
  | nil => rw [nil_append, append_nil]
  | cons char inner inductionHypothesis =>
    obtain ⟨differs, noLater⟩ := not_or.mp (mem_cons.not.mp noEnd)
    rw [cons_append, groupsFrom, if_neg (Ne.symm differs),
      inductionHypothesis noLater, append_assoc]
    rfl

theorem labelGroups_unclosed {lead inner : Text}
    (first : '{' ∉ lead)
    (noEnd : '}' ∉ inner) :
    labelGroups (lead ++ '{' :: inner) = [] := by
  rw [labelGroups_append first, labelGroups, groupsFrom, if_pos rfl]
  have atEnd := groupsFrom_append noEnd [] []
  rw [append_nil] at atEnd
  rw [atEnd, groupsFrom]

theorem labelGroups_group {lead inner : Text}
    (first : '{' ∉ lead)
    (noEnd : '}' ∉ inner)
    (rest : Text) :
    labelGroups (lead ++ '{' :: (inner ++ '}' :: rest)) =
      inner :: labelGroups rest := by
  rw [labelGroups_append first, labelGroups, groupsFrom, if_pos rfl,
    groupsFrom_append noEnd, groupsFrom, if_pos rfl]
  rfl

theorem labelGroups_of_not_mem {text : Text}
    (noBrace : '{' ∉ text) :
    labelGroups text = [] := by
  have atEnd := labelGroups_append noBrace []
  rwa [append_nil] at atEnd

end ChronoDB.Query
