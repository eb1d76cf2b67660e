import ChronoDB.Query.RewritingPasses
import ChronoDB.Query.Router

namespace ChronoDB.Query

open Library Text List

/-!
# The normal form of a normal form

After a pass, the later ones leave nothing for it to do again.  Only the labels
in braces are sorted before the constants in them change, so a normal form is
its own normal form exactly when that change keeps the order of the labels.
-/

/-!
## What the passes keep
-/

section Raising

variable {text result : Text}

theorem isUpper_cases {char : Char} (isUpper : char.isUpper = true) :
    char.toNat < 128 ∧ isWhitespace char = false ∧ char.isDigit = false ∧
      char ∉ "[]smhdwy".toList := by
  have large : 65 ≤ char.toNat ∧ char.toNat ≤ 90 := by
    obtain ⟨notLess, notMore⟩ := of_decide_eq_true isUpper
    exact ⟨UInt32.le_iff_toNat_le.mp notLess, UInt32.le_iff_toNat_le.mp notMore⟩
  have letters :
      ∀ code < 91, 65 ≤ code →
        isWhitespace (Char.ofNat code) = false ∧
          (Char.ofNat code).isDigit = false ∧
            Char.ofNat code ∉ "[]smhdwy".toList := by
    decide
  refine ⟨by omega, ?_⟩
  rw [← Char.ofNat_toNat char]
  exact letters _ (Nat.lt_succ_of_le large.2) large.1

theorem hasVisibleEnds_raised
    (ends : HasVisibleEnds text) (raised : List.Forall₂ Raised text result) :
    HasVisibleEnds result := by
  have oneRaised :
      ∀ {char result : Char}, Raised char result →
        isWhitespace char = false → isWhitespace result = false := by
    rintro char result (rfl | ⟨_, isUpper⟩) visible
    · exact visible
    · exact (isUpper_cases isUpper).2.1
  have headRaised :
      ∀ {text result : Text}, List.Forall₂ Raised text result →
        (∀ char ∈ text.head?, isWhitespace char = false) →
          ∀ char ∈ result.head?, isWhitespace char = false := by
    intro text result raised visible char isFirst
    cases raised with
    | nil => cases isFirst
    | cons first rest =>
      cases isFirst
      exact oneRaised first (visible _ rfl)
  refine ⟨headRaised raised ends.first, ?_⟩
  have reversed := List.forall₂_reverse_iff.mpr raised
  rw [← head?_reverse]
  exact headRaised reversed (by rw [head?_reverse]; exact ends.last)

theorem infix_of_raised {part : Text} (raised : List.Forall₂ Raised text result)
    (small : ∀ char ∈ part, char.isUpper = false) (isInfix : part <:+: result) :
    part <:+: text := by
  obtain ⟨before, after, rfl⟩ := isInfix
  rw [append_assoc] at raised
  have later := List.forall₂_drop_append _ _ _ raised
  have same := List.forall₂_take_append _ _ _ later
  have isPart : (text.drop before.length).take part.length = part := by
    clear raised later
    generalize (text.drop before.length).take part.length = before at same
    induction same with
    | nil => rfl
    | cons first rest inductionHypothesis =>
      obtain ⟨isSmall, restSmall⟩ := forall_mem_cons.mp small
      rcases first with rfl | ⟨_, isUpper⟩
      · exact congrArg _ (inductionHypothesis restSmall)
      · rw [isUpper] at isSmall
        cases isSmall
  rw [← isPart]
  exact (List.take_prefix _ _).isInfix.trans (drop_suffix _ _).isInfix

theorem not_mem_of_raised
    (raised : List.Forall₂ Raised text result) {char : Char}
    (small : char.isUpper = false) (absent : char ∉ text) :
    char ∉ result := by
  intro member
  refine absent ((singleton_infix_iff char text).mp ?_)
  refine infix_of_raised raised (forall_mem_singleton.mpr small) ?_
  exact (singleton_infix_iff char result).mpr member

end Raising

/-- What the passes before the labels leave nothing to do for. -/
structure Settled (classes : RegexClasses) (text : Text) : Prop where
  noBreak : '\n' ∉ text
  noTab : '\t' ∉ text
  noDouble : ¬[' ', ' '] <:+: text
  noDuration : ∀ duration, IsDuration classes duration → ¬duration <:+: text
  ends : HasVisibleEnds text

/-- The passes before the labels. -/
def prepareQuery (classes : RegexClasses) (query : Text) : Text :=
  removeTimeParameters classes
    (collapseSpaces (replaceChar '\t' ' ' (replaceChar '\n' ' ' (trim query))))

section Spaces

variable {text : Text}

theorem mem_replaceChar
    {old new char : Char} (member : char ∈ replaceChar old new text) :
    char = new ∨ char ∈ text ∧ char ≠ old := by
  obtain ⟨before, isBefore, isChar⟩ := mem_map.mp member
  split at isChar
  · exact .inl isChar.symm
  · rename_i kept
    subst isChar
    exact .inr ⟨isBefore, kept⟩

theorem hasVisibleEnds_replaceChar
    (ends : HasVisibleEnds text) {old : Char} (blank : isWhitespace old = true)
    (new : Char) :
    HasVisibleEnds (replaceChar old new text) := by
  have kept :
      ∀ {found : Option Char},
        (∀ char ∈ found, isWhitespace char = false) →
          found.map (fun char => if char = old then new else char) = found := by
    intro found visible
    cases found with
    | none => rfl
    | some char =>
      have differs : char ≠ old := by
        rintro rfl
        rw [visible char rfl] at blank
        cases blank
      rw [Option.map_some, if_neg differs]
  refine ⟨?_, ?_⟩
  · rw [Query.replaceChar, head?_map, kept ends.first]
    exact ends.first
  · rw [Query.replaceChar, getLast?_map, kept ends.last]
    exact ends.last

theorem hasDoubleSpace_iff :
    hasDoubleSpace text = true ↔ [' ', ' '] <:+: text := by
  fun_induction hasDoubleSpace text with
  | case1 rest => exact iff_of_true rfl ⟨[], rest, rfl⟩
  | case2 char rest notDouble inductionHypothesis =>
    rw [inductionHypothesis, infix_cons_iff]
    refine (or_iff_right fun starts => ?_).symm
    obtain ⟨after, isText⟩ := starts
    obtain ⟨isChar, isRest⟩ := List.cons.inj isText
    exact notDouble after isChar.symm isRest.symm
  | case3 => simp

theorem not_infix_collapseSpaces (text : Text) :
    ¬[' ', ' '] <:+: collapseSpaces text := by
  rw [← hasDoubleSpace_iff]
  fun_induction collapseSpaces text with
  | case1 text _ inductionHypothesis => exact inductionHypothesis
  | case2 text single => exact single

theorem collapseSpaces_eq_self (single : ¬[' ', ' '] <:+: text) :
    collapseSpaces text = text := by
  rw [← hasDoubleSpace_iff] at single
  rw [collapseSpaces, if_neg single]

theorem dropRepeatedSpaces_sublist (text : Text) :
    (dropRepeatedSpaces text).Sublist text := by
  fun_induction dropRepeatedSpaces text with
  | case1 => exact List.Sublist.refl _
  | case2 char rest _ inductionHypothesis => exact inductionHypothesis.cons char
  | case3 char rest _ inductionHypothesis =>
    exact inductionHypothesis.cons_cons char

theorem ends_dropRepeatedSpaces (text : Text) :
    (dropRepeatedSpaces text).head? = text.head? ∧
      (dropRepeatedSpaces text).getLast? = text.getLast? := by
  fun_induction dropRepeatedSpaces text with
  | case1 => exact ⟨rfl, rfl⟩
  | case2 char rest repeated inductionHypothesis =>
    obtain ⟨rfl, isNext⟩ := repeated
    refine ⟨inductionHypothesis.1.trans isNext, ?_⟩
    obtain ⟨others, rfl⟩ := head?_eq_some_iff.mp isNext
    rw [inductionHypothesis.2, getLast?_cons_cons]
  | case3 char rest _ inductionHypothesis =>
    refine ⟨rfl, ?_⟩
    rw [getLast?_cons, getLast?_cons, inductionHypothesis.2]

theorem hasVisibleEnds_collapseSpaces (ends : HasVisibleEnds text) :
    HasVisibleEnds (collapseSpaces text) := by
  obtain ⟨sameFirst, sameLast⟩ := ends_dropRepeatedSpaces text
  rw [collapseSpaces_eq]
  exact ⟨sameFirst ▸ ends.first, sameLast ▸ ends.last⟩

end Spaces

section Abbreviating

variable {classes : RegexClasses} {text result : Text}

theorem Abbreviated.isPrefix_of_result
    (abbreviated : Abbreviated classes text result) {part : Text}
    (noBracket : '[' ∉ part)
    (starts : part <+: result) :
    part <+: text := by
  induction abbreviated generalizing part with
  | nil => exact starts
  | keep _ later inductionHypothesis =>
    cases part with
    | nil => exact nil_prefix
    | cons first rest =>
      obtain ⟨rfl, startsRest⟩ := cons_prefix_cons.mp starts
      refine cons_prefix_cons.mpr ⟨rfl, inductionHypothesis ?_ startsRest⟩
      exact fun member => noBracket (mem_cons_of_mem _ member)
  | replace isDuration later inductionHypothesis =>
    cases part with
    | nil => exact nil_prefix
    | cons first rest =>
      obtain ⟨rfl, _⟩ := cons_prefix_cons.mp starts
      exact absurd mem_cons_self noBracket

theorem Abbreviated.isInfix_of_result
    (abbreviated : Abbreviated classes text result) {first : Char} {rest : Text}
    (notLead : first ∉ "[DURATION]".toList)
    (noBracket : '[' ∉ rest)
    (isInfix : first :: rest <:+: result) :
    first :: rest <:+: text := by
  have noneOpen : '[' ∉ first :: rest := by
    rw [mem_cons, not_or]
    refine ⟨?_, noBracket⟩
    rintro rfl
    exact notLead (by decide)
  induction abbreviated with
  | nil => exact isInfix
  | keep noDuration later inductionHypothesis =>
    rcases infix_cons_iff.mp isInfix with starts | inRest
    · exact ((Abbreviated.keep noDuration later).isPrefix_of_result noneOpen
        starts).isInfix
    · exact (inductionHypothesis inRest).trans
        (suffix_cons _ _).isInfix
  | replace isDuration later inductionHypothesis =>
    have inRest := infix_of_infix_append notLead isInfix
    exact (inductionHypothesis inRest).trans (suffix_append _ _).isInfix

theorem Abbreviated.noDuration
    (abbreviated : Abbreviated classes text result) {duration : Text}
    (isDuration : IsDuration classes duration) :
    ¬duration <:+: result := by
  have isSame := isDuration
  obtain ⟨digits, unit, rfl, nonempty, areDigits, isUnit⟩ := isSame
  have digitAscii : ∀ char ∈ ['[', 'D'], classes.digit char = false := by
    intro char member
    have ascii : char.toNat < 128 ∧ char.isDigit = false := by
      revert char
      decide
    rw [classes.digit_ascii char ascii.1, ascii.2]
  have noBracket : '[' ∉ digits ++ [unit, ']'] := by
    intro member
    rcases mem_append.mp member with inDigits | inEnd
    · have isDigit := areDigits '[' inDigits
      rw [digitAscii '[' (by decide)] at isDigit
      cases isDigit
    · rcases mem_cons.mp inEnd with rfl | isEnd
      · exact absurd isUnit (by decide)
      · exact absurd isEnd (by decide)
  induction abbreviated with
  | nil =>
    intro isInfix
    cases infix_nil.mp isInfix
  | keep noDuration later inductionHypothesis =>
    intro isInfix
    rcases infix_cons_iff.mp isInfix with starts | inRest
    · obtain ⟨rfl, startsRest⟩ := cons_prefix_cons.mp starts
      exact noDuration _ isDuration (cons_prefix_cons.mpr
        ⟨rfl, later.isPrefix_of_result noBracket startsRest⟩)
    · exact inductionHypothesis inRest
  | replace _ later inductionHypothesis =>
    intro isInfix
    rcases infix_cons_iff.mp isInfix with starts | inRest
    · obtain ⟨digit, others, rfl⟩ := exists_cons_of_ne_nil nonempty
      obtain ⟨_, startsRest⟩ := cons_prefix_cons.mp starts
      have isLetter : digit = 'D' := (cons_prefix_cons.mp startsRest).1
      have isDigit := areDigits digit mem_cons_self
      rw [isLetter, digitAscii 'D' (by decide)] at isDigit
      cases isDigit
    · exact inductionHypothesis
        (@infix_of_infix_append _ '[' _ "DURATION]".toList _ (by decide) inRest)

/-- A text is empty when its result is. -/
theorem Abbreviated.eq_nil
    (abbreviated : Abbreviated classes text result) (empty : result = []) :
    text = [] := by
  cases abbreviated with
  | nil => rfl
  | keep _ _ => cases empty
  | replace _ _ => cases empty

theorem hasVisibleEnds_abbreviated (ends : HasVisibleEnds text)
    (abbreviated : Abbreviated classes text result) :
    HasVisibleEnds result := by
  refine ⟨?_, ?_⟩
  · cases abbreviated with
    | nil => exact ends.first
    | keep _ _ => exact ends.first
    | replace _ _ =>
      rintro char ⟨⟩
      decide
  · have lastVisible :
        (∀ char ∈ text.getLast?, isWhitespace char = false) →
          ∀ char ∈ result.getLast?, isWhitespace char = false := by
      clear ends
      induction abbreviated with
      | nil =>
        exact fun visible => visible
      | @keep char rest result _ later inductionHypothesis =>
        intro visible last isLast
        rw [getLast?_cons] at visible isLast
        cases isResult : result.getLast? with
        | none =>
          have noRest := later.eq_nil (getLast?_eq_none_iff.mp isResult)
          rw [isResult] at isLast
          rw [noRest] at visible
          exact visible last isLast
        | some found =>
          rw [isResult] at isLast inductionHypothesis
          cases isLast
          refine inductionHypothesis (fun other isOther => ?_) _ rfl
          rw [Option.mem_def.mp isOther] at visible
          exact visible other rfl
      | @replace duration rest result _ later inductionHypothesis =>
        intro visible last isLast
        rw [getLast?_append] at visible isLast
        cases isResult : result.getLast? with
        | none =>
          rw [isResult] at isLast
          cases isLast
          decide
        | some found =>
          rw [isResult] at isLast inductionHypothesis
          cases isLast
          refine inductionHypothesis (fun other isOther => ?_) _ rfl
          rw [Option.mem_def.mp isOther] at visible
          exact visible other rfl
    exact lastVisible ends.last

theorem settled_prepareQuery (query : Text) :
    Settled classes (prepareQuery classes query) := by
  let spaced := replaceChar '\t' ' ' (replaceChar '\n' ' ' (trim query))
  have isAbbreviated :
      Abbreviated classes (collapseSpaces spaced)
        (prepareQuery classes query) :=
    abbreviated _
  have notLead : ∀ char ∈ ['\n', '\t'], char ∉ "[DURATION]".toList := by
    decide
  have noChar : ∀ char ∈ ['\n', '\t'], char ∉ prepareQuery classes query := by
    intro char isBreak member
    have inSpaces :=
      (isAbbreviated.isInfix_of_result (notLead char isBreak) not_mem_nil
        ((singleton_infix_iff char _).mpr member)).subset mem_cons_self
    rw [collapseSpaces_eq] at inSpaces
    have inSpaced := (dropRepeatedSpaces_sublist spaced).subset inSpaces
    have notSpace : char ≠ ' ' := by
      rintro rfl
      revert isBreak
      decide
    rcases mem_replaceChar inSpaced with isSpace | ⟨inner, notTab⟩
    · exact notSpace isSpace
    · rcases mem_replaceChar inner with isSpace | ⟨_, notBreak⟩
      · exact notSpace isSpace
      · simp [notTab, notBreak] at isBreak
  exact {
    noBreak := noChar '\n' (by decide)
    noTab := noChar '\t' (by decide)
    noDouble := fun double =>
      not_infix_collapseSpaces spaced
        (isAbbreviated.isInfix_of_result (by decide) (by decide) double)
    noDuration := fun _ isDuration => isAbbreviated.noDuration isDuration
    ends :=
      hasVisibleEnds_abbreviated
        (hasVisibleEnds_collapseSpaces
          (hasVisibleEnds_replaceChar
            (hasVisibleEnds_replaceChar (hasVisibleEnds_trim query)
              (by decide) ' ')
            (by decide) ' '))
        isAbbreviated
  }

theorem Settled.prepareQuery_eq (settled : Settled classes text) :
    prepareQuery classes text = text := by
  have kept : ∀ old new, old ∉ text → replaceChar old new text = text := by
    intro old new absent
    refine (map_congr_left fun char member => ?_).trans (map_id text)
    refine if_neg ?_
    rintro rfl
    exact absent member
  have noReplacement : removeTimeParameters classes text = text := by
    have noDuration := settled.noDuration
    clear kept settled
    have isAbbreviated := @abbreviated classes text
    generalize removeTimeParameters classes text = result at isAbbreviated
    induction isAbbreviated with
    | nil => rfl
    | keep _ _ inductionHypothesis =>
      refine congrArg _ (inductionHypothesis fun duration isDuration inRest =>
        noDuration duration isDuration ?_)
      exact inRest.trans (suffix_cons _ _).isInfix
    | @replace duration rest _ isDuration _ _ =>
      exact absurd (prefix_append duration rest).isInfix
        (noDuration duration isDuration)
  rw [prepareQuery, settled.ends.trim_eq, kept _ _ settled.noBreak, kept _ _
    settled.noTab, collapseSpaces_eq_self settled.noDouble, noReplacement]

end Abbreviating

section Sorting

variable {text lead inner rest : Text}

theorem sortLabelMatchers_append_group
    (first : '{' ∉ lead)
    (noEnd : '}' ∉ inner)
    (rest : Text) :
    sortLabelMatchers (lead ++ '{' :: (inner ++ '}' :: rest)) =
      lead ++ '{' :: (joinLabels (sortByKey id (labelsOf inner)) ++
        '}' :: sortLabelMatchers rest) := by
  rw [sortLabelMatchers_append first, sortLabelMatchers_group noEnd]

theorem sortLabelMatchers_unclosed
    (first : '{' ∉ lead)
    (noEnd : '}' ∉ inner) :
    sortLabelMatchers (lead ++ '{' :: inner) = lead ++ '{' :: inner := by
  rw [sortLabelMatchers_append first,
    sortLabelMatchers_of_not_mem (by simpa using noEnd)]

theorem sortLabelMatchers_plain (noBrace : '{' ∉ text) :
    sortLabelMatchers text = text := by
  have atEnd := sortLabelMatchers_append noBrace []
  rwa [append_nil, sortLabelMatchers_of_not_mem not_mem_nil,
    append_nil] at atEnd

theorem ends_sortLabelMatchers (text : Text) :
    (sortLabelMatchers text).head? = text.head? ∧
      (sortLabelMatchers text).getLast? = text.getLast? := by
  induction grouped text with
  | plain noBrace =>
    rw [sortLabelMatchers_plain noBrace]
    exact ⟨rfl, rfl⟩
  | unclosed first noEnd =>
    rw [sortLabelMatchers_unclosed first noEnd]
    exact ⟨rfl, rfl⟩
  | group first noEnd later inductionHypothesis =>
    rw [sortLabelMatchers_append_group first noEnd]
    refine ⟨?_, ?_⟩
    · rw [head?_append, head?_append]
      rfl
    · rw [append_cons, append_cons]
      simp [getLast?_append, getLast?_cons, inductionHypothesis.2]

theorem infix_of_joinLabels
    {part : Text} {labels : List Text} (nonempty : part ≠ [])
    (noComma : ',' ∉ part)
    (afterBlank :
      ∀ label, IsLabel label → part <:+: ' ' :: label → part <:+: label)
    (areLabels : ∀ label ∈ labels, IsLabel label)
    (isInfix : part <:+: joinLabels labels) :
    ∃ label ∈ labels, part <:+: label := by
  cases labels with
  | nil => exact absurd (infix_nil.mp isInfix) nonempty
  | cons first rest =>
    rw [joinLabels_cons] at isInfix
    obtain ⟨isFirst, areRest⟩ := forall_mem_cons.mp areLabels
    have inPart :
        ∀ parts : List Text, part <:+: [','].intercalate parts →
          ∃ piece ∈ parts, part <:+: piece := by
      intro parts
      induction parts with
      | nil =>
        intro inNothing
        exact absurd (infix_nil.mp inNothing) nonempty
      | cons piece parts inductionHypothesis =>
        intro inJoined
        cases parts with
        | nil =>
          rw [intercalate_singleton] at inJoined
          exact ⟨piece, mem_cons_self, inJoined⟩
        | cons next parts =>
          rw [intercalate_cons_cons, append_assoc] at inJoined
          rcases infix_append_cons nonempty noComma inJoined with
            inPiece | later
          · exact ⟨piece, mem_cons_self, inPiece⟩
          · obtain ⟨found, member, inFound⟩ := inductionHypothesis later
            exact ⟨found, mem_cons_of_mem _ member, inFound⟩
    obtain ⟨piece, member, inPiece⟩ := inPart _ isInfix
    rcases mem_cons.mp member with rfl | isBlank
    · exact ⟨piece, mem_cons_self, inPiece⟩
    · obtain ⟨label, isLabel, rfl⟩ := mem_map.mp isBlank
      exact ⟨label, mem_cons_of_mem _ isLabel,
        afterBlank label (areRest label isLabel) inPiece⟩

theorem infix_of_sortLabelMatchers {part : Text} (nonempty : part ≠ [])
    (noMark : ∀ char ∈ part, char ∉ ['{', ',', '}'])
    (afterBlank :
      ∀ label, IsLabel label → part <:+: ' ' :: label → part <:+: label)
    (isInfix : part <:+: sortLabelMatchers text) :
    part <:+: text := by
  have without : ∀ char ∈ ['{', ',', '}'], char ∉ part :=
    fun char isMark member => noMark char member isMark
  induction grouped text with
  | plain noBrace => rwa [sortLabelMatchers_plain noBrace] at isInfix
  | unclosed first noEnd =>
    rwa [sortLabelMatchers_unclosed first noEnd] at isInfix
  | @group lead inner rest first noEnd later inductionHypothesis =>
    rw [sortLabelMatchers_append_group first noEnd] at isInfix
    have inText :
        ∀ {piece : Text}, piece <:+: inner ++ '}' :: rest →
          piece <:+: lead ++ '{' :: (inner ++ '}' :: rest) :=
      fun inPiece => inPiece.trans
        ((suffix_cons _ _).trans (suffix_append _ _)).isInfix
    rcases infix_append_cons nonempty (without '{' (by decide)) isInfix with
      inLead | inGroup
    · exact inLead.trans (prefix_append _ _).isInfix
    · rcases infix_append_cons nonempty (without '}' (by decide)) inGroup with
        inLabels | inRest
      · have areLabels :
            ∀ label ∈ sortByKey id (labelsOf inner),
              IsLabel label ∧ label <:+: inner :=
          fun label member =>
            isLabel_of_mem ((mem_sortByKey id).mp member)
        obtain ⟨label, member, inLabel⟩ :=
          infix_of_joinLabels nonempty (without ',' (by decide)) afterBlank
            (fun label member => (areLabels label member).1) inLabels
        exact inText (inLabel.trans ((areLabels label member).2.trans
          (prefix_append _ _).isInfix))
      · exact inText ((inductionHypothesis inRest).trans
          ((suffix_cons _ _).trans (suffix_append _ _)).isInfix)

theorem IsDuration.mem_cases {classes : RegexClasses} {duration : Text}
    (isDuration : IsDuration classes duration) {char : Char}
    (member : char ∈ duration) :
    classes.digit char = true ∨ char ∈ "[]smhdwy".toList := by
  obtain ⟨digits, unit, rfl, _, areDigits, isUnit⟩ := isDuration
  have inList : ∀ unit ∈ "smhdwy".toList, unit ∈ "[]smhdwy".toList := by
    decide
  simp only [mem_cons, mem_append, not_mem_nil, or_false] at member
  rcases member with rfl | inDigits | rfl | rfl
  · exact .inr (by decide)
  · exact .inl (areDigits char inDigits)
  · exact .inr (inList char isUnit)
  · exact .inr (by decide)

theorem infix_of_blank_cons
    {first : Char} {others label : Text} (visible : first ≠ ' ')
    (isInfix : first :: others <:+: ' ' :: label) :
    first :: others <:+: label :=
  @infix_of_infix_append _ first others [' '] label (by simpa using visible)
    isInfix

theorem Settled.sortLabelMatchers
    {classes : RegexClasses} (settled : Settled classes text) :
    Settled classes (sortLabelMatchers text) := by
  have noChar :
      ∀ char, char ≠ ' ' → char ∉ ['{', ',', '}'] → char ∉ text →
        char ∉ Query.sortLabelMatchers text := by
    intro char visible noMark absent member
    refine absent ((singleton_infix_iff char text).mp ?_)
    refine infix_of_sortLabelMatchers (cons_ne_nil _ _)
      (forall_mem_singleton.mpr noMark)
      (fun label _ => infix_of_blank_cons visible) ?_
    exact (singleton_infix_iff char _).mpr member
  refine {
    noBreak := noChar _ (by decide) (by decide) settled.noBreak
    noTab := noChar _ (by decide) (by decide) settled.noTab
    noDouble := fun double => settled.noDouble
      (infix_of_sortLabelMatchers (cons_ne_nil _ _) (by decide) ?_ double)
    noDuration := fun duration isDuration inSorted => ?_
    ends := ?_
  }
  · intro label isLabel inLabel
    rcases infix_cons_iff.mp inLabel with starts | later
    · obtain ⟨_, after, isText⟩ := cons_prefix_cons.mp starts
      have isFirst : (trim label).head? = some ' ' := by
        rw [isLabel.trimmed, ← isText]
        rfl
      exact absurd (visible_of_head_trim isFirst) (by decide)
    · exact later
  · refine settled.noDuration duration isDuration
      (infix_of_sortLabelMatchers isDuration.ne_nil ?_ ?_ inSorted)
    · have marks :
          ∀ char ∈ ['{', ',', '}'],
            char.toNat < 128 ∧ char.isDigit = false ∧
              char ∉ "[]smhdwy".toList := by
        decide
      intro char member isMark
      obtain ⟨ascii, notDigit, notOther⟩ := marks char isMark
      rcases isDuration.mem_cases member with isDigit | isOther
      · rw [classes.digit_ascii char ascii, notDigit] at isDigit
        cases isDigit
      · exact notOther isOther
    · intro label _ inLabel
      obtain ⟨digits, unit, rfl, _⟩ := isDuration
      exact infix_of_blank_cons (by decide) inLabel
  · obtain ⟨sameFirst, sameLast⟩ := ends_sortLabelMatchers text
    exact ⟨sameFirst ▸ settled.ends.first, sameLast ▸ settled.ends.last⟩

theorem Settled.simplifyConstants
    {classes : RegexClasses} (settled : Settled classes text) :
    Settled classes (simplifyConstants classes text) := by
  have raised := @forall₂_simplifyConstants classes text
  exact {
    noBreak := not_mem_of_raised raised (by decide) settled.noBreak
    noTab := not_mem_of_raised raised (by decide) settled.noTab
    noDouble := fun double =>
      settled.noDouble (infix_of_raised raised (by decide) double)
    noDuration := fun duration isDuration inRaised => by
      refine settled.noDuration duration isDuration
        (infix_of_raised raised (fun char member => ?_) inRaised)
      refine Bool.eq_false_of_not_eq_true fun isUpper => ?_
      obtain ⟨ascii, _, notDigit, notOther⟩ := isUpper_cases isUpper
      rcases isDuration.mem_cases member with isDigit | isOther
      · rw [classes.digit_ascii char ascii, notDigit] at isDigit
        cases isDigit
      · exact notOther isOther
    ends := hasVisibleEnds_raised settled.ends raised
  }

end Sorting

/-!
## The order of labels
-/

section Order

variable {classes : RegexClasses}

theorem word_mark :
    ∀ char ∈ ['{', ',', ' ', '}'], classes.word char = false := by
  have ascii :
      ∀ char ∈ ['{', ',', ' ', '}'],
        char.toNat < 128 ∧ (char.isAlphanum || char == '_') = false := by
    decide
  intro char member
  rw [classes.word_ascii char (ascii char member).1, (ascii char member).2]

theorem simplifyConstants_joinLabels (labels : List Text) :
    simplifyConstants classes (joinLabels labels) =
      joinLabels (labels.map (simplifyConstants classes)) := by
  have inRow :
      ∀ parts : List Text,
        simplifyConstants classes ([','].intercalate parts) =
          [','].intercalate (parts.map (simplifyConstants classes)) := by
    intro parts
    induction parts with
    | nil => rfl
    | cons part rest inductionHypothesis =>
      cases rest with
      | nil => simp
      | cons next rest =>
        rw [intercalate_cons_cons, append_assoc,
          singleton_append,
          simplifyConstants_append_cons (word_mark ',' (by decide)),
          inductionHypothesis]
        simp [intercalate_cons_cons]
  have afterBlank :
      ∀ label : Text,
        simplifyConstants classes (' ' :: label) =
          ' ' :: simplifyConstants classes label :=
    simplifyConstants_append_cons (word_mark ' ' (by decide)) []
  cases labels with
  | nil => rfl
  | cons first rest =>
    rw [map_cons, joinLabels_cons, joinLabels_cons, inRow]
    simp [Function.comp_def, afterBlank]

theorem IsLabel.simplifyConstants {label : Text} (isLabel : IsLabel label) :
    IsLabel (simplifyConstants classes label) := by
  have raised := @forall₂_simplifyConstants classes label
  have ends : HasVisibleEnds label :=
    isLabel.trimmed ▸ hasVisibleEnds_trim label
  exact ⟨not_mem_of_raised raised (by decide) isLabel.noComma,
    (hasVisibleEnds_raised ends raised).trim_eq⟩

theorem not_mem_joinLabels
    {labels : List Text} {char : Char} (isOther : char ≠ ',' ∧ char ≠ ' ')
    (absent : ∀ label ∈ labels, char ∉ label) :
    char ∉ joinLabels labels := by
  cases labels with
  | nil => exact not_mem_nil
  | cons first rest =>
    obtain ⟨notFirst, notRest⟩ := forall_mem_cons.mp absent
    rw [joinLabels_cons]
    intro member
    rcases mem_of_mem_intercalate member with isComma | ⟨part, isPart, inPart⟩
    · exact isOther.1 isComma
    · rcases mem_cons.mp isPart with rfl | isLater
      · exact notFirst inPart
      · obtain ⟨label, isLabel, rfl⟩ := mem_map.mp isLater
        rcases mem_cons.mp inPart with isBlank | inLabel
        · exact isOther.2 isBlank
        · exact notRest label isLabel inLabel

/-- The labels between braces keep their order when constants are replaced. -/
def KeepsOrder (classes : RegexClasses) (inner : Text) : Prop :=
  ∀ first ∈ labelsOf inner, ∀ second ∈ labelsOf inner,
    first ≤ second →
      simplifyConstants classes first ≤ simplifyConstants classes second

/--
Sorting again changes nothing exactly when the labels of each group keep their
order; the constants are replaced in any case.
-/
theorem sortLabelMatchers_again (text : Text) :
    (sortLabelMatchers (simplifyConstants classes (sortLabelMatchers text)) =
        simplifyConstants classes (sortLabelMatchers text) ↔
      ∀ inner ∈ labelGroups text, KeepsOrder classes inner) ∧
    simplifyConstants classes (sortLabelMatchers
        (simplifyConstants classes (sortLabelMatchers text))) =
      sortLabelMatchers
        (simplifyConstants classes (sortLabelMatchers text)) := by
  have noMark :
      ∀ {char : Char} {text : Text}, char ∈ ['{', '}'] → char ∉ text →
        char ∉ simplifyConstants classes text := by
    intro char text isMark absent
    have small : ∀ char ∈ ['{', '}'], char.isUpper = false := by
      decide
    exact not_mem_of_raised (forall₂_simplifyConstants text)
      (small char isMark) absent
  induction grouped text with
  | @plain text noBrace =>
    have noneAfter := noMark (by decide) noBrace
    rw [sortLabelMatchers_plain noBrace, sortLabelMatchers_plain noneAfter,
      labelGroups_of_not_mem noBrace, simplifyConstants_idem]
    exact ⟨iff_of_true rfl nofun, rfl⟩
  | @unclosed lead inner first noEnd =>
    have isAfter :=
      @simplifyConstants_append_cons classes '{'
        (word_mark '{' (by decide)) lead inner
    have unchanged :
        sortLabelMatchers (simplifyConstants classes (lead ++ '{' :: inner)) =
          simplifyConstants classes (lead ++ '{' :: inner) := by
      rw [isAfter]
      exact sortLabelMatchers_unclosed (noMark (by decide) first)
        (noMark (by decide) noEnd)
    rw [sortLabelMatchers_unclosed first noEnd, unchanged,
      labelGroups_unclosed first noEnd, simplifyConstants_idem]
    exact ⟨iff_of_true rfl nofun, rfl⟩
  | @group lead inner rest first noEnd later inductionHypothesis =>
    obtain ⟨again, replaced⟩ := inductionHypothesis
    let sorted := sortByKey id (labelsOf inner)
    let images := sorted.map (simplifyConstants classes)
    let later := simplifyConstants classes (sortLabelMatchers rest)
    have areLabels : ∀ label ∈ images, IsLabel label ∧ '}' ∉ label := by
      intro image isImage
      obtain ⟨label, member, rfl⟩ := mem_map.mp isImage
      obtain ⟨isLabel, inInner⟩ := isLabel_of_mem ((mem_sortByKey id).mp member)
      exact ⟨isLabel.simplifyConstants,
        noMark (by decide) fun inLabel => noEnd (inInner.subset inLabel)⟩
    have nonempty : images ≠ [] := by
      rw [ne_eq, map_eq_nil_iff]
      exact sortByKey_ne_nil id (labelsOf_ne_nil inner)
    have areSorted :
        ∀ label ∈ sortByKey id images, IsLabel label ∧ '}' ∉ label :=
      fun label member => areLabels label ((mem_sortByKey id).mp member)
    have noEndAfter :
        ∀ labels : List Text,
          (∀ label ∈ labels, IsLabel label ∧ '}' ∉ label) →
            '}' ∉ joinLabels labels :=
      fun labels areLabels => not_mem_joinLabels (by decide)
        fun label member => (areLabels label member).2
    have isOnce :
        simplifyConstants classes
            (sortLabelMatchers (lead ++ '{' :: (inner ++ '}' :: rest))) =
          simplifyConstants classes lead ++
            '{' :: (joinLabels images ++ '}' :: later) := by
      rw [sortLabelMatchers_append_group first noEnd,
        simplifyConstants_append_cons (word_mark '{' (by decide)),
        simplifyConstants_append_cons (word_mark '}' (by decide)),
        simplifyConstants_joinLabels]
    have isTwice :
        sortLabelMatchers (simplifyConstants classes lead ++
            '{' :: (joinLabels images ++ '}' :: later)) =
          simplifyConstants classes lead ++
            '{' :: (joinLabels (sortByKey id images) ++
              '}' :: sortLabelMatchers later) := by
      rw [sortLabelMatchers_append_group (noMark (by decide) first)
          (noEndAfter images areLabels),
        labelsOf_joinLabels nonempty
          fun label member => (areLabels label member).1]
    have sameLabels :
        joinLabels (sortByKey id images) = joinLabels images ↔
          sortByKey id images = images := by
      refine ⟨fun same => ?_, congrArg joinLabels⟩
      have isSorted :=
        labelsOf_joinLabels (sortByKey_ne_nil id nonempty)
          fun label member => (areSorted label member).1
      rw [← isSorted, same]
      exact labelsOf_joinLabels nonempty
        fun label member => (areLabels label member).1
    rw [isOnce, isTwice, labelGroups_group first noEnd]
    refine ⟨?_, ?_⟩
    · rw [append_cancel_left_eq, List.cons.injEq, eq_self_iff_true, true_and,
        append_cons_inj (noEndAfter _ areSorted) (noEndAfter _ areLabels),
        forall_mem_cons, sameLabels, sortByKey_map_eq_self_iff, again]
      exact Iff.rfl
    · have keptLabels :
          (sortByKey id images).map (simplifyConstants classes) =
            sortByKey id images := by
        refine (map_congr_left fun label member => ?_).trans (map_id _)
        obtain ⟨before, _, rfl⟩ := mem_map.mp ((mem_sortByKey id).mp member)
        exact simplifyConstants_idem before
      rw [simplifyConstants_append_cons (word_mark '{' (by decide)),
        simplifyConstants_append_cons (word_mark '}' (by decide)),
        simplifyConstants_joinLabels, keptLabels, replaced,
        simplifyConstants_idem]

/-!
## Normal forms
-/

theorem normalizeQuery_eq_passes (query : Text) :
    normalizeQuery classes query =
      simplifyConstants classes
        (sortLabelMatchers (prepareQuery classes query)) := by
  have settled : Settled classes (prepareQuery classes query) :=
    settled_prepareQuery query
  exact settled.sortLabelMatchers.simplifyConstants.ends.trim_eq

theorem prepareQuery_normalizeQuery (query : Text) :
    prepareQuery classes (normalizeQuery classes query) =
      normalizeQuery classes query := by
  have settled : Settled classes (prepareQuery classes query) :=
    settled_prepareQuery query
  rw [normalizeQuery_eq_passes]
  exact settled.sortLabelMatchers.simplifyConstants.prepareQuery_eq

/-- All labels of a query keep their order when constants are replaced. -/
def KeepsLabelOrder (classes : RegexClasses) (query : Text) : Prop :=
  ∀ inner ∈ labelGroups (prepareQuery classes query), KeepsOrder classes inner

theorem normalizeQuery_again (query : Text) :
    normalizeQuery classes (normalizeQuery classes query) =
        normalizeQuery classes query ↔
      KeepsLabelOrder classes query := by
  obtain ⟨again, replaced⟩ :=
    @sortLabelMatchers_again classes (prepareQuery classes query)
  rw [normalizeQuery_eq_passes (normalizeQuery classes query),
    prepareQuery_normalizeQuery, normalizeQuery_eq_passes, replaced]
  exact again

/--
A normal form is its own normal form, and a rule with it for an expression is
found for the query, exactly when the labels between all braces of the prepared
query keep their order when the constants in them are replaced.
-/
theorem normalizeQuery_idem_iff (classes : RegexClasses) (query : Text) :
    (normalizeQuery classes (normalizeQuery classes query) =
          normalizeQuery classes query ↔
        KeepsLabelOrder classes query) ∧
      ∀ rules : List PreAggregationRule, ∀ rule ∈ rules,
        rule.expr = normalizeQuery classes query →
          (rule ∈ QueryRouter.findMatchingRules classes rules
              (normalizeQuery classes query) ↔
            KeepsLabelOrder classes query) := by
  refine ⟨normalizeQuery_again query, fun rules rule member isForm => ?_⟩
  rw [QueryRouter.findMatchingRules, mem_filter, decide_eq_true_iff,
    isForm, normalizeQuery_again, and_iff_right member]

/-- A label that starts with a constant comes first after it is replaced. -/
theorem constant_label_moves :
    normalizeQuery .ascii
          (normalizeQuery .ascii "\x7ba=\"1\",inf=\"2\"\x7d".toList) ≠
        normalizeQuery .ascii "\x7ba=\"1\",inf=\"2\"\x7d".toList := by
  have isOnce :
      normalizeQuery .ascii "\x7ba=\"1\",inf=\"2\"\x7d".toList =
        "\x7ba=\"1\", INF=\"2\"\x7d".toList := by
    rw [normalizeQuery_eq]
    decide +kernel
  have isTwice :
      normalizeQuery .ascii "\x7ba=\"1\", INF=\"2\"\x7d".toList =
        "\x7bINF=\"2\", a=\"1\"\x7d".toList := by
    rw [normalizeQuery_eq]
    decide +kernel
  rw [isOnce, isTwice]
  decide

end Order

end ChronoDB.Query
