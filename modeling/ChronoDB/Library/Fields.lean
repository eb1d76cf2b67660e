import Mathlib.Data.Int.Notation
import Mathlib.Data.List.Infix
import Mathlib.Data.Nat.Init

namespace ChronoDB.Library

open List

/-!
# Lines, fields and numbers of a text

A list is split at its marks, a text at line feeds and at separators, and a
whole number is written in decimal digits.  What is written without a separator
is read back, and a field that was read never has its separator.
-/

theorem mem_of_mem_splitOn
    {Item : Type} [DecidableEq Item] {separator item : Item}
    {whole part : List Item} (isPart : part ∈ whole.splitOn separator)
    (inPart : item ∈ part) :
    item ∈ whole ∧ item ≠ separator := by
  induction size : whole.length using Nat.strong_induction_on
    generalizing whole with
  | _ size inductionHypothesis =>
    subst size
    by_cases member : separator ∈ whole
    · obtain ⟨before, after, rfl, notBefore⟩ :=
        eq_append_cons_of_mem member
      rw [splitOn_append_cons_self_of_not_mem notBefore, mem_cons] at isPart
      rcases isPart with rfl | later
      · exact ⟨mem_append_left _ inPart,
          fun isSeparator => notBefore (isSeparator ▸ inPart)⟩
      · have shorter :
            after.length < (before ++ separator :: after).length := by
          rw [length_append, length_cons]
          omega
        obtain ⟨inAfter, notSeparator⟩ :=
          inductionHypothesis _ shorter later rfl
        exact ⟨mem_append_right _ (mem_cons_of_mem _ inAfter), notSeparator⟩
    · rw [splitOn_eq_singleton member, mem_singleton] at isPart
      subst isPart
      exact ⟨inPart, fun isSeparator => member (isSeparator ▸ inPart)⟩

theorem mem_of_mem_intercalate
    {Item : Type} {separator item : Item} {parts : List (List Item)}
    (member : item ∈ [separator].intercalate parts) :
    item = separator ∨ ∃ part ∈ parts, item ∈ part := by
  induction parts with
  | nil => cases member
  | cons first rest inductionHypothesis =>
    by_cases isLast : rest = []
    · rw [isLast, intercalate_singleton] at member
      exact .inr ⟨first, mem_cons_self, member⟩
    · rw [intercalate_cons_of_ne_nil isLast, mem_append,
        mem_append, mem_singleton] at member
      rcases member with (inFirst | isSeparator) | inRest
      · exact .inr ⟨first, mem_cons_self, inFirst⟩
      · exact .inl isSeparator
      · refine (inductionHypothesis inRest).imp_right ?_
        rintro ⟨part, isPart, inPart⟩
        exact ⟨part, mem_cons_of_mem _ isPart, inPart⟩

/-!
## Parts of a list
-/

section Parts

variable {Item : Type}

theorem prefix_append_cons_iff
    {part before after : List Item} {mark : Item} (without : mark ∉ part) :
    part <+: before ++ mark :: after ↔ part <+: before := by
  refine ⟨fun isPrefix => ?_, fun isPrefix =>
    isPrefix.trans (prefix_append before _)⟩
  rcases prefix_or_prefix_of_prefix isPrefix
    (prefix_append before (mark :: after)) with shorter | ⟨rest, rfl⟩
  · exact shorter
  · rw [prefix_append_right_inj] at isPrefix
    cases rest with
    | nil => simp
    | cons first rest =>
      obtain ⟨rfl, _⟩ := cons_prefix_cons.mp isPrefix
      exact absurd (by simp) without

theorem append_cons_inj {first second before after : List Item} {mark : Item}
    (notFirst : mark ∉ first) (notSecond : mark ∉ second) :
    first ++ mark :: before = second ++ mark :: after ↔
      first = second ∧ before = after := by
  constructor
  · intro same
    have starts : first <+: second :=
      (prefix_append_cons_iff notFirst).mp (same ▸ prefix_append first _)
    have startsBack : second <+: first :=
      (prefix_append_cons_iff notSecond).mp (same ▸ prefix_append second _)
    obtain rfl := starts.eq_of_length
      (Nat.le_antisymm starts.length_le startsBack.length_le)
    exact ⟨rfl, (List.cons.inj (append_cancel_left same)).2⟩
  · rintro ⟨rfl, rfl⟩
    rfl

theorem flatMap_injective {Symbol : Type} {word : Item → List Symbol}
    (nonempty : ∀ item, word item ≠ [])
    (splits : ∀ first second before after,
      word first ++ before = word second ++ after →
        first = second ∧ before = after) :
    Function.Injective fun items : List Item => items.flatMap word := by
  intro first
  induction first with
  | nil =>
    rintro (_ | ⟨item, rest⟩) same
    · rfl
    · exact absurd (append_eq_nil_iff.mp same.symm).1 (nonempty item)
  | cons item rest inductionHypothesis =>
    rintro (_ | ⟨other, others⟩) same
    · exact absurd (append_eq_nil_iff.mp same).1 (nonempty item)
    · obtain ⟨rfl, sameRest⟩ := splits item other _ _ same
      rw [inductionHypothesis sameRest]

theorem infix_append_cons
    {part before after : List Item} {mark : Item} (nonempty : part ≠ [])
    (without : mark ∉ part) (isInfix : part <:+: before ++ mark :: after) :
    part <:+: before ∨ part <:+: after := by
  induction before with
  | nil =>
    rw [nil_append, infix_cons_iff] at isInfix
    rcases isInfix with starts | later
    · obtain ⟨first, rest, rfl⟩ := exists_cons_of_ne_nil nonempty
      obtain ⟨rfl, _⟩ := cons_prefix_cons.mp starts
      exact absurd mem_cons_self without
    · exact .inr later
  | cons char before inductionHypothesis =>
    rw [cons_append, infix_cons_iff] at isInfix
    rcases isInfix with starts | later
    · rw [← cons_append, prefix_append_cons_iff without] at starts
      exact .inl starts.isInfix
    · exact (inductionHypothesis later).imp_left fun isBefore =>
        isBefore.trans (suffix_cons char before).isInfix

theorem infix_of_infix_append
    {first : Item} {rest lead after : List Item} (notLead : first ∉ lead)
    (isInfix : first :: rest <:+: lead ++ after) :
    first :: rest <:+: after := by
  induction lead with
  | nil => exact isInfix
  | cons char lead inductionHypothesis =>
    obtain ⟨differs, notLater⟩ := not_or.mp (mem_cons.not.mp notLead)
    rw [cons_append, infix_cons_iff] at isInfix
    rcases isInfix with starts | later
    · exact absurd (cons_prefix_cons.mp starts).1 differs
    · exact inductionHypothesis notLater later

theorem infix_of_mem_splitOn
    [DecidableEq Item] {part text : List Item} {separator : Item}
    (isPart : part ∈ text.splitOn separator) :
    part <:+: text := by
  generalize isLength : text.length = length
  induction length using Nat.strongRecOn generalizing text with
  | ind length inductionHypothesis =>
    by_cases member : separator ∈ text
    · obtain ⟨before, after, rfl, notBefore⟩ :=
        eq_append_cons_of_mem member
      rw [splitOn_append_cons_self_of_not_mem notBefore, mem_cons] at isPart
      rcases isPart with rfl | later
      · exact (prefix_append _ _).isInfix
      · have inAfter := inductionHypothesis after.length (by
          rw [← isLength, length_append, length_cons]
          omega) later rfl
        exact inAfter.trans
          ((suffix_cons separator after).trans (suffix_append before _)).isInfix
    · rw [splitOn_eq_singleton member, mem_singleton] at isPart
      rw [isPart]

end Parts

/-!
## Lines
-/

namespace Lines

/-- A line without the carriage return before its line feed. -/
def stripReturn (line : List Char) : List Char :=
  if line.getLast? = some '\r' then line.dropLast else line

/-- The lines of a text; a last line is one only if it is not empty. -/
def lines (text : List Char) : List (List Char) :=
  (text.splitOn '\n').dropLast.map stripReturn ++
    ((text.splitOn '\n').getLast?.toList.filter fun line => line ≠ [])

theorem lines_append_cons
    {line : List Char} (oneLine : '\n' ∉ line) (rest : List Char) :
    lines (line ++ '\n' :: rest) = stripReturn line :: lines rest := by
  rw [lines, splitOn_append_cons_self_of_not_mem oneLine,
    dropLast_cons_of_ne_nil (splitOn_ne_nil _ _),
    getLast?_cons_of_ne_nil (splitOn_ne_nil _ _)]
  rfl

theorem lines_flatMap {written : List (List Char)}
    (oneLine : ∀ line ∈ written, '\n' ∉ line ∧ stripReturn line = line) :
    lines (written.flatMap fun line => line ++ ['\n']) = written := by
  induction written with
  | nil => rfl
  | cons first rest inductionHypothesis =>
    obtain ⟨⟨isLine, noReturn⟩, others⟩ := forall_mem_cons.mp oneLine
    rw [flatMap_cons, append_assoc, singleton_append,
      lines_append_cons isLine, noReturn, inductionHypothesis others]

theorem mem_of_mem_lines
    {text line : List Char} {char : Char} (isLine : line ∈ lines text)
    (inLine : char ∈ line) :
    char ∈ text ∧ char ≠ '\n' := by
  rw [lines, mem_append, mem_map, mem_filter, Option.mem_toList] at isLine
  rcases isLine with ⟨piece, isPiece, rfl⟩ | ⟨isLast, _⟩
  · have inPiece : char ∈ piece := by
      rw [stripReturn] at inLine
      split at inLine
      · exact mem_of_mem_dropLast inLine
      · exact inLine
    exact mem_of_mem_splitOn (mem_of_mem_dropLast isPiece) inPiece
  · exact mem_of_mem_splitOn (mem_of_getLast? isLast) inLine

end Lines

/-!
## Whole numbers
-/

namespace Decimal

/-- A whole number in decimal digits. -/
def display (number : ℤ) : List Char :=
  if number < 0 then '-' :: Nat.toDigits 10 number.natAbs
  else Nat.toDigits 10 number.natAbs

/-- The number that some digits stand for. -/
def magnitude (digits : List Char) : Option ℕ :=
  if digits ≠ [] ∧ digits.all Char.isDigit then
    some (Nat.ofDigitChars 10 digits 0)
  else
    none

/-- The number that a text with an optional sign stands for. -/
def signed : List Char → Option ℤ
  | '-' :: digits => (magnitude digits).map fun number : ℕ => -(number : ℤ)
  | '+' :: digits => (magnitude digits).map fun number : ℕ => (number : ℤ)
  | digits => (magnitude digits).map fun number : ℕ => (number : ℤ)

/-- Read a whole number between two bounds. -/
def parse (least greatest : ℤ) (text : List Char) : Option ℤ :=
  (signed text).filter fun number => least ≤ number ∧ number ≤ greatest

theorem isDigit_of_mem
    {number : ℕ} {char : Char} (member : char ∈ Nat.toDigits 10 number) :
    char.isDigit = true :=
  Nat.isDigit_of_mem_toDigits (by decide) (by decide) member

theorem mem_display
    {number : ℤ} {char : Char} (member : char ∈ display number) :
    char.isDigit = true ∨ char = '-' := by
  rw [display] at member
  split at member
  · rcases mem_cons.mp member with isSign | isDigit
    · exact .inr isSign
    · exact .inl (isDigit_of_mem isDigit)
  · exact .inl (isDigit_of_mem member)

theorem magnitude_toDigits (number : ℕ) :
    magnitude (Nat.toDigits 10 number) = some number := by
  have allDigits : (Nat.toDigits 10 number).all Char.isDigit = true := by
    rw [all_eq_true]
    exact fun char member => isDigit_of_mem member
  rw [magnitude, if_pos ⟨Nat.toDigits_ne_nil, allDigits⟩,
    Nat.ofDigitChars_ten_toDigits]

theorem signed_of_digits
    {digits : List Char} (allDigits : ∀ char ∈ digits, char.isDigit = true) :
    signed digits = (magnitude digits).map fun number : ℕ => (number : ℤ) := by
  cases digits with
  | nil => rfl
  | cons first rest =>
    have isDigit := allDigits first mem_cons_self
    rw [signed.eq_def]
    split
    · rename_i isSign
      cases isSign
      exact absurd isDigit (by decide)
    · rename_i isSign
      cases isSign
      exact absurd isDigit (by decide)
    · rfl

theorem signed_display (number : ℤ) :
    signed (display number) = some number := by
  rw [display]
  split
  · rename_i negative
    rw [signed, magnitude_toDigits, Option.map_some, Option.some.injEq]
    omega
  · rename_i notNegative
    rw [signed_of_digits fun char member => isDigit_of_mem member,
      magnitude_toDigits, Option.map_some, Option.some.injEq]
    omega

theorem parse_display
    {least greatest number : ℤ} (bounded : least ≤ number ∧ number ≤ greatest) :
    parse least greatest (display number) = some number := by
  rw [parse, signed_display, Option.filter_some,
    if_pos (decide_eq_true bounded)]

theorem parse_eq_none {text : List Char} {char : Char} (member : char ∈ text)
    (notDigit : char.isDigit = false) (notSign : char ≠ '-' ∧ char ≠ '+')
    (least greatest : ℤ) :
    parse least greatest text = none := by
  have noMagnitude :
      ∀ digits : List Char, char ∈ digits → magnitude digits = none := by
    intro digits inDigits
    refine if_neg fun shape => ?_
    have isDigit := all_eq_true.mp shape.2 char inDigits
    rw [notDigit] at isDigit
    cases isDigit
  have nothing : signed text = none := by
    rw [signed.eq_def]
    split
    · rename_i digits
      rw [noMagnitude digits ((mem_cons.mp member).resolve_left notSign.1)]
      rfl
    · rename_i digits
      rw [noMagnitude digits ((mem_cons.mp member).resolve_left notSign.2)]
      rfl
    · rw [noMagnitude text member]
      rfl
  rw [parse, nothing]
  rfl

end Decimal

end ChronoDB.Library
