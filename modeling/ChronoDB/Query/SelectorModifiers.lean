import ChronoDB.Query.Parametric

namespace ChronoDB.Query

open Library Text

/-!
# The modifiers of a selector

The offset of a selector is cut out of its text before the `@` modifier is, and
what follows the offset is dropped.  So an instant that is written after an
offset is lost, whatever the two are.  The instants `-1` and `-2` stand for the
bounds of the window in either order.
-/

/-!
## The two orders
-/

/-- A metric with an offset and an instant, and the texts of the two. -/
structure ModifiedSelector (std : StdText) where
  name : String
  isName : IsName name
  offsetText : Text
  offset : Int64
  readsOffset : parseOffsetModifier offsetText = .ok offset
  atText : Text
  timestamp : Int64
  readsTimestamp : std.parseTimestamp atText = some timestamp

namespace ModifiedSelector

variable {std : StdText}

def offsetFirst (modified : ModifiedSelector std) : Text :=
  modified.name.toList ++ " offset ".toList ++
    (modified.offsetText ++ " @ ".toList ++ modified.atText)

def atFirst (modified : ModifiedSelector std) : Text :=
  modified.name.toList ++ " @ ".toList ++
    (modified.atText ++ " offset ".toList ++ modified.offsetText)

/-- What both texts stand for. -/
def selector (modified : ModifiedSelector std) : VectorSelector where
  name := some modified.name
  matchers := []
  offset := some modified.offset
  atModifier := some ⟨modified.timestamp⟩

/-- The instant that is asked for. -/
def instant (modified : ModifiedSelector std) : Timestamp :=
  modified.timestamp - modified.offset

def ReadsInstant (modified : ModifiedSelector std) : Prop :=
  ∃ plan,
    QueryPlanner.planVectorSelector modified.selector =
        .ok (.vectorQuery plan) ∧
      ∀ ctx, plan.finalRange ctx = (modified.instant, modified.instant)

/-- Both orders are read as the selector, and execution reads its instant. -/
def OrdersAgree (modified : ModifiedSelector std) : Prop :=
  parsePromql std modified.offsetFirst =
      .ok (.vectorSelector modified.selector) ∧
    parsePromql std modified.atFirst = .ok (.vectorSelector modified.selector) ∧
      modified.ReadsInstant

end ModifiedSelector

/-!
## Where the instant stands
-/

theorem splitAtModifier_eq_some {text base atPart : Text}
    (isCut : splitAtModifier text = .ok (some (base, atPart))) :
    text = base ++ " @".toList ++ atPart ∨ text = base ++ '@' :: atPart := by
  rw [splitAtModifier] at isCut
  split at isCut
  · rename_i atIdx isFound
    obtain ⟨before, after, rfl, rfl⟩ := exists_of_findPattern isFound
    obtain ⟨cutBase, isBase, isCut⟩ := bind_eq_ok_iff.mp isCut
    obtain ⟨cutPart, isPart, isCut⟩ := bind_eq_ok_iff.mp isCut
    cases isCut
    have afterPattern :
        sliceFrom (before ++ (" @".toList ++ after)) (byteLength before + 2) =
          some after :=
      sliceFrom_eq_some_iff.mpr ⟨before ++ " @".toList, by simp, by simp; rfl⟩
    rw [orPanic_eq_ok_iff, sliceTo_append, Option.some_inj] at isBase
    rw [orPanic_eq_ok_iff, afterPattern, Option.some_inj] at isPart
    exact .inl (by simp [isBase, isPart])
  · split at isCut
    · rename_i atIdx isFound
      obtain ⟨before, char, after, rfl, isSign, _, rfl⟩ :=
        find_eq_some_iff.mp isFound
      obtain rfl : char = '@' := eq_of_beq isSign
      obtain ⟨cutBase, isBase, isCut⟩ := bind_eq_ok_iff.mp isCut
      obtain ⟨cutPart, isPart, isCut⟩ := bind_eq_ok_iff.mp isCut
      cases isCut
      rw [orPanic_eq_ok_iff, sliceTo_append, Option.some_inj] at isBase
      rw [orPanic_eq_ok_iff, sliceFrom_append_cons _ _ rfl, Option.some_inj]
        at isPart
      exact .inr (by rw [isBase, isPart])
    · cases isCut

theorem name_of_parseBase
    {base : Text} {name : String} {matchers : List Matcher}
    (parsed : parseBase base = .ok (some name, matchers)) :
    name.toList = base ∨
      ∃ before inner,
        base = before ++ '{' :: inner ∧ trim before = name.toList := by
  rw [parseBase] at parsed
  split at parsed
  · cases parsed
    exact .inl String.toList_ofList
  · rename_i braceIdx isFound
    obtain ⟨before, char, inner, rfl, isBrace, _, rfl⟩ :=
      find_eq_some_iff.mp isFound
    obtain rfl : char = '{' := eq_of_beq isBrace
    obtain ⟨cutName, isName, parsed⟩ := bind_eq_ok_iff.mp parsed
    obtain ⟨_, _, parsed⟩ := bind_eq_ok_iff.mp parsed
    obtain ⟨_, _, parsed⟩ := bind_eq_ok_iff.mp parsed
    rw [orPanic_eq_ok_iff, sliceTo_append, Option.some_inj] at isName
    split at parsed
    · cases parsed
      refine .inr ⟨before, inner, rfl, ?_⟩
      rw [String.toList_ofList, isName]
    · cases parsed

theorem atModifier_of_parseVectorSelector
    {std : StdText} {text : Text} {selector : VectorSelector} {name : String}
    (parsed : parseVectorSelector std text = .ok selector)
    (isName : selector.name = some name) (isAt : selector.atModifier ≠ none) :
    ∃ base atPart matchers,
      (base ++ " @".toList ++ atPart <+: trim text ∨
          base ++ '@' :: atPart <+: trim text) ∧
        parseBase base = .ok (some name, matchers) := by
  rw [parseVectorSelector] at parsed
  obtain ⟨⟨offset, withoutOffset⟩, isOffset, parsed⟩ := bind_eq_ok_iff.mp parsed
  obtain ⟨cut, isCut, parsed⟩ := bind_eq_ok_iff.mp parsed
  have isPrefix : withoutOffset <+: trim text := by
    rw [splitOffset] at isOffset
    split at isOffset
    · cases isOffset
      exact List.prefix_rfl
    · obtain ⟨before, isBefore, isOffset⟩ := bind_eq_ok_iff.mp isOffset
      obtain ⟨_, _, isOffset⟩ := bind_eq_ok_iff.mp isOffset
      obtain ⟨_, _, isOffset⟩ := bind_eq_ok_iff.mp isOffset
      obtain ⟨_, _, isOffset⟩ := bind_eq_ok_iff.mp isOffset
      cases isOffset
      obtain ⟨after, isText, _⟩ :=
        sliceTo_eq_some_iff.mp (orPanic_eq_ok_iff.mp isBefore)
      exact ⟨after, isText.symm⟩
  cases cut with
  | none =>
    obtain ⟨⟨_, _⟩, _, parsed⟩ := bind_eq_ok_iff.mp parsed
    cases parsed
    exact absurd rfl isAt
  | some cut =>
    obtain ⟨base, atPart⟩ := cut
    obtain ⟨_, _, parsed⟩ := bind_eq_ok_iff.mp parsed
    obtain ⟨⟨_, matchers⟩, isBase, parsed⟩ := bind_eq_ok_iff.mp parsed
    cases parsed
    cases isName
    refine ⟨base, atPart, matchers, ?_, isBase⟩
    rcases splitAtModifier_eq_some isCut with rfl | rfl
    · exact .inl isPrefix
    · exact .inr isPrefix

theorem IsName.not_base_of_offset
    {name : String} (isName : IsName name) {base sign atPart tail : Text}
    {matchers : List Matcher}
    (isBase : parseBase base = .ok (some name, matchers))
    (isSign : sign = " @".toList ∨ sign = ['@']) :
    ¬base ++ sign ++ atPart <+: name.toList ++ ' ' :: 'o' :: tail := by
  rintro ⟨rest, isText⟩
  rcases name_of_parseBase isBase with rfl | ⟨before, inner, rfl, isTrim⟩
  · rw [List.append_assoc, List.append_assoc, List.append_cancel_left_eq]
      at isText
    rcases isSign with rfl | rfl <;> cases isText
  · -- the brace stands in the name, or after the offset has begun
    rw [List.append_assoc, List.append_assoc, List.append_assoc,
      List.cons_append] at isText
    have noBrace : '{' ∉ name.toList := isName.not_mem (by decide)
    rcases List.append_eq_append_iff.mp isText with
      ⟨middle, isAll, isRest⟩ | ⟨middle, isAll, isRest⟩
    · cases middle with
      | nil => cases isRest
      | cons first middle =>
        obtain ⟨rfl, _⟩ := List.cons.inj isRest
        exact noBrace (by simp [isAll])
    · match middle with
      | [] => cases isRest
      | [_] => cases isRest
      | first :: second :: middle =>
        have isSecond : second = 'o' :=
          (List.cons.inj (List.cons.inj isRest).2).1.symm
        have isBefore : before = (name.toList ++ [first]) ++ 'o' :: middle := by
          simp [isAll, isSecond]
        rw [isBefore, trim_append_cons _ _ (by decide),
          isName.trimStart_append] at isTrim
        have sameLength := congrArg List.length isTrim
        simp at sameLength

theorem parseVectorSelector_of_parsePromql
    {std : StdText} {text : Text} {selector : VectorSelector}
    (parsed : parsePromql std text = .ok (.vectorSelector selector)) :
    parseVectorSelector std (trim text) = .ok selector := by
  rw [parsePromql_eq, parseLevel] at parsed
  obtain ⟨paren, _, parsed⟩ := bind_eq_ok_iff.mp parsed
  split at parsed
  · exact absurd parsed parseAggregation_ne_vectorSelector
  · split at parsed
    · exact absurd parsed parseCall_ne_vectorSelector
    · obtain ⟨bracket, _, parsed⟩ := bind_eq_ok_iff.mp parsed
      split at parsed
      · exact absurd parsed parseBracket_ne_vectorSelector
      · obtain ⟨_, isSelector, parsed⟩ := bind_eq_ok_iff.mp parsed
        cases parsed
        exact isSelector

namespace ModifiedSelector

variable {std : StdText}

theorem trim_offsetFirst (modified : ModifiedSelector std) :
    ∃ tail,
      trim modified.offsetFirst =
        modified.name.toList ++ ' ' :: 'o' :: tail := by
  refine ⟨trimEnd ("ffset ".toList ++
    (modified.offsetText ++ " @ ".toList ++ modified.atText)), ?_⟩
  have isText :
      modified.offsetFirst =
        (modified.name.toList ++ [' ']) ++ 'o' :: ("ffset ".toList ++
          (modified.offsetText ++ " @ ".toList ++ modified.atText)) := by
    simp [offsetFirst]
  rw [isText, trim_append_cons _ _ (by decide),
    modified.isName.trimStart_append]
  simp

theorem offsetFirst_drops_instant
    (modified : ModifiedSelector std) {selector : VectorSelector}
    (parsed :
      parsePromql std modified.offsetFirst = .ok (.vectorSelector selector))
    (isName : selector.name = some modified.name) :
    selector.atModifier = none := by
  by_contra isAt
  obtain ⟨base, atPart, matchers, isPrefix, isBase⟩ :=
    atModifier_of_parseVectorSelector
      (parseVectorSelector_of_parsePromql parsed) isName isAt
  obtain ⟨tail, isTrim⟩ := modified.trim_offsetFirst
  rw [trim_trim, isTrim] at isPrefix
  rcases isPrefix with isPrefix | isPrefix
  · exact modified.isName.not_base_of_offset isBase (.inl rfl) isPrefix
  · exact modified.isName.not_base_of_offset isBase (.inr rfl)
      (by simpa using isPrefix)

/--
The two orders never agree: the text with its offset first is not read as the
selector with the instant.
-/
theorem orders_never_agree (modified : ModifiedSelector std) :
    ¬modified.OrdersAgree := by
  rintro ⟨parsed, _, _⟩
  have isLost := modified.offsetFirst_drops_instant parsed rfl
  cases isLost

end ModifiedSelector

/-- A library that reads whole decimal numbers with a sign. -/
def StdText.decimal : StdText :=
  { StdText.basic with
    parseTimestamp := fun text =>
      match text with
      | '-' :: digits =>
        if digits ≠ [] ∧ digits.all Char.isDigit then
          some (-Int64.ofNat (digitsValue digits))
        else none
      | digits =>
        if digits ≠ [] ∧ digits.all Char.isDigit then
          some (Int64.ofNat (digitsValue digits))
        else none }

/-- Ninety seconds, with an offset of five minutes. -/
def upFiveMinutesBefore : ModifiedSelector StdText.decimal where
  name := "up"
  isName := by decide
  offsetText := "5m".toList
  offset := 300000
  readsOffset := by decide
  atText := "90000".toList
  timestamp := 90000
  readsTimestamp := by decide +kernel

theorem instant_after_offset_is_lost :
    (parsePromql StdText.decimal
        upFiveMinutesBefore.offsetFirst).toOption.bind Expr.selector? =
        some ⟨some "up", [], some 300000, none⟩ ∧
      (parsePromql StdText.decimal
          upFiveMinutesBefore.atFirst).toOption.bind Expr.selector? =
        some upFiveMinutesBefore.selector ∧
      ¬upFiveMinutesBefore.OrdersAgree := by
  have isRead :
      (parsePromql StdText.decimal
        upFiveMinutesBefore.offsetFirst).toOption.bind Expr.selector? =
        some ⟨some "up", [], some 300000, none⟩ := by
    decide +kernel
  refine ⟨isRead, by decide +kernel, fun agree => ?_⟩
  rw [agree.1] at isRead
  revert isRead
  decide

end ChronoDB.Query
