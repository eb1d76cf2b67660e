import ChronoDB.Library.LittleEndian

namespace ChronoDB.Library

/-!
# Exclusive or with a repeated key

Every byte is combined with the byte of the key at its index, the key being
repeated as often as needed.  The operation undoes itself.  An empty key has no
byte to combine with, so it is only good for an empty text.
-/

/-- Combine the bytes of a text from an index on with a repeated key. -/
def xorFrom (key : Bytes) : ℕ → Bytes → Option Bytes
  | _, [] => some []
  | index, byte :: rest =>
    match key[index % key.length]? with
    | none => none
    | some keyByte =>
      (xorFrom key (index + 1) rest).map fun later =>
        (byte ^^^ keyByte) :: later

def repeatedXor (key text : Bytes) : Option Bytes :=
  xorFrom key 0 text

variable {key : Bytes}

theorem exists_keyByte (nonempty : key ≠ []) (index : ℕ) :
    ∃ keyByte, key[index % key.length]? = some keyByte := by
  have bound := Nat.mod_lt index (List.length_pos_iff.mpr nonempty)
  exact ⟨_, List.getElem?_eq_getElem bound⟩

theorem exists_xorFrom (nonempty : key ≠ []) (index : ℕ) (text : Bytes) :
    ∃ combined, xorFrom key index text = some combined := by
  induction text generalizing index with
  | nil => exact ⟨[], rfl⟩
  | cons byte rest inductionHypothesis =>
    obtain ⟨keyByte, isKeyByte⟩ := exists_keyByte nonempty index
    obtain ⟨later, isLater⟩ := inductionHypothesis (index + 1)
    refine ⟨(byte ^^^ keyByte) :: later, ?_⟩
    rw [xorFrom, isKeyByte]
    dsimp only
    rw [isLater, Option.map_some]

theorem xorFrom_xorFrom {index : ℕ} {text combined : Bytes}
    (isCombined : xorFrom key index text = some combined) :
    xorFrom key index combined = some text := by
  induction text generalizing index combined with
  | nil =>
    cases isCombined
    rfl
  | cons byte rest inductionHypothesis =>
    rw [xorFrom] at isCombined
    cases found : key[index % key.length]? with
    | none =>
      rw [found] at isCombined
      cases isCombined
    | some keyByte =>
      rw [found] at isCombined
      obtain ⟨later, isLater, rfl⟩ := Option.map_eq_some_iff.mp isCombined
      have restored : byte ^^^ keyByte ^^^ keyByte = byte := by
        rw [UInt8.xor_assoc, UInt8.xor_self, UInt8.xor_zero]
      rw [xorFrom, found]
      dsimp only
      rw [inductionHypothesis isLater, Option.map_some, restored]

theorem length_xorFrom {index : ℕ} {text combined : Bytes}
    (isCombined : xorFrom key index text = some combined) :
    combined.length = text.length := by
  induction text generalizing index combined with
  | nil =>
    cases isCombined
    rfl
  | cons byte rest inductionHypothesis =>
    rw [xorFrom] at isCombined
    cases found : key[index % key.length]? with
    | none =>
      rw [found] at isCombined
      cases isCombined
    | some keyByte =>
      rw [found] at isCombined
      obtain ⟨later, isLater, rfl⟩ := Option.map_eq_some_iff.mp isCombined
      rw [List.length_cons, List.length_cons, inductionHypothesis isLater]

theorem exists_repeatedXor_iff (key text : Bytes) :
    (∃ combined, repeatedXor key text = some combined) ↔
      text = [] ∨ key ≠ [] := by
  constructor
  · rintro ⟨combined, isCombined⟩
    cases text with
    | nil => exact .inl rfl
    | cons byte rest =>
      refine .inr fun isEmpty => ?_
      rw [repeatedXor, xorFrom, isEmpty] at isCombined
      cases isCombined
  · rintro (rfl | nonempty)
    · exact ⟨[], rfl⟩
    · exact exists_xorFrom nonempty 0 text

end ChronoDB.Library
