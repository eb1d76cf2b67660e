import Mathlib.Data.List.Basic
import Mathlib.Tactic.Ring

namespace ChronoDB.Library

/-!
# Little-endian byte strings

A natural number is laid out in a fixed number of bytes, least significant
byte first, and read back from any byte string.  Writing truncates to the
width, so reading back what was written gives the number modulo `256 ^ width`.
-/

/-- A finite string of bytes. -/
abbrev Bytes := List UInt8

/-- The lowest `width` bytes of a number, least significant first. -/
def leBytes : ℕ → ℕ → Bytes
  | 0, _ => []
  | width + 1, value => UInt8.ofNat value :: leBytes width (value / 256)

/-- The number whose little-endian bytes are given. -/
def leValue : Bytes → ℕ
  | [] => 0
  | byte :: rest => byte.toNat + 256 * leValue rest

@[simp] theorem leBytes_zero (value : ℕ) :
    leBytes 0 value = [] :=
  rfl

theorem leBytes_succ (width value : ℕ) :
    leBytes (width + 1) value =
      UInt8.ofNat value :: leBytes width (value / 256) :=
  rfl

@[simp] theorem leValue_nil : leValue [] = 0 :=
  rfl

@[simp] theorem leValue_cons (byte : UInt8) (rest : Bytes) :
    leValue (byte :: rest) = byte.toNat + 256 * leValue rest :=
  rfl

@[simp] theorem length_leBytes (width value : ℕ) :
    (leBytes width value).length = width := by
  induction width generalizing value with
  | zero => rfl
  | succ width inductionHypothesis => simp [leBytes_succ, inductionHypothesis]

@[simp] theorem drop_leBytes {width value count : ℕ} (whole : width ≤ count) :
    (leBytes width value).drop count = [] :=
  List.drop_eq_nil_of_le (by simpa using whole)

theorem leValue_leBytes (width value : ℕ) :
    leValue (leBytes width value) = value % 256 ^ width := by
  induction width generalizing value with
  | zero => simp [Nat.mod_one]
  | succ width inductionHypothesis =>
    have lowByte : (UInt8.ofNat value).toNat = value % 256 := by
      simp
    rw [leBytes_succ, leValue_cons, inductionHypothesis, lowByte,
      pow_succ', Nat.mod_mul]

theorem leValue_leBytes_of_lt {width value : ℕ} (fits : value < 256 ^ width) :
    leValue (leBytes width value) = value := by
  rw [leValue_leBytes, Nat.mod_eq_of_lt fits]

theorem leValue_lt (bytes : Bytes) :
    leValue bytes < 256 ^ bytes.length := by
  induction bytes with
  | nil => simp
  | cons byte rest inductionHypothesis =>
    have byteBound : byte.toNat < 256 := byte.toNat_lt
    rw [leValue_cons, List.length_cons, pow_succ]
    omega

theorem leBytes_leValue (bytes : Bytes) :
    leBytes bytes.length (leValue bytes) = bytes := by
  induction bytes with
  | nil => rfl
  | cons byte rest inductionHypothesis =>
    have byteBound : byte.toNat < 256 := byte.toNat_lt
    have lowByte : UInt8.ofNat (byte.toNat + 256 * leValue rest) = byte := by
      apply UInt8.toNat_inj.mp
      simp
    have highBytes :
        (byte.toNat + 256 * leValue rest) / 256 = leValue rest := by
      omega
    rw [List.length_cons, leBytes_succ, leValue_cons, lowByte, highBytes,
      inductionHypothesis]

theorem leValue_append (first second : Bytes) :
    leValue (first ++ second) =
      leValue first + 256 ^ first.length * leValue second := by
  induction first with
  | nil => simp
  | cons byte rest inductionHypothesis =>
    rw [List.cons_append, leValue_cons, leValue_cons,
      inductionHypothesis, List.length_cons, pow_succ]
    ring

end ChronoDB.Library
