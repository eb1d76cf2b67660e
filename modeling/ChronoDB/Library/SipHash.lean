import ChronoDB.Library.LittleEndian

namespace ChronoDB.Library.SipHash

/-!
# SipHash-1-3

The keyed hash with one compression round for each word and three finalization
rounds, with both halves of the key zero.
-/

/-- The four words of the internal state. -/
structure State where
  v0 : UInt64
  v1 : UInt64
  v2 : UInt64
  v3 : UInt64
  deriving Repr, DecidableEq

/-- Rotate a word to the left by a number of bits between 1 and 63. -/
def rotateLeft (word : UInt64) (bits : UInt64) : UInt64 :=
  (word <<< bits) ||| (word >>> (64 - bits))

def round (state : State) : State :=
  let v0 := state.v0 + state.v1
  let v1 := rotateLeft state.v1 13 ^^^ v0
  let v0 := rotateLeft v0 32
  let v2 := state.v2 + state.v3
  let v3 := rotateLeft state.v3 16 ^^^ v2
  let v0 := v0 + v3
  let v3 := rotateLeft v3 21 ^^^ v0
  let v2 := v2 + v1
  let v1 := rotateLeft v1 17 ^^^ v2
  let v2 := rotateLeft v2 32
  { v0 := v0, v1 := v1, v2 := v2, v3 := v3 }

/-- The state of a zero key. -/
def initial : State where
  v0 := 0x736f6d6570736575
  v1 := 0x646f72616e646f6d
  v2 := 0x6c7967656e657261
  v3 := 0x7465646279746573

def compress (state : State) (word : UInt64) : State :=
  let mixed := round { state with v3 := state.v3 ^^^ word }
  { mixed with v0 := mixed.v0 ^^^ word }

/-- Compress the whole words of a message, and the last one with the length. -/
def absorb (length : ℕ) (state : State) (message : Bytes) : State :=
  if message.length < 8 then
    compress state (UInt64.ofNat (leValue message + length % 256 * 256 ^ 7))
  else
    absorb length
      (compress state (UInt64.ofNat (leValue (message.take 8))))
      (message.drop 8)
termination_by message.length
decreasing_by
  rw [List.length_drop]
  omega

def hash (message : Bytes) : UInt64 :=
  let absorbed := absorb message.length initial message
  let final :=
    round (round (round { absorbed with v2 := absorbed.v2 ^^^ 0xff }))
  final.v0 ^^^ final.v1 ^^^ final.v2 ^^^ final.v3

end ChronoDB.Library.SipHash
