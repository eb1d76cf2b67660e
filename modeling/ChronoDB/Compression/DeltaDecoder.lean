import ChronoDB.Compression.Varint

namespace ChronoDB.Compression

open Library

/-!
# Delta decoders

A decoder reads one difference after the other and adds it up.  The additions
are not checked: one that overflows ends the decoding without a result here, as
in a build with overflow checks; without them the values after it are wrong.
-/

instance (number : ℤ) : Decidable (FitsInt64 number) :=
  inferInstanceAs (Decidable (_ ∧ _))

/-- `+`, without a result when it overflows. -/
def plus (first second : Int64) : Option Int64 :=
  if FitsInt64 (first.toInt + second.toInt) then some (first + second)
  else none

/-- A difference is added to the last number, if there is one. -/
def addToLast (last : Option Int64) (difference : Int64) : Option Int64 :=
  match last with
  | some last => plus last difference
  | none => some difference

section DecodeLoop

variable
  {Decoder : Type}
  (advance : Decoder → Int64 → Option (Int64 × Decoder))

/--
The loop of a decoder over some bytes, with the values or the error that it
returns, and the decoder after it; without a result when an addition overflows.
-/
def decodeLoop (decoder : Decoder) (data : Bytes) :
    Option (Except Error (List Int64) × Decoder) :=
  if data = [] then
    some (.ok [], decoder)
  else
    match _found : decodeVarint data with
    | .error cause => some (.error cause, decoder)
    | .ok (difference, bytesRead) =>
      match advance decoder difference with
      | none => none
      | some (value, next) =>
        (decodeLoop next (data.drop bytesRead)).map fun outcome =>
          (outcome.1.map (value :: ·), outcome.2)
termination_by data.length
decreasing_by
  have taken := decodeVarint_count _found
  rw [List.length_drop]
  omega

def advanceAll (decoder : Decoder) :
    List Int64 → Option (List Int64 × Decoder)
  | [] => some ([], decoder)
  | difference :: rest =>
    match advance decoder difference with
    | none => none
    | some (value, next) =>
      (advanceAll next rest).map fun outcome =>
        (value :: outcome.1, outcome.2)

/-- The numbers that are read before the end or the first error. -/
def varintsOf (data : Bytes) : List Int64 :=
  match _found : decodeVarint data with
  | .error _ => []
  | .ok (value, bytesRead) => value :: varintsOf (data.drop bytesRead)
termination_by data.length
decreasing_by
  have taken := decodeVarint_count _found
  rw [List.length_drop]
  omega

@[simp] theorem decodeLoop_nil (decoder : Decoder) :
    decodeLoop advance decoder [] = some (.ok [], decoder) := by
  rw [decodeLoop, if_pos rfl]

theorem decodeLoop_of_error
    {data : Bytes} {cause : Error} (notEmpty : data ≠ [])
    (failed : decodeVarint data = .error cause) (decoder : Decoder) :
    decodeLoop advance decoder data = some (.error cause, decoder) := by
  rw [decodeLoop, if_neg notEmpty]
  split
  · rename_i other found
    rw [failed] at found
    cases found
    rfl
  · rename_i found
    rw [failed] at found
    cases found

theorem decodeLoop_of_ok {data : Bytes} {difference : Int64} {bytesRead : ℕ}
    (accepted : decodeVarint data = .ok (difference, bytesRead))
    (decoder : Decoder) :
    decodeLoop advance decoder data =
      (advance decoder difference).bind fun advanced =>
        (decodeLoop advance advanced.2 (data.drop bytesRead)).map
          fun outcome =>
            (outcome.1.map (advanced.1 :: ·), outcome.2) := by
  have notEmpty : data ≠ [] := by
    rintro rfl
    cases accepted
  rw [decodeLoop, if_neg notEmpty]
  split
  · rename_i found
    rw [accepted] at found
    cases found
  · rename_i found
    rw [accepted] at found
    cases found
    cases advance decoder difference with
    | none => rfl
    | some advanced => rfl

theorem varintsOf_of_error
    {data : Bytes} {cause : Error} (failed : decodeVarint data = .error cause) :
    varintsOf data = [] := by
  rw [varintsOf]
  split
  · rfl
  · rename_i found
    rw [failed] at found
    cases found

theorem varintsOf_of_ok {data : Bytes} {value : Int64} {bytesRead : ℕ}
    (accepted : decodeVarint data = .ok (value, bytesRead)) :
    varintsOf data = value :: varintsOf (data.drop bytesRead) := by
  rw [varintsOf]
  split
  · rename_i found
    rw [accepted] at found
    cases found
  · rename_i found
    rw [accepted] at found
    cases found
    rfl

theorem decodeLoop_flatMap_encodeVarint
    (decoder : Decoder) (differences : List Int64) :
    decodeLoop advance decoder (differences.flatMap encodeVarint) =
      (advanceAll advance decoder differences).map fun outcome =>
        (.ok outcome.1, outcome.2) := by
  induction differences generalizing decoder with
  | nil =>
    rw [List.flatMap_nil, decodeLoop_nil]
    rfl
  | cons difference rest inductionHypothesis =>
    have accepted :=
      decodeVarint_encodeVarint difference (rest.flatMap encodeVarint)
    rw [List.flatMap_cons, decodeLoop_of_ok advance accepted,
      List.drop_left, advanceAll]
    cases advance decoder difference with
    | none => rfl
    | some advanced =>
      dsimp only [Option.bind_some]
      rw [inductionHypothesis, Option.map_map, Option.map_map]
      rfl

theorem decodeLoop_eq_none_iff (decoder : Decoder) (data : Bytes) :
    decodeLoop advance decoder data = none ↔
      advanceAll advance decoder (varintsOf data) = none := by
  induction data using varintsOf.induct generalizing decoder with
  | case1 data cause failed =>
    rw [varintsOf_of_error failed, advanceAll]
    by_cases empty : data = []
    · rw [empty, decodeLoop_nil]
      exact iff_of_false (Option.some_ne_none _) (Option.some_ne_none _)
    · rw [decodeLoop_of_error advance empty failed]
      exact iff_of_false (Option.some_ne_none _) (Option.some_ne_none _)
  | case2 data value bytesRead accepted inductionHypothesis =>
    rw [varintsOf_of_ok accepted, decodeLoop_of_ok advance accepted, advanceAll]
    cases advance decoder value with
    | none => exact iff_of_true rfl rfl
    | some advanced =>
      dsimp only [Option.bind_some]
      rw [Option.map_eq_none_iff, Option.map_eq_none_iff]
      exact inductionHypothesis advanced.2

/-- Several pieces of bytes, decoded by one decoder one after the other. -/
def decodeChunks (decoder : Decoder) :
    List Bytes → Option (List (Except Error (List Int64)) × Decoder)
  | [] => some ([], decoder)
  | chunk :: rest =>
    match decodeLoop advance decoder chunk with
    | none => none
    | some (result, next) =>
      (decodeChunks next rest).map fun outcome =>
        (result :: outcome.1, outcome.2)

end DecodeLoop

structure DeltaDecoder where
  lastValue : Option Int64
  deriving Repr, DecidableEq

namespace DeltaDecoder

def new : DeltaDecoder where
  lastValue := none

/-- One round of the loop: the next value. -/
def advance (decoder : DeltaDecoder) (delta : Int64) :
    Option (Int64 × DeltaDecoder) :=
  (addToLast decoder.lastValue delta).map fun value =>
    (value, { lastValue := some value })

def decode (decoder : DeltaDecoder) (data : Bytes) :
    Option (Except Error (List Int64) × DeltaDecoder) :=
  decodeLoop advance decoder data

end DeltaDecoder

structure DeltaOfDeltaDecoder where
  lastValue : Option Int64
  lastDelta : Option Int64
  deriving Repr, DecidableEq

namespace DeltaOfDeltaDecoder

def new : DeltaOfDeltaDecoder where
  lastValue := none
  lastDelta := none

/-- One round of the loop: the next difference, and the next value. -/
def advance (decoder : DeltaOfDeltaDecoder) (dod : Int64) :
    Option (Int64 × DeltaOfDeltaDecoder) :=
  (addToLast decoder.lastDelta dod).bind fun delta =>
    (addToLast decoder.lastValue delta).map fun value =>
      (value, { lastValue := some value, lastDelta := some delta })

def decode (decoder : DeltaOfDeltaDecoder) (data : Bytes) :
    Option (Except Error (List Int64) × DeltaOfDeltaDecoder) :=
  decodeLoop advance decoder data

end DeltaOfDeltaDecoder

theorem addToLast_eq_some_iff {last : Option Int64} {difference value : Int64} :
    addToLast last difference = some value ↔
      value.toInt = (last.getD 0).toInt + difference.toInt := by
  cases last with
  | none =>
    rw [addToLast, Option.getD_none, Int64.toInt_zero, Int.zero_add,
      Int64.toInt_inj, Option.some.injEq, eq_comm]
  | some last =>
    rw [addToLast, plus, Option.getD_some]
    split
    · rename_i fits
      rw [← fits.toInt_add, Int64.toInt_inj, Option.some.injEq, eq_comm]
    · rename_i overflows
      refine iff_of_false (by intro added; cases added) ?_
      intro exact
      rw [← exact] at overflows
      exact overflows (fitsInt64_toInt value)

theorem addToLast_eq_none_iff {last : Option Int64} {difference : Int64} :
    addToLast last difference = none ↔
      ¬FitsInt64 ((last.getD 0).toInt + difference.toInt) := by
  cases added : addToLast last difference with
  | none =>
    refine iff_of_true rfl ?_
    intro fits
    have exact := Int64.toInt_ofInt_of_le fits.1 fits.2
    rw [addToLast_eq_some_iff.mpr exact] at added
    cases added
  | some value =>
    refine iff_of_false (Option.some_ne_none _) (not_not.mpr ?_)
    rw [← addToLast_eq_some_iff.mp added]
    exact fitsInt64_toInt value

end ChronoDB.Compression
