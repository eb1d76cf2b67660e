import ChronoDB.Compression.DeltaDecoder

namespace ChronoDB.Compression

open Library List DeltaOfDeltaEncoder

/-!
# Delta codecs are lossless

An encoder takes values in any number of calls, a decoder the bytes whole or in
pieces.  The decoder keeps the same state as the encoder, so it reads back what
was written.  An encoder refuses only differences that do not fit.  A call for
one value then leaves it as it was, but a batch leaves it after the values that
were accepted before, whose bytes it has dropped.
-/

inductive EncodeCall where
  | encode (value : Int64)
  | encodeBatch (values : List Int64)
  deriving Repr, DecidableEq

def EncodeCall.values : EncodeCall → List Int64
  | .encode value => [value]
  | .encodeBatch values => values

theorem not_exists_error_eq_ok {Value : Type} (cause : Error) :
    ¬∃ value : Value, (Except.error cause : Except Error Value) = .ok value := by
  rintro ⟨value, isOk⟩
  cases isOk

theorem exists_map_eq_ok_iff {Value Image : Type} {transform : Value → Image}
    {result : Except Error Value} :
    (∃ image, result.map transform = .ok image) ↔
      ∃ value, result = .ok value := by
  cases result with
  | error cause =>
    exact iff_of_false (not_exists_error_eq_ok cause)
      (not_exists_error_eq_ok cause)
  | ok value => exact iff_of_true ⟨_, rfl⟩ ⟨_, rfl⟩

/-!
## Encoders in several calls
-/

section Calls

variable
  {Encoder : Type}
  (encode : Encoder → Int64 → Except Error (Bytes × Encoder))

/-- What a batch returns, and the encoder after it. -/
def batchInPlace (encoder : Encoder) :
    List Int64 → Except Error Bytes × Encoder
  | [] => (.ok [], encoder)
  | value :: rest =>
    match encode encoder value with
    | .error cause => (.error cause, encoder)
    | .ok (encoded, next) =>
      let outcome := batchInPlace next rest
      (outcome.1.map (encoded ++ ·), outcome.2)

/-- What a call returns, and the encoder after it. -/
def perform (encoder : Encoder) : EncodeCall → Except Error Bytes × Encoder
  | .encode value =>
    match encode encoder value with
    | .error cause => (.error cause, encoder)
    | .ok (encoded, next) => (.ok encoded, next)
  | .encodeBatch values => batchInPlace encode encoder values

/-- What several calls return, and the encoder after them. -/
def performAll (encoder : Encoder) :
    List EncodeCall → List (Except Error Bytes) × Encoder
  | [] => ([], encoder)
  | call :: rest =>
    let first := perform encode encoder call
    let later := performAll first.2 rest
    (first.1 :: later.1, later.2)

/--
When a call fails, a difference does not fit, and the encoder is left as it was.
-/
def FailsSafely (encoder : Encoder) (fits : Prop) (call : EncodeCall) : Prop :=
  ∀ cause, (perform encode encoder call).1 = .error cause →
    ¬fits ∧ (perform encode encoder call).2 = encoder

theorem failsSafely_encode {encoder : Encoder} {fits : Prop} {value : Int64}
    (refuses : ∀ cause, encode encoder value = .error cause → ¬fits) :
    FailsSafely encode encoder fits (.encode value) := by
  intro cause failed
  rw [perform] at failed ⊢
  cases outcome : encode encoder value with
  | error other => exact ⟨refuses other outcome, rfl⟩
  | ok result =>
    rw [outcome] at failed
    cases failed

theorem failsSafely_encodeBatch_iff
    {encoder : Encoder} {fits : Prop} {values : List Int64}
    (acceptedIff :
      (∃ encoded, (batchInPlace encode encoder values).1 = .ok encoded) ↔
        fits) :
    FailsSafely encode encoder fits (.encodeBatch values) ↔
      fits ∨ (batchInPlace encode encoder values).2 = encoder := by
  rw [FailsSafely, perform, ← acceptedIff]
  cases outcome : (batchInPlace encode encoder values).1 with
  | ok encoded =>
    refine iff_of_true ?_ (.inl ⟨encoded, rfl⟩)
    intro cause failed
    cases failed
  | error failure =>
    have refused := @not_exists_error_eq_ok Bytes failure
    rw [or_iff_right refused]
    constructor
    · intro safely
      exact (safely failure rfl).2
    · intro same cause _
      exact ⟨refused, same⟩

def encodeEach (encoder : Encoder) :
    List Int64 → Option (List Bytes × Encoder)
  | [] => some ([], encoder)
  | value :: rest =>
    match encode encoder value with
    | .error _ => none
    | .ok (encoded, next) =>
      (encodeEach next rest).map fun outcome =>
        (encoded :: outcome.1, outcome.2)

theorem encodeEach_append
    {encoder middle final : Encoder} {values others : List Int64}
    {pieces more : List Bytes}
    (first : encodeEach encode encoder values = some (pieces, middle))
    (later : encodeEach encode middle others = some (more, final)) :
    encodeEach encode encoder (values ++ others) =
      some (pieces ++ more, final) := by
  induction values generalizing encoder pieces with
  | nil =>
    cases first
    exact later
  | cons value rest inductionHypothesis =>
    rw [cons_append]
    rw [encodeEach] at first ⊢
    cases encoded : encode encoder value with
    | error cause => simp [encoded] at first
    | ok outcome =>
      obtain ⟨bytes, next⟩ := outcome
      simp only [encoded, Option.map_eq_some_iff] at first
      obtain ⟨⟨restPieces, last⟩, isRest, isPieces⟩ := first
      cases isPieces
      dsimp only
      rw [inductionHypothesis isRest]
      rfl

theorem encodeEach_of_batch
    {encoder next : Encoder} {values : List Int64} {encoded : Bytes}
    (accepted : batchInPlace encode encoder values = (.ok encoded, next)) :
    ∃ pieces,
      encodeEach encode encoder values = some (pieces, next) ∧
        encoded = pieces.flatten := by
  induction values generalizing encoder encoded with
  | nil =>
    cases accepted
    exact ⟨[], rfl, rfl⟩
  | cons value rest inductionHypothesis =>
    rw [batchInPlace] at accepted
    rw [encodeEach]
    cases first : encode encoder value with
    | error cause => simp [first] at accepted
    | ok outcome =>
      obtain ⟨bytes, after⟩ := outcome
      simp only [first, Prod.mk.injEq] at accepted
      obtain ⟨isEncoded, isNext⟩ := accepted
      cases others : (batchInPlace encode after rest).1 with
      | error cause => simp [others, Except.map] at isEncoded
      | ok later =>
        rw [others] at isEncoded
        cases isEncoded
        obtain ⟨pieces, isPieces, isLater⟩ :=
          inductionHypothesis (Prod.ext others isNext)
        refine ⟨bytes :: pieces, ?_, ?_⟩
        · dsimp only
          rw [isPieces]
          rfl
        · rw [flatten_cons, isLater]

theorem encodeEach_of_perform
    {encoder next : Encoder} {call : EncodeCall} {encoded : Bytes}
    (accepted : perform encode encoder call = (.ok encoded, next)) :
    ∃ pieces,
      encodeEach encode encoder call.values = some (pieces, next) ∧
        encoded = pieces.flatten := by
  cases call with
  | encodeBatch values => exact encodeEach_of_batch encode accepted
  | encode value =>
    rw [perform] at accepted
    cases first : encode encoder value with
    | error cause => simp [first] at accepted
    | ok outcome =>
      simp only [first, Prod.mk.injEq, Except.ok.injEq] at accepted
      refine ⟨[encoded], ?_, (flatten_singleton).symm⟩
      rw [EncodeCall.values, encodeEach, first]
      dsimp only
      rw [encodeEach, accepted.1, accepted.2]
      rfl

theorem encodeEach_of_performAll
    {encoder final : Encoder} {calls : List EncodeCall} {outputs : List Bytes}
    (accepted :
      performAll encode encoder calls = (outputs.map .ok, final)) :
    ∃ pieces,
      encodeEach encode encoder (calls.flatMap EncodeCall.values) =
          some (pieces, final) ∧
        outputs.flatten = pieces.flatten := by
  induction calls generalizing encoder outputs with
  | nil =>
    rw [performAll, Prod.mk.injEq] at accepted
    obtain ⟨noOutputs, rfl⟩ := accepted
    obtain rfl := map_eq_nil_iff.mp noOutputs.symm
    exact ⟨[], rfl, rfl⟩
  | cons call rest inductionHypothesis =>
    rw [performAll, Prod.mk.injEq] at accepted
    obtain ⟨isOutputs, isFinal⟩ := accepted
    obtain ⟨output, others, rfl, isOutput, isOthers⟩ :=
      map_eq_cons_iff.mp isOutputs.symm
    obtain ⟨pieces, isPieces, joined⟩ :=
      encodeEach_of_perform encode
        (Prod.ext isOutput.symm rfl :
          perform encode encoder call = (.ok output, _))
    obtain ⟨more, isMore, joinedMore⟩ :=
      inductionHypothesis (Prod.ext isOthers.symm isFinal)
    refine ⟨pieces ++ more, ?_, ?_⟩
    · rw [flatMap_cons]
      exact encodeEach_append encode isPieces isMore
    · rw [flatten_cons, flatten_append, joined, joinedMore]

theorem performAll_of_encodeEach
    {encoder final : Encoder} {values : List Int64} {pieces : List Bytes}
    (encoded : encodeEach encode encoder values = some (pieces, final)) :
    performAll encode encoder (values.map .encode) =
      (pieces.map .ok, final) := by
  induction values generalizing encoder pieces with
  | nil =>
    cases encoded
    rfl
  | cons value rest inductionHypothesis =>
    rw [encodeEach] at encoded
    rw [map_cons, performAll, perform]
    cases first : encode encoder value with
    | error cause => simp [first] at encoded
    | ok outcome =>
      obtain ⟨bytes, next⟩ := outcome
      simp only [first, Option.map_eq_some_iff] at encoded
      obtain ⟨⟨restPieces, last⟩, isRest, isPieces⟩ := encoded
      cases isPieces
      dsimp only
      rw [inductionHypothesis isRest, map_cons]

end Calls

/-!
## A decoder that mirrors an encoder
-/

section Mirrored

variable
  {Encoder Decoder : Type}
  (encode : Encoder → Int64 → Except Error (Bytes × Encoder))
  (advance : Decoder → Int64 → Option (Int64 × Decoder))

/--
When all calls are accepted, their bytes are those of the values one by one, and
a decoder gives the values back, in whichever groups it takes these bytes.
-/
def DecodesBack (encoder : Encoder) (decoder : Decoder) : Prop :=
  ∀ (calls : List EncodeCall) (outputs : List Bytes) (final : Encoder),
    performAll encode encoder calls = (outputs.map .ok, final) →
      ∃ pieces : List Bytes,
        (performAll encode encoder
            ((calls.flatMap EncodeCall.values).map .encode)).1 =
          pieces.map .ok ∧
        outputs.flatten = pieces.flatten ∧
          ∀ groups : List (List Bytes),
            groups.flatten = pieces →
              ∃ (parts : List (List Int64)) (last : Decoder),
                decodeChunks advance decoder (groups.map List.flatten) =
                    some (parts.map .ok, last) ∧
                  parts.flatten = calls.flatMap EncodeCall.values

/-- A decoder is in the state of an encoder, also after the next value. -/
def MirrorsNext (Mirrors : Encoder → Decoder → Prop) : Prop :=
  ∀ encoder decoder value encoded next,
    Mirrors encoder decoder →
      encode encoder value = .ok (encoded, next) →
        ∃ difference after,
          encoded = encodeVarint difference ∧
            advance decoder difference = some (value, after) ∧
              Mirrors next after

theorem advanceAll_of_encodeEach {Mirrors : Encoder → Decoder → Prop}
    (mirrorsNext : MirrorsNext encode advance Mirrors) {encoder final : Encoder}
    {decoder : Decoder} (mirrors : Mirrors encoder decoder)
    {values : List Int64} {pieces : List Bytes}
    (encoded : encodeEach encode encoder values = some (pieces, final)) :
    ∃ differences after,
      pieces = differences.map encodeVarint ∧
        advanceAll advance decoder differences = some (values, after) := by
  induction values generalizing encoder decoder pieces with
  | nil =>
    cases encoded
    exact ⟨[], decoder, rfl, rfl⟩
  | cons value rest inductionHypothesis =>
    rw [encodeEach] at encoded
    cases first : encode encoder value with
    | error cause => simp [first] at encoded
    | ok outcome =>
      obtain ⟨bytes, next⟩ := outcome
      simp only [first, Option.map_eq_some_iff] at encoded
      obtain ⟨⟨restPieces, last⟩, isRest, isPieces⟩ := encoded
      cases isPieces
      obtain ⟨difference, after, rfl, advanced, stillMirrors⟩ :=
        mirrorsNext encoder decoder value bytes next mirrors first
      obtain ⟨differences, afterAll, rfl, advancedAll⟩ :=
        inductionHypothesis stillMirrors isRest
      refine ⟨difference :: differences, afterAll, rfl, ?_⟩
      rw [advanceAll, advanced]
      dsimp only
      rw [advancedAll]
      rfl

theorem advanceAll_append
    {decoder final : Decoder} {first second values : List Int64}
    (advanced :
      advanceAll advance decoder (first ++ second) = some (values, final)) :
    ∃ leading trailing middle,
      values = leading ++ trailing ∧
        advanceAll advance decoder first = some (leading, middle) ∧
          advanceAll advance middle second = some (trailing, final) := by
  induction first generalizing decoder values with
  | nil => exact ⟨[], values, decoder, rfl, rfl, advanced⟩
  | cons difference rest inductionHypothesis =>
    rw [cons_append, advanceAll] at advanced
    cases taken : advance decoder difference with
    | none => simp [taken] at advanced
    | some outcome =>
      obtain ⟨value, next⟩ := outcome
      simp only [taken, Option.map_eq_some_iff] at advanced
      obtain ⟨⟨others, last⟩, isOthers, isValues⟩ := advanced
      cases isValues
      obtain ⟨leading, trailing, middle, rfl, isLeading, isTrailing⟩ :=
        inductionHypothesis isOthers
      refine ⟨value :: leading, trailing, middle, rfl, ?_, isTrailing⟩
      rw [advanceAll, taken]
      dsimp only
      rw [isLeading]
      rfl

theorem decodeChunks_of_advanceAll
    {decoder final : Decoder} {differences values : List Int64}
    {groups : List (List Bytes)}
    (isGroups : groups.flatten = differences.map encodeVarint)
    (advanced :
      advanceAll advance decoder differences = some (values, final)) :
    ∃ parts : List (List Int64),
      decodeChunks advance decoder (groups.map List.flatten) =
          some (parts.map .ok, final) ∧
        parts.flatten = values := by
  induction groups generalizing decoder differences values with
  | nil =>
    obtain rfl := map_eq_nil_iff.mp isGroups.symm
    cases advanced
    exact ⟨[], rfl, rfl⟩
  | cons group rest inductionHypothesis =>
    rw [flatten_cons] at isGroups
    obtain ⟨first, second, rfl, rfl, isRest⟩ :=
      map_eq_append_iff.mp isGroups.symm
    obtain ⟨leading, trailing, middle, rfl, isLeading, isTrailing⟩ :=
      advanceAll_append advance advanced
    obtain ⟨parts, isParts, rfl⟩ := inductionHypothesis isRest.symm isTrailing
    refine ⟨leading :: parts, ?_, rfl⟩
    rw [map_cons, decodeChunks, ← flatMap_def,
      decodeLoop_flatMap_encodeVarint, isLeading]
    dsimp only [Option.map_some]
    rw [isParts]
    rfl

theorem decodesBack_of_mirrors {Mirrors : Encoder → Decoder → Prop}
    (mirrorsNext : MirrorsNext encode advance Mirrors) {encoder : Encoder}
    {decoder : Decoder} (mirrors : Mirrors encoder decoder) :
    DecodesBack encode advance encoder decoder := by
  intro calls outputs final accepted
  obtain ⟨pieces, isPieces, joined⟩ := encodeEach_of_performAll encode accepted
  obtain ⟨differences, after, rfl, advanced⟩ :=
    advanceAll_of_encodeEach encode advance mirrorsNext mirrors isPieces
  refine ⟨differences.map encodeVarint, ?_, joined, ?_⟩
  · rw [performAll_of_encodeEach encode isPieces]
  · intro groups isGroups
    obtain ⟨parts, isParts, areValues⟩ :=
      decodeChunks_of_advanceAll advance isGroups advanced
    exact ⟨parts, after, isParts, areValues⟩

end Mirrored

/-!
## The two codecs
-/

structure DeltaEncoder where
  lastValue : Option Int64
  deriving Repr, DecidableEq

namespace DeltaEncoder

def new : DeltaEncoder where
  lastValue := none

def encode (encoder : DeltaEncoder) (value : Int64) :
    Except Error (Bytes × DeltaEncoder) :=
  match
    checkedDifference "Delta encoding overflow"
      encoder.lastValue value
  with
  | .error cause => .error cause
  | .ok delta => .ok (encodeVarint delta, { lastValue := some value })

def DifferencesFit (last : ℤ) : List Int64 → Prop
  | [] => True
  | value :: rest =>
    FitsInt64 (value.toInt - last) ∧ DifferencesFit value.toInt rest

/-- The last value before the first one whose difference does not fit. -/
def lastFitting (last : ℤ) : List Int64 → Option Int64
  | [] => none
  | value :: rest =>
    if FitsInt64 (value.toInt - last) then
      some ((lastFitting value.toInt rest).getD value)
    else
      none

theorem encode_cases (encoder : DeltaEncoder) (value : Int64) :
    FitsInt64 (value.toInt - (encoder.lastValue.getD 0).toInt) ∧
        (∃ delta,
          encoder.encode value =
              .ok (encodeVarint delta, { lastValue := some value }) ∧
            addToLast encoder.lastValue delta = some value) ∨
      ¬FitsInt64 (value.toInt - (encoder.lastValue.getD 0).toInt) ∧
        ∃ cause, encoder.encode value = .error cause := by
  rw [encode]
  cases found :
      checkedDifference "Delta encoding overflow"
        encoder.lastValue value with
  | error cause =>
    refine .inr ⟨?_, cause, rfl⟩
    intro fits
    obtain ⟨_, accepted⟩ :=
      DeltaOfDeltaEncoder.exists_checkedDifference
        "Delta encoding overflow" fits
    rw [found] at accepted
    cases accepted
  | ok delta =>
    obtain ⟨fits, isDelta⟩ :=
      DeltaOfDeltaEncoder.checkedDifference_eq_ok_iff.mp found
    refine .inl ⟨fits, delta, rfl, addToLast_eq_some_iff.mpr ?_⟩
    omega

theorem mirrorsNext :
    MirrorsNext encode DeltaDecoder.advance
      fun encoder decoder => decoder.lastValue = encoder.lastValue := by
  intro encoder decoder value encoded next mirrors accepted
  rcases encoder.encode_cases value with
    ⟨_, delta, isOk, added⟩ | ⟨_, cause, isError⟩
  · rw [isOk] at accepted
    cases accepted
    refine ⟨delta, { lastValue := some value }, rfl, ?_, rfl⟩
    rw [DeltaDecoder.advance, mirrors, added]
    rfl
  · rw [isError] at accepted
    cases accepted

theorem batch_outcome (encoder : DeltaEncoder) (values : List Int64) :
    ((∃ encoded, (batchInPlace encode encoder values).1 = .ok encoded) ↔
        DifferencesFit (encoder.lastValue.getD 0).toInt values) ∧
      (batchInPlace encode encoder values).2.lastValue =
        (lastFitting (encoder.lastValue.getD 0).toInt values).or
          encoder.lastValue := by
  induction values generalizing encoder with
  | nil => exact ⟨iff_of_true ⟨[], rfl⟩ trivial, rfl⟩
  | cons value rest inductionHypothesis =>
    rw [batchInPlace, DifferencesFit, lastFitting]
    rcases encoder.encode_cases value with
      ⟨fits, delta, isOk, _⟩ | ⟨overflows, cause, isError⟩
    · obtain ⟨acceptedIff, keptLast⟩ :=
        inductionHypothesis { lastValue := some value }
      rw [isOk, if_pos fits, and_iff_right fits]
      dsimp only
      rw [Option.getD_some] at acceptedIff keptLast
      refine ⟨exists_map_eq_ok_iff.trans acceptedIff, ?_⟩
      · rw [keptLast]
        cases lastFitting value.toInt rest with
        | none => rfl
        | some last => rfl
    · rw [isError, if_neg overflows]
      exact ⟨iff_of_false (not_exists_error_eq_ok cause)
        (fun fits => overflows fits.1), rfl⟩

/--
A call leaves the encoder as it was unless it is a batch with a difference that
does not fit after values that move the encoder.
-/
def StaysInPlace (encoder : DeltaEncoder) : EncodeCall → Prop
  | .encode _ => True
  | .encodeBatch values =>
    DifferencesFit (encoder.lastValue.getD 0).toInt values ∨
      ∀ last ∈ lastFitting (encoder.lastValue.getD 0).toInt values,
        encoder.lastValue = some last

theorem failsSafely_iff (encoder : DeltaEncoder) (call : EncodeCall) :
    FailsSafely encode encoder
        (DifferencesFit (encoder.lastValue.getD 0).toInt call.values) call ↔
      encoder.StaysInPlace call := by
  cases call with
  | encode value =>
    refine iff_of_true (failsSafely_encode encode ?_) trivial
    intro cause failed
    rcases encoder.encode_cases value with
      ⟨_, delta, isOk, _⟩ | ⟨overflows, _, _⟩
    · rw [isOk] at failed
      cases failed
    · exact fun fits => overflows fits.1
  | encodeBatch values =>
    obtain ⟨acceptedIff, keptLast⟩ := encoder.batch_outcome values
    rw [EncodeCall.values, failsSafely_encodeBatch_iff encode acceptedIff,
      StaysInPlace]
    refine or_congr_right ?_
    constructor
    · intro same last isLast
      rw [same, isLast] at keptLast
      exact keptLast
    · intro stays
      have sameLast :
          (batchInPlace encode encoder values).2.lastValue =
            encoder.lastValue := by
        rw [keptLast]
        cases fitting : lastFitting (encoder.lastValue.getD 0).toInt values with
        | none => rfl
        | some last => exact (stays last fitting).symm
      exact congrArg DeltaEncoder.mk sameLast

end DeltaEncoder

namespace DeltaOfDeltaEncoder

theorem mirrorsNext :
    MirrorsNext encode DeltaOfDeltaDecoder.advance
      fun encoder decoder =>
        decoder.lastValue = encoder.lastValue ∧
          decoder.lastDelta = encoder.lastDelta := by
  intro encoder decoder value encoded next mirrors accepted
  obtain ⟨delta, dod, rfl, rfl, isValue, isDelta⟩ := encode_eq_ok accepted
  refine ⟨dod, { lastValue := some value, lastDelta := some delta }, rfl, ?_,
    rfl, rfl⟩
  rw [DeltaOfDeltaDecoder.advance, mirrors.1, mirrors.2,
    addToLast_eq_some_iff.mpr isDelta]
  dsimp only [Option.bind_some]
  rw [addToLast_eq_some_iff.mpr isValue]
  rfl

theorem eq_of_same {first second : DeltaOfDeltaEncoder}
    (sameLast : first.lastValue = second.lastValue)
    (sameDelta :
      first.lastDelta.map Int64.toInt = second.lastDelta.map Int64.toInt) :
    first = second := by
  have injective : Function.Injective Int64.toInt :=
    fun _ _ same => Int64.toInt_inj.mp same
  obtain ⟨lastValue, lastDelta⟩ := first
  obtain ⟨otherValue, otherDelta⟩ := second
  cases sameLast
  have isDelta : lastDelta = otherDelta :=
    Option.map_injective injective sameDelta
  rw [isDelta]

theorem encode_cases (encoder : DeltaOfDeltaEncoder) (value : Int64) :
    (FitsInt64 (value.toInt - (encoder.lastValue.getD 0).toInt) ∧
        FitsInt64 (value.toInt - (encoder.lastValue.getD 0).toInt -
          (encoder.lastDelta.getD 0).toInt)) ∧
        (∃ encoded delta,
          encoder.encode value =
              .ok (encoded,
                { lastValue := some value, lastDelta := some delta }) ∧
            delta.toInt = value.toInt - (encoder.lastValue.getD 0).toInt) ∨
      ¬(FitsInt64 (value.toInt - (encoder.lastValue.getD 0).toInt) ∧
        FitsInt64 (value.toInt - (encoder.lastValue.getD 0).toInt -
          (encoder.lastDelta.getD 0).toInt)) ∧
        ∃ cause, encoder.encode value = .error cause := by
  cases outcome : encoder.encode value with
  | ok result =>
    obtain ⟨encoded, next⟩ := result
    obtain ⟨delta, dod, _, rfl, isValue, isDelta⟩ := encode_eq_ok outcome
    have deltaFits := fitsInt64_toInt delta
    have dodFits := fitsInt64_toInt dod
    have isFirst :
        delta.toInt = value.toInt - (encoder.lastValue.getD 0).toInt := by
      omega
    refine .inl ⟨⟨?_, ?_⟩, encoded, delta, rfl, isFirst⟩
    · rw [← isFirst]
      exact deltaFits
    · rw [← isFirst, isDelta, add_sub_cancel_left]
      exact dodFits
  | error cause =>
    refine .inr ⟨?_, cause, rfl⟩
    rintro ⟨deltaFits, dodFits⟩
    obtain ⟨delta, isDelta⟩ :=
      exists_checkedDifference "Delta encoding overflow" deltaFits
    obtain ⟨_, isFirst⟩ := checkedDifference_eq_ok_iff.mp isDelta
    rw [← isFirst] at dodFits
    obtain ⟨dod, isDod⟩ :=
      exists_checkedDifference "Delta of delta encoding overflow" dodFits
    rw [encode, DeltaOfDeltaEncoder.delta, isDelta] at outcome
    dsimp only at outcome
    rw [deltaOfDelta, isDod] at outcome
    cases outcome

/--
The last value, with its difference, before the first one whose first or second
difference does not fit.
-/
def lastFitting (last delta : ℤ) : List Int64 → Option (Int64 × ℤ)
  | [] => none
  | value :: rest =>
    if FitsInt64 (value.toInt - last) ∧
        FitsInt64 (value.toInt - last - delta) then
      some ((lastFitting value.toInt (value.toInt - last) rest).getD
        (value, value.toInt - last))
    else
      none

theorem batch_outcome (encoder : DeltaOfDeltaEncoder) (values : List Int64) :
    ((∃ encoded, (batchInPlace encode encoder values).1 = .ok encoded) ↔
        DifferencesFit (encoder.lastValue.getD 0).toInt
          (encoder.lastDelta.getD 0).toInt values) ∧
      (batchInPlace encode encoder values).2.lastValue =
          ((lastFitting (encoder.lastValue.getD 0).toInt
            (encoder.lastDelta.getD 0).toInt values).map Prod.fst).or
            encoder.lastValue ∧
        (batchInPlace encode encoder values).2.lastDelta.map Int64.toInt =
          ((lastFitting (encoder.lastValue.getD 0).toInt
            (encoder.lastDelta.getD 0).toInt values).map Prod.snd).or
            (encoder.lastDelta.map Int64.toInt) := by
  induction values generalizing encoder with
  | nil => exact ⟨iff_of_true ⟨[], rfl⟩ trivial, rfl, rfl⟩
  | cons value rest inductionHypothesis =>
    rw [batchInPlace, DifferencesFit, lastFitting]
    rcases encoder.encode_cases value with
      ⟨fits, encoded, delta, isOk, isDelta⟩ | ⟨overflows, cause, isError⟩
    · obtain ⟨acceptedIff, keptLast, keptDelta⟩ :=
        inductionHypothesis { lastValue := some value, lastDelta := some delta }
      rw [isOk, if_pos fits]
      dsimp only
      rw [Option.getD_some, Option.getD_some, isDelta] at acceptedIff
      rw [Option.getD_some, Option.getD_some, isDelta] at keptLast keptDelta
      refine ⟨?_, ?_, ?_⟩
      · rw [exists_map_eq_ok_iff, acceptedIff]
        exact ⟨fun later => ⟨fits.1, fits.2, later⟩, fun all => all.2.2⟩
      · rw [keptLast]
        cases lastFitting value.toInt
            (value.toInt - (encoder.lastValue.getD 0).toInt) rest with
        | none => rfl
        | some last => rfl
      · rw [keptDelta]
        cases lastFitting value.toInt
            (value.toInt - (encoder.lastValue.getD 0).toInt) rest with
        | none => exact congrArg some isDelta
        | some last => rfl
    · rw [isError, if_neg overflows]
      exact ⟨iff_of_false (not_exists_error_eq_ok cause)
        (fun fits => overflows ⟨fits.1, fits.2.1⟩), rfl, rfl⟩

/--
A call leaves the encoder as it was unless it is a batch with a difference that
does not fit after values that move the encoder.
-/
def StaysInPlace (encoder : DeltaOfDeltaEncoder) : EncodeCall → Prop
  | .encode _ => True
  | .encodeBatch values =>
    DifferencesFit (encoder.lastValue.getD 0).toInt
        (encoder.lastDelta.getD 0).toInt values ∨
      ∀ last ∈ lastFitting (encoder.lastValue.getD 0).toInt
          (encoder.lastDelta.getD 0).toInt values,
        encoder.lastValue = some last.1 ∧
          encoder.lastDelta.map Int64.toInt = some last.2

theorem failsSafely_iff (encoder : DeltaOfDeltaEncoder) (call : EncodeCall) :
    FailsSafely encode encoder
        (DifferencesFit (encoder.lastValue.getD 0).toInt
          (encoder.lastDelta.getD 0).toInt call.values) call ↔
      encoder.StaysInPlace call := by
  cases call with
  | encode value =>
    refine iff_of_true (failsSafely_encode encode ?_) trivial
    intro cause failed
    rcases encoder.encode_cases value with
      ⟨_, encoded, delta, isOk, _⟩ | ⟨overflows, _, _⟩
    · rw [isOk] at failed
      cases failed
    · exact fun fits => overflows ⟨fits.1, fits.2.1⟩
  | encodeBatch values =>
    obtain ⟨acceptedIff, keptLast, keptDelta⟩ := encoder.batch_outcome values
    rw [EncodeCall.values, failsSafely_encodeBatch_iff encode acceptedIff,
      StaysInPlace]
    refine or_congr_right ?_
    constructor
    · intro same last isLast
      rw [same, isLast] at keptLast keptDelta
      exact ⟨keptLast, keptDelta⟩
    · intro stays
      cases fitting :
          lastFitting (encoder.lastValue.getD 0).toInt
            (encoder.lastDelta.getD 0).toInt values with
      | none =>
        rw [fitting] at keptLast keptDelta
        exact eq_of_same keptLast keptDelta
      | some last =>
        obtain ⟨sameLast, sameDelta⟩ := stays last fitting
        rw [fitting] at keptLast keptDelta
        exact eq_of_same (keptLast.trans sameLast.symm)
          (keptDelta.trans sameDelta.symm)

end DeltaOfDeltaEncoder

/--
Both codecs decode what they encode, for all values and in all calls and pieces.
A call that fails has a difference that does not fit, and leaves the encoder as
it was exactly when it is not a batch that moves the encoder first.
-/
theorem delta_codecs_lossless_iff (encoder : DeltaEncoder)
    (secondEncoder : DeltaOfDeltaEncoder) (call : EncodeCall) :
    DecodesBack DeltaEncoder.encode DeltaDecoder.advance .new .new ∧
      DecodesBack encode DeltaOfDeltaDecoder.advance
          .new .new ∧
        (FailsSafely DeltaEncoder.encode encoder
            (DeltaEncoder.DifferencesFit (encoder.lastValue.getD 0).toInt
              call.values) call ↔
          encoder.StaysInPlace call) ∧
          (FailsSafely encode secondEncoder
              (DifferencesFit (secondEncoder.lastValue.getD 0).toInt
                (secondEncoder.lastDelta.getD 0).toInt call.values) call ↔
            secondEncoder.StaysInPlace call) :=
  ⟨decodesBack_of_mirrors _ _ DeltaEncoder.mirrorsNext rfl,
    decodesBack_of_mirrors _ _ DeltaOfDeltaEncoder.mirrorsNext ⟨rfl, rfl⟩,
    encoder.failsSafely_iff call, secondEncoder.failsSafely_iff call⟩

/-- A batch whose second value is too far from its first one. -/
def overflowingBatch : EncodeCall :=
  .encodeBatch [5, -0x8000000000000000]

/-- A new encoder that fails on the batch has moved to its first value. -/
theorem overflowingBatch_moves_encoder :
    perform DeltaEncoder.encode .new overflowingBatch =
        (.error (.overflow "Delta encoding overflow"),
          { lastValue := some 5 }) ∧
      ¬FailsSafely DeltaEncoder.encode .new
        (DeltaEncoder.DifferencesFit 0 overflowingBatch.values)
        overflowingBatch := by
  have outcome :
      perform DeltaEncoder.encode .new overflowingBatch =
        (.error (.overflow "Delta encoding overflow"),
          { lastValue := some 5 }) := rfl
  refine ⟨outcome, ?_⟩
  intro safely
  obtain ⟨_, same⟩ :=
    safely (.overflow "Delta encoding overflow") (by rw [outcome])
  rw [outcome] at same
  exact absurd same (by decide)

end ChronoDB.Compression
