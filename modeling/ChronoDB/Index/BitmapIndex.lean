import Mathlib.Data.Fintype.EquivFin
import ChronoDB.Index.Bitmap
import ChronoDB.Library.FiniteMap

namespace ChronoDB.Index

open Library List

/-!
# The bitmap index

The index takes the ids of its series to be the numbers below a count, and
narrows them to 32 bits.
-/

structure BitmapIndex where
  index : FiniteMap String (FiniteMap String RoaringBitmap)
  seriesCount : ℕ

namespace BitmapIndex

def new : BitmapIndex where
  index := ∅
  seriesCount := 0

/-- One step of the loop in `add_series`. -/
def addLabel
    (id : UInt32) (index : FiniteMap String (FiniteMap String RoaringBitmap))
    (label : String × String) :
    FiniteMap String (FiniteMap String RoaringBitmap) :=
  let nameIndex := (index.lookup label.1).getD ∅
  let bitmap := (nameIndex.lookup label.2).getD .new
  index.insert label.1 (nameIndex.insert label.2 (bitmap.add id))

/-- The count of the series; one more than the largest id overflows. -/
def addSeries (index : BitmapIndex) (seriesId : TimeSeriesId)
    (labels : List (String × String)) :
    Except Fault BitmapIndex :=
  let id := seriesId.toUInt32
  if 2 ^ 64 ≤ seriesId.toNat + 1 then
    .error .panic
  else
    .ok {
      index := labels.foldl (addLabel id) index.index
      seriesCount := max index.seriesCount (seriesId.toNat + 1)
    }

/-- The bitmap of a label. -/
def bitmapOf (index : FiniteMap String (FiniteMap String RoaringBitmap))
    (name value : String) :
    RoaringBitmap :=
  ((index.lookup name).bind (·.lookup value)).getD .new

def queryEqual (index : BitmapIndex) (name value : String) : RoaringBitmap :=
  bitmapOf index.index name value

def getAllSeries (index : BitmapIndex) : RoaringBitmap :=
  (List.range index.seriesCount).foldl
    (fun all number => all.add (UInt32.ofNat number)) .new

def queryNotEqual (index : BitmapIndex) (name value : String) :
    Except Fault RoaringBitmap := do
  let all := index.getAllSeries
  let equal := index.queryEqual name value
  let complement ← equal.not (UInt32.ofNat index.seriesCount)
  .ok (all.and complement)

end BitmapIndex

structure AddCall where
  seriesId : TimeSeriesId
  labels : List (String × String)
  deriving Repr, DecidableEq

namespace AddCall

def addAll (calls : List AddCall) : Except Fault BitmapIndex :=
  calls.foldlM
    (fun index call => index.addSeries call.seriesId call.labels) .new

def Added (calls : List AddCall) (seriesId : TimeSeriesId) : Prop :=
  ∃ call ∈ calls, call.seriesId = seriesId

def Carries (calls : List AddCall) (seriesId : TimeSeriesId)
    (label : String × String) : Prop :=
  ∃ call ∈ calls, call.seriesId = seriesId ∧ label ∈ call.labels

/-- A query for all series without a label returns exactly these. -/
def FindsOthers (calls : List AddCall) : Prop :=
  ∃ index,
    addAll calls = .ok index ∧
      ∀ name value,
        ∃ others,
          index.queryNotEqual name value = .ok others ∧
            ∀ seriesId : TimeSeriesId,
              (∃ number : UInt32,
                  others.contains number = true ∧ number.toUInt64 = seriesId) ↔
                Added calls seriesId ∧ ¬Carries calls seriesId (name, value)

/-- The ids are the numbers below a count that fits and is no bad bound. -/
def Dense (calls : List AddCall) : Prop :=
  ∃ count,
    count < 2 ^ 32 ∧ count % 64 ≠ 63 ∧
      ∀ seriesId, Added calls seriesId ↔ seriesId.toNat < count

end AddCall

/-!
## What the index holds after a sequence of calls
-/

namespace BitmapIndex

theorem bitmapOf_addLabel
    (id : UInt32) (index : FiniteMap String (FiniteMap String RoaringBitmap))
    (label : String × String) (name value : String) :
    bitmapOf (addLabel id index label) name value =
      if label = (name, value) then (bitmapOf index name value).add id
      else bitmapOf index name value := by
  obtain ⟨ownName, ownValue⟩ := label
  rw [bitmapOf, bitmapOf, addLabel]
  by_cases sameName : ownName = name
  · subst sameName
    rw [AList.lookup_insert, Option.bind_some]
    by_cases sameValue : ownValue = value
    · subst sameValue
      rw [AList.lookup_insert, if_pos rfl]
      cases index.lookup ownName <;> rfl
    · have differs : (ownName, ownValue) ≠ (ownName, value) := fun same =>
        sameValue (Prod.mk.inj same).2
      rw [AList.lookup_insert_ne (Ne.symm sameValue), if_neg differs]
      cases index.lookup ownName <;> rfl
  · have differs : (ownName, ownValue) ≠ (name, value) := fun same =>
      sameName (Prod.mk.inj same).1
    rw [AList.lookup_insert_ne (Ne.symm sameName), if_neg differs]

theorem bits_foldl_addLabel (id : UInt32) (labels : List (String × String))
    (index : FiniteMap String (FiniteMap String RoaringBitmap))
    (name value : String) (fits : (bitmapOf index name value).Fits) :
    (bitmapOf (labels.foldl (addLabel id) index) name value).Fits ∧
      ∀ number,
        rowBit (bitmapOf (labels.foldl (addLabel id) index) name value).bits
            number = true ↔
          rowBit (bitmapOf index name value).bits number = true ∨
            (name, value) ∈ labels ∧ id.toNat = number := by
  induction labels generalizing index with
  | nil =>
    exact ⟨fits, fun number => by simp⟩
  | cons label rest inductionHypothesis =>
    have first := bitmapOf_addLabel id index label name value
    rw [foldl_cons]
    by_cases same : label = (name, value)
    · rw [if_pos same] at first
      have fitsNow : (bitmapOf (addLabel id index label) name value).Fits :=
        first ▸ fits.add id
      obtain ⟨fitsLater, bits⟩ := inductionHypothesis _ fitsNow
      refine ⟨fitsLater, fun number => ?_⟩
      rw [bits, first, RoaringBitmap.rowBit_add, Bool.or_eq_true,
        decide_eq_true_iff, mem_cons, same]
      tauto
    · rw [if_neg same] at first
      have fitsNow : (bitmapOf (addLabel id index label) name value).Fits :=
        first ▸ fits
      obtain ⟨fitsLater, bits⟩ := inductionHypothesis _ fitsNow
      refine ⟨fitsLater, fun number => ?_⟩
      rw [bits, first, mem_cons, or_iff_right (Ne.symm same)]

structure BuiltBy (index : BitmapIndex) (calls : List AddCall) : Prop where
  below : ∀ call ∈ calls, call.seriesId.toNat < index.seriesCount
  reached :
    index.seriesCount = 0 ∨
      ∃ call ∈ calls, call.seriesId.toNat + 1 = index.seriesCount
  countFits : index.seriesCount < 2 ^ 64
  fits : ∀ name value, (index.queryEqual name value).Fits
  bits : ∀ name value (number : ℕ),
    rowBit (index.queryEqual name value).bits number = true ↔
      ∃ call ∈ calls,
        (name, value) ∈ call.labels ∧ call.seriesId.toUInt32.toNat = number

theorem builtBy_new : new.BuiltBy [] where
  below := fun call isCall => by cases isCall
  reached := .inl rfl
  countFits := by decide
  fits := fun name value => RoaringBitmap.fits_new
  bits := by
    intro name value number
    have isNew : new.queryEqual name value = .new := rfl
    rw [isNew, RoaringBitmap.new, rowBit, getD_nil, wordBit_zero]
    simp

theorem BuiltBy.addSeries
    {index after : BitmapIndex} {calls : List AddCall} {call : AddCall}
    (builtBy : index.BuiltBy calls)
    (added : index.addSeries call.seriesId call.labels = .ok after) :
    after.BuiltBy (calls ++ [call]) := by
  rw [BitmapIndex.addSeries] at added
  split at added
  · cases added
  · next countFits =>
    cases added
    have labelBits (name value : String) :=
      bits_foldl_addLabel call.seriesId.toUInt32 call.labels index.index
        name value (builtBy.fits name value)
    refine ⟨?_, .inr ?_, ?_, ?_, ?_⟩
    · intro other isCall
      rcases mem_append.mp isCall with isOld | isNew
      · exact (builtBy.below other isOld).trans_le (Nat.le_max_left _ _)
      · rw [mem_singleton.mp isNew]
        exact Nat.lt_of_lt_of_le (Nat.lt_succ_self _) (Nat.le_max_right _ _)
    · rcases Nat.le_total (call.seriesId.toNat + 1) index.seriesCount with
        isOld | isNew
      · rcases builtBy.reached with noCount | ⟨other, isCall, isLast⟩
        · omega
        · refine ⟨other, mem_append_left _ isCall, ?_⟩
          rw [Nat.max_eq_left isOld]
          exact isLast
      · refine ⟨call, mem_append_right _ (mem_singleton_self _), ?_⟩
        exact (Nat.max_eq_right isNew).symm
    · exact Nat.max_lt.mpr ⟨builtBy.countFits, Nat.lt_of_not_le countFits⟩
    · exact fun name value => (labelBits name value).1
    · intro name value number
      rw [queryEqual, (labelBits name value).2 number]
      refine (or_congr_left (builtBy.bits name value number)).trans ?_
      simp only [mem_append, mem_singleton, or_and_right, exists_or,
        exists_eq_left]

/-- All calls one after another. -/
theorem BuiltBy.addAll {index final : BitmapIndex} {done calls : List AddCall}
    (builtBy : index.BuiltBy done)
    (added :
      calls.foldlM
        (fun index call => index.addSeries call.seriesId call.labels) index =
        .ok final) :
    final.BuiltBy (done ++ calls) := by
  induction calls generalizing index done with
  | nil =>
    cases added
    rw [append_nil]
    exact builtBy
  | cons call rest inductionHypothesis =>
    rw [foldlM_cons] at added
    obtain ⟨middle, isMiddle, added⟩ := bind_eq_ok_iff.mp added
    rw [append_cons]
    exact inductionHypothesis (builtBy.addSeries isMiddle) added

theorem rowBit_getAllSeries (index : BitmapIndex) (number : UInt32) :
    rowBit index.getAllSeries.bits number.toNat = true ↔
      number.toNat < index.seriesCount := by
  rw [getAllSeries]
  induction index.seriesCount with
  | zero =>
    rw [range_zero, foldl_nil, RoaringBitmap.new, rowBit,
      getD_nil, wordBit_zero]
    exact iff_of_false Bool.false_ne_true (Nat.not_lt_zero _)
  | succ count inductionHypothesis =>
    have below := number.toNat_lt
    rw [range_succ, foldl_append, foldl_cons, foldl_nil,
      RoaringBitmap.rowBit_add, Bool.or_eq_true, inductionHypothesis,
      decide_eq_true_iff, UInt32.toNat_ofNat']
    omega

theorem contains_queryNotEqual
    {index : BitmapIndex} {name value : String} {others : RoaringBitmap}
    (queried : index.queryNotEqual name value = .ok others) (number : UInt32) :
    others.contains number = true ↔
      number.toNat < index.seriesCount ∧
        number.toNat ≤ index.seriesCount % 2 ^ 32 ∧
          ¬rowBit (index.queryEqual name value).bits number.toNat = true := by
  obtain ⟨complement, isComplement, same⟩ := bind_eq_ok_iff.mp queried
  cases same
  rw [RoaringBitmap.contains_eq, RoaringBitmap.rowBit_and, Bool.and_eq_true,
    rowBit_getAllSeries, RoaringBitmap.rowBit_not isComplement,
    Bool.and_eq_true, decide_eq_true_iff, Bool.not_eq_true',
    ← Bool.not_eq_true, UInt32.toNat_ofNat']

theorem exists_queryNotEqual_iff (index : BitmapIndex) (name value : String) :
    (∃ others, index.queryNotEqual name value = .ok others) ↔
      index.seriesCount % 64 ≠ 63 := by
  have sameBit :
      (UInt32.ofNat index.seriesCount).toNat % 64 = index.seriesCount % 64 := by
    rw [UInt32.toNat_ofNat']
    omega
  rw [← sameBit,
    ← (index.queryEqual name value).exists_not_iff
      (UInt32.ofNat index.seriesCount)]
  constructor
  · rintro ⟨_, queried⟩
    obtain ⟨complement, isComplement, _⟩ := bind_eq_ok_iff.mp queried
    exact ⟨complement, isComplement⟩
  · rintro ⟨complement, isComplement⟩
    exact ⟨_, bind_eq_ok_iff.mpr ⟨complement, isComplement, rfl⟩⟩

end BitmapIndex

namespace AddCall

theorem exists_addAll_iff (calls : List AddCall) :
    (∃ index, addAll calls = .ok index) ↔
      ∀ call ∈ calls, call.seriesId.toNat + 1 < 2 ^ 64 := by
  refine exists_foldlM_iff (fun index call => ?_) BitmapIndex.new calls
  rw [BitmapIndex.addSeries]
  split
  · next tooLarge =>
    exact iff_of_false (fun ⟨_, isOk⟩ => by cases isOk)
      (Nat.not_lt.mpr tooLarge)
  · next fits =>
    exact iff_of_true ⟨_, rfl⟩ (Nat.lt_of_not_le fits)

theorem exists_unused_label (calls : List AddCall) :
    ∃ name, ∀ seriesId, ¬Carries calls seriesId (name, "") := by
  obtain ⟨name, isNew⟩ := Infinite.exists_notMem_finset
    (calls.flatMap fun call => call.labels.map Prod.fst).toFinset
  refine ⟨name, ?_⟩
  rintro seriesId ⟨call, isCall, _, isLabel⟩
  exact isNew (mem_toFinset.mpr (mem_flatMap.mpr
    ⟨call, isCall, mem_map.mpr ⟨_, isLabel, rfl⟩⟩))

theorem Dense.findsOthers {calls : List AddCall} (dense : Dense calls) :
    FindsOthers calls := by
  obtain ⟨count, countFits, goodBound, isAdded⟩ := dense
  have idBelow {call : AddCall} (isCall : call ∈ calls) :
      call.seriesId.toNat < count :=
    (isAdded _).mp ⟨call, isCall, rfl⟩
  obtain ⟨index, added⟩ := (exists_addAll_iff calls).mpr fun call isCall => by
    have below := idBelow isCall
    omega
  have builtBy : index.BuiltBy calls := BitmapIndex.builtBy_new.addAll added
  have isCount : index.seriesCount = count := by
    apply le_antisymm
    · rcases builtBy.reached with noCount | ⟨call, isCall, isLast⟩
      · omega
      · have below := idBelow isCall
        omega
    · by_contra tooLarge
      have lastFits : count - 1 < 2 ^ 64 := by omega
      obtain ⟨call, isCall, isLast⟩ :=
        (isAdded (UInt64.ofNat (count - 1))).mpr (by
          rw [UInt64.toNat_ofNat_of_lt' lastFits]
          omega)
      have below := builtBy.below call isCall
      rw [isLast, UInt64.toNat_ofNat_of_lt' lastFits] at below
      omega
  refine ⟨index, added, fun name value => ?_⟩
  obtain ⟨others, queried⟩ :=
    (index.exists_queryNotEqual_iff name value).mpr (isCount ▸ goodBound)
  refine ⟨others, queried, fun seriesId => ?_⟩
  have carried (number : UInt32) :
      rowBit (index.queryEqual name value).bits number.toNat = true ↔
        Carries calls number.toUInt64 (name, value) := by
    rw [builtBy.bits]
    refine exists_congr fun call => and_congr_right fun isCall => ?_
    rw [and_comm]
    refine and_congr_left fun _ => ?_
    have below := idBelow isCall
    rw [← UInt64.toNat_inj, UInt64.toNat_toUInt32, UInt32.toNat_toUInt64,
      Nat.mod_eq_of_lt (by omega)]
  constructor
  · rintro ⟨number, isFound, rfl⟩
    rw [BitmapIndex.contains_queryNotEqual queried, carried, isCount] at isFound
    obtain ⟨below, _, notCarried⟩ := isFound
    refine ⟨(isAdded _).mpr ?_, notCarried⟩
    rw [UInt32.toNat_toUInt64]
    exact below
  · rintro ⟨isSeries, notCarried⟩
    have below := (isAdded seriesId).mp isSeries
    have narrowed : seriesId.toUInt32.toUInt64 = seriesId := by
      rw [← UInt64.toNat_inj, UInt32.toNat_toUInt64, UInt64.toNat_toUInt32]
      exact Nat.mod_eq_of_lt (by omega)
    refine ⟨seriesId.toUInt32, ?_, narrowed⟩
    rw [BitmapIndex.contains_queryNotEqual queried, carried, isCount, narrowed,
      UInt64.toNat_toUInt32]
    refine ⟨?_, ?_, notCarried⟩ <;> omega

theorem dense_of_findsOthers
    {calls : List AddCall} (finds : FindsOthers calls) :
    Dense calls := by
  obtain ⟨index, added, answers⟩ := finds
  have builtBy : index.BuiltBy calls := BitmapIndex.builtBy_new.addAll added
  obtain ⟨name, unused⟩ := exists_unused_label calls
  obtain ⟨others, queried, isOther⟩ := answers name ""
  have found (number : UInt32) :
      others.contains number = true ↔
        number.toNat < index.seriesCount ∧
          number.toNat ≤ index.seriesCount % 2 ^ 32 := by
    rw [BitmapIndex.contains_queryNotEqual queried]
    refine and_congr_right fun _ => and_iff_left ?_
    rw [builtBy.bits]
    rintro ⟨call, isCall, isLabel, _⟩
    exact unused call.seriesId ⟨call, isCall, rfl, isLabel⟩
  -- The series with the largest id is found, so nothing is cut off.
  have countFits : index.seriesCount < 2 ^ 32 := by
    rcases builtBy.reached with noCount | ⟨call, isCall, isLast⟩
    · omega
    · obtain ⟨number, isFound, isNumber⟩ :=
        (isOther call.seriesId).mpr ⟨⟨call, isCall, rfl⟩, unused call.seriesId⟩
      have below := number.toNat_lt
      have inBound := ((found number).mp isFound).2
      rw [← isNumber, UInt32.toNat_toUInt64] at isLast
      omega
  refine ⟨index.seriesCount, countFits,
    (index.exists_queryNotEqual_iff name "").mp ⟨others, queried⟩,
    fun seriesId => ?_⟩
  constructor
  · rintro ⟨call, isCall, rfl⟩
    exact builtBy.below call isCall
  · intro below
    refine ((isOther seriesId).mp ⟨seriesId.toUInt32, ?_, ?_⟩).1
    · rw [found, UInt64.toNat_toUInt32]
      omega
    · rw [← UInt64.toNat_inj, UInt32.toNat_toUInt64, UInt64.toNat_toUInt32]
      exact Nat.mod_eq_of_lt (by omega)

end AddCall

/--
A bitmap agrees with its set exactly when no bound of a complement ends a word,
and the index finds the series without a label exactly when the ids are dense.
-/
theorem bitmaps_are_sets_iff (bitmap : BitmapExpr) (calls : List AddCall) :
    (bitmap.Agrees ↔ bitmap.Inside) ∧
      (AddCall.FindsOthers calls ↔ AddCall.Dense calls) :=
  ⟨bitmap.agrees_iff, AddCall.dense_of_findsOthers, AddCall.Dense.findsOthers⟩

/-- The complement up to 63 panics, and a lone series 1 brings a series 0. -/
theorem bitmaps_differ_from_sets :
    ¬(BitmapExpr.not .new 63).Agrees ∧
      ¬AddCall.FindsOthers [⟨1, [("job", "prometheus")]⟩] := by
  constructor
  · rw [BitmapExpr.agrees_iff]
    rintro ⟨_, inside⟩
    exact inside rfl
  · intro finds
    obtain ⟨count, _, _, isAdded⟩ := AddCall.dense_of_findsOthers finds
    have below : (1 : TimeSeriesId).toNat < count :=
      (isAdded 1).mp ⟨_, mem_singleton_self _, rfl⟩
    obtain ⟨call, isCall, isFirst⟩ := (isAdded 0).mpr (Nat.zero_lt_of_lt below)
    rw [mem_singleton.mp isCall] at isFirst
    cases isFirst

end ChronoDB.Index
