import ChronoDB.Library.FallibleFold
import ChronoDB.Library.FiniteMap
import ChronoDB.Model.Types
import Mathlib.Data.List.Dedup

namespace ChronoDB.Compression

open Library List

/-!
# Dictionaries of strings

A dictionary numbers its strings in the order of their first insertion.  It is a
vector and a hash table that must stay inverse, also through a format in which
each string follows its length.  The reader of that format leaves trailing bytes
alone and takes repeated strings for one.
-/

structure Dictionary where
  strings : List String
  indices : FiniteMap String UInt32

namespace Dictionary

def new : Dictionary where
  strings := []
  indices := ∅

/-- The index of a string, which is added if it is new. -/
def insert (dict : Dictionary) (s : String) : UInt32 × Dictionary :=
  match dict.indices.lookup s with
  | some idx => (idx, dict)
  | none =>
    let idx := UInt32.ofNat dict.strings.length
    (idx, {
      strings := dict.strings ++ [s]
      indices := dict.indices.insert s idx
    })

def get (dict : Dictionary) (idx : UInt32) : Option String :=
  dict.strings[idx.toNat]?

def getIndex (dict : Dictionary) (s : String) : Option UInt32 :=
  dict.indices.lookup s

def len (dict : Dictionary) : ℕ :=
  dict.strings.length

/-!
## Lists of strings
-/

def encode (dict : Dictionary) : List String → Except Error Bytes
  | [] => .ok []
  | s :: rest =>
    match dict.indices.lookup s with
    | none => .error (.invalidData ("String not found in dictionary: " ++ s))
    | some idx => do
      let later ← dict.encode rest
      .ok (leBytes 4 idx.toNat ++ later)

/-- The loop of `decode` over chunks of four bytes. -/
def decodeChunks (dict : Dictionary) : Bytes → Except Fault (List String)
  | [] => .ok []
  | b0 :: b1 :: b2 :: b3 :: rest =>
    let idx := UInt32.ofNat (leValue [b0, b1, b2, b3])
    match dict.get idx with
    | none =>
      .error (.error (.invalidData
        ("Invalid dictionary index: " ++ toString idx.toNat)))
    | some s => do
      let later ← dict.decodeChunks rest
      .ok (s :: later)
  -- the last chunk has no fourth byte to index
  | _ => .error .panic

def decode (dict : Dictionary) (data : Bytes) : Except Fault (List String) :=
  if data.length % 4 ≠ 0 then
    .error (.error (.invalidData "Invalid dictionary encoded data length"))
  else
    dict.decodeChunks data

/-!
## The whole dictionary
-/

/-- A string after its length, which is cut to 32 bits. -/
def stringField (s : String) : Bytes :=
  leBytes 4 (stringBytes s).length ++ stringBytes s

def stringsFile (strings : List String) : Bytes :=
  leBytes 4 strings.length ++ strings.flatMap stringField

/-- `serialize`, which never fails. -/
def serialize (dict : Dictionary) : Bytes :=
  stringsFile dict.strings

/-- `u32::from_le_bytes` of four bytes; indexing beyond the end panics. -/
def indexU32 (data : Bytes) (pos : ℕ) : Except Fault ℕ :=
  if pos + 4 ≤ data.length then
    .ok (leValue ((data.drop pos).take 4))
  else
    .error .panic

/-- `data[pos..pos + length]`, which panics beyond the end. -/
def sliceOf (data : Bytes) (pos length : ℕ) : Except Fault Bytes :=
  if pos + length ≤ data.length then
    .ok ((data.drop pos).take length)
  else
    .error .panic

def endOfData : Fault :=
  .error (.invalidData "Unexpected end of dictionary data")

/-- The loop of `deserialize`; `utf8Error` writes out why bytes are no text. -/
def deserializeFrom (utf8Error : Bytes → String) (data : Bytes) :
    ℕ → ℕ → Dictionary → Except Fault Dictionary
  | 0, _, dict => .ok dict
  | count + 1, pos, dict =>
    if data.length < pos + 4 then
      .error endOfData
    else do
      let strLen ← indexU32 data pos
      if data.length < pos + 4 + strLen then
        .error endOfData
      else do
        let bytes ← sliceOf data (pos + 4) strLen
        match String.fromUTF8? ⟨bytes.toArray⟩ with
        | none =>
          .error (.error (.invalidData
            ("Invalid UTF-8 string: " ++ utf8Error bytes)))
        | some s =>
          deserializeFrom utf8Error data count (pos + 4 + strLen)
            (dict.insert s).2

def deserialize (utf8Error : Bytes → String) (data : Bytes) :
    Except Fault Dictionary :=
  if data.length < 4 then
    .error (.error (.invalidData "Dictionary data too short"))
  else do
    let count ← indexU32 data 0
    deserializeFrom utf8Error data count 4 .new

/-!
## The vector and the hash table
-/

/-- The hash table has the position of every string and nothing else. -/
structure Consistent (dict : Dictionary) : Prop where
  distinct : dict.strings.Nodup
  indexed :
    ∀ s idx,
      dict.getIndex s = some idx ↔
        ∃ position,
          dict.strings[position]? = some s ∧ UInt32.ofNat position = idx

theorem consistent_new : Consistent new where
  distinct := nodup_nil
  indexed := by
    intro s idx
    simp [getIndex, new]

variable {dict : Dictionary} (utf8Error : Bytes → String) {data rest : Bytes}
  {pos : ℕ} {s : String} {idx : UInt32}

theorem Consistent.not_mem
    (consistent : dict.Consistent) (missing : dict.indices.lookup s = none) :
    s ∉ dict.strings := by
  intro member
  obtain ⟨position, isAt⟩ := mem_iff_getElem?.mp member
  have found := (consistent.indexed s _).mpr ⟨position, isAt, rfl⟩
  rw [getIndex, missing] at found
  cases found

theorem Consistent.mem
    (consistent : dict.Consistent) (found : dict.indices.lookup s = some idx) :
    s ∈ dict.strings := by
  obtain ⟨position, isAt, _⟩ := (consistent.indexed s idx).mp found
  exact mem_of_getElem? isAt

theorem Consistent.insert (consistent : dict.Consistent) (s : String) :
    (dict.insert s).2.Consistent := by
  rw [Dictionary.insert]
  split
  · exact consistent
  · rename_i missing
    have notThere := consistent.not_mem missing
    refine ⟨?_, fun other idx => ?_⟩
    · rw [nodup_append]
      refine ⟨consistent.distinct, nodup_singleton s, ?_⟩
      rintro first member second isSecond rfl
      rw [mem_singleton.mp isSecond] at member
      exact notThere member
    · rw [getIndex]
      by_cases same : other = s
      · subst same
        rw [AList.lookup_insert, Option.some.injEq]
        constructor
        · rintro rfl
          exact ⟨dict.strings.length, getElem?_concat_length, rfl⟩
        · rintro ⟨position, isAt, rfl⟩
          rw [getElem?_append] at isAt
          split at isAt
          · exact absurd (mem_of_getElem? isAt) notThere
          · obtain ⟨inside, _⟩ := List.getElem?_eq_some_iff.mp isAt
            rw [length_singleton] at inside
            congr 1
            omega
      · rw [AList.lookup_insert_ne same]
        refine (consistent.indexed other idx).trans
          (exists_congr fun position => and_congr_left fun _ => ?_)
        rw [getElem?_append]
        split
        · exact Iff.rfl
        · rename_i beyond
          rw [getElem?_eq_none (Nat.le_of_not_lt beyond)]
          refine iff_of_false (fun isAt => by cases isAt) fun isAt => ?_
          exact same (mem_singleton.mp (mem_of_getElem? isAt))

theorem Consistent.mem_insert_iff
    (consistent : dict.Consistent) (s other : String) :
    other ∈ (dict.insert s).2.strings ↔ other ∈ dict.strings ∨ other = s := by
  rw [Dictionary.insert]
  split
  · rename_i idx found
    refine (or_iff_left_of_imp ?_).symm
    rintro rfl
    exact consistent.mem found
  · rw [mem_append, mem_singleton]

theorem prefix_insert (dict : Dictionary) (s : String) :
    dict.strings <+: (dict.insert s).2.strings := by
  rw [Dictionary.insert]
  split
  · exact prefix_refl _
  · exact prefix_append _ _

theorem insert_of_found (found : dict.getIndex s = some idx) :
    dict.insert s = (idx, dict) := by
  rw [getIndex] at found
  rw [Dictionary.insert, found]

theorem getIndex_insert (dict : Dictionary) (s : String) :
    (dict.insert s).2.getIndex s = some (dict.insert s).1 := by
  rw [Dictionary.insert]
  split
  · rename_i found
    exact found
  · exact AList.lookup_insert _

/-- The dictionary after some insertions. -/
def insertAll (dict : Dictionary) (strings : List String) : Dictionary :=
  strings.foldl (fun dict s => (dict.insert s).2) dict

theorem insertAll_cons (dict : Dictionary) (s : String) (rest : List String) :
    dict.insertAll (s :: rest) = (dict.insert s).2.insertAll rest :=
  rfl

theorem Consistent.insertAll
    (consistent : dict.Consistent) (strings : List String) :
    (dict.insertAll strings).Consistent := by
  induction strings generalizing dict with
  | nil => exact consistent
  | cons s rest inductionHypothesis =>
    exact inductionHypothesis (consistent.insert s)

theorem Consistent.mem_insertAll_iff
    (consistent : dict.Consistent) (strings : List String) (other : String) :
    other ∈ (dict.insertAll strings).strings ↔
      other ∈ dict.strings ∨ other ∈ strings := by
  induction strings generalizing dict with
  | nil => exact (or_iff_left not_mem_nil).symm
  | cons s rest inductionHypothesis =>
    rw [insertAll_cons, inductionHypothesis (consistent.insert s),
      consistent.mem_insert_iff, mem_cons, or_assoc]

theorem prefix_insertAll (dict : Dictionary) (strings : List String) :
    dict.strings <+: (dict.insertAll strings).strings := by
  induction strings generalizing dict with
  | nil => exact prefix_refl _
  | cons s rest inductionHypothesis =>
    exact (prefix_insert dict s).trans (inductionHypothesis _)

theorem Consistent.getIndex_eq_some_iff
    (consistent : dict.Consistent) (few : dict.len < 2 ^ 32) (s : String)
    (idx : UInt32) :
    dict.getIndex s = some idx ↔ dict.get idx = some s := by
  rw [consistent.indexed, get]
  constructor
  · rintro ⟨position, isAt, rfl⟩
    obtain ⟨inside, _⟩ := List.getElem?_eq_some_iff.mp isAt
    have fits : position < 2 ^ 32 := inside.trans few
    rwa [UInt32.toNat_ofNat', Nat.mod_eq_of_lt fits]
  · intro isAt
    exact ⟨idx.toNat, isAt, UInt32.ofNat_toNat⟩

/-!
## Decoding
-/

/-- Some indices of a dictionary, one after the other. -/
def IndicesOf (dict : Dictionary) (data : Bytes) : Prop :=
  ∃ indices : List UInt32,
    data = indices.flatMap (fun idx => leBytes 4 idx.toNat) ∧
      ∀ idx ∈ indices, idx.toNat < dict.len

theorem decodeChunks_cases (dict : Dictionary) (data : Bytes) :
    (∃ strings, dict.decodeChunks data = .ok strings ∧ dict.IndicesOf data) ∨
      (∃ cause, dict.decodeChunks data = .error (.error cause)) ∨
        data.length % 4 ≠ 0 := by
  fun_induction decodeChunks dict data with
  | case1 => exact .inl ⟨[], rfl, [], rfl, forall_mem_nil _⟩
  | case2 b0 b1 b2 b3 rest idx missing => exact .inr (.inl ⟨_, rfl⟩)
  | case3 b0 b1 b2 b3 rest idx s found inductionHypothesis =>
    rcases inductionHypothesis with
      ⟨strings, isOk, indices, rfl, inside⟩ | ⟨cause, isError⟩ | odd
    · refine .inl ⟨s :: strings, ?_, idx :: indices, ?_, ?_⟩
      · rw [isOk]
        rfl
      · have isIndex : leBytes 4 idx.toNat = [b0, b1, b2, b3] := by
          have bound : leValue [b0, b1, b2, b3] < 2 ^ 32 :=
            (leValue_lt _).trans_eq (show 256 ^ 4 = 2 ^ 32 by norm_num)
          change leBytes 4 (UInt32.ofNat _).toNat = _
          rw [UInt32.toNat_ofNat', Nat.mod_eq_of_lt bound]
          exact leBytes_leValue [b0, b1, b2, b3]
        rw [flatMap_cons, isIndex]
        rfl
      · rw [forall_mem_cons]
        exact ⟨(List.getElem?_eq_some_iff.mp found).1, inside⟩
    · refine .inr (.inl ⟨cause, ?_⟩)
      rw [isError]
      rfl
    · refine .inr (.inr ?_)
      simp only [length_cons]
      omega
  | case4 data notEmpty notLong =>
    refine .inr (.inr ?_)
    rcases data with _ | ⟨b0, _ | ⟨b1, _ | ⟨b2, _ | ⟨b3, rest⟩⟩⟩⟩
    · exact absurd rfl notEmpty
    · simp
    · simp
    · simp
    · exact absurd rfl (notLong b0 b1 b2 b3 rest)

theorem decode_cases (dict : Dictionary) (data : Bytes) :
    (∃ strings, dict.decode data = .ok strings ∧ dict.IndicesOf data) ∨
      ∃ cause, dict.decode data = .error (.error cause) := by
  rw [decode]
  split
  · exact .inr ⟨_, rfl⟩
  · rename_i even
    rcases decodeChunks_cases dict data with isOk | isError | odd
    · exact .inl isOk
    · exact .inr isError
    · exact absurd odd even

theorem Consistent.decode_encode
    (consistent : dict.Consistent) (few : dict.len < 2 ^ 32)
    {strings : List String} (known : ∀ s ∈ strings, s ∈ dict.strings) :
    ∃ data, dict.encode strings = .ok data ∧ dict.decode data = .ok strings := by
  have chunks :
      ∃ data,
        dict.encode strings = .ok data ∧ data.length % 4 = 0 ∧
          dict.decodeChunks data = .ok strings := by
    induction strings with
    | nil => exact ⟨[], rfl, rfl, rfl⟩
    | cons s rest inductionHypothesis =>
      obtain ⟨knownFirst, knownRest⟩ := forall_mem_cons.mp known
      obtain ⟨later, isLater, whole, decodes⟩ := inductionHypothesis knownRest
      obtain ⟨position, isAt⟩ := mem_iff_getElem?.mp knownFirst
      have found :=
        (consistent.indexed s (UInt32.ofNat position)).mpr ⟨position, isAt, rfl⟩
      have isGet := (consistent.getIndex_eq_some_iff few s _).mp found
      rw [getIndex] at found
      refine ⟨leBytes 4 (UInt32.ofNat position).toNat ++ later, ?_, ?_, ?_⟩
      · rw [encode, found, isLater]
        rfl
      · rw [length_append, length_leBytes]
        omega
      · have isValue :
            leValue (leBytes 4 (UInt32.ofNat position).toNat) =
              (UInt32.ofNat position).toNat :=
          leValue_leBytes_of_lt (UInt32.ofNat position).toNat_lt
        rw [leBytes, leBytes, leBytes, leBytes, leBytes_zero] at isValue ⊢
        rw [cons_append, cons_append, cons_append,
          cons_append, nil_append, decodeChunks]
        rw [isValue, UInt32.ofNat_toNat, isGet, decodes]
        rfl
  obtain ⟨data, isData, whole, decodes⟩ := chunks
  refine ⟨data, isData, ?_⟩
  rw [decode, if_neg (not_not.mpr whole)]
  exact decodes

/-!
## Reading a file
-/

/-- The bytes of a string fit their length field. -/
def Short (s : String) : Prop :=
  (stringBytes s).length < 2 ^ 32

theorem fromUTF8_eq_some_iff {bytes : Bytes} {s : String} :
    String.fromUTF8? ⟨bytes.toArray⟩ = some s ↔ bytes = stringBytes s := by
  rw [String.fromUTF8?, stringBytes]
  constructor
  · intro isText
    split at isText
    · cases isText
      rfl
    · cases isText
  · rintro rfl
    change (if isValid : s.toByteArray.IsValidUTF8 then
      some (String.ofByteArray s.toByteArray isValid) else none) = some s
    rw [dif_pos s.isValidUTF8]

theorem stringBytes_injective : Function.Injective stringBytes := by
  intro first second same
  have isFirst := fromUTF8_eq_some_iff.mpr same
  rw [fromUTF8_eq_some_iff.mpr rfl, Option.some.injEq] at isFirst
  exact isFirst

theorem indexU32_of_drop {pos number : ℕ} (fits : number < 2 ^ 32)
    (isRest : data.drop pos = leBytes 4 number ++ rest) :
    indexU32 data pos = .ok number := by
  have bytes := congrArg List.length isRest
  rw [length_drop, length_append, length_leBytes] at bytes
  rw [indexU32, if_pos (by omega), isRest,
    take_left' (length_leBytes 4 number),
    leValue_leBytes_of_lt (show number < 256 ^ 4 from fits)]

theorem drop_of_stringField (isRest : data.drop pos = stringField s ++ rest) :
    pos + 4 + (stringBytes s).length ≤ data.length ∧
      data.drop (pos + 4) = stringBytes s ++ rest ∧
        data.drop (pos + 4 + (stringBytes s).length) = rest := by
  have bytes := congrArg List.length isRest
  rw [length_drop, length_append, stringField, length_append,
    length_leBytes] at bytes
  have afterLength : data.drop (pos + 4) = stringBytes s ++ rest := by
    rw [← drop_drop, isRest, stringField, append_assoc,
      drop_left' (length_leBytes 4 _)]
  refine ⟨by omega, afterLength, ?_⟩
  rw [← drop_drop, afterLength, drop_left]

theorem deserializeFrom_of_stringField
    (short : Short s) (isRest : data.drop pos = stringField s ++ rest)
    (count : ℕ) (dict : Dictionary) :
    deserializeFrom utf8Error data (count + 1) pos dict =
      deserializeFrom utf8Error data count
        (pos + 4 + (stringBytes s).length) (dict.insert s).2 := by
  obtain ⟨inside, afterLength, _⟩ := drop_of_stringField isRest
  rw [stringField, append_assoc] at isRest
  rw [deserializeFrom, if_neg (by omega), indexU32_of_drop short isRest]
  change (if data.length < _ then _ else _) = _
  rw [if_neg (by omega), sliceOf, if_pos inside, afterLength, take_left]
  change (match String.fromUTF8? _ with | none => _ | some s => _) = _
  rw [fromUTF8_eq_some_iff.mpr rfl]

theorem stringField_of_text {data : Bytes}
    (inside : pos + 4 + leValue ((data.drop pos).take 4) ≤ data.length)
    (isText :
      (data.drop (pos + 4)).take (leValue ((data.drop pos).take 4)) =
        stringBytes s) :
    Short s ∧ ∃ rest, data.drop pos = stringField s ++ rest := by
  have fourBytes : ((data.drop pos).take 4).length = 4 := by
    rw [length_take, length_drop]
    omega
  have bound := leValue_lt ((data.drop pos).take 4)
  have lengthBytes := leBytes_leValue ((data.drop pos).take 4)
  rw [fourBytes] at bound lengthBytes
  have sameLength :
      leValue ((data.drop pos).take 4) = (stringBytes s).length := by
    rw [← isText, length_take, length_drop]
    omega
  refine ⟨?_, data.drop (pos + 4 + (stringBytes s).length), ?_⟩
  · rw [Short, ← sameLength]
    exact bound
  · rw [stringField, ← sameLength, lengthBytes, ← isText, append_assoc, ←
      drop_drop, ← drop_drop, ← drop_drop, take_append_drop, take_append_drop]

theorem stringField_or_error
    (data : Bytes) (count pos : ℕ) (dict : Dictionary) :
    (∃ s rest, Short s ∧ data.drop pos = stringField s ++ rest) ∨
      ∃ cause,
        deserializeFrom utf8Error data (count + 1) pos dict =
          .error (.error cause) := by
  rw [deserializeFrom]
  split
  · exact .inr ⟨_, rfl⟩
  · rename_i hasLength
    rw [indexU32, if_pos (Nat.le_of_not_lt hasLength)]
    change _ ∨ ∃ cause, (if data.length < _ then _ else _) = _
    split
    · exact .inr ⟨_, rfl⟩
    · rename_i hasBytes
      have inside := Nat.le_of_not_lt hasBytes
      rw [sliceOf, if_pos inside]
      dsimp only [bind, Except.bind]
      split
      · exact .inr ⟨_, rfl⟩
      · rename_i s isText
        obtain ⟨short, rest, isRest⟩ :=
          stringField_of_text inside (fromUTF8_eq_some_iff.mp isText)
        exact .inl ⟨s, rest, short, isRest⟩

theorem deserializeFrom_eq_ok_iff
    {utf8Error : Bytes → String} {data : Bytes} {count pos : ℕ}
    {dict result : Dictionary} :
    deserializeFrom utf8Error data count pos dict = .ok result ↔
      ∃ strings rest,
        strings.length = count ∧
          data.drop pos = strings.flatMap stringField ++ rest ∧
            (∀ s ∈ strings, Short s) ∧ result = dict.insertAll strings := by
  induction count generalizing pos dict with
  | zero =>
    rw [deserializeFrom]
    constructor
    · intro isOk
      cases isOk
      exact ⟨[], data.drop pos, rfl, rfl, forall_mem_nil _, rfl⟩
    · rintro ⟨strings, rest, isEmpty, _, _, rfl⟩
      rw [length_eq_zero_iff.mp isEmpty]
      rfl
  | succ count inductionHypothesis =>
    constructor
    · intro isOk
      rcases stringField_or_error utf8Error data count pos dict with
        ⟨s, after, short, isField⟩ | ⟨cause, isError⟩
      · rw [deserializeFrom_of_stringField utf8Error short isField] at isOk
        obtain ⟨strings, rest, isCount, isRest, areShort, isResult⟩ :=
          inductionHypothesis.mp isOk
        refine ⟨s :: strings, rest, congrArg Nat.succ isCount, ?_,
          forall_mem_cons.mpr ⟨short, areShort⟩, isResult⟩
        rw [(drop_of_stringField isField).2.2] at isRest
        rw [isField, isRest, flatMap_cons, append_assoc]
      · rw [isError] at isOk
        cases isOk
    · rintro ⟨strings, rest, isCount, isRest, areShort, rfl⟩
      cases strings with
      | nil => cases isCount
      | cons s strings =>
        obtain ⟨short, areShort⟩ := forall_mem_cons.mp areShort
        rw [flatMap_cons, append_assoc] at isRest
        rw [deserializeFrom_of_stringField utf8Error short isRest]
        exact inductionHypothesis.mpr ⟨strings, rest,
          Nat.succ.inj isCount, (drop_of_stringField isRest).2.2,
          areShort, rfl⟩

theorem deserializeFrom_ne_panic
    (data : Bytes) (count pos : ℕ) (dict : Dictionary) :
    deserializeFrom utf8Error data count pos dict ≠ .error .panic := by
  induction count generalizing pos dict with
  | zero =>
    intro panics
    cases panics
  | succ count inductionHypothesis =>
    intro panics
    rcases stringField_or_error utf8Error data count pos dict with
      ⟨s, rest, short, isField⟩ | ⟨cause, isError⟩
    · rw [deserializeFrom_of_stringField utf8Error short isField] at panics
      exact inductionHypothesis _ _ panics
    · rw [isError] at panics
      cases panics

theorem deserialize_eq_ok_iff
    {utf8Error : Bytes → String} {data : Bytes} {result : Dictionary} :
    deserialize utf8Error data = .ok result ↔
      ∃ strings rest,
        strings.length < 2 ^ 32 ∧
          (∀ s ∈ strings, Short s) ∧
            data = stringsFile strings ++ rest ∧
              result = new.insertAll strings := by
  rw [deserialize]
  constructor
  · intro isOk
    split at isOk
    · cases isOk
    · rename_i hasCount
      have inside : 0 + 4 ≤ data.length := by omega
      rw [indexU32, if_pos inside, drop_zero] at isOk
      obtain ⟨count, isCount, isOk⟩ := bind_eq_ok_iff.mp isOk
      cases isCount
      obtain ⟨strings, rest, sameCount, isRest, short, isResult⟩ :=
        deserializeFrom_eq_ok_iff.mp isOk
      have fourBytes : (data.take 4).length = 4 := by
        rw [length_take]
        omega
      have bound := leValue_lt (data.take 4)
      have countBytes := leBytes_leValue (data.take 4)
      rw [fourBytes, ← sameCount] at bound countBytes
      refine ⟨strings, rest, bound, short, ?_, isResult⟩
      rw [stringsFile, append_assoc, ← isRest, countBytes, take_append_drop]
  · rintro ⟨strings, rest, few, short, rfl, rfl⟩
    have isFront :
        (stringsFile strings ++ rest).drop 0 =
          leBytes 4 strings.length ++
            (strings.flatMap stringField ++ rest) := by
      rw [drop_zero, stringsFile, append_assoc]
    have isRest :
        (stringsFile strings ++ rest).drop 4 =
          strings.flatMap stringField ++ rest := by
      rw [stringsFile, append_assoc, drop_left' (length_leBytes 4 _)]
    have hasCount : ¬(stringsFile strings ++ rest).length < 4 := by
      rw [stringsFile, length_append, length_append, length_leBytes]
      omega
    rw [if_neg hasCount, indexU32_of_drop few isFront]
    refine bind_eq_ok_iff.mpr ⟨_, rfl, ?_⟩
    exact deserializeFrom_eq_ok_iff.mpr ⟨strings, rest, rfl, isRest, short, rfl⟩

theorem deserialize_cases (utf8Error : Bytes → String) (data : Bytes) :
    (∃ result, deserialize utf8Error data = .ok result) ∨
      ∃ cause, deserialize utf8Error data = .error (.error cause) := by
  have noPanic : deserialize utf8Error data ≠ .error .panic := by
    rw [deserialize]
    split
    · intro panics
      cases panics
    · rw [indexU32, if_pos (by omega)]
      exact deserializeFrom_ne_panic utf8Error data _ _ _
  cases outcome : deserialize utf8Error data with
  | ok result => exact .inl ⟨result, rfl⟩
  | error fault =>
    cases fault with
    | panic => exact absurd outcome noPanic
    | error cause => exact .inr ⟨cause, rfl⟩

theorem stringField_append_inj
    {first second : String} {rest others : Bytes} (firstShort : Short first)
    (secondShort : Short second)
    (same : stringField first ++ rest = stringField second ++ others) :
    first = second ∧ rest = others := by
  rw [stringField, stringField, append_assoc, append_assoc] at same
  obtain ⟨sameLength, same⟩ :=
    append_inj same (by rw [length_leBytes, length_leBytes])
  have bytes := congrArg leValue sameLength
  rw [leValue_leBytes_of_lt (show _ < 256 ^ 4 from firstShort),
    leValue_leBytes_of_lt (show _ < 256 ^ 4 from secondShort)] at bytes
  obtain ⟨sameBytes, sameRest⟩ := append_inj same bytes
  exact ⟨stringBytes_injective sameBytes, sameRest⟩

theorem stringsFile_append_inj
    {strings others : List String} {rest otherRest : Bytes}
    (few : strings.length < 2 ^ 32) (otherFew : others.length < 2 ^ 32)
    (short : ∀ s ∈ strings, Short s) (otherShort : ∀ s ∈ others, Short s)
    (same : stringsFile strings ++ rest = stringsFile others ++ otherRest) :
    strings = others ∧ rest = otherRest := by
  rw [stringsFile, stringsFile, append_assoc, append_assoc] at same
  obtain ⟨sameCount, sameFields⟩ :=
    append_inj same (by rw [length_leBytes, length_leBytes])
  have count := congrArg leValue sameCount
  rw [leValue_leBytes_of_lt (show _ < 256 ^ 4 from few),
    leValue_leBytes_of_lt (show _ < 256 ^ 4 from otherFew)] at count
  clear few otherFew same sameCount
  induction strings generalizing others with
  | nil =>
    obtain rfl := length_eq_zero_iff.mp count.symm
    exact ⟨rfl, sameFields⟩
  | cons s strings inductionHypothesis =>
    cases others with
    | nil => cases count
    | cons other others =>
      obtain ⟨sShort, stringsShort⟩ := forall_mem_cons.mp short
      obtain ⟨oneShort, othersShort⟩ := forall_mem_cons.mp otherShort
      rw [flatMap_cons, flatMap_cons, append_assoc, append_assoc] at sameFields
      obtain ⟨rfl, sameLater⟩ :=
        stringField_append_inj sShort oneShort sameFields
      obtain ⟨rfl, sameRest⟩ :=
        inductionHypothesis stringsShort othersShort sameLater
          (Nat.succ.inj count)
      exact ⟨rfl, sameRest⟩

/-- A file of different strings with nothing after them. -/
def WellFormed (data : Bytes) : Prop :=
  ∃ strings : List String,
    strings.Nodup ∧
      strings.length < 2 ^ 32 ∧
        (∀ s ∈ strings, Short s) ∧ data = stringsFile strings

/-- A file with a repeated string, or with more bytes after its strings. -/
def Loose (data : Bytes) : Prop :=
  ∃ (strings : List String) (rest : Bytes),
    strings.length < 2 ^ 32 ∧
      (∀ s ∈ strings, Short s) ∧
        data = stringsFile strings ++ rest ∧ (rest ≠ [] ∨ ¬strings.Nodup)

theorem wellFormed_or_refused_iff (data : Bytes) :
    (WellFormed data ∨
        ∃ cause, deserialize utf8Error data = .error (.error cause)) ↔
      ¬Loose data := by
  constructor
  · rintro (⟨strings, distinct, few, short, rfl⟩ | ⟨cause, isError⟩)
    · rintro ⟨others, rest, otherFew, otherShort, same, isLoose⟩
      rw [← append_nil (stringsFile strings)] at same
      obtain ⟨rfl, rfl⟩ :=
        stringsFile_append_inj few otherFew short otherShort same
      exact isLoose.elim (· rfl) (· distinct)
    · rintro ⟨strings, rest, few, short, isFile, _⟩
      have isOk :=
        (@deserialize_eq_ok_iff utf8Error data _).mpr
          ⟨strings, rest, few, short, isFile, rfl⟩
      rw [isError] at isOk
      cases isOk
  · intro notLoose
    refine (deserialize_cases utf8Error data).imp_left ?_
    rintro ⟨result, isOk⟩
    obtain ⟨strings, rest, few, short, isFile, _⟩ :=
      deserialize_eq_ok_iff.mp isOk
    by_cases distinct : strings.Nodup
    · by_cases nothing : rest = []
      · exact ⟨strings, distinct, few, short,
          by rw [isFile, nothing, append_nil]⟩
      · exact absurd ⟨strings, rest, few, short, isFile, .inl nothing⟩ notLoose
    · exact absurd ⟨strings, rest, few, short, isFile, .inr distinct⟩ notLoose

/-!
## Dictionaries after insertions
-/

/-- The strings and the numbers from zero on are in bijection. -/
structure InverseMaps (inserted : List String) : Prop where
  inverse :
    ∀ s idx,
      (new.insertAll inserted).getIndex s = some idx ↔
        (new.insertAll inserted).get idx = some s
  known : ∀ s, ((new.insertAll inserted).getIndex s).isSome ↔ s ∈ inserted
  numbered :
    ∀ idx,
      ((new.insertAll inserted).get idx).isSome ↔
        idx.toNat < (new.insertAll inserted).len
  counted : (new.insertAll inserted).len = inserted.dedup.length
  returned :
    ∀ before s after,
      inserted = before ++ s :: after →
        (new.insertAll inserted).get
            ((new.insertAll before).insert s).1 = some s
  again :
    ∀ s ∈ inserted, ∃ idx,
      (new.insertAll inserted).get idx = some s ∧
        (new.insertAll inserted).insert s = (idx, new.insertAll inserted)

/-- Two dictionaries map the same numbers to the same strings. -/
def SameMapping (first second : Dictionary) : Prop :=
  (∀ idx, first.get idx = second.get idx) ∧
    ∀ s, first.getIndex s = second.getIndex s

theorem mem_strings_iff (inserted : List String) (s : String) :
    s ∈ (new.insertAll inserted).strings ↔ s ∈ inserted :=
  (consistent_new.mem_insertAll_iff inserted s).trans (or_iff_right not_mem_nil)

theorem len_insertAll (inserted : List String) :
    (new.insertAll inserted).len = inserted.dedup.length := by
  refine List.Perm.length_eq
    ((perm_ext_iff_of_nodup
      (consistent_new.insertAll inserted).distinct
      inserted.nodup_dedup).mpr fun s => ?_)
  rw [mem_strings_iff, mem_dedup]

theorem get_insertAll (isAt : dict.get idx = some s) (strings : List String) :
    (dict.insertAll strings).get idx = some s := by
  obtain ⟨rest, isAll⟩ := prefix_insertAll dict strings
  obtain ⟨inside, _⟩ := List.getElem?_eq_some_iff.mp isAt
  rw [get, ← isAll, getElem?_append_left inside]
  exact isAt

theorem inverseMaps_of_few
    {inserted : List String} (few : inserted.dedup.length < 2 ^ 32) :
    InverseMaps inserted := by
  have consistent := consistent_new.insertAll inserted
  rw [← len_insertAll] at few
  have inverse := consistent.getIndex_eq_some_iff few
  have isKnown :
      ∀ s ∈ inserted, ∃ idx, (new.insertAll inserted).getIndex s = some idx := by
    intro s member
    obtain ⟨position, isAt⟩ :=
      mem_iff_getElem?.mp ((mem_strings_iff inserted s).mpr member)
    exact ⟨_, (consistent.indexed s _).mpr ⟨position, isAt, rfl⟩⟩
  refine ⟨inverse, fun s => ?_, fun idx => ?_, len_insertAll inserted, ?_, ?_⟩
  · rw [Option.isSome_iff_exists, ← mem_strings_iff]
    constructor
    · rintro ⟨idx, found⟩
      exact consistent.mem found
    · intro member
      exact isKnown s ((mem_strings_iff inserted s).mp member)
  · rw [get, isSome_getElem?, len]
  · rintro before s after rfl
    have isAll :
        new.insertAll (before ++ s :: after) =
          ((new.insertAll before).insert s).2.insertAll after := by
      rw [insertAll, foldl_append]
      rfl
    have consistentThen := (consistent_new.insertAll before).insert s
    have fewThen : ((new.insertAll before).insert s).2.len < 2 ^ 32 := by
      rw [isAll] at few
      exact (prefix_insertAll _ after).length_le.trans_lt few
    rw [isAll]
    exact get_insertAll
      ((consistentThen.getIndex_eq_some_iff fewThen s _).mp
        (getIndex_insert _ s)) after
  · intro s member
    obtain ⟨idx, found⟩ := isKnown s member
    exact ⟨idx, (inverse s idx).mp found, insert_of_found found⟩

theorem Consistent.strings_insertAll
    (consistent : dict.Consistent) {strings : List String}
    (distinct : (dict.strings ++ strings).Nodup) :
    (dict.insertAll strings).strings = dict.strings ++ strings := by
  induction strings generalizing dict with
  | nil => exact (append_nil _).symm
  | cons s rest inductionHypothesis =>
    have isNew : dict.indices.lookup s = none := by
      cases found : dict.indices.lookup s with
      | none => rfl
      | some idx =>
        have apart := (nodup_append.mp distinct).2.2
        exact absurd rfl (apart s (consistent.mem found) s mem_cons_self)
    have isStrings : (dict.insert s).2.strings = dict.strings ++ [s] := by
      rw [Dictionary.insert, isNew]
    rw [insertAll_cons, inductionHypothesis (consistent.insert s),
      isStrings, append_assoc, singleton_append]
    rwa [isStrings, append_assoc, singleton_append]

theorem restored_iff
    {inserted : List String} (few : inserted.dedup.length < 2 ^ 32) :
    (∃ restored,
        deserialize utf8Error (new.insertAll inserted).serialize =
            .ok restored ∧
          SameMapping restored (new.insertAll inserted)) ↔
      ∀ s ∈ inserted, Short s := by
  have consistent := consistent_new.insertAll inserted
  have fewStrings := few
  rw [← len_insertAll] at fewStrings
  constructor
  · rintro ⟨restored, isOk, sameGet, sameIndex⟩ s member
    obtain ⟨strings, rest, _, short, _, rfl⟩ := deserialize_eq_ok_iff.mp isOk
    have isKnown := ((inverseMaps_of_few few).known s).mpr member
    rw [← sameIndex, Option.isSome_iff_exists] at isKnown
    obtain ⟨idx, found⟩ := isKnown
    have inVector := (consistent_new.insertAll strings).mem found
    exact short s ((mem_strings_iff strings s).mp inVector)
  · intro short
    have shortStrings : ∀ s ∈ (new.insertAll inserted).strings, Short s :=
      fun s member => short s ((mem_strings_iff inserted s).mp member)
    have isOk :=
      (@deserialize_eq_ok_iff utf8Error
        (new.insertAll inserted).serialize _).mpr
        ⟨(new.insertAll inserted).strings, [], fewStrings, shortStrings,
          (append_nil _).symm, rfl⟩
    have sameStrings :
        (new.insertAll (new.insertAll inserted).strings).strings =
          (new.insertAll inserted).strings :=
      consistent_new.strings_insertAll consistent.distinct
    have sameGet :
        ∀ idx,
          (new.insertAll (new.insertAll inserted).strings).get idx =
            (new.insertAll inserted).get idx := by
      intro idx
      rw [get, get, sameStrings]
    refine ⟨_, isOk, sameGet, fun s => ?_⟩
    have consistentAgain :=
      consistent_new.insertAll (new.insertAll inserted).strings
    have fewAgain :
        (new.insertAll (new.insertAll inserted).strings).len < 2 ^ 32 := by
      rwa [len, sameStrings]
    refine Option.ext fun idx => ?_
    rw [consistentAgain.getIndex_eq_some_iff fewAgain,
      consistent.getIndex_eq_some_iff fewStrings, sameGet]

/--
After some insertions the maps are inverse, lists of inserted strings and the
dictionary come back from their bytes, and only an encoding is not refused.
-/
structure CodesExactly
    (utf8Error : Bytes → String) (inserted : List String) (data : Bytes) :
    Prop where
  inverse : InverseMaps inserted
  decoded :
    ∀ strings : List String,
      (∀ s ∈ strings, s ∈ inserted) →
        ∃ encoded,
          (new.insertAll inserted).encode strings = .ok encoded ∧
            (new.insertAll inserted).decode encoded = .ok strings
  restored :
    ∃ restored,
      deserialize utf8Error (new.insertAll inserted).serialize = .ok restored ∧
        SameMapping restored (new.insertAll inserted)
  refusesFile :
    WellFormed data ∨
      ∃ cause, deserialize utf8Error data = .error (.error cause)
  refusesIndices :
    (new.insertAll inserted).IndicesOf data ∨
      ∃ cause, (new.insertAll inserted).decode data = .error (.error cause)

/--
A dictionary codes exactly when its strings have less than 4 GiB, as far as the
data has neither repeated strings nor bytes after them.
-/
theorem dictionary_codes_exactly_iff (utf8Error : Bytes → String)
    {inserted : List String} (few : inserted.dedup.length < 2 ^ 32)
    (data : Bytes) :
    CodesExactly utf8Error inserted data ↔
      (∀ s ∈ inserted, Short s) ∧ ¬Loose data := by
  constructor
  · intro codes
    exact ⟨(restored_iff utf8Error few).mp codes.restored,
      (wellFormed_or_refused_iff utf8Error data).mp codes.refusesFile⟩
  · rintro ⟨short, notLoose⟩
    have fewStrings := few
    rw [← len_insertAll] at fewStrings
    refine ⟨inverseMaps_of_few few, fun strings known => ?_,
      (restored_iff utf8Error few).mpr short,
      (wellFormed_or_refused_iff utf8Error data).mpr notLoose, ?_⟩
    · exact (consistent_new.insertAll inserted).decode_encode fewStrings
        fun s member => (mem_strings_iff inserted s).mpr (known s member)
    · refine (decode_cases (new.insertAll inserted) data).imp_left ?_
      rintro ⟨strings, _, areIndices⟩
      exact areIndices

theorem two_strings_code_exactly :
    CodesExactly (fun _ => "") ["up", "job"] [1, 2] := by
  refine (dictionary_codes_exactly_iff (fun _ => "")
    (show ["up", "job"].dedup.length < 2 ^ 32 by decide) [1, 2]).mpr
    ⟨?_, ?_⟩
  · rw [forall_mem_cons, forall_mem_singleton]
    exact ⟨by rw [Short]; decide, by rw [Short]; decide⟩
  · rintro ⟨strings, rest, _, _, isFile, _⟩
    have bytes := congrArg List.length isFile
    rw [stringsFile, length_append, length_append, length_leBytes] at bytes
    simp only [length_cons, length_nil] at bytes
    omega

/-- A file that has one string twice is read as a dictionary of one string. -/
theorem repeated_string_is_read :
    deserialize (fun _ => "") (stringsFile ["up", "up"]) =
        .ok (new.insertAll ["up", "up"]) ∧
      (new.insertAll ["up", "up"]).len = 1 ∧
        ¬CodesExactly (fun _ => "") [] (stringsFile ["up", "up"]) := by
  have few : ["up", "up"].length < 2 ^ 32 := by decide
  have short : ∀ s ∈ ["up", "up"], Short s := by
    rw [forall_mem_cons, forall_mem_singleton]
    exact ⟨by rw [Short]; decide, by rw [Short]; decide⟩
  have isFile : stringsFile ["up", "up"] = stringsFile ["up", "up"] ++ [] :=
    (append_nil _).symm
  refine ⟨deserialize_eq_ok_iff.mpr
    ⟨_, [], few, short, isFile, rfl⟩, by decide, fun codes => ?_⟩
  exact (wellFormed_or_refused_iff _ _).mp codes.refusesFile
    ⟨_, [], few, short, isFile, .inr (by decide)⟩

end Dictionary

end ChronoDB.Compression
