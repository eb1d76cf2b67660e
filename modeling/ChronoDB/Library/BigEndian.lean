import ChronoDB.Library.LittleEndian

namespace ChronoDB.Library

open List StateT

/-!
# Big-endian numbers at the front of a buffer

Numbers are written with the most significant byte first and read off the front
of a buffer.  A read past the end has no result.  A reading of fixed width is put
together from readings of fixed widths.
-/

/-- The lowest `width` bytes of a number, most significant first. -/
def beBytes (width value : ℕ) : Bytes :=
  (leBytes width value).reverse

/-- The number whose big-endian bytes are given. -/
def beValue (bytes : Bytes) : ℕ :=
  leValue bytes.reverse

@[simp] theorem length_beBytes (width value : ℕ) :
    (beBytes width value).length = width := by
  rw [beBytes, length_reverse, length_leBytes]

theorem beValue_beBytes (width value : ℕ) :
    beValue (beBytes width value) = value % 256 ^ width := by
  rw [beValue, beBytes, reverse_reverse, leValue_leBytes]

theorem beBytes_beValue (bytes : Bytes) :
    beBytes bytes.length (beValue bytes) = bytes := by
  rw [beBytes, beValue, ← length_reverse, leBytes_leValue, reverse_reverse]

theorem beValue_lt (bytes : Bytes) :
    beValue bytes < 256 ^ bytes.length := by
  have below := leValue_lt bytes.reverse
  rw [length_reverse] at below
  exact below

/-!
## Readings
-/

/-- Reading off the front of a buffer, without a result past its end. -/
abbrev Reading := StateT Bytes Option

/-- The number in the first bytes. -/
def getUint (width : ℕ) : Reading ℕ := fun buffer =>
  if buffer.length < width then none
  else some (beValue (buffer.take width), buffer.drop width)

theorem run_getUint (width : ℕ) (buffer : Bytes) :
    (getUint width).run buffer =
      if buffer.length < width then none
      else some (beValue (buffer.take width), buffer.drop width) :=
  rfl

theorem run_getUint_append
    {width : ℕ} {front : Bytes} (wide : front.length = width) (rest : Bytes) :
    (getUint width).run (front ++ rest) = some (beValue front, rest) := by
  subst wide
  rw [run_getUint, if_neg (by simp), take_left, drop_left]

variable {buffer rest : Bytes}

theorem eq_beBytes_of_run {width number : ℕ}
    (read : (getUint width).run buffer = some (number, rest)) :
    number < 256 ^ width ∧ buffer = beBytes width number ++ rest := by
  rw [run_getUint] at read
  split at read
  · cases read
  · next enough =>
    cases read
    have wide : (buffer.take width).length = width :=
      length_take_of_le (Nat.le_of_not_lt enough)
    have below := beValue_lt (buffer.take width)
    have isFront := beBytes_beValue (buffer.take width)
    rw [wide] at below isFront
    rw [isFront, take_append_drop]
    exact ⟨below, rfl⟩

/-- A reading takes a fixed number of bytes, if there are as many. -/
structure Takes {Result : Type} (width : ℕ)
    (reading : Reading Result) : Prop where
  enough :
    ∀ buffer : Bytes, width ≤ buffer.length →
      ∃ result, reading.run buffer = some (result, buffer.drop width)
  short : ∀ buffer : Bytes, buffer.length < width → reading.run buffer = none

theorem takes_getUint (width : ℕ) : Takes width (getUint width) where
  enough _ enough := ⟨_, if_neg (Nat.not_lt.mpr enough)⟩
  short _ short := if_pos short

namespace Takes

variable {First Result : Type}

theorem pure (result : Result) :
    Takes 0 (Pure.pure result : Reading Result) where
  enough _ _ := ⟨result, rfl⟩
  short _ short := (Nat.not_lt_zero _ short).elim

theorem bind
    {width later : ℕ} {reading : Reading First} {next : First → Reading Result}
    (takes : Takes width reading)
    (nextTakes : ∀ first, Takes later (next first)) :
    Takes (width + later) (reading >>= next) where
  enough buffer enough := by
    obtain ⟨first, isFirst⟩ := takes.enough buffer (by omega)
    obtain ⟨result, isResult⟩ :=
      (nextTakes first).enough (buffer.drop width) (by simp; omega)
    refine ⟨result, ?_⟩
    rw [run_bind, isFirst]
    exact isResult.trans (by rw [drop_drop])
  short buffer short := by
    rw [run_bind]
    by_cases enough : width ≤ buffer.length
    · obtain ⟨first, isFirst⟩ := takes.enough buffer enough
      rw [isFirst]
      exact (nextTakes first).short _ (by simp; omega)
    · rw [takes.short buffer (Nat.lt_of_not_le enough)]
      rfl

theorem map {width : ℕ} {reading : Reading First} (takes : Takes width reading)
    (transform : First → Result) :
    Takes width (transform <$> reading) where
  enough buffer enough := by
    obtain ⟨first, isFirst⟩ := takes.enough buffer enough
    refine ⟨transform first, ?_⟩
    rw [run_map, isFirst]
    rfl
  short buffer short := by
    rw [run_map, takes.short buffer short]
    rfl

end Takes

/-- A reading of some bytes has a result, and leaves what follows them. -/
def ReadsFront {Result : Type} (reading : Reading Result) (front : Bytes)
    (result : Result) :
    Prop :=
  ∀ rest, reading.run (front ++ rest) = some (result, rest)

namespace ReadsFront

variable {First Result : Type} {reading : Reading First}
variable {front : Bytes} {first : First}

theorem bind {next : First → Reading Result} {more : Bytes} {result : Result}
    (reads : ReadsFront reading front first)
    (nextReads : ReadsFront (next first) more result) :
    ReadsFront (reading >>= next) (front ++ more) result := by
  intro rest
  rw [run_bind, append_assoc, reads]
  exact nextReads rest

theorem map
    (reads : ReadsFront reading front first) (transform : First → Result) :
    ReadsFront (transform <$> reading) front (transform first) := by
  intro rest
  rw [run_map, reads]
  rfl

theorem bind_pure
    (reads : ReadsFront reading front first) (transform : First → Result) :
    ReadsFront (reading >>= fun first => pure (transform first)) front
      (transform first) := by
  rw [bind_pure_comp]
  exact reads.map transform

end ReadsFront

/-!
## Numbers of machine width
-/

def putU32 (value : UInt32) : Bytes :=
  beBytes 4 value.toNat

def putU64 (value : UInt64) : Bytes :=
  beBytes 8 value.toNat

def putI16 (value : Int16) : Bytes :=
  beBytes 2 value.toUInt16.toNat

def putI64 (value : Int64) : Bytes :=
  putU64 value.toUInt64

def getU8 : Reading UInt8 :=
  UInt8.ofNat <$> getUint 1

def getU32 : Reading UInt32 :=
  UInt32.ofNat <$> getUint 4

def getU64 : Reading UInt64 :=
  UInt64.ofNat <$> getUint 8

def getI16 : Reading Int16 :=
  (fun number => (UInt16.ofNat number).toInt16) <$> getUint 2

def getI64 : Reading Int64 :=
  UInt64.toInt64 <$> getU64

@[simp] theorem length_putU32 (value : UInt32) : (putU32 value).length = 4 :=
  length_beBytes 4 _

@[simp] theorem length_putU64 (value : UInt64) : (putU64 value).length = 8 :=
  length_beBytes 8 _

@[simp] theorem length_putI16 (value : Int16) : (putI16 value).length = 2 :=
  length_beBytes 2 _

@[simp] theorem length_putI64 (value : Int64) : (putI64 value).length = 8 :=
  length_putU64 _

theorem takes_getU8 : Takes 1 getU8 :=
  (takes_getUint 1).map _

theorem takes_getU32 : Takes 4 getU32 :=
  (takes_getUint 4).map _

theorem takes_getU64 : Takes 8 getU64 :=
  (takes_getUint 8).map _

theorem takes_getI64 : Takes 8 getI64 :=
  takes_getU64.map _

@[simp] theorem run_getU8_cons (byte : UInt8) (rest : Bytes) :
    getU8.run (byte :: rest) = some (byte, rest) := by
  have read := @run_getUint_append 1 [byte] rfl rest
  rw [getU8, run_map, ← singleton_append, read]
  simp [beValue]

@[simp] theorem run_getU32_putU32 (value : UInt32) (rest : Bytes) :
    getU32.run (putU32 value ++ rest) = some (value, rest) := by
  have fits : value.toNat < 256 ^ 4 := value.toNat_lt
  rw [getU32, run_map, run_getUint_append (length_putU32 value),
    putU32, beValue_beBytes, Nat.mod_eq_of_lt fits]
  simp

@[simp] theorem run_getU64_putU64 (value : UInt64) (rest : Bytes) :
    getU64.run (putU64 value ++ rest) = some (value, rest) := by
  have fits : value.toNat < 256 ^ 8 := value.toNat_lt
  rw [getU64, run_map, run_getUint_append (length_putU64 value),
    putU64, beValue_beBytes, Nat.mod_eq_of_lt fits]
  simp

@[simp] theorem run_getI16_putI16 (value : Int16) (rest : Bytes) :
    getI16.run (putI16 value ++ rest) = some (value, rest) := by
  have fits : value.toUInt16.toNat < 256 ^ 2 := value.toUInt16.toNat_lt
  rw [getI16, run_map, run_getUint_append (length_putI16 value),
    putI16, beValue_beBytes, Nat.mod_eq_of_lt fits]
  change some ((UInt16.ofNat value.toUInt16.toNat).toInt16, rest) = _
  rw [UInt16.ofNat_toNat, Int16.toInt16_toUInt16]

@[simp] theorem run_getI64_putI64 (value : Int64) (rest : Bytes) :
    getI64.run (putI64 value ++ rest) = some (value, rest) := by
  rw [getI64, run_map, putI64, run_getU64_putU64]
  simp

theorem readsFront_byte (byte : UInt8) : ReadsFront getU8 [byte] byte :=
  run_getU8_cons byte

theorem readsFront_putU32 (value : UInt32) :
    ReadsFront getU32 (putU32 value) value :=
  run_getU32_putU32 value

theorem readsFront_putU64 (value : UInt64) :
    ReadsFront getU64 (putU64 value) value :=
  run_getU64_putU64 value

theorem readsFront_putI64 (value : Int64) :
    ReadsFront getI64 (putI64 value) value :=
  run_getI64_putI64 value

theorem eq_putU32_of_run
    {value : UInt32} (read : getU32.run buffer = some (value, rest)) :
    buffer = putU32 value ++ rest := by
  rw [getU32, run_map, Option.map_eq_map, Option.map_eq_some_iff] at read
  obtain ⟨⟨number, others⟩, isNumber, same⟩ := read
  cases same
  obtain ⟨fits, isFront⟩ := eq_beBytes_of_run isNumber
  rw [isFront, putU32, UInt32.toNat_ofNat_of_lt' fits]

theorem eq_putU64_of_run
    {value : UInt64} (read : getU64.run buffer = some (value, rest)) :
    buffer = putU64 value ++ rest := by
  rw [getU64, run_map, Option.map_eq_map, Option.map_eq_some_iff] at read
  obtain ⟨⟨number, others⟩, isNumber, same⟩ := read
  cases same
  obtain ⟨fits, isFront⟩ := eq_beBytes_of_run isNumber
  rw [isFront, putU64, UInt64.toNat_ofNat_of_lt' fits]

theorem eq_putI64_of_run
    {value : Int64} (read : getI64.run buffer = some (value, rest)) :
    buffer = putI64 value ++ rest := by
  rw [getI64, run_map, Option.map_eq_map, Option.map_eq_some_iff] at read
  obtain ⟨⟨number, others⟩, isNumber, same⟩ := read
  cases same
  rw [eq_putU64_of_run isNumber, putI64, UInt64.toUInt64_toInt64]

theorem eq_putI16_of_run
    {value : Int16} (read : getI16.run buffer = some (value, rest)) :
    buffer = putI16 value ++ rest := by
  rw [getI16, run_map, Option.map_eq_map, Option.map_eq_some_iff] at read
  obtain ⟨⟨number, others⟩, isNumber, same⟩ := read
  cases same
  obtain ⟨fits, isFront⟩ := eq_beBytes_of_run isNumber
  rw [isFront, putI16, UInt16.toUInt16_toInt16, UInt16.toNat_ofNat_of_lt' fits]

end ChronoDB.Library
