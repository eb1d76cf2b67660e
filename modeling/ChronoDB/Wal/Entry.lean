import ChronoDB.Library.Codec
import ChronoDB.Model.Types

namespace ChronoDB.Wal

open Library

/-!
# Write-ahead log entries

An entry is stored as a sixteen byte header followed by its JSON body.  The
header carries the magic number, the entry type, the body length and a checksum
of the body.  The length field has thirty-two bits, so a longer body is stored
under its length modulo `2 ^ 32`.
-/

inductive WalEntryType where
  | write
  | delete
  | series
  | tombstone
  | checkpoint
  deriving Repr, DecidableEq

namespace WalEntryType

def toU8 : WalEntryType → UInt8
  | write => 1
  | delete => 2
  | series => 3
  | tombstone => 4
  | checkpoint => 5

def tryFrom (value : UInt8) : Except Error WalEntryType :=
  match value.toNat with
  | 1 => .ok write
  | 2 => .ok delete
  | 3 => .ok series
  | 4 => .ok tombstone
  | 5 => .ok checkpoint
  | other => .error (.wal ("Invalid WAL entry type: " ++ toString other))

@[simp] theorem tryFrom_toU8 (entryType : WalEntryType) :
    tryFrom entryType.toU8 = .ok entryType := by
  cases entryType <;> rfl

end WalEntryType

structure WalEntry where
  entryType : WalEntryType
  seriesId : TimeSeriesId
  labels : Option Labels
  samples : List Sample
  timestamp : Timestamp
  deriving Repr, DecidableEq

/-- The parts of entry encoding that come from other crates. -/
structure WalCodec where
  json : Codec Error WalEntry
  crc32 : Bytes → UInt32

/-- The bytes of a string between two positions. -/
def slice (data : Bytes) (start stop : ℕ) : Bytes :=
  (data.drop start).take (stop - start)

def walMagic : ℕ := 0x4348524F

def walEntryHeaderSize : ℕ := 16

namespace WalEntry

/-- `WalEntry::write`, with the wall-clock reading it takes. -/
def write (seriesId : TimeSeriesId) (labels : Labels) (samples : List Sample)
    (now : Timestamp) :
    WalEntry where
  entryType := .write
  seriesId := seriesId
  labels := some labels
  samples := samples
  timestamp := now

/-- `WalEntry::delete`, with the wall-clock reading it takes. -/
def delete (seriesId : TimeSeriesId) (now : Timestamp) : WalEntry where
  entryType := .delete
  seriesId := seriesId
  labels := none
  samples := []
  timestamp := now

variable (codec : WalCodec)

def body (entry : WalEntry) : Bytes :=
  codec.json.encode entry

/-- The sixteen bytes in front of the body. -/
def header (entry : WalEntry) : Bytes :=
  leBytes 4 walMagic ++
    (entry.entryType.toU8 :: 0 :: 0 :: 0 ::
      (leBytes 4 (entry.body codec).length ++
        leBytes 4 (codec.crc32 (entry.body codec)).toNat))

def encode (entry : WalEntry) : Bytes :=
  entry.header codec ++ entry.body codec

def decode (data : Bytes) : Except Error WalEntry :=
  if data.length < walEntryHeaderSize then
    .error (.wal "WAL entry too short")
  else if leValue (slice data 0 4) ≠ walMagic then
    .error (.wal "Invalid WAL magic number")
  else
    match WalEntryType.tryFrom (data.getD 4 0) with
    | .error cause => .error cause
    | .ok _ =>
      let dataLen := leValue (slice data 8 12)
      let expectedCrc := leValue (slice data 12 16)
      if data.length < walEntryHeaderSize + dataLen then
        .error (.wal "WAL entry truncated")
      else
        let entryData :=
          slice data walEntryHeaderSize (walEntryHeaderSize + dataLen)
        if expectedCrc ≠ (codec.crc32 entryData).toNat then
          .error (.wal "WAL entry CRC mismatch")
        else
          codec.json.decode entryData

/-- The length that the header of an entry records for its body. -/
def recordedLength (entry : WalEntry) : ℕ :=
  (entry.body codec).length % 2 ^ 32

/-- The body of an entry fits the length field of its header. -/
def Recordable (entry : WalEntry) : Prop :=
  (entry.body codec).length < 2 ^ 32

instance (entry : WalEntry) : Decidable (entry.Recordable codec) :=
  inferInstanceAs (Decidable (_ < _))

@[simp] theorem length_header (entry : WalEntry) :
    (entry.header codec).length = walEntryHeaderSize := by
  simp [header, walEntryHeaderSize]

@[simp] theorem length_encode (entry : WalEntry) :
    (entry.encode codec).length =
      walEntryHeaderSize + (entry.body codec).length := by
  simp [encode]

theorem recordedLength_of_recordable
    {entry : WalEntry} (recordable : entry.Recordable codec) :
    entry.recordedLength codec = (entry.body codec).length :=
  Nat.mod_eq_of_lt recordable

theorem recordedLength_lt
    {entry : WalEntry} (oversized : ¬ entry.Recordable codec) :
    entry.recordedLength codec < (entry.body codec).length := by
  have large : 2 ^ 32 ≤ (entry.body codec).length := not_lt.mp oversized
  have bounded : entry.recordedLength codec < 2 ^ 32 :=
    Nat.mod_lt _ (by norm_num)
  omega

theorem length_field (entry : WalEntry) (rest : Bytes) :
    leValue (slice (entry.header codec ++ rest) 8 12) =
      entry.recordedLength codec := by
  have field :
      slice (entry.header codec ++ rest) 8 12 =
        leBytes 4 (entry.body codec).length := by
    simp [slice, header, List.drop_append]
  rw [field, leValue_leBytes]
  rfl

/--
Decoding a header followed by as many bytes as it records compares the
checksums and hands the bytes to the JSON decoder.
-/
theorem decode_header_append (entry : WalEntry) {data : Bytes}
    (recorded : data.length = entry.recordedLength codec) :
    decode codec (entry.header codec ++ data) =
      if (codec.crc32 (entry.body codec)).toNat ≠ (codec.crc32 data).toNat then
        .error (.wal "WAL entry CRC mismatch")
      else
        codec.json.decode data := by
  have magicField :
      leValue (slice (entry.header codec ++ data) 0 4) = walMagic := by
    have field :
        slice (entry.header codec ++ data) 0 4 = leBytes 4 walMagic := by
      simp [slice, header]
    rw [field, leValue_leBytes_of_lt (by decide)]
  have typeField :
      (entry.header codec ++ data).getD 4 0 = entry.entryType.toU8 := by
    simp [header, leBytes]
  have crcField :
      leValue (slice (entry.header codec ++ data) 12 16) =
        (codec.crc32 (entry.body codec)).toNat := by
    have field :
        slice (entry.header codec ++ data) 12 16 =
          leBytes 4 (codec.crc32 (entry.body codec)).toNat := by
      simp [slice, header, List.drop_append]
    rw [field, leValue_leBytes_of_lt]
    simpa using (codec.crc32 (entry.body codec)).toNat_lt
  have bodyField :
      slice (entry.header codec ++ data) walEntryHeaderSize
          (walEntryHeaderSize + entry.recordedLength codec) =
        data := by
    rw [slice, ← length_header codec entry, List.drop_left,
      Nat.add_sub_cancel_left, ← recorded, List.take_length]
  have longEnough :
      ¬ (entry.header codec ++ data).length < walEntryHeaderSize := by
    simp
  have complete :
      ¬ (entry.header codec ++ data).length <
          walEntryHeaderSize + entry.recordedLength codec := by
    simp [recorded]
  simp only [decode, longEnough, ↓reduceIte, magicField, ne_eq,
    not_true_eq_false, typeField, WalEntryType.tryFrom_toU8,
    length_field, complete, crcField, bodyField]

theorem decode_encode {entry : WalEntry} (recordable : entry.Recordable codec) :
    decode codec (entry.encode codec) = .ok entry := by
  have recorded : (entry.body codec).length = entry.recordedLength codec :=
    (recordedLength_of_recordable codec recordable).symm
  rw [encode, decode_header_append codec entry recorded]
  simp [body]

/--
An oversized entry is rejected: the recorded number of bytes is a body that was
cut short, whatever its checksum.
-/
theorem decode_oversized
    {entry : WalEntry} (oversized : ¬ entry.Recordable codec) :
    ∃ cause,
      decode codec
          (entry.header codec ++
            (entry.body codec).take (entry.recordedLength codec)) =
        .error cause := by
  have short := recordedLength_lt codec oversized
  have recorded :
      ((entry.body codec).take (entry.recordedLength codec)).length =
        entry.recordedLength codec := by
    rw [List.length_take]
    omega
  rw [decode_header_append codec entry recorded]
  split
  · exact ⟨_, rfl⟩
  · exact codec.json.decode_truncated entry _ short

end WalEntry

end ChronoDB.Wal
