import ChronoDB.Model.Enumerable
import ChronoDB.Wal.Writer

namespace ChronoDB.Wal

open Library

/-!
# A codec with JSON texts

The codec below writes two entries exactly as the JSON serializer does and every
other entry in the tally notation.  Its checksum is the CRC-32 of the source.
-/

deriving instance Encodable for WalEntryType

deriving instance Encodable for WalEntry

/-- One bit of the reflected CRC-32 with polynomial `0xEDB88320`. -/
def crc32Bit (crc : UInt32) : UInt32 :=
  if crc &&& 1 = 1 then (crc >>> 1) ^^^ 0xEDB88320 else crc >>> 1

def crc32Byte (crc : UInt32) (byte : UInt8) : UInt32 :=
  crc32Bit^[8] (crc ^^^ byte.toUInt32)

def crc32 (data : Bytes) : UInt32 :=
  data.foldl crc32Byte 0xFFFFFFFF ^^^ 0xFFFFFFFF

example : crc32 (stringBytes "123456789") = 0xCBF43926 := by
  decide +kernel

namespace Json

def labels : Labels :=
  [{ name := "job", value := "test" }]

def samples : List Sample :=
  [{ timestamp := 1000, value := 1 }]

/-- The id of the series with these labels. -/
def seriesId : TimeSeriesId := 12440272228589771899

def writeEntry : WalEntry :=
  WalEntry.write seriesId labels samples 2000

/-- A delete of the series, stamped one millisecond earlier than the write. -/
def deleteEntry : WalEntry :=
  WalEntry.delete seriesId 1999

def writeText : String :=
  "\x7b\"entry_type\":\"Write\",\"series_id\":12440272228589771899," ++
    "\"labels\":[" ++
    "\x7b\"name\":\"job\",\"value\":\"test\"\x7d],\"samples\":[" ++
    "\x7b\"timestamp\":1000,\"value\":1.0\x7d],\"timestamp\":2000\x7d"

def deleteText : String :=
  "\x7b\"entry_type\":\"Delete\",\"series_id\":12440272228589771899," ++
    "\"labels\":null,\"samples\":[],\"timestamp\":1999\x7d"

def texts : Codec.TextTable WalEntry where
  escape := 0
  entries := [
    (writeEntry, stringBytes writeText),
    (deleteEntry, stringBytes deleteText)
  ]
  escapeFree := by
    simp only [List.forall_mem_cons, List.not_mem_nil, false_imp_iff,
      implies_true, and_true]
    exact ⟨⟨_, _, rfl, by decide⟩, ⟨_, _, rfl, by decide⟩⟩
  prefixFree := by
    have writeNotDelete :
        ¬ stringBytes writeText <+: stringBytes deleteText := by
      decide +kernel
    have deleteNotWrite :
        ¬ stringBytes deleteText <+: stringBytes writeText := by
      decide +kernel
    simp [writeNotDelete, deleteNotWrite]

end Json

def jsonCodec : WalCodec where
  json := (Codec.ofEncodable .serialization).tabulate Json.texts .serialization
  crc32 := crc32

namespace Json

@[simp] theorem body_writeEntry :
    writeEntry.body jsonCodec = stringBytes writeText := by
  simp [WalEntry.body, jsonCodec, Codec.tabulate, Codec.TextTable.text?, texts]

@[simp] theorem body_deleteEntry :
    deleteEntry.body jsonCodec = stringBytes deleteText := by
  have different : writeEntry ≠ deleteEntry := by decide
  simp [WalEntry.body, jsonCodec, Codec.tabulate, Codec.TextTable.text?,
    texts, different]

theorem recordable_writeEntry : writeEntry.Recordable jsonCodec := by
  rw [WalEntry.Recordable, body_writeEntry]
  decide +kernel

theorem recordable_deleteEntry : deleteEntry.Recordable jsonCodec := by
  rw [WalEntry.Recordable, body_deleteEntry]
  decide +kernel

end Json

/-- A log that was just created with the default limits. -/
def freshLog : WalState :=
  WalState.initial jsonCodec .default (fun _ => 0) 1000

theorem ready_freshLog : freshLog.Ready :=
  WalState.Ready.initial jsonCodec .default (fun _ => 0) 1000

@[simp] theorem frames_freshLog : freshLog.dir.frames = [] :=
  rfl

end ChronoDB.Wal
