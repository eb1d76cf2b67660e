import ChronoDB.Library.FiniteMap
import ChronoDB.Wal.Entry

namespace ChronoDB.Wal

open Library

/-!
# Segment files

A segment file is a twenty byte header followed by frames, and a frame is an
eight byte sequence number followed by an encoded entry.  Writers append whole
headers and whole frames, so a directory is kept here as what was appended;
`SegmentFile.bytes` gives the bytes a reader finds.
-/

structure WalHeader where
  sequence : UInt64
  createdAt : Timestamp
  deriving Repr, DecidableEq

namespace WalHeader

def size : ℕ := 20

def version : ℕ := 1

def encode (header : WalHeader) : Bytes :=
  leBytes 8 header.sequence.toNat ++
    (leBytes 8 header.createdAt.toUInt64.toNat ++ leBytes 4 version)

def decode (data : Bytes) : Except Error WalHeader :=
  if data.length < size then
    .error (.wal "WAL header too short")
  else
    .ok {
      sequence := UInt64.ofNat (leValue (slice data 0 8))
      createdAt := (UInt64.ofNat (leValue (slice data 8 16))).toInt64
    }

@[simp] theorem length_encode (header : WalHeader) :
    header.encode.length = size := by
  simp [encode, size]

@[simp] theorem decode_encode (header : WalHeader) :
    decode header.encode = .ok header := by
  have sequenceField :
      slice header.encode 0 8 = leBytes 8 header.sequence.toNat := by
    simp [slice, encode]
  have createdField :
      slice header.encode 8 16 = leBytes 8 header.createdAt.toUInt64.toNat := by
    simp [slice, encode]
  have sequenceFits : header.sequence.toNat < 256 ^ 8 := by
    simpa using header.sequence.toNat_lt
  have createdFits : header.createdAt.toUInt64.toNat < 256 ^ 8 := by
    simpa using header.createdAt.toUInt64.toNat_lt
  simp [decode, sequenceField, createdField, leValue_leBytes_of_lt sequenceFits,
    leValue_leBytes_of_lt createdFits]

end WalHeader

/-- A sequence number and the entry stamped with it. -/
structure Frame where
  sequence : UInt64
  entry : WalEntry
  deriving Repr, DecidableEq

namespace Frame

variable (codec : WalCodec)

def bytes (frame : Frame) : Bytes :=
  leBytes 8 frame.sequence.toNat ++ frame.entry.encode codec

/-- The number of bytes of a frame. -/
def size (frame : Frame) : ℕ :=
  8 + walEntryHeaderSize + (frame.entry.body codec).length

@[simp] theorem length_bytes (frame : Frame) :
    (frame.bytes codec).length = frame.size codec := by
  simp [bytes, size, walEntryHeaderSize]
  omega

end Frame

/--
What was appended to a segment file: at most one header, then frames.  A file
that was created but not written to has no header.
-/
structure SegmentFile where
  header : Option WalHeader
  frames : List Frame
  deriving Repr, DecidableEq

namespace SegmentFile

/-- A file that was just created. -/
def created : SegmentFile where
  header := none
  frames := []

def append (file : SegmentFile) (frames : List Frame) : SegmentFile :=
  { file with frames := file.frames ++ frames }

@[simp] theorem frames_append (file : SegmentFile) (frames : List Frame) :
    (file.append frames).frames = file.frames ++ frames :=
  rfl

@[simp] theorem header_append (file : SegmentFile) (frames : List Frame) :
    (file.append frames).header = file.header :=
  rfl

variable (codec : WalCodec)

def framesBytes (frames : List Frame) : Bytes :=
  frames.flatMap fun frame => frame.bytes codec

def bytes (file : SegmentFile) : Bytes :=
  (file.header.elim [] WalHeader.encode) ++ framesBytes codec file.frames

@[simp] theorem framesBytes_nil : framesBytes codec [] = [] :=
  rfl

@[simp] theorem framesBytes_cons (frame : Frame) (rest : List Frame) :
    framesBytes codec (frame :: rest) =
      frame.bytes codec ++ framesBytes codec rest :=
  rfl

end SegmentFile

/-- The segment files of a log directory by their numbers. -/
abbrev SegmentDir := NumberedMap SegmentFile

namespace SegmentDir

def frames (dir : SegmentDir) : List Frame :=
  dir.inOrder.flatMap SegmentFile.frames

/--
Append frames through the open file of a segment.  Once the file was removed
from the directory, the bytes go nowhere.
-/
def append (dir : SegmentDir) (segment : ℕ) (frames : List Frame) :
    SegmentDir :=
  match dir.lookup segment with
  | some file => dir.insert segment (file.append frames)
  | none => dir

theorem lookup_append
    (dir : SegmentDir) (segment : ℕ) (frames : List Frame) (other : ℕ) :
    (dir.append segment frames).lookup other =
      if other = segment then
        (dir.lookup segment).map fun file => file.append frames
      else
        dir.lookup other := by
  rw [append]
  by_cases same : other = segment
  · subst same
    cases found : dir.lookup other <;> simp [found]
  · cases found : dir.lookup segment <;> simp [same]

theorem append_append
    (dir : SegmentDir) (segment : ℕ) (first second : List Frame) :
    (dir.append segment first).append segment second =
      dir.append segment (first ++ second) := by
  cases found : dir.lookup segment with
  | none => simp [append, found]
  | some file => simp [append, found, SegmentFile.append]

/-- Every file of a directory is in the other one, with frames appended. -/
def Extends (dir later : SegmentDir) : Prop :=
  ∀ segment file,
    dir.lookup segment = some file →
    ∃ frames, later.lookup segment = some (file.append frames)

namespace Extends

theorem refl (dir : SegmentDir) : Extends dir dir := by
  intro segment file found
  exact ⟨[], by simpa [SegmentFile.append] using found⟩

theorem trans
    {first second third : SegmentDir} (firstSecond : Extends first second)
    (secondThird : Extends second third) :
    Extends first third := by
  intro segment file found
  obtain ⟨frames, foundSecond⟩ := firstSecond segment file found
  obtain ⟨more, foundThird⟩ := secondThird segment _ foundSecond
  exact ⟨frames ++ more, by
    simpa [SegmentFile.append] using foundThird⟩

theorem append (dir : SegmentDir) (segment : ℕ) (frames : List Frame) :
    Extends dir (dir.append segment frames) := by
  intro other file found
  rw [lookup_append]
  split
  · rename_i same
    subst same
    exact ⟨frames, by rw [found]; rfl⟩
  · exact ⟨[], by simpa [SegmentFile.append] using found⟩

theorem insert
    {dir : SegmentDir} {segment : ℕ} (unused : dir.lookup segment = none)
    (file : SegmentFile) :
    Extends dir (AList.insert segment file dir) := by
  intro other found isFound
  have different : other ≠ segment := by
    rintro rfl
    rw [unused] at isFound
    cases isFound
  exact ⟨[], by
    simpa [SegmentFile.append, AList.lookup_insert_ne different] using isFound⟩

end Extends

/--
A directory as log writers leave it: the segments are numbered from zero to
`last`, and each file has its header.
-/
structure WellFormed (dir : SegmentDir) (last : ℕ) : Prop where
  upTo : NumberedMap.UpTo dir last
  hasHeader :
    ∀ segment file, dir.lookup segment = some file → file.header.isSome

namespace WellFormed

variable {dir : SegmentDir} {last : ℕ}

/-- A single segment with its header is a well-formed directory. -/
theorem first (header : WalHeader) :
    WellFormed
      ((∅ : SegmentDir).insert 0
        { header := some header, frames := [] }) 0 := by
  refine ⟨?_, ?_⟩
  · intro segment
    have noSegment : segment ∉ (∅ : SegmentDir) := AList.notMem_empty segment
    rw [AList.mem_insert]
    simp [noSegment]
  · intro segment file found
    by_cases isFirst : segment = 0
    · subst isFirst
      rw [AList.lookup_insert] at found
      cases found
      rfl
    · rw [AList.lookup_insert_ne isFirst] at found
      cases found

theorem nextUnused (wellFormed : WellFormed dir last) :
    dir.lookup (last + 1) = none := by
  rw [AList.lookup_eq_none, wellFormed.upTo]
  omega

theorem lookup_last (wellFormed : WellFormed dir last) :
    ∃ file, dir.lookup last = some file :=
  FiniteMap.exists_lookup ((wellFormed.upTo last).mpr le_rfl)

theorem frames_eq (wellFormed : WellFormed dir last) {file : SegmentFile}
    (found : dir.lookup last = some file) :
    frames dir =
      (NumberedMap.below dir last).flatMap SegmentFile.frames ++
        file.frames := by
  rw [frames, wellFormed.upTo.inOrder_eq found, List.flatMap_append]
  simp

theorem append (wellFormed : WellFormed dir last) (frames : List Frame) :
    WellFormed (SegmentDir.append dir last frames) last := by
  obtain ⟨file, found⟩ := wellFormed.lookup_last
  simp only [SegmentDir.append, found]
  refine ⟨wellFormed.upTo.insert_last _, ?_⟩
  intro segment other otherFound
  by_cases isLast : segment = last
  · subst isLast
    rw [AList.lookup_insert] at otherFound
    cases otherFound
    exact wellFormed.hasHeader segment file found
  · rw [AList.lookup_insert_ne isLast] at otherFound
    exact wellFormed.hasHeader segment other otherFound

theorem frames_append (wellFormed : WellFormed dir last) (frames : List Frame) :
    SegmentDir.frames (SegmentDir.append dir last frames) =
      SegmentDir.frames dir ++ frames := by
  obtain ⟨file, found⟩ := wellFormed.lookup_last
  have appended := wellFormed.append frames
  simp only [SegmentDir.append, found] at appended ⊢
  rw [appended.frames_eq (AList.lookup_insert dir),
    NumberedMap.below_insert le_rfl, wellFormed.frames_eq found]
  simp

theorem create (wellFormed : WellFormed dir last) (header : WalHeader) :
    WellFormed
      (dir.insert (last + 1)
        { header := some header, frames := [] }) (last + 1) := by
  refine ⟨wellFormed.upTo.insert_next _, ?_⟩
  intro segment other otherFound
  by_cases isNext : segment = last + 1
  · subst isNext
    rw [AList.lookup_insert] at otherFound
    cases otherFound
    rfl
  · rw [AList.lookup_insert_ne isNext] at otherFound
    exact wellFormed.hasHeader segment other otherFound

theorem frames_create (wellFormed : WellFormed dir last) (header : WalHeader) :
    SegmentDir.frames
        (dir.insert (last + 1) { header := some header, frames := [] }) =
      SegmentDir.frames dir := by
  obtain ⟨file, found⟩ := wellFormed.lookup_last
  rw [(wellFormed.create header).frames_eq (AList.lookup_insert dir),
    NumberedMap.below_insert le_rfl, NumberedMap.below_succ found,
    wellFormed.frames_eq found]
  simp

end WellFormed

end SegmentDir

end ChronoDB.Wal
