/-
# The record format

A journal record on disk: a header of 36 bytes (magic, version, kind, flags,
sequence number, elapsed milliseconds, payload length, CRC-32) and its payload
(`session/journal/record.rs`). The CRC covers the first 32 bytes of the header
and the payload.

Key theorem: `Crc32.update_append`.
-/
import OpenRelay.Basic
import OpenRelay.Lib.LittleEndian

namespace OpenRelay
namespace Journal

open LittleEndian

/-! ### CRC-32 -/

/-- One bit of the reflected IEEE 802.3 polynomial. -/
def crcBit (c : UInt32) : UInt32 :=
  if c &&& 1 = 0 then c >>> 1 else (c >>> 1) ^^^ 0xEDB88320

/-- A byte goes in bit by bit. -/
def crcByte (c : UInt32) (b : UInt8) : UInt32 :=
  crcBit (crcBit (crcBit (crcBit (crcBit (crcBit (crcBit (crcBit (c ^^^ b.toUInt32))))))))

/-- A resumable CRC-32. -/
structure Crc32 where
  state : UInt32
  deriving DecidableEq, Repr

namespace Crc32

/-- The state before the first byte. -/
def new : Crc32 := ⟨0xFFFFFFFF⟩

def update (crc : Crc32) (bytes : Bytes) : Crc32 := ⟨bytes.foldl crcByte crc.state⟩

/-- The checksum of what went in. -/
def finish (crc : Crc32) : ℕ := (~~~ crc.state).toNat

/-- The CRC-32 of a whole byte string. -/
def ofBytes (bytes : Bytes) : ℕ := (new.update bytes).finish

/-- Checksumming piece by piece is checksumming the whole. -/
theorem update_append (crc : Crc32) (a b : Bytes) :
    (crc.update a).update b = crc.update (a ++ b) := by
  simp only [update, List.foldl_append]

@[simp] theorem update_nil (crc : Crc32) : crc.update [] = crc := rfl

/-- The standard's check vector. -/
example : ofBytes [49, 50, 51, 52, 53, 54, 55, 56, 57] = 0xCBF43926 := by decide +kernel

theorem finish_lt (crc : Crc32) : crc.finish < 256 ^ 4 := (~~~ crc.state).toNat_lt

end Crc32

/-- The checksum of two pieces in order. -/
def crc32Two (first second : Bytes) : ℕ := ((Crc32.new.update first).update second).finish

theorem crc32Two_lt (first second : Bytes) : crc32Two first second < 256 ^ 4 :=
  Crc32.finish_lt _

/-! ### Records -/

def recordMagic : Bytes := [79, 74, 82, 78]

def recordVersion : ℕ := 1

/-- magic + version + kind + flags + seq + elapsed_ms + payload_len + crc32. -/
def headerLen : ℕ := 4 + 2 + 2 + 4 + 8 + 8 + 4 + 4

def maxPayloadLen : ℕ := 64 * 1024 * 1024

/-- What a record is about. -/
inductive RecordKind where
  | output
  | resize
  | lifecycle
  | checkpointRef
  | policy
  deriving DecidableEq, Repr

namespace RecordKind

/-- A kind's number in the header. -/
def toU16 : RecordKind → ℕ
  | output => 1
  | resize => 2
  | lifecycle => 3
  | checkpointRef => 4
  | policy => 5

def fromU16 : ℕ → Option RecordKind
  | 1 => some output
  | 2 => some resize
  | 3 => some lifecycle
  | 4 => some checkpointRef
  | 5 => some policy
  | _ => none

@[simp] theorem fromU16_toU16 (kind : RecordKind) : fromU16 kind.toU16 = some kind := by
  cases kind <;> rfl

theorem toU16_lt (kind : RecordKind) : kind.toU16 < 256 ^ 2 := by
  cases kind <;> decide

end RecordKind

/-- One decoded journal record. -/
structure Record where
  kind : RecordKind
  seq : ℕ
  /-- Milliseconds since the writer's start. -/
  elapsedMs : ℕ
  payload : Bytes
  deriving DecidableEq, Repr

/-- The bytes the CRC covers: the header up to the CRC itself. -/
def headerPrefix (kind : RecordKind) (seq elapsedMs : ℕ) (payload : Bytes) : Bytes :=
  recordMagic ++ (leBytes 2 recordVersion ++ (leBytes 2 kind.toU16 ++ (leBytes 4 0 ++ (leBytes 8 seq ++
    (leBytes 8 elapsedMs ++ leBytes 4 payload.length)))))

/-- Encode one record header, with its CRC. -/
def encodeRecordHeader (kind : RecordKind) (seq elapsedMs : ℕ) (payload : Bytes) : Bytes :=
  headerPrefix kind seq elapsedMs payload ++
    leBytes 4 (crc32Two (headerPrefix kind seq elapsedMs payload) payload)

namespace Record

/-- The fields fit the header, and the payload the reader's bound. -/
structure Fits (r : Record) : Prop where
  seq : r.seq < 2 ^ 64
  elapsedMs : r.elapsedMs < 2 ^ 64
  payload : r.payload.length ≤ maxPayloadLen

/-- The record on disk. -/
def encode (r : Record) : Bytes :=
  encodeRecordHeader r.kind r.seq r.elapsedMs r.payload ++ r.payload

/-- The length of the record on disk. -/
def size (r : Record) : ℕ := headerLen + r.payload.length

end Record

/-- Records one after another on disk. -/
def encodeAll (rs : List Record) : Bytes := rs.flatMap Record.encode

@[simp] theorem headerPrefix_length (kind : RecordKind) (seq elapsedMs : ℕ) (payload : Bytes) :
    (headerPrefix kind seq elapsedMs payload).length = 32 := by
  simp [headerPrefix, recordMagic]

@[simp] theorem encodeRecordHeader_length (kind : RecordKind) (seq elapsedMs : ℕ) (payload : Bytes) :
    (encodeRecordHeader kind seq elapsedMs payload).length = headerLen := by
  simp [encodeRecordHeader, headerLen]

@[simp] theorem encode_length (r : Record) : r.encode.length = r.size := by
  simp [Record.encode, Record.size]

theorem size_pos (r : Record) : 0 < r.size := by
  simp only [Record.size, headerLen]; omega

@[simp] theorem encodeAll_nil : encodeAll [] = [] := rfl

@[simp] theorem encodeAll_cons (r : Record) (rs : List Record) :
    encodeAll (r :: rs) = r.encode ++ encodeAll rs := rfl

@[simp] theorem encodeAll_append (rs rs' : List Record) :
    encodeAll (rs ++ rs') = encodeAll rs ++ encodeAll rs' := by
  simp [encodeAll]

end Journal
end OpenRelay
