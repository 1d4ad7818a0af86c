/-
# The rolling segment writer

The appender's writer puts records into the active part and rolls over to the
next part of the incarnation before a record that would not fit. The full part
is sealed first: synced, then listed in the manifest
(`session/journal/appender.rs`, `RollingSegmentWriter`).

Key theorems: `sealPart_run`, `appendRecord_run`.
-/
import OpenRelay.Journal.Open

namespace OpenRelay
namespace Journal

open Effects Effects.Prog

/-- The writer of one incarnation. -/
structure RollingSegmentWriter where
  incarnation : ℕ
  part : ℕ
  partBytes : ℕ
  maxPartBytes : ℕ
  /-- The first sequence number in the active part, while it has one. -/
  partFirstSeq : Option ℕ
  partLastSeq : ℕ
  /-- The CRC-32 of the active part's bytes. -/
  partCrc : Crc32
  deriving DecidableEq, Repr

namespace RollingSegmentWriter

def new (incarnation maxPartBytes : ℕ) : RollingSegmentWriter where
  incarnation := incarnation
  part := 1
  partBytes := 0
  maxPartBytes := maxPartBytes
  partFirstSeq := none
  partLastSeq := 0
  partCrc := .new

variable (w : RollingSegmentWriter)

def seg : Seg := ⟨w.incarnation, w.part⟩

def sync : JournalM Unit := act (.syncPart w.seg)

/-- The entry of the active part. -/
def entry (firstSeq : ℕ) : SegmentManifestEntry where
  incarnation := w.incarnation
  part := w.part
  firstSeq := firstSeq
  lastSeq := w.partLastSeq
  bytes := w.partBytes
  crc32 := w.partCrc.finish

/-- Seal the active part: sync it, then list it. An empty part is never
sealed. -/
def sealPart : JournalM RollingSegmentWriter :=
  match w.partFirstSeq with
  | none => pure w
  | some first => do
    act (.syncPart w.seg)
    appendManifestLine (.sealed (w.entry first))
    syncDir
    pure { w with partFirstSeq := none, partCrc := .new }

/-- A record of this size does not fit the active part. -/
def isFull (recordBytes : ℕ) : Bool :=
  decide (0 < w.partBytes ∧ w.maxPartBytes < w.partBytes + recordBytes)

/-- The part is sealed and the next one begun. -/
def rollOver : JournalM RollingSegmentWriter := do
  let w ← w.sealPart
  let w := { w with part := w.part + 1 }
  createPart w.seg
  syncDir
  pure { w with partBytes := 0 }

/-- The writer once a record is in the active part. -/
def noted (r : Record) : RollingSegmentWriter := { w with
  partCrc := (w.partCrc.update (encodeRecordHeader r.kind r.seq r.elapsedMs r.payload)).update r.payload
  partFirstSeq := match w.partFirstSeq with
    | none => some r.seq
    | some first => some first
  partLastSeq := r.seq
  partBytes := w.partBytes + r.size }

/-- A record goes into the part, or into the next one if this one is full. -/
def appendRecord (r : Record) : JournalM RollingSegmentWriter := do
  let w ← if w.isFull r.size then w.rollOver else pure w
  act (.writePart w.seg (encodeRecordHeader r.kind r.seq r.elapsedMs r.payload))
  act (.writePart w.seg r.payload)
  pure (w.noted r)

/-! ### Its effects -/

/-- What is done to seal the part: nothing, if it has no records. -/
def sealEffects : List Effect :=
  match w.partFirstSeq with
  | none => []
  | some first => [.syncPart w.seg, .appendManifest (ManifestLine.sealed (w.entry first)).render,
      .syncManifest, .syncDir]

/-- The writer after sealing the active part. -/
def unsealed : RollingSegmentWriter :=
  match w.partFirstSeq with
  | none => w
  | some _ => { w with partFirstSeq := none, partCrc := .new }

/-- The writer after a rollover. -/
def rolled : RollingSegmentWriter := { w.unsealed with part := w.part + 1, partBytes := 0 }

/-- The writer that takes a record: a new part's if the active one is full. -/
def target (r : Record) : RollingSegmentWriter := if w.isFull r.size then w.rolled else w

/-- What is done to go on to the next part. -/
def rollEffects : List Effect := w.sealEffects ++ [.createPart w.rolled.seg, .syncDir]

def appendEffects (r : Record) : List Effect :=
  (if w.isFull r.size then w.rollEffects else []) ++
    [.writePart (w.target r).seg (encodeRecordHeader r.kind r.seq r.elapsedMs r.payload),
      .writePart (w.target r).seg r.payload]

theorem sealPart_run (d : Dir) : w.sealPart.run d = (w.sealEffects, .ok w.unsealed) := by
  unfold sealPart sealEffects unsealed
  split <;> rfl

theorem rollOver_run {d : Dir} (h : d.partData w.rolled.seg = none) :
    w.rollOver.run d = (w.rollEffects, .ok w.rolled) := by
  have hpart : w.unsealed.part = w.part := by
    unfold unsealed
    split <;> rfl
  have hseg : ({ w.unsealed with part := w.unsealed.part + 1 } : RollingSegmentWriter).seg = w.rolled.seg := by
    rw [hpart]; rfl
  have hnone : (applyEffects w.sealEffects d).partData w.rolled.seg = none := by
    refine partData_applyEffects_none ?_ h
    unfold sealEffects
    split <;> simp
  have hcreate : (createPart w.rolled.seg).run (applyEffects w.sealEffects d) =
      ([.createPart w.rolled.seg], .ok ()) := by
    rw [createPart, bind_of_read (get_run _), if_pos hnone]
    rfl
  rw [rollOver, bind_run (w.sealPart_run d)]
  simp only
  rw [hseg, bind_run hcreate]
  simp only [syncDir, bind_of_act, pure_run, rollEffects, rolled, hpart, List.cons_append, List.nil_append]

/-- What appending a record does, if the part of a rollover is new. -/
theorem appendRecord_run {r : Record} {d : Dir}
    (h : w.isFull r.size = true → d.partData w.rolled.seg = none) :
    (w.appendRecord r).run d = (w.appendEffects r, .ok ((w.target r).noted r)) := by
  unfold appendRecord appendEffects target
  by_cases hfull : w.isFull r.size = true
  · simp only [hfull, if_true]
    rw [bind_run (w.rollOver_run (h hfull))]
    rfl
  · simp only [hfull, Bool.false_eq_true, if_false]
    rw [bind_of_read (pure_run _ _)]
    rfl

end RollingSegmentWriter

end Journal
end OpenRelay
