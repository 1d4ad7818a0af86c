/-
# Checkpoints

A checkpoint record holds a restore program and, if the scanner was idle when it
was taken, the offset of the filtered stream at its place
(`session/journal/checkpoint.rs`). A replay may start behind it. The anchors of
an incarnation are found by a scan of the record headers alone; on parts that
were written in order they are the checkpoints among the records, each with the
place where its part goes on (`checkpointAnchors_eq`), and a stream opened there
reads the records behind it (`reads_openAt`).

Key theorem: `filteredOffset_encode`.
-/
import OpenRelay.Journal.Recovery
import OpenRelay.Journal.Retention

namespace OpenRelay
namespace Journal

open LittleEndian

/-! ### The payload -/

def checkpointVersion : ℕ := 2

/-- `OJCK`. -/
def checkpointMagic : Bytes := [79, 74, 67, 75]

/-- What a checkpoint says of the terminal. -/
structure Checkpoint where
  rows : ℕ
  cols : ℕ
  cursor : ℕ × ℕ
  altScreen : Bool
  appCursorKeys : Bool
  bracketedPaste : Bool
  /-- The filtered stream up to here; 0 if that is not known. -/
  filteredOffset : ℕ
  /-- A stream that repaints the screen. -/
  program : Bytes
  deriving DecidableEq, Repr

/-- The three truth values in one byte. -/
def Checkpoint.flags (c : Checkpoint) : ℕ :=
  c.altScreen.toNat + 2 * c.appCursorKeys.toNat + 4 * c.bracketedPaste.toNat

def encodeCheckpoint (c : Checkpoint) : Bytes :=
  checkpointMagic ++ (leBytes 2 checkpointVersion ++ (leBytes 2 c.rows ++ (leBytes 2 c.cols ++
    (leBytes 2 c.cursor.1 ++ (leBytes 2 c.cursor.2 ++ (leBytes 1 c.flags ++ (leBytes 8 c.filteredOffset ++
      (leBytes 4 c.program.length ++ c.program))))))))

/-- Magic, version, rows, cols, cursor, flags, filtered offset, program length. -/
def checkpointFixedHeaderLen : ℕ := 4 + 2 + 2 + 2 + 2 + 2 + 1 + 8 + 4

/-- The offset in a payload's fixed header, from the second version on. -/
def filteredOffsetOf (payload : Bytes) : Option ℕ :=
  if checkpointFixedHeaderLen ≤ payload.length ∧ 2 ≤ leNat (field (payload.take checkpointFixedHeaderLen) 4 2) then
    some (leNat (field (payload.take checkpointFixedHeaderLen) 15 8))
  else none

/-- An offset that fits is read back. -/
theorem filteredOffset_encode {c : Checkpoint} (h : c.filteredOffset < 2 ^ 64) :
    filteredOffsetOf (encodeCheckpoint c) = some c.filteredOffset := by
  have hlen : checkpointFixedHeaderLen ≤ (encodeCheckpoint c).length := by
    simp [encodeCheckpoint, checkpointMagic, checkpointFixedHeaderLen]
    omega
  have h6 : field ((encodeCheckpoint c).take checkpointFixedHeaderLen) 4 2 = leBytes 2 checkpointVersion := rfl
  have h23 : field ((encodeCheckpoint c).take checkpointFixedHeaderLen) 15 8 = leBytes 8 c.filteredOffset := rfl
  have hversion : 2 ≤ leNat (leBytes 2 checkpointVersion) := by decide
  rw [filteredOffsetOf, h6, h23, if_pos ⟨hlen, hversion⟩, leNat_leBytes (by simpa using h)]

/-! ### The scan for anchors -/

/-- The anchors of one part from a byte position on, and the number that the next
part goes on with, unless the scan ends here. -/
def anchorsLoop (part : ℕ) (file : Bytes) : ℕ → ℕ → ℕ → List CheckpointAnchor × Option ℕ
  | 0, _, expectedSeq => ([], some expectedSeq)
  | turns + 1, bytePos, expectedSeq =>
    let rest := file.drop bytePos
    -- the end of the part, or a torn header
    if rest.length < headerLen then ([], some expectedSeq)
    else if rest.take 4 ≠ recordMagic then ([], none)
    else if leNat (field rest 12 8) ≠ expectedSeq then ([], none)
    else
      let payloadLen := leNat (field rest 28 4)
      let recordEnd := bytePos + headerLen + payloadLen
      if file.length < recordEnd then ([], none)
      else
        let fixed := (rest.drop headerLen).take checkpointFixedHeaderLen
        let more := anchorsLoop part file turns recordEnd (expectedSeq + 1)
        if leNat (field rest 6 2) = RecordKind.checkpointRef.toU16 ∧ checkpointFixedHeaderLen ≤ payloadLen ∧
            2 ≤ leNat (field fixed 4 2) then
          (⟨expectedSeq, part, recordEnd, leNat (field fixed 15 8)⟩ :: more.1, more.2)
        else more

/-- The anchors of an incarnation's parts, up to the first one that does not go on with the numbers. -/
def anchorScan : List (ℕ × Bytes) → ℕ → List CheckpointAnchor
  | [], _ => []
  | (part, file) :: more, expectedSeq =>
    match anchorsLoop part file (file.length + 1) 0 expectedSeq with
    | (anchors, none) => anchors
    | (anchors, some next) => anchors ++ anchorScan more next

/-- The anchors of an incarnation, in the order of the journal. -/
def checkpointAnchors (d : Dir) (incarnation : ℕ) : Except JournalError (List CheckpointAnchor) :=
  match incarnationParts d incarnation with
  | .error e => .error e
  | .ok parts => .ok (anchorScan (parts.map fun seg => (seg.part, (d.partData seg).getD [])) 1)

/-! ### The anchors of records -/

/-- The anchor of a record that stands at `offset` of its part. -/
def anchorOf (part offset : ℕ) (r : Record) : List CheckpointAnchor :=
  if r.kind = .checkpointRef then
    ((filteredOffsetOf r.payload).map fun filtered => ⟨r.seq, part, offset + r.size, filtered⟩).toList
  else []

/-- The anchors of the records that stand one behind another from `offset` on. -/
def groupAnchors (part : ℕ) : ℕ → List Record → List CheckpointAnchor
  | _, [] => []
  | offset, r :: rs => anchorOf part offset r ++ groupAnchors part (offset + r.size) rs

/-- The anchors of the parts from number `part` on. -/
def partAnchors : ℕ → List (List Record) → List CheckpointAnchor
  | _, [] => []
  | part, group :: groups => groupAnchors part 0 group ++ partAnchors (part + 1) groups

/-- What may stand behind the last record: the beginning of the next one. -/
def TornAt (seq : ℕ) (torn : Bytes) : Prop :=
  torn = [] ∨ ∃ r : Record, r.Fits ∧ r.seq = seq ∧ torn <+: r.encode ∧ torn.length < r.size

/-- The fields of a header that the scan reads. -/
theorem header_fields (r : Record) (t : Bytes) :
    (encodeRecordHeader r.kind r.seq r.elapsedMs r.payload ++ t).take 4 = recordMagic ∧
    field (encodeRecordHeader r.kind r.seq r.elapsedMs r.payload ++ t) 6 2 = leBytes 2 r.kind.toU16 ∧
    field (encodeRecordHeader r.kind r.seq r.elapsedMs r.payload ++ t) 12 8 = leBytes 8 r.seq ∧
    field (encodeRecordHeader r.kind r.seq r.elapsedMs r.payload ++ t) 28 4 = leBytes 4 r.payload.length :=
  ⟨rfl, rfl, rfl, rfl⟩

theorem payload_lt {r : Record} (hr : r.Fits) : r.payload.length < 256 ^ 4 :=
  lt_of_le_of_lt hr.payload (by decide)

/-- One record of the scan. -/
theorem anchorsLoop_cons {part a turns : ℕ} {pre : Bytes} {r : Record} (hr : r.Fits) (hseq : r.seq = a) (t : Bytes) :
    anchorsLoop part (pre ++ (r.encode ++ t)) (turns + 1) pre.length a =
      (anchorOf part pre.length r ++
        (anchorsLoop part (pre ++ (r.encode ++ t)) turns (pre.length + r.size) (a + 1)).1,
        (anchorsLoop part (pre ++ (r.encode ++ t)) turns (pre.length + r.size) (a + 1)).2) := by
  have hrest : (pre ++ (r.encode ++ t)).drop pre.length =
      encodeRecordHeader r.kind r.seq r.elapsedMs r.payload ++ (r.payload ++ t) := by
    rw [List.drop_left, Record.encode, List.append_assoc]
  obtain ⟨h4, h6, h12, h28⟩ := header_fields r (r.payload ++ t)
  have hlen : ¬ (encodeRecordHeader r.kind r.seq r.elapsedMs r.payload ++ (r.payload ++ t)).length < headerLen := by simp
  have hkind := leNat_leBytes r.kind.toU16_lt
  have hnum : leNat (leBytes 8 r.seq) = a := by rw [leNat_leBytes (by simpa using hr.seq), hseq]
  have hpay := leNat_leBytes (payload_lt hr)
  have hend : ¬ (pre ++ (r.encode ++ t)).length < pre.length + r.size := by
    simp only [List.length_append, encode_length]
    omega
  have hdrop : (encodeRecordHeader r.kind r.seq r.elapsedMs r.payload ++ (r.payload ++ t)).drop headerLen =
      r.payload ++ t := List.drop_left' (by simp)
  have hsize : pre.length + headerLen + r.payload.length = pre.length + r.size := by rw [Record.size]; omega
  have hkind' : r.kind.toU16 = RecordKind.checkpointRef.toU16 ↔ r.kind = .checkpointRef := by
    cases r.kind <;> decide
  rw [anchorsLoop]
  simp only [hrest, if_neg hlen, h4, h6, h12, h28, hkind, hnum, hpay, ne_eq, not_true_eq_false, if_false, if_neg hend,
    hdrop, hsize, hkind']
  by_cases hk : r.kind = .checkpointRef
  · by_cases hfix : checkpointFixedHeaderLen ≤ r.payload.length
    · rw [List.take_append_of_le_length hfix]
      by_cases hv : 2 ≤ leNat (field (r.payload.take checkpointFixedHeaderLen) 4 2)
      · rw [if_pos ⟨hk, hfix, hv⟩, anchorOf, if_pos hk, filteredOffsetOf, if_pos ⟨hfix, hv⟩, hseq]
        rfl
      · rw [if_neg (fun h => hv h.2.2), anchorOf, if_pos hk, filteredOffsetOf, if_neg (fun h => hv h.2)]
        rfl
    · rw [if_neg (fun h => hfix h.2.1), anchorOf, if_pos hk, filteredOffsetOf, if_neg (fun h => hfix h.1)]
      rfl
  · rw [if_neg (fun h => hk h.1), anchorOf, if_neg hk]
    rfl

/-- **The scan of a part** that was written in order. -/
theorem anchorsLoop_eq {part : ℕ} {torn : Bytes} : ∀ {group : List Record} {pre : Bytes} {a turns : ℕ},
    (∀ r ∈ group, r.Fits) → Numbered a group → TornAt (a + group.length) torn → group.length < turns →
    anchorsLoop part (pre ++ (encodeAll group ++ torn)) turns pre.length a =
      (groupAnchors part pre.length group, if torn.length < headerLen then some (a + group.length) else none)
  | _, _, _, 0, _, _, _, hturns => absurd hturns (Nat.not_lt_zero _)
  | [], pre, a, turns + 1, _, _, htorn, _ => by
    rw [encodeAll_nil, List.nil_append, anchorsLoop]
    simp only [List.drop_left]
    by_cases hlen : torn.length < headerLen
    · rw [if_pos hlen, if_pos hlen]
      rfl
    · rw [if_neg hlen, if_neg hlen]
      rcases htorn with rfl | ⟨r, hr, hseq, hpre, hlt⟩
      · exact absurd (by decide) hlen
      · obtain ⟨h4, -, h12, h28⟩ := header_fields r (torn.drop headerLen)
        rw [← header_of_torn hpre hlen] at h4 h12 h28
        have hnum : leNat (leBytes 8 r.seq) = a := by rw [leNat_leBytes (by simpa using hr.seq), hseq]; simp
        have hend : (pre ++ torn).length < pre.length + headerLen + r.payload.length := by
          rw [Record.size] at hlt
          rw [List.length_append]
          omega
        simp only [h4, h12, h28, hnum, leNat_leBytes (payload_lt hr), ne_eq, not_true_eq_false, if_false, if_pos hend]
        rfl
  | r :: rs, pre, a, turns + 1, hfits, hnum, htorn, hturns => by
    obtain ⟨hseq, hnum'⟩ := numbered_cons.mp hnum
    have hfile : pre ++ (encodeAll (r :: rs) ++ torn) = pre ++ (r.encode ++ (encodeAll rs ++ torn)) := by
      rw [encodeAll_cons, List.append_assoc]
    have hfile' : pre ++ (r.encode ++ (encodeAll rs ++ torn)) = (pre ++ r.encode) ++ (encodeAll rs ++ torn) := by
      rw [List.append_assoc]
    have hpos : pre.length + r.size = (pre ++ r.encode).length := by rw [List.length_append, encode_length]
    have hcount : a + (r :: rs).length = a + 1 + rs.length := by rw [List.length_cons]; omega
    rw [hcount] at htorn ⊢
    rw [List.length_cons] at hturns
    rw [hfile, anchorsLoop_cons (hfits r List.mem_cons_self) hseq, groupAnchors, hfile', hpos,
      anchorsLoop_eq (fun r' h' => hfits r' (List.mem_cons_of_mem _ h')) hnum' htorn (by omega)]

/-! ### An incarnation that was written in order -/

/-- The files of parts that hold these records. -/
def partFiles (groups : List (List Record)) (current : List Record) (torn : Bytes) : List Bytes :=
  groups.map encodeAll ++ [encodeAll current ++ torn]

/-- The incarnation holds the records part by part, and behind the last one
perhaps the beginning of the next. -/
structure Holds (d : Dir) (N : ℕ) (groups : List (List Record)) (current : List Record) (torn : Bytes) : Prop where
  zero : d.partData ⟨N, 0⟩ = none
  files : ∀ i, d.partData ⟨N, i + 1⟩ = (partFiles groups current torn)[i]?
  fits : ∀ r ∈ groups.flatten ++ current, r.Fits
  numbered : Numbered 1 (groups.flatten ++ current)
  bound : 1 + (groups.flatten ++ current).length < 2 ^ 64
  torn : TornAt (1 + (groups.flatten ++ current).length) torn

section Parts

variable {current : List Record} {torn : Bytes}

theorem readRecord_tornAt {seq : ℕ} (h : TornAt seq torn) :
    readRecord torn = .error (if torn = [] then .cleanEof else .partialTail) := by
  rcases h with rfl | ⟨r, hr, -, hpre, hlt⟩
  · rfl
  · exact readRecord_tail hr hpre hlt

/-- A stream over such parts. -/
theorem streamRecords_parts : ∀ {groups : List (List Record)} {a : ℕ}, (∀ r ∈ groups.flatten ++ current, r.Fits) →
    Numbered a (groups.flatten ++ current) → a + (groups.flatten ++ current).length < 2 ^ 64 →
    TornAt (a + (groups.flatten ++ current).length) torn →
    streamRecords a (partFiles groups current torn) = .ok (groups.flatten ++ current)
  | [], a, hfits, hnum, hlt, htorn => by
    have hparse := parseRecords_encodeAll (readRecord_tornAt htorn) hfits hnum hlt.le fun _ => .inl rfl
    rw [partFiles, List.map_nil, List.nil_append, streamRecords]
    rw [List.flatten_nil, List.nil_append] at hparse ⊢
    rw [hparse]
    by_cases h0 : torn = []
    · rw [if_pos h0]
      simp only [streamRecords, List.append_nil]
    · rw [if_neg h0]
  | group :: groups, a, hfits, hnum, hlt, htorn => by
    rw [List.flatten_cons, List.append_assoc] at hfits hnum hlt htorn ⊢
    rw [List.length_append] at hlt htorn
    obtain ⟨hnum1, hnum2⟩ := numbered_append.mp hnum
    have hparse : parseRecords (some a) (encodeAll group) = (group, .cleanEof) := by
      rw [← List.append_nil (encodeAll group)]
      exact parseRecords_encodeAll readRecord_nil (fun r hr => hfits r (List.mem_append_left _ hr)) hnum1
        (by omega) fun _ => .inl rfl
    rw [partFiles, List.map_cons, List.cons_append, streamRecords_clean hparse, ← partFiles,
      streamRecords_parts (fun r hr => hfits r (List.mem_append_right _ hr)) hnum2 (by omega)
        (by rwa [← Nat.add_assoc] at htorn)]

/-- The scan for anchors over such parts. -/
theorem anchorScan_eq : ∀ {groups : List (List Record)} {a part : ℕ}, (∀ r ∈ groups.flatten ++ current, r.Fits) →
    Numbered a (groups.flatten ++ current) → TornAt (a + (groups.flatten ++ current).length) torn →
    anchorScan ((partFiles groups current torn).mapIdx fun i file => (part + i, file)) a =
      partAnchors part (groups ++ [current])
  | [], a, part, hfits, hnum, htorn => by
    rw [List.flatten_nil, List.nil_append] at hfits hnum htorn
    have hcount : current.length < (encodeAll current ++ torn).length + 1 := by
      have := sizeAll_length_le current
      rw [List.length_append, encodeAll_length]
      omega
    have hloop := @anchorsLoop_eq part torn current [] a _ hfits hnum htorn hcount
    rw [List.nil_append, List.length_nil] at hloop
    rw [partFiles, List.map_nil, List.nil_append, List.mapIdx_cons, List.mapIdx_nil, anchorScan, Nat.add_zero, hloop,
      List.nil_append, partAnchors, partAnchors, List.append_nil]
    by_cases hlen : torn.length < headerLen
    · rw [if_pos hlen]
      simp only [anchorScan, List.append_nil]
    · rw [if_neg hlen]
  | group :: groups, a, part, hfits, hnum, htorn => by
    rw [List.flatten_cons, List.append_assoc] at hfits hnum htorn
    rw [List.length_append] at htorn
    obtain ⟨hnum1, hnum2⟩ := numbered_append.mp hnum
    have hcount : group.length < (encodeAll group).length + 1 := by
      have := sizeAll_length_le group
      rw [encodeAll_length]
      omega
    have hloop := @anchorsLoop_eq part [] group [] a _ (fun r hr => hfits r (List.mem_append_left _ hr)) hnum1
      (.inl rfl) hcount
    rw [List.nil_append, List.length_nil, List.append_nil, if_pos (by decide)] at hloop
    have hshift : ((partFiles groups current torn).mapIdx fun i file => (part + (i + 1), file)) =
        (partFiles groups current torn).mapIdx fun i file => (part + 1 + i, file) := by
      congr 1
      funext i file
      rw [Nat.add_right_comm, Nat.add_assoc]
    rw [partFiles, List.map_cons, List.cons_append, ← partFiles, List.mapIdx_cons, anchorScan, Nat.add_zero, hloop,
      List.cons_append, partAnchors]
    simp only
    rw [hshift, anchorScan_eq (fun r hr => hfits r (List.mem_append_right _ hr)) hnum2
      (by rwa [← Nat.add_assoc] at htorn)]

end Parts

theorem isSome_of_mem_segs {d : Dir} {N : ℕ} {seg : Seg} (h : seg ∈ d.incarnationSegs N) : (d.partData seg).isSome := by
  rw [Dir.partData, Option.isSome_map]
  exact (mem_incarnationSegs.mp h).1

namespace Holds

variable {d : Dir} {N : ℕ} {groups : List (List Record)} {current : List Record} {torn : Bytes}

theorem segs (h : Holds d N groups current torn) :
    d.incarnationSegs N = (List.range' 1 (groups.length + 1)).map fun part => ⟨N, part⟩ := by
  have := (incarnation_files h.zero h.files).1
  rwa [partFiles, List.length_append, List.length_map] at this

theorem data (h : Holds d N groups current torn) :
    (d.incarnationSegs N).map (fun seg => (d.partData seg).getD []) = partFiles groups current torn :=
  (incarnation_files h.zero h.files).2

/-- **The anchors of an incarnation** are its checkpoints. -/
theorem checkpointAnchors_eq (h : Holds d N groups current torn) :
    checkpointAnchors d N = .ok (partAnchors 1 (groups ++ [current])) := by
  have hfiles : (d.incarnationSegs N).map (fun seg => (seg.part, (d.partData seg).getD [])) =
      (partFiles groups current torn).mapIdx fun i file => (1 + i, file) := by
    rw [← h.data]
    refine List.ext_getElem (by simp) fun i hi hi' => ?_
    simp only [List.getElem_map, List.getElem_mapIdx, h.segs, List.getElem_range', Nat.one_mul]
  rw [checkpointAnchors, incarnationParts_eq h.segs]
  simp only [hfiles]
  rw [anchorScan_eq h.fits h.numbered h.torn]

/-- A stream from the start. -/
theorem reads_open (h : Holds d N groups current torn) :
    ∃ s, SegmentStream.open d N = .ok s ∧ SegmentStream.Reads d s (groups.flatten ++ current) := by
  refine ⟨⟨d.incarnationSegs N, 0, 0, 1, false⟩, by rw [SegmentStream.open, incarnationParts_eq h.segs],
    fun _ => isSome_of_mem_segs, ?_, h.bound⟩
  have hrem : (⟨d.incarnationSegs N, 0, 0, 1, false⟩ : SegmentStream).remaining d = partFiles groups current torn := by
    rw [← h.data]
    simp only [SegmentStream.remaining, Bool.false_eq_true, if_false, List.drop_zero]
    rcases d.incarnationSegs N with _ | ⟨seg, segs⟩ <;> rfl
  rw [hrem]
  exact streamRecords_parts h.fits h.numbered h.bound h.torn

end Holds

/-- An anchor is a checkpoint of one of the parts. -/
theorem mem_groupAnchors {part : ℕ} {anchor : CheckpointAnchor} : ∀ {group : List Record} {offset : ℕ},
    anchor ∈ groupAnchors part offset group → ∃ pre r post, group = pre ++ r :: post ∧
      r.kind = .checkpointRef ∧ filteredOffsetOf r.payload = some anchor.filteredOffset ∧ anchor.seq = r.seq ∧
      anchor.part = part ∧ anchor.recordEndOffset = offset + sizeAll (pre ++ [r])
  | r :: rs, offset, h => by
    rcases List.mem_append.mp h with h | h
    · unfold anchorOf at h
      split at h
      · rename_i hk
        rw [Option.mem_toList, Option.map_eq_some_iff] at h
        obtain ⟨filtered, hf, rfl⟩ := h
        exact ⟨[], r, rs, rfl, hk, hf, rfl, rfl, by simp [sizeAll]⟩
      · cases h
    · obtain ⟨pre, r', post, rfl, h1, h2, h3, h4, h5⟩ := mem_groupAnchors h
      refine ⟨r :: pre, r', post, rfl, h1, h2, h3, h4, ?_⟩
      rw [h5, List.cons_append, sizeAll_cons]
      omega

theorem mem_partAnchors {anchor : CheckpointAnchor} : ∀ {groups : List (List Record)} {part : ℕ},
    anchor ∈ partAnchors part groups → ∃ gs1 pre r post gs2, groups = gs1 ++ (pre ++ r :: post) :: gs2 ∧
      r.kind = .checkpointRef ∧ filteredOffsetOf r.payload = some anchor.filteredOffset ∧ anchor.seq = r.seq ∧
      anchor.part = part + gs1.length ∧ anchor.recordEndOffset = sizeAll (pre ++ [r])
  | group :: groups, part, h => by
    rcases List.mem_append.mp h with h | h
    · obtain ⟨pre, r, post, rfl, h1, h2, h3, h4, h5⟩ := mem_groupAnchors h
      exact ⟨[], pre, r, post, groups, rfl, h1, h2, h3, h4, by rw [h5, Nat.zero_add]⟩
    · obtain ⟨gs1, pre, r, post, gs2, rfl, h1, h2, h3, h4, h5⟩ := mem_partAnchors h
      refine ⟨group :: gs1, pre, r, post, gs2, rfl, h1, h2, h3, ?_, h5⟩
      rw [h4, List.length_cons]
      omega

/-- A part that goes on behind a record, and the parts after it. -/
theorem drop_partFiles {groups gs1 gs2 : List (List Record)} {current pre post : List Record} {r : Record} {torn : Bytes}
    (h : groups ++ [current] = gs1 ++ (pre ++ r :: post) :: gs2) :
    ∃ groups' current', groups'.flatten ++ current' = post ++ gs2.flatten ∧
      ((partFiles groups current torn)[gs1.length]?.getD []).drop (sizeAll (pre ++ [r])) ::
        (partFiles groups current torn).drop (gs1.length + 1) = partFiles groups' current' torn := by
  have hfile : ∀ t, (encodeAll (pre ++ r :: post) ++ t).drop (sizeAll (pre ++ [r])) = encodeAll post ++ t := by
    intro t
    have hsplit : encodeAll (pre ++ r :: post) ++ t = encodeAll (pre ++ [r]) ++ (encodeAll post ++ t) := by simp
    rw [hsplit, List.drop_left' (encodeAll_length _)]
  rcases List.eq_nil_or_concat gs2 with rfl | ⟨gs2, last, rfl⟩
  · obtain ⟨rfl, hc⟩ := List.append_inj' h rfl
    cases hc
    refine ⟨[], post, by simp, ?_⟩
    have hget : (partFiles groups (pre ++ r :: post) torn)[groups.length]?.getD [] =
        encodeAll (pre ++ r :: post) ++ torn := by simp [partFiles]
    rw [hget, hfile, List.drop_eq_nil_of_le (by simp [partFiles])]
    rfl
  · rw [List.concat_eq_append] at h ⊢
    rw [← List.cons_append, ← List.append_assoc] at h
    obtain ⟨rfl, hc⟩ := List.append_inj' h rfl
    cases hc
    refine ⟨post :: gs2, current, by simp, ?_⟩
    have hfiles : partFiles (gs1 ++ (pre ++ r :: post) :: gs2) current torn =
        gs1.map encodeAll ++ encodeAll (pre ++ r :: post) :: partFiles gs2 current torn := by simp [partFiles]
    have hget : (partFiles (gs1 ++ (pre ++ r :: post) :: gs2) current torn)[gs1.length]?.getD [] =
        encodeAll (pre ++ r :: post) ++ [] := by
      rw [hfiles, List.getElem?_append_right (by simp)]
      simp
    have hdrop : (partFiles (gs1 ++ (pre ++ r :: post) :: gs2) current torn).drop (gs1.length + 1) =
        partFiles gs2 current torn := by
      rw [hfiles, ← List.drop_drop, List.drop_left' (by simp)]
      rfl
    rw [hget, hfile, hdrop, List.append_nil]
    rfl

/-- **A stream from an anchor** reads the records behind the checkpoint, which is the
record of the anchor's number. -/
theorem Holds.reads_openAt_seq {d : Dir} {N : ℕ} {groups : List (List Record)} {current : List Record} {torn : Bytes}
    (h : Holds d N groups current torn) {anchor : CheckpointAnchor}
    (hmem : anchor ∈ partAnchors 1 (groups ++ [current])) :
    ∃ pre r post s, groups.flatten ++ current = pre ++ r :: post ∧ r.kind = .checkpointRef ∧
      filteredOffsetOf r.payload = some anchor.filteredOffset ∧ SegmentStream.openAt d N anchor = .ok s ∧
      SegmentStream.Reads d s post ∧ anchor.seq = pre.length + 1 := by
  obtain ⟨gs1, pre, r, post, gs2, hgroups, hkind, hoff, hseq, hpart, hend⟩ := mem_partAnchors hmem
  obtain ⟨groups', current', hrest, hfiles⟩ := @drop_partFiles _ _ _ _ _ _ _ torn hgroups
  -- the records before the checkpoint, and behind it
  have hrecords : groups.flatten ++ current = (gs1.flatten ++ pre) ++ r :: (post ++ gs2.flatten) := by
    have := congrArg List.flatten hgroups
    simpa using this
  have hnum := h.numbered
  rw [hrecords] at hnum
  obtain ⟨-, hnum2⟩ := numbered_append.mp hnum
  obtain ⟨hrseq, hnum3⟩ := numbered_cons.mp hnum2
  have hlen : (groups.flatten ++ current).length =
      (gs1.flatten ++ pre).length + (1 + (groups'.flatten ++ current').length) := by
    rw [hrecords, hrest, List.length_append, List.length_cons]
    omega
  have hbound := h.bound
  have htorn := h.torn
  rw [hlen] at hbound htorn
  have hstart : anchor.seq + 1 = 1 + (gs1.flatten ++ pre).length + 1 := by rw [hseq, hrseq]
  refine ⟨gs1.flatten ++ pre, r, post ++ gs2.flatten,
    ⟨d.incarnationSegs N, gs1.length, anchor.recordEndOffset, anchor.seq + 1, false⟩, hrecords, hkind, hoff, ?_, ?_,
    by omega⟩
  · have hlt : gs1.length < groups.length + 1 := by
      have := congrArg List.length hgroups
      simp only [List.length_append, List.length_cons, List.length_nil] at this
      omega
    have hfind : (d.incarnationSegs N).findIdx? (fun seg => seg.part = anchor.part) = some gs1.length := by
      rw [h.segs, hpart, List.findIdx?_eq_some_iff_getElem]
      refine ⟨by simpa using hlt, by simp, fun j hj => ?_⟩
      simp
      omega
    rw [SegmentStream.openAt, incarnationParts_eq h.segs]
    simp only [hfind]
  · have hrem : (⟨d.incarnationSegs N, gs1.length, anchor.recordEndOffset, anchor.seq + 1, false⟩ :
        SegmentStream).remaining d = partFiles groups' current' torn := by
      have hlt : gs1.length < (d.incarnationSegs N).length := by
        have := congrArg List.length hgroups
        rw [h.segs]
        simp only [List.length_append, List.length_cons, List.length_nil, List.length_map, List.length_range'] at this ⊢
        omega
      rw [← hfiles, ← h.data, hend, List.getElem?_map, List.getElem?_eq_getElem hlt, ← List.map_drop]
      simp only [SegmentStream.remaining, Bool.false_eq_true, if_false, List.drop_eq_getElem_cons hlt]
      rfl
    refine ⟨fun _ => isSome_of_mem_segs, ?_, ?_⟩
    · rw [hrem, ← hrest]
      simp only [hstart]
      refine streamRecords_parts (fun x hx => h.fits x ?_) (by rw [hrest]; exact hnum3) (by omega) ?_
      · rw [hrest] at hx
        rw [hrecords]
        exact List.mem_append_right _ (List.mem_cons_of_mem _ hx)
      · have : 1 + ((gs1.flatten ++ pre).length + (1 + (groups'.flatten ++ current').length)) =
            1 + (gs1.flatten ++ pre).length + 1 + (groups'.flatten ++ current').length := by omega
        rwa [this] at htorn
    · rw [← hrest]
      simp only [hstart]
      omega

theorem Holds.reads_openAt {d : Dir} {N : ℕ} {groups : List (List Record)} {current : List Record} {torn : Bytes}
    (h : Holds d N groups current torn) {anchor : CheckpointAnchor}
    (hmem : anchor ∈ partAnchors 1 (groups ++ [current])) :
    ∃ pre r post s, groups.flatten ++ current = pre ++ r :: post ∧ r.kind = .checkpointRef ∧
      filteredOffsetOf r.payload = some anchor.filteredOffset ∧ SegmentStream.openAt d N anchor = .ok s ∧
      SegmentStream.Reads d s post := by
  obtain ⟨pre, r, post, s, hrecords, hkind, hoff, hs, hreads, -⟩ := h.reads_openAt_seq hmem
  exact ⟨pre, r, post, s, hrecords, hkind, hoff, hs, hreads⟩

end Journal
end OpenRelay
