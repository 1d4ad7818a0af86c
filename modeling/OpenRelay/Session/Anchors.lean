/-
# Anchors and the scan

`checkpoint_anchors` finds the checkpoints of an incarnation by a walk over record
headers; the validated scan also looks at versions, kinds and checksums
(`session/journal/checkpoint.rs`, `session/journal/scan.rs`). What the walk gives
begins with exactly the checkpoints that the scan yields, whatever the parts hold
(`anchorScan_yielded`). Behind the place where the scan ends it may find more: it
does not read payloads, so it goes on past an altered one (`altered_payload_anchors`).

It finds no more if the scan ends where a header walk ends as well: at the end of
the incarnation, at a wrong magic or number, or at a record that is cut off and that
no later part goes on with (`Seen`). So it is with parts that were written in order
and cut off anywhere (`seen_of_torn`).

Key theorems: `walk_parse`, `anchors_begin_with_yielded`.
-/
import OpenRelay.Journal.ScanModes
import OpenRelay.Journal.StreamEnd
import OpenRelay.Session.Replay

namespace OpenRelay
namespace Session

open Journal LittleEndian

/-! ### What the scan yields -/

/-- A record that the scan yields, with its part and the place where it ends there. -/
structure Placed where
  part : ℕ
  endOffset : ℕ
  record : Record
  deriving DecidableEq, Repr

/-- Records that stand one behind another in a part from `offset` on, each with where it ends. -/
def placed (part : ℕ) : ℕ → List Record → List Placed
  | _, [] => []
  | offset, r :: rs => ⟨part, offset + r.size, r⟩ :: placed part (offset + r.size) rs

/-- The records of the validated scan of numbered parts, from sequence number `a` on. -/
def yielded : ℕ → List (ℕ × Bytes) → List Placed
  | _, [] => []
  | a, (part, file) :: more =>
    match parseRecords (some a) file with
    | (rs, .cleanEof) => placed part 0 rs ++ yielded (a + rs.length) more
    | (rs, _) => placed part 0 rs

/-- The anchor of a checkpoint whose payload has an offset. -/
def Placed.anchor (p : Placed) : Option CheckpointAnchor :=
  if p.record.kind = .checkpointRef then
    (filteredOffsetOf p.record.payload).map fun filtered => ⟨p.record.seq, p.part, p.endOffset, filtered⟩
  else none

/-- The parts of an incarnation with their numbers. -/
def partFilesOf (d : Dir) (N : ℕ) : List (ℕ × Bytes) :=
  (d.incarnationSegs N).map fun seg => (seg.part, (d.partData seg).getD [])

/-- The scan ends where a walk over headers ends too. -/
def Seen : ℕ → List (ℕ × Bytes) → Prop
  | _, [] => True
  | a, (_, file) :: more =>
    match parseRecords (some a) file with
    | (rs, .cleanEof) => Seen (a + rs.length) more
    | (_, .invalidHeader) => True
    | (_, .sequenceDiscontinuity) => True
    -- the record has its header, or no part goes on with its number
    | (rs, .partialTail) => headerLen ≤ (file.drop (sizeAll rs)).length ∨
        ∀ p ∈ more, p.2.length < headerLen ∨ leNat (field p.2 12 8) ≠ a + rs.length
    | (_, _) => False

section Placed

theorem placed_record (part : ℕ) : ∀ (offset : ℕ) (rs : List Record), (placed part offset rs).map Placed.record = rs
  | _, [] => rfl
  | offset, r :: rs => by rw [placed, List.map_cons, placed_record part (offset + r.size) rs]

theorem groupAnchors_eq (part : ℕ) : ∀ (offset : ℕ) (rs : List Record),
    groupAnchors part offset rs = (placed part offset rs).filterMap Placed.anchor
  | _, [] => rfl
  | offset, r :: rs => by
    rw [groupAnchors, groupAnchors_eq part (offset + r.size) rs, placed, List.filterMap_cons, anchorOf, Placed.anchor]
    dsimp only
    by_cases hkind : r.kind = .checkpointRef
    · rw [if_pos hkind, if_pos hkind]
      rcases filteredOffsetOf r.payload with _ | filtered <;> rfl
    · rw [if_neg hkind, if_neg hkind]
      rfl

/-- What the scan yields is what a reader of the incarnation is told. -/
theorem yielded_record : ∀ (files : List (ℕ × Bytes)) (i a : ℕ),
    (yielded a files).map Placed.record = (tell i a (files.map Prod.snd)).1
  | [], _, _ => rfl
  | (part, file) :: more, i, a => by
    rw [List.map_cons]
    rcases hp : parseRecords (some a) file with ⟨rs, stop⟩
    unfold yielded
    rw [hp]
    cases stop with
    | cleanEof =>
      rw [tell_clean hp]
      show (placed part 0 rs ++ yielded (a + rs.length) more).map Placed.record = _
      rw [List.map_append, placed_record, yielded_record more (i + 1)]
    | partialTail =>
      rw [tell_torn hp]
      exact placed_record part 0 rs
    | invalidHeader | unsupportedVersion | unknownKind | oversizeLength | crcMismatch | sequenceDiscontinuity =>
      rw [tell_corrupt hp (by nofun) (by nofun)]
      exact placed_record part 0 rs

end Placed

/-! ### The walk over one part -/

section Walk

variable {part : ℕ} {file : Bytes}

/-- What a header that was read says about its bytes. -/
theorem readHeader_ok {rest : Bytes} {header : RecordHeader} (h : readHeader rest = .ok header) :
    rest.take 4 = recordMagic ∧ RecordKind.fromU16 (leNat (field rest 6 2)) = some header.kind ∧
      leNat (field rest 12 8) = header.seq ∧ leNat (field rest 28 4) = header.payloadLen := by
  unfold readHeader at h
  by_cases hnil : rest = []
  · rw [if_pos hnil] at h
    cases h
  by_cases hshort : rest.length < headerLen
  · rw [if_neg hnil, if_pos hshort] at h
    cases h
  by_cases hmagic : rest.take 4 ≠ recordMagic
  · rw [if_neg hnil, if_neg hshort, if_pos hmagic] at h
    cases h
  by_cases hversion : leNat (field rest 4 2) ≠ recordVersion
  · rw [if_neg hnil, if_neg hshort, if_neg hmagic, if_pos hversion] at h
    cases h
  rw [if_neg hnil, if_neg hshort, if_neg hmagic, if_neg hversion] at h
  rcases hkind : RecordKind.fromU16 (leNat (field rest 6 2)) with _ | kind
  · rw [hkind] at h
    cases h
  rw [hkind] at h
  dsimp only at h
  by_cases hbig : maxPayloadLen < leNat (field rest 28 4)
  · rw [if_pos hbig] at h
    cases h
  · rw [if_neg hbig] at h
    cases h
    exact ⟨not_not.mp hmagic, rfl, rfl, rfl⟩

/-- Why no header is read. -/
theorem readHeader_error {rest : Bytes} {stop : ScanStop} (h : readHeader rest = .error stop) :
    (stop = .cleanEof ∧ rest = []) ∨ (stop = .partialTail ∧ rest.length < headerLen) ∨
      (stop = .invalidHeader ∧ headerLen ≤ rest.length ∧ rest.take 4 ≠ recordMagic) ∨
      stop = .unsupportedVersion ∨ stop = .unknownKind ∨ stop = .oversizeLength := by
  unfold readHeader at h
  by_cases hnil : rest = []
  · rw [if_pos hnil] at h
    cases h
    exact .inl ⟨rfl, hnil⟩
  by_cases hshort : rest.length < headerLen
  · rw [if_neg hnil, if_pos hshort] at h
    cases h
    exact .inr (.inl ⟨rfl, hshort⟩)
  by_cases hmagic : rest.take 4 ≠ recordMagic
  · rw [if_neg hnil, if_neg hshort, if_pos hmagic] at h
    cases h
    exact .inr (.inr (.inl ⟨rfl, not_lt.mp hshort, hmagic⟩))
  refine .inr (.inr (.inr ?_))
  by_cases hversion : leNat (field rest 4 2) ≠ recordVersion
  · rw [if_neg hnil, if_neg hshort, if_neg hmagic, if_pos hversion] at h
    cases h
    exact .inl rfl
  rw [if_neg hnil, if_neg hshort, if_neg hmagic, if_neg hversion] at h
  rcases hkind : RecordKind.fromU16 (leNat (field rest 6 2)) with _ | kind
  · rw [hkind] at h
    cases h
    exact .inr (.inl rfl)
  rw [hkind] at h
  dsimp only at h
  by_cases hbig : maxPayloadLen < leNat (field rest 28 4)
  · rw [if_pos hbig] at h
    cases h
    exact .inr (.inr rfl)
  · rw [if_neg hbig] at h
    cases h

/-- The fields of a header that a record was read from. -/
theorem readRecord_fields {rest : Bytes} {r : Record} (h : readRecord rest = .ok r) :
    headerLen ≤ rest.length ∧ rest.take 4 = recordMagic ∧ leNat (field rest 12 8) = r.seq ∧
      leNat (field rest 28 4) = r.payload.length ∧ RecordKind.fromU16 (leNat (field rest 6 2)) = some r.kind ∧
      r.payload = (rest.drop headerLen).take r.payload.length := by
  unfold readRecord at h
  rcases hheader : readHeader rest with stop | header
  · rw [hheader] at h
    cases h
  rw [hheader] at h
  dsimp only at h
  rcases hpayload : readPayload header (rest.drop headerLen) with stop | payload
  · rw [hpayload] at h
    cases h
  rw [hpayload] at h
  cases h
  obtain ⟨hle, htake, -⟩ := readPayload_ok hpayload
  have hlen : payload.length = header.payloadLen := by
    rw [htake, List.length_take, Nat.min_eq_left hle]
  obtain ⟨hmagic, hkind, hseq, hpay⟩ := readHeader_ok hheader
  refine ⟨(readHeader_take hheader).1, hmagic, hseq, hpay.trans hlen.symm, hkind, ?_⟩
  show payload = _
  rw [hlen]
  exact htake

/-- Why no record is read: there is no header, or no payload. -/
theorem readRecord_error {rest : Bytes} {stop : ScanStop} (h : readRecord rest = .error stop) :
    readHeader rest = .error stop ∨
      (stop = .partialTail ∧ rest.length < headerLen + leNat (field rest 28 4)) ∨ stop = .crcMismatch := by
  unfold readRecord at h
  rcases hheader : readHeader rest with stop' | header
  · rw [hheader] at h
    cases h
    exact .inl rfl
  · rw [hheader] at h
    dsimp only at h
    unfold readPayload at h
    by_cases hcut : (rest.drop headerLen).length < header.payloadLen
    · rw [if_pos hcut] at h
      cases h
      have hfull := (readHeader_take hheader).1
      rw [List.length_drop, ← (readHeader_ok hheader).2.2.2] at hcut
      exact .inr (.inl ⟨rfl, by omega⟩)
    · rw [if_neg hcut] at h
      split_ifs at h
      cases h
      exact .inr (.inr rfl)

/-- One valid record of the walk. -/
theorem walk_record {turns pos a : ℕ} {r : Record} (h : readRecord (file.drop pos) = .ok r) (hseq : r.seq = a) :
    anchorsLoop part file (turns + 1) pos a =
      (anchorOf part pos r ++ (anchorsLoop part file turns (pos + r.size) (a + 1)).1,
        (anchorsLoop part file turns (pos + r.size) (a + 1)).2) := by
  obtain ⟨hfull, hmagic, hnum, hpay, hkind, hpayload⟩ := readRecord_fields h
  have hsize := (readRecord_ok h).2.1
  have hend : ¬ file.length < pos + headerLen + r.payload.length := by
    rw [List.length_drop, Record.size] at hsize
    rw [List.length_drop] at hfull
    have : 0 < headerLen := by decide
    omega
  have hnext : pos + headerLen + r.payload.length = pos + r.size := by
    rw [Record.size]
    omega
  have hkind' : leNat (field (file.drop pos) 6 2) = RecordKind.checkpointRef.toU16 ↔ r.kind = .checkpointRef := by
    constructor
    · intro heq
      rw [heq] at hkind
      exact (Option.some.inj hkind).symm
    · intro heq
      rw [heq] at hkind
      revert hkind
      generalize leNat (field (file.drop pos) 6 2) = n
      intro hn
      unfold RecordKind.fromU16 at hn
      split at hn <;> first | rfl | cases hn
  rw [anchorsLoop]
  dsimp only
  rw [if_neg (not_lt.mpr hfull), if_neg (not_not_intro hmagic), hnum, if_neg (not_not_intro hseq), hpay, if_neg hend, hnext]
  by_cases hk : r.kind = .checkpointRef
  · by_cases hfix : checkpointFixedHeaderLen ≤ r.payload.length
    · have hfixed : (file.drop pos |>.drop headerLen).take checkpointFixedHeaderLen =
          r.payload.take checkpointFixedHeaderLen := by
        conv_rhs => rw [hpayload]
        rw [List.take_take, Nat.min_eq_left hfix]
      rw [hfixed]
      by_cases hv : 2 ≤ leNat (field (r.payload.take checkpointFixedHeaderLen) 4 2)
      · rw [if_pos ⟨hkind'.mpr hk, hfix, hv⟩, anchorOf, if_pos hk, filteredOffsetOf, if_pos ⟨hfix, hv⟩, hseq]
        rfl
      · rw [if_neg fun hc => hv hc.2.2, anchorOf, if_pos hk, filteredOffsetOf, if_neg fun hc => hv hc.2]
        rfl
    · rw [if_neg fun hc => hfix hc.2.1, anchorOf, if_pos hk, filteredOffsetOf, if_neg fun hc => hfix hc.1]
      rfl
  · rw [if_neg fun hc => hk (hkind'.mp hc.1), anchorOf, if_neg hk]
    rfl

/-- The walk gives numbers from the expected one on. -/
theorem walk_seq_le : ∀ {turns pos a : ℕ}, (∀ anchor ∈ (anchorsLoop part file turns pos a).1, a ≤ anchor.seq) ∧
    ∀ next, (anchorsLoop part file turns pos a).2 = some next → a ≤ next
  | 0, _, _ => ⟨fun _ h => (by cases h), fun _ h => (Option.some.inj h).le⟩
  | turns + 1, pos, a => by
    rw [anchorsLoop]
    dsimp only
    split_ifs
    · exact ⟨fun _ h => (by cases h), fun _ h => (Option.some.inj h).le⟩
    · exact ⟨fun _ h => (by cases h), fun _ h => by cases h⟩
    · exact ⟨fun _ h => (by cases h), fun _ h => by cases h⟩
    · exact ⟨fun _ h => (by cases h), fun _ h => by cases h⟩
    · obtain ⟨hmore, hnext⟩ := @walk_seq_le turns (pos + headerLen + leNat (field (file.drop pos) 28 4)) (a + 1)
      refine ⟨fun anchor hmem => ?_, fun next h => (Nat.le_succ a).trans (hnext next h)⟩
      rcases List.mem_cons.mp hmem with rfl | hmem
      · exact le_rfl
      · exact (Nat.le_succ a).trans (hmore anchor hmem)
    · obtain ⟨hmore, hnext⟩ := @walk_seq_le turns (pos + headerLen + leNat (field (file.drop pos) 28 4)) (a + 1)
      exact ⟨fun anchor hmem => (Nat.le_succ a).trans (hmore anchor hmem),
        fun next h => (Nat.le_succ a).trans (hnext next h)⟩

theorem readRecord_invalidHeader {rest : Bytes} (h : readRecord rest = .error .invalidHeader) :
    headerLen ≤ rest.length ∧ rest.take 4 ≠ recordMagic := by
  rcases readRecord_error h with h | ⟨h, -⟩ | h
  · rcases readHeader_error h with ⟨h, -⟩ | ⟨h, -⟩ | ⟨-, h⟩ | h | h | h
    · cases h
    · cases h
    · exact h
    · cases h
    · cases h
    · cases h
  · cases h
  · cases h

theorem readRecord_partialTail {rest : Bytes} (h : readRecord rest = .error .partialTail) :
    rest.length < headerLen ∨ rest.length < headerLen + leNat (field rest 28 4) := by
  rcases readRecord_error h with h | ⟨-, h⟩ | h
  · rcases readHeader_error h with ⟨h, -⟩ | ⟨-, h⟩ | ⟨h, -⟩ | h | h | h
    · cases h
    · exact .inl h
    · cases h
    · cases h
    · cases h
    · cases h
  · exact .inr h
  · cases h

/-- Reading a record never ends at its number. -/
theorem readRecord_ne_break {rest : Bytes} : readRecord rest ≠ .error .sequenceDiscontinuity := by
  intro h
  rcases readRecord_error h with h | ⟨h, -⟩ | h
  · rcases readHeader_error h with ⟨h, -⟩ | ⟨h, -⟩ | ⟨h, -⟩ | h | h | h <;> cases h
  · cases h
  · cases h

/-- What the walk gives behind the records, by the way the scan ends: `rest` is what is
left of the part, and `a` the next number. -/
structure WalkEnd (rest : Bytes) (a : ℕ) (stop : ScanStop) (found : List CheckpointAnchor × Option ℕ) : Prop where
  later : ∀ anchor ∈ found.1, a ≤ anchor.seq
  next : ∀ n, found.2 = some n → a ≤ n
  clean : stop = .cleanEof → found = ([], some a)
  torn : stop = .partialTail → found = ([], if rest.length < headerLen then some a else none)
  seen : stop = .invalidHeader ∨ stop = .sequenceDiscontinuity → found = ([], none)

/-- Where no record is read. -/
theorem walk_stop {turns pos a : ℕ} {stop : ScanStop} (h : readRecord (file.drop pos) = .error stop)
    (hbreak : stop ≠ .sequenceDiscontinuity) :
    WalkEnd (file.drop pos) a stop (anchorsLoop part file (turns + 1) pos a) := by
  refine ⟨walk_seq_le.1, walk_seq_le.2, fun hclean => ?_, fun htorn => ?_, fun hseen => ?_⟩
  · rw [hclean] at h
    have hlen : (file.drop pos).length < headerLen := by
      rw [readRecord_cleanEof h]
      decide
    rw [anchorsLoop]
    dsimp only
    rw [if_pos hlen]
  · rw [htorn] at h
    rw [anchorsLoop]
    dsimp only
    by_cases hshort : (file.drop pos).length < headerLen
    · rw [if_pos hshort, if_pos hshort]
    · rw [if_neg hshort, if_neg hshort]
      have hcut := (readRecord_partialTail h).resolve_left hshort
      rw [List.length_drop] at hcut
      have hheader : 0 < headerLen := by decide
      have hend : file.length < pos + headerLen + leNat (field (file.drop pos) 28 4) := by
        rw [List.length_drop] at hshort
        omega
      split_ifs <;> rfl
  · obtain rfl := hseen.resolve_right hbreak
    obtain ⟨hfull, hmagic⟩ := readRecord_invalidHeader h
    rw [anchorsLoop]
    dsimp only
    rw [if_neg (not_lt.mpr hfull), if_pos hmagic]

/-- Where a record has another number. -/
theorem walk_break {turns pos a : ℕ} {r : Record} (h : readRecord (file.drop pos) = .ok r) (hseq : r.seq ≠ a) :
    anchorsLoop part file (turns + 1) pos a = ([], none) := by
  obtain ⟨hfull, hmagic, hnum, -⟩ := readRecord_fields h
  rw [anchorsLoop]
  dsimp only
  rw [if_neg (not_lt.mpr hfull), if_neg (not_not_intro hmagic), hnum, if_pos hseq]

/-- **The walk over a part.** It gives the checkpoints among the valid records, and
behind them what the headers there tell. -/
theorem walk_parse {turns pos a : ℕ} (hbound : a + (parseRecords (some a) (file.drop pos)).1.length < 2 ^ 64)
    (hturns : (parseRecords (some a) (file.drop pos)).1.length < turns) :
    ∃ found, anchorsLoop part file turns pos a =
        (groupAnchors part pos (parseRecords (some a) (file.drop pos)).1 ++ found.1, found.2) ∧
      WalkEnd ((file.drop pos).drop (sizeAll (parseRecords (some a) (file.drop pos)).1))
        (a + (parseRecords (some a) (file.drop pos)).1.length) (parseRecords (some a) (file.drop pos)).2 found := by
  refine parseRecords_induct (P := fun expected rest out => ∀ turns pos a, expected = some a → file.drop pos = rest →
    a + out.1.length < 2 ^ 64 → out.1.length < turns →
    ∃ found, anchorsLoop part file turns pos a = (groupAnchors part pos out.1 ++ found.1, found.2) ∧
      WalkEnd (rest.drop (sizeAll out.1)) (a + out.1.length) out.2 found) ?_ ?_ ?_ (some a) (file.drop pos)
    turns pos a rfl rfl hbound hturns
  · intro expected rest stop hread turns pos a _ hrest _ hturns
    obtain ⟨turns, rfl⟩ := Nat.exists_eq_succ_of_ne_zero (Nat.pos_iff_ne_zero.mp (Nat.zero_lt_of_lt hturns))
    rw [← hrest] at hread ⊢
    exact ⟨_, rfl, walk_stop hread fun hstop => readRecord_ne_break (hstop ▸ hread)⟩
  · intro expected rest r hread hbreak turns pos a ha hrest _ hturns
    obtain ⟨turns, rfl⟩ := Nat.exists_eq_succ_of_ne_zero (Nat.pos_iff_ne_zero.mp (Nat.zero_lt_of_lt hturns))
    rw [← hrest] at hread
    have hseq : r.seq ≠ a := by
      rw [ha] at hbreak
      simpa [breaksSeq] using hbreak
    refine ⟨([], none), walk_break hread hseq,
      ⟨fun _ h => (by cases h), fun _ h => (by cases h), fun h => (by cases h), fun h => (by cases h), fun _ => rfl⟩⟩
  · intro expected rest r rs stop hread hbreak _ ih turns pos a ha hrest hbound hturns
    obtain ⟨turns, rfl⟩ := Nat.exists_eq_succ_of_ne_zero (Nat.pos_iff_ne_zero.mp (Nat.zero_lt_of_lt hturns))
    have hseq : r.seq = a := by
      rw [ha] at hbreak
      simpa [breaksSeq] using hbreak
    simp only [List.length_cons] at hbound hturns ⊢
    have hnext : file.drop (pos + r.size) = rest.drop r.size := by rw [← hrest, List.drop_drop]
    have hmod : (r.seq + 1) % 2 ^ 64 = a + 1 := by
      rw [hseq]
      exact Nat.mod_eq_of_lt (by omega)
    obtain ⟨found, hloop, hend⟩ := ih turns (pos + r.size) (a + 1) (by rw [hmod]) hnext
      (by dsimp only; omega) (by dsimp only; omega)
    rw [← hrest] at hread
    refine ⟨found, ?_, ?_⟩
    · rw [walk_record hread hseq, hloop, groupAnchors, List.append_assoc]
    · rw [sizeAll_cons, ← List.drop_drop, Nat.add_comm rs.length 1, ← Nat.add_assoc]
      exact hend

end Walk

/-! ### The walk over an incarnation -/

theorem anchorScan_seq_le : ∀ {files : List (ℕ × Bytes)} {a : ℕ}, ∀ anchor ∈ anchorScan files a, a ≤ anchor.seq
  | [], _, _, h => by cases h
  | (part, file) :: more, a, anchor, h => by
    obtain ⟨hfirst, hnext⟩ := @walk_seq_le part file (file.length + 1) 0 a
    unfold anchorScan at h
    rcases hloop : anchorsLoop part file (file.length + 1) 0 a with ⟨anchors, _ | next⟩
    · rw [hloop] at h hfirst
      exact hfirst anchor h
    · rw [hloop] at h hfirst hnext
      rcases List.mem_append.mp h with h | h
      · exact hfirst anchor h
      · exact (hnext next rfl).trans (anchorScan_seq_le anchor h)

/-- Parts that do not go on with the number give no anchors. -/
theorem anchorScan_other : ∀ {files : List (ℕ × Bytes)} {a : ℕ},
    (∀ p ∈ files, p.2.length < headerLen ∨ leNat (field p.2 12 8) ≠ a) → anchorScan files a = []
  | [], _, _ => rfl
  | (part, file) :: more, a, h => by
    have hloop : anchorsLoop part file (file.length + 1) 0 a = ([], some a) ∨
        anchorsLoop part file (file.length + 1) 0 a = ([], none) := by
      rw [anchorsLoop]
      dsimp only
      rw [List.drop_zero]
      rcases h (part, file) List.mem_cons_self with hshort | hother
      · rw [if_pos hshort]
        exact .inl rfl
      · by_cases hshort : file.length < headerLen
        · rw [if_pos hshort]
          exact .inl rfl
        · rw [if_neg hshort]
          refine .inr ?_
          split_ifs <;> rfl
    unfold anchorScan
    rcases hloop with hloop | hloop
    · rw [hloop]
      exact anchorScan_other fun p hp => h p (List.mem_cons_of_mem _ hp)
    · rw [hloop]

theorem numbered_lt {a : ℕ} : ∀ {rs : List Record} {r : Record}, Numbered a rs → r ∈ rs → r.seq < a + rs.length
  | r' :: rs, r, h, hmem => by
    obtain ⟨hseq, hrest⟩ := numbered_cons.mp h
    rw [List.length_cons]
    rcases List.mem_cons.mp hmem with rfl | hmem
    · omega
    · have := numbered_lt hrest hmem
      omega

/-- **The walk over an incarnation** begins with the checkpoints that the scan yields.
Any more it finds stand behind them, and there are none where the scan's end is
seen. -/
theorem anchorScan_yielded : ∀ {files : List (ℕ × Bytes)} {a : ℕ}, a + (yielded a files).length < 2 ^ 64 →
    ∃ behind, anchorScan files a = (yielded a files).filterMap Placed.anchor ++ behind ∧
      (∀ anchor ∈ behind, ∀ p ∈ yielded a files, p.record.seq < anchor.seq) ∧ (Seen a files → behind = [])
  | [], _, _ => ⟨[], rfl, nofun, fun _ => rfl⟩
  | (part, file) :: more, a, hbound => by
    rcases hparse : parseRecords (some a) file with ⟨rs, stop⟩
    have hyielded : yielded a ((part, file) :: more) =
        placed part 0 rs ++ if stop = .cleanEof then yielded (a + rs.length) more else [] := by
      rw [yielded, hparse]
      by_cases hclean : stop = .cleanEof
      · rw [if_pos hclean, hclean]
      · rw [if_neg hclean, List.append_nil]
        cases stop <;> first | rfl | exact absurd rfl hclean
    have hlen : (placed part 0 rs).length = rs.length := by
      rw [← List.length_map Placed.record, placed_record]
    rw [hyielded, List.length_append, hlen] at hbound
    have hfirst := @walk_parse part file (file.length + 1) 0 a
    rw [List.drop_zero, hparse] at hfirst
    have hturns : rs.length < file.length + 1 := by
      have hsize := sizeAll_parseRecords_le (some a) file
      have hcount := sizeAll_length_le rs
      rw [hparse] at hsize
      dsimp only at hsize
      omega
    obtain ⟨found, hloop, hend⟩ := hfirst (by dsimp only; omega) hturns
    dsimp only at hloop hend
    have hnumbered : ∀ p ∈ placed part 0 rs, p.record.seq < a + rs.length := by
      intro p hp
      have hmem : p.record ∈ rs := by
        rw [← placed_record part 0 rs]
        exact List.mem_map_of_mem hp
      have hnum : Numbered a rs := by
        have := @parseRecords_numbered a file (by rw [hparse]; dsimp only; omega)
        rwa [hparse] at this
      exact numbered_lt hnum hmem
    rw [hyielded, List.filterMap_append, ← groupAnchors_eq]
    by_cases hclean : stop = .cleanEof
    · subst hclean
      rw [if_pos rfl] at hbound ⊢
      obtain ⟨behind, hscan, hlater, hseen⟩ := @anchorScan_yielded more (a + rs.length) (by omega)
      refine ⟨behind, ?_, fun anchor hanchor p hp => ?_, fun h => ?_⟩
      · unfold anchorScan
        rw [hloop, hend.clean rfl, List.append_nil]
        dsimp only
        rw [hscan, List.append_assoc]
      · rcases List.mem_append.mp hp with hp | hp
        · have hge : a + rs.length ≤ anchor.seq :=
            anchorScan_seq_le anchor (by rw [hscan]; exact List.mem_append_right _ hanchor)
          have := hnumbered p hp
          omega
        · exact hlater anchor hanchor p hp
      · unfold Seen at h
        rw [hparse] at h
        exact hseen h
    · -- the scan ends here; the walk may go on
      rw [if_neg hclean, List.filterMap_nil, List.append_nil, List.append_nil]
      have hscan : anchorScan ((part, file) :: more) a = groupAnchors part 0 rs ++
          (found.1 ++ (found.2.map (anchorScan more)).getD []) := by
        unfold anchorScan
        rw [hloop]
        rcases found with ⟨anchors, _ | next⟩
        · simp
        · simp
      refine ⟨_, hscan, fun anchor hanchor p hp => ?_, fun h => ?_⟩
      · refine (hnumbered p hp).trans_le ?_
        rcases List.mem_append.mp hanchor with hanchor | hanchor
        · exact hend.later anchor hanchor
        · rcases hfound : found.2 with _ | next
          · rw [hfound] at hanchor
            cases hanchor
          · rw [hfound] at hanchor
            exact (hend.next next hfound).trans (anchorScan_seq_le anchor hanchor)
      · unfold Seen at h
        rw [hparse] at h
        cases stop with
        | cleanEof => exact absurd rfl hclean
        | invalidHeader =>
          rw [hend.seen (.inl rfl)]
          rfl
        | sequenceDiscontinuity =>
          rw [hend.seen (.inr rfl)]
          rfl
        | partialTail =>
          rw [hend.torn rfl]
          dsimp only at h
          by_cases hshort : (file.drop (sizeAll rs)).length < headerLen
          · rw [if_pos hshort]
            exact anchorScan_other (h.resolve_left (not_le.mpr hshort))
          · rw [if_neg hshort]
            rfl
        | unsupportedVersion | unknownKind | oversizeLength | crcMismatch => exact h.elim

/-! ### Parts that were cut off -/

/-- Parts that were written in order, from sequence number `a` on, and each cut off
anywhere. -/
structure TornParts (a : ℕ) (groups : List (List Record)) (files : List (ℕ × Bytes)) : Prop where
  fits : ∀ r ∈ groups.flatten, r.Fits
  numbered : Numbered a groups.flatten
  cut : List.Forall₂ (fun group p => p.2 <+: encodeAll group) groups files

section Torn

variable {a n : ℕ} {group : List Record} {groups : List (List Record)} {file : Bytes} {p : ℕ × Bytes}
  {more : List (ℕ × Bytes)}

theorem TornParts.tail (h : TornParts a (group :: groups) (p :: more)) : TornParts (a + group.length) groups more := by
  obtain ⟨hfits, hnum, hcut⟩ := h
  rw [List.flatten_cons] at hfits hnum
  cases hcut with
  | cons _ hcut => exact ⟨fun r hr => hfits r (List.mem_append_right _ hr), (numbered_append.mp hnum).2, hcut⟩

theorem TornParts.head (h : TornParts a (group :: groups) (p :: more)) :
    (∀ r ∈ group, r.Fits) ∧ Numbered a group ∧ p.2 <+: encodeAll group := by
  obtain ⟨hfits, hnum, hcut⟩ := h
  rw [List.flatten_cons] at hfits hnum
  cases hcut with
  | cons hcut _ => exact ⟨fun r hr => hfits r (List.mem_append_left _ hr), (numbered_append.mp hnum).1, hcut⟩

/-- What is left of a part begins with the number of its first record. -/
theorem first_number (hfits : ∀ r ∈ group, r.Fits) (hnum : Numbered a group) (hcut : file <+: encodeAll group) :
    file.length < headerLen ∨ leNat (field file 12 8) = a := by
  rcases group with _ | ⟨r, rs⟩
  · rw [encodeAll_nil, List.prefix_nil] at hcut
    rw [hcut]
    exact .inl (by decide)
  · by_cases hshort : file.length < headerLen
    · exact .inl hshort
    · refine .inr ?_
      have hhead : file = encodeRecordHeader r.kind r.seq r.elapsedMs r.payload ++ file.drop headerLen := by
        conv_lhs => rw [← List.take_append_drop headerLen file]
        congr 1
        rw [List.prefix_iff_eq_take.mp hcut, List.take_take, Nat.min_eq_left (not_lt.mp hshort), encodeAll_cons,
          Record.encode, List.append_assoc, List.take_left' (by simp)]
      have hseq := (hfits r List.mem_cons_self).seq
      rw [hhead, (header_fields r (file.drop headerLen)).2.2.1, leNat_leBytes (by simpa using hseq)]
      exact (numbered_cons.mp hnum).1

/-- How a part ends to a scan that expects an earlier number. -/
theorem parse_other (hfits : ∀ r ∈ group, r.Fits) (hnum : Numbered a group) (hcut : file <+: encodeAll group)
    (hlt : n < a) : parseRecords (some n) file = ([], .cleanEof) ∨ parseRecords (some n) file = ([], .partialTail) ∨
      parseRecords (some n) file = ([], .sequenceDiscontinuity) := by
  obtain ⟨j, torn, hj, hsplit, htorn⟩ := prefix_encodeAll hcut
  rcases htake : group.take j with _ | ⟨r, rs⟩
  · rw [htake, encodeAll_nil, List.nil_append] at hsplit
    rw [hsplit]
    rcases htorn with rfl | ⟨r, hr, hpre, hsize⟩
    · exact .inl rfl
    · have hread := readRecord_tail (hfits r (List.mem_of_getElem? hr)) hpre hsize
      rw [parseRecords_step, hread]
      split_ifs
      · exact .inl rfl
      · exact .inr (.inl rfl)
  · have hmem : r ∈ group := List.mem_of_mem_take (htake ▸ List.mem_cons_self)
    have hseq : r.seq = a := by
      rw [← List.take_append_drop j group, htake] at hnum
      exact (numbered_cons.mp hnum).1
    have hread : readRecord file = .ok r := by
      rw [hsplit, htake, encodeAll_cons, List.append_assoc]
      exact readRecord_encode (hfits r hmem) _
    have hbreak : breaksSeq (some n) r.seq = true := by
      rw [hseq]
      simp only [breaksSeq, Option.any_some, decide_eq_true_eq]
      omega
    rw [parseRecords_step, hread]
    dsimp only
    rw [if_pos hbreak]
    exact .inr (.inr rfl)

/-- Behind a record that is missing. -/
theorem seen_of_later : ∀ {files : List (ℕ × Bytes)} {groups : List (List Record)} {a n : ℕ}, TornParts a groups files →
    n < a → Seen n files ∧ ∀ p ∈ files, p.2.length < headerLen ∨ leNat (field p.2 12 8) ≠ n
  | [], _, _, _, _, _ => ⟨trivial, nofun⟩
  | (part, file) :: more, [], _, _, h, _ => by cases h.cut
  | (part, file) :: more, group :: groups, a, n, h, hlt => by
    obtain ⟨hfits, hnum, hcut⟩ := h.head
    obtain ⟨hmore, hothers⟩ := seen_of_later h.tail (hlt.trans_le (Nat.le_add_right a group.length))
    refine ⟨?_, fun p hp => ?_⟩
    · unfold Seen
      rcases parse_other hfits hnum hcut hlt with hparse | hparse | hparse
      · rw [hparse]
        exact hmore
      · rw [hparse]
        exact .inr hothers
      · rw [hparse]
        trivial
    · rcases List.mem_cons.mp hp with rfl | hp
      · exact (first_number hfits hnum hcut).imp_right fun h => by omega
      · exact hothers p hp

/-- **Where parts were cut off, the walk sees it.** -/
theorem seen_of_torn : ∀ {files : List (ℕ × Bytes)} {groups : List (List Record)} {a : ℕ}, TornParts a groups files →
    Seen a files
  | [], _, _, _ => trivial
  | (part, file) :: more, [], _, h => by cases h.cut
  | (part, file) :: more, group :: groups, a, h => by
    obtain ⟨hfits, hnum, hcut⟩ := h.head
    obtain ⟨k, hinside, hparse⟩ := parseRecords_cut hfits hnum hcut (.inr rfl)
    have hlen : (group.take k).length = k := by
      rw [List.length_take, Nat.min_eq_left hinside.le]
    unfold Seen
    rw [hparse]
    by_cases hwhole : file.length = sizeAll (group.take k)
    · rw [if_pos hwhole]
      show Seen (a + (group.take k).length) more
      rw [hlen]
      rcases Nat.lt_or_ge k group.length with hk | hk
      · exact (seen_of_later h.tail (Nat.add_lt_add_left hk a)).1
      · obtain rfl : k = group.length := le_antisymm hinside.le hk
        exact seen_of_torn h.tail
    · rw [if_neg hwhole]
      refine .inr ?_
      rw [hlen]
      have hk : k < group.length := by
        refine lt_of_le_of_ne hinside.le fun hall => hwhole ?_
        have hinside' := hinside.inside
        have hshort := hcut.length_le
        rw [encodeAll_length] at hshort
        rw [hall, List.take_length] at hinside' ⊢
        exact le_antisymm hshort hinside'
      exact (seen_of_later h.tail (Nat.add_lt_add_left hk a)).2

end Torn

/-! ### Anchors of an incarnation -/

/-- **Anchors and the scan.** Whatever the parts of an incarnation hold, its anchors
begin with those of exactly the checkpoints that the validated scan yields, in order;
what comes behind has later numbers than anything the scan yields. Nothing comes
behind, so that a replay starts at a checkpoint the scan yields, where the scan ends
as a walk over headers does; which is so if the parts were written in order and cut
off anywhere. -/
theorem anchors_begin_with_yielded {d : Dir} {N : ℕ} {anchors : List CheckpointAnchor}
    (h : checkpointAnchors d N = .ok anchors) (hsize : (d.incarnationData N).length + 1 < 2 ^ 64) :
    ∃ behind, anchors = (yielded 1 (partFilesOf d N)).filterMap Placed.anchor ++ behind ∧
      (∀ anchor ∈ behind, ∀ p ∈ yielded 1 (partFilesOf d N), p.record.seq < anchor.seq) ∧
      (Seen 1 (partFilesOf d N) → behind = [] ∧
        ∀ targetOffset anchor, replayStart d N targetOffset = some anchor →
          ∃ p ∈ yielded 1 (partFilesOf d N), p.anchor = some anchor) ∧
      ∀ groups, TornParts 1 groups (partFilesOf d N) → Seen 1 (partFilesOf d N) := by
  have hscan : anchors = anchorScan (partFilesOf d N) 1 := by
    unfold checkpointAnchors at h
    rcases hparts : incarnationParts d N with e | parts
    · rw [hparts] at h
      cases h
    · rw [hparts] at h
      rw [SegmentStream.incarnationParts_ok hparts] at h
      exact (Except.ok.inj h).symm
  have hbound : 1 + (yielded 1 (partFilesOf d N)).length < 2 ^ 64 := by
    have hfiles : (partFilesOf d N).map Prod.snd = d.files N := by
      unfold partFilesOf Dir.files
      rw [List.map_map]
      rfl
    have hcount := @tell_length ((partFilesOf d N).map Prod.snd) 1 1
    rw [← yielded_record, List.length_map, hfiles] at hcount
    rw [Dir.incarnationData, List.flatMap_def] at hsize
    unfold Dir.files at hcount
    omega
  obtain ⟨behind, hsplit, hlater, hseen⟩ := anchorScan_yielded hbound
  refine ⟨behind, hscan.trans hsplit, hlater, fun hends => ⟨hseen hends, fun targetOffset anchor hstart => ?_⟩,
    fun groups htorn => seen_of_torn htorn⟩
  have hvalid := replayStart_valid d N targetOffset
  rw [hstart] at hvalid
  obtain ⟨anchors', hanchors', hmem, -, -⟩ := hvalid
  rw [h] at hanchors'
  cases hanchors'
  rw [hscan, hsplit, hseen hends, List.append_nil] at hmem
  exact List.mem_filterMap.mp hmem

/-- Output, a checkpoint and more output. -/
def checkpointed : List Record :=
  [⟨.output, 1, 0, [65]⟩, ⟨.checkpointRef, 2, 0, encodeCheckpoint ⟨24, 80, (0, 0), false, false, false, 1, []⟩⟩,
    ⟨.output, 3, 0, [66]⟩]

/-- One part with these bytes. -/
def onePart (bytes : Bytes) : Dir := ⟨SortedMap.empty.insert ⟨1, 1⟩ ⟨bytes, []⟩, none⟩

/-- The output before the checkpoint is altered: the scan stops there, and the walk goes
on to the checkpoint. -/
theorem altered_payload_anchors :
    checkpointAnchors (onePart ((encodeAll checkpointed).set 36 90)) 1 = .ok [⟨2, 1, 100, 1⟩] ∧
      yielded 1 (partFilesOf (onePart ((encodeAll checkpointed).set 36 90)) 1) = [] ∧
      replayStart (onePart ((encodeAll checkpointed).set 36 90)) 1 1 = some ⟨2, 1, 100, 1⟩ := by
  refine ⟨by decide +kernel, by decide +kernel, by decide +kernel⟩

/-- The last record is cut off. -/
def cutDir : Dir := onePart ((encodeAll checkpointed).take 105)

theorem anchors_begin_with_yielded_cut :
    ∃ p ∈ yielded 1 (partFilesOf cutDir 1), p.anchor = some ⟨2, 1, 100, 1⟩ := by
  have hanchors : checkpointAnchors cutDir 1 = .ok [⟨2, 1, 100, 1⟩] := by decide +kernel
  have hstart : replayStart cutDir 1 1 = some ⟨2, 1, 100, 1⟩ := by decide +kernel
  have hfiles : partFilesOf cutDir 1 = [(1, (encodeAll checkpointed).take 105)] := by decide +kernel
  have hfits : ∀ r ∈ [checkpointed].flatten, r.Fits := by
    intro r hr
    simp only [checkpointed, List.flatten_cons, List.flatten_nil, List.append_nil, List.mem_cons, List.not_mem_nil,
      or_false] at hr
    rcases hr with rfl | rfl | rfl
    · exact ⟨by decide, by decide, Nat.le_of_ble_eq_true rfl⟩
    · exact ⟨by decide, by decide, Nat.le_of_ble_eq_true rfl⟩
    · exact ⟨by decide, by decide, Nat.le_of_ble_eq_true rfl⟩
  have hcut : TornParts 1 [checkpointed] (partFilesOf cutDir 1) := by
    rw [hfiles]
    exact ⟨hfits, rfl, .cons (List.take_prefix _ _) .nil⟩
  obtain ⟨behind, -, -, hseen, htorn⟩ := anchors_begin_with_yielded hanchors (by decide +kernel)
  generalize partFilesOf cutDir 1 = files at hcut hseen htorn ⊢
  exact (hseen (htorn _ hcut)).2 1 _ hstart

end Session
end OpenRelay
