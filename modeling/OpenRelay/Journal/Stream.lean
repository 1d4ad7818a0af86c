/-
# Reading an incarnation

`SegmentStream` reads the records of one incarnation batch by batch, from the
start or from a checkpoint on, part after part (`session/journal/stream.rs`). It
never skips: a part that is missing, a record that is damaged or out of sequence
is an error, and a torn record ends the stream.

What a stream has left is a function of the bytes that are left
(`streamRecords`), so however large the batches are, they are the same records
(`nextBatch_spec`, `drain_eq`).

Key theorem: `readIncarnation_eq`.
-/
import OpenRelay.Journal.Layout

namespace OpenRelay
namespace Journal

/-- The parts of an incarnation, numbered from 1 on. -/
def incarnationParts (d : Dir) (incarnation : ℕ) : Except JournalError (List Seg) :=
  if d.incarnationSegs incarnation = [] then .error (.noSegment incarnation)
  else if (d.incarnationSegs incarnation).zipIdx.any (fun (seg, i) => decide (seg.part ≠ i + 1)) then
    .error (.hole incarnation)
  else .ok (d.incarnationSegs incarnation)

/-- A reader of an incarnation's records, part by part. -/
structure SegmentStream where
  parts : List Seg
  partIndex : ℕ
  byteOffset : ℕ
  nextSeq : ℕ
  done : Bool
  deriving DecidableEq, Repr

/-- The place of a checkpoint record in its incarnation. -/
structure CheckpointAnchor where
  seq : ℕ
  part : ℕ
  recordEndOffset : ℕ
  filteredOffset : ℕ
  deriving DecidableEq, Repr

namespace SegmentStream

/-- From the journal's start. -/
def «open» (d : Dir) (incarnation : ℕ) : Except JournalError SegmentStream :=
  match incarnationParts d incarnation with
  | .error e => .error e
  | .ok parts => .ok ⟨parts, 0, 0, 1, false⟩

/-- From the record after a checkpoint. -/
def openAt (d : Dir) (incarnation : ℕ) (anchor : CheckpointAnchor) : Except JournalError SegmentStream :=
  match incarnationParts d incarnation with
  | .error e => .error e
  | .ok parts =>
    match parts.findIdx? (fun seg => seg.part = anchor.part) with
    | none => .error .partNotRetained
    | some partIndex => .ok ⟨parts, partIndex, anchor.recordEndOffset, anchor.seq + 1, false⟩

/-- The next scan of a part. -/
def scan (s : SegmentStream) (file : Bytes) (maxBytes : ℕ) : ScanResult :=
  scanImpl file (.window ⟨s.nextSeq, 2 ^ 64 - 1, maxBytes⟩)
    (if s.byteOffset = 0 then some s.nextSeq else none)
    (if 0 < s.byteOffset then some ⟨s.byteOffset, s.nextSeq⟩ else none)

/-- The stream after the records of a scan. -/
def take (s : SegmentStream) (result : ScanResult) : SegmentStream :=
  { s with
    nextSeq := match result.records.getLast? with
      | some last => last.seq + 1
      | none => s.nextSeq
    byteOffset := result.validLen }

/-- On to the next part. -/
def nextPart (s : SegmentStream) : SegmentStream := { s with partIndex := s.partIndex + 1, byteOffset := 0 }

/-- There is nothing more to read. -/
def finished (s : SegmentStream) : SegmentStream := { s with done := true }

/-- The stream after a scan of its part, unless that is corrupt. -/
def follow (s : SegmentStream) (result : ScanResult) : Except JournalError SegmentStream :=
  match result.stop with
  | .cleanEof =>
    if result.truncated then .ok (s.take result)
    else if s.partIndex + 1 < s.parts.length then
      .ok (s.take result).nextPart
    else .ok (s.take result).finished
  | .partialTail => .ok (s.take result).finished
  | stop => .error (.corrupt stop)

/-- The loop of `next_batch`: it goes on to the next part as long as it has no
record, so it ends within as many turns as there are parts left, and one. -/
def nextBatchLoop (d : Dir) (maxBytes : ℕ) : ℕ → SegmentStream →
    Except JournalError (List Record × SegmentStream)
  | 0, s => .ok ([], s)
  | turns + 1, s =>
    if s.done then .ok ([], s)
    else match s.parts[s.partIndex]? with
      | none => .ok ([], s.finished)
      | some seg =>
        match d.partData seg with
        | none => .error (.notFound seg)
        | some file =>
          match s.follow (s.scan file maxBytes) with
          | .error e => .error e
          | .ok s' =>
            if (s.scan file maxBytes).records = [] then nextBatchLoop d maxBytes turns s'
            else .ok ((s.scan file maxBytes).records, s')

/-- `next_batch`: records up to a budget, from whichever part has the next one. -/
def nextBatch (s : SegmentStream) (d : Dir) (maxBytes : ℕ) : Except JournalError (List Record × SegmentStream) :=
  nextBatchLoop d maxBytes (s.parts.length - s.partIndex + 2) s

/-- Pull batches until one is empty; `budgets` are the batches' sizes. -/
def drain (d : Dir) : ℕ → (ℕ → ℕ) → SegmentStream → Except JournalError (List Record)
  | 0, _, _ => .ok []
  | turns + 1, budgets, s =>
    match s.nextBatch d (budgets turns) with
    | .error e => .error e
    | .ok (batch, s') =>
      if batch = [] then .ok []
      else match drain d turns budgets s' with
        | .error e => .error e
        | .ok more => .ok (batch ++ more)

end SegmentStream

/-- Read a whole incarnation. Every batch but the last has a record, and every
record takes a byte. -/
def readIncarnation (d : Dir) (incarnation : ℕ) (budgets : ℕ → ℕ) : Except JournalError (List Record) :=
  match SegmentStream.open d incarnation with
  | .error e => .error e
  | .ok s => s.drain d ((d.incarnationData incarnation).length + 1) budgets

/-! ### What a stream has left -/

/-- The records in what is left of an incarnation's parts, from sequence number
`a` on. A torn record ends them. -/
def streamRecords : ℕ → List Bytes → Except ScanStop (List Record)
  | _, [] => .ok []
  | a, rest :: more =>
    match parseRecords (some a) rest with
    | (rs, .cleanEof) =>
      match streamRecords (a + rs.length) more with
      | .ok rs' => .ok (rs ++ rs')
      | .error stop => .error stop
    | (rs, .partialTail) => .ok rs
    | (_, stop) => .error stop

theorem streamRecords_clean {a : ℕ} {rest : Bytes} {more : List Bytes} {rs : List Record}
    (h : parseRecords (some a) rest = (rs, .cleanEof)) :
    streamRecords a (rest :: more) = match streamRecords (a + rs.length) more with
      | .ok rs' => .ok (rs ++ rs')
      | .error stop => .error stop := by
  rw [streamRecords, h]

/-- A stream that reads: how its first part ends. -/
theorem streamRecords_cons {a : ℕ} {rest : Bytes} {more : List Bytes} {rs : List Record}
    (h : streamRecords a (rest :: more) = .ok rs) :
    (∃ rs', (parseRecords (some a) rest).2 = .cleanEof ∧
      streamRecords (a + (parseRecords (some a) rest).1.length) more = .ok rs' ∧
      rs = (parseRecords (some a) rest).1 ++ rs') ∨
    (parseRecords (some a) rest).2 = .partialTail ∧ rs = (parseRecords (some a) rest).1 := by
  rcases hp : parseRecords (some a) rest with ⟨prs, stop⟩
  rw [streamRecords, hp] at h
  cases stop with
  | cleanEof =>
    simp only at h
    rcases hs : streamRecords (a + prs.length) more with stop | rs'
    · rw [hs] at h
      cases h
    · rw [hs] at h
      cases h
      exact .inl ⟨rs', rfl, rfl, rfl⟩
  | partialTail =>
    cases h
    exact .inr ⟨rfl, rfl⟩
  | invalidHeader | unsupportedVersion | unknownKind | oversizeLength | crcMismatch | sequenceDiscontinuity =>
    cases h

/-- A stream goes on where a beginning of its first part's records ends. -/
theorem streamRecords_drop {a m : ℕ} {rest : Bytes} {more : List Bytes} {rs : List Record}
    (h : streamRecords a (rest :: more) = .ok rs)
    (hlt : a + (parseRecords (some a) rest).1.length < 2 ^ 64)
    (hm : m ≤ (parseRecords (some a) rest).1.length) :
    streamRecords (a + m) (rest.drop (sizeAll ((parseRecords (some a) rest).1.take m)) :: more) =
      .ok (rs.drop m) := by
  have hdrop := parseRecords_drop hlt hm
  rcases streamRecords_cons h with ⟨rs', hstop, hmore, rfl⟩ | ⟨hstop, rfl⟩
  · rw [hstop] at hdrop
    have hlen : a + m + ((parseRecords (some a) rest).1.drop m).length =
        a + (parseRecords (some a) rest).1.length := by
      rw [List.length_drop]
      omega
    rw [streamRecords_clean hdrop, hlen, hmore, List.drop_append_of_le_length hm]
  · rw [hstop] at hdrop
    rw [streamRecords, hdrop]

namespace SegmentStream

variable {d : Dir} {s : SegmentStream} {rs : List Record}

/-- The bytes a stream has left, part by part. -/
def remaining (s : SegmentStream) (d : Dir) : List Bytes :=
  if s.done then []
  else match s.parts.drop s.partIndex with
    | [] => []
    | seg :: segs =>
      ((d.partData seg).getD []).drop s.byteOffset :: segs.map fun seg => (d.partData seg).getD []

/-- The stream has the records `rs` left, and its parts are there. -/
structure Reads (d : Dir) (s : SegmentStream) (rs : List Record) : Prop where
  parts : ∀ seg ∈ s.parts, (d.partData seg).isSome
  records : streamRecords s.nextSeq (s.remaining d) = .ok rs
  bound : s.nextSeq + rs.length < 2 ^ 64

theorem reads_nil (hparts : ∀ seg ∈ s.parts, (d.partData seg).isSome) (hrem : s.remaining d = [])
    (hlt : s.nextSeq < 2 ^ 64) : Reads d s [] :=
  ⟨hparts, by rw [hrem]; rfl, by simpa using hlt⟩

theorem remaining_nextPart (s : SegmentStream) (hdone : s.done = false) :
    s.nextPart.remaining d = (s.parts.drop (s.partIndex + 1)).map fun seg => (d.partData seg).getD [] := by
  simp only [remaining, nextPart, hdone, Bool.false_eq_true, if_false, List.drop_zero]
  rcases s.parts.drop (s.partIndex + 1) with _ | ⟨seg, segs⟩ <;> rfl

/-- A scan of the part from where the stream stands. -/
theorem scan_outcome {file : Bytes} (maxBytes : ℕ)
    (hlt : s.nextSeq + (parseRecords (some s.nextSeq) (file.drop s.byteOffset)).1.length < 2 ^ 64) :
    ∃ m st, st.records = [] ∧ st.offset = s.byteOffset ∧
      WindowOutcome st (parseRecords (some s.nextSeq) (file.drop s.byteOffset)).1
        (parseRecords (some s.nextSeq) (file.drop s.byteOffset)).2 m (s.scan file maxBytes) := by
  have hturns : parseTurns (file.length - s.byteOffset) (some s.nextSeq) (file.drop s.byteOffset) =
      parseRecords (some s.nextSeq) (file.drop s.byteOffset) := parseTurns_eq _ _ _ (by simp)
  have hscan : s.scan file maxBytes = scanLoop (.window ⟨s.nextSeq, 2 ^ 64 - 1, maxBytes⟩)
      (file.length - s.byteOffset) ⟨[], 0, false, s.byteOffset, some s.nextSeq, 0, none⟩
      (file.drop s.byteOffset) := by
    by_cases h0 : s.byteOffset = 0
    · simp [scan, scanImpl, h0]
    · simp [scan, scanImpl, Nat.pos_of_ne_zero h0]
  rw [← hturns] at hlt ⊢
  rw [hscan]
  obtain ⟨m, hm⟩ := scanLoop_window ⟨s.nextSeq, 2 ^ 64 - 1, maxBytes⟩ rfl _
    ⟨[], 0, false, s.byteOffset, some s.nextSeq, 0, none⟩ _ s.nextSeq rfl le_rfl hlt rfl
  exact ⟨m, _, rfl, rfl, hm⟩

/-- The number of the record after a beginning of numbered records. -/
theorem take_nextSeq {result : ScanResult} {prs : List Record} {m : ℕ} (hnum : Numbered s.nextSeq prs)
    (hm : m ≤ prs.length) (hrec : result.records = prs.take m) : (s.take result).nextSeq = s.nextSeq + m := by
  have hnum' : Numbered s.nextSeq (prs.take m) := by
    rw [← List.take_append_drop m prs] at hnum
    exact (numbered_append.mp hnum).1
  simp only [take, hrec]
  by_cases h0 : m = 0
  · simp [h0]
  · have hne : prs.take m ≠ [] := by
      intro h
      have := congrArg List.length h
      simp only [List.length_take, List.length_nil] at this
      omega
    have hlast := hnum'.lastSeq hne
    rcases hl : (prs.take m).getLast? with _ | last
    · rw [hl] at hlast
      cases hlast
    · rw [hl] at hlast
      simp only [Option.map_some, Option.some.injEq, List.length_take, Nat.min_eq_left hm] at hlast
      simp only [hlast]
      omega

/-- One scan: the records it returns are the next ones, and it ends at the part's
end only with all of them. -/
theorem follow_spec {seg : Seg} {file : Bytes} (maxBytes : ℕ) (h : Reads d s rs) (hdone : s.done = false)
    (hseg : s.parts[s.partIndex]? = some seg) (hfile : d.partData seg = some file) :
    ∃ m s', m ≤ rs.length ∧ (s.scan file maxBytes).records = rs.take m ∧
      s.follow (s.scan file maxBytes) = .ok s' ∧ Reads d s' (rs.drop m) ∧ s'.nextSeq = s.nextSeq + m ∧
      s'.parts = s.parts ∧ (m = 0 → s'.done = true ∧ rs = [] ∨ s'.partIndex = s.partIndex + 1) := by
  have hlt := (List.getElem?_eq_some_iff.mp hseg).1
  have hdrop : s.parts.drop s.partIndex = seg :: s.parts.drop (s.partIndex + 1) := by
    rw [List.drop_eq_getElem_cons hlt, (List.getElem?_eq_some_iff.mp hseg).2]
  have hrem : s.remaining d = file.drop s.byteOffset ::
      (s.parts.drop (s.partIndex + 1)).map fun seg => (d.partData seg).getD [] := by
    simp only [remaining, hdone, hdrop, hfile, Option.getD_some, Bool.false_eq_true, if_false]
  have hrecords := h.records
  rw [hrem] at hrecords
  have hbound := h.bound
  -- the records of the part are the first of those left
  have hple : (parseRecords (some s.nextSeq) (file.drop s.byteOffset)).1.length ≤ rs.length := by
    rcases streamRecords_cons hrecords with ⟨rs', -, -, rfl⟩ | ⟨-, rfl⟩ <;> simp
  have hplt : s.nextSeq + (parseRecords (some s.nextSeq) (file.drop s.byteOffset)).1.length < 2 ^ 64 := by
    omega
  have htake : ∀ m ≤ (parseRecords (some s.nextSeq) (file.drop s.byteOffset)).1.length,
      (parseRecords (some s.nextSeq) (file.drop s.byteOffset)).1.take m = rs.take m := by
    intro m hm
    rcases streamRecords_cons hrecords with ⟨rs', -, -, rfl⟩ | ⟨-, rfl⟩
    · rw [List.take_append_of_le_length hm]
    · rfl
  obtain ⟨m, st, hst, hoff, hout⟩ := scan_outcome maxBytes hplt
  have hrec : (s.scan file maxBytes).records =
      (parseRecords (some s.nextSeq) (file.drop s.byteOffset)).1.take m := by
    rw [hout.records, hst, List.nil_append]
  have hnext := take_nextSeq (parseRecords_numbered hplt) hout.le hrec
  have hlen : s.nextSeq + m + (rs.drop m).length < 2 ^ 64 := by
    have := hout.le
    rw [List.length_drop]
    omega
  refine ⟨m, ?_⟩
  rcases hout.ends with ⟨htrunc, hstop, hne⟩ | ⟨htrunc, hall, hstop⟩
  · -- the budget ran out within the part
    refine ⟨s.take (s.scan file maxBytes), hout.le.trans hple, by rw [hrec, htake m hout.le], ?_, ⟨h.parts, ?_, ?_⟩,
      hnext, rfl, fun h0 => ?_⟩
    · rw [follow, hstop]
      simp only [htrunc, if_true]
    · have hrem' : (s.take (s.scan file maxBytes)).remaining d =
          (file.drop s.byteOffset).drop
            (sizeAll ((parseRecords (some s.nextSeq) (file.drop s.byteOffset)).1.take m)) ::
          (s.parts.drop (s.partIndex + 1)).map fun seg => (d.partData seg).getD [] := by
        simp only [remaining, take, hdone, hdrop, hfile, hout.validLen, hoff, List.drop_drop, Option.getD_some,
          Bool.false_eq_true, if_false]
      rw [hnext, hrem']
      exact streamRecords_drop hrecords hplt hout.le
    · rw [hnext]
      exact hlen
    · rw [hst, h0] at hne
      exact absurd rfl hne
  · rw [hall] at hnext hlen hrec
    rw [List.take_length] at hrec
    rcases streamRecords_cons hrecords with ⟨rs', hclean, hmore, hrs⟩ | ⟨htorn, hrs⟩
    · -- the part is read to its end
      have hdroprs : rs.drop m = rs' := by
        rw [hrs, hall, List.drop_left]
      by_cases hlast : s.partIndex + 1 < s.parts.length
      · refine ⟨(s.take (s.scan file maxBytes)).nextPart,
          hout.le.trans hple, ?_, ?_, ⟨h.parts, ?_, ?_⟩, ?_, rfl, fun _ => .inr rfl⟩
        · rw [hrec, ← htake m hout.le, hall, List.take_length]
        · rw [follow, hstop, hclean]
          simp only [htrunc, Bool.false_eq_true, if_false, hlast, if_true]
        · have hrem' : (s.take (s.scan file maxBytes)).nextPart.remaining d =
              (s.parts.drop (s.partIndex + 1)).map fun seg => (d.partData seg).getD [] :=
            remaining_nextPart _ hdone
          rw [hdroprs, hrem', nextPart, hnext]
          exact hmore
        · rw [nextPart, hnext, hall]
          exact hlen
        · rw [nextPart, hnext, hall]
      · have hnil : s.parts.drop (s.partIndex + 1) = [] := List.drop_eq_nil_of_le (by omega)
        rw [hnil] at hmore
        have hrs' : rs' = [] := by
          cases hmore
          rfl
        refine ⟨(s.take (s.scan file maxBytes)).finished,
          hout.le.trans hple, ?_, ?_, ?_, ?_, rfl, fun h0 => .inl ⟨rfl, ?_⟩⟩
        · rw [hrec, ← htake m hout.le, hall, List.take_length]
        · rw [follow, hstop, hclean]
          simp only [htrunc, Bool.false_eq_true, if_false, hlast]
        · rw [hdroprs, hrs']
          refine reads_nil h.parts rfl ?_
          rw [finished, hnext]
          exact hplt
        · rw [finished, hnext, hall]
        · rw [hrs, hrs', List.append_nil]
          exact List.length_eq_zero_iff.mp (hall.symm.trans h0)
    · refine ⟨(s.take (s.scan file maxBytes)).finished,
        hout.le.trans hple, ?_, ?_, ?_, ?_, rfl, fun h0 => .inl ⟨rfl, ?_⟩⟩
      · rw [hrec, ← htake m hout.le, hall, List.take_length]
      · rw [follow, hstop, htorn]
      · have hdroprs : rs.drop m = [] := by
          rw [hrs, hall, List.drop_length]
        rw [hdroprs]
        refine reads_nil h.parts rfl ?_
        rw [finished, hnext]
        exact hplt
      · rw [finished, hnext, hall]
      · rw [hrs]
        exact List.length_eq_zero_iff.mp (hall.symm.trans h0)

/-- **One batch.** It is a beginning of the records that are left, and empty only
if there are none. -/
theorem nextBatchLoop_spec (maxBytes : ℕ) : ∀ (turns : ℕ) {s : SegmentStream} {rs : List Record},
    Reads d s rs → (s.done = false → s.parts.length - s.partIndex + 1 < turns) → 0 < turns →
    ∃ m s', m ≤ rs.length ∧ nextBatchLoop d maxBytes turns s = .ok (rs.take m, s') ∧ Reads d s' (rs.drop m) ∧
      s'.nextSeq = s.nextSeq + m ∧ s'.parts = s.parts ∧ (m = 0 → rs = [])
  | 0, _, _, _, _, hpos => absurd hpos (lt_irrefl _)
  | turns + 1, s, rs, h, hturns, _ => by
    rw [nextBatchLoop]
    by_cases hdone : s.done = true
    · have hnil : rs = [] := by
        have hrec := h.records
        rw [remaining, if_pos hdone] at hrec
        cases hrec
        rfl
      rw [if_pos hdone, hnil]
      rw [hnil] at h
      exact ⟨0, s, le_rfl, rfl, h, rfl, rfl, fun _ => rfl⟩
    · have hdone' : s.done = false := by simpa using hdone
      have hlt := hturns hdone'
      rw [if_neg hdone]
      rcases hseg : s.parts[s.partIndex]? with _ | seg
      · have hnil : rs = [] := by
          have hrec := h.records
          rw [remaining, if_neg hdone, List.drop_eq_nil_of_le (List.getElem?_eq_none_iff.mp hseg)] at hrec
          cases hrec
          rfl
        have hbound := h.bound
        rw [hnil] at hbound ⊢
        exact ⟨0, s.finished, le_rfl, rfl, reads_nil h.parts rfl hbound, rfl, rfl, fun _ => rfl⟩
      · have hmem := List.mem_of_getElem? hseg
        obtain ⟨file, hfile⟩ := Option.isSome_iff_exists.mp (h.parts seg hmem)
        obtain ⟨m, s', hm, hrec, hfollow, hreads, hnext, hparts, hzero⟩ :=
          follow_spec maxBytes h hdone' hseg hfile
        have hidx := (List.getElem?_eq_some_iff.mp hseg).1
        simp only [hfile, hfollow, hrec]
        by_cases h0 : m = 0
        · -- nothing in this part: the stream ends, or goes on to the next part
          rw [h0, List.take_zero, if_pos rfl]
          rw [h0, List.drop_zero] at hreads
          rw [h0, Nat.add_zero] at hnext
          obtain ⟨m', s'', hm', hloop, hreads', hnext', hparts', hzero'⟩ :=
            nextBatchLoop_spec maxBytes turns hreads (fun hd' => by
              rcases hzero h0 with ⟨hd, -⟩ | hi
              · rw [hd] at hd'
                cases hd'
              · rw [hparts, hi]
                omega) (by omega)
          exact ⟨m', s'', hm', hloop, hreads', hnext'.trans (by rw [hnext]), hparts'.trans hparts, hzero'⟩
        · have hne : rs.take m ≠ [] := by
            intro hnil
            have hlen := congrArg List.length hnil
            rw [List.length_take, Nat.min_eq_left hm] at hlen
            exact h0 hlen
          rw [if_neg hne]
          exact ⟨m, s', hm, rfl, hreads, hnext, hparts, fun h => absurd h h0⟩

theorem nextBatch_spec (h : Reads d s rs) (maxBytes : ℕ) :
    ∃ m s', m ≤ rs.length ∧ s.nextBatch d maxBytes = .ok (rs.take m, s') ∧ Reads d s' (rs.drop m) ∧
      s'.nextSeq = s.nextSeq + m ∧ s'.parts = s.parts ∧ (m = 0 → rs = []) :=
  nextBatchLoop_spec maxBytes _ h (fun _ => by omega) (by omega)

/-- **Any batches.** Whatever the sizes of the batches, they are the records that
are left. -/
theorem drain_eq : ∀ {turns : ℕ} {budgets : ℕ → ℕ} {s : SegmentStream} {rs : List Record},
    Reads d s rs → rs.length < turns → s.drain d turns budgets = .ok rs
  | 0, _, _, _, _, hlt => absurd hlt (Nat.not_lt_zero _)
  | turns + 1, budgets, s, rs, h, hlt => by
    obtain ⟨m, s', hm, hbatch, hreads, -, -, hzero⟩ := nextBatch_spec h (budgets turns)
    rw [drain, hbatch]
    simp only
    by_cases hnil : rs.take m = []
    · rw [if_pos hnil]
      have hm0 : m = 0 ∨ rs = [] := by
        rw [List.take_eq_nil_iff] at hnil
        exact hnil
      rw [hm0.elim hzero id]
    · have hpos : 0 < m := by
        by_contra h0
        exact hnil (by rw [Nat.le_zero.mp (not_lt.mp h0), List.take_zero])
      rw [if_neg hnil, drain_eq hreads (by rw [List.length_drop]; omega)]
      simp only [List.take_append_drop]

end SegmentStream

/-! ### A whole incarnation -/

theorem sizeAll_length_le : ∀ rs : List Record, rs.length ≤ sizeAll rs
  | [] => le_rfl
  | r :: rs => by
    have := sizeAll_length_le rs
    have := size_pos r
    rw [List.length_cons, sizeAll_cons]
    omega

/-- What a stream reads takes as many bytes on disk. -/
theorem streamRecords_size : ∀ {more : List Bytes} {a : ℕ} {rs : List Record},
    streamRecords a more = .ok rs → sizeAll rs ≤ more.flatten.length
  | [], a, rs, h => by
    cases h
    exact le_rfl
  | rest :: more, a, rs, h => by
    have hle := sizeAll_parseRecords_le (some a) rest
    rw [List.flatten_cons, List.length_append]
    rcases streamRecords_cons h with ⟨rs', -, hmore, rfl⟩ | ⟨-, rfl⟩
    · have := streamRecords_size hmore
      rw [sizeAll_append]
      omega
    · omega

/-- Parts that are numbered from 1 on. -/
theorem incarnationParts_eq {d : Dir} {N p : ℕ}
    (hsegs : d.incarnationSegs N = (List.range' 1 (p + 1)).map fun part => ⟨N, part⟩) :
    incarnationParts d N = .ok (d.incarnationSegs N) := by
  have hne : d.incarnationSegs N ≠ [] := by
    rw [hsegs, List.range'_succ]
    exact List.cons_ne_nil _ _
  have hnum : ((d.incarnationSegs N).zipIdx.any fun (seg, i) => decide (seg.part ≠ i + 1)) = false := by
    rw [List.any_eq_false]
    rintro ⟨seg, i⟩ hmem
    rw [hsegs, List.mem_zipIdx_iff_getElem?, List.getElem?_map] at hmem
    simp only [Option.map_eq_some_iff] at hmem
    obtain ⟨part, hp, rfl⟩ := hmem
    have hval := (List.getElem?_eq_some_iff.mp hp).2
    rw [List.getElem_range'] at hval
    simp only [ne_eq, decide_not, Bool.not_eq_true', decide_eq_false_iff_not, not_not]
    omega
  rw [incarnationParts, if_neg hne, hnum]
  rfl

/-- A whole incarnation whose parts are numbered from 1 on. -/
theorem readIncarnation_eq {d : Dir} {N p : ℕ} {rs : List Record}
    (hsegs : d.incarnationSegs N = (List.range' 1 (p + 1)).map fun part => ⟨N, part⟩)
    (h : streamRecords 1 ((d.incarnationSegs N).map fun seg => (d.partData seg).getD []) = .ok rs)
    (hlt : rs.length + 1 < 2 ^ 64) (budgets : ℕ → ℕ) : readIncarnation d N budgets = .ok rs := by
  have hparts := incarnationParts_eq hsegs
  have hopen : SegmentStream.open d N = .ok ⟨d.incarnationSegs N, 0, 0, 1, false⟩ := by
    rw [SegmentStream.open, hparts]
  have hrem : (⟨d.incarnationSegs N, 0, 0, 1, false⟩ : SegmentStream).remaining d =
      (d.incarnationSegs N).map fun seg => (d.partData seg).getD [] := by
    simp only [SegmentStream.remaining, Bool.false_eq_true, if_false, List.drop_zero]
    rcases d.incarnationSegs N with _ | ⟨seg, segs⟩ <;> rfl
  have hreads : SegmentStream.Reads d ⟨d.incarnationSegs N, 0, 0, 1, false⟩ rs := by
    refine ⟨fun seg hseg => ?_, by rw [hrem]; exact h, by simp only; omega⟩
    rw [Dir.partData, Option.isSome_map]
    exact (mem_incarnationSegs.mp hseg).1
  rw [readIncarnation, hopen]
  refine SegmentStream.drain_eq hreads ?_
  have hsize := streamRecords_size h
  have hcount := sizeAll_length_le rs
  rw [Dir.incarnationData, List.flatMap_def]
  omega

end Journal
end OpenRelay
