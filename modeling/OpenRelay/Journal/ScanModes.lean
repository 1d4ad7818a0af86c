/-
# The modes of a segment scan

`scan_impl` reads a payload in one of three ways: a small one that is kept in one
read, a large one that is kept first through a hash window and then again, and
one that is not kept through the hash window only (`session/journal/scan.rs`).
`readPayload` says what all three come to (`readByPath_eq`), so `scanImpl` is the
scan with its read paths (`scanWith_ofScanMode`).

A scan that is not stopped by its window or its budget finds the same records in
every mode, whatever the file holds. On a beginning of encoded records it finds
those that lie fully inside it, and a torn rest is a partial tail
(`torn_tail_exact`).

Key theorem: `scanWith_eq`.
-/
import OpenRelay.Journal.Scan

namespace OpenRelay
namespace Journal

/-! ### The read paths -/

/-- Payloads are hashed through a scratch buffer of this size. -/
def scanHashWindow : ℕ := 1024 * 1024

/-- Payloads up to this size are kept in one read. -/
def scanInlinePayloadBytes : ℕ := 64 * 1024

/-- What an exact read of a piece comes to. -/
inductive ReadPiece where
  | complete
  | torn
  | empty
  deriving DecidableEq, Repr

/-- Read `n` bytes of what is left of the file. -/
def readExactOrPartial (n : ℕ) (rest : Bytes) : ReadPiece :=
  if n ≤ rest.length then .complete else if rest = [] then .empty else .torn

/-- Hash a payload window by window. -/
def hashWindows (crc : Crc32) (remaining : ℕ) (rest : Bytes) : Except ScanStop Crc32 :=
  if remaining = 0 then .ok crc
  else
    let want := min scanHashWindow remaining
    match readExactOrPartial want rest with
    | .complete => hashWindows (crc.update (rest.take want)) (remaining - want) (rest.drop want)
    | .torn | .empty => .error .partialTail
termination_by remaining
decreasing_by
  have : 0 < scanHashWindow := by decide
  omega

/-- The payload after a header: what is kept of it, once its CRC is checked. -/
def readByPath (keep : Bool) (header : RecordHeader) (rest : Bytes) : Except ScanStop Bytes :=
  let hasher := Crc32.new.update header.covered
  if keep ∧ header.payloadLen ≤ scanInlinePayloadBytes then
    match readExactOrPartial header.payloadLen rest with
    | .complete =>
      if (hasher.update (rest.take header.payloadLen)).finish ≠ header.storedCrc then .error .crcMismatch
      else .ok (rest.take header.payloadLen)
    | .torn | .empty => .error .partialTail
  else
    match hashWindows hasher header.payloadLen rest with
    | .error stop => .error stop
    | .ok crc =>
      if crc.finish ≠ header.storedCrc then .error .crcMismatch
      else if keep then
        -- the file is read again from the payload's start
        match readExactOrPartial header.payloadLen rest with
        | .complete => .ok (rest.take header.payloadLen)
        | .torn | .empty => .error .partialTail
      else .ok []

/-- The windows together hash the whole payload, and a missing byte in any of them
is a partial tail. -/
theorem hashWindows_eq (crc : Crc32) (remaining : ℕ) (rest : Bytes) :
    hashWindows crc remaining rest =
      if rest.length < remaining then .error .partialTail else .ok (crc.update (rest.take remaining)) := by
  induction remaining using Nat.strong_induction_on generalizing crc rest with
  | _ remaining ih =>
    unfold hashWindows
    by_cases h0 : remaining = 0
    · rw [if_pos h0, h0, if_neg (Nat.not_lt_zero _)]
      rfl
    · have hpos : 0 < scanHashWindow := by decide
      rw [if_neg h0]
      simp only [readExactOrPartial]
      by_cases hwant : min scanHashWindow remaining ≤ rest.length
      · have hmore := ih (remaining - min scanHashWindow remaining) (by omega)
          (crc.update (rest.take (min scanHashWindow remaining))) (rest.drop (min scanHashWindow remaining))
        rw [if_pos hwant]
        simp only
        rw [hmore, List.length_drop]
        by_cases hlt : rest.length < remaining
        · rw [if_pos (by omega), if_pos hlt]
        · rw [if_neg (by omega), if_neg hlt, Crc32.update_append, ← List.take_add,
            Nat.add_sub_cancel' (min_le_right _ _)]
      · have hlt : rest.length < remaining := by omega
        rw [if_neg hwant, if_pos hlt]
        by_cases hnil : rest = []
        · rw [if_pos hnil]
        · rw [if_neg hnil]

/-- **The read paths agree.** Each of them classifies a payload as `readPayload`
does. -/
theorem readByPath_eq (keep : Bool) (header : RecordHeader) (rest : Bytes) :
    readByPath keep header rest = match readPayload header rest with
      | .error stop => .error stop
      | .ok payload => .ok (if keep then payload else []) := by
  unfold readByPath
  simp only [hashWindows_eq, readExactOrPartial]
  by_cases hlen : rest.length < header.payloadLen
  · have hread : readPayload header rest = .error .partialTail := by rw [readPayload, if_pos hlen]
    have hle : ¬ header.payloadLen ≤ rest.length := not_le.mpr hlen
    simp only [hread, hlen, hle, if_true, if_false]
    by_cases hpath : keep = true ∧ header.payloadLen ≤ scanInlinePayloadBytes
    · rw [if_pos hpath]
      by_cases hnil : rest = [] <;> simp only [hnil, if_true, if_false]
    · rw [if_neg hpath]
  · have hle : header.payloadLen ≤ rest.length := not_lt.mp hlen
    simp only [hlen, hle, if_true, if_false]
    by_cases hcrc : ((Crc32.new.update header.covered).update (rest.take header.payloadLen)).finish ≠ header.storedCrc
    · have hread : readPayload header rest = .error .crcMismatch := by
        rw [readPayload, if_neg hlen, crc32Two, if_pos hcrc]
      rw [hread]
      simp only [if_pos hcrc, ite_self]
    · have hread : readPayload header rest = .ok (rest.take header.payloadLen) := by
        rw [readPayload, if_neg hlen, crc32Two, if_neg hcrc]
      rw [hread]
      simp only [if_neg hcrc]
      cases keep <;> simp

/-! ### The scan with its paths and modes -/

/-- One entry of the sparse index. -/
structure IndexEntry where
  seq : ℕ
  offset : ℕ
  recordLen : ℕ
  deriving DecidableEq, Repr

def sparseIndexStrideBytes : ℕ := 1024 * 1024

/-- What a scan collects. -/
inductive ReadMode where
  | all
  | window (window : CollectWindow)
  | index
  | stats
  deriving DecidableEq, Repr

namespace ReadMode

def ofScanMode : ScanMode → ReadMode
  | .window w => .window w
  | .stats => .stats

/-- A record behind the window ends the scan. -/
def pastWindow (seq : ℕ) : ReadMode → Bool
  | window w => decide (w.toSeq < seq)
  | all | index | stats => false

/-- A record that the budget has no room for ends it, but the first one is always kept. -/
def overBudget (s : ScanState) (payloadLen : ℕ) : ReadMode → Bool
  | window w => !s.records.isEmpty && decide (w.maxBufferedBytes < s.bufferedBytes + payloadLen)
  | all | index | stats => false

/-- Whether a record is kept. -/
def keeps (seq : ℕ) : ReadMode → Bool
  | all => true
  | window w => decide (w.fromSeq ≤ seq)
  | index | stats => false

end ReadMode

/-- A record of the index is due. -/
def indexDue (entries : List IndexEntry) (offset : ℕ) : Bool :=
  match entries.getLast? with
  | none => true
  | some entry => decide (entry.offset + sparseIndexStrideBytes ≤ offset)

/-- What a scan carries, with the index. -/
structure PassState where
  scan : ScanState
  index : List IndexEntry

/-- What a scan has found, and its index. -/
structure PassResult where
  result : ScanResult
  index : List IndexEntry

def PassState.stop (s : PassState) (reason : ScanStop) : PassResult := ⟨s.scan.stop reason, s.index⟩

/-- The state past a record of `len` payload bytes. -/
def PassState.advance (s : PassState) (mode : ReadMode) (header : RecordHeader) (payload : Bytes) : PassState :=
  let past := { s.scan with
    offset := s.scan.offset + (headerLen + header.payloadLen)
    expectedSeq := some ((header.seq + 1) % 2 ^ 64)
    recordCount := s.scan.recordCount + 1
    lastSeq := some header.seq }
  let r : Record := ⟨header.kind, header.seq, header.elapsedMs, payload⟩
  match mode with
  | .all => { s with scan := { past with records := s.scan.records ++ [r] } }
  | .window w =>
    if w.fromSeq ≤ header.seq then { s with scan := { past with
      bufferedBytes := s.scan.bufferedBytes + payload.length
      records := s.scan.records ++ [r] } }
    else { s with scan := past }
  | .index => {
      scan := past
      index := if indexDue s.index s.scan.offset
        then s.index ++ [⟨header.seq, s.scan.offset, headerLen + header.payloadLen⟩] else s.index }
  | .stats => { s with scan := past }

/-- One turn of the scan loop. -/
def passStep (mode : ReadMode) (s : PassState) (rest : Bytes) : PassResult ⊕ PassState :=
  match readHeader rest with
  | .error stop => .inl (s.stop stop)
  | .ok header =>
    if mode.pastWindow header.seq then .inl (s.stop .cleanEof)
    else if mode.overBudget s.scan header.payloadLen then
      .inl ({ s with scan := { s.scan with truncated := true } }.stop .cleanEof)
    else match readByPath (mode.keeps header.seq) header (rest.drop headerLen) with
      | .error stop => .inl (s.stop stop)
      | .ok payload =>
        if s.scan.expectedSeq.any (fun expected => decide (header.seq ≠ expected)) then
          .inl (s.stop .sequenceDiscontinuity)
        else .inr (s.advance mode header payload)

/-- Record after record, with as many turns as there are bytes. -/
def passLoop (mode : ReadMode) : ℕ → PassState → Bytes → PassResult
  | 0, s, _ => s.stop .cleanEof
  | turns + 1, s, rest =>
    match passStep mode s rest with
    | .inl result => result
    | .inr s' => passLoop mode turns s' (rest.drop (s'.scan.offset - s.scan.offset))

/-- `scan_impl` with its read paths. -/
def scanWith (file : Bytes) (mode : ReadMode) (expectedFirstSeq : Option ℕ) (start : Option ScanStart) :
    PassResult :=
  let offset := (start.map ScanStart.offset).getD 0
  let expectedSeq := match start with
    | some start => some start.seq
    | none => expectedFirstSeq
  passLoop mode (file.length - offset) {
    scan := {
      records := [], bufferedBytes := 0, truncated := false, offset := offset, expectedSeq := expectedSeq
      recordCount := 0, lastSeq := none }
    index := [] } (file.drop offset)

/-! ### The scan without its paths -/

theorem passStep_ofScanMode (mode : ScanMode) (s : PassState) (rest : Bytes) :
    passStep (.ofScanMode mode) s rest = match scanStep mode s.scan rest with
      | .inl result => .inl ⟨result, s.index⟩
      | .inr scan => .inr ⟨scan, s.index⟩ := by
  unfold passStep scanStep
  rcases readHeader rest with stop | header
  · rfl
  · have hpast : (ReadMode.ofScanMode mode).pastWindow header.seq = mode.pastWindow header.seq := by
      cases mode <;> rfl
    have hover : (ReadMode.ofScanMode mode).overBudget s.scan header.payloadLen =
        mode.overBudget s.scan header.payloadLen := by
      cases mode <;> rfl
    have hkeep : (ReadMode.ofScanMode mode).keeps header.seq = mode.keeps header.seq := by
      cases mode <;> rfl
    simp only [hpast, hover, hkeep, readByPath_eq]
    by_cases hp : mode.pastWindow header.seq = true
    · simp only [hp, if_true]
      rfl
    by_cases ho : mode.overBudget s.scan header.payloadLen = true
    · simp only [hp, ho, if_true, if_false, Bool.false_eq_true]
      rfl
    simp only [hp, ho, if_false, Bool.false_eq_true]
    rcases readPayload header (rest.drop headerLen) with stop | payload
    · rfl
    · by_cases hb : s.scan.expectedSeq.any (fun expected => decide (header.seq ≠ expected)) = true
      · simp only [hb, if_true]
        rfl
      · simp only [hb, if_false, Bool.false_eq_true]
        cases mode with
        | stats => rfl
        | window w =>
          by_cases hk : w.fromSeq ≤ header.seq
          · simp only [ReadMode.ofScanMode, PassState.advance, ScanMode.keeps, hk, decide_true, if_true]
          · simp only [ReadMode.ofScanMode, PassState.advance, ScanMode.keeps, hk, decide_false, if_false,
              Bool.false_eq_true]

theorem passLoop_ofScanMode (mode : ScanMode) : ∀ (turns : ℕ) (s : PassState) (rest : Bytes),
    passLoop (.ofScanMode mode) turns s rest = ⟨scanLoop mode turns s.scan rest, s.index⟩
  | 0, _, _ => rfl
  | turns + 1, s, rest => by
    rw [passLoop, scanLoop, passStep_ofScanMode]
    rcases scanStep mode s.scan rest with result | scan
    · rfl
    · simp only
      rw [passLoop_ofScanMode mode turns]

/-- The scan with its paths is the one without. -/
theorem scanWith_ofScanMode (file : Bytes) (mode : ScanMode) (first : Option ℕ) (start : Option ScanStart) :
    (scanWith file (.ofScanMode mode) first start).result = scanImpl file mode first start := by
  unfold scanWith
  rw [passLoop_ofScanMode]
  rfl

/-! ### What a scan that runs to the end finds -/

/-- Neither the window nor the budget stops the scan: the budget is charged with
the length a header announces, before the payload is read. -/
def ReadMode.Unbounded (file : Bytes) : ReadMode → Prop
  | window w => 2 ^ 64 - 1 ≤ w.toSeq ∧ file.length + maxPayloadLen ≤ w.maxBufferedBytes
  | all | index | stats => True

/-- What is left of the file fits the budget that is left. -/
def ReadMode.Fits (s : ScanState) (rest : Bytes) : ReadMode → Prop
  | window w => 2 ^ 64 - 1 ≤ w.toSeq ∧ s.bufferedBytes + rest.length + maxPayloadLen ≤ w.maxBufferedBytes
  | all | index | stats => True

/-- The records a mode keeps. -/
def ReadMode.kept (mode : ReadMode) (rs : List Record) : List Record := rs.filter fun r => mode.keeps r.seq

/-- What every mode counts. -/
structure Counts where
  recordCount : ℕ
  lastSeq : Option ℕ
  validLen : ℕ
  stop : ScanStop
  deriving DecidableEq, Repr

def PassResult.counts (p : PassResult) : Counts :=
  ⟨p.result.recordCount, p.result.lastSeq, p.result.validLen, p.result.stop⟩

/-- One turn of such a scan. -/
theorem passStep_fits {mode : ReadMode} {s : PassState} {rest : Bytes} (hfits : mode.Fits s.scan rest) :
    (∃ stop, readRecord rest = .error stop ∧ passStep mode s rest = .inl (s.stop stop)) ∨
    (∃ r, readRecord rest = .ok r ∧ breaksSeq s.scan.expectedSeq r.seq = true ∧
      passStep mode s rest = .inl (s.stop .sequenceDiscontinuity)) ∨
    ∃ r s', readRecord rest = .ok r ∧ breaksSeq s.scan.expectedSeq r.seq = false ∧
      passStep mode s rest = .inr s' ∧ s'.scan.offset = s.scan.offset + r.size ∧
      s'.scan.expectedSeq = some ((r.seq + 1) % 2 ^ 64) ∧ s'.scan.recordCount = s.scan.recordCount + 1 ∧
      s'.scan.lastSeq = some r.seq ∧ s'.scan.records = s.scan.records ++ mode.kept [r] ∧
      mode.Fits s'.scan (rest.drop r.size) := by
  rcases hh : readHeader rest with stop | header
  · refine .inl ⟨stop, ?_, ?_⟩
    · rw [readRecord, hh]
    · rw [passStep, hh]
  have hpast : mode.pastWindow header.seq = false := by
    cases mode with
    | window w =>
      have hseq := (readHeader_fits hh).1
      have hto := hfits.1
      simp only [ReadMode.pastWindow, decide_eq_false_iff_not]
      omega
    | all | index | stats => rfl
  have hover : mode.overBudget s.scan header.payloadLen = false := by
    cases mode with
    | window w =>
      have hlen := (readHeader_fits hh).2.2
      have hbudget := hfits.2
      simp only [ReadMode.overBudget, Bool.and_eq_false_iff, decide_eq_false_iff_not]
      right
      omega
    | all | index | stats => rfl
  rcases hp : readPayload header (rest.drop headerLen) with stop | payload
  · refine .inl ⟨stop, ?_, ?_⟩
    · rw [readRecord, hh]
      simp only [hp]
    · rw [passStep, hh]
      simp only [hpast, hover, readByPath_eq, hp, if_false, Bool.false_eq_true]
  have hr : readRecord rest = .ok ⟨header.kind, header.seq, header.elapsedMs, payload⟩ := by
    rw [readRecord, hh]
    simp only [hp]
  have hlen : payload.length = header.payloadLen := by
    obtain ⟨h1, h2, -⟩ := readPayload_ok hp
    rw [h2, List.length_take]
    omega
  by_cases hb : breaksSeq s.scan.expectedSeq header.seq = true
  · refine .inr (.inl ⟨_, hr, hb, ?_⟩)
    rw [breaksSeq] at hb
    rw [passStep, hh]
    simp only [hpast, hover, readByPath_eq, hp, hb, if_false, if_true, Bool.false_eq_true]
  · have hb' : breaksSeq s.scan.expectedSeq header.seq = false := by simpa using hb
    refine .inr (.inr ⟨_, s.advance mode header (if mode.keeps header.seq then payload else []), hr, hb', ?_, ?_⟩)
    · rw [breaksSeq] at hb'
      rw [passStep, hh]
      simp only [hpast, hover, readByPath_eq, hp, hb', if_false, Bool.false_eq_true]
    · have hsize := (readRecord_ok hr).2.1
      simp only [Record.size] at hsize ⊢
      cases mode with
      | all => exact ⟨by rw [hlen]; rfl, rfl, rfl, rfl, rfl, trivial⟩
      | index | stats =>
        refine ⟨by rw [hlen]; rfl, rfl, rfl, rfl, ?_, trivial⟩
        simp [PassState.advance, ReadMode.kept, ReadMode.keeps]
      | window w =>
        obtain ⟨hto, hbudget⟩ := hfits
        by_cases hk : w.fromSeq ≤ header.seq
        · simp only [PassState.advance, hk, if_true, ReadMode.kept, ReadMode.keeps, decide_true, List.filter_cons,
            List.filter_nil, ReadMode.Fits, hlen, List.length_drop, true_and]
          refine ⟨hto, ?_⟩
          omega
        · simp only [PassState.advance, hk, if_false, ReadMode.kept, ReadMode.keeps, decide_false, List.filter_cons,
            List.filter_nil, ReadMode.Fits, hlen, List.length_drop, true_and, Bool.false_eq_true, List.append_nil]
          refine ⟨hto, ?_⟩
          omega

theorem kept_cons (mode : ReadMode) (r : Record) (rs : List Record) :
    mode.kept (r :: rs) = mode.kept [r] ++ mode.kept rs := by
  rw [ReadMode.kept, ReadMode.kept, ReadMode.kept, ← List.filter_append]
  rfl

/-- It counts the valid records, and keeps of them what its mode keeps. -/
theorem passLoop_fits (mode : ReadMode) : ∀ (turns : ℕ) (s : PassState) (rest : Bytes), mode.Fits s.scan rest →
    (passLoop mode turns s rest).counts = {
      recordCount := s.scan.recordCount + (parseTurns turns s.scan.expectedSeq rest).1.length
      lastSeq := (lastSeqOf (parseTurns turns s.scan.expectedSeq rest).1).or s.scan.lastSeq
      validLen := s.scan.offset + sizeAll (parseTurns turns s.scan.expectedSeq rest).1
      stop := (parseTurns turns s.scan.expectedSeq rest).2 } ∧
    (passLoop mode turns s rest).result.records =
      s.scan.records ++ mode.kept (parseTurns turns s.scan.expectedSeq rest).1
  | 0, s, rest, _ => by
    simp [passLoop, parseTurns, PassState.stop, PassResult.counts, ScanState.stop, lastSeqOf, ReadMode.kept]
  | turns + 1, s, rest, hfits => by
    rcases passStep_fits hfits with ⟨stop, hr, hstep⟩ | ⟨r, hr, hb, hstep⟩ |
      ⟨r, s', hr, hb, hstep, hoff, hexp, hcount, hlast, hrec, hfits'⟩
    · simp [passLoop, hstep, parseTurns, hr, PassState.stop, PassResult.counts, ScanState.stop, lastSeqOf,
        ReadMode.kept]
    · simp [passLoop, hstep, parseTurns, hr, hb, PassState.stop, PassResult.counts, ScanState.stop, lastSeqOf,
        ReadMode.kept]
    · have hparse : parseTurns (turns + 1) s.scan.expectedSeq rest =
          (r :: (parseTurns turns (some ((r.seq + 1) % 2 ^ 64)) (rest.drop r.size)).1,
            (parseTurns turns (some ((r.seq + 1) % 2 ^ 64)) (rest.drop r.size)).2) := by
        simp only [parseTurns, hr, hb, Bool.false_eq_true, if_false]
      have hloop : passLoop mode (turns + 1) s rest = passLoop mode turns s' (rest.drop r.size) := by
        simp only [passLoop, hstep, hoff, Nat.add_sub_cancel_left]
      obtain ⟨hcounts, hrecords⟩ := passLoop_fits mode turns s' (rest.drop r.size) hfits'
      rw [hexp] at hcounts hrecords
      rw [hloop, hparse]
      constructor
      · rw [hcounts, hcount, hlast, hoff]
        simp only [lastSeqOf_cons, List.length_cons, sizeAll_cons, Nat.add_assoc, Nat.add_comm 1]
      · rw [hrecords, hrec, List.append_assoc, ← kept_cons]

/-- Where a scan starts, and the number it expects there. -/
def scanOffset (start : Option ScanStart) : ℕ := (start.map ScanStart.offset).getD 0

/-- The number that the first record must have. -/
def scanExpected (first : Option ℕ) : Option ScanStart → Option ℕ
  | some start => some start.seq
  | none => first

/-- **Every mode finds the same.** A scan that neither its window nor its budget
stops counts the valid records of the file, whatever the file holds. -/
theorem scanWith_eq {file : Bytes} {mode : ReadMode} (h : mode.Unbounded file) (first : Option ℕ)
    (start : Option ScanStart) :
    (scanWith file mode first start).counts = {
      recordCount := (parseRecords (scanExpected first start) (file.drop (scanOffset start))).1.length
      lastSeq := lastSeqOf (parseRecords (scanExpected first start) (file.drop (scanOffset start))).1
      validLen := scanOffset start + sizeAll (parseRecords (scanExpected first start) (file.drop (scanOffset start))).1
      stop := (parseRecords (scanExpected first start) (file.drop (scanOffset start))).2 } ∧
    (scanWith file mode first start).result.records =
      mode.kept (parseRecords (scanExpected first start) (file.drop (scanOffset start))).1 := by
  have hfits : ∀ s : ScanState, s.bufferedBytes = 0 → mode.Fits s (file.drop (scanOffset start)) := by
    intro s hs
    cases mode with
    | window w =>
      refine ⟨h.1, ?_⟩
      have := h.2
      rw [hs, List.length_drop]
      omega
    | all | index | stats => trivial
  have hloop := passLoop_fits mode (file.length - scanOffset start) {
    scan := {
      records := [], bufferedBytes := 0, truncated := false, offset := scanOffset start
      expectedSeq := scanExpected first start, recordCount := 0, lastSeq := none }
    index := [] } (file.drop (scanOffset start)) (hfits _ rfl)
  rw [← List.length_drop] at hloop
  have hparse : ∀ expected bytes, parseTurns (List.length bytes) expected bytes = parseRecords expected bytes :=
    fun _ _ => rfl
  simp only [Nat.zero_add, Option.or_none, List.nil_append, hparse] at hloop
  have hscan : scanWith file mode first start = passLoop mode (file.drop (scanOffset start)).length {
      scan := {
        records := [], bufferedBytes := 0, truncated := false, offset := scanOffset start
        expectedSeq := scanExpected first start, recordCount := 0, lastSeq := none }
      index := [] } (file.drop (scanOffset start)) := by
    rw [List.length_drop]
    rcases start with _ | start <;> rfl
  rw [hscan]
  exact hloop

/-! ### Encoded records that were cut off -/

/-- Of the records, the first `k` have their encodings fully inside `p`. -/
structure FullyInside (rs : List Record) (p : Bytes) (k : ℕ) : Prop where
  le : k ≤ rs.length
  inside : sizeAll (rs.take k) ≤ p.length
  next : ∀ r, rs[k]? = some r → p.length < sizeAll (rs.take k) + r.size

/-- Consecutive numbers fit the header, so the one after the last is at most
`2 ^ 64`. -/
theorem numbered_bound {a : ℕ} {rs : List Record} (hfits : ∀ r ∈ rs, r.Fits) (hnum : Numbered a rs)
    (hne : rs ≠ []) : a + rs.length ≤ 2 ^ 64 := by
  have hlast := hnum.lastSeq hne
  obtain ⟨r, hr⟩ : ∃ r, rs.getLast? = some r := Option.ne_none_iff_exists'.mp (by simpa using hne)
  have hseq := (hfits r (List.mem_of_getLast? hr)).seq
  have := List.length_pos_iff.mpr hne
  rw [hr, Option.map_some, Option.some.injEq] at hlast
  omega

/-- A beginning of encoded records parses as the records fully inside it. -/
theorem parseRecords_cut {a : ℕ} {rs : List Record} {p : Bytes} (hfits : ∀ r ∈ rs, r.Fits)
    (hnum : Numbered a rs) (hp : p <+: encodeAll rs) {first : Option ℕ} (hfirst : first = none ∨ first = some a) :
    ∃ k, FullyInside rs p k ∧ parseRecords first p =
      (rs.take k, if p.length = sizeAll (rs.take k) then .cleanEof else .partialTail) := by
  obtain ⟨k, torn, hk, hsplit, htorn⟩ := prefix_encodeAll hp
  have hlen : p.length = sizeAll (rs.take k) + torn.length := by
    rw [hsplit, List.length_append, encodeAll_length]
  refine ⟨k, ⟨hk, by omega, fun r hr => ?_⟩, ?_⟩
  · rcases htorn with rfl | ⟨r', hr', -, hlt⟩
    · have := size_pos r
      simp only [List.length_nil] at hlen
      omega
    · rw [hr] at hr'
      cases hr'
      omega
  · have hread : readRecord torn = .error (if p.length = sizeAll (rs.take k) then .cleanEof else .partialTail) := by
      have hiff : p.length = sizeAll (rs.take k) ↔ torn = [] := by
        rw [hlen, ← List.length_eq_zero_iff]
        omega
      simp only [hiff]
      rcases htorn with rfl | ⟨r, hr, hpre, hlt⟩
      · rfl
      · exact readRecord_tail (hfits r (List.mem_of_getElem? hr)) hpre hlt
    have hfits' : ∀ r ∈ rs.take k, r.Fits := fun r hr => hfits r (List.mem_of_mem_take hr)
    have hnum' : Numbered a (rs.take k) := by
      rw [← List.take_append_drop k rs] at hnum
      exact (numbered_append.mp hnum).1
    rw [hsplit] at hread ⊢
    by_cases hne : rs.take k = []
    · rw [hne] at hread ⊢
      rw [encodeAll_nil, List.nil_append] at hread ⊢
      rw [parseRecords_step, hread]
    · exact parseRecords_encodeAll hread hfits' hnum' (numbered_bound hfits' hnum' hne) fun _ => hfirst.symm

/-- **Torn-tail exactness.** Of encoded records with consecutive numbers that were
cut off anywhere, every scan that is not stopped early finds exactly those that
lie fully inside, as they were encoded; it ends clean on a record boundary and
with a partial tail elsewhere. Whatever a file holds, such scans agree in every
mode on the count, the last number, the valid length and the stop. -/
theorem torn_tail_exact :
    (∀ (rs : List Record) (a : ℕ) (p : Bytes) (mode : ReadMode) (first : Option ℕ), (∀ r ∈ rs, r.Fits) →
      Numbered a rs → p <+: encodeAll rs → mode.Unbounded p → (first = none ∨ first = some a) →
      ∃ k, FullyInside rs p k ∧
        (scanWith p mode first none).result.records = mode.kept (rs.take k) ∧
        (scanWith p mode first none).counts = {
          recordCount := k
          lastSeq := lastSeqOf (rs.take k)
          validLen := sizeAll (rs.take k)
          stop := if p.length = sizeAll (rs.take k) then .cleanEof else .partialTail }) ∧
    ∀ (file : Bytes) (mode mode' : ReadMode) (first : Option ℕ) (start : Option ScanStart),
      mode.Unbounded file → mode'.Unbounded file →
      (scanWith file mode first start).counts = (scanWith file mode' first start).counts := by
  constructor
  · intro rs a p mode first hfits hnum hp hmode hfirst
    obtain ⟨k, hk, hparse⟩ := parseRecords_cut hfits hnum hp hfirst
    obtain ⟨hcounts, hrecords⟩ := scanWith_eq hmode first none
    simp only [scanOffset, scanExpected, Option.map_none, Option.getD_none, List.drop_zero, hparse,
      Nat.zero_add, List.length_take, Nat.min_eq_left hk.le] at hcounts hrecords
    exact ⟨k, hk, hrecords, hcounts⟩
  · intro file mode mode' first start hmode hmode'
    rw [(scanWith_eq hmode first start).1, (scanWith_eq hmode' first start).1]

/-- Two records; the second one is cut off after five bytes. -/
def twoRecords : List Record := [⟨.output, 1, 0, [104]⟩, ⟨.resize, 2, 3, [105]⟩]

theorem torn_tail_exact_cut :
    ∃ k, FullyInside twoRecords ((encodeAll twoRecords).take 42) k ∧
      (scanWith ((encodeAll twoRecords).take 42) .all none none).result.records =
        ReadMode.all.kept (twoRecords.take k) := by
  have hfits : ∀ r ∈ twoRecords, r.Fits := by
    intro r hr
    simp only [twoRecords, List.mem_cons, List.not_mem_nil, or_false] at hr
    rcases hr with rfl | rfl
    · exact ⟨by decide, by decide, Nat.le_of_ble_eq_true rfl⟩
    · exact ⟨by decide, by decide, Nat.le_of_ble_eq_true rfl⟩
  have hnum : Numbered 1 twoRecords := rfl
  obtain ⟨k, hk, hrecords, -⟩ := torn_tail_exact.1 twoRecords 1 ((encodeAll twoRecords).take 42) .all none
    hfits hnum (List.take_prefix _ _) trivial (.inl rfl)
  exact ⟨k, hk, hrecords⟩

end Journal
end OpenRelay
