/-
# Scanning a segment part

`scan_impl` walks a segment part from an offset, record by record, and stops
at the first byte that is not part of a valid record
(`session/journal/scan.rs`). It validates headers, CRCs and the continuity of
the sequence numbers in every mode; the modes differ in what they keep.

`parseRecords` says what a scan finds, without the modes: the valid records at
the front of a byte string and why they end. What `scan_impl` returns is read
off it (`scanImpl_stats`, `scanImpl_window`). Encoded records parse as
themselves, whatever torn rest follows them (`parseRecords_encodeAll`), and a
part cut to its valid length parses the same, to a clean end
(`parseRecords_take`).
-/
import OpenRelay.Journal.Record

namespace OpenRelay
namespace Journal

open LittleEndian

/-- Why a scan stopped. -/
inductive ScanStop where
  | cleanEof
  | partialTail
  | invalidHeader
  | unsupportedVersion
  | unknownKind
  | oversizeLength
  | crcMismatch
  | sequenceDiscontinuity
  deriving DecidableEq, Repr

/-- Only a partial tail may be rewound. -/
def ScanStop.mayRewind (stop : ScanStop) : Bool := decide (stop = .partialTail)

/-- What a record header says. -/
structure RecordHeader where
  kind : RecordKind
  seq : ℕ
  elapsedMs : ℕ
  payloadLen : ℕ
  storedCrc : ℕ
  /-- The bytes the CRC covers. -/
  covered : Bytes
  deriving DecidableEq, Repr

/-- The field of `len` bytes at `offset` of a header. -/
def field (header : Bytes) (offset len : ℕ) : Bytes := (header.drop offset).take len

/-- The header at the front of what is left of a part. -/
def readHeader (rest : Bytes) : Except ScanStop RecordHeader :=
  if rest = [] then .error .cleanEof
  else if rest.length < headerLen then .error .partialTail
  else if rest.take 4 ≠ recordMagic then .error .invalidHeader
  else if leNat (field rest 4 2) ≠ recordVersion then .error .unsupportedVersion
  else match RecordKind.fromU16 (leNat (field rest 6 2)) with
    | none => .error .unknownKind
    | some kind =>
      if maxPayloadLen < leNat (field rest 28 4) then .error .oversizeLength
      else .ok {
        kind := kind
        seq := leNat (field rest 12 8)
        elapsedMs := leNat (field rest 20 8)
        payloadLen := leNat (field rest 28 4)
        storedCrc := leNat (field rest 32 4)
        covered := rest.take 32 }

/-- The payload that follows a header, checked against its CRC. -/
def readPayload (header : RecordHeader) (rest : Bytes) : Except ScanStop Bytes :=
  if rest.length < header.payloadLen then .error .partialTail
  else if crc32Two header.covered (rest.take header.payloadLen) ≠ header.storedCrc then
    .error .crcMismatch
  else .ok (rest.take header.payloadLen)

/-! ### The scan -/

/-- Which records a window scan keeps, and how many bytes of payload. -/
structure CollectWindow where
  fromSeq : ℕ
  toSeq : ℕ
  maxBufferedBytes : ℕ
  deriving DecidableEq, Repr

/-- What a scan is for: records, or their number. -/
inductive ScanMode where
  | window (window : CollectWindow)
  | stats
  deriving DecidableEq, Repr

/-- What a scan has found. -/
structure ScanResult where
  records : List Record
  validLen : ℕ
  stop : ScanStop
  truncated : Bool
  recordCount : ℕ
  lastSeq : Option ℕ
  deriving DecidableEq, Repr

/-- What a scan carries from record to record. -/
structure ScanState where
  records : List Record
  bufferedBytes : ℕ
  truncated : Bool
  offset : ℕ
  expectedSeq : Option ℕ
  recordCount : ℕ
  lastSeq : Option ℕ
  deriving DecidableEq, Repr

def ScanState.stop (s : ScanState) (reason : ScanStop) : ScanResult where
  records := s.records
  validLen := s.offset
  stop := reason
  truncated := s.truncated
  recordCount := s.recordCount
  lastSeq := s.lastSeq

namespace ScanMode

/-- The record lies past the window. -/
def pastWindow (seq : ℕ) : ScanMode → Bool
  | window w => decide (w.toSeq < seq)
  | stats => false

/-- The payload does not fit the budget that is left. -/
def overBudget (s : ScanState) (payloadLen : ℕ) : ScanMode → Bool
  | window w => !s.records.isEmpty && decide (w.maxBufferedBytes < s.bufferedBytes + payloadLen)
  | stats => false

/-- Whether a record is kept. -/
def keeps (seq : ℕ) : ScanMode → Bool
  | window w => decide (w.fromSeq ≤ seq)
  | stats => false

end ScanMode

/-- One turn of the scan loop on what is left of the part: the result if it
stops here, else the state past the record. -/
def scanStep (mode : ScanMode) (s : ScanState) (rest : Bytes) : ScanResult ⊕ ScanState :=
  match readHeader rest with
  | .error stop => .inl (s.stop stop)
  | .ok header =>
    if mode.pastWindow header.seq then .inl (s.stop .cleanEof)
    else if mode.overBudget s header.payloadLen then
      .inl ({ s with truncated := true }.stop .cleanEof)
    else match readPayload header (rest.drop headerLen) with
      | .error stop => .inl (s.stop stop)
      | .ok payload =>
        if s.expectedSeq.any (fun expected => decide (header.seq ≠ expected)) then
          .inl (s.stop .sequenceDiscontinuity)
        else
          let s' := { s with
            offset := s.offset + (headerLen + header.payloadLen)
            expectedSeq := some ((header.seq + 1) % 2 ^ 64)
            recordCount := s.recordCount + 1
            lastSeq := some header.seq }
          .inr (if mode.keeps header.seq then { s' with
              bufferedBytes := s.bufferedBytes + payload.length
              records := s.records ++ [⟨header.kind, header.seq, header.elapsedMs, payload⟩] }
            else s')

/-- The scan loop. Every record takes a turn and at least one byte, so as many
turns as there are bytes left are enough. -/
def scanLoop (mode : ScanMode) : ℕ → ScanState → Bytes → ScanResult
  | 0, s, _ => s.stop .cleanEof
  | turns + 1, s, rest =>
    match scanStep mode s rest with
    | .inl result => result
    | .inr s' => scanLoop mode turns s' (rest.drop (s'.offset - s.offset))

/-- Where a scan resumes. -/
structure ScanStart where
  offset : ℕ
  seq : ℕ
  deriving DecidableEq, Repr

/-- A scan from the start or from a known place, with as many turns as there are bytes. -/
def scanImpl (file : Bytes) (mode : ScanMode) (expectedFirstSeq : Option ℕ) (start : Option ScanStart) :
    ScanResult :=
  let offset := (start.map ScanStart.offset).getD 0
  scanLoop mode (file.length - offset) {
    records := [], bufferedBytes := 0, truncated := false, offset := offset
    expectedSeq := match start with
      | some start => some start.seq
      | none => expectedFirstSeq
    recordCount := 0, lastSeq := none } (file.drop offset)

/-- What a scan counts. -/
structure SegmentStats where
  records : ℕ
  lastSeq : Option ℕ
  validLen : ℕ
  stop : ScanStop
  deriving DecidableEq, Repr

/-- The counts of a part. -/
def scanSegmentStatsFrom (file : Bytes) (expectedFirstSeq : Option ℕ) : SegmentStats :=
  let result := scanImpl file .stats expectedFirstSeq none
  { records := result.recordCount, lastSeq := result.lastSeq, validLen := result.validLen
    stop := result.stop }

/-! ### What a scan finds -/

/-- The record at the front of a byte string. -/
def readRecord (rest : Bytes) : Except ScanStop Record :=
  match readHeader rest with
  | .error stop => .error stop
  | .ok header =>
    match readPayload header (rest.drop headerLen) with
    | .error stop => .error stop
    | .ok payload => .ok ⟨header.kind, header.seq, header.elapsedMs, payload⟩

/-- The record is not the one the stream goes on with. -/
def breaksSeq (expected : Option ℕ) (seq : ℕ) : Bool :=
  expected.any fun expected => decide (seq ≠ expected)

/-- Records from the start on, as long as they go on with the numbers. -/
def parseTurns : ℕ → Option ℕ → Bytes → List Record × ScanStop
  | 0, _, _ => ([], .cleanEof)
  | turns + 1, expected, rest =>
    match readRecord rest with
    | .error stop => ([], stop)
    | .ok r =>
      if breaksSeq expected r.seq then ([], .sequenceDiscontinuity)
      else
        let more := parseTurns turns (some ((r.seq + 1) % 2 ^ 64)) (rest.drop r.size)
        (r :: more.1, more.2)

/-- The valid records at the front of a byte string, and why they end. -/
def parseRecords (expected : Option ℕ) (file : Bytes) : List Record × ScanStop :=
  parseTurns file.length expected file

/-- The length of records on disk. -/
def sizeAll (rs : List Record) : ℕ := (rs.map Record.size).sum

@[simp] theorem sizeAll_nil : sizeAll [] = 0 := rfl

@[simp] theorem sizeAll_cons (r : Record) (rs : List Record) :
    sizeAll (r :: rs) = r.size + sizeAll rs := rfl

@[simp] theorem sizeAll_append (rs rs' : List Record) :
    sizeAll (rs ++ rs') = sizeAll rs + sizeAll rs' := by
  simp [sizeAll]

@[simp] theorem encodeAll_length : ∀ rs : List Record, (encodeAll rs).length = sizeAll rs
  | [] => rfl
  | r :: rs => by rw [encodeAll_cons, List.length_append, encode_length, encodeAll_length rs]; rfl

theorem encodeAll_eq_nil {rs : List Record} : encodeAll rs = [] ↔ rs = [] := by
  constructor
  · intro h
    by_contra hne
    obtain ⟨r, rs, rfl⟩ := List.exists_cons_of_ne_nil hne
    have hlen := congrArg List.length h
    have := size_pos r
    simp only [encodeAll_length, sizeAll_cons, List.length_nil] at hlen
    omega
  · rintro rfl
    rfl

@[simp] theorem readRecord_nil : readRecord [] = .error .cleanEof := rfl

theorem readPayload_ok {header : RecordHeader} {rest payload : Bytes}
    (h : readPayload header rest = .ok payload) :
    header.payloadLen ≤ rest.length ∧ payload = rest.take header.payloadLen ∧
      crc32Two header.covered payload = header.storedCrc := by
  unfold readPayload at h
  split at h
  · cases h
  · rename_i hlen
    split at h
    · cases h
    · rename_i hcrc
      cases h
      exact ⟨not_lt.mp hlen, rfl, not_not.mp hcrc⟩

/-- A header is read from the first 36 bytes. -/
theorem readHeader_take {rest : Bytes} {header : RecordHeader} (h : readHeader rest = .ok header) :
    headerLen ≤ rest.length ∧ ∀ t, readHeader (rest.take headerLen ++ t) = .ok header := by
  have hlen : headerLen ≤ rest.length := by
    by_contra hlt
    unfold readHeader at h
    split at h
    · cases h
    · rw [if_pos (not_le.mp hlt)] at h
      cases h
  refine ⟨hlen, fun t => ?_⟩
  have hfield : ∀ a n, a + n ≤ headerLen →
      field (rest.take headerLen ++ t) a n = field rest a n := by
    intro a n han
    unfold field
    rw [List.drop_append_of_le_length (by simp; omega), List.take_append_of_le_length (by simp; omega),
      List.drop_take, List.take_take]
    congr 1
    omega
  have htake : ∀ n, n ≤ headerLen → (rest.take headerLen ++ t).take n = rest.take n := by
    intro n hn
    simpa [field] using hfield 0 n (by omega)
  have hlen' : ¬ (rest.take headerLen ++ t).length < headerLen := by simp; omega
  have hne : rest.take headerLen ++ t ≠ [] := by
    intro h0
    rw [h0] at hlen'
    exact hlen' (by decide)
  have hne' : rest ≠ [] := by
    intro h0
    rw [h0] at hlen
    exact absurd hlen (by decide)
  rw [← h]
  unfold readHeader
  rw [if_neg hne, if_neg hne', if_neg hlen', if_neg (not_lt.mpr hlen), htake 4 (by decide),
    hfield 4 2 (by decide), hfield 6 2 (by decide), hfield 12 8 (by decide), hfield 20 8 (by decide),
    hfield 28 4 (by decide), hfield 32 4 (by decide), htake 32 (by decide)]

theorem readHeader_fits {rest : Bytes} {header : RecordHeader} (h : readHeader rest = .ok header) :
    header.seq < 2 ^ 64 ∧ header.elapsedMs < 2 ^ 64 ∧ header.payloadLen ≤ maxPayloadLen := by
  have hfield : ∀ a n, leNat (field rest a n) < 256 ^ n := fun a n =>
    (leNat_lt _).trans_le (Nat.pow_le_pow_right (by decide) (by simp [field]))
  unfold readHeader at h
  repeat' split at h
  all_goals cases h
  rename_i hlen
  exact ⟨hfield 12 8, hfield 20 8, not_lt.mp hlen⟩

/-- What a record that was read says about the bytes it was read from. -/
theorem readRecord_ok {rest : Bytes} {r : Record} (h : readRecord rest = .ok r) :
    r.Fits ∧ r.size ≤ rest.length ∧ ∀ t, readRecord (rest.take r.size ++ t) = .ok r := by
  unfold readRecord at h
  split at h
  · cases h
  · rename_i header hh
    split at h
    · cases h
    · rename_i payload hp
      cases h
      obtain ⟨hlen, htake⟩ := readHeader_take hh
      obtain ⟨hplen, hpay, hcrc⟩ := readPayload_ok hp
      obtain ⟨h1, h2, h3⟩ := readHeader_fits hh
      have hpl : payload.length = header.payloadLen := by
        rw [hpay, List.length_take]; omega
      have hsize : headerLen + payload.length ≤ rest.length := by
        rw [List.length_drop] at hplen; omega
      refine ⟨⟨h1, h2, hpl ▸ h3⟩, hsize, fun t => ?_⟩
      have hsplit : rest.take (headerLen + payload.length) ++ t
          = rest.take headerLen ++ ((rest.drop headerLen).take payload.length ++ t) := by
        rw [List.take_add, List.append_assoc]
      have hdrop : (rest.take headerLen ++ ((rest.drop headerLen).take payload.length ++ t)).drop headerLen
          = (rest.drop headerLen).take payload.length ++ t := by
        rw [List.drop_left' (by simp; omega)]
      have hpay' : readPayload header ((rest.drop headerLen).take payload.length ++ t) = .ok payload := by
        rw [hpl, ← hpay]
        unfold readPayload
        rw [if_neg (by simp [hpl]), List.take_left' hpl, if_neg (not_not.mpr hcrc)]
      simp only [Record.size]
      unfold readRecord
      rw [hsplit, htake, hdrop]
      simp only [hpay']

/-! ### Encoded records -/

section Encode

variable (kind : RecordKind) (seq elapsedMs : ℕ) (payload t : Bytes)

/-- The header that was encoded is the one that is read. -/
theorem readHeader_encode (hseq : seq < 2 ^ 64) (hms : elapsedMs < 2 ^ 64)
    (hpay : payload.length ≤ maxPayloadLen) :
    readHeader (encodeRecordHeader kind seq elapsedMs payload ++ t) = .ok {
      kind := kind, seq := seq, elapsedMs := elapsedMs, payloadLen := payload.length
      storedCrc := crc32Two (headerPrefix kind seq elapsedMs payload) payload
      covered := headerPrefix kind seq elapsedMs payload } := by
  have hlen : ¬ (encodeRecordHeader kind seq elapsedMs payload ++ t).length < headerLen := by simp
  have hne : encodeRecordHeader kind seq elapsedMs payload ++ t ≠ [] := by
    intro h0
    rw [h0] at hlen
    exact hlen (by decide)
  have hpay' : payload.length < 256 ^ 4 := lt_of_le_of_lt hpay (by decide)
  have h4 : (encodeRecordHeader kind seq elapsedMs payload ++ t).take 4 = recordMagic := rfl
  have h6 : field (encodeRecordHeader kind seq elapsedMs payload ++ t) 4 2 = leBytes 2 recordVersion := rfl
  have h8 : field (encodeRecordHeader kind seq elapsedMs payload ++ t) 6 2 = leBytes 2 kind.toU16 := rfl
  have h20 : field (encodeRecordHeader kind seq elapsedMs payload ++ t) 12 8 = leBytes 8 seq := rfl
  have h28 : field (encodeRecordHeader kind seq elapsedMs payload ++ t) 20 8 = leBytes 8 elapsedMs := rfl
  have h32 : field (encodeRecordHeader kind seq elapsedMs payload ++ t) 28 4
      = leBytes 4 payload.length := rfl
  have hc : field (encodeRecordHeader kind seq elapsedMs payload ++ t) 32 4
      = leBytes 4 (crc32Two (headerPrefix kind seq elapsedMs payload) payload) := rfl
  have hcov : (encodeRecordHeader kind seq elapsedMs payload ++ t).take 32
      = headerPrefix kind seq elapsedMs payload := rfl
  unfold readHeader
  rw [if_neg hne, if_neg hlen, if_neg (not_not.mpr h4), h6, leNat_leBytes (by decide),
    if_neg (not_not.mpr rfl), h8, leNat_leBytes kind.toU16_lt, RecordKind.fromU16_toU16]
  simp only
  rw [h32, leNat_leBytes hpay', if_neg (not_lt.mpr hpay), h20, h28, hc, hcov,
    leNat_leBytes (by simpa using hseq), leNat_leBytes (by simpa using hms),
    leNat_leBytes (crc32Two_lt _ _)]

end Encode

theorem readRecord_encode {r : Record} (hr : r.Fits) (t : Bytes) : readRecord (r.encode ++ t) = .ok r := by
  unfold readRecord Record.encode
  rw [List.append_assoc, readHeader_encode _ _ _ _ _ hr.seq hr.elapsedMs hr.payload]
  simp only
  rw [List.drop_left' (by simp)]
  unfold readPayload
  rw [if_neg (by simp), List.take_left' rfl, if_neg (not_not.mpr rfl)]

/-- A beginning of a record that is as long as a header starts with it. -/
theorem header_of_torn {r : Record} {torn : Bytes} (hpre : torn <+: r.encode) (hlen : ¬ torn.length < headerLen) :
    torn = encodeRecordHeader r.kind r.seq r.elapsedMs r.payload ++ torn.drop headerLen := by
  conv_lhs => rw [← List.take_append_drop headerLen torn]
  congr 1
  rw [List.prefix_iff_eq_take.mp hpre, List.take_take, Nat.min_eq_left (not_lt.mp hlen),
    Record.encode, List.take_left' (by simp)]

/-- A record that was cut off reads as a partial tail. -/
theorem readRecord_torn {r : Record} (hr : r.Fits) {torn : Bytes} (hpre : torn <+: r.encode)
    (hlt : torn.length < r.size) (hne : torn ≠ []) : readRecord torn = .error .partialTail := by
  by_cases hlen : torn.length < headerLen
  · unfold readRecord readHeader
    rw [if_neg hne, if_pos hlen]
  · have hhead := header_of_torn hpre hlen
    unfold readRecord
    rw [hhead, readHeader_encode _ _ _ _ _ hr.seq hr.elapsedMs hr.payload]
    simp only
    rw [List.drop_left' (by simp)]
    unfold readPayload
    rw [if_pos]
    simp only [List.length_drop]
    simp only [Record.size] at hlt
    omega

/-! ### Parsing -/

/-- Enough turns are enough. -/
theorem parseTurns_eq (n : ℕ) (expected : Option ℕ) (rest : Bytes) (hn : rest.length ≤ n) :
    parseTurns n expected rest = parseRecords expected rest := by
  induction hlen : rest.length using Nat.strong_induction_on generalizing n expected rest with
  | _ len ih =>
    unfold parseRecords
    rcases len with _ | len
    · rw [List.length_eq_zero_iff.mp hlen]
      rcases n with _ | n <;> simp [parseTurns]
    · obtain ⟨n, rfl⟩ : ∃ m, n = m + 1 := ⟨n - 1, by omega⟩
      rw [hlen]
      simp only [parseTurns]
      rcases hr : readRecord rest with stop | r
      · rfl
      · have hpos := size_pos r
        have hsize := (readRecord_ok hr).2.1
        have hdrop : (rest.drop r.size).length ≤ len := by simp; omega
        have hmore : ∀ m, (rest.drop r.size).length ≤ m →
            parseTurns m (some ((r.seq + 1) % 2 ^ 64)) (rest.drop r.size) =
              parseRecords (some ((r.seq + 1) % 2 ^ 64)) (rest.drop r.size) :=
          fun m hm => ih _ (by omega) m _ _ hm rfl
        simp only [hmore n (by omega), hmore len hdrop]

/-- Parsing goes record by record. -/
theorem parseRecords_step (expected : Option ℕ) (rest : Bytes) :
    parseRecords expected rest = match readRecord rest with
      | .error stop => ([], stop)
      | .ok r =>
        if breaksSeq expected r.seq then ([], .sequenceDiscontinuity)
        else
          let more := parseRecords (some ((r.seq + 1) % 2 ^ 64)) (rest.drop r.size)
          (r :: more.1, more.2) := by
  rw [← parseTurns_eq _ _ _ (Nat.le_succ rest.length)]
  simp only [parseTurns]
  rcases hr : readRecord rest with stop | r
  · rfl
  · have hmore := parseTurns_eq rest.length (some ((r.seq + 1) % 2 ^ 64)) (rest.drop r.size) (by simp)
    simp only [hmore]

@[simp] theorem parseRecords_nil (expected : Option ℕ) : parseRecords expected [] = ([], .cleanEof) := rfl

/-- A record that was read, and the rest. -/
theorem parseRecords_cons {expected : Option ℕ} {rest : Bytes} {r : Record}
    (hr : readRecord rest = .ok r) (hseq : breaksSeq expected r.seq = false) :
    parseRecords expected rest =
      (r :: (parseRecords (some ((r.seq + 1) % 2 ^ 64)) (rest.drop r.size)).1,
        (parseRecords (some ((r.seq + 1) % 2 ^ 64)) (rest.drop r.size)).2) := by
  rw [parseRecords_step, hr]
  simp only [hseq, Bool.false_eq_true, if_false]

/-- Parsing as a recursion on what is left: the rule for proofs about it. -/
theorem parseRecords_induct {P : Option ℕ → Bytes → List Record × ScanStop → Prop}
    (hstop : ∀ expected rest stop, readRecord rest = .error stop → P expected rest ([], stop))
    (hbreak : ∀ expected rest r, readRecord rest = .ok r → breaksSeq expected r.seq = true →
      P expected rest ([], .sequenceDiscontinuity))
    (hcons : ∀ expected rest r rs stop, readRecord rest = .ok r → breaksSeq expected r.seq = false →
      parseRecords (some ((r.seq + 1) % 2 ^ 64)) (rest.drop r.size) = (rs, stop) →
      P (some ((r.seq + 1) % 2 ^ 64)) (rest.drop r.size) (rs, stop) → P expected rest (r :: rs, stop))
    (expected : Option ℕ) (rest : Bytes) : P expected rest (parseRecords expected rest) := by
  induction hlen : rest.length using Nat.strong_induction_on generalizing expected rest with
  | _ len ih =>
    rw [parseRecords_step]
    rcases hr : readRecord rest with stop | r
    · exact hstop expected rest stop hr
    · simp only
      split
      · rename_i hb
        exact hbreak expected rest r hr hb
      · rename_i hb
        have hpos := size_pos r
        have hsize := (readRecord_ok hr).2.1
        have hih := ih (rest.drop r.size).length (by simp; omega) (some ((r.seq + 1) % 2 ^ 64))
          (rest.drop r.size) rfl
        exact hcons expected rest r _ _ hr (by simpa using hb) rfl hih

/-- The valid records lie within the file. -/
theorem sizeAll_parseRecords_le (expected : Option ℕ) (file : Bytes) :
    sizeAll (parseRecords expected file).1 ≤ file.length := by
  refine parseRecords_induct (P := fun _ rest out => sizeAll out.1 ≤ rest.length) ?_ ?_ ?_ expected file
  · intros; exact Nat.zero_le _
  · intros; exact Nat.zero_le _
  · intro _ rest r rs stop hr _ _ ih
    have hsize := (readRecord_ok hr).2.1
    simp only [List.length_drop] at ih
    simp only [sizeAll_cons]
    omega

theorem readRecord_cleanEof {rest : Bytes} (h : readRecord rest = .error .cleanEof) : rest = [] := by
  by_contra hne
  unfold readRecord at h
  split at h
  · rename_i stop hh
    cases h
    unfold readHeader at hh
    rw [if_neg hne] at hh
    repeat' split at hh
    all_goals cases hh
  · split at h
    · rename_i stop hp
      cases h
      unfold readPayload at hp
      repeat' split at hp
      all_goals cases hp
    · cases h

/-- A clean end is the end of the file. -/
theorem parseRecords_clean (expected : Option ℕ) (file : Bytes)
    (h : (parseRecords expected file).2 = .cleanEof) :
    sizeAll (parseRecords expected file).1 = file.length := by
  revert h
  refine parseRecords_induct
    (P := fun _ rest out => out.2 = .cleanEof → sizeAll out.1 = rest.length) ?_ ?_ ?_ expected file
  · intro _ rest stop hr (hstop : stop = .cleanEof)
    rw [hstop] at hr
    rw [readRecord_cleanEof hr]
    rfl
  · intro _ _ _ _ _ h
    cases h
  · intro _ rest r rs stop hr _ _ ih hstop
    have hsize := (readRecord_ok hr).2.1
    have := ih hstop
    simp only [List.length_drop] at this
    simp only [sizeAll_cons]
    omega

/-- A part cut to its valid length parses the same, to a clean end. -/
theorem parseRecords_take (expected : Option ℕ) (file : Bytes) :
    parseRecords expected (file.take (sizeAll (parseRecords expected file).1)) =
      ((parseRecords expected file).1, .cleanEof) := by
  refine parseRecords_induct
    (P := fun e rest out => parseRecords e (rest.take (sizeAll out.1)) = (out.1, .cleanEof))
    ?_ ?_ ?_ expected file
  · intros; simp
  · intros; simp
  · intro e rest r rs stop hr hseq hmore ih
    obtain ⟨-, hsize, hread⟩ := readRecord_ok hr
    have hsplit : rest.take (r.size + sizeAll rs) = rest.take r.size ++ (rest.drop r.size).take (sizeAll rs) :=
      List.take_add
    have hdrop : (rest.take (r.size + sizeAll rs)).drop r.size = (rest.drop r.size).take (sizeAll rs) := by
      rw [hsplit, List.drop_left' (by simp; omega)]
    simp only [sizeAll_cons]
    rw [parseRecords_cons (r := r) (by rw [hsplit]; exact hread _) hseq, hdrop, ih]

/-- The records carry the sequence numbers from `a` on. -/
def Numbered (a : ℕ) (rs : List Record) : Prop := rs.map Record.seq = List.range' a rs.length

@[simp] theorem numbered_nil (a : ℕ) : Numbered a [] := rfl

theorem numbered_cons {a : ℕ} {r : Record} {rs : List Record} :
    Numbered a (r :: rs) ↔ r.seq = a ∧ Numbered (a + 1) rs := by
  simp [Numbered, List.range'_succ]

theorem numbered_append {a : ℕ} {rs rs' : List Record} :
    Numbered a (rs ++ rs') ↔ Numbered a rs ∧ Numbered (a + rs.length) rs' := by
  induction rs generalizing a with
  | nil => simp
  | cons r rs ih =>
    have hlen : a + 1 + rs.length = a + (rs.length + 1) := by omega
    rw [List.cons_append, numbered_cons, numbered_cons, ih, and_assoc, List.length_cons, hlen]

/-- The last of the records. -/
theorem Numbered.lastSeq {a : ℕ} : ∀ {rs : List Record}, Numbered a rs → rs ≠ [] →
    (rs.getLast?.map Record.seq) = some (a + rs.length - 1)
  | [], _, h => absurd rfl h
  | [r], h, _ => by simp [(numbered_cons.mp h).1]
  | r :: r' :: rs, h, _ => by
    rw [List.getLast?_cons_cons, (numbered_cons.mp h).2.lastSeq (by simp)]
    simp only [List.length_cons]
    congr 1
    omega

theorem breaksSeq_self (a : ℕ) : breaksSeq (some a) a = false := by simp [breaksSeq]

@[simp] theorem breaksSeq_none (a : ℕ) : breaksSeq none a = false := rfl

/-- Encoded records parse as themselves, and what follows them decides how the
part ends. -/
theorem parseRecords_encodeAll {t : Bytes} {stop : ScanStop} (ht : readRecord t = .error stop) :
    ∀ {rs : List Record} {a : ℕ} {expected : Option ℕ}, (∀ r ∈ rs, r.Fits) → Numbered a rs →
      a + rs.length ≤ 2 ^ 64 → (rs ≠ [] → expected = some a ∨ expected = none) →
      parseRecords expected (encodeAll rs ++ t) = (rs, stop)
  | [], a, expected, _, _, _, _ => by
    rw [encodeAll_nil, List.nil_append, parseRecords_step, ht]
  | r :: rs, a, expected, hfit, hnum, hlt, hexp => by
    obtain ⟨hseq, hnum'⟩ := numbered_cons.mp hnum
    simp only [List.length_cons] at hlt
    have hb : breaksSeq expected r.seq = false := by
      rcases hexp (by simp) with h | h
      · rw [h, hseq, breaksSeq_self]
      · rw [h, breaksSeq_none]
    have hread : readRecord (r.encode ++ (encodeAll rs ++ t)) = .ok r :=
      readRecord_encode (hfit r (by simp)) _
    -- the number after the last one is not expected of any record
    have hmod : rs ≠ [] → (r.seq + 1) % 2 ^ 64 = a + 1 := by
      intro hne
      have := List.length_pos_iff.mpr hne
      rw [hseq]
      exact Nat.mod_eq_of_lt (by omega)
    rw [encodeAll_cons, List.append_assoc, parseRecords_cons hread hb, List.drop_left' (by simp),
      parseRecords_encodeAll ht (fun r' h' => hfit r' (List.mem_cons_of_mem _ h')) hnum' (by omega)
        (fun hne => .inl (by rw [hmod hne]))]

/-- A torn record parses as a partial tail, nothing as a clean end. -/
theorem readRecord_tail {r : Record} (hr : r.Fits) {torn : Bytes} (hpre : torn <+: r.encode)
    (hlt : torn.length < r.size) :
    readRecord torn = .error (if torn = [] then .cleanEof else .partialTail) := by
  split
  · rename_i h
    rw [h]; rfl
  · rename_i h
    exact readRecord_torn hr hpre hlt h

/-- Encoded records that were cut off: records, and the beginning of the next
one. -/
theorem prefix_encodeAll : ∀ {rs : List Record} {p : Bytes}, p <+: encodeAll rs →
    ∃ j torn, j ≤ rs.length ∧ p = encodeAll (rs.take j) ++ torn ∧
      (torn = [] ∨ ∃ r, rs[j]? = some r ∧ torn <+: r.encode ∧ torn.length < r.size)
  | [], p, h => ⟨0, [], le_rfl, by simpa using h, .inl rfl⟩
  | r :: rs, p, h => by
    rw [encodeAll_cons] at h
    by_cases hlt : p.length < r.size
    · have hpre : p <+: r.encode :=
        List.prefix_of_prefix_length_le h (List.prefix_append _ _) (by simpa using hlt.le)
      exact ⟨0, p, Nat.zero_le _, by simp, .inr ⟨r, rfl, hpre, hlt⟩⟩
    · have hpre : r.encode <+: p :=
        List.prefix_of_prefix_length_le (List.prefix_append _ _) h (by simpa using hlt)
      obtain ⟨p', rfl⟩ := hpre
      obtain ⟨j, torn, hj, rfl, htorn⟩ := prefix_encodeAll ((List.prefix_append_right_inj _).mp h)
      refine ⟨j + 1, torn, by simpa using hj, ?_, by simpa using htorn⟩
      rw [List.take_succ_cons, encodeAll_cons, List.append_assoc]

/-- Parsing goes on where a beginning of the records ends. -/
theorem parseRecords_drop : ∀ {m a : ℕ} {rest : Bytes},
    a + (parseRecords (some a) rest).1.length < 2 ^ 64 → m ≤ (parseRecords (some a) rest).1.length →
    parseRecords (some (a + m)) (rest.drop (sizeAll ((parseRecords (some a) rest).1.take m))) =
      ((parseRecords (some a) rest).1.drop m, (parseRecords (some a) rest).2)
  | 0, a, rest, _, _ => by simp
  | m + 1, a, rest, hlt, hm => by
    rcases hr : readRecord rest with stop | r
    · rw [parseRecords_step, hr] at hm
      cases hm
    · by_cases hb : breaksSeq (some a) r.seq = true
      · rw [parseRecords_step, hr] at hm
        simp only [hb, if_true] at hm
        cases hm
      · have hseq : r.seq = a := by simpa [breaksSeq] using hb
        have hb' : breaksSeq (some a) r.seq = false := by simpa using hb
        have hcons := parseRecords_cons hr hb'
        rw [hcons] at hlt hm ⊢
        simp only [List.length_cons] at hlt hm
        have hmod : (r.seq + 1) % 2 ^ 64 = a + 1 := by
          rw [hseq]
          exact Nat.mod_eq_of_lt (by omega)
        rw [hmod] at hlt hm ⊢
        have ih := @parseRecords_drop m (a + 1) (rest.drop r.size) (by omega) (by omega)
        simp only [List.take_succ_cons, sizeAll_cons, List.drop_succ_cons]
        rw [← ih, List.drop_drop, Nat.add_assoc, Nat.add_comm 1 m]

/-- The records of a scan carry the numbers from the expected one on. -/
theorem parseRecords_numbered : ∀ {a : ℕ} {rest : Bytes},
    a + (parseRecords (some a) rest).1.length < 2 ^ 64 → Numbered a (parseRecords (some a) rest).1 := by
  intro a rest
  refine parseRecords_induct (P := fun expected _ out => ∀ a, expected = some a →
    a + out.1.length < 2 ^ 64 → Numbered a out.1) ?_ ?_ ?_ (some a) rest a rfl
  · intros; exact numbered_nil _
  · intros; exact numbered_nil _
  · intro expected rest r rs stop _ hb _ ih a ha hlt
    subst ha
    have hseq : r.seq = a := by simpa [breaksSeq] using hb
    simp only [List.length_cons] at hlt
    rw [hseq, Nat.mod_eq_of_lt (by omega)] at ih
    exact numbered_cons.mpr ⟨hseq, ih (a + 1) rfl (by simp only; omega)⟩

/-! ### What the scan returns -/

/-- The last sequence number of the records, if there are any. -/
def lastSeqOf (rs : List Record) : Option ℕ := rs.getLast?.map Record.seq

theorem lastSeqOf_cons (r : Record) (rs : List Record) (d : Option ℕ) :
    (lastSeqOf (r :: rs)).or d = (lastSeqOf rs).or (some r.seq) := by
  rcases rs with _ | ⟨r', rs⟩
  · rfl
  · rw [lastSeqOf, List.getLast?_cons_cons]
    rcases h : (r' :: rs).getLast? with _ | x
    · simp at h
    · simp [lastSeqOf, h]

/-- One turn of the stats scan. -/
theorem scanStep_stats (s : ScanState) (rest : Bytes) :
    scanStep .stats s rest = match readRecord rest with
      | .error stop => .inl (s.stop stop)
      | .ok r =>
        if breaksSeq s.expectedSeq r.seq then .inl (s.stop .sequenceDiscontinuity)
        else .inr { s with
          offset := s.offset + r.size
          expectedSeq := some ((r.seq + 1) % 2 ^ 64)
          recordCount := s.recordCount + 1
          lastSeq := some r.seq } := by
  unfold scanStep readRecord
  rcases hh : readHeader rest with stop | header
  · rfl
  · simp only [ScanMode.pastWindow, ScanMode.overBudget, ScanMode.keeps, Bool.false_eq_true, if_false]
    rcases hp : readPayload header (rest.drop headerLen) with stop | payload
    · rfl
    · have hlen : payload.length = header.payloadLen := by
        obtain ⟨h1, h2, -⟩ := readPayload_ok hp
        rw [h2, List.length_take]; omega
      simp only [breaksSeq, Record.size, hlen]

theorem scanLoop_stats : ∀ (turns : ℕ) (s : ScanState) (rest : Bytes),
    scanLoop .stats turns s rest = {
      records := s.records
      validLen := s.offset + sizeAll (parseTurns turns s.expectedSeq rest).1
      stop := (parseTurns turns s.expectedSeq rest).2
      truncated := s.truncated
      recordCount := s.recordCount + (parseTurns turns s.expectedSeq rest).1.length
      lastSeq := (lastSeqOf (parseTurns turns s.expectedSeq rest).1).or s.lastSeq }
  | 0, s, rest => by simp [scanLoop, parseTurns, ScanState.stop, lastSeqOf]
  | turns + 1, s, rest => by
    simp only [scanLoop, parseTurns, scanStep_stats]
    rcases hr : readRecord rest with stop | r
    · simp [ScanState.stop, lastSeqOf]
    · simp only
      by_cases hb : breaksSeq s.expectedSeq r.seq = true
      · simp [hb, ScanState.stop, lastSeqOf]
      · simp only [hb, Bool.false_eq_true, if_false, Nat.add_sub_cancel_left]
        rw [scanLoop_stats turns]
        simp only [sizeAll_cons, List.length_cons, lastSeqOf_cons, Nat.add_assoc]
        congr 1
        omega

/-- The stats of a part are read off its valid records. -/
theorem scanSegmentStatsFrom_eq (file : Bytes) (expected : Option ℕ) :
    scanSegmentStatsFrom file expected = {
      records := (parseRecords expected file).1.length
      lastSeq := lastSeqOf (parseRecords expected file).1
      validLen := sizeAll (parseRecords expected file).1
      stop := (parseRecords expected file).2 } := by
  simp only [scanSegmentStatsFrom, scanImpl, Option.map_none, Option.getD_none, List.drop_zero,
    Nat.sub_zero, scanLoop_stats, parseRecords, Nat.zero_add, Option.or_none]

/-- What a window scan returns of the records `rs` it finds: the first `m`, all
of them unless its budget ran out after at least one. -/
structure WindowOutcome (s : ScanState) (rs : List Record) (stop : ScanStop) (m : ℕ)
    (result : ScanResult) : Prop where
  le : m ≤ rs.length
  records : result.records = s.records ++ rs.take m
  validLen : result.validLen = s.offset + sizeAll (rs.take m)
  ends : result.truncated = true ∧ result.stop = .cleanEof ∧ s.records ++ rs.take m ≠ [] ∨
    result.truncated = false ∧ m = rs.length ∧ result.stop = stop

theorem WindowOutcome.stopped {s : ScanState} (stop : ScanStop) (h : s.truncated = false) :
    WindowOutcome s [] stop 0 (s.stop stop) :=
  ⟨le_rfl, by simp [ScanState.stop], by simp [ScanState.stop], .inr ⟨h, rfl, rfl⟩⟩

/-- The state past a record that a window scan keeps. -/
def ScanState.keep (s : ScanState) (r : Record) : ScanState where
  records := s.records ++ [r]
  bufferedBytes := s.bufferedBytes + r.payload.length
  truncated := s.truncated
  offset := s.offset + r.size
  expectedSeq := some ((r.seq + 1) % 2 ^ 64)
  recordCount := s.recordCount + 1
  lastSeq := some r.seq

/-- One turn of a window scan that expects a record of its window. -/
theorem scanStep_window {w : CollectWindow} (hto : w.toSeq = 2 ^ 64 - 1) {s : ScanState} {a : ℕ}
    (hexp : s.expectedSeq = some a) (hfrom : w.fromSeq ≤ a) (rest : Bytes) :
    (s.records ≠ [] ∧
      scanStep (.window w) s rest = .inl ({ s with truncated := true }.stop .cleanEof)) ∨
    (∃ stop, readRecord rest = .error stop ∧ scanStep (.window w) s rest = .inl (s.stop stop)) ∨
    (∃ r, readRecord rest = .ok r ∧ r.seq ≠ a ∧
      scanStep (.window w) s rest = .inl (s.stop .sequenceDiscontinuity)) ∨
    ∃ r, readRecord rest = .ok r ∧ r.seq = a ∧ scanStep (.window w) s rest = .inr (s.keep r) := by
  rcases hh : readHeader rest with stop | header
  · refine .inr (.inl ⟨stop, ?_, ?_⟩)
    · unfold readRecord; rw [hh]
    · unfold scanStep; rw [hh]
  · have hpast : ScanMode.pastWindow header.seq (.window w) = false := by
      have := (readHeader_fits hh).1
      simp only [ScanMode.pastWindow, decide_eq_false_iff_not]
      omega
    by_cases hbud : ScanMode.overBudget s header.payloadLen (.window w) = true
    · -- the budget stops the scan before it looks at the payload
      refine .inl ⟨?_, ?_⟩
      · intro h0
        simp [ScanMode.overBudget, h0] at hbud
      · simp only [scanStep, hh, hpast, hbud, Bool.false_eq_true, if_false, if_true]
    · rcases hp : readPayload header (rest.drop headerLen) with stop | payload
      · refine .inr (.inl ⟨stop, ?_, ?_⟩)
        · simp only [readRecord, hh, hp]
        · simp only [scanStep, hh, hpast, hbud, hp, Bool.false_eq_true, if_false]
      · have hr : readRecord rest = .ok ⟨header.kind, header.seq, header.elapsedMs, payload⟩ := by
          simp only [readRecord, hh, hp]
        have hlen : payload.length = header.payloadLen := by
          obtain ⟨h1, h2, -⟩ := readPayload_ok hp
          rw [h2, List.length_take]; omega
        by_cases hseq : header.seq = a
        · have hkeep : ScanMode.keeps header.seq (.window w) = true := by
            simp only [ScanMode.keeps, decide_eq_true_eq]; omega
          refine .inr (.inr (.inr ⟨_, hr, hseq, ?_⟩))
          subst hseq
          simp only [scanStep, hh, hpast, hbud, hp, hexp, hkeep, ScanState.keep, Record.size, hlen,
            Option.any_some, ne_eq, not_true_eq_false, decide_false, Bool.false_eq_true, if_false, if_true]
        · refine .inr (.inr (.inl ⟨_, hr, hseq, ?_⟩))
          simp only [scanStep, hh, hpast, hbud, hp, hexp, Option.any_some, ne_eq, hseq, not_false_eq_true,
            decide_true, Bool.false_eq_true, if_false, if_true]

/-- A window scan from the record it expects, to the end of the part. -/
theorem scanLoop_window (w : CollectWindow) (hto : w.toSeq = 2 ^ 64 - 1) :
    ∀ (turns : ℕ) (s : ScanState) (rest : Bytes) (a : ℕ), s.expectedSeq = some a → w.fromSeq ≤ a →
      a + (parseTurns turns (some a) rest).1.length < 2 ^ 64 → s.truncated = false →
      ∃ m, WindowOutcome s (parseTurns turns (some a) rest).1 (parseTurns turns (some a) rest).2 m
        (scanLoop (.window w) turns s rest)
  | 0, s, rest, a, _, _, _, htr => ⟨0, .stopped .cleanEof htr⟩
  | turns + 1, s, rest, a, hexp, hfrom, hlt, htr => by
    rcases scanStep_window hto hexp hfrom rest with
      ⟨hne, hstep⟩ | ⟨stop, hr, hstep⟩ | ⟨r, hr, hseq, hstep⟩ | ⟨r, hr, hseq, hstep⟩
    · refine ⟨0, Nat.zero_le _, ?_, ?_, .inl ⟨?_, ?_, by simpa using hne⟩⟩
      all_goals simp [scanLoop, hstep, ScanState.stop]
    · refine ⟨0, ?_⟩
      simp only [scanLoop, hstep, parseTurns, hr]
      exact .stopped stop htr
    · have hbreak : breaksSeq (some a) r.seq = true := by simp [breaksSeq, hseq]
      refine ⟨0, ?_⟩
      simp only [scanLoop, hstep, parseTurns, hr, hbreak, if_true]
      exact .stopped _ htr
    · have hparse : parseTurns (turns + 1) (some a) rest =
          (r :: (parseTurns turns (some ((r.seq + 1) % 2 ^ 64)) (rest.drop r.size)).1,
            (parseTurns turns (some ((r.seq + 1) % 2 ^ 64)) (rest.drop r.size)).2) := by
        simp only [parseTurns, hr, hseq, breaksSeq_self, Bool.false_eq_true, if_false]
      rw [hparse] at hlt ⊢
      simp only [List.length_cons] at hlt
      have hmod : (r.seq + 1) % 2 ^ 64 = a + 1 := by
        rw [hseq]; exact Nat.mod_eq_of_lt (by omega)
      rw [hmod] at hlt ⊢
      obtain ⟨m, hm⟩ := scanLoop_window w hto turns (s.keep r) (rest.drop r.size) (a + 1)
        (by rw [ScanState.keep, hmod]) (by omega) (by omega) htr
      have hoff : (s.keep r).offset - s.offset = r.size := by simp [ScanState.keep]
      refine ⟨m + 1, ?_⟩
      simp only [scanLoop, hstep, hoff]
      refine ⟨by simpa using hm.le, ?_, ?_, ?_⟩
      · rw [hm.records, ScanState.keep, List.take_succ_cons, List.append_assoc, List.singleton_append]
      · rw [hm.validLen, ScanState.keep, List.take_succ_cons, sizeAll_cons, Nat.add_assoc]
      · rcases hm.ends with ⟨h1, h2, -⟩ | ⟨h1, h2, h3⟩
        · exact .inl ⟨h1, h2, by simp⟩
        · exact .inr ⟨h1, by simp [h2], h3⟩

end Journal
end OpenRelay
