/-
# Records of a session's log

A terminal's output has no lines to count, so a page of a log counts records, which
`LogRecordScanner` cuts from the filtered stream: behind a line's end, before a
sequence that moves the cursor or clears, and where a record has grown to 2048 bytes
(`session/logs/index.rs`). The stream comes in the chunks of a reader.

Whatever the chunks are, the records are the stream cut into pieces, and a page is
its records and their number (`records_flatten`, `pageOf_eq`). The scanner takes its
input byte by byte in effect (`pushByte`), but for one thing: where a record is full,
it goes back to the last end of a character within the chunk, and has only the chunk
to look at. So the cuts depend on the chunks, unless what the record ends in is UTF-8
from wherever it is looked at (`log_records_iff`).

Key theorems: `processBytes_eq`, `records_differ`.
-/
import Mathlib.Algebra.Ring.Nat
import OpenRelay.Basic
import OpenRelay.Lib.Utf8

namespace OpenRelay
namespace Session

/-! ### The code -/

def logRecordFallbackBytes : ℕ := 2048

def escapeByte : UInt8 := 0x1b

/-- Whether a sequence is whole. -/
inductive AnsiSequenceStatus where
  | incomplete
  | complete
  | invalid
  deriving DecidableEq, Repr

def ansiSequenceStatus (bytes : Bytes) : AnsiSequenceStatus :=
  if bytes.head? ≠ some escapeByte then .invalid
  else
    match bytes[1]? with
    | none => .incomplete
    | some second =>
      if second = 0x5b then
        if (bytes.drop 2).any (fun b => decide (0x40 ≤ b ∧ b ≤ 0x7e)) then .complete else .incomplete
      else if second = 0x5d ∨ second = 0x50 ∨ second = 0x58 ∨ second = 0x5e ∨ second = 0x5f then
        if bytes.getLast? = some 0x07 ∨ (2 ≤ bytes.length ∧ bytes.drop (bytes.length - 2) = [0x1b, 0x5c]) then .complete
        else .incomplete
      else .complete

/-- `?1049` or `?1047`, set or reset. -/
def isAltScreenToggle (params : Bytes) (finalByte : UInt8) : Bool :=
  decide ((finalByte = 0x68 ∨ finalByte = 0x6c) ∧
    (params = [0x3f, 0x31, 0x30, 0x34, 0x39] ∨ params = [0x3f, 0x31, 0x30, 0x34, 0x37]))

/-- A sequence that moves the cursor, clears, or toggles the screen. -/
def isRecordBoundarySequence (sequence : Bytes) : Bool :=
  if sequence.length < 3 ∨ sequence[0]? ≠ some escapeByte ∨ sequence[1]? ≠ some 0x5b then false
  else
    let finalByte := sequence.getLast?.getD 0
    let params := (sequence.drop 2).take (sequence.length - 1 - 2)
    -- `H`, `f`, `d`, `G`, `J` and `K`
    decide (finalByte = 0x48 ∨ finalByte = 0x66 ∨ finalByte = 0x64 ∨ finalByte = 0x47 ∨ finalByte = 0x4a ∨
      finalByte = 0x4b) || isAltScreenToggle params finalByte

/-- A line feed, a carriage return or an escape. -/
def isSpecialRecordByte (b : UInt8) : Bool := decide (b = 0x0a ∨ b = 0x0d ∨ b = escapeByte)

/-- The first byte that is not plain text. -/
def findSpecialRecordByte (bytes : Bytes) : Option ℕ := bytes.findIdx? isSpecialRecordByte

/-- From the candidate down, the first length at which the bytes are UTF-8. -/
def utf8BoundaryFrom (bytes : Bytes) : ℕ → ℕ
  | 0 => 0
  | candidate + 1 => if Utf8.valid (bytes.take (candidate + 1)) then candidate + 1 else utf8BoundaryFrom bytes candidate

/-- The last end of a character up to `stop`. -/
def utf8BoundaryAtOrBefore (bytes : Bytes) (stop : ℕ) : ℕ := utf8BoundaryFrom bytes (min stop bytes.length)

/-- What the scanner keeps between two chunks. -/
structure LogRecordScanner where
  currentRecord : Bytes
  pendingEscape : Bytes
  /-- The records that were handed out. -/
  records : List Bytes
  deriving DecidableEq, Repr

namespace LogRecordScanner

/-- No byte has come. -/
def new : LogRecordScanner := ⟨[], [], []⟩

/-- What there is of a record is handed out. -/
def flushCurrentRecord (st : LogRecordScanner) : LogRecordScanner :=
  if st.currentRecord = [] then st
  else { st with currentRecord := [], records := st.records ++ [st.currentRecord] }

def flushPendingEscape (st : LogRecordScanner) (isBoundary : Bool) : LogRecordScanner :=
  let flushed := if isBoundary = true ∧ st.currentRecord ≠ [] then st.flushCurrentRecord else st
  { flushed with currentRecord := flushed.currentRecord ++ flushed.pendingEscape, pendingEscape := [] }

/-- Bytes of an escape sequence, and the bytes behind it. -/
def processPendingEscapeBytes : LogRecordScanner → Bytes → LogRecordScanner × Bytes
  | st, [] => (st, [])
  | st, b :: bs =>
    let st := { st with pendingEscape := st.pendingEscape ++ [b] }
    match ansiSequenceStatus st.pendingEscape with
    | .incomplete => st.processPendingEscapeBytes bs
    | .complete => (st.flushPendingEscape (isRecordBoundarySequence st.pendingEscape), bs)
    | .invalid => (st.flushPendingEscape false, bs)

theorem flushCurrentRecord_length (st : LogRecordScanner) : st.flushCurrentRecord.currentRecord.length = 0 := by
  unfold flushCurrentRecord
  split
  · rw [‹st.currentRecord = []›, List.length_nil]
  · rfl

/-- Plain text: as much of it as the record has room for, and then the next one. -/
def pushPlainBytes (st : LogRecordScanner) (bytes : Bytes) : LogRecordScanner :=
  if bytes = [] then st
  else
    let available := logRecordFallbackBytes - st.currentRecord.length
    if available = 0 then st.flushCurrentRecord.pushPlainBytes bytes
    else if bytes.length ≤ available then { st with currentRecord := st.currentRecord ++ bytes }
    else
      let splitAt := max (utf8BoundaryAtOrBefore bytes available) 1
      let st := { st with currentRecord := st.currentRecord ++ bytes.take splitAt }
      st.flushCurrentRecord.pushPlainBytes (bytes.drop splitAt)
termination_by (bytes.length, st.currentRecord.length)
decreasing_by
  · refine Prod.Lex.right _ ?_
    have hfull : 2048 - st.currentRecord.length = 0 := ‹_›
    rw [flushCurrentRecord_length]
    omega
  · refine Prod.Lex.left _ _ ?_
    rw [List.length_drop]
    omega

theorem processPendingEscapeBytes_length : ∀ (st : LogRecordScanner) (bytes : Bytes), bytes ≠ [] →
    (st.processPendingEscapeBytes bytes).2.length < bytes.length
  | st, b :: bs, _ => by
    unfold processPendingEscapeBytes
    dsimp only
    split
    · rcases bs with _ | ⟨c, cs⟩
      · exact Nat.zero_lt_one
      · exact (processPendingEscapeBytes_length _ (c :: cs) (List.cons_ne_nil c cs)).trans (Nat.lt_succ_self _)
    · exact Nat.lt_succ_self _
    · exact Nat.lt_succ_self _

/-- A chunk: what is held back of a sequence first, then text and sequences in turn. -/
def processBytes (st : LogRecordScanner) (remaining : Bytes) : LogRecordScanner :=
  if remaining = [] then st
  else if st.pendingEscape ≠ [] then
    (st.processPendingEscapeBytes remaining).1.processBytes (st.processPendingEscapeBytes remaining).2
  else
    match findSpecialRecordByte remaining with
    | none => st.pushPlainBytes remaining
    | some specialIndex =>
      let st := st.pushPlainBytes (remaining.take specialIndex)
      let special := (remaining[specialIndex]?).getD 0
      if special = escapeByte then
        { st with pendingEscape := st.pendingEscape ++ [escapeByte] }.processBytes (remaining.drop (specialIndex + 1))
      else
        { st with currentRecord := st.currentRecord ++ [special] }.flushCurrentRecord.processBytes
          (remaining.drop (specialIndex + 1))
termination_by remaining.length
decreasing_by
  · exact processPendingEscapeBytes_length st remaining ‹_›
  · have := List.length_pos_of_ne_nil ‹remaining ≠ []›
    rw [List.length_drop]
    omega
  · have := List.length_pos_of_ne_nil ‹remaining ≠ []›
    rw [List.length_drop]
    omega

/-- The end of the stream ends the last record. -/
def finish (st : LogRecordScanner) : LogRecordScanner :=
  { st with currentRecord := st.currentRecord ++ st.pendingEscape, pendingEscape := [] }.flushCurrentRecord

end LogRecordScanner

open LogRecordScanner

/-- The chunks of a reader; an empty one is its end. -/
def processPersistedLogReader : LogRecordScanner → List Bytes → LogRecordScanner
  | st, [] => st
  | st, chunk :: chunks => if chunk = [] then st else processPersistedLogReader (st.processBytes chunk) chunks

def scanPersistedLogRecords (chunks : List Bytes) : List Bytes := (processPersistedLogReader .new chunks).finish.records

/-- A page, as records are counted for it. -/
structure PaginatedLogRecords where
  offset : ℕ
  stop : ℕ
  total : ℕ
  records : List (List Char)

/-- Room for `limit` strings of 24 bytes is made at once, which cannot be done for
more than `isize::MAX` bytes. -/
def PaginatedLogRecords.new (offset limit : ℕ) : Option PaginatedLogRecords :=
  if 24 * limit < 2 ^ 63 then some ⟨offset, min (offset + limit) (2 ^ 64 - 1), 0, []⟩ else none

/-- One more record; an empty one does not count. -/
def PaginatedLogRecords.push (p : PaginatedLogRecords) (record : Bytes) : PaginatedLogRecords :=
  if record = [] then p
  else { p with
    records := if p.offset ≤ p.total ∧ p.total < p.stop then p.records ++ [Utf8.decode record] else p.records
    total := p.total + 1 }

/-- A page of a log that is read in these chunks, and how many records there are. -/
def pageOf (offset limit : ℕ) (chunks : List Bytes) : Option (List (List Char) × ℕ) :=
  (PaginatedLogRecords.new offset limit).map fun p =>
    let page := (scanPersistedLogRecords chunks).foldl PaginatedLogRecords.push p
    (page.records, page.total)

/-! ### The records are the stream -/

namespace LogRecordScanner

/-- What has gone in. -/
def taken (st : LogRecordScanner) : Bytes := st.records.flatten ++ st.currentRecord ++ st.pendingEscape

/-- No record is empty, and the records and what is pending are what went in. -/
structure Keeps (st st' : LogRecordScanner) (bytes : Bytes) : Prop where
  taken : st'.taken = st.taken ++ bytes
  records : st.records <+: st'.records
  nonempty : (∀ r ∈ st.records, r ≠ []) → ∀ r ∈ st'.records, r ≠ []

variable {st st' st'' : LogRecordScanner} {bytes more : Bytes}

theorem Keeps.refl (st : LogRecordScanner) : Keeps st st [] := ⟨(List.append_nil _).symm, List.prefix_rfl, id⟩

theorem Keeps.trans (h : Keeps st st' bytes) (h' : Keeps st' st'' more) : Keeps st st'' (bytes ++ more) :=
  ⟨by rw [h'.taken, h.taken, List.append_assoc], h.records.trans h'.records, fun hne => h'.nonempty (h.nonempty hne)⟩

theorem Keeps.of_taken (htaken : st'.taken = st.taken ++ bytes) (hrecords : st'.records = st.records) :
    Keeps st st' bytes := ⟨htaken, by rw [hrecords], fun hne => by rw [hrecords]; exact hne⟩

theorem keeps_flush (st : LogRecordScanner) : Keeps st st.flushCurrentRecord [] := by
  unfold flushCurrentRecord
  by_cases hnil : st.currentRecord = []
  · rw [if_pos hnil]
    exact .refl st
  · rw [if_neg hnil]
    refine ⟨by simp [LogRecordScanner.taken], List.prefix_append _ _, fun hne r hr => ?_⟩
    rcases List.mem_append.mp hr with hr | hr
    · exact hne r hr
    · rw [List.mem_singleton.mp hr]
      exact hnil

theorem keeps_plain (hpending : st.pendingEscape = []) (bytes : Bytes) :
    Keeps st { st with currentRecord := st.currentRecord ++ bytes } bytes := by
  refine .of_taken ?_ rfl
  simp [LogRecordScanner.taken, hpending]

theorem keeps_escape (st : LogRecordScanner) (bytes : Bytes) :
    Keeps st { st with pendingEscape := st.pendingEscape ++ bytes } bytes := by
  refine .of_taken ?_ rfl
  simp [LogRecordScanner.taken]

theorem flush_pendingEscape (st : LogRecordScanner) : st.flushCurrentRecord.pendingEscape = st.pendingEscape := by
  unfold flushCurrentRecord
  split <;> rfl

theorem keeps_flushPendingEscape (st : LogRecordScanner) (isBoundary : Bool) :
    Keeps st (st.flushPendingEscape isBoundary) [] := by
  have hmove : ∀ s : LogRecordScanner,
      Keeps s { s with currentRecord := s.currentRecord ++ s.pendingEscape, pendingEscape := [] } [] := fun s =>
    .of_taken (by simp [LogRecordScanner.taken]) rfl
  unfold flushPendingEscape
  dsimp only
  split
  · exact (keeps_flush st).trans (hmove _)
  · exact hmove st

theorem keeps_pendingEscape : ∀ (bytes : Bytes) (st : LogRecordScanner),
    ∃ eaten, bytes = eaten ++ (st.processPendingEscapeBytes bytes).2 ∧
      Keeps st (st.processPendingEscapeBytes bytes).1 eaten
  | [], st => ⟨[], rfl, .refl st⟩
  | b :: bs, st => by
    have hpush := keeps_escape st [b]
    unfold processPendingEscapeBytes
    dsimp only
    split
    · obtain ⟨eaten, heq, hkeeps⟩ := keeps_pendingEscape bs { st with pendingEscape := st.pendingEscape ++ [b] }
      exact ⟨b :: eaten, congrArg (b :: ·) heq, hpush.trans hkeeps⟩
    · exact ⟨[b], rfl, hpush.trans (keeps_flushPendingEscape _ _)⟩
    · exact ⟨[b], rfl, hpush.trans (keeps_flushPendingEscape _ _)⟩

theorem keeps_pushPlainBytes (st : LogRecordScanner) (bytes : Bytes) (hpending : st.pendingEscape = []) :
    Keeps st (st.pushPlainBytes bytes) bytes ∧ (st.pushPlainBytes bytes).pendingEscape = [] := by
  induction st, bytes using pushPlainBytes.induct with
  | case1 st =>
    rw [pushPlainBytes, if_pos rfl]
    exact ⟨.refl st, hpending⟩
  | case2 st bytes hne available hfull ih =>
    rw [pushPlainBytes, if_neg hne]
    dsimp only
    rw [if_pos hfull]
    obtain ⟨hkeeps, hrest⟩ := ih ((flush_pendingEscape st).trans hpending)
    exact ⟨(keeps_flush st).trans hkeeps, hrest⟩
  | case3 st bytes hne available hroom hfits =>
    rw [pushPlainBytes, if_neg hne]
    dsimp only
    rw [if_neg hroom, if_pos hfits]
    exact ⟨keeps_plain hpending bytes, hpending⟩
  | case4 st bytes hne available hroom hlong splitAt grown ih =>
    rw [pushPlainBytes, if_neg hne]
    dsimp only
    rw [if_neg hroom, if_neg hlong]
    obtain ⟨hkeeps, hrest⟩ := ih ((flush_pendingEscape _).trans hpending)
    refine ⟨?_, hrest⟩
    have hall := ((keeps_plain hpending (bytes.take splitAt)).trans (keeps_flush _)).trans hkeeps
    rw [List.append_nil, List.take_append_drop] at hall
    exact hall

/-- The special byte and what is around it. -/
theorem findSpecial_some {bytes : Bytes} {i : ℕ} (h : findSpecialRecordByte bytes = some i) :
    ∃ b, bytes[i]? = some b ∧ isSpecialRecordByte b = true ∧
      (∀ c ∈ bytes.take i, isSpecialRecordByte c = false) ∧ bytes = bytes.take i ++ b :: bytes.drop (i + 1) := by
  obtain ⟨hlt, hspecial, hbefore⟩ := List.findIdx?_eq_some_iff_getElem.mp h
  refine ⟨bytes[i], List.getElem?_eq_getElem hlt, hspecial, fun c hc => ?_, ?_⟩
  · obtain ⟨j, hj, rfl⟩ := List.mem_iff_getElem.mp hc
    rw [List.length_take] at hj
    rw [List.getElem_take]
    exact Bool.eq_false_iff.mpr (hbefore j (by omega))
  · rw [List.getElem_cons_drop, List.take_append_drop]

theorem keeps_processBytes (st : LogRecordScanner) (bytes : Bytes) : Keeps st (st.processBytes bytes) bytes := by
  induction st, bytes using processBytes.induct with
  | case1 st =>
    rw [processBytes, if_pos rfl]
    exact .refl st
  | case2 st bytes hne hpending ih =>
    rw [processBytes, if_neg hne, if_pos hpending]
    obtain ⟨eaten, heq, hkeeps⟩ := keeps_pendingEscape bytes st
    have hall := hkeeps.trans ih
    rw [← heq] at hall
    exact hall
  | case3 st bytes hne hpending hnone =>
    rw [processBytes, if_neg hne, if_neg hpending, hnone]
    exact (keeps_pushPlainBytes st bytes (not_not.mp hpending)).1
  | case4 st bytes hne hpending i hsome pushed special hspecial ih =>
    rw [processBytes, if_neg hne, if_neg hpending, hsome]
    dsimp only
    rw [if_pos hspecial]
    obtain ⟨b, hb, -, -, hsplit⟩ := findSpecial_some hsome
    have hesc : b = escapeByte := by
      have : (bytes[i]?).getD 0 = escapeByte := hspecial
      rw [hb] at this
      exact this
    rw [hesc] at hsplit
    have hplain := (keeps_pushPlainBytes st (bytes.take i) (not_not.mp hpending)).1
    have hall := (hplain.trans (keeps_escape _ [escapeByte])).trans ih
    rw [List.append_assoc, List.singleton_append, ← hsplit] at hall
    exact hall
  | case5 st bytes hne hpending i hsome pushed special hspecial ih =>
    rw [processBytes, if_neg hne, if_neg hpending, hsome]
    dsimp only
    rw [if_neg hspecial]
    obtain ⟨b, hb, -, -, hsplit⟩ := findSpecial_some hsome
    have hbyte : special = b := by
      show (bytes[i]?).getD 0 = b
      rw [hb]
      rfl
    rw [← hbyte] at hsplit
    obtain ⟨hplain, hrest⟩ := keeps_pushPlainBytes st (bytes.take i) (not_not.mp hpending)
    have hall := ((hplain.trans (keeps_plain hrest [special])).trans (keeps_flush _)).trans ih
    rw [List.append_nil, List.append_assoc, List.singleton_append, ← hsplit] at hall
    exact hall

/-- The end hands out what is pending, as one record at most. -/
theorem finish_spec (st : LogRecordScanner) : st.finish.records.flatten = st.taken ∧
    (st.finish.records = st.records ∨ ∃ r, r ≠ [] ∧ st.finish.records = st.records ++ [r]) := by
  unfold finish flushCurrentRecord
  dsimp only
  by_cases hnil : st.currentRecord ++ st.pendingEscape = []
  · rw [if_pos hnil]
    refine ⟨?_, .inl rfl⟩
    show st.records.flatten = _
    rw [LogRecordScanner.taken, List.append_assoc, hnil, List.append_nil]
  · rw [if_neg hnil]
    refine ⟨?_, .inr ⟨_, hnil, rfl⟩⟩
    simp [LogRecordScanner.taken]

end LogRecordScanner

/-- These are chunks of the stream, none of them empty. -/
def IsSplit (S : Bytes) (chunks : List Bytes) : Prop := chunks.flatten = S ∧ ∀ c ∈ chunks, c ≠ []

theorem processReader_eq : ∀ {chunks : List Bytes} (st : LogRecordScanner), (∀ c ∈ chunks, c ≠ []) →
    processPersistedLogReader st chunks = chunks.foldl processBytes st
  | [], _, _ => rfl
  | c :: cs, st, h => by
    rw [processPersistedLogReader, if_neg (h c List.mem_cons_self), List.foldl_cons,
      processReader_eq _ fun c hc => h c (List.mem_cons_of_mem _ hc)]

theorem keeps_foldl : ∀ (chunks : List Bytes) (st : LogRecordScanner),
    Keeps st (chunks.foldl processBytes st) chunks.flatten
  | [], st => .refl st
  | c :: cs, st => (keeps_processBytes st c).trans (keeps_foldl cs _)

section Split

variable {S : Bytes} {chunks : List Bytes}

theorem keeps_split (h : IsSplit S chunks) : Keeps .new (processPersistedLogReader .new chunks) S := by
  rw [processReader_eq _ h.2, ← h.1]
  exact keeps_foldl chunks .new

/-- **The records are the stream cut into pieces.** -/
theorem records_flatten (h : IsSplit S chunks) : (scanPersistedLogRecords chunks).flatten = S ∧
    ∀ r ∈ scanPersistedLogRecords chunks, r ≠ [] := by
  have hkeeps := keeps_split h
  obtain ⟨hflat, hrecords⟩ := finish_spec (processPersistedLogReader .new chunks)
  refine ⟨hflat.trans hkeeps.taken, fun r hr => ?_⟩
  have hne := hkeeps.nonempty nofun
  unfold scanPersistedLogRecords at hr
  rcases hrecords with heq | ⟨last, hlast, heq⟩
  · rw [heq] at hr
    exact hne r hr
  · rw [heq] at hr
    rcases List.mem_append.mp hr with hr | hr
    · exact hne r hr
    · rw [List.mem_singleton.mp hr]
      exact hlast

theorem length_le_flatten : ∀ {rs : List Bytes}, (∀ r ∈ rs, r ≠ []) → rs.length ≤ rs.flatten.length
  | [], _ => Nat.zero_le _
  | r :: rs, h => by
    have hr := List.length_pos_of_ne_nil (h r List.mem_cons_self)
    have hrs := length_le_flatten fun r hr => h r (List.mem_cons_of_mem _ hr)
    rw [List.flatten_cons, List.length_append, List.length_cons]
    omega

/-! ### Pages -/

/-- A page takes the records that it is for. -/
theorem push_foldl : ∀ {rs : List Bytes} {p : PaginatedLogRecords}, (∀ r ∈ rs, r ≠ []) →
    (rs.foldl PaginatedLogRecords.push p).total = p.total + rs.length ∧
    (rs.foldl PaginatedLogRecords.push p).records = p.records ++
      ((rs.drop (p.offset - p.total)).take (p.stop - max p.offset p.total)).map Utf8.decode
  | [], p, _ => by simp
  | r :: rs, p, h => by
    have hrest : ∀ r ∈ rs, r ≠ [] := fun r hr => h r (List.mem_cons_of_mem _ hr)
    have hstep : p.push r = { p with
        records := if p.offset ≤ p.total ∧ p.total < p.stop then p.records ++ [Utf8.decode r] else p.records
        total := p.total + 1 } := if_neg (h r List.mem_cons_self)
    obtain ⟨htotal, hrecords⟩ := @push_foldl rs (p.push r) hrest
    have hcount : (p.push r).total = p.total + 1 := by rw [hstep]
    rw [List.foldl_cons]
    refine ⟨by rw [htotal, hcount, List.length_cons]; omega, ?_⟩
    rw [hrecords, hstep]
    dsimp only
    by_cases hbefore : p.total < p.offset
    · have hdrop : p.offset - p.total = (p.offset - (p.total + 1)) + 1 := by omega
      rw [if_neg (by omega), hdrop, List.drop_succ_cons, max_eq_left (by omega), max_eq_left (by omega)]
    · have hzero : p.offset - p.total = 0 := by omega
      have hzero' : p.offset - (p.total + 1) = 0 := by omega
      rw [hzero, hzero', List.drop_zero, List.drop_zero, max_eq_right (by omega), max_eq_right (by omega)]
      by_cases hin : p.total < p.stop
      · have htake : p.stop - p.total = (p.stop - (p.total + 1)) + 1 := by omega
        rw [if_pos ⟨by omega, hin⟩, htake, List.take_succ_cons, List.map_cons, List.append_assoc]
        rfl
      · have hnone : p.stop - p.total = 0 := by omega
        have hnone' : p.stop - (p.total + 1) = 0 := by omega
        rw [if_neg (by omega), hnone, hnone', List.take_zero, List.take_zero]

/-- **A page** is its records, and how many there are, if there is room for it. -/
theorem pageOf_eq (h : IsSplit S chunks) (hlen : S.length < 2 ^ 64) {offset limit : ℕ} (hlimit : 24 * limit < 2 ^ 63) :
    pageOf offset limit chunks = some ((((scanPersistedLogRecords chunks).drop offset).take limit).map Utf8.decode,
      (scanPersistedLogRecords chunks).length) := by
  obtain ⟨hflat, hne⟩ := records_flatten h
  have hcount := length_le_flatten hne
  rw [hflat] at hcount
  obtain ⟨htotal, hrecords⟩ := @push_foldl _ ⟨offset, min (offset + limit) (2 ^ 64 - 1), 0, []⟩ hne
  unfold pageOf PaginatedLogRecords.new
  rw [if_pos hlimit, Option.map_some]
  dsimp only
  rw [htotal, hrecords]
  simp only [Nat.sub_zero, Nat.zero_add, List.nil_append, Nat.max_zero, Option.some.injEq, Prod.mk.injEq, and_true]
  congr 1
  -- past the largest offset there is no record
  by_cases hsum : offset + limit ≤ 2 ^ 64 - 1
  · rw [min_eq_left hsum, Nat.add_sub_cancel_left]
  · rw [min_eq_right (by omega), List.take_of_length_le (by rw [List.length_drop]; omega),
      List.take_of_length_le (by rw [List.length_drop]; omega)]

theorem pageOf_none {offset limit : ℕ} (h : 2 ^ 63 ≤ 24 * limit) : pageOf offset limit chunks = none := by
  unfold pageOf PaginatedLogRecords.new
  rw [if_neg (not_lt.mpr h)]
  rfl

end Split

/-! ### Byte by byte -/

namespace LogRecordScanner

/-- A full record is handed out before more text comes to it. -/
def roomy (st : LogRecordScanner) : LogRecordScanner :=
  if logRecordFallbackBytes ≤ st.currentRecord.length then st.flushCurrentRecord else st

/-- What one byte does that comes by itself. -/
def pushByte (st : LogRecordScanner) (b : UInt8) : LogRecordScanner :=
  if st.pendingEscape ≠ [] then
    let st := { st with pendingEscape := st.pendingEscape ++ [b] }
    match ansiSequenceStatus st.pendingEscape with
    | .incomplete => st
    | .complete => st.flushPendingEscape (isRecordBoundarySequence st.pendingEscape)
    | .invalid => st.flushPendingEscape false
  else if b = escapeByte then { st with pendingEscape := st.pendingEscape ++ [escapeByte] }
  else if isSpecialRecordByte b = true then { st with currentRecord := st.currentRecord ++ [b] }.flushCurrentRecord
  else { st.roomy with currentRecord := st.roomy.currentRecord ++ [b] }

end LogRecordScanner

/-- A scanner, and the plain text that its record ends in. -/
structure Cutter where
  scanner : LogRecordScanner
  run : Bytes

/-- One more byte, with the plain text that has come since the last cut. -/
def Cutter.push (t : Cutter) (b : UInt8) : Cutter where
  scanner := t.scanner.pushByte b
  run :=
    if t.scanner.pendingEscape ≠ [] ∨ isSpecialRecordByte b = true then []
    else if logRecordFallbackBytes ≤ t.scanner.currentRecord.length then [b]
    else t.run ++ [b]

/-- From wherever the text is looked at, two bytes before its end or more, it is
UTF-8. -/
def SuffixesValid (run : Bytes) : Prop := ∀ w, w <:+ run → 2 ≤ w.length → Utf8.valid w = true

/-- Wherever a full record is cut within plain text, what it ends in is UTF-8 from
wherever it is looked at. -/
def CutsWholeFrom : Cutter → Bytes → Prop
  | _, [] => True
  | t, b :: bs =>
    (t.scanner.pendingEscape = [] → isSpecialRecordByte b = false →
      logRecordFallbackBytes ≤ t.scanner.currentRecord.length → SuffixesValid t.run) ∧ CutsWholeFrom (t.push b) bs

def CutsWhole (S : Bytes) : Prop := CutsWholeFrom ⟨.new, []⟩ S

theorem suffixesValid_nil : SuffixesValid [] := by
  intro w hw hlen
  rw [List.suffix_nil.mp hw] at hlen
  exact absurd hlen (by decide)

theorem cutsWhole_append : ∀ {a b : Bytes} {t : Cutter},
    CutsWholeFrom t (a ++ b) ↔ CutsWholeFrom t a ∧ CutsWholeFrom (a.foldl Cutter.push t) b
  | [], _, _ => (and_iff_right trivial).symm
  | x :: a, b, t => by
    rw [List.cons_append, CutsWholeFrom, CutsWholeFrom, cutsWhole_append, List.foldl_cons, and_assoc]

section Boundary

variable {bytes : Bytes}

theorem utf8BoundaryFrom_le : ∀ n : ℕ, utf8BoundaryFrom bytes n ≤ n
  | 0 => le_rfl
  | n + 1 => by
    unfold utf8BoundaryFrom
    split
    · exact le_rfl
    · exact (utf8BoundaryFrom_le n).trans (Nat.le_succ n)

theorem utf8Boundary_valid {n : ℕ} (hn : n ≤ bytes.length) (h : Utf8.valid (bytes.take n) = true) :
    utf8BoundaryAtOrBefore bytes n = n := by
  rw [utf8BoundaryAtOrBefore, min_eq_left hn]
  cases n with
  | zero => rfl
  | succ n => rw [utf8BoundaryFrom, if_pos h]

theorem utf8Boundary_invalid {n : ℕ} (hpos : 0 < n) (hn : n ≤ bytes.length) (h : ¬ Utf8.valid (bytes.take n) = true) :
    utf8BoundaryAtOrBefore bytes n < n := by
  rw [utf8BoundaryAtOrBefore, min_eq_left hn]
  cases n with
  | zero => exact absurd hpos (Nat.lt_irrefl 0)
  | succ n =>
    rw [utf8BoundaryFrom, if_neg h]
    exact Nat.lt_succ_of_le (utf8BoundaryFrom_le n)

end Boundary

section Plain

variable {st : LogRecordScanner} {bytes run : Bytes}

theorem push_plain (hpending : st.pendingEscape = []) {b : UInt8} (hb : isSpecialRecordByte b = false) :
    Cutter.push ⟨st, run⟩ b = ⟨{ st.roomy with currentRecord := st.roomy.currentRecord ++ [b] },
      if logRecordFallbackBytes ≤ st.currentRecord.length then [b] else run ++ [b]⟩ := by
  have hesc : b ≠ escapeByte := by
    rintro rfl
    exact absurd hb (by decide)
  unfold Cutter.push LogRecordScanner.pushByte
  dsimp only
  rw [if_neg (not_not.mpr hpending), if_neg hesc, if_neg (by rw [hb]; decide),
    if_neg (not_or.mpr ⟨not_not.mpr hpending, by rw [hb]; decide⟩)]

/-- Plain text that fits is added. -/
theorem foldl_fits : ∀ {bytes run : Bytes} {st : LogRecordScanner}, st.pendingEscape = [] →
    (∀ b ∈ bytes, isSpecialRecordByte b = false) → st.currentRecord.length + bytes.length ≤ logRecordFallbackBytes →
    bytes.foldl Cutter.push ⟨st, run⟩ = ⟨{ st with currentRecord := st.currentRecord ++ bytes }, run ++ bytes⟩
  | [], run, st, _, _, _ => by simp
  | b :: bs, run, st, hpending, hplain, hfits => by
    rw [List.length_cons] at hfits
    have hroom : ¬ logRecordFallbackBytes ≤ st.currentRecord.length := by omega
    rw [List.foldl_cons, push_plain hpending (hplain b List.mem_cons_self), roomy, if_neg hroom, if_neg hroom,
      foldl_fits (by exact hpending) (fun c hc => hplain c (List.mem_cons_of_mem _ hc))
        (by rw [List.length_append, List.length_singleton]; omega)]
    simp only [List.append_assoc, List.singleton_append]

/-- Plain text that a record has room for is not cut. -/
theorem cutsWhole_fits : ∀ {bytes run : Bytes} {st : LogRecordScanner}, st.pendingEscape = [] →
    (∀ b ∈ bytes, isSpecialRecordByte b = false) → st.currentRecord.length + bytes.length ≤ logRecordFallbackBytes →
    CutsWholeFrom ⟨st, run⟩ bytes
  | [], _, _, _, _, _ => trivial
  | b :: bs, run, st, hpending, hplain, hfits => by
    rw [List.length_cons] at hfits
    have hroom : ¬ logRecordFallbackBytes ≤ st.currentRecord.length := by omega
    refine ⟨fun _ _ hfull => absurd hfull hroom, ?_⟩
    rw [push_plain hpending (hplain b List.mem_cons_self), roomy, if_neg hroom, if_neg hroom]
    exact cutsWhole_fits hpending (fun c hc => hplain c (List.mem_cons_of_mem _ hc))
      (by rw [List.length_append, List.length_singleton]; omega)

/-- To a full record the next plain byte comes as if it had been handed out. -/
theorem push_full (hpending : st.pendingEscape = []) {b : UInt8} (hb : isSpecialRecordByte b = false)
    (hfull : logRecordFallbackBytes ≤ st.currentRecord.length) :
    Cutter.push ⟨st, run⟩ b = Cutter.push ⟨st.flushCurrentRecord, []⟩ b := by
  have hempty := flushCurrentRecord_length st
  have hroom : ¬ logRecordFallbackBytes ≤ st.flushCurrentRecord.currentRecord.length := by
    rw [hempty]
    decide
  rw [push_plain hpending hb, push_plain ((flush_pendingEscape st).trans hpending) hb, if_pos hfull, if_neg hroom,
    roomy, roomy, if_pos hfull, if_neg hroom, List.nil_append]

/-- **Plain text** goes byte by byte, if the cuts are whole. -/
theorem pushPlainBytes_eq (hpending : st.pendingEscape = []) (hplain : ∀ b ∈ bytes, isSpecialRecordByte b = false)
    (hwhole : CutsWholeFrom ⟨st, run⟩ bytes) :
    st.pushPlainBytes bytes = (bytes.foldl Cutter.push ⟨st, run⟩).scanner := by
  induction st, bytes using pushPlainBytes.induct generalizing run with
  | case1 st =>
    rw [pushPlainBytes, if_pos rfl]
    rfl
  | case2 st bytes hne available hfull =>
    rename_i ih
    have hfull' : logRecordFallbackBytes ≤ st.currentRecord.length := Nat.sub_eq_zero_iff_le.mp hfull
    rw [pushPlainBytes, if_neg hne]
    dsimp only
    rw [if_pos hfull]
    obtain ⟨b, bs, rfl⟩ := List.exists_cons_of_ne_nil hne
    have hb := hplain b List.mem_cons_self
    have hsame := @push_full st run hpending b hb hfull'
    rw [List.foldl_cons, hsame, ← List.foldl_cons]
    refine ih ((flush_pendingEscape st).trans hpending) hplain ⟨fun _ _ _ => suffixesValid_nil, ?_⟩
    rw [← hsame]
    exact hwhole.2
  | case3 st bytes hne available hroom =>
    rw [pushPlainBytes, if_neg hne]
    dsimp only
    rename_i hfits
    rw [if_neg hroom, if_pos hfits, foldl_fits hpending hplain (by omega)]
  | case4 st bytes hne available hroom hlong splitAt grown =>
    rename_i ih
    have havailable : available = logRecordFallbackBytes - st.currentRecord.length := rfl
    have hlen : (bytes.take available).length = available := by
      rw [List.length_take]
      omega
    have hsplit : bytes.take available ++ bytes.drop available = bytes := List.take_append_drop _ _
    obtain ⟨x, rest, hrest⟩ : ∃ x rest, bytes.drop available = x :: rest :=
      List.exists_cons_of_ne_nil fun hnil => by
        rw [List.drop_eq_nil_iff] at hnil
        omega
    have hx := hplain x (List.mem_of_mem_drop (hrest ▸ List.mem_cons_self))
    have hfold : (bytes.take available).foldl Cutter.push ⟨st, run⟩ =
        ⟨{ st with currentRecord := st.currentRecord ++ bytes.take available }, run ++ bytes.take available⟩ :=
      foldl_fits hpending (fun b hb => hplain b (List.mem_of_mem_take hb)) (by omega)
    have hfull : logRecordFallbackBytes ≤ (st.currentRecord ++ bytes.take available).length := by
      rw [List.length_append]
      omega
    -- the record is cut where it is full
    rw [← hsplit, cutsWhole_append, hfold, hrest] at hwhole
    have hvalid := hwhole.2.1 hpending hx hfull
    have hat : splitAt = available := by
      show max (utf8BoundaryAtOrBefore bytes available) 1 = available
      by_cases hone : 2 ≤ available
      · rw [utf8Boundary_valid (by omega) (hvalid _ (List.suffix_append _ _) (by omega))]
        omega
      · have := @utf8BoundaryFrom_le bytes (min available bytes.length)
        unfold utf8BoundaryAtOrBefore
        omega
    rw [pushPlainBytes, if_neg hne]
    dsimp only
    rw [if_neg hroom, if_neg hlong]
    have hgrown : grown = { st with currentRecord := st.currentRecord ++ bytes.take available } := by
      rw [← hat]
    have hgrownPending : grown.pendingEscape = [] := by
      rw [hgrown]
      exact hpending
    have hsame := @push_full grown (run ++ bytes.take available) hgrownPending x hx (by rw [hgrown]; exact hfull)
    have hnext : CutsWholeFrom ⟨grown.flushCurrentRecord, []⟩ (bytes.drop splitAt) := by
      rw [hat, hrest]
      refine ⟨fun _ _ _ => suffixesValid_nil, ?_⟩
      rw [← hsame, hgrown]
      exact hwhole.2.2
    have hih := ih ((flush_pendingEscape grown).trans hgrownPending)
      (fun b hb => hplain b (List.mem_of_mem_drop hb)) hnext
    refine hih.trans ?_
    rw [hat, hrest, List.foldl_cons, ← hsame, hgrown, ← hfold, ← List.foldl_cons, ← hrest, ← List.foldl_append, hsplit]

end Plain

/-- The bytes of an escape sequence go byte by byte. -/
theorem pendingEscape_eq : ∀ {bytes run : Bytes} {st : LogRecordScanner}, st.pendingEscape ≠ [] →
    ∃ eaten run', bytes = eaten ++ (st.processPendingEscapeBytes bytes).2 ∧
      eaten.foldl Cutter.push ⟨st, run⟩ = ⟨(st.processPendingEscapeBytes bytes).1, run'⟩
  | [], run, st, _ => ⟨[], run, rfl, rfl⟩
  | b :: bs, run, st, hpending => by
    have hpush : Cutter.push ⟨st, run⟩ b = ⟨st.pushByte b, []⟩ := by
      unfold Cutter.push
      rw [if_pos (.inl hpending)]
    unfold processPendingEscapeBytes
    unfold LogRecordScanner.pushByte at hpush
    rw [if_pos hpending] at hpush
    dsimp only at hpush ⊢
    rcases hstatus : ansiSequenceStatus (st.pendingEscape ++ [b])
    case incomplete =>
      rw [hstatus] at hpush
      obtain ⟨eaten, run', heq, hfold⟩ := @pendingEscape_eq bs []
        { st with pendingEscape := st.pendingEscape ++ [b] } (by simp)
      refine ⟨b :: eaten, run', congrArg (b :: ·) heq, ?_⟩
      rw [List.foldl_cons, hpush]
      exact hfold
    all_goals
      rw [hstatus] at hpush
      exact ⟨[b], [], rfl, hpush⟩

theorem push_special {t : Cutter} (hpending : t.scanner.pendingEscape = []) {b : UInt8}
    (hb : isSpecialRecordByte b = true) : t.push b =
      ⟨if b = escapeByte then { t.scanner with pendingEscape := t.scanner.pendingEscape ++ [escapeByte] }
        else { t.scanner with currentRecord := t.scanner.currentRecord ++ [b] }.flushCurrentRecord, []⟩ := by
  have hrun : t.scanner.pendingEscape ≠ [] ∨ isSpecialRecordByte b = true := .inr hb
  have hscanner : t.scanner.pushByte b =
      if b = escapeByte then { t.scanner with pendingEscape := t.scanner.pendingEscape ++ [escapeByte] }
      else { t.scanner with currentRecord := t.scanner.currentRecord ++ [b] }.flushCurrentRecord := by
    unfold LogRecordScanner.pushByte
    rw [if_neg (not_not.mpr hpending)]
    simp only [hb, if_true]
  unfold Cutter.push
  rw [hscanner]
  simp only [hrun, if_true]

/-- **A chunk** goes byte by byte, if the cuts are whole. -/
theorem processBytes_eq {st : LogRecordScanner} {bytes run : Bytes} (hwhole : CutsWholeFrom ⟨st, run⟩ bytes) :
    st.processBytes bytes = (bytes.foldl Cutter.push ⟨st, run⟩).scanner := by
  induction st, bytes using processBytes.induct generalizing run with
  | case1 st =>
    rw [processBytes, if_pos rfl]
    rfl
  | case2 st bytes hne hpending ih =>
    rw [processBytes, if_neg hne, if_pos hpending]
    obtain ⟨eaten, run', heq, hfold⟩ := @pendingEscape_eq bytes run st hpending
    rw [heq, cutsWhole_append, hfold] at hwhole
    conv_rhs => rw [heq]
    rw [List.foldl_append, hfold]
    exact ih hwhole.2
  | case3 st bytes hne hpending hnone =>
    rw [processBytes, if_neg hne, if_neg hpending, hnone]
    refine pushPlainBytes_eq (not_not.mp hpending) (fun b hb => ?_) hwhole
    exact List.findIdx?_eq_none_iff.mp hnone b hb
  | case4 st bytes hne hpending i hsome pushed special hspecial =>
    rename_i ih
    rw [processBytes, if_neg hne, if_neg hpending, hsome]
    dsimp only
    obtain ⟨b, hb, hbspecial, hplain, hsplit⟩ := findSpecial_some hsome
    have hbyte : special = b := by
      show (bytes[i]?).getD 0 = b
      rw [hb]
      rfl
    rw [if_pos hspecial]
    have hpushed := (keeps_pushPlainBytes st (bytes.take i) (not_not.mp hpending)).2
    rw [hsplit, cutsWhole_append] at hwhole
    have hfold := pushPlainBytes_eq (not_not.mp hpending) hplain hwhole.1
    have hpush : ((bytes.take i).foldl Cutter.push ⟨st, run⟩).push b =
        ⟨{ pushed with pendingEscape := pushed.pendingEscape ++ [escapeByte] }, []⟩ := by
      rw [push_special (by rw [← hfold]; exact hpushed) hbspecial, ← hfold, ← hbyte, if_pos hspecial]
    rw [CutsWholeFrom, hpush] at hwhole
    conv_rhs => rw [hsplit]
    rw [List.foldl_append, List.foldl_cons, hpush]
    exact ih hwhole.2.2
  | case5 st bytes hne hpending i hsome pushed special hspecial =>
    rename_i ih
    rw [processBytes, if_neg hne, if_neg hpending, hsome]
    dsimp only
    obtain ⟨b, hb, hbspecial, hplain, hsplit⟩ := findSpecial_some hsome
    have hbyte : special = b := by
      show (bytes[i]?).getD 0 = b
      rw [hb]
      rfl
    rw [if_neg hspecial]
    have hpushed := (keeps_pushPlainBytes st (bytes.take i) (not_not.mp hpending)).2
    rw [hsplit, cutsWhole_append] at hwhole
    have hfold := pushPlainBytes_eq (not_not.mp hpending) hplain hwhole.1
    have hpush : ((bytes.take i).foldl Cutter.push ⟨st, run⟩).push b =
        ⟨{ pushed with currentRecord := pushed.currentRecord ++ [special] }.flushCurrentRecord, []⟩ := by
      rw [push_special (by rw [← hfold]; exact hpushed) hbspecial, ← hfold, ← hbyte, if_neg hspecial]
    rw [CutsWholeFrom, hpush] at hwhole
    conv_rhs => rw [hsplit]
    rw [List.foldl_append, List.foldl_cons, hpush]
    exact ih hwhole.2.2

/-- A byte by itself has nothing to cut behind. -/
theorem processBytes_single (st : LogRecordScanner) (b : UInt8) : st.processBytes [b] = st.pushByte b :=
  @processBytes_eq st [b] [] ⟨fun _ _ _ => suffixesValid_nil, trivial⟩

theorem foldl_scanner : ∀ (bytes : Bytes) (t : Cutter),
    (bytes.foldl Cutter.push t).scanner = bytes.foldl pushByte t.scanner
  | [], _ => rfl
  | b :: bs, t => foldl_scanner bs (t.push b)

/-- Chunks go byte by byte too. -/
theorem foldl_processBytes_eq : ∀ {chunks : List Bytes} {t : Cutter}, CutsWholeFrom t chunks.flatten →
    chunks.foldl processBytes t.scanner = (chunks.flatten.foldl Cutter.push t).scanner
  | [], _, _ => rfl
  | c :: cs, t, hwhole => by
    rw [List.flatten_cons, cutsWhole_append] at hwhole
    rw [List.foldl_cons, processBytes_eq hwhole.1, foldl_processBytes_eq hwhole.2, List.flatten_cons, List.foldl_append]

/-- The records of a stream that comes byte by byte. -/
def recordsOf (S : Bytes) : List Bytes := (S.foldl pushByte .new).finish.records

theorem records_of_cutsWhole {S : Bytes} {chunks : List Bytes} (hwhole : CutsWhole S) (h : IsSplit S chunks) :
    scanPersistedLogRecords chunks = recordsOf S := by
  unfold scanPersistedLogRecords recordsOf
  rw [processReader_eq _ h.2]
  have hfold := @foldl_processBytes_eq chunks ⟨.new, []⟩ (by rw [h.1]; exact hwhole)
  rw [hfold, h.1, foldl_scanner]

/-! ### Where the chunks matter -/

/-- Where the text that a record ends in began. -/
structure Traced (t : Cutter) (pre : Bytes) : Prop where
  scanner : t.scanner = pre.foldl pushByte .new
  short : t.run ≠ [] → t.scanner.currentRecord.length ≤ logRecordFallbackBytes
  cut : ∀ w, w <:+ t.run → w ≠ [] → ∃ pre', pre = pre' ++ w ∧ (pre'.foldl pushByte .new).pendingEscape = [] ∧
    (∀ b ∈ w, isSpecialRecordByte b = false) ∧
    t.scanner = { (pre'.foldl pushByte .new).roomy with
      currentRecord := (pre'.foldl pushByte .new).roomy.currentRecord ++ w }

theorem traced_push {t : Cutter} {pre : Bytes} (h : Traced t pre) (b : UInt8) : Traced (t.push b) (pre ++ [b]) := by
  have hscanner : (t.push b).scanner = (pre ++ [b]).foldl pushByte .new := by
    rw [List.foldl_append, ← h.scanner]
    rfl
  by_cases hplain : t.scanner.pendingEscape ≠ [] ∨ isSpecialRecordByte b = true
  · have hrun : (t.push b).run = [] := by
      unfold Cutter.push
      exact if_pos hplain
    refine ⟨hscanner, fun hne => absurd hrun hne, fun w hw hne => ?_⟩
    rw [hrun, List.suffix_nil] at hw
    exact absurd hw hne
  obtain ⟨hpending, hb⟩ := not_or.mp hplain
  have hpending' := not_not.mp hpending
  have hpush := @push_plain t.scanner t.run hpending' b (Bool.eq_false_iff.mpr hb)
  have hfirst : ∃ pre', pre ++ [b] = pre' ++ [b] ∧ (pre'.foldl pushByte .new).pendingEscape = [] ∧
      (∀ c ∈ [b], isSpecialRecordByte c = false) ∧
      (t.push b).scanner = { (pre'.foldl pushByte .new).roomy with
        currentRecord := (pre'.foldl pushByte .new).roomy.currentRecord ++ [b] } := by
    refine ⟨pre, rfl, by rw [← h.scanner]; exact hpending', fun c hc => ?_, ?_⟩
    · rw [List.mem_singleton.mp hc]
      exact Bool.eq_false_iff.mpr hb
    · rw [← h.scanner]
      exact congrArg Cutter.scanner hpush
  by_cases hfull : logRecordFallbackBytes ≤ t.scanner.currentRecord.length
  · -- the run begins anew with the record
    rw [if_pos hfull, roomy, if_pos hfull] at hpush
    have hpush' : t.push b = _ := hpush
    refine ⟨hscanner, fun _ => ?_, fun w hw hne => ?_⟩
    · rw [hpush', List.length_append, flushCurrentRecord_length]
      exact show 0 + 1 ≤ 2048 by decide
    · rw [hpush', ← List.nil_append [b], List.suffix_concat_iff] at hw
      rcases hw with rfl | ⟨w', rfl, hw'⟩
      · exact absurd rfl hne
      · rw [List.suffix_nil.mp hw', List.nil_append]
        exact hfirst
  · rw [if_neg hfull] at hpush
    have hroomy : t.scanner.roomy = t.scanner := if_neg hfull
    have hpush' : t.push b = _ := hpush
    refine ⟨hscanner, fun _ => ?_, fun w hw hne => ?_⟩
    · rw [hpush', hroomy, List.length_append, List.length_singleton]
      omega
    · rw [hpush', List.suffix_concat_iff] at hw
      rcases hw with rfl | ⟨w', rfl, hw'⟩
      · exact absurd rfl hne
      · by_cases hnil : w' = []
        · rw [hnil, List.nil_append]
          exact hfirst
        · obtain ⟨pre', hpre, hesc, hall, heq⟩ := h.cut w' hw' hnil
          refine ⟨pre', by rw [hpre, List.append_assoc], hesc, fun c hc => ?_, ?_⟩
          · rcases List.mem_append.mp hc with hc | hc
            · exact hall c hc
            · rw [List.mem_singleton.mp hc]
              exact Bool.eq_false_iff.mpr hb
          · rw [hpush', hroomy, heq]
            simp only [List.append_assoc]

theorem traced_foldl : ∀ (bytes : Bytes) {t : Cutter} {pre : Bytes}, Traced t pre →
    Traced (bytes.foldl Cutter.push t) (pre ++ bytes)
  | [], _, _, h => by
    rw [List.append_nil]
    exact h
  | b :: bs, _, pre, h => by
    have := traced_foldl bs (traced_push h b)
    rw [List.append_assoc] at this
    exact this

theorem traced_new : Traced ⟨.new, []⟩ [] :=
  ⟨rfl, fun hne => absurd rfl hne, fun _ hw hne => absurd (List.suffix_nil.mp hw) hne⟩

/-- A cut that is not whole. -/
theorem exists_cut : ∀ {S : Bytes} {t : Cutter}, ¬ CutsWholeFrom t S → ∃ a x rest, S = a ++ x :: rest ∧
    (a.foldl Cutter.push t).scanner.pendingEscape = [] ∧ isSpecialRecordByte x = false ∧
    logRecordFallbackBytes ≤ (a.foldl Cutter.push t).scanner.currentRecord.length ∧
    ¬ SuffixesValid (a.foldl Cutter.push t).run
  | [], _, h => absurd trivial h
  | b :: bs, t, h => by
    by_cases hhere : t.scanner.pendingEscape = [] → isSpecialRecordByte b = false →
        logRecordFallbackBytes ≤ t.scanner.currentRecord.length → SuffixesValid t.run
    · obtain ⟨a, x, rest, hbs, hcut⟩ := exists_cut fun hrest => h ⟨hhere, hrest⟩
      exact ⟨b :: a, x, rest, by rw [hbs]; rfl, hcut⟩
    · push Not at hhere
      obtain ⟨hpending, hb, hfull, hrun⟩ := hhere
      exact ⟨[], b, bs, rfl, hpending, hb, hfull, hrun⟩

/-- A stream byte by byte. -/
def singles (bytes : Bytes) : List Bytes := bytes.map fun b => [b]

theorem isSplit_singles (bytes : Bytes) : IsSplit bytes (singles bytes) := by
  refine ⟨?_, fun c hc => ?_⟩
  · unfold singles
    induction bytes with
    | nil => rfl
    | cons b bs ih => rw [List.map_cons, List.flatten_cons, ih, List.singleton_append]
  · obtain ⟨b, -, rfl⟩ := List.mem_map.mp hc
    exact List.cons_ne_nil b []

theorem IsSplit.append {S S' : Bytes} {chunks chunks' : List Bytes} (h : IsSplit S chunks) (h' : IsSplit S' chunks') :
    IsSplit (S ++ S') (chunks ++ chunks') := by
  refine ⟨by rw [List.flatten_append, h.1, h'.1], fun c hc => ?_⟩
  rcases List.mem_append.mp hc with hc | hc
  · exact h.2 c hc
  · exact h'.2 c hc

theorem foldl_singles (bytes : Bytes) (st : LogRecordScanner) :
    (singles bytes).foldl processBytes st = bytes.foldl pushByte st := by
  unfold singles
  rw [List.foldl_map]
  congr 1
  funext st b
  exact processBytes_single st b

theorem finish_records (st : LogRecordScanner) : st.records <+: st.finish.records := by
  rcases (finish_spec st).2 with heq | ⟨r, -, heq⟩
  · rw [heq]
  · rw [heq]
    exact List.prefix_append _ _

/-- What a chunk that comes first hands out stays. -/
theorem records_of_first {first rest : List Bytes} (h : ∀ c ∈ first ++ rest, c ≠ []) :
    (first.foldl processBytes .new).records <+: scanPersistedLogRecords (first ++ rest) := by
  unfold scanPersistedLogRecords
  rw [processReader_eq _ h, List.foldl_append]
  exact (keeps_foldl rest _).records.trans (finish_records _)

theorem prefix_last {α : Type*} {l m : List α} {p q : α} (hp : l ++ [p] <+: m) (hq : l ++ [q] <+: m) : p = q := by
  have hpre := List.prefix_of_prefix_length_le hp hq (by rw [List.length_append, List.length_append]; exact le_rfl)
  have heq := hpre.eq_of_length (by rw [List.length_append, List.length_append]; rfl)
  exact List.singleton_inj.mp (List.append_cancel_left heq)

theorem pushPlainBytes_roomy {st : LogRecordScanner} {bytes : Bytes} (hne : bytes ≠ []) :
    st.pushPlainBytes bytes = st.roomy.pushPlainBytes bytes := by
  unfold roomy
  by_cases hfull : logRecordFallbackBytes ≤ st.currentRecord.length
  · conv_lhs => rw [pushPlainBytes, if_neg hne]
    dsimp only
    rw [if_pos (Nat.sub_eq_zero_of_le hfull), if_pos hfull]
  · rw [if_neg hfull]

/-- Text that is one byte too long and does not end well is cut too early. -/
theorem cut_early {st : LogRecordScanner} {w : Bytes} {x : UInt8} (hpending : st.pendingEscape = [])
    (hlen : st.currentRecord.length + w.length = logRecordFallbackBytes) (htwo : 2 ≤ w.length)
    (hinvalid : ¬ Utf8.valid w = true) :
    ∃ k, k < w.length ∧ st.records ++ [st.currentRecord ++ w.take k] <+: (st.pushPlainBytes (w ++ [x])).records := by
  have hlong : (w ++ [x]).length = w.length + 1 := by rw [List.length_append, List.length_singleton]
  have htake : (w ++ [x]).take w.length = w := List.take_left' rfl
  have hbound := @utf8Boundary_invalid (w ++ [x]) w.length (by omega) (by omega) (by rw [htake]; exact hinvalid)
  have havailable : logRecordFallbackBytes - st.currentRecord.length = w.length := by omega
  obtain ⟨k, hk⟩ : ∃ k, k = max (utf8BoundaryAtOrBefore (w ++ [x]) w.length) 1 := ⟨_, rfl⟩
  have hsmall : (w ++ [x]).take k = w.take k := List.take_append_of_le_length (by omega)
  have hne : w.take k ≠ [] := by
    intro hnil
    rcases List.take_eq_nil_iff.mp hnil with h0 | hnil
    · omega
    · rw [hnil] at htwo
      exact absurd htwo (by decide)
  refine ⟨k, by omega, ?_⟩
  rw [pushPlainBytes, if_neg (by simp)]
  dsimp only
  rw [havailable, if_neg (by omega), if_neg (by omega), ← hk, hsmall]
  refine List.IsPrefix.trans ?_ (keeps_pushPlainBytes _ _ (by rw [flush_pendingEscape]; exact hpending)).1.records
  unfold flushCurrentRecord
  rw [if_neg (by simp [hne])]

/-- **Where a cut is not whole, the chunks matter.** -/
theorem records_differ {S : Bytes} (h : ¬ CutsWhole S) : ∃ chunks chunks', IsSplit S chunks ∧ IsSplit S chunks' ∧
    scanPersistedLogRecords chunks ≠ scanPersistedLogRecords chunks' := by
  obtain ⟨a, x, rest, rfl, hpending, hx, hfull, hrun⟩ := exists_cut h
  have htraced := traced_foldl a traced_new
  rw [List.nil_append] at htraced
  unfold SuffixesValid at hrun
  push Not at hrun
  obtain ⟨w, hw, htwo, hinvalid⟩ := hrun
  have hwne : w ≠ [] := List.ne_nil_of_length_pos (by omega)
  obtain ⟨pre, rfl, hpre, hplain, hscanner⟩ := htraced.cut w hw hwne
  have hshort := htraced.short fun hnil => hwne (List.suffix_nil.mp (hnil ▸ hw))
  obtain ⟨st, hst⟩ : ∃ st, st = (pre.foldl pushByte .new).roomy := ⟨_, rfl⟩
  have hstPending : st.pendingEscape = [] := by
    rw [hst, roomy]
    split
    · exact (flush_pendingEscape _).trans hpre
    · exact hpre
  rw [← hst] at hscanner
  rw [hscanner] at hfull hshort
  have hlen : st.currentRecord.length + w.length = logRecordFallbackBytes := by
    rw [List.length_append] at hfull hshort
    omega
  -- byte by byte the record is cut where it is full
  have hbytes : st.records ++ [st.currentRecord ++ w] <+: scanPersistedLogRecords (singles ((pre ++ w) ++ x :: rest)) := by
    have hsplit : singles ((pre ++ w) ++ x :: rest) = singles ((pre ++ w) ++ [x]) ++ singles rest := by
      simp [singles]
    have hfirst := @records_of_first (singles ((pre ++ w) ++ [x])) (singles rest)
      (by rw [← hsplit]; exact (isSplit_singles _).2)
    rw [hsplit]
    refine List.IsPrefix.trans ?_ hfirst
    rw [foldl_singles, List.foldl_append, ← htraced.scanner, hscanner, List.foldl_cons, List.foldl_nil]
    have hpush := congrArg Cutter.scanner (@push_plain { st with currentRecord := st.currentRecord ++ w } []
      hstPending x hx)
    have hrecords : (roomy { st with currentRecord := st.currentRecord ++ w }).records =
        st.records ++ [st.currentRecord ++ w] := by
      rw [roomy, if_pos hfull, flushCurrentRecord, if_neg (by simp [hwne])]
    rw [← hrecords]
    exact (congrArg LogRecordScanner.records hpush) ▸ List.prefix_rfl
  -- from `w` on the chunk shows too little
  obtain ⟨k, hk, hearly⟩ := @cut_early st w x hstPending hlen htwo hinvalid
  have hchunks : IsSplit ((pre ++ w) ++ x :: rest) ((singles pre ++ [w ++ [x]]) ++ singles rest) := by
    have hmiddle : IsSplit (w ++ [x]) [w ++ [x]] :=
      ⟨by simp, fun c hc => by rw [List.mem_singleton.mp hc]; simp⟩
    have hall := ((isSplit_singles pre).append hmiddle).append (isSplit_singles rest)
    have heq : (pre ++ w) ++ x :: rest = pre ++ (w ++ [x]) ++ rest := by simp
    rw [heq]
    exact hall
  have hchunk : st.records ++ [st.currentRecord ++ w.take k] <+:
      scanPersistedLogRecords ((singles pre ++ [w ++ [x]]) ++ singles rest) := by
    refine List.IsPrefix.trans ?_ (records_of_first hchunks.2)
    rw [List.foldl_append, foldl_singles, List.foldl_cons, List.foldl_nil]
    have hnone : findSpecialRecordByte (w ++ [x]) = none := by
      rw [findSpecialRecordByte, List.findIdx?_eq_none_iff]
      intro b hb
      rcases List.mem_append.mp hb with hb | hb
      · exact hplain b hb
      · rw [List.mem_singleton.mp hb]
        exact hx
    rw [processBytes, if_neg (by simp), if_neg (not_not.mpr hpre), hnone]
    dsimp only
    rw [pushPlainBytes_roomy (by simp), ← hst]
    exact hearly
  refine ⟨_, _, isSplit_singles _, hchunks, fun heq => ?_⟩
  rw [heq] at hbytes
  have hsame := congrArg List.length (List.append_cancel_left (prefix_last hbytes hchunk))
  rw [List.length_take] at hsame
  omega

/-! ### Pages one after another -/

/-- Pages of these sizes, each behind the one before. -/
def pagesOf (chunks : List Bytes) : ℕ → List ℕ → Option (List (List Char))
  | _, [] => some []
  | offset, limit :: limits =>
    (pageOf offset limit chunks).bind fun page =>
      (pagesOf chunks (offset + limit) limits).map fun more => page.1 ++ more

theorem pagesOf_eq {S : Bytes} {chunks : List Bytes} (h : IsSplit S chunks) (hlen : S.length < 2 ^ 64) :
    ∀ {limits : List ℕ} {offset : ℕ}, (∀ limit ∈ limits, 24 * limit < 2 ^ 63) →
    pagesOf chunks offset limits =
      some ((((scanPersistedLogRecords chunks).drop offset).take limits.sum).map Utf8.decode)
  | [], _, _ => by
    rw [pagesOf, List.sum_nil, List.take_zero]
    rfl
  | limit :: limits, offset, hlimits => by
    rw [pagesOf, pageOf_eq h hlen (hlimits limit List.mem_cons_self), Option.bind_some,
      pagesOf_eq h hlen fun l hl => hlimits l (List.mem_cons_of_mem _ hl), Option.map_some, ← List.map_append,
      List.sum_cons, List.take_add, List.drop_drop]

/-- When the stream goes on, its records go on behind the last one so far. -/
theorem recordsOf_grown (S T : Bytes) : (recordsOf S).dropLast <+: recordsOf (S ++ T) := by
  unfold recordsOf
  have hgrown : (S.foldl pushByte .new).records <+: ((S ++ T).foldl pushByte .new).finish.records := by
    have hkeeps := keeps_foldl (singles T) (S.foldl pushByte .new)
    rw [foldl_singles] at hkeeps
    rw [List.foldl_append]
    exact hkeeps.records.trans (finish_records _)
  refine List.IsPrefix.trans ?_ hgrown
  rcases (finish_spec (S.foldl pushByte .new)).2 with heq | ⟨r, -, heq⟩
  · rw [heq]
    exact List.dropLast_prefix _
  · rw [heq, List.dropLast_concat]

theorem cutsWhole_of_append {S T : Bytes} (h : CutsWhole (S ++ T)) : CutsWhole S := (cutsWhole_append.mp h).1

/-- **Pages partition the stream.** Whatever chunks a stream comes in, its records are
not empty and make it up, and a page that there is room for is its records and their
number, so pages one after another are the records. The chunks do not matter exactly
if, wherever a full record is cut within plain text, what it ends in is UTF-8 from
wherever it is looked at; then, when the stream has gone on, a page from where the
finished records were read up to goes on with the next ones. -/
theorem log_records_iff (S : Bytes) (hlen : S.length < 2 ^ 64) :
    (∀ chunks, IsSplit S chunks →
      (scanPersistedLogRecords chunks).flatten = S ∧ (∀ r ∈ scanPersistedLogRecords chunks, r ≠ []) ∧
      (∀ offset limit, pageOf offset limit chunks =
        if 24 * limit < 2 ^ 63 then
          some ((((scanPersistedLogRecords chunks).drop offset).take limit).map Utf8.decode,
            (scanPersistedLogRecords chunks).length)
        else none) ∧
      ∀ limits : List ℕ, (∀ limit ∈ limits, 24 * limit < 2 ^ 63) →
        (scanPersistedLogRecords chunks).length ≤ limits.sum →
        pagesOf chunks 0 limits = some ((scanPersistedLogRecords chunks).map Utf8.decode)) ∧
    ((∀ chunks chunks', IsSplit S chunks → IsSplit S chunks' →
      scanPersistedLogRecords chunks = scanPersistedLogRecords chunks') ↔ CutsWhole S) ∧
    ∀ before after chunks chunks', S = before ++ after → CutsWhole S → IsSplit before chunks → IsSplit S chunks' →
      (scanPersistedLogRecords chunks).dropLast <+: scanPersistedLogRecords chunks' ∧
      ∀ n m, n < (scanPersistedLogRecords chunks).length → 24 * n < 2 ^ 63 → 24 * m < 2 ^ 63 →
        ∃ first second, pageOf 0 n chunks = some first ∧ pageOf n m chunks' = some second ∧
          first.1 ++ second.1 = ((scanPersistedLogRecords chunks').take (n + m)).map Utf8.decode := by
  refine ⟨fun chunks h => ?_, ⟨fun hsame => ?_, fun hwhole chunks chunks' h h' => ?_⟩,
    fun before after chunks chunks' hS hwhole h h' => ?_⟩
  · obtain ⟨hflat, hne⟩ := records_flatten h
    refine ⟨hflat, hne, fun offset limit => ?_, fun limits hlimits hsum => ?_⟩
    · by_cases hlimit : 24 * limit < 2 ^ 63
      · rw [if_pos hlimit, pageOf_eq h hlen hlimit]
      · rw [if_neg hlimit, pageOf_none (not_lt.mp hlimit)]
    · rw [pagesOf_eq h hlen hlimits, List.drop_zero, List.take_of_length_le hsum]
  · by_contra hcut
    obtain ⟨chunks, chunks', h, h', hne⟩ := records_differ hcut
    exact hne (hsame chunks chunks' h h')
  · rw [records_of_cutsWhole hwhole h, records_of_cutsWhole hwhole h']
  · have hpre : (scanPersistedLogRecords chunks).dropLast <+: scanPersistedLogRecords chunks' := by
      rw [hS] at hwhole h'
      rw [records_of_cutsWhole (cutsWhole_of_append hwhole) h, records_of_cutsWhole hwhole h']
      exact recordsOf_grown before after
    refine ⟨hpre, fun n m hn hsize hsize' => ?_⟩
    have hshort : before.length < 2 ^ 64 := by
      rw [hS, List.length_append] at hlen
      omega
    refine ⟨_, _, pageOf_eq h hshort hsize, pageOf_eq h' hlen hsize', ?_⟩
    -- the first page stands in the records before the last one
    have htake : (scanPersistedLogRecords chunks).take n = (scanPersistedLogRecords chunks').take n := by
      have hfirst : (scanPersistedLogRecords chunks).take n = (scanPersistedLogRecords chunks).dropLast.take n := by
        rw [List.dropLast_eq_take, List.take_take, min_eq_left (by omega)]
      obtain ⟨more, hmore⟩ := hpre
      rw [hfirst, ← hmore, List.take_append_of_le_length (by rw [List.length_dropLast]; omega)]
    dsimp only
    rw [List.drop_zero, htake, List.take_add, List.map_append]

theorem cut_in_character {text : Bytes} (hplain : ∀ b ∈ text, isSpecialRecordByte b = false)
    (hlen : text.length = 2045) : ¬ CutsWhole (text ++ [0xe2, 0x82, 0xac] ++ [97]) := by
  intro hwhole
  have hplain' : ∀ b ∈ text ++ [0xe2, 0x82, 0xac], isSpecialRecordByte b = false := by
    intro b hb
    rcases List.mem_append.mp hb with hb | hb
    · exact hplain b hb
    · simp only [List.mem_cons, List.not_mem_nil, or_false] at hb
      rcases hb with rfl | rfl | rfl <;> decide
  have hlen' : (text ++ [0xe2, 0x82, 0xac]).length = logRecordFallbackBytes := by
    rw [List.length_append, hlen]
    rfl
  have hfold := @foldl_fits (text ++ [0xe2, 0x82, 0xac]) [] .new rfl hplain' (by
    rw [hlen']
    exact (Nat.zero_add _).le)
  unfold CutsWhole at hwhole
  rw [cutsWhole_append, hfold] at hwhole
  have hvalid := hwhole.2.1 rfl (by decide) (by rw [List.nil_append]; exact hlen'.symm.le) [0x82, 0xac]
    ⟨text ++ [0xe2], by rw [List.nil_append, List.append_assoc]; rfl⟩ (by decide)
  exact absurd hvalid (by decide)

/-- Text that ends in a character of three bytes where the record is full. -/
def longLine : Bytes := List.replicate 2045 97 ++ [0xe2, 0x82, 0xac] ++ [97]

/-- A chunk may end within the character, and then the record is cut within it. -/
theorem chunks_move_cuts : ∃ chunks chunks', IsSplit longLine chunks ∧ IsSplit longLine chunks' ∧
    scanPersistedLogRecords chunks ≠ scanPersistedLogRecords chunks' := by
  refine records_differ (cut_in_character (fun b hb => ?_) List.length_replicate)
  rw [List.eq_of_mem_replicate hb]
  decide

/-- A full record is cut behind text that is UTF-8 from wherever it is looked at. -/
theorem cut_behind_text {text : Bytes} (hplain : ∀ b ∈ text, isSpecialRecordByte b = false)
    (hlen : text.length = logRecordFallbackBytes) (hvalid : SuffixesValid text) : CutsWhole (text ++ [97, 10]) := by
  have hfits : LogRecordScanner.new.currentRecord.length + text.length ≤ logRecordFallbackBytes := by
    rw [hlen]
    exact (Nat.zero_add _).le
  have hfold := @foldl_fits text [] .new rfl hplain hfits
  refine cutsWhole_append.mpr ⟨cutsWhole_fits rfl hplain hfits, ?_⟩
  rw [hfold]
  exact ⟨fun _ _ _ => hvalid, fun _ hspecial _ => absurd hspecial (by decide), trivial⟩

/-- A line that is longer than a record. -/
def fullLine : Bytes := List.replicate 2048 97 ++ [97, 10]

theorem valid_replicate : ∀ n : ℕ, Utf8.valid (List.replicate n 97) = true
  | 0 => rfl
  | n + 1 => valid_replicate n

theorem fullLine_whole : CutsWhole fullLine := by
  refine cut_behind_text (fun b hb => ?_) List.length_replicate fun w hw _ => ?_
  · rw [List.eq_of_mem_replicate hb]
    decide
  · rw [(List.suffix_replicate_iff.mp hw).2]
    exact valid_replicate w.length

theorem log_records_iff_full :
    (∀ chunks, IsSplit fullLine chunks → (scanPersistedLogRecords chunks).flatten = fullLine) ∧
    ((∀ chunks chunks', IsSplit fullLine chunks → IsSplit fullLine chunks' →
      scanPersistedLogRecords chunks = scanPersistedLogRecords chunks') ↔ CutsWhole fullLine) ∧ CutsWhole fullLine := by
  have hlen : fullLine.length < 2 ^ 64 := by
    rw [fullLine, List.length_append, List.length_replicate]
    decide
  have h := log_records_iff fullLine hlen
  exact ⟨fun chunks hsplit => (h.1 chunks hsplit).1, h.2.1, fullLine_whole⟩

end Session
end OpenRelay
