/-
# The resizes of a session

The runtime keeps every size of its terminal with the offset of the filtered stream
that it holds from, and journals it there (`session/runtime.rs`, `resize_pty`). A
replay derives the same list from the records, with a scanner of its own
(`session/replay.rs`, `resize_events`). While the journal is not degraded, what the
records of the journal say (`history`) is the beginning of what the runtime keeps
(`HistoryInv`).

`resize_events_from` reads on from an anchor below its offset, and stops behind the
batch after which the stream is 64 MiB past it. It gives what is recorded behind the
anchor, also before the offset; and `resize_events`, which is meant to give all,
stops 64 MiB into the stream (`resizes_agree_iff`).

Key theorems: `resizeEventsAt_eq`, `historyInv_run`.
-/
import OpenRelay.Session.JournalReplay
import OpenRelay.Session.Reader

namespace OpenRelay
namespace Session

open Journal Pty LittleEndian
open SessionRuntime (Recorded Advances)

/-! ### The code -/

/-- A size, and the offset of the stream from which it holds. -/
structure LogResize where
  offset : ℕ
  rows : ℕ
  cols : ℕ
  deriving DecidableEq, Repr

/-- The rows and columns of a resize record, if both are there. -/
def decodeResizePayload (payload : Bytes) : Option (ℕ × ℕ) :=
  if payload.length ≠ 4 then none
  else
    let rows := leNat (payload.take 2)
    let cols := leNat (payload.drop 2)
    if 0 < rows ∧ 0 < cols then some (rows, cols) else none

def maxResizeEventsScanBytes : ℕ := 64 * 1024 * 1024

/-- A derivation under way. -/
structure ResizeScan where
  scanner : PtyScanner
  filteredPos : ℕ
  events : List LogResize

/-- One record of `resize_events_from`. -/
def ResizeScan.feed (bare : Bool) (st : ResizeScan) (r : Record) : ResizeScan :=
  match r.kind with
  | .output =>
    let scanned := st.scanner.scan bare r.payload
    { st with scanner := scanned.1, filteredPos := satAdd st.filteredPos scanned.2.filtered.length }
  | .resize =>
    match decodeResizePayload r.payload with
    | some (rows, cols) => { st with events := st.events ++ [⟨st.filteredPos, rows, cols⟩] }
    | none => st
  | _ => st

/-- Pull batches of records until one is empty, or the stream is far past the
offset. The sum is one of 64 bits. -/
def resizeLoop (bare : Bool) (d : Dir) (fromOffset : ℕ) :
    ℕ → SegmentStream → ResizeScan → Except JournalError ResizeScan
  | 0, _, st => .ok st
  | turns + 1, s, st =>
    match s.nextBatch d replayBatchBytes with
    | .error e => .error e
    | .ok (batch, s') =>
      if batch = [] then .ok st
      else if (fromOffset + maxResizeEventsScanBytes) % 2 ^ 64 < (batch.foldl (ResizeScan.feed bare) st).filteredPos then
        .ok (batch.foldl (ResizeScan.feed bare) st)
      else resizeLoop bare d fromOffset turns s' (batch.foldl (ResizeScan.feed bare) st)

/-- The derivation behind an anchor. -/
def resizeEventsAt (bare : Bool) (d : Dir) (incarnation : ℕ) (anchor : Option CheckpointAnchor) (fromOffset : ℕ) :
    Except JournalError (List LogResize) :=
  match streamAt d incarnation anchor with
  | .error e => .error e
  | .ok (s, pos) =>
    (resizeLoop bare d fromOffset ((d.incarnationData incarnation).length + 1) s ⟨.new, pos, []⟩).map ResizeScan.events

/-- The sizes of the newest incarnation from an offset on. -/
def resizeEventsFrom (bare : Bool) (d : Dir) (fromOffset : ℕ) : Except JournalError (List LogResize) :=
  match (listIncarnations d).getLast? with
  | none => .ok []
  | some incarnation => resizeEventsAt bare d incarnation (replayStart d incarnation fromOffset) fromOffset

/-- All of its sizes. -/
def resizeEvents (bare : Bool) (d : Dir) : Except JournalError (List LogResize) := resizeEventsFrom bare d 0

/-- A session with the sizes that its runtime keeps. -/
structure SizedSession where
  session : LiveSession
  resizeHistory : List LogResize

namespace SizedSession

/-- What `resize_pty` keeps. -/
def pushResize (rt : SessionRuntime) (resizeHistory : List LogResize) : LiveSession.Action → List LogResize
  | .resize _ rows cols resized =>
    if rows = 0 ∨ cols = 0 then resizeHistory
    else if rt.ptySize = some (rows, cols) then resizeHistory
    else if resized then resizeHistory ++ [⟨rt.filteredTotalBytes, rows, cols⟩]
    else resizeHistory
  | _ => resizeHistory

def step (bare : Bool) (R : LineReader) (s : SizedSession) (action : LiveSession.Action) : Option SizedSession :=
  (s.session.step bare R action).map fun session => ⟨session, pushResize s.session.rt s.resizeHistory action⟩

/-- A session is spawned, and has its first size. -/
def spawn (R : LineReader) (journal : Live) (rows cols : ℕ) (pid : Bytes) (geometry started : Turn) :
    Option SizedSession :=
  (LiveSession.spawn R journal rows cols pid geometry started).map fun session => ⟨session, [⟨0, rows, cols⟩]⟩

end SizedSession

/-! ### What the records say -/

/-- The size that a record at this offset of the stream is for. -/
def resizeAt (pos : ℕ) (r : Record) : Option LogResize :=
  if r.kind = .resize then (decodeResizePayload r.payload).map fun size => ⟨pos, size.1, size.2⟩ else none

/-- The sizes of records, each with the offset of the stream where it stands. -/
def resizesAt (bare : Bool) : PtyScanner → ℕ → List Record → List LogResize
  | _, _, [] => []
  | scanner, pos, r :: rs =>
    if r.kind = .output then
      resizesAt bare (scanner.scan bare r.payload).1 (pos + (scanner.scan bare r.payload).2.filtered.length) rs
    else (resizeAt pos r).toList ++ resizesAt bare scanner pos rs

/-- The sizes of a session's records. -/
def history (bare : Bool) (rs : List Record) : List LogResize := resizesAt bare .new 0 rs

theorem decodeResizePayload_encode {rows cols : ℕ} (hrows : 0 < rows ∧ rows < 2 ^ 16) (hcols : 0 < cols ∧ cols < 2 ^ 16) :
    decodeResizePayload (encodeResizePayload rows cols) = some (rows, cols) := by
  have hlen : (encodeResizePayload rows cols).length = 4 := by simp [encodeResizePayload]
  unfold decodeResizePayload
  rw [if_neg (not_not.mpr hlen), encodeResizePayload, List.take_left' (leBytes_length _ _),
    List.drop_left' (leBytes_length _ _), leNat_leBytes (by omega), leNat_leBytes (by omega)]
  dsimp only
  rw [if_pos ⟨hrows.1, hcols.1⟩]

section Records

variable {bare : Bool}

theorem resizesAt_append : ∀ (rs rs' : List Record) (scanner : PtyScanner) (pos : ℕ),
    resizesAt bare scanner pos (rs ++ rs') = resizesAt bare scanner pos rs ++
      resizesAt bare (scanChunks bare scanner (outputs rs)).1
        (pos + (scanChunks bare scanner (outputs rs)).2.filtered.length) rs'
  | [], rs', scanner, pos => rfl
  | r :: rs, rs', scanner, pos => by
    rw [List.cons_append, resizesAt, resizesAt, outputs_cons]
    by_cases hkind : r.kind = .output
    · rw [if_pos hkind, if_pos hkind, if_pos hkind, resizesAt_append rs rs', scanChunks]
      simp only [ScanOut.append, List.length_append, Nat.add_assoc]
    · rw [if_neg hkind, if_neg hkind, if_neg hkind, resizesAt_append rs rs', List.append_assoc]

/-- Of the scanner only the bytes it holds matter. -/
theorem resizesAt_of_pending : ∀ (rs : List Record) {s t : PtyScanner} (pos : ℕ), s.pending = t.pending →
    resizesAt bare s pos rs = resizesAt bare t pos rs
  | [], _, _, _, _ => rfl
  | r :: rs, s, t, pos, h => by
    obtain ⟨hout, hpending⟩ := scan_of_pending bare h r.payload
    rw [resizesAt, resizesAt, hout, resizesAt_of_pending rs _ hpending, resizesAt_of_pending rs _ h]

/-- The offsets lie within the stream of the records. -/
theorem resizesAt_offset : ∀ {rs : List Record} {scanner : PtyScanner} {pos : ℕ} {e : LogResize},
    e ∈ resizesAt bare scanner pos rs →
    pos ≤ e.offset ∧ e.offset ≤ pos + (scanChunks bare scanner (outputs rs)).2.filtered.length
  | r :: rs, scanner, pos, e, he => by
    rw [resizesAt] at he
    rw [outputs_cons]
    by_cases hkind : r.kind = .output
    · rw [if_pos hkind] at he ⊢
      obtain ⟨hlow, hhigh⟩ := resizesAt_offset he
      rw [scanChunks]
      simp only [ScanOut.append, List.length_append]
      omega
    · rw [if_neg hkind] at he ⊢
      rcases List.mem_append.mp he with he | he
      · have hpos : e.offset = pos := by
          rw [Option.mem_toList, resizeAt] at he
          split at he
          · obtain ⟨size, -, rfl⟩ := Option.map_eq_some_iff.mp he
            rfl
          · cases he
        omega
      · exact resizesAt_offset he

theorem resizeAt_eq_none {r : Record} (pos : ℕ) : resizeAt pos r = none ↔ resizeAt 0 r = none := by
  unfold resizeAt
  split
  · rw [Option.map_eq_none_iff, Option.map_eq_none_iff]
  · rfl

theorem resizesAt_eq_nil : ∀ {rs : List Record} {scanner : PtyScanner} {pos : ℕ},
    resizesAt bare scanner pos rs = [] ↔ ∀ r ∈ rs, resizeAt 0 r = none
  | [], _, _ => iff_of_true rfl nofun
  | r :: rs, scanner, pos => by
    rw [resizesAt, List.forall_mem_cons]
    by_cases hkind : r.kind = .output
    · have hnone : resizeAt 0 r = none := if_neg (by rw [hkind]; nofun)
      rw [if_pos hkind, resizesAt_eq_nil]
      exact (and_iff_right hnone).symm
    · rw [if_neg hkind, List.append_eq_nil_iff, resizesAt_eq_nil, Option.toList_eq_nil_iff, resizeAt_eq_none]

end Records

/-! ### What a derivation looks at -/

/-- The batches up to the first one after which the stream is longer than the
limit. -/
def scanned (bare : Bool) (limit : ℕ) : PtyScanner → ℕ → List (List Record) → List (List Record)
  | _, _, [] => []
  | scanner, pos, batch :: bs =>
    let out := scanChunks bare scanner (outputs batch)
    if limit < pos + out.2.filtered.length then [batch]
    else batch :: scanned bare limit out.1 (pos + out.2.filtered.length) bs

section Scanned

variable {bare : Bool} {limit : ℕ}

/-- What is not looked at lies behind a place where the stream is longer than the
limit. -/
theorem scanned_split : ∀ (bs : List (List Record)) (scanner : PtyScanner) (pos : ℕ),
    ∃ rest, bs = scanned bare limit scanner pos bs ++ rest ∧ (rest = [] ∨
      limit < pos + (scanChunks bare scanner (outputs (scanned bare limit scanner pos bs).flatten)).2.filtered.length)
  | [], _, _ => ⟨[], rfl, .inl rfl⟩
  | batch :: bs, scanner, pos => by
    unfold scanned
    dsimp only
    by_cases hfar : limit < pos + (scanChunks bare scanner (outputs batch)).2.filtered.length
    · rw [if_pos hfar]
      exact ⟨bs, rfl, .inr (by rw [List.flatten_singleton]; exact hfar)⟩
    · rw [if_neg hfar]
      obtain ⟨rest, hsplit, hend⟩ := scanned_split bs (scanChunks bare scanner (outputs batch)).1
        (pos + (scanChunks bare scanner (outputs batch)).2.filtered.length)
      refine ⟨rest, ?_, hend.imp_right fun h => ?_⟩
      · rw [List.cons_append, ← hsplit]
      · rw [List.flatten_cons, outputs_append, scanChunks_append]
        simp only [ScanOut.append, List.length_append, ← Nat.add_assoc]
        exact h

/-- And all that lies behind such a place is not looked at. -/
theorem scanned_least : ∀ {before after : List (List Record)} {scanner : PtyScanner} {pos : ℕ}, before ≠ [] →
    limit < pos + (scanChunks bare scanner (outputs before.flatten)).2.filtered.length →
    scanned bare limit scanner pos (before ++ after) <+: before
  | [], _, _, _, hne, _ => absurd rfl hne
  | batch :: before, after, scanner, pos, _, hfar => by
    rw [List.cons_append]
    unfold scanned
    dsimp only
    by_cases hhere : limit < pos + (scanChunks bare scanner (outputs batch)).2.filtered.length
    · rw [if_pos hhere]
      exact ⟨before, rfl⟩
    · rw [if_neg hhere, List.prefix_cons_inj]
      rw [List.flatten_cons, outputs_append, scanChunks_append] at hfar
      simp only [ScanOut.append, List.length_append, ← Nat.add_assoc] at hfar
      refine scanned_least (fun hnil => ?_) hfar
      rw [hnil] at hfar
      exact hhere (by simpa [outputs, scanChunks, ScanOut.empty] using hfar)

/-- The records of a batch. -/
theorem feed_foldl : ∀ {rs : List Record} {st : ResizeScan},
    st.filteredPos + (scanChunks bare st.scanner (outputs rs)).2.filtered.length < 2 ^ 64 →
    rs.foldl (ResizeScan.feed bare) st =
      { scanner := (scanChunks bare st.scanner (outputs rs)).1
        filteredPos := st.filteredPos + (scanChunks bare st.scanner (outputs rs)).2.filtered.length
        events := st.events ++ resizesAt bare st.scanner st.filteredPos rs }
  | [], st, _ => by simp [outputs, scanChunks, ScanOut.empty, resizesAt]
  | r :: rs, st, hlt => by
    rw [List.foldl_cons, resizesAt]
    rw [outputs_cons] at hlt ⊢
    by_cases hkind : r.kind = .output
    · rw [if_pos hkind] at hlt ⊢
      rw [if_pos hkind]
      rw [scanChunks] at hlt ⊢
      simp only [ScanOut.append, List.length_append] at hlt ⊢
      have hstep : st.feed bare r = { st with
          scanner := (st.scanner.scan bare r.payload).1
          filteredPos := st.filteredPos + (st.scanner.scan bare r.payload).2.filtered.length } := by
        unfold ResizeScan.feed
        rw [hkind]
        dsimp only
        rw [satAdd_eq (by omega)]
      rw [hstep, feed_foldl (by dsimp only; omega)]
      simp only [Nat.add_assoc]
    · rw [if_neg hkind] at hlt ⊢
      rw [if_neg hkind]
      have hstep : st.feed bare r = { st with events := st.events ++ (resizeAt st.filteredPos r).toList } := by
        unfold ResizeScan.feed resizeAt
        rcases hk : r.kind
        case output => exact absurd hk hkind
        case resize =>
          dsimp only
          rcases decodeResizePayload r.payload with _ | ⟨rows, cols⟩
          · simp
          · simp
        all_goals simp
      rw [hstep, feed_foldl (by exact hlt)]
      simp only [List.append_assoc]

/-- **The loop** gives the sizes of the batches it looks at. -/
theorem resizeLoop_eq {d : Dir} {fromOffset : ℕ} : ∀ {turns : ℕ} {s : SegmentStream} {rs : List Record}
    {st : ResizeScan}, SegmentStream.Reads d s rs → rs.length < turns →
    st.filteredPos + (scanChunks bare st.scanner (outputs rs)).2.filtered.length < 2 ^ 64 →
    (resizeLoop bare d fromOffset turns s st).map ResizeScan.events = .ok (st.events ++
      resizesAt bare st.scanner st.filteredPos (scanned bare ((fromOffset + maxResizeEventsScanBytes) % 2 ^ 64)
        st.scanner st.filteredPos (batches d turns s)).flatten)
  | 0, _, _, _, _, hlt, _ => absurd hlt (Nat.not_lt_zero _)
  | turns + 1, s, rs, st, h, hlt, hbound => by
    unfold resizeLoop
    rcases batches_succ h hlt with ⟨-, hbatches, s', hnext⟩ |
      ⟨batch, s', rest, hbatch, hrs, hnext, hreads, hshort, hbatches⟩
    · rw [hnext, hbatches]
      simp [scanned, resizesAt, Except.map]
    · rw [hnext, hbatches]
      dsimp only
      rw [if_neg hbatch]
      rw [hrs, outputs_append, scanChunks_append] at hbound
      simp only [ScanOut.append, List.length_append] at hbound
      rw [feed_foldl (by omega)]
      unfold scanned
      dsimp only
      split
      · rw [List.flatten_singleton]
        rfl
      · rw [resizeLoop_eq hreads hshort (by dsimp only; omega), List.flatten_cons, resizesAt_append, List.append_assoc]

end Scanned

/-! ### Behind an anchor -/

/-- How many records stand before a start, with its checkpoint. -/
def startSeq : Option CheckpointAnchor → ℕ
  | none => 0
  | some anchor => anchor.seq

/-- The batches of a journal behind a start. -/
def batchesBehind (d : Dir) (incarnation : ℕ) (anchor : Option CheckpointAnchor) : List (List Record) :=
  match streamAt d incarnation anchor with
  | .error _ => []
  | .ok (s, _) => batches d ((d.incarnationData incarnation).length + 1) s

/-- How many records a derivation has gone past where it stops. -/
def endSeq (bare : Bool) (d : Dir) (incarnation : ℕ) (anchor : Option CheckpointAnchor) (fromOffset : ℕ) : ℕ :=
  startSeq anchor + (scanned bare ((fromOffset + maxResizeEventsScanBytes) % 2 ^ 64) .new
    ((anchor.map CheckpointAnchor.filteredOffset).getD 0) (batchesBehind d incarnation anchor)).flatten.length

/-- The sizes of the records behind the first `n`. -/
def historyBehind (bare : Bool) (rs : List Record) (n : ℕ) : List LogResize :=
  (history bare rs).drop (history bare (rs.take n)).length

section Behind

variable {bare : Bool} {d : Dir} {N : ℕ} {groups : List (List Record)} {current : List Record} {torn : Bytes}
  {anchor : Option CheckpointAnchor} {fromOffset : ℕ}

theorem history_append (rs rs' : List Record) : history bare (rs ++ rs') = history bare rs ++
    resizesAt bare (scanChunks bare .new (outputs rs)).1 (stream bare rs).length rs' := by
  unfold history
  rw [resizesAt_append, Nat.zero_add]
  rfl

theorem historyBehind_eq (rs : List Record) (n : ℕ) : historyBehind bare rs n =
    resizesAt bare (scanChunks bare .new (outputs (rs.take n))).1 (stream bare (rs.take n)).length (rs.drop n) := by
  have h := @history_append bare (rs.take n) (rs.drop n)
  rw [List.take_append_drop] at h
  rw [historyBehind, h, List.drop_left' rfl]

theorem history_split (rs : List Record) (n : ℕ) :
    history bare rs = history bare (rs.take n) ++ historyBehind bare rs n := by
  have h := @history_append bare (rs.take n) (rs.drop n)
  rw [List.take_append_drop] at h
  rw [historyBehind_eq, h]

/-- **Where a replay starts**, in the records. -/
theorem replay_start_seq (h : Holds d N groups current torn) (ha : Anchored bare (groups.flatten ++ current))
    (hstart : ValidStart d N fromOffset anchor) :
    ∃ s, streamAt d N anchor = .ok (s, (anchor.map CheckpointAnchor.filteredOffset).getD 0) ∧
      SegmentStream.Reads d s ((groups.flatten ++ current).drop (startSeq anchor)) ∧
      (anchor.map CheckpointAnchor.filteredOffset).getD 0 ≤ fromOffset ∧
      (anchor.map CheckpointAnchor.filteredOffset).getD 0 =
        (stream bare ((groups.flatten ++ current).take (startSeq anchor))).length ∧
      held bare ((groups.flatten ++ current).take (startSeq anchor)) = [] ∧
      startSeq anchor ≤ (groups.flatten ++ current).length := by
  rcases anchor with _ | anchor
  · obtain ⟨s, hs, hreads⟩ := h.reads_open
    refine ⟨s, ?_, hreads, Nat.zero_le _, rfl, rfl, Nat.zero_le _⟩
    rw [streamAt, hs]
    rfl
  · obtain ⟨anchors, hanchors, hmem, hpos, hle⟩ := hstart
    rw [h.checkpointAnchors_eq] at hanchors
    cases hanchors
    obtain ⟨pre, r, post, s, hrecords, hkind, hoff, hs, hreads, hseq⟩ := h.reads_openAt_seq hmem
    obtain ⟨hlen, hheld⟩ := ha pre r post hrecords hkind _ hoff hpos
    have hsplit : groups.flatten ++ current = (pre ++ [r]) ++ post := by rw [hrecords, List.append_assoc]; rfl
    have hn : (pre ++ [r]).length = startSeq (some anchor) := by
      rw [List.length_append, List.length_singleton]
      exact hseq.symm
    obtain ⟨hstream, hpending⟩ := @stream_snoc_other bare pre r (fun h => by rw [hkind] at h; cases h)
    refine ⟨s, by rw [streamAt, hs]; rfl, ?_, hle, ?_, ?_, ?_⟩
    · rw [hsplit, List.drop_left' hn]
      exact hreads
    · rw [hsplit, List.take_left' hn, hstream]
      exact hlen
    · rw [hsplit, List.take_left' hn, hpending]
      exact hheld
    · rw [hsplit, List.length_append, hn]
      exact Nat.le_add_right _ _

/-- **A derivation** gives the sizes between its start and its end. What is left
out lies far past the offset. -/
theorem resizeEventsAt_eq (h : Holds d N groups current torn) (ha : Anchored bare (groups.flatten ++ current))
    (hlt : (stream bare (groups.flatten ++ current)).length < 2 ^ 64) (hstart : ValidStart d N fromOffset anchor) :
    ∃ got, resizeEventsAt bare d N anchor fromOffset = .ok got ∧
      historyBehind bare (groups.flatten ++ current) (startSeq anchor) =
        got ++ historyBehind bare (groups.flatten ++ current) (endSeq bare d N anchor fromOffset) ∧
      (∀ e ∈ history bare ((groups.flatten ++ current).take (startSeq anchor)), e.offset ≤ fromOffset) ∧
      ∀ e ∈ historyBehind bare (groups.flatten ++ current) (endSeq bare d N anchor fromOffset),
        (fromOffset + maxResizeEventsScanBytes) % 2 ^ 64 < e.offset := by
  obtain ⟨s, hs, hreads, hle, hpos, hheld, hnle⟩ := replay_start_seq h ha hstart
  have hcount := Holds.length_le h
  generalize hrs : groups.flatten ++ current = rs at *
  generalize hp : (anchor.map CheckpointAnchor.filteredOffset).getD 0 = pos at *
  generalize hn : startSeq anchor = n at *
  have hbefore : rs.take n ++ rs.drop n = rs := List.take_append_drop _ _
  have hnew : (scanChunks bare .new (outputs (rs.take n))).1.pending = PtyScanner.new.pending := hheld
  have hstream := (@stream_append bare (rs.take n) (rs.drop n) hheld).1
  rw [hbefore] at hstream
  have htotal : (stream bare rs).length = pos + (stream bare (rs.drop n)).length := by
    rw [hstream, List.length_append, hpos]
  have hbatches : batchesBehind d N anchor = batches d ((d.incarnationData N).length + 1) s := by
    unfold batchesBehind
    rw [hs]
  have hshort : (rs.drop n).length < (d.incarnationData N).length + 1 := by
    rw [List.length_drop]
    omega
  have hflat := batches_flatten hreads hshort
  obtain ⟨rest, hsplit, hend⟩ := @scanned_split bare ((fromOffset + maxResizeEventsScanBytes) % 2 ^ 64)
    (batches d ((d.incarnationData N).length + 1) s) .new pos
  have hendSeq : endSeq bare d N anchor fromOffset = n + (scanned bare ((fromOffset + maxResizeEventsScanBytes) % 2 ^ 64)
      .new pos (batches d ((d.incarnationData N).length + 1) s)).flatten.length := by
    rw [endSeq, hbatches, hp, hn]
  generalize hlooked : scanned bare ((fromOffset + maxResizeEventsScanBytes) % 2 ^ 64) .new pos
    (batches d ((d.incarnationData N).length + 1) s) = looked at *
  -- the records behind the start, looked at and not
  have hdrop : rs.drop n = looked.flatten ++ rest.flatten := by rw [← hflat, hsplit, List.flatten_append]
  have hbehind : historyBehind bare rs n = resizesAt bare .new pos (rs.drop n) := by
    rw [historyBehind_eq, resizesAt_of_pending _ _ hnew, hpos]
  -- the same, from the start of the journal
  have hwhole : rs = (rs.take n ++ looked.flatten) ++ rest.flatten := by rw [List.append_assoc, ← hdrop, hbefore]
  have hm : endSeq bare d N anchor fromOffset = (rs.take n ++ looked.flatten).length := by
    rw [hendSeq, List.length_append, List.length_take, Nat.min_eq_left hnle]
  obtain ⟨hlookedStream, hlookedHeld⟩ := @stream_append bare (rs.take n) looked.flatten hheld
  have hlookedLen : (stream bare (rs.take n ++ looked.flatten)).length = pos + (stream bare looked.flatten).length := by
    rw [hlookedStream, List.length_append, ← hpos]
  have hunseen : historyBehind bare rs (endSeq bare d N anchor fromOffset) =
      resizesAt bare (scanChunks bare .new (outputs looked.flatten)).1 (pos + (stream bare looked.flatten).length)
        rest.flatten := by
    have htake : rs.take (rs.take n ++ looked.flatten).length = rs.take n ++ looked.flatten := by
      conv_lhs => arg 2; rw [hwhole]
      exact List.take_left' rfl
    have hleft : rs.drop (rs.take n ++ looked.flatten).length = rest.flatten := by
      conv_lhs => arg 2; rw [hwhole]
      exact List.drop_left' rfl
    rw [hm, historyBehind_eq, htake, hleft, hlookedLen]
    exact resizesAt_of_pending _ _ hlookedHeld
  have hloop := @resizeLoop_eq bare d fromOffset _ s _ ⟨.new, pos, []⟩ hreads hshort (by
    rw [htotal] at hlt
    exact hlt)
  refine ⟨resizesAt bare .new pos looked.flatten, ?_, ?_, fun e he => ?_, fun e he => ?_⟩
  · unfold resizeEventsAt
    rw [hs]
    dsimp only
    rw [hloop, hlooked]
    rfl
  · rw [hbehind, hdrop, resizesAt_append, hunseen]
    rfl
  · have := (resizesAt_offset he).2
    rw [Nat.zero_add] at this
    exact this.trans (hpos.symm.le.trans hle)
  · rw [hunseen] at he
    rcases hend with hnil | hfar
    · rw [hnil] at he
      cases he
    · exact hfar.trans_le (resizesAt_offset he).1

/-- What is asked of a derivation: the sizes from the offset on; some that lie more
than the scan bound past it may be left out. -/
def FromOffset (fromOffset : ℕ) (all got : List LogResize) : Prop :=
  ∃ more, (all.filter fun e => decide (fromOffset ≤ e.offset)) = got ++ more ∧
    ∀ e ∈ more, fromOffset + maxResizeEventsScanBytes < e.offset

/-- A part of the list is as asked exactly if it has nothing before the offset, and
what it leaves out either lies before it or past the bound. -/
theorem fromOffset_iff {before got rest : List LogResize} (hbefore : ∀ e ∈ before, e.offset ≤ fromOffset) :
    FromOffset fromOffset (before ++ (got ++ rest)) got ↔ (∀ e ∈ before, e.offset < fromOffset) ∧
      (∀ e ∈ got, fromOffset ≤ e.offset) ∧
      ∀ e ∈ rest, fromOffset ≤ e.offset → fromOffset + maxResizeEventsScanBytes < e.offset := by
  have hfilter : (before ++ (got ++ rest)).filter (fun e => decide (fromOffset ≤ e.offset)) =
      before.filter (fun e => decide (fromOffset ≤ e.offset)) ++ (got.filter (fun e => decide (fromOffset ≤ e.offset)) ++
        rest.filter fun e => decide (fromOffset ≤ e.offset)) := by
    rw [List.filter_append, List.filter_append]
  refine ⟨fun ⟨more, hmore, hfar⟩ => ?_, fun ⟨hlow, hhigh, hpast⟩ => ?_⟩
  · rw [hfilter] at hmore
    have hgot : ∀ e ∈ got, fromOffset ≤ e.offset := by
      intro e he
      have hmem : e ∈ before.filter (fun e => decide (fromOffset ≤ e.offset)) ++
          (got.filter (fun e => decide (fromOffset ≤ e.offset)) ++
            rest.filter fun e => decide (fromOffset ≤ e.offset)) := hmore ▸ List.mem_append_left _ he
      simp only [List.mem_append, List.mem_filter, decide_eq_true_eq] at hmem
      tauto
    have hself : got.filter (fun e => decide (fromOffset ≤ e.offset)) = got :=
      List.filter_eq_self.mpr fun e he => decide_eq_true (hgot e he)
    -- of the sizes within the bound the two sides have equally many
    have hcount := congrArg
      (fun es : List LogResize => es.countP fun e => decide (e.offset ≤ fromOffset + maxResizeEventsScanBytes)) hmore
    have hnone : more.countP (fun e => decide (e.offset ≤ fromOffset + maxResizeEventsScanBytes)) = 0 := by
      rw [List.countP_eq_zero]
      intro e he
      rw [decide_eq_true_eq]
      exact not_le.mpr (hfar e he)
    simp only [List.countP_append, hself, hnone] at hcount
    have hzero : (before.filter fun e => decide (fromOffset ≤ e.offset)).countP
        (fun e => decide (e.offset ≤ fromOffset + maxResizeEventsScanBytes)) = 0 := by omega
    have hzero' : (rest.filter fun e => decide (fromOffset ≤ e.offset)).countP
        (fun e => decide (e.offset ≤ fromOffset + maxResizeEventsScanBytes)) = 0 := by omega
    simp only [List.countP_eq_zero, List.mem_filter, decide_eq_true_eq] at hzero hzero'
    refine ⟨fun e he => ?_, hgot, fun e he hle => not_le.mp (hzero' e ⟨he, hle⟩)⟩
    by_contra hge
    have := hbefore e he
    exact hzero e ⟨he, not_lt.mp hge⟩ (by omega)
  · refine ⟨rest.filter fun e => decide (fromOffset ≤ e.offset), ?_, fun e he => ?_⟩
    · have hnil : before.filter (fun e => decide (fromOffset ≤ e.offset)) = [] := by
        rw [List.filter_eq_nil_iff]
        intro e he
        rw [decide_eq_true_eq]
        exact not_le.mpr (hlow e he)
      rw [hfilter, hnil, List.nil_append, List.filter_eq_self.mpr fun e he => decide_eq_true (hhigh e he)]
    · obtain ⟨hrest, hle⟩ := List.mem_filter.mp he
      exact hpast e hrest (of_decide_eq_true hle)

/-- The sizes that a derivation looks at are those from the offset on. -/
structure LooksAt (bare : Bool) (d : Dir) (N : ℕ) (rs : List Record) (anchor : Option CheckpointAnchor)
    (fromOffset : ℕ) : Prop where
  before : ∀ e ∈ history bare (rs.take (startSeq anchor)), e.offset < fromOffset
  within : ∀ e ∈ historyBehind bare (rs.take (endSeq bare d N anchor fromOffset)) (startSeq anchor),
    fromOffset ≤ e.offset
  beyond : ∀ e ∈ historyBehind bare rs (endSeq bare d N anchor fromOffset), fromOffset ≤ e.offset →
    fromOffset + maxResizeEventsScanBytes < e.offset

/-- **What a derivation is asked for** it gives exactly if it looks at that. -/
theorem resizeEventsAt_iff (h : Holds d N groups current torn) (ha : Anchored bare (groups.flatten ++ current))
    (hlt : (stream bare (groups.flatten ++ current)).length < 2 ^ 64) (hstart : ValidStart d N fromOffset anchor) :
    (∃ got, resizeEventsAt bare d N anchor fromOffset = .ok got ∧
      FromOffset fromOffset (history bare (groups.flatten ++ current)) got) ↔
      LooksAt bare d N (groups.flatten ++ current) anchor fromOffset := by
  obtain ⟨got, hgot, hsplit, hbefore, -⟩ := resizeEventsAt_eq h ha hlt hstart
  generalize groups.flatten ++ current = rs at *
  have hwhole := @history_split bare rs (startSeq anchor)
  rw [hsplit] at hwhole
  have hle : startSeq anchor ≤ endSeq bare d N anchor fromOffset := Nat.le_add_right _ _
  have hwithin : historyBehind bare (rs.take (endSeq bare d N anchor fromOffset)) (startSeq anchor) = got := by
    have hend := @history_split bare rs (endSeq bare d N anchor fromOffset)
    rw [hwhole, ← List.append_assoc, List.append_cancel_right_eq] at hend
    rw [historyBehind, List.take_take, Nat.min_eq_left hle, ← hend, List.drop_left' rfl]
  have hiff := @fromOffset_iff fromOffset _ got (historyBehind bare rs (endSeq bare d N anchor fromOffset)) hbefore
  rw [← hwhole] at hiff
  refine ⟨fun ⟨got', hgot', hfrom⟩ => ?_, fun hlooks => ⟨got, hgot, hiff.mpr ?_⟩⟩
  · rw [hgot] at hgot'
    cases hgot'
    obtain ⟨h1, h2, h3⟩ := hiff.mp hfrom
    exact ⟨h1, by rw [hwithin]; exact h2, h3⟩
  · exact ⟨hlooks.before, by rw [← hwithin]; exact hlooks.within, hlooks.beyond⟩

/-- When the sum of the offset and the bound fits 64 bits, this comes to: every size
recorded before the start lies before the offset, and none recorded behind it does. -/
theorem looksAt_iff (h : Holds d N groups current torn) (ha : Anchored bare (groups.flatten ++ current))
    (hlt : (stream bare (groups.flatten ++ current)).length < 2 ^ 64) (hstart : ValidStart d N fromOffset anchor)
    (hsum : fromOffset + maxResizeEventsScanBytes < 2 ^ 64) :
    LooksAt bare d N (groups.flatten ++ current) anchor fromOffset ↔
      (∀ e ∈ history bare ((groups.flatten ++ current).take (startSeq anchor)), e.offset < fromOffset) ∧
      ∀ e ∈ historyBehind bare (groups.flatten ++ current) (startSeq anchor), fromOffset ≤ e.offset := by
  rw [← resizeEventsAt_iff h ha hlt hstart]
  obtain ⟨got, hgot, hsplit, hbefore, hfar⟩ := resizeEventsAt_eq h ha hlt hstart
  generalize groups.flatten ++ current = rs at *
  rw [Nat.mod_eq_of_lt hsum] at hfar
  have hwhole := @history_split bare rs (startSeq anchor)
  rw [hsplit] at hwhole
  have hiff := @fromOffset_iff fromOffset _ got (historyBehind bare rs (endSeq bare d N anchor fromOffset)) hbefore
  rw [← hwhole] at hiff
  rw [hgot, hsplit]
  refine ⟨fun ⟨got', hgot', hfrom⟩ => ?_, fun ⟨hlow, hhigh⟩ => ⟨got, rfl, hiff.mpr ⟨hlow, fun e he => ?_, fun e he _ => ?_⟩⟩⟩
  · cases hgot'
    obtain ⟨hlow, hhigh, -⟩ := hiff.mp hfrom
    refine ⟨hlow, fun e he => ?_⟩
    rcases List.mem_append.mp he with he | he
    · exact hhigh e he
    · have := hfar e he
      omega
  · exact hhigh e (List.mem_append_left _ he)
  · exact hfar e he

/-- Behind a place where the stream is longer than the scan bound, no size is
recorded. -/
def AllWithin (bare : Bool) (bs : List (List Record)) : Prop :=
  ∀ before after, bs = before ++ after → maxResizeEventsScanBytes < (stream bare before.flatten).length →
    ∀ r ∈ after.flatten, resizeAt 0 r = none

/-- **All sizes** are derived exactly if none is recorded too far. -/
theorem resizeEvents_iff (hlatest : (listIncarnations d).getLast? = some N) (h : Holds d N groups current torn)
    (ha : Anchored bare (groups.flatten ++ current)) (hlt : (stream bare (groups.flatten ++ current)).length < 2 ^ 64) :
    resizeEvents bare d = .ok (history bare (groups.flatten ++ current)) ↔ AllWithin bare (batchesBehind d N none) := by
  obtain ⟨got, hgot, hsplit, -, -⟩ := @resizeEventsAt_eq bare d N groups current torn none 0 h ha hlt trivial
  obtain ⟨s, hs, hreads, -⟩ := @replay_start_seq bare d N groups current torn none 0 h ha trivial
  have hcount := Holds.length_le h
  generalize groups.flatten ++ current = rs at *
  have hbatches : batchesBehind d N none = batches d ((d.incarnationData N).length + 1) s := by
    unfold batchesBehind
    rw [hs]
  have hflat : (batchesBehind d N none).flatten = rs := by
    rw [hbatches]
    exact batches_flatten hreads (Nat.lt_succ_of_le hcount)
  have hderived : resizeEvents bare d = .ok got := by
    unfold resizeEvents resizeEventsFrom
    rw [hlatest]
    dsimp only
    rw [replayStart_zero]
    exact hgot
  have hall : history bare rs = got ++ historyBehind bare rs (endSeq bare d N none 0) := by
    rw [← hsplit, historyBehind]
    rfl
  obtain ⟨rest, hbs, hend⟩ := @scanned_split bare ((0 + maxResizeEventsScanBytes) % 2 ^ 64) (batchesBehind d N none) .new 0
  have hendSeq : endSeq bare d N none 0 = (scanned bare ((0 + maxResizeEventsScanBytes) % 2 ^ 64) .new 0
      (batchesBehind d N none)).flatten.length := Nat.zero_add _
  have hlimit : (0 + maxResizeEventsScanBytes) % 2 ^ 64 = maxResizeEventsScanBytes := by decide
  rw [hlimit] at hbs hend hendSeq
  generalize hlooked : scanned bare maxResizeEventsScanBytes .new 0 (batchesBehind d N none) = looked at *
  have hrest : rs.drop (endSeq bare d N none 0) = rest.flatten := by
    rw [hendSeq, ← hflat]
    conv_lhs => arg 2; rw [hbs]
    rw [List.flatten_append, List.drop_left' rfl]
  rw [hderived, hall, Except.ok.injEq, List.self_eq_append_right, historyBehind_eq, resizesAt_eq_nil, hrest]
  refine ⟨fun hnone before after heq hfar r hr => ?_, fun hwithin => ?_⟩
  · have hne : before ≠ [] := by
      intro hnil
      rw [hnil] at hfar
      exact absurd hfar (Nat.not_lt_zero _)
    rw [heq] at hlooked
    have hpre := @scanned_least bare maxResizeEventsScanBytes before after .new 0 hne (by
      rw [Nat.zero_add]
      exact hfar)
    rw [hlooked] at hpre
    obtain ⟨more, rfl⟩ := hpre
    rw [hbs, List.append_assoc, List.append_cancel_left_eq] at heq
    refine hnone r ?_
    rw [heq, List.flatten_append]
    exact List.mem_append_right _ hr
  · rcases hend with hnil | hfar
    · rw [hnil]
      nofun
    · rw [Nat.zero_add] at hfar
      exact hwithin looked rest hbs hfar

end Behind

/-! ### What the runtime keeps -/

section Live

open SessionRuntime

variable {bare : Bool} {R : LineReader} {rt rt' rt'' : SessionRuntime}

/-- The records go on without a size. -/
def Unresized (rt rt' : SessionRuntime) : Prop := ∃ added, rt'.records = rt.records ++ added ∧ ∀ r ∈ added, r.kind ≠ .resize

namespace Unresized

theorem congr (h : rt'.records = rt.records) : Unresized rt rt' := ⟨[], by rw [h, List.append_nil], nofun⟩

theorem trans (h : Unresized rt rt') (h' : Unresized rt' rt'') : Unresized rt rt'' := by
  obtain ⟨added, hadded, hall⟩ := h
  obtain ⟨added', hadded', hall'⟩ := h'
  refine ⟨added ++ added', by rw [hadded', hadded, List.append_assoc], fun r hr => ?_⟩
  rcases List.mem_append.mp hr with hr | hr
  · exact hall r hr
  · exact hall' r hr

theorem recorded {kind : RecordKind} {payload : Bytes} (h : Recorded R rt rt' kind payload) (hk : kind ≠ .resize) :
    Unresized rt rt' := by
  rcases h.outcome with ⟨hrec, -⟩ | ⟨r, hkind, -, hrec⟩
  · exact congr hrec
  · refine ⟨[r], hrec, fun r' hr' => ?_⟩
    rw [List.mem_singleton.mp hr', hkind]
    exact hk

theorem terminalEnd {turn : Turn} {code : LifecycleCode} {exitCode : Option ExitCode} {detail : Bytes}
    (hidle : Idle rt.journal.journal) (h : rt.journalTerminalEnd R turn code exitCode detail = some rt') :
    Unresized rt rt' := by
  obtain ⟨rt₁, hr, rfl, -, hrec⟩ := journalTerminalEnd_spec h hidle
  exact (recorded hr (by decide)).trans (congr hrec)

theorem markCompleted {turn : Turn} {status : SessionStatus} {exitCode : Option ExitCode}
    (hidle : Idle rt.journal.journal) (h : rt.markCompleted R turn status exitCode = some rt') : Unresized rt rt' := by
  rcases markCompleted_cases h with ⟨-, rfl⟩ | ⟨code, -, -, ⟨-, hend⟩ | ⟨-, rfl⟩⟩
  · exact congr rfl
  · exact @terminalEnd R (rt.noteCompleted status exitCode) _ _ _ _ _ hidle hend
  · exact congr rfl

theorem refreshStatus {turn : Turn} {child : TryWait} {completed : Bool} (hidle : Idle rt.journal.journal)
    (h : rt.refreshStatus R turn child = some (rt', completed)) : Unresized rt rt' := by
  rcases refreshStatus_cases h with ⟨-, -, rfl⟩ | ⟨-, -, status, exitCode, hm, -⟩ | ⟨-, -, rfl⟩
  · exact congr rfl
  · exact @markCompleted R rt.pollAcks _ _ _ _ ⟨hidle.closed, hidle.waiting⟩ hm
  · split <;> exact congr rfl

theorem close {closed checkpoint completion : Turn} {engine : EngineView} {detail : Bytes} {idle : Bool}
    (hidle : Idle rt.journal.journal)
    (h : rt.closeOutputStreamAtBoundary R closed checkpoint completion engine detail idle = some rt') :
    Unresized rt rt' := by
  rcases close_cases h hidle with ⟨-, rfl⟩ | ⟨-, rt₁, rt₂, rt₃, hr₁, hr₂, rfl, hend⟩
  · exact congr rfl
  have h₁ : Unresized rt rt₁ := @recorded R { rt with outputClosed := true } _ _ _ hr₁ (by decide)
  have h₂ := h₁.trans (recorded hr₂ (by decide))
  rcases hend with ⟨-, rfl⟩ | ⟨code, exitCode, completionDetail, -, hterm⟩
  · exact h₂
  · have h₃ := @terminalEnd R _ rt' _ _ _ _ (by exact hr₂.evolves.idle) hterm
    exact h₂.trans h₃

theorem read {chunk filtered : Bytes} {meaningfulLen : ℕ} {idle : Bool} {engine : EngineView}
    {modes : Pump.ModeSnapshot} {output policy checkpoint : Turn} (hidle : Idle rt.journal.journal)
    (h : LiveSession.readLocked R rt chunk filtered meaningfulLen idle engine modes output policy checkpoint =
      some rt') : Unresized rt rt' := by
  obtain ⟨rt₁, rt₂, rt₃, rt₄, hs, rfl⟩ := LiveSession.readLocked_cases h hidle
  have h₁ := recorded hs.output (by decide)
  have h₂ : Unresized rt₁ rt₂ := by
    rw [hs.push]
    exact congr (by rw [records, (pushOutput_journal _ _).1, records])
  have h₃ : Unresized rt₂ rt₃ := by
    rcases hs.modes with heq | ⟨m, hm, heq⟩
    · rw [heq]
      exact congr rfl
    · rw [heq]
      exact (recorded hm (by decide)).trans (congr rfl)
  have h₄ : Unresized rt₃ rt₄ := by
    rcases hs.checkpoint with heq | ⟨m, hm, heq⟩
    · rw [heq]
      exact congr rfl
    · rw [heq]
      exact (recorded hm (by decide)).trans (congr rfl)
  have hall := ((h₁.trans h₂).trans h₃).trans h₄
  split
  · exact hall
  · exact hall

/-- **Only a resize records a size.** -/
theorem step {s t : LiveSession} {action : LiveSession.Action} (hidle : Idle s.rt.journal.journal)
    (h : s.step bare R action = some t) (hother : ∀ turn rows cols resized, action ≠ .resize turn rows cols resized) :
    Unresized s.rt t.rt := by
  have hs := LiveSession.step_cases h
  cases action with
  | background action =>
    obtain ⟨l, hadv, rfl⟩ := hs
    exact congr (LiveSession.background_advances hadv hidle).2
  | read chunk engine modes output policy checkpoint =>
    obtain ⟨-, rt', hrt, rfl⟩ := hs
    exact read hidle hrt
  | send =>
    obtain ⟨chunk, -, rfl⟩ := hs
    exact congr rfl
  | hangup detail =>
    obtain ⟨-, rfl⟩ := hs
    exact congr rfl
  | close engine closed checkpoint completion =>
    obtain ⟨detail, rt', -, hrt, rfl⟩ := hs
    exact close hidle hrt
  | closeAgain engine closed checkpoint completion detail idle =>
    obtain ⟨-, rfl⟩ := hs
    exact congr rfl
  | refresh turn child =>
    obtain ⟨rt', completed, hrt, rfl⟩ := hs
    exact refreshStatus hidle hrt
  | terminate turn child requested =>
    obtain ⟨rt', hrt, rfl⟩ := hs
    obtain ⟨rt₁, completed, h₁, rfl⟩ := terminate_cases hrt
    refine (refreshStatus hidle h₁).trans ?_
    split <;> exact congr rfl
  | markCompleted turn status exitCode =>
    obtain ⟨rt', hrt, rfl⟩ := hs
    exact markCompleted hidle hrt
  | resize turn rows cols resized => exact absurd rfl (hother turn rows cols resized)
  | prune =>
    cases hs
    exact congr (@prune_advances R s.rt hidle).2

end Unresized

/-- What is recorded without a size adds none. -/
theorem Unresized.history (h : Unresized rt rt') : history bare rt'.records = history bare rt.records := by
  obtain ⟨added, hadded, hall⟩ := h
  rw [hadded, history_append, resizesAt_eq_nil.mpr fun r hr => if_neg (hall r hr), List.append_nil]

/-- A recorded size. -/
theorem history_snoc {rs : List Record} {r : Record} {rows cols : ℕ} (hk : r.kind = .resize)
    (hp : r.payload = encodeResizePayload rows cols) (hrows : 0 < rows ∧ rows < 2 ^ 16)
    (hcols : 0 < cols ∧ cols < 2 ^ 16) :
    history bare (rs ++ [r]) = history bare rs ++ [⟨(stream bare rs).length, rows, cols⟩] := by
  have hat : ∀ pos, resizeAt pos r = some ⟨pos, rows, cols⟩ := by
    intro pos
    rw [resizeAt, if_pos hk, hp, decodeResizePayload_encode hrows hcols]
    rfl
  rw [history_append, resizesAt, if_neg (by rw [hk]; nofun), hat]
  rfl

/-- Every record of a size is one. -/
def Decodable (rs : List Record) : Prop := ∀ r ∈ rs, r.kind = .resize → resizeAt 0 r ≠ none

theorem Unresized.decodable (h : Unresized rt rt') (hrecords : Decodable rt.records) : Decodable rt'.records := by
  obtain ⟨added, hadded, hall⟩ := h
  rw [hadded]
  intro r hr hk
  rcases List.mem_append.mp hr with hr | hr
  · exact hrecords r hr hk
  · exact absurd hk (hall r hr)

theorem Decodable.snoc {rs : List Record} (h : Decodable rs) {r : Record} {rows cols : ℕ}
    (hp : r.payload = encodeResizePayload rows cols) (hrows : 0 < rows ∧ rows < 2 ^ 16)
    (hcols : 0 < cols ∧ cols < 2 ^ 16) : Decodable (rs ++ [r]) := by
  intro r' hr' hk
  rcases List.mem_append.mp hr' with hr' | hr'
  · exact h r' hr' hk
  · rw [List.mem_singleton.mp hr'] at hk ⊢
    rw [resizeAt, if_pos hk, hp, decodeResizePayload_encode hrows hcols]
    nofun

/-- Then there are as many sizes as records of one. -/
theorem Decodable.length_resizesAt : ∀ {rs : List Record} {scanner : PtyScanner} {pos : ℕ}, Decodable rs →
    (resizesAt bare scanner pos rs).length = rs.countP fun r => decide (r.kind = .resize)
  | [], _, _, _ => rfl
  | r :: rs, scanner, pos, h => by
    have hrest : Decodable rs := fun r hr => h r (List.mem_cons_of_mem _ hr)
    rw [resizesAt, List.countP_cons]
    by_cases hkind : r.kind = .output
    · rw [if_pos hkind, hrest.length_resizesAt, hkind]
      rfl
    · rw [if_neg hkind, List.length_append, hrest.length_resizesAt, Nat.add_comm]
      congr 1
      by_cases hk : r.kind = .resize
      · have hsome := h r List.mem_cons_self hk
        rw [Ne, ← resizeAt_eq_none pos, ← Ne, Option.ne_none_iff_exists'] at hsome
        obtain ⟨e, he⟩ := hsome
        rw [he, hk]
        rfl
      · rw [resizeAt, if_neg hk]
        simp [hk]

/-- A size is one of 16 bits each way. -/
def Sized (rows cols : ℕ) : Prop := rows < 2 ^ 16 ∧ cols < 2 ^ 16

/-- A size that is asked for has 16 bits each way. -/
def SizedAction : LiveSession.Action → Prop
  | .resize _ rows cols _ => Sized rows cols
  | _ => True

/-- **The invariant.** While the journal is not degraded, the records say what the
runtime keeps. -/
structure HistoryInv (bare : Bool) (s : SizedSession) : Prop where
  stream : StreamInv bare s.session
  agrees : s.session.rt.isDegraded = false → history bare s.session.rt.records = s.resizeHistory
  decodable : s.session.rt.isDegraded = false → Decodable s.session.rt.records

theorem historyInv_step {s t : SizedSession} {action : LiveSession.Action} (h : HistoryInv bare s)
    (hsized : SizedAction action) (hstep : s.step bare R action = some t) : HistoryInv bare t := by
  obtain ⟨session, hsession, rfl⟩ := Option.map_eq_some_iff.mp hstep
  have hadv := LiveSession.step_advances hsession h.stream.idle
  suffices hboth : session.rt.isDegraded = false →
      history bare session.rt.records = SizedSession.pushResize s.session.rt s.resizeHistory action ∧
        Decodable session.rt.records from
    ⟨streamInv_step h.stream hsession, fun hok => (hboth hok).1, fun hok => (hboth hok).2⟩
  intro hok
  have hwas := healthy_of_evolves hadv hok
  have hagree := h.agrees hwas
  have hdecodable := h.decodable hwas
  by_cases hresize : ∃ turn rows cols resized, action = .resize turn rows cols resized
  · obtain ⟨turn, rows, cols, resized, rfl⟩ := hresize
    obtain ⟨rt', hrt, rfl⟩ := LiveSession.step_cases hsession
    unfold SessionRuntime.resizePty at hrt
    unfold SizedSession.pushResize
    dsimp only at hok ⊢
    by_cases hzero : rows = 0 ∨ cols = 0
    · rw [if_pos hzero] at hrt ⊢
      cases hrt
      exact ⟨hagree, hdecodable⟩
    rw [if_neg hzero] at hrt ⊢
    by_cases hsame : s.session.rt.ptySize = some (rows, cols)
    · rw [if_pos hsame] at hrt ⊢
      cases hrt
      exact ⟨hagree, hdecodable⟩
    rw [if_neg hsame] at hrt ⊢
    by_cases hresized : resized = true
    · -- the size is kept at the counter, and recorded at the end of the stream
      rw [if_pos hresized] at hrt ⊢
      have hrows : 0 < rows ∧ rows < 2 ^ 16 := ⟨by omega, hsized.1⟩
      have hcols : 0 < cols ∧ cols < 2 ^ 16 := ⟨by omega, hsized.2⟩
      rcases (journalEvent_spec hrt h.stream.idle).outcome with ⟨-, hbad⟩ | ⟨r, hk, hp, hrec⟩
      · rw [hok] at hbad
        cases hbad
      · rw [hrec]
        refine ⟨?_, hdecodable.snoc hp hrows hcols⟩
        have hsnoc := @history_snoc bare s.session.rt.records r rows cols hk hp hrows hcols
        rw [hagree, ← h.stream.synced.total hwas] at hsnoc
        exact hsnoc
    · rw [if_neg hresized] at hrt ⊢
      cases hrt
      exact ⟨hagree, hdecodable⟩
  · have hother : ∀ turn rows cols resized, action ≠ .resize turn rows cols resized :=
      fun turn rows cols resized heq => hresize ⟨turn, rows, cols, resized, heq⟩
    have hkept : SizedSession.pushResize s.session.rt s.resizeHistory action = s.resizeHistory := by
      cases action with
      | resize turn rows cols resized => exact absurd rfl (hother turn rows cols resized)
      | _ => rfl
    have hun := Unresized.step h.stream.idle hsession hother
    rw [hkept, hun.history]
    exact ⟨hagree, hun.decodable hdecodable⟩

/-- A session that was spawned has its first size. -/
theorem historyInv_spawn {N maxPartBytes rows cols : ℕ} {disk : Dir} {pid : Bytes} {geometry started : Turn}
    {s : SizedSession} (hrows : 0 < rows ∧ rows < 2 ^ 16) (hcols : 0 < cols ∧ cols < 2 ^ 16)
    (h : SizedSession.spawn R (Live.opened N maxPartBytes disk) rows cols pid geometry started = some s) :
    HistoryInv bare s := by
  obtain ⟨session, hsession, rfl⟩ := Option.map_eq_some_iff.mp h
  suffices hboth : session.rt.isDegraded = false →
      history bare session.rt.records = [⟨0, rows, cols⟩] ∧ Decodable session.rt.records from
    ⟨streamInv_spawn hsession, fun hok => (hboth hok).1, fun hok => (hboth hok).2⟩
  simp only [LiveSession.spawn, Option.pure_def, Option.bind_eq_bind, Option.bind_eq_some_iff] at hsession
  obtain ⟨⟨l₁, r₁⟩, h₁, ⟨l₂, r₂⟩, h₂, heq⟩ := hsession
  cases heq
  intro hok
  have hs₁ := submit_spec h₁ ⟨rfl, rfl⟩
  have hs₂ := submit_spec h₂ hs₁.idle
  have hok₂ : (!r₂.isOk) = false := hs₂.degraded.symm.trans hok
  rcases hs₂.outcome with ⟨-, hfail⟩ | ⟨hok₁, e₂, hk₂, -, he₂⟩
  · rw [hok₂] at hfail
    cases hfail
  rcases hs₁.outcome with ⟨-, hfail⟩ | ⟨-, e₁, hk₁, hp₁, he₁⟩
  · rw [← hs₁.degraded, hok₁] at hfail
    cases hfail
  have hrec : l₂.journal.published.map OrderedEvent.record = [] ++ [e₁.record] ++ [e₂.record] := by
    rw [he₂, he₁]
    rfl
  have hun : ∀ r ∈ [e₂.record], r.kind ≠ .resize := by
    intro r hr
    rw [List.mem_singleton.mp hr]
    show e₂.kind ≠ .resize
    rw [hk₂]
    exact fun h => by cases h
  show history bare (l₂.journal.published.map OrderedEvent.record) = _ ∧
    Decodable (l₂.journal.published.map OrderedEvent.record)
  rw [hrec, history_append, history_snoc (by exact hk₁) hp₁ hrows hcols,
    resizesAt_eq_nil.mpr fun r hr => if_neg (hun r hr)]
  refine ⟨rfl, fun r hr hk => ?_⟩
  rcases List.mem_append.mp hr with hr | hr
  · exact @Decodable.snoc [] (fun _ h => by cases h) _ rows cols hp₁ hrows hcols r hr hk
  · exact absurd hk (hun r hr)

theorem session_run : ∀ {as : List LiveSession.Action} {s t : SizedSession},
    Runs.run (SizedSession.step bare R) s as = some t → Runs.run (LiveSession.step bare R) s.session as = some t.session
  | [], _, _, h => by
    cases h
    rfl
  | a :: as, s, t, h => by
    obtain ⟨m, hm, hrun⟩ := Runs.run_cons h
    obtain ⟨session, hsession, rfl⟩ := Option.map_eq_some_iff.mp hm
    rw [Runs.run_cons_of_step hsession]
    exact session_run hrun

theorem historyInv_run {s t : SizedSession} {as : List LiveSession.Action} (h : HistoryInv bare s)
    (hsized : ∀ a ∈ as, SizedAction a) (hrun : Runs.run (SizedSession.step bare R) s as = some t) : HistoryInv bare t :=
  Runs.run_invariant_of_meets (fun h hC hstep => historyInv_step h hC hstep) hrun
    (Runs.meets_of_forall fun a ha _ => hsized a ha) h

end Live

/-- **The resize history on both sides.** In a session that has gone on while its
journal is not degraded, the records `rs` on disk say the sizes that the runtime keeps
of as many resizes. `resize_events` derives them exactly if no size is recorded 64 MiB
into the stream, and `resize_events_from` derives those from an offset on exactly if it
looks at them alone: if, for an offset with 64 bits to spare, every size recorded
before its start lies before the offset and none recorded behind it does. -/
theorem resizes_agree_iff {R : LineReader} {bare : Bool} {d₀ : Dir} {es : List Effect} {j : OpenedJournal}
    (hopen : (openJournal R).run d₀ = (es, .ok j)) {maxPartBytes rows cols : ℕ} {pid : Bytes} {geometry started : Turn}
    (hrows : 0 < rows ∧ rows < 2 ^ 16) (hcols : 0 < cols ∧ cols < 2 ^ 16) {s₀ s : SizedSession}
    {as : List LiveSession.Action}
    (hspawn : SizedSession.spawn R (Live.opened j.incarnation maxPartBytes (applyEffects es d₀)) rows cols pid
      geometry started = some s₀)
    (hsized : ∀ a ∈ as, SizedAction a) (hrun : Runs.run (SizedSession.step bare R) s₀ as = some s)
    (hok : s.session.rt.isDegraded = false) {rest : List Live.Action} {l : Live}
    (hrest : Runs.run (Live.step R) s.session.rt.journal rest = some l)
    (hpublished : l.journal.published = s.session.rt.journal.journal.published)
    {d : Dir} (hd : d = l.disk ∨ ∃ cut manifestCut, d = l.disk.crash cut manifestCut) :
    ∃ rs, rs <+: s.session.rt.records ∧ (∀ budgets, readIncarnation d j.incarnation budgets = .ok rs) ∧
      history bare rs = s.resizeHistory.take (rs.countP fun r => decide (r.kind = .resize)) ∧
      (rs = s.session.rt.records → history bare rs = s.resizeHistory) ∧
      (resizeEvents bare d = .ok (history bare rs) ↔ AllWithin bare (batchesBehind d j.incarnation none)) ∧
      ∀ fromOffset,
        ((∃ got, resizeEventsFrom bare d fromOffset = .ok got ∧ FromOffset fromOffset (history bare rs) got) ↔
          LooksAt bare d j.incarnation rs (replayStart d j.incarnation fromOffset) fromOffset) ∧
        (fromOffset + maxResizeEventsScanBytes < 2 ^ 64 →
          (LooksAt bare d j.incarnation rs (replayStart d j.incarnation fromOffset) fromOffset ↔
            (∀ e ∈ history bare (rs.take (startSeq (replayStart d j.incarnation fromOffset))), e.offset < fromOffset) ∧
            ∀ e ∈ historyBehind bare rs (startSeq (replayStart d j.incarnation fromOffset)), fromOffset ≤ e.offset)) := by
  have hinv := historyInv_run (historyInv_spawn hrows hcols hspawn) hsized hrun
  obtain ⟨session, hsession, rfl⟩ := Option.map_eq_some_iff.mp hspawn
  obtain ⟨groups, current, torn, hholds, hpre, hlatest, hanchored, hlt⟩ :=
    holds_session hopen hsession (session_run hrun) hrest hpublished hd
  refine ⟨groups.flatten ++ current, hpre, Holds.readIncarnation_eq hholds, ?_, fun heq => ?_,
    resizeEvents_iff hlatest hholds hanchored hlt, fun fromOffset => ⟨?_, ?_⟩⟩
  · obtain ⟨more, hmore⟩ := hpre
    have hdecodable : Decodable (groups.flatten ++ current) := fun r hr =>
      hinv.decodable hok r (hmore ▸ List.mem_append_left _ hr)
    have hagree := hinv.agrees hok
    rw [← hmore, history_append] at hagree
    rw [← hagree, ← @Decodable.length_resizesAt bare _ .new 0 hdecodable]
    exact (List.take_left' rfl).symm
  · rw [heq]
    exact hinv.agrees hok
  · have hstart := replayStart_valid d j.incarnation fromOffset
    rw [← resizeEventsAt_iff hholds hanchored hlt hstart]
    unfold resizeEventsFrom
    rw [hlatest]
  · exact looksAt_iff hholds hanchored hlt (replayStart_valid d j.incarnation fromOffset)

/-- A session of size 24 by 80 has shown two bytes. Asked for the sizes from offset 1
on, the derivation gives the first one, which holds from offset 0. -/
theorem early_size_is_derived : ∃ s₀ s,
    SizedSession.spawn exactReader (Live.opened 1 4096 (applyEffects [.createPart ⟨1, 1⟩, .syncDir] Dir.empty)) 24 80
      [55] .quiet .quiet = some s₀ ∧
    Runs.run (SizedSession.step false exactReader) s₀ writtenRun = some s ∧ s.session.rt.isDegraded = false ∧
    s.resizeHistory = [⟨0, 24, 80⟩] ∧
    resizeEventsFrom false s.session.rt.journal.disk 1 = .ok [⟨0, 24, 80⟩] ∧
    ¬ ∃ got, resizeEventsFrom false s.session.rt.journal.disk 1 = .ok got ∧ FromOffset 1 s.resizeHistory got := by
  have hrun : ((SizedSession.spawn exactReader (Live.opened 1 4096 (applyEffects [.createPart ⟨1, 1⟩, .syncDir] Dir.empty))
      24 80 [55] .quiet .quiet).bind fun s₀ => Runs.run (SizedSession.step false exactReader) s₀ writtenRun).any
      (fun s => decide (s.session.rt.isDegraded = false ∧ s.resizeHistory = [⟨0, 24, 80⟩] ∧
        (resizeEventsFrom false s.session.rt.journal.disk 1).toOption = some [⟨0, 24, 80⟩])) = true := by
    decide +kernel
  obtain ⟨s, hs, hp⟩ := (Option.any_eq_true _ _).mp hrun
  obtain ⟨s₀, hs₀, hs'⟩ := Option.bind_eq_some_iff.mp hs
  obtain ⟨hok, hkept, hderived⟩ := of_decide_eq_true hp
  have hgot := ok_of_toOption hderived
  refine ⟨s₀, s, hs₀, hs', hok, hkept, hgot, fun ⟨got, hderive, more, hmore, _⟩ => ?_⟩
  rw [hgot] at hderive
  cases hderive
  rw [hkept] at hmore
  cases hmore

/-- Two bytes are shown and the terminal is resized, and then the appender writes the five records. -/
def resizedRun : List LiveSession.Action :=
  helloRun ++ .resize .quiet 30 100 true ::
    ((List.replicate 5 [.receive, .effect, .effect, .finish]).flatten.map fun action => .background (.journal action))

theorem resizedRun_sized : ∀ a ∈ resizedRun, SizedAction a := by
  intro a ha
  simp only [resizedRun, helloRun, List.mem_append, List.mem_cons, List.mem_map, List.not_mem_nil, or_false] at ha
  rcases ha with (rfl | rfl) | rfl | ⟨action, -, rfl⟩
  · exact trivial
  · exact trivial
  · exact ⟨by decide, by decide⟩
  · exact trivial

set_option maxRecDepth 20000 in
theorem resizes_agree_iff_resized : ∃ s₀ s,
    SizedSession.spawn exactReader (Live.opened 1 4096 (applyEffects [.createPart ⟨1, 1⟩, .syncDir] Dir.empty)) 24 80
      [55] .quiet .quiet = some s₀ ∧
    Runs.run (SizedSession.step false exactReader) s₀ resizedRun = some s ∧
    s.resizeHistory = [⟨0, 24, 80⟩, ⟨2, 30, 100⟩] ∧
    ∃ rs, rs <+: s.session.rt.records ∧ (∀ budgets, readIncarnation s.session.rt.journal.disk 1 budgets = .ok rs) ∧
      history false rs = [⟨0, 24, 80⟩, ⟨2, 30, 100⟩] ∧
      (resizeEvents false s.session.rt.journal.disk = .ok (history false rs) ↔
        AllWithin false (batchesBehind s.session.rt.journal.disk 1 none)) ∧
      ((∃ got, resizeEventsFrom false s.session.rt.journal.disk 2 = .ok got ∧ FromOffset 2 (history false rs) got) ↔
        LooksAt false s.session.rt.journal.disk 1 rs (replayStart s.session.rt.journal.disk 1 2) 2) := by
  have hrun : ((SizedSession.spawn exactReader (Live.opened 1 4096 (applyEffects [.createPart ⟨1, 1⟩, .syncDir] Dir.empty))
      24 80 [55] .quiet .quiet).bind fun s₀ => Runs.run (SizedSession.step false exactReader) s₀ resizedRun).any
      (fun s => decide (s.session.rt.isDegraded = false ∧ s.resizeHistory = [⟨0, 24, 80⟩, ⟨2, 30, 100⟩] ∧
        ((readIncarnation s.session.rt.journal.disk 1 fun _ => 1).toOption.map fun rs =>
          rs.countP fun r => decide (r.kind = .resize)) = some 2)) = true := by
    decide +kernel
  obtain ⟨s, hs, hp⟩ := (Option.any_eq_true _ _).mp hrun
  obtain ⟨s₀, hs₀, hs'⟩ := Option.bind_eq_some_iff.mp hs
  obtain ⟨hok, hkept, hcount⟩ := of_decide_eq_true hp
  obtain ⟨rs, hpre, hread, htake, -, hall, hfrom⟩ := resizes_agree_iff open_empty ⟨by decide, by decide⟩
    ⟨by decide, by decide⟩ hs₀ resizedRun_sized hs' hok (Runs.run_nil _) rfl (.inl rfl)
  refine ⟨s₀, s, hs₀, hs', hkept, rs, hpre, hread, ?_, hall, (hfrom 2).1⟩
  rw [hread] at hcount
  have htwo : rs.countP (fun r => decide (r.kind = .resize)) = 2 := Option.some.inj hcount
  rw [htake, htwo, hkept]
  rfl

end Session
end OpenRelay
