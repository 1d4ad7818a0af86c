/-
# Replay

The journal holds the bytes of the child as they were read; the filtered stream
that clients see is derived from them by the same scanner that the reader runs
(`session/replay.rs`). A replay starts at the newest anchored checkpoint below
its target, with a fresh scanner, or at the journal's start.

What a scan gives depends on the scanner only through the bytes it holds
(`scanChunks_of_pending`), so behind a checkpoint that was taken while it held
none a fresh scanner goes on as the old one would (`Anchored`). Then every replay
gives the stream from its offset on, whichever anchor it starts at
(`filteredStreamFrom_eq`, `filteredStreamWindow_eq`).

Key theorem: `replay_spec`.
-/
import OpenRelay.Journal.Checkpoint
import OpenRelay.Pty.Lexer

namespace OpenRelay
namespace Session

open Journal Pty

/-- `saturating_add` on 64 bits. -/
def satAdd (a b : ℕ) : ℕ := min (a + b) (2 ^ 64 - 1)

theorem satAdd_eq {a b : ℕ} (h : a + b < 2 ^ 64) : satAdd a b = a + b := by
  rw [satAdd]
  omega

/-! ### The code -/

def replayBatchBytes : ℕ := 8 * 1024 * 1024

/-- The newest anchored checkpoint at or below the target. -/
def replayStart (d : Dir) (incarnation targetOffset : ℕ) : Option CheckpointAnchor :=
  match checkpointAnchors d incarnation with
  | .error _ => none
  | .ok anchors =>
    (anchors.filter fun anchor => decide (0 < anchor.filteredOffset ∧ anchor.filteredOffset ≤ targetOffset)).getLast?

/-- A stream behind an anchor, or from the start; and its offset. -/
def streamAt (d : Dir) (incarnation : ℕ) : Option CheckpointAnchor → Except JournalError (SegmentStream × ℕ)
  | some anchor => (SegmentStream.openAt d incarnation anchor).map fun s => (s, anchor.filteredOffset)
  | none => (SegmentStream.open d incarnation).map fun s => (s, 0)

/-- A replay under way. -/
structure Replay where
  scanner : PtyScanner
  filteredPos : ℕ
  collected : Bytes

/-- One record of `filtered_stream_from`. -/
def Replay.feedFrom (bare : Bool) (fromOffset : ℕ) (st : Replay) (r : Record) : Replay :=
  if r.kind = .output then
    let scanned := st.scanner.scan bare r.payload
    let batch := scanned.2.filtered
    let pos := satAdd st.filteredPos batch.length
    { scanner := scanned.1
      filteredPos := pos
      collected :=
        if fromOffset < pos then st.collected ++ batch.drop (min (fromOffset - st.filteredPos) batch.length)
        else st.collected }
  else st

/-- One record of `filtered_stream_window`. -/
def Replay.feedWindow (bare : Bool) (fromOffset maxBytes : ℕ) (st : Replay) (r : Record) : Replay :=
  if r.kind = .output then
    let scanned := st.scanner.scan bare r.payload
    let batch := scanned.2.filtered
    let pos := satAdd st.filteredPos batch.length
    { scanner := scanned.1
      filteredPos := pos
      collected :=
        if fromOffset < pos ∧ st.collected.length < maxBytes then
          let skip := min (fromOffset - st.filteredPos) batch.length
          st.collected ++ (batch.drop skip).take (min (batch.length - skip) (maxBytes - st.collected.length))
        else st.collected }
  else st

/-- Pull batches of records until one is empty, or the replay has enough. -/
def replayLoop (d : Dir) (feed : Replay → Record → Replay) (enough : Replay → Bool) :
    ℕ → SegmentStream → Replay → Except JournalError Replay
  | 0, _, st => .ok st
  | turns + 1, s, st =>
    match s.nextBatch d replayBatchBytes with
    | .error e => .error e
    | .ok (batch, s') =>
      if batch = [] then .ok st
      else if enough (batch.foldl feed st) then .ok (batch.foldl feed st)
      else replayLoop d feed enough turns s' (batch.foldl feed st)

/-- A replay behind an anchor. Every batch but the last has a record, and every
record takes a byte. -/
def replayAt (d : Dir) (incarnation : ℕ) (anchor : Option CheckpointAnchor) (feed : Replay → Record → Replay)
    (enough : Replay → Bool) : Except JournalError Replay :=
  match streamAt d incarnation anchor with
  | .error e => .error e
  | .ok (s, pos) => replayLoop d feed enough ((d.incarnationData incarnation).length + 1) s ⟨.new, pos, []⟩

/-- The filtered stream from an offset on, and its end. -/
def filteredStreamFrom (bare : Bool) (d : Dir) (fromOffset : ℕ) : Except JournalError (Bytes × ℕ) :=
  match (listIncarnations d).getLast? with
  | none => .ok ([], 0)
  | some incarnation =>
    (replayAt d incarnation (replayStart d incarnation fromOffset) (Replay.feedFrom bare fromOffset)
      fun _ => false).map fun st => (st.collected, st.filteredPos)

/-- At most `maxBytes` of it. -/
def filteredStreamWindow (bare : Bool) (d : Dir) (fromOffset maxBytes : ℕ) : Except JournalError Bytes :=
  match (listIncarnations d).getLast? with
  | none => .ok []
  | some incarnation =>
    (replayAt d incarnation (replayStart d incarnation fromOffset) (Replay.feedWindow bare fromOffset maxBytes)
      fun st => decide (maxBytes ≤ st.collected.length)).map Replay.collected

/-! ### What a scanner holds -/

section Pending

variable (bare : Bool)

/-- What a scan gives depends on the bytes the scanner holds, and on nothing else
of it. -/
theorem scan_of_pending {s t : PtyScanner} (h : s.pending = t.pending) (data : Bytes) :
    (s.scan bare data).2 = (t.scan bare data).2 ∧
      (s.scan bare data).1.pending = (t.scan bare data).1.pending := by
  have hpend : ∀ (u : PtyScanner) (steps : List Step), ({ u with pending := [] }.steps steps).pending = [] := by
    intro u steps
    rw [PtyScanner.steps_pending]
  rw [scan_eq, scan_eq, h, finishScan, finishScan]
  split
  · exact ⟨rfl, by rw [hpend, hpend]⟩
  · exact ⟨rfl, rfl⟩

theorem scanChunks_of_pending : ∀ (chunks : List Bytes) {s t : PtyScanner}, s.pending = t.pending →
    (scanChunks bare s chunks).2 = (scanChunks bare t chunks).2 ∧
      (scanChunks bare s chunks).1.pending = (scanChunks bare t chunks).1.pending
  | [], _, _, h => ⟨rfl, h⟩
  | c :: cs, s, t, h => by
    obtain ⟨h1, h2⟩ := scan_of_pending bare h c
    obtain ⟨h3, h4⟩ := scanChunks_of_pending cs h2
    rw [scanChunks, scanChunks]
    simp only [h1, h3, h4, and_self]

theorem scanChunks_append (s : PtyScanner) : ∀ (cs ds : List Bytes),
    scanChunks bare s (cs ++ ds) =
      ((scanChunks bare (scanChunks bare s cs).1 ds).1,
        (scanChunks bare s cs).2.append (scanChunks bare (scanChunks bare s cs).1 ds).2) := by
  intro cs
  induction cs generalizing s with
  | nil =>
    intro ds
    rw [List.nil_append, scanChunks, ScanOut.empty_append]
  | cons c cs ih =>
    intro ds
    rw [List.cons_append, scanChunks, ih, scanChunks]
    simp only [ScanOut.append, List.append_assoc, Nat.add_assoc]

end Pending

/-! ### The stream of records -/

/-- The bytes that were read from the child, chunk by chunk. -/
def outputs (rs : List Record) : List Bytes :=
  (rs.filter fun r => decide (r.kind = .output)).map Record.payload

theorem outputs_append (rs rs' : List Record) : outputs (rs ++ rs') = outputs rs ++ outputs rs' := by
  simp [outputs]

theorem outputs_cons (r : Record) (rs : List Record) :
    outputs (r :: rs) = if r.kind = .output then r.payload :: outputs rs else outputs rs := by
  by_cases h : r.kind = .output <;> simp [outputs, h]

section Stream

variable (bare : Bool)

/-- The filtered stream of records: one fresh scanner over all of them. -/
def stream (rs : List Record) : Bytes := (scanChunks bare .new (outputs rs)).2.filtered

/-- What the scanner holds after them. -/
def held (rs : List Record) : Bytes := (scanChunks bare .new (outputs rs)).1.pending

/-- Every anchored checkpoint stands where the scanner holds nothing, and has the
offset of the stream there. -/
def Anchored (rs : List Record) : Prop :=
  ∀ pre r post, rs = pre ++ r :: post → r.kind = .checkpointRef → ∀ offset, filteredOffsetOf r.payload = some offset →
    0 < offset → offset = (stream bare pre).length ∧ held bare pre = []

variable {bare}

theorem Anchored.of_prefix {rs rs' : List Record} (h : Anchored bare rs') (hpre : rs <+: rs') : Anchored bare rs := by
  obtain ⟨t, rfl⟩ := hpre
  intro pre r post hrs
  refine h pre r (post ++ t) ?_
  rw [hrs, List.append_assoc]
  rfl

/-- The stream goes on behind a place where the scanner holds nothing. -/
theorem stream_append {pre rs : List Record} (h : held bare pre = []) :
    stream bare (pre ++ rs) = stream bare pre ++ stream bare rs ∧ held bare (pre ++ rs) = held bare rs := by
  have hnew : (scanChunks bare .new (outputs pre)).1.pending = PtyScanner.new.pending := h
  obtain ⟨h1, h2⟩ := scanChunks_of_pending bare (outputs rs) hnew
  rw [stream, held, outputs_append, scanChunks_append]
  exact ⟨by rw [h1]; rfl, h2⟩

theorem stream_mono {rs rs' : List Record} (h : rs <+: rs') : stream bare rs <+: stream bare rs' := by
  obtain ⟨t, rfl⟩ := h
  rw [stream, stream, outputs_append, scanChunks_append]
  exact List.prefix_append _ _

/-- A record that is no output adds nothing. -/
theorem stream_cons {r : Record} (h : r.kind ≠ .output) (rs : List Record) : stream bare (r :: rs) = stream bare rs := by
  rw [stream, outputs_cons, if_neg h, stream]

end Stream

/-! ### The loops -/

section Loops

variable {d : Dir}

/-- **The loop** feeds the records that are left, or a beginning of them that is
enough. -/
theorem replayLoop_spec {feed : Replay → Record → Replay} {enough : Replay → Bool} :
    ∀ {turns : ℕ} {s : SegmentStream} {rs : List Record} {st : Replay}, SegmentStream.Reads d s rs → rs.length < turns →
    ∃ k, replayLoop d feed enough turns s st = .ok ((rs.take k).foldl feed st) ∧
      (rs.take k = rs ∨ enough ((rs.take k).foldl feed st) = true)
  | 0, _, _, _, _, hlt => absurd hlt (Nat.not_lt_zero _)
  | turns + 1, s, rs, st, h, hlt => by
    obtain ⟨m, s', hm, hbatch, hreads, -, -, hzero⟩ := SegmentStream.nextBatch_spec h replayBatchBytes
    rw [replayLoop, hbatch]
    simp only
    by_cases hnil : rs.take m = []
    · have hrs : rs = [] := (List.take_eq_nil_iff.mp hnil).elim hzero id
      rw [if_pos hnil, hrs]
      exact ⟨0, rfl, .inl rfl⟩
    rw [if_neg hnil]
    by_cases henough : enough ((rs.take m).foldl feed st) = true
    · rw [if_pos henough]
      exact ⟨m, rfl, .inr henough⟩
    rw [if_neg henough]
    have hpos : 0 < m := by
      by_contra h0
      exact hnil (by rw [Nat.le_zero.mp (not_lt.mp h0), List.take_zero])
    have hshort : (rs.drop m).length < turns := by
      rw [List.length_drop]
      omega
    obtain ⟨k, hloop, hend⟩ := @replayLoop_spec feed enough turns s' (rs.drop m) ((rs.take m).foldl feed st) hreads hshort
    have htake : rs.take (m + k) = rs.take m ++ (rs.drop m).take k := List.take_add
    refine ⟨m + k, by rw [hloop, htake, List.foldl_append], ?_⟩
    rw [htake, List.foldl_append]
    refine hend.imp_left fun h => ?_
    rw [h, List.take_append_drop]

end Loops

section Folds

variable {bare : Bool} {fromOffset : ℕ}

/-- The records of `filtered_stream_from`: what the scanner gives, from the
offset on. -/
theorem feedFrom_foldl : ∀ {rs : List Record} {st : Replay},
    st.filteredPos + (scanChunks bare st.scanner (outputs rs)).2.filtered.length < 2 ^ 64 →
    rs.foldl (Replay.feedFrom bare fromOffset) st =
      { scanner := (scanChunks bare st.scanner (outputs rs)).1
        filteredPos := st.filteredPos + (scanChunks bare st.scanner (outputs rs)).2.filtered.length
        collected := st.collected ++
          (scanChunks bare st.scanner (outputs rs)).2.filtered.drop (fromOffset - st.filteredPos) }
  | [], st, _ => by simp [outputs, scanChunks, ScanOut.empty]
  | r :: rs, st, hlt => by
    rw [List.foldl_cons]
    rw [outputs_cons] at hlt ⊢
    by_cases hk : r.kind = .output
    · rw [if_pos hk] at hlt ⊢
      rw [scanChunks] at hlt ⊢
      simp only [ScanOut.append, List.length_append] at hlt ⊢
      have hpos : satAdd st.filteredPos (st.scanner.scan bare r.payload).2.filtered.length =
          st.filteredPos + (st.scanner.scan bare r.payload).2.filtered.length := satAdd_eq (by omega)
      have hstep : st.feedFrom bare fromOffset r =
          { scanner := (st.scanner.scan bare r.payload).1
            filteredPos := st.filteredPos + (st.scanner.scan bare r.payload).2.filtered.length
            collected := st.collected ++
              (st.scanner.scan bare r.payload).2.filtered.drop (fromOffset - st.filteredPos) } := by
        rw [Replay.feedFrom, if_pos hk]
        simp only [hpos, Replay.mk.injEq, true_and]
        split
        · rw [← List.drop_eq_drop_min]
        · rw [List.drop_eq_nil_of_le (by omega), List.append_nil]
      rw [hstep, feedFrom_foldl (by simp only; omega)]
      simp only [Replay.mk.injEq, true_and, List.append_assoc, List.append_cancel_left_eq]
      refine ⟨by omega, ?_⟩
      rw [List.drop_append, Nat.sub_add_eq]
    · rw [if_neg hk] at hlt ⊢
      have hstep : st.feedFrom bare fromOffset r = st := by rw [Replay.feedFrom, if_neg hk]
      rw [hstep, feedFrom_foldl hlt]

/-- The records of `filtered_stream_window`. -/
theorem feedWindow_foldl {maxBytes : ℕ} : ∀ {rs : List Record} {st : Replay},
    st.filteredPos + (scanChunks bare st.scanner (outputs rs)).2.filtered.length < 2 ^ 64 →
    (rs.foldl (Replay.feedWindow bare fromOffset maxBytes) st).collected =
      st.collected ++ ((scanChunks bare st.scanner (outputs rs)).2.filtered.drop (fromOffset - st.filteredPos)).take
        (maxBytes - st.collected.length)
  | [], st, _ => by simp [outputs, scanChunks, ScanOut.empty]
  | r :: rs, st, hlt => by
    rw [List.foldl_cons]
    rw [outputs_cons] at hlt ⊢
    by_cases hk : r.kind = .output
    · rw [if_pos hk] at hlt ⊢
      rw [scanChunks] at hlt ⊢
      simp only [ScanOut.append, List.length_append] at hlt ⊢
      have hpos : satAdd st.filteredPos (st.scanner.scan bare r.payload).2.filtered.length =
          st.filteredPos + (st.scanner.scan bare r.payload).2.filtered.length := satAdd_eq (by omega)
      have hstep : st.feedWindow bare fromOffset maxBytes r =
          { scanner := (st.scanner.scan bare r.payload).1
            filteredPos := st.filteredPos + (st.scanner.scan bare r.payload).2.filtered.length
            collected := st.collected ++
              ((st.scanner.scan bare r.payload).2.filtered.drop (fromOffset - st.filteredPos)).take
                (maxBytes - st.collected.length) } := by
        rw [Replay.feedWindow, if_pos hk]
        simp only [hpos, Replay.mk.injEq, true_and]
        by_cases hin : fromOffset < st.filteredPos + (st.scanner.scan bare r.payload).2.filtered.length ∧
            st.collected.length < maxBytes
        · have hrest : (st.scanner.scan bare r.payload).2.filtered.length -
              min (fromOffset - st.filteredPos) (st.scanner.scan bare r.payload).2.filtered.length =
              ((st.scanner.scan bare r.payload).2.filtered.drop (fromOffset - st.filteredPos)).length := by
            rw [List.length_drop]
            omega
          rw [if_pos hin, ← List.drop_eq_drop_min, hrest, Nat.min_comm, ← List.take_eq_take_min]
        · rw [if_neg hin]
          rcases not_and_or.mp hin with h | h
          · rw [List.drop_eq_nil_of_le (by omega), List.take_nil, List.append_nil]
          · rw [Nat.sub_eq_zero_of_le (not_lt.mp h), List.take_zero, List.append_nil]
      rw [hstep, feedWindow_foldl (by simp only; omega)]
      simp only [List.append_assoc, List.append_cancel_left_eq, List.length_append, List.length_take]
      rw [List.drop_append, List.take_append, ← Nat.sub_add_eq fromOffset]
      congr 2
      omega
    · rw [if_neg hk] at hlt ⊢
      have hstep : st.feedWindow bare fromOffset maxBytes r = st := by rw [Replay.feedWindow, if_neg hk]
      rw [hstep, feedWindow_foldl hlt]

/-- A fresh replay. -/
theorem feedFrom_new {rs : List Record} {pos : ℕ} (h : pos + (stream bare rs).length < 2 ^ 64) :
    (rs.foldl (Replay.feedFrom bare fromOffset) ⟨.new, pos, []⟩).collected =
        (stream bare rs).drop (fromOffset - pos) ∧
      (rs.foldl (Replay.feedFrom bare fromOffset) ⟨.new, pos, []⟩).filteredPos = pos + (stream bare rs).length := by
  have hfold := @feedFrom_foldl bare fromOffset rs ⟨.new, pos, []⟩ h
  rw [hfold]
  exact ⟨rfl, rfl⟩

theorem feedWindow_new {rs : List Record} {pos maxBytes : ℕ} (h : pos + (stream bare rs).length < 2 ^ 64) :
    (rs.foldl (Replay.feedWindow bare fromOffset maxBytes) ⟨.new, pos, []⟩).collected =
      ((stream bare rs).drop (fromOffset - pos)).take maxBytes :=
  @feedWindow_foldl bare fromOffset maxBytes rs ⟨.new, pos, []⟩ h

end Folds

/-! ### Replays of an incarnation -/

/-- A replay to the target may start here: at the journal's start, or behind an
anchored checkpoint at or below it. -/
def ValidStart (d : Dir) (incarnation targetOffset : ℕ) : Option CheckpointAnchor → Prop
  | none => True
  | some anchor => ∃ anchors, checkpointAnchors d incarnation = .ok anchors ∧ anchor ∈ anchors ∧
      0 < anchor.filteredOffset ∧ anchor.filteredOffset ≤ targetOffset

theorem replayStart_valid (d : Dir) (incarnation targetOffset : ℕ) :
    ValidStart d incarnation targetOffset (replayStart d incarnation targetOffset) := by
  rcases hstart : replayStart d incarnation targetOffset with _ | anchor
  · exact trivial
  rw [replayStart] at hstart
  rcases hanchors : checkpointAnchors d incarnation with e | anchors
  · rw [hanchors] at hstart
    cases hstart
  · rw [hanchors] at hstart
    obtain ⟨hmem, hdec⟩ := List.mem_filter.mp (List.mem_of_getLast? hstart)
    exact ⟨anchors, hanchors, hmem, of_decide_eq_true hdec⟩

/-- A replay of everything starts at the journal's start. -/
theorem replayStart_zero (d : Dir) (incarnation : ℕ) : replayStart d incarnation 0 = none := by
  rcases hanchor : replayStart d incarnation 0 with _ | anchor
  · rfl
  · have hvalid := replayStart_valid d incarnation 0
    rw [hanchor] at hvalid
    obtain ⟨-, -, -, hpos, hle⟩ := hvalid
    omega

section Holds

variable {bare : Bool} {d : Dir} {N : ℕ} {groups : List (List Record)} {current : List Record} {torn : Bytes}
  {anchor : Option CheckpointAnchor} {fromOffset : ℕ}

theorem Holds.length_le (h : Holds d N groups current torn) :
    (groups.flatten ++ current).length ≤ (d.incarnationData N).length := by
  have hsize := streamRecords_size (streamRecords_parts h.fits h.numbered h.bound h.torn)
  have hcount := sizeAll_length_le (groups.flatten ++ current)
  rw [Dir.incarnationData, List.flatMap_def, h.data]
  omega

/-- **Where a replay starts.** The stream of the records that are left is what
is left of the stream. -/
theorem replay_start (h : Holds d N groups current torn) (ha : Anchored bare (groups.flatten ++ current))
    (hstart : ValidStart d N fromOffset anchor) :
    ∃ s pos rest, streamAt d N anchor = .ok (s, pos) ∧ SegmentStream.Reads d s rest ∧
      rest.length ≤ (groups.flatten ++ current).length ∧ pos ≤ fromOffset ∧
      pos + (stream bare rest).length = (stream bare (groups.flatten ++ current)).length ∧
      stream bare rest = (stream bare (groups.flatten ++ current)).drop pos := by
  rcases anchor with _ | anchor
  · obtain ⟨s, hs, hreads⟩ := h.reads_open
    refine ⟨s, 0, _, ?_, hreads, le_rfl, Nat.zero_le _, Nat.zero_add _, rfl⟩
    rw [streamAt, hs]
    rfl
  · obtain ⟨anchors, hanchors, hmem, hpos, hle⟩ := hstart
    rw [h.checkpointAnchors_eq] at hanchors
    cases hanchors
    obtain ⟨pre, r, post, s, hrecords, hkind, hoff, hs, hreads⟩ := h.reads_openAt hmem
    obtain ⟨hlen, hheld⟩ := ha pre r post hrecords hkind _ hoff hpos
    have hstream : stream bare (groups.flatten ++ current) = stream bare pre ++ stream bare post := by
      rw [hrecords, (stream_append hheld).1, stream_cons (by rw [hkind]; nofun)]
    refine ⟨s, anchor.filteredOffset, post, by rw [streamAt, hs]; rfl, hreads, ?_, hle, ?_, ?_⟩
    · rw [hrecords, List.length_append, List.length_cons]
      omega
    · rw [hstream, List.length_append, hlen]
    · rw [hstream, hlen, List.drop_left]

/-- **A replay from an offset on**, from any start. -/
theorem replayAt_from (h : Holds d N groups current torn) (ha : Anchored bare (groups.flatten ++ current))
    (hlt : (stream bare (groups.flatten ++ current)).length < 2 ^ 64) (hstart : ValidStart d N fromOffset anchor) :
    (replayAt d N anchor (Replay.feedFrom bare fromOffset) fun _ => false).map
        (fun st => (st.collected, st.filteredPos)) =
      .ok ((stream bare (groups.flatten ++ current)).drop fromOffset,
        (stream bare (groups.flatten ++ current)).length) := by
  obtain ⟨s, pos, rest, hs, hreads, hlen, hle, hpos, hstream⟩ := replay_start h ha hstart
  have hcount := Holds.length_le h
  have hturns : rest.length < (d.incarnationData N).length + 1 := by omega
  obtain ⟨k, hloop, hend⟩ := @replayLoop_spec d (Replay.feedFrom bare fromOffset) (fun _ => false) _ s rest
    ⟨.new, pos, []⟩ hreads hturns
  obtain ⟨h1, h2⟩ := @feedFrom_new bare fromOffset rest pos (by omega)
  rw [hend.resolve_right Bool.false_ne_true] at hloop
  rw [replayAt, hs]
  simp only [hloop, Except.map, h1, h2, hpos]
  rw [hstream, List.drop_drop, Nat.add_sub_cancel' hle]

/-- **A window of the stream**, from any start. -/
theorem replayAt_window (h : Holds d N groups current torn) (ha : Anchored bare (groups.flatten ++ current))
    (hlt : (stream bare (groups.flatten ++ current)).length < 2 ^ 64) (hstart : ValidStart d N fromOffset anchor)
    (maxBytes : ℕ) :
    (replayAt d N anchor (Replay.feedWindow bare fromOffset maxBytes)
        fun st => decide (maxBytes ≤ st.collected.length)).map Replay.collected =
      .ok (((stream bare (groups.flatten ++ current)).drop fromOffset).take maxBytes) := by
  obtain ⟨s, pos, rest, hs, hreads, hlen, hle, hpos, hstream⟩ := replay_start h ha hstart
  have hcount := Holds.length_le h
  have hturns : rest.length < (d.incarnationData N).length + 1 := by omega
  obtain ⟨k, hloop, hend⟩ := @replayLoop_spec d (Replay.feedWindow bare fromOffset maxBytes)
    (fun st => decide (maxBytes ≤ st.collected.length)) _ s rest ⟨.new, pos, []⟩ hreads hturns
  -- the records that were fed, whether or not the window was full before the last one
  have hpre : stream bare (rest.take k) <+: stream bare rest := stream_mono (List.take_prefix _ _)
  have hfed := @feedWindow_new bare fromOffset (rest.take k) pos maxBytes (by have := hpre.length_le; omega)
  rw [replayAt, hs]
  simp only [hloop, Except.map, hfed]
  have hgoal : (stream bare (groups.flatten ++ current)).drop fromOffset = (stream bare rest).drop (fromOffset - pos) := by
    rw [hstream, List.drop_drop, Nat.add_sub_cancel' hle]
  rw [hgoal]
  congr 1
  rcases hend with hall | hfull
  · rw [hall]
  · rw [decide_eq_true_eq, hfed, List.length_take] at hfull
    obtain ⟨t, ht⟩ := hpre
    rw [← ht, List.drop_append, List.take_append_of_le_length (by omega)]

end Holds

section Latest

variable {bare : Bool} {d : Dir} {N : ℕ} {groups : List (List Record)} {current : List Record} {torn : Bytes}

/-- **The stream from an offset on.** -/
theorem filteredStreamFrom_eq (hlatest : (listIncarnations d).getLast? = some N) (h : Holds d N groups current torn)
    (ha : Anchored bare (groups.flatten ++ current))
    (hlt : (stream bare (groups.flatten ++ current)).length < 2 ^ 64) (fromOffset : ℕ) :
    filteredStreamFrom bare d fromOffset = .ok ((stream bare (groups.flatten ++ current)).drop fromOffset,
      (stream bare (groups.flatten ++ current)).length) := by
  rw [filteredStreamFrom, hlatest]
  exact replayAt_from h ha hlt (replayStart_valid d N fromOffset)

/-- **A window of it.** -/
theorem filteredStreamWindow_eq (hlatest : (listIncarnations d).getLast? = some N) (h : Holds d N groups current torn)
    (ha : Anchored bare (groups.flatten ++ current))
    (hlt : (stream bare (groups.flatten ++ current)).length < 2 ^ 64) (fromOffset maxBytes : ℕ) :
    filteredStreamWindow bare d fromOffset maxBytes =
      .ok (((stream bare (groups.flatten ++ current)).drop fromOffset).take maxBytes) := by
  rw [filteredStreamWindow, hlatest]
  exact replayAt_window h ha hlt (replayStart_valid d N fromOffset) maxBytes

end Latest

end Session
end OpenRelay
