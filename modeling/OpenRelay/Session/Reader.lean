/-
# The replay as a reader

`ReplayReader` gives the filtered stream of the latest incarnation through `read`:
when it has nothing pending it pulls one batch of records and filters it
(`session/replay.rs`). A batch may have nothing to show, because its output is all
protocol traffic or the beginning of a sequence, or because it has no output at all.
Then the read returns 0, which a caller takes for the end, though more may follow
(`silent_batch_ends_reading`).

Whatever the buffers are, what is read until the first 0 is what the batches show up
to the first silent one (`readUntilZero_eq`); it is the whole stream exactly if no
batch behind a silent one shows anything (`reader_whole_iff`).

Key theorem: `read_spec`.
-/
import OpenRelay.Journal.StreamEnd
import OpenRelay.Session.Replay

namespace OpenRelay
namespace Session

open Journal Pty

/-! ### The code -/

/-- A reader of a session's filtered stream. -/
structure ReplayReader where
  stream : Option SegmentStream
  scanner : PtyScanner
  pending : Bytes
  done : Bool

/-- The filtered output of a batch, and the scanner after it. -/
def filterBatch (bare : Bool) (scanner : PtyScanner) (batch : List Record) : PtyScanner × Bytes :=
  batch.foldl (fun acc r =>
    if r.kind = .output then
      let scanned := acc.1.scan bare r.payload
      (scanned.1, acc.2 ++ scanned.2.filtered)
    else acc) (scanner, [])

namespace ReplayReader

/-- A reader at the start of the newest incarnation. -/
def new (d : Dir) : Except JournalError ReplayReader :=
  match (listIncarnations d).getLast? with
  | some incarnation => (SegmentStream.open d incarnation).map fun s => ⟨some s, .new, [], false⟩
  | none => .ok ⟨none, .new, [], false⟩

/-- The reader takes another batch, if it has nothing left of the last one. -/
def fill (bare : Bool) (d : Dir) (r : ReplayReader) : Except JournalError ReplayReader :=
  if r.done = true ∨ r.pending ≠ [] then .ok r
  else match r.stream with
    | none => .ok { r with done := true }
    | some s =>
      match s.nextBatch d replayBatchBytes with
      | .error e => .error e
      | .ok (batch, s') =>
        if batch = [] then .ok { r with stream := some s', done := true }
        else .ok { r with
          stream := some s'
          scanner := (filterBatch bare r.scanner batch).1
          pending := r.pending ++ (filterBatch bare r.scanner batch).2 }

/-- A read into a buffer of `bufLen` bytes. -/
def read (bare : Bool) (d : Dir) (bufLen : ℕ) (r : ReplayReader) : Except JournalError (Bytes × ReplayReader) :=
  match if r.pending = [] then r.fill bare d else .ok r with
  | .error e => .error e
  | .ok r => .ok (r.pending.take bufLen, { r with pending := r.pending.drop bufLen })

/-- Reads into buffers of these sizes, until one returns 0; none if that takes more
reads than there are turns. -/
def readUntilZero (bare : Bool) (d : Dir) : ℕ → (ℕ → ℕ) → ReplayReader → Option (Except JournalError Bytes)
  | 0, _, _ => none
  | turns + 1, sizes, r =>
    match r.read bare d (sizes 0) with
    | .error e => some (.error e)
    | .ok (bytes, r') =>
      if bytes = [] then some (.ok [])
      else (readUntilZero bare d turns (fun n => sizes (n + 1)) r').map fun rest => rest.map fun more => bytes ++ more

end ReplayReader

/-! ### Batches -/

/-- The batches that are pulled until one is empty. -/
def batches (d : Dir) : ℕ → SegmentStream → List (List Record)
  | 0, _ => []
  | turns + 1, s =>
    match s.nextBatch d replayBatchBytes with
    | .error _ => []
    | .ok (batch, s') => if batch = [] then [] else batch :: batches d turns s'

/-- What each batch shows, to a scanner that has seen the ones before. -/
def visible (bare : Bool) : PtyScanner → List (List Record) → List Bytes
  | _, [] => []
  | scanner, batch :: more =>
    (scanChunks bare scanner (outputs batch)).2.filtered :: visible bare (scanChunks bare scanner (outputs batch)).1 more

/-- Behind a batch that shows nothing no batch shows anything. -/
def Unbroken (shown : List Bytes) : Prop := ∀ before after, shown = before ++ [] :: after → after.flatten = []

/-- What is shown up to the first batch that shows nothing. -/
def untilSilent (shown : List Bytes) : Bytes := (shown.takeWhile fun bytes => decide (bytes ≠ [])).flatten

theorem untilSilent_cons {bytes : Bytes} (h : bytes ≠ []) (shown : List Bytes) :
    untilSilent (bytes :: shown) = bytes ++ untilSilent shown := by
  unfold untilSilent
  simp [h]

theorem untilSilent_nil (shown : List Bytes) : untilSilent ([] :: shown) = [] := rfl

theorem untilSilent_length_le (shown : List Bytes) : (untilSilent shown).length ≤ shown.flatten.length :=
  (List.IsPrefix.flatten (List.takeWhile_prefix _)).length_le

theorem unbroken_iff : ∀ shown : List Bytes, untilSilent shown = shown.flatten ↔ Unbroken shown
  | [] => iff_of_true rfl fun before after h => by cases before <;> cases h
  | [] :: shown => by
    rw [untilSilent_nil, List.flatten_cons, List.nil_append]
    refine ⟨fun h before after heq => ?_, fun h => (h [] shown rfl).symm⟩
    rcases before with _ | ⟨b, before⟩
    · injection heq with _ heq
      rw [← heq]
      exact h.symm
    · injection heq with _ htail
      have hshown : shown = before ++ [] :: after := htail
      rw [hshown, List.flatten_append, List.flatten_cons] at h
      exact (List.append_eq_nil_iff.mp (List.append_eq_nil_iff.mp h.symm).2).2
  | (b :: bytes) :: shown => by
    rw [untilSilent_cons (List.cons_ne_nil _ _), List.flatten_cons, List.append_cancel_left_eq, unbroken_iff shown]
    refine ⟨fun h before after heq => ?_, fun h before after heq => ?_⟩
    · rcases before with _ | ⟨b', before⟩
      · cases heq
      · injection heq with _ heq
        exact h before after heq
    · exact h ((b :: bytes) :: before) after (by rw [heq]; rfl)

theorem filterBatch_eq (bare : Bool) (batch : List Record) (scanner : PtyScanner) :
    filterBatch bare scanner batch =
      ((scanChunks bare scanner (outputs batch)).1, (scanChunks bare scanner (outputs batch)).2.filtered) := by
  have hfold : ∀ (batch : List Record) (scanner : PtyScanner) (shown : Bytes),
      batch.foldl (fun acc r =>
        if r.kind = .output then
          let scanned := acc.1.scan bare r.payload
          (scanned.1, acc.2 ++ scanned.2.filtered)
        else acc) (scanner, shown) =
        ((scanChunks bare scanner (outputs batch)).1, shown ++ (scanChunks bare scanner (outputs batch)).2.filtered) := by
    intro batch
    induction batch with
    | nil =>
      intro scanner shown
      rw [show outputs [] = [] from rfl, scanChunks]
      simp [ScanOut.empty]
    | cons r batch ih =>
      intro scanner shown
      rw [List.foldl_cons, outputs_cons]
      by_cases hkind : r.kind = .output
      · rw [if_pos hkind, if_pos hkind, ih, scanChunks]
        simp only [ScanOut.append, List.append_assoc]
      · rw [if_neg hkind, if_neg hkind, ih]
  exact hfold batch scanner []

section Reads

variable {bare : Bool} {d : Dir} {s : SegmentStream} {rs : List Record}

/-- One more batch of a stream that reads. -/
theorem batches_succ (h : SegmentStream.Reads d s rs) {turns : ℕ} (hturns : rs.length < turns + 1) :
    (rs = [] ∧ batches d (turns + 1) s = [] ∧ ∃ s', s.nextBatch d replayBatchBytes = .ok ([], s')) ∨
    ∃ batch s' rest, batch ≠ [] ∧ rs = batch ++ rest ∧ s.nextBatch d replayBatchBytes = .ok (batch, s') ∧
      SegmentStream.Reads d s' rest ∧ rest.length < turns ∧ batches d (turns + 1) s = batch :: batches d turns s' := by
  obtain ⟨m, s', hm, hbatch, hreads, -, -, hzero⟩ := SegmentStream.nextBatch_spec h replayBatchBytes
  have hstep : batches d (turns + 1) s = if rs.take m = [] then [] else rs.take m :: batches d turns s' := by
    rw [batches, hbatch]
  rw [hstep, hbatch]
  by_cases hnil : rs.take m = []
  · have hrs : rs = [] := (List.take_eq_nil_iff.mp hnil).elim hzero id
    exact .inl ⟨hrs, if_pos hnil, s', by rw [hnil]⟩
  · refine .inr ⟨rs.take m, s', rs.drop m, hnil, (List.take_append_drop m rs).symm, rfl, hreads, ?_, ?_⟩
    · have hpos : 0 < m := by
        by_contra h0
        exact hnil (by rw [Nat.le_zero.mp (not_lt.mp h0), List.take_zero])
      rw [List.length_drop]
      omega
    · rw [if_neg hnil]

/-- The batches are the records that are left. -/
theorem batches_flatten : ∀ {turns : ℕ} {s : SegmentStream} {rs : List Record}, SegmentStream.Reads d s rs →
    rs.length < turns → (batches d turns s).flatten = rs
  | 0, _, _, _, hlt => absurd hlt (Nat.not_lt_zero _)
  | turns + 1, s, rs, h, hlt => by
    rcases batches_succ h hlt with ⟨hrs, hbatches, -⟩ | ⟨batch, s', rest, -, hrs, -, hreads, hshort, hbatches⟩
    · rw [hbatches, hrs]
      rfl
    · rw [hbatches, List.flatten_cons, batches_flatten hreads hshort, hrs]

theorem visible_flatten : ∀ (bs : List (List Record)) (scanner : PtyScanner),
    (visible bare scanner bs).flatten = (scanChunks bare scanner (outputs bs.flatten)).2.filtered
  | [], _ => rfl
  | batch :: bs, scanner => by
    rw [visible, List.flatten_cons, List.flatten_cons, visible_flatten bs, outputs_append, scanChunks_append]
    rfl

end Reads

/-! ### Reading -/

section Reading

variable {bare : Bool} {d : Dir}

/-- The reader has these bytes pending, and behind them what the batches show. -/
structure ReplayReader.Shows (bare : Bool) (d : Dir) (r : ReplayReader) (shown : List Bytes) : Prop where
  running : r.done = false
  stream : ∃ s rs turns, r.stream = some s ∧ SegmentStream.Reads d s rs ∧ rs.length < turns ∧
    shown = visible bare r.scanner (batches d turns s)

/-- What is read until the first 0. -/
def ReplayReader.ahead (r : ReplayReader) (shown : List Bytes) : Bytes :=
  if r.pending = [] then untilSilent shown else r.pending ++ untilSilent shown

theorem ahead_of_pending {r : ReplayReader} (h : r.pending ≠ []) (shown : List Bytes) :
    r.ahead shown = r.pending ++ untilSilent shown := if_neg h

/-- With bytes pending, a read gives some of them. -/
theorem read_pending {r : ReplayReader} {shown : List Bytes} (h : r.Shows bare d shown) (hpending : r.pending ≠ [])
    {bufLen : ℕ} (hbuf : 0 < bufLen) :
    ∃ bytes r', r.read bare d bufLen = .ok (bytes, r') ∧ bytes ≠ [] ∧ r'.Shows bare d shown ∧
      r.pending ++ untilSilent shown = bytes ++ r'.ahead shown := by
  refine ⟨r.pending.take bufLen, { r with pending := r.pending.drop bufLen }, ?_, ?_, ⟨h.running, h.stream⟩, ?_⟩
  · unfold ReplayReader.read
    rw [if_neg hpending]
  · exact fun hnil => (List.take_eq_nil_iff.mp hnil).elim (fun h0 => by omega) hpending
  · unfold ReplayReader.ahead
    by_cases hrest : r.pending.drop bufLen = []
    · have hall : r.pending.take bufLen = r.pending := by
        conv_rhs => rw [← List.take_append_drop bufLen r.pending, hrest, List.append_nil]
      rw [if_pos hrest, hall]
    · rw [if_neg hrest, ← List.append_assoc, List.take_append_drop]

/-- **One read.** It gives a beginning of what is ahead, and nothing only if nothing is. -/
theorem read_spec {r : ReplayReader} {shown : List Bytes} (h : r.Shows bare d shown) {bufLen : ℕ} (hbuf : 0 < bufLen) :
    ∃ bytes r', r.read bare d bufLen = .ok (bytes, r') ∧
      ((bytes = [] ∧ r.ahead shown = []) ∨
        bytes ≠ [] ∧ ∃ shown', r'.Shows bare d shown' ∧ r.ahead shown = bytes ++ r'.ahead shown') := by
  by_cases hpending : r.pending = []
  · obtain ⟨s, rs, turns, hs, hreads, hlt, rfl⟩ := h.stream
    have hfill : r.fill bare d = match s.nextBatch d replayBatchBytes with
        | .error e => .error e
        | .ok (batch, s') =>
          if batch = [] then .ok { r with stream := some s', done := true }
          else .ok { r with
            stream := some s'
            scanner := (filterBatch bare r.scanner batch).1
            pending := r.pending ++ (filterBatch bare r.scanner batch).2 } := by
      unfold ReplayReader.fill
      rw [if_neg (by rw [h.running, hpending]; simp), hs]
    have hahead : ∀ shown, r.ahead shown = untilSilent shown := fun _ => if_pos hpending
    cases turns with
    | zero => exact absurd hlt (Nat.not_lt_zero _)
    | succ turns =>
      rcases batches_succ hreads hlt with ⟨-, hbatches, s', hnext⟩ |
        ⟨batch, s', rest, hbatch, -, hnext, hreads', hshort, hbatches⟩
      · -- the end of the journal
        rw [hnext] at hfill
        refine ⟨[], { r with stream := some s', done := true }, ?_, .inl ⟨rfl, ?_⟩⟩
        · unfold ReplayReader.read
          rw [if_pos hpending, hfill]
          simp only [if_true, hpending, List.take_nil, List.drop_nil]
        · rw [hahead, hbatches]
          rfl
      · rw [hnext] at hfill
        dsimp only at hfill
        rw [if_neg hbatch, hpending, List.nil_append, filterBatch_eq] at hfill
        rw [hahead, hbatches, visible]
        generalize hshown : (scanChunks bare r.scanner (outputs batch)).2.filtered = shown at hfill
        generalize hscanner : (scanChunks bare r.scanner (outputs batch)).1 = scanner at hfill
        have hfilled : ReplayReader.Shows bare d ⟨some s', scanner, shown, r.done⟩
            (visible bare scanner (batches d turns s')) :=
          ⟨h.running, s', rest, turns, rfl, hreads', hshort, rfl⟩
        have hread : r.read bare d bufLen = ReplayReader.read bare d bufLen ⟨some s', scanner, shown, r.done⟩ ∨ shown = [] := by
          by_cases hnil : shown = []
          · exact .inr hnil
          · refine .inl ?_
            unfold ReplayReader.read
            rw [if_pos hpending, hfill, if_neg hnil]
        by_cases hnil : shown = []
        · -- a silent batch
          refine ⟨[], ⟨some s', scanner, [], r.done⟩, ?_, .inl ⟨rfl, by rw [hnil]; rfl⟩⟩
          unfold ReplayReader.read
          rw [if_pos hpending, hfill, hnil]
          simp only [List.take_nil, List.drop_nil]
        · obtain ⟨bytes, r', hr', hbytes, hshows, hsplit⟩ := read_pending hfilled hnil hbuf
          refine ⟨bytes, r', (hread.resolve_right hnil).trans hr', .inr ⟨hbytes, _, hshows, ?_⟩⟩
          rw [untilSilent_cons hnil]
          exact hsplit
  · obtain ⟨bytes, r', hread, hbytes, hshows, hsplit⟩ := read_pending h hpending hbuf
    refine ⟨bytes, r', hread, .inr ⟨hbytes, shown, hshows, ?_⟩⟩
    rw [ahead_of_pending hpending]
    exact hsplit

/-- **All reads.** -/
theorem readUntilZero_eq : ∀ {turns : ℕ} {sizes : ℕ → ℕ} {r : ReplayReader} {shown : List Bytes},
    r.Shows bare d shown → (∀ n, 0 < sizes n) → (r.ahead shown).length < turns →
    r.readUntilZero bare d turns sizes = some (.ok (r.ahead shown))
  | 0, _, _, _, _, _, hlt => absurd hlt (Nat.not_lt_zero _)
  | turns + 1, sizes, r, shown, h, hsizes, hlt => by
    obtain ⟨bytes, r', hread, hend⟩ := read_spec h (hsizes 0)
    unfold ReplayReader.readUntilZero
    rw [hread]
    rcases hend with ⟨rfl, hnil⟩ | ⟨hbytes, shown', hshows, hsplit⟩
    · rw [hnil]
      rfl
    · have hpos := List.length_pos_of_ne_nil hbytes
      rw [hsplit, List.length_append] at hlt
      have hrest := @readUntilZero_eq turns (fun n => sizes (n + 1)) r' shown' hshows (fun n => hsizes (n + 1)) (by omega)
      dsimp only
      rw [if_neg hbytes, hrest, hsplit]
      rfl

end Reading

/-! ### The stream at once -/

section Whole

variable {bare : Bool} {d : Dir}

/-- From offset 0 everything is collected. -/
theorem feedFrom_zero : ∀ (rs : List Record) (st : Replay),
    (rs.foldl (Replay.feedFrom bare 0) st).collected =
      st.collected ++ (scanChunks bare st.scanner (outputs rs)).2.filtered
  | [], st => (List.append_nil _).symm
  | r :: rs, st => by
    rw [List.foldl_cons, feedFrom_zero rs, outputs_cons, Replay.feedFrom]
    by_cases hkind : r.kind = .output
    · simp only [if_pos hkind, scanChunks, ScanOut.append, Nat.zero_sub, Nat.zero_min, List.drop_zero]
      by_cases hpos : 0 < satAdd st.filteredPos (st.scanner.scan bare r.payload).2.filtered.length
      · rw [if_pos hpos, List.append_assoc]
      · have hnil : (st.scanner.scan bare r.payload).2.filtered = [] := by
          rw [← List.length_eq_zero_iff]
          unfold satAdd at hpos
          omega
        rw [if_neg hpos, hnil, List.nil_append]
    · rw [if_neg hkind, if_neg hkind]

/-- A replay that takes everything and succeeds found no damage. -/
theorem told_of_replayLoop {feed : Replay → Record → Replay} : ∀ {turns : ℕ} {s : SegmentStream} {st st' : Replay},
    (∀ seg ∈ s.parts, (d.partData seg).isSome) → s.nextSeq + (s.told d).1.length < 2 ^ 64 →
    (s.told d).1.length < turns → replayLoop d feed (fun _ => false) turns s st = .ok st' → (s.told d).2 = none
  | 0, _, _, _, _, _, hlt, _ => absurd hlt (Nat.not_lt_zero _)
  | turns + 1, s, st, st', hparts, hbound, hlt, h => by
    have hpull := SegmentStream.pull_spec hparts hbound replayBatchBytes
    unfold replayLoop at h
    rw [SegmentStream.nextBatch_eq_pull] at h
    generalize s.pull d replayBatchBytes = pulled at hpull h
    cases hpull with
    | failed htold => cases h
    | @batch m s' hle htold hnext hparts' hzero =>
      simp only [Except.map, Bool.false_eq_true, if_false] at h
      by_cases hm : m = 0
      · exact (hzero hm).2
      · by_cases hnil : (s.told d).1.take m = []
        · have htoldNil := (List.take_eq_nil_iff.mp hnil).resolve_left hm
          rw [htoldNil, List.length_nil] at hle
          exact absurd (Nat.le_zero.mp hle) hm
        · rw [if_neg hnil] at h
          have hrest := @told_of_replayLoop feed turns s' _ _ (by rw [hparts']; exact hparts)
            (by rw [hnext, htold, List.length_drop]; omega) (by rw [htold, List.length_drop]; omega) h
          rw [htold] at hrest
          exact hrest

/-- What the batches of the latest incarnation show, one after the other. -/
def shownBatches (bare : Bool) (d : Dir) : List Bytes :=
  match (listIncarnations d).getLast? with
  | none => []
  | some incarnation =>
    match SegmentStream.open d incarnation with
    | .error _ => []
    | .ok s => visible bare .new (batches d ((d.incarnationData incarnation).length + 1) s)

/-- A stream that is given at once is what the batches show, and a new reader has
them ahead. -/
theorem shown_of_filtered {bytes : Bytes} {total : ℕ} (h : filteredStreamFrom bare d 0 = .ok (bytes, total))
    (hsize : ∀ N, (listIncarnations d).getLast? = some N → (d.incarnationData N).length + 1 < 2 ^ 64) :
    bytes = (shownBatches bare d).flatten ∧ ∃ r, ReplayReader.new d = .ok r ∧ r.pending = [] ∧
      (r.Shows bare d (shownBatches bare d) ∨ r.stream = none ∧ r.done = false ∧ shownBatches bare d = []) := by
  unfold filteredStreamFrom at h
  unfold shownBatches ReplayReader.new
  rcases hlatest : (listIncarnations d).getLast? with _ | N
  · rw [hlatest] at h
    cases h
    exact ⟨rfl, _, rfl, rfl, .inr ⟨rfl, rfl, rfl⟩⟩
  · rw [hlatest] at h
    simp only [replayStart_zero, replayAt, streamAt] at h ⊢
    rcases hopen : SegmentStream.open d N with e | s
    · rw [hopen] at h
      cases h
    · rw [hopen] at h
      simp only [Except.map] at h ⊢
      have hpos := SegmentStream.positioned_open hopen
      have hseq : s.nextSeq = 1 := by
        unfold SegmentStream.open at hopen
        rcases hparts : incarnationParts d N with e | parts
        · rw [hparts] at hopen
          cases hopen
        · rw [hparts] at hopen
          cases hopen
          rfl
      have hdata : (d.files N).flatten.length = (d.incarnationData N).length := by
        rw [Dir.incarnationData, List.flatMap_def]
        rfl
      have hlen : (s.told d).1.length ≤ (d.incarnationData N).length :=
        (tell_length.trans hpos.remaining_length).trans_eq hdata
      have hbound : s.nextSeq + (s.told d).1.length < 2 ^ 64 := by
        have := hsize N hlatest
        omega
      rcases hloop : replayLoop d (Replay.feedFrom bare 0) (fun _ => false) ((d.incarnationData N).length + 1) s
          ⟨.new, 0, []⟩ with e | st
      · rw [hloop] at h
        cases h
      · rw [hloop] at h
        cases h
        have htold := told_of_replayLoop hpos.isSome hbound (by omega) hloop
        have hreads : SegmentStream.Reads d s (s.told d).1 := by
          refine ⟨hpos.isSome, ?_, hbound⟩
          rw [streamRecords_eq_tell _ s.partIndex]
          unfold SegmentStream.told at htold
          rw [htold]
          rfl
        obtain ⟨k, hfed, hall⟩ := @replayLoop_spec d (Replay.feedFrom bare 0) (fun _ => false) _ s _ ⟨.new, 0, []⟩
          hreads (Nat.lt_succ_of_le hlen)
        rw [hall.resolve_right Bool.false_ne_true, hloop] at hfed
        cases hfed
        refine ⟨?_, _, rfl, rfl, .inl ⟨rfl, s, _, _, rfl, hreads, Nat.lt_succ_of_le hlen, rfl⟩⟩
        rw [feedFrom_zero, List.nil_append, visible_flatten, batches_flatten hreads (Nat.lt_succ_of_le hlen)]

/-- **The reader and the stream.** Whatever the buffers are, reading until the first
0 ends, with the whole stream exactly if no batch behind a silent one shows
anything. -/
theorem reader_whole_iff {bytes : Bytes} {total : ℕ} (h : filteredStreamFrom bare d 0 = .ok (bytes, total))
    (hsize : ∀ N, (listIncarnations d).getLast? = some N → (d.incarnationData N).length + 1 < 2 ^ 64) :
    ∃ r, ReplayReader.new d = .ok r ∧ ∀ sizes : ℕ → ℕ, (∀ n, 0 < sizes n) → ∀ turns, bytes.length < turns →
      ∃ got, r.readUntilZero bare d turns sizes = some (.ok got) ∧
        (got = bytes ↔ Unbroken (shownBatches bare d)) := by
  obtain ⟨hbytes, r, hnew, hpending, hshows⟩ := shown_of_filtered h hsize
  refine ⟨r, hnew, fun sizes hsizes turns hturns => ?_⟩
  rcases hshows with hshows | ⟨hnone, hdone, hempty⟩
  · have hahead : r.ahead (shownBatches bare d) = untilSilent (shownBatches bare d) := if_pos hpending
    have hle := untilSilent_length_le (shownBatches bare d)
    refine ⟨_, readUntilZero_eq hshows hsizes (by rw [hahead]; rw [hbytes] at hturns; omega), ?_⟩
    rw [hahead, hbytes]
    exact unbroken_iff _
  · rw [hempty] at hbytes ⊢
    refine ⟨[], ?_, iff_of_true hbytes.symm ((unbroken_iff []).mp rfl)⟩
    cases turns with
    | zero => exact absurd hturns (Nat.not_lt_zero _)
    | succ turns =>
      unfold ReplayReader.readUntilZero ReplayReader.read ReplayReader.fill
      rw [if_pos hpending, hdone, hpending, hnone]
      simp

/-- An incarnation of two parts: a record of its life, and behind it output. -/
def quietDir : Dir :=
  ⟨(SortedMap.empty.insert ⟨1, 1⟩ ⟨(⟨.lifecycle, 1, 0, [7]⟩ : Record).encode, []⟩).insert ⟨1, 2⟩
    ⟨(⟨.output, 2, 0, [65]⟩ : Record).encode, []⟩, none⟩

/-- A reader in front of two parts. -/
def quietReader : ReplayReader := ⟨some ⟨[⟨1, 1⟩, ⟨1, 2⟩], 0, 0, 1, false⟩, .new, [], false⟩

/-- The first batch shows nothing, so the first read returns 0. -/
theorem silent_batch_ends_reading :
    filteredStreamFrom false quietDir 0 = .ok ([65], 1) ∧ ReplayReader.new quietDir = .ok quietReader ∧
      quietReader.readUntilZero false quietDir 2 (fun _ => 100) = some (.ok []) := by
  have hopen : SegmentStream.open quietDir 1 = .ok ⟨[⟨1, 1⟩, ⟨1, 2⟩], 0, 0, 1, false⟩ := by decide +kernel
  refine ⟨by decide +kernel, ?_, by decide +kernel⟩
  unfold ReplayReader.new
  rw [show (listIncarnations quietDir).getLast? = some 1 by decide +kernel]
  dsimp only
  rw [hopen]
  rfl

theorem reader_whole_iff_quiet :
    ∃ r, ReplayReader.new quietDir = .ok r ∧ ∀ sizes : ℕ → ℕ, (∀ n, 0 < sizes n) → ∀ turns, [65].length < turns →
      ∃ got, r.readUntilZero false quietDir turns sizes = some (.ok got) ∧
        (got = [65] ↔ Unbroken (shownBatches false quietDir)) := by
  have hwhole : filteredStreamFrom false quietDir 0 = .ok ([65], 1) := by decide +kernel
  refine reader_whole_iff hwhole fun N hN => ?_
  rw [show (listIncarnations quietDir).getLast? = some 1 by decide +kernel] at hN
  cases hN
  decide +kernel

end Whole

end Session
end OpenRelay
