/-
# The filtered tail

`replay_filtered_tail` (`session/logs/render.rs`) gives the last lines of a session's filtered stream. It derives
the stream behind the newest anchor, and if the lines are not in there behind the next older one, and at last from
the journal's start. Each pass reads a journal that may grow while it is read (`Tailing.step`).

What is returned is the window of the last lines of the stream as it was at some moment of the call: where the
window begins doesn't depend on the anchor that it was found behind, so neither does the answer
(`filtered_tail_suffix`).

Key theorems: `known_step`, `PassInv.nextBatch`, `judge_range`, `callInv_step`, `call_returns`.
-/
import OpenRelay.Session.Following
import OpenRelay.Session.Resizes
import OpenRelay.Session.TailWindow
import OpenRelay.Session.Written
import Mathlib.Data.List.Sort

namespace OpenRelay
namespace Session

open Journal Pty

/-! ### The code -/

/-- An anchor with the incarnation of its cursor. -/
structure SeekAnchor where
  incarnation : ℕ
  anchor : CheckpointAnchor
  deriving DecidableEq, Repr

/-- The anchors of the latest incarnation, by their offsets. -/
def replayAnchors (d : Dir) : Except JournalError (List SeekAnchor) :=
  match (listIncarnations d).getLast? with
  | none => .ok []
  | some incarnation =>
    (checkpointAnchors d incarnation).map fun anchors =>
      ((anchors.filter fun anchor => decide (0 < anchor.filteredOffset)).insertionSort
        fun a b => a.filteredOffset ≤ b.filteredOffset).map fun anchor => ⟨incarnation, anchor⟩

/-- A derivation of the stream and the sizes. -/
structure Derivation where
  replay : Replay
  resizes : List LogResize

/-- One record of `derive_stream_and_resizes`. -/
def Derivation.feed (bare : Bool) (fromOffset : ℕ) (st : Derivation) (r : Record) : Derivation :=
  match r.kind with
  | .output => { st with replay := st.replay.feedFrom bare fromOffset r }
  | .resize =>
    match decodeResizePayload r.payload with
    | some (rows, cols) => { st with resizes := st.resizes ++ [⟨st.replay.filteredPos, rows, cols⟩] }
    | none => st
  | _ => st

/-- A pass over the journal, and the offset that it starts at. -/
structure Pass where
  stream : SegmentStream
  derivation : Derivation
  start : ℕ

/-- Where a pass starts: behind the anchor, unless that is of another incarnation. The cursor is 0. -/
def openPass (d : Dir) (incarnation : ℕ) (anchor : Option SeekAnchor) : Except JournalError Pass :=
  (streamAt d incarnation ((anchor.filter fun a => decide (a.incarnation = incarnation)).map SeekAnchor.anchor)).map
    fun opened => ⟨opened.1, ⟨⟨.new, opened.2, []⟩, []⟩, opened.2⟩

/-- The end of a stream, with the sizes of the terminal within it. -/
structure FilteredTail where
  bytes : Bytes
  startOffset : ℕ
  endOffset : ℕ
  resizes : List LogResize
  deriving DecidableEq, Repr

/-- What the call does next. -/
inductive TailPhase where
  | seeking
  | opening (incarnation : ℕ)
  | reading (pass : Pass)
  | returned (result : Except JournalError FilteredTail)

/-- The bytes of the window that was returned. -/
def TailPhase.bytes? : TailPhase → Option Bytes
  | .returned (.ok w) => some w.bytes
  | _ => none

/-- A request for the last lines, under way. -/
structure TailCall where
  anchors : List SeekAnchor
  lines : ℕ
  /-- What is left to start from; the first one is being tried. -/
  starts : List (Option SeekAnchor)
  fallback : Option FilteredTail
  phase : TailPhase

def usizeMax : ℕ := 2 ^ 64 - 1

/-- From the newest anchor to the oldest, and from the journal's start. Without a bound on the lines the whole
prefix is needed. -/
def tailStarts (anchors : List SeekAnchor) (lines : ℕ) : List (Option SeekAnchor) :=
  let seeks :=
    if lines = usizeMax ∨ lines = 0 then anchors.reverse.filter fun a => decide (a.anchor.filteredOffset ≤ 0)
    else anchors.reverse
  seeks.map some ++ [none]

namespace TailCall

variable (c : TailCall)

/-- The request is made: the anchors are known, and nothing is read. -/
def start (anchors : List SeekAnchor) (lines : ℕ) : TailCall := ⟨anchors, lines, tailStarts anchors lines, none, .seeking⟩

def current : Option SeekAnchor := c.starts.head?.join

/-- On to the next start, or out of the loop. -/
def next : TailCall :=
  match c.starts.tail with
  | [] => { c with starts := [], phase := .returned (.ok (c.fallback.getD ⟨[], 0, 0, []⟩)) }
  | s :: starts => { c with starts := s :: starts, phase := .seeking }

/-- The sizes from the newest anchor before the window on, and for 64 MiB behind its beginning. -/
def windowResizes (resizes : List LogResize) (startOffset : ℕ) : List LogResize :=
  let first := ((c.anchors.reverse.find? fun a => decide (a.anchor.filteredOffset ≤ startOffset)).map
    fun a => a.anchor.filteredOffset).getD 0
  resizes.filter fun e => decide (first ≤ e.offset ∧ e.offset ≤ satAdd startOffset maxResizeEventsScanBytes)

/-- A pass has derived this. -/
def judge (bytes : Bytes) (endOffset : ℕ) (resizes : List LogResize) (start : ℕ) : TailCall :=
  let tail := tailWindowBytes bytes c.lines
  if bytes = [] ∧ 0 < start ∧ c.current.isSome then c.next
  else if 0 < tail.startOffset ∨ c.current = none then
    let startOffset := start + tail.startOffset
    let window := ⟨tail.bytes, startOffset, endOffset, c.windowResizes resizes startOffset⟩
    if 0 < tail.startOffset ∨ start = 0 then { c with phase := .returned (.ok window) }
    else { c with fallback := some window }.next
  else c.next

/-- The next look at the directory. -/
def io (bare : Bool) (d : Dir) : TailCall :=
  match c.phase with
  | .seeking =>
    match (listIncarnations d).getLast? with
    | none => c.judge [] 0 [] 0
    | some incarnation => { c with phase := .opening incarnation }
  | .opening incarnation =>
    match openPass d incarnation c.current with
    | .error e => { c with phase := .returned (.error e) }
    | .ok pass => { c with phase := .reading pass }
  | .reading pass =>
    match pass.stream.nextBatch d replayBatchBytes with
    | .error e => { c with phase := .returned (.error e) }
    | .ok (batch, stream) =>
      if batch = [] then
        c.judge pass.derivation.replay.collected pass.derivation.replay.filteredPos pass.derivation.resizes pass.start
      else
        { c with phase := .reading { pass with
            stream := stream
            derivation := batch.foldl (Derivation.feed bare 0) pass.derivation } }
  | .returned _ => c

end TailCall

/-- A call on a live journal, and the directories that there were since it began. -/
structure Tailing where
  live : Live
  moments : List Dir
  call : TailCall

namespace Tailing

/-- What may happen next. -/
inductive Action where
  | live (action : Live.Action)
  | read

/-- A request beside a live journal. -/
def start (l : Live) (anchors : List SeekAnchor) (lines : ℕ) : Tailing := ⟨l, [l.disk], .start anchors lines⟩

def step (bare : Bool) (R : LineReader) (t : Tailing) : Action → Option Tailing
  | .live action => (t.live.step R action).map fun live => { t with live := live, moments := t.moments ++ [live.disk] }
  | .read => some { t with call := t.call.io bare t.live.disk }

end Tailing

/-- The window of the last lines of a stream. -/
structure TailRange (S : Bytes) (lines : ℕ) (t : FilteredTail) : Prop where
  start : t.startOffset = tailStart S lines
  bytes : t.bytes = S.drop t.startOffset
  endOffset : t.endOffset = S.length

/-! ### What a derivation gives -/

section Derived

variable {bare : Bool} {N : ℕ}

theorem Derivation.feed_replay (st : Derivation) (r : Record) :
    (st.feed bare 0 r).replay = st.replay.feedFrom bare 0 r := by
  have hother : r.kind ≠ .output → st.replay.feedFrom bare 0 r = st.replay := fun h => by rw [Replay.feedFrom, if_neg h]
  unfold Derivation.feed
  cases hkind : r.kind with
  | output => rfl
  | resize =>
    rw [hother (fun h => by rw [hkind] at h; cases h)]
    dsimp only
    rcases decodeResizePayload r.payload with _ | ⟨rows, cols⟩
    · rfl
    · rfl
  | lifecycle | checkpointRef | policy => exact (hother (fun h => by rw [hkind] at h; cases h)).symm

theorem Derivation.foldl_replay : ∀ (rs : List Record) (st : Derivation),
    (rs.foldl (Derivation.feed bare 0) st).replay = rs.foldl (Replay.feedFrom bare 0) st.replay
  | [], _ => rfl
  | r :: rs, st => by
    rw [List.foldl_cons, List.foldl_cons, Derivation.foldl_replay rs, Derivation.feed_replay]

/-- Behind a place where the scanner holds nothing the derivation gives the rest of the stream. -/
theorem derived_eq {pre fed : List Record} (hheld : held bare pre = []) (hlt : (stream bare (pre ++ fed)).length < 2 ^ 64) :
    let st := fed.foldl (Derivation.feed bare 0) ⟨⟨.new, (stream bare pre).length, []⟩, []⟩
    st.replay.collected = (stream bare (pre ++ fed)).drop (stream bare pre).length ∧
      st.replay.filteredPos = (stream bare (pre ++ fed)).length := by
  have hstream := (@stream_append bare pre fed hheld).1
  rw [hstream, List.length_append] at hlt
  obtain ⟨hcollected, hpos⟩ := @feedFrom_new bare 0 fed _ hlt
  dsimp only
  rw [Derivation.foldl_replay]
  refine ⟨?_, ?_⟩
  · rw [hcollected, hstream, Nat.zero_sub, List.drop_zero, List.drop_left]
  · rw [hpos, hstream, List.length_append]

end Derived

/-! ### Where a pass stands -/

section Standing

variable {N : ℕ} {d : Dir} {s : SegmentStream} {got : List Record} {files : List Bytes}

theorem Place.congr {s' : SegmentStream} (h : Place files s got) (hindex : s'.partIndex = s.partIndex)
    (hoffset : s'.byteOffset = s.byteOffset) (hnext : s'.nextSeq = s.nextSeq) : Place files s' got := by
  obtain ⟨before, file, after, g, m, hfiles, hstand, hgot⟩ := h
  exact ⟨before, file, after, g, m, hfiles, ⟨hindex.trans hstand.index, hstand.through, hstand.within,
    hoffset.trans hstand.offset, hnext.trans hstand.next⟩, hgot⟩

theorem Place.nextSeq (h : Place files s got) : s.nextSeq = 1 + got.length := by
  obtain ⟨before, file, after, g, m, -, hstand, rfl⟩ := h
  rw [hstand.got_length, hstand.next, Nat.add_assoc]

theorem Place.index_lt (h : Place files s got) : s.partIndex < files.length := by
  obtain ⟨before, file, after, g, m, rfl, hstand, -⟩ := h
  rw [hstand.index, List.length_append, List.length_cons]
  omega

/-- A place in a part is one also without the later parts. -/
theorem Place.take (h : Place files s got) {k : ℕ} (hk : s.partIndex < k) : Place (files.take k) s got := by
  obtain ⟨before, file, after, g, m, rfl, hstand, hgot⟩ := h
  refine ⟨before, file, after.take (k - before.length - 1), g, m, ?_, hstand, hgot⟩
  rw [hstand.index] at hk
  rw [List.take_append, List.take_of_length_le (Nat.le_of_lt hk)]
  obtain ⟨j, hj⟩ : ∃ j, k - before.length = j + 1 := ⟨k - before.length - 1, by omega⟩
  rw [hj, List.take_succ_cons, Nat.add_sub_cancel]

/-- What is told behind a place, in the parts that the reader knows. -/
theorem Place.told (h : Place (d.files N) s got) (hparts : s.parts <+: d.incarnationSegs N)
    (hindex : s.partIndex < s.parts.length) (hdone : s.done = false)
    (hdata : ∀ seg ∈ d.incarnationSegs N, (d.partData seg).isSome)
    (hbound : 1 + (tell 0 1 (d.files N)).1.length < 2 ^ 64) :
    s.told d = ((tell 0 1 ((d.files N).take s.parts.length)).1.drop got.length,
      (tell 0 1 ((d.files N).take s.parts.length)).2) := by
  obtain ⟨seg, hseg⟩ : ∃ seg, s.parts[s.partIndex]? = some seg := ⟨_, List.getElem?_eq_getElem hindex⟩
  obtain ⟨file, hfile⟩ := Option.isSome_iff_exists.mp (hdata seg (hparts.subset (List.mem_of_getElem? hseg)))
  obtain ⟨hat, hrest⟩ := files_of_parts hparts hseg
  obtain ⟨before, file', after, g, m, hfiles, hstand, hgot⟩ := h.take hindex
  have hlen : got.length = g.length + m := by rw [hgot, hstand.got_length]
  -- the part at the place, and the known ones behind it
  have hhere : file' = file := by
    have hget : ((d.files N).take s.parts.length)[s.partIndex]? = some file := by
      rw [List.getElem?_take_of_lt hindex, hat, hfile]
      rfl
    rw [hfiles, hstand.index, List.getElem?_append_right le_rfl, Nat.sub_self] at hget
    exact Option.some.inj hget
  have hafter : ((d.files N).drop (s.partIndex + 1)).take (s.parts.length - (s.partIndex + 1)) = after := by
    rw [← List.drop_take, hfiles, hstand.index, ← List.drop_drop, List.drop_left]
    rfl
  have hshort := (tell_take (d.files N) 0 1 s.parts.length).1.length_le
  have htold := hstand.tell after (by rw [← hfiles]; omega)
  rw [SegmentStream.told, SegmentStream.remaining_part hdone hseg hfile, hrest, hafter, ← hhere, htold, ← hfiles, hlen]

theorem follow_index {result : ScanResult} {s' : SegmentStream} (h : s.follow result = .ok s')
    (hindex : s.partIndex < s.parts.length) : s'.partIndex < s'.parts.length ∧ s'.parts = s.parts := by
  unfold SegmentStream.follow at h
  split at h
  · split_ifs at h with htruncated hroom
    · cases h
      exact ⟨hindex, rfl⟩
    · cases h
      exact ⟨hroom, rfl⟩
    · cases h
      exact ⟨hindex, rfl⟩
  · cases h
    exact ⟨hindex, rfl⟩
  · cases h

theorem pullLoop_index (maxBytes : ℕ) : ∀ (turns : ℕ) {s : SegmentStream}, s.partIndex < s.parts.length →
    (SegmentStream.pullLoop d maxBytes turns s).2.partIndex < s.parts.length
  | 0, _, h => h
  | turns + 1, s, h => by
    unfold SegmentStream.pullLoop
    split_ifs
    · exact h
    rw [List.getElem?_eq_getElem h]
    dsimp only
    rcases d.partData s.parts[s.partIndex] with _ | file
    · exact h
    dsimp only
    rcases hfollow : s.follow (s.scan file maxBytes) with e | s'
    · exact h
    · obtain ⟨hindex, hparts⟩ := follow_index hfollow h
      dsimp only
      split_ifs
      · rw [← hparts]
        exact pullLoop_index maxBytes turns hindex
      · rw [← hparts]
        exact hindex

end Standing

/-! ### What the parts held at some moment -/

section Known

variable {N : ℕ}

/-- The records that the parts hold. -/
def recordsOn (N : ℕ) (d : Dir) : List Record := (tell 0 1 (d.files N)).1

theorem tell_append_empty {empties : List Bytes} (hempty : ∀ file ∈ empties, file = []) : ∀ (files : List Bytes) (i a : ℕ),
    (tell i a (files ++ empties)).1 = (tell i a files).1
  | [], i, a => by
    induction empties generalizing i a with
    | nil => rfl
    | cons file empties ih =>
      rw [hempty file List.mem_cons_self, List.nil_append]
      have hrest := ih (fun file hfile => hempty file (List.mem_cons_of_mem _ hfile)) (i + 1) a
      rw [List.nil_append] at hrest
      rw [@tell_clean i a [] _ [] rfl, List.nil_append]
      exact hrest
  | file :: files, i, a => by
    rw [List.cons_append]
    rcases hp : parseRecords (some a) file with ⟨rs, stop⟩
    by_cases hclean : stop = .cleanEof
    · subst hclean
      rw [tell_clean hp, tell_clean hp, tell_append_empty hempty files]
    by_cases htorn : stop = .partialTail
    · subst htorn
      rw [tell_torn hp, tell_torn hp]
    · rw [tell_corrupt hp hclean htorn, tell_corrupt hp hclean htorn]

/-- The records of the first parts were all of them at one of these moments. -/
def Known (N : ℕ) (moments : List Dir) (rs : List Record) : Prop := ∃ d ∈ moments, recordsOn N d = rs

theorem Known.mono {moments more : List Dir} {rs : List Record} (h : Known N moments rs) : Known N (moments ++ more) rs := by
  obtain ⟨d, hd, hrs⟩ := h
  exact ⟨d, List.mem_append_left more hd, hrs⟩

/-- **A step of the journal.** When the last of the parts grows, that is a moment of the call; and when another one
follows, it is empty at first. -/
theorem known_step {moments : List Dir} {d d' : Dir} {k : ℕ} (hgrown : Grown (d.files N) (d'.files N))
    (hempty : ∀ file ∈ (d'.files N).drop (d.files N).length, file = []) (hk : k ≤ (d.files N).length)
    (h : Known N moments (tell 0 1 ((d.files N).take k)).1) :
    Known N (moments ++ [d']) (tell 0 1 ((d'.files N).take k)).1 := by
  rcases Nat.lt_or_eq_of_le hk with hlt | rfl
  · obtain ⟨full, last, more, rest, hfiles, hfiles'⟩ := hgrown
    rw [hfiles, List.length_append, List.length_singleton] at hlt
    have hle : k ≤ full.length := Nat.le_of_lt_succ hlt
    rw [hfiles, List.take_append_of_le_length hle] at h
    rw [hfiles', List.take_append_of_le_length hle]
    exact h.mono
  · refine ⟨d', List.mem_append_right _ (List.mem_singleton_self d'), ?_⟩
    conv_lhs => rw [recordsOn, ← List.take_append_drop (d.files N).length (d'.files N)]
    exact tell_append_empty hempty _ 0 1

end Known

/-! ### A pass -/

/-- Behind the records `pre`, a pass has derived the stream of the records `fed`. -/
structure PassInv (bare : Bool) (N : ℕ) (moments : List Dir) (d : Dir) (pass : Pass) (pre fed : List Record) : Prop where
  parts : pass.stream.parts <+: d.incarnationSegs N
  index : pass.stream.partIndex < pass.stream.parts.length
  place : Place (d.files N) pass.stream (pre ++ fed)
  known : Known N moments (tell 0 1 ((d.files N).take pass.stream.parts.length)).1
  ended : pass.stream.done = true → Known N moments (pre ++ fed)
  held : held bare pre = []
  start : pass.start = (stream bare pre).length
  derived : pass.derivation = fed.foldl (Derivation.feed bare 0) ⟨⟨.new, (stream bare pre).length, []⟩, []⟩

section Passes

variable {R : LineReader} {bare : Bool} {N : ℕ} {base : Dir} {l l' : Live} {moments : List Dir} {pass : Pass}
  {pre fed : List Record}

/-- The journal takes a step. -/
theorem PassInv.grown (h : PassInv bare N moments l.disk pass pre fed) (hlive : LiveInv N base l) {action : Live.Action}
    (hstep : l.step R action = some l') : PassInv bare N (moments ++ [l'.disk]) l'.disk pass pre fed := by
  obtain ⟨hgrown, hsegs⟩ := grown_step hlive hstep
  have hk : pass.stream.parts.length ≤ (l.disk.files N).length := by
    rw [Dir.files, List.length_map]
    exact h.parts.length_le
  exact
    { parts := h.parts.trans hsegs
      index := h.index
      place := h.place.grown hgrown
      known := known_step hgrown (created_step hlive hstep) hk h.known
      ended := fun hdone => (h.ended hdone).mono
      held := h.held
      start := h.start
      derived := h.derived }

/-- **A batch.** The pass goes on behind it; and if it is empty, the pass has had all the records that there were at
some moment. -/
theorem PassInv.nextBatch (h : PassInv bare N moments l.disk pass pre fed) (hlive : LiveInv N base l) :
    ∃ batch s, pass.stream.nextBatch l.disk replayBatchBytes = .ok (batch, s) ∧
      (batch = [] → Known N moments (pre ++ fed)) ∧
      PassInv bare N moments l.disk
        { pass with stream := s, derivation := batch.foldl (Derivation.feed bare 0) pass.derivation } pre (fed ++ batch) := by
  obtain ⟨hclean, hbound, -, -, hdata⟩ := tell_live hlive
  obtain ⟨batch, s, hpull, hplace, hparts⟩ := Place.pullLoop hclean hbound hdata replayBatchBytes
    (pass.stream.parts.length - pass.stream.partIndex + 2) h.place h.parts
  have hindex := @pullLoop_index l.disk replayBatchBytes (pass.stream.parts.length - pass.stream.partIndex + 2) _ h.index
  have hpull' : pass.stream.pull l.disk replayBatchBytes = (.ok batch, s) := hpull
  rw [hpull] at hindex
  have hnext : pass.stream.nextBatch l.disk replayBatchBytes = .ok (batch, s) := by
    rw [SegmentStream.nextBatch_eq_pull, hpull']
    rfl
  -- what the pass has had when it ends
  have hends : (batch = [] → Known N moments (pre ++ fed)) ∧ (s.done = true → Known N moments (pre ++ (fed ++ batch))) := by
    by_cases hdone : pass.stream.done = true
    · have hknown := h.ended hdone
      have hnil : batch = [] := by
        rw [SegmentStream.pullLoop, if_pos hdone] at hpull
        cases hpull
        rfl
      rw [hnil, List.append_nil]
      exact ⟨fun _ => hknown, fun _ => hknown⟩
    · have htold := h.place.told h.parts h.index (eq_false_of_ne_true hdone) hdata hbound
      obtain ⟨shown, hshown⟩ := (h.place.take h.index).begins
      rw [← hshown, List.drop_left] at htold
      have hlen : (pre ++ fed ++ shown).length ≤ (tell 0 1 (l.disk.files N)).1.length := by
        rw [hshown]
        exact (tell_take (l.disk.files N) 0 1 pass.stream.parts.length).1.length_le
      have hpulled := SegmentStream.pull_spec (fun seg hseg => hdata seg (h.parts.subset hseg))
        (by
        rw [htold, h.place.nextSeq]
        rw [List.length_append] at hlen
        dsimp only
        omega) replayBatchBytes
      rw [hpull'] at hpulled
      have hknown := h.known
      rw [← hshown] at hknown
      generalize hout : (Except.ok batch : Except JournalError (List Record)) = out at hpulled
      cases hpulled with
      | @batch m s hle htold' _ _ hzero =>
        cases hout
        rw [htold] at htold' hzero ⊢
        refine ⟨fun hnil => ?_, fun hdone' => ?_⟩
        · have hnone : shown = [] := (List.take_eq_nil_iff.mp hnil).elim (fun hm => (hzero hm).1) id
          rw [hnone, List.append_nil] at hknown
          exact hknown
        · rw [SegmentStream.told_done hdone'] at htold'
          have hall : shown.drop m = [] := (congrArg Prod.fst htold').symm
          have htake : shown.take m = shown := by
            conv_rhs => rw [← List.take_append_drop m shown, hall, List.append_nil]
          rw [htake, ← List.append_assoc]
          exact hknown
      | failed => cases hout
  refine ⟨batch, s, hnext, hends.1, ?_⟩
  exact
    { parts := by rw [hparts]; exact h.parts
      index := by rw [hparts]; exact hindex
      place := by rw [← List.append_assoc]; exact hplace
      known := by rw [hparts]; exact h.known
      ended := hends.2
      held := h.held
      start := h.start
      derived := by rw [List.foldl_append, ← h.derived] }

end Passes

/-! ### Where a pass starts -/

/-- The anchor is one of the incarnation, behind records whose stream has its length and leaves the scanner nothing
to hold. -/
def AnchorPlace (bare : Bool) (N : ℕ) (files : List Bytes) (a : SeekAnchor) : Prop :=
  a.incarnation = N ∧ 0 < a.anchor.part ∧ ∃ pre,
    Place files ⟨[], a.anchor.part - 1, a.anchor.recordEndOffset, a.anchor.seq + 1, false⟩ pre ∧
      a.anchor.filteredOffset = (stream bare pre).length ∧ held bare pre = []

section Starts

variable {bare : Bool} {N : ℕ} {base d : Dir} {l : Live} {moments : List Dir} {files files' : List Bytes} {a : SeekAnchor}
  {groups : List (List Record)} {current : List Record} {torn : Bytes}

theorem AnchorPlace.grown (h : AnchorPlace bare N files a) (hgrown : Grown files files') : AnchorPlace bare N files' a := by
  obtain ⟨hincarnation, hpart, pre, hplace, hoffset, hheld⟩ := h
  exact ⟨hincarnation, hpart, pre, hplace.grown hgrown, hoffset, hheld⟩

theorem readThrough_encode : ∀ {groups : List (List Record)} {a : ℕ}, (∀ r ∈ groups.flatten, r.Fits) →
    Numbered a groups.flatten → a + groups.flatten.length ≤ 2 ^ 64 → ReadThrough a (groups.map encodeAll) groups.flatten
  | [], a, _, _, _ => .nil a
  | group :: groups, a, hfits, hnum, hlt => by
    rw [List.flatten_cons] at hfits hnum hlt
    rw [List.length_append] at hlt
    obtain ⟨hgroup, hgroups⟩ := numbered_append.mp hnum
    have hparse := parseRecords_encodeAll (t := []) rfl (fun r hr => hfits r (List.mem_append_left _ hr)) hgroup (by omega)
      fun _ => .inl rfl
    rw [List.append_nil] at hparse
    exact .cons hparse (readThrough_encode (fun r hr => hfits r (List.mem_append_right _ hr)) hgroups (by omega))

/-- **An anchor of the journal**, if its checkpoints are anchored. -/
theorem anchorPlace_of_holds (h : Holds d N groups current torn) (ha : Anchored bare (groups.flatten ++ current))
    {anchor : CheckpointAnchor} (hmem : anchor ∈ partAnchors 1 (groups ++ [current])) (hpos : 0 < anchor.filteredOffset) :
    AnchorPlace bare N (d.files N) ⟨N, anchor⟩ := by
  obtain ⟨gs1, pre, r, post, gs2, hgroups, hkind, hoff, hseq, hpart, hend⟩ := mem_partAnchors hmem
  have hrecords : groups.flatten ++ current = (gs1.flatten ++ pre) ++ r :: (post ++ gs2.flatten) := by
    have := congrArg List.flatten hgroups
    simpa using this
  obtain ⟨hlen, hheld⟩ := ha _ r _ hrecords hkind _ hoff hpos
  obtain ⟨hstream, hpending⟩ := @stream_snoc_other bare (gs1.flatten ++ pre) r (by rw [hkind]; nofun)
  have hfits := h.fits
  have hnum := h.numbered
  have hbound := h.bound
  have hsplit : groups.flatten ++ current = gs1.flatten ++ ((pre ++ r :: post) ++ gs2.flatten) := by
    rw [hrecords]
    simp
  rw [hsplit] at hfits hnum hbound
  obtain ⟨hnum1, hnum2⟩ := numbered_append.mp hnum
  obtain ⟨hnumPart, -⟩ := numbered_append.mp hnum2
  simp only [List.length_append] at hbound
  have hrseq : r.seq = 1 + gs1.flatten.length + pre.length := (numbered_cons.mp (numbered_append.mp hnumPart).2).1
  -- the part of the checkpoint, and what stands behind its records
  obtain ⟨file, after, hfiles, hparse⟩ : ∃ file after, d.files N = gs1.map encodeAll ++ file :: after ∧
      (parseRecords (some (1 + gs1.flatten.length)) file).1 = pre ++ r :: post := by
    have hfitsPart : ∀ r' ∈ pre ++ r :: post, r'.Fits := fun r' hr' =>
      hfits r' (List.mem_append_right _ (List.mem_append_left _ hr'))
    have hdir : d.files N = partFiles groups current torn := h.data
    rcases List.eq_nil_or_concat gs2 with rfl | ⟨gs2, last, rfl⟩
    · obtain ⟨rfl, hc⟩ := List.append_inj' hgroups rfl
      cases hc
      refine ⟨encodeAll (pre ++ r :: post) ++ torn, [], hdir, ?_⟩
      rw [parseRecords_encodeAll (readRecord_tornAt h.torn) hfitsPart hnumPart (by simp at hbound ⊢; omega) fun _ => .inl rfl]
    · rw [List.concat_eq_append] at hgroups
      rw [← List.cons_append, ← List.append_assoc] at hgroups
      obtain ⟨rfl, -⟩ := List.append_inj' hgroups rfl
      refine ⟨encodeAll (pre ++ r :: post), gs2.map encodeAll ++ [encodeAll current ++ torn], ?_, ?_⟩
      · rw [hdir, partFiles]
        simp
      · have hclean := parseRecords_encodeAll (t := []) rfl hfitsPart hnumPart (by simp at hbound ⊢; omega) fun _ => .inl rfl
        rw [List.append_nil] at hclean
        rw [hclean]
  have htake : (pre ++ r :: post).take (pre.length + 1) = pre ++ [r] := by
    rw [List.take_append, List.take_of_length_le (Nat.le_succ _), Nat.add_sub_cancel_left]
    rfl
  refine ⟨rfl, by rw [hpart]; omega, gs1.flatten ++ (pre ++ [r]), ⟨gs1.map encodeAll, file, after, gs1.flatten,
    pre.length + 1, hfiles, ⟨?_, ?_, ?_, ?_, ?_⟩, by rw [hparse, htake]⟩, ?_, ?_⟩
  · show anchor.part - 1 = _
    rw [hpart, List.length_map, Nat.add_sub_cancel_left]
  · exact readThrough_encode (fun r' hr' => hfits r' (List.mem_append_left _ hr')) hnum1 (by omega)
  · rw [hparse, List.length_append, List.length_cons]
    omega
  · show anchor.recordEndOffset = _
    rw [hparse, htake, hend]
  · show anchor.seq + 1 = _
    rw [hseq, hrseq, Nat.add_assoc]
  · rw [← List.append_assoc, hstream]
    exact hlen
  · rw [← List.append_assoc, hpending]
    exact hheld

/-- A stream that is opened at a place. -/
theorem openAt_eq (hlive : LiveInv N base l) (hpart : 0 < a.anchor.part)
    (hindex : a.anchor.part - 1 < (l.disk.files N).length) :
    SegmentStream.openAt l.disk N a.anchor =
      .ok ⟨l.disk.incarnationSegs N, a.anchor.part - 1, a.anchor.recordEndOffset, a.anchor.seq + 1, false⟩ := by
  obtain ⟨-, -, -, hlist, -⟩ := tell_live hlive
  obtain ⟨img, himg⟩ := image_live hlive
  have hfind : (l.disk.incarnationSegs N).findIdx? (fun seg => seg.part = a.anchor.part) = some (a.anchor.part - 1) := by
    rw [himg.files] at hindex
    rw [himg.segs, List.findIdx?_eq_some_iff_getElem]
    refine ⟨by simpa using hindex, by simp; omega, fun j hj => ?_⟩
    simp
    omega
  rw [SegmentStream.openAt, hlist]
  simp only [hfind]

/-- **A pass starts** where its anchor is, or at the journal's start. -/
theorem openPass_inv (hlive : LiveInv N base l) (hnow : l.disk ∈ moments) {anchor : Option SeekAnchor}
    (hanchor : ∀ a ∈ anchor, AnchorPlace bare N (l.disk.files N) a) :
    ∃ pass pre, openPass l.disk N anchor = .ok pass ∧ PassInv bare N moments l.disk pass pre [] ∧
      (anchor = none → pre = []) := by
  obtain ⟨-, -, -, hlist, -⟩ := tell_live hlive
  have hlen : (l.disk.incarnationSegs N).length = (l.disk.files N).length := (List.length_map _).symm
  have hknown : Known N moments (tell 0 1 ((l.disk.files N).take (l.disk.incarnationSegs N).length)).1 := by
    rw [hlen, List.take_length]
    exact ⟨l.disk, hnow, rfl⟩
  cases anchor with
  | none =>
    have hopen : SegmentStream.open l.disk N = .ok ⟨l.disk.incarnationSegs N, 0, 0, 1, false⟩ := by
      rw [SegmentStream.open, hlist]
    have hplace := place_open hopen
    refine ⟨⟨⟨l.disk.incarnationSegs N, 0, 0, 1, false⟩, ⟨⟨.new, 0, []⟩, []⟩, 0⟩, [], ?_, ?_, fun _ => rfl⟩
    · show (Except.map _ (SegmentStream.open l.disk N)).map _ = _
      rw [hopen]
      rfl
    · exact
        { parts := List.prefix_rfl
          index := by rw [hlen]; exact hplace.index_lt
          place := hplace
          known := hknown
          ended := fun h => by cases h
          held := rfl
          start := rfl
          derived := rfl }
  | some a =>
    obtain ⟨hincarnation, hpart, pre, hplace, hoffset, hheld⟩ := hanchor a rfl
    have hopen := openAt_eq hlive hpart hplace.index_lt
    refine ⟨⟨⟨l.disk.incarnationSegs N, a.anchor.part - 1, a.anchor.recordEndOffset, a.anchor.seq + 1, false⟩,
      ⟨⟨.new, a.anchor.filteredOffset, []⟩, []⟩, a.anchor.filteredOffset⟩, pre, ?_, ?_, fun h => by cases h⟩
    · have hkept : (some a).filter (fun a => decide (a.incarnation = N)) = some a := by
        simp [hincarnation]
      unfold openPass
      rw [hkept]
      show (Except.map _ (SegmentStream.openAt l.disk N a.anchor)).map _ = _
      rw [hopen]
      rfl
    · exact
        { parts := List.prefix_rfl
          index := by rw [hlen]; exact hplace.index_lt
          place := by rw [List.append_nil]; exact hplace.congr rfl rfl rfl
          known := hknown
          ended := fun h => by cases h
          held := hheld
          start := hoffset
          derived := by rw [hoffset]; rfl }

end Starts

/-! ### What is made of a pass -/

section Judging

variable {c : TailCall} {seeks : List SeekAnchor} {S : Bytes} {start : ℕ}

theorem current_seek {a : SeekAnchor} (h : c.starts = (a :: seeks).map some ++ [none]) : c.current = some a := by
  rw [TailCall.current, h]
  rfl

theorem current_origin (h : c.starts = [none]) : c.current = none := by
  rw [TailCall.current, h]
  rfl

/-- On to the next older anchor, or to the journal's start. -/
theorem next_seek {a : SeekAnchor} (h : c.starts = (a :: seeks).map some ++ [none]) :
    c.next = { c with starts := seeks.map some ++ [none], phase := .seeking } := by
  have htail : c.starts.tail = seeks.map some ++ [none] := by
    rw [h]
    rfl
  obtain ⟨s, starts, hcons⟩ := List.exists_cons_of_ne_nil (show seeks.map some ++ [none] ≠ [] by simp)
  rw [TailCall.next, htail, hcons]

/-- **A pass is judged.** Its stream has the window, or there is an older start. -/
theorem judge_range (hstarts : c.starts = seeks.map some ++ [none]) (hle : start ≤ S.length)
    (hnone : c.current = none → start = 0) (resizes : List LogResize) :
    (∃ w, c.judge (S.drop start) S.length resizes start = { c with phase := .returned (.ok w) } ∧ TailRange S c.lines w) ∨
    ∃ a older, seeks = a :: older ∧ c.judge (S.drop start) S.length resizes start =
      { c with starts := older.map some ++ [none], phase := .seeking } := by
  have hbytes := tailWindow_bytes (S.drop start) c.lines
  cases seeks with
  | nil =>
    have hcurrent := current_origin hstarts
    obtain rfl := hnone hcurrent
    rw [List.drop_zero] at hbytes ⊢
    refine .inl ⟨⟨(tailWindowBytes S c.lines).bytes, 0 + tailStart S c.lines, S.length,
      c.windowResizes resizes (0 + tailStart S c.lines)⟩, ?_, ?_⟩
    · unfold TailCall.judge
      dsimp only
      rw [if_neg (fun h => Nat.lt_irrefl 0 h.2.1), if_pos (.inr hcurrent), if_pos (.inr rfl)]
      rfl
    · refine ⟨Nat.zero_add _, ?_, rfl⟩
      rw [hbytes, Nat.zero_add]
  | cons a older =>
    have hcurrent := current_seek hstarts
    have hnext := next_seek hstarts
    by_cases hfound : 0 < tailStart (S.drop start) c.lines
    · have hne : S.drop start ≠ [] := fun hnil => by
        rw [hnil, tailStart_nil] at hfound
        exact Nat.lt_irrefl 0 hfound
      refine .inl ⟨⟨(tailWindowBytes (S.drop start) c.lines).bytes, start + tailStart (S.drop start) c.lines, S.length,
        c.windowResizes resizes (start + tailStart (S.drop start) c.lines)⟩, ?_, ?_⟩
      · unfold TailCall.judge
        dsimp only
        rw [if_neg (fun h => hne h.1), if_pos (.inl hfound), if_pos (.inl hfound)]
        rfl
      · refine ⟨(tailWindow_suffix hle hfound).symm, ?_, rfl⟩
        rw [hbytes, List.drop_drop]
    · refine .inr ⟨a, older, rfl, ?_⟩
      rw [← hnext]
      unfold TailCall.judge
      dsimp only
      split_ifs with hempty haccepted
      · rfl
      · rcases haccepted with hpos | hnil
        · exact absurd hpos hfound
        · rw [hcurrent] at hnil
          cases hnil
      · rcases haccepted with hpos | hnil
        · exact absurd hpos hfound
        · rw [hcurrent] at hnil
          cases hnil
      · rfl

end Judging

/-! ### A call -/

/-- A directory of the journal while it is written: it reads, and its stream can be counted. -/
structure Moment (bare : Bool) (N : ℕ) (d : Dir) : Prop where
  reads : ∀ budgets, readIncarnation d N budgets = .ok (recordsOn N d)
  counted : (stream bare (recordsOn N d)).length < 2 ^ 64

/-- What the starts are that are left: anchors, and the journal's start. -/
def Seeks (bare : Bool) (N : ℕ) (d : Dir) (c : TailCall) : Prop :=
  ∃ seeks : List SeekAnchor, c.starts = seeks.map some ++ [none] ∧ ∀ a ∈ seeks, AnchorPlace bare N (d.files N) a

/-- Where a call stands. -/
def PhaseInv (bare : Bool) (N : ℕ) (moments : List Dir) (d : Dir) (c : TailCall) : Prop :=
  match c.phase with
  | .seeking => Seeks bare N d c
  | .opening incarnation => incarnation = N ∧ Seeks bare N d c
  | .reading pass => Seeks bare N d c ∧ ∃ pre fed, PassInv bare N moments d pass pre fed ∧ (c.current = none → pre = [])
  | .returned result => ∃ d ∈ moments, ∃ w, result = .ok w ∧ TailRange (stream bare (recordsOn N d)) c.lines w

/-- The invariant of a call on a live journal. -/
structure CallInv (bare : Bool) (N : ℕ) (base : Dir) (t : Tailing) : Prop where
  live : LiveInv N base t.live
  now : t.live.disk ∈ t.moments
  moments : ∀ d ∈ t.moments, Moment bare N d
  phase : PhaseInv bare N t.moments t.live.disk t.call

/-- What a session records: the anchors are right, and the stream can be counted. -/
structure Sound (bare : Bool) (rs : List Record) : Prop where
  anchored : Anchored bare rs
  counted : (stream bare rs).length < 2 ^ 64

/-- How much of the call is left, with `total` records on disk. -/
def TailCall.left (total : ℕ) (c : TailCall) : ℕ :=
  c.starts.length * (total + 4) +
    match c.phase with
    | .seeking => total + 3
    | .opening _ => total + 2
    | .reading pass => total + 2 - pass.stream.nextSeq
    | .returned _ => 0

section Calls

variable {R : LineReader} {bare : Bool} {N : ℕ} {base : Dir} {l l' : Live} {t t' : Tailing} {moments : List Dir}
  {c : TailCall}

theorem Sound.of_prefix {rs rs' : List Record} (h : Sound bare rs') (hpre : rs <+: rs') : Sound bare rs :=
  ⟨h.anchored.of_prefix hpre, (stream_mono hpre).length_le.trans_lt h.counted⟩

theorem moment_live (h : LiveInv N base l) (hsound : Sound bare (l.journal.published.map OrderedEvent.record)) :
    Moment bare N l.disk := by
  obtain ⟨groups, current, torn, hholds, hpre⟩ := holds_live h
  have hrecords : recordsOn N l.disk = groups.flatten ++ current := by rw [recordsOn, tell_holds hholds]
  refine ⟨?_, ?_⟩
  · rw [hrecords]
    exact Holds.readIncarnation_eq hholds
  · rw [hrecords]
    exact (hsound.of_prefix hpre).counted

theorem Seeks.grown {d d' : Dir} (h : Seeks bare N d c) (hgrown : Grown (d.files N) (d'.files N)) : Seeks bare N d' c := by
  obtain ⟨seeks, hstarts, hplaces⟩ := h
  exact ⟨seeks, hstarts, fun a ha => (hplaces a ha).grown hgrown⟩

/-- The start that is being tried. -/
theorem Seeks.current {d : Dir} (h : Seeks bare N d c) : ∀ a ∈ c.current, AnchorPlace bare N (d.files N) a := by
  obtain ⟨seeks, hstarts, hplaces⟩ := h
  intro a ha
  cases seeks with
  | nil =>
    rw [current_origin hstarts] at ha
    cases ha
  | cons newest older =>
    rw [current_seek hstarts] at ha
    cases ha
    exact hplaces _ List.mem_cons_self

/-- The journal takes a step. -/
theorem PhaseInv.grown (h : PhaseInv bare N moments l.disk c) (hlive : LiveInv N base l) {action : Live.Action}
    (hstep : l.step R action = some l') : PhaseInv bare N (moments ++ [l'.disk]) l'.disk c := by
  obtain ⟨hgrown, -⟩ := grown_step hlive hstep
  unfold PhaseInv at h ⊢
  cases hphase : c.phase with
  | seeking =>
    rw [hphase] at h
    exact h.grown hgrown
  | opening incarnation =>
    rw [hphase] at h
    exact ⟨h.1, h.2.grown hgrown⟩
  | reading pass =>
    rw [hphase] at h
    obtain ⟨hseeks, pre, fed, hpass, hnone⟩ := h
    exact ⟨hseeks.grown hgrown, pre, fed, hpass.grown hlive hstep, hnone⟩
  | returned result =>
    rw [hphase] at h
    obtain ⟨d, hd, w, hresult, hrange⟩ := h
    exact ⟨d, List.mem_append_left _ hd, w, hresult, hrange⟩

/-- What a pass has derived that has had all the records there were at some moment. -/
theorem PassInv.derived_known {d : Dir} {pass : Pass} {pre fed : List Record} (h : PassInv bare N moments d pass pre fed)
    {d' : Dir} (hrecords : recordsOn N d' = pre ++ fed) (hmoment : Moment bare N d') :
    pass.start ≤ (stream bare (recordsOn N d')).length ∧
      pass.derivation.replay.collected = (stream bare (recordsOn N d')).drop pass.start ∧
      pass.derivation.replay.filteredPos = (stream bare (recordsOn N d')).length := by
  have hcounted := hmoment.counted
  rw [hrecords] at hcounted ⊢
  obtain ⟨hcollected, hpos⟩ := derived_eq h.held hcounted
  rw [h.derived, h.start]
  exact ⟨(stream_mono (List.prefix_append pre fed)).length_le, hcollected, hpos⟩

/-- **A look at the directory.** It keeps the invariant, and there is less left to do. -/
theorem callInv_read (h : CallInv bare N base t) (hbase : ∀ seg ∈ base.listSegments, seg.incarnation ≤ N) :
    PhaseInv bare N t.moments t.live.disk (t.call.io bare t.live.disk) ∧
      ((∃ result, t.call.phase = .returned result) ∨
        (t.call.io bare t.live.disk).left (recordsOn N t.live.disk).length <
          t.call.left (recordsOn N t.live.disk).length) := by
  have hphase := h.phase
  unfold PhaseInv at hphase
  unfold TailCall.io
  cases hp : t.call.phase with
  | seeking =>
    rw [hp] at hphase
    rw [latest_live h.live hbase]
    refine ⟨⟨rfl, hphase⟩, .inr ?_⟩
    rw [TailCall.left, TailCall.left, hp]
    dsimp only
    omega
  | opening incarnation =>
    rw [hp] at hphase
    obtain ⟨rfl, hseeks⟩ := hphase
    obtain ⟨pass, pre, hopen, hpass, hnone⟩ := openPass_inv h.live h.now hseeks.current
    dsimp only
    rw [hopen]
    refine ⟨⟨hseeks, pre, [], hpass, hnone⟩, .inr ?_⟩
    have hnext := hpass.place.nextSeq
    rw [TailCall.left, TailCall.left, hp]
    dsimp only
    omega
  | reading pass =>
    rw [hp] at hphase
    obtain ⟨⟨seeks, hstarts, hplaces⟩, pre, fed, hpass, hnone⟩ := hphase
    obtain ⟨batch, s, hbatch, hknown, hpass'⟩ := hpass.nextBatch h.live
    have hnext := hpass.place.nextSeq
    have hgot := hpass'.place.begins.length_le
    rw [List.length_append, List.length_append] at hgot
    rw [List.length_append] at hnext
    have hleft : t.call.left (recordsOn N t.live.disk).length =
        t.call.starts.length * ((recordsOn N t.live.disk).length + 4) +
          ((recordsOn N t.live.disk).length + 2 - pass.stream.nextSeq) := by
      rw [TailCall.left, hp]
    rw [hleft]
    dsimp only
    rw [hbatch]
    dsimp only
    by_cases hnil : batch = []
    · rw [if_pos hnil]
      obtain ⟨d, hd, hrecords⟩ := hknown hnil
      obtain ⟨hle, hcollected, hpos⟩ := hpass.derived_known hrecords (h.moments d hd)
      have horigin : t.call.current = none → pass.start = 0 := fun hcurrent => by
        rw [hpass.start, hnone hcurrent]
        rfl
      rw [hcollected, hpos]
      rcases judge_range hstarts hle horigin pass.derivation.resizes with ⟨w, hjudge, hrange⟩ | ⟨a, older, rfl, hjudge⟩
      · rw [hjudge]
        refine ⟨⟨d, hd, w, rfl, hrange⟩, .inr ?_⟩
        rw [TailCall.left]
        dsimp only
        unfold recordsOn at *
        omega
      · rw [hjudge]
        refine ⟨⟨older, rfl, fun b hb => hplaces b (List.mem_cons_of_mem a hb)⟩, .inr ?_⟩
        rw [TailCall.left, hstarts]
        dsimp only
        rw [List.map_cons, List.cons_append, List.length_cons, Nat.succ_mul]
        unfold recordsOn at *
        omega
    · rw [if_neg hnil]
      refine ⟨⟨⟨seeks, hstarts, hplaces⟩, pre, fed ++ batch, hpass', hnone⟩, .inr ?_⟩
      have hnext' := hpass'.place.nextSeq
      have hpos := List.length_pos_of_ne_nil hnil
      rw [List.length_append, List.length_append] at hnext'
      rw [TailCall.left]
      dsimp only at hnext' ⊢
      unfold recordsOn at *
      omega
  | returned result =>
    rw [hp] at hphase
    refine ⟨?_, .inl ⟨result, rfl⟩⟩
    unfold PhaseInv
    rw [hp]
    exact hphase

/-- **A step of the journal or of the call.** -/
theorem callInv_step {action : Tailing.Action} (hbase : ∀ seg ∈ base.listSegments, seg.incarnation ≤ N)
    (h : CallInv bare N base t) (hsound : Sound bare (t'.live.journal.published.map OrderedEvent.record))
    (hstep : t.step bare R action = some t') : CallInv bare N base t' := by
  cases action with
  | live action =>
    obtain ⟨l', hl, rfl⟩ := Option.map_eq_some_iff.mp hstep
    have hlive := liveInv_step hbase h.live hl
    refine ⟨hlive, List.mem_append_right _ (List.mem_singleton_self _), fun d hd => ?_, h.phase.grown h.live hl⟩
    rcases List.mem_append.mp hd with hd | hd
    · exact h.moments d hd
    · rw [List.mem_singleton.mp hd]
      exact moment_live hlive hsound
  | read =>
    cases hstep
    exact ⟨h.live, h.now, h.moments, (callInv_read h hbase).1⟩

/-- The journal's records are those of later on. -/
theorem published_step {action : Tailing.Action} (h : LiveInv N base t.live) (hstep : t.step bare R action = some t') :
    t.live.journal.published <+: t'.live.journal.published := by
  cases action with
  | live action =>
    obtain ⟨l', hl, rfl⟩ := Option.map_eq_some_iff.mp hstep
    exact (onward_step h hl).published
  | read =>
    cases hstep
    exact List.prefix_rfl

end Calls

/-! ### Whole calls -/

/-- An anchor that `checkpointAnchors` finds. -/
def ValidAnchor (d : Dir) (N : ℕ) (a : SeekAnchor) : Prop :=
  a.incarnation = N ∧ 0 < a.anchor.filteredOffset ∧ ∃ anchors, checkpointAnchors d N = .ok anchors ∧ a.anchor ∈ anchors

/-- The records are of a session that was spawned on the journal. -/
def SessionRecords (bare : Bool) (R : LineReader) (opened : Live) (rs : List Record) : Prop :=
  ∃ rows cols pid geometry started s₀ as s,
    LiveSession.spawn R opened rows cols pid geometry started = some s₀ ∧
    Runs.run (LiveSession.step bare R) s₀ as = some s ∧ rs <+: s.rt.records

section Calls

variable {R : LineReader} {bare : Bool} {N : ℕ} {base : Dir} {l : Live} {t u : Tailing} {anchors : List SeekAnchor}
  {lines : ℕ}

theorem SessionRecords.sound {maxPartBytes : ℕ} {disk : Dir} {rs : List Record}
    (h : SessionRecords bare R (Live.opened N maxPartBytes disk) rs) : Sound bare rs := by
  obtain ⟨rows, cols, pid, geometry, started, s₀, as, s, hspawn, hrun, hpre⟩ := h
  have hsynced := (streamInv_run hspawn hrun).synced
  exact Sound.of_prefix ⟨hsynced.anchored, hsynced.counted.trans_lt hsynced.bound⟩ hpre

/-- The anchors that a call looks up are valid. -/
theorem replayAnchors_valid {d : Dir} (hlatest : (listIncarnations d).getLast? = some N) :
    ∀ a ∈ (replayAnchors d).toOption.getD [], ValidAnchor d N a := by
  rw [replayAnchors, hlatest]
  dsimp only
  rcases hfound : checkpointAnchors d N with e | found
  · nofun
  · intro a ha
    obtain ⟨anchor, hanchor, rfl⟩ := List.mem_map.mp ha
    rw [List.mem_insertionSort, List.mem_filter] at hanchor
    exact ⟨rfl, of_decide_eq_true hanchor.2, found, hfound, hanchor.1⟩

theorem anchorPlace_of_valid (h : LiveInv N base l) (hsound : Sound bare (l.journal.published.map OrderedEvent.record))
    {a : SeekAnchor} (hvalid : ValidAnchor l.disk N a) : AnchorPlace bare N (l.disk.files N) a := by
  obtain ⟨groups, current, torn, hholds, hpre⟩ := holds_live h
  obtain ⟨rfl, hpos, found, hfound, hmem⟩ := hvalid
  rw [hholds.checkpointAnchors_eq] at hfound
  cases hfound
  exact anchorPlace_of_holds hholds (hsound.anchored.of_prefix hpre) hmem hpos

/-- The starts are the anchors, or some of them, and the journal's start. -/
theorem tailStarts_eq (anchors : List SeekAnchor) (lines : ℕ) :
    ∃ seeks : List SeekAnchor, tailStarts anchors lines = seeks.map some ++ [none] ∧ ∀ a ∈ seeks, a ∈ anchors := by
  unfold tailStarts
  refine ⟨_, rfl, fun a ha => ?_⟩
  split_ifs at ha
  · exact List.mem_reverse.mp (List.mem_filter.mp ha).1
  · exact List.mem_reverse.mp ha

theorem callInv_start (h : LiveInv N base l) (hsound : Sound bare (l.journal.published.map OrderedEvent.record))
    (hvalid : ∀ a ∈ anchors, ValidAnchor l.disk N a) (lines : ℕ) : CallInv bare N base (.start l anchors lines) := by
  obtain ⟨seeks, hstarts, hseeks⟩ := tailStarts_eq anchors lines
  refine ⟨h, List.mem_singleton_self _, fun d hd => ?_, seeks, hstarts, fun a ha => ?_⟩
  · rw [List.mem_singleton.mp hd]
    exact moment_live h hsound
  · exact anchorPlace_of_valid h hsound (hvalid a (hseeks a ha))

theorem next_lines (c : TailCall) : c.next.lines = c.lines := by
  unfold TailCall.next
  rcases c.starts.tail with _ | ⟨s, starts⟩
  · rfl
  · rfl

theorem judge_lines (c : TailCall) (bytes : Bytes) (endOffset : ℕ) (resizes : List LogResize) (start : ℕ) :
    (c.judge bytes endOffset resizes start).lines = c.lines := by
  unfold TailCall.judge
  dsimp only
  split_ifs
  · exact next_lines c
  · rfl
  · exact next_lines _
  · exact next_lines c

theorem io_lines (c : TailCall) (d : Dir) : (c.io bare d).lines = c.lines := by
  unfold TailCall.io
  rcases c.phase with _ | incarnation | pass | result
  · dsimp only
    split
    · exact judge_lines c _ _ _ _
    · rfl
  · dsimp only
    split
    · rfl
    · rfl
  · dsimp only
    split
    · rfl
    · split_ifs
      · exact judge_lines c _ _ _ _
      · rfl
  · rfl

theorem step_lines {action : Tailing.Action} (hstep : t.step bare R action = some u) : u.call.lines = t.call.lines := by
  cases action with
  | live action =>
    obtain ⟨l', -, rfl⟩ := Option.map_eq_some_iff.mp hstep
    rfl
  | read =>
    cases hstep
    exact io_lines _ _

/-- The journal goes on. -/
theorem live_run (hbase : ∀ seg ∈ base.listSegments, seg.incarnation ≤ N) (h : LiveInv N base t.live)
    {actions : List Tailing.Action} (hrun : Runs.run (Tailing.step bare R) t actions = some u) :
    LiveInv N base u.live ∧ t.live.journal.published <+: u.live.journal.published := by
  refine Runs.run_invariant (I := fun u : Tailing => LiveInv N base u.live ∧
    t.live.journal.published <+: u.live.journal.published) ?_ hrun ⟨h, List.prefix_rfl⟩
  rintro u action u' ⟨hlive, hpre⟩ hstep
  refine ⟨?_, hpre.trans (published_step hlive hstep)⟩
  cases action with
  | live action =>
    obtain ⟨l', hl, rfl⟩ := Option.map_eq_some_iff.mp hstep
    exact liveInv_step hbase hlive hl
  | read =>
    cases hstep
    exact hlive

/-- **A call on a journal that is written.** -/
theorem callInv_run (hbase : ∀ seg ∈ base.listSegments, seg.incarnation ≤ N) (h : LiveInv N base l)
    (hvalid : ∀ a ∈ anchors, ValidAnchor l.disk N a) {actions : List Tailing.Action}
    (hrun : Runs.run (Tailing.step bare R) (.start l anchors lines) actions = some t)
    (hsound : Sound bare (t.live.journal.published.map OrderedEvent.record)) :
    CallInv bare N base t ∧ t.call.lines = lines := by
  have hlines : t.call.lines = lines :=
    Runs.run_invariant (I := fun t : Tailing => t.call.lines = lines) (fun h hstep => (step_lines hstep).trans h) hrun rfl
  have hkept : LiveInv N base t.live ∧
      (Sound bare (t.live.journal.published.map OrderedEvent.record) → CallInv bare N base t) := by
    refine Runs.run_invariant (I := fun t : Tailing => LiveInv N base t.live ∧
      (Sound bare (t.live.journal.published.map OrderedEvent.record) → CallInv bare N base t)) ?_ hrun
      ⟨h, fun hsound => callInv_start h hsound hvalid lines⟩
    rintro t action t' ⟨hlive, hinv⟩ hstep
    have hpre := (published_step hlive hstep).map OrderedEvent.record
    refine ⟨?_, fun hsound => callInv_step hbase (hinv (hsound.of_prefix hpre)) hsound hstep⟩
    cases action with
    | live action =>
      obtain ⟨l', hl, rfl⟩ := Option.map_eq_some_iff.mp hstep
      exact liveInv_step hbase hlive hl
    | read =>
      cases hstep
      exact hlive
  exact ⟨hkept.2 hsound, hlines⟩

/-- **A call returns**, whenever the journal is left alone for long enough. -/
theorem call_returns (hbase : ∀ seg ∈ base.listSegments, seg.incarnation ≤ N) (h : CallInv bare N base t) :
    ∃ n u, Runs.run (Tailing.step bare R) t (List.replicate n .read) = some u ∧ ∃ result, u.call.phase = .returned result := by
  have hread : ∀ {u : Tailing}, CallInv bare N base u → (∃ result, u.call.phase = .returned result) ∨
      ∃ v, u.step bare R .read = some v ∧ CallInv bare N base v ∧
        v.call.left (recordsOn N v.live.disk).length < u.call.left (recordsOn N u.live.disk).length := by
    intro u hu
    obtain ⟨hphase, hdone | hless⟩ := callInv_read hu hbase
    · exact .inl hdone
    · exact .inr ⟨_, rfl, ⟨hu.live, hu.now, hu.moments, hphase⟩, hless⟩
  obtain ⟨n, u, hrun, -, hdone⟩ := Runs.run_decreasing _ hread h
  exact ⟨n, u, hrun, hdone⟩

/-- A call alone looks at one directory. -/
theorem moments_reads : ∀ {n : ℕ} {t u : Tailing}, Runs.run (Tailing.step bare R) t (List.replicate n .read) = some u →
    u.moments = t.moments ∧ u.live = t.live
  | 0, _, _, h => by
    cases h
    exact ⟨rfl, rfl⟩
  | n + 1, t, u, h => by
    obtain ⟨m, hm, hu⟩ := Runs.run_cons h
    cases hm
    have hrest := moments_reads hu
    exact hrest

theorem TailRange.start_le {S : Bytes} {w : FilteredTail} (h : TailRange S lines w) : w.startOffset ≤ S.length := by
  rw [h.start]
  exact tailStart_le S lines

/-- The window has the lines, or it is the whole stream. -/
theorem TailRange.enough {S : Bytes} {w : FilteredTail} (h : TailRange S lines w) :
    lines ≤ w.bytes.count lineFeed ∨ w.startOffset = 0 := by
  rcases Nat.eq_zero_or_pos w.startOffset with hzero | hpos
  · exact .inr hzero
  · rw [h.start] at hpos
    have hcount := tailWindow_lines hpos
    rw [← h.start, ← h.bytes] at hcount
    exact .inl hcount

/-- What a call has returned. -/
theorem returned_range (h : CallInv bare N base t) (hlines : t.call.lines = lines) {result : Except JournalError FilteredTail}
    (hresult : t.call.phase = .returned result) :
    ∃ w, result = .ok w ∧ ∃ d ∈ t.moments, ∃ rs, (∀ budgets, readIncarnation d N budgets = .ok rs) ∧
      TailRange (stream bare rs) lines w := by
  have hphase := h.phase
  unfold PhaseInv at hphase
  rw [hresult] at hphase
  obtain ⟨d, hd, w, rfl, hrange⟩ := hphase
  rw [hlines] at hrange
  exact ⟨w, rfl, d, hd, recordsOn N d, (h.moments d hd).reads, hrange⟩

end Calls

/-- **The filtered tail is a suffix.** A call was begun on a journal with some of its anchors; the journal has gone on
since, with a session's records. If it has returned, then a window of the stream as it was at some moment of the call:
from the offset to the end, and either with the lines or from the beginning on. It does return. And if nothing was
written, neither the window nor its place depend on the anchors. -/
theorem filtered_tail_suffix {R : LineReader} {bare : Bool} {d₀ : Dir} {es : List Effect} {j : OpenedJournal}
    (hopen : (openJournal R).run d₀ = (es, .ok j)) {maxPartBytes : ℕ} {before : List Live.Action} {l : Live}
    (hbefore : Runs.run (Live.step R) (Live.opened j.incarnation maxPartBytes (applyEffects es d₀)) before = some l)
    {anchors : List SeekAnchor} (hvalid : ∀ a ∈ anchors, ValidAnchor l.disk j.incarnation a) {lines : ℕ}
    {actions : List Tailing.Action} {t : Tailing}
    (hrun : Runs.run (Tailing.step bare R) (.start l anchors lines) actions = some t)
    (hrecords : SessionRecords bare R (Live.opened j.incarnation maxPartBytes (applyEffects es d₀))
      (t.live.journal.published.map OrderedEvent.record)) :
    (∀ a ∈ (replayAnchors l.disk).toOption.getD [], ValidAnchor l.disk j.incarnation a) ∧
    (∀ result, t.call.phase = .returned result → ∃ w, result = .ok w ∧ ∃ d ∈ t.moments, ∃ rs,
      (∀ budgets, readIncarnation d j.incarnation budgets = .ok rs) ∧
      w.startOffset ≤ (stream bare rs).length ∧ w.endOffset = (stream bare rs).length ∧
      w.bytes = (stream bare rs).drop w.startOffset ∧ (lines ≤ w.bytes.count lineFeed ∨ w.startOffset = 0)) ∧
    (∃ n u, Runs.run (Tailing.step bare R) t (List.replicate n .read) = some u ∧ ∃ result, u.call.phase = .returned result) ∧
    ∀ others : List SeekAnchor, (∀ a ∈ others, ValidAnchor l.disk j.incarnation a) → ∀ n m u v w x,
      Runs.run (Tailing.step bare R) (.start l anchors lines) (List.replicate n .read) = some u →
      u.call.phase = .returned (.ok w) →
      Runs.run (Tailing.step bare R) (.start l others lines) (List.replicate m .read) = some v →
      v.call.phase = .returned (.ok x) →
      w.bytes = x.bytes ∧ w.startOffset = x.startOffset ∧ w.endOffset = x.endOffset := by
  have hbase := le_of_open hopen
  have hlive := (liveInv_of_open hopen maxPartBytes).run hbase hbefore
  have hsound := hrecords.sound
  obtain ⟨hinv, hlines⟩ := callInv_run hbase hlive hvalid hrun hsound
  have hpre := (live_run hbase hlive hrun).2.map OrderedEvent.record
  refine ⟨replayAnchors_valid (latest_live hlive hbase), fun result hresult => ?_, call_returns hbase hinv, ?_⟩
  · obtain ⟨w, hw, d, hd, rs, hreads, hrange⟩ := returned_range hinv hlines hresult
    exact ⟨w, hw, d, hd, rs, hreads, hrange.start_le, hrange.endOffset, hrange.bytes, hrange.enough⟩
  -- with the journal left alone there is one directory to look at
  have halone : ∀ {chosen : List SeekAnchor} {n : ℕ} {u : Tailing} {w : FilteredTail},
      (∀ a ∈ chosen, ValidAnchor l.disk j.incarnation a) →
      Runs.run (Tailing.step bare R) (.start l chosen lines) (List.replicate n .read) = some u →
      u.call.phase = .returned (.ok w) → TailRange (stream bare (recordsOn j.incarnation l.disk)) lines w := by
    intro chosen n u w hvalid hrun hresult
    obtain ⟨hmoments, hsame⟩ := moments_reads hrun
    obtain ⟨hinv, hlines⟩ := callInv_run hbase hlive hvalid hrun (by rw [hsame]; exact hsound.of_prefix hpre)
    have hphase := hinv.phase
    unfold PhaseInv at hphase
    rw [hresult, hmoments, hlines] at hphase
    obtain ⟨d, hd, w', hw, hrange⟩ := hphase
    cases hw
    rw [List.mem_singleton.mp hd] at hrange
    exact hrange
  intro others hothers n m u v w x hu hw hv hx
  have hfirst := halone hvalid hu hw
  have hother := halone hothers hv hx
  have hstart : w.startOffset = x.startOffset := by rw [hfirst.start, hother.start]
  exact ⟨by rw [hfirst.bytes, hother.bytes, hstart], hstart, by rw [hfirst.endOffset, hother.endOffset]⟩

/-- A session reads a little, its output ends, and the child exits. -/
def tailedSession : Option LiveSession :=
  (LiveSession.spawn exactReader (Live.opened 1 4096 (applyEffects [.createPart ⟨1, 1⟩, .syncDir] Dir.empty)) 24 80 [55]
    .quiet .quiet).bind fun s₀ => Runs.run (LiveSession.step false exactReader) s₀
      (helloRun ++ [.hangup [], .close ⟨24, 80, (0, 0), false, false, false, [], []⟩ .quiet .quiet .quiet,
        .refresh .quiet (.exited 0)])

def tailedRecords : List Record := tailedSession.elim [] fun s => s.rt.records

def writeOne : List Live.Action := [.journal .receive, .journal .effect, .journal .effect, .journal .finish]

/-- All but the last of the records are written. -/
def tailedBefore : List Live.Action :=
  (tailedRecords.take 6).map (fun r => .journal (.record r.kind r.payload 0)) ++ (List.replicate 6 writeOne).flatten

/-- The call has found nothing behind the only anchor when the last record comes. -/
def tailedCall : List Tailing.Action :=
  List.replicate 3 .read ++
    ((tailedRecords.drop 6).map (fun r => .live (.journal (.record r.kind r.payload 0))) ++ writeOne.map .live) ++
    List.replicate 4 .read

set_option maxRecDepth 20000 in
theorem tailed_steps : ∃ l t w,
    Runs.run (Live.step exactReader) (Live.opened 1 4096 (applyEffects [.createPart ⟨1, 1⟩, .syncDir] Dir.empty))
      tailedBefore = some l ∧
    Runs.run (Tailing.step false exactReader) (.start l [⟨1, ⟨6, 1, 363, 2⟩⟩] 3) tailedCall = some t ∧
    replayAnchors l.disk = .ok [⟨1, ⟨6, 1, 363, 2⟩⟩] ∧ t.live.journal.published.map OrderedEvent.record = tailedRecords ∧
    t.call.phase = .returned (.ok w) ∧ w.bytes = [104, 105] := by
  have hrun : ((Runs.run (Live.step exactReader)
      (Live.opened 1 4096 (applyEffects [.createPart ⟨1, 1⟩, .syncDir] Dir.empty)) tailedBefore).bind fun l =>
        (Runs.run (Tailing.step false exactReader) (.start l [⟨1, ⟨6, 1, 363, 2⟩⟩] 3) tailedCall).map fun t => (l, t)).any
      (fun p => decide ((replayAnchors p.1.disk).toOption = some [⟨1, ⟨6, 1, 363, 2⟩⟩] ∧
          p.2.live.journal.published.map OrderedEvent.record = tailedRecords ∧
            p.2.call.phase.bytes? = some [104, 105])) = true := by
    decide +kernel
  obtain ⟨⟨l, t⟩, hlt, hp⟩ := (Option.any_eq_true _ _).mp hrun
  obtain ⟨l', hl, ht⟩ := Option.bind_eq_some_iff.mp hlt
  obtain ⟨t', ht', hpair⟩ := Option.map_eq_some_iff.mp ht
  cases hpair
  obtain ⟨hanchors, hrecords, hphase⟩ := decide_eq_true_iff.mp hp
  rcases hcall : t.call.phase with _ | _ | _ | e | w
  · rw [hcall] at hphase
    cases hphase
  · rw [hcall] at hphase
    cases hphase
  · rw [hcall] at hphase
    cases hphase
  · rw [hcall] at hphase
    cases hphase
  · rw [hcall] at hphase
    refine ⟨l, t, w, hl, ht', ?_, hrecords, hcall, Option.some.inj hphase⟩
    rcases hfound : replayAnchors l.disk with e | anchors
    · rw [hfound] at hanchors
      cases hanchors
    · rw [hfound] at hanchors
      cases hanchors
      rfl

set_option maxRecDepth 20000 in
theorem tailed_session : SessionRecords false exactReader
    (Live.opened 1 4096 (applyEffects [.createPart ⟨1, 1⟩, .syncDir] Dir.empty)) tailedRecords := by
  have hsome : tailedSession.isSome = true := by decide +kernel
  obtain ⟨s, hs⟩ := Option.isSome_iff_exists.mp hsome
  have hrecords : tailedRecords = s.rt.records := by rw [tailedRecords, hs, Option.elim_some]
  rw [tailedSession] at hs
  obtain ⟨s₀, hs₀, hrun⟩ := Option.bind_eq_some_iff.mp hs
  exact ⟨_, _, _, _, _, s₀, _, s, hs₀, hrun, by rw [hrecords]⟩

theorem filtered_tail_suffix_grown : ∃ (t : Tailing) (w : FilteredTail), t.call.phase = .returned (.ok w) ∧
    w.bytes = [104, 105] ∧ ∃ d ∈ t.moments, ∃ rs, (∀ budgets, readIncarnation d 1 budgets = .ok rs) ∧
      w.endOffset = (stream false rs).length ∧ w.bytes = (stream false rs).drop w.startOffset := by
  obtain ⟨l, t, w, hl, ht, hanchors, hrecords, hphase, hbytes⟩ := tailed_steps
  have hlatest := latest_live ((liveInv_of_open open_empty 4096).run (le_of_open open_empty) hl) (le_of_open open_empty)
  have hvalid := replayAnchors_valid hlatest
  rw [hanchors] at hvalid
  obtain ⟨-, hreturned, -⟩ := filtered_tail_suffix open_empty hl hvalid ht (by rw [hrecords]; exact tailed_session)
  obtain ⟨w', hw, d, hd, rs, hreads, -, hend, hsuffix, -⟩ := hreturned _ hphase
  cases hw
  exact ⟨t, w, hphase, hbytes, d, hd, rs, hreads, hend, hsuffix⟩

end Session
end OpenRelay
