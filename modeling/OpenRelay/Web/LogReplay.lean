/-
# The replay of a log

The player writes the chunks of a log to a terminal, in batches or up to a chunk that is sought, and resizes the
terminal where the log says (`web/src/utils/log-replay.ts`). Writes are gathered up to 32 KiB. Resizes that have
come due are looked for before the first chunk and behind each piece of a chunk that is taken
(`appendLogChunkRange`), so a resize that is due inside a piece comes at its end.

The log is told symbol by symbol in `byteByByte`. The player tells the same however it is played if and only if
no resize is due strictly inside a chunk (`batch_independent_iff`).

Key theorems: `takeChunk_told`, `told_append`.
-/
import OpenRelay.Lib.Marks

namespace OpenRelay
namespace Web
namespace LogReplay

open Streams

/-! ### The code -/

/-- A chunk of a log. -/
abbrev LogReplayChunk := List UInt8

/-- A size, and the offset of the log from which it holds. -/
structure LogResizeEvent where
  offset : ℕ
  rows : ℕ
  cols : ℕ
  deriving DecidableEq, Repr

/-- What the terminal is told. -/
inductive Op where
  | reset
  | write (data : LogReplayChunk)
  | resize (cols rows : ℕ)
  | scrollToBottom
  deriving DecidableEq, Repr

/-- How far a log has been played. -/
structure LogReplayState where
  bytesWritten : ℕ
  nextResizeIndex : ℕ
  chunkCount : ℕ
  chunkOffset : ℕ
  deriving DecidableEq, Repr

def MAX_PENDING_WRITE_BYTES : ℕ := 32 * 1024

/-- Nothing has been played. -/
def initialLogReplayState : LogReplayState := ⟨0, 0, 0, 0⟩

/-- Writes that are gathered. -/
structure PendingWrite where
  chunks : List LogReplayChunk
  byteLength : ℕ
  deriving DecidableEq, Repr

/-- The terminal's side and the state of a call on its way. -/
structure Play where
  ops : List Op
  state : LogReplayState
  pendingWrite : PendingWrite
  deriving DecidableEq, Repr

/-- One chunk is written as it is, several as one array. -/
def flushPendingWrite (p : Play) : Play :=
  if p.pendingWrite.byteLength = 0 then p
  else { p with ops := p.ops ++ [.write p.pendingWrite.chunks.flatten], pendingWrite := ⟨[], 0⟩ }

def Play.resize (p : Play) (resize : LogResizeEvent) : Play :=
  { p with
    ops := p.ops ++ [.resize resize.cols resize.rows]
    state := { p.state with nextResizeIndex := p.state.nextResizeIndex + 1 } }

/-- The loop of `applyPendingResizes`, with `flush` before each resize. -/
def resizeLoop (flush : Play → Play) : List LogResizeEvent → Play → Play
  | [], p => p
  | resize :: resizes, p =>
    if resize.offset > p.state.bytesWritten then p else resizeLoop flush resizes ((flush p).resize resize)

def applyPendingResizes (resizes : List LogResizeEvent) (p : Play) : Play :=
  resizeLoop id (resizes.drop p.state.nextResizeIndex) p

/-- Resizes that are due are applied, behind what is gathered. -/
def applyPendingResizesWithFlush (resizes : List LogResizeEvent) (p : Play) : Play :=
  resizeLoop flushPendingWrite (resizes.drop p.state.nextResizeIndex) p

/-- How much of the chunk may be added. Without `maxBytes` all of it. -/
def bytesToTake (maxBytes : Option ℕ) (bytesAdded remainingInChunk : ℕ) : ℕ :=
  match maxBytes with
  | none => remainingInChunk
  | some maxBytes => min remainingInChunk (maxBytes - bytesAdded)

/-- A turn of the loop over the chunks, behind its check: what is added to the pending write. -/
def chunkToAdd (p : Play) (fullChunk : LogReplayChunk) (bytesToTake : ℕ) : LogReplayChunk :=
  if p.state.chunkOffset = 0 ∧ bytesToTake = fullChunk.length then fullChunk
  else (fullChunk.drop p.state.chunkOffset).take bytesToTake

def takeChunk (resizes : List LogResizeEvent) (fullChunk : LogReplayChunk) (bytesToTake : ℕ) (p : Play) : Play :=
  let added := chunkToAdd p fullChunk bytesToTake
  let finished := decide (p.state.chunkOffset + bytesToTake ≥ fullChunk.length)
  let next : LogReplayState :=
    { p.state with
      bytesWritten := p.state.bytesWritten + added.length
      chunkCount := if finished then p.state.chunkCount + 1 else p.state.chunkCount
      chunkOffset := if finished then 0 else p.state.chunkOffset + bytesToTake }
  let pendingWrite := ⟨p.pendingWrite.chunks ++ [added], p.pendingWrite.byteLength + added.length⟩
  let p : Play := { p with state := next, pendingWrite }
  applyPendingResizesWithFlush resizes
    (if p.pendingWrite.byteLength ≥ MAX_PENDING_WRITE_BYTES then flushPendingWrite p else p)

/-- The loop over the chunks of the range. -/
def chunkLoop (resizes : List LogResizeEvent) (maxBytes : Option ℕ) : List LogReplayChunk → ℕ → Play → Play
  | [], _, p => p
  | fullChunk :: chunks, bytesAdded, p =>
    if maxBytes.any fun maxBytes => decide (bytesAdded ≥ maxBytes) then p
    else
      let take := bytesToTake maxBytes bytesAdded (fullChunk.length - p.state.chunkOffset)
      chunkLoop resizes maxBytes chunks (bytesAdded + (chunkToAdd p fullChunk take).length)
        (takeChunk resizes fullChunk take p)

/-- The terminal and the state between two calls. -/
structure Player where
  ops : List Op
  state : LogReplayState
  deriving DecidableEq, Repr

/-- Chunks are played one after another, up to a number of bytes if one is given. -/
def appendLogChunkRange (chunks : List LogReplayChunk) (resizes : List LogResizeEvent) (m : Player)
    (startChunk endChunk : ℕ) (maxBytes : Option ℕ) : Player :=
  let safeStart := min startChunk chunks.length
  let safeEnd := max safeStart (min endChunk chunks.length)
  let next := if m.state.chunkCount ≠ safeStart then { m.state with chunkCount := safeStart, chunkOffset := 0 } else m.state
  let p := applyPendingResizesWithFlush resizes ⟨m.ops, next, ⟨[], 0⟩⟩
  let p := chunkLoop resizes maxBytes ((chunks.drop safeStart).take (safeEnd - safeStart)) 0 p
  let p := applyPendingResizes resizes (flushPendingWrite p)
  ⟨p.ops, p.state⟩

/-- A chunk count of a caller, clamped. -/
def safeChunkCount (chunks : List LogReplayChunk) (chunkCount : ℤ) : ℕ := (max 0 (min chunkCount chunks.length)).toNat

/-- The terminal shows its last line, if that is asked for. -/
def scrolled (m : Player) (scrollToBottom : Bool) : Player :=
  if scrollToBottom then { m with ops := m.ops ++ [.scrollToBottom] } else m

def replayLogChunks (chunks : List LogReplayChunk) (resizes : List LogResizeEvent) (m : Player) (chunkCount : ℤ)
    (scrollToBottom : Bool) : Player :=
  scrolled
    (appendLogChunkRange chunks resizes ⟨m.ops ++ [.reset], initialLogReplayState⟩ 0 (safeChunkCount chunks chunkCount) none)
    scrollToBottom

/-- The player goes to a chunk: on from where it is, or from the start if the chunk lies behind. -/
def seekLogChunks (chunks : List LogReplayChunk) (resizes : List LogResizeEvent) (m : Player) (chunkCount : ℤ)
    (scrollToBottom : Bool) : Player :=
  if safeChunkCount chunks chunkCount ≤ m.state.chunkCount then
    replayLogChunks chunks resizes m (safeChunkCount chunks chunkCount) scrollToBottom
  else
    scrolled (appendLogChunkRange chunks resizes m m.state.chunkCount (safeChunkCount chunks chunkCount) none) scrollToBottom

/-- The player goes on by so many bytes. -/
def playNextBatch (chunks : List LogReplayChunk) (resizes : List LogResizeEvent) (m : Player) (maxBytes : ℕ) : Player :=
  appendLogChunkRange chunks resizes m m.state.chunkCount chunks.length (some maxBytes)

/-- What a page asks of the player. -/
inductive Action where
  | seek (chunkCount : ℤ) (scrollToBottom : Bool)
  | play (maxBytes : ℕ)
  deriving DecidableEq, Repr

/-- Nothing has been played. -/
def Player.start : Player := ⟨[], initialLogReplayState⟩

def Player.act (chunks : List LogReplayChunk) (resizes : List LogResizeEvent) (m : Player) : Action → Player
  | .seek chunkCount scrollToBottom => seekLogChunks chunks resizes m chunkCount scrollToBottom
  | .play maxBytes => playNextBatch chunks resizes m maxBytes

/-- What it does when it is asked for several things. -/
def Player.run (chunks : List LogReplayChunk) (resizes : List LogResizeEvent) : List Action → Player :=
  List.foldl (Player.act chunks resizes) .start

/-! ### What the terminal is told -/

/-- A byte, or a resize to columns and rows. -/
abbrev Symbol := UInt8 ⊕ ℕ × ℕ

/-- A reset begins the telling anew; scrolling tells nothing. The terminal keeps its size at a reset, but a session's
log begins with a resize at offset 0, which is told again. -/
def Op.tell (told : List Symbol) : Op → List Symbol
  | .reset => []
  | .write data => told ++ data.map .inl
  | .resize cols rows => told ++ [.inr (cols, rows)]
  | .scrollToBottom => told

/-- What the terminal has been told. -/
def tell (ops : List Op) : List Symbol := ops.foldl Op.tell []

def LogResizeEvent.size (resize : LogResizeEvent) : ℕ × ℕ := (resize.cols, resize.rows)

/-- The stream up to a position, with each resize as its offset is reached. -/
def byteByByte (chunks : List LogReplayChunk) (resizes : List LogResizeEvent) (position : ℕ) : List Symbol :=
  Marks.merged LogResizeEvent.offset LogResizeEvent.size chunks.flatten resizes position

/-- However it is played, the terminal is told the stream byte by byte. -/
def BatchIndependent (chunks : List LogReplayChunk) (resizes : List LogResizeEvent) : Prop :=
  ∀ actions ≠ [],
    let m := Player.run chunks resizes actions
    tell m.ops = byteByByte chunks resizes m.state.bytesWritten

/-- No resize is due strictly inside a chunk. -/
def Aligned (chunks : List LogReplayChunk) (resizes : List LogResizeEvent) : Prop :=
  ∀ i < resizes.length, ∀ pre chunk post, chunks = pre ++ chunk :: post →
    ¬(pre.flatten.length < Marks.dueAt LogResizeEvent.offset resizes i ∧
      Marks.dueAt LogResizeEvent.offset resizes i < pre.flatten.length + chunk.length)

/-! ### A call on its way -/

section Play

variable {chunks : List LogReplayChunk} {resizes : List LogResizeEvent} {p : Play}

@[simp] theorem tell_snoc (ops : List Op) (op : Op) : tell (ops ++ [op]) = op.tell (tell ops) := by
  rw [tell, List.foldl_append]
  rfl

/-- What the terminal is told with the pending write. -/
def Play.told (p : Play) : List Symbol := tell p.ops ++ p.pendingWrite.chunks.flatten.map .inl

def PendingWrite.Sound (w : PendingWrite) : Prop := w.byteLength = w.chunks.flatten.length

def sizes (resizes : List LogResizeEvent) : List Symbol := resizes.map fun resize => .inr resize.size

/-- How many resizes are due. -/
def reached (resizes : List LogResizeEvent) (position : ℕ) : ℕ := Marks.reached LogResizeEvent.offset resizes position

theorem flush_told (h : p.pendingWrite.Sound) :
    (flushPendingWrite p).told = p.told ∧ (flushPendingWrite p).state = p.state ∧
      (flushPendingWrite p).pendingWrite.Sound ∧ (flushPendingWrite p).pendingWrite.byteLength = 0 := by
  unfold flushPendingWrite
  by_cases hnone : p.pendingWrite.byteLength = 0
  · rw [if_pos hnone]
    exact ⟨rfl, rfl, h, hnone⟩
  · rw [if_neg hnone]
    refine ⟨?_, rfl, rfl, rfl⟩
    unfold Play.told
    rw [tell_snoc]
    exact List.append_nil _

theorem PendingWrite.Sound.nil (h : p.pendingWrite.Sound) (hnone : p.pendingWrite.byteLength = 0) : p.told = tell p.ops := by
  have hflat : p.pendingWrite.chunks.flatten = [] := List.eq_nil_of_length_eq_zero (h.symm.trans hnone)
  rw [Play.told, hflat, List.map_nil, List.append_nil]

/-- The loop over the resizes takes those that are due. -/
theorem resizeLoop_told : ∀ {due : List LogResizeEvent} {p : Play}, p.pendingWrite.Sound →
    (resizeLoop flushPendingWrite due p).told =
        p.told ++ sizes (due.takeWhile fun resize => decide (resize.offset ≤ p.state.bytesWritten)) ∧
      (resizeLoop flushPendingWrite due p).state =
        { p.state with
          nextResizeIndex := p.state.nextResizeIndex +
            (due.takeWhile fun resize => decide (resize.offset ≤ p.state.bytesWritten)).length } ∧
      (resizeLoop flushPendingWrite due p).pendingWrite.Sound
  | [], p, h => ⟨(List.append_nil _).symm, rfl, h⟩
  | resize :: due, p, h => by
    unfold resizeLoop
    by_cases hlate : resize.offset > p.state.bytesWritten
    · rw [if_pos hlate, List.takeWhile_cons_of_neg (by simpa using hlate)]
      exact ⟨(List.append_nil _).symm, rfl, h⟩
    rw [if_neg hlate, List.takeWhile_cons_of_pos (by simpa using hlate)]
    obtain ⟨htold, hstate, hsound, hnone⟩ := flush_told h
    have hresized : ((flushPendingWrite p).resize resize).told = p.told ++ [.inr resize.size] := by
      have hbefore := hsound.nil hnone
      have hafter := @PendingWrite.Sound.nil ((flushPendingWrite p).resize resize) hsound hnone
      rw [hafter, ← htold, hbefore]
      exact tell_snoc _ _
    obtain ⟨hih, hihState, hihSound⟩ := @resizeLoop_told due ((flushPendingWrite p).resize resize) hsound
    have hwritten : ((flushPendingWrite p).resize resize).state.bytesWritten = p.state.bytesWritten := by
      show (flushPendingWrite p).state.bytesWritten = _
      rw [hstate]
    rw [hwritten] at hih hihState
    refine ⟨?_, ?_, hihSound⟩
    · rw [hih, hresized, List.append_assoc]
      rfl
    · rw [hihState]
      show ({ (flushPendingWrite p).state with nextResizeIndex := (flushPendingWrite p).state.nextResizeIndex + 1 + _ } :
        LogReplayState) = _
      rw [hstate, List.length_cons, Nat.add_assoc, Nat.add_comm 1]

/-- All resizes that have come due are applied. -/
theorem applyPendingResizesWithFlush_told (h : p.pendingWrite.Sound)
    (hindex : p.state.nextResizeIndex ≤ reached resizes p.state.bytesWritten) :
    (applyPendingResizesWithFlush resizes p).told =
        p.told ++ sizes (slice resizes p.state.nextResizeIndex (reached resizes p.state.bytesWritten)) ∧
      (applyPendingResizesWithFlush resizes p).state =
        { p.state with nextResizeIndex := reached resizes p.state.bytesWritten } ∧
      (applyPendingResizesWithFlush resizes p).pendingWrite.Sound := by
  obtain ⟨htold, hstate, hsound⟩ := @resizeLoop_told (resizes.drop p.state.nextResizeIndex) p h
  have hdue := @Marks.takeWhile_drop _ LogResizeEvent.offset p.state.bytesWritten resizes _ hindex
  have hlength : (slice resizes p.state.nextResizeIndex (reached resizes p.state.bytesWritten)).length =
      reached resizes p.state.bytesWritten - p.state.nextResizeIndex := slice_length_of_le Marks.reached_le_length
  rw [hdue] at htold hstate
  refine ⟨htold, hstate.trans ?_, hsound⟩
  rw [show Marks.reached LogResizeEvent.offset resizes p.state.bytesWritten = reached resizes p.state.bytesWritten from rfl,
    hlength, Nat.add_sub_cancel' hindex]

/-- Where a call is in the chunks. -/
structure Standing (chunks : List LogReplayChunk) (s : LogReplayState) : Prop where
  count_le : s.chunkCount ≤ chunks.length
  written : s.bytesWritten = (chunks.take s.chunkCount).flatten.length + s.chunkOffset
  inside : s.chunkOffset = 0 ∨ ∃ chunk, chunks[s.chunkCount]? = some chunk ∧ s.chunkOffset < chunk.length

theorem Standing.offset_le {s : LogReplayState} (h : Standing chunks s) {chunk : LogReplayChunk}
    (hchunk : chunks[s.chunkCount]? = some chunk) : s.chunkOffset ≤ chunk.length := by
  obtain hzero | ⟨other, hother, hlt⟩ := h.inside
  · rw [hzero]
    exact Nat.zero_le _
  · rw [hchunk] at hother
    cases hother
    exact Nat.le_of_lt hlt

/-- Between two pieces of chunks. -/
structure Between (chunks : List LogReplayChunk) (resizes : List LogResizeEvent) (p : Play) : Prop where
  standing : Standing chunks p.state
  sound : p.pendingWrite.Sound
  caught : p.state.nextResizeIndex = reached resizes p.state.bytesWritten

theorem chunkToAdd_eq (p : Play) (fullChunk : LogReplayChunk) (take : ℕ) :
    chunkToAdd p fullChunk take = (fullChunk.drop p.state.chunkOffset).take take := by
  unfold chunkToAdd
  split_ifs with hwhole
  · rw [hwhole.1, hwhole.2, List.drop_zero, List.take_length]
  · rfl

/-- The state behind a piece. -/
def piecePlaced (fullChunk : LogReplayChunk) (take : ℕ) (s : LogReplayState) : LogReplayState :=
  if s.chunkOffset + take ≥ fullChunk.length then { s with chunkCount := s.chunkCount + 1, chunkOffset := 0 }
  else { s with chunkOffset := s.chunkOffset + take }

/-- The piece is added to the pending write. -/
def Play.added (fullChunk : LogReplayChunk) (take : ℕ) (p : Play) : Play :=
  let added := (fullChunk.drop p.state.chunkOffset).take take
  { p with
    state := { piecePlaced fullChunk take p.state with bytesWritten := p.state.bytesWritten + added.length }
    pendingWrite := ⟨p.pendingWrite.chunks ++ [added], p.pendingWrite.byteLength + added.length⟩ }

theorem takeChunk_eq (fullChunk : LogReplayChunk) (take : ℕ) :
    takeChunk resizes fullChunk take p =
      applyPendingResizesWithFlush resizes
        (if (p.added fullChunk take).pendingWrite.byteLength ≥ MAX_PENDING_WRITE_BYTES then flushPendingWrite (p.added fullChunk take)
          else p.added fullChunk take) := by
  unfold takeChunk Play.added piecePlaced
  rw [chunkToAdd_eq]
  by_cases hfinished : p.state.chunkOffset + take ≥ fullChunk.length
  · simp only [hfinished, decide_true, if_true]
  · simp only [hfinished, decide_false, Bool.false_eq_true, if_false]

/-- **A piece of a chunk** is told, and then the resizes that have come due with it. -/
theorem takeChunk_told (h : Between chunks resizes p) (fullChunk : LogReplayChunk) (take : ℕ) :
    let added := (fullChunk.drop p.state.chunkOffset).take take
    let written := p.state.bytesWritten + added.length
    (takeChunk resizes fullChunk take p).told =
        p.told ++ added.map .inl ++ sizes (slice resizes (reached resizes p.state.bytesWritten) (reached resizes written)) ∧
      (takeChunk resizes fullChunk take p).state =
        { piecePlaced fullChunk take p.state with bytesWritten := written, nextResizeIndex := reached resizes written } ∧
      (takeChunk resizes fullChunk take p).pendingWrite.Sound := by
  intro added written
  have hadded : (p.added fullChunk take).told = p.told ++ added.map .inl := by
    show tell p.ops ++ (p.pendingWrite.chunks ++ [added]).flatten.map .inl = tell p.ops ++ p.pendingWrite.chunks.flatten.map .inl ++ _
    rw [List.flatten_append, List.flatten_singleton, List.map_append, List.append_assoc]
  have hsound : (p.added fullChunk take).pendingWrite.Sound := by
    show p.pendingWrite.byteLength + added.length = (p.pendingWrite.chunks ++ [added]).flatten.length
    rw [List.flatten_append, List.flatten_singleton, List.length_append, h.sound]
  -- the intermediate flush tells nothing
  obtain ⟨q, hq, htold, hstate, hqsound⟩ : ∃ q, takeChunk resizes fullChunk take p = applyPendingResizesWithFlush resizes q ∧
      q.told = p.told ++ added.map .inl ∧ q.state = (p.added fullChunk take).state ∧ q.pendingWrite.Sound := by
    refine ⟨_, takeChunk_eq fullChunk take, ?_⟩
    split_ifs
    · obtain ⟨htold, hstate, hflushed, -⟩ := flush_told hsound
      exact ⟨htold.trans hadded, hstate, hflushed⟩
    · exact ⟨hadded, rfl, hsound⟩
  have hwritten : q.state.bytesWritten = written := by rw [hstate]; rfl
  have hindex : q.state.nextResizeIndex = reached resizes p.state.bytesWritten := by
    rw [hstate, ← h.caught]
    show (piecePlaced fullChunk take p.state).nextResizeIndex = _
    unfold piecePlaced
    split_ifs <;> rfl
  have hle : q.state.nextResizeIndex ≤ reached resizes q.state.bytesWritten := by
    rw [hindex, hwritten]
    exact Marks.reached_mono (Nat.le_add_right _ _)
  obtain ⟨htoldAll, hstateAll, hsoundAll⟩ := applyPendingResizesWithFlush_told hqsound hle
  rw [hindex, hwritten, htold] at htoldAll
  rw [hwritten, hstate] at hstateAll
  rw [hq]
  exact ⟨htoldAll, hstateAll, hsoundAll⟩

/-- A piece that the chunk has, and no more. -/
theorem between_takeChunk (h : Between chunks resizes p) {chunk : LogReplayChunk} (hchunk : chunks[p.state.chunkCount]? = some chunk)
    {take : ℕ} (htake : take ≤ chunk.length - p.state.chunkOffset) : Between chunks resizes (takeChunk resizes chunk take p) := by
  obtain ⟨-, hstate, hsound⟩ := takeChunk_told h chunk take
  obtain ⟨hcount, hget⟩ := List.getElem?_eq_some_iff.mp hchunk
  have hoffset := h.standing.offset_le hchunk
  have hlength : ((chunk.drop p.state.chunkOffset).take take).length = take := by
    rw [List.length_take, List.length_drop, Nat.min_eq_left htake]
  have hnext : (chunks.take (p.state.chunkCount + 1)).flatten.length = (chunks.take p.state.chunkCount).flatten.length + chunk.length := by
    rw [List.take_succ_eq_append_getElem hcount, hget, List.flatten_append, List.flatten_singleton, List.length_append]
  have hwritten := h.standing.written
  refine ⟨?_, hsound, by rw [hstate]⟩
  rw [hstate, hlength]
  unfold piecePlaced
  split_ifs with hfinished
  · refine ⟨hcount, ?_, .inl rfl⟩
    show p.state.bytesWritten + take = (chunks.take (p.state.chunkCount + 1)).flatten.length + 0
    omega
  · refine ⟨h.standing.count_le, ?_, .inr ⟨chunk, hchunk, Nat.lt_of_not_le hfinished⟩⟩
    show p.state.bytesWritten + take = (chunks.take p.state.chunkCount).flatten.length + (p.state.chunkOffset + take)
    omega

/-! ### A call -/

theorem bytesToTake_none (bytesAdded remaining : ℕ) : bytesToTake none bytesAdded remaining = remaining := rfl

theorem bytesToTake_some (maxBytes bytesAdded remaining : ℕ) :
    bytesToTake (some maxBytes) bytesAdded remaining = min remaining (maxBytes - bytesAdded) := rfl

theorem bytesToTake_le (maxBytes : Option ℕ) (bytesAdded remaining : ℕ) : bytesToTake maxBytes bytesAdded remaining ≤ remaining := by
  cases maxBytes with
  | none => exact Nat.le_refl _
  | some maxBytes => exact Nat.min_le_left _ _

theorem chunkLoop_stop {maxBytes : Option ℕ} {bytesAdded : ℕ} (h : maxBytes.any (fun maxBytes => decide (bytesAdded ≥ maxBytes)) = true)
    (l : List LogReplayChunk) (p : Play) : chunkLoop resizes maxBytes l bytesAdded p = p := by
  cases l with
  | nil => rfl
  | cons chunk l =>
    unfold chunkLoop
    rw [if_pos h]

theorem getElem?_of_drop {n : ℕ} {chunk : LogReplayChunk} {l : List LogReplayChunk} (h : chunks.drop n = chunk :: l) :
    chunks[n]? = some chunk := by
  rw [← List.head?_drop, h, List.head?_cons]

theorem drop_succ_of_drop {n : ℕ} {chunk : LogReplayChunk} {l : List LogReplayChunk} (h : chunks.drop n = chunk :: l) :
    chunks.drop (n + 1) = l := by
  rw [← List.drop_drop, h, List.drop_succ_cons, List.drop_zero]

/-- What each piece keeps the loop keeps. -/
theorem chunkLoop_invariant {I : Play → Prop} {maxBytes : Option ℕ}
    (hI : ∀ {p : Play} {chunk : LogReplayChunk} {take : ℕ}, Between chunks resizes p → chunks[p.state.chunkCount]? = some chunk →
      take ≤ chunk.length - p.state.chunkOffset → I p → I (takeChunk resizes chunk take p)) :
    ∀ {l rest : List LogReplayChunk} {bytesAdded : ℕ} {p : Play}, chunks.drop p.state.chunkCount = l ++ rest →
      Between chunks resizes p → I p →
      Between chunks resizes (chunkLoop resizes maxBytes l bytesAdded p) ∧ I (chunkLoop resizes maxBytes l bytesAdded p)
  | [], _, _, _, _, h, hp => ⟨h, hp⟩
  | chunk :: l, rest, bytesAdded, p, hl, h, hp => by
    unfold chunkLoop
    split_ifs with hstop
    · exact ⟨h, hp⟩
    have hchunk := getElem?_of_drop hl
    have hle := bytesToTake_le maxBytes bytesAdded (chunk.length - p.state.chunkOffset)
    have hnext := between_takeChunk h hchunk hle
    have hkept := hI h hchunk hle hp
    obtain ⟨-, hstate, -⟩ := takeChunk_told h chunk (bytesToTake maxBytes bytesAdded (chunk.length - p.state.chunkOffset))
    by_cases hfinished : p.state.chunkOffset + bytesToTake maxBytes bytesAdded (chunk.length - p.state.chunkOffset) ≥ chunk.length
    · have hrest : chunks.drop (takeChunk resizes chunk
          (bytesToTake maxBytes bytesAdded (chunk.length - p.state.chunkOffset)) p).state.chunkCount = l ++ rest := by
        rw [hstate, piecePlaced, if_pos hfinished]
        exact drop_succ_of_drop hl
      exact chunkLoop_invariant hI hrest hnext hkept
    · -- the chunk is not finished, since the batch is full
      show Between chunks resizes (chunkLoop _ _ _ _ _) ∧ I (chunkLoop _ _ _ _ _)
      rw [chunkLoop_stop]
      · exact ⟨hnext, hkept⟩
      cases maxBytes with
      | none =>
        rw [bytesToTake_none] at hfinished
        omega
      | some maxBytes =>
        rw [chunkToAdd_eq, List.length_take, List.length_drop, Nat.min_eq_left hle]
        rw [bytesToTake_some] at hfinished ⊢
        simp only [Option.any_some, decide_eq_true_eq, ge_iff_le] at hstop ⊢
        omega

/-- Without a limit all chunks of the range are taken. -/
theorem chunkLoop_count : ∀ {l rest : List LogReplayChunk} {bytesAdded : ℕ} {p : Play},
    chunks.drop p.state.chunkCount = l ++ rest → Between chunks resizes p → (l ≠ [] ∨ p.state.chunkOffset = 0) →
    (chunkLoop resizes none l bytesAdded p).state.chunkCount = p.state.chunkCount + l.length ∧
      (chunkLoop resizes none l bytesAdded p).state.chunkOffset = 0
  | [], _, _, _, _, _, hwhole => ⟨rfl, hwhole.resolve_left fun h => h rfl⟩
  | chunk :: l, rest, bytesAdded, p, hl, h, _ => by
    have hchunk := getElem?_of_drop hl
    have hnext := between_takeChunk h hchunk (Nat.le_refl _)
    obtain ⟨-, hstate, -⟩ := takeChunk_told h chunk (chunk.length - p.state.chunkOffset)
    have hfinished : p.state.chunkOffset + (chunk.length - p.state.chunkOffset) ≥ chunk.length := by omega
    rw [piecePlaced, if_pos hfinished] at hstate
    have hcount : (takeChunk resizes chunk (chunk.length - p.state.chunkOffset) p).state.chunkCount = p.state.chunkCount + 1 := by
      rw [hstate]
    have hoffset : (takeChunk resizes chunk (chunk.length - p.state.chunkOffset) p).state.chunkOffset = 0 := by rw [hstate]
    have hrest : chunks.drop (takeChunk resizes chunk (chunk.length - p.state.chunkOffset) p).state.chunkCount = l ++ rest := by
      rw [hcount]
      exact drop_succ_of_drop hl
    obtain ⟨hall, hzero⟩ := @chunkLoop_count l rest
      (bytesAdded + (chunkToAdd p chunk (chunk.length - p.state.chunkOffset)).length) _ hrest hnext (.inr hoffset)
    refine ⟨?_, hzero⟩
    show (chunkLoop resizes none l _ (takeChunk resizes chunk _ p)).state.chunkCount = _
    rw [hcount] at hall
    rw [List.length_cons]
    exact hall.trans (by omega)

end Play

section Calls

variable {chunks : List LogReplayChunk} {resizes : List LogResizeEvent} {m : Player}

/-- A player between two calls: at the start of a telling, or behind a call. -/
structure Ready (chunks : List LogReplayChunk) (resizes : List LogResizeEvent) (m : Player) : Prop where
  standing : Standing chunks m.state
  index_le : m.state.nextResizeIndex ≤ reached resizes m.state.bytesWritten

/-- A call up to its loop. -/
def Player.begin (resizes : List LogResizeEvent) (m : Player) : Play :=
  applyPendingResizesWithFlush resizes ⟨m.ops, m.state, ⟨[], 0⟩⟩

/-- A call behind its loop. -/
def Play.finish (resizes : List LogResizeEvent) (p : Play) : Player :=
  ⟨(applyPendingResizes resizes (flushPendingWrite p)).ops, (applyPendingResizes resizes (flushPendingWrite p)).state⟩

theorem append_eq (h : Standing chunks m.state) {endChunk : ℕ} (hend : m.state.chunkCount ≤ endChunk)
    (hbound : endChunk ≤ chunks.length) (maxBytes : Option ℕ) :
    appendLogChunkRange chunks resizes m m.state.chunkCount endChunk maxBytes =
      (chunkLoop resizes maxBytes ((chunks.drop m.state.chunkCount).take (endChunk - m.state.chunkCount)) 0
        (m.begin resizes)).finish resizes := by
  have hstart : min m.state.chunkCount chunks.length = m.state.chunkCount := Nat.min_eq_left h.count_le
  have hsafe : max m.state.chunkCount (min endChunk chunks.length) = endChunk := by
    rw [Nat.min_eq_left hbound, Nat.max_eq_right hend]
  unfold appendLogChunkRange
  simp only [hstart, hsafe, ne_eq, not_true_eq_false, if_false]
  rfl

theorem begin_between (h : Ready chunks resizes m) :
    Between chunks resizes (m.begin resizes) ∧
      (m.begin resizes).told =
        tell m.ops ++ sizes (slice resizes m.state.nextResizeIndex (reached resizes m.state.bytesWritten)) ∧
      (m.begin resizes).state = { m.state with nextResizeIndex := reached resizes m.state.bytesWritten } := by
  obtain ⟨htold, hstate, hsound⟩ :=
    @applyPendingResizesWithFlush_told resizes ⟨m.ops, m.state, ⟨[], 0⟩⟩ rfl h.index_le
  refine ⟨⟨?_, hsound, ?_⟩, ?_, hstate⟩
  · unfold Player.begin
    rw [hstate]
    exact ⟨h.standing.count_le, h.standing.written, h.standing.inside⟩
  · unfold Player.begin
    rw [hstate]
  · refine htold.trans ?_
    show tell m.ops ++ [] ++ _ = _
    rw [List.append_nil]

/-- Nothing is due at the end, and the last flush tells what is pending. -/
theorem finish_told {p : Play} (h : Between chunks resizes p) :
    tell (p.finish resizes).ops = p.told ∧ (p.finish resizes).state = p.state := by
  obtain ⟨htold, hstate, hsound, hnone⟩ := flush_told h.sound
  have hcaught : (flushPendingWrite p).state.nextResizeIndex = reached resizes (flushPendingWrite p).state.bytesWritten := by
    rw [hstate]
    exact h.caught
  have hdue := @Marks.takeWhile_drop _ LogResizeEvent.offset (flushPendingWrite p).state.bytesWritten resizes _ (Nat.le_of_eq hcaught)
  rw [show Marks.reached LogResizeEvent.offset resizes _ = _ from hcaught.symm, slice_self] at hdue
  have hsame : applyPendingResizes resizes (flushPendingWrite p) = flushPendingWrite p := by
    unfold applyPendingResizes
    cases hrest : resizes.drop (flushPendingWrite p).state.nextResizeIndex with
    | nil => rfl
    | cons resize due =>
      rw [hrest] at hdue
      have hlate : resize.offset > (flushPendingWrite p).state.bytesWritten := by
        by_contra hnot
        rw [List.takeWhile_cons_of_pos (by simpa using hnot)] at hdue
        cases hdue
      exact if_pos hlate
  unfold Play.finish
  rw [hsame]
  exact ⟨(hsound.nil hnone).symm.trans htold, hstate⟩

/-- What each piece of a call keeps the call keeps. -/
theorem append_invariant {I : Play → Prop} (h : Ready chunks resizes m)
    (hI : ∀ {p : Play} {chunk : LogReplayChunk} {take : ℕ}, Between chunks resizes p → chunks[p.state.chunkCount]? = some chunk →
      take ≤ chunk.length - p.state.chunkOffset → I p → I (takeChunk resizes chunk take p))
    (hbegin : I (m.begin resizes)) {endChunk : ℕ} (hend : m.state.chunkCount ≤ endChunk)
    (hbound : endChunk ≤ chunks.length) (maxBytes : Option ℕ) :
    ∃ p, Between chunks resizes p ∧ I p ∧
      tell (appendLogChunkRange chunks resizes m m.state.chunkCount endChunk maxBytes).ops = p.told ∧
      (appendLogChunkRange chunks resizes m m.state.chunkCount endChunk maxBytes).state = p.state := by
  obtain ⟨hbetween, -, hstate⟩ := begin_between h
  rw [append_eq h.standing hend hbound]
  have hsplit : chunks.drop (m.begin resizes).state.chunkCount =
      (chunks.drop m.state.chunkCount).take (endChunk - m.state.chunkCount) ++
        (chunks.drop m.state.chunkCount).drop (endChunk - m.state.chunkCount) := by
    rw [hstate, List.take_append_drop]
  obtain ⟨hafter, hkept⟩ := @chunkLoop_invariant chunks resizes I maxBytes hI _ _ 0 _ hsplit hbetween hbegin
  obtain ⟨htold, hstateAfter⟩ := finish_told hafter
  exact ⟨_, hafter, hkept, htold, hstateAfter⟩

/-- The player a seek goes on with: from the start when it seeks backwards. -/
def Player.sought (m : Player) (safe : ℕ) : Player :=
  if safe ≤ m.state.chunkCount then ⟨m.ops ++ [.reset], initialLogReplayState⟩ else m

theorem safeChunkCount_of_le {n : ℕ} (h : n ≤ chunks.length) : safeChunkCount chunks n = n := by
  unfold safeChunkCount
  omega

theorem safeChunkCount_le (chunkCount : ℤ) : safeChunkCount chunks chunkCount ≤ chunks.length := by
  unfold safeChunkCount
  omega

theorem seek_eq (m : Player) (chunkCount : ℤ) (scrollToBottom : Bool) :
    seekLogChunks chunks resizes m chunkCount scrollToBottom =
      scrolled
        (appendLogChunkRange chunks resizes (m.sought (safeChunkCount chunks chunkCount))
          (m.sought (safeChunkCount chunks chunkCount)).state.chunkCount (safeChunkCount chunks chunkCount) none)
        scrollToBottom := by
  unfold seekLogChunks replayLogChunks Player.sought
  split_ifs
  · rw [safeChunkCount_of_le (safeChunkCount_le chunkCount)]
    rfl
  · rfl

theorem sought_count_le (m : Player) (safe : ℕ) : (m.sought safe).state.chunkCount ≤ safe := by
  unfold Player.sought
  split_ifs with hback
  · exact Nat.zero_le _
  · exact Nat.le_of_lt (Nat.lt_of_not_le hback)

theorem initial_ready {ops : List Op} : Ready chunks resizes ⟨ops, initialLogReplayState⟩ :=
  ⟨⟨Nat.zero_le _, rfl, .inl rfl⟩, Nat.zero_le _⟩

theorem Ready.sought (h : Ready chunks resizes m) (safe : ℕ) : Ready chunks resizes (m.sought safe) := by
  unfold Player.sought
  split_ifs
  · exact initial_ready
  · exact h

theorem scrolled_state (m : Player) (scrollToBottom : Bool) : (scrolled m scrollToBottom).state = m.state := by
  unfold scrolled
  split_ifs <;> rfl

theorem tell_scrolled (m : Player) (scrollToBottom : Bool) : tell (scrolled m scrollToBottom).ops = tell m.ops := by
  unfold scrolled
  split_ifs
  · exact tell_snoc _ _
  · rfl

/-- A call without a limit ends in front of the chunk it goes up to, with all resizes that are due. -/
structure Sought (chunks : List LogReplayChunk) (resizes : List LogResizeEvent) (count : ℕ) (s : LogReplayState) : Prop where
  standing : Standing chunks s
  caught : s.nextResizeIndex = reached resizes s.bytesWritten
  count : s.chunkCount = count
  offset : s.chunkOffset = 0

theorem append_sought (h : Ready chunks resizes m) {endChunk : ℕ} (hend : m.state.chunkCount ≤ endChunk)
    (hbound : endChunk ≤ chunks.length) (hwhole : m.state.chunkCount < endChunk ∨ m.state.chunkOffset = 0) :
    Sought chunks resizes endChunk (appendLogChunkRange chunks resizes m m.state.chunkCount endChunk none).state := by
  obtain ⟨hbetween, -, hstate⟩ := begin_between h
  have hlength : ((chunks.drop m.state.chunkCount).take (endChunk - m.state.chunkCount)).length = endChunk - m.state.chunkCount := by
    rw [List.length_take, List.length_drop]
    omega
  have hsplit : chunks.drop (m.begin resizes).state.chunkCount =
      (chunks.drop m.state.chunkCount).take (endChunk - m.state.chunkCount) ++
        (chunks.drop m.state.chunkCount).drop (endChunk - m.state.chunkCount) := by
    rw [hstate, List.take_append_drop]
  have hfull : (chunks.drop m.state.chunkCount).take (endChunk - m.state.chunkCount) ≠ [] ∨ (m.begin resizes).state.chunkOffset = 0 := by
    obtain hlt | hzero := hwhole
    · refine .inl fun hnil => ?_
      rw [hnil, List.length_nil] at hlength
      omega
    · right
      rw [hstate]
      exact hzero
  obtain ⟨hcount, hoffset⟩ := @chunkLoop_count chunks resizes _ _ 0 _ hsplit hbetween hfull
  obtain ⟨hafter, -⟩ := @chunkLoop_invariant chunks resizes (fun _ => True) none (fun _ _ _ _ => trivial) _ _ 0 _ hsplit hbetween trivial
  rw [append_eq h.standing hend hbound, (finish_told hafter).2]
  refine ⟨hafter.standing, hafter.caught, ?_, hoffset⟩
  rw [hcount, hlength, hstate]
  exact Nat.add_sub_cancel' hend

theorem seek_sought (h : Ready chunks resizes m) (chunkCount : ℤ) (scrollToBottom : Bool) :
    Sought chunks resizes (safeChunkCount chunks chunkCount)
      (seekLogChunks chunks resizes m chunkCount scrollToBottom).state := by
  rw [seek_eq, scrolled_state]
  refine append_sought (h.sought _) (sought_count_le m _) (safeChunkCount_le chunkCount) ?_
  unfold Player.sought
  split_ifs with hback
  · exact .inr rfl
  · exact .inl (Nat.lt_of_not_le hback)

/-! ### Aligned resizes -/

theorem Aligned.reached_eq (h : Aligned chunks resizes) {pre post : List LogReplayChunk} {chunk : LogReplayChunk}
    (hchunks : chunks = pre ++ chunk :: post) {p q : ℕ} (hp : pre.flatten.length ≤ p) (hpq : p ≤ q)
    (hq : q < pre.flatten.length + chunk.length) : reached resizes q = reached resizes p := by
  refine Nat.le_antisymm ?_ (Marks.reached_mono hpq)
  by_contra hlt
  have hlate : reached resizes p < reached resizes q := Nat.lt_of_not_le hlt
  have hbound : reached resizes p < resizes.length := Nat.lt_of_lt_of_le hlate Marks.reached_le_length
  have hafter := mt (Marks.lt_reached_iff hbound).mpr (Nat.lt_irrefl _)
  have hbefore := (Marks.lt_reached_iff hbound).mp hlate
  exact h _ hbound pre chunk post hchunks ⟨by omega, by omega⟩

/-- The player stands in the stream where its chunk is. -/
theorem Standing.piece {s : LogReplayState} (h : Standing chunks s) {chunk : LogReplayChunk} (hchunk : chunks[s.chunkCount]? = some chunk)
    (take : ℕ) :
    ∃ pre post, chunks = pre ++ chunk :: post ∧ s.bytesWritten = pre.flatten.length + s.chunkOffset ∧
      s.chunkOffset ≤ chunk.length ∧ Piece chunks.flatten s.bytesWritten ((chunk.drop s.chunkOffset).take take) := by
  obtain ⟨hcount, hget⟩ := List.getElem?_eq_some_iff.mp hchunk
  have hchunks : chunks = chunks.take s.chunkCount ++ chunk :: chunks.drop (s.chunkCount + 1) := by
    rw [← hget, ← List.drop_eq_getElem_cons hcount, List.take_append_drop]
  have hoffset := h.offset_le hchunk
  refine ⟨_, _, hchunks, h.written, hoffset, ?_, ?_⟩
  · have hlength := congrArg (fun l => l.flatten.length) hchunks
    simp only [List.flatten_append, List.flatten_cons, List.length_append] at hlength
    rw [List.length_take, List.length_drop, hlength, h.written]
    omega
  · have hflat : chunks.flatten =
        (chunks.take s.chunkCount).flatten ++ (chunk ++ (chunks.drop (s.chunkCount + 1)).flatten) := by
      conv_lhs => rw [hchunks]
      rw [List.flatten_append, List.flatten_cons]
    rw [h.written, hflat, ← List.drop_drop, List.drop_left, List.drop_append_of_le_length hoffset]
    exact (List.take_prefix _ _).trans (List.prefix_append _ _)

theorem Piece.slice_eq {s d : List UInt8} {a : ℕ} (h : Piece s a d) : slice s a (a + d.length) = d := by
  have := slice_append_piece (Nat.le_refl a) h
  rwa [slice_self, List.nil_append, eq_comm] at this

/-- With aligned resizes a piece is told as it is byte by byte. -/
theorem Aligned.takeChunk (h : Aligned chunks resizes) {p : Play} (hbetween : Between chunks resizes p) {chunk : LogReplayChunk}
    (hchunk : chunks[p.state.chunkCount]? = some chunk) {take : ℕ} (htake : take ≤ chunk.length - p.state.chunkOffset)
    (htold : p.told = byteByByte chunks resizes p.state.bytesWritten) :
    (LogReplay.takeChunk resizes chunk take p).told =
      byteByByte chunks resizes (LogReplay.takeChunk resizes chunk take p).state.bytesWritten := by
  obtain ⟨hpiece, hstate, -⟩ := takeChunk_told hbetween chunk take
  obtain ⟨pre, post, hchunks, hwritten, hoffset, hstream⟩ := hbetween.standing.piece hchunk take
  have hlength : ((chunk.drop p.state.chunkOffset).take take).length = take := by
    rw [List.length_take, List.length_drop, Nat.min_eq_left htake]
  have hstretch := @Marks.merged_stretch _ _ _ LogResizeEvent.offset LogResizeEvent.size chunks.flatten resizes
    p.state.bytesWritten (p.state.bytesWritten + ((chunk.drop p.state.chunkOffset).take take).length)
    (Nat.le_add_right _ _) fun hlt => by
      rw [hlength] at hlt ⊢
      exact h.reached_eq hchunks (by omega) (by omega) (by omega)
  rw [Piece.slice_eq hstream] at hstretch
  rw [hpiece, hstate, htold]
  exact hstretch.symm

/-- What has been told is the stream byte by byte, and all that is due. -/
structure Faithful (chunks : List LogReplayChunk) (resizes : List LogResizeEvent) (m : Player) : Prop where
  standing : Standing chunks m.state
  caught : m.state.nextResizeIndex = reached resizes m.state.bytesWritten
  told : tell m.ops = byteByByte chunks resizes m.state.bytesWritten

theorem Faithful.ready (h : Faithful chunks resizes m) : Ready chunks resizes m := ⟨h.standing, Nat.le_of_eq h.caught⟩

/-- A call that begins where nothing is told, or goes on faithfully. -/
theorem Aligned.append (haligned : Aligned chunks resizes) (h : Ready chunks resizes m)
    (hbegin : (m.begin resizes).told = byteByByte chunks resizes (m.begin resizes).state.bytesWritten) {endChunk : ℕ}
    (hend : m.state.chunkCount ≤ endChunk) (hbound : endChunk ≤ chunks.length) (maxBytes : Option ℕ) :
    Faithful chunks resizes (appendLogChunkRange chunks resizes m m.state.chunkCount endChunk maxBytes) := by
  obtain ⟨p, hbetween, hp, htold, hstate⟩ :=
    @append_invariant chunks resizes m (fun p => p.told = byteByByte chunks resizes p.state.bytesWritten) h
      (fun hbetween hchunk htake htold => haligned.takeChunk hbetween hchunk htake htold) hbegin endChunk hend hbound maxBytes
  refine ⟨?_, ?_, ?_⟩
  · rw [hstate]
    exact hbetween.standing
  · rw [hstate]
    exact hbetween.caught
  · rw [htold, hstate]
    exact hp

theorem Faithful.begin (h : Faithful chunks resizes m) :
    (m.begin resizes).told = byteByByte chunks resizes (m.begin resizes).state.bytesWritten := by
  obtain ⟨-, htold, hstate⟩ := begin_between h.ready
  rw [htold, hstate, ← h.caught, slice_self]
  exact (List.append_nil _).trans h.told

theorem initial_begin {ops : List Op} (htold : tell ops = []) :
    (Player.begin resizes ⟨ops, initialLogReplayState⟩).told =
      byteByByte chunks resizes (Player.begin resizes ⟨ops, initialLogReplayState⟩).state.bytesWritten := by
  obtain ⟨-, hbegin, hstate⟩ := @begin_between chunks resizes ⟨ops, initialLogReplayState⟩ initial_ready
  rw [hbegin, hstate]
  show tell ops ++ _ = _
  rw [htold]
  rfl

/-- **A call** with aligned resizes. -/
theorem Aligned.act (haligned : Aligned chunks resizes) (h : Faithful chunks resizes m ∨ m = .start) (action : Action) :
    Faithful chunks resizes (m.act chunks resizes action) := by
  have hready : Ready chunks resizes m := by
    obtain h | rfl := h
    · exact h.ready
    · exact initial_ready
  have hbegin : (m.begin resizes).told = byteByByte chunks resizes (m.begin resizes).state.bytesWritten := by
    obtain h | rfl := h
    · exact h.begin
    · exact initial_begin rfl
  cases action with
  | play maxBytes => exact haligned.append hready hbegin hready.standing.count_le (Nat.le_refl _) (some maxBytes)
  | seek chunkCount scrollToBottom =>
    have hsought : ((m.sought (safeChunkCount chunks chunkCount)).begin resizes).told =
        byteByByte chunks resizes ((m.sought (safeChunkCount chunks chunkCount)).begin resizes).state.bytesWritten := by
      unfold Player.sought
      split_ifs
      · exact initial_begin (tell_snoc _ _)
      · exact hbegin
    have hcall := haligned.append (hready.sought _) hsought (sought_count_le m _) (safeChunkCount_le chunkCount) none
    show Faithful chunks resizes (seekLogChunks chunks resizes m chunkCount scrollToBottom)
    rw [seek_eq]
    refine ⟨?_, ?_, ?_⟩
    · rw [scrolled_state]
      exact hcall.standing
    · rw [scrolled_state]
      exact hcall.caught
    · rw [scrolled_state, tell_scrolled]
      exact hcall.told

theorem Aligned.run (haligned : Aligned chunks resizes) : ∀ {actions : List Action} {m : Player},
    Faithful chunks resizes m → Faithful chunks resizes (actions.foldl (Player.act chunks resizes) m)
  | [], _, h => h
  | action :: actions, m, h =>
    show Faithful chunks resizes (actions.foldl (Player.act chunks resizes) (m.act chunks resizes action)) from
      haligned.run (haligned.act (.inl h) action)

/-! ### Other resizes -/

/-- A seek from one chunk to the next tells the chunk, and then all that has come due in it. -/
theorem seek_next {k : ℕ} (hsought : Sought chunks resizes k m.state) {chunk : LogReplayChunk} (hchunk : chunks[k]? = some chunk)
    (scrollToBottom : Bool) :
    let m' := seekLogChunks chunks resizes m ↑(k + 1) scrollToBottom
    tell m'.ops = tell m.ops ++ chunk.map .inl ++
        sizes (slice resizes (reached resizes m.state.bytesWritten) (reached resizes (m.state.bytesWritten + chunk.length))) ∧
      m'.state.bytesWritten = m.state.bytesWritten + chunk.length := by
  intro m'
  obtain ⟨hk, hget⟩ := List.getElem?_eq_some_iff.mp hchunk
  have hready : Ready chunks resizes m := ⟨hsought.standing, Nat.le_of_eq hsought.caught⟩
  have hforward : m.sought (k + 1) = m := if_neg (by rw [hsought.count]; omega)
  obtain ⟨hbetween, htold, hstate⟩ := begin_between hready
  rw [← hsought.caught] at htold hstate
  rw [slice_self] at htold
  have hcount : (m.begin resizes).state.chunkCount = k := by rw [hstate, hsought.count]
  have hoffset : (m.begin resizes).state.chunkOffset = 0 := by rw [hstate, hsought.offset]
  have hlast : m' = scrolled ((takeChunk resizes chunk (chunk.length - 0) (m.begin resizes)).finish resizes) scrollToBottom := by
    show seekLogChunks chunks resizes m _ scrollToBottom = _
    rw [seek_eq, safeChunkCount_of_le hk, hforward,
      append_eq hsought.standing (by rw [hsought.count]; exact Nat.le_add_right k 1) (show k + 1 ≤ chunks.length from hk),
      hsought.count, Nat.add_sub_cancel_left,
      List.drop_eq_getElem_cons hk, hget, List.take_succ_cons, List.take_zero, ← hoffset]
    rfl
  have hafter := between_takeChunk hbetween (by rw [hcount]; exact hchunk)
    (show chunk.length - 0 ≤ chunk.length - (m.begin resizes).state.chunkOffset by rw [hoffset])
  obtain ⟨hpiece, hpieceState, -⟩ := takeChunk_told hbetween chunk (chunk.length - 0)
  obtain ⟨hfinish, hfinishState⟩ := finish_told hafter
  have hwritten : (m.begin resizes).state.bytesWritten = m.state.bytesWritten := by rw [hstate]
  rw [hoffset, Nat.sub_zero, List.drop_zero, List.take_length, hwritten] at hpiece hpieceState
  rw [Nat.sub_zero] at hfinish hfinishState hlast
  refine ⟨?_, ?_⟩
  · rw [hlast, tell_scrolled, hfinish, hpiece, htold]
    show tell m.ops ++ [] ++ _ ++ _ = _
    rw [List.append_nil]
  · rw [hlast, scrolled_state, hfinishState, hpieceState]

/-- **Only aligned resizes** are told byte by byte. -/
theorem BatchIndependent.aligned (h : BatchIndependent chunks resizes) : Aligned chunks resizes := by
  intro i hi pre chunk post hchunks ⟨hlow, hhigh⟩
  have hk : pre.length < chunks.length := by
    rw [hchunks, List.length_append, List.length_cons]
    omega
  have hchunk : chunks[pre.length]? = some chunk := by
    rw [hchunks, List.getElem?_append_right (Nat.le_refl _), Nat.sub_self, List.getElem?_cons_zero]
  -- up to the chunk, and one chunk more
  have hfirst := h [.seek pre.length true] (List.cons_ne_nil _ _)
  have hsecond := h [.seek pre.length true, .seek ↑(pre.length + 1) true] (List.cons_ne_nil _ _)
  have hsought := @seek_sought chunks resizes .start initial_ready pre.length true
  rw [safeChunkCount_of_le (Nat.le_of_lt hk)] at hsought
  obtain ⟨htold, hwritten⟩ := seek_next hsought hchunk true
  have hstart : (seekLogChunks chunks resizes .start pre.length true).state.bytesWritten = pre.flatten.length := by
    rw [hsought.standing.written, hsought.count, hsought.offset, hchunks, List.take_left, Nat.add_zero]
  rw [hstart] at htold hwritten
  have hfirstTold : tell (seekLogChunks chunks resizes .start pre.length true).ops =
      byteByByte chunks resizes (seekLogChunks chunks resizes .start pre.length true).state.bytesWritten := hfirst
  have hsecondTold : tell (seekLogChunks chunks resizes (seekLogChunks chunks resizes .start pre.length true)
      ↑(pre.length + 1) true).ops = byteByByte chunks resizes (seekLogChunks chunks resizes
        (seekLogChunks chunks resizes .start pre.length true) ↑(pre.length + 1) true).state.bytesWritten :=
    hsecond
  rw [hstart] at hfirstTold
  rw [hwritten, htold, hfirstTold] at hsecondTold
  have hpiece : slice chunks.flatten pre.flatten.length (pre.flatten.length + chunk.length) = chunk := by
    rw [hchunks, List.flatten_append, List.flatten_cons]
    unfold slice
    rw [List.drop_left, Nat.add_sub_cancel_left, List.take_left]
  have hbound : pre.flatten.length + chunk.length ≤ chunks.flatten.length := by
    rw [hchunks, List.flatten_append, List.flatten_cons, List.length_append, List.length_append]
    omega
  have hsame : reached resizes (pre.flatten.length + chunk.length - 1) = reached resizes pre.flatten.length :=
    @Marks.reached_of_stretch _ _ _ LogResizeEvent.offset LogResizeEvent.size _ _ _ _ (by omega) hbound
      (by rw [hpiece]; exact hsecondTold.symm)
  have hnot : ¬i < reached resizes pre.flatten.length := mt (Marks.lt_reached_iff hi).mp (Nat.not_le_of_lt hlow)
  have hinside : i < reached resizes (pre.flatten.length + chunk.length - 1) :=
    (Marks.lt_reached_iff hi).mpr (Nat.le_sub_one_of_lt hhigh)
  rw [hsame] at hinside
  exact hnot hinside

/-- **The replay does not depend on how it is played** if and only if no resize is due strictly inside a chunk. -/
theorem batch_independent_iff (chunks : List LogReplayChunk) (resizes : List LogResizeEvent) :
    BatchIndependent chunks resizes ↔ Aligned chunks resizes := by
  refine ⟨BatchIndependent.aligned, fun haligned actions hne => ?_⟩
  cases actions with
  | nil => exact absurd rfl hne
  | cons action actions => exact (haligned.run (haligned.act (.inr rfl) action)).told

/-- A resize in the middle of a chunk is made behind it, when the chunk is written at once. -/
theorem batch_dependent : ¬BatchIndependent [[97, 98, 99, 100]] [⟨2, 30, 90⟩] := fun h =>
  absurd (h [.play 4] (List.cons_ne_nil _ _)) (by decide)

end Calls

end LogReplay
end Web
end OpenRelay
