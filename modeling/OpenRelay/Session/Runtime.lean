/-
# A session's runtime

A session runs a child on a pseudo-terminal. The reader thread scans what the
child outputs, journals the raw bytes, advances the counters of the filtered
stream and broadcasts the filtered bytes, all but the last under the runtime's
write lock; other threads refresh the status, terminate, resize and prune under
the same lock (`session/runtime.rs`).

`LiveSession.step` interleaves these threads with the appender and the retention
sweeps. The lock makes an operation one step; but the appender does not take the
lock, so it goes on between the journal events of one operation and while one of
them waits for room in the queue (`Turn`).

The terminal engine is outside of this model: what it shows is given with the
step. So is what the child's status comes to. A stream is shorter than 2^64
bytes: a read that would pass this is not taken.

Key theorem: `journalEvent_spec`.
-/
import OpenRelay.Pump
import OpenRelay.Journal.Live
import OpenRelay.Session.Replay

namespace OpenRelay
namespace Session

open Journal Pty LittleEndian
open Pump (ModeSnapshot SequencedChunk)

/-! ### Facts of a session's life -/

/-- Where a session is in its life. -/
inductive SessionStatus where
  | created
  | running
  | stopping
  | stopped
  | killed
  | failed
  deriving DecidableEq, Repr

def SessionStatus.asStr : SessionStatus → Bytes
  | created => ascii "created".toList
  | running => ascii "running".toList
  | stopping => ascii "stopping".toList
  | stopped => ascii "stopped".toList
  | killed => ascii "killed".toList
  | failed => ascii "failed".toList

/-- What a lifecycle record tells. -/
inductive LifecycleCode where
  | started
  | stopped
  | killed
  | failed
  /-- The output stream has ended; completion is only journaled after it. -/
  | outputClosed
  deriving DecidableEq, Repr

def LifecycleCode.toU8 : LifecycleCode → UInt8
  | started => 1
  | stopped => 2
  | killed => 3
  | failed => 4
  | outputClosed => 5

def LifecycleCode.fromU8 : UInt8 → Option LifecycleCode
  | 1 => some started
  | 2 => some stopped
  | 3 => some killed
  | 4 => some failed
  | 5 => some outputClosed
  | _ => none

@[simp] theorem LifecycleCode.fromU8_toU8 (code : LifecycleCode) : fromU8 code.toU8 = some code := by
  cases code <;> rfl

/-- An `i32`. -/
abbrev ExitCode := BitVec 32

/-- `i32::MIN` stands for "no exit code" in a record. -/
def noExitCode : ExitCode := BitVec.intMin 32

def encodeLifecyclePayload (code : LifecycleCode) (exitCode : Option ExitCode) (detail : Bytes) : Bytes :=
  code.toU8 :: (leBytes 4 (exitCode.getD noExitCode).toNat ++ detail)

/-- The code and the exit code of a lifecycle payload. -/
def decodeLifecyclePayload (payload : Bytes) : Option (LifecycleCode × Option ExitCode) :=
  match payload with
  | code :: rest =>
    if rest.length < 4 then none
    else
      let exit : ExitCode := BitVec.ofNat 32 (leNat (rest.take 4))
      (LifecycleCode.fromU8 code).map fun code => (code, if exit = noExitCode then none else some exit)
  | [] => none

/-- What was encoded is read back, except that the code that stands for none is
none. -/
theorem decodeLifecyclePayload_encode (code : LifecycleCode) (exitCode : Option ExitCode) (detail : Bytes) :
    decodeLifecyclePayload (encodeLifecyclePayload code exitCode detail) =
      some (code, if exitCode = some noExitCode then none else exitCode) := by
  have hlen : ¬ (leBytes 4 (exitCode.getD noExitCode).toNat ++ detail).length < 4 := by simp
  have hexit : BitVec.ofNat 32 (leNat ((leBytes 4 (exitCode.getD noExitCode).toNat ++ detail).take 4)) =
      exitCode.getD noExitCode := by
    rw [List.take_left' (leBytes_length _ _), leNat_leBytes (by simpa using (exitCode.getD noExitCode).isLt),
      BitVec.ofNat_toNat, BitVec.setWidth_eq]
  rw [encodeLifecyclePayload, decodeLifecyclePayload]
  simp only [if_neg hlen, hexit, LifecycleCode.fromU8_toU8, Option.map_some]
  rcases exitCode with _ | exit
  · simp
  · simp only [Option.getD_some, Option.some.injEq]

def encodeResizePayload (rows cols : ℕ) : Bytes := leBytes 2 rows ++ leBytes 2 cols

def policyPayload (key value : Bytes) : Bytes := key ++ ascii ['='] ++ value

/-- A mode state as a policy value. -/
def modesValue (modes : ModeSnapshot) : Bytes :=
  ascii "app_cursor_keys=".toList ++ decimal modes.appCursorKeys.toNat ++
  ascii ",bracketed_paste=".toList ++ decimal modes.bracketedPasteMode.toNat ++
  ascii ",mouse_report=".toList ++ decimal modes.mouseReport.toNat ++
  ascii ",sgr_mouse=".toList ++ decimal modes.sgrMouse.toNat ++
  ascii ",focus_events=".toList ++ decimal modes.focusEvents.toNat

/-- A signed number as text. -/
def signedDecimal (n : ℤ) : Bytes :=
  if n < 0 then ascii ['-'] ++ decimal n.natAbs else decimal n.natAbs

/-! ### Journaling beside the appender -/

/-- Actions that do not take the runtime's lock: the appender's, and those of the
sweeps. -/
def isBackground : Live.Action → Bool
  | .journal .receive | .journal .timeout | .journal .effect | .journal (.fault _) | .journal .finish => true
  | .startSweep _ | .sweepEffect _ | .sweepFault _ _ => true
  | .journal _ => false

/-- What happens around one journal event. -/
structure Turn where
  /-- The background before the event is recorded. -/
  before : List Live.Action
  elapsed : ℕ
  /-- The background while its producer waits for room in the queue. -/
  during : List Live.Action
  /-- The background after it. -/
  after : List Live.Action

/-- Nothing happens beside the event. -/
def Turn.quiet : Turn := ⟨[], 0, [], []⟩

section Events

variable (R : LineReader)

/-- The background goes on. -/
def advance (l : Live) (as : List Live.Action) : Option Live :=
  if as.all isBackground then Runs.run (Live.step R) l as else none

/-- A producer that waited tries once more, and gives up if there is still no
room. -/
def resubmit (l : Live) : Option (Live × Except JournalSubmitError ℕ) :=
  match l.journal.waiting with
  | none => none
  | some event =>
    match l.journal.retry event with
    | some (s, some result) => some ({ l with journal := s }, result)
    | some (_, none) => none
    | none => (l.journal.stall event).2.map fun result => ({ l with journal := (l.journal.stall event).1 }, result)

/-- Record an event. -/
def submit (l : Live) (turn : Turn) (kind : RecordKind) (payload : Bytes) :
    Option (Live × Except JournalSubmitError ℕ) :=
  match advance R l turn.before with
  | none => none
  | some l =>
    if l.journal.core.nextSeq + 1 < 2 ^ 64 then
      match l.journal.record kind payload turn.elapsed with
      | (s, some result) => some ({ l with journal := s }, result)
      | (s, none) => (advance R { l with journal := s } turn.during).bind resubmit
    else none

end Events

/-! ### The runtime -/

/-- What the terminal engine shows. -/
structure EngineView where
  rows : ℕ
  cols : ℕ
  cursor : ℕ × ℕ
  altScreen : Bool
  appCursorKeys : Bool
  bracketedPaste : Bool
  /-- The rows scrolled off. -/
  styledHistoryRows : List Bytes
  snapshotStream : Bytes
  deriving DecidableEq, Repr

/-- What a session's runtime keeps, as far as its journal, its status and its output are about it. -/
structure SessionRuntime where
  status : SessionStatus
  exitCode : Option ExitCode
  /-- The session has an end time. -/
  ended : Bool
  requestedFinalStatus : Option SessionStatus
  lastTotalBytes : ℕ
  filteredTotalBytes : ℕ
  lastJournalCheckpointAt : ℕ
  outputClosed : Bool
  pendingJournalCompletion : Option (LifecycleCode × Option ExitCode × Bytes)
  journaledModes : Option ModeSnapshot
  ptySize : Option (ℕ × ℕ)
  /-- The reader has killed the child. -/
  childKilled : Bool
  journal : Live
  /-- The fail-loud flag. -/
  journalFailed : Bool

/-- A checkpoint past this many bytes of the filtered stream. -/
def journalCheckpointIntervalBytes : ℕ := 32 * 1024 * 1024

/-- What the session's child has come to. -/
inductive TryWait where
  | exited (code : ExitCode)
  | running
  | error
  deriving DecidableEq, Repr

namespace SessionRuntime

section Operations

variable (R : LineReader) (rt : SessionRuntime)

/-- The core knows that persistence has failed. -/
def isDegraded : Bool := rt.journal.journal.core.isDegraded

/-- Sequence one event into the journal. A failure is flagged when it degrades
the journal. -/
def journalEvent (turn : Turn) (kind : RecordKind) (payload : Bytes) : Option SessionRuntime := do
  let wasDegraded := rt.isDegraded
  let (journal, result) ← submit R rt.journal turn kind payload
  let rt := { rt with
    journal := journal
    journalFailed := rt.journalFailed || (!result.isOk && !wasDegraded) }
  let journal ← advance R rt.journal turn.after
  return { rt with journal := journal }

def journalOutput (turn : Turn) (payload : Bytes) : Option SessionRuntime :=
  rt.journalEvent R turn .output payload

def journalPolicy (turn : Turn) (key value : Bytes) : Option SessionRuntime :=
  rt.journalEvent R turn .policy (policyPayload key value)

def journalResize (turn : Turn) (rows cols : ℕ) : Option SessionRuntime :=
  rt.journalEvent R turn .resize (encodeResizePayload rows cols)

/-- A fact of the session's life is journaled. -/
def journalLifecycle (turn : Turn) (code : LifecycleCode) (exitCode : Option ExitCode) (detail : Bytes) :
    Option SessionRuntime :=
  rt.journalEvent R turn .lifecycle (encodeLifecyclePayload code exitCode detail)

/-- Journal the modes whenever they differ from what was journaled last. -/
def journalModesIfChanged (turn : Turn) (current : ModeSnapshot) : Option SessionRuntime :=
  if rt.journaledModes = some current then some rt
  else do
    let rt ← rt.journalPolicy R turn (ascii "modes".toList) (modesValue current)
    return { rt with journaledModes := some current }

/-- The checkpoint of what the engine shows; an anchor if the scanner is idle. -/
def checkpoint (engine : EngineView) (anchored : Bool) : Checkpoint where
  rows := engine.rows
  cols := engine.cols
  cursor := engine.cursor
  altScreen := engine.altScreen
  appCursorKeys := engine.appCursorKeys
  bracketedPaste := engine.bracketedPaste
  filteredOffset := if anchored then rt.filteredTotalBytes else 0
  program := engine.styledHistoryRows.flatMap (fun row => row ++ [13, 10]) ++ engine.snapshotStream

def journalCheckpoint (turn : Turn) (engine : EngineView) (anchored : Bool) : Option SessionRuntime := do
  let rt ← rt.journalEvent R turn .checkpointRef (encodeCheckpoint (rt.checkpoint engine anchored))
  return { rt with lastJournalCheckpointAt := rt.filteredTotalBytes }

/-- The same, if enough has come since the last one. -/
def journalCheckpointIfDue (turn : Turn) (engine : EngineView) (scannerIdle : Bool) : Option SessionRuntime :=
  if journalCheckpointIntervalBytes ≤ rt.filteredTotalBytes - rt.lastJournalCheckpointAt then
    rt.journalCheckpoint R turn engine scannerIdle
  else some rt

/-- Count a filtered chunk; `meaningfulLen` of it changed what the user can see. -/
def pushOutput (filtered : Bytes) (meaningfulLen : ℕ) : SessionRuntime :=
  if filtered = [] then rt
  else { rt with
    filteredTotalBytes := satAdd rt.filteredTotalBytes filtered.length
    lastTotalBytes := if 0 < meaningfulLen then satAdd rt.lastTotalBytes meaningfulLen else rt.lastTotalBytes }

/-- The session has ended. -/
def isCompleted : Bool :=
  match rt.status with
  | .stopped | .killed | .failed => true
  | .created | .running | .stopping => false

/-- Ask for a group sync. -/
def requestSync : SessionRuntime :=
  { rt with journal := { rt.journal with journal := rt.journal.journal.requestSync } }

/-- Record the end under the persistence barrier. -/
def journalTerminalEnd (turn : Turn) (code : LifecycleCode) (exitCode : Option ExitCode) (detail : Bytes) :
    Option SessionRuntime := do
  let rt ← rt.journalLifecycle R turn code exitCode detail
  return rt.requestSync

/-- Park the end until the output stream has drained. -/
def queueJournalCompletion (turn : Turn) (code : LifecycleCode) (exitCode : Option ExitCode) (detail : Bytes) :
    Option SessionRuntime :=
  if rt.outputClosed then rt.journalTerminalEnd R turn code exitCode detail
  else some { rt with pendingJournalCompletion := some (code, exitCode, detail) }

/-- The fact that a final status is journaled as. -/
def completionCode : SessionStatus → Option LifecycleCode
  | .stopped => some .stopped
  | .killed => some .killed
  | .failed => some .failed
  | .created | .running | .stopping => none

/-- The human-readable detail of the end. -/
def endEvent : Bytes :=
  match rt.status with
  | .stopped => ascii "session stopped exit_code=".toList ++ signedDecimal (rt.exitCode.getD 0).toInt
  | .killed => ascii "session killed exit_code=".toList ++ signedDecimal (rt.exitCode.getD (-1)).toInt
  | .failed => ascii "session failed exit_code=".toList ++ signedDecimal (rt.exitCode.getD (-1)).toInt
  | other => ascii "session ended status=".toList ++ other.asStr

/-- What `mark_completed` does to the state; the end is journaled behind it. -/
def noteCompleted (status : SessionStatus) (exitCode : Option ExitCode) : SessionRuntime := { rt with
  ended := true
  status := status
  requestedFinalStatus := none
  exitCode := exitCode.or rt.exitCode }

/-- The session has ended, which is journaled the first time. -/
def markCompleted (turn : Turn) (status : SessionStatus) (exitCode : Option ExitCode) : Option SessionRuntime :=
  let newlyEnded := !rt.ended
  let rt := rt.noteCompleted status exitCode
  match if newlyEnded then completionCode rt.status else none with
  | some code => rt.queueJournalCompletion R turn code exitCode rt.endEvent
  | none => some rt

/-- Drain the acknowledgements. -/
def pollAcks : SessionRuntime := { rt with journal := { rt.journal with journal := rt.journal.journal.pollAcks } }

/-- Check the child; the acknowledgements are drained first. Returns whether the
session is completed. -/
def refreshStatus (turn : Turn) (child : TryWait) : Option (SessionRuntime × Bool) :=
  let rt := rt.pollAcks
  if rt.isCompleted then some (rt, true)
  else
    match child with
    | .exited code =>
      let status := rt.requestedFinalStatus.getD (if code = 0 then .stopped else .failed)
      (rt.markCompleted R turn status (some code)).map fun rt => (rt, true)
    | .running => some (if rt.status = .stopping then rt else { rt with status := .running }, false)
    | .error => (rt.markCompleted R turn .failed none).map fun rt => (rt, true)

/-- The output stream has ended. Journals that fact and then a parked end. -/
def closeOutputStreamAtBoundary (closed checkpoint completion : Turn) (engine : EngineView) (detail : Bytes)
    (scannerIdle : Bool) : Option SessionRuntime :=
  if rt.outputClosed then some rt
  else do
    let rt := { rt with outputClosed := true }
    let rt ← rt.journalLifecycle R closed .outputClosed none detail
    let rt ← rt.journalCheckpoint R checkpoint engine scannerIdle
    match rt.pendingJournalCompletion with
    | some (code, exitCode, completionDetail) =>
      ({ rt with pendingJournalCompletion := none }).journalTerminalEnd R completion code exitCode completionDetail
    | none => return rt

/-- Resize the terminal; `resized` is whether the device took the size. -/
def resizePty (turn : Turn) (rows cols : ℕ) (resized : Bool) : Option SessionRuntime :=
  if rows = 0 ∨ cols = 0 then some rt
  else if rt.ptySize = some (rows, cols) then some rt
  else if resized then { rt with ptySize := some (rows, cols) }.journalResize R turn rows cols
  else some rt

/-- A stop is asked for, unless the session has completed. -/
def terminate (turn : Turn) (child : TryWait) (requested : SessionStatus) : Option SessionRuntime := do
  let (rt, completed) ← rt.refreshStatus R turn child
  return if completed then rt else { rt with requestedFinalStatus := some requested, status := .stopping }

/-- Ask for the durability of a session that has ended. -/
def prune : SessionRuntime :=
  if rt.isCompleted ∧ rt.outputClosed then
    let rt := rt.pollAcks
    if rt.journal.journal.core.isFullyDurable then rt else rt.requestSync
  else rt

end Operations

end SessionRuntime

/-! ### The session -/

/-- Where the reader thread is. -/
inductive Reader where
  | reading
  /-- It has given up the lock and is about to broadcast. -/
  | sending (chunk : SequencedChunk)
  /-- It has left its loop. -/
  | closing (detail : Bytes)
  | stopped
  deriving DecidableEq, Repr

/-- A session: its runtime, its reader, and what was broadcast. -/
structure LiveSession where
  rt : SessionRuntime
  scanner : PtyScanner
  reader : Reader
  /-- Every chunk that was broadcast. -/
  broadcast : List SequencedChunk

def ptyReadBufferBytes : ℕ := 64 * 1024

def journalStopDetail : Bytes := ascii "journal failed; stopping session (ADR-0006)".toList

namespace LiveSession

/-- What may happen next. -/
inductive Action where
  | background (action : Live.Action)
  /-- The reader takes a chunk, up to the end of its lock. -/
  | read (chunk : Bytes) (engine : EngineView) (modes : ModeSnapshot) (output policy checkpoint : Turn)
  | send
  /-- End of file, or an error. -/
  | hangup (detail : Bytes)
  | close (engine : EngineView) (closed checkpoint completion : Turn)
  /-- The close-out is called once more. -/
  | closeAgain (engine : EngineView) (closed checkpoint completion : Turn) (detail : Bytes) (idle : Bool)
  | refresh (turn : Turn) (child : TryWait)
  | terminate (turn : Turn) (child : TryWait) (requested : SessionStatus)
  | markCompleted (turn : Turn) (status : SessionStatus) (exitCode : Option ExitCode)
  | resize (turn : Turn) (rows cols : ℕ) (resized : Bool)
  | prune

section Steps

variable (bare : Bool) (R : LineReader)

/-- The runtime as `spawn_session` builds it around a journal. -/
def fresh (journal : Live) (rows cols : ℕ) : SessionRuntime where
  status := .running
  exitCode := none
  ended := false
  requestedFinalStatus := none
  lastTotalBytes := 0
  filteredTotalBytes := 0
  lastJournalCheckpointAt := 0
  outputClosed := false
  pendingJournalCompletion := none
  journaledModes := none
  ptySize := some (rows, cols)
  childKilled := false
  journal := journal
  journalFailed := false

/-- Spawn a session on a journal that was opened: the initial geometry, then the
start. What comes of these records is not looked at. -/
def spawn (journal : Live) (rows cols : ℕ) (pid : Bytes) (geometry started : Turn) : Option LiveSession := do
  let (journal, _) ← submit R journal geometry .resize (encodeResizePayload rows cols)
  let (journal, _) ← submit R journal started .lifecycle
    (encodeLifecyclePayload .started none (ascii "session started pid=".toList ++ pid))
  return ⟨fresh journal rows cols, .new, .reading, []⟩

/-- The reader's work under the lock, with what the scanner made of the chunk. -/
def readLocked (rt : SessionRuntime) (chunk filtered : Bytes) (meaningfulLen : ℕ) (idle : Bool)
    (engine : EngineView) (modes : ModeSnapshot) (output policy checkpoint : Turn) : Option SessionRuntime := do
  let rt ← rt.journalOutput R output chunk
  let rt := rt.pushOutput filtered meaningfulLen
  let rt ← rt.journalModesIfChanged R policy modes
  let rt ← rt.journalCheckpointIfDue R checkpoint engine idle
  return if rt.journalFailed then { rt with requestedFinalStatus := some .failed, childKilled := true } else rt

/-- What the reader does next. -/
def afterRead (rt : SessionRuntime) (filtered : Bytes) : Reader :=
  if rt.journalFailed then .closing journalStopDetail
  else if filtered = [] then .reading
  else .sending ⟨rt.filteredTotalBytes - filtered.length, filtered⟩

def step (s : LiveSession) : Action → Option LiveSession
  | .background action => do
    let journal ← advance R s.rt.journal [action]
    return { s with rt := { s.rt with journal := journal } }
  | .read chunk engine modes output policy checkpoint =>
    let (scanner, out) := s.scanner.scan bare chunk
    if s.reader = .reading ∧ chunk ≠ [] ∧ chunk.length ≤ ptyReadBufferBytes ∧
        s.rt.filteredTotalBytes + out.filtered.length < 2 ^ 64 then do
      let rt ← readLocked R s.rt chunk out.filtered out.meaningfulBytes scanner.isIdle engine modes
        output policy checkpoint
      return { s with
        rt := rt
        scanner := { scanner with signalsDirty := false }
        reader := afterRead rt out.filtered }
    else none
  | .send =>
    match s.reader with
    | .sending chunk => some { s with reader := .reading, broadcast := s.broadcast ++ [chunk] }
    | _ => none
  | .hangup detail => if s.reader = .reading then some { s with reader := .closing detail } else none
  | .close engine closed checkpoint completion =>
    match s.reader with
    | .closing detail => do
      let rt ← s.rt.closeOutputStreamAtBoundary R closed checkpoint completion engine detail s.scanner.isIdle
      return { s with rt := rt, reader := .stopped }
    | _ => none
  | .closeAgain engine closed checkpoint completion detail idle =>
    if s.rt.outputClosed then do
      let rt ← s.rt.closeOutputStreamAtBoundary R closed checkpoint completion engine detail idle
      return { s with rt := rt }
    else none
  | .refresh turn child => do
    let (rt, _) ← s.rt.refreshStatus R turn child
    return { s with rt := rt }
  | .terminate turn child requested => do
    let rt ← s.rt.terminate R turn child requested
    return { s with rt := rt }
  | .markCompleted turn status exitCode => do
    let rt ← s.rt.markCompleted R turn status exitCode
    return { s with rt := rt }
  | .resize turn rows cols resized => do
    let rt ← s.rt.resizePty R turn rows cols resized
    return { s with rt := rt }
  | .prune => some { s with rt := s.rt.prune }

end Steps

end LiveSession

/-! ### The background -/

/-- The core's side is where it was; acknowledgements may have been added. -/
structure SameCore (s t : ShadowJournal) : Prop where
  core : t.core = s.core
  published : t.published = s.published
  closed : t.closed = s.closed
  waiting : t.waiting = s.waiting
  acks : s.acks <+: t.acks

theorem SameCore.refl (s : ShadowJournal) : SameCore s s := ⟨rfl, rfl, rfl, rfl, List.prefix_rfl⟩

theorem SameCore.trans {s t u : ShadowJournal} (h : SameCore s t) (h' : SameCore t u) : SameCore s u :=
  ⟨h'.core.trans h.core, h'.published.trans h.published, h'.closed.trans h.closed, h'.waiting.trans h.waiting,
    h.acks.trans h'.acks⟩

section Background

variable (s : ShadowJournal)

theorem sameCore_fail (reason : FailReason) : SameCore s (s.fail reason) :=
  ⟨rfl, rfl, rfl, rfl, List.prefix_append _ _⟩

theorem sameCore_start (task : Task) (m : JournalM RollingSegmentWriter) : SameCore s (s.start task m) :=
  ⟨rfl, rfl, rfl, rfl, List.prefix_rfl⟩

theorem sameCore_setPc (pc : Pc) : SameCore s (s.setPc pc) := ⟨rfl, rfl, rfl, rfl, List.prefix_rfl⟩

theorem sameCore_noteSynced : SameCore s s.noteSynced := ⟨rfl, rfl, rfl, rfl, List.prefix_append _ _⟩

theorem sameCore_sealTail : SameCore s s.sealTail := by
  unfold ShadowJournal.sealTail
  split
  · exact sameCore_start s _ _
  · exact sameCore_setPc s _

theorem sameCore_receive (msg : AppenderMsg) : SameCore s (s.receive msg) := by
  rcases hdead : s.appender.dead with _ | reason
  · cases msg with
    | sync =>
      simp only [ShadowJournal.receive, hdead]
      exact sameCore_start s _ _
    | record event =>
      simp only [ShadowJournal.receive, hdead]
      split <;> exact ⟨rfl, rfl, rfl, rfl, by simp [ShadowJournal.fail, ShadowJournal.send, ShadowJournal.start,
        ShadowJournal.setPc]⟩
  · cases msg <;> simp only [ShadowJournal.receive, hdead] <;>
      exact ⟨rfl, rfl, rfl, rfl, List.prefix_append _ _⟩

theorem sameCore_finish (task : Task) (result : Except JournalError RollingSegmentWriter) :
    SameCore s (s.finish task result) := by
  cases task with
  | append event =>
    cases result with
    | ok w => exact ⟨rfl, rfl, rfl, rfl, List.prefix_append _ _⟩
    | error e => exact (sameCore_setPc s _).trans (sameCore_fail _ _)
  | sync =>
    cases result with
    | ok w => exact sameCore_noteSynced s
    | error e => exact (sameCore_setPc s _).trans (sameCore_fail _ _)
  | finalSync =>
    cases result with
    | ok w => exact (sameCore_noteSynced s).trans (sameCore_sealTail _)
    | error e => exact ((sameCore_setPc s _).trans (sameCore_fail _ _)).trans (sameCore_sealTail _)
  | sealTail =>
    cases result with
    | ok w => exact ⟨rfl, rfl, rfl, rfl, List.prefix_rfl⟩
    | error e => exact (sameCore_setPc s _).trans (sameCore_fail _ _)

end Background

section Submit

variable {R : LineReader} {l l' : Live}

/-- The background does not touch the core's side. -/
theorem background_step {a : Live.Action} (ha : isBackground a = true) (h : l.step R a = some l') :
    SameCore l.journal l'.journal := by
  cases a with
  | journal action =>
    obtain ⟨s, hs, rfl⟩ := Option.map_eq_some_iff.mp h
    cases action with
    | receive =>
      simp only [Journal.step] at hs
      split at hs
      · cases hs
        have h := sameCore_receive { l.journal with queue := ‹_› } ‹_›
        exact ⟨h.core, h.published, h.closed, h.waiting, h.acks⟩
      · cases hs
    | timeout =>
      simp only [Journal.step] at hs
      split at hs
      · split at hs
        · cases hs
          exact sameCore_start _ _ _
        · cases hs
      · cases hs
    | effect =>
      simp only [Journal.step] at hs
      split at hs
      · cases hs
        exact ⟨rfl, rfl, rfl, rfl, List.prefix_rfl⟩
      · cases hs
    | fault n =>
      simp only [Journal.step] at hs
      split at hs
      · cases hs
        have h := sameCore_finish { l.journal with disk := applyEffects (Effect.cut n ‹_›) l.journal.disk } ‹_›
          (.error .io)
        exact ⟨h.core, h.published, h.closed, h.waiting, h.acks⟩
      · cases hs
    | finish =>
      simp only [Journal.step] at hs
      split at hs
      · cases hs
        exact sameCore_finish _ _ _
      · cases hs
    | record _ _ _ | retry | stall | pollAcks | requestSync | close | disconnect => cases ha
  | startSweep m =>
    cases h
    exact .refl _
  | sweepEffect i | sweepFault i n =>
    simp only [Live.step] at h
    split at h
    · cases h
      exact ⟨rfl, rfl, rfl, rfl, List.prefix_rfl⟩
    · cases h

theorem background_run : ∀ {as : List Live.Action} {l : Live}, as.all isBackground = true →
    Runs.run (Live.step R) l as = some l' → SameCore l.journal l'.journal
  | [], _, _, h => by
    cases h
    exact .refl _
  | a :: as, _, ha, h => by
    obtain ⟨m, hm, hrun⟩ := Runs.run_cons h
    rw [List.all_cons, Bool.and_eq_true] at ha
    exact (background_step ha.1 hm).trans (background_run ha.2 hrun)

theorem advance_spec {as : List Live.Action} (h : advance R l as = some l') :
    Runs.run (Live.step R) l as = some l' ∧ SameCore l.journal l'.journal := by
  rw [advance, Option.ite_none_right_eq_some] at h
  exact ⟨h.2, background_run h.1 h.2⟩

/-! ### Recording an event -/

/-- No producer waits, and the core is there. -/
structure Idle (s : ShadowJournal) : Prop where
  closed : s.closed = false
  waiting : s.waiting = none

theorem SameCore.idle {s t : ShadowJournal} (h : SameCore s t) (hs : Idle s) : Idle t :=
  ⟨h.closed.trans hs.closed, h.waiting.trans hs.waiting⟩

theorem isDegraded_degrade (core : SequencerCore) (reason : DegradeReason) :
    (core.degrade reason).isDegraded = true := by
  rcases h : core.degraded with _ | r <;> simp [SequencerCore.degrade, SequencerCore.isDegraded, h]

theorem isDegraded_note {core : SequencerCore} (h : core.isDegraded = true) (ack : JournalAck) :
    (core.note ack).isDegraded = true := by
  cases ack with
  | journaled seq | durable seq => exact h
  | failed reason => exact isDegraded_degrade core _

theorem isDegraded_notes {core : SequencerCore} (h : core.isDegraded = true) (acks : List JournalAck) :
    (acks.foldl SequencerCore.note core).isDegraded = true := by
  induction acks generalizing core with
  | nil => exact h
  | cons ack acks ih => exact ih (isDegraded_note h ack)

/-- An announced failure is seen by a poll. -/
theorem isDegraded_failed {core : SequencerCore} {acks : List JournalAck} {reason : FailReason}
    (h : JournalAck.failed reason ∈ acks) : (acks.foldl SequencerCore.note core).isDegraded = true := by
  obtain ⟨pre, post, rfl⟩ := List.append_of_mem h
  rw [List.foldl_append, List.foldl_cons]
  exact isDegraded_notes (isDegraded_degrade _ _) post

theorem isDegraded_publish (core : SequencerCore) (kind : RecordKind) (payload : Bytes) (elapsed : ℕ) :
    (core.publish kind payload elapsed).2.isDegraded = core.isDegraded := by
  unfold SequencerCore.publish
  dsimp only
  split <;> rfl

/-- What submitting an event leaves: a refusal degrades the core, and while the
producer waits the core is as it was. -/
structure Tried (s t : ShadowJournal) (result : ShadowJournal.Submission) : Prop where
  published : t.published = s.published
  closed : t.closed = s.closed
  waiting : ∀ r, result = some r → t.waiting = s.waiting
  degraded : ∀ r, result = some r → t.core.isDegraded = (s.core.isDegraded || !r.isOk)
  waits : result = none → t.core = s.core

theorem trySubmit_spec (s : ShadowJournal) (event : OrderedEvent) :
    Tried s (s.trySubmit event).1 (s.trySubmit event).2 := by
  have hrefused : ∀ (error : JournalSubmitError) (r : Except JournalSubmitError ℕ), some (.error error) = some r →
      (s.degrade error).core.isDegraded = (s.core.isDegraded || !r.isOk) := by
    intro error r hr
    cases hr
    exact (isDegraded_degrade _ _).trans (Bool.or_true _).symm
  unfold ShadowJournal.trySubmit
  split
  · exact ⟨rfl, rfl, fun _ _ => rfl, hrefused _, nofun⟩
  split
  · exact ⟨rfl, rfl, fun _ _ => rfl, hrefused _, nofun⟩
  split
  · refine ⟨rfl, rfl, fun _ _ => rfl, fun r hr => ?_, nofun⟩
    cases hr
    exact (Bool.or_false _).symm
  · exact ⟨rfl, rfl, nofun, nofun, fun _ => rfl⟩

/-- A core that is not degraded publishes the event. -/
theorem record_spec {s : ShadowJournal} (h : s.pollAcks.core.isDegraded = false) (kind : RecordKind) (payload : Bytes)
    (elapsed : ℕ) : ∃ (e : OrderedEvent) (t : ShadowJournal), e.kind = kind ∧ e.payload = payload ∧
      t.published = s.published ++ [e] ∧ t.closed = s.closed ∧ t.waiting = s.waiting ∧ t.core.isDegraded = false ∧
      Tried t (s.record kind payload elapsed).1 (s.record kind payload elapsed).2 := by
  refine ⟨(s.pollAcks.core.publish kind payload elapsed).1, { s.pollAcks with
    core := (s.pollAcks.core.publish kind payload elapsed).2
    published := s.published ++ [(s.pollAcks.core.publish kind payload elapsed).1] }, rfl, rfl, rfl, rfl, rfl, ?_, ?_⟩
  · exact (isDegraded_publish _ _ _ _).trans h
  · rw [ShadowJournal.record, if_neg (by rw [h]; decide)]
    exact trySubmit_spec _ _

/-- What a recorded event leaves. -/
structure Submitted (R : LineReader) (l l' : Live) (kind : RecordKind) (payload : Bytes) (failed : Bool) : Prop where
  run : ∃ as, Runs.run (Live.step R) l as = some l'
  idle : Idle l'.journal
  degraded : l'.journal.core.isDegraded = failed
  /-- A failure of the appender that was announced is seen. -/
  polled : ∀ reason, JournalAck.failed reason ∈ l.journal.acks → failed = true
  /-- The event is published, unless persistence had failed. -/
  outcome : (l'.journal.published = l.journal.published ∧ failed = true) ∨
    l.journal.core.isDegraded = false ∧
      ∃ e : OrderedEvent, e.kind = kind ∧ e.payload = payload ∧ l'.journal.published = l.journal.published ++ [e]

theorem resubmit_spec {l l' : Live} {result : Except JournalSubmitError ℕ} (h : resubmit l = some (l', result))
    (hclosed : l.journal.closed = false) (hok : l.journal.core.isDegraded = false) :
    (∃ a, Live.step R l a = some l') ∧ Idle l'.journal ∧ l'.journal.published = l.journal.published ∧
      l'.journal.core.isDegraded = !result.isOk := by
  unfold resubmit at h
  rcases hw : l.journal.waiting with _ | event
  · rw [hw] at h
    cases h
  rw [hw] at h
  simp only [ShadowJournal.retry] at h
  by_cases hstop : l.journal.isStopped = true
  · simp only [hstop, if_true, Option.some.injEq, Prod.mk.injEq] at h
    obtain ⟨rfl, rfl⟩ := h
    refine ⟨⟨.journal .retry, ?_⟩, ⟨hclosed, rfl⟩, rfl, isDegraded_degrade _ _⟩
    simp [Live.step, Journal.step, hw, ShadowJournal.retry, hstop]
  by_cases hroom : l.journal.queue.length < defaultQueueCapacity
  · simp only [hstop, hroom, if_true, if_false, Option.some.injEq, Prod.mk.injEq, Bool.false_eq_true] at h
    obtain ⟨rfl, rfl⟩ := h
    refine ⟨⟨.journal .retry, ?_⟩, ⟨hclosed, rfl⟩, rfl, hok⟩
    simp [Live.step, Journal.step, hw, ShadowJournal.retry, hstop, hroom]
  · simp only [hstop, hroom, if_false, ShadowJournal.stall, Option.map_some, Option.some.injEq, Prod.mk.injEq,
      Bool.false_eq_true] at h
    obtain ⟨rfl, rfl⟩ := h
    refine ⟨⟨.journal .stall, ?_⟩, ⟨hclosed, rfl⟩, rfl, isDegraded_degrade _ _⟩
    simp [Live.step, Journal.step, hw, ShadowJournal.stall]

theorem submit_spec {turn : Turn} {kind : RecordKind} {payload : Bytes} {result : Except JournalSubmitError ℕ}
    (h : submit R l turn kind payload = some (l', result)) (hidle : Idle l.journal) :
    Submitted R l l' kind payload (!result.isOk) := by
  unfold submit at h
  rcases hadv : advance R l turn.before with _ | m
  · rw [hadv] at h
    cases h
  rw [hadv] at h
  obtain ⟨hrun, hsame⟩ := advance_spec hadv
  have hidle' := hsame.idle hidle
  simp only at h
  split at h
  case isFalse => cases h
  rename_i hlt
  -- the record's own step, and what it comes to
  have hstep : Live.step R m (.journal (.record kind payload turn.elapsed)) =
      some { m with journal := (m.journal.record kind payload turn.elapsed).1 } := by
    rw [Live.step, Journal.step, if_pos ⟨hidle'.closed, hidle'.waiting, hlt⟩]
    rfl
  have hrun' : Runs.run (Live.step R) l (turn.before ++ [.journal (.record kind payload turn.elapsed)]) =
      some { m with journal := (m.journal.record kind payload turn.elapsed).1 } := by
    rw [Runs.run_append, hrun, Option.bind_some, Runs.run, hstep]
    rfl
  by_cases hdeg : m.journal.pollAcks.core.isDegraded = true
  · have hrec : m.journal.record kind payload turn.elapsed = (m.journal.pollAcks, some (.error .persistenceDegraded)) := by
      rw [ShadowJournal.record, if_pos hdeg]
    rw [hrec] at h hrun'
    cases h
    exact ⟨⟨_, hrun'⟩, ⟨hidle'.closed, hidle'.waiting⟩, hdeg, fun _ _ => rfl, .inl ⟨hsame.published, rfl⟩⟩
  rw [Bool.not_eq_true] at hdeg
  have hpolled : ∀ reason, JournalAck.failed reason ∉ l.journal.acks := by
    intro reason hmem
    have hseen := @isDegraded_failed m.journal.core _ _ (hsame.acks.subset hmem)
    exact Bool.false_ne_true (hdeg.symm.trans hseen)
  have hhealthy : l.journal.core.isDegraded = false := by
    by_contra hbad
    rw [Bool.not_eq_false, ← hsame.core] at hbad
    exact Bool.false_ne_true (hdeg.symm.trans (isDegraded_notes hbad m.journal.acks))
  obtain ⟨e, t, hkind, hpayload, hpub, hclosed, hwaiting, htdeg, htried⟩ :=
    record_spec hdeg kind payload turn.elapsed
  rcases hrec : m.journal.record kind payload turn.elapsed with ⟨s, _ | r⟩
  · rw [hrec] at h hrun' htried
    obtain ⟨w, hw, hres⟩ := Option.bind_eq_some_iff.mp h
    obtain ⟨hrunw, hsamew⟩ := advance_spec hw
    obtain ⟨⟨a, ha⟩, hidle'', hpub', hdeg'⟩ := resubmit_spec (R := R) hres
      (hsamew.closed.trans (htried.closed.trans (hclosed.trans hidle'.closed)))
      (by rw [hsamew.core, htried.waits rfl, htdeg])
    refine ⟨⟨turn.before ++ [.journal (.record kind payload turn.elapsed)] ++ turn.during ++ [a], ?_⟩,
      hidle'', hdeg', fun reason hmem => absurd hmem (hpolled reason),
      .inr ⟨hhealthy, e, hkind, hpayload, ?_⟩⟩
    · rw [Runs.run_append, Runs.run_append, hrun', Option.bind_some, hrunw, Option.bind_some, Runs.run, ha]
      rfl
    · rw [hpub', hsamew.published, htried.published, hpub, hsame.published]
  · rw [hrec] at h hrun' htried
    cases h
    refine ⟨⟨_, hrun'⟩, ⟨?_, ?_⟩, ?_, fun reason hmem => absurd hmem (hpolled reason),
      .inr ⟨hhealthy, e, hkind, hpayload, ?_⟩⟩
    · exact htried.closed.trans (hclosed.trans hidle'.closed)
    · exact (htried.waiting _ rfl).trans (hwaiting.trans hidle'.waiting)
    · exact (htried.degraded _ rfl).trans (by rw [htdeg, Bool.false_or])
    · exact htried.published.trans (by rw [hpub, hsame.published])

end Submit

/-! ### What an operation does to the journal -/

namespace SessionRuntime

/-- The records published so far. -/
def records (rt : SessionRuntime) : List Record := rt.journal.journal.published.map OrderedEvent.record

/-- How the runtime's journal goes on. Nothing is published once the core is
degraded. -/
structure Advances (R : LineReader) (rt rt' : SessionRuntime) : Prop where
  run : ∃ as, Runs.run (Live.step R) rt.journal as = some rt'.journal
  idle : Idle rt'.journal.journal
  keeps : rt.isDegraded = true → rt'.isDegraded = true
  flagged : rt.journalFailed = true → rt'.journalFailed = true
  sound : rt'.journalFailed = true → rt.journalFailed = true ∨ rt'.isDegraded = true
  published : rt.records <+: rt'.records
  silent : rt.isDegraded = true → rt'.records = rt.records

/-- It goes on by records alone: no failure of the appender comes to the core's
knowledge but through one, and then the flag is set. -/
structure Evolves (R : LineReader) (rt rt' : SessionRuntime) : Prop extends Advances R rt rt' where
  loud : rt'.isDegraded = true → rt.isDegraded = true ∨ rt'.journalFailed = true

variable {R : LineReader} {rt rt' rt'' : SessionRuntime}

theorem Advances.trans (h : Advances R rt rt') (h' : Advances R rt' rt'') : Advances R rt rt'' := by
  obtain ⟨as, has⟩ := h.run
  obtain ⟨bs, hbs⟩ := h'.run
  refine ⟨⟨as ++ bs, by rw [Runs.run_append, has]; exact hbs⟩, h'.idle, fun hd => h'.keeps (h.keeps hd),
    fun hf => h'.flagged (h.flagged hf), fun hf => ?_, h.published.trans h'.published, fun hd => ?_⟩
  · rcases h'.sound hf with hf' | hd
    · exact (h.sound hf').imp_right h'.keeps
    · exact .inr hd
  · exact (h'.silent (h.keeps hd)).trans (h.silent hd)

theorem Evolves.trans (h : Evolves R rt rt') (h' : Evolves R rt' rt'') : Evolves R rt rt'' := by
  refine ⟨h.toAdvances.trans h'.toAdvances, fun hd => ?_⟩
  rcases h'.loud hd with hd' | hf
  · exact (h.loud hd').imp_right h'.flagged
  · exact .inr hf

/-- The journal is not concerned. -/
theorem Evolves.of_journal (hidle : Idle rt.journal.journal) (hj : rt'.journal = rt.journal)
    (hf : rt'.journalFailed = rt.journalFailed) : Evolves R rt rt' := by
  have hdeg : rt'.isDegraded = rt.isDegraded := by rw [isDegraded, hj, isDegraded]
  have hrec : rt'.records = rt.records := by rw [records, hj, records]
  refine ⟨⟨⟨[], by rw [hj]; rfl⟩, by rw [hj]; exact hidle, fun h => hdeg.trans h, fun h => hf.trans h,
    fun h => .inl (hf.symm.trans h), by rw [hrec], fun _ => hrec⟩, fun h => ?_⟩
  exact .inl (hdeg.symm.trans h)

theorem Evolves.refl (hidle : Idle rt.journal.journal) : Evolves R rt rt := .of_journal hidle rfl rfl

/-- What a journal event leaves. -/
structure Recorded (R : LineReader) (rt rt' : SessionRuntime) (kind : RecordKind) (payload : Bytes) : Prop where
  rest : rt' = { rt with journal := rt'.journal, journalFailed := rt'.journalFailed }
  evolves : Evolves R rt rt'
  polled : ∀ reason, JournalAck.failed reason ∈ rt.journal.journal.acks → rt'.isDegraded = true
  outcome : (rt'.records = rt.records ∧ rt'.isDegraded = true) ∨
    ∃ r : Record, r.kind = kind ∧ r.payload = payload ∧ rt'.records = rt.records ++ [r]

/-- **A journal event.** -/
theorem journalEvent_spec {turn : Turn} {kind : RecordKind} {payload : Bytes}
    (h : rt.journalEvent R turn kind payload = some rt') (hidle : Idle rt.journal.journal) :
    Recorded R rt rt' kind payload := by
  simp only [journalEvent, Option.pure_def, Option.bind_eq_bind, Option.bind_eq_some_iff] at h
  obtain ⟨⟨m, result⟩, hsub, l, hadv, hrt'⟩ := h
  cases hrt'
  have hs := submit_spec hsub hidle
  obtain ⟨hrun, hsame⟩ := advance_spec hadv
  obtain ⟨as, has⟩ := hs.run
  have hdeg : l.journal.core.isDegraded = !result.isOk := by rw [hsame.core, hs.degraded]
  have hpub : l.journal.published = m.journal.published := hsame.published
  have hout : (l.journal.published.map OrderedEvent.record = rt.records ∧ (!result.isOk) = true) ∨
      rt.isDegraded = false ∧ ∃ r : Record, r.kind = kind ∧ r.payload = payload ∧
        l.journal.published.map OrderedEvent.record = rt.records ++ [r] := by
    rcases hs.outcome with ⟨hsamepub, hfail⟩ | ⟨hok, e, hk, hp, he⟩
    · exact .inl ⟨by rw [hpub, hsamepub]; rfl, hfail⟩
    · refine .inr ⟨hok, e.record, hk, hp, ?_⟩
      rw [hpub, he, List.map_append]
      rfl
  refine ⟨rfl, ⟨⟨⟨as ++ turn.after, ?_⟩, hsame.idle hs.idle, fun hd => ?_, fun hf => ?_, fun hf => ?_, ?_,
    fun hd => ?_⟩, fun hd => ?_⟩,
    fun reason hmem => ?_, ?_⟩
  · rw [Runs.run_append, has]
    exact hrun
  · rcases hout with ⟨-, hfail⟩ | ⟨hok, -⟩
    · exact hdeg.trans hfail
    · exact absurd hok (by rw [hd]; decide)
  · simp only [hf, Bool.true_or]
  · simp only [Bool.or_eq_true, Bool.and_eq_true] at hf
    exact hf.imp_right fun hnew => hdeg.trans hnew.1
  · rcases hout with ⟨hsame', -⟩ | ⟨-, r, -, -, hr⟩
    · exact hsame' ▸ List.prefix_rfl
    · exact ⟨[r], hr.symm⟩
  · rcases hout with ⟨hsame', -⟩ | ⟨hok, -⟩
    · exact hsame'
    · exact absurd hok (by rw [hd]; decide)
  · rw [isDegraded, hdeg] at hd
    by_cases hwas : rt.isDegraded = true
    · exact .inl hwas
    · rw [Bool.not_eq_true] at hwas
      exact .inr (by simp only [hd, hwas, Bool.not_false, Bool.and_true, Bool.or_true])
  · exact hdeg.trans (hs.polled reason hmem)
  · rcases hout with ⟨hsame', hfail⟩ | ⟨-, r, hk, hp, hr⟩
    · exact .inl ⟨hsame', hdeg.trans hfail⟩
    · exact .inr ⟨r, hk, hp, hr⟩

/-! ### The operations -/

theorem requestSync_sameCore (s : ShadowJournal) : SameCore s s.requestSync := by
  unfold ShadowJournal.requestSync
  split
  · exact .refl s
  · exact ⟨rfl, rfl, rfl, rfl, List.prefix_rfl⟩

theorem requestSync_spec (hidle : Idle rt.journal.journal) :
    Evolves R rt rt.requestSync ∧ rt.requestSync.records = rt.records := by
  have hsame := requestSync_sameCore rt.journal.journal
  have hdeg : rt.requestSync.isDegraded = rt.isDegraded := by
    rw [isDegraded, requestSync, hsame.core, isDegraded]
  have hrec : rt.requestSync.records = rt.records := by rw [records, requestSync, hsame.published, records]
  refine ⟨⟨⟨⟨[.journal .requestSync], ?_⟩, hsame.idle hidle, fun h => hdeg.trans h, id, .inl, by rw [hrec],
    fun _ => hrec⟩, fun h => .inl (hdeg.symm.trans h)⟩, hrec⟩
  rw [Runs.run, Live.step, Journal.step, if_pos hidle.closed]
  rfl

/-- A poll may find that persistence has failed; the flag is not set then. -/
theorem pollAcks_spec (hidle : Idle rt.journal.journal) :
    Advances R rt rt.pollAcks ∧ rt.pollAcks.records = rt.records := by
  refine ⟨⟨⟨[.journal .pollAcks], ?_⟩, ⟨hidle.closed, hidle.waiting⟩, fun h => isDegraded_notes h _, id, .inl,
    List.prefix_rfl, fun _ => rfl⟩, rfl⟩
  rw [Runs.run, Live.step, Journal.step, if_pos ⟨hidle.closed, hidle.waiting⟩]
  rfl

/-- The end is recorded. -/
theorem journalTerminalEnd_spec {turn : Turn} {code : LifecycleCode} {exitCode : Option ExitCode} {detail : Bytes}
    (h : rt.journalTerminalEnd R turn code exitCode detail = some rt') (hidle : Idle rt.journal.journal) :
    ∃ rt₁, Recorded R rt rt₁ .lifecycle (encodeLifecyclePayload code exitCode detail) ∧ rt' = rt₁.requestSync ∧
      Evolves R rt rt' ∧ rt'.records = rt₁.records := by
  simp only [journalTerminalEnd, Option.pure_def, Option.bind_eq_bind, Option.bind_eq_some_iff] at h
  obtain ⟨rt₁, h₁, hrt'⟩ := h
  cases hrt'
  have hr := journalEvent_spec h₁ hidle
  obtain ⟨hev, hrec⟩ := @requestSync_spec R rt₁ hr.evolves.idle
  exact ⟨rt₁, hr, rfl, hr.evolves.trans hev, hrec⟩

/-- **What `mark_completed` comes to**: it notes the outcome, and the first time it
journals the end or parks it. -/
theorem markCompleted_cases {turn : Turn} {status : SessionStatus} {exitCode : Option ExitCode}
    (h : rt.markCompleted R turn status exitCode = some rt') :
    ((rt.ended = true ∨ completionCode status = none) ∧ rt' = rt.noteCompleted status exitCode) ∨
    ∃ code, rt.ended = false ∧ completionCode status = some code ∧
      ((rt.outputClosed = true ∧ (rt.noteCompleted status exitCode).journalTerminalEnd R turn code exitCode
          (rt.noteCompleted status exitCode).endEvent = some rt') ∨
        rt.outputClosed = false ∧ rt' = { rt.noteCompleted status exitCode with
          pendingJournalCompletion := some (code, exitCode, (rt.noteCompleted status exitCode).endEvent) }) := by
  unfold markCompleted at h
  have hstatus : (rt.noteCompleted status exitCode).status = status := rfl
  rcases hended : rt.ended with _ | _
  · rcases hcode : completionCode status with _ | code
    · simp only [hended, hstatus, hcode, Bool.not_false, if_true, Option.some.injEq] at h
      exact .inl ⟨.inr rfl, h.symm⟩
    · refine .inr ⟨code, rfl, rfl, ?_⟩
      simp only [hended, hstatus, hcode, Bool.not_false, if_true, queueJournalCompletion] at h
      split at h
      · exact .inl ⟨‹_›, h⟩
      · cases h
        exact .inr ⟨Bool.eq_false_iff.mpr ‹_›, rfl⟩
  · simp only [hended, Bool.not_true, Bool.false_eq_true, if_false, Option.some.injEq] at h
    exact .inl ⟨.inl rfl, h.symm⟩

theorem markCompleted_evolves {turn : Turn} {status : SessionStatus} {exitCode : Option ExitCode}
    (h : rt.markCompleted R turn status exitCode = some rt') (hidle : Idle rt.journal.journal) : Evolves R rt rt' := by
  have hnote : Evolves R rt (rt.noteCompleted status exitCode) := .of_journal hidle rfl rfl
  rcases markCompleted_cases h with ⟨-, rfl⟩ | ⟨code, -, -, ⟨-, hend⟩ | ⟨-, rfl⟩⟩
  · exact hnote
  · obtain ⟨-, -, -, hev, -⟩ := journalTerminalEnd_spec hend hnote.idle
    exact hnote.trans hev
  · exact .of_journal hidle rfl rfl

/-- **What a refresh comes to**: behind the poll, it does nothing to a completed
session; otherwise the child has ended, or runs. -/
theorem refreshStatus_cases {turn : Turn} {child : TryWait} {completed : Bool}
    (h : rt.refreshStatus R turn child = some (rt', completed)) :
    (rt.isCompleted = true ∧ completed = true ∧ rt' = rt.pollAcks) ∨
    (rt.isCompleted = false ∧ completed = true ∧
      ∃ status exitCode, rt.pollAcks.markCompleted R turn status exitCode = some rt' ∧
        ∀ code, exitCode = some code → child = .exited code) ∨
    (rt.isCompleted = false ∧ completed = false ∧
      rt' = if rt.status = .stopping then rt.pollAcks else { rt.pollAcks with status := .running }) := by
  unfold refreshStatus at h
  have hcompleted : rt.pollAcks.isCompleted = rt.isCompleted := rfl
  rcases hc : rt.isCompleted with _ | _
  · simp only [hcompleted, hc, Bool.false_eq_true, if_false] at h
    cases child with
    | exited code =>
      obtain ⟨rt₁, h₁, heq⟩ := Option.map_eq_some_iff.mp h
      cases heq
      refine .inr (.inl ⟨rfl, rfl, _, _, h₁, fun code' hcode => ?_⟩)
      cases hcode
      rfl
    | running =>
      cases h
      exact .inr (.inr ⟨rfl, rfl, rfl⟩)
    | error =>
      obtain ⟨rt₁, h₁, heq⟩ := Option.map_eq_some_iff.mp h
      cases heq
      exact .inr (.inl ⟨rfl, rfl, _, _, h₁, nofun⟩)
  · simp only [hcompleted, hc, if_true] at h
    cases h
    exact .inl ⟨rfl, rfl, rfl⟩

/-- A refresh is a poll, and then goes on by records alone. -/
theorem refreshStatus_evolves {turn : Turn} {child : TryWait} {completed : Bool}
    (h : rt.refreshStatus R turn child = some (rt', completed)) (hidle : Idle rt.journal.journal) :
    Evolves R rt.pollAcks rt' := by
  have hidle' : Idle rt.pollAcks.journal.journal := ⟨hidle.closed, hidle.waiting⟩
  rcases refreshStatus_cases h with ⟨-, -, rfl⟩ | ⟨-, -, status, exitCode, hm, -⟩ | ⟨-, -, rfl⟩
  · exact .refl hidle'
  · exact markCompleted_evolves hm hidle'
  · split
    · exact .refl hidle'
    · exact .of_journal hidle' rfl rfl

/-- Stopping is only noted in a session that has not completed. -/
theorem terminate_cases {turn : Turn} {child : TryWait} {requested : SessionStatus}
    (h : rt.terminate R turn child requested = some rt') :
    ∃ rt₁ completed, rt.refreshStatus R turn child = some (rt₁, completed) ∧
      rt' = if completed then rt₁ else { rt₁ with requestedFinalStatus := some requested, status := .stopping } := by
  simp only [terminate, Option.pure_def, Option.bind_eq_bind, Option.bind_eq_some_iff] at h
  obtain ⟨⟨rt₁, completed⟩, h₁, heq⟩ := h
  cases heq
  exact ⟨rt₁, completed, h₁, rfl⟩

theorem terminate_evolves {turn : Turn} {child : TryWait} {requested : SessionStatus}
    (h : rt.terminate R turn child requested = some rt') (hidle : Idle rt.journal.journal) :
    Evolves R rt.pollAcks rt' := by
  obtain ⟨rt₁, completed, h₁, rfl⟩ := terminate_cases h
  have hev := refreshStatus_evolves h₁ hidle
  split
  · exact hev
  · exact hev.trans (.of_journal hev.idle rfl rfl)

theorem journalModesIfChanged_spec {turn : Turn} {modes : ModeSnapshot}
    (h : rt.journalModesIfChanged R turn modes = some rt') (hidle : Idle rt.journal.journal) :
    rt' = rt ∨ ∃ rt₁, Recorded R rt rt₁ .policy (policyPayload (ascii "modes".toList) (modesValue modes)) ∧
      rt' = { rt₁ with journaledModes := some modes } := by
  unfold journalModesIfChanged at h
  split at h
  · cases h
    exact .inl rfl
  · simp only [Option.pure_def, Option.bind_eq_bind, Option.bind_eq_some_iff] at h
    obtain ⟨rt₁, h₁, heq⟩ := h
    cases heq
    exact .inr ⟨rt₁, journalEvent_spec h₁ hidle, rfl⟩

theorem journalCheckpoint_spec {turn : Turn} {engine : EngineView} {anchored : Bool}
    (h : rt.journalCheckpoint R turn engine anchored = some rt') (hidle : Idle rt.journal.journal) :
    ∃ rt₁, Recorded R rt rt₁ .checkpointRef (encodeCheckpoint (rt.checkpoint engine anchored)) ∧
      rt' = { rt₁ with lastJournalCheckpointAt := rt₁.filteredTotalBytes } := by
  simp only [journalCheckpoint, Option.pure_def, Option.bind_eq_bind, Option.bind_eq_some_iff] at h
  obtain ⟨rt₁, h₁, heq⟩ := h
  cases heq
  exact ⟨rt₁, journalEvent_spec h₁ hidle, rfl⟩

theorem journalCheckpointIfDue_spec {turn : Turn} {engine : EngineView} {idle : Bool}
    (h : rt.journalCheckpointIfDue R turn engine idle = some rt') (hidle : Idle rt.journal.journal) :
    rt' = rt ∨ ∃ rt₁, Recorded R rt rt₁ .checkpointRef (encodeCheckpoint (rt.checkpoint engine idle)) ∧
      rt' = { rt₁ with lastJournalCheckpointAt := rt₁.filteredTotalBytes } := by
  unfold journalCheckpointIfDue at h
  split at h
  · exact .inr (journalCheckpoint_spec h hidle)
  · cases h
    exact .inl rfl

/-- **What closing the stream comes to**: the close, a checkpoint, and a parked
end. -/
theorem close_cases {closed checkpoint completion : Turn} {engine : EngineView} {detail : Bytes} {idle : Bool}
    (h : rt.closeOutputStreamAtBoundary R closed checkpoint completion engine detail idle = some rt')
    (hidle : Idle rt.journal.journal) :
    (rt.outputClosed = true ∧ rt' = rt) ∨ (rt.outputClosed = false ∧ ∃ rt₁ rt₂ rt₃,
      Recorded R { rt with outputClosed := true } rt₁ .lifecycle (encodeLifecyclePayload .outputClosed none detail) ∧
      Recorded R rt₁ rt₂ .checkpointRef (encodeCheckpoint (rt₁.checkpoint engine idle)) ∧
      rt₃ = { rt₂ with lastJournalCheckpointAt := rt₂.filteredTotalBytes } ∧
      ((rt₃.pendingJournalCompletion = none ∧ rt' = rt₃) ∨
        ∃ code exitCode completionDetail, rt₃.pendingJournalCompletion = some (code, exitCode, completionDetail) ∧
          { rt₃ with pendingJournalCompletion := none }.journalTerminalEnd R completion code exitCode
            completionDetail = some rt')) := by
  unfold closeOutputStreamAtBoundary at h
  split at h
  · cases h
    exact .inl ⟨‹_›, rfl⟩
  · rename_i hopen
    simp only [Option.pure_def, Option.bind_eq_bind, Option.bind_eq_some_iff] at h
    obtain ⟨rt₁, h₁, rt₃, h₃, hrest⟩ := h
    have hr₁ := journalEvent_spec h₁ hidle
    obtain ⟨rt₂, hr₂, heq⟩ := journalCheckpoint_spec h₃ hr₁.evolves.idle
    refine .inr ⟨Bool.eq_false_iff.mpr hopen, rt₁, rt₂, rt₃, hr₁, hr₂, heq, ?_⟩
    rcases hp : rt₃.pendingJournalCompletion with _ | ⟨code, exitCode, completionDetail⟩
    · simp only [hp, Option.some.injEq] at hrest
      exact .inl ⟨rfl, hrest.symm⟩
    · simp only [hp] at hrest
      exact .inr ⟨code, exitCode, completionDetail, rfl, hrest⟩

theorem close_evolves {closed checkpoint completion : Turn} {engine : EngineView} {detail : Bytes} {idle : Bool}
    (h : rt.closeOutputStreamAtBoundary R closed checkpoint completion engine detail idle = some rt')
    (hidle : Idle rt.journal.journal) : Evolves R rt rt' := by
  rcases close_cases h hidle with ⟨-, rfl⟩ | ⟨-, rt₁, rt₂, rt₃, hr₁, hr₂, rfl, hend⟩
  · exact .refl hidle
  · have hopen : Evolves R rt { rt with outputClosed := true } := .of_journal hidle rfl rfl
    have h₂ := (hopen.trans hr₁.evolves).trans hr₂.evolves
    have h₃ : Evolves R rt { rt₂ with lastJournalCheckpointAt := rt₂.filteredTotalBytes } :=
      h₂.trans (.of_journal h₂.idle rfl rfl)
    rcases hend with ⟨-, rfl⟩ | ⟨code, exitCode, completionDetail, -, hterm⟩
    · exact h₃
    · obtain ⟨-, -, -, hev, -⟩ := journalTerminalEnd_spec hterm h₂.idle
      refine Evolves.trans ?_ hev
      exact h₃.trans (.of_journal h₃.idle rfl rfl)

theorem resizePty_spec {turn : Turn} {rows cols : ℕ} {resized : Bool}
    (h : rt.resizePty R turn rows cols resized = some rt') (hidle : Idle rt.journal.journal) :
    rt' = rt ∨ Recorded R { rt with ptySize := some (rows, cols) } rt' .resize (encodeResizePayload rows cols) := by
  unfold resizePty at h
  split at h
  · cases h
    exact .inl rfl
  split at h
  · cases h
    exact .inl rfl
  split at h
  · exact .inr (journalEvent_spec h hidle)
  · cases h
    exact .inl rfl

theorem resizePty_evolves {turn : Turn} {rows cols : ℕ} {resized : Bool}
    (h : rt.resizePty R turn rows cols resized = some rt') (hidle : Idle rt.journal.journal) : Evolves R rt rt' := by
  rcases resizePty_spec h hidle with rfl | hr
  · exact .refl hidle
  · refine Evolves.trans ?_ hr.evolves
    exact .of_journal hidle rfl rfl

theorem pushOutput_journal (filtered : Bytes) (n : ℕ) : (rt.pushOutput filtered n).journal = rt.journal ∧
    (rt.pushOutput filtered n).journalFailed = rt.journalFailed := by
  unfold pushOutput
  split <;> exact ⟨rfl, rfl⟩

/-- The counter of the filtered stream. -/
theorem pushOutput_filtered (filtered : Bytes) (n : ℕ) (h : rt.filteredTotalBytes + filtered.length < 2 ^ 64) :
    (rt.pushOutput filtered n).filteredTotalBytes = rt.filteredTotalBytes + filtered.length := by
  unfold pushOutput
  split
  · rename_i hnil
    rw [hnil, List.length_nil, Nat.add_zero]
  · exact satAdd_eq h

theorem prune_advances (hidle : Idle rt.journal.journal) : Advances R rt rt.prune ∧ rt.prune.records = rt.records := by
  unfold prune
  split
  · obtain ⟨hpoll, hrec⟩ := @pollAcks_spec R rt hidle
    dsimp only
    split
    · exact ⟨hpoll, hrec⟩
    · obtain ⟨hsync, hrec'⟩ := @requestSync_spec R rt.pollAcks hpoll.idle
      exact ⟨hpoll.trans hsync.toAdvances, hrec'.trans hrec⟩
  · exact ⟨(Evolves.refl hidle).toAdvances, rfl⟩

end SessionRuntime

namespace LiveSession

open SessionRuntime

variable {R : LineReader} {rt rt' : SessionRuntime}

/-- The steps of a read: the chunk, the counters, and perhaps the modes and a
checkpoint. -/
structure ReadSteps (R : LineReader) (rt rt₁ rt₂ rt₃ rt₄ : SessionRuntime) (chunk filtered : Bytes)
    (meaningfulLen : ℕ) (idle : Bool) (engine : EngineView) (modes : ModeSnapshot) : Prop where
  output : Recorded R rt rt₁ .output chunk
  push : rt₂ = rt₁.pushOutput filtered meaningfulLen
  modes : rt₃ = rt₂ ∨ ∃ m, Recorded R rt₂ m .policy (policyPayload (ascii "modes".toList) (modesValue modes)) ∧
    rt₃ = { m with journaledModes := some modes }
  checkpoint : rt₄ = rt₃ ∨ ∃ m, Recorded R rt₃ m .checkpointRef (encodeCheckpoint (rt₃.checkpoint engine idle)) ∧
    rt₄ = { m with lastJournalCheckpointAt := m.filteredTotalBytes }

namespace ReadSteps

variable {rt₁ rt₂ rt₃ rt₄ : SessionRuntime} {chunk filtered : Bytes} {meaningfulLen : ℕ} {idle : Bool}
  {engine : EngineView} {modes : ModeSnapshot}

theorem pushed (h : ReadSteps R rt rt₁ rt₂ rt₃ rt₄ chunk filtered meaningfulLen idle engine modes) :
    Evolves R rt₁ rt₂ := by
  rw [h.push]
  exact .of_journal h.output.evolves.idle (pushOutput_journal _ _).1 (pushOutput_journal _ _).2

theorem moded (h : ReadSteps R rt rt₁ rt₂ rt₃ rt₄ chunk filtered meaningfulLen idle engine modes) :
    Evolves R rt₂ rt₃ := by
  rcases h.modes with heq | ⟨m, hm, heq⟩
  · rw [heq]
    exact .refl h.pushed.idle
  · rw [heq]
    exact hm.evolves.trans (.of_journal hm.evolves.idle rfl rfl)

theorem checkpointed (h : ReadSteps R rt rt₁ rt₂ rt₃ rt₄ chunk filtered meaningfulLen idle engine modes) :
    Evolves R rt₃ rt₄ := by
  rcases h.checkpoint with heq | ⟨m, hm, heq⟩
  · rw [heq]
    exact .refl h.moded.idle
  · rw [heq]
    exact hm.evolves.trans (.of_journal hm.evolves.idle rfl rfl)

theorem rest (h : ReadSteps R rt rt₁ rt₂ rt₃ rt₄ chunk filtered meaningfulLen idle engine modes) :
    Evolves R rt₁ rt₄ := (h.pushed.trans h.moded).trans h.checkpointed

end ReadSteps

/-- **What a read comes to.** -/
theorem readLocked_cases {chunk filtered : Bytes} {meaningfulLen : ℕ} {idle : Bool} {engine : EngineView}
    {modes : ModeSnapshot} {output policy checkpoint : Turn}
    (h : readLocked R rt chunk filtered meaningfulLen idle engine modes output policy checkpoint = some rt')
    (hidle : Idle rt.journal.journal) :
    ∃ rt₁ rt₂ rt₃ rt₄, ReadSteps R rt rt₁ rt₂ rt₃ rt₄ chunk filtered meaningfulLen idle engine modes ∧
      rt' = if rt₄.journalFailed then { rt₄ with requestedFinalStatus := some .failed, childKilled := true }
        else rt₄ := by
  simp only [readLocked, Option.pure_def, Option.bind_eq_bind, Option.bind_eq_some_iff] at h
  obtain ⟨rt₁, h₁, rt₃, h₃, rt₄, h₄, heq⟩ := h
  cases heq
  have hr₁ := journalEvent_spec h₁ hidle
  have hpush : Idle (rt₁.pushOutput filtered meaningfulLen).journal.journal := by
    rw [(pushOutput_journal _ _).1]
    exact hr₁.evolves.idle
  have hm := journalModesIfChanged_spec h₃ hpush
  have hidle₃ : Idle rt₃.journal.journal := by
    rcases hm with rfl | ⟨m, hm, rfl⟩
    · exact hpush
    · exact hm.evolves.idle
  exact ⟨rt₁, _, rt₃, rt₄, ⟨hr₁, rfl, hm, journalCheckpointIfDue_spec h₄ hidle₃⟩, rfl⟩

theorem readLocked_evolves {chunk filtered : Bytes} {meaningfulLen : ℕ} {idle : Bool} {engine : EngineView}
    {modes : ModeSnapshot} {output policy checkpoint : Turn}
    (h : readLocked R rt chunk filtered meaningfulLen idle engine modes output policy checkpoint = some rt')
    (hidle : Idle rt.journal.journal) : Evolves R rt rt' := by
  obtain ⟨rt₁, rt₂, rt₃, rt₄, hs, rfl⟩ := readLocked_cases h hidle
  have hev := hs.output.evolves.trans hs.rest
  split
  · exact hev.trans (.of_journal hev.idle rfl rfl)
  · exact hev

/-- What a step comes to, action by action. -/
def Stepped (bare : Bool) (R : LineReader) (s t : LiveSession) : Action → Prop
  | .background action => ∃ l, advance R s.rt.journal [action] = some l ∧
      t = { s with rt := { s.rt with journal := l } }
  | .read chunk engine modes output policy checkpoint =>
      (s.reader = .reading ∧ chunk ≠ [] ∧ chunk.length ≤ ptyReadBufferBytes ∧
        s.rt.filteredTotalBytes + (s.scanner.scan bare chunk).2.filtered.length < 2 ^ 64) ∧
      ∃ rt', readLocked R s.rt chunk (s.scanner.scan bare chunk).2.filtered
          (s.scanner.scan bare chunk).2.meaningfulBytes (s.scanner.scan bare chunk).1.isIdle engine modes
          output policy checkpoint = some rt' ∧
        t = { s with
          rt := rt'
          scanner := { (s.scanner.scan bare chunk).1 with signalsDirty := false }
          reader := afterRead rt' (s.scanner.scan bare chunk).2.filtered }
  | .send => ∃ chunk, s.reader = .sending chunk ∧
      t = { s with reader := .reading, broadcast := s.broadcast ++ [chunk] }
  | .hangup detail => s.reader = .reading ∧ t = { s with reader := .closing detail }
  | .close engine closed checkpoint completion => ∃ detail rt', s.reader = .closing detail ∧
      s.rt.closeOutputStreamAtBoundary R closed checkpoint completion engine detail s.scanner.isIdle = some rt' ∧
      t = { s with rt := rt', reader := .stopped }
  | .closeAgain _ _ _ _ _ _ => s.rt.outputClosed = true ∧ t = s
  | .refresh turn child => ∃ rt' completed, s.rt.refreshStatus R turn child = some (rt', completed) ∧
      t = { s with rt := rt' }
  | .terminate turn child requested => ∃ rt', s.rt.terminate R turn child requested = some rt' ∧
      t = { s with rt := rt' }
  | .markCompleted turn status exitCode => ∃ rt', s.rt.markCompleted R turn status exitCode = some rt' ∧
      t = { s with rt := rt' }
  | .resize turn rows cols resized => ∃ rt', s.rt.resizePty R turn rows cols resized = some rt' ∧
      t = { s with rt := rt' }
  | .prune => t = { s with rt := s.rt.prune }

theorem step_cases {bare : Bool} {s t : LiveSession} {action : Action} (h : s.step bare R action = some t) :
    Stepped bare R s t action := by
  cases action with
  | background action =>
    simp only [step, Option.pure_def, Option.bind_eq_bind, Option.bind_eq_some_iff] at h
    obtain ⟨l, hadv, heq⟩ := h
    cases heq
    exact ⟨l, hadv, rfl⟩
  | read chunk engine modes output policy checkpoint =>
    simp only [step, Option.pure_def, Option.bind_eq_bind, Option.ite_none_right_eq_some,
      Option.bind_eq_some_iff] at h
    obtain ⟨hguard, rt', hrt, heq⟩ := h
    cases heq
    exact ⟨hguard, rt', hrt, rfl⟩
  | send =>
    simp only [step] at h
    split at h
    · cases h
      exact ⟨_, ‹_›, rfl⟩
    · cases h
  | hangup detail =>
    simp only [step, Option.ite_none_right_eq_some] at h
    obtain ⟨hreader, heq⟩ := h
    cases heq
    exact ⟨hreader, rfl⟩
  | close engine closed checkpoint completion =>
    simp only [step] at h
    split at h
    · simp only [Option.pure_def, Option.bind_eq_bind, Option.bind_eq_some_iff] at h
      obtain ⟨rt', hrt, heq⟩ := h
      cases heq
      exact ⟨_, rt', ‹_›, hrt, rfl⟩
    · cases h
  | closeAgain engine closed checkpoint completion detail idle =>
    simp only [step, SessionRuntime.closeOutputStreamAtBoundary] at h
    split at h
    · cases h
      exact ⟨‹_›, rfl⟩
    · cases h
  | refresh turn child =>
    simp only [step, Option.pure_def, Option.bind_eq_bind, Option.bind_eq_some_iff] at h
    obtain ⟨⟨rt', completed⟩, hrt, heq⟩ := h
    cases heq
    exact ⟨rt', completed, hrt, rfl⟩
  | terminate _ _ _ | markCompleted _ _ _ | resize _ _ _ _ =>
    simp only [step, Option.pure_def, Option.bind_eq_bind, Option.bind_eq_some_iff] at h
    obtain ⟨rt', hrt, heq⟩ := h
    cases heq
    exact ⟨rt', hrt, rfl⟩
  | prune =>
    cases h
    rfl

/-- The background leaves the runtime's records. -/
theorem background_advances {action : Live.Action} {l : Live} (h : advance R rt.journal [action] = some l)
    (hidle : Idle rt.journal.journal) : Evolves R rt { rt with journal := l } ∧
      ({ rt with journal := l } : SessionRuntime).records = rt.records := by
  obtain ⟨hrun, hsame⟩ := advance_spec h
  have hdeg : l.journal.core.isDegraded = rt.isDegraded := by rw [hsame.core]; rfl
  have hrec : l.journal.published.map OrderedEvent.record = rt.records := by rw [hsame.published]; rfl
  exact ⟨⟨⟨⟨_, hrun⟩, hsame.idle hidle, fun hd => hdeg.trans hd, id, .inl, ⟨[], (List.append_nil _).trans hrec.symm⟩,
    fun _ => hrec⟩, fun hd => .inl (hdeg.symm.trans hd)⟩, hrec⟩

/-- **What a step of a session does to its journal.** -/
theorem step_advances {bare : Bool} {s t : LiveSession} {action : Action} (h : s.step bare R action = some t)
    (hidle : Idle s.rt.journal.journal) : Advances R s.rt t.rt := by
  have hs := step_cases h
  cases action with
  | background action =>
    obtain ⟨l, hadv, rfl⟩ := hs
    exact (background_advances hadv hidle).1.toAdvances
  | read chunk engine modes output policy checkpoint =>
    obtain ⟨-, rt', hrt, rfl⟩ := hs
    exact (readLocked_evolves hrt hidle).toAdvances
  | send =>
    obtain ⟨chunk, -, rfl⟩ := hs
    exact (Evolves.refl hidle).toAdvances
  | hangup detail =>
    obtain ⟨-, rfl⟩ := hs
    exact (Evolves.refl hidle).toAdvances
  | close engine closed checkpoint completion =>
    obtain ⟨detail, rt', -, hrt, rfl⟩ := hs
    exact (close_evolves hrt hidle).toAdvances
  | closeAgain engine closed checkpoint completion detail idle =>
    obtain ⟨-, rfl⟩ := hs
    exact (Evolves.refl hidle).toAdvances
  | refresh turn child =>
    obtain ⟨rt', completed, hrt, rfl⟩ := hs
    exact (pollAcks_spec hidle).1.trans (refreshStatus_evolves hrt hidle).toAdvances
  | terminate turn child requested =>
    obtain ⟨rt', hrt, rfl⟩ := hs
    exact (pollAcks_spec hidle).1.trans (terminate_evolves hrt hidle).toAdvances
  | markCompleted turn status exitCode =>
    obtain ⟨rt', hrt, rfl⟩ := hs
    exact (markCompleted_evolves hrt hidle).toAdvances
  | resize turn rows cols resized =>
    obtain ⟨rt', hrt, rfl⟩ := hs
    exact (resizePty_evolves hrt hidle).toAdvances
  | prune =>
    cases hs
    exact (prune_advances hidle).1

/-- A record of the session's start. -/
def IsStart (r : Record) : Prop :=
  r.kind = .resize ∨ r.kind = .lifecycle ∧ ∃ detail, r.payload = encodeLifecyclePayload .started none detail

/-- **What spawning comes to.** -/
theorem spawn_spec {l : Live} {rows cols : ℕ} {pid : Bytes} {geometry started : Turn} {s : LiveSession}
    (h : spawn R l rows cols pid geometry started = some s) (hidle : Idle l.journal) :
    s = ⟨fresh s.rt.journal rows cols, .new, .reading, []⟩ ∧
      (∃ as, Runs.run (Live.step R) l as = some s.rt.journal) ∧ Idle s.rt.journal.journal ∧
      ∃ new, s.rt.records = l.journal.published.map OrderedEvent.record ++ new ∧ ∀ r ∈ new, IsStart r := by
  simp only [spawn, Option.pure_def, Option.bind_eq_bind, Option.bind_eq_some_iff] at h
  obtain ⟨⟨l₁, r₁⟩, h₁, ⟨l₂, r₂⟩, h₂, heq⟩ := h
  cases heq
  have hs₁ := submit_spec h₁ hidle
  have hs₂ := submit_spec h₂ hs₁.idle
  obtain ⟨as, has⟩ := hs₁.run
  obtain ⟨bs, hbs⟩ := hs₂.run
  refine ⟨rfl, ⟨as ++ bs, by rw [Runs.run_append, has]; exact hbs⟩, hs₂.idle, ?_⟩
  have hfirst : ∃ new, l₁.journal.published.map OrderedEvent.record =
      l.journal.published.map OrderedEvent.record ++ new ∧ ∀ r ∈ new, IsStart r := by
    rcases hs₁.outcome with ⟨hsame, -⟩ | ⟨-, e, hk, -, he⟩
    · exact ⟨[], by rw [hsame, List.append_nil], nofun⟩
    · refine ⟨[e.record], by rw [he, List.map_append]; rfl, fun r hr => ?_⟩
      rw [List.mem_singleton.mp hr]
      exact .inl hk
  obtain ⟨new, hnew, hall⟩ := hfirst
  rcases hs₂.outcome with ⟨hsame, -⟩ | ⟨-, e, hk, hp, he⟩
  · exact ⟨new, by rw [SessionRuntime.records, fresh, hsame, hnew], hall⟩
  · refine ⟨new ++ [e.record], ?_, fun r hr => ?_⟩
    · rw [SessionRuntime.records, fresh, he, List.map_append, hnew, List.append_assoc]
      rfl
    · rcases List.mem_append.mp hr with hr | hr
      · exact hall r hr
      · rw [List.mem_singleton.mp hr]
        exact .inr ⟨hk, _, hp⟩

end LiveSession

end Session
end OpenRelay
