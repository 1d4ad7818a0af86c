/-
# The sequencer and the appender

A session's events are sequenced by `SequencerCore` and written by the appender
thread, which owns the segment writer. Between them are a queue, bounded in
messages and in bytes, and a channel of acknowledgements
(`session/journal/appender.rs`, `session/journal/shadow.rs`).

`ShadowJournal.step` interleaves the two at the grain of single effects on the
journal directory: the appender works through the effects of its task one by
one, any of them may fail (a write after a part of its bytes), and the core may
record or poll in between. A producer that finds the queue full waits with the
sequencing lock held.

The sequence number is a `u64`; the core stops publishing when it is used up.
-/
import OpenRelay.Journal.Layout
import OpenRelay.Lib.Runs

namespace OpenRelay
namespace Journal

/-- A sequenced session event. -/
structure OrderedEvent where
  incarnation : ℕ
  seq : ℕ
  elapsedMs : ℕ
  kind : RecordKind
  payload : Bytes
  deriving DecidableEq, Repr

/-- The event as the appender writes it. -/
def OrderedEvent.record (event : OrderedEvent) : Record :=
  ⟨event.kind, event.seq, event.elapsedMs, event.payload⟩

/-- Why the appender died. -/
inductive FailReason where
  | append
  | sync
  | sealing
  | contiguity (expected got : ℕ)
  deriving DecidableEq, Repr

/-- What the appender tells the core. -/
inductive JournalAck where
  /-- Records through this one are appended and readable. -/
  | journaled (seq : ℕ)
  /-- A completed sync covers records through this one. -/
  | durable (seq : ℕ)
  | failed (reason : FailReason)
  deriving DecidableEq, Repr

/-- Why a submission is not queued. -/
inductive JournalSubmitError where
  | queueFull
  | queueBudgetExhausted
  | appenderDead
  | persistenceDegraded
  deriving DecidableEq, Repr

/-- Why a core no longer counts on its journal. -/
inductive DegradeReason where
  | failed (reason : FailReason)
  | submit (error : JournalSubmitError)
  deriving DecidableEq, Repr

/-! ### The sequencing core -/

/-- What a runtime keeps of its journal: the numbers given out and acknowledged, and the events cached for replay.
-/
structure SequencerCore where
  incarnation : ℕ
  nextSeq : ℕ
  journalSeq : ℕ
  durableSeq : ℕ
  degraded : Option DegradeReason
  cache : List OrderedEvent
  cacheBytes : ℕ
  cacheBudgetBytes : ℕ
  deriving DecidableEq, Repr

def defaultCacheBudgetBytes : ℕ := 8 * 1024 * 1024
def defaultQueueCapacity : ℕ := 256
def defaultQueueBudgetBytes : ℕ := 32 * 1024 * 1024

namespace SequencerCore

def new (incarnation : ℕ) : SequencerCore where
  incarnation := incarnation
  nextSeq := 1
  journalSeq := 0
  durableSeq := 0
  degraded := none
  cache := []
  cacheBytes := 0
  cacheBudgetBytes := defaultCacheBudgetBytes

/-- The events at the front of the cache that the journal already serves. -/
def evicted (core : SequencerCore) : List OrderedEvent :=
  core.cache.takeWhile fun event => decide (event.seq ≤ core.journalSeq)

/-- Drop these from the cache. -/
def evictJournaled (core : SequencerCore) : SequencerCore := { core with
  cacheBytes := core.cacheBytes - (core.evicted.map fun event => event.payload.length).sum
  cache := core.cache.drop core.evicted.length }

/-- Assign the next sequence number. -/
def publish (core : SequencerCore) (kind : RecordKind) (payload : Bytes) (elapsed : ℕ) :
    OrderedEvent × SequencerCore :=
  let event : OrderedEvent := ⟨core.incarnation, core.nextSeq, elapsed % 2 ^ 64, kind, payload⟩
  let core := { core with
    nextSeq := core.nextSeq + 1
    cacheBytes := core.cacheBytes + payload.length }
  let core := if core.cacheBudgetBytes < core.cacheBytes then core.evictJournaled else core
  (event, { core with cache := core.cache ++ [event] })

/-- Records up to a number can be read. -/
def noteJournaled (core : SequencerCore) (seq : ℕ) : SequencerCore :=
  { core with journalSeq := max core.journalSeq seq }

/-- Records up to a number are synced. -/
def noteDurable (core : SequencerCore) (seq : ℕ) : SequencerCore :=
  { core with durableSeq := max core.durableSeq seq }

/-- The first reason stays. -/
def degrade (core : SequencerCore) (reason : DegradeReason) : SequencerCore :=
  match core.degraded with
  | none => { core with degraded := some reason }
  | some _ => core

/-- The journal is not counted on any more. -/
def isDegraded (core : SequencerCore) : Bool := core.degraded.isSome

/-- All that was published is synced. -/
def isFullyDurable (core : SequencerCore) : Bool :=
  !core.isDegraded && decide (core.nextSeq - 1 ≤ core.durableSeq)

/-- An acknowledgement is taken in. -/
def note (core : SequencerCore) : JournalAck → SequencerCore
  | .journaled seq => core.noteJournaled seq
  | .durable seq => core.noteDurable seq
  | .failed reason => core.degrade (.failed reason)

end SequencerCore

/-! ### The appender thread -/

/-- What is queued for the appender. -/
inductive AppenderMsg where
  | record (event : OrderedEvent)
  | sync
  deriving DecidableEq, Repr

/-- What the thread is doing to the directory. -/
inductive Task where
  | append (event : OrderedEvent)
  | sync
  /-- The sync before the thread ends. -/
  | finalSync
  | sealTail
  deriving DecidableEq, Repr

/-- Where the appender's thread is. -/
inductive Pc where
  | receiving
  /-- These effects of the task are still to be taken; then it ends like this. -/
  | working (task : Task) (todo : List Effect) (result : Except JournalError RollingSegmentWriter)
  | stopped

/-- The appender: its writer, what it expects next, and why it takes no more. -/
structure Appender where
  writer : RollingSegmentWriter
  expectedSeq : ℕ
  lastWritten : ℕ
  lastDurable : ℕ
  dead : Option FailReason
  pc : Pc

/-- There are records the next group sync is to cover. -/
def Appender.dirty (a : Appender) : Bool := a.dead.isNone && decide (a.lastDurable < a.lastWritten)

/-! ### Both of them -/

/-- A runtime's journal, with its core, its appender and the directory that this one writes. -/
structure ShadowJournal where
  core : SequencerCore
  queue : List AppenderMsg
  queuedBytes : ℕ
  /-- The event of a producer that waits for room in the queue. -/
  waiting : Option OrderedEvent
  /-- The core and its end of the queue are gone. -/
  closed : Bool
  /-- Acknowledgements the core has not seen yet. -/
  acks : List JournalAck
  appender : Appender
  disk : Dir
  /-- Every event published so far. -/
  published : List OrderedEvent
  /-- Every acknowledgement sent so far. -/
  sent : List JournalAck

namespace ShadowJournal

/-- The journal of a new incarnation, as `open` leaves the directory. -/
def opened (incarnation maxPartBytes : ℕ) (disk : Dir) : ShadowJournal where
  core := .new incarnation
  queue := []
  queuedBytes := 0
  waiting := none
  closed := false
  acks := []
  appender := {
    writer := .new incarnation maxPartBytes, expectedSeq := 1, lastWritten := 0, lastDurable := 0
    dead := none, pc := .receiving }
  disk := disk
  published := []
  sent := []

variable (s : ShadowJournal)

/-! ### The core's side -/

/-- Drain pending acknowledgements into the cursors. -/
def pollAcks : ShadowJournal := { s with core := s.acks.foldl .note s.core, acks := [] }

/-- A submission has failed, so the journal is not counted on. -/
def degrade (error : JournalSubmitError) : ShadowJournal :=
  { s with core := s.core.degrade (.submit error) }

/-- The appender's thread has ended. -/
def isStopped : Bool :=
  match s.appender.pc with
  | .stopped => true
  | _ => false

/-- How `record` ends; `none` while its producer waits for room. -/
abbrev Submission := Option (Except JournalSubmitError ℕ)

/-- Queue an event: the byte budget is a hard bound, a full queue makes the
producer wait. -/
def trySubmit (event : OrderedEvent) : ShadowJournal × Submission :=
  if defaultQueueBudgetBytes < s.queuedBytes + event.payload.length then
    (s.degrade .queueBudgetExhausted, some (.error .queueBudgetExhausted))
  else if s.isStopped then (s.degrade .appenderDead, some (.error .appenderDead))
  else if s.queue.length < defaultQueueCapacity then
    ({ s with
      queuedBytes := s.queuedBytes + event.payload.length
      queue := s.queue ++ [.record event] }, some (.ok event.seq))
  else ({ s with
      queuedBytes := s.queuedBytes + event.payload.length
      waiting := some event }, none)

/-- Sequence an event and submit it. -/
def publishAndSubmit (kind : RecordKind) (payload : Bytes) (elapsed : ℕ) : ShadowJournal × Submission :=
  let (event, core) := s.core.publish kind payload elapsed
  { s with core := core, published := s.published ++ [event] }.trySubmit event

/-- Poll, and unless persistence has failed sequence an event and submit it. -/
def record (kind : RecordKind) (payload : Bytes) (elapsed : ℕ) : ShadowJournal × Submission :=
  let s := s.pollAcks
  if s.core.isDegraded then (s, some (.error .persistenceDegraded))
  else s.publishAndSubmit kind payload elapsed

/-- The waiting producer tries again. -/
def retry (event : OrderedEvent) : Option (ShadowJournal × Submission) :=
  if s.isStopped then
    some ({ s with
      waiting := none, queuedBytes := s.queuedBytes - event.payload.length }.degrade .appenderDead,
      some (.error .appenderDead))
  else if s.queue.length < defaultQueueCapacity then
    some ({ s with waiting := none, queue := s.queue ++ [.record event] }, some (.ok event.seq))
  else none

/-- It has waited long enough. -/
def stall (event : OrderedEvent) : ShadowJournal × Submission :=
  ({ s with
    waiting := none, queuedBytes := s.queuedBytes - event.payload.length }.degrade .queueFull,
    some (.error .queueFull))

/-- A full queue drops the request. -/
def requestSync : ShadowJournal :=
  if s.isStopped ∨ defaultQueueCapacity ≤ s.queue.length then s else { s with queue := s.queue ++ [.sync] }

/-! ### The appender's side -/

/-- The appender tells the core. -/
def send (ack : JournalAck) : ShadowJournal :=
  { s with acks := s.acks ++ [ack], sent := s.sent ++ [ack] }

/-- The thread goes on elsewhere. -/
def setPc (pc : Pc) : ShadowJournal := { s with appender := { s.appender with pc := pc } }

/-- The appender takes no more, and says why. -/
def fail (reason : FailReason) : ShadowJournal :=
  { s with appender := { s.appender with dead := some reason } }.send (.failed reason)

/-- Start a task: its effects come one by one. -/
def start (task : Task) (m : JournalM RollingSegmentWriter) : ShadowJournal :=
  s.setPc (.working task (m.run s.disk).1 (m.run s.disk).2)

def syncTask : JournalM RollingSegmentWriter := do
  s.appender.writer.sync
  pure s.appender.writer

/-- Seal the last part, and end. -/
def sealTail : ShadowJournal :=
  if s.appender.dead.isNone then s.start .sealTail s.appender.writer.sealPart else s.setPc .stopped

/-- What follows the receive loop. -/
def leaveLoop : ShadowJournal :=
  if s.appender.dirty then s.start .finalSync s.syncTask else s.sealTail

/-- The appender takes a message: it starts on it, or says why it takes no more. -/
def receive : AppenderMsg → ShadowJournal
  | .sync =>
    match s.appender.dead with
    | some reason => s.send (.failed reason)
    | none => s.start .sync s.syncTask
  | .record event =>
    let s := { s with queuedBytes := s.queuedBytes - event.payload.length }
    match s.appender.dead with
    | some reason => s.send (.failed reason)
    | none =>
      if event.seq ≠ s.appender.expectedSeq then s.fail (.contiguity s.appender.expectedSeq event.seq)
      else s.start (.append event) (s.appender.writer.appendRecord event.record)

/-- The record is in the part. -/
def noteAppended (event : OrderedEvent) (writer : RollingSegmentWriter) : ShadowJournal :=
  { s with appender := { s.appender with
      writer := writer, lastWritten := event.seq, expectedSeq := s.appender.expectedSeq + 1
      pc := .receiving } }.send (.journaled event.seq)

/-- The sync covers what was written. -/
def noteSynced : ShadowJournal :=
  { s with appender := { s.appender with
      lastDurable := s.appender.lastWritten, pc := .receiving } }.send (.durable s.appender.lastWritten)

/-- A task has ended. -/
def finish (task : Task) (result : Except JournalError RollingSegmentWriter) : ShadowJournal :=
  match task, result with
  | .append event, .ok writer => s.noteAppended event writer
  | .sync, .ok _ => s.noteSynced
  | .finalSync, .ok _ => s.noteSynced.sealTail
  | .sealTail, .ok writer => { s with appender := { s.appender with writer := writer, pc := .stopped } }
  | .append _, .error _ => (s.setPc .receiving).fail .append
  | .sync, .error _ => (s.setPc .receiving).fail .sync
  | .finalSync, .error _ => ((s.setPc .receiving).fail .sync).sealTail
  | .sealTail, .error _ => (s.setPc .stopped).fail .sealing

end ShadowJournal

/-- What an effect that fails may still have done: a write may have put some of
its bytes. -/
def Effect.cut (n : ℕ) : Effect → List Effect
  | .writePart seg bytes => [.writePart seg (bytes.take n)]
  | .appendManifest bytes => [.appendManifest (bytes.take n)]
  | _ => []

/-! ### The system -/

/-- What may happen next at either end. -/
inductive Action where
  | record (kind : RecordKind) (payload : Bytes) (elapsed : ℕ)
  | retry
  | stall
  | pollAcks
  | requestSync
  | close
  | receive
  /-- The cadence of group syncs has passed. -/
  | timeout
  | disconnect
  /-- The next effect of the appender's task succeeds. -/
  | effect
  /-- It fails, after `n` bytes if it is a write. -/
  | fault (n : ℕ)
  /-- The task has ended. -/
  | finish

open ShadowJournal in
def step (s : ShadowJournal) : Action → Option ShadowJournal
  | .record kind payload elapsed =>
    if s.closed = false ∧ s.waiting = none ∧ s.core.nextSeq + 1 < 2 ^ 64 then
      some (s.record kind payload elapsed).1
    else none
  | .retry =>
    match s.waiting with
    | some event => (s.retry event).map Prod.fst
    | none => none
  | .stall => s.waiting.map fun event => (s.stall event).1
  | .pollAcks => if s.closed = false ∧ s.waiting = none then some s.pollAcks else none
  | .requestSync => if s.closed = false then some s.requestSync else none
  | .close => if s.waiting = none then some { s with closed := true } else none
  | .receive =>
    match s.appender.pc, s.queue with
    | .receiving, msg :: queue => some ({ s with queue := queue }.receive msg)
    | _, _ => none
  | .timeout =>
    match s.appender.pc with
    | .receiving => if s.appender.dirty then some (s.start .sync s.syncTask) else none
    | _ => none
  | .disconnect =>
    match s.appender.pc, s.queue with
    | .receiving, [] => if s.closed then some s.leaveLoop else none
    | _, _ => none
  | .effect =>
    match s.appender.pc with
    | .working task (e :: todo) result =>
      some ({ s with disk := e.apply s.disk }.setPc (.working task todo result))
    | _ => none
  | .fault n =>
    match s.appender.pc with
    | .working task (e :: _) _ =>
      some ({ s with disk := applyEffects (e.cut n) s.disk }.finish task (.error .io))
    | _ => none
  | .finish =>
    match s.appender.pc with
    | .working task [] result => some (s.finish task result)
    | _ => none

end Journal
end OpenRelay
