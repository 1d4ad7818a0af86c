/-
# The attach output pump

One attached client follows a session's filtered stream from two sources: the
broadcast ring, which is fast and drops its oldest chunks when the client
lags, and the journal, which is complete and behind. `AttachPump` merges them
(`session/store/pump.rs`). Here the pump runs against a session that reads,
sends, persists, exits and closes its output on its own schedule: `step` takes
one action of the session or of the pump, and a run is any interleaving.

The pump's code between two awaits is one step. Its program points are the
head of `next`'s loop, the two awaits inside it that follow another await
(`resync_step` asking for the stream's length after an empty window, the tick
arm asking for the session's status) and the turns of the coalescing loop;
a cancelled `next` goes back to the head.

Key theorems: `inv_step`, `inv_run`, `gapless_attach_stream`.
-/
import Mathlib.Data.List.Chain
import OpenRelay.Basic
import OpenRelay.Lib.Runs
import OpenRelay.Lib.Slice

namespace OpenRelay
namespace Pump

open Streams Runs

/-- Upper bound for one coalesced frame. -/
def maxCoalescedChunkBytes : ℕ := 512 * 1024

/-- The bound of one replayed window. -/
def resyncWindowBytes : ℕ := 8 * 1024 * 1024

/-- How often the pump waits for the journal's flush before it gives up. -/
def flushRetryMax : ℕ := 50

/-- The terminal modes a client mirrors. -/
structure ModeSnapshot where
  appCursorKeys : Bool
  bracketedPasteMode : Bool
  mouseReport : Bool
  sgrMouse : Bool
  focusEvents : Bool
  deriving DecidableEq, Repr

/-- One broadcast unit of the filtered stream. -/
structure SequencedChunk where
  offset : ℕ
  bytes : Bytes
  deriving DecidableEq, Repr

/-- What the pump hands to its transport. -/
inductive AttachEvent where
  | chunk (offset : ℕ) (data : Bytes)
  | modes (modes : ModeSnapshot)
  | done (exitCode : Option ℤ) (finalOffset : ℕ)
  | closed
  deriving DecidableEq, Repr

/-- The state handed to a fresh attach before live events start. -/
structure AttachInit where
  data : Bytes
  endOffset : ℕ
  running : Bool
  modes : ModeSnapshot
  incarnation : ℕ
  deriving DecidableEq, Repr

/-- The credit gate of one attachment: how far the cursor may run ahead of the
cursor the client reports as applied. -/
structure CreditPolicy where
  budgetBytes : ℕ
  deriving DecidableEq, Repr

/-! ### The pump -/

/-- A pump's own state. -/
structure AttachPump where
  /-- Whether the store knew the session's shared modes at subscribe. -/
  sharedModes : Bool
  lastModes : ModeSnapshot
  currentOffset : ℕ
  pending : List AttachEvent
  resync : Bool
  resyncEpisodeOpen : Bool
  held : Option SequencedChunk
  completing : Option (Option ℤ)
  flushRetries : ℕ
  credit : Option CreditPolicy
  deriving DecidableEq, Repr

namespace AttachPump

/-- The pump `subscribe_with_policy` builds. -/
def new (sharedModes : Bool) (modes : ModeSnapshot) (endOffset : ℕ) (credit : Option CreditPolicy) :
    AttachPump where
  sharedModes := sharedModes
  lastModes := modes
  currentOffset := endOffset
  pending := []
  resync := false
  resyncEpisodeOpen := false
  held := none
  completing := none
  flushRetries := 0
  credit := credit

/-- `await_credit` lets the loop pass: the client is within the budget. -/
def gateOpen (p : AttachPump) (applied : ℕ) : Bool :=
  match p.credit with
  | none => true
  | some policy => decide (p.currentOffset - applied ≤ policy.budgetBytes)

/-- The pump goes to the journal for what it has missed. -/
def beginResync (p : AttachPump) : AttachPump :=
  { p with resyncEpisodeOpen := true, resync := true }

/-- Queue a mode event when the shared modes changed since the last forwarded
chunk. -/
def observeModes (p : AttachPump) (modes : ModeSnapshot) : AttachPump :=
  if p.sharedModes && decide (modes ≠ p.lastModes) then
    { p with lastModes := modes, pending := p.pending ++ [.modes modes] }
  else p

/-- `resync_step` on a window that is not empty. A full window stays in resync
mode, a short one leaves it, also while the completion drain runs. -/
def resyncWindow (p : AttachPump) (modes : ModeSnapshot) (data : Bytes) : AttachPump × AttachEvent :=
  let full := decide (data.length = resyncWindowBytes)
  let p' := { p with
    currentOffset := p.currentOffset + data.length
    flushRetries := 0
    resync := full
    resyncEpisodeOpen := full && p.resyncEpisodeOpen }
  (p'.observeModes modes, .chunk p.currentOffset data)

/-- A held chunk starts past the cursor. -/
def heldGap (p : AttachPump) : Bool :=
  p.held.any fun chunk => decide (p.currentOffset < chunk.offset)

/-- The drain has not reached the stream length the store knows. -/
def completingBehind (p : AttachPump) (len : Option ℕ) : Bool :=
  p.completing.isSome && len.any fun len => decide (p.currentOffset < len)

/-- Out of resync mode, and out of the drain if there was one. -/
def resyncOver (p : AttachPump) : AttachPump :=
  { p with flushRetries := 0, completing := none, resync := false, resyncEpisodeOpen := false }

/-- `resync_step` after an empty window, with the stream length the store
knows. -/
def resyncTail (p : AttachPump) (len : Option ℕ) : AttachPump × Option AttachEvent :=
  if p.heldGap || p.completingBehind len then
    if p.flushRetries < flushRetryMax then
      ({ p with flushRetries := p.flushRetries + 1 }, none)
    else (p, some .closed)
  else
    match p.completing with
    | some exitCode => (p.resyncOver, some (.done exitCode p.currentOffset))
    | none => (p.resyncOver, none)

/-- `forward_chunk` up to its coalescing loop: `none` when the chunk is covered
or held, else the bytes it starts the frame with. -/
def forwardChunk (p : AttachPump) (chunk : SequencedChunk) : AttachPump × Option Bytes :=
  let overlap := p.currentOffset - chunk.offset
  if chunk.offset < p.currentOffset ∧ chunk.bytes.length ≤ overlap then (p, none)
  else if p.currentOffset < chunk.offset then (({ p with held := some chunk }).beginResync, none)
  else (p, some (chunk.bytes.drop overlap))

/-- The end of `forward_chunk`: the cursor moves past the frame. -/
def forwarded (p : AttachPump) (modes : ModeSnapshot) (data : Bytes) : AttachPump :=
  ({ p with currentOffset := p.currentOffset + data.length }).observeModes modes

end AttachPump

/-! ### The broadcast receiver -/

/-- What a receive finds. -/
inductive Recv where
  | ok (chunk : SequencedChunk)
  | lagged (skipped : ℕ)
  | closed
  | empty
  deriving DecidableEq, Repr

/-- One subscriber's view of the broadcast channel: the chunks it has not
received, how many the ring dropped since it last said so, and whether every
sender is gone. -/
structure Receiver where
  queue : List SequencedChunk
  lagged : ℕ
  closed : Bool
  deriving DecidableEq, Repr

def Receiver.tryRecv (rx : Receiver) : Recv × Receiver :=
  if 0 < rx.lagged then (.lagged rx.lagged, { rx with lagged := 0 })
  else match rx.queue with
    | chunk :: queue => (.ok chunk, { rx with queue := queue })
    | [] => (if rx.closed then .closed else .empty, rx)

/-- One turn of the coalescing loop on what `try_recv` found: the pump, the
frame so far, and whether the loop goes on. -/
def AttachPump.coalesce (p : AttachPump) (data : Bytes) : Recv → AttachPump × Bytes × Bool
  | .ok next =>
    let expected := p.currentOffset + data.length
    if expected < next.offset then (({ p with held := some next }).beginResync, data, false)
    else (p, data ++ next.bytes.drop (expected - next.offset), true)
  | .lagged _ => (p.beginResync, data, false)
  | .closed => (p, data, false)
  | .empty => (p, data, false)

/-! ### The session and the pump together -/

/-- What the pump sees of its session through the store. -/
structure Session where
  /-- The filtered stream so far (`filtered_total_bytes` is its length). -/
  stream : Bytes
  /-- The chunk the reader has counted and not yet sent. -/
  inFlight : Option SequencedChunk
  /-- How much of the stream the journal can replay. -/
  persisted : ℕ
  modes : ModeSnapshot
  running : Bool
  outputClosed : Bool
  exitCode : Option ℤ
  /-- Whether the store still holds the live runtime. -/
  live : Bool
  incarnation : Option ℕ
  /-- The cursor the client reported as applied. -/
  applied : ℕ
  deriving DecidableEq, Repr

/-- Where the pump is. -/
inductive Pc where
  | detached
  /-- Resuming: subscribed to the ring, the replay not yet read. -/
  | subscribed (offset : ℕ)
  /-- The head of `next`'s loop. -/
  | top
  /-- `resync_step` after an empty window. -/
  | tail
  /-- The tick arm, asking for the session's status. -/
  | status
  /-- The coalescing loop, with the frame so far. -/
  | coalescing (data : Bytes)
  /-- `Done` or `Closed` was returned. -/
  | ended
  deriving DecidableEq, Repr

/-- A session, the ring's receiver and a pump, with what the client was sent. -/
structure Sys where
  session : Session
  rx : Receiver
  pump : AttachPump
  pc : Pc
  init : Option AttachInit
  events : List AttachEvent
  deriving DecidableEq, Repr

/-- What may happen next. -/
inductive Act where
  /-- The reader counts a chunk of filtered output. -/
  | read (bytes : Bytes)
  /-- The reader sends the chunk it counted. -/
  | send
  /-- The journal failed: the reader stops without sending the chunk. -/
  | journalStop
  | closeOutput
  | exit (code : Option ℤ)
  | persist (n : ℕ)
  | setModes (modes : ModeSnapshot)
  | report (cursor : ℕ)
  /-- The ring drops the oldest chunk the client has not received. -/
  | overflow
  | evict
  | closeChannel
  | subscribe (snapshot : Bytes) (sharedModes : Bool) (credit : Option CreditPolicy)
  | resume (offset : ℕ) (incarnation : Option ℕ)
  | resumeInit (seen : ℕ) (sharedModes : Bool) (credit : Option CreditPolicy)
  /-- The credit gate timed out. -/
  | stall
  | popPending
  /-- `attach_resync_window` answers from the first `seen` persisted bytes. -/
  | window (seen : ℕ)
  | windowErr
  | filteredLen (known : Bool)
  | takeHeld
  | tick
  | status
  | statusErr
  | recv
  | tryRecv
  | cancel
  deriving DecidableEq, Repr

/-- The incarnation fence of `subscribe_with_policy`. -/
def incarnationMatches (requested current : Option ℕ) : Bool :=
  match requested, current with
  | some req, some cur => decide (req = cur)
  | _, _ => false

namespace Sys

/-- What the store answers to `attach_filtered_len`. -/
def filteredLen (s : Sys) : ℕ :=
  if s.session.live then s.session.stream.length else s.session.persisted

/-- The window `attach_resync_window` reads at the cursor when `seen` bytes of
the stream are readable. -/
def windowData (s : Sys) (seen : ℕ) : Bytes :=
  slice s.session.stream s.pump.currentOffset (min seen (s.pump.currentOffset + resyncWindowBytes))

/-- There is a pump. -/
def attached (s : Sys) : Bool :=
  match s.pc with
  | .detached => false
  | _ => true

/-- The head of the loop, past the credit gate. -/
def atHead (s : Sys) : Bool :=
  decide (s.pc = .top) && s.pump.gateOpen s.session.applied

/-- The head of the loop with nothing queued: the resync branch or below. -/
def atResync (s : Sys) : Bool := s.atHead && s.pump.pending.isEmpty

/-- The `select!`: nothing queued, no resync, no held chunk. -/
def atSelect (s : Sys) : Bool :=
  s.atResync && !s.pump.resync && s.pump.held.isNone

def emit (s : Sys) (e : AttachEvent) : Sys := { s with events := s.events ++ [e] }

/-- An event goes to the client, and is the last one. -/
def finish (s : Sys) (e : AttachEvent) : Sys := { s.emit e with pc := .ended }

/-- `next` after `forward_chunk` decided: either the coalescing loop or the head
of the loop again. -/
def afterForward (s : Sys) : AttachPump × Option Bytes → Sys
  | (p, some data) => { s with pump := p, pc := .coalescing data }
  | (p, none) => { s with pump := p, pc := .top }

/-- The frame is complete: an empty one is not returned. -/
def afterCoalesce (s : Sys) (p : AttachPump) (data : Bytes) : Sys :=
  let s' := { s with pump := p.forwarded s.session.modes data, pc := .top }
  if data = [] then s' else s'.emit (.chunk p.currentOffset data)

/-- A session that has read nothing, and no pump. -/
def start (modes : ModeSnapshot) (incarnation : Option ℕ) : Sys where
  session := {
    stream := [], inFlight := none, persisted := 0, modes := modes, running := true
    outputClosed := false, exitCode := none, live := true, incarnation := incarnation, applied := 0 }
  rx := { queue := [], lagged := 0, closed := false }
  pump := AttachPump.new false modes 0 none
  pc := .detached
  init := none
  events := []

end Sys

/-- The pump starts streaming at `endOffset`. -/
def Sys.attach (s : Sys) (data : Bytes) (endOffset : ℕ) (sharedModes : Bool)
    (credit : Option CreditPolicy) : Sys :=
  { s with
    session := { s.session with applied := endOffset }
    pump := AttachPump.new sharedModes s.session.modes endOffset credit
    pc := .top
    init := some {
      data := data, endOffset := endOffset
      running := s.session.running || !s.session.outputClosed
      modes := s.session.modes, incarnation := s.session.incarnation.getD 0 } }

/-- What the session does. -/
def sessionStep (s : Sys) : Act → Option Sys
  | .read bytes =>
    if s.session.outputClosed || s.session.inFlight.isSome || bytes.isEmpty then none
    else some { s with session := { s.session with
      stream := s.session.stream ++ bytes
      inFlight := some ⟨s.session.stream.length, bytes⟩ } }
  | .send =>
    match s.session.inFlight with
    | none => none
    | some chunk => some { s with
        session := { s.session with inFlight := none }
        rx := if s.attached then { s.rx with queue := s.rx.queue ++ [chunk] } else s.rx }
  | .journalStop =>
    if s.session.inFlight.isSome then some { s with
      session := { s.session with inFlight := none, outputClosed := true } }
    else none
  | .closeOutput =>
    if s.session.inFlight.isSome then none
    else some { s with session := { s.session with outputClosed := true } }
  | .exit code => some { s with session := { s.session with running := false, exitCode := code } }
  | .persist n =>
    if s.session.persisted ≤ n ∧ n ≤ s.session.stream.length then
      some { s with session := { s.session with persisted := n } }
    else none
  | .setModes modes => some { s with session := { s.session with modes := modes } }
  | .report cursor =>
    -- read by the serve loop, which subscribing precedes
    if s.init.isNone then none
    -- `attach_report_applied` finds no runtime after eviction and does nothing
    else if s.session.live then
      some { s with session := { s.session with applied := max s.session.applied cursor } }
    else some s
  | .overflow =>
    match s.rx.queue with
    | [] => none
    | _ :: queue => some { s with rx := { s.rx with queue := queue, lagged := s.rx.lagged + 1 } }
  | .evict =>
    if s.session.running || !s.session.outputClosed then none
    else some { s with session := { s.session with live := false } }
  | .closeChannel =>
    if s.session.live then none else some { s with rx := { s.rx with closed := true } }
  | _ => none

/-- What `subscribe_with_policy` does. -/
def subscribeStep (s : Sys) : Act → Option Sys
  | .subscribe snapshot sharedModes credit =>
    if s.pc = .detached then some (s.attach snapshot s.session.stream.length sharedModes credit)
    else none
  | .resume offset incarnation =>
    if s.pc = .detached ∧ incarnationMatches incarnation s.session.incarnation then
      some { s with pc := .subscribed offset }
    else none
  | .resumeInit seen sharedModes credit =>
    match s.pc with
    | .subscribed offset =>
      if seen ≤ s.session.persisted then
        some (s.attach (slice s.session.stream offset seen) seen sharedModes credit)
      else none
    | _ => none
  | _ => none

/-- What `next` does. -/
def nextStep (s : Sys) : Act → Option Sys
  | .stall =>
    if s.pc = .top ∧ s.pump.gateOpen s.session.applied = false then some (s.finish .closed) else none
  | .popPending =>
    match s.atHead, s.pump.pending with
    | true, e :: rest => some ({ s with pump := { s.pump with pending := rest } }.emit e)
    | _, _ => none
  | .window seen =>
    if s.atResync && s.pump.resync && decide (seen ≤ s.session.persisted) then
      if s.windowData seen = [] then some { s with pc := .tail }
      else
        let (p, e) := s.pump.resyncWindow s.session.modes (s.windowData seen)
        some ({ s with pump := p }.emit e)
    else none
  | .windowErr =>
    if s.atResync && s.pump.resync then some (s.finish .closed) else none
  | .filteredLen known =>
    if s.pc = .tail then
      match s.pump.resyncTail (if known then some s.filteredLen else none) with
      | (p, some e) => some ({ s with pump := p }.finish e)
      | (p, none) => some { s with pump := p, pc := .top }
    else none
  | .takeHeld =>
    if s.atResync && !s.pump.resync then
      match s.pump.held with
      | some chunk => some (s.afterForward (({ s.pump with held := none }).forwardChunk chunk))
      | none => none
    else none
  | .tick =>
    if s.atSelect then
      if s.pump.completing.isSome then some s else some { s with pc := .status }
    else none
  | .status =>
    if s.pc = .status then
      if !s.session.running && s.session.outputClosed then
        some { s with
          pump := { s.pump with completing := some s.session.exitCode, resync := true }
          pc := .top }
      else some { s with pc := .top }
    else none
  | .statusErr =>
    if s.pc = .status then some (s.finish .closed) else none
  | .recv =>
    if s.atSelect then
      match s.rx.tryRecv with
      | (.ok chunk, rx) => some ({ s with rx := rx }.afterForward (s.pump.forwardChunk chunk))
      | (.lagged _, rx) => some { s with rx := rx, pump := s.pump.beginResync }
      | (.closed, _) =>
        some (s.finish (.done (if s.session.live then s.session.exitCode else none)
          s.pump.currentOffset))
      | (.empty, _) => none
    else none
  | .tryRecv =>
    match s.pc with
    | .coalescing data =>
      if data.length < maxCoalescedChunkBytes then
        match s.pump.coalesce data s.rx.tryRecv.1 with
        | (p, data', true) => some { s with rx := s.rx.tryRecv.2, pump := p, pc := .coalescing data' }
        | (p, data', false) => some ({ s with rx := s.rx.tryRecv.2 }.afterCoalesce p data')
      else some (s.afterCoalesce s.pump data)
    | _ => none
  | .cancel =>
    if s.pc = .tail ∨ s.pc = .status then some { s with pc := .top } else none
  | _ => none

/-- One step of the session or of its pump. -/
def step (s : Sys) (a : Act) : Option Sys :=
  (sessionStep s a).or ((subscribeStep s a).or (nextStep s a))

/-! ### What one step of `next` can do -/

/-- The stream length `resync_step` compares its cursor with. -/
def Sys.knownLen (s : Sys) (known : Bool) : Option ℕ :=
  if known then some s.filteredLen else none

/-- The outcomes of `nextStep`, one constructor for each branch, with its guards. -/
inductive Next (s : Sys) : Act → Sys → Prop
  | stall (hpc : s.pc = .top) (hgate : s.pump.gateOpen s.session.applied = false) :
    Next s .stall (s.finish .closed)
  | popPending {e : AttachEvent} {rest : List AttachEvent} (hhead : s.atHead = true)
      (hq : s.pump.pending = e :: rest) :
    Next s .popPending ({ s with pump := { s.pump with pending := rest } }.emit e)
  | windowEmpty {seen : ℕ} (hat : s.atResync = true) (hre : s.pump.resync = true)
      (hseen : seen ≤ s.session.persisted) (hd : s.windowData seen = []) :
    Next s (.window seen) { s with pc := .tail }
  | window {seen : ℕ} (hat : s.atResync = true) (hre : s.pump.resync = true)
      (hseen : seen ≤ s.session.persisted) (hd : s.windowData seen ≠ []) :
    Next s (.window seen)
      ({ s with pump := (s.pump.resyncWindow s.session.modes (s.windowData seen)).1 }.emit
        (.chunk s.pump.currentOffset (s.windowData seen)))
  | windowErr (hat : s.atResync = true) (hre : s.pump.resync = true) :
    Next s .windowErr (s.finish .closed)
  | tailWait {known : Bool} (hpc : s.pc = .tail)
      (hgap : (s.pump.heldGap || s.pump.completingBehind (s.knownLen known)) = true)
      (hretry : s.pump.flushRetries < flushRetryMax) :
    Next s (.filteredLen known)
      { s with pump := { s.pump with flushRetries := s.pump.flushRetries + 1 }, pc := .top }
  | tailClosed {known : Bool} (hpc : s.pc = .tail)
      (hgap : (s.pump.heldGap || s.pump.completingBehind (s.knownLen known)) = true)
      (hretry : ¬ s.pump.flushRetries < flushRetryMax) :
    Next s (.filteredLen known) (s.finish .closed)
  | tailDone {known : Bool} {code : Option ℤ} (hpc : s.pc = .tail)
      (hgap : (s.pump.heldGap || s.pump.completingBehind (s.knownLen known)) = false)
      (hcode : s.pump.completing = some code) :
    Next s (.filteredLen known)
      ({ s with pump := s.pump.resyncOver }.finish (.done code s.pump.currentOffset))
  | tailOver {known : Bool} (hpc : s.pc = .tail) (hcode : s.pump.completing = none) :
    Next s (.filteredLen known) { s with pump := s.pump.resyncOver, pc := .top }
  | takeHeld {chunk : SequencedChunk} (hat : s.atResync = true) (hre : s.pump.resync = false)
      (hheld : s.pump.held = some chunk) :
    Next s .takeHeld (s.afterForward (({ s.pump with held := none }).forwardChunk chunk))
  | tickDraining (hat : s.atSelect = true) (hcode : s.pump.completing.isSome = true) : Next s .tick s
  | tick (hat : s.atSelect = true) (hcode : s.pump.completing = none) :
    Next s .tick { s with pc := .status }
  | statusDone (hpc : s.pc = .status) (hrun : s.session.running = false)
      (hclosed : s.session.outputClosed = true) :
    Next s .status { s with
      pump := { s.pump with completing := some s.session.exitCode, resync := true }, pc := .top }
  | statusRunning (hpc : s.pc = .status) : Next s .status { s with pc := .top }
  | statusErr (hpc : s.pc = .status) : Next s .statusErr (s.finish .closed)
  | recv {chunk : SequencedChunk} (hat : s.atSelect = true) (hr : s.rx.tryRecv.1 = .ok chunk) :
    Next s .recv ({ s with rx := s.rx.tryRecv.2 }.afterForward (s.pump.forwardChunk chunk))
  | recvLagged {n : ℕ} (hat : s.atSelect = true) (hr : s.rx.tryRecv.1 = .lagged n) :
    Next s .recv { s with rx := s.rx.tryRecv.2, pump := s.pump.beginResync }
  | recvClosed (hat : s.atSelect = true) (hr : s.rx.tryRecv.1 = .closed) :
    Next s .recv (s.finish (.done (if s.session.live then s.session.exitCode else none)
      s.pump.currentOffset))
  | coalesce {data : Bytes} (hpc : s.pc = .coalescing data)
      (hmore : (s.pump.coalesce data s.rx.tryRecv.1).2.2 = true) :
    Next s .tryRecv { s with
      rx := s.rx.tryRecv.2
      pump := (s.pump.coalesce data s.rx.tryRecv.1).1
      pc := .coalescing (s.pump.coalesce data s.rx.tryRecv.1).2.1 }
  | coalesceLast {data : Bytes} (hpc : s.pc = .coalescing data)
      (hmore : (s.pump.coalesce data s.rx.tryRecv.1).2.2 = false) :
    Next s .tryRecv ({ s with rx := s.rx.tryRecv.2 }.afterCoalesce
      (s.pump.coalesce data s.rx.tryRecv.1).1 (s.pump.coalesce data s.rx.tryRecv.1).2.1)
  | coalesceFull {data : Bytes} (hpc : s.pc = .coalescing data) :
    Next s .tryRecv (s.afterCoalesce s.pump data)
  | cancel (hpc : s.pc = .tail ∨ s.pc = .status) : Next s .cancel { s with pc := .top }

/-- `resync_step` after an empty window. -/
theorem next_of_filteredLen {s t : Sys} {known : Bool}
    (h : nextStep s (.filteredLen known) = some t) : Next s (.filteredLen known) t := by
  simp only [nextStep] at h
  split at h
  · rename_i hpc
    rw [← Sys.knownLen] at h
    unfold AttachPump.resyncTail at h
    rcases hgap : s.pump.heldGap || s.pump.completingBehind (s.knownLen known) with _ | _ <;>
      simp only [hgap, Bool.false_eq_true, if_false, if_true] at h
    · rcases hc : s.pump.completing with _ | code <;> simp only [hc] at h <;> cases h
      · exact .tailOver hpc hc
      · exact .tailDone hpc hgap hc
    · by_cases hretry : s.pump.flushRetries < flushRetryMax <;> simp only [hretry, if_false, if_true] at h <;> cases h
      · exact .tailWait hpc hgap hretry
      · exact .tailClosed hpc hgap hretry
  · cases h

/-- One turn of the coalescing loop. -/
theorem next_of_tryRecv {s t : Sys} (h : nextStep s .tryRecv = some t) : Next s .tryRecv t := by
  simp only [nextStep] at h
  split at h
  · rename_i data hpc
    split at h
    · split at h
      · rename_i p data' hco
        cases h
        have := Next.coalesce hpc (by rw [hco])
        simpa only [hco] using this
      · rename_i p data' hco
        cases h
        have := Next.coalesceLast hpc (by rw [hco])
        simpa only [hco] using this
    · cases h
      exact .coalesceFull hpc
  · cases h

theorem next_of_recv {s t : Sys} (h : nextStep s .recv = some t) : Next s .recv t := by
  simp only [nextStep] at h
  split at h
  · rename_i hat
    split at h <;> rename_i hr
    · cases h
      have := Next.recv hat (by rw [hr])
      simpa only [hr] using this
    · cases h
      have := Next.recvLagged hat (by rw [hr])
      simpa only [hr] using this
    · cases h
      exact .recvClosed hat (by rw [hr])
    · cases h
  · cases h

theorem next_of_step {s t : Sys} {a : Act} (h : nextStep s a = some t) : Next s a t := by
  cases a with
  | filteredLen known => exact next_of_filteredLen h
  | tryRecv => exact next_of_tryRecv h
  | recv => exact next_of_recv h
  | stall =>
    simp only [nextStep] at h
    split at h
    · rename_i hc
      cases h; exact .stall hc.1 hc.2
    · cases h
  | popPending =>
    simp only [nextStep] at h
    split at h
    · rename_i hhead hq
      cases h; exact .popPending hhead hq
    · cases h
  | window seen =>
    simp only [nextStep] at h
    split at h
    · rename_i hc
      simp only [Bool.and_eq_true, decide_eq_true_eq] at hc
      split at h <;> rename_i hd
      · cases h; exact .windowEmpty hc.1.1 hc.1.2 hc.2 hd
      · cases h; exact .window hc.1.1 hc.1.2 hc.2 hd
    · cases h
  | windowErr =>
    simp only [nextStep] at h
    split at h
    · rename_i hc
      rw [Bool.and_eq_true] at hc
      cases h; exact .windowErr hc.1 hc.2
    · cases h
  | takeHeld =>
    simp only [nextStep] at h
    split at h
    · rename_i hc
      simp only [Bool.and_eq_true, Bool.not_eq_true'] at hc
      split at h
      · rename_i hheld
        cases h; exact .takeHeld hc.1 hc.2 hheld
      · cases h
    · cases h
  | tick =>
    simp only [nextStep] at h
    split at h
    · rename_i hat
      split at h <;> rename_i hc
      · cases h; exact .tickDraining hat hc
      · cases h; exact .tick hat (by simpa using hc)
    · cases h
  | status =>
    simp only [nextStep] at h
    split at h
    · rename_i hpc
      split at h <;> rename_i hc
      · simp only [Bool.and_eq_true, Bool.not_eq_true'] at hc
        cases h; exact .statusDone hpc hc.1 hc.2
      · cases h; exact .statusRunning hpc
    · cases h
  | statusErr =>
    simp only [nextStep] at h
    split at h
    · rename_i hpc
      cases h; exact .statusErr hpc
    · cases h
  | cancel =>
    simp only [nextStep] at h
    split at h
    · rename_i hpc
      cases h; exact .cancel hpc
    · cases h
  | _ => cases h

/-! ### The emitted chunks are the stream

The invariant: every chunk in flight, in the ring, held or being coalesced is a
piece of the stream, and the emitted chunks are the slice between the attach
offset and the cursor. -/

/-- The chunks among the events, in order. -/
def chunks (events : List AttachEvent) : List (ℕ × Bytes) :=
  events.filterMap fun
    | .chunk offset data => some (offset, data)
    | _ => none

@[simp] theorem chunks_nil : chunks [] = [] := rfl

theorem chunks_append_singleton (es : List AttachEvent) (e : AttachEvent) :
    chunks (es ++ [e]) = chunks es ++ chunks [e] := by
  simp [chunks, List.filterMap_append]

/-- The chunks run from `a` to `b` without a gap and carry the stream's bytes. -/
structure Gapless (stream : Bytes) (a b : ℕ) (cs : List (ℕ × Bytes)) : Prop where
  le : a ≤ b
  first : ∀ c ∈ cs.head?, c.1 = a
  chain : cs.IsChain fun x y => y.1 = x.1 + x.2.length
  last : ∀ c ∈ cs.getLast?, c.1 + c.2.length = b
  data : (cs.map Prod.snd).flatten = slice stream a b

theorem Gapless.nil (stream : Bytes) (a : ℕ) : Gapless stream a a [] :=
  ⟨le_rfl, by simp, .nil, by simp, by simp⟩

theorem Gapless.mono {s t : Bytes} (h : s <+: t) {a b : ℕ} {cs : List (ℕ × Bytes)}
    (hb : b ≤ s.length) (hc : Gapless s a b cs) : Gapless t a b cs :=
  ⟨hc.le, hc.first, hc.chain, hc.last, by rw [hc.data, slice_mono h hb]⟩

/-- The next chunk is the piece of the stream at the cursor. -/
theorem Gapless.snoc {s : Bytes} {a b : ℕ} {cs : List (ℕ × Bytes)} (hc : Gapless s a b cs)
    {d : Bytes} (hd : Piece s b d) : Gapless s a (b + d.length) (cs ++ [(b, d)]) where
  le := hc.le.trans (Nat.le_add_right _ _)
  first := by
    intro c hmem
    rcases cs with _ | ⟨c', cs⟩
    · simp only [List.nil_append, List.head?_cons, Option.mem_def, Option.some.injEq] at hmem
      have hab : a = b := by
        by_contra hne
        have hlen := congrArg List.length hc.data
        rw [slice_length_of_le (by have := hd.bound; omega)] at hlen
        have := hc.le
        simp at hlen
        omega
      rw [← hmem, hab]
    · exact hc.first c (by simpa using hmem)
  chain := by
    rw [List.isChain_append]
    refine ⟨hc.chain, .singleton _, fun x hx y hy => ?_⟩
    simp only [List.head?_cons, Option.mem_def, Option.some.injEq] at hy
    rw [← hy, hc.last x hx]
  last := by simp
  data := by
    rw [List.map_append, List.flatten_append, hc.data]
    simpa using slice_append_piece hc.le hd

/-- What every reachable state satisfies. -/
structure Inv (s : Sys) : Prop where
  ring : ∀ c ∈ s.rx.queue, Piece s.session.stream c.offset c.bytes
  flight : ∀ c ∈ s.session.inFlight, Piece s.session.stream c.offset c.bytes
  held : ∀ c ∈ s.pump.held, Piece s.session.stream c.offset c.bytes
  persisted : s.session.persisted ≤ s.session.stream.length
  cursor : s.pump.currentOffset ≤ s.session.stream.length
  frame : ∀ data, s.pc = .coalescing data → Piece s.session.stream s.pump.currentOffset data
  pending : chunks s.pump.pending = []
  emitted : ∀ i ∈ s.init, Gapless s.session.stream i.endOffset s.pump.currentOffset (chunks s.events)
  fresh : s.init = none ↔ s.pc = .detached ∨ ∃ offset, s.pc = .subscribed offset
  quiet : s.init = none → s.events = []

theorem inv_start (modes : ModeSnapshot) (incarnation : Option ℕ) :
    Inv (Sys.start modes incarnation) where
  ring := by simp [Sys.start]
  flight := by simp [Sys.start]
  held := by simp [Sys.start, AttachPump.new]
  persisted := by simp [Sys.start]
  cursor := by simp [Sys.start, AttachPump.new]
  frame := by simp [Sys.start]
  pending := by simp [Sys.start, AttachPump.new]
  emitted := by simp [Sys.start]
  fresh := by simp [Sys.start]
  quiet := by simp [Sys.start]

/-- The session's own steps: its stream only grows. -/
theorem inv_session {s t : Sys} {a : Act} (hi : Inv s) (h : sessionStep s a = some t) : Inv t := by
  cases a <;> simp only [sessionStep, reduceCtorEq] at h
  case read bytes =>
    split at h
    · cases h
    · cases h
      have hm : s.session.stream <+: s.session.stream ++ bytes := List.prefix_append _ _
      have hlen := hm.length_le
      exact {
        ring := fun c hc => (hi.ring c hc).mono hm
        flight := by
          intro c hc
          simp only [Option.mem_def, Option.some.injEq] at hc
          rw [← hc]
          exact piece_append_right _ _
        held := fun c hc => (hi.held c hc).mono hm
        persisted := hi.persisted.trans hlen
        cursor := hi.cursor.trans hlen
        frame := fun d hd => (hi.frame d hd).mono hm
        pending := hi.pending
        emitted := fun i hinit => (hi.emitted i hinit).mono hm hi.cursor
        fresh := hi.fresh
        quiet := hi.quiet }
  case send =>
    split at h
    · cases h
    · rename_i chunk hf
      cases h
      refine { hi with ring := ?_, flight := by simp }
      intro c hc
      simp only at hc
      split at hc
      · rcases List.mem_append.mp hc with hc | hc
        · exact hi.ring c hc
        · rw [List.mem_singleton.mp hc]
          exact hi.flight chunk (by simp [hf])
      · exact hi.ring c hc
  case journalStop =>
    split at h
    · cases h; exact { hi with flight := by simp }
    · cases h
  case closeOutput =>
    split at h
    · cases h
    · cases h; exact { hi with }
  case exit code => cases h; exact { hi with }
  case persist n =>
    split at h
    · rename_i hn
      cases h; exact { hi with persisted := hn.2 }
    · cases h
  case setModes modes => cases h; exact { hi with }
  case report cursor =>
    split at h
    · cases h
    · split at h
      · cases h; exact { hi with }
      · cases h; exact hi
  case overflow =>
    split at h
    · cases h
    · rename_i c q hq
      cases h
      exact { hi with ring := fun c hc => hi.ring c (by rw [hq]; exact List.mem_cons_of_mem _ hc) }
  case evict =>
    split at h
    · cases h
    · cases h; exact { hi with }
  case closeChannel =>
    split at h
    · cases h
    · cases h; exact { hi with }

/-- Attaching starts an empty stream of chunks at the attach offset. -/
theorem inv_attach {s : Sys} (hi : Inv s) (hnone : s.init = none) {data : Bytes} {endOffset : ℕ}
    (hend : endOffset ≤ s.session.stream.length) (sharedModes : Bool)
    (credit : Option CreditPolicy) : Inv (s.attach data endOffset sharedModes credit) where
  ring := hi.ring
  flight := hi.flight
  held := by simp [Sys.attach, AttachPump.new]
  persisted := hi.persisted
  cursor := hend
  frame := by simp [Sys.attach]
  pending := by simp [Sys.attach, AttachPump.new]
  emitted := by
    intro i hinit
    simp only [Sys.attach, Option.mem_def, Option.some.injEq] at hinit
    simp only [Sys.attach, ← hinit, hi.quiet hnone, chunks_nil]
    exact Gapless.nil _ _
  fresh := by simp [Sys.attach]
  quiet := by simp [Sys.attach]

theorem inv_subscribe {s t : Sys} {a : Act} (hi : Inv s) (h : subscribeStep s a = some t) :
    Inv t := by
  cases a <;> simp only [subscribeStep, reduceCtorEq] at h
  case subscribe snapshot sharedModes credit =>
    split at h
    · rename_i hpc
      cases h
      exact inv_attach hi (hi.fresh.mpr (.inl hpc)) le_rfl _ _
    · cases h
  case resume offset incarnation =>
    split at h
    · rename_i hpc
      cases h
      have hnone := hi.fresh.mpr (.inl hpc.1)
      exact { hi with frame := by simp, fresh := by simp [hnone] }
    · cases h
  case resumeInit seen sharedModes credit =>
    split at h
    · rename_i offset hpc
      split at h
      · rename_i hseen
        cases h
        exact inv_attach hi (hi.fresh.mpr (.inr ⟨offset, hpc⟩)) (hseen.trans hi.persisted) _ _
      · cases h
    · cases h

section Observe

variable (p : AttachPump) (modes : ModeSnapshot)

@[simp] theorem observeModes_currentOffset : (p.observeModes modes).currentOffset = p.currentOffset := by
  unfold AttachPump.observeModes; split <;> rfl

@[simp] theorem observeModes_held : (p.observeModes modes).held = p.held := by
  unfold AttachPump.observeModes; split <;> rfl

@[simp] theorem observeModes_resync : (p.observeModes modes).resync = p.resync := by
  unfold AttachPump.observeModes; split <;> rfl

/-- A mode change queues at most one event, and no chunk. -/
theorem observeModes_pending : (p.observeModes modes).pending = p.pending ∨
    (p.observeModes modes).pending = p.pending ++ [.modes modes] := by
  unfold AttachPump.observeModes; split <;> simp

theorem chunks_observeModes : chunks (p.observeModes modes).pending = chunks p.pending := by
  rcases observeModes_pending p modes with h | h
  · rw [h]
  · rw [h, chunks_append_singleton]; simp [chunks]

end Observe

/-- The pump streams: `subscribe` has returned. -/
def Pc.Streaming (pc : Pc) : Prop := pc ≠ .detached ∧ ∀ offset, pc ≠ .subscribed offset

theorem Inv.init_ne_none {s : Sys} (hi : Inv s) (hpc : s.pc.Streaming) : s.init ≠ none := by
  intro hnone
  rcases hi.fresh.mp hnone with h | ⟨offset, h⟩
  · exact hpc.1 h
  · exact hpc.2 offset h

/-- A step of the pump keeps the invariant if what it holds and emits are pieces
of the stream at the cursor. -/
theorem Inv.pump {s : Sys} (hi : Inv s) (hpc : s.pc.Streaming) {r : Receiver} {p : AttachPump}
    {pc : Pc} {es : List AttachEvent} (hring : ∀ c ∈ r.queue, c ∈ s.rx.queue)
    (hheld : ∀ c ∈ p.held, Piece s.session.stream c.offset c.bytes)
    (hpend : chunks p.pending = []) (hcur : p.currentOffset ≤ s.session.stream.length)
    (hpc' : pc.Streaming)
    (hframe : ∀ data, pc = .coalescing data → Piece s.session.stream p.currentOffset data)
    (hemit : ∀ i ∈ s.init,
      Gapless s.session.stream i.endOffset p.currentOffset (chunks es)) :
    Inv { s with rx := r, pump := p, pc := pc, events := es } where
  ring := fun c hc => hi.ring c (hring c hc)
  flight := hi.flight
  held := hheld
  persisted := hi.persisted
  cursor := hcur
  frame := hframe
  pending := hpend
  emitted := hemit
  fresh := by
    have hsome := hi.init_ne_none hpc
    simp only [hsome, false_iff, not_or, not_exists]
    exact hpc'
  quiet := fun hnone => absurd hnone (hi.init_ne_none hpc)

theorem streaming_top : Pc.top.Streaming := ⟨by simp, by simp⟩
theorem streaming_ended : Pc.ended.Streaming := ⟨by simp, by simp⟩

/-- Ending the stream with an event that is not a chunk. -/
theorem Inv.finish {s : Sys} (hi : Inv s) (hpc : s.pc.Streaming) {p : AttachPump} {e : AttachEvent}
    (hp : p.currentOffset = s.pump.currentOffset) (hheld : p.held = s.pump.held)
    (hpend : p.pending = s.pump.pending) (he : chunks [e] = []) :
    Inv ({ s with pump := p }.finish e) := by
  refine hi.pump hpc (r := s.rx) (p := p) (fun _ hc => hc) ?_ ?_ ?_ streaming_ended (by simp) ?_
  · rw [hheld]; exact hi.held
  · rw [hpend]; exact hi.pending
  · rw [hp]; exact hi.cursor
  · intro i hinit
    simp only [Sys.emit, chunks_append_singleton, he, List.append_nil, hp]
    exact hi.emitted i hinit

theorem tryRecv_queue (rx : Receiver) : ∀ c ∈ rx.tryRecv.2.queue, c ∈ rx.queue := by
  unfold Receiver.tryRecv
  split
  · exact fun _ hc => hc
  · split
    · rename_i hq
      intro c hc
      rw [hq]
      exact List.mem_cons_of_mem _ hc
    · exact fun _ hc => hc

theorem tryRecv_ok {rx : Receiver} {c : SequencedChunk} (h : rx.tryRecv.1 = .ok c) :
    c ∈ rx.queue := by
  unfold Receiver.tryRecv at h
  split at h
  · cases h
  · split at h
    · rename_i hq
      cases h
      rw [hq]
      exact List.mem_cons_self
    · split at h <;> cases h

/-- `forward_chunk` on a piece of the stream: a held chunk is that piece, a
frame starts with the stream at the cursor. -/
theorem forwardChunk_spec {s : Bytes} {p : AttachPump} {c : SequencedChunk}
    (hc : Piece s c.offset c.bytes) :
    (p.forwardChunk c).1.currentOffset = p.currentOffset ∧
    (p.forwardChunk c).1.pending = p.pending ∧
    (∀ c' ∈ (p.forwardChunk c).1.held, c' = c ∨ c' ∈ p.held) ∧
    ∀ d ∈ (p.forwardChunk c).2, Piece s p.currentOffset d := by
  unfold AttachPump.forwardChunk
  simp only
  split
  · exact ⟨rfl, rfl, fun c' h => .inr h, by simp⟩
  · rename_i hcov
    split
    · refine ⟨rfl, rfl, fun c' h => .inl ?_, by simp⟩
      simpa [AttachPump.beginResync, eq_comm] using h
    · rename_i hgap
      refine ⟨rfl, rfl, fun c' h => .inr h, fun d hd => ?_⟩
      simp only [Option.mem_def, Option.some.injEq] at hd
      rw [← hd]
      have hk : p.currentOffset - c.offset ≤ c.bytes.length := by omega
      have := hc.drop hk
      rwa [show c.offset + (p.currentOffset - c.offset) = p.currentOffset by omega] at this

/-- A turn of the coalescing loop extends the frame by the stream that follows
it. -/
theorem coalesce_spec {s : Bytes} {p : AttachPump} {data : Bytes} {r : Recv}
    (hd : Piece s p.currentOffset data) (hr : ∀ c, r = .ok c → Piece s c.offset c.bytes) :
    (p.coalesce data r).1.currentOffset = p.currentOffset ∧
    (p.coalesce data r).1.pending = p.pending ∧
    (∀ c ∈ (p.coalesce data r).1.held, r = .ok c ∨ c ∈ p.held) ∧
    Piece s p.currentOffset (p.coalesce data r).2.1 := by
  cases r with
  | ok next =>
    simp only [AttachPump.coalesce]
    split
    · refine ⟨rfl, rfl, fun c h => .inl ?_, hd⟩
      simp only [AttachPump.beginResync, Option.mem_def, Option.some.injEq] at h
      rw [h]
    · rename_i hgap
      refine ⟨rfl, rfl, fun c h => .inr h, hd.append ?_⟩
      have hn := hr next rfl
      rcases Nat.le_total (p.currentOffset + data.length - next.offset) next.bytes.length with hk | hk
      · have := hn.drop hk
        rwa [show next.offset + (p.currentOffset + data.length - next.offset)
          = p.currentOffset + data.length by omega] at this
      · rw [List.drop_eq_nil_of_le hk]
        exact piece_nil hd.bound
  | lagged _ => exact ⟨rfl, rfl, fun c h => .inr h, hd⟩
  | closed => exact ⟨rfl, rfl, fun c h => .inr h, hd⟩
  | empty => exact ⟨rfl, rfl, fun c h => .inr h, hd⟩

theorem inv_afterForward {s : Sys} (hi : Inv s) (hpc : s.pc.Streaming) {r : Receiver}
    (hring : ∀ c ∈ r.queue, c ∈ s.rx.queue) {p : AttachPump}
    (hp : p.currentOffset = s.pump.currentOffset) (hpend : p.pending = s.pump.pending)
    (hheld : ∀ c ∈ p.held, Piece s.session.stream c.offset c.bytes) {c : SequencedChunk}
    (hc : Piece s.session.stream c.offset c.bytes) :
    Inv ({ s with rx := r }.afterForward (p.forwardChunk c)) := by
  obtain ⟨h1, h2, h3, h4⟩ := forwardChunk_spec (p := p) hc
  have hheld' : ∀ c' ∈ (p.forwardChunk c).1.held, Piece s.session.stream c'.offset c'.bytes := by
    intro c' hc'
    rcases h3 c' hc' with rfl | hc'
    · exact hc
    · exact hheld c' hc'
  have hcur : (p.forwardChunk c).1.currentOffset = s.pump.currentOffset := h1.trans hp
  have hpend' : chunks (p.forwardChunk c).1.pending = [] := by rw [h2, hpend]; exact hi.pending
  have hemit : ∀ i ∈ s.init, Gapless s.session.stream i.endOffset
      (p.forwardChunk c).1.currentOffset (chunks s.events) := by
    rw [hcur]; exact hi.emitted
  rcases hf : p.forwardChunk c with ⟨p', d | d⟩
  · rw [hf] at hheld' hpend' hcur hemit
    exact hi.pump hpc hring hheld' hpend' (hcur ▸ hi.cursor) streaming_top (by simp) hemit
  · rw [hf] at hheld' hpend' hcur hemit
    refine hi.pump hpc hring hheld' hpend' (hcur ▸ hi.cursor) ⟨by simp, by simp⟩ ?_ hemit
    intro data hdata
    cases hdata
    rw [hcur, ← hp]
    exact h4 d (by simp [hf])

/-- Emitting the frame: it is the stream at the cursor. -/
theorem inv_afterCoalesce {s : Sys} (hi : Inv s) (hpc : s.pc.Streaming) {r : Receiver}
    (hring : ∀ c ∈ r.queue, c ∈ s.rx.queue) {p : AttachPump}
    (hp : p.currentOffset = s.pump.currentOffset) (hpend : p.pending = s.pump.pending)
    (hheld : ∀ c ∈ p.held, Piece s.session.stream c.offset c.bytes) {data : Bytes}
    (hd : Piece s.session.stream p.currentOffset data) :
    Inv ({ s with rx := r }.afterCoalesce p data) := by
  have hbound := hd.bound
  have hpend' : chunks (p.forwarded s.session.modes data).pending = [] := by
    rw [AttachPump.forwarded, chunks_observeModes]
    exact hpend ▸ hi.pending
  have hcur : (p.forwarded s.session.modes data).currentOffset = p.currentOffset + data.length := by
    simp [AttachPump.forwarded]
  have hheld' : ∀ c ∈ (p.forwarded s.session.modes data).held,
      Piece s.session.stream c.offset c.bytes := by
    simpa [AttachPump.forwarded] using hheld
  unfold Sys.afterCoalesce
  simp only
  split
  · rename_i hnil
    refine hi.pump hpc hring hheld' hpend' (by rw [hcur]; exact hbound) streaming_top (by simp) ?_
    intro i hinit
    rw [hcur, hnil, hp]
    exact hi.emitted i hinit
  · refine hi.pump hpc hring hheld' hpend' (by rw [hcur]; exact hbound) streaming_top (by simp) ?_
    intro i hinit
    rw [hcur, chunks_append_singleton]
    exact (hp ▸ hi.emitted i hinit).snoc hd

theorem Sys.atHead_pc {s : Sys} (h : s.atHead = true) : s.pc = .top := by
  simp only [Sys.atHead, Bool.and_eq_true, decide_eq_true_eq] at h; exact h.1

theorem Sys.atResync_pc {s : Sys} (h : s.atResync = true) : s.pc = .top := by
  simp only [Sys.atResync, Bool.and_eq_true] at h; exact Sys.atHead_pc h.1

theorem Sys.atSelect_pc {s : Sys} (h : s.atSelect = true) : s.pc = .top := by
  simp only [Sys.atSelect, Bool.and_eq_true] at h; exact Sys.atResync_pc h.1.1

/-- A window is the stream at the cursor. -/
theorem piece_windowData {s : Sys} (hi : Inv s) {seen : ℕ} (hseen : seen ≤ s.session.persisted)
    (hne : s.windowData seen ≠ []) :
    Piece s.session.stream s.pump.currentOffset (s.windowData seen) := by
  have hlt : s.pump.currentOffset < seen := by
    by_contra hle
    exact hne (by simp [Sys.windowData, slice, show min seen (s.pump.currentOffset + resyncWindowBytes)
      - s.pump.currentOffset = 0 by omega])
  have := hi.persisted
  exact piece_slice (by omega) (by omega)

/-- A turn of the coalescing loop on what the ring holds. -/
theorem inv_coalesce {s : Sys} (hi : Inv s) {data : Bytes} (hpc : s.pc = .coalescing data) :
    (s.pump.coalesce data s.rx.tryRecv.1).1.currentOffset = s.pump.currentOffset ∧
    (s.pump.coalesce data s.rx.tryRecv.1).1.pending = s.pump.pending ∧
    (∀ c ∈ (s.pump.coalesce data s.rx.tryRecv.1).1.held, Piece s.session.stream c.offset c.bytes) ∧
    Piece s.session.stream s.pump.currentOffset (s.pump.coalesce data s.rx.tryRecv.1).2.1 := by
  obtain ⟨h1, h2, h3, h4⟩ := coalesce_spec (r := s.rx.tryRecv.1) (hi.frame data hpc)
    fun c hc => hi.ring c (tryRecv_ok hc)
  refine ⟨h1, h2, fun c hc => ?_, h4⟩
  rcases h3 c hc with hc | hc
  · exact hi.ring c (tryRecv_ok hc)
  · exact hi.held c hc

/-- The pump's own steps. -/
theorem inv_next {s t : Sys} {a : Act} (hi : Inv s) (h : Next s a t) : Inv t := by
  have hfin : ∀ {e}, s.pc.Streaming → chunks [e] = [] → Inv (s.finish e) := fun hpc he =>
    hi.finish hpc (p := s.pump) rfl rfl rfl he
  have hkeep : ∀ {pc : Pc}, s.pc.Streaming → pc.Streaming → (∀ data, pc ≠ .coalescing data) →
      Inv { s with pc := pc } := fun hpc hpc' hd =>
    hi.pump hpc (r := s.rx) (fun _ hc => hc) hi.held hi.pending hi.cursor hpc'
      (fun data h => absurd h (hd data)) hi.emitted
  have htail : s.pc = .tail → s.pc.Streaming := fun hpc => hpc ▸ ⟨by simp, by simp⟩
  have hstatus : s.pc = .status → s.pc.Streaming := fun hpc => hpc ▸ ⟨by simp, by simp⟩
  have htop : s.pc = .top → s.pc.Streaming := fun hpc => hpc ▸ streaming_top
  cases h with
  | stall hpc => exact hfin (htop hpc) rfl
  | @popPending e rest hhead hq =>
    have hpc := Sys.atHead_pc hhead
    have hsplit : chunks [e] = [] ∧ chunks rest = [] := by
      have := hi.pending
      rw [hq, show e :: rest = [e] ++ rest from rfl] at this
      simpa only [chunks, List.filterMap_append, List.append_eq_nil_iff] using this
    refine hi.pump (htop hpc) (r := s.rx) (fun _ hc => hc) hi.held hsplit.2 hi.cursor (htop hpc)
      (by simp [hpc]) ?_
    intro i hinit
    rw [chunks_append_singleton, hsplit.1, List.append_nil]
    exact hi.emitted i hinit
  | windowEmpty hat => exact hkeep (htop (Sys.atResync_pc hat)) ⟨by simp, by simp⟩ (by simp)
  | window hat _ hseen hne =>
    have hpc := Sys.atResync_pc hat
    have hd := piece_windowData hi hseen hne
    refine hi.pump (htop hpc) (r := s.rx) (fun _ hc => hc) ?_ ?_ ?_ (htop hpc) (by simp [hpc]) ?_
    · simpa [AttachPump.resyncWindow] using hi.held
    · simpa [AttachPump.resyncWindow, chunks_observeModes] using hi.pending
    · simpa [AttachPump.resyncWindow] using hd.bound
    · intro i hinit
      rw [chunks_append_singleton]
      simpa [AttachPump.resyncWindow, chunks] using (hi.emitted i hinit).snoc hd
  | windowErr hat => exact hfin (htop (Sys.atResync_pc hat)) rfl
  | tailWait hpc =>
    exact hi.pump (htail hpc) (r := s.rx) (fun _ hc => hc) hi.held hi.pending hi.cursor
      streaming_top (by simp) hi.emitted
  | tailClosed hpc => exact hfin (htail hpc) rfl
  | tailDone hpc => exact hi.finish (htail hpc) rfl rfl rfl rfl
  | tailOver hpc =>
    exact hi.pump (htail hpc) (r := s.rx) (fun _ hc => hc) hi.held hi.pending hi.cursor
      streaming_top (by simp) hi.emitted
  | @takeHeld chunk hat _ hheld =>
    exact inv_afterForward hi (htop (Sys.atResync_pc hat)) (r := s.rx)
      (p := { s.pump with held := none }) (fun _ hc => hc) rfl rfl (by simp)
      (hi.held chunk (by simp [hheld]))
  | tickDraining => exact hi
  | tick hat => exact hkeep (htop (Sys.atSelect_pc hat)) ⟨by simp, by simp⟩ (by simp)
  | statusDone hpc =>
    exact hi.pump (hstatus hpc) (r := s.rx) (fun _ hc => hc) hi.held hi.pending hi.cursor
      streaming_top (by simp) hi.emitted
  | statusRunning hpc => exact hkeep (hstatus hpc) streaming_top (by simp)
  | statusErr hpc => exact hfin (hstatus hpc) rfl
  | recv hat hr =>
    exact inv_afterForward hi (htop (Sys.atSelect_pc hat)) (tryRecv_queue _) rfl rfl hi.held
      (hi.ring _ (tryRecv_ok hr))
  | recvLagged hat =>
    have hpc := Sys.atSelect_pc hat
    exact hi.pump (htop hpc) (tryRecv_queue _) hi.held hi.pending hi.cursor (htop hpc)
      (by simp [hpc]) hi.emitted
  | recvClosed hat => exact hfin (htop (Sys.atSelect_pc hat)) rfl
  | @coalesce data hpc =>
    obtain ⟨h1, h2, hheld, h4⟩ := inv_coalesce hi hpc
    refine hi.pump (hpc ▸ ⟨by simp, by simp⟩) (tryRecv_queue _) hheld (by rw [h2]; exact hi.pending)
      (by rw [h1]; exact hi.cursor) ⟨by simp, by simp⟩ ?_ (by rw [h1]; exact hi.emitted)
    intro d hd
    cases hd
    rw [h1]
    exact h4
  | @coalesceLast data hpc =>
    obtain ⟨h1, h2, hheld, h4⟩ := inv_coalesce hi hpc
    exact inv_afterCoalesce hi (hpc ▸ ⟨by simp, by simp⟩) (tryRecv_queue _) h1 h2 hheld (h1 ▸ h4)
  | @coalesceFull data hpc =>
    exact inv_afterCoalesce hi (hpc ▸ ⟨by simp, by simp⟩) (r := s.rx) (fun _ hc => hc) rfl rfl
      hi.held (hi.frame data hpc)
  | cancel hpc => exact hkeep (hpc.elim htail hstatus) streaming_top (by simp)

theorem step_cases {s t : Sys} {a : Act} (h : step s a = some t) :
    sessionStep s a = some t ∨ subscribeStep s a = some t ∨ Next s a t := by
  simp only [step, Option.or_eq_some_iff] at h
  rcases h with h | ⟨-, h | ⟨-, h⟩⟩
  · exact .inl h
  · exact .inr (.inl h)
  · exact .inr (.inr (next_of_step h))

theorem inv_step {s t : Sys} {a : Act} (hi : Inv s) (h : step s a = some t) : Inv t := by
  rcases step_cases h with h | h | h
  · exact inv_session hi h
  · exact inv_subscribe hi h
  · exact inv_next hi h

theorem inv_run {modes : ModeSnapshot} {incarnation : Option ℕ} {acts : List Act} {s : Sys}
    (h : run step (Sys.start modes incarnation) acts = some s) : Inv s :=
  run_invariant inv_step h (inv_start modes incarnation)

/-- `next` leaves the session alone, and what it started from. -/
theorem next_keeps {s t : Sys} {a : Act} (h : Next s a t) : t.session = s.session ∧ t.init = s.init := by
  have hforward : ∀ (s : Sys) (r : AttachPump × Option Bytes),
      (s.afterForward r).session = s.session ∧ (s.afterForward r).init = s.init := by
    intro s r
    rcases r with ⟨p, _ | data⟩ <;> exact ⟨rfl, rfl⟩
  have hcoalesce : ∀ (s : Sys) (p : AttachPump) (data : Bytes),
      (s.afterCoalesce p data).session = s.session ∧ (s.afterCoalesce p data).init = s.init := by
    intro s p data
    rw [Sys.afterCoalesce]
    split <;> exact ⟨rfl, rfl⟩
  cases h with
  | takeHeld | recv => exact hforward _ _
  | coalesceLast => exact hcoalesce _ _ _
  | coalesceFull => exact hcoalesce _ _ _
  | _ => exact ⟨rfl, rfl⟩

/-- The session's steps only let the stream grow. -/
theorem session_keeps {s t : Sys} {a : Act} (h : sessionStep s a = some t) :
    s.session.stream <+: t.session.stream ∧ t.init = s.init := by
  cases a <;> simp only [sessionStep, reduceCtorEq] at h
  case read bytes =>
    split at h
    · cases h
    · cases h
      exact ⟨List.prefix_append _ _, rfl⟩
  case exit | setModes =>
    cases h
    exact ⟨List.prefix_rfl, rfl⟩
  case report =>
    split at h
    · cases h
    · split at h
      all_goals cases h
      all_goals exact ⟨List.prefix_rfl, rfl⟩
  all_goals
    split at h
    all_goals cases h
    exact ⟨List.prefix_rfl, rfl⟩

/-- Once the pump is attached, its start stays, and the stream it follows grows. -/
theorem attached_step {s t : Sys} {a : Act} {init : AttachInit} (hi : Inv s) (hinit : s.init = some init)
    (h : step s a = some t) : s.session.stream <+: t.session.stream ∧ t.init = some init := by
  rcases step_cases h with h | h | h
  · obtain ⟨hpre, heq⟩ := session_keeps h
    exact ⟨hpre, heq.trans hinit⟩
  · -- subscribing comes first
    exfalso
    have hpc : ¬ (s.pc = .detached ∨ ∃ offset, s.pc = .subscribed offset) := fun hpc => by
      rw [hi.fresh.mpr hpc] at hinit
      cases hinit
    cases a <;> simp only [subscribeStep, reduceCtorEq] at h
    case subscribe snapshot sharedModes credit =>
      split at h
      · exact hpc (.inl ‹_›)
      · cases h
    case resume offset incarnation =>
      split at h
      · exact hpc (.inl (And.left ‹_›))
      · cases h
    case resumeInit seen sharedModes credit =>
      split at h
      · exact hpc (.inr ⟨_, ‹_›⟩)
      · cases h
  · obtain ⟨hsession, heq⟩ := next_keeps h
    exact ⟨by rw [hsession], heq.trans hinit⟩

/-- **The attach stream has no gap.** In every run, whatever the ring dropped,
the journal had persisted and the transport cancelled: the first chunk starts
at the attach offset, each later one where the one before it ended, and
together they are the stream between the attach offset and the cursor. -/
theorem gapless_attach_stream (modes : ModeSnapshot) (incarnation : Option ℕ) (acts : List Act)
    (s : Sys) (h : run step (Sys.start modes incarnation) acts = some s) (init : AttachInit)
    (hinit : s.init = some init) :
    (∀ c ∈ (chunks s.events).head?, c.1 = init.endOffset) ∧
    (chunks s.events).IsChain (fun x y => y.1 = x.1 + x.2.length) ∧
    ((chunks s.events).map Prod.snd).flatten =
      slice s.session.stream init.endOffset s.pump.currentOffset ∧
    s.pump.currentOffset ≤ s.session.stream.length := by
  have hi := inv_run h
  have hg := hi.emitted init hinit
  exact ⟨hg.first, hg.chain, hg.data, hi.cursor⟩

/-- All modes off. -/
def plainModes : ModeSnapshot := ⟨false, false, false, false, false⟩

/-- A lag inside the coalescing loop, closed by a short persisted window. -/
def laggedRun : List Act :=
  [.read [1], .send, .subscribe [] true none, .read [2], .send, .read [3], .send, .recv, .read [4],
    .send, .overflow, .tryRecv, .persist 3, .window 3, .recv, .tryRecv]

theorem gapless_attach_stream_lagged :
    ∃ s init, run step (Sys.start plainModes (some 1)) laggedRun = some s ∧ s.init = some init ∧
      chunks s.events = [(1, [2]), (2, [3]), (3, [4])] ∧
      ((chunks s.events).map Prod.snd).flatten =
        slice s.session.stream init.endOffset s.pump.currentOffset := by
  refine ⟨?s, ?init, ?reached, ?attached, ?chunks, ?data⟩
  case reached => rfl
  case attached => rfl
  case chunks => rfl
  case data => exact (gapless_attach_stream plainModes (some 1) laggedRun _ rfl _ rfl).2.2.1

end Pump
end OpenRelay
