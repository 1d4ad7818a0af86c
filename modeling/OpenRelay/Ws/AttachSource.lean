/-
# A web attach, local and relayed

A browser attaches to a session of its own daemon, or through it to one of another
node (`http/attach_source.rs`, `http/ws.rs`). The local arm translates the pump's
events itself. On the relayed arm the owning daemon's handler writes frames
(`daemon/rpc_attach.rs`), a relay reads them, and the gateway translates its
responses.

Both arms are given the same: what the pump yields, the sizes that the session
announces and the client's messages, in one order. Each hears the other's messages
as long as nothing comes of which only one arm speaks: the loop of the local arm
never asks its subscriber for the sizes that others set, and an end without a
completion or a call that fails is told in other words, or not at all
(`arms_alike_iff`). The relay is lossless: what the handler writes is read whole and
in order, but by the reader that there is, with its caps.

Key theorems: `serve_eq_iff`, `relayedInv_step`.
-/
import OpenRelay.Ipc.Relay
import OpenRelay.Session.Control
import OpenRelay.Ws.Revocation

namespace OpenRelay

/-- What a caller is told. -/
def Session.Control.SessionError.message (id : Bytes) : Session.Control.SessionError → Bytes
  | .evicted => Ipc.text "session evicted from memory: " ++ id
  | .notRunning => Ipc.text "session not running: " ++ id
  | .busy => Ipc.text "session input queue is full: " ++ id
  | .viewOnly => Ipc.text "session " ++ (id ++ Ipc.text
      " is attached in view-only mode (observe): re-attach without --observe to send input or resize")
  | .staleAttachment =>
    Ipc.text "attachment is no longer registered for session " ++ (id ++ Ipc.text "; re-attach")

namespace Ws
namespace Source

open Ipc (RpcResponse AttachFrame ReadError text)
open Pump (ModeSnapshot AttachEvent AttachInit)
open Session.Control (SessionError)

/-! ### Messages -/

/-- What a browser gets first. -/
structure InitFrame where
  data : Bytes
  endOffset : ℕ
  incarnation : ℕ
  running : Bool
  modes : ModeSnapshot
  attachmentId : ℕ
  deriving DecidableEq, Repr

/-- What a browser is told. -/
inductive ServerMessage where
  | init (frame : InitFrame)
  | data (offset : ℕ) (data : Bytes)
  | modeChanged (modes : ModeSnapshot)
  | resized (rows cols : ℕ)
  | sessionEnded (exitCode : Option ℤ) (finalOffset : ℕ)
  | error (message : Bytes)
  | pong
  deriving DecidableEq, Repr

/-- What a stream has next. -/
inductive AttachStreamEvent where
  | chunk (offset : ℕ) (data : Bytes)
  | modes (modes : ModeSnapshot)
  | resized (rows cols : ℕ)
  | done (exitCode : Option ℤ) (finalOffset : ℕ)
  | failed (message : Bytes)
  | closed
  deriving DecidableEq, Repr

/-- A message, and whether the daemon ends the stream with it. -/
abbrev Told := ServerMessage × Bool

/-- What a browser is told of the stream, and whether it is told nothing more. -/
def streamServerMessage : Option AttachStreamEvent → Told
  | some (.chunk offset data) => (.data offset data, false)
  | some (.modes modes) => (.modeChanged modes, false)
  | some (.resized rows cols) => (.resized rows cols, false)
  | some (.done exitCode finalOffset) => (.sessionEnded exitCode finalOffset, true)
  | some (.failed message) => (.error message, true)
  | some .closed | none =>
    (.error (text "attach stream closed before completion (credit stall, gap, or source unavailable)"), true)

/-- What comes at the owning session: the pump's next event, a size it announces, or a
message of the client with what the call for it returns. -/
inductive Input where
  | event (e : AttachEvent)
  | resize (rows cols : ℕ)
  | client (message : ClientMessage) (outcome : Except SessionError Unit)
  deriving DecidableEq

/-- What an arm does with an input: its state, what the browser is told, and whether
the loop goes on. -/
structure Turn (σ : Type) where
  state : σ
  told : List Told
  keep : Bool

/-- All that is told while the loop goes on. -/
def serve {σ : Type} (turn : σ → Input → Turn σ) : σ → List Input → List Told
  | _, [] => []
  | s, i :: history => (turn s i).told ++ if (turn s i).keep then serve turn (turn s i).state history else []

/-! ### Sizes -/

/-- The subscriber to the sizes that a session announces. -/
structure ResizeSubscriber where
  lastSelfResize : Option (ℕ × ℕ)
  deriving DecidableEq, Repr

namespace ResizeSubscriber

/-- No request of this client is under way. -/
def new : ResizeSubscriber := ⟨none⟩

/-- This client has asked for a size. -/
def markSent (rows cols : ℕ) : ResizeSubscriber := ⟨some (rows, cols)⟩

/-- `recv_foreign` on an announcement: none if it is the client's own. -/
def recvForeign (sub : ResizeSubscriber) (rows cols : ℕ) : ResizeSubscriber × Option (ℕ × ℕ) :=
  if sub.lastSelfResize = some (rows, cols) then (.new, none) else (sub, some (rows, cols))

end ResizeSubscriber

/-- The client is told, and goes on. -/
def gated : SessionError → Bool
  | .viewOnly | .staleAttachment => true
  | _ => false

/-! ### The local arm -/

/-- What the local arm keeps. -/
structure LocalSource where
  resizeSub : ResizeSubscriber
  deriving DecidableEq, Repr

namespace LocalSource

/-- What the local arm makes of the pump's events. -/
def nextEvent : AttachEvent → AttachStreamEvent
  | .chunk offset data => .chunk offset data
  | .modes modes => .modes modes
  | .done exitCode finalOffset => .done exitCode finalOffset
  | .closed => .closed

/-- What the local arm tells of a call for the client, and whether it goes on. -/
def applyClientMessage (id : Bytes) (s : LocalSource) :
    ClientMessage → Except SessionError Unit → Turn LocalSource
  | .input _ _, .error e => ⟨s, [(.error (e.message id), !gated e)], gated e⟩
  | .busy, .error e => ⟨s, [(.error (e.message id), false)], true⟩
  | .resize rows cols, .ok () => ⟨⟨.markSent rows cols⟩, [], true⟩
  | .resize rows cols, .error e =>
    if gated e then ⟨⟨.markSent 0 0⟩, [], true⟩ else ⟨⟨.markSent rows cols⟩, [(.error (e.message id), true)], false⟩
  | .detach, _ => ⟨s, [], false⟩
  | .ping, _ => ⟨s, [(.pong, false)], true⟩
  | .input _ _, .ok () | .busy, .ok () | .ack _, _ => ⟨s, [], true⟩

def turn (id : Bytes) (s : LocalSource) : Input → Turn LocalSource
  | .event e =>
    let message := streamServerMessage (some (nextEvent e))
    ⟨s, [message], !message.2⟩
  -- the loop waits for the pump and the socket only
  | .resize _ _ => ⟨s, [], true⟩
  | .client message outcome => s.applyClientMessage id message outcome

end LocalSource

/-! ### The relayed arm -/

/-- What the gateway sends on the stream for a message of the client. -/
inductive StreamRequest where
  | attachInput (data : String) (waitForChange : Bool)
  | attachResize (rows cols : ℕ)
  | attachAppliedCursor (cursor : ℕ)
  deriving DecidableEq, Repr

/-- What the handler has for the client: frames, and whether its loop goes on. -/
structure HandlerTurn where
  sub : ResizeSubscriber
  frames : List AttachFrame
  keep : Bool

/-- A request on the stream. -/
def handleRequest (id : Bytes) (sub : ResizeSubscriber) : StreamRequest → Except SessionError Unit → HandlerTurn
  | .attachInput _ _, .ok () => ⟨sub, [], true⟩
  | .attachInput _ _, .error e =>
    if gated e then ⟨sub, [.control (.error (e.message id))], true⟩ else ⟨sub, [], false⟩
  | .attachResize rows cols, .ok () => ⟨.markSent rows cols, [], true⟩
  | .attachResize rows cols, .error e =>
    if gated e then ⟨.markSent 0 0, [], true⟩ else ⟨.markSent rows cols, [], false⟩
  | .attachAppliedCursor _, _ => ⟨sub, [], true⟩

/-- The arms for the pump and the sizes of `handle_attach_subscribe`. -/
def handleEvent (sub : ResizeSubscriber) : AttachEvent → HandlerTurn
  | .chunk offset data => ⟨sub, [.output offset data], true⟩
  | .modes modes => ⟨sub, [.control (.attachModeChanged modes)], true⟩
  | .done exitCode finalOffset => ⟨sub, [.control (.attachStreamDone exitCode finalOffset)], false⟩
  | .closed => ⟨sub, [], false⟩

def handleResize (sub : ResizeSubscriber) (rows cols : ℕ) : HandlerTurn :=
  match sub.recvForeign rows cols with
  | (sub, some (rows, cols)) => ⟨sub, [.control (.attachResized rows cols)], true⟩
  | (sub, none) => ⟨sub, [], true⟩

/-- What the handler does with an input. A heartbeat does not come on the stream. -/
def handlerTurn (id : Bytes) (sub : ResizeSubscriber) : Input → HandlerTurn
  | .event e => handleEvent sub e
  | .resize rows cols => handleResize sub rows cols
  | .client (.input data waitForChange) outcome => handleRequest id sub (.attachInput data waitForChange) outcome
  | .client (.resize rows cols) outcome => handleRequest id sub (.attachResize rows cols) outcome
  | .client (.ack offset) outcome => handleRequest id sub (.attachAppliedCursor offset) outcome
  | .client .busy _ | .client .detach _ | .client .ping _ => ⟨sub, [], true⟩

/-- `relay_stream_interrupted_response`. -/
def interrupted (e : ReadError) : RpcResponse := .error (text "relay stream interrupted: " ++ e.display)

/-- What the relayed arm makes of a response. -/
def intoStreamEvent : RpcResponse → AttachStreamEvent
  | .attachStreamInit _ _ _ _ => .failed (text "relay stream re-sent an init frame after startup")
  | .attachStreamChunk offset data => .chunk offset data
  | .attachModeChanged modes => .modes modes
  | .attachResized rows cols => .resized rows cols
  | .attachStreamDone exitCode finalOffset => .done exitCode finalOffset
  | .error message => .failed message

/-- What the browser is told for a response. -/
def told (r : RpcResponse) : Told := streamServerMessage (some (intoStreamEvent r))

section Relaying

variable (fromSlice : Bytes → Except Bytes RpcResponse) (fromStr : Bytes → Except Bytes (ℕ × RpcResponse))

/-- What the relay forwards for a frame. Where the frame cannot be written the
connection ends. -/
def relayFrame (f : AttachFrame) : RpcResponse :=
  match f.write with
  | none => interrupted .closed
  | some bytes =>
    match Ipc.readAttachFrame fromSlice bytes with
    | some (.ok f, _) => f.response
    | some (.error e, _) => interrupted e
    | none => interrupted .truncated

/-- What the relay forwards for what the handler has; behind a last response,
nothing. -/
def relay : List AttachFrame → Bool → List RpcResponse
  | [], true => []
  | [], false => [interrupted .closed]
  | f :: fs, keep => if (relayFrame fromSlice f).isDone then [relayFrame fromSlice f] else relayFrame fromSlice f :: relay fs keep

/-- What the gateway takes of what a handler writes. -/
def forwarded (t : HandlerTurn) : Turn ResizeSubscriber :=
  ⟨t.sub, (relay fromSlice t.frames t.keep).map told, !(relay fromSlice t.frames t.keep).any RpcResponse.isDone⟩

/-- The gateway drops what a heartbeat comes to. When the client leaves, so does it. -/
def relayedTurn (id : Bytes) (sub : ResizeSubscriber) : Input → Turn ResizeSubscriber
  | .client .detach _ => ⟨sub, [], false⟩
  | .client .ping _ => ⟨sub, [(.pong, false)], true⟩
  | i => forwarded fromSlice (handlerTurn id sub i)

end Relaying

/-! ### The init -/

/-- What the session's store answers a new attachment: the error text, the
attachment's id, the pump's init, and the rows that have scrolled off. -/
structure Opening where
  rows : Option ℕ
  cols : Option ℕ
  registered : Except Bytes ℕ
  subscribed : Except Bytes AttachInit
  scrollbackSeed : Option Bytes

/-- `scrollback_seed_bytes`. -/
def scrollbackSeedBytes (seed : Bytes) (rows : ℕ) : Bytes :=
  text "\x1b[r\x1b[H\x1b[0J" ++ seed.flatMap (fun byte => if byte = 10 then [13, byte] else [byte]) ++
    List.replicate (max rows 1 - 1) 10 ++ text "\x1b[H"

/-- The init frame's data, behind the rows that have scrolled off if a size is given. -/
def seedWebInitData (seed : Option Bytes) (rows : Option ℕ) (snapshot : Bytes) : Bytes :=
  match seed, rows with
  | some seed, some rows =>
    if 0 < rows ∧ seed ≠ [] then scrollbackSeedBytes seed rows ++ snapshot else snapshot
  | _, _ => snapshot

namespace Opening

/-- The size that a browser declares. -/
def viewport (o : Opening) : Option (ℕ × ℕ) :=
  match o.rows, o.cols with
  | some rows, some cols => if 0 < rows ∧ 0 < cols then some (rows, cols) else none
  | _, _ => none

/-- `AttachSource::local`: the first message, and whether a loop follows. -/
def openLocal (o : Opening) : Told × Bool :=
  match o.registered, o.subscribed with
  | .error message, _ => ((.error message, true), false)
  | .ok _, .error message => ((.error message, true), false)
  | .ok attachmentId, .ok init =>
    let seed := o.viewport.bind fun _ => o.scrollbackSeed
    let data := seedWebInitData seed (o.viewport.map Prod.fst) init.data
    ((.init ⟨data, init.endOffset, init.incarnation, init.running, init.modes, attachmentId⟩, false), true)

/-- What the gateway asks for. -/
def askedRows (o : Opening) : Option ℕ := o.rows.filter fun rows => decide (0 < rows)

def askedCols (o : Opening) : Option ℕ := o.cols.filter fun cols => decide (0 < cols)

/-- The first response of `handle_attach_subscribe`. -/
def response (o : Opening) : RpcResponse :=
  match o.registered, o.subscribed with
  | .error message, _ => .error message
  | .ok _, .error message => .error message
  | .ok attachmentId, .ok init =>
    let scrollback := if o.askedRows.isSome ∧ o.askedCols.isSome then o.scrollbackSeed.getD [] else []
    .attachStreamInit init scrollback attachmentId (text "controller")

/-- The name of a response that is no init. -/
def label : RpcResponse → Bytes
  | .attachStreamInit _ _ _ _ => text "AttachStreamInit"
  | .attachStreamChunk _ _ => text "AttachStreamChunk"
  | .attachModeChanged _ => text "AttachModeChanged"
  | .attachResized _ _ => text "AttachResized"
  | .attachStreamDone _ _ => text "AttachStreamDone"
  | .error _ => text "Error"

/-- `AttachSource::relayed`, when the relay's first response has come. -/
def accept (o : Opening) : RpcResponse → Told × Bool
  | .attachStreamInit init scrollback attachmentId _ =>
    let seed := if scrollback = [] then none else some scrollback
    let data := seedWebInitData seed o.askedRows init.data
    ((.init ⟨data, init.endOffset, init.incarnation, init.running, init.modes, attachmentId⟩, false), true)
  | .error message => ((.error message, true), false)
  | other => ((.error (text "unexpected first proxy frame: " ++ label other), true), false)

/-- The relay reads the first response as a line. -/
def openRelayed (fromStr : Bytes → Except Bytes (ℕ × RpcResponse)) (o : Opening) : Told × Bool :=
  let line := Ipc.encodeFrame o.response
  let read :=
    match Ipc.readResponse fromStr line with
    | some (result, _) => result
    | none => Ipc.readResponseAtEof fromStr line
  match read with
  | .ok response => o.accept response
  | .error e => o.accept (interrupted e)

end Opening

/-- All that a browser is told through the local arm. -/
def localMessages (id : Bytes) (o : Opening) (history : List Input) : List Told :=
  let (first, loop) := o.openLocal
  -- the browser's own size is noted
  first :: if loop then serve (LocalSource.turn id) ⟨⟨o.viewport⟩⟩ history else []

/-! ### The relayed arm's loop -/

/-- The owning daemon with its relay, and the gateway; what is forwarded arrives, and
in order. -/
structure Relayed where
  sub : ResizeSubscriber
  /-- The handler and the relay go on. -/
  relaying : Bool
  /-- What is forwarded and has not been taken. -/
  wire : List RpcResponse
  /-- The gateway's loop goes on. -/
  serving : Bool
  heard : List Told
  /-- What has come at the session, until the gateway's loop ended. -/
  history : List Input
  deriving DecidableEq

namespace Relayed

/-- What may happen next. -/
inductive Action where
  /-- Something comes at the session. -/
  | session (i : Input)
  /-- The gateway takes the next response. -/
  | deliver
  | ping
  /-- The client leaves. -/
  | detach

/-- The first message, and what the handler is ready for. -/
def start (fromStr : Bytes → Except Bytes (ℕ × RpcResponse)) (o : Opening) : Relayed :=
  let (first, loop) := o.openRelayed fromStr
  ⟨.new, loop, [], loop, [first], []⟩

/-- What comes at the session itself: neither a ping nor that the client leaves. -/
def atSession : Input → Bool
  | .client .ping _ | .client .detach _ => false
  | _ => true

def step (fromSlice : Bytes → Except Bytes RpcResponse) (id : Bytes) (s : Relayed) : Action → Option Relayed
  | .session i =>
    if s.serving = true ∧ atSession i = true then
      if s.relaying then
        let t := handlerTurn id s.sub i
        let responses := relay fromSlice t.frames t.keep
        some { s with
          sub := t.sub
          relaying := !responses.any RpcResponse.isDone
          wire := s.wire ++ responses
          history := s.history ++ [i] }
      else some { s with history := s.history ++ [i] }
    else none
  | .deliver =>
    match s.wire with
    | [] => none
    | r :: wire =>
      if s.serving then some { s with wire := wire, heard := s.heard ++ [told r], serving := !(told r).2 } else none
  | .ping => if s.serving then some { s with heard := s.heard ++ [(.pong, false)] } else none
  | .detach =>
    if s.serving then some { s with serving := false, history := s.history ++ [.client .detach (.ok ())] } else none

end Relayed

/-- The messages of the stream. -/
def streamed (heard : List Told) : List Told := heard.filter fun m => decide (m.1 ≠ .pong)

/-! ### Where the arms are alike -/

/-- Up to the end, or until the client leaves: each chunk is one that the relay reads;
a size that is announced is the last one that the client has set itself; the pump ends
with a completion; and no call fails, but for a size that is refused. -/
def Alike : ResizeSubscriber → List Input → Prop
  | _, [] => True
  | sub, .event (.chunk _ data) :: history => data.length ≤ 1024 * 1024 ∧ Alike sub history
  | sub, .event (.modes _) :: history => Alike sub history
  | _, .event (.done _ _) :: _ => True
  | _, .event .closed :: _ => False
  | sub, .resize rows cols :: history => sub.lastSelfResize = some (rows, cols) ∧ Alike .new history
  | _, .client (.resize rows cols) (.ok ()) :: history => Alike (.markSent rows cols) history
  | _, .client (.resize _ _) (.error e) :: history => gated e = true ∧ Alike (.markSent 0 0) history
  | _, .client (.input _ _) (.error _) :: _ => False
  | _, .client .busy (.error _) :: _ => False
  | _, .client .detach _ :: _ => True
  | sub, .client (.input _ _) (.ok ()) :: history => Alike sub history
  | sub, .client .busy (.ok ()) :: history => Alike sub history
  | sub, .client (.ack _) _ :: history => Alike sub history
  | sub, .client .ping _ :: history => Alike sub history

/-- Numbers are within the widths of their fields. -/
def Input.Fits : Input → Prop
  | .event e => Ipc.Fits e
  | .resize rows cols => rows < 2 ^ 16 ∧ cols < 2 ^ 16
  | .client _ _ => True

/-- The notices that the handler may write for an input. -/
def Input.notices (id : Bytes) : Input → List RpcResponse
  | .event (.modes modes) => [.attachModeChanged modes]
  | .event (.done exitCode finalOffset) => [.attachStreamDone exitCode finalOffset]
  | .resize rows cols => [.attachResized rows cols]
  | .client (.input _ _) (.error e) => [.error (e.message id)]
  | _ => []

section Arms

variable {fromSlice : Bytes → Except Bytes RpcResponse} {id : Bytes}

/-! ### What the relay forwards -/

theorem relayFrame_eq {f : AttachFrame} (h : f.Readable fromSlice) : relayFrame fromSlice f = f.response := by
  obtain ⟨bytes, hwrite, hnext⟩ := Ipc.next_write h
  have hread := hnext []
  rw [Ipc.attachReader_next, List.append_nil] at hread
  rw [relayFrame, hwrite]
  dsimp only
  rw [hread]

/-- An output frame is not read as a notice. -/
theorem read_output {offset n : ℕ} {data : Bytes} {response : RpcResponse} :
    Ipc.readAttachFrame fromSlice (Ipc.writeAttachOutputFrame offset data) ≠ some (.ok (.control response), n) := by
  intro h
  rw [Ipc.writeAttachOutputFrame, Ipc.frameBytes, Ipc.readAttachFrame_header,
    show Ipc.frameCap Ipc.attachFrameOutput = some Ipc.maxAttachOutputFrameBytes from rfl] at h
  dsimp only at h
  rw [Ipc.decodePayload, if_pos rfl] at h
  split_ifs at h <;> cases h

/-- A chunk comes through only if it is within the reader's cap. -/
theorem length_le_of_relayFrame {offset : ℕ} {data : Bytes}
    (h : relayFrame fromSlice (.output offset data) = .attachStreamChunk offset data) : data.length ≤ 1024 * 1024 := by
  have hwrite : (AttachFrame.output offset data).write = some (Ipc.writeAttachOutputFrame offset data) := rfl
  rw [relayFrame, hwrite] at h
  dsimp only at h
  rcases hread : Ipc.readAttachFrame fromSlice (Ipc.writeAttachOutputFrame offset data) with _ | ⟨_ | f, n⟩
  · rw [hread] at h
    cases h
  · rw [hread] at h
    cases h
  · rw [hread] at h
    cases f with
    | output offset' data' =>
      have heq : offset' = offset ∧ data' = data := by simpa [AttachFrame.response] using h
      rw [heq.1, heq.2] at hread
      rw [← List.append_nil (Ipc.writeAttachOutputFrame offset data)] at hread
      exact Ipc.length_le_of_read hread
    | control response => exact absurd hread read_output

theorem attachResized_length_le {rows cols : ℕ} (hrows : rows < 2 ^ 16) (hcols : cols < 2 ^ 16) :
    (RpcResponse.attachResized rows cols).toVec.length ≤ Ipc.maxAttachControlFrameBytes := by
  have hr : (Journal.decimal rows).length ≤ 5 := Ipc.decimal_length_le (by decide) (hrows.trans (by decide))
  have hc : (Journal.decimal cols).length ≤ 5 := Ipc.decimal_length_le (by decide) (hcols.trans (by decide))
  rw [RpcResponse.toVec, Ipc.jsonObject_length]
  simp only [List.map_cons, List.map_nil, List.sum_cons, List.sum_nil]
  have hnames : "attach_resized".length + "rows".length + "cols".length ≤ 100 := by decide
  unfold Ipc.maxAttachControlFrameBytes
  omega

/-! ### What only one arm says -/

theorem serve_cons {σ : Type} (turn : σ → Input → Turn σ) (s : σ) (i : Input) (history : List Input) :
    serve turn s (i :: history) =
      (turn s i).told ++ if (turn s i).keep then serve turn (turn s i).state history else [] := rfl

/-- What holds of all that is told in a turn holds of all that is told. -/
theorem forall_serve {σ : Type} {turn : σ → Input → Turn σ} {P : Told → Prop}
    (h : ∀ s i, ∀ m ∈ (turn s i).told, P m) : ∀ {history : List Input} {s : σ}, ∀ m ∈ serve turn s history, P m
  | [], _, _, hm => absurd hm List.not_mem_nil
  | i :: history, s, m, hm => by
    rw [serve_cons] at hm
    rcases List.mem_append.mp hm with hm | hm
    · exact h s i m hm
    · split_ifs at hm
      · exact forall_serve h m hm
      · exact absurd hm List.not_mem_nil

/-- The local arm tells of no size. -/
theorem local_not_resized (s : LocalSource) (i : Input) :
    ∀ m ∈ (s.turn id i).told, ∀ rows cols, m ≠ (.resized rows cols, false) := by
  intro m hm rows cols heq
  subst heq
  cases i with
  | event e =>
    cases e with
    | _ => cases List.mem_singleton.mp hm
  | resize => cases hm
  | client message outcome =>
    cases message with
    | resize rows' cols' =>
      cases outcome with
      | ok => cases hm
      | error e =>
        simp only [LocalSource.turn, LocalSource.applyClientMessage] at hm
        split_ifs at hm
        · cases hm
        · cases List.mem_singleton.mp hm
    | ping => cases List.mem_singleton.mp hm
    | detach => cases hm
    | ack => cases hm
    | input =>
      cases outcome with
      | ok => cases hm
      | error e => cases List.mem_singleton.mp hm
    | busy =>
      cases outcome with
      | ok => cases hm
      | error e => cases List.mem_singleton.mp hm

theorem told_ne_error (r : RpcResponse) (message : Bytes) : told r ≠ (.error message, false) := by
  cases r <;> intro h <;> cases h

/-- The relayed arm ends with an error. -/
theorem relayed_error_ends (sub : ResizeSubscriber) (i : Input) :
    ∀ m ∈ (relayedTurn fromSlice id sub i).told, ∀ message, m ≠ (.error message, false) := by
  have hforwarded : ∀ t : HandlerTurn, ∀ m ∈ (forwarded fromSlice t).told, ∀ message, m ≠ (.error message, false) := by
    intro t m hm message
    obtain ⟨r, -, rfl⟩ := List.mem_map.mp hm
    exact told_ne_error r message
  intro m hm message
  cases i with
  | event => exact hforwarded _ m hm message
  | resize => exact hforwarded _ m hm message
  | client request outcome =>
    cases request with
    | detach => cases hm
    | ping =>
      rw [List.mem_singleton.mp hm]
      nofun
    | _ => exact hforwarded _ m hm message

/-- What the relay says when the handler has ended without a completion. -/
theorem head_interrupted : (text "relay stream interrupted: " ++ ReadError.closed.display).head? = some 114 := by
  decide

theorem message_ne (e : SessionError) : e.message id ≠ text "relay stream interrupted: " ++ ReadError.closed.display := by
  intro heq
  have hhead := congrArg List.head? heq
  rw [head_interrupted] at hhead
  have hfirst : ∀ s : String, ∀ more : Bytes, (text s).head? = some 115 ∨ (text s).head? = some 97 →
      (text s ++ more).head? ≠ some 114 := by
    intro s more hs h
    rw [List.head?_append] at h
    rcases hs with hs | hs
    · rw [hs] at h
      cases h
    · rw [hs] at h
      cases h
  cases e with
  | staleAttachment => exact hfirst _ _ (.inr (by decide)) hhead
  | _ => exact hfirst _ _ (.inl (by decide)) hhead

/-! ### The arms side by side -/

theorem forwarded_frame {sub : ResizeSubscriber} {f : AttachFrame} (h : f.Readable fromSlice)
    (hdone : f.response.isDone = false) : forwarded fromSlice ⟨sub, [f], true⟩ = ⟨sub, [told f.response], true⟩ := by
  rw [forwarded, relay, relayFrame_eq h, if_neg (by rw [hdone]; simp), relay]
  simp [hdone]

theorem forwarded_last {sub : ResizeSubscriber} {f : AttachFrame} {keep : Bool} (hdone : (relayFrame fromSlice f).isDone = true) :
    forwarded fromSlice ⟨sub, [f], keep⟩ = ⟨sub, [told (relayFrame fromSlice f)], false⟩ := by
  rw [forwarded, relay, if_pos hdone]
  simp [hdone]

theorem eq_of_told {r : RpcResponse} {offset : ℕ} {data : Bytes} (h : told r = (.data offset data, false)) :
    r = .attachStreamChunk offset data := by
  cases r with
  | attachStreamChunk => cases h; rfl
  | _ => cases h

theorem forwarded_head (sub : ResizeSubscriber) (f : AttachFrame) (keep : Bool) :
    (forwarded fromSlice ⟨sub, [f], keep⟩).told.head? = some (told (relayFrame fromSlice f)) := by
  rw [forwarded, relay]
  split_ifs <;> rfl

theorem handleResize_own {sub : ResizeSubscriber} {rows cols : ℕ} (h : sub.lastSelfResize = some (rows, cols)) :
    handleResize sub rows cols = ⟨.new, [], true⟩ := by
  rw [handleResize, ResizeSubscriber.recvForeign, if_pos h]

theorem handleResize_foreign {sub : ResizeSubscriber} {rows cols : ℕ} (h : sub.lastSelfResize ≠ some (rows, cols)) :
    handleResize sub rows cols = ⟨sub, [.control (.attachResized rows cols)], true⟩ := by
  rw [handleResize, ResizeSubscriber.recvForeign, if_neg h]

/-- The handler ends without a completion, and the local loop with a message of its own. -/
theorem ended_ne {sub : ResizeSubscriber} {m : Told} {more : List Told} (h : m ≠ told (interrupted .closed)) :
    (forwarded fromSlice ⟨sub, [], false⟩).told ++ [] ≠ m :: more := by
  intro heq
  exact h (List.cons.inj heq).1.symm

/-- **The arms side by side.** They tell the same if and only if nothing comes of which
only one of them speaks, or each in its own words. -/
theorem serve_eq_iff : ∀ {history : List Input} (sub : ResizeSubscriber) (s : LocalSource),
    (∀ i ∈ history, i.Fits) → (∀ i ∈ history, ∀ r ∈ i.notices id, fromSlice r.toVec = .ok r) →
    (serve (relayedTurn fromSlice id) sub history = serve (LocalSource.turn id) s history ↔ Alike sub history)
  | [], _, _, _, _ => ⟨fun _ => trivial, fun _ => rfl⟩
  | i :: history, sub, s, hfits, hserde => by
    have hfit := hfits i List.mem_cons_self
    have hread := hserde i List.mem_cons_self
    have ih := fun sub s => @serve_eq_iff history sub s (fun i hi => hfits i (List.mem_cons_of_mem _ hi))
      fun i hi => hserde i (List.mem_cons_of_mem _ hi)
    rw [serve_cons, serve_cons]
    cases i with
    | event e =>
      cases e with
      | chunk offset data =>
        by_cases hlen : data.length ≤ 1024 * 1024
        · have hturn : relayedTurn fromSlice id sub (.event (.chunk offset data)) = ⟨sub, [(.data offset data, false)], true⟩ :=
            forwarded_frame (f := .output offset data) ⟨hfit, hlen⟩ rfl
          rw [hturn]
          exact (List.cons_inj_right _).trans ((ih sub s).trans ⟨fun h => ⟨hlen, h⟩, And.right⟩)
        · refine iff_of_false (fun heq => hlen ?_) fun h => hlen h.1
          have hhead := congrArg List.head? heq
          rw [List.head?_append, show (relayedTurn fromSlice id sub (.event (.chunk offset data))).told.head? = _ from
            forwarded_head sub (.output offset data) true] at hhead
          exact length_le_of_relayFrame (eq_of_told (Option.some.inj hhead))
      | modes modes =>
        have hturn : relayedTurn fromSlice id sub (.event (.modes modes)) = ⟨sub, [(.modeChanged modes, false)], true⟩ :=
          forwarded_frame (f := .control (.attachModeChanged modes))
            ⟨Ipc.modeChanged_length_le modes, hread _ List.mem_cons_self⟩ rfl
        rw [hturn]
        exact (List.cons_inj_right _).trans (ih sub s)
      | done exitCode finalOffset =>
        have hframe : relayFrame fromSlice (.control (.attachStreamDone exitCode finalOffset)) = .attachStreamDone exitCode finalOffset :=
          relayFrame_eq (f := .control (.attachStreamDone exitCode finalOffset))
            ⟨Ipc.streamDone_length_le hfit, hread _ List.mem_cons_self⟩
        have hturn : relayedTurn fromSlice id sub (.event (.done exitCode finalOffset)) =
            ⟨sub, [(.sessionEnded exitCode finalOffset, true)], false⟩ := by
          refine (forwarded_last ?_).trans ?_
          · rw [hframe]
            rfl
          · rw [hframe]
            rfl
        rw [hturn]
        exact iff_of_true rfl trivial
      | closed => exact iff_of_false (ended_ne (by decide)) fun h => h
    | resize rows cols =>
      by_cases hself : sub.lastSelfResize = some (rows, cols)
      · have hturn : relayedTurn fromSlice id sub (.resize rows cols) = ⟨.new, [], true⟩ := by
          show forwarded fromSlice (handleResize sub rows cols) = _
          rw [handleResize_own hself]
          rfl
        rw [hturn]
        exact (ih .new s).trans ⟨fun h => ⟨hself, h⟩, And.right⟩
      · have hturn : relayedTurn fromSlice id sub (.resize rows cols) = ⟨sub, [(.resized rows cols, false)], true⟩ := by
          show forwarded fromSlice (handleResize sub rows cols) = _
          rw [handleResize_foreign hself]
          exact forwarded_frame (f := .control (.attachResized rows cols))
            ⟨attachResized_length_le hfit.1 hfit.2, hread _ List.mem_cons_self⟩ rfl
        rw [hturn]
        refine iff_of_false (fun heq => ?_) fun h => hself h.1
        have heq : (ServerMessage.resized rows cols, false) :: _ = serve (LocalSource.turn id) s history := heq
        have hmem : (ServerMessage.resized rows cols, false) ∈ serve (LocalSource.turn id) s history :=
          heq ▸ List.mem_cons_self
        exact forall_serve (fun s i m hm => local_not_resized s i m hm rows cols) _ hmem rfl
    | client message outcome =>
      cases message with
      | input data waitForChange =>
        cases outcome with
        | ok => exact ih sub s
        | error e =>
          refine iff_of_false (fun heq => ?_) fun h => h
          by_cases hgated : gated e = true
          · -- the relay ends with the notice, and the local loop goes on
            have hturn : relayedTurn fromSlice id sub (.client (.input data waitForChange) (.error e)) =
                forwarded fromSlice ⟨sub, [.control (.error (e.message id))], true⟩ := by
              show forwarded fromSlice (handleRequest id sub (.attachInput data waitForChange) (.error e)) = _
              rw [handleRequest, if_pos hgated]
            have hlocal : s.turn id (.client (.input data waitForChange) (.error e)) =
                ⟨s, [(.error (e.message id), false)], true⟩ := by
              show (⟨s, [(.error (e.message id), !gated e)], gated e⟩ : Turn LocalSource) = _
              rw [hgated]
              rfl
            have hhead := congrArg List.head? heq
            rw [hturn, hlocal, List.head?_append, forwarded_head] at hhead
            exact told_ne_error _ _ (Option.some.inj hhead)
          · have hturn : relayedTurn fromSlice id sub (.client (.input data waitForChange) (.error e)) =
                forwarded fromSlice ⟨sub, [], false⟩ := by
              show forwarded fromSlice (handleRequest id sub (.attachInput data waitForChange) (.error e)) = _
              rw [handleRequest, if_neg hgated]
            rw [hturn] at heq
            exact ended_ne (fun h => message_ne e (ServerMessage.error.inj (Prod.ext_iff.mp h).1)) heq
      | busy =>
        cases outcome with
        | ok => exact ih sub s
        | error e =>
          refine iff_of_false (fun heq => ?_) fun h => h
          have heq : serve (relayedTurn fromSlice id) sub history = (ServerMessage.error (e.message id), false) :: _ := heq
          have hmem : (ServerMessage.error (e.message id), false) ∈ serve (relayedTurn fromSlice id) sub history :=
            heq ▸ List.mem_cons_self
          exact forall_serve (fun sub i m hm => relayed_error_ends sub i m hm _) _ hmem rfl
      | resize rows cols =>
        cases outcome with
        | ok => exact ih (.markSent rows cols) ⟨.markSent rows cols⟩
        | error e =>
          by_cases hgated : gated e = true
          · have hturn : relayedTurn fromSlice id sub (.client (.resize rows cols) (.error e)) = ⟨.markSent 0 0, [], true⟩ := by
              show forwarded fromSlice (handleRequest id sub (.attachResize rows cols) (.error e)) = _
              rw [handleRequest, if_pos hgated]
              rfl
            have hlocal : s.turn id (.client (.resize rows cols) (.error e)) = ⟨⟨.markSent 0 0⟩, [], true⟩ := if_pos hgated
            rw [hturn, hlocal]
            exact (ih (.markSent 0 0) ⟨.markSent 0 0⟩).trans ⟨fun h => ⟨hgated, h⟩, And.right⟩
          · have hturn : relayedTurn fromSlice id sub (.client (.resize rows cols) (.error e)) =
                forwarded fromSlice ⟨.markSent rows cols, [], false⟩ := by
              show forwarded fromSlice (handleRequest id sub (.attachResize rows cols) (.error e)) = _
              rw [handleRequest, if_neg hgated]
            have hlocal : s.turn id (.client (.resize rows cols) (.error e)) =
                ⟨⟨.markSent rows cols⟩, [(.error (e.message id), true)], false⟩ := if_neg hgated
            refine iff_of_false (fun heq => ?_) fun h => hgated h.1
            rw [hturn, hlocal] at heq
            exact ended_ne (fun h => message_ne e (ServerMessage.error.inj (Prod.ext_iff.mp h).1)) heq
      | ack offset => exact ih sub s
      | detach => exact iff_of_true rfl trivial
      | ping => exact (List.cons_inj_right _).trans (ih sub s)

end Arms

section Open

variable {fromStr : Bytes → Except Bytes (ℕ × RpcResponse)} {o : Opening}

/-- The gateway asks for a viewport if the browser has one. -/
theorem asked_iff (o : Opening) : (o.askedRows.isSome ∧ o.askedCols.isSome) ↔ o.viewport.isSome = true := by
  unfold Opening.askedRows Opening.askedCols Opening.viewport
  rcases o.rows with _ | rows
  · simp
  · rcases o.cols with _ | cols
    · simp
    · by_cases hrows : 0 < rows <;> by_cases hcols : 0 < cols <;> simp [Option.filter, hrows, hcols]

theorem askedRows_eq {rows cols : ℕ} (h : o.viewport = some (rows, cols)) : o.askedRows = some rows := by
  unfold Opening.viewport at h
  unfold Opening.askedRows
  rcases hr : o.rows with _ | r
  · rw [hr] at h
    cases h
  · rcases hc : o.cols with _ | c
    · rw [hr, hc] at h
      cases h
    · rw [hr, hc] at h
      simp only [Runs.guarded, Prod.mk.injEq] at h
      obtain ⟨⟨hpos, -⟩, rfl, -⟩ := h
      simp [Option.filter, hpos]

theorem seedWebInitData_nil (rows : Option ℕ) (snapshot : Bytes) : seedWebInitData (some []) rows snapshot = snapshot := by
  rcases rows with _ | rows
  · rfl
  · exact if_neg fun h => h.2 rfl

/-- The rows that have scrolled off are put before the screen alike. -/
theorem seeded_eq (o : Opening) (snapshot : Bytes) :
    seedWebInitData (if (if o.askedRows.isSome ∧ o.askedCols.isSome then o.scrollbackSeed.getD [] else []) = [] then none
        else some (if o.askedRows.isSome ∧ o.askedCols.isSome then o.scrollbackSeed.getD [] else [])) o.askedRows snapshot =
      seedWebInitData (o.viewport.bind fun _ => o.scrollbackSeed) (o.viewport.map Prod.fst) snapshot := by
  rcases hv : o.viewport with _ | ⟨rows, cols⟩
  · have hasked : ¬ (o.askedRows.isSome ∧ o.askedCols.isSome) := by
      rw [asked_iff, hv]
      simp
    rw [if_neg hasked, if_pos rfl]
    rfl
  · have hasked : o.askedRows.isSome ∧ o.askedCols.isSome := by
      rw [asked_iff, hv]
      rfl
    rw [if_pos hasked, askedRows_eq hv]
    rcases hseed : o.scrollbackSeed with _ | seed
    · rw [Option.getD_none, if_pos rfl]
      rfl
    · rw [Option.getD_some]
      by_cases hnil : seed = []
      · rw [if_pos hnil, hnil]
        exact (seedWebInitData_nil _ snapshot).symm
      · rw [if_neg hnil]
        rfl

/-- The gateway makes of the first response what the local arm makes itself. -/
theorem accept_response (o : Opening) : o.accept o.response = o.openLocal := by
  unfold Opening.response Opening.openLocal
  rcases o.registered with message | attachmentId
  · rfl
  · rcases o.subscribed with message | init
    · rfl
    · show ((ServerMessage.init ⟨_, _, _, _, _, _⟩, false), true) = ((ServerMessage.init ⟨_, _, _, _, _, _⟩, false), true)
      rw [seeded_eq]

theorem openRelayed_eq (hserde : fromStr (Ipc.encodeFrame o.response) = .ok (Ipc.protocolVersion, o.response))
    (hlen : (Ipc.encodeFrame o.response).length ≤ Ipc.maxIpcLineBytes) : o.openRelayed fromStr = o.openLocal := by
  have hread := Ipc.next_encodeFrame fromStr hlen hserde []
  rw [List.append_nil] at hread
  rw [Opening.openRelayed, hread]
  exact accept_response o

/-- A response that is too long for a line. -/
theorem openRelayed_long (hlen : ¬ (Ipc.encodeFrame o.response).length ≤ Ipc.maxIpcLineBytes) :
    (o.openRelayed fromStr).1 = (.error (text "relay stream interrupted: " ++
      (ReadError.lineTooLong Ipc.maxIpcLineBytes).display), true) := by
  have hsize : (Ipc.encodeFrame o.response).length = (Ipc.envelope o.response).length + 1 := by
    rw [Ipc.encodeFrame, List.length_append, List.length_singleton]
  have htake : (Ipc.encodeFrame o.response).takeWhile (fun b => b != Journal.newline) = Ipc.envelope o.response := by
    have hall : ∀ b ∈ Ipc.envelope o.response, (b != Journal.newline) = true := by
      intro b hb
      rw [bne_iff_ne]
      rintro rfl
      exact Ipc.newline_not_mem_envelope o.response hb
    rw [Ipc.encodeFrame, List.takeWhile_append_of_pos hall]
    simp
  have hline : Ipc.readLineBounded (Ipc.encodeFrame o.response) =
      some (.error (.lineTooLong Ipc.maxIpcLineBytes), Ipc.maxIpcLineBytes + 1) := by
    unfold Ipc.readLineBounded
    dsimp only
    rw [htake, if_neg (by omega), if_pos (by omega)]
  rw [Opening.openRelayed, Ipc.readResponse, hline]
  rfl

theorem openRelayed_ne (hlen : ¬ (Ipc.encodeFrame o.response).length ≤ Ipc.maxIpcLineBytes) :
    (o.openRelayed fromStr).1 ≠ o.openLocal.1 := by
  rw [openRelayed_long hlen]
  -- the text that the relay reports is itself short
  have hshort : (Ipc.encodeFrame (interrupted (.lineTooLong Ipc.maxIpcLineBytes))).length ≤ Ipc.maxIpcLineBytes := by
    decide +kernel
  intro heq
  have hmessage : ∀ message, o.response = .error message → o.openLocal.1 = (.error message, true) → False := by
    intro message hresponse hlocal
    rw [hlocal, Prod.mk.injEq, ServerMessage.error.injEq] at heq
    rw [hresponse, ← heq.1] at hlen
    exact hlen hshort
  rcases hregistered : o.registered with message | attachmentId
  · refine hmessage message ?_ ?_
    · rw [Opening.response, hregistered]
    · rw [Opening.openLocal, hregistered]
  · rcases hsubscribed : o.subscribed with message | init
    · refine hmessage message ?_ ?_
      · rw [Opening.response, hregistered, hsubscribed]
      · rw [Opening.openLocal, hregistered, hsubscribed]
    · rw [Opening.openLocal, hregistered, hsubscribed] at heq
      cases heq

end Open

/-! ### All that is told -/

/-- All that a browser is told through the relayed arm. -/
def relayedMessages (fromSlice : Bytes → Except Bytes RpcResponse) (fromStr : Bytes → Except Bytes (ℕ × RpcResponse))
    (id : Bytes) (o : Opening) (history : List Input) : List Told :=
  let (first, loop) := o.openRelayed fromStr
  first :: if loop then serve (relayedTurn fromSlice id) .new history else []

section Runs

variable {fromSlice : Bytes → Except Bytes RpcResponse} {fromStr : Bytes → Except Bytes (ℕ × RpcResponse)} {id : Bytes}
  {o : Opening}

/-- The state behind the history, if the loop still goes on. -/
def after {σ : Type} (turn : σ → Input → Turn σ) : σ → List Input → Option σ
  | s, [] => some s
  | s, i :: history => if (turn s i).keep then after turn (turn s i).state history else none

theorem serve_snoc {σ : Type} (turn : σ → Input → Turn σ) (i : Input) : ∀ (history : List Input) (s : σ),
    serve turn s (history ++ [i]) = serve turn s history ++ (after turn s history).elim [] fun t => (turn t i).told
  | [], s => by
    show (turn s i).told ++ (if (turn s i).keep then [] else []) = [] ++ (turn s i).told
    rw [ite_self, List.append_nil, List.nil_append]
  | j :: history, s => by
    rw [List.cons_append, serve_cons, serve_cons, after]
    split_ifs
    · rw [serve_snoc turn i history, List.append_assoc]
    · rw [List.append_nil, Option.elim_none, List.append_nil]

theorem after_snoc {σ : Type} (turn : σ → Input → Turn σ) (i : Input) : ∀ (history : List Input) (s : σ),
    after turn s (history ++ [i]) =
      (after turn s history).bind fun t => if (turn t i).keep then some (turn t i).state else none
  | [], _ => rfl
  | j :: history, s => by
    rw [List.cons_append, after, after]
    split_ifs
    · exact after_snoc turn i history _
    · rfl

/-- What is heard, with what is on its way, is what is told of the history. -/
structure RelayedInv (fromSlice : Bytes → Except Bytes RpcResponse) (fromStr : Bytes → Except Bytes (ℕ × RpcResponse))
    (id : Bytes) (o : Opening) (s : Relayed) : Prop where
  told : streamed s.heard ++ s.wire.map told = relayedMessages fromSlice fromStr id o s.history
  going : s.serving = true → (o.openRelayed fromStr).2 = true ∧
    after (relayedTurn fromSlice id) .new s.history = if s.relaying then some s.sub else none

theorem told_ne_pong (r : RpcResponse) : (told r).1 ≠ .pong := by
  cases r <;> nofun

theorem streamed_told (heard : List Told) (r : RpcResponse) : streamed (heard ++ [told r]) = streamed heard ++ [told r] := by
  have hkept : [told r].filter (fun m => decide (m.1 ≠ .pong)) = [told r] :=
    List.filter_cons_of_pos (decide_eq_true (told_ne_pong r))
  rw [streamed, List.filter_append, hkept]
  rfl

theorem openRelayed_ne_pong (fromStr : Bytes → Except Bytes (ℕ × RpcResponse)) (o : Opening) :
    (o.openRelayed fromStr).1.1 ≠ .pong := by
  have haccept : ∀ r, (o.accept r).1.1 ≠ .pong := by
    intro r
    cases r <;> nofun
  rw [Opening.openRelayed]
  split <;> exact haccept _

theorem relayedInv_start (fromSlice : Bytes → Except Bytes RpcResponse) (fromStr : Bytes → Except Bytes (ℕ × RpcResponse))
    (id : Bytes) (o : Opening) : RelayedInv fromSlice fromStr id o (Relayed.start fromStr o) := by
  have hfirst : streamed [(o.openRelayed fromStr).1] = [(o.openRelayed fromStr).1] :=
    List.filter_cons_of_pos (decide_eq_true (openRelayed_ne_pong fromStr o))
  refine ⟨?_, fun hserving => ⟨hserving, (if_pos hserving).symm⟩⟩
  show streamed [(o.openRelayed fromStr).1] ++ [] = (o.openRelayed fromStr).1 :: if (o.openRelayed fromStr).2 then [] else []
  rw [hfirst, ite_self]
  rfl

/-- A history goes on. -/
theorem relayedMessages_snoc (h : (o.openRelayed fromStr).2 = true) (history : List Input) (i : Input) :
    relayedMessages fromSlice fromStr id o (history ++ [i]) = relayedMessages fromSlice fromStr id o history ++
      (after (relayedTurn fromSlice id) .new history).elim [] fun sub => (relayedTurn fromSlice id sub i).told := by
  unfold relayedMessages
  dsimp only
  rw [if_pos h, if_pos h, serve_snoc]
  rfl

/-- At the session a turn is what is forwarded. -/
theorem relayedTurn_atSession {i : Input} (h : Relayed.atSession i = true) (sub : ResizeSubscriber) :
    relayedTurn fromSlice id sub i = forwarded fromSlice (handlerTurn id sub i) := by
  cases i with
  | client message outcome =>
    cases message with
    | ping => cases h
    | detach => cases h
    | _ => rfl
  | _ => rfl

theorem relayedInv_step {s t : Relayed} {action : Relayed.Action} (h : RelayedInv fromSlice fromStr id o s)
    (hstep : s.step fromSlice id action = some t) : RelayedInv fromSlice fromStr id o t := by
  cases action with
  | session i =>
    simp only [Relayed.step, Option.ite_none_right_eq_some] at hstep
    obtain ⟨⟨hserving, hi⟩, hstep⟩ := hstep
    obtain ⟨hopen, hafter⟩ := h.going hserving
    by_cases hrelaying : s.relaying = true
    · rw [if_pos hrelaying] at hstep hafter
      cases hstep
      refine ⟨?_, fun _ => ⟨hopen, ?_⟩⟩
      · show streamed s.heard ++ (s.wire ++ _).map Source.told = relayedMessages fromSlice fromStr id o (s.history ++ [i])
        rw [List.map_append, ← List.append_assoc, h.told, relayedMessages_snoc hopen, hafter, Option.elim_some,
          relayedTurn_atSession hi]
        rfl
      · show after (relayedTurn fromSlice id) .new (s.history ++ [i]) = _
        rw [after_snoc, hafter, Option.bind_some, relayedTurn_atSession hi]
        rfl
    · rw [if_neg hrelaying] at hstep hafter
      cases hstep
      refine ⟨?_, fun _ => ⟨hopen, ?_⟩⟩
      · show streamed s.heard ++ s.wire.map Source.told = relayedMessages fromSlice fromStr id o (s.history ++ [i])
        rw [h.told, relayedMessages_snoc hopen, hafter, Option.elim_none, List.append_nil]
      · show after (relayedTurn fromSlice id) .new (s.history ++ [i]) = if s.relaying then some s.sub else none
        rw [after_snoc, hafter, if_neg hrelaying]
        rfl
  | deliver =>
    unfold Relayed.step at hstep
    dsimp only at hstep
    rcases hwire : s.wire with _ | ⟨r, wire⟩
    · rw [hwire] at hstep
      cases hstep
    · rw [hwire] at hstep
      simp only [Runs.guarded] at hstep
      obtain ⟨hserving, rfl⟩ := hstep
      refine ⟨?_, fun _ => h.going hserving⟩
      have htold := h.told
      rw [hwire, List.map_cons] at htold
      show streamed (s.heard ++ [Source.told r]) ++ wire.map Source.told = _
      rw [streamed_told, List.append_assoc]
      exact htold
  | ping =>
    simp only [Relayed.step, Runs.guarded] at hstep
    obtain ⟨hserving, rfl⟩ := hstep
    refine ⟨?_, fun _ => h.going hserving⟩
    show streamed (s.heard ++ [(.pong, false)]) ++ _ = _
    have hpong : streamed (s.heard ++ [(.pong, false)]) = streamed s.heard := by
      rw [streamed, List.filter_append]
      exact List.append_nil _
    rw [hpong]
    exact h.told
  | detach =>
    simp only [Relayed.step, Runs.guarded] at hstep
    obtain ⟨hserving, rfl⟩ := hstep
    obtain ⟨hopen, hafter⟩ := h.going hserving
    refine ⟨?_, fun hserving => by cases hserving⟩
    show streamed s.heard ++ s.wire.map Source.told = relayedMessages fromSlice fromStr id o (s.history ++ [_])
    rw [h.told, relayedMessages_snoc hopen, hafter]
    split_ifs
    · exact (List.append_nil _).symm
    · exact (List.append_nil _).symm

/-- The session's answers are told alike if the first response fits a line. -/
theorem messages_eq_iff {history : List Input} (hline : fromStr (Ipc.encodeFrame o.response) = .ok (Ipc.protocolVersion, o.response))
    (hfits : ∀ i ∈ history, i.Fits) (hserde : ∀ i ∈ history, ∀ r ∈ i.notices id, fromSlice r.toVec = .ok r) :
    relayedMessages fromSlice fromStr id o history = localMessages id o history ↔
      (Ipc.encodeFrame o.response).length ≤ Ipc.maxIpcLineBytes ∧ (o.openLocal.2 = true → Alike .new history) := by
  by_cases hlen : (Ipc.encodeFrame o.response).length ≤ Ipc.maxIpcLineBytes
  · unfold relayedMessages localMessages
    rw [openRelayed_eq hline hlen]
    dsimp only
    rw [List.cons_inj_right]
    by_cases hopen : o.openLocal.2 = true
    · rw [if_pos hopen, if_pos hopen, serve_eq_iff .new ⟨⟨o.viewport⟩⟩ hfits hserde]
      exact ⟨fun h => ⟨hlen, fun _ => h⟩, fun h => h.2 hopen⟩
    · rw [if_neg hopen, if_neg hopen]
      exact iff_of_true rfl ⟨hlen, fun h => absurd h hopen⟩
  · refine iff_of_false (fun heq => openRelayed_ne hlen (List.cons.inj heq).1) fun h => hlen h.1

/-- **A local and a relayed attach.** For every opening, and every order in which the
pump's events, the sizes and the client's messages come at the session and the gateway
takes what is forwarded, pings and leaves: once all that was forwarded has been taken,
the browser was told what it is told through the local arm, message for message, if and
only if the first response fits a line and nothing came of which the arms do not speak
alike. -/
theorem arms_alike_iff (actions : List Relayed.Action) {s : Relayed}
    (hrun : Runs.run (Relayed.step fromSlice id) (Relayed.start fromStr o) actions = some s) (htaken : s.wire = [])
    (hfits : ∀ i ∈ s.history, i.Fits)
    (hline : fromStr (Ipc.encodeFrame o.response) = .ok (Ipc.protocolVersion, o.response))
    (hserde : ∀ i ∈ s.history, ∀ r ∈ i.notices id, fromSlice r.toVec = .ok r) :
    streamed s.heard = localMessages id o s.history ↔
      (Ipc.encodeFrame o.response).length ≤ Ipc.maxIpcLineBytes ∧ (o.openLocal.2 = true → Alike .new s.history) := by
  have hinv : RelayedInv fromSlice fromStr id o s :=
    Runs.run_invariant relayedInv_step hrun (relayedInv_start fromSlice fromStr id o)
  have htold := hinv.told
  rw [htaken, List.map_nil, List.append_nil] at htold
  rw [htold]
  exact messages_eq_iff hline hfits hserde

end Runs

/-! ### Two attaches -/

def shortOpening : Opening :=
  ⟨some 24, some 80, .ok 1, .ok ⟨[36, 32], 2, true, Pump.plainModes, 1⟩, some [108, 115, 10]⟩

/-- `serde_json` on that session's first response, and on its notices. -/
def openingFromStr (line : Bytes) : Except Bytes (ℕ × RpcResponse) :=
  if line = Ipc.encodeFrame shortOpening.response then .ok (Ipc.protocolVersion, shortOpening.response)
  else .error (text "expected value")

/-- A parser of that session's notices. -/
def noticeFromSlice (payload : Bytes) : Except Bytes RpcResponse :=
  if payload = (RpcResponse.attachResized 30 100).toVec then .ok (.attachResized 30 100)
  else if payload = (RpcResponse.attachStreamDone (some 0) 4).toVec then .ok (.attachStreamDone (some 0) 4)
  else .error (text "expected value")

/-- The browser resizes, the session announces that, and there is a chunk and the end. -/
def ownResize : List Relayed.Action := [
  .session (.event (.chunk 2 [104, 105])), .session (.client (.resize 30 100) (.ok ())), .deliver,
  .session (.resize 30 100), .ping, .session (.event (.done (some 0) 4)), .deliver]

theorem arms_alike_iff_own : ∃ s,
    Runs.run (Relayed.step noticeFromSlice [115]) (Relayed.start openingFromStr shortOpening) ownResize = some s ∧
      s.heard.length = 4 ∧ streamed s.heard = localMessages [115] shortOpening s.history := by
  have hrun : (Runs.run (Relayed.step noticeFromSlice [115]) (Relayed.start openingFromStr shortOpening) ownResize).any
      (fun s => decide (s.heard.length = 4 ∧ s.wire = [] ∧ s.history = [.event (.chunk 2 [104, 105]),
        .client (.resize 30 100) (.ok ()), .resize 30 100, .event (.done (some 0) 4)])) = true := by
    decide +kernel
  obtain ⟨s, hs, hend⟩ := (Option.any_eq_true _ _).mp hrun
  obtain ⟨hheard, hwire, hhistory⟩ := of_decide_eq_true hend
  refine ⟨s, hs, hheard, (arms_alike_iff ownResize hs hwire ?_ (by decide +kernel) ?_).mpr ?_⟩
  · rw [hhistory]
    intro i hi
    simp only [List.mem_cons, List.not_mem_nil, or_false] at hi
    rcases hi with rfl | rfl | rfl | rfl
    · show 2 < 2 ^ 64
      decide
    · trivial
    · exact ⟨by decide, by decide⟩
    · refine ⟨fun code hcode => ?_, by decide⟩
      cases hcode
      decide
  · rw [hhistory]
    intro i hi r hr
    simp only [List.mem_cons, List.not_mem_nil, or_false] at hi
    rcases hi with rfl | rfl | rfl | rfl
    · cases hr
    · cases hr
    · rw [List.mem_singleton.mp hr]
      decide +kernel
    · rw [List.mem_singleton.mp hr]
      decide +kernel
  · rw [hhistory]
    exact ⟨by decide +kernel, fun _ => ⟨by decide, rfl, trivial⟩⟩

/-- Another client resizes. -/
def foreignResize : List Relayed.Action :=
  [.session (.resize 30 100), .session (.event (.done (some 0) 4)), .deliver, .deliver]

/-- Only the relayed browser is told. -/
theorem resize_not_told : ∃ s,
    Runs.run (Relayed.step noticeFromSlice [115]) (Relayed.start openingFromStr shortOpening) foreignResize = some s ∧
      s.wire = [] ∧ (ServerMessage.resized 30 100, false) ∈ streamed s.heard ∧
      streamed s.heard ≠ localMessages [115] shortOpening s.history := by
  have hrun : (Runs.run (Relayed.step noticeFromSlice [115]) (Relayed.start openingFromStr shortOpening) foreignResize).any
      (fun s => decide (s.wire = [] ∧ (ServerMessage.resized 30 100, false) ∈ streamed s.heard ∧
        streamed s.heard ≠ localMessages [115] shortOpening s.history)) = true := by
    decide +kernel
  obtain ⟨s, hs, hend⟩ := (Option.any_eq_true _ _).mp hrun
  exact ⟨s, hs, of_decide_eq_true hend⟩

end Source
end Ws
end OpenRelay
