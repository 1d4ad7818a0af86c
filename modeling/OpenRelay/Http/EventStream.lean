/-
# The event stream

The session events cross two broadcast rings on their way to a browser (`http/sse.rs`). The encoder receives
the published events and sends them on encoded, and a `resync_required` where it lagged
(`run_event_encoder`). A client subscribes to the encoded ones, is told that the stream is ready, and gets
what is sent from then on; where it lags it gets a `resync_required` and the end (`live_event_stream`,
`events_handler`).

Publishing, the encoder's two steps and the client's reads come in any order (`Daemon.step`). A frame is kept
with its origin, which nobody on the way looks at. What the encoder sends follows on itself (`Relayed`), and so
does what the client gets of it.

Key theorems: `relayed_step`, `event_gaps_visible`.
-/
import OpenRelay.Lib.Broadcast
import OpenRelay.Lib.Runs
import OpenRelay.Lib.Slice

namespace OpenRelay
namespace Http
namespace EventStream

open Broadcast Streams

/-! ### Frames -/

def EVT_READY : String := "stream_ready"
def EVT_RESYNC : String := "resync_required"

/-- An event as it is written to a client. -/
structure EncodedSessionEvent where
  event_name : String
  data : String
  deriving DecidableEq, Repr

/-- What a frame tells about: the published event of that number, or what was left out. -/
inductive Origin where
  | ready
  | event (i : ℕ)
  | sender_lagged
  | receiver_lagged
  deriving DecidableEq, Repr

/-- A frame, and what it comes from. -/
structure Frame where
  origin : Origin
  encoded : EncodedSessionEvent
  deriving DecidableEq, Repr

/-- A client's first frame, with what is known of the sessions. -/
def Frame.ready (data : String) : Frame := ⟨.ready, ⟨EVT_READY, data⟩⟩

/-- The encoder has missed events. -/
def Frame.sender_lagged : Frame := ⟨.sender_lagged, ⟨EVT_RESYNC, "\x7b\"node\":null,\"reason\":\"sender_lagged\"\x7d"⟩⟩

def Frame.receiver_lagged : Frame :=
  ⟨.receiver_lagged, ⟨EVT_RESYNC, "\x7b\"node\":null,\"reason\":\"receiver_lagged\"\x7d"⟩⟩

/-! ### The encoder and a client -/

/-- `encode_session_event` behind `for_delivery`, and the capacities of the two channels. -/
structure Wiring (α : Type*) where
  encoded : α → EncodedSessionEvent
  eventCapacity : ℕ
  bytesCapacity : ℕ

/-- Where `run_event_encoder` is, with the position of its receiver. -/
inductive Encoder where
  | receiving (next : ℕ)
  | sending (next : ℕ) (frame : Frame)
  | stopped (next : ℕ)
  deriving DecidableEq, Repr

def Encoder.next : Encoder → ℕ
  | .receiving next => next
  | .sending next _ => next
  | .stopped next => next

/-- The frame that is encoded and not sent. -/
def Encoder.held : Encoder → List Frame
  | .sending _ frame => [frame]
  | _ => []

/-- How far the stream of a client is. It has `lagged` between its marker and its end. -/
inductive Phase where
  | subscribed
  | live
  | lagged
  | ended
  deriving DecidableEq, Repr

/-- A client, its position in the ring of frames, and what it has got. -/
structure Client where
  phase : Phase
  next : ℕ
  /-- The frames it has got. -/
  log : List Frame
  /-- The position it subscribed at, and the events published by then. -/
  start : ℕ
  known : ℕ
  deriving DecidableEq, Repr

/-- The two rings with the encoder between them, and one client; the others only read. -/
structure Daemon (α : Type*) where
  events : Channel α
  encoder : Encoder
  bytes : Channel Frame
  client : Option Client
  deriving DecidableEq, Repr

section Parts

variable {α : Type*}

/-- The encoder's frame for what it received. -/
def relay (wiring : Wiring α) (next next' : ℕ) : Received α → Encoder
  | .message event => .sending next' ⟨.event next, wiring.encoded event⟩
  | .lagged _ => .sending next' .sender_lagged
  | .closed => .stopped next'

/-- The client's stream for what it received. -/
def Client.deliver (c : Client) (next' : ℕ) : Received Frame → Client
  | .message frame => { c with next := next', log := c.log ++ [frame] }
  | .lagged _ => { c with next := next', log := c.log ++ [.receiver_lagged], phase := .lagged }
  | .closed => { c with next := next', phase := .ended }

/-- A poll of the client's stream. -/
def Client.read (wiring : Wiring α) (bytes : Channel Frame) (c : Client) : Option Client :=
  match c.phase with
  | .live => (bytes.recv wiring.bytesCapacity c.next).map fun got => c.deliver got.2 got.1
  | .lagged => some { c with phase := .ended }
  | _ => none

end Parts

namespace Daemon

variable {α : Type*}

/-- An encoder that has just subscribed, behind what was published before. -/
def start (before : List α) : Daemon α := ⟨⟨before, false⟩, .receiving before.length, ⟨[], false⟩, none⟩

/-- What may happen next. -/
inductive Action (α : Type*) where
  | publish (event : α)
  /-- The last sender of events is gone. -/
  | close
  | receive
  | send
  | closeBytes
  | connect
  /-- The client is told the version and the nodes. -/
  | ready (data : String)
  | read
  /-- The token of the client is revoked, or the browser leaves. -/
  | leave

def step (wiring : Wiring α) (m : Daemon α) : Action α → Option (Daemon α)
  | .publish event => if m.events.closed then none else some { m with events := m.events.send event }
  | .close => some { m with events := m.events.close }
  | .receive =>
    match m.encoder with
    | .receiving next =>
      (m.events.recv wiring.eventCapacity next).map fun got => { m with encoder := relay wiring next got.2 got.1 }
    | _ => none
  | .send =>
    match m.encoder with
    | .sending next frame => some { m with encoder := .receiving next, bytes := m.bytes.send frame }
    | _ => none
  | .closeBytes =>
    match m.encoder with
    | .stopped _ => some { m with bytes := m.bytes.close }
    | _ => none
  | .connect =>
    if m.client.isSome then none
    else some { m with client := some ⟨.subscribed, m.bytes.sent.length, [], m.bytes.sent.length, m.events.sent.length⟩ }
  | .ready data =>
    m.client.bind fun c =>
      if c.phase = .subscribed then some { m with client := some { c with phase := .live, log := c.log ++ [.ready data] } }
      else none
  | .read => m.client.bind fun c => (Client.read wiring m.bytes c).map fun c => { m with client := some c }
  | .leave => m.client.map fun c => { m with client := some { c with phase := .ended } }

end Daemon

/-! ### What is relayed -/

/-- The event that a frame is about. -/
def Origin.number : Origin → Option ℕ
  | .event i => some i
  | _ => none

/-- The events that frames are about, with none for the others. -/
def numbers (frames : List Frame) : List (Option ℕ) := frames.map fun f => f.origin.number

@[simp] theorem numbers_append (fs gs : List Frame) : numbers (fs ++ gs) = numbers fs ++ numbers gs := List.map_append

/-- What the encoder sends: an event, or its marker. -/
def Frame.Sent (f : Frame) : Prop := (∃ i, f.origin = .event i) ∨ f = .sender_lagged

section Relay

variable {α : Type*} (wiring : Wiring α)

/-- An event's frame is the event of its number, encoded. A marker is one. -/
def Told (events : List α) (f : Frame) : Prop :=
  match f.origin with
  | .event i => ∃ event, events[i]? = some event ∧ f.encoded = wiring.encoded event
  | .sender_lagged => f = .sender_lagged
  | .receiver_lagged => f = .receiver_lagged
  | .ready => ∃ data, f = .ready data

/-- What a stream that began at `start` and is read up to `next` has brought. -/
inductive Shown (bytes : List Frame) (start : ℕ) : Phase → ℕ → List Frame → Prop
  | subscribed : Shown bytes start .subscribed start []
  | live (data : String) (next : ℕ) : Shown bytes start .live next (.ready data :: slice bytes start next)
  | lagged (data : String) (next next' : ℕ) (hle : start ≤ next) (hnext : next ≤ bytes.length) :
    Shown bytes start .lagged next' (.ready data :: (slice bytes start next ++ [.receiver_lagged]))
  | ended {phase : Phase} {next : ℕ} {log : List Frame} (h : Shown bytes start phase next log) :
    Shown bytes start .ended next log

/-- A client has what was sent since it subscribed, and that follows on what was published by then. -/
structure Reads (m : Daemon α) (c : Client) : Prop where
  start_le : c.start ≤ c.next
  next_le : c.next ≤ m.bytes.sent.length
  shown : Shown m.bytes.sent c.start c.phase c.next c.log
  follows : ∃ a ≤ c.known, Follows a (numbers (m.bytes.sent.drop c.start ++ m.encoder.held)) m.encoder.next

/-- What the encoder has sent and holds follows the events, with a notice wherever some are missing. -/
structure Relayed (m : Daemon α) : Prop where
  follows : ∃ a, Follows a (numbers (m.bytes.sent ++ m.encoder.held)) m.encoder.next
  next_le : m.encoder.next ≤ m.events.sent.length
  told : ∀ f ∈ m.bytes.sent ++ m.encoder.held, Told wiring m.events.sent f
  sent : ∀ f ∈ m.bytes.sent ++ m.encoder.held, f.Sent
  client : ∀ c, m.client = some c → Reads m c

end Relay

/-! ### A step -/

section Steps

variable {α : Type*} {wiring : Wiring α} {m t : Daemon α} {c : Client}

theorem Shown.mono {bytes more : List Frame} {start next : ℕ} {phase : Phase} {log : List Frame}
    (h : Shown bytes start phase next log) (hnext : next ≤ bytes.length) : Shown (bytes ++ more) start phase next log := by
  have hgrown : bytes <+: bytes ++ more := List.prefix_append _ _
  induction h with
  | subscribed => exact .subscribed
  | live data next =>
    rw [← slice_mono hgrown hnext]
    exact .live data next
  | lagged data next next' hle hbound =>
    rw [← slice_mono hgrown hbound]
    exact .lagged data next next' hle (hbound.trans hgrown.length_le)
  | ended _ ih => exact .ended (ih hnext)

theorem Told.mono {events : List α} {f : Frame} (h : Told wiring events f) (more : List α) :
    Told wiring (events ++ more) f := by
  unfold Told at *
  split at h
  · obtain ⟨event, hevent, hencoded⟩ := h
    refine ⟨event, ?_, hencoded⟩
    rw [List.getElem?_append_left (List.getElem?_eq_some_iff.mp hevent).1]
    exact hevent
  · exact h
  · exact h
  · exact h

/-- What the encoder makes of what it received follows on what it has sent. -/
theorem relay_follows {ring : Channel α} {next next' a : ℕ} {received : Received α} {l : List (Option ℕ)}
    (h : ring.Tells next received next') (hl : Follows a l next) :
    Follows a (l ++ numbers (relay wiring next next' received).held) (relay wiring next next' received).next := by
  cases received with
  | message event =>
    obtain ⟨-, rfl⟩ := h
    exact hl.append (.number (.nil _))
  | lagged skipped => exact hl.append (.mark (Nat.le_of_lt h.1) (.nil _))
  | closed =>
    obtain ⟨-, rfl⟩ := h
    exact hl.append (.nil _)

theorem relay_next_le {ring : Channel α} {next next' : ℕ} {received : Received α} (h : ring.Tells next received next')
    (hnext : next ≤ ring.sent.length) : (relay wiring next next' received).next ≤ ring.sent.length := by
  cases received with
  | message event =>
    obtain ⟨hevent, rfl⟩ := h
    exact (List.getElem?_eq_some_iff.mp hevent).1
  | lagged skipped => exact h.2
  | closed =>
    obtain ⟨-, rfl⟩ := h
    exact hnext

/-- Each frame is told, and no client's. -/
theorem relay_told {ring : Channel α} {next next' : ℕ} {received : Received α} (h : ring.Tells next received next')
    {f : Frame} (hf : f ∈ (relay wiring next next' received).held) :
    Told wiring ring.sent f ∧ f.Sent := by
  cases received with
  | message event =>
    rw [List.mem_singleton.mp hf]
    exact ⟨⟨event, h.1, rfl⟩, .inl ⟨next, rfl⟩⟩
  | lagged skipped =>
    rw [List.mem_singleton.mp hf]
    exact ⟨rfl, .inr rfl⟩
  | closed => cases hf

/-- The encoder sends what it held. -/
theorem Reads.send {next : ℕ} {frame : Frame} (h : Reads m c) (hencoder : m.encoder = .sending next frame) :
    Reads { m with encoder := .receiving next, bytes := m.bytes.send frame } c := by
  have hstart : c.start ≤ m.bytes.sent.length := h.start_le.trans h.next_le
  refine ⟨h.start_le, ?_, h.shown.mono h.next_le, ?_⟩
  · show _ ≤ (m.bytes.sent ++ [frame]).length
    rw [List.length_append]
    exact h.next_le.trans (Nat.le_add_right _ _)
  · obtain ⟨a, hknown, hfollows⟩ := h.follows
    rw [hencoder] at hfollows
    refine ⟨a, hknown, ?_⟩
    show Follows a (numbers ((m.bytes.sent ++ [frame]).drop c.start ++ [])) next
    rw [List.append_nil, List.drop_append_of_le_length hstart]
    exact hfollows

theorem Shown.of_live {bytes : List Frame} {start next : ℕ} {phase : Phase} {log : List Frame}
    (h : Shown bytes start phase next log) (hlive : phase = .live) : ∃ data, log = .ready data :: slice bytes start next := by
  cases h with
  | live data next => exact ⟨data, rfl⟩
  | subscribed | lagged | ended => cases hlive

theorem Shown.of_subscribed {bytes : List Frame} {start next : ℕ} {phase : Phase} {log : List Frame}
    (h : Shown bytes start phase next log) (hsubscribed : phase = .subscribed) : next = start ∧ log = [] := by
  cases h with
  | subscribed => exact ⟨rfl, rfl⟩
  | live | lagged | ended => cases hsubscribed

/-- A live client gets what it received. -/
theorem Reads.deliver {next' : ℕ} {received : Received Frame} (h : Reads m c) (hlive : c.phase = .live)
    (htells : m.bytes.Tells c.next received next') : Reads m (c.deliver next' received) := by
  obtain ⟨data, hlog⟩ := h.shown.of_live hlive
  cases received with
  | message frame =>
    obtain ⟨hframe, rfl⟩ := htells
    obtain ⟨hbound, hget⟩ := List.getElem?_eq_some_iff.mp hframe
    refine ⟨Nat.le_succ_of_le h.start_le, hbound, ?_, h.follows⟩
    have hpiece : Piece m.bytes.sent c.next [frame] := by
      refine ⟨hbound, ?_⟩
      rw [List.drop_eq_getElem_cons hbound, hget]
      exact List.prefix_append [frame] _
    show Shown _ c.start c.phase (c.next + 1) (c.log ++ [frame])
    rw [hlive, hlog, List.cons_append, slice_append_piece h.start_le hpiece]
    exact .live data _
  | lagged skipped =>
    refine ⟨h.start_le.trans (Nat.le_of_lt htells.1), htells.2, ?_, h.follows⟩
    show Shown _ c.start .lagged next' (c.log ++ [.receiver_lagged])
    rw [hlog, List.cons_append]
    exact .lagged data c.next next' h.start_le h.next_le
  | closed =>
    obtain ⟨-, rfl⟩ := htells
    exact ⟨h.start_le, h.next_le, .ended h.shown, h.follows⟩

/-- A client that reads, or whose stream goes another step. -/
theorem Reads.read {c' : Client} (h : Reads m c) (hread : c.read wiring m.bytes = some c') : Reads m c' := by
  unfold Client.read at hread
  split at hread
  · rename_i hlive
    obtain ⟨⟨received, next'⟩, hgot, rfl⟩ := Option.map_eq_some_iff.mp hread
    exact h.deliver hlive (Channel.recv_tells hgot)
  · cases hread
    exact ⟨h.start_le, h.next_le, .ended h.shown, h.follows⟩
  · cases hread

theorem Reads.ready (h : Reads m c) (hsubscribed : c.phase = .subscribed) (data : String) :
    Reads m { c with phase := .live, log := c.log ++ [.ready data] } := by
  obtain ⟨hnext, hlog⟩ := h.shown.of_subscribed hsubscribed
  refine ⟨h.start_le, h.next_le, ?_, h.follows⟩
  show Shown _ c.start .live c.next (c.log ++ [.ready data])
  have hempty : slice m.bytes.sent c.start c.next = [] := by rw [hnext, slice_self]
  rw [hlog, List.nil_append, ← hempty]
  exact .live data c.next

/-- A client that subscribes gets what follows on what is sent. -/
theorem Relayed.connect (h : Relayed wiring m) :
    Reads m ⟨.subscribed, m.bytes.sent.length, [], m.bytes.sent.length, m.events.sent.length⟩ := by
  refine ⟨Nat.le_refl _, Nat.le_refl _, .subscribed, ?_⟩
  obtain ⟨a, hfollows⟩ := h.follows
  rw [numbers_append] at hfollows
  obtain ⟨b, -, hheld⟩ := hfollows.split
  refine ⟨b, hheld.le.trans h.next_le, ?_⟩
  rw [List.drop_length, List.nil_append]
  exact hheld

/-- The rings and the encoder go on with the same frames, and the events grow. -/
theorem Relayed.same (h : Relayed wiring m) (hbytes : t.bytes.sent = m.bytes.sent) (hencoder : t.encoder = m.encoder)
    (more : List α) (hevents : t.events.sent = m.events.sent ++ more) (hclient : ∀ c, t.client = some c → Reads m c) :
    Relayed wiring t := by
  refine ⟨?_, ?_, ?_, ?_, fun c hc => ?_⟩
  · rw [hbytes, hencoder]
    exact h.follows
  · rw [hencoder, hevents, List.length_append]
    exact h.next_le.trans (Nat.le_add_right _ _)
  · rw [hbytes, hencoder, hevents]
    exact fun f hf => (h.told f hf).mono more
  · rw [hbytes, hencoder]
    exact h.sent
  · have hreads := hclient c hc
    refine ⟨hreads.start_le, ?_, ?_, ?_⟩
    · rw [hbytes]
      exact hreads.next_le
    · rw [hbytes]
      exact hreads.shown
    · rw [hbytes, hencoder]
      exact hreads.follows

/-- Only the client goes on. -/
theorem Relayed.client_step (h : Relayed wiring m) {c' : Client} (hreads : Reads m c') :
    Relayed wiring { m with client := some c' } := by
  refine h.same rfl rfl [] (List.append_nil _).symm fun c hc => ?_
  cases hc
  exact hreads

/-- **A step** keeps what is relayed. -/
theorem relayed_step {action : Daemon.Action α} (h : Relayed wiring m) (hstep : m.step wiring action = some t) :
    Relayed wiring t := by
  cases action with
  | publish event =>
    simp only [Daemon.step] at hstep
    split at hstep
    · cases hstep
    · cases hstep
      exact h.same rfl rfl [event] rfl h.client
  | close =>
    cases hstep
    exact h.same rfl rfl [] (List.append_nil _).symm h.client
  | receive =>
    simp only [Daemon.step] at hstep
    split at hstep
    · rename_i next hencoder
      obtain ⟨⟨received, next'⟩, hgot, rfl⟩ := Option.map_eq_some_iff.mp hstep
      have htells := Channel.recv_tells hgot
      have hnext := h.next_le
      have hfollows := h.follows
      have htold := h.told
      have hsent := h.sent
      have hclient := h.client
      rw [hencoder] at hnext hfollows htold hsent
      simp only [Encoder.held, Encoder.next, List.append_nil] at hnext hfollows htold hsent
      refine ⟨?_, relay_next_le htells hnext, fun f hf => ?_, fun f hf => ?_, fun c hc => ?_⟩
      · obtain ⟨a, hfollows⟩ := hfollows
        refine ⟨a, ?_⟩
        rw [numbers_append]
        exact relay_follows htells hfollows
      · obtain hf | hf := List.mem_append.mp hf
        · exact htold f hf
        · exact (relay_told htells hf).1
      · obtain hf | hf := List.mem_append.mp hf
        · exact hsent f hf
        · exact (relay_told htells hf).2
      · have hreads := hclient c hc
        refine ⟨hreads.start_le, hreads.next_le, hreads.shown, ?_⟩
        obtain ⟨a, hknown, hfollows⟩ := hreads.follows
        rw [hencoder] at hfollows
        simp only [Encoder.held, Encoder.next, List.append_nil] at hfollows
        refine ⟨a, hknown, ?_⟩
        rw [numbers_append]
        exact relay_follows htells hfollows
    · cases hstep
  | send =>
    simp only [Daemon.step] at hstep
    split at hstep
    · rename_i next frame hencoder
      cases hstep
      have hnext := h.next_le
      have hfollows := h.follows
      have htold := h.told
      have hsent := h.sent
      rw [hencoder] at hnext hfollows htold hsent
      refine ⟨?_, hnext, ?_, ?_, fun c hc => (h.client c hc).send hencoder⟩
      · show ∃ a, Follows a (numbers ((m.bytes.sent ++ [frame]) ++ [])) next
        rw [List.append_nil]
        exact hfollows
      · show ∀ f ∈ (m.bytes.sent ++ [frame]) ++ [], _
        rw [List.append_nil]
        exact htold
      · show ∀ f ∈ (m.bytes.sent ++ [frame]) ++ [], _
        rw [List.append_nil]
        exact hsent
    · cases hstep
  | closeBytes =>
    simp only [Daemon.step] at hstep
    split at hstep
    · cases hstep
      exact h.same rfl rfl [] (List.append_nil _).symm h.client
    · cases hstep
  | connect =>
    simp only [Daemon.step] at hstep
    split at hstep
    · cases hstep
    · cases hstep
      exact h.client_step h.connect
  | ready data =>
    obtain ⟨c, hc, hstep⟩ := Option.bind_eq_some_iff.mp hstep
    split at hstep
    · rename_i hsubscribed
      cases hstep
      exact h.client_step ((h.client c hc).ready hsubscribed data)
    · cases hstep
  | read =>
    obtain ⟨c, hc, hstep⟩ := Option.bind_eq_some_iff.mp hstep
    obtain ⟨c', hread, rfl⟩ := Option.map_eq_some_iff.mp hstep
    exact h.client_step ((h.client c hc).read hread)
  | leave =>
    obtain ⟨c, hc, rfl⟩ := Option.map_eq_some_iff.mp hstep
    have hreads := h.client c hc
    exact h.client_step ⟨hreads.start_le, hreads.next_le, .ended hreads.shown, hreads.follows⟩

end Steps

/-! ### What the client sees -/

/-- A `resync_required` of the encoder or of the client's own stream. -/
def Frame.Marker (f : Frame) : Prop := f = .sender_lagged ∨ f = .receiver_lagged

/-- The frames of events from a number on. -/
def eventFrames {α : Type*} (wiring : Wiring α) : ℕ → List α → List Frame
  | _, [] => []
  | i, event :: events => ⟨.event i, wiring.encoded event⟩ :: eventFrames wiring (i + 1) events

/-- The event of that number is in the log, or a marker is at its place. -/
def Covered (log : List Frame) (n : ℕ) : Prop :=
  (∃ f ∈ log, f.origin = .event n) ∨
    ∃ pre f post, log = pre ++ f :: post ∧ f.Marker ∧ (∀ g ∈ pre, ∀ i, g.origin = .event i → i < n) ∧
      ∀ g ∈ post, ∀ i, g.origin = .event i → n < i

/-- All that was published is sent, and the client has read it. -/
def Drained {α : Type*} (m : Daemon α) (c : Client) : Prop :=
  m.encoder.next = m.events.sent.length ∧ m.encoder.held = [] ∧ c.next = m.bytes.sent.length

/-- What a client sees of the events. -/
structure Visible {α : Type*} (wiring : Wiring α) (m : Daemon α) (c : Client) : Prop where
  /-- Events with no other frame between them are a run of the published ones, as they were encoded. -/
  contiguous : ∀ pre seg post, c.log = pre ++ seg ++ post → (∀ f ∈ seg, ∃ i, f.origin = .event i) →
    ∃ i events, Piece m.events.sent i events ∧ seg = eventFrames wiring i events
  /-- An event published since the client subscribed is not passed over. -/
  passed : ∀ n i, c.known ≤ n → n < i → (∃ f ∈ c.log, f.origin = .event i) → Covered c.log n
  /-- None is left over when all is read, or when the stream is over for a lag. -/
  drained : Drained m c → ∀ n, c.known ≤ n → n < m.events.sent.length → Covered c.log n
  lagged : .receiver_lagged ∈ c.log → ∀ n, c.known ≤ n → Covered c.log n
  last : ∀ pre post, c.log = pre ++ .receiver_lagged :: post → post = []

section View

variable {α : Type*} {wiring : Wiring α} {m : Daemon α} {c : Client}

theorem Frame.Sent.ne_receiver_lagged {f : Frame} (h : f.Sent) : f ≠ .receiver_lagged := by
  rintro rfl
  obtain ⟨i, hi⟩ | h := h <;> cases ‹_›

theorem Frame.Sent.marker {f : Frame} (h : f.Sent) (hnumber : f.origin.number = none) : f.Marker := by
  obtain ⟨i, hi⟩ | h := h
  · rw [hi] at hnumber
    cases hnumber
  · exact .inl h

theorem Shown.log_cases {bytes : List Frame} {start next : ℕ} {phase : Phase} {log : List Frame}
    (h : Shown bytes start phase next log) :
    (log = [] ∧ next = start) ∨ (∃ data, log = .ready data :: slice bytes start next) ∨
      ∃ data next, log = .ready data :: (slice bytes start next ++ [.receiver_lagged]) := by
  induction h with
  | subscribed => exact .inl ⟨rfl, rfl⟩
  | live data next => exact .inr (.inl ⟨data, rfl⟩)
  | lagged data next next' hle hnext => exact .inr (.inr ⟨data, next, rfl⟩)
  | ended _ ih => exact ih

theorem Reads.follows_slice (h : Reads m c) (next : ℕ) :
    ∃ a ≤ c.known, ∃ b ≤ m.encoder.next, Follows a (numbers (slice m.bytes.sent c.start next)) b := by
  obtain ⟨a, hknown, hfollows⟩ := h.follows
  refine ⟨a, hknown, ?_⟩
  unfold slice
  rw [← List.take_append_drop (next - c.start) (m.bytes.sent.drop c.start), List.append_assoc, numbers_append] at hfollows
  obtain ⟨b, htaken, hrest⟩ := hfollows.split
  exact ⟨b, hrest.le, htaken⟩

theorem mem_of_mem_slice {bytes : List Frame} {start next : ℕ} {f : Frame} (h : f ∈ slice bytes start next) : f ∈ bytes :=
  List.mem_of_mem_drop (List.mem_of_mem_take h)

theorem Relayed.slice_sent (h : Relayed wiring m) {start next : ℕ} {f : Frame} (hf : f ∈ slice m.bytes.sent start next) :
    Told wiring m.events.sent f ∧ f.Sent :=
  have hmem := List.mem_append_left m.encoder.held (mem_of_mem_slice hf)
  ⟨h.told f hmem, h.sent f hmem⟩

/-- Frames behind the first one, where each of another origin than an event is a marker. -/
theorem covered_of_follows {rest : List Frame} {data : String} {a b n : ℕ} (h : Follows a (numbers rest) b) (hlow : a ≤ n)
    (hhigh : n < b) (hmarkers : ∀ f ∈ rest, f.origin.number = none → f.Marker) : Covered (.ready data :: rest) n := by
  have hnumber : ∀ {f : Frame} {i : ℕ}, f.origin = .event i → f.origin.number = some i := fun h => by rw [h]; rfl
  obtain hmem | ⟨pre, post, hl, hpre, hpost⟩ := h.covered hlow hhigh
  · obtain ⟨f, hf, hn⟩ := List.mem_map.mp hmem
    refine .inl ⟨f, List.mem_cons_of_mem _ hf, ?_⟩
    cases horigin : f.origin with
    | event i =>
      rw [horigin] at hn
      cases hn
      rfl
    | ready | sender_lagged | receiver_lagged =>
      rw [horigin] at hn
      cases hn
  · obtain ⟨fs, gs, rfl, hfs, hgs⟩ := List.map_eq_append_iff.mp hl
    obtain ⟨f, hs, rfl, hf, hhs⟩ := List.map_eq_cons_iff.mp hgs
    have hmarker : f.Marker := hmarkers f (List.mem_append_right _ List.mem_cons_self) hf
    refine .inr ⟨.ready data :: fs, f, hs, rfl, hmarker, fun g hg i hi => ?_, fun g hg i hi => ?_⟩
    · obtain rfl | hg := List.mem_cons.mp hg
      · cases hi
      · exact hpre i (hfs ▸ List.mem_map.mpr ⟨g, hg, hnumber hi⟩)
    · exact hpost i (hhs ▸ List.mem_map.mpr ⟨g, hg, hnumber hi⟩)

/-- The whole log, with `stream_ready` for a mark. -/
theorem Reads.log_follows (h : Reads m c) : ∃ b ≤ m.encoder.next, Follows 0 (numbers c.log) b := by
  obtain ⟨hlog, -⟩ | ⟨data, hlog⟩ | ⟨data, next, hlog⟩ := h.shown.log_cases
  · rw [hlog]
    exact ⟨0, Nat.zero_le _, .nil 0⟩
  · obtain ⟨a, -, b, hb, hfollows⟩ := h.follows_slice c.next
    rw [hlog]
    exact ⟨b, hb, .mark (Nat.zero_le a) hfollows⟩
  · obtain ⟨a, -, b, hb, hfollows⟩ := h.follows_slice next
    refine ⟨b, hb, ?_⟩
    rw [hlog]
    refine .mark (Nat.zero_le a) ?_
    rw [← numbers, numbers_append]
    exact hfollows.append (.mark (Nat.le_refl b) (.nil b))

theorem Relayed.log_told (h : Relayed wiring m) (hc : m.client = some c) : ∀ f ∈ c.log, Told wiring m.events.sent f := by
  obtain ⟨hlog, -⟩ | ⟨data, hlog⟩ | ⟨data, next, hlog⟩ := (h.client c hc).shown.log_cases
  · rw [hlog]
    nofun
  · rw [hlog]
    intro f hf
    obtain rfl | hf := List.mem_cons.mp hf
    · exact ⟨data, rfl⟩
    · exact (h.slice_sent hf).1
  · rw [hlog]
    intro f hf
    obtain rfl | hf := List.mem_cons.mp hf
    · exact ⟨data, rfl⟩
    obtain hf | hf := List.mem_append.mp hf
    · exact (h.slice_sent hf).1
    · rw [List.mem_singleton.mp hf]
      rfl

/-- Event frames that follow on each other are the events, one after another. -/
theorem events_of_follows {events : List α} : ∀ {seg : List Frame} {i j : ℕ}, Follows i (numbers seg) j →
    j ≤ events.length → (∀ f ∈ seg, ∃ i, f.origin = .event i) → (∀ f ∈ seg, Told wiring events f) →
    ∃ run, Piece events i run ∧ seg = eventFrames wiring i run
  | [], i, j, h, hj, _, _ => ⟨[], piece_nil (h.le.trans hj), rfl⟩
  | f :: seg, i, j, h, hj, hevents, htold => by
    obtain ⟨k, hk⟩ := hevents f List.mem_cons_self
    have hnumbers : numbers (f :: seg) = some k :: numbers seg := by
      rw [numbers, List.map_cons, hk]
      rfl
    rw [hnumbers] at h
    cases h with
    | number h =>
      obtain ⟨run, hpiece, hseg⟩ := events_of_follows h hj (fun g hg => hevents g (List.mem_cons_of_mem _ hg))
        fun g hg => htold g (List.mem_cons_of_mem _ hg)
      have hhead := htold f List.mem_cons_self
      unfold Told at hhead
      rw [hk] at hhead
      obtain ⟨event, hget, hencoded⟩ := hhead
      obtain ⟨hbound, hget⟩ := List.getElem?_eq_some_iff.mp hget
      have hone : Piece events i [event] := by
        refine ⟨hbound, ?_⟩
        rw [List.drop_eq_getElem_cons hbound, hget]
        exact List.prefix_append [event] _
      refine ⟨event :: run, hone.append hpiece, ?_⟩
      have hf : f = ⟨.event i, wiring.encoded event⟩ := by rw [← hk, ← hencoded]
      rw [eventFrames, ← hseg, hf]

/-- The marker of a lag is not among what is sent. -/
theorem Relayed.not_mem_of_slice (h : Relayed wiring m) {start next : ℕ} {data : String} :
    Frame.receiver_lagged ∉ Frame.ready data :: slice m.bytes.sent start next := fun hmem => by
  obtain hready | hslice := List.mem_cons.mp hmem
  · cases hready
  · exact absurd rfl (h.slice_sent hslice).2.ne_receiver_lagged

/-- A client that lagged: what it missed is behind all it has got, and the marker with it. -/
theorem Relayed.lagged_covered (h : Relayed wiring m) (hreads : Reads m c) {data : String} {next n : ℕ}
    (hknown : c.known ≤ n) :
    Covered (.ready data :: (slice m.bytes.sent c.start next ++ [.receiver_lagged])) n := by
  obtain ⟨a, ha, b, -, hfollows⟩ := hreads.follows_slice next
  have hmark : Follows a (numbers (slice m.bytes.sent c.start next ++ [.receiver_lagged])) (b + n + 1) := by
    rw [numbers_append]
    exact hfollows.append (.mark (by omega) (.nil _))
  refine covered_of_follows hmark (ha.trans hknown) (by omega) fun f hf hnumber => ?_
  obtain hf | hf := List.mem_append.mp hf
  · exact (h.slice_sent hf).2.marker hnumber
  · exact .inr (List.mem_singleton.mp hf)

/-- A client that has got a slice of what is sent, up to the number `b`. -/
theorem Relayed.slice_covered (h : Relayed wiring m) {data : String} {next a b n : ℕ}
    (hfollows : Follows a (numbers (slice m.bytes.sent c.start next)) b) (hlow : a ≤ n) (hhigh : n < b) :
    Covered (.ready data :: slice m.bytes.sent c.start next) n :=
  covered_of_follows hfollows hlow hhigh fun _ hf hnumber => (h.slice_sent hf).2.marker hnumber

theorem Relayed.passed (h : Relayed wiring m) (hreads : Reads m c) {n i : ℕ} (hknown : c.known ≤ n) (hni : n < i)
    (hi : ∃ f ∈ c.log, f.origin = .event i) : Covered c.log n := by
  obtain ⟨f, hf, horigin⟩ := hi
  obtain ⟨hlog, -⟩ | ⟨data, hlog⟩ | ⟨data, next, hlog⟩ := hreads.shown.log_cases
  · rw [hlog] at hf
    cases hf
  · rw [hlog] at hf ⊢
    obtain ⟨a, ha, b, -, hfollows⟩ := hreads.follows_slice c.next
    have hmem : some i ∈ numbers (slice m.bytes.sent c.start c.next) := by
      obtain rfl | hf := List.mem_cons.mp hf
      · cases horigin
      · exact List.mem_map.mpr ⟨f, hf, by rw [horigin]; rfl⟩
    exact h.slice_covered hfollows (ha.trans hknown) (hni.trans (hfollows.mem_bounds hmem).2)
  · rw [hlog]
    exact h.lagged_covered hreads hknown

theorem Relayed.drained (h : Relayed wiring m) (hreads : Reads m c) (hdrained : Drained m c) {n : ℕ}
    (hknown : c.known ≤ n) (hn : n < m.events.sent.length) : Covered c.log n := by
  obtain ⟨hencoder, hheld, hnext⟩ := hdrained
  obtain ⟨a, ha, hfollows⟩ := hreads.follows
  rw [hheld, List.append_nil, hencoder] at hfollows
  have hall : slice m.bytes.sent c.start c.next = m.bytes.sent.drop c.start := by
    rw [hnext]
    exact List.take_of_length_le (by rw [List.length_drop])
  obtain ⟨hlog, hstart⟩ | ⟨data, hlog⟩ | ⟨data, next, hlog⟩ := hreads.shown.log_cases
  · -- nothing was sent since it subscribed
    rw [← hstart, hnext, List.drop_length] at hfollows
    cases hfollows
    omega
  · rw [hlog]
    rw [← hall] at hfollows
    exact h.slice_covered hfollows (ha.trans hknown) hn
  · rw [hlog]
    exact h.lagged_covered hreads hknown

theorem Relayed.visible (h : Relayed wiring m) (hc : m.client = some c) : Visible wiring m c := by
  have hreads := h.client c hc
  refine ⟨fun pre seg post hlog hevents => ?_, fun n i => h.passed hreads, fun hdrained n => h.drained hreads hdrained,
    fun hmem n hknown => ?_, fun pre post hlog => ?_⟩
  · obtain ⟨b, hb, hfollows⟩ := hreads.log_follows
    rw [hlog, numbers_append] at hfollows
    obtain ⟨j, hfollows, hpost⟩ := hfollows.split
    rw [numbers_append] at hfollows
    obtain ⟨i, -, hseg⟩ := hfollows.split
    have htold : ∀ f ∈ seg, Told wiring m.events.sent f := fun f hf => by
      refine h.log_told hc f ?_
      rw [hlog]
      exact List.mem_append_left _ (List.mem_append_right _ hf)
    exact ⟨i, events_of_follows hseg (hpost.le.trans (hb.trans h.next_le)) hevents htold⟩
  · obtain ⟨hlog, -⟩ | ⟨data, hlog⟩ | ⟨data, next, hlog⟩ := hreads.shown.log_cases
    · rw [hlog] at hmem
      cases hmem
    · rw [hlog] at hmem
      exact absurd hmem h.not_mem_of_slice
    · rw [hlog]
      exact h.lagged_covered hreads hknown
  · have hmem : Frame.receiver_lagged ∈ c.log := by
      rw [hlog]
      exact List.mem_append_right _ List.mem_cons_self
    obtain ⟨hother, -⟩ | ⟨data, hother⟩ | ⟨data, next, hother⟩ := hreads.shown.log_cases
    · rw [hother] at hmem
      cases hmem
    · rw [hother] at hmem
      exact absurd hmem h.not_mem_of_slice
    · rw [hlog, ← List.cons_append] at hother
      obtain ⟨-, -, hpost⟩ | ⟨post', hsent, -⟩ := snoc_cases hother.symm
      · exact hpost
      · have hslice : Frame.receiver_lagged ∈ Frame.ready data :: slice m.bytes.sent c.start next := by
          rw [hsent]
          exact List.mem_append_right _ List.mem_cons_self
        exact absurd hslice h.not_mem_of_slice

/-- The stream of a client that lagged or ended delivers nothing more. -/
theorem over_step {action : Daemon.Action α} {t : Daemon α} {log : List Frame}
    (h : ∃ c, m.client = some c ∧ (c.phase = .lagged ∨ c.phase = .ended) ∧ c.log = log)
    (hstep : m.step wiring action = some t) :
    ∃ c, t.client = some c ∧ (c.phase = .lagged ∨ c.phase = .ended) ∧ c.log = log := by
  obtain ⟨c, hc, hover, hlog⟩ := h
  cases action with
  | publish event | closeBytes =>
    simp only [Daemon.step] at hstep
    split at hstep <;> cases hstep
    exact ⟨c, hc, hover, hlog⟩
  | close =>
    cases hstep
    exact ⟨c, hc, hover, hlog⟩
  | receive =>
    simp only [Daemon.step] at hstep
    split at hstep
    · obtain ⟨got, -, rfl⟩ := Option.map_eq_some_iff.mp hstep
      exact ⟨c, hc, hover, hlog⟩
    · cases hstep
  | send =>
    simp only [Daemon.step] at hstep
    split at hstep <;> cases hstep
    exact ⟨c, hc, hover, hlog⟩
  | connect =>
    simp only [Daemon.step, hc, Option.isSome_some, if_true] at hstep
    cases hstep
  | ready data =>
    simp only [Daemon.step, hc, Option.bind_some] at hstep
    rw [if_neg (by obtain h | h := hover <;> rw [h] <;> decide)] at hstep
    cases hstep
  | read =>
    simp only [Daemon.step, hc, Option.bind_some] at hstep
    obtain ⟨c', hread, rfl⟩ := Option.map_eq_some_iff.mp hstep
    unfold Client.read at hread
    obtain hphase | hphase := hover
    · rw [hphase] at hread
      cases hread
      exact ⟨_, rfl, .inr rfl, hlog⟩
    · rw [hphase] at hread
      cases hread
  | leave =>
    simp only [Daemon.step, hc, Option.map_some] at hstep
    cases hstep
    exact ⟨_, rfl, .inr rfl, hlog⟩

end View

/-! ### Runs -/

theorem start_relayed {α : Type*} (wiring : Wiring α) (before : List α) : Relayed wiring (Daemon.start before) :=
  ⟨⟨before.length, .nil _⟩, Nat.le_refl _, nofun, nofun, nofun⟩

/-- **Gaps in the event stream are visible.** However publishing, the encoder and the client's reads fall,
between two markers the client has a run of the published events, an event that it does not get has a
marker at its place, and behind the marker of its own lag nothing comes. -/
theorem event_gaps_visible {α : Type*} (wiring : Wiring α) {before : List α} {as bs : List (Daemon.Action α)}
    {s t : Daemon α} {c : Client} (hs : Runs.run (Daemon.step wiring) (Daemon.start before) as = some s)
    (hc : s.client = some c) (ht : Runs.run (Daemon.step wiring) s bs = some t) :
    Visible wiring s c ∧ (.receiver_lagged ∈ c.log → ∃ c', t.client = some c' ∧ c'.log = c.log) := by
  have hrelayed : Relayed wiring s := Runs.run_invariant (fun h hstep => relayed_step h hstep) hs (start_relayed wiring before)
  refine ⟨hrelayed.visible hc, fun hmem => ?_⟩
  have hover : c.phase = .lagged ∨ c.phase = .ended := by
    have hreads := hrelayed.client c hc
    cases hphase : c.phase with
    | lagged => exact .inl rfl
    | ended => exact .inr rfl
    | subscribed =>
      rw [(hreads.shown.of_subscribed hphase).2] at hmem
      cases hmem
    | live =>
      obtain ⟨data, hlog⟩ := hreads.shown.of_live hphase
      rw [hlog] at hmem
      exact absurd hmem hrelayed.not_mem_of_slice
  obtain ⟨c', hc', -, hlog⟩ := Runs.run_invariant (fun h hstep => over_step h hstep) ht ⟨c, hc, hover, rfl⟩
  exact ⟨c', hc', hlog⟩

/-- Deleted sessions, through rings for two events and for two frames. -/
def deletions : Wiring String := ⟨fun id => ⟨"session_deleted", "\x7b\"id\":\"" ++ id ++ "\",\"node\":null\x7d"⟩, 2, 2⟩

/-- The encoder lags behind `b`, and the client behind the encoder's marker and `c`. -/
def lagging : List (Daemon.Action String) :=
  [.connect, .publish "b", .publish "c", .publish "d", .receive, .send, .ready "\x7b\"nodes\":[],\"version\":2\x7d", .receive,
    .send, .receive, .send, .publish "e", .read]

theorem lagging_visible :
    ∃ s c t, Runs.run (Daemon.step deletions) (Daemon.start ["a"]) lagging = some s ∧ s.client = some c ∧
      Runs.run (Daemon.step deletions) s [.receive, .send, .read] = some t ∧
      c.log = [.ready "\x7b\"nodes\":[],\"version\":2\x7d", .receiver_lagged] ∧
      Visible deletions s c ∧ (.receiver_lagged ∈ c.log → ∃ c', t.client = some c' ∧ c'.log = c.log) :=
  ⟨_, _, _, rfl, rfl, rfl, rfl, @event_gaps_visible _ deletions ["a"] lagging [.receive, .send, .read] _ _ _ rfl rfl rfl⟩

end EventStream
end Http
end OpenRelay
