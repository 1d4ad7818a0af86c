/-
# The relays of a node connection

The gateway (`node_join` in `http/nodes.rs`) and the secondary (`connect_and_relay` in
`daemon/rpc_nodes.rs`) each have one loop for a connection: calls, their answers
and the messages of open streams go through the loops' queues under their ids. A
state here is a whole connection, with the callers (`node/registry.rs`) and the
secondary's tasks; a step is one of them going on. Of each call what can be seen
(`view`) moves by the steps of `Federation/RpcCall.lean`, so that what holds of a
conversation holds of every call in every run, whatever the other calls do. What
that comes to for callers and channels is in `Federation/RpcResults.lean`. A queue whose
receiver is gone keeps what is in it, which no one will read: what is said of values on
their way is said while both ends are there.

Key theorems: `view_step`, `run_inv`.
-/
import Mathlib.Logic.Function.Basic
import OpenRelay.Lib.Runs
import OpenRelay.Lib.Tagged
import OpenRelay.Federation.RpcDelivery

namespace OpenRelay
namespace Federation
namespace RpcRelay

open RpcCall

variable {Id B R : Type}

/-! ### The connection -/

/-- What the secondary sends of answers. -/
inductive NodeWsMessage (R : Type) where
  | rpcResponse (response : R)
  | rpcStreamFrame (response : R) (done : Bool)
  deriving DecidableEq

/-- An answer, and whether it is the last. -/
def NodeWsMessage.frame : NodeWsMessage R → R × Bool
  | .rpcResponse response => (response, true)
  | .rpcStreamFrame response done => (response, done)

/-- Where the gateway's side of the connection is. -/
inductive Relay (Id R : Type) where
  | running
  /-- It waits for a place in a stream's channel. -/
  | delivering (id : Id) (response : R) (last : Bool)
  /-- The loop is over. -/
  | ended
  /-- The calls that waited have their error. -/
  | drained
  /-- The node is out of the registry. -/
  | disconnected
  /-- The task is over, and `send_rx` with it. -/
  | closed
  deriving DecidableEq

/-- The relay takes nothing off the connection any more. -/
def Relay.isEnded : Relay Id R → Bool
  | .running | .delivering _ _ _ => false
  | .ended | .drained | .disconnected | .closed => true

/-- The entries that were waiting have been told. -/
def Relay.isDrained : Relay Id R → Bool
  | .running | .delivering _ _ _ | .ended => false
  | .drained | .disconnected | .closed => true

/-- The relay is through, and the registry does not name it. -/
def Relay.isClosed : Relay Id R → Bool
  | .closed => true
  | .running | .delivering _ _ _ | .ended | .drained | .disconnected => false

/-- Where the secondary's loop is. -/
inductive Secondary (Id B : Type) where
  | running
  /-- It waits for a place in the channel of a stream's messages. -/
  | forwarding (id : Id) (request : RpcRequest B)
  | stopped
  deriving DecidableEq

/-- The secondary's end of the connection is gone. -/
def Secondary.isStopped : Secondary Id B → Bool
  | .stopped => true
  | .running | .forwarding _ _ => false

/-- The two ends of one connection, the calls that go through it, and what is noted of each. -/
structure Net (Id B R : Type) where
  calls : Id → Option (Call B R)
  /-- The map of the connection's handle. -/
  pending : Id → Option PendingRpc
  /-- The registry has the connection under the node's name. -/
  registered : Bool
  relay : Relay Id R
  /-- `send_rx`. -/
  outbox : List (Id × Ask B)
  down : List (Id × Ask B)
  secondary : Secondary Id B
  tasks : Id → Task B R
  /-- How many tasks `relay_tasks` has. -/
  relayTasks : ℕ
  /-- How many of these are over. -/
  finished : ℕ
  streams : Id → Option (List (RpcRequest B))
  rpcTx : List (Id × R)
  streamFrameTx : List (Id × R × Bool)
  up : List (Id × NodeWsMessage R)
  log : Id → Log B R

/-- The node has joined. -/
def Net.joined : Net Id B R where
  calls _ := none
  pending _ := none
  registered := true
  relay := .running
  outbox := []
  down := []
  secondary := .running
  tasks _ := .none
  relayTasks := 0
  finished := 0
  streams _ := none
  rpcTx := []
  streamFrameTx := []
  up := []
  log _ := .empty

/-- What may happen next, mostly to the call with the id. -/
inductive Action (Id B R : Type) where
  /-- A caller has the connection's channels, and a new id. -/
  | lookup (id : Id) (kind : PendingRpc) (request : RpcRequest B)
  | insert (id : Id)
  | send (id : Id)
  | receive (id : Id)
  | disconnected (id : Id)
  | expire (id : Id)
  | removeExpired (id : Id)
  | stopReading (id : Id)
  | removePending (id : Id)
  | drop (id : Id)
  | message (id : Id) (request : RpcRequest B)
  | outgoing
  | incoming
  | deliver
  /-- The loop ends: the connection, a deadline, or `revoke`'s signal. -/
  | finish
  | drain
  | disconnect
  | close
  | revoke
  | read
  | forward
  /-- The task's `ipc::send_request` is over, with a response or with the error of a failed one. -/
  | execute (id : Id) (response : R)
  | reply (id : Id)
  | sendReply
  | emit (id : Id) (response : R)
  | quit (id : Id)
  | write (id : Id)
  | sendFrame
  | join
  | secondaryEnds

/-! ### The steps -/

variable [DecidableEq Id]

section Steps

open Function (update)

variable (codec : Codec B R) (node : String) (s : Net Id B R)

def Net.setCall (id : Id) (c : Call B R) : Net Id B R := { s with calls := update s.calls id (some c) }

/-- What is noted of a call is changed. -/
def Net.setLog (id : Id) (f : Log B R → Log B R) : Net Id B R := { s with log := update s.log id (f (s.log id)) }

/-- The request into `send_tx`: it waits for a place, and fails if the receiver is gone. -/
def Net.send (id : Id) (c : Call B R) : Option (Net Id B R) :=
  if s.relay.isClosed then
    some (s.setCall id
      { c with phase := .returned, mailbox := [], results := c.results ++ [.error (.nodeNotConnected node)] })
  else if s.outbox.length < 64 then
    some { s.setCall id { c with phase := .waiting } with outbox := s.outbox ++ [(id, .rpc c.request)] }
  else none

/-- The caller takes a value from its channel; a one-shot returns with it. -/
def Net.receive (id : Id) (c : Call B R) : Option (Net Id B R) :=
  match c.mailbox with
  | [] => none
  | x :: rest =>
    some (s.setCall id { c with
      mailbox := rest, results := c.results ++ [x], phase := if c.kind = .oneShot then .returned else .waiting })

/-- A response that ends its call: `RpcResponse`, and an `RpcStreamFrame` that is done. -/
def Net.resolve (id : Id) (r : R) : Net Id B R :=
  match s.pending id with
  | none => s
  | some .oneShot =>
    { s with pending := update s.pending id none, calls := update s.calls id ((s.calls id).map (·.put (.ok r))) }
  | some .stream => { s with pending := update s.pending id none, relay := .delivering id r true }

/-- An `RpcStreamFrame` with more to come. -/
def Net.streamFrame (id : Id) (r : R) : Net Id B R :=
  match s.pending id with
  | some .stream => { s with relay := .delivering id r false }
  | some .oneShot | none => s

/-- The frame is off the socket. -/
def Net.consume (id : Id) (message : NodeWsMessage R) (rest : List (Id × NodeWsMessage R)) : Net Id B R :=
  { s.setLog id fun log => { log with consumed := log.consumed ++ [message.frame] } with up := rest }

/-- The gateway's loop reads the next frame. -/
def Net.incoming : Option (Net Id B R) :=
  match s.relay, s.up with
  | .running, (id, message) :: rest =>
    let s := s.consume id message rest
    match message with
    | .rpcResponse response => some ((codec.response response).elim s (s.resolve id))
    | .rpcStreamFrame response done =>
      some ((codec.response response).elim s (if done then s.resolve id else s.streamFrame id))
  | _, _ => none

/-- `tx.send` on a stream's channel of 256 places. -/
def Net.deliver : Option (Net Id B R) :=
  match s.relay with
  | .delivering id r last =>
    match s.calls id with
    | none => none
    | some c =>
      if c.listening then
        if c.mailbox.length < 256 then some { s.setCall id (c.put (.ok r)) with relay := .running } else none
      else some { s with relay := .running, pending := if last then s.pending else update s.pending id none }
  | _ => none

/-- Every call in the map gets the error, as far as its channel takes it. -/
def Net.drain : Net Id B R :=
  { s with
    relay := .drained
    pending := fun _ => none
    calls := fun id => if s.pending id = none then s.calls id else
      (s.calls id).map (·.trySend (.error (.nodeNotConnected node))) }

/-- The secondary answers a request itself. -/
def Net.refuse (id : Id) (rest : List (Id × Ask B)) (response : R) : Net Id B R :=
  { s.setLog id fun log => { log with emitted := log.emitted ++ [(response, true)] } with
    down := rest, tasks := update s.tasks id (.refused response), up := s.up ++ [(id, .rpcResponse response)] }

/-- The secondary's loop reads a request. -/
def Net.rpc (id : Id) (rest : List (Id × Ask B)) (request : RpcRequest B) : Net Id B R :=
  if 64 ≤ s.relayTasks then { s with secondary := .stopped }
  else match codec.request request with
    | .ok req =>
      if isSupportedProxiedRpc req then
        if req.method = .attachSubscribe then
          { s with
            down := rest, streams := update s.streams id (some []), relayTasks := s.relayTasks + 1,
            tasks := update s.tasks id (.stream req true) }
        else { s with down := rest, relayTasks := s.relayTasks + 1, tasks := update s.tasks id (.rpc req) }
      else s.refuse id rest (codec.error ("unsupported proxied RPC method: " ++ req.method.name))
    | .error err => s.refuse id rest (codec.error ("invalid proxied RPC request: " ++ err))

/-- The secondary's loop reads a message of a stream. -/
def Net.streamMessage (id : Id) (rest : List (Id × Ask B)) (request : RpcRequest B) : Net Id B R :=
  match codec.request request with
  | .ok req =>
    if isStreamMessageRelayable req then
      match s.streams id with
      | some _ => { s with down := rest, secondary := .forwarding id req }
      | none => { s with down := rest }
    else { s with down := rest }
  | .error _ => { s with down := rest }

/-- The secondary takes the next request off the connection. -/
def Net.read : Option (Net Id B R) :=
  match s.secondary, s.down with
  | .running, (id, .rpc request) :: rest => some (s.rpc codec id rest request)
  | .running, (id, .message request) :: rest => some (s.streamMessage codec id rest request)
  | _, _ => none

/-- `tx.send` on the channel of a stream's messages; it fails if the task is over. -/
def Net.forward : Option (Net Id B R) :=
  match s.secondary with
  | .forwarding id request =>
    match s.streams id with
    | none => none
    | some inbox =>
      if (s.tasks id).live then
        if inbox.length < 64 then
          some { s with secondary := .running, streams := update s.streams id (some (inbox ++ [request])) }
        else none
      else some { s with secondary := .running, streams := update s.streams id none }
  | _ => none

/-- The task puts its answer into `rpc_tx`. -/
def Net.reply (id : Id) : Option (Net Id B R) :=
  match s.tasks id with
  | .replying request x =>
    if s.secondary.isStopped = false ∧ s.rpcTx.length < 64 then
      some { s.setLog id fun log => { log with emitted := log.emitted ++ [(x, true)] } with
        tasks := update s.tasks id (.replied request x), rpcTx := s.rpcTx ++ [(id, x)], finished := s.finished + 1 }
    else none
  | _ => none

/-- A stream's task puts a frame into `stream_frame_tx`, and is over with the last. -/
def Net.emit (id : Id) (x : R) : Option (Net Id B R) :=
  match s.tasks id with
  | .stream request msgsOpen =>
    if s.secondary.isStopped = false ∧ s.streamFrameTx.length < 256 then
      some { s.setLog id fun log => { log with emitted := log.emitted ++ [(x, codec.isDone x)] } with
        tasks := update s.tasks id (if codec.isDone x then .streamed request else .stream request msgsOpen)
        streamFrameTx := s.streamFrameTx ++ [(id, x, codec.isDone x)]
        finished := if codec.isDone x then s.finished + 1 else s.finished }
    else none
  | _ => none

/-- A stream's task writes a message to the session's daemon. -/
def Net.write (id : Id) : Option (Net Id B R) :=
  match s.tasks id, s.streams id with
  | .stream request true, some (message :: inbox) =>
    some { s.setLog id fun log => { log with written := log.written ++ [message] } with
      tasks := update s.tasks id (.stream request (message.method ≠ .attachDetach))
      streams := update s.streams id (some inbox) }
  | _, _ => none

/-- A frame goes out; with the last one the stream's channel goes. -/
def Net.sendFrame : Option (Net Id B R) :=
  match s.secondary, s.streamFrameTx with
  | .running, (id, response, done) :: rest =>
    some { s with
      streamFrameTx := rest
      up := s.up ++ [(id, .rpcStreamFrame response done)]
      streams := if done then update s.streams id none else s.streams }
  | _, _ => none

/-- A caller's step in a phase of its call. -/
def Net.caller (id : Id) (allowed : Call B R → Bool) (next : Call B R → Option (Net Id B R)) : Option (Net Id B R) :=
  match s.calls id with
  | some c => if allowed c then next c else none
  | none => none

def Net.step : Action Id B R → Option (Net Id B R)
  | .lookup id kind request =>
    if s.registered ∧ s.calls id = none then some (s.setCall id ⟨kind, request, .looked, [], [], false⟩) else none
  | .insert id => s.caller id (fun c => c.phase = .looked) fun c =>
    some { s.setCall id { c with phase := .sending, late := s.relay.isDrained } with
      pending := update s.pending id (some c.kind) }
  | .send id => s.caller id (fun c => c.phase = .sending) (s.send node id)
  | .receive id => s.caller id (fun c => c.phase = .waiting) (s.receive id)
  | .disconnected id =>
    s.caller id (fun c => c.phase = .waiting ∧ c.kind = .oneShot ∧ c.mailbox = [] ∧ s.pending id = none) fun c =>
      some (s.setCall id { c with phase := .returned, results := c.results ++ [.error (.nodeNotConnected node)] })
  | .expire id => s.caller id (fun c => c.phase = .waiting ∧ c.kind = .oneShot ∧ c.mailbox = []) fun c =>
    some (s.setCall id { c with phase := .expired })
  | .removeExpired id => s.caller id (fun c => c.phase = .expired ∧ c.kind = .oneShot) fun c =>
    some { s.setCall id { c with phase := .returned, results := c.results ++ [.error (noAnswer node c.request)] } with
      pending := update s.pending id none }
  | .stopReading id => s.caller id (fun c => c.phase = .waiting ∧ c.kind = .stream) fun c =>
    some (s.setCall id { c with phase := .closing })
  | .removePending id => s.caller id (fun c => c.phase = .closing) fun _ =>
    some { s with pending := if s.registered then update s.pending id none else s.pending }
  | .drop id => s.caller id (fun _ => true) fun c => some (s.setCall id { c with phase := .returned, mailbox := [] })
  | .message id request =>
    s.caller id (fun c => (c.phase = .waiting ∨ c.phase = .closing) ∧ c.kind = .stream) fun _ =>
      if s.relay.isClosed = false ∧ s.outbox.length < 64 then
        some { s.setLog id fun log => { log with sent := log.sent ++ [request] } with
          outbox := s.outbox ++ [(id, .message request)] }
      else none
  | .outgoing =>
    match s.relay, s.outbox with
    | .running, ask :: rest => some { s with outbox := rest, down := s.down ++ [ask] }
    | _, _ => none
  | .incoming => s.incoming codec
  | .deliver => s.deliver
  | .finish => if s.relay.isEnded then none else some { s with relay := .ended }
  | .drain =>
    match s.relay with
    | .ended => some (s.drain node)
    | _ => none
  | .disconnect =>
    match s.relay with
    | .drained => some { s with relay := .disconnected, registered := false }
    | _ => none
  | .close =>
    match s.relay with
    | .disconnected => some { s with relay := .closed }
    | _ => none
  | .revoke => some { s with registered := false }
  | .read => s.read codec
  | .forward => s.forward
  | .execute id x =>
    match s.tasks id with
    | .rpc request =>
      some { s.setLog id fun log => { log with executed := log.executed ++ [(request, x)] } with
        tasks := update s.tasks id (.replying request x) }
    | _ => none
  | .reply id => s.reply id
  | .sendReply =>
    match s.secondary, s.rpcTx with
    | .running, (id, response) :: rest => some { s with rpcTx := rest, up := s.up ++ [(id, .rpcResponse response)] }
    | _, _ => none
  | .emit id x => s.emit codec id x
  | .quit id =>
    match s.tasks id with
    | .stream request _ => some { s with tasks := update s.tasks id (.streamed request), finished := s.finished + 1 }
    | _ => none
  | .write id => s.write id
  | .sendFrame => s.sendFrame
  | .join =>
    match s.secondary, s.finished with
    | .running, n + 1 => some { s with relayTasks := s.relayTasks - 1, finished := n }
    | _, _ => none
  | .secondaryEnds => some { s with secondary := .stopped }

end Steps

/-! ### One call of a connection -/

/-- The response that is being handed to a call, and whether it is the last one. -/
def Relay.held (i : Id) : Relay Id R → Option (R × Bool)
  | .delivering id response last => if id = i then some (response, last) else none
  | _ => none

/-- The message that is being handed to a call's stream. -/
def Secondary.forwarded (i : Id) : Secondary Id B → Option (RpcRequest B)
  | .forwarding id request => if id = i then some request else none
  | _ => none

/-- What there is of the call `i`. -/
def Net.view (s : Net Id B R) (i : Id) : Conversation B R where
  call := s.calls i
  pending := s.pending i
  held := s.relay.held i
  ended := s.relay.isEnded
  drained := s.relay.isDrained
  outbox := Tagged.of i s.outbox
  down := Tagged.of i s.down
  task := s.tasks i
  inbox := s.streams i
  forwarding := s.secondary.forwarded i
  stopped := s.secondary.isStopped
  replies := Tagged.of i s.rpcTx
  frames := Tagged.of i s.streamFrameTx
  up := (Tagged.of i s.up).map NodeWsMessage.frame
  log := s.log i

/-! ### A step, as one call sees it -/

variable {codec : Codec B R} {node : String} {s t : Net Id B R} {id : Id}

omit [DecidableEq Id] in
theorem Net.caller_eq_some {allowed : Call B R → Bool} {next : Call B R → Option (Net Id B R)} :
    s.caller id allowed next = some t ↔ ∃ c, s.calls id = some c ∧ allowed c = true ∧ next c = some t := by
  unfold Net.caller
  rcases s.calls id with _ | c
  · simp
  · by_cases h : allowed c <;> simp [h]

/-- What is done for one call is a step of that call, and the others do not see it. -/
theorem view_cases {w : Conversation B R} (hself : Step codec node (s.view id) w) (hw : t.view id = w)
    (hother : ∀ i, i ≠ id → t.view i = s.view i) (i : Id) :
    t.view i = s.view i ∨ Step codec node (s.view i) (t.view i) := by
  rcases eq_or_ne i id with rfl | hne
  · exact .inr (hw ▸ hself)
  · exact .inl (hother i hne)

omit [DecidableEq Id] in
theorem Relay.drained_of_closed {relay : Relay Id R} (h : relay.isClosed = true) : relay.isDrained = true := by
  cases relay with
  | closed => rfl
  | running | delivering | ended | drained | disconnected => cases h

theorem send_view {c : Call B R} (hcall : s.calls id = some c) (hphase : c.phase = .sending)
    (h : s.send node id c = some t) (i : Id) : t.view i = s.view i ∨ Step codec node (s.view i) (t.view i) := by
  unfold Net.send at h
  by_cases hclosed : s.relay.isClosed = true
  · rw [if_pos hclosed] at h
    cases h
    exact view_cases (.sendFails c hcall hphase (Relay.drained_of_closed hclosed)) (by simp [Net.view, Net.setCall])
      (fun i hne => by simp [Net.view, Net.setCall, hne]) i
  · rw [if_neg hclosed, Option.ite_none_right_eq_some] at h
    obtain ⟨-, h⟩ := h
    cases h
    exact view_cases (.send c hcall hphase) (by simp [Net.view, Net.setCall])
      (fun i hne => by simp [Net.view, Net.setCall, hne, Tagged.of_cons_ne hne.symm]) i

theorem receive_view {c : Call B R} (hcall : s.calls id = some c) (hphase : c.phase = .waiting)
    (h : s.receive id c = some t) (i : Id) : t.view i = s.view i ∨ Step codec node (s.view i) (t.view i) := by
  unfold Net.receive at h
  rcases hmail : c.mailbox with _ | ⟨x, rest⟩ <;> rw [hmail] at h <;> cases h
  exact view_cases (.receive c x rest hcall hphase hmail) (by simp [Net.view, Net.setCall])
    (fun i hne => by simp [Net.view, Net.setCall, hne]) i

/-- A response that ends its call, as the relay has read it. -/
theorem resolve_view {message : NodeWsMessage R} {rest : List (Id × NodeWsMessage R)} {x r : R}
    (hi : Inv codec node (s.view id)) (hrelay : s.relay = .running) (hup : s.up = (id, message) :: rest)
    (hmessage : message.frame = (x, true)) (hr : codec.response x = some r)
    (ht : t = (s.consume id message rest).resolve id r) (i : Id) :
    t.view i = s.view i ∨ Step codec node (s.view i) (t.view i) := by
  have hv : (s.view id).up = (x, true) :: (Tagged.of id rest).map NodeWsMessage.frame := by
    simp [Net.view, hup, hmessage]
  have hended : (s.view id).ended = false := by simp [Net.view, hrelay, Relay.isEnded]
  have hheld : (s.view id).held = none := by simp [Net.view, hrelay, Relay.held]
  subst ht
  unfold Net.resolve
  rcases hp : s.pending id with _ | _ | _ <;> simp only [Net.consume, Net.setLog, hp]
  · exact view_cases (.ignore _ _ hv hended hheld (.inr (.inl hp))) (by simp [Net.view, Conversation.consume, hmessage])
      (fun i hne => by simp [Net.view, hup, hne, Tagged.of_cons_ne hne.symm]) i
  · obtain ⟨c, hcall, -⟩ := hi.delivering.entry _ hp
    have hcall' : s.calls id = some c := hcall
    exact view_cases (.answer c x r _ hv hended hheld hr hp hcall)
      (by simp [Net.view, Conversation.consume, hmessage, hcall'])
      (fun i hne => by simp [Net.view, hup, hne, Tagged.of_cons_ne hne.symm]) i
  · exact view_cases (.hold x r true _ hv hended hheld hr hp)
      (by simp [Net.view, Conversation.consume, hmessage, Relay.held, Relay.isEnded, Relay.isDrained, hrelay])
      (fun i hne => by
        simp [Net.view, hup, hne, hne.symm, Tagged.of_cons_ne hne.symm, Relay.held, Relay.isEnded, Relay.isDrained,
          hrelay]) i

theorem streamFrame_view {rest : List (Id × NodeWsMessage R)} {x r : R} (hrelay : s.relay = .running)
    (hup : s.up = (id, .rpcStreamFrame x false) :: rest) (hr : codec.response x = some r)
    (ht : t = (s.consume id (.rpcStreamFrame x false) rest).streamFrame id r) (i : Id) :
    t.view i = s.view i ∨ Step codec node (s.view i) (t.view i) := by
  have hv : (s.view id).up = (x, false) :: (Tagged.of id rest).map NodeWsMessage.frame := by
    simp [Net.view, hup, NodeWsMessage.frame]
  have hended : (s.view id).ended = false := by simp [Net.view, hrelay, Relay.isEnded]
  have hheld : (s.view id).held = none := by simp [Net.view, hrelay, Relay.held]
  subst ht
  unfold Net.streamFrame
  rcases hp : s.pending id with _ | _ | _ <;> simp only [Net.consume, Net.setLog, hp]
  · exact view_cases (.ignore _ _ hv hended hheld (.inr (.inl hp)))
      (by simp [Net.view, Conversation.consume, NodeWsMessage.frame])
      (fun i hne => by simp [Net.view, hup, hne, Tagged.of_cons_ne hne.symm]) i
  · exact view_cases (.ignore _ _ hv hended hheld (.inr (.inr ⟨rfl, hp⟩)))
      (by simp [Net.view, Conversation.consume, NodeWsMessage.frame])
      (fun i hne => by simp [Net.view, hup, hne, Tagged.of_cons_ne hne.symm]) i
  · exact view_cases (.hold x r false _ hv hended hheld hr hp)
      (by
        simp [Net.view, Conversation.consume, NodeWsMessage.frame, Relay.held, Relay.isEnded, Relay.isDrained, hrelay,
          hp])
      (fun i hne => by
        simp [Net.view, hup, hne, hne.symm, Tagged.of_cons_ne hne.symm, Relay.held, Relay.isEnded, Relay.isDrained,
          hrelay]) i

theorem incoming_view (hi : ∀ i, Inv codec node (s.view i)) (h : s.incoming codec = some t) (i : Id) :
    t.view i = s.view i ∨ Step codec node (s.view i) (t.view i) := by
  unfold Net.incoming at h
  cases hrelay : s.relay <;> rw [hrelay] at h <;> try cases h
  rcases hup : s.up with _ | ⟨⟨id, message⟩, rest⟩ <;> rw [hup] at h
  · cases h
  have hended : (s.view id).ended = false := by simp [Net.view, hrelay, Relay.isEnded]
  have hheld : (s.view id).held = none := by simp [Net.view, hrelay, Relay.held]
  have hskip (hnone : codec.response message.frame.1 = none)
      (ht : t = s.consume id message rest) :
      t.view i = s.view i ∨ Step codec node (s.view i) (t.view i) := by
    have hv : (s.view id).up = message.frame :: (Tagged.of id rest).map NodeWsMessage.frame := by
      simp [Net.view, hup]
    subst ht
    exact view_cases (.ignore _ _ hv hended hheld (.inl hnone))
      (by simp [Net.view, Net.consume, Net.setLog, Conversation.consume])
      (fun i hne => by simp [Net.view, Net.consume, Net.setLog, hup, hne, Tagged.of_cons_ne hne.symm]) i
  cases message with
  | rpcResponse x =>
    injection h with h
    rcases hr : codec.response x with _ | r <;> rw [hr] at h
    · exact hskip hr h.symm
    · exact resolve_view (hi id) hrelay hup rfl hr h.symm i
  | rpcStreamFrame x done =>
    injection h with h
    rcases hr : codec.response x with _ | r <;> rw [hr] at h
    · exact hskip hr h.symm
    · cases done with
      | true => exact resolve_view (hi id) hrelay hup rfl hr h.symm i
      | false => exact streamFrame_view hrelay hup hr h.symm i

theorem deliver_view (h : s.deliver = some t) (i : Id) :
    t.view i = s.view i ∨ Step codec node (s.view i) (t.view i) := by
  unfold Net.deliver at h
  cases hrelay : s.relay with
  | delivering id r last =>
    rw [hrelay] at h
    have hheld : (s.view id).held = some (r, last) := by simp [Net.view, hrelay, Relay.held]
    have hended : (s.view id).ended = false := by simp [Net.view, hrelay, Relay.isEnded]
    rcases hcall : s.calls id with _ | c <;> simp only [hcall] at h
    · cases h
    by_cases hopen : c.listening = true
    · rw [if_pos hopen, Option.ite_none_right_eq_some] at h
      obtain ⟨hroom, h⟩ := h
      cases h
      exact view_cases (.deliver c r last hheld hended hcall hopen hroom)
        (by simp [Net.view, Net.setCall, hrelay, Relay.held, Relay.isEnded, Relay.isDrained])
        (fun i hne => by
          simp [Net.view, Net.setCall, hne, hne.symm, hrelay, Relay.held, Relay.isEnded, Relay.isDrained]) i
    · rw [if_neg hopen] at h
      cases h
      refine view_cases (.deliverGone c r last hheld hended hcall (by simpa using hopen)) ?_ (fun i hne => ?_) i
      · cases last <;> simp [Net.view, hrelay, Relay.held, Relay.isEnded, Relay.isDrained]
      · cases last <;> simp [Net.view, hne, hne.symm, hrelay, Relay.held, Relay.isEnded, Relay.isDrained]
  | running | ended | drained | disconnected | closed =>
    rw [hrelay] at h
    cases h

/-- Every call sees the end of the gateway's loop. -/
theorem finish_view (hrelay : s.relay.isEnded = false) (i : Id) :
    Step codec node (s.view i) (Net.view { s with relay := .ended } i) := by
  have hdrained : s.relay.isDrained = false := by
    cases hr : s.relay with
    | running | delivering | ended => rfl
    | drained | disconnected | closed => rw [hr] at hrelay; cases hrelay
  have hw : Net.view { s with relay := .ended } i = { s.view i with held := none, ended := true } := by
    simp only [Net.view, hdrained]
    rfl
  rw [hw]
  exact .finish hrelay

theorem drain_view {i : Id} (hi : Inv codec node (s.view i)) (hrelay : s.relay = .ended) :
    Step codec node (s.view i) ((s.drain node).view i) := by
  have hended : (s.view i).ended = true := by simp [Net.view, hrelay, Relay.isEnded]
  have hdrained : (s.view i).drained = false := by simp [Net.view, hrelay, Relay.isDrained]
  rcases hp : s.pending i with _ | k
  · have hw : (s.drain node).view i = { s.view i with drained := true } := by
      simp [Net.view, Net.drain, hrelay, hp, Relay.held, Relay.isEnded, Relay.isDrained]
    rw [hw]
    exact .drainNone hended hdrained hp
  · obtain ⟨c, hcall, -⟩ := hi.delivering.entry _ hp
    have hcall' : s.calls i = some c := hcall
    have hw : (s.drain node).view i =
        { s.view i with
          call := some (c.trySend (.error (.nodeNotConnected node))), pending := none, drained := true } := by
      simp [Net.view, Net.drain, hrelay, hp, hcall', Relay.held, Relay.isEnded, Relay.isDrained]
    rw [hw]
    exact .drain c hended hdrained (by simp [Net.view, hp]) hcall

theorem refuse_view {request : RpcRequest B} {rest : List (Id × Ask B)} {x : R}
    (hdown : s.down = (id, .rpc request) :: rest) (hx : codec.refusal request = some x) (i : Id) :
    (s.refuse id rest x).view i = s.view i ∨ Step codec node (s.view i) ((s.refuse id rest x).view i) := by
  have hv : (s.view id).down = .rpc request :: Tagged.of id rest := by simp [Net.view, hdown]
  exact view_cases (.refuse request x _ hv hx) (by simp [Net.view, Net.refuse, Net.setLog, NodeWsMessage.frame])
    (fun i hne => by simp [Net.view, Net.refuse, Net.setLog, hdown, hne, Tagged.of_cons_ne hne.symm]) i

theorem rpc_view {request : RpcRequest B} {rest : List (Id × Ask B)} (hsecondary : s.secondary = .running)
    (hdown : s.down = (id, .rpc request) :: rest) (ht : s.rpc codec id rest request = t) (i : Id) :
    t.view i = s.view i ∨ Step codec node (s.view i) (t.view i) := by
  have hv : (s.view id).down = .rpc request :: Tagged.of id rest := by simp [Net.view, hdown]
  unfold Net.rpc at ht
  by_cases hfull : 64 ≤ s.relayTasks
  · rw [if_pos hfull] at ht
    subst ht
    have hw : Net.view { s with secondary := .stopped } i = { s.view i with forwarding := none, stopped := true } := by
      simp [Net.view, Secondary.forwarded, Secondary.isStopped]
    exact .inr (hw ▸ .secondaryEnds)
  rw [if_neg hfull] at ht
  rcases hparse : codec.request request with err | req <;> simp only [hparse] at ht
  · subst ht
    exact refuse_view hdown (by simp [Codec.refusal, hparse]) i
  by_cases hsupported : isSupportedProxiedRpc req = true
  · rw [if_pos hsupported] at ht
    by_cases hsubscribe : req.method = .attachSubscribe
    · rw [if_pos hsubscribe] at ht
      subst ht
      have hstopped : (s.view id).stopped = false := by simp [Net.view, hsecondary, Secondary.isStopped]
      exact view_cases (.spawnStream request req _ hv hparse hsupported hsubscribe hstopped)
        (by simp [Net.view]) (fun i hne => by simp [Net.view, hdown, hne, Tagged.of_cons_ne hne.symm]) i
    · rw [if_neg hsubscribe] at ht
      subst ht
      exact view_cases (.spawnRpc request req _ hv hparse hsupported hsubscribe)
        (by simp [Net.view]) (fun i hne => by simp [Net.view, hdown, hne, Tagged.of_cons_ne hne.symm]) i
  · rw [if_neg hsupported] at ht
    subst ht
    exact refuse_view hdown (by simp [Codec.refusal, hparse, hsupported]) i

theorem streamMessage_view {request : RpcRequest B} {rest : List (Id × Ask B)} (hsecondary : s.secondary = .running)
    (hdown : s.down = (id, .message request) :: rest) (ht : s.streamMessage codec id rest request = t) (i : Id) :
    t.view i = s.view i ∨ Step codec node (s.view i) (t.view i) := by
  have hv : (s.view id).down = .message request :: Tagged.of id rest := by simp [Net.view, hdown]
  have hforwarding : (s.view id).forwarding = none := by simp [Net.view, hsecondary, Secondary.forwarded]
  have hstopped : (s.view id).stopped = false := by simp [Net.view, hsecondary, Secondary.isStopped]
  have hdiscard (hskip : codec.relayable request = none ∨ s.streams id = none) (ht : { s with down := rest } = t) :
      t.view i = s.view i ∨ Step codec node (s.view i) (t.view i) := by
    subst ht
    exact view_cases (.discard request _ hv hskip hforwarding hstopped) (by simp [Net.view])
      (fun i hne => by simp [Net.view, hdown, Tagged.of_cons_ne hne.symm]) i
  unfold Net.streamMessage at ht
  rcases hparse : codec.request request with err | req <;> simp only [hparse] at ht
  · exact hdiscard (.inl (by simp [Codec.relayable, hparse])) ht
  by_cases hrelayable : isStreamMessageRelayable req = true
  · rw [if_pos hrelayable] at ht
    rcases hinbox : s.streams id with _ | inbox <;> simp only [hinbox] at ht
    · exact hdiscard (.inr hinbox) ht
    · subst ht
      have hr : codec.relayable request = some req := by simp [Codec.relayable, hparse, hrelayable]
      exact view_cases (.take request req inbox _ hv hr hinbox hforwarding hstopped)
        (by simp [Net.view, Secondary.forwarded, Secondary.isStopped, hsecondary])
        (fun i hne => by
          simp [Net.view, hdown, hne.symm, Tagged.of_cons_ne hne.symm, Secondary.forwarded, Secondary.isStopped,
            hsecondary]) i
  · rw [if_neg hrelayable] at ht
    exact hdiscard (.inl (by simp [Codec.relayable, hparse, hrelayable])) ht

theorem forward_view (h : s.forward = some t) (i : Id) :
    t.view i = s.view i ∨ Step codec node (s.view i) (t.view i) := by
  unfold Net.forward at h
  cases hsecondary : s.secondary with
  | forwarding id request =>
    rw [hsecondary] at h
    have hforwarding : (s.view id).forwarding = some request := by simp [Net.view, hsecondary, Secondary.forwarded]
    rcases hinbox : s.streams id with _ | inbox <;> simp only [hinbox] at h
    · cases h
    by_cases hlive : (s.tasks id).live = true
    · rw [if_pos hlive, Option.ite_none_right_eq_some] at h
      obtain ⟨-, h⟩ := h
      cases h
      have hstopped : (s.view id).stopped = false := by simp [Net.view, hsecondary, Secondary.isStopped]
      exact view_cases (.forward request inbox hforwarding hinbox hlive hstopped)
        (by simp [Net.view, hsecondary, Secondary.forwarded, Secondary.isStopped])
        (fun i hne => by simp [Net.view, hsecondary, hne, hne.symm, Secondary.forwarded, Secondary.isStopped]) i
    · rw [if_neg hlive] at h
      cases h
      exact view_cases (.forwardGone request hforwarding (eq_false_of_ne_true hlive))
        (by simp [Net.view, hsecondary, Secondary.forwarded, Secondary.isStopped])
        (fun i hne => by simp [Net.view, hsecondary, hne, hne.symm, Secondary.forwarded, Secondary.isStopped]) i
  | running | stopped =>
    rw [hsecondary] at h
    cases h

theorem reply_view (h : s.reply id = some t) (i : Id) :
    t.view i = s.view i ∨ Step codec node (s.view i) (t.view i) := by
  unfold Net.reply at h
  cases htask : s.tasks id with
  | replying request x =>
    simp only [htask, Option.ite_none_right_eq_some] at h
    obtain ⟨-, h⟩ := h
    cases h
    exact view_cases (.reply request x htask) (by simp [Net.view, Net.setLog])
      (fun i hne => by simp [Net.view, Net.setLog, hne, Tagged.of_cons_ne hne.symm]) i
  | none | refused | rpc | replied | stream | streamed =>
    rw [htask] at h
    cases h

theorem emit_view {x : R} (h : s.emit codec id x = some t) (i : Id) :
    t.view i = s.view i ∨ Step codec node (s.view i) (t.view i) := by
  unfold Net.emit at h
  cases htask : s.tasks id with
  | stream request msgsOpen =>
    simp only [htask, Option.ite_none_right_eq_some] at h
    obtain ⟨-, h⟩ := h
    cases h
    exact view_cases (.emit request msgsOpen x htask) (by simp [Net.view, Net.setLog])
      (fun i hne => by simp [Net.view, Net.setLog, hne, Tagged.of_cons_ne hne.symm]) i
  | none | refused | rpc | replying | replied | streamed =>
    rw [htask] at h
    cases h

theorem write_view (h : s.write id = some t) (i : Id) :
    t.view i = s.view i ∨ Step codec node (s.view i) (t.view i) := by
  unfold Net.write at h
  cases htask : s.tasks id with
  | stream request msgsOpen =>
    rcases hinbox : s.streams id with _ | _ | ⟨message, inbox⟩ <;> cases msgsOpen <;>
      simp only [htask, hinbox] at h <;> cases h
    exact view_cases (.write request message inbox htask hinbox) (by simp [Net.view, Net.setLog])
      (fun i hne => by simp [Net.view, Net.setLog, hne]) i
  | none | refused | rpc | replying | replied | streamed =>
    rw [htask] at h
    cases h

theorem sendFrame_view (h : s.sendFrame = some t) (i : Id) :
    t.view i = s.view i ∨ Step codec node (s.view i) (t.view i) := by
  unfold Net.sendFrame at h
  cases hsecondary : s.secondary <;> rw [hsecondary] at h <;> try cases h
  rcases hframes : s.streamFrameTx with _ | ⟨⟨id, x, done⟩, rest⟩ <;> simp only [hframes] at h <;> cases h
  have hv : (s.view id).frames = (x, done) :: Tagged.of id rest := by simp [Net.view, hframes]
  refine view_cases (.sendFrame x done _ hv) ?_ (fun i hne => ?_) i
  · cases done <;> simp [Net.view, hsecondary, NodeWsMessage.frame]
  · cases done <;> simp [Net.view, hsecondary, hframes, hne, Tagged.of_cons_ne hne.symm]

/-- **One step** of the connection is a step of one call, of every call, or of none. -/
theorem view_step {a : Action Id B R} (hi : ∀ i, Inv codec node (s.view i)) (h : s.step codec node a = some t)
    (i : Id) :
    t.view i = s.view i ∨ Step codec node (s.view i) (t.view i) := by
  cases a with
  | lookup id kind request =>
    simp only [Net.step, Runs.guarded] at h
    obtain ⟨⟨-, hcall⟩, rfl⟩ := h
    exact view_cases (.lookup kind request hcall) (by simp [Net.view, Net.setCall])
      (fun i hne => by simp [Net.view, Net.setCall, hne]) i
  | insert id =>
    obtain ⟨c, hcall, hphase, ht⟩ := Net.caller_eq_some.mp h
    cases ht
    exact view_cases (.insert c hcall (by simpa using hphase)) (by simp [Net.view, Net.setCall])
      (fun i hne => by simp [Net.view, Net.setCall, hne]) i
  | send id =>
    obtain ⟨c, hcall, hphase, ht⟩ := Net.caller_eq_some.mp h
    exact send_view hcall (by simpa using hphase) ht i
  | receive id =>
    obtain ⟨c, hcall, hphase, ht⟩ := Net.caller_eq_some.mp h
    exact receive_view hcall (by simpa using hphase) ht i
  | disconnected id =>
    obtain ⟨c, hcall, hallowed, ht⟩ := Net.caller_eq_some.mp h
    obtain ⟨hphase, hkind, hmail, hpending⟩ := of_decide_eq_true hallowed
    cases ht
    exact view_cases (.disconnected c hcall hphase hkind hmail hpending) (by simp [Net.view, Net.setCall])
      (fun i hne => by simp [Net.view, Net.setCall, hne]) i
  | expire id =>
    obtain ⟨c, hcall, hallowed, ht⟩ := Net.caller_eq_some.mp h
    obtain ⟨hphase, hkind, hmail⟩ := of_decide_eq_true hallowed
    cases ht
    exact view_cases (.expire c hcall hphase hkind hmail) (by simp [Net.view, Net.setCall])
      (fun i hne => by simp [Net.view, Net.setCall, hne]) i
  | removeExpired id =>
    obtain ⟨c, hcall, hallowed, ht⟩ := Net.caller_eq_some.mp h
    obtain ⟨hphase, hkind⟩ := of_decide_eq_true hallowed
    cases ht
    exact view_cases (.removeExpired c hcall hphase hkind) (by simp [Net.view, Net.setCall])
      (fun i hne => by simp [Net.view, Net.setCall, hne]) i
  | stopReading id =>
    obtain ⟨c, hcall, hallowed, ht⟩ := Net.caller_eq_some.mp h
    obtain ⟨hphase, hkind⟩ := of_decide_eq_true hallowed
    cases ht
    exact view_cases (.stopReading c hcall hphase hkind) (by simp [Net.view, Net.setCall])
      (fun i hne => by simp [Net.view, Net.setCall, hne]) i
  | removePending id =>
    obtain ⟨c, hcall, hphase, ht⟩ := Net.caller_eq_some.mp h
    cases ht
    by_cases hregistered : s.registered = true
    · exact view_cases (.removePending c hcall (of_decide_eq_true hphase)) (by simp [Net.view, hregistered])
        (fun i hne => by simp [Net.view, hregistered, hne]) i
    · exact .inl (by simp [Net.view, hregistered])
  | drop id =>
    obtain ⟨c, hcall, -, ht⟩ := Net.caller_eq_some.mp h
    cases ht
    exact view_cases (.drop c hcall) (by simp [Net.view, Net.setCall])
      (fun i hne => by simp [Net.view, Net.setCall, hne]) i
  | message id request =>
    obtain ⟨c, hcall, hallowed, ht⟩ := Net.caller_eq_some.mp h
    obtain ⟨hphase, hkind⟩ := of_decide_eq_true hallowed
    rw [Option.ite_none_right_eq_some] at ht
    obtain ⟨-, ht⟩ := ht
    cases ht
    exact view_cases (.message c request hcall hphase hkind) (by simp [Net.view, Net.setLog])
      (fun i hne => by simp [Net.view, Net.setLog, hne, Tagged.of_cons_ne hne.symm]) i
  | outgoing =>
    unfold Net.step at h
    cases hrelay : s.relay <;> rw [hrelay] at h <;> try cases h
    rcases hout : s.outbox with _ | ⟨⟨id, ask⟩, rest⟩ <;> simp only [hout] at h <;> cases h
    have hv : (s.view id).outbox = ask :: Tagged.of id rest := by simp [Net.view, hout]
    exact view_cases (.outgoing ask _ hv (by simp [Net.view, hrelay, Relay.isEnded])) (by simp [Net.view, hrelay])
      (fun i hne => by simp [Net.view, hrelay, hout, Tagged.of_cons_ne hne.symm]) i
  | incoming => exact incoming_view hi h i
  | deliver => exact deliver_view h i
  | finish =>
    simp only [Net.step, Option.ite_none_left_eq_some] at h
    obtain ⟨hrelay, h⟩ := h
    cases h
    exact .inr (finish_view (eq_false_of_ne_true hrelay) i)
  | drain =>
    unfold Net.step at h
    cases hrelay : s.relay <;> rw [hrelay] at h <;> cases h
    exact .inr (drain_view (hi i) hrelay)
  | disconnect =>
    unfold Net.step at h
    cases hrelay : s.relay <;> rw [hrelay] at h <;> cases h
    exact .inl (by simp [Net.view, hrelay, Relay.held, Relay.isEnded, Relay.isDrained])
  | close =>
    unfold Net.step at h
    cases hrelay : s.relay <;> rw [hrelay] at h <;> cases h
    exact .inl (by simp [Net.view, hrelay, Relay.held, Relay.isEnded, Relay.isDrained])
  | revoke =>
    cases h
    exact .inl rfl
  | read =>
    have h : s.read codec = some t := h
    unfold Net.read at h
    cases hsecondary : s.secondary <;> rw [hsecondary] at h <;> try cases h
    rcases hdown : s.down with _ | ⟨⟨id, _ | _⟩, rest⟩ <;> simp only [hdown] at h
    · cases h
    · exact rpc_view hsecondary hdown (Option.some.inj h) i
    · exact streamMessage_view hsecondary hdown (Option.some.inj h) i
  | forward => exact forward_view h i
  | execute id x =>
    unfold Net.step at h
    cases htask : s.tasks id <;> simp only [htask] at h <;> cases h
    exact view_cases (.execute _ x htask) (by simp [Net.view, Net.setLog])
      (fun i hne => by simp [Net.view, Net.setLog, hne]) i
  | reply id => exact reply_view h i
  | sendReply =>
    unfold Net.step at h
    cases hsecondary : s.secondary <;> rw [hsecondary] at h <;> try cases h
    rcases hreplies : s.rpcTx with _ | ⟨⟨id, x⟩, rest⟩ <;> simp only [hreplies] at h <;> cases h
    have hv : (s.view id).replies = x :: Tagged.of id rest := by simp [Net.view, hreplies]
    exact view_cases (.sendReply x _ hv) (by simp [Net.view, hsecondary, NodeWsMessage.frame])
      (fun i hne => by simp [Net.view, hsecondary, hreplies, Tagged.of_cons_ne hne.symm]) i
  | emit id x => exact emit_view h i
  | quit id =>
    unfold Net.step at h
    cases htask : s.tasks id <;> simp only [htask] at h <;> cases h
    exact view_cases (.quit _ _ htask) (by simp [Net.view]) (fun i hne => by simp [Net.view, hne]) i
  | write id => exact write_view h i
  | sendFrame => exact sendFrame_view h i
  | join =>
    unfold Net.step at h
    cases hsecondary : s.secondary <;> rw [hsecondary] at h <;> try cases h
    rcases hfinished : s.finished with _ | n <;> simp only [hfinished] at h <;> cases h
    exact .inl (by simp [Net.view, hsecondary])
  | secondaryEnds =>
    cases h
    have hw : Net.view { s with secondary := .stopped } i = { s.view i with forwarding := none, stopped := true } := by
      simp [Net.view, Secondary.forwarded, Secondary.isStopped]
    exact .inr (hw ▸ .secondaryEnds)

/-! ### Runs -/

theorem view_inv {a : Action Id B R} (hi : ∀ i, Inv codec node (s.view i)) (h : s.step codec node a = some t) (i : Id) :
    Inv codec node (t.view i) := by
  rcases view_step hi h i with heq | hs
  · rw [heq]
    exact hi i
  · exact inv_step (hi i) hs

theorem inv_joined (i : Id) : Inv codec node ((Net.joined : Net Id B R).view i) := by
  have h : Inv codec node (Conversation.start (B := B) (R := R) false false false) := inv_start fun h => by cases h
  exact h

/-- A run of the connection. -/
def Run (codec : Codec B R) (node : String) (as : List (Action Id B R)) (s : Net Id B R) : Prop :=
  Runs.run (Net.step codec node) Net.joined as = some s

/-- **Every run** keeps every call's invariant, however the calls interleave. -/
theorem run_inv {as : List (Action Id B R)} (h : Run codec node as s) (i : Id) : Inv codec node (s.view i) := by
  have hrun : ∀ i, Inv codec node (s.view i) :=
    Runs.run_invariant (I := fun s => ∀ i, Inv codec node (s.view i)) view_inv h inv_joined
  exact hrun i

end RpcRelay
end Federation
end OpenRelay
