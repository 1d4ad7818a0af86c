/-
# One call over a node connection

A daemon that has other nodes joined to it sends them requests (`proxy_rpc`,
`proxy_rpc_stream` in `node/registry.rs`). This is one such call as it alone would
be: what the caller, the gateway's relay and the secondary's relay have of it, and
the messages on the way. The relays' queues are shared by all calls; what one call
sees of them is its own part.

A step of the conversation is one of `Step`'s. Here the request is followed to the
secondary (`Asking`) and the answers as far as the gateway's relay (`Answering`);
what the caller has of them is in `Federation/RpcDelivery.lean`, and the connection
as a whole in `Federation/RpcRelay.lean`.

Key theorems: `asking_step`, `answering_step`.
-/
import Mathlib.Data.Nat.Notation
import Mathlib.Data.List.Basic

namespace OpenRelay
namespace Federation
namespace RpcCall

/-! ### Requests -/

/-- The requests of the protocol. -/
inductive Method
  | health | daemonStatus | daemonStop | list | start | sessionInfo | sessionMetadataSet | notifySet | notifySend
  | attachSubscribe | attachInput | attachMouse | sessionCursor | observeWindow | attachBusy | uploadFile
  | attachResize | attachDetach | attachAppliedCursor | stop | restart | kill | remove | logsTail | logsPagination
  | logsRead | nodeProxy | nodeAdd | nodeUpdate | nodeSetEnabled | nodeRemove | nodeInfo | nodeList
  deriving DecidableEq, Repr

/-- A request: its variant, and the fields, which the relays do not look at. -/
structure RpcRequest (B : Type) where
  method : Method
  body : B
  deriving DecidableEq, Repr

/-- A request's name as it is written. -/
def Method.name : Method → String
  | health => "health"
  | daemonStatus => "daemon_status"
  | daemonStop => "daemon_stop"
  | list => "list"
  | start => "start"
  | sessionInfo => "session_info"
  | sessionMetadataSet => "session_metadata_set"
  | notifySet => "notify_set"
  | notifySend => "notify_send"
  | attachSubscribe => "attach_subscribe"
  | attachInput => "attach_input"
  | attachMouse => "attach_mouse"
  | sessionCursor => "session_cursor"
  | observeWindow => "observe_window"
  | attachBusy => "attach_busy"
  | uploadFile => "upload_file"
  | attachResize => "attach_resize"
  | attachDetach => "attach_detach"
  | attachAppliedCursor => "attach_applied_cursor"
  | stop => "stop"
  | restart => "restart"
  | kill => "kill"
  | remove => "remove"
  | logsTail => "logs_tail"
  | logsPagination => "logs_pagination"
  | logsRead => "logs_read"
  | nodeProxy => "node_proxy"
  | nodeAdd => "node_add"
  | nodeUpdate => "node_update"
  | nodeSetEnabled => "node_set_enabled"
  | nodeRemove => "node_remove"
  | nodeInfo => "node_info"
  | nodeList => "node_list"

variable {B R : Type}

/-- `is_supported_proxied_rpc`. -/
def isSupportedProxiedRpc (request : RpcRequest B) : Bool :=
  match request.method with
  | .health | .daemonStatus | .list | .start | .sessionInfo | .sessionMetadataSet | .notifySet | .notifySend
  | .attachSubscribe | .attachInput | .attachMouse | .sessionCursor | .observeWindow | .attachBusy | .uploadFile
  | .attachResize | .attachDetach | .stop | .restart | .kill | .remove | .logsRead | .logsTail
  | .logsPagination => true
  | _ => false

/-- `is_stream_message_relayable`. -/
def isStreamMessageRelayable (request : RpcRequest B) : Bool :=
  match request.method with
  | .attachInput | .attachResize | .attachAppliedCursor | .attachDetach => true
  | _ => false

/-- The seconds that `proxy_rpc` waits. -/
def rpcDeadlineFor (request : RpcRequest B) : ℕ :=
  if request.method = .logsRead then 300 else 30

/-- Responses, and what each side makes of the JSON of the other's build. -/
structure Codec (B R : Type) where
  request : RpcRequest B → Except String (RpcRequest B)
  response : R → Option R
  /-- `RpcResponse::Error`. -/
  error : String → R
  /-- `AttachStreamDone` and `Error` are the last of a stream. -/
  isDone : R → Bool

/-- What the secondary's relay answers itself, without asking its daemon. -/
def Codec.refusal (codec : Codec B R) (request : RpcRequest B) : Option R :=
  match codec.request request with
  | .error err => some (codec.error ("invalid proxied RPC request: " ++ err))
  | .ok request =>
    if isSupportedProxiedRpc request then none
    else some (codec.error ("unsupported proxied RPC method: " ++ request.method.name))

/-- A mid-stream message, as the relay hands it to the stream's task. -/
def Codec.relayable (codec : Codec B R) (request : RpcRequest B) : Option (RpcRequest B) :=
  match codec.request request with
  | .ok request => if isStreamMessageRelayable request then some request else none
  | .error _ => none

/-! ### The caller -/

/-- Whether an answer ends the call, or the stream goes on. -/
inductive PendingRpc
  | oneShot | stream
  deriving DecidableEq, Repr

/-- Why a call fails. -/
inductive Failure
  | nodeNotConnected (node : String)
  | protocol (message : String)
  deriving DecidableEq, Repr

/-- Where a call is. -/
inductive Phase
  /-- It has the connection's channels. -/
  | looked
  /-- Its entry is in the map; the request is not sent. -/
  | sending
  | waiting
  /-- Its deadline has passed; its entry is to be removed. -/
  | expired
  /-- A stream's caller that has stopped reading, and has its receiver still. -/
  | closing
  /-- It has returned or was dropped. -/
  | returned
  deriving DecidableEq, Repr

/-- A call of `proxy_rpc` or `proxy_rpc_stream`. -/
structure Call (B R : Type) where
  kind : PendingRpc
  request : RpcRequest B
  phase : Phase
  /-- What is in the caller's channel. -/
  mailbox : List (Except Failure R)
  /-- What the caller has, in order. -/
  results : List (Except Failure R)
  /-- The entry came into the map after the relay had drained it. -/
  late : Bool
  deriving DecidableEq

namespace Call

/-- The request has not been sent. -/
def Early (c : Call B R) : Prop := c.phase = .looked ∨ c.phase = .sending

/-- The request has been sent, and the caller is there. -/
def Asked (c : Call B R) : Prop := c.phase = .waiting ∨ c.phase = .expired ∨ c.phase = .closing

/-- The channel's receiver is there. -/
def listening (c : Call B R) : Bool :=
  match c.phase with
  | .sending | .waiting | .closing => true
  | .looked | .expired | .returned => false

/-- What the caller has and what is in its channel. -/
def got (c : Call B R) : List (Except Failure R) := c.results ++ c.mailbox

/-- A value for the channel; without a receiver it is gone. -/
def put (c : Call B R) (x : Except Failure R) : Call B R :=
  if c.listening then { c with mailbox := c.mailbox ++ [x] } else c

/-- `try_send` into the 256 places of a stream's channel; the only one of a one-shot's is free. -/
def trySend (c : Call B R) (x : Except Failure R) : Call B R :=
  if c.kind = .stream ∧ 256 ≤ c.mailbox.length then c else c.put x

end Call

/-! ### The secondary's task -/

/-- Where a request is on the secondary. -/
inductive Task (B R : Type) where
  /-- The request has not come. -/
  | none
  /-- The relay answered it. -/
  | refused (answer : R)
  /-- The local daemon is asked. -/
  | rpc (request : RpcRequest B)
  | replying (request : RpcRequest B) (response : R)
  | replied (request : RpcRequest B) (response : R)
  /-- `relay_streaming_rpc`; the flag is `msgs_open`. -/
  | stream (request : RpcRequest B) (msgsOpen : Bool)
  | streamed (request : RpcRequest B)
  deriving DecidableEq

/-- A task that can still do something. -/
def Task.live : Task B R → Bool
  | .rpc _ | .replying _ _ | .stream _ _ => true
  | .none | .refused _ | .replied _ _ | .streamed _ => false

/-- What goes to the secondary. -/
inductive Ask (B : Type) where
  | rpc (request : RpcRequest B)
  | message (request : RpcRequest B)
  deriving DecidableEq

/-- What has happened, for the statements only. -/
structure Log (B R : Type) where
  /-- The exchanges with the local daemon (`ipc::send_request`): the request, and the daemon's
  response or the error that was made of a failed exchange. -/
  executed : List (RpcRequest B × R)
  /-- The answers that the secondary has made, and whether each is the last. -/
  emitted : List (R × Bool)
  /-- Those that the gateway's relay has read. -/
  consumed : List (R × Bool)
  /-- The caller's mid-stream messages. -/
  sent : List (RpcRequest B)
  /-- Those written to the session. -/
  written : List (RpcRequest B)
  deriving DecidableEq

/-- Nothing has been noted. -/
def Log.empty : Log B R := ⟨[], [], [], [], []⟩

/-- What there is of one call. -/
structure Conversation (B R : Type) where
  call : Option (Call B R)
  pending : Option PendingRpc
  /-- An answer that the relay waits to put into a stream's channel, and whether it is the last. -/
  held : Option (R × Bool)
  /-- The gateway's relay is over. -/
  ended : Bool
  drained : Bool
  outbox : List (Ask B)
  down : List (Ask B)
  task : Task B R
  /-- The channel of an open stream's messages. -/
  inbox : Option (List (RpcRequest B))
  /-- A message that the secondary's relay waits to put into that channel. -/
  forwarding : Option (RpcRequest B)
  /-- The secondary's relay is over. -/
  stopped : Bool
  replies : List R
  frames : List (R × Bool)
  up : List (R × Bool)
  log : Log B R
  deriving DecidableEq

/-- No call has this id. -/
def Conversation.start (ended drained stopped : Bool) : Conversation B R where
  call := none
  pending := none
  held := none
  ended := ended
  drained := drained
  outbox := []
  down := []
  task := .none
  inbox := none
  forwarding := none
  stopped := stopped
  replies := []
  frames := []
  up := []
  log := .empty

namespace Conversation

/-- What has been sent and not come, oldest first. -/
def asks (v : Conversation B R) : List (Ask B) := v.down ++ v.outbox

end Conversation

/-! ### Steps -/

/-- The error of a call whose deadline has passed. -/
def noAnswer (node : String) (request : RpcRequest B) : Failure :=
  .protocol ("node '" ++ node ++ "' did not answer '" ++ request.method.name ++ "' within " ++
    toString (rpcDeadlineFor request) ++ "s")

/-- The gateway's relay has read an answer. -/
def Conversation.consume (v : Conversation B R) (x : R × Bool) (rest : List (R × Bool)) : Conversation B R :=
  { v with up := rest, log := { v.log with consumed := v.log.consumed ++ [x] } }

/-- What can happen to a call: the caller's steps, the gateway's relay, the secondary. -/
inductive Step (codec : Codec B R) (node : String) (v : Conversation B R) : Conversation B R → Prop
  -- the caller
  | lookup (kind : PendingRpc) (request : RpcRequest B) (hcall : v.call = none) :
    Step codec node v { v with call := some ⟨kind, request, .looked, [], [], false⟩ }
  | insert (c : Call B R) (hcall : v.call = some c) (hphase : c.phase = .looked) :
    Step codec node v
      { v with call := some { c with phase := .sending, late := v.drained }, pending := some c.kind }
  | send (c : Call B R) (hcall : v.call = some c) (hphase : c.phase = .sending) :
    Step codec node v
      { v with call := some { c with phase := .waiting }, outbox := v.outbox ++ [.rpc c.request] }
  | sendFails (c : Call B R) (hcall : v.call = some c) (hphase : c.phase = .sending) (hdrained : v.drained = true) :
    Step codec node v
      { v with call := some { c with
          phase := .returned, mailbox := [], results := c.results ++ [.error (.nodeNotConnected node)] } }
  | receive (c : Call B R) (x : Except Failure R) (rest : List (Except Failure R)) (hcall : v.call = some c)
      (hphase : c.phase = .waiting) (hmail : c.mailbox = x :: rest) :
    Step codec node v
      { v with call := some { c with
          mailbox := rest, results := c.results ++ [x], phase := if c.kind = .oneShot then .returned else .waiting } }
  /-- The sender of a one-shot was dropped unused. -/
  | disconnected (c : Call B R) (hcall : v.call = some c) (hphase : c.phase = .waiting) (hkind : c.kind = .oneShot)
      (hmail : c.mailbox = []) (hpending : v.pending = none) :
    Step codec node v
      { v with call := some { c with phase := .returned, results := c.results ++ [.error (.nodeNotConnected node)] } }
  | expire (c : Call B R) (hcall : v.call = some c) (hphase : c.phase = .waiting) (hkind : c.kind = .oneShot)
      (hmail : c.mailbox = []) : Step codec node v { v with call := some { c with phase := .expired } }
  | removeExpired (c : Call B R) (hcall : v.call = some c) (hphase : c.phase = .expired) (hkind : c.kind = .oneShot) :
    Step codec node v
      { v with
        call := some { c with phase := .returned, results := c.results ++ [.error (noAnswer node c.request)] }
        pending := none }
  | stopReading (c : Call B R) (hcall : v.call = some c) (hphase : c.phase = .waiting) (hkind : c.kind = .stream) :
    Step codec node v { v with call := some { c with phase := .closing } }
  | removePending (c : Call B R) (hcall : v.call = some c) (hphase : c.phase = .closing) :
    Step codec node v { v with pending := none }
  | drop (c : Call B R) (hcall : v.call = some c) :
    Step codec node v { v with call := some { c with phase := .returned, mailbox := [] } }
  | message (c : Call B R) (request : RpcRequest B) (hcall : v.call = some c)
      (hphase : c.phase = .waiting ∨ c.phase = .closing) (hkind : c.kind = .stream) :
    Step codec node v
      { v with outbox := v.outbox ++ [.message request], log := { v.log with sent := v.log.sent ++ [request] } }
  -- the gateway's relay
  | outgoing (ask : Ask B) (rest : List (Ask B)) (hout : v.outbox = ask :: rest) (hended : v.ended = false) :
    Step codec node v { v with outbox := rest, down := v.down ++ [ask] }
  /-- An answer that no one waits for, or that is not understood. -/
  | ignore (x : R × Bool) (rest : List (R × Bool)) (hup : v.up = x :: rest) (hended : v.ended = false)
      (hheld : v.held = none)
      (hskip : codec.response x.1 = none ∨ v.pending = none ∨ (x.2 = false ∧ v.pending = some .oneShot)) :
    Step codec node v (v.consume x rest)
  | answer (c : Call B R) (x r : R) (rest : List (R × Bool)) (hup : v.up = (x, true) :: rest) (hended : v.ended = false)
      (hheld : v.held = none) (hr : codec.response x = some r) (hpending : v.pending = some .oneShot)
      (hcall : v.call = some c) :
    Step codec node v { v.consume (x, true) rest with call := some (c.put (.ok r)), pending := none }
  | hold (x r : R) (last : Bool) (rest : List (R × Bool)) (hup : v.up = (x, last) :: rest) (hended : v.ended = false)
      (hheld : v.held = none) (hr : codec.response x = some r) (hpending : v.pending = some .stream) :
    Step codec node v
      { v.consume (x, last) rest with held := some (r, last), pending := if last then none else some .stream }
  | deliver (c : Call B R) (r : R) (last : Bool) (hheld : v.held = some (r, last)) (hended : v.ended = false)
      (hcall : v.call = some c) (hopen : c.listening = true) (hroom : c.mailbox.length < 256) :
    Step codec node v { v with call := some (c.put (.ok r)), held := none }
  /-- The receiver is gone. -/
  | deliverGone (c : Call B R) (r : R) (last : Bool) (hheld : v.held = some (r, last)) (hended : v.ended = false)
      (hcall : v.call = some c) (hopen : c.listening = false) :
    Step codec node v { v with held := none, pending := if last then v.pending else none }
  | finish (hended : v.ended = false) : Step codec node v { v with held := none, ended := true }
  | drainNone (hended : v.ended = true) (hdrained : v.drained = false) (hpending : v.pending = none) :
    Step codec node v { v with drained := true }
  | drain (c : Call B R) (hended : v.ended = true) (hdrained : v.drained = false) (hpending : v.pending ≠ none)
      (hcall : v.call = some c) :
    Step codec node v
      { v with call := some (c.trySend (.error (.nodeNotConnected node))), pending := none, drained := true }
  -- the secondary
  | refuse (request : RpcRequest B) (x : R) (rest : List (Ask B)) (hdown : v.down = .rpc request :: rest)
      (hx : codec.refusal request = some x) :
    Step codec node v
      { v with down := rest, task := .refused x, up := v.up ++ [(x, true)],
               log := { v.log with emitted := v.log.emitted ++ [(x, true)] } }
  | spawnRpc (request request' : RpcRequest B) (rest : List (Ask B)) (hdown : v.down = .rpc request :: rest)
      (hparse : codec.request request = .ok request') (hsupported : isSupportedProxiedRpc request' = true)
      (hsubscribe : request'.method ≠ .attachSubscribe) :
    Step codec node v { v with down := rest, task := .rpc request' }
  | spawnStream (request request' : RpcRequest B) (rest : List (Ask B)) (hdown : v.down = .rpc request :: rest)
      (hparse : codec.request request = .ok request') (hsupported : isSupportedProxiedRpc request' = true)
      (hsubscribe : request'.method = .attachSubscribe) (hstopped : v.stopped = false) :
    Step codec node v { v with down := rest, task := .stream request' true, inbox := some [] }
  | discard (request : RpcRequest B) (rest : List (Ask B)) (hdown : v.down = .message request :: rest)
      (hskip : codec.relayable request = none ∨ v.inbox = none) (hforwarding : v.forwarding = none)
      (hstopped : v.stopped = false) :
    Step codec node v { v with down := rest }
  | take (request request' : RpcRequest B) (inbox : List (RpcRequest B)) (rest : List (Ask B))
      (hdown : v.down = .message request :: rest) (hr : codec.relayable request = some request')
      (hinbox : v.inbox = some inbox) (hforwarding : v.forwarding = none) (hstopped : v.stopped = false) :
    Step codec node v { v with down := rest, forwarding := some request' }
  | forward (request : RpcRequest B) (inbox : List (RpcRequest B)) (hforwarding : v.forwarding = some request)
      (hinbox : v.inbox = some inbox) (hlive : v.task.live = true) (hstopped : v.stopped = false) :
    Step codec node v { v with forwarding := none, inbox := some (inbox ++ [request]) }
  /-- The stream's task is over. -/
  | forwardGone (request : RpcRequest B) (hforwarding : v.forwarding = some request) (hlive : v.task.live = false) :
    Step codec node v { v with forwarding := none, inbox := none }
  /-- `ipc::send_request` is over, with a response or with an error. -/
  | execute (request : RpcRequest B) (x : R) (htask : v.task = .rpc request) :
    Step codec node v
      { v with task := .replying request x, log := { v.log with executed := v.log.executed ++ [(request, x)] } }
  | reply (request : RpcRequest B) (x : R) (htask : v.task = .replying request x) :
    Step codec node v
      { v with task := .replied request x, replies := v.replies ++ [x],
               log := { v.log with emitted := v.log.emitted ++ [(x, true)] } }
  | sendReply (x : R) (rest : List R) (hreplies : v.replies = x :: rest) :
    Step codec node v { v with replies := rest, up := v.up ++ [(x, true)] }
  | emit (request : RpcRequest B) (msgsOpen : Bool) (x : R) (htask : v.task = .stream request msgsOpen) :
    Step codec node v
      { v with
        task := if codec.isDone x then .streamed request else .stream request msgsOpen
        frames := v.frames ++ [(x, codec.isDone x)]
        log := { v.log with emitted := v.log.emitted ++ [(x, codec.isDone x)] } }
  /-- The session's daemon takes no more messages, or the gateway no more frames. -/
  | quit (request : RpcRequest B) (msgsOpen : Bool) (htask : v.task = .stream request msgsOpen) :
    Step codec node v { v with task := .streamed request }
  | write (request message : RpcRequest B) (inbox : List (RpcRequest B)) (htask : v.task = .stream request true)
      (hinbox : v.inbox = some (message :: inbox)) :
    Step codec node v
      { v with
        task := .stream request (message.method ≠ .attachDetach)
        inbox := some inbox
        log := { v.log with written := v.log.written ++ [message] } }
  | sendFrame (x : R) (last : Bool) (rest : List (R × Bool)) (hframes : v.frames = (x, last) :: rest) :
    Step codec node v
      { v with frames := rest, up := v.up ++ [(x, last)], inbox := if last then none else v.inbox }
  | secondaryEnds : Step codec node v { v with forwarding := none, stopped := true }

/-! ### The request -/

variable {codec : Codec B R} {node : String} {v w : Conversation B R}

/-- What a task of a request is. -/
def Task.OfRequest (codec : Codec B R) (request : RpcRequest B) : Task B R → Prop
  | .none => True
  | .refused x => codec.refusal request = some x
  | .rpc request' | .replying request' _ | .replied request' _ =>
    codec.request request = .ok request' ∧ isSupportedProxiedRpc request' = true ∧ request'.method ≠ .attachSubscribe
  | .stream request' _ | .streamed request' =>
    codec.request request = .ok request' ∧ isSupportedProxiedRpc request' = true ∧ request'.method = .attachSubscribe

/-- The request goes once, with the messages behind it. -/
structure Asking (codec : Codec B R) (v : Conversation B R) : Prop where
  unserved : v.task = .none →
    (v.asks = [] ∧ v.log.sent = [] ∧ ∀ c, v.call = some c → ¬ c.Asked) ∨
      ∃ c, v.call = some c ∧ ¬ c.Early ∧ v.asks = .rpc c.request :: v.log.sent.map .message
  served : v.task ≠ .none →
    ∃ c, v.call = some c ∧ ¬ c.Early ∧ v.task.OfRequest codec c.request ∧
      ∃ msgs : List (RpcRequest B), v.asks = msgs.map .message

theorem asking_start (ended drained stopped : Bool) : Asking codec (Conversation.start ended drained stopped) where
  unserved _ := .inl ⟨rfl, rfl, fun _ h => by cases h⟩
  served h := absurd rfl h

/-- A change of the call that keeps the request, and where it has got to. -/
theorem Asking.of_call (hi : Asking codec v) {c c' : Call B R} (hcall : v.call = some c) (hw : w.call = some c')
    (hrequest : c'.request = c.request) (hearly : c'.Early → c.Early) (hasked : c'.Asked → c.Asked)
    (hasks : w.asks = v.asks) (htask : w.task = v.task) (hsent : w.log.sent = v.log.sent) :
    Asking codec w where
  unserved h := by
    rcases hi.unserved (htask ▸ h) with ⟨hnil, hs, hnot⟩ | ⟨d, hd, hlate, hd'⟩
    · refine .inl ⟨hasks.trans hnil, hsent.trans hs, fun d hd => ?_⟩
      cases hw.symm.trans hd
      exact fun h => hnot c hcall (hasked h)
    · cases hcall.symm.trans hd
      exact .inr ⟨c', hw, fun h => hlate (hearly h), by rw [hasks, hd', hrequest, hsent]⟩
  served h := by
    obtain ⟨d, hd, hlate, hof, msgs, hmsgs⟩ := hi.served (htask ▸ h)
    cases hcall.symm.trans hd
    exact ⟨c', hw, fun h => hlate (hearly h), by rw [htask, hrequest]; exact hof, msgs, hasks.trans hmsgs⟩

/-- A step that shows neither in the request nor in the caller. -/
theorem Asking.of_eq (hi : Asking codec v) (hw : w.call = v.call) (hasks : w.asks = v.asks) (htask : w.task = v.task)
    (hsent : w.log.sent = v.log.sent) : Asking codec w where
  unserved h := by rw [hasks, hsent, hw]; exact hi.unserved (htask ▸ h)
  served h := by rw [hasks, htask, hw]; exact hi.served (htask ▸ h)

/-- What the secondary reads next, where it has not served the request: the request. -/
theorem Asking.head (hi : Asking codec v) {request : RpcRequest B} {rest : List (Ask B)}
    (hdown : v.down = .rpc request :: rest) :
    v.task = .none ∧ ∃ c, v.call = some c ∧ ¬ c.Early ∧ c.request = request ∧
      rest ++ v.outbox = v.log.sent.map .message := by
  have hasks : v.asks = .rpc request :: (rest ++ v.outbox) := by rw [Conversation.asks, hdown]; rfl
  by_cases htask : v.task = .none
  · refine ⟨htask, ?_⟩
    rcases hi.unserved htask with ⟨hnil, -⟩ | ⟨c, hc, hlate, hrest⟩
    · rw [hasks] at hnil
      cases hnil
    · rw [hasks] at hrest
      injection hrest with hhead htail
      injection hhead with hrequest
      exact ⟨c, hc, hlate, hrequest.symm, htail⟩
  · obtain ⟨c, -, -, -, msgs, hmsgs⟩ := hi.served htask
    rw [hasks] at hmsgs
    cases msgs <;> cases hmsgs

/-- The request has come to the secondary, which has a task for it now. -/
theorem Asking.serve (hi : Asking codec v) {request : RpcRequest B} {rest : List (Ask B)}
    (hdown : v.down = .rpc request :: rest) (hcall : w.call = v.call) (hasks : w.asks = rest ++ v.outbox)
    (hof : w.task.OfRequest codec request) (htask : w.task ≠ .none) : Asking codec w where
  unserved h := absurd h htask
  served _ := by
    obtain ⟨-, c, hc, hlate, rfl, hrest⟩ := hi.head hdown
    exact ⟨c, hcall.trans hc, hlate, hof, _, hasks.trans hrest⟩

/-- A task goes on with its request. -/
theorem Asking.proceed (hi : Asking codec v) (htask : v.task ≠ .none) (hcall : w.call = v.call)
    (hasks : w.asks = v.asks) (hof : ∀ request, v.task.OfRequest codec request → w.task.OfRequest codec request)
    (hw : w.task ≠ .none) : Asking codec w where
  unserved h := absurd h hw
  served _ := by
    obtain ⟨c, hc, hlate, hofc, msgs, hmsgs⟩ := hi.served htask
    exact ⟨c, hcall.trans hc, hlate, hof _ hofc, msgs, hasks.trans hmsgs⟩

/-- A message that is read comes after the request. -/
theorem Asking.message_task (hi : Asking codec v) {request : RpcRequest B} {rest : List (Ask B)}
    (hdown : v.down = .message request :: rest) : v.task ≠ .none := by
  have hv : v.asks = .message request :: (rest ++ v.outbox) := by rw [Conversation.asks, hdown]; rfl
  intro h
  rcases hi.unserved h with ⟨hnil, -⟩ | ⟨c, -, -, hrest⟩
  · rw [hv] at hnil
    cases hnil
  · rw [hv] at hrest
    cases hrest

theorem Asking.message (hi : Asking codec v) {request : RpcRequest B} {rest : List (Ask B)}
    (hdown : v.down = .message request :: rest) (hcall : w.call = v.call) (hasks : w.asks = rest ++ v.outbox)
    (htask : w.task = v.task) : Asking codec w := by
  have hv : v.asks = .message request :: (rest ++ v.outbox) := by rw [Conversation.asks, hdown]; rfl
  have hne := hi.message_task hdown
  refine ⟨fun h => absurd (htask.symm.trans h) hne, fun _ => ?_⟩
  obtain ⟨c, hc, hlate, hof, msgs, hmsgs⟩ := hi.served hne
  rw [hv] at hmsgs
  obtain _ | ⟨m, msgs⟩ := msgs
  · cases hmsgs
  · injection hmsgs with _ htail
    exact ⟨c, hcall.trans hc, hlate, by rw [htask]; exact hof, msgs, hasks.trans htail⟩

@[simp] theorem Call.put_request (c : Call B R) (x : Except Failure R) : (c.put x).request = c.request := by
  unfold Call.put
  split <;> rfl

@[simp] theorem Call.put_phase (c : Call B R) (x : Except Failure R) : (c.put x).phase = c.phase := by
  unfold Call.put
  split <;> rfl

@[simp] theorem Call.put_kind (c : Call B R) (x : Except Failure R) : (c.put x).kind = c.kind := by
  unfold Call.put
  split <;> rfl

@[simp] theorem Call.put_late (c : Call B R) (x : Except Failure R) : (c.put x).late = c.late := by
  unfold Call.put
  split <;> rfl

@[simp] theorem Call.put_results (c : Call B R) (x : Except Failure R) : (c.put x).results = c.results := by
  unfold Call.put
  split <;> rfl

theorem Call.put_of_listening {c : Call B R} (h : c.listening = true) (x : Except Failure R) :
    c.put x = { c with mailbox := c.mailbox ++ [x] } := by
  rw [Call.put, if_pos h]

theorem Call.put_of_not_listening {c : Call B R} (h : c.listening = false) (x : Except Failure R) : c.put x = c := by
  rw [Call.put, if_neg (by simp [h])]

/-- What `try_send` does: it leaves the call, or puts the value. -/
theorem Call.trySend_cases (c : Call B R) (x : Except Failure R) : c.trySend x = c ∨ c.trySend x = c.put x := by
  unfold Call.trySend
  split
  · exact .inl rfl
  · exact .inr rfl

@[simp] theorem Call.trySend_request (c : Call B R) (x : Except Failure R) : (c.trySend x).request = c.request := by
  rcases c.trySend_cases x with h | h <;> simp [h]

@[simp] theorem Call.trySend_phase (c : Call B R) (x : Except Failure R) : (c.trySend x).phase = c.phase := by
  rcases c.trySend_cases x with h | h <;> simp [h]

@[simp] theorem Call.trySend_kind (c : Call B R) (x : Except Failure R) : (c.trySend x).kind = c.kind := by
  rcases c.trySend_cases x with h | h <;> simp [h]

@[simp] theorem Call.trySend_late (c : Call B R) (x : Except Failure R) : (c.trySend x).late = c.late := by
  rcases c.trySend_cases x with h | h <;> simp [h]

@[simp] theorem Call.trySend_results (c : Call B R) (x : Except Failure R) : (c.trySend x).results = c.results := by
  rcases c.trySend_cases x with h | h <;> simp [h]

theorem asking_step (hi : Asking codec v) (h : Step codec node v w) : Asking codec w := by
  cases h with
  | lookup kind request hcall =>
    have htask : v.task = .none := by
      by_contra hne
      obtain ⟨c, hc, -⟩ := hi.served hne
      cases hcall.symm.trans hc
    refine ⟨fun _ => .inl ?_, fun hne => absurd htask hne⟩
    rcases hi.unserved htask with ⟨hnil, hsent, -⟩ | ⟨c, hc, -⟩
    · refine ⟨hnil, hsent, fun c hc => ?_⟩
      cases hc
      simp [Call.Asked]
    · cases hcall.symm.trans hc
  | insert c hcall hphase =>
    exact hi.of_call hcall rfl rfl (fun _ => .inl hphase) (by simp [Call.Asked]) rfl rfl rfl
  | send c hcall hphase =>
    have hearly : c.Early := .inr hphase
    have htask : v.task = .none := by
      by_contra hne
      obtain ⟨d, hd, hlate, -⟩ := hi.served hne
      cases hcall.symm.trans hd
      exact hlate hearly
    refine ⟨fun _ => .inr ⟨_, rfl, by simp [Call.Early], ?_⟩, fun hne => absurd htask hne⟩
    rcases hi.unserved htask with ⟨hnil, hsent, -⟩ | ⟨d, hd, hlate, -⟩
    · show v.down ++ (v.outbox ++ _) = .rpc c.request :: v.log.sent.map .message
      rw [hsent, ← List.append_assoc, show v.down ++ v.outbox = [] from hnil]
      rfl
    · cases hcall.symm.trans hd
      exact absurd hearly hlate
  | sendFails c hcall hphase => exact hi.of_call hcall rfl rfl (by simp [Call.Early]) (by simp [Call.Asked]) rfl rfl rfl
  | receive c x rest hcall hphase =>
    refine hi.of_call hcall rfl rfl (fun h => ?_) (fun _ => .inl hphase) rfl rfl rfl
    by_cases hkind : c.kind = .oneShot <;> simp [Call.Early, hkind] at h
  | disconnected c hcall =>
    exact hi.of_call hcall rfl rfl (by simp [Call.Early]) (by simp [Call.Asked]) rfl rfl rfl
  | expire c hcall hphase => exact hi.of_call hcall rfl rfl (by simp [Call.Early]) (fun _ => .inl hphase) rfl rfl rfl
  | removeExpired c hcall =>
    exact hi.of_call hcall rfl rfl (by simp [Call.Early]) (by simp [Call.Asked]) rfl rfl rfl
  | stopReading c hcall hphase =>
    exact hi.of_call hcall rfl rfl (by simp [Call.Early]) (fun _ => .inl hphase) rfl rfl rfl
  | drop c hcall => exact hi.of_call hcall rfl rfl (by simp [Call.Early]) (by simp [Call.Asked]) rfl rfl rfl
  | message c request hcall hphase hkind =>
    have hasked : c.Asked := hphase.imp_right .inr
    have hasks : v.down ++ (v.outbox ++ [.message request]) = v.asks ++ [.message request] :=
      (List.append_assoc ..).symm
    refine ⟨fun htask => .inr ?_, fun htask => ?_⟩
    · rcases hi.unserved htask with ⟨-, -, hnot⟩ | ⟨d, hd, hlate, hrest⟩
      · exact absurd hasked (hnot c hcall)
      · refine ⟨d, hd, hlate, hasks.trans ?_⟩
        rw [hrest, List.map_append]
        rfl
    · obtain ⟨d, hd, hlate, hof, msgs, hmsgs⟩ := hi.served htask
      refine ⟨d, hd, hlate, hof, msgs ++ [request], hasks.trans ?_⟩
      rw [hmsgs, List.map_append]
      rfl
  | outgoing ask rest hout =>
    refine hi.of_eq rfl ?_ rfl rfl
    show v.down ++ [ask] ++ rest = v.down ++ v.outbox
    rw [hout, List.append_assoc]
    rfl
  | answer c x r rest _ _ _ _ _ hcall | deliver c r last _ _ hcall | drain c _ _ _ hcall =>
    exact hi.of_call hcall rfl (by simp) (by simp [Call.Early]) (by simp [Call.Asked]) rfl rfl rfl
  | refuse request x rest hdown hx =>
    refine hi.serve hdown rfl rfl ?_ (by simp)
    exact hx
  | spawnRpc request request' rest hdown hparse hsupported hsubscribe =>
    exact hi.serve hdown rfl rfl ⟨hparse, hsupported, hsubscribe⟩ (by simp)
  | spawnStream request request' rest hdown hparse hsupported hsubscribe =>
    exact hi.serve hdown rfl rfl ⟨hparse, hsupported, hsubscribe⟩ (by simp)
  | discard request rest hdown => apply hi.message hdown <;> rfl
  | take request request' inbox rest hdown => apply hi.message hdown <;> rfl
  | execute request x htask =>
    exact hi.proceed (by simp [htask]) rfl rfl (fun q hq => by rw [htask] at hq; exact hq) (by simp)
  | reply request x htask =>
    exact hi.proceed (by simp [htask]) rfl rfl (fun q hq => by rw [htask] at hq; exact hq) (by simp)
  | emit request msgsOpen x htask =>
    refine hi.proceed (by simp [htask]) rfl rfl (fun q hq => ?_) (by dsimp only; split <;> simp)
    rw [htask] at hq
    dsimp only
    split <;> exact hq
  | quit request msgsOpen htask =>
    exact hi.proceed (by simp [htask]) rfl rfl (fun q hq => by rw [htask] at hq; exact hq) (by simp)
  | write request message inbox htask =>
    exact hi.proceed (by simp [htask]) rfl rfl (fun q hq => by rw [htask] at hq; exact hq) (by simp)
  | removePending | ignore | hold | deliverGone | finish | drainNone | forward | forwardGone | sendReply | sendFrame
  | secondaryEnds => exact hi.of_eq rfl rfl rfl rfl

/-! ### The answers -/

/-- What a task has made of answers. -/
def Task.Made (emitted : List (R × Bool)) (executed : List (RpcRequest B × R)) (replies : List R)
    (frames : List (R × Bool)) : Task B R → Prop
  | .none | .rpc _ => emitted = [] ∧ executed = []
  | .refused x => emitted = [(x, true)] ∧ executed = [] ∧ replies = [] ∧ frames = []
  | .replying request x => emitted = [] ∧ executed = [(request, x)]
  | .replied request x => emitted = [(x, true)] ∧ executed = [(request, x)] ∧ frames = []
  | .stream _ _ => executed = [] ∧ replies = [] ∧ ∀ f ∈ emitted, f.2 = false
  | .streamed _ => executed = [] ∧ replies = [] ∧ ∀ f ∈ emitted.dropLast, f.2 = false

/-- No answer is lost or comes before an earlier one, until the gateway's relay has read it. -/
structure Answering (v : Conversation B R) : Prop where
  flow : v.log.emitted = v.log.consumed ++ (v.up ++ (v.replies.map (·, true) ++ v.frames))
  made : v.task.Made v.log.emitted v.log.executed v.replies v.frames

theorem answering_start (ended drained stopped : Bool) :
    Answering (Conversation.start (B := B) (R := R) ended drained stopped) :=
  ⟨rfl, rfl, rfl⟩

/-- Where nothing has been made, nothing is on the way. -/
theorem Answering.nothing (hi : Answering v) (h : v.log.emitted = []) :
    v.log.consumed = [] ∧ v.up = [] ∧ v.replies = [] ∧ v.frames = [] := by
  have hflow := hi.flow
  rw [h] at hflow
  simpa using hflow.symm

theorem Answering.of_eq (hi : Answering v) (hflow : w.up = v.up) (hreplies : w.replies = v.replies)
    (hframes : w.frames = v.frames) (htask : w.task = v.task) (hemitted : w.log.emitted = v.log.emitted)
    (hexecuted : w.log.executed = v.log.executed) (hconsumed : w.log.consumed = v.log.consumed) : Answering w :=
  ⟨by rw [hemitted, hconsumed, hflow, hreplies, hframes]; exact hi.flow,
    by rw [htask, hemitted, hexecuted, hreplies, hframes]; exact hi.made⟩

/-- The gateway's relay reads the next answer. -/
theorem Answering.consume (hi : Answering v) {x : R × Bool} {rest : List (R × Bool)} (hup : v.up = x :: rest)
    (hw : w.up = rest) (hreplies : w.replies = v.replies) (hframes : w.frames = v.frames) (htask : w.task = v.task)
    (hlog : w.log = { v.log with consumed := v.log.consumed ++ [x] }) : Answering w := by
  refine ⟨?_, by rw [htask, hlog, hreplies, hframes]; exact hi.made⟩
  rw [hlog, hw, hreplies, hframes]
  show v.log.emitted = v.log.consumed ++ [x] ++ _
  rw [hi.flow, hup, List.append_assoc]
  rfl

theorem answering_step (ha : Asking codec v) (hi : Answering v) (h : Step codec node v w) : Answering w := by
  have hmade := hi.made
  cases h with
  | ignore x rest hup => apply hi.consume hup <;> rfl
  | answer c x r rest hup => apply hi.consume hup <;> rfl
  | hold x r last rest hup => apply hi.consume hup <;> rfl
  | refuse request x rest hdown =>
    obtain ⟨htask, -⟩ := ha.head hdown
    rw [htask] at hmade
    obtain ⟨hconsumed, hup, hreplies, hframes⟩ := hi.nothing hmade.1
    refine ⟨?_, ?_, hmade.2, hreplies, hframes⟩
    · simp [hmade.1, hconsumed, hup, hreplies, hframes]
    · simp [hmade.1]
  | spawnRpc request request' rest hdown =>
    obtain ⟨htask, -⟩ := ha.head hdown
    rw [htask] at hmade
    exact ⟨hi.flow, hmade⟩
  | spawnStream request request' rest hdown =>
    obtain ⟨htask, -⟩ := ha.head hdown
    rw [htask] at hmade
    exact ⟨hi.flow, hmade.2, (hi.nothing hmade.1).2.2.1, by simp [hmade.1]⟩
  | execute request x htask =>
    rw [htask] at hmade
    exact ⟨hi.flow, hmade.1, by simp [hmade.2]⟩
  | reply request x htask =>
    rw [htask] at hmade
    obtain ⟨hconsumed, hup, hreplies, hframes⟩ := hi.nothing hmade.1
    refine ⟨?_, ?_, hmade.2, hframes⟩
    · simp [hmade.1, hconsumed, hup, hreplies, hframes]
    · simp [hmade.1]
  | sendReply x rest hreplies =>
    refine ⟨?_, ?_⟩
    · show v.log.emitted = v.log.consumed ++ (v.up ++ [(x, true)] ++ (rest.map (·, true) ++ v.frames))
      rw [hi.flow, hreplies]
      simp
    · cases htask : v.task <;> rw [htask] at hmade
      case refused => rw [hreplies] at hmade; cases hmade.2.2.1
      case stream => rw [hreplies] at hmade; cases hmade.2.1
      case streamed => rw [hreplies] at hmade; cases hmade.2.1
      all_goals exact hmade
  | emit request msgsOpen x htask =>
    rw [htask] at hmade
    obtain ⟨hexecuted, hreplies, hopen⟩ := hmade
    refine ⟨?_, ?_⟩
    · show v.log.emitted ++ _ = v.log.consumed ++ (v.up ++ (v.replies.map (·, true) ++ (v.frames ++ [_])))
      rw [hi.flow]
      simp
    · dsimp only
      split
      · exact ⟨hexecuted, hreplies, by simpa using hopen⟩
      · next hdone =>
        refine ⟨hexecuted, hreplies, fun f hf => ?_⟩
        rcases List.mem_append.mp hf with hf | hf
        · exact hopen f hf
        · rw [List.mem_singleton.mp hf]
          exact eq_false_of_ne_true hdone
  | quit request msgsOpen htask =>
    rw [htask] at hmade
    exact ⟨hi.flow, hmade.1, hmade.2.1, fun f hf => hmade.2.2 f (List.dropLast_subset _ hf)⟩
  | write request message inbox htask =>
    rw [htask] at hmade
    exact ⟨hi.flow, hmade⟩
  | sendFrame x last rest hframes =>
    have hreplies : v.replies = [] := by
      cases htask : v.task <;> rw [htask] at hmade
      case none => exact (hi.nothing hmade.1).2.2.1
      case rpc => exact (hi.nothing hmade.1).2.2.1
      case replying => exact (hi.nothing hmade.1).2.2.1
      case refused => exact hmade.2.2.1
      case stream => exact hmade.2.1
      case streamed => exact hmade.2.1
      case replied => rw [hframes] at hmade; cases hmade.2.2
    refine ⟨?_, ?_⟩
    · show v.log.emitted = v.log.consumed ++ (v.up ++ [(x, last)] ++ (v.replies.map (·, true) ++ rest))
      rw [hi.flow, hreplies, hframes]
      simp
    · cases htask : v.task <;> rw [htask] at hmade
      case refused => rw [hframes] at hmade; cases hmade.2.2.2
      case replied => rw [hframes] at hmade; cases hmade.2.2
      all_goals exact hmade
  | lookup | insert | send | sendFails | receive | disconnected | expire | removeExpired | stopReading | removePending
  | drop | message | outgoing | deliver | deliverGone | finish | drainNone | drain | discard | take | forward
  | forwardGone | secondaryEnds => apply hi.of_eq <;> rfl

end RpcCall
end Federation
end OpenRelay
