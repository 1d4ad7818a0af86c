/-
# What is attached is detached

A handler registers an attachment with the session's runtime when a client
attaches, and removes it when the client has gone. There are three: the IPC
handler (`daemon/rpc_attach.rs`), the WebSocket handler of a session of this
daemon, and the one that relays to the node that owns the session
(`http/ws.rs`, `http/attach_source.rs`); there the attachment is registered by
the IPC handler of the owning node, behind a channel (`daemon/rpc_nodes.rs`).
Nothing removes an attachment when its handler is dropped: each exit does.

One session on the daemon that owns it, with its connections; a relayed one has
its front on another daemon. `detached` is what has been taken out of the
registry.

Key theorems: `Books.move`, `FrontInv.front`, `daemonInv_step`,
`attachments_accounted`.
-/
import OpenRelay.Lib.Runs
import Mathlib.Data.List.Count

namespace OpenRelay
namespace Session
namespace Attachments

/-! ### The registry -/

/-- What kind of client is attached. -/
inductive AttachKind where
  | cli
  | web
  deriving DecidableEq, Repr

/-- What an attachment may do. -/
inductive AttachRole where
  | observer
  | controller
  deriving DecidableEq, Repr

/-- The role that a token asks for, if it is one. -/
def AttachRole.parse : Option String → Option AttachRole
  | none | some "controller" | some "control" => some .controller
  | some "observe" | some "observer" => some .observer
  | some _ => none

/-- One client's attachment. -/
structure Attachment where
  id : ℕ
  kind : AttachKind
  role : AttachRole
  viewport : Option (ℕ × ℕ)
  deriving DecidableEq, Repr

/-- The registry of one runtime. The counter of the source has 64 bits and a release build lets it wrap; here it
is a natural number, so the results about ids hold of a runtime's first 2 ^ 64 - 1 registrations. -/
structure AttachmentRegistry where
  nextId : ℕ
  attachments : List Attachment
  deriving DecidableEq, Repr

namespace AttachmentRegistry

/-- The next id, and an attachment under it. -/
def register (r : AttachmentRegistry) (kind : AttachKind) (role : AttachRole) (viewport : Option (ℕ × ℕ)) :
    AttachmentRegistry × ℕ :=
  (⟨r.nextId + 1, ⟨r.nextId + 1, kind, role, viewport⟩ :: r.attachments⟩, r.nextId + 1)

/-- No attachment has the id any more; if none had it, nothing changes. -/
def unregister (r : AttachmentRegistry) (id : ℕ) : AttachmentRegistry :=
  { r with attachments := r.attachments.filter fun a => a.id ≠ id }

def ids (r : AttachmentRegistry) : List ℕ := r.attachments.map (·.id)

def contains (r : AttachmentRegistry) (id : ℕ) : Bool := r.ids.contains id

end AttachmentRegistry

/-! ### Connections -/

/-- An `AttachSubscribe`; a WebSocket's has neither an offset nor a role. -/
structure Subscribe where
  fromByteOffset : Option ℕ
  rows : Option ℕ
  cols : Option ℕ
  role : Option String
  deriving DecidableEq, Repr

/-- The size that a client declares, unless it resumes. -/
def Subscribe.viewport (req : Subscribe) : Option (ℕ × ℕ) :=
  match req.fromByteOffset, req.rows, req.cols with
  | none, some rows, some cols => if 0 < rows ∧ 0 < cols then some (rows, cols) else none
  | _, _, _ => none

/-- The role that is registered: every web attach is a controller. -/
def Subscribe.roleAs (req : Subscribe) : AttachKind → Option AttachRole
  | .cli => AttachRole.parse req.role
  | .web => some .controller

/-- Where a handler on the session's daemon stands. -/
inductive Phase where
  /-- The owning node has not been asked yet. -/
  | idle
  | registering (req : Subscribe)
  /-- Registered; the pump subscribes. -/
  | subscribing (id : ℕ)
  /-- The init frame is being written. -/
  | greeting (id : ℕ)
  | serving (id : ℕ)
  /-- With the attachment that it had registered. -/
  | returned (id : Option ℕ)
  deriving DecidableEq, Repr

/-- How a serve loop ends: the client detaches, is gone or sent what is no message, the stream is over, a
write fails, the session refuses a message, the client's token is revoked. -/
inductive Exit where
  | detach
  | disconnect
  | ended
  | writeError
  | refused
  | revoked
  deriving DecidableEq, Repr

/-- What a front sends to the owning node: `input` is any message of the stream but a detach, `eof` the
end of the channel. -/
inductive Message where
  | subscribe (req : Subscribe)
  | input
  | detach
  | eof
  deriving DecidableEq, Repr

/-- What a front receives, short of the output: `over` is a completion or an error. -/
inductive Reply where
  | init
  | over
  deriving DecidableEq, Repr

/-- Where the front of a relayed attachment is. -/
inductive FrontPhase where
  | opening (req : Subscribe)
  | waiting
  | greeting
  | serving
  | returned
  deriving DecidableEq, Repr

/-- The relayed handler and its channel to the owning node. -/
structure Front where
  phase : FrontPhase
  toNode : List Message
  fromNode : List Reply
  lost : Bool
  deriving DecidableEq, Repr

/-- A connection to the session's daemon, with its front if it is relayed. -/
structure Connection where
  kind : AttachKind
  phase : Phase
  front : Option Front
  deriving DecidableEq, Repr

/-- The session's daemon: the registry, the ids it has detached, and its connections. -/
structure Daemon where
  /-- The session's runtime is in the live map. -/
  live : Bool
  registry : AttachmentRegistry
  detached : List ℕ
  connections : List Connection
  deriving DecidableEq, Repr

/-- A session without a connection. -/
def Daemon.start : Daemon := ⟨true, ⟨0, []⟩, [], []⟩

/-! ### The handler on the session's daemon -/

section Handler

variable (d : Daemon)

/-- An attachment is registered, if the runtime is still there. -/
def attachRegister (kind : AttachKind) (role : AttachRole) (viewport : Option (ℕ × ℕ)) : Option (Daemon × ℕ) :=
  if d.live then
    let (registry, id) := d.registry.register kind role viewport
    some ({ d with registry := registry }, id)
  else none

/-- An id that the registry does not hold is a no-op, and so is a session that is not live. -/
def attachDetach (id : ℕ) : Daemon :=
  if d.live ∧ d.registry.contains id then
    { d with registry := d.registry.unregister id, detached := d.detached ++ [id] }
  else d

/-- The end of a serve loop: on the local arm the detach message detaches, and the cleanup does again. -/
def cleanup (kind : AttachKind) (e : Exit) (id : ℕ) : Daemon :=
  match kind, e with
  | .web, .detach => attachDetach (attachDetach d id) id
  | _, _ => attachDetach d id

/-- What a handler does next. -/
inductive HandlerAction where
  | register
  | subscribed (ok : Bool)
  | greeted (ok : Bool)
  | exits (e : Exit)
  deriving DecidableEq, Repr

def handlerStep (kind : AttachKind) : Phase → HandlerAction → Option (Daemon × Phase × List Reply)
  | .registering req, .register =>
    match req.roleAs kind with
    | none => some (d, .returned none, [.over])
    | some role =>
      match attachRegister d kind role req.viewport with
      | none => some (d, .returned none, [.over])
      | some (d', id) => some (d', .subscribing id, [])
  | .subscribing id, .subscribed true => some (d, .greeting id, [])
  | .subscribing id, .subscribed false => some (attachDetach d id, .returned (some id), [.over])
  | .greeting id, .greeted true => some (d, .serving id, [.init])
  | .greeting id, .greeted false => some (d, .returned (some id), [.over])
  | .serving id, .exits e => some (cleanup d kind e id, .returned (some id), [.over])
  | _, _ => none

end Handler

/-! ### The relayed handler -/

/-- What a front does next. -/
inductive FrontAction where
  | opened (ok : Bool)
  /-- The first frame is awaited before anything else. -/
  | first
  | greeted (ok : Bool)
  | send
  | exits (e : Exit)
  deriving DecidableEq, Repr

/-- A message of the stream; it goes nowhere once the channel is lost. -/
def Front.send (f : Front) (m : Message) : Front :=
  if f.lost then f else { f with toNode := f.toNode ++ [m] }

/-- Replies go to the front, unless its daemon is lost. -/
def Front.reply (f : Front) (rs : List Reply) : Front :=
  if f.lost then f else { f with fromNode := f.fromNode ++ rs }

/-- Of the exits only a detach says so to the owning node; the others drop what is pending. -/
def frontStep (f : Front) : FrontAction → Option Front
  | .opened ok =>
    match f.phase with
    | .opening req =>
      some (if ok then { f with phase := .waiting, toNode := [.subscribe req] } else { f with phase := .returned })
    | _ => none
  | .first =>
    match f.phase, f.fromNode with
    | .waiting, .init :: rest => some { f with phase := .greeting, fromNode := rest }
    | .waiting, .over :: rest => some { f with phase := .returned, fromNode := rest }
    | _, _ => none
  | .greeted ok =>
    if f.phase = .greeting then some { f with phase := if ok then .serving else .returned } else none
  | .send => if f.phase = .serving then some (f.send .input) else none
  | .exits e =>
    if f.phase = .serving then
      match e, f.fromNode with
      | .ended, [] => none
      | .ended, _ :: rest => some { f with phase := .returned, fromNode := rest }
      | .detach, _ => some { f.send .detach with phase := .returned }
      | _, _ => some { f with phase := .returned }
    else none

/-! ### The daemon -/

/-- What may happen next. -/
inductive Action where
  | connect (kind : AttachKind) (req : Subscribe)
  /-- A WebSocket on another daemon, for this session. -/
  | relay (req : Subscribe)
  /-- The runtime leaves the live map. -/
  | evict
  | handler (i : ℕ) (a : HandlerAction)
  | front (i : ℕ) (a : FrontAction)
  /-- The owning node takes the next message. -/
  | deliver (i : ℕ)
  /-- The channel is lost with all but the first messages: the link breaks, or the node's relay task ends. -/
  | lose (i : ℕ) (kept : ℕ)
  deriving DecidableEq, Repr

/-- The handler of a relayed connection learns of its client from the channel alone. -/
def Connection.allows (c : Connection) : HandlerAction → Bool
  | .exits .detach | .exits .disconnect => c.front.isNone
  | _ => true

def Daemon.put (d : Daemon) (i : ℕ) (c : Connection) : Daemon :=
  { d with connections := d.connections.set i c }

/-- The handler of the `i`th connection takes the action; the front is `f` but for the reply. -/
def Daemon.handle (d : Daemon) (i : ℕ) (c : Connection) (f : Option Front) (a : HandlerAction) : Option Daemon :=
  (handlerStep d c.kind c.phase a).map fun (d', phase, replies) =>
    d'.put i { c with phase := phase, front := f.map (·.reply replies) }

/-- The node gets the front's oldest message. -/
def Daemon.deliver (d : Daemon) (i : ℕ) (c : Connection) (f : Front) : Option Daemon :=
  match f.toNode with
  | [] => none
  | m :: rest =>
    let f' : Front := { f with toNode := rest }
    match c.phase with
    | .idle =>
      match m with
      | .subscribe req => some (d.put i { c with phase := .registering req, front := some f' })
      | .eof => some (d.put i { c with phase := .returned none, front := some f' })
      | .input | .detach => none
    | .serving _ =>
      match m with
      | .input => some (d.put i { c with front := some f' })
      | .detach => d.handle i c (some f') (.exits .detach)
      | .eof => d.handle i c (some f') (.exits .disconnect)
      | .subscribe _ => none
    | .returned _ => some (d.put i { c with front := some f' })
    | .registering _ | .subscribing _ | .greeting _ => none

def Daemon.step (d : Daemon) : Action → Option Daemon
  | .connect kind req => some { d with connections := d.connections ++ [⟨kind, .registering req, none⟩] }
  | .relay req =>
    let req : Subscribe := ⟨none, req.rows.filter (0 < ·), req.cols.filter (0 < ·), none⟩
    some { d with connections := d.connections ++ [⟨.cli, .idle, some ⟨.opening req, [], [], false⟩⟩] }
  | .evict => some { d with live := false }
  | .handler i a => d.connections[i]?.bind fun c => if c.allows a then d.handle i c c.front a else none
  | .front i a => d.connections[i]?.bind fun c => c.front.bind fun f =>
    (frontStep f a).map fun f' => d.put i { c with front := some f' }
  | .deliver i => d.connections[i]?.bind fun c => c.front.bind fun f => d.deliver i c f
  | .lose i kept => d.connections[i]?.bind fun c => c.front.bind fun f =>
    match f.phase, f.lost with
    | .opening _, _ | _, true => none
    | _, false => some (d.put i { c with front := some { f with
        toNode := f.toNode.take kept ++ [.eof], fromNode := f.fromNode ++ [.over], lost := true } })

/-! ### What is asked of a run -/

def Phase.isReturned : Phase → Bool
  | returned _ => true
  | _ => false

/-- The attachment that a handler has registered. -/
def Phase.attachment? : Phase → Option ℕ
  | subscribing id | greeting id | serving id => some id
  | returned id => id
  | idle | registering _ => none

/-- The owning node's side has ended, or will on its own. -/
def gone (p : Phase) (f : Front) : Prop := p.isReturned = true ∨ Message.eof ∈ f.toNode

instance (p : Phase) (f : Front) : Decidable (gone p f) := by unfold gone; infer_instance

/-- The handler is through, as far as a front of it can tell. -/
def Connection.gone (c : Connection) : Prop := ∀ f ∈ c.front, Attachments.gone c.phase f

instance (c : Connection) : Decidable c.gone := by unfold Connection.gone; infer_instance

/-- No init frame fails to be written, a relayed client leaves by a detach unless the owning node's side
has ended, and the runtime stays while anything is attached to it. -/
def Guarded (d : Daemon) : Action → Prop
  | .evict => d.registry.attachments = []
  | .handler _ (.greeted ok) => ok = true
  | .front i (.greeted ok) => ok = true ∨ ∀ c ∈ d.connections[i]?, c.gone
  | .front i (.exits e) => e = .detach ∨ e = .ended ∨ ∀ c ∈ d.connections[i]?, c.gone
  | _ => True

instance (d : Daemon) (a : Action) : Decidable (Guarded d a) := by
  unfold Guarded
  split <;> infer_instance

/-- The connection's handler has returned, and what it sent is processed. -/
def Connection.settled (c : Connection) : Prop :=
  match c.front with
  | none => c.phase.isReturned = true
  | some f => f.phase = .returned ∧ f.toNode = []

instance (c : Connection) : Decidable c.settled := by
  unfold Connection.settled
  split <;> infer_instance

/-- What is to hold of attachments. -/
structure Accounted (d : Daemon) : Prop where
  /-- A handler that has returned has detached what it registered. -/
  returned : ∀ c ∈ d.connections, ∀ id, c.phase = .returned (some id) → d.detached.count id = 1
  /-- And so it is on the owning node. -/
  settled : ∀ c ∈ d.connections, c.settled → ∀ id, c.phase.attachment? = some id → d.detached.count id = 1
  /-- With no client connected, the registry is empty. -/
  empty : (∀ c ∈ d.connections, c.settled) → d.registry.attachments = []

/-! ### The books -/

/-- The attachment that a handler holds. -/
def Phase.holding? : Phase → Option ℕ
  | subscribing id | greeting id | serving id => some id
  | _ => none

/-- The attachment that a handler held. -/
def Phase.held? : Phase → Option ℕ
  | returned id => id
  | _ => none

def holding (cs : List Connection) (id : ℕ) : ℕ := cs.countP fun c => c.phase.holding? = some id

/-- How many have held one and detached it. -/
def held (cs : List Connection) (id : ℕ) : ℕ := cs.countP fun c => c.phase.held? = some id

/-- The registry holds what the handlers hold, and what they held is detached. -/
structure Books (live : Bool) (r : AttachmentRegistry) (detached : List ℕ) (cs : List Connection) : Prop where
  active : ∀ id, r.ids.count id = holding cs id
  detached : ∀ id, detached.count id = held cs id
  once : ∀ id, holding cs id + held cs id ≤ 1
  fresh : ∀ id, r.nextId < id → holding cs id + held cs id = 0
  evicted : live = false → r.attachments = []

section Lists

variable {α : Type*} {l : List α} {i : ℕ} {a b : α}

/-- An entry counts by what it is, and the others as before. -/
theorem countP_set_add (p : α → Bool) (h : l[i]? = some a) :
    (l.set i b).countP p + (if p a then 1 else 0) = l.countP p + (if p b then 1 else 0) := by
  obtain ⟨hi, rfl⟩ := List.getElem?_eq_some_iff.mp h
  rw [List.countP_set hi]
  by_cases hp : p l[i] = true
  · have hpos : 0 < l.countP p := List.countP_pos_iff.mpr ⟨_, List.getElem_mem hi, hp⟩
    rw [if_pos hp]
    omega
  · rw [if_neg hp]
    omega

theorem forall_mem_set {P : α → Prop} (h : ∀ x ∈ l, P x) (hb : P b) : ∀ x ∈ l.set i b, P x := by
  intro x hx
  rcases List.mem_or_eq_of_mem_set hx with hx | rfl
  · exact h x hx
  · exact hb

end Lists

namespace AttachmentRegistry

theorem ids_register (r : AttachmentRegistry) (kind : AttachKind) (role : AttachRole) (viewport : Option (ℕ × ℕ)) :
    (r.register kind role viewport).1.ids = (r.nextId + 1) :: r.ids := rfl

theorem ids_unregister (r : AttachmentRegistry) (id : ℕ) : (r.unregister id).ids = r.ids.filter (· ≠ id) := by
  simp [ids, unregister, List.filter_map, Function.comp_def]

theorem count_unregister (r : AttachmentRegistry) (id i : ℕ) :
    (r.unregister id).ids.count i = if i = id then 0 else r.ids.count i := by
  rw [ids_unregister]
  split_ifs with h
  · subst h
    exact List.count_eq_zero.mpr (by simp)
  · exact List.count_filter (by simpa using h)

theorem contains_unregister (r : AttachmentRegistry) (id : ℕ) : (r.unregister id).contains id = false := by
  simp [contains, ids_unregister]

end AttachmentRegistry

/-- What a handler did: it was turned away, it registered, it went on, it detached and returned, or it
returned and left its attachment. -/
inductive Move (d : Daemon) : Phase → HandlerAction → Daemon → Phase → List Reply → Prop where
  | refused {req : Subscribe} : Move d (.registering req) .register d (.returned none) [.over]
  | registered {req : Subscribe} (kind : AttachKind) (role : AttachRole) (viewport : Option (ℕ × ℕ))
    (hlive : d.live = true) :
    Move d (.registering req) .register { d with registry := (d.registry.register kind role viewport).1 }
      (.subscribing (d.registry.nextId + 1)) []
  | subscribed {id : ℕ} : Move d (.subscribing id) (.subscribed true) d (.greeting id) []
  | failed {id : ℕ} : Move d (.subscribing id) (.subscribed false) (attachDetach d id) (.returned (some id)) [.over]
  | greeted {id : ℕ} : Move d (.greeting id) (.greeted true) d (.serving id) [.init]
  | left {id : ℕ} : Move d (.greeting id) (.greeted false) d (.returned (some id)) [.over]
  | exited {id : ℕ} (e : Exit) : Move d (.serving id) (.exits e) (attachDetach d id) (.returned (some id)) [.over]

section Handler

variable {d d' : Daemon} {kind : AttachKind} {p p' : Phase} {a : HandlerAction} {rs : List Reply}

/-- A second detach of the same attachment changes nothing. -/
theorem attachDetach_twice (d : Daemon) (id : ℕ) : attachDetach (attachDetach d id) id = attachDetach d id := by
  by_cases h : d.live ∧ d.registry.contains id
  · have hdetached : attachDetach d id =
        { d with registry := d.registry.unregister id, detached := d.detached ++ [id] } := if_pos h
    rw [hdetached]
    exact if_neg fun hagain => Bool.false_ne_true ((d.registry.contains_unregister id).symm.trans hagain.2)
  · have hsame : attachDetach d id = d := if_neg h
    rw [hsame, hsame]

theorem cleanup_eq (d : Daemon) (kind : AttachKind) (e : Exit) (id : ℕ) : cleanup d kind e id = attachDetach d id := by
  unfold cleanup
  split
  · exact attachDetach_twice d id
  · rfl

theorem move_of_handlerStep (h : handlerStep d kind p a = some (d', p', rs)) : Move d p a d' p' rs := by
  unfold handlerStep at h
  split at h
  · rename_i req
    split at h
    · obtain ⟨rfl, rfl, rfl⟩ := by simpa only [Option.some.injEq, Prod.mk.injEq] using h
      exact .refused
    · rename_i role hrole
      split at h
      · obtain ⟨rfl, rfl, rfl⟩ := by simpa only [Option.some.injEq, Prod.mk.injEq] using h
        exact .refused
      · rename_i d₁ id hregister
        unfold attachRegister at hregister
        split_ifs at hregister with hlive
        obtain ⟨rfl, rfl⟩ := Prod.mk.inj (Option.some.inj hregister)
        obtain ⟨rfl, rfl, rfl⟩ := by simpa only [Option.some.injEq, Prod.mk.injEq] using h
        exact .registered kind role req.viewport hlive
  · obtain ⟨rfl, rfl, rfl⟩ := by simpa only [Option.some.injEq, Prod.mk.injEq] using h
    exact .subscribed
  · obtain ⟨rfl, rfl, rfl⟩ := by simpa only [Option.some.injEq, Prod.mk.injEq] using h
    exact .failed
  · obtain ⟨rfl, rfl, rfl⟩ := by simpa only [Option.some.injEq, Prod.mk.injEq] using h
    exact .greeted
  · obtain ⟨rfl, rfl, rfl⟩ := by simpa only [Option.some.injEq, Prod.mk.injEq] using h
    exact .left
  · rename_i id e
    rw [cleanup_eq] at h
    obtain ⟨rfl, rfl, rfl⟩ := by simpa only [Option.some.injEq, Prod.mk.injEq] using h
    exact .exited e
  · cases h

end Handler

section Books

variable {live : Bool} {r : AttachmentRegistry} {out : List ℕ} {cs : List Connection} {i : ℕ} {c c' : Connection} {id : ℕ}

theorem holding_set (hc : cs[i]? = some c) (j : ℕ) :
    holding (cs.set i c') j + (if c.phase.holding? = some j then 1 else 0) =
      holding cs j + (if c'.phase.holding? = some j then 1 else 0) := by
  simpa only [holding, decide_eq_true_eq] using
    countP_set_add (fun c : Connection => decide (c.phase.holding? = some j)) hc

theorem held_set (hc : cs[i]? = some c) (j : ℕ) :
    held (cs.set i c') j + (if c.phase.held? = some j then 1 else 0) =
      held cs j + (if c'.phase.held? = some j then 1 else 0) := by
  simpa only [held, decide_eq_true_eq] using
    countP_set_add (fun c : Connection => decide (c.phase.held? = some j)) hc

theorem holding_pos (hc : cs[i]? = some c) (h : c.phase.holding? = some id) : 0 < holding cs id :=
  List.countP_pos_iff.mpr ⟨c, List.mem_of_getElem? hc, decide_eq_true h⟩

theorem held_pos (hc : c ∈ cs) (h : c.phase.held? = some id) : 0 < held cs id :=
  List.countP_pos_iff.mpr ⟨c, hc, decide_eq_true h⟩

theorem books_start : Books true ⟨0, []⟩ [] [] :=
  ⟨fun _ => rfl, fun _ => rfl, fun _ => Nat.zero_le 1, fun _ _ => rfl, fun h => by cases h⟩

namespace Books

/-- A connection that holds and held what it did before. -/
theorem set (h : Books live r out cs) (hc : cs[i]? = some c) (hholding : c'.phase.holding? = c.phase.holding?)
    (hheld : c'.phase.held? = c.phase.held?) : Books live r out (cs.set i c') := by
  have hset : ∀ j, holding (cs.set i c') j = holding cs j := fun j =>
    Nat.add_right_cancel ((holding_set hc j).trans (by rw [hholding]))
  have hset' : ∀ j, held (cs.set i c') j = held cs j := fun j =>
    Nat.add_right_cancel ((held_set hc j).trans (by rw [hheld]))
  refine ⟨fun j => ?_, fun j => ?_, fun j => ?_, fun j hj => ?_, h.evicted⟩
  · rw [hset]
    exact h.active j
  · rw [hset']
    exact h.detached j
  · rw [hset, hset']
    exact h.once j
  · rw [hset, hset']
    exact h.fresh j hj

/-- A new connection holds nothing yet. -/
theorem connect (h : Books live r out cs) (hholding : c.phase.holding? = none) (hheld : c.phase.held? = none) :
    Books live r out (cs ++ [c]) := by
  have happ : ∀ j, holding (cs ++ [c]) j = holding cs j := fun j => by
    simp [holding, List.countP_append, hholding]
  have happ' : ∀ j, held (cs ++ [c]) j = held cs j := fun j => by
    simp [held, List.countP_append, hheld]
  refine ⟨fun j => ?_, fun j => ?_, fun j => ?_, fun j hj => ?_, h.evicted⟩
  · rw [happ]
    exact h.active j
  · rw [happ']
    exact h.detached j
  · rw [happ, happ']
    exact h.once j
  · rw [happ, happ']
    exact h.fresh j hj

/-- A registration takes an id that nothing holds or held. -/
theorem register (h : Books live r out cs) (hc : cs[i]? = some c) (hlive : live = true) (hholding : c.phase.holding? = none)
    (hheld : c.phase.held? = none) (kind : AttachKind) (role : AttachRole) (viewport : Option (ℕ × ℕ))
    (hholding' : c'.phase.holding? = some (r.nextId + 1)) (hheld' : c'.phase.held? = none) :
    Books live (r.register kind role viewport).1 out (cs.set i c') := by
  have hset : ∀ j, holding (cs.set i c') j = holding cs j + if r.nextId + 1 = j then 1 else 0 := fun j => by
    simpa [hholding, hholding'] using (holding_set hc j : holding (cs.set i c') j + _ = _)
  have hset' : ∀ j, held (cs.set i c') j = held cs j := fun j => by
    simpa [hheld, hheld'] using (held_set hc j : held (cs.set i c') j + _ = _)
  refine ⟨fun j => ?_, fun j => ?_, fun j => ?_, fun j hj => ?_, fun hdead => by rw [hlive] at hdead; cases hdead⟩
  · rw [AttachmentRegistry.ids_register, List.count_cons, h.active j, hset]
    simp only [beq_iff_eq]
  · rw [hset']
    exact h.detached j
  · rw [hset, hset']
    split_ifs with hj
    · have := h.fresh j (hj ▸ Nat.lt_succ_self _)
      omega
    · exact h.once j
  · have hlt : r.nextId + 1 < j := hj
    rw [hset, hset', if_neg (Nat.ne_of_lt hlt)]
    exact h.fresh j (Nat.lt_of_succ_lt hlt)

/-- What a connection holds is in the registry of a live session. -/
theorem contains (h : Books live r out cs) (hc : cs[i]? = some c) (hholding : c.phase.holding? = some id) :
    live = true ∧ r.contains id = true := by
  have hmem : id ∈ r.ids := List.count_pos_iff.mp ((h.active id).symm ▸ holding_pos hc hholding)
  refine ⟨?_, List.contains_iff_mem.mpr hmem⟩
  by_contra hdead
  have hempty := h.evicted (eq_false_of_ne_true hdead)
  rw [AttachmentRegistry.ids, hempty] at hmem
  cases hmem

/-- A detach moves an attachment from what is held to what was. -/
theorem release (h : Books live r out cs) (hc : cs[i]? = some c) (hholding : c.phase.holding? = some id)
    (hheld : c.phase.held? = none) (hholding' : c'.phase.holding? = none) (hheld' : c'.phase.held? = some id) :
    Books live (r.unregister id) (out ++ [id]) (cs.set i c') := by
  have hset : ∀ j, holding (cs.set i c') j + (if id = j then 1 else 0) = holding cs j := fun j => by
    simpa [hholding, hholding'] using (holding_set hc j : holding (cs.set i c') j + _ = _)
  have hset' : ∀ j, held (cs.set i c') j = held cs j + if id = j then 1 else 0 := fun j => by
    simpa [hheld, hheld'] using (held_set hc j : held (cs.set i c') j + _ = _)
  have hlive := (h.contains hc hholding).1
  refine ⟨fun j => ?_, fun j => ?_, fun j => ?_, fun j hj => ?_, fun hdead => by rw [hlive] at hdead; cases hdead⟩
  · rw [AttachmentRegistry.count_unregister, h.active j]
    have hthis := hset j
    by_cases hj : id = j
    · subst hj
      have := h.once id
      rw [if_pos rfl] at hthis ⊢
      omega
    · rw [if_neg hj] at hthis
      rw [if_neg (Ne.symm hj)]
      exact hthis.symm
  · rw [hset', List.count_append, List.count_singleton, h.detached j]
    simp only [beq_iff_eq]
  · have := h.once j
    have := hset j
    rw [hset']
    omega
  · have := h.fresh j hj
    have := hset j
    rw [hset']
    omega

/-- **The registry and the handlers agree.** What a handler does keeps the books, except to leave with an
init frame that could not be written. -/
theorem move {d d' : Daemon} {p' : Phase} {a : HandlerAction} {rs : List Reply} {f : Option Front}
    (h : Books d.live d.registry d.detached d.connections) (hc : d.connections[i]? = some c)
    (hmove : Move d c.phase a d' p' rs) (hsent : a ≠ .greeted false) :
    Books d'.live d'.registry d'.detached (d'.connections.set i { c with phase := p', front := f }) := by
  have hrelease : ∀ id, c.phase.holding? = some id → c.phase.held? = none →
      Books (attachDetach d id).live (attachDetach d id).registry (attachDetach d id).detached
        ((attachDetach d id).connections.set i { c with phase := .returned (some id), front := f }) := by
    intro id hholding hheld
    rw [attachDetach, if_pos (h.contains hc hholding)]
    exact h.release hc hholding hheld rfl rfl
  generalize hp : c.phase = p at hmove
  cases hmove with
  | refused => exact h.set hc (by rw [hp]; rfl) (by rw [hp]; rfl)
  | registered kind role viewport hlive =>
    exact h.register hc hlive (by rw [hp]; rfl) (by rw [hp]; rfl) kind role viewport rfl rfl
  | subscribed => exact h.set hc (by rw [hp]; rfl) (by rw [hp]; rfl)
  | failed => exact hrelease _ (by rw [hp]; rfl) (by rw [hp]; rfl)
  | greeted => exact h.set hc (by rw [hp]; rfl) (by rw [hp]; rfl)
  | left => exact absurd rfl hsent
  | exited e => exact hrelease _ (by rw [hp]; rfl) (by rw [hp]; rfl)

end Books

end Books

/-! ### The channel of a relayed attach -/

/-- The front has had the init frame, and has not returned. -/
def FrontPhase.greeted : FrontPhase → Bool
  | greeting | serving => true
  | _ => false

/-- The handler has written the init frame, or never will. -/
def Phase.started : Phase → Bool
  | serving _ | returned _ => true
  | _ => false

/-- What holds of a front and its handler. -/
structure FrontInv (p : Phase) (f : Front) : Prop where
  opening : ∀ req, f.phase = .opening req → f = ⟨.opening req, [], [], false⟩ ∧ p = .idle
  finished : Reply.over ∈ f.fromNode → gone p f
  /-- There is one init frame. -/
  init : f.fromNode.count .init + (if f.phase.greeted then 1 else 0) ≤ if p.started then 1 else 0
  /-- A front that has returned has left word, unless there is nobody to leave it to. -/
  left : f.phase = .returned → gone p f ∨ Message.detach ∈ f.toNode ∨ f.toNode = [] ∧ p = .idle
  lost : f.lost = true → gone p f

section Channel

variable {d d' : Daemon} {p p' : Phase} {f f' : Front} {rs : List Reply}

theorem gone_returned (id : Option ℕ) (f : Front) : gone (.returned id) f := .inl rfl

/-- As long as the handler has not returned, only the end of the channel tells that it will. -/
theorem eof_of_gone (h : gone p f) (hp : p.isReturned = false) : Message.eof ∈ f.toNode :=
  h.resolve_left (by rw [hp]; exact Bool.false_ne_true)

@[simp] theorem Front.phase_reply (f : Front) (rs : List Reply) : (f.reply rs).phase = f.phase := by
  unfold Front.reply
  split <;> rfl

@[simp] theorem Front.toNode_reply (f : Front) (rs : List Reply) : (f.reply rs).toNode = f.toNode := by
  unfold Front.reply
  split <;> rfl

@[simp] theorem Front.lost_reply (f : Front) (rs : List Reply) : (f.reply rs).lost = f.lost := by
  unfold Front.reply
  split <;> rfl

@[simp] theorem Front.reply_nil (f : Front) : f.reply [] = f := by
  unfold Front.reply
  split
  · rfl
  · rw [List.append_nil]

theorem Front.count_reply_le (f : Front) (rs : List Reply) (r : Reply) :
    (f.reply rs).fromNode.count r ≤ f.fromNode.count r + rs.count r := by
  unfold Front.reply
  split
  · exact Nat.le_add_right _ _
  · exact Nat.le_of_eq List.count_append

namespace FrontInv

/-- Once its handler has returned a connection is in order, whatever is still on its way. -/
theorem returned (h : FrontInv p f) (hphase : ∀ req, f.phase ≠ .opening req) (hrs : rs.count .init = 0) (id : Option ℕ)
    (toNode : List Message) : FrontInv (.returned id) (({ f with toNode := toNode } : Front).reply rs) := by
  refine ⟨fun req hreq => absurd ?_ (hphase req), fun _ => gone_returned _ _, ?_, fun _ => .inl (gone_returned _ _),
    fun _ => gone_returned _ _⟩
  · simpa using hreq
  · have hcount := Front.count_reply_le { f with toNode := toNode } rs .init
    have hinit := h.init
    rw [Front.phase_reply]
    show _ + (if f.phase.greeted then 1 else 0) ≤ 1
    have hle : (if p.started then 1 else 0) ≤ 1 := by split <;> decide
    have hsame : ({ f with toNode := toNode } : Front).fromNode.count .init = f.fromNode.count .init := rfl
    omega

/-- A handler that goes on, with a channel that has lost no detach and no end. -/
theorem advance (h : FrontInv p f) (hp : p.isReturned = false) (hphase : ∀ req, f.phase ≠ .opening req)
    (hidle : ¬ (f.toNode = [] ∧ p = .idle)) {toNode : List Message} (heof : Message.eof ∈ f.toNode → Message.eof ∈ toNode)
    (hdetach : Message.detach ∈ f.toNode → Message.detach ∈ toNode) (hover : Reply.over ∉ rs)
    (hinit : rs.count .init + (if p.started then 1 else 0) ≤ if p'.started then 1 else 0) :
    FrontInv p' (({ f with toNode := toNode } : Front).reply rs) := by
  have hgone : gone p f → gone p' (({ f with toNode := toNode } : Front).reply rs) := fun hg =>
    .inr (by rw [Front.toNode_reply]; exact heof (eof_of_gone hg hp))
  refine ⟨fun req hreq => ?_, fun ho => hgone (h.finished ?_), ?_, fun hret => ?_, fun hl => hgone (h.lost ?_)⟩
  · rw [Front.phase_reply] at hreq
    exact absurd hreq (hphase req)
  · by_contra hnot
    have hcount := Front.count_reply_le { f with toNode := toNode } rs .over
    rw [List.count_eq_zero.mpr hover] at hcount
    have hzero : ({ f with toNode := toNode } : Front).fromNode.count .over = 0 := List.count_eq_zero.mpr hnot
    have hpos := List.count_pos_iff.mpr ho
    omega
  · have hcount := Front.count_reply_le { f with toNode := toNode } rs .init
    have hsame : ({ f with toNode := toNode } : Front).fromNode.count .init = f.fromNode.count .init := rfl
    have hle := h.init
    rw [Front.phase_reply]
    show _ + (if f.phase.greeted then 1 else 0) ≤ _
    omega
  · rw [Front.phase_reply] at hret
    rw [Front.toNode_reply]
    rcases h.left hret with hg | hd | hi
    · exact .inl (hgone hg)
    · exact .inr (.inl (hdetach hd))
    · exact absurd hi hidle
  · rwa [Front.lost_reply] at hl

/-- What a handler does on its own. -/
theorem move {a : HandlerAction} (h : FrontInv p f) (hmove : Move d p a d' p' rs) : FrontInv p' (f.reply rs) := by
  -- a front that is opening has a handler that has not begun
  have hbegun : p ≠ .idle → ∀ req, f.phase ≠ .opening req := fun hp req hreq => hp (h.opening req hreq).2
  cases hmove with
  | refused => exact h.returned (hbegun nofun) rfl none f.toNode
  | registered => exact h.advance rfl (hbegun nofun) (fun hi => by cases hi.2) id id nofun (Nat.le_refl _)
  | subscribed => exact h.advance rfl (hbegun nofun) (fun hi => by cases hi.2) id id nofun (Nat.le_refl _)
  | failed => exact h.returned (hbegun nofun) rfl _ f.toNode
  | greeted => exact h.advance rfl (hbegun nofun) (fun hi => by cases hi.2) id id (by decide) (Nat.le_refl _)
  | left => exact h.returned (hbegun nofun) rfl _ f.toNode
  | exited e => exact h.returned (hbegun nofun) rfl _ f.toNode

/-- A message of the serve loop. -/
theorem send (h : FrontInv p f) (hphase : f.phase = .serving) (m : Message) : FrontInv p (f.send m) := by
  unfold Front.send
  split
  · exact h
  · refine ⟨fun req hreq => ?_, fun ho => ?_, h.init, fun hret => ?_, fun hl => ?_⟩
    · exact absurd (hphase.symm.trans hreq) nofun
    · exact (h.finished ho).imp_right (List.mem_append_left _)
    · exact absurd (hphase.symm.trans hret) nofun
    · exact (h.lost hl).imp_right (List.mem_append_left _)

/-- The front returns, having left word or with nobody to leave it to. -/
theorem leave (h : FrontInv p f) (hleft : gone p f ∨ Message.detach ∈ f.toNode) {fromNode : List Reply}
    (hover : Reply.over ∈ fromNode → Reply.over ∈ f.fromNode) (hinit : fromNode.count .init ≤ f.fromNode.count .init) :
    FrontInv p { f with phase := .returned, fromNode := fromNode } := by
  refine ⟨nofun, fun ho => h.finished (hover ho), ?_, fun _ => hleft.imp_right .inl, h.lost⟩
  calc fromNode.count .init + 0 ≤ f.fromNode.count .init + (if f.phase.greeted then 1 else 0) :=
        Nat.add_le_add hinit (Nat.zero_le _)
    _ ≤ if p.started then 1 else 0 := h.init

/-- Once the init frame has been taken, the next frame is the last. -/
theorem over_of_greeted (h : FrontInv p f) (hphase : f.phase = .serving) {r : Reply} {rest : List Reply}
    (hfrom : f.fromNode = r :: rest) : gone p f := by
  have hinit := h.init
  by_cases hr : r = .over
  · exact h.finished (by rw [hfrom, hr]; exact List.mem_cons_self)
  · have hr : r = .init := by
      cases r
      · rfl
      · exact absurd rfl hr
    rw [hfrom, hphase, hr, List.count_cons_self] at hinit
    have hle : (if p.started then 1 else 0) ≤ 1 := by split <;> decide
    have hone : (if FrontPhase.greeted .serving = true then 1 else 0) = 1 := rfl
    omega

/-- What the front does: it leaves word, or there is nobody to leave it to. -/
theorem front {a : FrontAction} (h : FrontInv p f) (hstep : frontStep f a = some f')
    (hgreeted : ∀ ok, a = .greeted ok → ok = true ∨ gone p f)
    (hexits : ∀ e, a = .exits e → e = .detach ∨ e = .ended ∨ gone p f) : FrontInv p f' := by
  cases a with
  | opened ok =>
    simp only [frontStep] at hstep
    split at hstep
    · rename_i req hreq
      obtain ⟨hf, rfl⟩ := h.opening req hreq
      rw [hf] at hstep
      cases ok with
      | true =>
        cases hstep
        exact ⟨nofun, nofun, Nat.le_refl 0, nofun, nofun⟩
      | false =>
        cases hstep
        exact ⟨nofun, nofun, Nat.le_refl 0, fun _ => .inr (.inr ⟨rfl, rfl⟩), nofun⟩
    · cases hstep
  | first =>
    simp only [frontStep] at hstep
    have hinit := h.init
    split at hstep
    · rename_i rest hphase hfrom
      cases hstep
      refine ⟨nofun, fun ho => h.finished ?_, ?_, nofun, h.lost⟩
      · rw [hfrom]
        exact List.mem_cons_of_mem _ ho
      · rw [hphase, hfrom, List.count_cons_self] at hinit
        exact hinit
    · rename_i rest hphase hfrom
      cases hstep
      refine h.leave (.inl (h.finished (by rw [hfrom]; exact List.mem_cons_self))) (fun ho => ?_) ?_
      · rw [hfrom]
        exact List.mem_cons_of_mem _ ho
      · rw [hfrom]
        exact List.count_le_count_cons
    · cases hstep
  | greeted ok =>
    simp only [frontStep] at hstep
    by_cases hphase : f.phase = .greeting
    · rw [if_pos hphase] at hstep
      cases ok with
      | true =>
        cases hstep
        have hinit := h.init
        rw [hphase] at hinit
        exact ⟨nofun, h.finished, hinit, nofun, h.lost⟩
      | false =>
        cases hstep
        exact h.leave (.inl ((hgreeted false rfl).resolve_left Bool.false_ne_true)) id (Nat.le_refl _)
    · rw [if_neg hphase] at hstep
      cases hstep
  | send =>
    simp only [frontStep] at hstep
    split_ifs at hstep with hphase
    cases hstep
    exact h.send hphase .input
  | exits e =>
    simp only [frontStep] at hstep
    split_ifs at hstep with hphase
    split at hstep
    · cases hstep
    · rename_i r rest hfrom
      cases hstep
      refine h.leave (.inl (h.over_of_greeted hphase hfrom)) (fun ho => ?_) ?_
      · rw [hfrom]
        exact List.mem_cons_of_mem _ ho
      · rw [hfrom]
        exact List.count_le_count_cons
    · cases hstep
      refine (h.send hphase .detach).leave ?_ id (Nat.le_refl _)
      by_cases hlost : f.lost = true
      · have hsame : f.send .detach = f := if_pos hlost
        rw [hsame]
        exact .inl (h.lost hlost)
      · have hsent : f.send .detach = { f with toNode := f.toNode ++ [.detach] } := if_neg hlost
        rw [hsent]
        exact .inr (List.mem_append_right _ List.mem_cons_self)
    · rename_i hdetach hempty hcons
      cases hstep
      rcases hexits _ rfl with he | he | hgone
      · exact (hdetach he).elim
      · rcases hfrom : f.fromNode with _ | ⟨r, rest⟩
        · exact (hempty he hfrom).elim
        · exact (hcons r rest he hfrom).elim
      · exact h.leave (.inl hgone) id (Nat.le_refl _)

/-- The channel is lost. -/
theorem lose (h : FrontInv p f) (hphase : ∀ req, f.phase ≠ .opening req) (kept : ℕ) :
    FrontInv p { f with toNode := f.toNode.take kept ++ [.eof], fromNode := f.fromNode ++ [.over], lost := true } := by
  have hgone : ∀ g : Front, g.toNode = f.toNode.take kept ++ [.eof] → gone p g := fun g hg =>
    .inr (hg ▸ List.mem_append_right _ List.mem_cons_self)
  refine ⟨fun req hreq => absurd hreq (hphase req), fun _ => hgone _ rfl, ?_, fun _ => .inl (hgone _ rfl),
    fun _ => hgone _ rfl⟩
  rw [List.count_append]
  exact h.init

end FrontInv

end Channel

/-! ### Runs -/

/-- What holds of a daemon in a guarded run. -/
structure DaemonInv (d : Daemon) : Prop where
  books : Books d.live d.registry d.detached d.connections
  fronts : ∀ c ∈ d.connections, ∀ f ∈ c.front, FrontInv c.phase f

section Runs

variable {d d' : Daemon} {i : ℕ} {c : Connection}

theorem daemonInv_start : DaemonInv Daemon.start :=
  ⟨books_start, fun _ hc => absurd hc List.not_mem_nil⟩

theorem attachDetach_connections (d : Daemon) (id : ℕ) : (attachDetach d id).connections = d.connections := by
  unfold attachDetach
  split <;> rfl

/-- A handler sees to its own connection. -/
theorem Move.connections {p p' : Phase} {a : HandlerAction} {rs : List Reply} (h : Move d p a d' p' rs) :
    d'.connections = d.connections := by
  cases h with
  | failed => exact attachDetach_connections d _
  | exited e => exact attachDetach_connections d _
  | refused | registered | subscribed | greeted | left => rfl

/-- One connection changes, and holds what it held. -/
theorem DaemonInv.put (h : DaemonInv d) (hc : d.connections[i]? = some c) {c' : Connection}
    (hholding : c'.phase.holding? = c.phase.holding?) (hheld : c'.phase.held? = c.phase.held?)
    (hfront : ∀ f ∈ c'.front, FrontInv c'.phase f) : DaemonInv (d.put i c') :=
  ⟨h.books.set hc hholding hheld, forall_mem_set h.fronts hfront⟩

/-- A handler takes an action. -/
theorem DaemonInv.handle (h : DaemonInv d) (hc : d.connections[i]? = some c) {a : HandlerAction} {f : Option Front}
    (hstep : d.handle i c f a = some d') (hsent : a ≠ .greeted false)
    (hfront : ∀ {d₁ p' rs}, Move d c.phase a d₁ p' rs → ∀ g ∈ f, FrontInv p' (g.reply rs)) : DaemonInv d' := by
  obtain ⟨⟨d₁, p', rs⟩, hhandler, rfl⟩ := Option.map_eq_some_iff.mp hstep
  have hmove := move_of_handlerStep hhandler
  refine ⟨h.books.move hc hmove hsent, forall_mem_set ?_ ?_⟩
  · rw [hmove.connections]
    exact h.fronts
  · intro g hg
    obtain ⟨g, hgf, rfl⟩ := Option.mem_map.mp hg
    exact hfront hmove g hgf

/-- The owning node takes a message. -/
theorem DaemonInv.deliver (h : DaemonInv d) (hc : d.connections[i]? = some c) {f : Front} (hf : c.front = some f)
    (hstep : d.deliver i c f = some d') : DaemonInv d' := by
  have hinv : FrontInv c.phase f := h.fronts c (List.mem_of_getElem? hc) f hf
  unfold Daemon.deliver at hstep
  split at hstep
  · cases hstep
  rename_i m rest hto
  have hphase : ∀ req, f.phase ≠ .opening req := by
    intro req hreq
    rw [(hinv.opening req hreq).1] at hto
    cases hto
  have hidle : ¬ (f.toNode = [] ∧ c.phase = .idle) := fun hi => by
    rw [hto] at hi
    cases hi.1
  -- the front with the rest of its channel, once the handler has returned or has gone on
  have hreturned : ∀ id, ∀ g ∈ some { f with toNode := rest }, FrontInv (.returned id) g := by
    rintro id g ⟨⟩
    simpa only [Front.reply_nil] using hinv.returned hphase List.count_nil id rest
  have hadvance : ∀ p', c.phase.isReturned = false → m ≠ .eof → m ≠ .detach → p'.started = c.phase.started →
      ∀ g ∈ some { f with toNode := rest }, FrontInv p' g := by
    rintro p' hp hm hm' hstarted g ⟨⟩
    have heof : Message.eof ∈ f.toNode → Message.eof ∈ rest := fun hin =>
      (List.mem_cons.mp (hto ▸ hin)).resolve_left hm.symm
    have hdetach : Message.detach ∈ f.toNode → Message.detach ∈ rest := fun hin =>
      (List.mem_cons.mp (hto ▸ hin)).resolve_left hm'.symm
    have hinit : ([] : List Reply).count .init + (if c.phase.started then 1 else 0) ≤ if p'.started then 1 else 0 := by
      rw [hstarted]
      exact Nat.le_of_eq (Nat.zero_add _)
    simpa only [Front.reply_nil] using hinv.advance hp hphase hidle heof hdetach List.not_mem_nil hinit
  -- a handler that serves leaves at a detach or at the end of the channel
  have hleaves : ∀ e, (∃ id, c.phase = .serving id) → d.handle i c (some { f with toNode := rest }) (.exits e) = some d' →
      DaemonInv d' := by
    rintro e ⟨id, hp⟩ hstep
    refine h.handle hc hstep nofun ?_
    rintro d₁ p' rs hmove g ⟨⟩
    rw [hp] at hmove
    cases hmove
    exact hinv.returned hphase rfl _ rest
  rcases hp : c.phase with _ | req | id | id | id | id
  · rcases m with req | _ | _ | _ <;> simp only [hp] at hstep <;> cases hstep
    · exact h.put hc (by rw [hp]; rfl) (by rw [hp]; rfl) (hadvance _ (by rw [hp]; rfl) nofun nofun (by rw [hp]; rfl))
    · exact h.put hc (by rw [hp]; rfl) (by rw [hp]; rfl) (hreturned none)
  · simp only [hp] at hstep
    cases hstep
  · simp only [hp] at hstep
    cases hstep
  · simp only [hp] at hstep
    cases hstep
  · rcases m with req | _ | _ | _ <;> simp only [hp] at hstep
    · cases hstep
    · cases hstep
      exact h.put hc (by rw [hp]) (by rw [hp]) (hadvance _ (by rw [hp]; rfl) nofun nofun (by rw [hp]))
    · exact hleaves .detach ⟨id, hp⟩ hstep
    · exact hleaves .disconnect ⟨id, hp⟩ hstep
  · simp only [hp] at hstep
    cases hstep
    exact h.put hc (by rw [hp]) (by rw [hp]) (hreturned id)

theorem daemonInv_step {a : Action} (h : DaemonInv d) (hguarded : Guarded d a) (hstep : d.step a = some d') :
    DaemonInv d' := by
  cases a with
  | connect kind req =>
    cases hstep
    refine ⟨h.books.connect rfl rfl, fun c hc => ?_⟩
    rcases List.mem_append.mp hc with hc | hc
    · exact h.fronts c hc
    · rw [List.mem_singleton.mp hc]
      exact nofun
  | relay req =>
    cases hstep
    refine ⟨h.books.connect rfl rfl, fun c hc => ?_⟩
    rcases List.mem_append.mp hc with hc | hc
    · exact h.fronts c hc
    · rw [List.mem_singleton.mp hc]
      rintro f ⟨⟩
      exact ⟨fun req hreq => by cases hreq; exact ⟨rfl, rfl⟩, nofun, Nat.le_refl 0, nofun, nofun⟩
  | evict =>
    cases hstep
    exact ⟨⟨h.books.active, h.books.detached, h.books.once, h.books.fresh, fun _ => hguarded⟩, h.fronts⟩
  | handler i a =>
    obtain ⟨c, hc, hstep⟩ := Option.bind_eq_some_iff.mp hstep
    split_ifs at hstep
    refine h.handle hc hstep ?_ ?_
    · rintro rfl
      exact Bool.false_ne_true hguarded
    · exact fun hmove g hg => (h.fronts c (List.mem_of_getElem? hc) g hg).move hmove
  | front i a =>
    obtain ⟨c, hc, hstep⟩ := Option.bind_eq_some_iff.mp hstep
    obtain ⟨f, hf, hstep⟩ := Option.bind_eq_some_iff.mp hstep
    obtain ⟨f', hfront, rfl⟩ := Option.map_eq_some_iff.mp hstep
    refine h.put hc rfl rfl ?_
    rintro g ⟨⟩
    refine (h.fronts c (List.mem_of_getElem? hc) f hf).front hfront ?_ ?_
    · rintro ok rfl
      exact hguarded.imp_right fun hgone => hgone c hc f hf
    · rintro e rfl
      exact hguarded.imp_right fun hrest => hrest.imp_right fun hgone => hgone c hc f hf
  | deliver i =>
    obtain ⟨c, hc, hstep⟩ := Option.bind_eq_some_iff.mp hstep
    obtain ⟨f, hf, hstep⟩ := Option.bind_eq_some_iff.mp hstep
    exact h.deliver hc hf hstep
  | lose i kept =>
    obtain ⟨c, hc, hstep⟩ := Option.bind_eq_some_iff.mp hstep
    obtain ⟨f, hf, hstep⟩ := Option.bind_eq_some_iff.mp hstep
    split at hstep
    · cases hstep
    · cases hstep
    · rename_i hphase
      cases hstep
      refine h.put hc rfl rfl ?_
      rintro g ⟨⟩
      exact (h.fronts c (List.mem_of_getElem? hc) f hf).lose (fun req hreq => hphase req hreq) kept

/-- Of a connection that is settled the handler has returned, or has registered nothing. -/
theorem FrontInv.settled {p : Phase} {f : Front} (h : FrontInv p f) (hphase : f.phase = .returned) (hto : f.toNode = []) :
    p.isReturned = true ∨ p = .idle := by
  rcases h.left hphase with (hret | heof) | hdetach | ⟨-, hidle⟩
  · exact .inl hret
  · rw [hto] at heof
    cases heof
  · rw [hto] at hdetach
    cases hdetach
  · exact .inr hidle

theorem DaemonInv.settled (h : DaemonInv d) (hc : c ∈ d.connections) (hsettled : c.settled) :
    c.phase.holding? = none ∧ c.phase.attachment? = c.phase.held? := by
  have hcases : c.phase.isReturned = true ∨ c.phase = .idle := by
    unfold Connection.settled at hsettled
    split at hsettled
    · exact .inl hsettled
    · rename_i f hf
      exact (h.fronts c hc f hf).settled hsettled.1 hsettled.2
  cases hp : c.phase <;> rw [hp] at hcases <;> first | exact ⟨rfl, rfl⟩ | simp [Phase.isReturned] at hcases

/-- What a handler held has been detached once. -/
theorem DaemonInv.count_detached (h : DaemonInv d) (hc : c ∈ d.connections) {id : ℕ} (hheld : c.phase.held? = some id) :
    d.detached.count id = 1 := by
  have hpos := held_pos hc hheld
  have honce := h.books.once id
  rw [h.books.detached id]
  omega

theorem DaemonInv.accounted (h : DaemonInv d) : Accounted d := by
  refine ⟨fun c hc id hp => ?_, fun c hc hsettled id hid => ?_, fun hall => ?_⟩
  · exact h.count_detached hc (by rw [hp]; rfl)
  · exact h.count_detached hc ((h.settled hc hsettled).2 ▸ hid)
  · rw [← List.map_eq_nil_iff (f := Attachment.id), List.eq_nil_iff_forall_not_mem]
    intro id hmem
    have hpos : 0 < holding d.connections id := h.books.active id ▸ List.count_pos_iff.mpr hmem
    obtain ⟨c, hc, hholding⟩ := List.countP_pos_iff.mp hpos
    rw [(h.settled hc (hall c hc)).1] at hholding
    exact Bool.false_ne_true hholding

end Runs

/-- **Attachments are accounted for.** In a run where no init frame fails to be written, a relayed client
leaves by a detach unless the owning node's side has ended, and the runtime is not evicted while anything
is attached to it, what a handler registered is detached exactly once. Ids do not wrap (`AttachmentRegistry`). -/
theorem attachments_accounted {as : List Action} {d : Daemon} (hrun : Runs.run Daemon.step Daemon.start as = some d)
    (hguarded : Runs.Meets Daemon.step Guarded Daemon.start as) : Accounted d :=
  (Runs.run_invariant_of_meets (I := DaemonInv) daemonInv_step hrun hguarded daemonInv_start).accounted

/-- A relayed client asks to detach, after one of this daemon is gone. -/
def relayedRun : List Action :=
  [.relay ⟨none, some 24, some 80, none⟩, .front 0 (.opened true), .deliver 0, .handler 0 .register,
    .handler 0 (.subscribed true), .handler 0 (.greeted true), .front 0 .first, .front 0 (.greeted true),
    .connect .web ⟨none, some 24, some 80, none⟩, .handler 1 .register, .handler 1 (.subscribed true),
    .handler 1 (.greeted true), .front 0 .send, .front 0 (.exits .detach), .handler 1 (.exits .disconnect),
    .deliver 0, .deliver 0]

theorem attachments_accounted_relayed :
    ∃ d, Runs.run Daemon.step Daemon.start relayedRun = some d ∧ d.detached = [2, 1] ∧ Accounted d := by
  obtain ⟨d, hrun⟩ := Option.isSome_iff_exists.mp (show (Runs.run Daemon.step Daemon.start relayedRun).isSome by decide)
  have hdetached : (Runs.run Daemon.step Daemon.start relayedRun).map (·.detached) = some [2, 1] := by decide
  rw [hrun] at hdetached
  exact ⟨d, hrun, Option.some.inj hdetached, attachments_accounted hrun (by decide)⟩

/-- An init frame that cannot be written, over IPC and over a WebSocket; a relayed client that is gone;
and an eviction under an attached client: each leaves an attachment that is never detached. -/
theorem attachments_left :
    (∀ kind, ∃ d, Runs.run Daemon.step Daemon.start [.connect kind ⟨none, some 24, some 80, none⟩, .handler 0 .register,
      .handler 0 (.subscribed true), .handler 0 (.greeted false)] = some d ∧ ¬ Accounted d) ∧
    (∃ d, Runs.run Daemon.step Daemon.start [.relay ⟨none, some 24, some 80, none⟩, .front 0 (.opened true), .deliver 0,
      .handler 0 .register, .handler 0 (.subscribed true), .handler 0 (.greeted true), .front 0 .first,
      .front 0 (.greeted true), .front 0 (.exits .disconnect)] = some d ∧ ¬ Accounted d) ∧
    ∃ d, Runs.run Daemon.step Daemon.start [.connect .web ⟨none, some 24, some 80, none⟩, .handler 0 .register,
      .handler 0 (.subscribed true), .handler 0 (.greeted true), .evict, .handler 0 (.exits .disconnect)] = some d ∧
      ¬ Accounted d := by
  -- the attachment is the first one, and it has not been detached
  have hleft : ∀ as, (Runs.run Daemon.step Daemon.start as).any (fun d => decide (∃ c ∈ d.connections,
      c.settled ∧ c.phase.attachment? = some 1 ∧ d.detached.count 1 ≠ 1)) = true →
      ∃ d, Runs.run Daemon.step Daemon.start as = some d ∧ ¬ Accounted d := by
    intro as hany
    obtain ⟨d, hrun, hd⟩ := (Option.any_eq_true _ _).mp hany
    obtain ⟨c, hc, hsettled, hid, hcount⟩ := of_decide_eq_true hd
    exact ⟨d, hrun, fun h => hcount (h.settled c hc hsettled 1 hid)⟩
  refine ⟨fun kind => hleft _ ?_, hleft _ (by decide), hleft _ (by decide)⟩
  cases kind <;> decide

end Attachments
end Session
end OpenRelay
