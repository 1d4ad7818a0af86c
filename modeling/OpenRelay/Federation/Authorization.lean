/-
# Authorization of inbound nodes

Which peers may join is persisted (`db.rs`); who is connected is in the registry
(`node/registry.rs`). The node manager changes the persisted configuration, and then
stops the peer's connection (`daemon/node_manager.rs`). A join captures its peer's
configuration before it sends the challenge, and before it registers it reads the
configuration again (`http/nodes.rs`). The manager's whole request and the join's last
check with its registration are under one lock.

Every change of a configuration has a fresh revision, and every connection a fresh
generation. So what a join has captured is not the persisted configuration again once
that has changed (`step_barred`), and a connection is stopped by its own generation only.

Key theorems: `authInv_step`, `authorization_fenced`.
-/
import OpenRelay.Lib.Runs
import OpenRelay.Lib.SortedMap
import OpenRelay.Pty.Signals
import OpenRelay.Session.Upload
import Mathlib.Data.String.Basic
import Mathlib.Data.List.Chain
import Mathlib.Logic.Function.Basic

namespace OpenRelay
namespace Federation
namespace Nodes

/-! ### A peer's configuration -/

/-- The remote peer's role. -/
inductive NodeRole
  | primary
  | secondary
  deriving DecidableEq, Repr

/-- A fresh one is one that was not made before. -/
abbrev Uuid := ℕ

/-- A node's configuration, as a request brings it or a row says it. -/
structure NodeConfig where
  name : String
  role : NodeRole
  key : String
  url : Option String
  asName : Option String
  enabled : Bool
  revision : Uuid
  deriving DecidableEq, Repr

/-- Why a request is refused: its own text, or the database. -/
inductive Error
  | protocol (message : String)
  | database
  deriving DecidableEq, Repr

/-- What the checks read of a parsed URL, and its text. -/
structure Url where
  scheme : String
  host : Option String
  username : String
  password : Option String
  query : Option String
  fragment : Option String
  text : String

/-- The parsers of other crates. -/
structure Parsers where
  /-- The key's line in its one form. -/
  parsePublicKey : String → Except Error String
  parseUrl : String → Except Error Url

def validateName (name : String) : Except Error Unit :=
  if name.isEmpty ∨ 256 < name.utf8ByteSize ∨ name.toList.any (fun c => Pty.isControl c || Session.isWhitespace c) = true then
    .error (.protocol "node names must be 1–256 bytes without whitespace or control characters")
  else .ok ()

/-- Without white space at its ends. -/
def trim (s : String) : String := String.ofList (Session.trim s.toList)

def trimEndSlashes (s : String) : String := String.ofList (s.toList.reverse.dropWhile (· = '/')).reverse

/-- What a primary peer is reached by. -/
def validateUrl (ps : Parsers) (raw : String) : Except Error String :=
  match ps.parseUrl raw with
  | .error e => .error e
  | .ok url =>
    if (url.scheme ≠ "http" ∧ url.scheme ≠ "https") ∨ url.host = none ∨ url.username ≠ "" ∨
        url.password.isSome ∨ url.query.isSome ∨ url.fragment.isSome then
      .error (.protocol "node URL must be an http(s) base URL without credentials, query, or fragment")
    else .ok (trimEndSlashes url.text)

/-- What the role asks for: a primary has an address and a local name, a secondary has neither. The address in its
one form. -/
def validateRole (ps : Parsers) (config : NodeConfig) : Except Error (Option String) :=
  match config.role with
  | .primary =>
    match config.asName with
    | none => .error (.protocol "primary peers require --as <local-name>")
    | some asName =>
      match validateName asName with
      | .error e => .error e
      | .ok _ =>
        match config.url with
        | none => .error (.protocol "primary peers require --url <url>")
        | some raw => (validateUrl ps raw).map some
  | .secondary =>
    if config.url.isSome ∨ config.asName.isSome then
      .error (.protocol "secondary peers do not accept --url or --as")
    else .ok config.url

/-- A configuration whose name, key and role are right, with key and address in their one form. -/
def validate (ps : Parsers) (config : NodeConfig) : Except Error NodeConfig := do
  validateName config.name
  let key ← ps.parsePublicKey (trim config.key)
  let url ← validateRole ps { config with key := key }
  return { config with key := key, url := url }

/-- What a request changes of a node. -/
structure NodeUpdate where
  key : Option String
  url : Option String
  asName : Option String
  deriving DecidableEq, Repr

/-- The changed configuration, which is checked as a new one is. -/
def NodeUpdate.apply (ps : Parsers) (update : NodeUpdate) (config : NodeConfig) : Except Error NodeConfig :=
  if update.key = none ∧ update.url = none ∧ update.asName = none then
    .error (.protocol "node update requires --key, --url, or --as")
  else
    validate ps
      { config with
        key := update.key.getD config.key
        url := update.url.or config.url
        asName := update.asName.or config.asName }

/-! ### The table of nodes -/

/-- A row, under its name. -/
structure NodeRow where
  role : NodeRole
  publicKey : String
  url : Option String
  asName : Option String
  enabled : Bool
  revision : Uuid
  deriving DecidableEq, Repr

/-- The table `nodes`, with the name as its key. -/
abbrev Table := SortedMap String NodeRow

def NodeRow.config (name : String) (row : NodeRow) : NodeConfig :=
  ⟨name, row.role, row.publicKey, row.url, row.asName, row.enabled, row.revision⟩

def NodeConfig.row (node : NodeConfig) : NodeRow :=
  ⟨node.role, node.key, node.url, node.asName, node.enabled, node.revision⟩

/-- `node_from_row` validates again what is persisted. -/
def getNode (ps : Parsers) (db : Table) (name : String) : Except Error (Option NodeConfig) :=
  match db.get? name with
  | none => .ok none
  | some row => (validate ps (row.config name)).map some

/-- Every row's configuration; one that is not right fails the list. -/
def listNodes (ps : Parsers) (db : Table) : Except Error (List NodeConfig) :=
  db.entries.mapM fun e => validate ps (e.2.config e.1)

/-- Public keys are unique. -/
def keyTaken (db : Table) (name key : String) : Bool :=
  db.entries.any fun e => decide (e.1 ≠ name ∧ e.2.publicKey = key)

/-- A new row, unless the name or the key is there already. -/
def insertNode (db : Table) (node : NodeConfig) : Except Error Table :=
  if (db.get? node.name).isSome ∨ keyTaken db node.name node.key then .error .database
  else .ok (db.insert node.name node.row)

/-- The row's new values, unless another row has the key. The role stays. -/
def updateNode (db : Table) (node : NodeConfig) : Except Error Table :=
  if (db.get? node.name).isSome ∧ keyTaken db node.name node.key then .error .database
  else .ok (db.adjust node.name fun row => { node.row with role := row.role })

def removeNode (db : Table) (name : String) : Table := db.erase name

/-! ### The node manager -/

/-- What the manager is asked for. -/
inductive Request
  | nodeAdd (config : NodeConfig)
  | nodeUpdate (name : String) (update : NodeUpdate)
  | nodeSetEnabled (name : String) (enabled : Bool)
  | nodeRemove (name : String)
  | restore
  deriving DecidableEq, Repr

/-- Whom a request stops next, and the configurations whose connectors it has still to start. -/
structure Reconcile where
  name : String
  todo : List NodeConfig
  deriving DecidableEq, Repr

def require (ps : Parsers) (db : Table) (name : String) : Except Error NodeConfig := do
  match ← getNode ps db name with
  | some config => return config
  | none => .error (.protocol ("node not found: " ++ name))

/-- A request up to its first stop: the table it leaves, or nothing if it leaves all as it is. -/
def handle (ps : Parsers) (db : Table) (fresh : Uuid) : Request → Except Error (Option (Table × Reconcile))
  | .nodeAdd config => do
    let config ← validate ps { config with enabled := true }
    if (← getNode ps db config.name).isSome then
      .error (.protocol ("node '" ++ config.name ++ "' already exists; use node update"))
    else
      let config := { config with revision := fresh }
      return some (← insertNode db config, ⟨config.name, [config]⟩)
  | .nodeUpdate name update => do
    let previous ← require ps db name
    let config ← update.apply ps previous
    if config = previous then return none
    else
      let config := { config with revision := fresh }
      return some (← updateNode db config, ⟨config.name, [config]⟩)
  | .nodeSetEnabled name enabled => do
    let config ← require ps db name
    if config.enabled = enabled then return none
    else
      let config := { config with enabled := enabled, revision := fresh }
      return some (← updateNode db config, ⟨config.name, [config]⟩)
  | .nodeRemove name => do
    let _ ← require ps db name
    return some (removeNode db name, ⟨name, []⟩)
  | .restore => do
    match ← listNodes ps db with
    | [] => return none
    | config :: rest => return some (db, ⟨config.name, config :: rest⟩)

/-- `PrimaryConnection::try_from`. -/
def primaryConnection (ps : Parsers) (config : NodeConfig) : Except Error NodeConfig :=
  if config.role ≠ .primary then .error (.protocol "only primary peers have outbound connectors")
  else validate ps config

/-- `reconcile` after its stop, and on to the next configuration. -/
def startConnector (ps : Parsers) : List NodeConfig → Option Reconcile
  | [] => none
  | config :: rest =>
    let started := if config.enabled = true ∧ config.role = .primary then (primaryConnection ps config).map fun _ => () else .ok ()
    match started, rest with
    | .ok _, next :: _ => some ⟨next.name, rest⟩
    | _, _ => none

/-! ### Joins -/

def federationVersion : ℕ := 2

/-- What a node says of itself first. -/
structure Hello where
  version : ℕ
  name : String
  publicKey : String
  deriving DecidableEq, Repr

/-- The key of a node whose introduction is right. -/
def validateHello (ps : Parsers) (hello : Hello) : Except Error String :=
  if hello.version ≠ federationVersion then .error (.protocol "unsupported federation version")
  else if hello.name.isEmpty ∨ 256 < hello.name.utf8ByteSize ∨ hello.name.toList.any Pty.isControl = true then
    .error (.protocol "invalid node name")
  else ps.parsePublicKey hello.publicKey

/-- What `primary_handshake` captures before it sends its challenge. -/
def captureAuthorization (ps : Parsers) (db : Table) (hello : Hello) : Except Error (Option NodeConfig) := do
  let peer ← validateHello ps hello
  let registered ← getNode ps db hello.name
  return registered.filter fun node => node.role = .secondary ∧ node.enabled = true ∧ node.key = peer

/-- How far a socket is in `handle_join`. -/
inductive Join
  | upgraded
  | challenged (registered : Option NodeConfig)
  | confirming (registered : NodeConfig)
  | authorized (config : NodeConfig)
  /-- It holds the lock and has not read the configuration again. -/
  | locked (config : NodeConfig)
  /-- It holds the lock and has found what it captured. -/
  | checked (config : NodeConfig)
  | connected (config : NodeConfig) (generation : Uuid)
  | ended
  deriving DecidableEq, Repr

def Join.captured : Join → Option NodeConfig
  | .upgraded => none
  | .challenged registered => registered
  | .confirming config | .authorized config | .locked config | .checked config | .connected config _ => some config
  | .ended => none

def Join.holdsLock : Join → Bool
  | .locked _ | .checked _ => true
  | _ => false

/-! ### The system -/

/-- The handle is that of the socket whose join registered it. -/
structure RegisteredNode where
  generation : Uuid
  handle : ℕ
  deriving DecidableEq, Repr

/-- What the registry tells of a node. -/
structure NodeState where
  node : String
  connected : Bool
  deriving DecidableEq, Repr

/-- Where a request of the manager is under the lock. -/
inductive Phase
  | requested (request : Request)
  | stopping (pass : Reconcile)
  | stopped (pass : Reconcile)
  deriving DecidableEq, Repr

/-- Who has the manager's lock. -/
inductive Holder
  | manager (phase : Phase)
  | join (i : ℕ)
  deriving DecidableEq, Repr

/-- The sockets are numbered. -/
structure World where
  db : Table
  nodes : SortedMap String RegisteredNode
  lock : Option Holder
  joins : ℕ → Join
  events : List NodeState
  /-- The UUIDs made so far. -/
  uuids : List Uuid

/-- A daemon that starts with a persisted table. -/
def World.start (db : Table) : World where
  db := db
  nodes := .empty
  lock := none
  joins := fun _ => .upgraded
  events := []
  uuids := db.entries.map fun e => e.2.revision

/-- What may happen next to the manager, to a join or to a connection. -/
inductive Action
  /-- A request gets the lock. -/
  | acquire (request : Request)
  /-- It reads and writes the table with a fresh revision, if the database does not fail. -/
  | write (fresh : Uuid) (ok : Bool)
  /-- `revoke`, of the one it stops. -/
  | revoke
  | start
  /-- A socket's hello, and whether the database answers. -/
  | hello (i : ℕ) (hello : Hello) (ok : Bool)
  /-- Its proof, and whether it is the captured peer's over this transcript. -/
  | proof (i : ℕ) (verified : Bool)
  /-- Its readiness, and whether it is for this transcript. -/
  | ready (i : ℕ) (ok : Bool)
  | lock (i : ℕ)
  | check (i : ℕ) (ok : Bool)
  | connect (i : ℕ) (fresh : Uuid)
  /-- The deadline has passed, or the socket has failed, before the join was registered. -/
  | timeout (i : ℕ)
  /-- The relay is over. -/
  | disconnect (i : ℕ)
  deriving DecidableEq, Repr

namespace World

/-- `revoke`. -/
def revoke (w : World) (name : String) : World :=
  match w.nodes.get? name with
  | none => w
  | some _ => { w with nodes := w.nodes.erase name, events := w.events ++ [⟨name, false⟩] }

/-- `disconnect`. -/
def disconnect (w : World) (name : String) (generation : Uuid) : World :=
  if (w.nodes.get? name).all fun node => node.generation ≠ generation then w
  else { w with nodes := w.nodes.erase name, events := w.events ++ [⟨name, false⟩] }

/-- `connect`, with the lock released after it. -/
def connect (w : World) (i : ℕ) (config : NodeConfig) (fresh : Uuid) : World :=
  match w.nodes.get? config.name with
  | some _ => { w with lock := none, joins := Function.update w.joins i .ended }
  | none =>
    { w with
      nodes := w.nodes.insert config.name ⟨fresh, i⟩
      events := w.events ++ [⟨config.name, true⟩]
      lock := none
      joins := Function.update w.joins i (.connected config fresh)
      uuids := fresh :: w.uuids }

/-- A join goes on, with the lock as it then is. -/
def move (w : World) (i : ℕ) (join : Join) (lock : Option Holder) : World :=
  { w with joins := Function.update w.joins i join, lock := lock }

def step (ps : Parsers) (w : World) : Action → Option World
  | .acquire request =>
    if w.lock = none then some { w with lock := some (.manager (.requested request)) } else none
  | .write fresh ok =>
    match w.lock with
    | some (.manager (.requested request)) =>
      if fresh ∈ w.uuids then none
      else
        match if ok then handle ps w.db fresh request else .error .database with
        | .ok (some (db, pass)) =>
          some { w with db := db, uuids := fresh :: w.uuids, lock := some (.manager (.stopping pass)) }
        | .ok none | .error _ => some { w with lock := none }
    | _ => none
  | .revoke =>
    match w.lock with
    | some (.manager (.stopping pass)) =>
      some { w.revoke pass.name with lock := some (.manager (.stopped pass)) }
    | _ => none
  | .start =>
    match w.lock with
    | some (.manager (.stopped pass)) =>
      some { w with lock := (startConnector ps pass.todo).map fun next => .manager (.stopping next) }
    | _ => none
  | .hello i hello ok =>
    match w.joins i with
    | .upgraded =>
      match if ok then captureAuthorization ps w.db hello else .error .database with
      | .ok registered => some (w.move i (.challenged registered) w.lock)
      | .error _ => some (w.move i .ended w.lock)
    | _ => none
  | .proof i verified =>
    match w.joins i with
    | .challenged (some config) => some (w.move i (if verified then .confirming config else .ended) w.lock)
    | .challenged none => some (w.move i .ended w.lock)
    | _ => none
  | .ready i ok =>
    match w.joins i with
    | .confirming config => some (w.move i (if ok then .authorized config else .ended) w.lock)
    | _ => none
  | .lock i =>
    match w.joins i, w.lock with
    | .authorized config, none => some (w.move i (.locked config) (some (.join i)))
    | _, _ => none
  | .check i ok =>
    match w.joins i with
    | .locked config =>
      if ok = true ∧ getNode ps w.db config.name = .ok (some config) then
        some (w.move i (.checked config) w.lock)
      else some (w.move i .ended none)
    | _ => none
  | .connect i fresh =>
    match w.joins i with
    | .checked config => if fresh ∈ w.uuids then none else some (w.connect i config fresh)
    | _ => none
  | .timeout i =>
    match w.joins i with
    | .connected _ _ | .ended => none
    | join => some (w.move i .ended (if join.holdsLock then none else w.lock))
  | .disconnect i =>
    match w.joins i with
    | .connected config generation =>
      let after := w.disconnect config.name generation
      some (after.move i .ended after.lock)
    | _ => none

/-- A request of the manager has the lock and has not returned. -/
def mutating (w : World) : Bool :=
  match w.lock with
  | some (.manager _) => true
  | _ => false

/-- A request has left the table and has not yet stopped this peer. -/
def Stopping (w : World) (name : String) : Prop :=
  ∃ pass : Reconcile, w.lock = some (.manager (.stopping pass)) ∧ pass.name = name

end World

/-- The states published of one node, in their order. -/
def published (events : List NodeState) (name : String) : List Bool :=
  (events.filter (·.node = name)).map (·.connected)

/-! ### What the table's functions do -/

section Reading

variable {ps : Parsers} {db db' : Table} {config node : NodeConfig} {name : String} {fresh : Uuid}

/-- Validation rewrites the key and the URL only. -/
theorem validate_ok (h : validate ps config = .ok node) :
    node.name = config.name ∧ node.role = config.role ∧ node.enabled = config.enabled ∧
      node.revision = config.revision := by
  unfold validate at h
  rcases hname : validateName config.name with e | u
  · rw [hname] at h
    cases h
  rcases hkey : ps.parsePublicKey (trim config.key) with e | key
  · rw [hname, hkey] at h
    cases h
  rcases hurl : validateRole ps { config with key := key } with e | url
  · simp only [hname, hkey, hurl, bind, Except.bind] at h
    cases h
  · simp only [hname, hkey, hurl, bind, Except.bind, pure, Except.pure] at h
    cases h
    exact ⟨rfl, rfl, rfl, rfl⟩

/-- What is read of a name is its row's. -/
theorem getNode_ok (h : getNode ps db name = .ok (some node)) :
    ∃ row, db.get? name = some row ∧ node.name = name ∧ node.revision = row.revision := by
  unfold getNode at h
  rcases hrow : db.get? name with _ | row
  · rw [hrow] at h
    cases h
  · rw [hrow] at h
    dsimp only at h
    rcases hvalid : validate ps (row.config name) with e | config
    · rw [hvalid] at h
      cases h
    · rw [hvalid] at h
      cases h
      obtain ⟨hname, -, -, hrevision⟩ := validate_ok hvalid
      exact ⟨row, rfl, hname, hrevision⟩

theorem getNode_congr (h : db'.get? name = db.get? name) : getNode ps db' name = getNode ps db name := by
  unfold getNode
  rw [h]

/-- A change of one row, with a fresh revision if the row is there after it. -/
structure Changes (db db' : Table) (name : String) (fresh : Uuid) : Prop where
  others : ∀ {other : String}, other ≠ name → db'.get? other = db.get? other
  revision : ∀ {row : NodeRow}, db'.get? name = some row → row.revision = fresh

theorem insertNode_ok (h : insertNode db node = .ok db') : Changes db db' node.name node.revision := by
  unfold insertNode at h
  split_ifs at h
  cases h
  refine ⟨fun hne => ?_, fun hrow => ?_⟩
  · rw [SortedMap.get?_insert, if_neg hne]
  · rw [SortedMap.get?_insert, if_pos rfl] at hrow
    cases hrow
    rfl

theorem updateNode_ok (h : updateNode db node = .ok db') : Changes db db' node.name node.revision := by
  unfold updateNode at h
  split_ifs at h
  cases h
  refine ⟨fun hne => ?_, fun hrow => ?_⟩
  · rw [SortedMap.get?_adjust, if_neg hne]
  · rw [SortedMap.get?_adjust, if_pos rfl] at hrow
    obtain ⟨old, -, rfl⟩ := Option.map_eq_some_iff.mp hrow
    rfl

theorem removeNode_changes (db : Table) (name : String) (fresh : Uuid) :
    Changes db (removeNode db name) name fresh := by
  refine ⟨fun hne => ?_, fun hrow => ?_⟩
  · rw [removeNode, SortedMap.get?_erase, if_neg hne]
  · rw [removeNode, SortedMap.get?_erase, if_pos rfl] at hrow
    cases hrow

theorem bind_ok {α β : Type} {x : Except Error α} {f : α → Except Error β} {b : β} (h : x >>= f = .ok b) :
    ∃ a, x = .ok a ∧ f a = .ok b := by
  rcases x with e | a
  · cases h
  · exact ⟨a, rfl, h⟩

/-- **A request changes the row of the peer it stops.** It leaves every other row, and the
row has the fresh revision. -/
theorem handle_ok {request : Request} {pass : Reconcile}
    (h : handle ps db fresh request = .ok (some (db', pass))) : db' = db ∨ Changes db db' pass.name fresh := by
  unfold handle at h
  cases request with
  | nodeAdd config =>
    obtain ⟨valid, -, h⟩ := bind_ok h
    obtain ⟨found, -, h⟩ := bind_ok h
    split_ifs at h
    obtain ⟨inserted, hinsert, h⟩ := bind_ok h
    cases h
    exact .inr (insertNode_ok hinsert)
  | nodeUpdate name update =>
    obtain ⟨previous, -, h⟩ := bind_ok h
    obtain ⟨applied, -, h⟩ := bind_ok h
    split_ifs at h
    · cases h
    · obtain ⟨updated, hupdate, h⟩ := bind_ok h
      cases h
      exact .inr (updateNode_ok hupdate)
  | nodeSetEnabled name enabled =>
    obtain ⟨previous, -, h⟩ := bind_ok h
    split_ifs at h
    · cases h
    · obtain ⟨updated, hupdate, h⟩ := bind_ok h
      cases h
      exact .inr (updateNode_ok hupdate)
  | nodeRemove name =>
    obtain ⟨previous, -, h⟩ := bind_ok h
    cases h
    exact .inr (removeNode_changes db name fresh)
  | restore =>
    obtain ⟨configs, -, h⟩ := bind_ok h
    rcases configs with _ | ⟨config, rest⟩
    · cases h
    · cases h
      exact .inl rfl

/-- A join captures an enabled secondary's configuration, as it is persisted. -/
theorem captureAuthorization_ok {hello : Hello}
    (h : captureAuthorization ps db hello = .ok (some config)) :
    config.role = .secondary ∧ config.enabled = true ∧ getNode ps db hello.name = .ok (some config) := by
  unfold captureAuthorization at h
  obtain ⟨peer, -, h⟩ := bind_ok h
  obtain ⟨registered, hget, h⟩ := bind_ok h
  obtain ⟨rfl, hfilter⟩ := Option.filter_eq_some_iff.mp (Except.ok.inj h)
  simp only [decide_eq_true_eq] at hfilter
  exact ⟨hfilter.1, hfilter.2.1, hget⟩

end Reading

/-! ### The published states -/

theorem published_append_self (events : List NodeState) (name : String) (connected : Bool) :
    published (events ++ [⟨name, connected⟩]) name = published events name ++ [connected] := by
  simp [published]

theorem published_append_ne (events : List NodeState) {name other : String} (h : name ≠ other) (connected : Bool) :
    published (events ++ [⟨name, connected⟩]) other = published events other := by
  simp [published, h]

/-- The states alternate from disconnected, and the last one is `now`. -/
structure Alternates (states : List Bool) (now : Bool) : Prop where
  chain : (false :: states).IsChain (· ≠ ·)
  last : (false :: states).getLast? = some now

theorem Alternates.append {states : List Bool} {now : Bool} (h : Alternates states now) :
    Alternates (states ++ [!now]) !now := by
  refine ⟨?_, ?_⟩
  · rw [← List.cons_append, List.isChain_append]
    refine ⟨h.chain, List.isChain_singleton _, fun x hx y hy => ?_⟩
    rw [h.last] at hx
    cases hx
    cases hy
    cases now <;> decide
  · rw [← List.cons_append, List.getLast?_append]
    rfl

/-! ### What a step can do -/

/-- Every step is one of these. -/
inductive Effect (ps : Parsers) (w : World) : World → Prop
  /-- A request goes on with the table as it is, and is not about to stop a peer. -/
  | pass {lock : Option Holder} (hjoin : ∀ i, w.lock ≠ some (.join i)) (hstop : ∀ name, ¬ w.Stopping name) :
    Effect ps w { w with lock := lock }
  | write {db : Table} {fresh : Uuid} {pass : Reconcile} (hjoin : ∀ i, w.lock ≠ some (.join i))
    (hstop : ∀ name, ¬ w.Stopping name) (hfresh : fresh ∉ w.uuids)
    (hdb : db = w.db ∨ Changes w.db db pass.name fresh) :
    Effect ps w { w with db := db, uuids := fresh :: w.uuids, lock := some (.manager (.stopping pass)) }
  | revoke {pass : Reconcile} (hlock : w.lock = some (.manager (.stopping pass))) :
    Effect ps w { w.revoke pass.name with lock := some (.manager (.stopped pass)) }
  /-- A join goes on, and neither connects nor disconnects. -/
  | move {i : ℕ} {join : Join} {lock : Option Holder}
    (hold : w.joins i ≠ .ended ∧ ∀ config generation, w.joins i ≠ .connected config generation)
    (hnew : ∀ config generation, join ≠ .connected config generation)
    (hcaptured : ∀ config, join.captured = some config → (w.joins i).captured = some config ∨
      w.joins i = .upgraded ∧ config.role = .secondary ∧ config.enabled = true ∧
        ∃ name, getNode ps w.db name = .ok (some config))
    (hkept : join = .ended ∨ w.joins i = .upgraded ∨ join.captured = (w.joins i).captured)
    (hholds : join.holdsLock = true → lock = some (.join i) ∨ lock = w.lock ∧ (w.joins i).holdsLock = true)
    (hchecked : ∀ config, join = .checked config → getNode ps w.db config.name = .ok (some config))
    (hlock : lock = w.lock ∨ w.lock = none ∨ (w.joins i).holdsLock = true) : Effect ps w (w.move i join lock)
  | connect {i : ℕ} {config : NodeConfig} {fresh : Uuid} (hi : w.joins i = .checked config) (hfresh : fresh ∉ w.uuids) :
    Effect ps w (w.connect i config fresh)
  | disconnect {i : ℕ} {config : NodeConfig} {generation : Uuid} (hi : w.joins i = .connected config generation) :
    Effect ps w ((w.disconnect config.name generation).move i .ended (w.disconnect config.name generation).lock)

/-- The lock is a mutex: while a join or nobody has it, no request is at work. -/
theorem not_stopping {w : World} {lock : Option Holder} (h : lock = none ∨ ∃ i, lock = some (.join i))
    (hlock : w.lock = lock) (name : String) : ¬ w.Stopping name := by
  rintro ⟨pass, hpass, -⟩
  rw [hlock] at hpass
  rcases h with rfl | ⟨i, rfl⟩ <;> cases hpass

section Effects

variable {ps : Parsers} {w w' : World} {i : ℕ}

theorem write_effect {fresh : Uuid} {ok : Bool} (hstep : w.step ps (.write fresh ok) = some w') : Effect ps w w' := by
  unfold World.step at hstep
  dsimp only at hstep
  split at hstep
  · rename_i request hlock
    have hjoin : ∀ i, w.lock ≠ some (.join i) := by
      rw [hlock]
      nofun
    have hstop : ∀ name, ¬ w.Stopping name := by
      rintro name ⟨pass, hpass, -⟩
      rw [hlock] at hpass
      cases hpass
    by_cases hfresh : fresh ∈ w.uuids
    · rw [if_pos hfresh] at hstep
      cases hstep
    rw [if_neg hfresh] at hstep
    generalize hhandled : (if ok = true then handle ps w.db fresh request else .error .database) = handled at hstep
    rcases handled with e | _ | ⟨db, pass⟩ <;> cases hstep
    · exact .pass hjoin hstop
    · exact .pass hjoin hstop
    · split_ifs at hhandled
      exact .write hjoin hstop hfresh (handle_ok hhandled)
  · cases hstep

/-- A join that ends before it is registered. -/
theorem ended_effect (hold : w.joins i ≠ .ended ∧ ∀ config generation, w.joins i ≠ .connected config generation)
    {lock : Option Holder} (hlock : lock = w.lock ∨ w.lock = none ∨ (w.joins i).holdsLock = true) :
    Effect ps w (w.move i .ended lock) :=
  .move hold nofun nofun (.inl rfl) nofun nofun hlock

theorem hello_effect {hello : Hello} {ok : Bool} (hstep : w.step ps (.hello i hello ok) = some w') : Effect ps w w' := by
  unfold World.step at hstep
  dsimp only at hstep
  split at hstep
  · rename_i hi
    have hold : w.joins i ≠ .ended ∧ ∀ config generation, w.joins i ≠ .connected config generation := by
      rw [hi]
      exact ⟨nofun, nofun⟩
    generalize hcaptured : (if ok = true then captureAuthorization ps w.db hello else .error .database) = captured at hstep
    rcases captured with e | registered <;> cases hstep
    · exact ended_effect hold (.inl rfl)
    · refine .move hold nofun (fun config hregistered => .inr ⟨hi, ?_⟩) (.inr (.inl hi)) nofun nofun (.inl rfl)
      cases hregistered
      split_ifs at hcaptured
      obtain ⟨hrole, henabled, hget⟩ := captureAuthorization_ok hcaptured
      exact ⟨hrole, henabled, hello.name, hget⟩
  · cases hstep

theorem check_effect {ok : Bool} (hstep : w.step ps (.check i ok) = some w') : Effect ps w w' := by
  unfold World.step at hstep
  dsimp only at hstep
  split at hstep
  · rename_i config hi
    have hold : w.joins i ≠ .ended ∧ ∀ config generation, w.joins i ≠ .connected config generation := by
      rw [hi]
      exact ⟨nofun, nofun⟩
    have hholds : (w.joins i).holdsLock = true := by
      rw [hi]
      rfl
    split_ifs at hstep with hok <;> cases hstep
    · refine .move hold nofun (fun c hc => .inl (by rw [hi]; exact hc)) (.inr (.inr (by rw [hi]; rfl)))
        (fun _ => .inr ⟨rfl, hholds⟩) (fun c hc => ?_) (.inl rfl)
      cases hc
      exact hok.2
    · exact ended_effect hold (.inr (.inr hholds))
  · cases hstep

/-- **Every step has one of the effects.** -/
theorem step_effect {a : Action} (hstep : w.step ps a = some w') : Effect ps w w' := by
  cases a with
  | acquire request =>
    simp only [World.step, Runs.guarded] at hstep
    obtain ⟨hlock, rfl⟩ := hstep
    refine .pass ?_ (not_stopping (.inl rfl) hlock)
    rw [hlock]
    nofun
  | write fresh ok => exact write_effect hstep
  | revoke =>
    unfold World.step at hstep
    dsimp only at hstep
    split at hstep
    · rename_i pass hlock
      cases hstep
      exact .revoke hlock
    · cases hstep
  | start =>
    unfold World.step at hstep
    dsimp only at hstep
    split at hstep
    · rename_i pass hlock
      cases hstep
      refine .pass ?_ ?_
      · rw [hlock]
        nofun
      · rintro name ⟨pass', hpass, -⟩
        rw [hlock] at hpass
        cases hpass
    · cases hstep
  | hello i hello ok => exact hello_effect hstep
  | proof i verified =>
    unfold World.step at hstep
    dsimp only at hstep
    split at hstep
    · rename_i config hi
      cases hstep
      have hold : w.joins i ≠ .ended ∧ ∀ config generation, w.joins i ≠ .connected config generation := by
        rw [hi]
        exact ⟨nofun, nofun⟩
      cases verified with
      | true =>
        exact .move hold nofun (fun c hc => .inl (by rw [hi]; exact hc)) (.inr (.inr (by rw [hi]; rfl))) nofun nofun
          (.inl rfl)
      | false => exact ended_effect hold (.inl rfl)
    · rename_i hi
      cases hstep
      exact ended_effect (by rw [hi]; exact ⟨nofun, nofun⟩) (.inl rfl)
    · cases hstep
  | ready i ok =>
    unfold World.step at hstep
    dsimp only at hstep
    split at hstep
    · rename_i config hi
      cases hstep
      have hold : w.joins i ≠ .ended ∧ ∀ config generation, w.joins i ≠ .connected config generation := by
        rw [hi]
        exact ⟨nofun, nofun⟩
      cases ok with
      | true =>
        exact .move hold nofun (fun c hc => .inl (by rw [hi]; exact hc)) (.inr (.inr (by rw [hi]; rfl))) nofun nofun
          (.inl rfl)
      | false => exact ended_effect hold (.inl rfl)
    · cases hstep
  | lock i =>
    unfold World.step at hstep
    dsimp only at hstep
    split at hstep
    · rename_i config hi hlock
      cases hstep
      exact .move (by rw [hi]; exact ⟨nofun, nofun⟩) nofun (fun c hc => .inl (by rw [hi]; exact hc))
        (.inr (.inr (by rw [hi]; rfl))) (fun _ => .inl rfl) nofun (.inr (.inl hlock))
    · cases hstep
  | check i ok => exact check_effect hstep
  | connect i fresh =>
    unfold World.step at hstep
    dsimp only at hstep
    split at hstep
    · rename_i config hi
      split_ifs at hstep with hfresh
      cases hstep
      exact .connect hi hfresh
    · cases hstep
  | timeout i =>
    unfold World.step at hstep
    dsimp only at hstep
    split at hstep
    · cases hstep
    · cases hstep
    · rename_i hconnected hended
      cases hstep
      refine ended_effect ⟨hended, hconnected⟩ ?_
      split_ifs with hholds
      · exact .inr (.inr hholds)
      · exact .inl rfl
  | disconnect i =>
    unfold World.step at hstep
    dsimp only at hstep
    split at hstep
    · rename_i config generation hi
      cases hstep
      exact .disconnect hi
    · cases hstep

end Effects

/-! ### The invariant -/

section Invariant

variable {ps : Parsers} {w : World}

/-- Who is registered joined with the configuration that is persisted, or is about to be stopped. -/
structure AuthInv (ps : Parsers) (w : World) : Prop where
  rows : ∀ {name row}, w.db.get? name = some row → row.revision ∈ w.uuids
  captured : ∀ {i config}, (w.joins i).captured = some config →
    config.revision ∈ w.uuids ∧ config.role = .secondary ∧ config.enabled = true
  holder : ∀ {i}, (w.joins i).holdsLock = true → w.lock = some (.join i)
  checked : ∀ {i config}, w.joins i = .checked config → getNode ps w.db config.name = .ok (some config)
  made : ∀ {i config generation}, w.joins i = .connected config generation → generation ∈ w.uuids
  apart : ∀ {i j config config' generation}, w.joins i = .connected config generation →
    w.joins j = .connected config' generation → i = j
  nodes : ∀ {name node}, w.nodes.get? name = some node →
    ∃ config, w.joins node.handle = .connected config node.generation ∧ config.name = name ∧
      (getNode ps w.db name = .ok (some config) ∨ w.Stopping name)
  events : ∀ name, Alternates (published w.events name) (w.nodes.get? name).isSome

theorem authInv_start (db : Table) : AuthInv ps (.start db) where
  rows {name row} h := by
    exact List.mem_map_of_mem (SortedMap.mem_of_get? h)
  captured h := nomatch h
  holder h := nomatch h
  checked h := nomatch h
  made h := nomatch h
  apart h := nomatch h
  nodes h := nomatch h
  events _ := ⟨List.isChain_singleton _, rfl⟩

/-- A step of a join that neither connects nor disconnects. -/
theorem AuthInv.move (h : AuthInv ps w) {i : ℕ} {join : Join} {lock : Option Holder}
    (hold : ∀ config generation, w.joins i ≠ .connected config generation)
    (hnew : ∀ config generation, join ≠ .connected config generation)
    (hcaptured : ∀ config, join.captured = some config →
      config.revision ∈ w.uuids ∧ config.role = .secondary ∧ config.enabled = true)
    (hholds : join.holdsLock = true → lock = some (.join i))
    (hchecked : ∀ config, join = .checked config → getNode ps w.db config.name = .ok (some config))
    (hlock : lock = w.lock ∨ w.lock = none ∨ w.lock = some (.join i)) : AuthInv ps (w.move i join lock) := by
  have hat : ∀ j, j ≠ i → (w.move i join lock).joins j = w.joins j := fun j hj =>
    Function.update_of_ne hj _ _
  have hself : (w.move i join lock).joins i = join := Function.update_self _ _ _
  have hconnected : ∀ j config generation, (w.move i join lock).joins j = .connected config generation →
      w.joins j = .connected config generation := fun j config generation hj => by
    by_cases hji : j = i
    · subst hji
      rw [hself] at hj
      exact absurd hj (hnew _ _)
    · rwa [hat j hji] at hj
  refine
    { rows := h.rows
      captured := fun {j config} hj => ?_
      holder := fun {j} hj => ?_
      checked := fun {j config} hj => ?_
      made := fun hj => h.made (hconnected _ _ _ hj)
      apart := fun hj hk => h.apart (hconnected _ _ _ hj) (hconnected _ _ _ hk)
      nodes := fun {name node} hnode => ?_
      events := h.events }
  · by_cases hji : j = i
    · subst hji
      rw [hself] at hj
      exact hcaptured config hj
    · rw [hat j hji] at hj
      exact h.captured hj
  · by_cases hji : j = i
    · subst hji
      rw [hself] at hj
      exact hholds hj
    · rw [hat j hji] at hj
      have hheld := h.holder hj
      show lock = _
      rcases hlock with rfl | hnone | hmine
      · exact hheld
      · rw [hnone] at hheld
        cases hheld
      · rw [hmine] at hheld
        cases hheld
        exact absurd rfl hji
  · by_cases hji : j = i
    · subst hji
      rw [hself] at hj
      exact hchecked config hj
    · rw [hat j hji] at hj
      exact h.checked hj
  · obtain ⟨config, hjoin, hname, hcurrent⟩ := h.nodes hnode
    have hne : node.handle ≠ i := fun heq => hold config node.generation (heq ▸ hjoin)
    refine ⟨config, (hat _ hne).trans hjoin, hname, hcurrent.imp_right ?_⟩
    rintro ⟨pass, hpass, hstops⟩
    rcases hlock with rfl | hnone | hmine
    · exact ⟨pass, hpass, hstops⟩
    · rw [hnone] at hpass
      cases hpass
    · rw [hmine] at hpass
      cases hpass

/-- A request goes on under the lock with the table as it is. -/
theorem AuthInv.pass (h : AuthInv ps w) {lock : Option Holder}
    (hfree : ∀ i, (w.joins i).holdsLock = false)
    (hcurrent : ∀ name, ¬ w.Stopping name) : AuthInv ps { w with lock := lock } where
  rows := h.rows
  captured := h.captured
  holder {i} hi := by
    rw [hfree i] at hi
    cases hi
  checked := h.checked
  made := h.made
  apart := h.apart
  nodes {name node} hnode := by
    obtain ⟨config, hjoin, hname, hget⟩ := h.nodes hnode
    exact ⟨config, hjoin, hname, .inl (hget.resolve_right (hcurrent name))⟩
  events := h.events

/-- While no join has the lock, none is past its last check. -/
theorem AuthInv.free (h : AuthInv ps w) (hlock : ∀ i, w.lock ≠ some (.join i)) (i : ℕ) :
    (w.joins i).holdsLock = false := by
  by_contra hholds
  exact hlock i (h.holder (eq_true_of_ne_false hholds))

/-- The row of a peer changes, and the peer is to be stopped. -/
theorem AuthInv.write (h : AuthInv ps w) {db : Table} {fresh : Uuid} {pass : Reconcile}
    (hfree : ∀ i, (w.joins i).holdsLock = false)
    (hcurrent : ∀ name, ¬ w.Stopping name)
    (hdb : db = w.db ∨ Changes w.db db pass.name fresh) :
    AuthInv ps { w with db := db, uuids := fresh :: w.uuids, lock := some (.manager (.stopping pass)) } where
  rows {name row} hrow := by
    rcases hdb with rfl | hchange
    · exact List.mem_cons_of_mem _ (h.rows hrow)
    · by_cases hname : name = pass.name
      · subst hname
        rw [hchange.revision hrow]
        exact List.mem_cons_self
      · exact List.mem_cons_of_mem _ (h.rows ((hchange.others hname).symm.trans hrow))
  captured hi := by
    obtain ⟨hrevision, hrest⟩ := h.captured hi
    exact ⟨List.mem_cons_of_mem _ hrevision, hrest⟩
  holder {i} hi := by
    rw [hfree i] at hi
    cases hi
  checked {i config} hi := by
    have hholds := hfree i
    rw [hi] at hholds
    cases hholds
  made hi := List.mem_cons_of_mem _ (h.made hi)
  apart := h.apart
  nodes {name node} hnode := by
    obtain ⟨config, hjoin, hname, hget⟩ := h.nodes hnode
    have hget := hget.resolve_right (hcurrent name)
    refine ⟨config, hjoin, hname, ?_⟩
    rcases hdb with rfl | hchange
    · exact .inl hget
    · by_cases hstops : name = pass.name
      · exact .inr ⟨pass, rfl, hstops.symm⟩
      · exact .inl ((getNode_congr (hchange.others hstops)).trans hget)
  events := h.events

/-- A node is taken off, and nobody has connected since it was there. -/
theorem events_erase (h : AuthInv ps w) {name : String} {node : RegisteredNode} (hnode : w.nodes.get? name = some node)
    (other : String) :
    Alternates (published (w.events ++ [⟨name, false⟩]) other) ((w.nodes.erase name).get? other).isSome := by
  have hevents := h.events other
  rw [SortedMap.get?_erase]
  by_cases hother : other = name
  · subst hother
    rw [hnode] at hevents
    rw [published_append_self, if_pos rfl]
    exact hevents.append
  · rw [published_append_ne _ (Ne.symm hother), if_neg hother]
    exact hevents

/-- The stop of a peer. -/
theorem AuthInv.revoke (h : AuthInv ps w) {pass : Reconcile} (hlock : w.lock = some (.manager (.stopping pass))) :
    AuthInv ps { w.revoke pass.name with lock := some (.manager (.stopped pass)) } := by
  have hfree := h.free fun i hi => by
    rw [hlock] at hi
    cases hi
  have hstops : ∀ {name}, w.Stopping name → name = pass.name := by
    rintro name ⟨pass', hpass, rfl⟩
    rw [hlock] at hpass
    cases hpass
    rfl
  unfold World.revoke
  rcases hnode : w.nodes.get? pass.name with _ | node
  · refine { h with holder := fun {i} hi => ?_, nodes := fun {name node} hfound => ?_ }
    · exact absurd ((hfree i).symm.trans hi) (by decide)
    · obtain ⟨config, hjoin, hname, hget⟩ := h.nodes hfound
      refine ⟨config, hjoin, hname, .inl (hget.resolve_right fun hstopping => ?_)⟩
      rw [hstops hstopping, hnode] at hfound
      cases hfound
  · refine { h with holder := fun {i} hi => ?_, nodes := fun {name node} hfound => ?_, events := events_erase h hnode }
    · exact absurd ((hfree i).symm.trans hi) (by decide)
    · rw [SortedMap.get?_erase] at hfound
      split_ifs at hfound with hne
      obtain ⟨config, hjoin, hname, hget⟩ := h.nodes hfound
      exact ⟨config, hjoin, hname, .inl (hget.resolve_right fun hstopping => hne (hstops hstopping))⟩

/-- A checked join registers, or finds its name taken. -/
theorem AuthInv.connect (h : AuthInv ps w) {i : ℕ} {config : NodeConfig} {fresh : Uuid} (hi : w.joins i = .checked config)
    (hfresh : fresh ∉ w.uuids) : AuthInv ps (w.connect i config fresh) := by
  have hlock : w.lock = some (.join i) := h.holder (by rw [hi]; rfl)
  have hcurrent := not_stopping (.inr ⟨i, rfl⟩) hlock
  unfold World.connect
  rcases hname : w.nodes.get? config.name with _ | node
  · have hat : ∀ j, j ≠ i → Function.update w.joins i (.connected config fresh) j = w.joins j := fun j hj =>
      Function.update_of_ne hj _ _
    have hself : Function.update w.joins i (.connected config fresh) i = .connected config fresh :=
      Function.update_self _ _ _
    have hothers : ∀ j, (w.joins j).holdsLock = true → j = i := fun j hj => by
      have hheld := h.holder hj
      rw [hlock] at hheld
      cases hheld
      rfl
    refine
      { rows := fun hrow => List.mem_cons_of_mem _ (h.rows hrow)
        captured := fun {j captured} hj => ?_
        holder := fun {j} hj => ?_
        checked := fun {j checked} hj => ?_
        made := fun {j config' generation} hj => ?_
        apart := fun {j k config' config'' generation} hj hk => ?_
        nodes := fun {name node} hnode => ?_
        events := fun name => ?_ }
    · by_cases hji : j = i
      · subst hji
        dsimp only at hj
        rw [hself] at hj
        cases hj
        obtain ⟨hrevision, hrest⟩ := h.captured (by rw [hi]; rfl)
        exact ⟨List.mem_cons_of_mem _ hrevision, hrest⟩
      · dsimp only at hj
        rw [hat j hji] at hj
        obtain ⟨hrevision, hrest⟩ := h.captured hj
        exact ⟨List.mem_cons_of_mem _ hrevision, hrest⟩
    · by_cases hji : j = i
      · subst hji
        dsimp only at hj
        rw [hself] at hj
        cases hj
      · dsimp only at hj
        rw [hat j hji] at hj
        exact absurd (hothers j hj) hji
    · by_cases hji : j = i
      · subst hji
        dsimp only at hj
        rw [hself] at hj
        cases hj
      · dsimp only at hj
        rw [hat j hji] at hj
        exact absurd (hothers j (by rw [hj]; rfl)) hji
    · by_cases hji : j = i
      · subst hji
        dsimp only at hj
        rw [hself] at hj
        cases hj
        exact List.mem_cons_self
      · dsimp only at hj
        rw [hat j hji] at hj
        exact List.mem_cons_of_mem _ (h.made hj)
    · dsimp only at hj hk
      by_cases hji : j = i <;> by_cases hki : k = i
      · rw [hji, hki]
      · rw [hji, hself] at hj
        cases hj
        rw [hat k hki] at hk
        exact absurd (h.made hk) hfresh
      · rw [hki, hself] at hk
        cases hk
        rw [hat j hji] at hj
        exact absurd (h.made hj) hfresh
      · rw [hat j hji] at hj
        rw [hat k hki] at hk
        exact h.apart hj hk
    · dsimp only at hnode ⊢
      rw [SortedMap.get?_insert] at hnode
      split_ifs at hnode with heq
      · cases hnode
        exact ⟨config, hself, heq.symm, .inl (heq ▸ h.checked hi)⟩
      · obtain ⟨config', hjoin, hname', hget⟩ := h.nodes hnode
        have hne : node.handle ≠ i := fun hhandle => by
          rw [hhandle, hi] at hjoin
          cases hjoin
        exact ⟨config', (hat _ hne).trans hjoin, hname', .inl (hget.resolve_right (hcurrent name))⟩
    · have hevents := h.events name
      rw [SortedMap.get?_insert]
      by_cases heq : name = config.name
      · subst heq
        rw [hname] at hevents
        rw [published_append_self, if_pos rfl]
        exact hevents.append
      · rw [published_append_ne _ (Ne.symm heq), if_neg heq]
        exact hevents
  · refine @AuthInv.move _ _ h i .ended none (fun _ _ hc => ?_) (fun _ _ hc => ?_) (fun _ hc => ?_) (fun hc => ?_)
      (fun _ hc => ?_) (.inr (.inr hlock))
    · rw [hi] at hc
      cases hc
    all_goals cases hc

/-- The relay of a connection is over. Its generation names at most its own entry. -/
theorem disconnect_nodes (h : AuthInv ps w) {i : ℕ} {config : NodeConfig} {generation : Uuid}
    (hi : w.joins i = .connected config generation) {name : String} {node : RegisteredNode} :
    (w.disconnect config.name generation).nodes.get? name = some node ↔
      w.nodes.get? name = some node ∧ node.handle ≠ i := by
  have hown : ∀ {name : String} {node : RegisteredNode}, w.nodes.get? name = some node →
      (node.handle = i ↔ name = config.name ∧ node.generation = generation) := by
    intro name node hnode
    obtain ⟨captured, hjoin, hname, -⟩ := h.nodes hnode
    constructor
    · intro hhandle
      rw [hhandle, hi] at hjoin
      cases hjoin
      exact ⟨hname.symm, rfl⟩
    · rintro ⟨-, hgeneration⟩
      rw [hgeneration] at hjoin
      exact h.apart hjoin hi
  unfold World.disconnect
  split_ifs with hstale
  · refine ⟨fun hnode => ⟨hnode, fun hhandle => ?_⟩, And.left⟩
    obtain ⟨hname, hgeneration⟩ := (hown hnode).mp hhandle
    rw [← hname, hnode] at hstale
    simp [hgeneration] at hstale
  · dsimp only
    rw [SortedMap.get?_erase]
    split_ifs with hname
    · refine ⟨nofun, fun ⟨hnode, hhandle⟩ => ?_⟩
      rw [← hname, hnode] at hstale
      simp only [Option.all_some, decide_eq_true_eq, not_not] at hstale
      exact absurd ((hown hnode).mpr ⟨hname, hstale⟩) hhandle
    · refine ⟨fun hnode => ⟨hnode, fun hhandle => hname ((hown hnode).mp hhandle).1⟩, And.left⟩

theorem disconnect_fields (w : World) (name : String) (generation : Uuid) :
    (w.disconnect name generation).db = w.db ∧ (w.disconnect name generation).lock = w.lock ∧
      (w.disconnect name generation).joins = w.joins ∧ (w.disconnect name generation).uuids = w.uuids := by
  unfold World.disconnect
  split_ifs <;> exact ⟨rfl, rfl, rfl, rfl⟩

theorem disconnect_events (h : AuthInv ps w) (name other : String) (generation : Uuid) :
    Alternates (published (w.disconnect name generation).events other)
      ((w.disconnect name generation).nodes.get? other).isSome := by
  unfold World.disconnect
  split_ifs with hstale
  · exact h.events other
  · rcases hnode : w.nodes.get? name with _ | node
    · rw [hnode] at hstale
      exact absurd rfl hstale
    · exact events_erase h hnode other

theorem AuthInv.disconnect (h : AuthInv ps w) {i : ℕ} {config : NodeConfig} {generation : Uuid}
    (hi : w.joins i = .connected config generation) :
    AuthInv ps ((w.disconnect config.name generation).move i .ended (w.disconnect config.name generation).lock) := by
  obtain ⟨hdb, hlock, hjoins, huuids⟩ := disconnect_fields w config.name generation
  have hat : ∀ j join, join ≠ .ended → Function.update w.joins i .ended j = join → j ≠ i ∧ w.joins j = join := by
    intro j join hne hj
    by_cases hji : j = i
    · rw [hji, Function.update_self] at hj
      exact absurd hj.symm hne
    · rw [Function.update_of_ne hji] at hj
      exact ⟨hji, hj⟩
  unfold World.move
  rw [hjoins]
  refine
    { rows := fun hrow => ?_
      captured := fun {j captured} hj => ?_
      holder := fun {j} hj => ?_
      checked := fun {j checked} hj => ?_
      made := fun {j config' made} hj => ?_
      apart := fun {j k config' config'' made} hj hk => ?_
      nodes := fun {name node} hnode => ?_
      events := fun name => disconnect_events h config.name name generation }
  · dsimp only at hrow ⊢
    rw [hdb] at hrow
    rw [huuids]
    exact h.rows hrow
  · dsimp only at hj ⊢
    rw [huuids]
    by_cases hji : j = i
    · rw [hji, Function.update_self] at hj
      cases hj
    · rw [Function.update_of_ne hji] at hj
      exact h.captured hj
  · dsimp only at hj ⊢
    rw [hlock]
    by_cases hji : j = i
    · rw [hji, Function.update_self] at hj
      cases hj
    · rw [Function.update_of_ne hji] at hj
      exact h.holder hj
  · dsimp only
    rw [hdb]
    exact h.checked (hat _ (.checked _) nofun hj).2
  · dsimp only
    rw [huuids]
    exact h.made (hat _ (.connected _ _) nofun hj).2
  · exact h.apart (hat _ (.connected _ _) nofun hj).2 (hat _ (.connected _ _) nofun hk).2
  · obtain ⟨hnode, hhandle⟩ := (disconnect_nodes h hi).mp hnode
    obtain ⟨captured, hjoin, hname, hget⟩ := h.nodes hnode
    refine ⟨captured, ?_, hname, ?_⟩
    · exact (Function.update_of_ne hhandle _ _).trans hjoin
    · unfold World.Stopping
      rw [hdb, hlock]
      exact hget

/-- **One step keeps the invariant.** -/
theorem authInv_step {a : Action} {w' : World} (h : AuthInv ps w) (hstep : w.step ps a = some w') : AuthInv ps w' := by
  cases step_effect hstep with
  | pass hjoin hstop => exact h.pass (h.free hjoin) hstop
  | write hjoin hstop hfresh hdb => exact h.write (h.free hjoin) hstop hdb
  | revoke hlock => exact h.revoke hlock
  | @move i join lock hold hnew hcaptured hkept hholds hchecked hlock =>
    refine h.move hold.2 hnew (fun config hc => ?_) (fun hj => ?_) hchecked ?_
    · rcases hcaptured config hc with hsame | ⟨-, hrole, henabled, name, hget⟩
      · exact h.captured hsame
      · obtain ⟨row, hrow, -, hrevision⟩ := getNode_ok hget
        exact ⟨hrevision ▸ h.rows hrow, hrole, henabled⟩
    · rcases hholds hj with hmine | ⟨hkeeps, hi⟩
      · exact hmine
      · exact hkeeps.trans (h.holder hi)
    · exact hlock.imp_right fun hfree => hfree.imp_right h.holder
  | connect hi hfresh => exact h.connect hi hfresh
  | disconnect hi => exact h.disconnect hi

theorem authInv_run {table : Table} {as : List Action} (h : Runs.run (World.step ps) (.start table) as = some w) :
    AuthInv ps w :=
  Runs.run_invariant (fun hinv hstep => authInv_step hinv hstep) h (authInv_start table)

/-! ### Stale joins -/

/-- The join is over, or has captured what is not the persisted configuration. -/
def Barred (ps : Parsers) (w : World) (i : ℕ) : Prop :=
  w.joins i = .ended ∨ ∃ config, (w.joins i).captured = some config ∧
    ∀ current, getNode ps w.db config.name = .ok (some current) → current.revision ≠ config.revision

/-- The registry has the connection of a join. -/
def Registered (w : World) (i : ℕ) : Prop := ∃ name node, w.nodes.get? name = some node ∧ node.handle = i

/-- A step of some join, and what it does to join `i`. -/
theorem barred_update {i j : ℕ} {join : Join} (hbarred : Barred ps w i)
    (hold : w.joins j ≠ .ended) (hkept : join = .ended ∨ w.joins j = .upgraded ∨ join.captured = (w.joins j).captured) :
    Function.update w.joins j join i = .ended ∨ ∃ config, (Function.update w.joins j join i).captured = some config ∧
      ∀ current, getNode ps w.db config.name = .ok (some current) → current.revision ≠ config.revision := by
  by_cases hij : i = j
  · subst hij
    rw [Function.update_self]
    rcases hbarred with hended | ⟨config, hcaptured, hstale⟩
    · exact absurd hended hold
    · rcases hkept with rfl | hupgraded | hsame
      · exact .inl rfl
      · rw [hupgraded] at hcaptured
        cases hcaptured
      · exact .inr ⟨config, hsame.trans hcaptured, hstale⟩
  · rw [Function.update_of_ne hij]
    exact hbarred

/-- **A stale join stays stale**: the persisted revision only changes to fresh ones. -/
theorem step_barred {a : Action} {w' : World} {i : ℕ} (h : AuthInv ps w) (hstep : w.step ps a = some w')
    (hbarred : Barred ps w i) : Barred ps w' i := by
  cases step_effect hstep with
  | pass hjoin hstop => exact hbarred
  | @write db fresh pass hjoin hstop hfresh hdb =>
    rcases hdb with rfl | hchange
    · exact hbarred
    · refine hbarred.imp_right fun ⟨config, hcaptured, hstale⟩ => ⟨config, hcaptured, fun current hget => ?_⟩
      by_cases hname : config.name = pass.name
      · obtain ⟨row, hrow, -, hrevision⟩ := getNode_ok hget
        rw [hrevision, hchange.revision (hname ▸ hrow)]
        exact fun heq => hfresh (heq ▸ (h.captured hcaptured).1)
      · exact hstale current ((getNode_congr (hchange.others hname)).symm.trans hget)
  | @revoke pass hlock =>
    unfold World.revoke
    split <;> exact hbarred
  | move hold hnew hcaptured hkept hholds hchecked hlock => exact barred_update hbarred hold.1 hkept
  | @connect j config fresh hj hfresh =>
    have hold : w.joins j ≠ .ended := by
      rw [hj]
      nofun
    unfold World.connect
    split
    · exact barred_update hbarred hold (.inl rfl)
    · refine barred_update hbarred hold (.inr (.inr ?_))
      rw [hj]
      rfl
  | @disconnect j config generation hj =>
    obtain ⟨hdb, -, hjoins, -⟩ := disconnect_fields w config.name generation
    unfold Barred World.move
    dsimp only
    rw [hdb, hjoins]
    refine barred_update hbarred ?_ (.inl rfl)
    rw [hj]
    nofun

/-- A stale join is registered only until it has been stopped. -/
theorem AuthInv.not_registered (h : AuthInv ps w) {i : ℕ} (hbarred : Barred ps w i) (hquiet : w.mutating = false) :
    ¬ Registered w i := by
  rintro ⟨name, node, hnode, rfl⟩
  obtain ⟨config, hjoin, rfl, hget⟩ := h.nodes hnode
  rcases hget with hget | ⟨pass, hlock, -⟩
  · rcases hbarred with hended | ⟨captured, hcaptured, hstale⟩
    · rw [hjoin] at hended
      cases hended
    · rw [hjoin] at hcaptured
      cases hcaptured
      exact hstale config hget rfl
  · rw [World.mutating, hlock] at hquiet
    cases hquiet

/-- A stale join does not register. -/
theorem step_not_registered {a : Action} {w' : World} {i : ℕ} (h : AuthInv ps w) (hstep : w.step ps a = some w')
    (hbarred : Barred ps w i) (hout : ¬ Registered w i) : ¬ Registered w' i := by
  cases step_effect hstep with
  | pass hjoin hstop => exact hout
  | write hjoin hstop hfresh hdb => exact hout
  | @revoke pass hlock =>
    unfold World.revoke
    split
    · exact hout
    · rintro ⟨name, node, hnode, hhandle⟩
      rw [SortedMap.get?_erase] at hnode
      split_ifs at hnode
      exact hout ⟨name, node, hnode, hhandle⟩
  | move hold hnew hcaptured hkept hholds hchecked hlock => exact hout
  | @connect j config fresh hj hfresh =>
    unfold World.connect
    split
    · exact hout
    · rintro ⟨name, node, hnode, hhandle⟩
      rw [SortedMap.get?_insert] at hnode
      split_ifs at hnode
      · cases hnode
        have hij : j = i := hhandle
        subst hij
        rcases hbarred with hended | ⟨captured, hcaptured, hstale⟩
        · rw [hj] at hended
          cases hended
        · rw [hj] at hcaptured
          cases hcaptured
          exact hstale config (h.checked hj) rfl
      · exact hout ⟨name, node, hnode, hhandle⟩
  | @disconnect j config generation hj =>
    rintro ⟨name, node, hnode, hhandle⟩
    exact hout ⟨name, node, ((disconnect_nodes h hj).mp hnode).1, hhandle⟩

/-- Once it is stopped, a stale join stays out. -/
theorem run_not_registered {as : List Action} {w' : World} {i : ℕ} (h : AuthInv ps w) (hbarred : Barred ps w i)
    (hout : ¬ Registered w i) (hrun : Runs.run (World.step ps) w as = some w') : ¬ Registered w' i :=
  (Runs.run_invariant (I := fun w => AuthInv ps w ∧ Barred ps w i ∧ ¬ Registered w i)
    (fun ⟨h, hbarred, hout⟩ hstep =>
      ⟨authInv_step h hstep, step_barred h hstep hbarred, step_not_registered h hstep hbarred hout⟩)
    hrun ⟨h, hbarred, hout⟩).2.2

/-- A write of a peer's row makes every join stale that has captured the peer's configuration. -/
theorem barred_of_write {fresh : Uuid} {ok : Bool} {w' : World} {i : ℕ} {config : NodeConfig} (h : AuthInv ps w)
    (hwrite : w.step ps (.write fresh ok) = some w') (hchanged : w'.db.get? config.name ≠ w.db.get? config.name)
    (hcaptured : (w.joins i).captured = some config) : Barred ps w' i := by
  unfold World.step at hwrite
  dsimp only at hwrite
  split at hwrite
  · rename_i request hlock
    by_cases hfresh : fresh ∈ w.uuids
    · rw [if_pos hfresh] at hwrite
      cases hwrite
    rw [if_neg hfresh] at hwrite
    generalize hhandled : (if ok = true then handle ps w.db fresh request else .error .database) = handled at hwrite
    rcases handled with e | _ | ⟨db, pass⟩ <;> cases hwrite
    · exact absurd rfl hchanged
    · exact absurd rfl hchanged
    · split_ifs at hhandled
      rcases handle_ok hhandled with rfl | hchange
      · exact absurd rfl hchanged
      · refine .inr ⟨config, hcaptured, fun current hget => ?_⟩
        have hname : config.name = pass.name := by
          by_contra hne
          exact hchanged (hchange.others hne)
        obtain ⟨row, hrow, -, hrevision⟩ := getNode_ok hget
        rw [hrevision, hchange.revision (hname ▸ hrow)]
        exact fun heq => hfresh (heq ▸ (h.captured hcaptured).1)
  · cases hwrite

end Invariant

/-- **Authorization of inbound nodes is fenced.** While no request is at work, every registered
connection joined with what is persisted and enabled under its name. Once a request that has
changed a peer's row has returned, no join that had captured the peer's configuration before is
registered, then or later. The end of a connection leaves every other one. The states published
of one name alternate, from disconnected. -/
theorem authorization_fenced (ps : Parsers) (table : Table) (as : List Action) (w : World)
    (hrun : Runs.run (World.step ps) (.start table) as = some w) :
    (w.mutating = false → ∀ name node, w.nodes.get? name = some node →
      ∃ config, w.joins node.handle = .connected config node.generation ∧ config.name = name ∧
        config.role = .secondary ∧ config.enabled = true ∧ getNode ps w.db name = .ok (some config)) ∧
    (∀ fresh ok w₁ i config, (w.joins i).captured = some config → w.step ps (.write fresh ok) = some w₁ →
      w₁.db.get? config.name ≠ w.db.get? config.name →
      ∀ bs w₂, Runs.run (World.step ps) w₁ bs = some w₂ → w₂.mutating = false →
      ∀ cs w₃, Runs.run (World.step ps) w₂ cs = some w₃ →
      ∀ name node, w₃.nodes.get? name = some node → node.handle ≠ i) ∧
    (∀ i w', w.step ps (.disconnect i) = some w' →
      ∀ name node, w.nodes.get? name = some node → node.handle ≠ i → w'.nodes.get? name = some node) ∧
    ∀ name, (false :: published w.events name).IsChain (· ≠ ·) := by
  have h := authInv_run hrun
  refine ⟨fun hquiet name node hnode => ?_,
    fun fresh ok w₁ i config hcaptured hwrite hchanged bs w₂ hbs hquiet cs w₃ hcs name node hnode hhandle => ?_,
    fun i w' hstep name node hnode hhandle => ?_, fun name => (h.events name).chain⟩
  · obtain ⟨config, hjoin, hname, hget⟩ := h.nodes hnode
    obtain ⟨-, hrole, henabled⟩ := @h.captured node.handle config (by rw [hjoin]; rfl)
    refine ⟨config, hjoin, hname, hrole, henabled, hget.resolve_right ?_⟩
    rintro ⟨pass, hlock, -⟩
    rw [World.mutating, hlock] at hquiet
    cases hquiet
  · have hbarred := barred_of_write h hwrite hchanged hcaptured
    obtain ⟨h₂, hbarred₂⟩ := Runs.run_invariant (I := fun w => AuthInv ps w ∧ Barred ps w i)
      (fun ⟨h, hbarred⟩ hstep => ⟨authInv_step h hstep, step_barred h hstep hbarred⟩) hbs
      ⟨authInv_step h hwrite, hbarred⟩
    exact run_not_registered h₂ hbarred₂ (h₂.not_registered hbarred₂ hquiet) hcs ⟨name, node, hnode, hhandle⟩
  · unfold World.step at hstep
    dsimp only at hstep
    split at hstep
    · rename_i config generation hi
      cases hstep
      exact (disconnect_nodes h hi).mpr ⟨hnode, hhandle⟩
    · cases hstep

def aliceKey : String := "ed25519 11qYAYKxCrfVS/7TyWQHOg7hcvPapiMlrwIaaPcHURo="

/-- One key and no URL. -/
def aliceParsers : Parsers where
  parsePublicKey s := if s = aliceKey then .ok s else .error (.protocol "expected public key")
  parseUrl _ := .error (.protocol "invalid node URL")

/-- The introduction that goes with it. -/
def aliceHello : Hello := ⟨2, "alice", aliceKey⟩

/-- A peer is added, disabled and enabled again. A join that had captured its first
configuration is refused; another one registers, is stopped by an update, and disconnects
after the next one has registered. -/
def rejoined : List Action := [
  .acquire (.nodeAdd ⟨"alice", .secondary, aliceKey, none, none, false, 0⟩), .write 1 true, .revoke, .start,
  .hello 0 aliceHello true, .proof 0 true, .ready 0 true,
  .acquire (.nodeSetEnabled "alice" false), .write 2 true, .revoke, .start,
  .acquire (.nodeSetEnabled "alice" true), .write 3 true, .revoke, .start,
  .hello 1 aliceHello true, .lock 0, .check 0 true, .proof 1 true, .ready 1 true, .lock 1, .check 1 true, .connect 1 4,
  .acquire (.nodeSetEnabled "alice" false), .write 5 true, .revoke, .start,
  .acquire (.nodeSetEnabled "alice" true), .write 6 true, .revoke, .start,
  .hello 2 aliceHello true, .proof 2 true, .ready 2 true, .lock 2, .check 2 true, .connect 2 7, .disconnect 1]

theorem authorization_fenced_rejoined :
    ∃ w, Runs.run (World.step aliceParsers) (.start .empty) rejoined = some w ∧ w.joins 0 = .ended ∧
      w.nodes.get? "alice" = some ⟨7, 2⟩ ∧ published w.events "alice" = [true, false, true] ∧
      (false :: published w.events "alice").IsChain (· ≠ ·) ∧
      ∃ config, w.joins 2 = .connected config 7 ∧ getNode aliceParsers w.db "alice" = .ok (some config) := by
  have hrun : (Runs.run (World.step aliceParsers) (.start .empty) rejoined).any (fun w => decide
      (w.mutating = false ∧ w.joins 0 = .ended ∧ w.nodes.get? "alice" = some ⟨7, 2⟩ ∧
        published w.events "alice" = [true, false, true])) = true := by
    decide +kernel
  obtain ⟨w, hw, hend⟩ := (Option.any_eq_true _ _).mp hrun
  obtain ⟨hquiet, hrefused, hnode, hpublished⟩ := of_decide_eq_true hend
  obtain ⟨hcurrent, -, -, halternate⟩ := authorization_fenced aliceParsers .empty rejoined w hw
  obtain ⟨config, hjoin, -, -, -, hget⟩ := hcurrent hquiet "alice" _ hnode
  exact ⟨w, hw, hrefused, hnode, hpublished, halternate "alice", config, hjoin, hget⟩

end Nodes
end Federation
end OpenRelay
