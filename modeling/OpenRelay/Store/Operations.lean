/-
# Operations on the session store

The store's state: the rows of the database, the session directories, the table of
live sessions, the ids reserved for a start, and the operations in flight. An
operation takes one step at a time, between two of its awaits or around one lock, and
any operation may take the next one: starts, deletes, updates of metadata, the sweep
that persists and evicts. What a call outside the process returns is given with the
step (`Env`).
-/
import Mathlib
import OpenRelay.Store.Metadata

namespace OpenRelay
namespace Store

open Session (SessionStatus ExitCode TryWait)

variable {Id : Type*} [LinearOrder Id]

/-- What a step finds outside: whether a call succeeds, the time, the child, a drawn id. -/
structure Env (Id : Type*) where
  ok : Bool
  now : ℕ
  child : TryWait
  /-- The child once more, after it was killed. -/
  after : TryWait
  id : Id
  pid : Option ℕ

/-! ### Operations in flight -/

/-- What a start is asked for, as validated. -/
structure StartSpec where
  title : Option String
  tags : List String
  notificationsEnabled : Bool
  deriving DecidableEq, Repr

/-- Where the undoing of a start is. -/
inductive AbortStage where
  | release
  | findDir
  | removeDir
  | deleteRow
  | getRow
  | updateRow (metadata : SessionMeta)
  deriving DecidableEq, Repr

/-- What a start returns. -/
inductive StartResult (Id : Type*) where
  | refused
  | notInserted (id : Id)
  | committed (id : Id)
  /-- The start has failed and is undone; `clean` is whether what it deleted is gone. -/
  | aborted (id : Id) (clean : Bool)
  deriving DecidableEq, Repr

/-- Where a start is. -/
inductive StartPhase (Id : Type*) where
  | called (spec : StartSpec)
  /-- It has read the table of live sessions. -/
  | loaded (spec : StartSpec) (runningCount : ℕ) (known : List Id)
  /-- It has reserved its id; the row is to be inserted. -/
  | inserting (id : Id) (metadata : SessionMeta)
  | insertFailed (id : Id)
  /-- The row is there; the directory is to be made. -/
  | prepared (id : Id) (metadata : SessionMeta)
  | housed (id : Id) (metadata : SessionMeta)
  /-- The child runs; the row is to be updated. -/
  | spawned (id : Id) (metadata : SessionMeta) (rt : ℕ)
  | updated (id : Id) (rt : ℕ) (ok : Bool)
  /-- The reservation is released; the session is to be published. -/
  | publishing (id : Id) (rt : ℕ)
  /-- The commit has failed; the child is to be killed. -/
  | cleanup (id : Id) (rt : ℕ)
  | aborting (id : Id) (stage : AbortStage)
  | returned (result : StartResult Id)
  deriving DecidableEq, Repr

/-- What a delete returns. -/
inductive DeleteResult where
  | stillRunning
  | notFound
  | failed
  | deleted
  deriving DecidableEq, Repr

/-- Where a delete is. `had` is whether it found a live session, `kill` what became of its
termination, if there was one. -/
inductive DeletePhase where
  | called
  | holding (rt : ℕ)
  | terminating (rt : ℕ)
  | killing (rt : ℕ)
  | checkTombstone
  | findDir (had : Bool) (kill : Option Bool)
  | removeDir (had : Bool) (kill : Option Bool)
  | deleteRow (had : Bool) (kill : Option Bool)
  | unlink (had : Bool) (kill : Option Bool)
  | untomb (kill : Option Bool)
  | returned (kill : Option Bool) (result : DeleteResult)
  deriving DecidableEq, Repr

/-- A request to change a session's metadata, as validated. -/
structure MetadataUpdate where
  /-- A given title, which may clear the one there is. -/
  title : Option (Option String)
  tags : Option (List String)
  notificationsEnabled : Option Bool
  deriving DecidableEq, Repr

/-- Where an update of metadata is. -/
inductive UpdatePhase where
  | called
  | holding (rt : ℕ)
  | writing (rt : ℕ) (metadata : SessionMeta)
  | offline
  | writingRow (metadata : SessionMeta)
  | returned (ok : Bool)
  deriving DecidableEq, Repr

/-- Where a change of the notification setting is. -/
inductive NotifyPhase where
  | called
  | holding (rt : ℕ)
  | writing (rt : ℕ) (metadata : SessionMeta) (previous : Bool)
  | rollback (rt : ℕ) (previous : Bool)
  | returned (ok : Bool)
  deriving DecidableEq, Repr

/-- Where a sweep is. -/
inductive SweepPhase (Id : Type*) where
  | called
  | collecting (all todo : List (Id × ℕ)) (toPersist : List (Id × SessionMeta))
  | persisting (all : List (Id × ℕ)) (toPersist : List (Id × SessionMeta))
  | evicting (todo : List (Id × ℕ)) (evicted : List Id)
  | unlinking (evicted : List Id)
  | entombing (evicted : List Id)
  | returned
  deriving DecidableEq, Repr

/-- An operation under way, or what is left of it. -/
inductive Op (Id : Type*) where
  /-- `releases` counts the times it has taken an id out of the reserved ones. -/
  | start (phase : StartPhase Id) (releases : ℕ)
  | delete (id : Id) (force : Bool) (phase : DeletePhase)
  | update (id : Id) (change : MetadataUpdate) (phase : UpdatePhase)
  | notify (id : Id) (enabled : Bool) (phase : NotifyPhase)
  | sweep (phase : SweepPhase Id)
  deriving DecidableEq, Repr

/-! ### The state -/

/-- The store: database, directories, runtimes and tables, and the operations on them. -/
structure SessionStore (Id : Type*) [LinearOrder Id] where
  /-- The rows of the database. -/
  rows : SortedMap Id SessionMeta
  /-- The session directories. -/
  dirs : Finset Id
  /-- The runtimes, whoever holds them. -/
  runtimes : List Runtime
  /-- The table of live sessions. -/
  live : SortedMap Id ℕ
  starting : Finset Id
  evicted : Finset Id
  /-- The rows that a restart has still to reconcile; while there are any, nothing is served. -/
  booting : Option (List (Id × SessionMeta))
  ops : List (Op Id)

namespace SessionStore

variable (s : SessionStore Id)

/-- Is this runtime's session still running? -/
def isRunning (rt : ℕ) : Bool := s.runtimes[rt]?.any fun r => !r.isCompleted

/-- The sessions of the table that are running. -/
def runningCount : ℕ := s.live.entries.countP fun e => s.isRunning e.2

def setRuntime (rt : ℕ) (r : Runtime) : SessionStore Id := { s with runtimes := s.runtimes.set rt r }

/-- A statement that updates a row; it changes nothing where there is none. -/
def updateSession (id : Id) (metadata : SessionMeta) : SessionStore Id :=
  { s with rows := s.rows.adjust id fun _ => metadata }

def release (id : Id) : SessionStore Id := { s with starting := s.starting.erase id }

/-- How often a removal of this id from the reserved ones removes something. -/
def releases (id : Id) : ℕ := if id ∈ s.starting then 1 else 0

def hasRow (id : Id) : Bool := (s.rows.get? id).isSome

end SessionStore

/-! ### A start -/

/-- The metadata that a start begins with. -/
def StartSpec.metadata (spec : StartSpec) : SessionMeta where
  title := spec.title
  tags := spec.tags
  status := .running
  pid := none
  exitCode := none
  endedAt := none
  notificationsEnabled := spec.notificationsEnabled

/-- `prepare_start_session`, `spawn_session`, `commit_started_session` and, where one of them
fails, `abort_started_session`. -/
def startStep (maxRunningSessions : ℕ) (s : SessionStore Id) (env : Env Id) (n : ℕ) : StartPhase Id → Option (SessionStore Id × Op Id)
  | .called spec => some (s, .start (.loaded spec s.runningCount s.live.keys) n)
  | .loaded spec runningCount known =>
    if maxRunningSessions ≤ runningCount + s.starting.card then some (s, .start (.returned .refused) n)
    -- the disk guard, or the metadata's own bounds
    else if env.ok = false then some (s, .start (.returned .refused) n)
    -- the generator draws again
    else if env.id ∈ known ∨ env.id ∈ s.starting then none
    else some ({ s with starting := insert env.id s.starting }, .start (.inserting env.id spec.metadata) n)
  | .inserting id metadata =>
    if env.ok = true ∧ s.hasRow id = false then
      some ({ s with rows := s.rows.insert id metadata }, .start (.prepared id metadata) n)
    else some (s, .start (.insertFailed id) n)
  | .insertFailed id => some (s.release id, .start (.returned (.notInserted id)) (n + s.releases id))
  | .prepared id metadata =>
    if env.ok then some ({ s with dirs := insert id s.dirs }, .start (.housed id metadata) n)
    else some (s, .start (.aborting id .release) n)
  | .housed id metadata =>
    if env.ok then
      let metadata := { metadata with pid := env.pid }
      some ({ s with runtimes := s.runtimes ++ [.spawned metadata] }, .start (.spawned id metadata s.runtimes.length) n)
    else some (s, .start (.aborting id .release) n)
  | .spawned id metadata rt =>
    if env.ok then some (s.updateSession id metadata, .start (.updated id rt true) n)
    else some (s, .start (.updated id rt false) n)
  | .updated id rt ok =>
    some (s.release id, .start (if ok then .publishing id rt else .cleanup id rt) (n + s.releases id))
  | .publishing id rt => some ({ s with live := s.live.insert id rt }, .start (.returned (.committed id)) n)
  | .cleanup id rt =>
    (s.runtimes[rt]?).map fun r =>
      (s.setRuntime rt (r.markCompleted env.now .failed none), .start (.aborting id .release) n)
  | .aborting id .release => some (s.release id, .start (.aborting id .findDir) (n + s.releases id))
  | .aborting id .findDir =>
    -- a query that fails counts as a row that is not there
    some (s, .start (.aborting id (if env.ok = true ∧ s.hasRow id = true then .removeDir else .deleteRow)) n)
  | .aborting id .removeDir =>
    if env.ok then some ({ s with dirs := s.dirs.erase id }, .start (.aborting id .deleteRow) n)
    else some (s, .start (.returned (.aborted id false)) n)
  | .aborting id .deleteRow =>
    if env.ok then some ({ s with rows := s.rows.erase id }, .start (.returned (.aborted id true)) n)
    else some (s, .start (.aborting id .getRow) n)
  | .aborting id .getRow =>
    match if env.ok then s.rows.get? id else none with
    | some metadata =>
      some (s, .start (.aborting id (.updateRow { metadata with
        status := .failed, pid := none, endedAt := some env.now })) n)
    | none => some (s, .start (.returned (.aborted id false)) n)
  | .aborting id (.updateRow metadata) =>
    some (if env.ok then s.updateSession id metadata else s, .start (.returned (.aborted id false)) n)
  | .returned _ => none

/-! ### A delete -/

/-- `delete_session`. -/
def deleteStep (s : SessionStore Id) (env : Env Id) (id : Id) (force : Bool) : DeletePhase → Option (SessionStore Id × Op Id)
  | .called =>
    match s.live.get? id with
    | some rt => some (s, .delete id force (.holding rt))
    | none =>
      some (s, .delete id force (if env.ok = true ∧ s.hasRow id = true then .findDir false none else .checkTombstone))
  | .holding rt =>
    (s.runtimes[rt]?).map fun r =>
      let (r, completed) := r.refreshStatus env.now env.child
      (s.setRuntime rt r, .delete id force <|
        if completed then .findDir true none
        else if force then .terminating rt
        else .returned none .stillRunning)
  | .terminating rt =>
    (s.runtimes[rt]?).map fun r =>
      let (r, terminated) := r.terminate env.now env.child .killed
      (s.setRuntime rt r, .delete id force (if terminated then .findDir true (some true) else .killing rt))
  | .killing rt =>
    -- there is no grace to wait for
    (s.runtimes[rt]?).map fun r =>
      let (r, killed) := r.forceKill env.now env.child env.ok env.after
      (s.setRuntime rt r, .delete id force (.findDir true (some killed)))
  | .checkTombstone =>
    some (s, .delete id force (if id ∈ s.evicted then .findDir false none else .returned none .notFound))
  | .findDir had kill =>
    some (s, .delete id force (if env.ok = true ∧ s.hasRow id = true then .removeDir had kill else .deleteRow had kill))
  | .removeDir had kill =>
    if env.ok then some ({ s with dirs := s.dirs.erase id }, .delete id force (.deleteRow had kill))
    else some (s, .delete id force (.returned kill .failed))
  | .deleteRow had kill =>
    if env.ok then some ({ s with rows := s.rows.erase id }, .delete id force (.unlink had kill))
    else some (s, .delete id force (.returned kill .failed))
  | .unlink had kill =>
    some (if had then { s with live := s.live.erase id } else s, .delete id force (.untomb kill))
  | .untomb kill => some ({ s with evicted := s.evicted.erase id }, .delete id force (.returned kill .deleted))
  | .returned _ _ => none

/-! ### Changes of metadata -/

/-- The change, on metadata alone. -/
def MetadataUpdate.apply (change : MetadataUpdate) (m : SessionMeta) : SessionMeta := { m with
  title := change.title.getD m.title
  tags := change.tags.getD m.tags }

/-- The change on a live session. -/
def MetadataUpdate.adopt (change : MetadataUpdate) (r : Runtime) : Runtime :=
  let r := { r with
    metadata := change.apply r.metadata
    titleUserSet := (change.title.map Option.isSome).getD r.titleUserSet }
  match change.notificationsEnabled with
  | some enabled => r.setNotificationsEnabled enabled
  | none => r

/-- `update_session_metadata`. -/
def updateStep (s : SessionStore Id) (env : Env Id) (id : Id) (change : MetadataUpdate) :
    UpdatePhase → Option (SessionStore Id × Op Id)
  | .called =>
    -- a title out of bounds
    if env.ok = false then some (s, .update id change (.returned false))
    else match s.live.get? id with
      | some rt => some (s, .update id change (.holding rt))
      | none => some (s, .update id change .offline)
  | .holding rt =>
    (s.runtimes[rt]?).map fun r =>
      if change.notificationsEnabled.isSome ∧ r.isCompleted then (s, .update id change (.returned false))
      else (s.setRuntime rt (change.adopt r), .update id change (.writing rt (change.adopt r).metadata))
  | .writing _ metadata =>
    some (if env.ok then s.updateSession id metadata else s, .update id change (.returned env.ok))
  | .offline =>
    match if env.ok then s.rows.get? id else none with
    | some metadata =>
      if change.notificationsEnabled.isSome then some (s, .update id change (.returned false))
      else some (s, .update id change (.writingRow (change.apply metadata)))
    | none => some (s, .update id change (.returned false))
  | .writingRow metadata =>
    some (if env.ok then s.updateSession id metadata else s, .update id change (.returned env.ok))
  | .returned _ => none

/-- `set_notifications_enabled`. -/
def notifyStep (s : SessionStore Id) (env : Env Id) (id : Id) (enabled : Bool) : NotifyPhase → Option (SessionStore Id × Op Id)
  | .called =>
    match s.live.get? id with
    | some rt => some (s, .notify id enabled (.holding rt))
    | none => some (s, .notify id enabled (.returned false))
  | .holding rt =>
    (s.runtimes[rt]?).map fun r =>
      if r.isCompleted then (s, .notify id enabled (.returned false))
      else
        let previous := r.notificationsEnabled
        let r := r.setNotificationsEnabled enabled
        (s.setRuntime rt r, .notify id enabled (.writing rt r.metadata previous))
  | .writing rt metadata previous =>
    if env.ok then some (s.updateSession id metadata, .notify id enabled (.returned true))
    else some (s, .notify id enabled (.rollback rt previous))
  | .rollback rt previous =>
    (s.runtimes[rt]?).map fun r =>
      (s.setRuntime rt (r.setNotificationsEnabled previous), .notify id enabled (.returned false))
  | .returned _ => none

@[simp] theorem MetadataUpdate.adopt_completed (change : MetadataUpdate) (r : Runtime) :
    (change.adopt r).isCompleted = r.isCompleted := by
  unfold MetadataUpdate.adopt
  split
  · exact Runtime.setNotificationsEnabled_completed _
  · rfl

theorem MetadataUpdate.adopt_sound (change : MetadataUpdate) {r : Runtime} (h : r.Sound) : (change.adopt r).Sound := by
  have hchanged : Runtime.Sound { r with
      metadata := change.apply r.metadata
      titleUserSet := (change.title.map Option.isSome).getD r.titleUserSet } :=
    ⟨h.metadata, h.requested⟩
  unfold MetadataUpdate.adopt
  split
  · exact Runtime.setNotificationsEnabled_sound hchanged _
  · exact hchanged

theorem MetadataUpdate.adopt_agrees (change : MetadataUpdate) {r : Runtime} (h : r.Agrees) : (change.adopt r).Agrees := by
  have hchanged : Runtime.Agrees { r with
      metadata := change.apply r.metadata
      titleUserSet := (change.title.map Option.isSome).getD r.titleUserSet } := h
  unfold MetadataUpdate.adopt
  split
  · exact hchanged.set _
  · exact hchanged

/-! ### The sweep -/

/-- `prune_evicted_sessions`. The scan for a resume hint is an action of its own. -/
def sweepStep (s : SessionStore Id) (env : Env Id) : SweepPhase Id → Option (SessionStore Id × Op Id)
  | .called => some (s, .sweep (.collecting s.live.entries s.live.entries []))
  | .collecting all [] toPersist => some (s, .sweep (.persisting all toPersist))
  | .collecting all ((id, rt) :: todo) toPersist =>
    (s.runtimes[rt]?).map fun r =>
      let r := (r.refreshStatus env.now env.child).1
      if r.isCompleted = true ∧ r.persisted = false then
        (s.setRuntime rt { r with persisted := true },
          .sweep (.collecting all todo (toPersist ++ [(id, r.metadata)])))
      else (s.setRuntime rt r, .sweep (.collecting all todo toPersist))
  | .persisting all [] => some (s, .sweep (.evicting all []))
  | .persisting all ((id, metadata) :: toPersist) =>
    some (if env.ok then s.updateSession id metadata else s, .sweep (.persisting all toPersist))
  | .evicting [] evicted => some (s, .sweep (.unlinking evicted))
  | .evicting ((id, rt) :: todo) evicted =>
    (s.runtimes[rt]?).map fun r =>
      -- `env.ok`: the session has ended long enough ago
      if r.isCompleted = true ∧ env.ok = true ∧ (r.outputClosed = false ∨ r.resumeScanned = true) then
        (s, .sweep (.evicting todo (evicted ++ [id])))
      else (s, .sweep (.evicting todo evicted))
  | .unlinking evicted => some ({ s with live := evicted.foldl SortedMap.erase s.live }, .sweep (.entombing evicted))
  | .entombing evicted => some ({ s with evicted := s.evicted ∪ evicted.toFinset }, .sweep .returned)
  | .returned => none

/-! ### The store -/

/-- A call that comes in. -/
inductive Request (Id : Type*) where
  | start (spec : StartSpec)
  | delete (id : Id) (force : Bool)
  | update (id : Id) (change : MetadataUpdate)
  | notify (id : Id) (enabled : Bool)
  | sweep

/-- A request's operation, before its first step. -/
def Request.op : Request Id → Op Id
  | .start spec => .start (.called spec) 0
  | .delete id force => .delete id force .called
  | .update id change => .update id change .called
  | .notify id enabled => .notify id enabled .called
  | .sweep => .sweep .called

/-- What may happen next. -/
inductive Action (Id : Type*) where
  | call (request : Request Id)
  /-- The operation takes its next step. -/
  | advance (op : ℕ) (env : Env Id)
  | runtime (rt : ℕ) (event : Runtime.Event)
  /-- An old tombstone is dropped. -/
  | forget (id : Id)
  /-- The daemon dies, and another one loads the rows that say running or stopping. -/
  | restart (ok : Bool)
  | reconcile (ok : Bool)

/-- A step of an operation, where it can be taken. -/
def opStep (maxRunningSessions : ℕ) (s : SessionStore Id) (env : Env Id) : Op Id → Option (SessionStore Id × Op Id)
  | .start phase n => startStep maxRunningSessions s env n phase
  | .delete id force phase => deleteStep s env id force phase
  | .update id change phase => updateStep s env id change phase
  | .notify id enabled phase => notifyStep s env id enabled phase
  | .sweep phase => sweepStep s env phase

/-- A row of a session that a daemon has left running. -/
def isStale (m : SessionMeta) : Bool :=
  match m.status with
  | .running | .stopping => true
  | .created | .stopped | .killed | .failed => false

/-- What `load_running_stopping_sessions` writes. -/
def reconciled (m : SessionMeta) : SessionMeta := { m with status := .failed, exitCode := none }

/-- A daemon with nothing but what is on disk. -/
def SessionStore.onDisk (rows : SortedMap Id SessionMeta) (dirs : Finset Id) : SessionStore Id where
  rows := rows
  dirs := dirs
  runtimes := []
  live := .empty
  starting := ∅
  evicted := ∅
  booting := none
  ops := []

/-- A new daemon on what the old one has left on disk. -/
def SessionStore.restarted (s : SessionStore Id) (ok : Bool) : SessionStore Id :=
  { SessionStore.onDisk s.rows s.dirs with
    booting := some (if ok then s.rows.entries.filter fun e => isStale e.2 else []) }

def SessionStore.step (maxRunningSessions : ℕ) (s : SessionStore Id) : Action Id → Option (SessionStore Id)
  | .restart ok => some (s.restarted ok)
  | .reconcile ok =>
    match s.booting with
    | some [] => some { s with booting := none }
    | some ((id, metadata) :: todo) =>
      some { if ok then s.updateSession id (reconciled metadata) else s with booting := some todo }
    | none => none
  | action =>
    -- nothing is served before the rows are reconciled
    if s.booting.isSome then none
    else match action with
      | .call request => some { s with ops := s.ops ++ [request.op] }
      | .advance k env => do
        let op ← s.ops[k]?
        let (t, op) ← opStep maxRunningSessions s env op
        some { t with ops := s.ops.set k op }
      | .runtime rt event => (s.runtimes[rt]?).map fun r => s.setRuntime rt (r.apply event)
      | .forget id => some { s with evicted := s.evicted.erase id }
      | .restart _ | .reconcile _ => none

/-! ### What a step is -/

section Step

variable {maxRunningSessions : ℕ} {s t : SessionStore Id}

theorem guarded {p : Bool} {x : Option (SessionStore Id)} (h : (if p then none else x) = some t) : x = some t := by
  split at h
  · cases h
  · exact h

theorem step_call {request : Request Id} (h : s.step maxRunningSessions (.call request) = some t) :
    t = { s with ops := s.ops ++ [request.op] } :=
  (Option.some.inj (guarded h)).symm

/-- An operation takes a step. -/
theorem step_advance {k : ℕ} {env : Env Id} (h : s.step maxRunningSessions (.advance k env) = some t) :
    ∃ op t' op', s.ops[k]? = some op ∧ opStep maxRunningSessions s env op = some (t', op') ∧
      t = { t' with ops := s.ops.set k op' } := by
  obtain ⟨op, hop, h⟩ := Option.bind_eq_some_iff.mp (guarded h)
  obtain ⟨⟨t', op'⟩, hstep, h⟩ := Option.bind_eq_some_iff.mp h
  exact ⟨op, t', op', hop, hstep, (Option.some.inj h).symm⟩

theorem step_runtime {rt : ℕ} {event : Runtime.Event} (h : s.step maxRunningSessions (.runtime rt event) = some t) :
    ∃ r, s.runtimes[rt]? = some r ∧ t = s.setRuntime rt (r.apply event) := by
  obtain ⟨r, hr, rfl⟩ := Option.map_eq_some_iff.mp (guarded h)
  exact ⟨r, hr, rfl⟩

theorem step_forget {id : Id} (h : s.step maxRunningSessions (.forget id) = some t) :
    t = { s with evicted := s.evicted.erase id } :=
  (Option.some.inj (guarded h)).symm

theorem step_reconcile {ok : Bool} (h : s.step maxRunningSessions (.reconcile ok) = some t) :
    t = { s with booting := none } ∨
      ∃ id metadata todo, s.booting = some ((id, metadata) :: todo) ∧
        t = { if ok then s.updateSession id (reconciled metadata) else s with booting := some todo } := by
  simp only [SessionStore.step] at h
  split at h
  · exact .inl (Option.some.inj h).symm
  next id metadata todo hbooting => exact .inr ⟨id, metadata, todo, hbooting, (Option.some.inj h).symm⟩
  · cases h

end Step

end Store
end OpenRelay
