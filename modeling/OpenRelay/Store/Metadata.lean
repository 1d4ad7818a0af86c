/-
# A session's metadata

What the store keeps of a session: the metadata that its row and its runtime both
hold, and the runtime's flags that decide what is written and when. The status of a
runtime changes when its child is seen to have exited, or when a stop is asked for.

Key theorems: `Runtime.refreshStatus_sound`, `Runtime.terminate_sound`.
-/
import OpenRelay.Session.Runtime

namespace OpenRelay
namespace Store

open Session (SessionStatus ExitCode TryWait)

/-- The session has ended, whichever way. -/
def isTerminal : SessionStatus → Bool
  | .stopped | .killed | .failed => true
  | .created | .running | .stopping => false

/-- What a session's row and its runtime both hold. -/
structure SessionMeta where
  title : Option String
  tags : List String
  status : SessionStatus
  pid : Option ℕ
  exitCode : Option ExitCode
  endedAt : Option ℕ
  notificationsEnabled : Bool
  deriving DecidableEq, Repr

/-- The end time is set exactly when the session has ended. -/
def SessionMeta.Sound (m : SessionMeta) : Prop := isTerminal m.status = m.endedAt.isSome

/-- A runtime, as far as the store looks at it. -/
structure Runtime where
  metadata : SessionMeta
  notificationsEnabled : Bool
  requestedFinalStatus : Option SessionStatus
  /-- The completion has been handed to a writer of rows. -/
  persisted : Bool
  outputClosed : Bool
  resumeScanned : Bool
  /-- The title is one that a user chose; what the terminal emits does not replace it. -/
  titleUserSet : Bool
  deriving DecidableEq, Repr

namespace Runtime

def spawned (metadata : SessionMeta) : Runtime where
  metadata := metadata
  notificationsEnabled := metadata.notificationsEnabled
  requestedFinalStatus := none
  persisted := false
  outputClosed := false
  resumeScanned := false
  titleUserSet := metadata.title.isSome

section Operations

variable (rt : Runtime)

/-- The session has ended. -/
def isCompleted : Bool := isTerminal rt.metadata.status

def markCompleted (now : ℕ) (status : SessionStatus) (exitCode : Option ExitCode) : Runtime := { rt with
  metadata := { rt.metadata with
    endedAt := rt.metadata.endedAt.or (some now)
    status := status
    exitCode := exitCode.or rt.metadata.exitCode }
  requestedFinalStatus := none }

/-- Check the child. Returns whether the session is completed. -/
def refreshStatus (now : ℕ) (child : TryWait) : Runtime × Bool :=
  if rt.isCompleted then (rt, true)
  else
    match child with
    | .exited code =>
      (rt.markCompleted now (rt.requestedFinalStatus.getD (if code = 0 then .stopped else .failed)) (some code), true)
    | .running =>
      (if rt.metadata.status = .stopping then rt else { rt with metadata := { rt.metadata with status := .running } },
        false)
    | .error => (rt.markCompleted now .failed none, true)

/-- The first half of a termination: a stop is asked for, unless the session has ended. -/
def terminate (now : ℕ) (child : TryWait) (requested : SessionStatus) : Runtime × Bool :=
  match rt.refreshStatus now child with
  | (rt, true) => (rt, true)
  | (rt, false) =>
    ({ rt with requestedFinalStatus := some requested, metadata := { rt.metadata with status := .stopping } }, false)

/-- Its last half: the process tree is killed. Returns whether the session is terminated. -/
def forceKill (now : ℕ) (child : TryWait) (killed : Bool) (after : TryWait) : Runtime × Bool :=
  match rt.refreshStatus now child with
  | (rt, true) => (rt, true)
  | (rt, false) => if killed then ((rt.refreshStatus now after).1, true) else (rt, false)

/-- The terminal emits a title, trimmed and cut to its bound. -/
def applyTerminalTitle (title : String) : Runtime :=
  if rt.titleUserSet = true ∨ title = "" then rt
  else { rt with metadata := { rt.metadata with title := some title } }

/-- The setting is changed, in the runtime and in its metadata. -/
def setNotificationsEnabled (enabled : Bool) : Runtime :=
  if rt.notificationsEnabled = enabled then rt
  else { rt with
    notificationsEnabled := enabled
    metadata := { rt.metadata with notificationsEnabled := enabled } }

end Operations

/-- What happens to a session apart from the store's operations. -/
inductive Event where
  /-- Someone checks the child. -/
  | refresh (now : ℕ) (child : TryWait)
  /-- A stop is asked for, and carried through by force. -/
  | stop (now : ℕ) (child : TryWait) (kill : Bool)
  | force (now : ℕ) (child : TryWait) (killed : Bool) (after : TryWait)
  | terminalTitle (title : String)
  | closeOutput
  | scanned
  deriving DecidableEq, Repr

def apply (rt : Runtime) : Event → Runtime
  | .refresh now child => (rt.refreshStatus now child).1
  | .stop now child kill => (rt.terminate now child (if kill then .killed else .stopped)).1
  | .force now child killed after => (rt.forceKill now child killed after).1
  | .terminalTitle title => rt.applyTerminalTitle title
  | .closeOutput => { rt with outputClosed := true }
  | .scanned => { rt with resumeScanned := true }

/-! ### The end time -/

/-- A runtime whose metadata is sound and whose requested status, if any, is a final one. -/
structure Sound (rt : Runtime) : Prop where
  metadata : rt.metadata.Sound
  requested : ∀ status, rt.requestedFinalStatus = some status → isTerminal status = true

variable {rt : Runtime}

theorem markCompleted_sound (now : ℕ) {status : SessionStatus} (exitCode : Option ExitCode)
    (h : isTerminal status = true) : (rt.markCompleted now status exitCode).Sound := by
  refine ⟨?_, fun _ hsome => by cases hsome⟩
  show isTerminal status = (rt.metadata.endedAt.or (some now)).isSome
  rw [h, Option.isSome_or, Option.isSome_some, Bool.or_true]

/-- A session that has not ended has no end time. -/
theorem Sound.endedAt_none (h : rt.Sound) (hrunning : ¬rt.isCompleted = true) : rt.metadata.endedAt = none := by
  have hsound : isTerminal rt.metadata.status = rt.metadata.endedAt.isSome := h.metadata
  rw [show isTerminal rt.metadata.status = false from eq_false_of_ne_true hrunning] at hsound
  exact Option.isSome_eq_false_iff.mp hsound.symm |> Option.isNone_iff_eq_none.mp

theorem refreshStatus_sound (h : rt.Sound) (now : ℕ) (child : TryWait) : (rt.refreshStatus now child).1.Sound := by
  unfold refreshStatus
  split
  next => exact h
  next hrunning =>
    have hnone := h.endedAt_none hrunning
    split
    next code =>
      apply markCompleted_sound
      rcases hreq : rt.requestedFinalStatus with _ | status
      · show isTerminal (if code = 0 then .stopped else .failed) = true
        split <;> rfl
      · exact h.requested status hreq
    next =>
      split
      next => exact h
      next =>
        refine ⟨?_, h.requested⟩
        show isTerminal .running = rt.metadata.endedAt.isSome
        rw [hnone]
        rfl
    next => exact markCompleted_sound _ _ rfl

/-- A check tells whether the session is completed. -/
theorem refreshStatus_completed (h : rt.Sound) (now : ℕ) (child : TryWait) :
    (rt.refreshStatus now child).1.isCompleted = (rt.refreshStatus now child).2 := by
  unfold refreshStatus
  split
  next hdone => exact hdone
  next hrunning =>
    split
    next code =>
      show isTerminal (rt.requestedFinalStatus.getD (if code = 0 then .stopped else .failed)) = true
      rcases hreq : rt.requestedFinalStatus with _ | status
      · show isTerminal (if code = 0 then .stopped else .failed) = true
        split <;> rfl
      · exact h.requested status hreq
    next =>
      split
      next hstopping => exact eq_false_of_ne_true hrunning
      next => rfl
    next => rfl

theorem terminate_sound (h : rt.Sound) (now : ℕ) (child : TryWait) {requested : SessionStatus}
    (hreq : isTerminal requested = true) : (rt.terminate now child requested).1.Sound := by
  have hsound := refreshStatus_sound h now child
  have hcompleted := refreshStatus_completed h now child
  unfold terminate
  rcases hrefresh : rt.refreshStatus now child with ⟨rt', done⟩
  rw [hrefresh] at hsound hcompleted
  cases done with
  | true => exact hsound
  | false =>
    have hnone : rt'.metadata.endedAt = none :=
      hsound.endedAt_none (by rw [hcompleted]; exact Bool.false_ne_true)
    refine ⟨?_, fun status hsome => ?_⟩
    · show isTerminal .stopping = rt'.metadata.endedAt.isSome
      rw [hnone]
      rfl
    · cases hsome
      exact hreq

theorem forceKill_sound (h : rt.Sound) (now : ℕ) (child : TryWait) (killed : Bool) (after : TryWait) :
    (rt.forceKill now child killed after).1.Sound := by
  have hsound := refreshStatus_sound h now child
  unfold forceKill
  rcases hrefresh : rt.refreshStatus now child with ⟨rt', done⟩
  rw [hrefresh] at hsound
  cases done with
  | true => exact hsound
  | false =>
    cases killed with
    | true => exact refreshStatus_sound hsound now after
    | false => exact hsound

theorem setNotificationsEnabled_sound (h : rt.Sound) (enabled : Bool) : (rt.setNotificationsEnabled enabled).Sound := by
  unfold setNotificationsEnabled
  split
  · exact h
  · exact ⟨h.metadata, h.requested⟩

theorem applyTerminalTitle_sound (h : rt.Sound) (title : String) : (rt.applyTerminalTitle title).Sound := by
  unfold applyTerminalTitle
  split
  · exact h
  · exact ⟨h.metadata, h.requested⟩

/-- A session that has ended stays as it is. -/
theorem refreshStatus_of_completed (h : rt.isCompleted = true) (now : ℕ) (child : TryWait) :
    rt.refreshStatus now child = (rt, true) := by
  unfold refreshStatus
  rw [if_pos h]

theorem terminate_of_completed (h : rt.isCompleted = true) (now : ℕ) (child : TryWait) (requested : SessionStatus) :
    rt.terminate now child requested = (rt, true) := by
  unfold terminate
  rw [refreshStatus_of_completed h]

theorem forceKill_of_completed (h : rt.isCompleted = true) (now : ℕ) (child : TryWait) (killed : Bool)
    (after : TryWait) : rt.forceKill now child killed after = (rt, true) := by
  unfold forceKill
  rw [refreshStatus_of_completed h]

@[simp] theorem setNotificationsEnabled_completed (enabled : Bool) :
    (rt.setNotificationsEnabled enabled).isCompleted = rt.isCompleted := by
  unfold setNotificationsEnabled
  split <;> rfl

@[simp] theorem applyTerminalTitle_completed (title : String) :
    (rt.applyTerminalTitle title).isCompleted = rt.isCompleted := by
  unfold applyTerminalTitle
  split <;> rfl

theorem apply_sound (h : rt.Sound) (event : Event) : (rt.apply event).Sound := by
  cases event with
  | refresh now child => exact refreshStatus_sound h now child
  | stop now child kill =>
    refine terminate_sound h now child ?_
    split <;> rfl
  | force now child killed after => exact forceKill_sound h now child killed after
  | terminalTitle title => exact applyTerminalTitle_sound h title
  | closeOutput | scanned => exact ⟨h.metadata, h.requested⟩

theorem apply_completed (h : rt.isCompleted = true) (event : Event) : (rt.apply event).isCompleted = true := by
  cases event with
  | refresh now child =>
    show (rt.refreshStatus now child).1.isCompleted = true
    rw [refreshStatus_of_completed h]
    exact h
  | stop now child kill =>
    show (rt.terminate now child _).1.isCompleted = true
    rw [terminate_of_completed h]
    exact h
  | force now child killed after =>
    show (rt.forceKill now child killed after).1.isCompleted = true
    rw [forceKill_of_completed h]
    exact h
  | terminalTitle title => exact (applyTerminalTitle_completed title).trans h
  | closeOutput | scanned => exact h

/-! ### The notification setting

What happens to a session apart from a change of the setting commutes with one. -/

section Setting

variable (rt : Runtime) (b : Bool)

/-- Both copies of the setting. -/
def flagged : Runtime := { rt with
  notificationsEnabled := b
  metadata := { rt.metadata with notificationsEnabled := b } }

theorem set_of_eq (h : rt.notificationsEnabled = b) : rt.setNotificationsEnabled b = rt := by
  unfold setNotificationsEnabled
  rw [if_pos h]

theorem set_eq : rt.setNotificationsEnabled b = if rt.notificationsEnabled = b then rt else rt.flagged b := rfl

theorem refreshStatus_flagged (now : ℕ) (child : TryWait) :
    (rt.flagged b).refreshStatus now child =
      ((rt.refreshStatus now child).1.flagged b, (rt.refreshStatus now child).2) := by
  unfold refreshStatus
  by_cases hdone : rt.isCompleted = true
  · rw [if_pos hdone, if_pos (show (rt.flagged b).isCompleted = true from hdone)]
  · rw [if_neg hdone, if_neg (show ¬(rt.flagged b).isCompleted = true from hdone)]
    cases child with
    | exited code => rfl
    | error => rfl
    | running =>
      by_cases hstopping : rt.metadata.status = .stopping
      · rw [if_pos hstopping, if_pos (show (rt.flagged b).metadata.status = .stopping from hstopping)]
      · rw [if_neg hstopping, if_neg (show ¬(rt.flagged b).metadata.status = .stopping from hstopping)]
        rfl

theorem refreshStatus_setting (now : ℕ) (child : TryWait) :
    (rt.refreshStatus now child).1.notificationsEnabled = rt.notificationsEnabled := by
  unfold refreshStatus
  by_cases hdone : rt.isCompleted = true
  · rw [if_pos hdone]
  · rw [if_neg hdone]
    cases child with
    | exited code => rfl
    | error => rfl
    | running =>
      show (if rt.metadata.status = .stopping then rt else _).notificationsEnabled = _
      split <;> rfl

/-- What leaves the setting alone, and does not look at it, commutes with a change of it. -/
theorem set_comm {f : Runtime → Runtime} (hflagged : ∀ rt b, f (flagged rt b) = (f rt).flagged b)
    (hsetting : ∀ rt, (f rt).notificationsEnabled = rt.notificationsEnabled) :
    f (rt.setNotificationsEnabled b) = (f rt).setNotificationsEnabled b := by
  rw [set_eq, set_eq, hsetting]
  split
  · rfl
  · exact hflagged rt b

theorem terminate_eq (now : ℕ) (child : TryWait) (requested : SessionStatus) :
    rt.terminate now child requested =
      if (rt.refreshStatus now child).2 then ((rt.refreshStatus now child).1, true)
      else ({ (rt.refreshStatus now child).1 with
        requestedFinalStatus := some requested
        metadata := { (rt.refreshStatus now child).1.metadata with status := .stopping } }, false) := by
  unfold terminate
  rcases rt.refreshStatus now child with ⟨r, done⟩
  cases done <;> rfl

theorem forceKill_eq (now : ℕ) (child : TryWait) (killed : Bool) (after : TryWait) :
    rt.forceKill now child killed after =
      if (rt.refreshStatus now child).2 then ((rt.refreshStatus now child).1, true)
      else if killed then (((rt.refreshStatus now child).1.refreshStatus now after).1, true)
      else ((rt.refreshStatus now child).1, false) := by
  unfold forceKill
  rcases rt.refreshStatus now child with ⟨r, done⟩
  cases done <;> rfl

theorem applyTerminalTitle_flagged (title : String) :
    (rt.flagged b).applyTerminalTitle title = (rt.applyTerminalTitle title).flagged b := by
  unfold applyTerminalTitle
  by_cases huser : rt.titleUserSet = true ∨ title = ""
  · rw [if_pos huser, if_pos (show (rt.flagged b).titleUserSet = true ∨ title = "" from huser)]
  · rw [if_neg huser, if_neg (show ¬((rt.flagged b).titleUserSet = true ∨ title = "") from huser)]
    rfl

theorem apply_flagged (event : Event) : (rt.flagged b).apply event = (rt.apply event).flagged b := by
  cases event with
  | refresh now child =>
    show ((rt.flagged b).refreshStatus now child).1 = _
    rw [refreshStatus_flagged]
    rfl
  | stop now child kill =>
    show ((rt.flagged b).terminate now child _).1 = (rt.terminate now child _).1.flagged b
    rw [terminate_eq, terminate_eq, refreshStatus_flagged]
    split <;> rfl
  | force now child killed after =>
    show ((rt.flagged b).forceKill now child killed after).1 = (rt.forceKill now child killed after).1.flagged b
    rw [forceKill_eq, forceKill_eq, refreshStatus_flagged]
    split
    · rfl
    · split
      · rw [refreshStatus_flagged]
      · rfl
  | terminalTitle title => exact applyTerminalTitle_flagged rt b title
  | closeOutput | scanned => rfl

theorem apply_setting (event : Event) : (rt.apply event).notificationsEnabled = rt.notificationsEnabled := by
  cases event with
  | refresh now child => exact refreshStatus_setting rt now child
  | stop now child kill =>
    show (rt.terminate now child _).1.notificationsEnabled = _
    rw [terminate_eq]
    split <;> exact refreshStatus_setting rt now child
  | force now child killed after =>
    show (rt.forceKill now child killed after).1.notificationsEnabled = _
    rw [forceKill_eq]
    split
    · exact refreshStatus_setting rt now child
    · split
      · exact (refreshStatus_setting _ now after).trans (refreshStatus_setting rt now child)
      · exact refreshStatus_setting rt now child
  | terminalTitle title =>
    show (rt.applyTerminalTitle title).notificationsEnabled = _
    unfold applyTerminalTitle
    split <;> rfl
  | closeOutput | scanned => rfl

theorem refreshStatus_set (now : ℕ) (child : TryWait) :
    (rt.setNotificationsEnabled b).refreshStatus now child =
      ((rt.refreshStatus now child).1.setNotificationsEnabled b, (rt.refreshStatus now child).2) := by
  rw [set_eq, set_eq, refreshStatus_setting]
  split
  · rfl
  · exact refreshStatus_flagged rt b now child

theorem apply_set (event : Event) :
    (rt.setNotificationsEnabled b).apply event = (rt.apply event).setNotificationsEnabled b :=
  set_comm rt b (fun rt b => apply_flagged rt b event) fun rt => apply_setting rt event

/-- The metadata has the setting of the runtime. -/
def Agrees : Prop := rt.metadata.notificationsEnabled = rt.notificationsEnabled

variable {rt}

theorem Agrees.flagged_self (h : rt.Agrees) : rt.flagged rt.notificationsEnabled = rt := by
  have hmetadata : ({ rt.metadata with notificationsEnabled := rt.notificationsEnabled } : SessionMeta) = rt.metadata := by
    rw [← show rt.metadata.notificationsEnabled = rt.notificationsEnabled from h]
  show { rt with metadata := { rt.metadata with notificationsEnabled := rt.notificationsEnabled } } = rt
  rw [hmetadata]

/-- What leaves the setting alone leaves both copies of it. -/
theorem Agrees.map (h : rt.Agrees) {f : Runtime → Runtime} (hflagged : ∀ rt b, f (flagged rt b) = (f rt).flagged b)
    (hsetting : ∀ rt, (f rt).notificationsEnabled = rt.notificationsEnabled) : (f rt).Agrees := by
  have hf := hflagged rt rt.notificationsEnabled
  rw [h.flagged_self] at hf
  show (f rt).metadata.notificationsEnabled = (f rt).notificationsEnabled
  rw [hsetting]
  exact congrArg (fun r => r.metadata.notificationsEnabled) hf

theorem Agrees.set (h : rt.Agrees) (b : Bool) : (rt.setNotificationsEnabled b).Agrees := by
  rw [set_eq]
  split
  · exact h
  · rfl

theorem Agrees.refreshStatus (h : rt.Agrees) (now : ℕ) (child : TryWait) : (rt.refreshStatus now child).1.Agrees :=
  h.map (f := fun rt => (rt.refreshStatus now child).1)
    (fun rt b => congrArg Prod.fst (refreshStatus_flagged rt b now child)) fun rt => refreshStatus_setting rt now child

theorem Agrees.apply (h : rt.Agrees) (event : Event) : (rt.apply event).Agrees :=
  h.map (fun rt b => apply_flagged rt b event) fun rt => apply_setting rt event

/-- The setting is set back to what it was. -/
theorem Agrees.set_back (h : rt.Agrees) (b : Bool) :
    (rt.setNotificationsEnabled b).setNotificationsEnabled rt.notificationsEnabled = rt := by
  by_cases hb : rt.notificationsEnabled = b
  · rw [set_of_eq rt b hb, set_of_eq rt _ rfl]
  · rw [set_eq rt b, if_neg hb, set_eq, if_neg (show ¬(rt.flagged b).notificationsEnabled = _ from Ne.symm hb)]
    exact h.flagged_self

end Setting

end Runtime

end Store
end OpenRelay
