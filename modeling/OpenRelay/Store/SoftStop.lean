/-
# A session is stopped softly

One call of `terminate_runtime` (`session/store/lifecycle.rs`) polls whether the process
has exited, and meanwhile escalates: keys of the application are queued, each when it is
due; after three quarters of the grace period the process group is signalled; after all
of it the process tree is killed. A key that is queued late puts the ones after it off
by as much. A full queue is tried again, a closed one ends the keys.

Every action is an answer of the world, a reading of the clock or what an operation
returned, at a time of its own; times do not go back. `log` is what was done, and when.
However long anything takes, the keys go out in order and not closer than scheduled, and
nothing is done out of its turn (`softly_stopped`).

Key theorems: `step_effect`, `keyInv_step`, `turnInv_step`.
-/
import OpenRelay.Session.Runtime

namespace OpenRelay
namespace Store
namespace SoftStop

open Session (SessionStatus)

/-! ### The schedule -/

/-- Times are counted in nanoseconds. -/
def fromMillis (n : ℕ) : ℕ := n * 10 ^ 6

/-- Seconds, in nanoseconds. -/
def fromSecs (n : ℕ) : ℕ := n * 10 ^ 9

def softStopInputs : List Bytes := [[0x03], [0x03], [0x04]]

def doubleCtrlCDelay : ℕ := fromMillis 500

def doubleCtrlCDelayGraceDivisor : ℕ := 4

def terminatePollInterval : ℕ := fromMillis 100

/-- When each key is due, from the call on. -/
def softStopOffsets (grace : ℕ) : List ℕ :=
  [0, min doubleCtrlCDelay (grace / doubleCtrlCDelayGraceDivisor), min (fromSecs 1) (grace / 2)]

/-- The keys, each with the time from which it is due. -/
def buildSoftStopSchedule (start grace : ℕ) (requestedFinalStatus : SessionStatus) : List (ℕ × Bytes) :=
  if grace = 0 ∨ requestedFinalStatus ≠ .stopped then []
  else ((softStopOffsets grace).zip softStopInputs).map fun e => (start + e.1, e.2)

/-! ### The loop -/

/-- One call, from its first reading of the clock. -/
structure Call where
  start : ℕ
  graceSeconds : ℕ
  requestedFinalStatus : SessionStatus

namespace Call

variable (call : Call)

def grace : ℕ := fromSecs call.graceSeconds

def deadline : ℕ := call.start + call.grace

def softInputDeadline : ℕ := call.start + call.grace / 4 * 3

/-- The keys of the call, each with when it is due. -/
def schedule : List (ℕ × Bytes) := buildSoftStopSchedule call.start call.grace call.requestedFinalStatus

end Call

/-- What `try_send` on the writer's queue returns. -/
inductive TrySend where
  | ok
  | full
  | closed
  deriving DecidableEq, Repr

/-- What comes next: which reading of the clock, or which operation. -/
inductive Phase where
  | entered
  /-- `while Instant::now() < deadline`, after a sleep. -/
  | test (wakeAt : ℕ)
  | poll
  /-- Whether keys are over. -/
  | window
  /-- Whether the next key is due. -/
  | due
  | send
  /-- How late the key was queued. -/
  | lag (due : ℕ)
  | signal
  | processId
  | wake
  | finalPoll
  | kill
  | killed
  | returned (terminated : Bool)
  deriving DecidableEq, Repr

/-- What is done, or seen, while a session is being stopped. -/
inductive Event where
  /-- The process is seen to have exited. -/
  | exited
  /-- A key is tried, in an iteration that began then. -/
  | tried (key : ℕ) (input : Bytes) (result : TrySend) (began : ℕ)
  | sigterm
  | killProcessTree
  deriving DecidableEq, Repr

/-- The polling loop, with the clock and what has happened. -/
structure World where
  clock : ℕ
  softStopSchedule : List (ℕ × Bytes)
  nextSoftStopIndex : ℕ
  groupSigtermAt : Option ℕ
  /-- When the iteration began. -/
  began : ℕ
  phase : Phase
  log : List (ℕ × Event)
  deriving DecidableEq, Repr

/-- The call, before its first look at the process. -/
def World.start (call : Call) : World :=
  ⟨call.start, call.schedule, 0,
    if call.requestedFinalStatus = .stopped ∧ call.grace ≠ 0 then some call.softInputDeadline else none,
    call.start, .entered, []⟩

/-- What the clock, the process and the queue answer. -/
inductive Answer where
  | clock
  /-- What `refresh_status` returns. -/
  | refreshed (completed : Bool)
  | queued (result : TrySend)
  | pid (known : Bool)
  | killed (ok : Bool)
  deriving DecidableEq, Repr

namespace World

variable (call : Call) (w : World) (t : ℕ)

/-- The loop goes on elsewhere. -/
def goto (phase : Phase) : World := { w with clock := t, phase := phase }

/-- Something happens, and the loop goes on. -/
def record (e : Event) (phase : Phase) : World := { w with clock := t, phase := phase, log := w.log ++ [(t, e)] }

/-- After the keys: the clock is read for the signal if that is still to come. -/
def afterKeys : Phase := if w.groupSigtermAt.isSome then .signal else .wake

/-- The moment the loop sleeps until. -/
def wakeAt : ℕ :=
  let wakeAt := min call.deadline (t + terminatePollInterval)
  let wakeAt := match w.softStopSchedule[w.nextSoftStopIndex]? with
    | some (due, _) => if t < due then min wakeAt due else wakeAt
    | none => wakeAt
  match w.groupSigtermAt with
  | some due => min wakeAt due
  | none => wakeAt

/-- What the call does at the time `t`, with what it is answered. -/
def advance (a : Answer) : Option World :=
  match w.phase, a with
  | .entered, .refreshed completed =>
    some (if completed then w.record t .exited (.returned true) else w.goto t (.test t))
  | .test wakeAt, .clock =>
    if t < wakeAt then none
    else some (if t < call.deadline then { w.goto t .poll with began := t } else w.goto t .finalPoll)
  | .poll, .refreshed completed =>
    some (if completed then w.record t .exited (.returned true) else w.goto t .window)
  | .window, .clock =>
    let next := if call.softInputDeadline ≤ t then w.softStopSchedule.length else w.nextSoftStopIndex
    some { w.goto t (if next < w.softStopSchedule.length then .due else w.afterKeys) with nextSoftStopIndex := next }
  | .due, .clock =>
    match w.softStopSchedule[w.nextSoftStopIndex]? with
    | some (due, _) => some (w.goto t (if due ≤ t then .send else w.afterKeys))
    | none => none
  | .send, .queued result =>
    match w.softStopSchedule[w.nextSoftStopIndex]? with
    | some (due, input) =>
      let tried := w.record t (.tried w.nextSoftStopIndex input result w.began)
      match result with
      | .ok => some { tried (.lag due) with nextSoftStopIndex := w.nextSoftStopIndex + 1 }
      | .full => some (tried w.afterKeys)
      | .closed => some { tried w.afterKeys with nextSoftStopIndex := w.softStopSchedule.length }
    | none => none
  | .lag due, .clock =>
    some { w.goto t w.afterKeys with
      softStopSchedule := w.softStopSchedule.mapIdx fun i e =>
        if w.nextSoftStopIndex ≤ i then (e.1 + (t - due), e.2) else e }
  | .signal, .clock =>
    match w.groupSigtermAt with
    | some due => some (if due ≤ t then { w.goto t .processId with groupSigtermAt := none } else w.goto t .wake)
    | none => none
  | .processId, .pid known => some (if known then w.record t .sigterm .wake else w.goto t .wake)
  | .wake, .clock => some (w.goto t (.test (w.wakeAt call t)))
  | .finalPoll, .refreshed completed =>
    some (if completed then w.record t .exited (.returned true) else w.goto t .kill)
  | .kill, .killed ok => some (w.record t .killProcessTree (if ok then .killed else .returned false))
  | .killed, .refreshed completed =>
    some (if completed then w.record t .exited (.returned true) else w.goto t (.returned true))
  | _, _ => none

/-- Time does not go back. -/
def step (a : ℕ × Answer) : Option World := if a.1 < w.clock then none else w.advance call a.1 a.2

end World

/-! ### What is asked of it -/

/-- How long after the start a key is scheduled. -/
def Call.offset (call : Call) (key : ℕ) : ℕ := (softStopOffsets call.grace).getD key 0

/-- The keys that the queue took, each with its time. -/
def accepted (log : List (ℕ × Event)) : List (ℕ × ℕ) :=
  log.filterMap fun e =>
    match e.2 with
    | .tried key _ .ok _ => some (key, e.1)
    | _ => none

/-- What may be done after what: nothing of the keys and no second signal after a signal, and no
killing once the process is seen to have exited. -/
def Follows : Event → Event → Prop
  | .sigterm, .tried .. | .sigterm, .sigterm | .exited, .killProcessTree => False
  | _, _ => True

/-- What is to hold of a stop. -/
structure SoftlyStopped (call : Call) (log : List (ℕ × Event)) : Prop where
  keys : ∀ t key input result began, (t, .tried key input result began) ∈ log →
    ∃ due, call.schedule[key]? = some (due, input)
  inOrder : (accepted log).map Prod.fst = List.range (accepted log).length
  spaced : ∀ (i : ℕ) (a b : ℕ × ℕ), (accepted log)[i]? = some a → (accepted log)[i + 1]? = some b →
    a.2 + call.offset b.1 ≤ b.2 + call.offset a.1
  /-- The iteration began before three quarters of the grace period were over. -/
  early : ∀ t key input result began, (t, .tried key input result began) ∈ log →
    4 * began < 4 * call.start + 3 * call.grace
  follows : log.Pairwise fun a b => Follows a.2 b.2
  late : ∀ t, (t, .killProcessTree) ∈ log → call.start + call.grace ≤ t

/-! ### What a step does -/

/-- From here the loop goes on, and nothing else is to be said of it. -/
def Phase.resting : Phase → Bool
  | .test _ | .window | .signal | .wake => true
  | _ => false

/-- The loop has not ended. -/
def Phase.going : Phase → Bool
  | .lag _ | .returned _ => false
  | _ => true

/-- No turn begins here. -/
def Phase.free : Phase → Bool
  | .test _ | .window | .signal | .wake | .lag _ | .killed | .returned _ => true
  | _ => false

theorem free_of_resting {phase : Phase} (h : phase.resting = true) : phase.free = true := by
  cases phase <;> first | rfl | cases h

theorem live_of_going {phase : Phase} (h : phase.going = true) (terminated : Bool) : phase ≠ .returned terminated := by
  rintro rfl
  cases h

theorem resting_afterKeys (w : World) : w.afterKeys.resting = true := by
  unfold World.afterKeys
  split_ifs <;> rfl

/-- Every step of a call is one of these. -/
inductive Effect (call : Call) (w : World) (t : ℕ) : World → Prop
  | rests {phase : Phase} (hresting : phase.resting = true) (hgoing : w.phase.going = true) :
    Effect call w t (w.goto t phase)
  | begins {wakeAt : ℕ} (hphase : w.phase = .test wakeAt) : Effect call w t { w.goto t .poll with began := t }
  | expires {wakeAt : ℕ} (hphase : w.phase = .test wakeAt) (hdeadline : call.deadline ≤ t) :
    Effect call w t (w.goto t .finalPoll)
  | looks (hphase : w.phase = .window) (hwindow : t < call.softInputDeadline) : Effect call w t (w.goto t .due)
  | ends {phase : Phase} (hphase : w.phase = .window) (hresting : phase.resting = true) :
    Effect call w t { w.goto t phase with nextSoftStopIndex := w.softStopSchedule.length }
  | readies {due : ℕ} {input : Bytes} (hphase : w.phase = .due)
    (hkey : w.softStopSchedule[w.nextSoftStopIndex]? = some (due, input)) (hdue : due ≤ t) : Effect call w t (w.goto t .send)
  | accepts {due : ℕ} {input : Bytes} (hphase : w.phase = .send)
    (hkey : w.softStopSchedule[w.nextSoftStopIndex]? = some (due, input)) :
    Effect call w t { w.record t (.tried w.nextSoftStopIndex input .ok w.began) (.lag due) with
      nextSoftStopIndex := w.nextSoftStopIndex + 1 }
  | defers {due : ℕ} {input : Bytes} {phase : Phase} (hphase : w.phase = .send)
    (hkey : w.softStopSchedule[w.nextSoftStopIndex]? = some (due, input)) (hresting : phase.resting = true) :
    Effect call w t (w.record t (.tried w.nextSoftStopIndex input .full w.began) phase)
  | closes {due : ℕ} {input : Bytes} {phase : Phase} (hphase : w.phase = .send)
    (hkey : w.softStopSchedule[w.nextSoftStopIndex]? = some (due, input)) (hresting : phase.resting = true) :
    Effect call w t { w.record t (.tried w.nextSoftStopIndex input .closed w.began) phase with
      nextSoftStopIndex := w.softStopSchedule.length }
  | shifts {due : ℕ} {phase : Phase} (hphase : w.phase = .lag due) (hresting : phase.resting = true) :
    Effect call w t { w.goto t phase with
      softStopSchedule := w.softStopSchedule.mapIdx fun i e =>
        if w.nextSoftStopIndex ≤ i then (e.1 + (t - due), e.2) else e }
  | signals {due : ℕ} (hphase : w.phase = .signal) (hpending : w.groupSigtermAt = some due) (hdue : due ≤ t) :
    Effect call w t { w.goto t .processId with groupSigtermAt := none }
  | terminates (hphase : w.phase = .processId) : Effect call w t (w.record t .sigterm .wake)
  | fails (hphase : w.phase = .finalPoll) : Effect call w t (w.goto t .kill)
  | kills {phase : Phase} (hphase : w.phase = .kill) (hkilled : phase = .killed ∨ phase = .returned false) :
    Effect call w t (w.record t .killProcessTree phase)
  | returns (hphase : w.phase = .killed) : Effect call w t (w.goto t (.returned true))
  | exits (hgoing : w.phase.going = true) : Effect call w t (w.record t .exited (.returned true))

/-- **Every step of a call has one of the effects.** -/
theorem step_effect {call : Call} {w w' : World} {a : ℕ × Answer} (h : w.step call a = some w') :
    w.clock ≤ a.1 ∧ Effect call w a.1 w' := by
  obtain ⟨t, a⟩ := a
  unfold World.step at h
  split_ifs at h with hclock
  refine ⟨Nat.le_of_not_lt hclock, ?_⟩
  dsimp only at h ⊢
  have hpolled : ∀ {completed : Bool} {phase : Phase}, w.phase.going = true → Effect call w t (w.goto t phase) →
      some (if completed then w.record t .exited (.returned true) else w.goto t phase) = some w' → Effect call w t w' := by
    intro completed phase hgoing hgoes h
    split_ifs at h <;> cases h
    · exact .exits hgoing
    · exact hgoes
  unfold World.advance at h
  split at h
  case h_1 hphase =>
    have hgoing : w.phase.going = true := by rw [hphase]; rfl
    exact hpolled hgoing (.rests rfl hgoing) h
  case h_2 wakeAt hphase =>
    split_ifs at h with hearly hbefore <;> cases h
    · exact .begins hphase
    · exact .expires hphase (Nat.le_of_not_lt hbefore)
  case h_3 hphase =>
    have hgoing : w.phase.going = true := by rw [hphase]; rfl
    exact hpolled hgoing (.rests rfl hgoing) h
  case h_4 hphase =>
    have hgoing : w.phase.going = true := by rw [hphase]; rfl
    dsimp only at h
    by_cases hover : call.softInputDeadline ≤ t
    · rw [if_pos hover, if_neg (Nat.lt_irrefl _)] at h
      cases h
      exact .ends hphase (resting_afterKeys w)
    · rw [if_neg hover] at h
      split_ifs at h <;> cases h
      · exact .looks hphase (Nat.lt_of_not_le hover)
      · exact .rests (resting_afterKeys w) hgoing
  case h_5 hphase =>
    have hgoing : w.phase.going = true := by rw [hphase]; rfl
    split at h
    · rename_i due input hkey
      split_ifs at h with hdue <;> cases h
      · exact .readies hphase hkey hdue
      · exact .rests (resting_afterKeys w) hgoing
    · cases h
  case h_6 result hphase =>
    split at h
    · rename_i due input hkey
      cases result <;> cases h
      · exact .accepts hphase hkey
      · exact .defers hphase hkey (resting_afterKeys w)
      · exact .closes hphase hkey (resting_afterKeys w)
    · cases h
  case h_7 due hphase =>
    cases h
    exact .shifts hphase (resting_afterKeys w)
  case h_8 hphase =>
    have hgoing : w.phase.going = true := by rw [hphase]; rfl
    split at h
    · rename_i due hpending
      split_ifs at h with hdue <;> cases h
      · exact .signals hphase hpending hdue
      · exact .rests rfl hgoing
    · cases h
  case h_9 known hphase =>
    have hgoing : w.phase.going = true := by rw [hphase]; rfl
    cases known <;> cases h
    · exact .rests rfl hgoing
    · exact .terminates hphase
  case h_10 hphase =>
    cases h
    exact .rests rfl (by rw [hphase]; rfl)
  case h_11 hphase => exact hpolled (by rw [hphase]; rfl) (.fails hphase) h
  case h_12 ok hphase =>
    cases h
    refine .kills hphase ?_
    cases ok
    · exact .inr rfl
    · exact .inl rfl
  case h_13 hphase => exact hpolled (by rw [hphase]; rfl) (.returns hphase) h
  case h_14 => cases h

/-! ### The turns -/

theorem follows_concat {log : List (ℕ × Event)} {t : ℕ} {e : Event} (h : log.Pairwise fun a b => Follows a.2 b.2)
    (he : ∀ a ∈ log, Follows a.2 e) : (log ++ [(t, e)]).Pairwise fun a b => Follows a.2 b.2 := by
  refine List.pairwise_append.mpr ⟨h, List.pairwise_singleton _ _, fun a ha b hb => ?_⟩
  rw [List.mem_singleton.mp hb]
  exact he a ha

/-- What is done in which turn. -/
structure TurnInv (call : Call) (w : World) : Prop where
  begun : w.began ≤ w.clock
  early : ∀ {t key input result began}, (t, .tried key input result began) ∈ w.log → began < call.softInputDeadline
  trying : w.phase = .due ∨ w.phase = .send → w.began < call.softInputDeadline
  pending : ∀ {due : ℕ}, w.groupSigtermAt = some due → due = call.softInputDeadline
  signalling : w.phase = .processId → w.groupSigtermAt = none ∧ call.softInputDeadline ≤ w.clock
  signalled : ∀ {t : ℕ}, (t, .sigterm) ∈ w.log → w.groupSigtermAt = none ∧ call.softInputDeadline ≤ w.clock ∧
    w.phase ≠ .due ∧ w.phase ≠ .send ∧ w.phase ≠ .processId
  alive : ∀ {t : ℕ}, (t, .exited) ∈ w.log → ∃ terminated, w.phase = .returned terminated
  overdue : w.phase = .finalPoll ∨ w.phase = .kill → call.deadline ≤ w.clock
  late : ∀ {t : ℕ}, (t, .killProcessTree) ∈ w.log → call.deadline ≤ t
  follows : w.log.Pairwise fun a b => Follows a.2 b.2

theorem turnInv_start (call : Call) : TurnInv call (.start call) where
  begun := Nat.le_refl _
  early := nofun
  trying := nofun
  pending h := by
    unfold World.start at h
    dsimp only at h
    split_ifs at h
    cases h
    rfl
  signalling := nofun
  signalled := nofun
  alive := nofun
  overdue := nofun
  late := nofun
  follows := .nil

section Turns

variable {call : Call} {w : World}

/-- Where nothing is done and no turn begins. -/
theorem TurnInv.goto {t : ℕ} {phase : Phase} (h : TurnInv call w) (hclock : w.clock ≤ t)
    (hlive : ∀ terminated, w.phase ≠ .returned terminated)
    (htrying : phase = .due ∨ phase = .send → w.began < call.softInputDeadline ∧ ∀ t', (t', .sigterm) ∉ w.log)
    (hid : phase ≠ .processId) (hoverdue : phase = .finalPoll ∨ phase = .kill → call.deadline ≤ t) :
    TurnInv call (w.goto t phase) where
  begun := h.begun.trans hclock
  early := h.early
  trying hphase := (htrying hphase).1
  pending := h.pending
  signalling hphase := absurd hphase hid
  signalled {t'} hmem := by
    obtain ⟨hnone, hsoft, -⟩ := h.signalled hmem
    exact ⟨hnone, hsoft.trans hclock, fun heq => (htrying (.inl heq)).2 t' hmem,
      fun heq => (htrying (.inr heq)).2 t' hmem, hid⟩
  alive hmem := by
    obtain ⟨terminated, hphase⟩ := h.alive hmem
    exact absurd hphase (hlive terminated)
  overdue := hoverdue
  late := h.late
  follows := h.follows

theorem TurnInv.rest {t : ℕ} {phase : Phase} (h : TurnInv call w) (hclock : w.clock ≤ t)
    (hlive : ∀ terminated, w.phase ≠ .returned terminated) (hresting : phase.resting = true) :
    TurnInv call (w.goto t phase) := by
  refine h.goto hclock hlive ?_ ?_ ?_
  · rintro (rfl | rfl) <;> cases hresting
  · rintro rfl
    cases hresting
  · rintro (rfl | rfl) <;> cases hresting

/-- The keys are not concerned. -/
theorem TurnInv.keys (h : TurnInv call w) (schedule : List (ℕ × Bytes)) (next : ℕ) :
    TurnInv call { w with softStopSchedule := schedule, nextSoftStopIndex := next } :=
  ⟨h.begun, h.early, h.trying, h.pending, h.signalling, h.signalled, h.alive, h.overdue, h.late, h.follows⟩

/-- Where something is done. -/
theorem TurnInv.record {t : ℕ} {e : Event} {phase : Phase} (h : TurnInv call w) (hclock : w.clock ≤ t)
    (hlive : ∀ terminated, w.phase ≠ .returned terminated) (hfree : phase.free = true)
    (hearly : ∀ key input result began, e = .tried key input result began → began < call.softInputDeadline)
    (hsignal : e = .sigterm → w.groupSigtermAt = none ∧ call.softInputDeadline ≤ t)
    (hexited : e = .exited → ∃ terminated, phase = .returned terminated)
    (hlate : e = .killProcessTree → call.deadline ≤ t) (hfollows : ∀ a ∈ w.log, Follows a.2 e) :
    TurnInv call (w.record t e phase) where
  begun := h.begun.trans hclock
  early hmem := by
    rcases List.mem_append.mp hmem with hmem | hmem
    · exact h.early hmem
    · exact hearly _ _ _ _ (Prod.mk.inj (List.mem_singleton.mp hmem)).2.symm
  trying hphase := by
    have hphase : phase = .due ∨ phase = .send := hphase
    rcases hphase with rfl | rfl <;> cases hfree
  pending := h.pending
  signalling hphase := by
    have hphase : phase = .processId := hphase
    rw [hphase] at hfree
    cases hfree
  signalled hmem := by
    have hquiet : phase ≠ .due ∧ phase ≠ .send ∧ phase ≠ .processId := by
      refine ⟨?_, ?_, ?_⟩ <;> rintro rfl <;> cases hfree
    rcases List.mem_append.mp hmem with hmem | hmem
    · obtain ⟨hnone, hsoft, -⟩ := h.signalled hmem
      exact ⟨hnone, hsoft.trans hclock, hquiet⟩
    · obtain ⟨hnone, hsoft⟩ := hsignal (Prod.mk.inj (List.mem_singleton.mp hmem)).2.symm
      exact ⟨hnone, hsoft, hquiet⟩
  alive hmem := by
    rcases List.mem_append.mp hmem with hmem | hmem
    · obtain ⟨terminated, hphase⟩ := h.alive hmem
      exact absurd hphase (hlive terminated)
    · exact hexited (Prod.mk.inj (List.mem_singleton.mp hmem)).2.symm
  overdue hphase := by
    have hphase : phase = .finalPoll ∨ phase = .kill := hphase
    rcases hphase with rfl | rfl <;> cases hfree
  late {t'} hmem := by
    rcases List.mem_append.mp hmem with hmem | hmem
    · exact h.late hmem
    · obtain ⟨ht, he⟩ := Prod.mk.inj (List.mem_singleton.mp hmem)
      rw [ht]
      exact hlate he.symm
  follows := follows_concat h.follows hfollows

/-- A key is tried while no signal was sent. -/
theorem TurnInv.tried {t : ℕ} {phase : Phase} (h : TurnInv call w) (hclock : w.clock ≤ t) (hphase : w.phase = .send)
    (hfree : phase.free = true) (input : Bytes) (result : TrySend) :
    TurnInv call (w.record t (.tried w.nextSoftStopIndex input result w.began) phase) := by
  refine h.record hclock (by rw [hphase]; nofun) hfree ?_ nofun nofun nofun ?_
  · intro key input' result' began heq
    cases heq
    exact h.trying (.inr hphase)
  · rintro ⟨t', e⟩ hmem
    cases e with
    | sigterm => exact absurd hphase (h.signalled hmem).2.2.2.1
    | _ => trivial

/-- **One step keeps the turns.** -/
theorem turnInv_step {w' : World} {a : ℕ × Answer} (h : TurnInv call w) (hstep : w.step call a = some w') :
    TurnInv call w' := by
  obtain ⟨hclock, heffect⟩ := step_effect hstep
  have hunsent : ∀ {phase}, w.phase = phase → phase = .due ∨ phase = .send ∨ phase = .processId →
      ∀ t', (t', .sigterm) ∉ w.log := by
    intro phase hphase hdue t' hmem
    obtain ⟨-, -, hndue, hnsend, hnid⟩ := h.signalled hmem
    rcases hdue with rfl | rfl | rfl
    · exact hndue hphase
    · exact hnsend hphase
    · exact hnid hphase
  cases heffect with
  | rests hresting hgoing => exact h.rest hclock (live_of_going hgoing) hresting
  | begins hphase =>
    have hinv : TurnInv call (w.goto a.1 .poll) := h.goto hclock (by rw [hphase]; nofun) nofun nofun nofun
    exact { hinv with begun := Nat.le_refl _, trying := nofun }
  | expires hphase hdeadline => exact h.goto hclock (by rw [hphase]; nofun) nofun nofun fun _ => hdeadline
  | looks hphase hwindow =>
    refine h.goto hclock (by rw [hphase]; nofun) (fun _ => ⟨?_, fun t' hmem => ?_⟩) nofun nofun
    · exact (h.begun.trans hclock).trans_lt hwindow
    · exact absurd ((h.signalled hmem).2.1.trans hclock) (Nat.not_le_of_lt hwindow)
  | ends hphase hresting => exact (h.rest hclock (by rw [hphase]; nofun) hresting).keys _ _
  | readies hphase hkey hdue =>
    exact h.goto hclock (by rw [hphase]; nofun) (fun _ => ⟨h.trying (.inl hphase), hunsent hphase (.inl rfl)⟩) nofun nofun
  | accepts hphase hkey => exact (h.tried hclock hphase rfl _ _).keys _ _
  | defers hphase hkey hresting => exact h.tried hclock hphase (free_of_resting hresting) _ _
  | closes hphase hkey hresting => exact (h.tried hclock hphase (free_of_resting hresting) _ _).keys _ _
  | shifts hphase hresting => exact (h.rest hclock (by rw [hphase]; nofun) hresting).keys _ _
  | signals hphase hpending hdue =>
    have hunsent : ∀ t', (t', .sigterm) ∉ w.log := fun t' hmem => by
      rw [(h.signalled hmem).1] at hpending
      cases hpending
    exact {
      begun := h.begun.trans hclock
      early := h.early
      trying := nofun
      pending := nofun
      signalling := fun _ => ⟨rfl, h.pending hpending ▸ hdue⟩
      signalled := fun hmem => absurd hmem (hunsent _)
      alive := fun hmem => by
        obtain ⟨terminated, hreturned⟩ := h.alive hmem
        rw [hphase] at hreturned
        cases hreturned
      overdue := nofun
      late := h.late
      follows := h.follows }
  | terminates hphase =>
    obtain ⟨hnone, hsoft⟩ := h.signalling hphase
    refine h.record hclock (by rw [hphase]; nofun) rfl nofun (fun _ => ⟨hnone, hsoft.trans hclock⟩) nofun nofun ?_
    rintro ⟨t', e⟩ hmem
    cases e with
    | sigterm => exact absurd hmem (hunsent hphase (.inr (.inr rfl)) t')
    | _ => trivial
  | fails hphase => exact h.goto hclock (by rw [hphase]; nofun) nofun nofun fun _ => (h.overdue (.inl hphase)).trans hclock
  | kills hphase hkilled =>
    refine h.record hclock (by rw [hphase]; nofun) ?_ nofun nofun nofun (fun _ => (h.overdue (.inr hphase)).trans hclock) ?_
    · rcases hkilled with rfl | rfl <;> rfl
    · rintro ⟨t', e⟩ hmem
      cases e with
      | exited =>
        obtain ⟨terminated, hreturned⟩ := h.alive hmem
        rw [hphase] at hreturned
        cases hreturned
      | _ => trivial
  | returns hphase => exact h.goto hclock (by rw [hphase]; nofun) nofun nofun nofun
  | exits hgoing =>
    refine h.record hclock (live_of_going hgoing) rfl nofun nofun (fun _ => ⟨true, rfl⟩) nofun ?_
    rintro ⟨t', e⟩ -
    cases e <;> trivial

end Turns

/-! ### The keys -/

/-- What the time of the last key that was taken is to what it was due at. -/
def Phase.settles : Phase → ℕ → ℕ → Prop
  | .lag scheduled, expected, _ => scheduled = expected
  | _, expected, t => t ≤ expected

/-- The keys to come are put off by `shift`, and the last one that was taken came not later. -/
structure ShiftedBy (call : Call) (w : World) (shift : ℕ) : Prop where
  later : ∀ {k due : ℕ} {input : Bytes}, w.nextSoftStopIndex ≤ k → w.softStopSchedule[k]? = some (due, input) →
    due = call.start + call.offset k + shift
  last : ∀ {a : ℕ × ℕ}, (accepted w.log).getLast? = some a →
    w.phase.settles (call.start + call.offset a.1 + shift) a.2

/-- Two keys are as far apart as they are scheduled. -/
def Apart (call : Call) (a b : ℕ × ℕ) : Prop := a.2 + call.offset b.1 ≤ b.2 + call.offset a.1

/-- What holds of the keys all along. -/
structure KeyInv (call : Call) (w : World) : Prop where
  inputs : w.softStopSchedule.map Prod.snd = call.schedule.map Prod.snd
  tried : ∀ {t key input result began}, (t, .tried key input result began) ∈ w.log →
    ∃ due, call.schedule[key]? = some (due, input)
  order : ∃ n, (accepted w.log).map Prod.fst = List.range n ∧
    (w.nextSoftStopIndex = n ∨ w.nextSoftStopIndex = w.softStopSchedule.length)
  shifted : ∃ shift, ShiftedBy call w shift
  apart : (accepted w.log).IsChain (Apart call)
  past : ∀ a ∈ accepted w.log, a.2 ≤ w.clock
  ready : w.phase = .send → ∀ {due : ℕ} {input : Bytes},
    w.softStopSchedule[w.nextSoftStopIndex]? = some (due, input) → due ≤ w.clock

theorem schedule_offset {call : Call} {k due : ℕ} {input : Bytes} (h : call.schedule[k]? = some (due, input)) :
    due = call.start + call.offset k := by
  unfold Call.schedule buildSoftStopSchedule at h
  split_ifs at h
  · cases h
  · rw [List.getElem?_map] at h
    obtain ⟨⟨offset, input'⟩, hzip, heq⟩ := Option.map_eq_some_iff.mp h
    cases heq
    obtain ⟨hoffset, -⟩ := List.getElem?_zip_eq_some.mp hzip
    rw [Call.offset, List.getD_eq_getElem?_getD, hoffset]
    rfl

theorem keyInv_start (call : Call) : KeyInv call (.start call) where
  inputs := rfl
  tried := nofun
  order := ⟨0, rfl, .inl rfl⟩
  shifted := ⟨0, fun _ h => schedule_offset h, nofun⟩
  apart := .nil
  past := nofun
  ready := nofun

section Keys

variable {call : Call} {w w' : World}

theorem settles_iff {phase : Phase} {expected t : ℕ} (h : ∀ due, phase ≠ .lag due) :
    phase.settles expected t ↔ t ≤ expected := by
  cases phase with
  | lag due => exact absurd rfl (h due)
  | _ => rfl

/-- Where no key is taken, and none put off. -/
theorem KeyInv.same (h : KeyInv call w) (more : List (ℕ × Event)) (hclock : w.clock ≤ w'.clock)
    (hschedule : w'.softStopSchedule = w.softStopSchedule)
    (hnext : w'.nextSoftStopIndex = w.nextSoftStopIndex ∨ w'.nextSoftStopIndex = w.softStopSchedule.length)
    (hlog : w'.log = w.log ++ more) (hmore : accepted more = [])
    (htried : ∀ t key input result began, (t, .tried key input result began) ∈ more →
      ∃ due, call.schedule[key]? = some (due, input))
    (hlag : ∀ due, w.phase ≠ .lag due) (hlag' : ∀ due, w'.phase ≠ .lag due)
    (hready : w'.phase = .send → ∀ {due : ℕ} {input : Bytes},
      w.softStopSchedule[w.nextSoftStopIndex]? = some (due, input) → due ≤ w'.clock) : KeyInv call w' := by
  have haccepted : accepted w'.log = accepted w.log := by
    rw [hlog, accepted, List.filterMap_append]
    exact (congrArg _ hmore).trans (List.append_nil _)
  obtain ⟨n, hn, hnextn⟩ := h.order
  obtain ⟨shift, hshift⟩ := h.shifted
  refine ⟨hschedule ▸ h.inputs, fun hmem => ?_, ⟨n, haccepted ▸ hn, ?_⟩, ⟨shift, fun hle hkey => ?_, fun hlast => ?_⟩,
    haccepted ▸ h.apart, fun a ha => (h.past a (haccepted ▸ ha)).trans hclock, fun hphase due input hkey => ?_⟩
  · rw [hlog] at hmem
    rcases List.mem_append.mp hmem with hmem | hmem
    · exact h.tried hmem
    · exact htried _ _ _ _ _ hmem
  · rw [hschedule]
    rcases hnext with hnext | hnext
    · rw [hnext]
      exact hnextn
    · exact .inr hnext
  · rw [hschedule] at hkey
    rcases hnext with hnext | hnext
    · exact hshift.later (hnext ▸ hle) hkey
    · rw [hnext] at hle
      rw [List.getElem?_eq_none hle] at hkey
      cases hkey
  · rw [haccepted] at hlast
    exact (settles_iff hlag').mpr ((settles_iff hlag).mp (hshift.last hlast))
  · rw [hschedule] at hkey
    rcases hnext with hnext | hnext
    · exact hready hphase (hnext ▸ hkey)
    · rw [hnext, List.getElem?_eq_none (Nat.le_refl _)] at hkey
      cases hkey

/-- The key that is tried is the scheduled one. -/
theorem KeyInv.key (h : KeyInv call w) {due : ℕ} {input : Bytes}
    (hkey : w.softStopSchedule[w.nextSoftStopIndex]? = some (due, input)) :
    ∃ due', call.schedule[w.nextSoftStopIndex]? = some (due', input) := by
  have hinput : (call.schedule.map Prod.snd)[w.nextSoftStopIndex]? = some input := by
    rw [← h.inputs, List.getElem?_map, hkey]
    rfl
  rw [List.getElem?_map] at hinput
  obtain ⟨⟨due', input'⟩, hkey', heq⟩ := Option.map_eq_some_iff.mp hinput
  cases heq
  exact ⟨due', hkey'⟩

theorem accepted_concat_ok (log : List (ℕ × Event)) (t key : ℕ) (input : Bytes) (began : ℕ) :
    accepted (log ++ [(t, .tried key input .ok began)]) = accepted log ++ [(key, t)] := by
  rw [accepted, List.filterMap_append]
  rfl

/-- A key is taken: it was due, and so late enough after the last one. -/
theorem KeyInv.accept {t due : ℕ} {input : Bytes} (h : KeyInv call w) (hclock : w.clock ≤ t) (hphase : w.phase = .send)
    (hkey : w.softStopSchedule[w.nextSoftStopIndex]? = some (due, input)) :
    KeyInv call { w.record t (.tried w.nextSoftStopIndex input .ok w.began) (.lag due) with
      nextSoftStopIndex := w.nextSoftStopIndex + 1 } := by
  obtain ⟨n, hn, hnext⟩ := h.order
  obtain ⟨shift, hshift⟩ := h.shifted
  have hlt : w.nextSoftStopIndex < w.softStopSchedule.length := (List.getElem?_eq_some_iff.mp hkey).1
  have hnext : w.nextSoftStopIndex = n := hnext.resolve_right hlt.ne
  have hdue : due = call.start + call.offset w.nextSoftStopIndex + shift := hshift.later (Nat.le_refl _) hkey
  have haccepted := accepted_concat_ok w.log t w.nextSoftStopIndex input w.began
  refine ⟨h.inputs, fun hmem => ?_, ⟨n + 1, ?_, .inl ?_⟩, ⟨shift, fun hle => hshift.later (Nat.le_of_succ_le hle), fun hlast => ?_⟩,
    ?_, fun a ha => ?_, nofun⟩
  · rcases List.mem_append.mp hmem with hmem | hmem
    · exact h.tried hmem
    · cases List.mem_singleton.mp hmem
      exact h.key hkey
  · refine (congrArg _ haccepted).trans ?_
    rw [List.map_append, hn, List.range_succ, ← hnext]
    rfl
  · exact congrArg (· + 1) hnext
  · have hlast := (congrArg List.getLast? haccepted).symm.trans hlast
    rw [List.getLast?_concat] at hlast
    cases hlast
    exact hdue
  · refine haccepted.symm ▸ List.isChain_append.mpr ⟨h.apart, .singleton _, fun a ha b hb => ?_⟩
    cases hb
    have hlast : a.2 ≤ call.start + call.offset a.1 + shift :=
      (settles_iff (by rw [hphase]; nofun)).mp (hshift.last ha)
    have hready := h.ready hphase hkey
    unfold Apart
    dsimp only
    omega
  · rcases List.mem_append.mp (haccepted ▸ ha) with ha | ha
    · exact (h.past a ha).trans hclock
    · rw [List.mem_singleton.mp ha]
      exact Nat.le_refl t

/-- The keys to come are put off by how late the last one was taken. -/
theorem KeyInv.shift {t due : ℕ} {phase : Phase} (h : KeyInv call w) (hclock : w.clock ≤ t) (hphase : w.phase = .lag due)
    (hresting : phase.resting = true) : KeyInv call { w.goto t phase with
      softStopSchedule := w.softStopSchedule.mapIdx fun i e =>
        if w.nextSoftStopIndex ≤ i then (e.1 + (t - due), e.2) else e } := by
  obtain ⟨n, hn, hnext⟩ := h.order
  obtain ⟨shift, hshift⟩ := h.shifted
  have hlag : ∀ due, phase ≠ .lag due := by
    rintro _ rfl
    cases hresting
  refine ⟨?_, h.tried, ⟨n, hn, ?_⟩, ⟨shift + (t - due), fun {k due' input} hle hkey => ?_, fun {a} hlast => ?_⟩, h.apart,
    fun a ha => (h.past a ha).trans hclock, fun heq => ?_⟩
  · refine Eq.trans (List.ext_getElem? fun i => ?_) h.inputs
    rw [List.getElem?_map, List.getElem?_map, List.getElem?_mapIdx, Option.map_map]
    refine Option.map_congr fun e _ => ?_
    dsimp only [Function.comp]
    split_ifs <;> rfl
  · rw [List.length_mapIdx]
    exact hnext
  · rw [List.getElem?_mapIdx] at hkey
    obtain ⟨e, he, heq⟩ := Option.map_eq_some_iff.mp hkey
    have hle : w.nextSoftStopIndex ≤ k := hle
    rw [if_pos hle] at heq
    cases heq
    rw [hshift.later hle he]
    omega
  · have hdue := hshift.last hlast
    rw [hphase] at hdue
    have hdue : due = call.start + call.offset a.1 + shift := hdue
    have hpast := h.past a (List.mem_of_getLast? hlast)
    refine (settles_iff hlag).mpr ?_
    omega
  · have heq : phase = .send := heq
    rw [heq] at hresting
    cases hresting

theorem KeyInv.goto {t : ℕ} {phase : Phase} (h : KeyInv call w) (hclock : w.clock ≤ t) (hlag : ∀ due, w.phase ≠ .lag due)
    (hlag' : ∀ due, phase ≠ .lag due) (hsend : phase ≠ .send) : KeyInv call (w.goto t phase) :=
  h.same [] hclock rfl (.inl rfl) (List.append_nil _).symm rfl nofun hlag hlag' fun heq => absurd heq hsend

theorem KeyInv.record {t : ℕ} {e : Event} {phase : Phase} (h : KeyInv call w) (hclock : w.clock ≤ t)
    (hlag : ∀ due, w.phase ≠ .lag due) (hlag' : ∀ due, phase ≠ .lag due) (hsend : phase ≠ .send)
    (htried : ∀ key input result began, e ≠ .tried key input result began) : KeyInv call (w.record t e phase) := by
  refine h.same [(t, e)] hclock rfl (.inl rfl) rfl ?_ (fun t' key input result began hmem => ?_) hlag hlag'
    fun heq => absurd heq hsend
  · cases e with
    | tried key input result began => exact absurd rfl (htried key input result began)
    | _ => rfl
  · exact absurd (Prod.mk.inj (List.mem_singleton.mp hmem)).2.symm (htried _ _ _ _)

/-- The queue does not take the key. -/
theorem KeyInv.decline {t due : ℕ} {input : Bytes} {phase : Phase} {result : TrySend} (h : KeyInv call w) (hclock : w.clock ≤ t)
    (hphase : w.phase = .send) (hkey : w.softStopSchedule[w.nextSoftStopIndex]? = some (due, input))
    (hresting : phase.resting = true) (hresult : result ≠ .ok) {next : ℕ}
    (hnext : next = w.nextSoftStopIndex ∨ next = w.softStopSchedule.length) :
    KeyInv call { w.record t (.tried w.nextSoftStopIndex input result w.began) phase with nextSoftStopIndex := next } := by
  refine h.same [(t, .tried w.nextSoftStopIndex input result w.began)] hclock rfl hnext rfl ?_
    (fun t' key input' result' began hmem => ?_) (by rw [hphase]; nofun) ?_ fun heq => ?_
  · cases result with
    | ok => exact absurd rfl hresult
    | _ => rfl
  · cases List.mem_singleton.mp hmem
    exact h.key hkey
  · rintro _ heq
    have heq : phase = .lag _ := heq
    rw [heq] at hresting
    cases hresting
  · have heq : phase = .send := heq
    rw [heq] at hresting
    cases hresting

/-- What the keys are not about. -/
theorem KeyInv.other (h : KeyInv call w) (began : ℕ) (groupSigtermAt : Option ℕ) :
    KeyInv call { w with began := began, groupSigtermAt := groupSigtermAt } :=
  ⟨h.inputs, h.tried, h.order, h.shifted.imp fun _ hshift => ⟨hshift.later, hshift.last⟩, h.apart, h.past, h.ready⟩

/-- **One step keeps the keys.** -/
theorem keyInv_step {a : ℕ × Answer} (h : KeyInv call w) (hstep : w.step call a = some w') : KeyInv call w' := by
  obtain ⟨hclock, heffect⟩ := step_effect hstep
  have hresting : ∀ {phase : Phase}, phase.resting = true → (∀ due, phase ≠ .lag due) ∧ phase ≠ .send := by
    intro phase h
    constructor
    · rintro _ rfl
      cases h
    · rintro rfl
      cases h
  cases heffect with
  | rests hrests hgoing =>
    refine h.goto hclock (fun due heq => ?_) (hresting hrests).1 (hresting hrests).2
    rw [heq] at hgoing
    cases hgoing
  | begins hphase =>
    have hinv : KeyInv call (w.goto a.1 .poll) := h.goto hclock (by rw [hphase]; nofun) nofun nofun
    exact hinv.other _ _
  | ends hphase hrests =>
    exact h.same [] hclock rfl (.inr rfl) (List.append_nil _).symm rfl nofun (by rw [hphase]; nofun) (hresting hrests).1
      fun heq => absurd heq (hresting hrests).2
  | readies hphase hkey hdue =>
    refine h.same [] hclock rfl (.inl rfl) (List.append_nil _).symm rfl nofun (by rw [hphase]; nofun) nofun fun _ {_ _} hkey' => ?_
    rw [hkey] at hkey'
    cases hkey'
    exact hdue
  | accepts hphase hkey => exact h.accept hclock hphase hkey
  | defers hphase hkey hrests => exact h.decline hclock hphase hkey hrests (by decide) (.inl rfl)
  | closes hphase hkey hrests => exact h.decline hclock hphase hkey hrests (by decide) (.inr rfl)
  | shifts hphase hrests => exact h.shift hclock hphase hrests
  | signals hphase hpending hdue =>
    have hinv : KeyInv call (w.goto a.1 .processId) := h.goto hclock (by rw [hphase]; nofun) nofun nofun
    exact hinv.other _ _
  | terminates hphase => exact h.record hclock (by rw [hphase]; nofun) nofun nofun nofun
  | kills hphase hkilled =>
    refine h.record hclock (by rw [hphase]; nofun) ?_ ?_ nofun
    · rcases hkilled with rfl | rfl <;> nofun
    · rcases hkilled with rfl | rfl <;> nofun
  | exits hgoing =>
    refine h.record hclock (fun due heq => ?_) nofun nofun nofun
    rw [heq] at hgoing
    cases hgoing
  | expires hphase | looks hphase | fails hphase | returns hphase =>
    exact h.goto hclock (by rw [hphase]; nofun) nofun nofun

end Keys

/-! ### Runs -/

/-- **A session is stopped softly**, whatever the clock shows, the queue takes and the process does. -/
theorem softly_stopped (call : Call) (as : List (ℕ × Answer)) {w : World}
    (hrun : Runs.run (World.step call) (.start call) as = some w) : SoftlyStopped call w.log := by
  have hturns : TurnInv call w := Runs.run_invariant (fun h hstep => turnInv_step h hstep) hrun (turnInv_start call)
  have hkeys : KeyInv call w := Runs.run_invariant (fun h hstep => keyInv_step h hstep) hrun (keyInv_start call)
  refine ⟨fun _ _ _ _ _ hmem => hkeys.tried hmem, ?_, fun i a b ha hb => ?_, fun t key input result began hmem => ?_,
    hturns.follows, fun t hmem => hturns.late hmem⟩
  · obtain ⟨n, hn, -⟩ := hkeys.order
    have hlength := congrArg List.length hn
    rw [List.length_map, List.length_range] at hlength
    rw [hn, hlength]
  · obtain ⟨hi, rfl⟩ := List.getElem?_eq_some_iff.mp ha
    obtain ⟨hi', rfl⟩ := List.getElem?_eq_some_iff.mp hb
    exact List.isChain_iff_getElem.mp hkeys.apart i hi'
  · have hearly := hturns.early hmem
    unfold Call.softInputDeadline at hearly
    unfold Call.grace fromSecs at hearly ⊢
    omega

/-- A grace period of two seconds. -/
def twoSeconds : Call := ⟨0, 2, .stopped⟩

/-- An iteration up to its keys. -/
def iteration (t : ℕ) : List (ℕ × Answer) := [(t, .clock), (t, .refreshed false), (t, .clock)]

/-- The queue is full once; the second key is late; the process does not exit. -/
def escalated : List (ℕ × Answer) := (0, .refreshed false) :: iteration 0 ++
  [(0, .clock), (1, .queued .full), (1, .clock), (1, .clock)] ++ iteration (fromMillis 101) ++
  [(fromMillis 101, .clock), (fromMillis 102, .queued .ok), (fromMillis 103, .clock), (fromMillis 103, .clock),
    (fromMillis 103, .clock)] ++ iteration (fromMillis 700) ++
  [(fromMillis 700, .clock), (fromMillis 701, .queued .ok), (fromMillis 702, .clock), (fromMillis 702, .clock),
    (fromMillis 702, .clock)] ++ iteration (fromMillis 1500) ++
  [(fromMillis 1500, .clock), (fromMillis 1500, .pid true), (fromMillis 1500, .clock), (fromMillis 2000, .clock),
    (fromMillis 2000, .refreshed false), (fromMillis 2001, .killed true)]

theorem softly_stopped_escalated : ∃ w, Runs.run (World.step twoSeconds) (.start twoSeconds) escalated = some w ∧
    accepted w.log = [(0, fromMillis 102), (1, fromMillis 701)] ∧
    w.log.getLast? = some (fromMillis 2001, .killProcessTree) ∧ SoftlyStopped twoSeconds w.log := by
  have hrun : (Runs.run (World.step twoSeconds) (.start twoSeconds) escalated).any (fun w =>
      decide (accepted w.log = [(0, fromMillis 102), (1, fromMillis 701)] ∧
        w.log.getLast? = some (fromMillis 2001, .killProcessTree))) = true := by decide +kernel
  obtain ⟨w, hw, hend⟩ := (Option.any_eq_true _ _).mp hrun
  obtain ⟨haccepted, hlast⟩ := of_decide_eq_true hend
  exact ⟨w, hw, haccepted, hlast, softly_stopped twoSeconds escalated hw⟩

end SoftStop
end Store
end OpenRelay
