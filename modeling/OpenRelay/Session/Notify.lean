/-
# A silence is handled once

A monitor looks at every session once a second (`notification/mod.rs`): where a
session has been silent it takes a candidate, and later, without the lock between,
commits it by marking the session's output epoch as handled (`session/store/notify.rs`).
The epoch is that of the last output, or that of the program status that is shown if
there is one (`session/runtime.rs`).

Epochs are instants, so an epoch that is left does not come back, except one: while a
program status is shown, that of the last output waits, and comes back when the status
is cleared. Whoever publishes a change of the status forgets what was handled. So an
epoch may be handled twice, and a candidate from before the status may be committed
after it (`cleared_status_handles_twice`). In runs where no clear brings back an epoch
that was handled, or for which a candidate is waiting, neither happens
(`handled_at_most_once`).

Key theorems: `epochInv_step`, `fate_step`, `watchInv_step`.
-/
import Mathlib.Algebra.Group.Nat.Defs
import OpenRelay.Lib.Runs
import OpenRelay.Pty.ProgramStatus

namespace OpenRelay
namespace Session

open Pty

/-! ### The code -/

/-- Instants are in nanoseconds. -/
def userActivityWindow : ℕ := 3 * 10 ^ 9

/-- What a check has found of a session that is silent. -/
structure SilentCandidate where
  programStatus : Option ProgramStatus
  outputEpoch : ℕ
  userActivityEpoch : Option ℕ
  silenceEpoch : ℕ
  shouldNotify : Bool
  deriving DecidableEq, Repr

/-- What a runtime keeps for notifications. -/
structure Attention where
  spawnedAt : ℕ
  lastOutputEpoch : Option ℕ
  lastInputAt : Option ℕ
  lastAttachActivityAt : Option ℕ
  lastNotifiedAt : Option ℕ
  notifiedOutputEpoch : Option ℕ
  /-- The program statuses of the terminal's signals. -/
  statuses : StatusTable
  outputClosed : Bool
  completed : Bool
  deriving DecidableEq, Repr

namespace Attention

def spawned (now : ℕ) : Attention := ⟨now, none, none, none, none, none, .empty, false, false⟩

def pushOutput (rt : Attention) (now : ℕ) (meaningful : Bool) : Attention :=
  if meaningful then { rt with lastOutputEpoch := some now } else rt

/-- The epoch of the last output. -/
def outputEpoch (rt : Attention) : ℕ := rt.lastOutputEpoch.getD rt.spawnedAt

/-- When the session was last seen to do anything: with a status, when it became that one. -/
def effectiveOutputEpoch (rt : Attention) : ℕ :=
  if rt.statuses.current.isSome then rt.statuses.changedAt.getD rt.spawnedAt else rt.outputEpoch

/-- When a user last did anything. -/
def userActivityEpoch (rt : Attention) : Option ℕ :=
  match rt.lastInputAt, rt.lastAttachActivityAt with
  | some input, some attach => some (max input attach)
  | input, attach => input.or attach

def publishTerminalSignals (rt : Attention) (signals : StatusTable) : Attention :=
  { rt with
    notifiedOutputEpoch := if rt.statuses.current ≠ signals.current then none else rt.notifiedOutputEpoch
    statuses := signals }

/-- A client has done something. -/
def markAttachActivity (rt : Attention) (now : ℕ) : Attention := { rt with lastAttachActivityAt := some now }

/-- With the output's end no program is at work. -/
def closeOutputStream (rt : Attention) (now : ℕ) : Attention :=
  if rt.outputClosed then rt else { rt with outputClosed := true, statuses := (rt.statuses.dropTransient now).1 }

/-- `silent_candidates`, of one session. -/
def silentCandidate (rt : Attention) (now suppressionWindow minInterval : ℕ) : Option SilentCandidate :=
  let status := rt.statuses.current
  if rt.completed = true ∧ ¬ (∃ r ∈ status, r.state = .done ∨ r.state = .error) then none
  else if ∃ r ∈ status, r.state = .working then none
  else
    let lastOutput := rt.effectiveOutputEpoch
    let activity := rt.userActivityEpoch
    let silence := activity.elim lastOutput fun t => max t lastOutput
    if now - silence < suppressionWindow then none
    else
      let activityDriven := activity.any fun t => lastOutput ≤ t ∨ lastOutput - t ≤ userActivityWindow
      let shouldNotify := if status.isSome then activity.all fun t => t < lastOutput else !activityDriven
      if shouldNotify = true ∧ ∃ t ∈ rt.lastNotifiedAt, now - t < minInterval then none
      else if rt.notifiedOutputEpoch = some lastOutput then none
      else some ⟨status, lastOutput, activity, silence, shouldNotify⟩

/-- What a check has found is still so, and has not been told. -/
def isCurrent (rt : Attention) (c : SilentCandidate) : Bool :=
  decide (rt.effectiveOutputEpoch = c.outputEpoch ∧ rt.userActivityEpoch = c.userActivityEpoch ∧
    rt.notifiedOutputEpoch ≠ some c.outputEpoch)

/-- With whether the commit takes effect. -/
def markNotified (rt : Attention) (c : SilentCandidate) (notifiedAt : ℕ) : Attention × Bool :=
  if rt.isCurrent c then
    ({ rt with notifiedOutputEpoch := some c.outputEpoch, lastNotifiedAt := some notifiedAt }, true)
  else (rt, false)

/-- The check's finding is told, if it is current. -/
def markInputRequired (rt : Attention) (c : SilentCandidate) : Attention × Bool :=
  if rt.isCurrent c then ({ rt with notifiedOutputEpoch := some c.outputEpoch }, true) else (rt, false)

/-- What the monitor does with a candidate; `prompted` is whether the screen looks
like a prompt. -/
def judge (rt : Attention) (c : SilentCandidate) (now notifiedAt silence : ℕ) (prompted : Bool) : Attention × Bool :=
  if c.shouldNotify = false then
    if now - c.silenceEpoch < silence then (rt, false) else rt.markInputRequired c
  else if c.programStatus.isSome = true ∨ prompted = true ∨ silence ≤ now - c.silenceEpoch then
    rt.markNotified c notifiedAt
  else (rt, false)

end Attention

/-! ### The session and its monitor -/

/-- What may come between a candidate and its commit. -/
inductive Happening where
  | userActivity
  | statusChanged
  /-- Meaningful output, while no status is shown. -/
  | output
  deriving DecidableEq, Repr

/-- A commit that took effect, with what came between it and its candidate. -/
structure Commit where
  epoch : ℕ
  between : List Happening
  deriving DecidableEq, Repr

/-- A session, its reader and the monitor. -/
structure Watch where
  clock : ℕ
  rt : Attention
  /-- The statuses that the reader's scanner knows. -/
  scanner : StatusTable
  signalsDirty : Bool
  /-- The candidates, each with how much had happened before it. -/
  candidates : List (SilentCandidate × ℕ)
  happenings : List Happening
  commits : List Commit
  deriving DecidableEq, Repr

namespace Watch

/-- What may happen next. -/
inductive Action where
  /-- The reader scans a report. -/
  | report (now : ℕ) (op : StatusOp)
  /-- The reader scans another signal. -/
  | signal
  /-- The reader publishes a chunk, which may have meaningful output. -/
  | publish (now : ℕ) (meaningful : Bool)
  | close (now : ℕ)
  | complete
  | input (now later : ℕ)
  /-- An attach, a heartbeat or a resize. -/
  | attach (now : ℕ)
  | busy (now later : ℕ)
  | capture (now suppressionWindow minInterval : ℕ)
  | judge (i now later silence : ℕ) (prompted : Bool)
  deriving DecidableEq, Repr

/-- A session that has just been spawned, and no check. -/
def spawned (now : ℕ) : Watch := ⟨now, .spawned now, .empty, false, [], [], []⟩

/-- The status that is shown changes. -/
def statusChange (old new : Attention) : List Happening :=
  if old.statuses.current = new.statuses.current then [] else [.statusChanged]

/-- Output with no status shown. -/
def bareOutput (new : Attention) (meaningful : Bool) : List Happening :=
  if meaningful = true ∧ new.statuses.current = none then [.output] else []

def step (w : Watch) : Action → Option Watch
  | .report now op =>
    if w.clock < now ∧ w.rt.outputClosed = false then
      some { w with
        clock := now
        scanner := (w.scanner.apply now op).1
        signalsDirty := w.signalsDirty || (w.scanner.apply now op).2 }
    else none
  | .signal => if w.rt.outputClosed = false then some { w with signalsDirty := true } else none
  | .publish now meaningful =>
    if w.clock < now ∧ w.rt.outputClosed = false then
      let published := if w.signalsDirty then w.rt.publishTerminalSignals w.scanner else w.rt
      some { w with
        clock := now
        rt := published.pushOutput now meaningful
        signalsDirty := false
        happenings := w.happenings ++ statusChange w.rt published ++ bareOutput published meaningful }
    else none
  | .close now =>
    if w.clock < now then
      some { w with
        clock := now
        rt := w.rt.closeOutputStream now
        happenings := w.happenings ++ statusChange w.rt (w.rt.closeOutputStream now) }
    else none
  | .complete => some { w with rt := { w.rt with completed := true } }
  | .input now later =>
    if w.clock < now ∧ now < later then
      some { w with
        clock := later
        rt := { w.rt.markAttachActivity now with lastInputAt := some later }
        happenings := w.happenings ++ [.userActivity] }
    else none
  | .attach now =>
    if w.clock < now then
      some { w with
        clock := now
        rt := w.rt.markAttachActivity now
        happenings := w.happenings ++ [.userActivity] }
    else none
  | .busy now later =>
    if w.clock < now ∧ now < later then
      some { w with
        clock := later
        rt := (w.rt.markAttachActivity now).pushOutput later true
        happenings := w.happenings ++ .userActivity :: bareOutput w.rt true }
    else none
  | .capture now suppressionWindow minInterval =>
    -- the pass has read the clock before it came to the session
    (w.rt.silentCandidate now suppressionWindow minInterval).map fun c =>
      { w with
        clock := max w.clock now
        candidates := w.candidates ++ [(c, w.happenings.length)] }
  | .judge i now later silence prompted =>
    if w.clock < now ∧ now < later then
      w.candidates[i]?.map fun c =>
        let judged := w.rt.judge c.1 now later silence prompted
        { w with
          clock := later
          rt := judged.1
          commits := if judged.2 then w.commits ++ [⟨c.1.outputEpoch, w.happenings.drop c.2⟩] else w.commits }
    else none

/-- Every epoch is handled at most once, and nothing comes between a candidate and a
commit that takes effect. -/
def HandledOnce (w : Watch) : Prop := (w.commits.map Commit.epoch).Nodup ∧ ∀ c ∈ w.commits, c.between = []

/-- The step clears the status that is shown, and there is no output with it. -/
def clears (w : Watch) : Action → Bool
  | .publish _ meaningful =>
    w.signalsDirty && w.rt.statuses.current.isSome && w.scanner.current.isNone && !meaningful
  | .close now => w.rt.statuses.current.isSome && (w.rt.closeOutputStream now).statuses.current.isNone
  | _ => false

/-- The epoch of the last output was handled before, in a session that goes on; or a
candidate for it is waiting, with no activity of the user since. -/
def Resurrects (w : Watch) : Prop :=
  (w.rt.completed = false ∧ ∃ c ∈ w.commits, c.epoch = w.rt.outputEpoch) ∨
    ∃ c ∈ w.candidates, c.1.outputEpoch = w.rt.outputEpoch ∧ c.1.userActivityEpoch = w.rt.userActivityEpoch

/-- No clear brings back an epoch that is handled, or for which a candidate waits. -/
def Calm (w : Watch) (action : Action) : Prop := w.clears action = true → ¬ w.Resurrects

instance (w : Watch) : Decidable w.HandledOnce := inferInstanceAs (Decidable (_ ∧ _))

instance (w : Watch) : Decidable w.Resurrects := inferInstanceAs (Decidable (_ ∨ _))

instance (w : Watch) (action : Action) : Decidable (w.Calm action) := inferInstanceAs (Decidable (_ → _))

end Watch

/-! ### Epochs -/

section Epochs

variable {w w' : Watch} {rt : Attention} {t : StatusTable} {action : Watch.Action} {e now : ℕ} {meaningful : Bool}

theorem effective_shown (hcurrent : rt.statuses.current.isSome = true) {at' : ℕ} (hat : rt.statuses.changedAt = some at') :
    rt.effectiveOutputEpoch = at' := by
  rw [Attention.effectiveOutputEpoch, if_pos hcurrent, hat, Option.getD_some]

theorem effective_bare (hcurrent : rt.statuses.current = none) : rt.effectiveOutputEpoch = rt.outputEpoch := by
  rw [Attention.effectiveOutputEpoch, hcurrent, if_neg (by simp)]

/-- An operation keeps what is shown, with its epoch, or the epoch is that of the operation. -/
theorem apply_cases (now : ℕ) (t : StatusTable) (op : StatusOp) :
    ((t.apply now op).1.current = t.current ∧ (t.apply now op).1.changedAt = t.changedAt) ∨
      ((t.apply now op).1.current ≠ t.current ∧ (t.apply now op).1.changedAt = some now) := by
  have hstamped := stamped_apply now t op
  by_cases hsame : (t.apply now op).1.current = t.current
  · rw [if_pos hsame] at hstamped
    exact .inl ⟨hsame, hstamped⟩
  · rw [if_neg hsame] at hstamped
    exact .inr ⟨hsame, hstamped⟩

/-- Every epoch is past, that of the status is not that of the output, and the reader
and the runtime agree on what is shown if they do on its epoch. -/
structure EpochInv (w : Watch) : Prop where
  output : w.rt.outputEpoch ≤ w.clock
  input : ∀ at' ∈ w.rt.lastInputAt, at' ≤ w.clock
  attach : ∀ at' ∈ w.rt.lastAttachActivityAt, at' ≤ w.clock
  shown : ∀ at' ∈ w.rt.statuses.changedAt, at' ≤ w.clock
  known : ∀ at' ∈ w.scanner.changedAt, at' ≤ w.clock
  shownApart : w.rt.statuses.changedAt ≠ some w.rt.outputEpoch
  knownApart : w.scanner.changedAt ≠ some w.rt.outputEpoch
  shownStamped : w.rt.statuses.current.isSome = true → w.rt.statuses.changedAt.isSome = true
  knownStamped : w.scanner.current.isSome = true → w.scanner.changedAt.isSome = true
  agree : w.rt.outputClosed = false → w.scanner.changedAt = w.rt.statuses.changedAt →
    w.scanner.current = w.rt.statuses.current

/-- The epoch is not the effective one, and only a clear could make it that again. -/
structure Gone (w : Watch) (e : ℕ) : Prop where
  moved : w.rt.effectiveOutputEpoch ≠ e
  unpublished : w.rt.outputClosed = false → w.scanner.changedAt ≠ some e
  shadowed : w.rt.outputEpoch = e → w.rt.statuses.current.isSome = true

/-- The epoch is still the effective one after a step. -/
structure Remains (w w' : Watch) (e : ℕ) : Prop where
  effective : w'.rt.effectiveOutputEpoch = e
  output : w.rt.outputEpoch = e → w'.rt.outputEpoch = e
  notified : w'.rt.notifiedOutputEpoch = w.rt.notifiedOutputEpoch ∨ w'.rt.notifiedOutputEpoch = some e
  quiet : w'.happenings = w.happenings ∨ ∃ at', w'.rt.userActivityEpoch = some at' ∧ w.clock < at'

/-- What becomes of an epoch in a step. -/
structure Fate (w w' : Watch) (action : Watch.Action) (e : ℕ) : Prop where
  stands : w.rt.effectiveOutputEpoch = e → Remains w w' e ∨ Gone w' e
  gone : Gone w e → Gone w' e ∨
    w.clears action = true ∧ w.rt.outputEpoch = e ∧ w'.rt.outputEpoch = e ∧ w'.rt.statuses.current = none

theorem statusChange_self (rt : Attention) : Watch.statusChange rt rt = [] := if_pos rfl

theorem epochInv_spawned (now : ℕ) : EpochInv (Watch.spawned now) :=
  ⟨le_rfl, nofun, nofun, nofun, nofun, nofun, nofun, nofun, nofun, fun _ _ => rfl⟩

theorem outputEpoch_push (rt : Attention) (now : ℕ) (meaningful : Bool) :
    (rt.pushOutput now meaningful).outputEpoch = if meaningful then now else rt.outputEpoch := by
  cases meaningful <;> rfl

theorem statuses_push (rt : Attention) (now : ℕ) (meaningful : Bool) :
    (rt.pushOutput now meaningful).statuses = rt.statuses := by
  cases meaningful <;> rfl

/-- Activity of the user is the newest one. -/
theorem activity_attach (h : ∀ at' ∈ rt.lastInputAt, at' < now) :
    (rt.markAttachActivity now).userActivityEpoch = some now := by
  unfold Attention.userActivityEpoch Attention.markAttachActivity
  rcases hin : rt.lastInputAt with _ | input
  · rfl
  · have := h input hin
    simp only [Option.some.injEq]
    omega

/-- The epochs of a table of statuses. -/
structure Past (clock output : ℕ) (t : StatusTable) : Prop where
  past : ∀ at' ∈ t.changedAt, at' ≤ clock
  apart : t.changedAt ≠ some output
  stamped : t.current.isSome = true → t.changedAt.isSome = true

theorem EpochInv.shownPast (h : EpochInv w) : Past w.clock w.rt.outputEpoch w.rt.statuses :=
  ⟨h.shown, h.shownApart, h.shownStamped⟩

theorem EpochInv.knownPast (h : EpochInv w) : Past w.clock w.rt.outputEpoch w.scanner :=
  ⟨h.known, h.knownApart, h.knownStamped⟩

theorem Past.mono {clock output : ℕ} (h : Past clock output t) (hnow : clock ≤ now) : Past now output t :=
  ⟨fun at' hat => (h.past at' hat).trans hnow, h.apart, h.stamped⟩

/-- After an operation on the table. -/
theorem Past.apply {clock output : ℕ} (h : Past clock output t) (hout : output ≤ clock) (hnow : clock < now)
    (op : StatusOp) : Past now output (t.apply now op).1 := by
  rcases apply_cases now t op with ⟨hcurrent, hat⟩ | ⟨-, hat⟩
  · refine ⟨?_, ?_, ?_⟩
    · rw [hat]
      exact fun at' hat' => (h.past at' hat').trans hnow.le
    · rw [hat]
      exact h.apart
    · rw [hat, hcurrent]
      exact h.stamped
  · refine ⟨fun at' hat' => ?_, fun heq => ?_, fun _ => by rw [hat]; rfl⟩
    · rw [hat] at hat'
      cases hat'
      exact le_rfl
    · rw [hat] at heq
      cases heq
      omega

/-- After output. -/
theorem Past.push {clock output : ℕ} (h : Past clock output t) (hnow : clock < now) (meaningful : Bool) :
    Past now (if meaningful then now else output) t := by
  refine ⟨fun at' hat => (h.past at' hat).trans hnow.le, ?_, h.stamped⟩
  cases meaningful
  · exact h.apart
  · intro heq
    have := h.past now heq
    omega

theorem closeOutputStream_cases (rt : Attention) (now : ℕ) :
    rt.closeOutputStream now = rt ∨
      rt.closeOutputStream now = { rt with outputClosed := true, statuses := (rt.statuses.apply now .dropTransient).1 } := by
  unfold Attention.closeOutputStream
  split_ifs
  · exact .inl rfl
  · exact .inr rfl

theorem judge_cases (rt : Attention) (c : SilentCandidate) (now later silence : ℕ) (prompted : Bool) :
    rt.judge c now later silence prompted = (rt, false) ∨
      rt.isCurrent c = true ∧ (rt.judge c now later silence prompted).2 = true ∧
        ∃ notifiedAt, (rt.judge c now later silence prompted).1 =
          { rt with notifiedOutputEpoch := some c.outputEpoch, lastNotifiedAt := notifiedAt } := by
  by_cases hcurrent : rt.isCurrent c = true
  · unfold Attention.judge Attention.markInputRequired Attention.markNotified
    rw [if_pos hcurrent, if_pos hcurrent]
    split_ifs
    · exact .inl rfl
    · exact .inr ⟨hcurrent, rfl, _, rfl⟩
    · exact .inr ⟨hcurrent, rfl, _, rfl⟩
    · exact .inl rfl
  · unfold Attention.judge Attention.markInputRequired Attention.markNotified
    rw [if_neg hcurrent, if_neg hcurrent]
    split_ifs <;> exact .inl rfl

/-- The table is the runtime's, or what the reader knows. -/
theorem published_cases (w : Watch) :
    (if w.signalsDirty then w.rt.publishTerminalSignals w.scanner else w.rt) = w.rt ∨
      w.signalsDirty = true ∧
        (if w.signalsDirty then w.rt.publishTerminalSignals w.scanner else w.rt) = w.rt.publishTerminalSignals w.scanner := by
  by_cases hdirty : w.signalsDirty = true
  · rw [if_pos hdirty]
    exact .inr ⟨hdirty, rfl⟩
  · rw [if_neg hdirty]
    exact .inl rfl

/-- **The epochs after a step.** -/
theorem epochInv_step (h : EpochInv w) (hstep : w.step action = some w') : EpochInv w' := by
  have hnew : ∀ {at' : ℕ}, ∀ x ∈ some at', x ≤ at' := fun x hx => by
    cases hx
    exact le_rfl
  have hlater : ∀ {o : Option ℕ} {at' : ℕ}, w.clock < at' → (∀ x ∈ o, x ≤ w.clock) → ∀ x ∈ o, x ≤ at' :=
    fun hat ho x hx => (ho x hx).trans hat.le
  cases action with
  | report now op =>
    simp only [Watch.step, Runs.guarded] at hstep
    obtain ⟨⟨hnow, -⟩, rfl⟩ := hstep
    have hknown := h.knownPast.apply h.output hnow op
    refine ⟨h.output.trans hnow.le, hlater hnow h.input, hlater hnow h.attach, hlater hnow h.shown, hknown.past,
      h.shownApart, hknown.apart, h.shownStamped, hknown.stamped, fun hopen hat => ?_⟩
    -- the epoch is the runtime's only if nothing changed
    rcases apply_cases now w.scanner op with ⟨hcurrent, hsame⟩ | ⟨-, hfresh⟩
    · show (w.scanner.apply now op).1.current = _
      rw [hcurrent]
      exact h.agree hopen (hsame.symm.trans hat)
    · have hat' : (w.scanner.apply now op).1.changedAt = w.rt.statuses.changedAt := hat
      rw [hfresh] at hat'
      have := h.shown now hat'.symm
      omega
  | signal =>
    simp only [Watch.step, Runs.guarded] at hstep
    obtain ⟨-, rfl⟩ := hstep
    exact ⟨h.output, h.input, h.attach, h.shown, h.known, h.shownApart, h.knownApart, h.shownStamped, h.knownStamped,
      h.agree⟩
  | publish now meaningful =>
    simp only [Watch.step, Runs.guarded] at hstep
    obtain ⟨⟨hnow, hopen⟩, rfl⟩ := hstep
    have hout := h.output
    have hknown := h.knownPast.push hnow meaningful
    have hshown := h.shownPast.push hnow meaningful
    have hoverall : (if meaningful then now else w.rt.outputEpoch) ≤ now := by
      split_ifs <;> omega
    rcases published_cases w with hsame | ⟨-, hpublished⟩
    · rw [hsame]
      refine ⟨?_, ?_, ?_, ?_, hknown.past, ?_, ?_, ?_, hknown.stamped, ?_⟩
      · rwa [outputEpoch_push]
      · cases meaningful <;> exact hlater hnow h.input
      · cases meaningful <;> exact hlater hnow h.attach
      · rw [statuses_push]
        exact hshown.past
      · rw [statuses_push, outputEpoch_push]
        exact hshown.apart
      · rw [outputEpoch_push]
        exact hknown.apart
      · rw [statuses_push]
        exact hshown.stamped
      · rw [statuses_push]
        exact fun _ => h.agree hopen
    · rw [hpublished]
      refine ⟨?_, ?_, ?_, ?_, hknown.past, ?_, ?_, ?_, hknown.stamped, ?_⟩
      · rwa [outputEpoch_push]
      · cases meaningful <;> exact hlater hnow h.input
      · cases meaningful <;> exact hlater hnow h.attach
      · rw [statuses_push]
        exact hknown.past
      · rw [statuses_push, outputEpoch_push]
        exact hknown.apart
      · rw [outputEpoch_push]
        exact hknown.apart
      · rw [statuses_push]
        exact hknown.stamped
      · rw [statuses_push]
        exact fun _ _ => rfl
  | close now =>
    simp only [Watch.step, Runs.guarded] at hstep
    obtain ⟨hnow, rfl⟩ := hstep
    have hknown := h.knownPast.mono hnow.le
    rcases closeOutputStream_cases w.rt now with hsame | hclosed
    · rw [hsame]
      exact ⟨h.output.trans hnow.le, hlater hnow h.input, hlater hnow h.attach, hlater hnow h.shown, hknown.past,
        h.shownApart, h.knownApart, h.shownStamped, h.knownStamped, h.agree⟩
    · rw [hclosed]
      have hshown := h.shownPast.apply h.output hnow .dropTransient
      exact ⟨h.output.trans hnow.le, hlater hnow h.input, hlater hnow h.attach, hshown.past, hknown.past,
        hshown.apart, h.knownApart, hshown.stamped, h.knownStamped, nofun⟩
  | complete =>
    simp only [Watch.step, Option.some.injEq] at hstep
    subst hstep
    exact ⟨h.output, h.input, h.attach, h.shown, h.known, h.shownApart, h.knownApart, h.shownStamped, h.knownStamped,
      h.agree⟩
  | input now later =>
    simp only [Watch.step, Runs.guarded] at hstep
    obtain ⟨⟨hnow, hnext⟩, rfl⟩ := hstep
    have hall : w.clock < later := hnow.trans hnext
    refine ⟨h.output.trans hall.le, hnew, fun x hx => ?_, hlater hall h.shown, hlater hall h.known, h.shownApart,
      h.knownApart, h.shownStamped, h.knownStamped, h.agree⟩
    cases hx
    exact hnext.le
  | attach now =>
    simp only [Watch.step, Runs.guarded] at hstep
    obtain ⟨hnow, rfl⟩ := hstep
    exact ⟨h.output.trans hnow.le, hlater hnow h.input, hnew, hlater hnow h.shown, hlater hnow h.known, h.shownApart,
      h.knownApart, h.shownStamped, h.knownStamped, h.agree⟩
  | busy now later =>
    simp only [Watch.step, Runs.guarded] at hstep
    obtain ⟨⟨hnow, hnext⟩, rfl⟩ := hstep
    have hall : w.clock < later := hnow.trans hnext
    have hshown := h.shownPast.push hall true
    have hknown := h.knownPast.push hall true
    refine ⟨le_rfl, hlater hall h.input, fun x hx => ?_, hshown.past, hknown.past, hshown.apart, hknown.apart,
      hshown.stamped, hknown.stamped, h.agree⟩
    cases hx
    exact hnext.le
  | capture now suppressionWindow minInterval =>
    simp only [Watch.step, Option.map_eq_some_iff] at hstep
    obtain ⟨c, -, rfl⟩ := hstep
    have hpast : ∀ {o : Option ℕ}, (∀ x ∈ o, x ≤ w.clock) → ∀ x ∈ o, x ≤ max w.clock now :=
      fun ho x hx => (ho x hx).trans (le_max_left ..)
    exact ⟨h.output.trans (le_max_left ..), hpast h.input, hpast h.attach, hpast h.shown, hpast h.known, h.shownApart,
      h.knownApart, h.shownStamped, h.knownStamped, h.agree⟩
  | judge i now later silence prompted =>
    simp only [Watch.step, Option.ite_none_right_eq_some, Option.map_eq_some_iff] at hstep
    obtain ⟨⟨hnow, hnext⟩, c, -, rfl⟩ := hstep
    have hall : w.clock < later := hnow.trans hnext
    rcases judge_cases w.rt c.1 now later silence prompted with hsame | ⟨-, -, notifiedAt, hjudged⟩
    · rw [hsame]
      exact ⟨h.output.trans hall.le, hlater hall h.input, hlater hall h.attach, hlater hall h.shown, hlater hall h.known,
        h.shownApart, h.knownApart, h.shownStamped, h.knownStamped, h.agree⟩
    · rw [hjudged]
      exact ⟨h.output.trans hall.le, hlater hall h.input, hlater hall h.attach, hlater hall h.shown, hlater hall h.known,
        h.shownApart, h.knownApart, h.shownStamped, h.knownStamped, h.agree⟩

theorem activity_input (hlater : now < e) :
    ({ rt.markAttachActivity now with lastInputAt := some e } : Attention).userActivityEpoch = some e := by
  simp only [Attention.userActivityEpoch, Attention.markAttachActivity, Option.some.injEq]
  omega

/-- What the effective epoch is. -/
theorem EpochInv.effective_eq (h : EpochInv w) :
    (w.rt.statuses.current.isSome = true ∧ w.rt.statuses.changedAt = some w.rt.effectiveOutputEpoch) ∨
      (w.rt.statuses.current = none ∧ w.rt.effectiveOutputEpoch = w.rt.outputEpoch) := by
  rcases hcurrent : w.rt.statuses.current with _ | r
  · exact .inr ⟨rfl, effective_bare hcurrent⟩
  · have hsome : w.rt.statuses.current.isSome = true := by rw [hcurrent]; rfl
    obtain ⟨at', hat⟩ := Option.isSome_iff_exists.mp (h.shownStamped hsome)
    rw [effective_shown hsome hat]
    exact .inl ⟨rfl, hat⟩

/-- A step that leaves the statuses and the output alone. -/
theorem fate_same (hstatuses : w'.rt.statuses = w.rt.statuses)
    (houtput : w'.rt.outputEpoch = w.rt.outputEpoch) (heffective : w'.rt.effectiveOutputEpoch = w.rt.effectiveOutputEpoch)
    (hclosed : w'.rt.outputClosed = w.rt.outputClosed) (hscanner : w.scanner.changedAt ≠ some e → w'.scanner.changedAt ≠ some e)
    (hnotified : w.rt.effectiveOutputEpoch = e → w'.rt.notifiedOutputEpoch = w.rt.notifiedOutputEpoch ∨
      w'.rt.notifiedOutputEpoch = some e)
    (hquiet : w'.happenings = w.happenings ∨ ∃ at', w'.rt.userActivityEpoch = some at' ∧ w.clock < at') :
    Fate w w' action e := by
  refine ⟨fun he => .inl ⟨heffective.trans he, houtput.trans, hnotified he, hquiet⟩, fun hgone => .inl ⟨?_, fun hopen => ?_, fun he => ?_⟩⟩
  · rw [heffective]
    exact hgone.moved
  · exact hscanner (hgone.unpublished (hclosed ▸ hopen))
  · rw [hstatuses]
    exact hgone.shadowed (houtput ▸ he)

/-- An epoch of which nothing is left in the table that is shown. -/
theorem gone_shown (hcurrent : w'.rt.statuses.current.isSome = true) {at' : ℕ} (hchanged : w'.rt.statuses.changedAt = some at')
    (hat : at' ≠ e) (hscanner : w'.rt.outputClosed = false → w'.scanner.changedAt ≠ some e) : Gone w' e := by
  refine ⟨?_, hscanner, fun _ => hcurrent⟩
  rw [effective_shown hcurrent hchanged]
  exact hat

theorem gone_bare (hcurrent : w'.rt.statuses.current = none) (houtput : w'.rt.outputEpoch ≠ e)
    (hscanner : w'.rt.outputClosed = false → w'.scanner.changedAt ≠ some e) : Gone w' e := by
  refine ⟨?_, hscanner, fun hback => absurd hback houtput⟩
  rwa [effective_bare hcurrent]

/-- An epoch that output replaces. -/
theorem gone_output (h : EpochInv w) (he : w.rt.outputEpoch = e) (hbare : w'.rt.statuses.current = none)
    (houtput : w'.rt.outputEpoch ≠ e) (hscanner : w'.scanner = w.scanner) : Gone w' e := by
  refine gone_bare hbare houtput fun _ => ?_
  rw [hscanner, ← he]
  exact h.knownApart

/-- Output leaves an epoch behind that was not that of a status. -/
theorem fate_output (h : EpochInv w) (hbare : w.rt.statuses.current = none) (hbare' : w'.rt.statuses.current = none)
    (houtput : w'.rt.outputEpoch ≠ e) (hclosed : w'.rt.outputClosed = w.rt.outputClosed)
    (hscanner : w'.scanner = w.scanner) : Fate w w' action e := by
  refine ⟨fun heffective => .inr ?_, fun hgone => .inl (gone_bare hbare' houtput fun hopen => ?_)⟩
  · rw [effective_bare hbare] at heffective
    exact gone_output h heffective hbare' houtput hscanner
  · rw [hscanner]
    exact hgone.unpublished (hclosed ▸ hopen)

/-- What a publication does; the table that is shown is the runtime's or the reader's. -/
structure Publication (w w' : Watch) (now : ℕ) (meaningful : Bool) (t : StatusTable) : Prop where
  later : w.clock < now
  opened : w.rt.outputClosed = false
  closed : w'.rt.outputClosed = w.rt.outputClosed
  table : t = w.rt.statuses ∨ w.signalsDirty = true ∧ t = w.scanner
  statuses : w'.rt.statuses = t
  output : w'.rt.outputEpoch = if meaningful then now else w.rt.outputEpoch
  scanner : w'.scanner = w.scanner
  notified : w'.rt.notifiedOutputEpoch = if w.rt.statuses.current = t.current then w.rt.notifiedOutputEpoch else none
  quiet : w.rt.statuses.current = t.current → meaningful = false ∨ t.current.isSome = true →
    w'.happenings = w.happenings

theorem publication_of_step (hstep : w.step (.publish now meaningful) = some w') : ∃ t, Publication w w' now meaningful t := by
  simp only [Watch.step, Runs.guarded] at hstep
  obtain ⟨⟨hnow, hopen⟩, rfl⟩ := hstep
  have hnotice : ∀ rt' : Attention, w.rt.statuses.current = rt'.statuses.current →
      meaningful = false ∨ rt'.statuses.current.isSome = true →
      w.happenings ++ Watch.statusChange w.rt rt' ++ Watch.bareOutput rt' meaningful = w.happenings := by
    intro rt' hsame hquiet
    rw [Watch.statusChange, if_pos hsame, Watch.bareOutput, if_neg, List.append_nil, List.append_nil]
    rintro ⟨hmeaningful, hnone⟩
    rcases hquiet with hquiet | hquiet
    · rw [hquiet] at hmeaningful
      cases hmeaningful
    · rw [hnone] at hquiet
      cases hquiet
  rcases published_cases w with hsame | ⟨hdirty, hpublished⟩
  · rw [hsame]
    refine ⟨w.rt.statuses, hnow, hopen, by cases meaningful <;> rfl, .inl rfl, statuses_push .., outputEpoch_push .., rfl, ?_, hnotice _⟩
    rw [if_pos rfl]
    cases meaningful <;> rfl
  · rw [hpublished]
    refine ⟨w.scanner, hnow, hopen, by cases meaningful <;> rfl, .inr ⟨hdirty, rfl⟩, statuses_push .., outputEpoch_push .., rfl, ?_,
      hnotice (w.rt.publishTerminalSignals w.scanner)⟩
    have hnotified : (w.rt.publishTerminalSignals w.scanner).notifiedOutputEpoch =
        if w.rt.statuses.current = w.scanner.current then w.rt.notifiedOutputEpoch else none := ite_not ..
    rw [← hnotified]
    cases meaningful <;> rfl

/-- Its table is another one only if its epoch is, which is then the reader's. -/
theorem Publication.agree {t : StatusTable} (hp : Publication w w' now meaningful t) (h : EpochInv w) :
    (t.changedAt = w.rt.statuses.changedAt ∧ w.rt.statuses.current = t.current) ∨
      (t.changedAt ≠ w.rt.statuses.changedAt ∧ t = w.scanner ∧ w.signalsDirty = true) := by
  rcases hp.table with rfl | ⟨hdirty, rfl⟩
  · exact .inl ⟨rfl, rfl⟩
  · by_cases hat : w.scanner.changedAt = w.rt.statuses.changedAt
    · exact .inl ⟨hat, (h.agree hp.opened hat).symm⟩
    · exact .inr ⟨hat, rfl, hdirty⟩

/-- The table that is shown is the one before. -/
theorem Publication.fate_kept {t : StatusTable} (hp : Publication w w' now meaningful t) (h : EpochInv w) (he : e ≤ w.clock)
    (hat : t.changedAt = w.rt.statuses.changedAt) (hcurrent : w.rt.statuses.current = t.current) : Fate w w' action e := by
  have hshown : w'.rt.statuses.current = w.rt.statuses.current := by rw [hp.statuses, hcurrent]
  have hnotified : w'.rt.notifiedOutputEpoch = w.rt.notifiedOutputEpoch := by rw [hp.notified, if_pos hcurrent]
  rcases h.effective_eq with ⟨hsome, hepoch⟩ | ⟨hbare, heffective⟩
  · have hepoch' : w'.rt.statuses.changedAt = some w.rt.effectiveOutputEpoch := by rw [hp.statuses, hat, hepoch]
    have hsome' : w'.rt.statuses.current.isSome = true := by rwa [hshown]
    refine ⟨fun heq => .inl ⟨?_, fun hback => ?_, .inl hnotified, .inl (hp.quiet hcurrent (.inr ?_))⟩,
      fun hgone => .inl ?_⟩
    · rw [effective_shown hsome' hepoch', heq]
    · rw [heq, ← hback] at hepoch
      exact absurd hepoch h.shownApart
    · rwa [← hcurrent]
    · exact gone_shown hsome' hepoch' hgone.moved fun _ => by
        rw [hp.scanner]
        exact hgone.unpublished hp.opened
  · have hbare' : w'.rt.statuses.current = none := by rwa [hshown]
    have houtput := hp.output
    cases meaningful with
    | true =>
      rw [if_pos rfl] at houtput
      refine fate_output h hbare hbare' ?_ hp.closed hp.scanner
      rw [houtput]
      have := hp.later
      omega
    | false =>
      rw [if_neg (by simp)] at houtput
      refine ⟨fun heq => .inl ⟨?_, houtput.trans, .inl hnotified, .inl (hp.quiet hcurrent (.inl rfl))⟩,
        fun hgone => .inl ?_⟩
      · rw [effective_bare hbare', houtput, ← heffective, heq]
      · refine gone_bare hbare' (by rw [houtput, ← heffective]; exact hgone.moved) fun _ => ?_
        rw [hp.scanner]
        exact hgone.unpublished hp.opened

/-- The table that is shown is the reader's, and is another one. -/
theorem Publication.fate_changed (hp : Publication w w' now meaningful w.scanner) (h : EpochInv w) (he : e ≤ w.clock)
    (hdirty : w.signalsDirty = true) (hat : w.scanner.changedAt ≠ w.rt.statuses.changedAt) :
    Fate w w' (.publish now meaningful) e := by
  have hlater := hp.later
  have houtput := hp.output
  rcases hcurrent : w.scanner.current with _ | r
  · -- nothing is shown afterwards
    have hbare' : w'.rt.statuses.current = none := by rw [hp.statuses, hcurrent]
    cases meaningful with
    | true =>
      rw [if_pos rfl] at houtput
      have hne : w'.rt.outputEpoch ≠ e := by rw [houtput]; omega
      refine ⟨fun heq => .inr (gone_bare hbare' hne fun _ => ?_), fun hgone => .inl (gone_bare hbare' hne fun _ => ?_)⟩
      · rw [hp.scanner]
        rcases h.effective_eq with ⟨-, hepoch⟩ | ⟨-, heffective⟩
        · rwa [← heq, ← hepoch]
        · rw [← heq, heffective]
          exact h.knownApart
      · rw [hp.scanner]
        exact hgone.unpublished hp.opened
    | false =>
      rw [if_neg (by simp)] at houtput
      constructor
      · intro heq
        rcases h.effective_eq with ⟨-, hepoch⟩ | ⟨hbare, heffective⟩
        · -- the status goes, with its epoch
          refine .inr (gone_bare hbare' ?_ fun _ => ?_)
          · rw [houtput]
            intro hback
            rw [heq, ← hback] at hepoch
            exact h.shownApart hepoch
          · rw [hp.scanner, ← heq, ← hepoch]
            exact hat
        · have hsame : w.rt.statuses.current = w.scanner.current := hbare.trans hcurrent.symm
          refine .inl ⟨?_, houtput.trans, .inl ?_, .inl (hp.quiet hsame (.inl rfl))⟩
          · rw [effective_bare hbare', houtput, ← heffective, heq]
          · rw [hp.notified, if_pos hsame]
      · intro hgone
        by_cases hback : w.rt.outputEpoch = e
        · -- the epoch of the last output comes back
          refine .inr ⟨?_, hback, houtput.trans hback, hbare'⟩
          rw [Watch.clears, hdirty, hgone.shadowed hback, hcurrent]
          rfl
        · refine .inl (gone_bare hbare' (by rwa [houtput]) fun _ => ?_)
          rw [hp.scanner]
          exact hgone.unpublished hp.opened
  · have hsome : w'.rt.statuses.current.isSome = true := by rw [hp.statuses, hcurrent]; rfl
    obtain ⟨at', hepoch'⟩ := Option.isSome_iff_exists.mp (h.knownStamped (by rw [hcurrent]; rfl))
    have hgone' : w.scanner.changedAt ≠ some e → Gone w' e := fun hne =>
      gone_shown hsome (by rw [hp.statuses, hepoch']) (fun heq => hne (heq ▸ hepoch')) fun _ => by rwa [hp.scanner]
    refine ⟨fun heq => .inr (hgone' ?_), fun hgone => .inl (hgone' (hgone.unpublished hp.opened))⟩
    rcases h.effective_eq with ⟨-, hepoch⟩ | ⟨-, heffective⟩
    · rwa [← heq, ← hepoch]
    · rw [← heq, heffective]
      exact h.knownApart

theorem fate_publish (h : EpochInv w) (hstep : w.step (.publish now meaningful) = some w') (he : e ≤ w.clock) :
    Fate w w' (.publish now meaningful) e := by
  obtain ⟨t, hp⟩ := publication_of_step hstep
  rcases hp.agree h with ⟨hat, hcurrent⟩ | ⟨hat, rfl, hdirty⟩
  · exact hp.fate_kept h he hat hcurrent
  · exact hp.fate_changed h he hdirty hat

/-- The end of the output, which may take the status that is shown. -/
theorem fate_close (h : EpochInv w) (hstep : w.step (.close now) = some w') (he : e ≤ w.clock) :
    Fate w w' (.close now) e := by
  simp only [Watch.step, Runs.guarded] at hstep
  obtain ⟨hnow, rfl⟩ := hstep
  rcases closeOutputStream_cases w.rt now with hsame | hclosed
  · rw [hsame]
    refine fate_same rfl rfl rfl rfl id (fun _ => .inl rfl) (.inl ?_)
    rw [statusChange_self, List.append_nil]
  · have hclears : w.clears (.close now) =
        (w.rt.statuses.current.isSome && (w.rt.statuses.apply now .dropTransient).1.current.isNone) := by
      rw [Watch.clears, hclosed]
    have hcases := apply_cases now w.rt.statuses .dropTransient
    rw [hclosed]
    generalize (w.rt.statuses.apply now .dropTransient).1 = t at hclears hcases ⊢
    rcases hcases with ⟨hcurrent, hat⟩ | ⟨hcurrent, hat⟩
    · have heffective : ({ w.rt with outputClosed := true, statuses := t } : Attention).effectiveOutputEpoch =
          w.rt.effectiveOutputEpoch := by
        unfold Attention.effectiveOutputEpoch
        rw [hcurrent, hat]
        rfl
      refine ⟨fun heq => .inl ⟨heffective.trans heq, id, .inl rfl, .inl ?_⟩, fun hgone => .inl ⟨?_, nofun, fun hback => ?_⟩⟩
      · rw [Watch.statusChange, if_pos hcurrent.symm, List.append_nil]
      · rw [heffective]
        exact hgone.moved
      · rw [hcurrent]
        exact hgone.shadowed hback
    · rcases hnone : t.current with _ | r
      · -- the status is taken
        rcases h.effective_eq with ⟨hsome, hepoch⟩ | ⟨hbare, -⟩
        · refine ⟨fun heq => .inr (gone_bare hnone (fun hback => ?_) nofun), fun hgone => ?_⟩
          · rw [heq, ← hback] at hepoch
            exact h.shownApart hepoch
          · by_cases hback : w.rt.outputEpoch = e
            · refine .inr ⟨?_, hback, hback, hnone⟩
              rw [hclears, hsome, hnone]
              rfl
            · exact .inl (gone_bare hnone hback nofun)
        · exact absurd (hnone.trans hbare.symm) hcurrent
      · have hsome : t.current.isSome = true := by rw [hnone]; rfl
        have hne : now ≠ e := by omega
        exact ⟨fun _ => .inr (gone_shown hsome hat hne nofun), fun _ => .inl (gone_shown hsome hat hne nofun)⟩

/-- **What becomes of an epoch in a step.** It stands, or is gone; and an epoch that is
gone stays so, if it is not that of the last output and comes back by a clear. -/
theorem fate_step (h : EpochInv w) (hstep : w.step action = some w') (he : e ≤ w.clock) : Fate w w' action e := by
  cases action with
  | report now op =>
    simp only [Watch.step, Runs.guarded] at hstep
    obtain ⟨⟨hnow, -⟩, rfl⟩ := hstep
    refine fate_same rfl rfl rfl rfl (fun hne => ?_) (fun _ => .inl rfl) (.inl rfl)
    rcases apply_cases now w.scanner op with ⟨-, hsame⟩ | ⟨-, hfresh⟩
    · show (w.scanner.apply now op).1.changedAt ≠ some e
      rwa [hsame]
    · show (w.scanner.apply now op).1.changedAt ≠ some e
      rw [hfresh]
      rintro ⟨⟩
      omega
  | signal =>
    simp only [Watch.step, Runs.guarded] at hstep
    obtain ⟨-, rfl⟩ := hstep
    exact fate_same rfl rfl rfl rfl id (fun _ => .inl rfl) (.inl rfl)
  | publish now meaningful => exact fate_publish h hstep he
  | close now => exact fate_close h hstep he
  | complete =>
    simp only [Watch.step, Option.some.injEq] at hstep
    subst hstep
    exact fate_same rfl rfl rfl rfl id (fun _ => .inl rfl) (.inl rfl)
  | input now later =>
    simp only [Watch.step, Runs.guarded] at hstep
    obtain ⟨⟨hnow, hnext⟩, rfl⟩ := hstep
    exact fate_same rfl rfl rfl rfl id (fun _ => .inl rfl) (.inr ⟨later, activity_input hnext, hnow.trans hnext⟩)
  | attach now =>
    simp only [Watch.step, Runs.guarded] at hstep
    obtain ⟨hnow, rfl⟩ := hstep
    exact fate_same rfl rfl rfl rfl id (fun _ => .inl rfl)
      (.inr ⟨now, activity_attach fun at' hat => (h.input at' hat).trans_lt hnow, hnow⟩)
  | busy now later =>
    simp only [Watch.step, Runs.guarded] at hstep
    obtain ⟨⟨hnow, hnext⟩, rfl⟩ := hstep
    rcases h.effective_eq with ⟨hcurrent, hat⟩ | ⟨hbare, -⟩
    · -- a status hides the output
      have hactivity := activity_attach fun at' hat => (h.input at' hat).trans_lt hnow
      have hsame := @effective_shown ((w.rt.markAttachActivity now).pushOutput later true) hcurrent _ hat
      refine ⟨fun heq => .inl ⟨hsame.trans heq, fun hback => ?_, .inl rfl, .inr ⟨now, hactivity, hnow⟩⟩, fun hgone => .inl ?_⟩
      · rw [heq, ← hback] at hat
        exact absurd hat h.shownApart
      · exact gone_shown hcurrent hat hgone.moved hgone.unpublished
    · refine fate_output h hbare hbare ?_ rfl rfl
      show later ≠ e
      omega
  | capture now suppressionWindow minInterval =>
    simp only [Watch.step, Option.map_eq_some_iff] at hstep
    obtain ⟨c, -, rfl⟩ := hstep
    exact fate_same rfl rfl rfl rfl id (fun _ => .inl rfl) (.inl rfl)
  | judge i now later silence prompted =>
    simp only [Watch.step, Option.ite_none_right_eq_some, Option.map_eq_some_iff] at hstep
    obtain ⟨⟨hnow, hnext⟩, c, -, rfl⟩ := hstep
    rcases judge_cases w.rt c.1 now later silence prompted with hsame | ⟨hcurrent, -, notifiedAt, hjudged⟩
    · rw [hsame]
      exact fate_same rfl rfl rfl rfl id (fun _ => .inl rfl) (.inl rfl)
    · rw [hjudged]
      refine fate_same rfl rfl rfl rfl id (fun heffective => .inr ?_) (.inl rfl)
      have := (of_decide_eq_true hcurrent).1
      exact congrArg some (this.symm.trans heffective)

/-- What a step leaves behind. -/
structure Passing (w w' : Watch) : Prop where
  clock : w.clock ≤ w'.clock
  activity : w'.rt.userActivityEpoch = w.rt.userActivityEpoch ∨ ∃ at', w'.rt.userActivityEpoch = some at' ∧ w.clock < at'
  completed : w.rt.completed = true → w'.rt.completed = true

theorem passing_step (h : EpochInv w) (hstep : w.step action = some w') : Passing w w' := by
  cases action with
  | report now op =>
    simp only [Watch.step, Runs.guarded] at hstep
    obtain ⟨⟨hnow, -⟩, rfl⟩ := hstep
    exact ⟨hnow.le, .inl rfl, id⟩
  | signal =>
    simp only [Watch.step, Runs.guarded] at hstep
    obtain ⟨-, rfl⟩ := hstep
    exact ⟨le_rfl, .inl rfl, id⟩
  | publish now meaningful =>
    simp only [Watch.step, Runs.guarded] at hstep
    obtain ⟨⟨hnow, -⟩, rfl⟩ := hstep
    rcases published_cases w with hsame | ⟨-, hpublished⟩
    · rw [hsame]
      cases meaningful <;> exact ⟨hnow.le, .inl rfl, id⟩
    · rw [hpublished]
      cases meaningful <;> exact ⟨hnow.le, .inl rfl, id⟩
  | close now =>
    simp only [Watch.step, Runs.guarded] at hstep
    obtain ⟨hnow, rfl⟩ := hstep
    rcases closeOutputStream_cases w.rt now with hsame | hclosed
    · rw [hsame]
      exact ⟨hnow.le, .inl rfl, id⟩
    · rw [hclosed]
      exact ⟨hnow.le, .inl rfl, id⟩
  | complete =>
    simp only [Watch.step, Option.some.injEq] at hstep
    subst hstep
    exact ⟨le_rfl, .inl rfl, fun _ => rfl⟩
  | input now later =>
    simp only [Watch.step, Runs.guarded] at hstep
    obtain ⟨⟨hnow, hnext⟩, rfl⟩ := hstep
    exact ⟨(hnow.trans hnext).le, .inr ⟨later, activity_input hnext, hnow.trans hnext⟩, id⟩
  | attach now =>
    simp only [Watch.step, Runs.guarded] at hstep
    obtain ⟨hnow, rfl⟩ := hstep
    exact ⟨hnow.le, .inr ⟨now, activity_attach fun at' hat => (h.input at' hat).trans_lt hnow, hnow⟩, id⟩
  | busy now later =>
    simp only [Watch.step, Runs.guarded] at hstep
    obtain ⟨⟨hnow, hnext⟩, rfl⟩ := hstep
    have hactivity := activity_attach fun at' hat => (h.input at' hat).trans_lt hnow
    exact ⟨(hnow.trans hnext).le, .inr ⟨now, hactivity, hnow⟩, id⟩
  | capture now suppressionWindow minInterval =>
    simp only [Watch.step, Option.map_eq_some_iff] at hstep
    obtain ⟨c, -, rfl⟩ := hstep
    exact ⟨le_max_left .., .inl rfl, id⟩
  | judge i now later silence prompted =>
    simp only [Watch.step, Option.ite_none_right_eq_some, Option.map_eq_some_iff] at hstep
    obtain ⟨⟨hnow, hnext⟩, c, -, rfl⟩ := hstep
    rcases judge_cases w.rt c.1 now later silence prompted with hsame | ⟨-, -, notifiedAt, hjudged⟩
    · rw [hsame]
      exact ⟨(hnow.trans hnext).le, .inl rfl, id⟩
    · rw [hjudged]
      exact ⟨(hnow.trans hnext).le, .inl rfl, id⟩

end Epochs

/-! ### Candidates and commits -/

section Commits

variable {w w' : Watch} {rt : Attention} {action : Watch.Action} {c : SilentCandidate} {e now : ℕ}

/-- What a candidate is, and what it is taken of. -/
theorem silentCandidate_spec {suppressionWindow minInterval : ℕ}
    (h : rt.silentCandidate now suppressionWindow minInterval = some c) :
    c.outputEpoch = rt.effectiveOutputEpoch ∧ c.userActivityEpoch = rt.userActivityEpoch ∧
      (rt.completed = true → rt.statuses.current.isSome = true) := by
  unfold Attention.silentCandidate at h
  dsimp only at h
  split_ifs at h with hover
  all_goals
    cases h
    refine ⟨rfl, rfl, fun hcompleted => ?_⟩
    obtain ⟨r, hr, -⟩ := not_not.mp fun hnot => hover ⟨hcompleted, hnot⟩
    exact Option.isSome_iff_exists.mpr ⟨r, hr⟩

/-- A candidate just taken. -/
structure Captured (w w' : Watch) (c : SilentCandidate × ℕ) : Prop where
  epoch : c.1.outputEpoch = w.rt.effectiveOutputEpoch
  activity : c.1.userActivityEpoch = w.rt.userActivityEpoch
  shown : w.rt.completed = true → w.rt.statuses.current.isSome = true
  kept : w'.rt = w.rt
  quiet : w'.happenings.drop c.2 = []

theorem candidates_step (hstep : w.step action = some w') {c : SilentCandidate × ℕ} (hc : c ∈ w'.candidates) :
    c ∈ w.candidates ∨ Captured w w' c := by
  cases action with
  | capture now suppressionWindow minInterval =>
    simp only [Watch.step, Option.map_eq_some_iff] at hstep
    obtain ⟨taken, htaken, rfl⟩ := hstep
    rcases List.mem_append.mp hc with hc | hc
    · exact .inl hc
    · obtain ⟨hepoch, hactivity, hshown⟩ := silentCandidate_spec htaken
      rw [List.mem_singleton.mp hc]
      exact .inr ⟨hepoch, hactivity, hshown, rfl, List.drop_length⟩
  | judge i now later silence prompted =>
    simp only [Watch.step, Option.ite_none_right_eq_some, Option.map_eq_some_iff] at hstep
    obtain ⟨-, _, -, rfl⟩ := hstep
    exact .inl hc
  | _ =>
    simp only [Watch.step, Runs.guarded] at hstep
    obtain ⟨-, rfl⟩ := hstep
    exact .inl hc

/-- The step commits a candidate. -/
structure Commits (w w' : Watch) (c : SilentCandidate × ℕ) : Prop where
  waiting : c ∈ w.candidates
  current : w.rt.isCurrent c.1 = true
  commits : w'.commits = w.commits ++ [⟨c.1.outputEpoch, w.happenings.drop c.2⟩]
  effective : w'.rt.effectiveOutputEpoch = c.1.outputEpoch
  notified : w'.rt.notifiedOutputEpoch = some c.1.outputEpoch

theorem commits_step (hstep : w.step action = some w') : w'.commits = w.commits ∨ ∃ c, Commits w w' c := by
  cases action with
  | judge i now later silence prompted =>
    simp only [Watch.step, Option.ite_none_right_eq_some, Option.map_eq_some_iff] at hstep
    obtain ⟨-, c, hc, rfl⟩ := hstep
    rcases judge_cases w.rt c.1 now later silence prompted with hsame | ⟨hcurrent, htaken, notifiedAt, hjudged⟩
    · left
      rw [hsame]
      rfl
    · refine .inr ⟨c, List.mem_of_getElem? hc, hcurrent, if_pos htaken, ?_, ?_⟩
      · rw [hjudged]
        exact (of_decide_eq_true hcurrent).1
      · rw [hjudged]
  | capture now suppressionWindow minInterval =>
    simp only [Watch.step, Option.map_eq_some_iff] at hstep
    obtain ⟨_, -, rfl⟩ := hstep
    exact .inl rfl
  | _ =>
    simp only [Watch.step, Runs.guarded] at hstep
    obtain ⟨-, rfl⟩ := hstep
    exact .inl rfl

/-- A candidate may be committed only if nothing came since. -/
structure Waiting (w : Watch) (c : SilentCandidate × ℕ) : Prop where
  epoch : c.1.outputEpoch ≤ w.clock
  activity : ∀ at' ∈ c.1.userActivityEpoch, at' ≤ w.clock
  state : c.1.userActivityEpoch = w.rt.userActivityEpoch →
    (w.rt.effectiveOutputEpoch = c.1.outputEpoch ∧ w.happenings.drop c.2 = []) ∨ Gone w c.1.outputEpoch

/-- The session has ended, and no candidate for its last output can be committed. -/
structure SessionOver (w : Watch) (e : ℕ) : Prop where
  completed : w.rt.completed = true
  output : w.rt.outputEpoch = e
  outdated : ∀ c ∈ w.candidates, c.1.outputEpoch = e → c.1.userActivityEpoch ≠ w.rt.userActivityEpoch

/-- An epoch that was handled is not handled again. -/
structure Handled (w : Watch) (e : ℕ) : Prop where
  past : e ≤ w.clock
  state : Gone w e ∨ w.rt.effectiveOutputEpoch = e ∧ (w.rt.notifiedOutputEpoch = some e ∨ SessionOver w e)

/-- The invariant of the runs in which no epoch comes back. -/
structure WatchInv (w : Watch) : Prop where
  epochs : EpochInv w
  waiting : ∀ c ∈ w.candidates, Waiting w c
  handled : ∀ c ∈ w.commits, Handled w c.epoch
  once : w.HandledOnce

theorem EpochInv.effective_le (h : EpochInv w) : w.rt.effectiveOutputEpoch ≤ w.clock := by
  rcases h.effective_eq with ⟨-, hat⟩ | ⟨-, heffective⟩
  · exact h.shown _ hat
  · rw [heffective]
    exact h.output

theorem EpochInv.activity_le (h : EpochInv w) : ∀ at' ∈ w.rt.userActivityEpoch, at' ≤ w.clock := by
  intro at' hat
  have hin := h.input
  have hattach := h.attach
  unfold Attention.userActivityEpoch at hat
  rcases hinput : w.rt.lastInputAt with _ | i
  · rw [hinput] at hat
    exact hattach at' hat
  · rcases hattached : w.rt.lastAttachActivityAt with _ | a
    · rw [hinput, hattached] at hat
      exact hin at' (hinput.trans hat)
    · rw [hinput, hattached] at hat
      cases hat
      exact max_le (hin i hinput) (hattach a hattached)

/-- The user's activity is a new one, or what it was before. -/
theorem Passing.activity_back (hpassing : Passing w w') {o : Option ℕ} (ho : ∀ at' ∈ o, at' ≤ w.clock)
    (h : o = w'.rt.userActivityEpoch) :
    o = w.rt.userActivityEpoch ∧ ¬ ∃ at', w'.rt.userActivityEpoch = some at' ∧ w.clock < at' := by
  have hnot : ¬ ∃ at', w'.rt.userActivityEpoch = some at' ∧ w.clock < at' := by
    rintro ⟨at', hat, hlater⟩
    have := ho at' (h.trans hat)
    omega
  exact ⟨h.trans (hpassing.activity.resolve_right hnot), hnot⟩

theorem waiting_step (hinv : WatchInv w) (hcalm : w.Calm action) (hstep : w.step action = some w')
    {c : SilentCandidate × ℕ} (hc : c ∈ w.candidates) : Waiting w' c := by
  have h := hinv.waiting c hc
  have hpassing := passing_step hinv.epochs hstep
  have hfate := fate_step hinv.epochs hstep h.epoch
  refine ⟨h.epoch.trans hpassing.clock, fun at' hat => (h.activity at' hat).trans hpassing.clock, fun hactivity => ?_⟩
  obtain ⟨hbefore, hquiet⟩ := hpassing.activity_back h.activity hactivity
  rcases h.state hbefore with ⟨heffective, hdrop⟩ | hgone
  · rcases hfate.stands heffective with hstands | hgone
    · rw [hstands.quiet.resolve_right hquiet]
      exact .inl ⟨hstands.effective, hdrop⟩
    · exact .inr hgone
  · rcases hfate.gone hgone with hgone | ⟨hclears, hback, -, -⟩
    · exact .inr hgone
    · exact absurd (.inr ⟨c, hc, hback.symm, hbefore⟩) (hcalm hclears)

/-- A candidate taken of a session that has ended is that of a status. -/
theorem Captured.apart {c : SilentCandidate × ℕ} (h : Captured w w' c) (hepochs : EpochInv w) (hcompleted : w.rt.completed = true) :
    c.1.outputEpoch ≠ w.rt.outputEpoch := by
  rcases hepochs.effective_eq with ⟨-, hat⟩ | ⟨hbare, -⟩
  · rw [h.epoch]
    exact fun heq => hepochs.shownApart (hat.trans (congrArg some heq))
  · have hshown := h.shown hcompleted
    rw [hbare] at hshown
    cases hshown

theorem handled_step (hinv : WatchInv w) (hcalm : w.Calm action) (hstep : w.step action = some w')
    {c : Commit} (hc : c ∈ w.commits) : Handled w' c.epoch := by
  have h := hinv.handled c hc
  have hpassing := passing_step hinv.epochs hstep
  have hfate := fate_step hinv.epochs hstep h.past
  -- a candidate that is outdated stays so, and a new one is for another epoch
  have hover : w.rt.completed = true → w.rt.outputEpoch = c.epoch → w'.rt.outputEpoch = c.epoch →
      (∀ x ∈ w.candidates, x.1.outputEpoch = c.epoch → x.1.userActivityEpoch ≠ w.rt.userActivityEpoch) →
      SessionOver w' c.epoch := by
    refine fun hcompleted houtput houtput' houtdated => ⟨hpassing.completed hcompleted, houtput', fun x hx hepoch => ?_⟩
    rcases candidates_step hstep hx with hx | hcaptured
    · exact fun hactivity => houtdated x hx hepoch (hpassing.activity_back (hinv.waiting x hx).activity hactivity).1
    · exact absurd (hepoch.trans houtput.symm) (hcaptured.apart hinv.epochs hcompleted)
  refine ⟨h.past.trans hpassing.clock, ?_⟩
  rcases h.state with hgone | ⟨heffective, hstate⟩
  · rcases hfate.gone hgone with hgone | ⟨hclears, hback, hback', hbare⟩
    · exact .inl hgone
    · have hnot := hcalm hclears
      have hcompleted : w.rt.completed = true := by
        by_contra hcompleted
        exact hnot (.inl ⟨Bool.not_eq_true _ ▸ hcompleted, c, hc, hback.symm⟩)
      refine .inr ⟨(effective_bare hbare).trans hback', .inr (hover hcompleted hback hback' fun x hx hepoch => ?_)⟩
      exact fun hactivity => hnot (.inr ⟨x, hx, hepoch.trans hback.symm, hactivity⟩)
  · rcases hfate.stands heffective with hstands | hgone
    · refine .inr ⟨hstands.effective, ?_⟩
      rcases hstate with hnotified | hended
      · left
        rcases hstands.notified with hsame | hsame
        · exact hsame.trans hnotified
        · exact hsame
      · exact .inr (hover hended.completed hended.output (hstands.output hended.output) hended.outdated)
    · exact .inl hgone

/-- **The step of the monitor.** Where it brings back no epoch that is handled or
waited for, no epoch is handled again. -/
theorem watchInv_step (hinv : WatchInv w) (hcalm : w.Calm action) (hstep : w.step action = some w') : WatchInv w' := by
  have hpassing := passing_step hinv.epochs hstep
  refine ⟨epochInv_step hinv.epochs hstep, fun c hc => ?_, fun c hc => ?_, ?_⟩
  · rcases candidates_step hstep hc with hc | hcaptured
    · exact waiting_step hinv hcalm hstep hc
    · refine ⟨?_, fun at' hat => ?_, fun _ => .inl ⟨?_, hcaptured.quiet⟩⟩
      · rw [hcaptured.epoch]
        exact hinv.epochs.effective_le.trans hpassing.clock
      · rw [hcaptured.activity] at hat
        exact (hinv.epochs.activity_le at' hat).trans hpassing.clock
      · rw [hcaptured.kept, hcaptured.epoch]
  · rcases commits_step hstep with hsame | ⟨taken, htaken⟩
    · exact handled_step hinv hcalm hstep (hsame ▸ hc)
    · rw [htaken.commits] at hc
      rcases List.mem_append.mp hc with hc | hc
      · exact handled_step hinv hcalm hstep hc
      · rw [List.mem_singleton.mp hc]
        exact ⟨(hinv.waiting taken htaken.waiting).epoch.trans hpassing.clock, .inr ⟨htaken.effective, .inl htaken.notified⟩⟩
  · rcases commits_step hstep with hsame | ⟨taken, htaken⟩
    · unfold Watch.HandledOnce
      rw [hsame]
      exact hinv.once
    · obtain ⟨heffective, hactivity, hnotified⟩ := of_decide_eq_true htaken.current
      have hmoved : ¬ Gone w taken.1.outputEpoch := fun hgone => hgone.moved heffective
      have hdrop := ((hinv.waiting taken htaken.waiting).state hactivity.symm).resolve_right hmoved
      -- what was handled is gone, or noted, or the candidate is outdated
      have hfresh : ∀ c ∈ w.commits, c.epoch ≠ taken.1.outputEpoch := by
        intro c hc hepoch
        have hhandled := (hinv.handled c hc).state
        rw [hepoch] at hhandled
        rcases hhandled with hgone | ⟨-, hnoted | hover⟩
        · exact hmoved hgone
        · exact hnotified hnoted
        · exact hover.outdated taken htaken.waiting rfl hactivity.symm
      unfold Watch.HandledOnce
      rw [htaken.commits]
      refine ⟨?_, fun c hc => ?_⟩
      · rw [List.map_append, List.nodup_append]
        refine ⟨hinv.once.1, List.pairwise_singleton _ _, fun x hx y hy => ?_⟩
        obtain ⟨c, hc, rfl⟩ := List.mem_map.mp hx
        rw [List.mem_singleton.mp hy]
        exact hfresh c hc
      · rcases List.mem_append.mp hc with hc | hc
        · exact hinv.once.2 c hc
        · rw [List.mem_singleton.mp hc]
          exact hdrop.2

theorem watchInv_spawned (now : ℕ) : WatchInv (Watch.spawned now) where
  epochs := epochInv_spawned now
  waiting _ h := absurd h List.not_mem_nil
  handled _ h := absurd h List.not_mem_nil
  once := ⟨List.nodup_nil, fun _ h => absurd h List.not_mem_nil⟩

/-- **A silence is handled once.** Over every run of the session, its reader and the
monitor's passes in which no clear of the program status brings back an epoch that was
handled or for which a candidate is waiting, every epoch is handled at most once, and
a commit takes effect only if since its candidate there was no activity of the user,
no other status and, with none, no output. -/
theorem handled_at_most_once (now : ℕ) (actions : List Watch.Action) {w : Watch}
    (hrun : Runs.run Watch.step (Watch.spawned now) actions = some w)
    (hcalm : Runs.Meets Watch.step Watch.Calm (Watch.spawned now) actions) : w.HandledOnce :=
  (Runs.run_invariant_of_meets (I := WatchInv) (fun h hC hstep => watchInv_step h hC hstep) hrun hcalm
    (watchInv_spawned now)).once

/-- A silence is notified, then one after output, then a status that is cleared with
output. -/
def notifiedThrice : List Watch.Action := [
  .capture (15 * 10 ^ 9) (5 * 10 ^ 9) (10 * 10 ^ 9), .judge 0 (16 * 10 ^ 9) (17 * 10 ^ 9) (10 * 10 ^ 9) false,
  .publish (20 * 10 ^ 9) true,
  .capture (40 * 10 ^ 9) (5 * 10 ^ 9) (10 * 10 ^ 9), .judge 1 (41 * 10 ^ 9) (42 * 10 ^ 9) (10 * 10 ^ 9) false,
  .report (50 * 10 ^ 9) (.report (ascii "state=idle")), .publish (51 * 10 ^ 9) false,
  .capture (60 * 10 ^ 9) (5 * 10 ^ 9) (10 * 10 ^ 9), .judge 2 (61 * 10 ^ 9) (62 * 10 ^ 9) (10 * 10 ^ 9) false,
  .report (70 * 10 ^ 9) (.report (ascii "state=clear")), .publish (71 * 10 ^ 9) true]

theorem handled_at_most_once_notified : ∃ w, Runs.run Watch.step (Watch.spawned 0) notifiedThrice = some w ∧
    w.commits = [⟨0, []⟩, ⟨20 * 10 ^ 9, []⟩, ⟨50 * 10 ^ 9, []⟩] ∧ w.HandledOnce := by
  have hcommits : (Runs.run Watch.step (Watch.spawned 0) notifiedThrice).any
      (fun w => decide (w.commits = [⟨0, []⟩, ⟨20 * 10 ^ 9, []⟩, ⟨50 * 10 ^ 9, []⟩])) = true := by
    decide +kernel
  obtain ⟨w, hw, hcommits⟩ := (Option.any_eq_true _ _).mp hcommits
  exact ⟨w, hw, of_decide_eq_true hcommits, handled_at_most_once 0 notifiedThrice hw (by decide +kernel)⟩

/-- A silence is notified; then a status is set and cleared without output. -/
def clearedBare : List Watch.Action := [
  .capture (15 * 10 ^ 9) (5 * 10 ^ 9) (10 * 10 ^ 9), .judge 0 (16 * 10 ^ 9) (17 * 10 ^ 9) (10 * 10 ^ 9) false,
  .report (20 * 10 ^ 9) (.report (ascii "state=working")), .publish (21 * 10 ^ 9) false,
  .report (30 * 10 ^ 9) (.report (ascii "state=clear")), .publish (31 * 10 ^ 9) false,
  .capture (45 * 10 ^ 9) (5 * 10 ^ 9) (10 * 10 ^ 9), .judge 1 (46 * 10 ^ 9) (47 * 10 ^ 9) (10 * 10 ^ 9) false]

/-- The epoch of the spawn is handled twice. -/
theorem cleared_status_handles_twice : ∃ w, Runs.run Watch.step (Watch.spawned 0) clearedBare = some w ∧
    w.commits = [⟨0, []⟩, ⟨0, []⟩] ∧ ¬ w.HandledOnce := by
  have hcommits : (Runs.run Watch.step (Watch.spawned 0) clearedBare).any
      (fun w => decide (w.commits = [⟨0, []⟩, ⟨0, []⟩])) = true := by
    decide +kernel
  obtain ⟨w, hw, hcommits⟩ := (Option.any_eq_true _ _).mp hcommits
  have htwice := of_decide_eq_true hcommits
  refine ⟨w, hw, htwice, fun honce => ?_⟩
  have := honce.1
  rw [htwice] at this
  exact absurd this (by decide)

end Commits

end Session
end OpenRelay
