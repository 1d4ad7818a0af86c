/-
# The end of a stream, as observed

`stream_observation` tells a follower where the stream ends: from the runtime as long
as the session is in the live map, from the journal otherwise. A follower stops at the
first observation that says the session is not running.

That end is not always the end (`observed_end_reopens`): a session that is only being
started is observed as over, from an empty journal; a session that was evicted before
its output ended goes on; and a runtime counts bytes that a degraded journal does not
have. In a run that does none of these, the end that was observed once stays, and it is
the end of the stream that the journal replays (`end_of_stream_final`); that a session
is only evicted when its resume hint has been looked for then suffices.

Key theorems: `completed_step`, `finalInv_step`.
-/
import OpenRelay.Session.PersistedLen

namespace OpenRelay
namespace Session

open Journal Pty

namespace SessionRuntime

variable (bare : Bool) (rt : SessionRuntime)

/-- The journal was given every byte that is counted. -/
def Counted : Prop := rt.filteredTotalBytes = (stream bare rt.records).length

/-- The child has ended and so has its output, all of which is in the journal, or on
its way there. -/
structure Over : Prop where
  closed : rt.outputClosed = true
  completed : rt.isCompleted = true
  counted : rt.Counted bare

instance : Decidable (rt.Counted bare) := inferInstanceAs (Decidable (_ = _))

end SessionRuntime

/-- A call does not report an end that is none. -/
def Call.EndsRight (bare : Bool) (st : TrackedSession) : Call → Prop
  | .scanning _ _ => st.body.Written bare
  | .looking true => ∀ rt ∈ st.runtime?, rt.isCompleted = true → rt.outputClosed = true → rt.Counted bare
  | .confirming _ _ =>
    (∀ rt ∈ st.runtime?, rt.isCompleted = true → rt.outputClosed = true → rt.Counted bare) ∧
      (st.runtime? = none → st.residence = .evicted)
  | _ => True

/-- A scan reads what is completely written; an end is taken from the journal of an
evicted session only, and from a runtime if its journal was given what it counts; and
a session is evicted once its output has ended, with a journal that is not degraded or
has everything. -/
def EndsRight (bare : Bool) (st : TrackedSession) : TrackedSession.Action → Prop
  | .advance i => ∀ call ∈ st.calls[i]?, call.EndsRight bare st
  | .evict => ∀ rt ∈ st.runtime?,
      rt.outputClosed = true ∧ (rt.isDegraded = false ∨ rt.Counted bare ∧ rt.Flushed bare)
  | _ => True

instance (bare : Bool) (st : TrackedSession) : ∀ call : Call, Decidable (call.EndsRight bare st)
  | .scanning _ _ => inferInstanceAs (Decidable (st.body.Written bare))
  | .looking true => inferInstanceAs (Decidable (∀ rt ∈ st.runtime?, _ → _ → _))
  | .confirming _ _ =>
    have : Decidable (st.runtime? = none) := decidable_of_iff (st.runtime?.isNone = true) Option.isNone_iff_eq_none
    inferInstanceAs (Decidable ((∀ rt ∈ st.runtime?, _ → _ → _) ∧ (st.runtime? = none → st.residence = .evicted)))
  | .looking false | .bracketing | .listing _ | .checking _ _ | .storing _ _ _ | .found _ _ _ | .done => .isTrue trivial

instance (bare : Bool) (st : TrackedSession) : ∀ action, Decidable (EndsRight bare st action)
  | .advance i => inferInstanceAs (Decidable (∀ call ∈ st.calls[i]?, call.EndsRight bare st))
  | .evict => inferInstanceAs (Decidable (∀ rt ∈ st.runtime?,
      rt.outputClosed = true ∧ (rt.isDegraded = false ∨ rt.Counted bare ∧ rt.Flushed bare)))
  | .openJournal _ | .spawn _ _ _ _ _ | .session _ | .publish | .resumeCheck | .resumeScanned | .drop | .journal _
  | .call _ | .uncache => .isTrue trivial

/-! ### What stays once it is over -/

section Keeps

open SessionRuntime

variable {bare : Bool} {R : LineReader} {rt rt' : SessionRuntime} {s t : LiveSession}

theorem terminalEnd_status {turn : Turn} {code : LifecycleCode} {exitCode : Option ExitCode} {detail : Bytes}
    (hidle : Idle rt.journal.journal) (h : rt.journalTerminalEnd R turn code exitCode detail = some rt') :
    rt'.status = rt.status := by
  obtain ⟨rt₁, hr, rfl, -, -⟩ := journalTerminalEnd_spec h hidle
  show rt₁.status = rt.status
  rw [hr.rest]

theorem markCompleted_status {turn : Turn} {status : SessionStatus} {exitCode : Option ExitCode}
    (hidle : Idle rt.journal.journal) (h : rt.markCompleted R turn status exitCode = some rt') :
    rt'.status = status := by
  rcases markCompleted_cases h with ⟨-, rfl⟩ | ⟨code, -, -, ⟨-, hend⟩ | ⟨-, rfl⟩⟩
  · rfl
  · exact @terminalEnd_status R (rt.noteCompleted status exitCode) _ _ _ _ _ hidle hend
  · rfl

theorem close_status {closed checkpoint completion : Turn} {engine : EngineView} {detail : Bytes} {idle : Bool}
    (hidle : Idle rt.journal.journal)
    (h : rt.closeOutputStreamAtBoundary R closed checkpoint completion engine detail idle = some rt') :
    rt'.status = rt.status := by
  rcases close_cases h hidle with ⟨-, rfl⟩ | ⟨-, rt₁, rt₂, rt₃, hr₁, hr₂, rfl, hend⟩
  · rfl
  have h₂ : rt₂.status = rt.status := by rw [hr₂.rest, hr₁.rest]
  rcases hend with ⟨-, rfl⟩ | ⟨code, exitCode, completionDetail, -, hterm⟩
  · exact h₂
  · refine (terminalEnd_status ?_ hterm).trans h₂
    exact hr₂.evolves.idle

theorem read_status {chunk filtered : Bytes} {meaningfulLen : ℕ} {idle : Bool} {engine : EngineView}
    {modes : Pump.ModeSnapshot} {output policy checkpoint : Turn} (hidle : Idle rt.journal.journal)
    (h : LiveSession.readLocked R rt chunk filtered meaningfulLen idle engine modes output policy checkpoint =
      some rt') : rt'.status = rt.status := by
  obtain ⟨rt₁, rt₂, rt₃, rt₄, hs, rfl⟩ := LiveSession.readLocked_cases h hidle
  have h₁ : rt₁.status = rt.status := by rw [hs.output.rest]
  have h₂ : rt₂.status = rt₁.status := by
    rw [hs.push]
    unfold pushOutput
    split <;> rfl
  have h₃ : rt₃.status = rt₂.status := by
    rcases hs.modes with heq | ⟨m, hm, heq⟩
    · rw [heq]
    · rw [heq, hm.rest]
  have h₄ : rt₄.status = rt₃.status := by
    rcases hs.checkpoint with heq | ⟨m, hm, heq⟩
    · rw [heq]
    · rw [heq, hm.rest]
  have hlast : rt₄.status = rt.status := h₄.trans (h₃.trans (h₂.trans h₁))
  split <;> exact hlast

theorem completed_of_status (h : rt'.status = rt.status) (hc : rt.isCompleted = true) : rt'.isCompleted = true := by
  rw [isCompleted, h]
  exact hc

theorem completed_of_code {status : SessionStatus} (h : (completionCode status).isSome = true)
    (hs : rt.status = status) : rt.isCompleted = true := by
  rw [isCompleted, hs]
  cases status with
  | stopped | killed | failed => rfl
  | created | running | stopping => cases h

theorem refreshStatus_completed {turn : Turn} {child : TryWait} {completed : Bool}
    (h : rt.refreshStatus R turn child = some (rt', completed)) (hc : rt.isCompleted = true) :
    rt'.isCompleted = true ∧ completed = true := by
  rcases refreshStatus_cases h with ⟨-, hcompleted, rfl⟩ | ⟨hnot, -⟩ | ⟨hnot, -⟩
  · exact ⟨hc, hcompleted⟩
  · rw [hc] at hnot
    cases hnot
  · rw [hc] at hnot
    cases hnot

/-- **A completed session stays completed.** -/
theorem completed_step {action : LiveSession.Action} (hidle : Idle s.rt.journal.journal)
    (hfinal : TrackedSession.isFinal action = true) (hstep : s.step bare R action = some t)
    (hc : s.rt.isCompleted = true) : t.rt.isCompleted = true := by
  have hs := LiveSession.step_cases hstep
  cases action with
  | background action =>
    obtain ⟨l, -, rfl⟩ := hs
    exact hc
  | read chunk engine modes output policy checkpoint =>
    obtain ⟨-, rt', hrt, rfl⟩ := hs
    exact completed_of_status (read_status hidle hrt) hc
  | send =>
    obtain ⟨chunk, -, rfl⟩ := hs
    exact hc
  | hangup detail =>
    obtain ⟨-, rfl⟩ := hs
    exact hc
  | close engine closed checkpoint completion =>
    obtain ⟨detail, rt', -, hrt, rfl⟩ := hs
    exact completed_of_status (close_status hidle hrt) hc
  | closeAgain engine closed checkpoint completion detail idle =>
    obtain ⟨-, rfl⟩ := hs
    exact hc
  | refresh turn child =>
    obtain ⟨rt', completed, hrt, rfl⟩ := hs
    exact (refreshStatus_completed hrt hc).1
  | terminate turn child requested =>
    obtain ⟨rt', hrt, rfl⟩ := hs
    obtain ⟨rt₁, completed, h₁, rfl⟩ := terminate_cases hrt
    obtain ⟨hc₁, hcompleted⟩ := refreshStatus_completed h₁ hc
    rw [if_pos hcompleted]
    exact hc₁
  | markCompleted turn status exitCode =>
    obtain ⟨rt', hrt, rfl⟩ := hs
    exact completed_of_code hfinal (markCompleted_status hidle hrt)
  | resize turn rows cols resized =>
    obtain ⟨rt', hrt, rfl⟩ := hs
    rcases resizePty_spec hrt hidle with rfl | hr
    · exact hc
    · exact completed_of_status (by rw [hr.rest]) hc
  | prune =>
    cases hs
    refine completed_of_status ?_ hc
    unfold SessionRuntime.prune
    split
    · dsimp only
      split <;> rfl
    · rfl

/-- What goes on once the output is closed leaves the end where it is. -/
structure KeepsEnd (bare : Bool) (rt rt' : SessionRuntime) : Prop where
  completed : rt.isCompleted = true → rt'.isCompleted = true
  degraded : rt.isDegraded = true → rt'.isDegraded = true
  closed : rt.outputClosed = true → rt'.outputClosed = true ∧ stream bare rt'.records = stream bare rt.records ∧
    rt'.filteredTotalBytes = rt.filteredTotalBytes
  flushed : rt.outputClosed = true → rt.Flushed bare → rt'.Flushed bare

theorem SessionRuntime.Over.keeps (h : rt.Over bare) (hk : KeepsEnd bare rt rt') : rt'.Over bare := by
  obtain ⟨hclosed, hstream, htotal⟩ := hk.closed h.closed
  refine ⟨hclosed, hk.completed h.completed, ?_⟩
  rw [Counted, htotal, hstream]
  exact h.counted

variable {N : ℕ} {base : Dir}

theorem keepsEnd_step {action : LiveSession.Action} (h : Lives bare N base s) (hs : StreamInv bare s) (he : EndInv s)
    (hfinal : TrackedSession.isFinal action = true) (hstep : s.step bare R action = some t) :
    KeepsEnd bare s.rt t.rt := by
  obtain ⟨-, hcarries⟩ := lives_step h hs he hstep
  refine ⟨completed_step hs.idle hfinal hstep, (LiveSession.step_advances hstep hs.idle).keeps, fun hclosed => ?_,
    fun hclosed => flushed_onward hcarries.onward (hcarries.closed hclosed).2⟩
  obtain ⟨hclosed', hread⟩ := closed_step he hstep hclosed
  exact ⟨hclosed', (hcarries.closed hclosed).2, step_total hread hstep hs.idle⟩

theorem keepsEnd_journal {l : Live} (hcarries : Carries bare N s.rt { s.rt with journal := l })
    (hcore : l.journal.core = s.rt.journal.journal.core) : KeepsEnd bare s.rt { s.rt with journal := l } := by
  refine ⟨id, fun hd => ?_, fun hclosed => ⟨hclosed, (hcarries.closed hclosed).2, rfl⟩, fun hclosed => ?_⟩
  · rw [isDegraded, hcore]
    exact hd
  · exact flushed_onward (t := { s with rt := { s.rt with journal := l } }) hcarries.onward
      (hcarries.closed hclosed).2

/-- A sync that covers every record covers the whole stream. -/
theorem flushed_of_durable (h : Lives bare N base s) (hd : s.rt.journal.journal.core.isFullyDurable = true) :
    s.rt.Flushed bare := by
  obtain ⟨d, ⟨hc, img, hdisk⟩, -⟩ := h.live.ghost
  simp only [SequencerCore.isFullyDurable, Bool.and_eq_true, decide_eq_true_eq] at hd
  have hnext : s.rt.journal.journal.core.nextSeq = s.rt.journal.journal.published.length + 1 := hc.nextSeq
  have hcore : s.rt.journal.journal.core.durableSeq ≤ s.rt.journal.journal.appender.lastDurable := hc.core
  have hdurable : s.rt.journal.journal.appender.lastDurable ≤ s.rt.journal.journal.appender.lastWritten := hdisk.durable
  rw [Flushed, List.take_of_length_le]
  rw [records, List.length_map]
  omega

end Keeps

/-! ### The invariant -/

/-- The session's runtime, live or dropped. -/
def Body.session? : Body → Option LiveSession
  | .inserted _ | .opened _ _ _ => none
  | .spawned s | .dropped s => some s

/-- What is known once there is a runtime. -/
structure PresentInv (bare : Bool) (st : TrackedSession) (s : LiveSession) : Prop where
  resume : st.resume ≠ .pending → s.rt.outputClosed = true ∧ (s.rt.isDegraded = true ∨ s.rt.Flushed bare)
  evicted : st.residence = .evicted → s.rt.Over bare ∧ s.rt.Flushed bare
  observed : ∀ o ∈ st.observations, o.incarnation = st.body.latest ∧
    (o.running = false → s.rt.Over bare ∧ o.offset = (stream bare s.rt.records).length)

/-- Before the journal is opened the latest incarnation is what it was. -/
def Stands (b : Body) (before : Option ℕ) : Prop := ∀ d, b = .inserted d → before = b.latest

/-- An observation lists the latest incarnation, asks for the length of the one that
is the latest then, and lists again. -/
def Call.Ordered (bare : Bool) (b : Body) : Call → Prop
  | .listing (.observe before) => Stands b before
  | .checking (.observe before) incarnation | .scanning (.observe before) incarnation
  | .storing (.observe before) incarnation _ | .found (.observe before) incarnation _ =>
    Stands b before ∧ (b.latest = some incarnation ∨ before = some incarnation)
  | .confirming before len => b.Written bare ∧ before = b.latest ∧ len = (replayable bare b.disk).length
  | _ => True

/-- What holds of a session and of everything that was observed of it. -/
structure FinalInv (bare : Bool) (st : TrackedSession) : Prop where
  len : LenInv bare st
  early : st.body.session? = none → st.residence = .starting ∧ st.resume = .pending ∧ st.observations = []
  present : ∀ s, st.body.session? = some s → PresentInv bare st s
  final : st.observations.Pairwise fun a b => a.running = false → b.running = false ∧ b.offset = a.offset
  calls : ∀ call ∈ st.calls, call.Ordered bare st.body

section Invariant

open SessionRuntime

variable {bare : Bool} {R : LineReader} {b b' : Body} {st st' : TrackedSession} {s t : LiveSession}

theorem Body.lives (h : BodyInv bare b) (hs : b.session? = some s) : ∃ N base, Lives bare N base s := by
  cases b with
  | inserted d => cases hs
  | opened N maxPartBytes d => cases hs
  | spawned s' =>
    cases hs
    obtain ⟨N, base, hlives, -⟩ := h
    exact ⟨N, base, hlives⟩
  | dropped s' =>
    cases hs
    obtain ⟨N, base, hlives, -⟩ := h
    exact ⟨N, base, hlives⟩

theorem Body.session?_of_written (h : b.Written bare) : ∃ s, b.session? = some s ∧ b.disk = s.rt.journal.disk := by
  cases b with
  | inserted d => exact h.elim
  | opened N maxPartBytes d => exact h.elim
  | spawned s | dropped s => exact ⟨s, rfl, rfl⟩

/-- How a step moves the body: a journal that is opened takes the place of what was
there. -/
structure Moves (bare : Bool) (b b' : Body) : Prop where
  settles : Settles bare b b'
  latest : (∀ d, b ≠ .inserted d) → b'.latest = b.latest
  forward : b' = b ∨ ∀ d, b' ≠ .inserted d

theorem Moves.stands (h : Moves bare b b') {before : Option ℕ} (hb : Stands b before) : Stands b' before := by
  rcases h.forward with rfl | hnot
  · exact hb
  · exact fun d heq => absurd heq (hnot d)

theorem Moves.listed (h : Moves bare b b') {before : Option ℕ} {incarnation : ℕ}
    (hb : Stands b before ∧ (b.latest = some incarnation ∨ before = some incarnation)) :
    Stands b' before ∧ (b'.latest = some incarnation ∨ before = some incarnation) := by
  refine ⟨h.stands hb.1, ?_⟩
  by_cases hinserted : ∃ d, b = .inserted d
  · obtain ⟨d, hd⟩ := hinserted
    have hstands := hb.1 d hd
    refine .inr ?_
    rcases hb.2 with hlatest | hbefore
    · exact hstands.trans hlatest
    · exact hbefore
  · rw [h.latest fun d hd => hinserted ⟨d, hd⟩]
    exact hb.2

theorem Call.Ordered.moves {call : Call} (h : call.Ordered bare b) (hm : Moves bare b b') : call.Ordered bare b' := by
  cases call with
  | listing caller =>
    rcases caller with _ | before
    · trivial
    · exact hm.stands h
  | checking caller _ | scanning caller _ | storing caller _ _ | found caller _ _ =>
    rcases caller with _ | before
    · trivial
    · exact hm.listed h
  | confirming before len =>
    obtain ⟨hwritten, hbefore, hlen⟩ := h
    obtain ⟨hwritten', hlatest, hreplay⟩ := hm.settles hwritten
    exact ⟨hwritten', hbefore.trans hlatest.symm, by rw [hlen, hreplay]⟩
  | looking _ | bracketing | done => trivial

theorem moves_step {action : TrackedSession.Action} (hstep : st.step bare R action = some st')
    (h : BodyInv bare st.body) : Moves bare st.body st'.body := by
  obtain ⟨-, hsettles, hlatest⟩ := body_step hstep h
  refine ⟨hsettles, hlatest, ?_⟩
  have hs := TrackedSession.step_cases hstep
  cases action with
  | openJournal maxPartBytes =>
    obtain ⟨d, es, j, -, -, rfl⟩ := hs
    exact .inr fun _ h => by cases h
  | spawn rows cols pid geometry started =>
    obtain ⟨N, maxPartBytes, d, s, -, -, rfl⟩ := hs
    exact .inr fun _ h => by cases h
  | session action =>
    obtain ⟨s, t, -, -, -, rfl⟩ := hs
    exact .inr fun _ h => by cases h
  | publish =>
    obtain ⟨s, -, -, rfl⟩ := hs
    exact .inl rfl
  | resumeCheck =>
    obtain ⟨s, resume, -, -, -, -, rfl⟩ := hs
    exact .inl rfl
  | resumeScanned =>
    obtain ⟨-, rfl⟩ := hs
    exact .inl rfl
  | evict =>
    obtain ⟨s, -, -, -, -, rfl⟩ := hs
    exact .inl rfl
  | drop =>
    obtain ⟨s, l, -, -, -, -, rfl⟩ := hs
    exact .inr fun _ h => by cases h
  | journal action =>
    obtain ⟨s, l, -, -, -, rfl⟩ := hs
    exact .inr fun _ h => by cases h
  | call observes | uncache =>
    cases hs
    exact .inl rfl
  | advance i =>
    obtain ⟨call, st₁, call', -, hcs, rfl⟩ := hs
    exact .inl (TrackedSession.callStep_frame hcs).body

/-- **A call's step** keeps to the order. -/
theorem callStep_ordered {call call' : Call} (hright : call.Right bare st.body)
    (hordered : call.Ordered bare st.body) (hstep : st.callStep bare call = some (st', call')) :
    call'.Ordered bare st.body := by
  cases call with
  | looking observes =>
    simp only [TrackedSession.callStep] at hstep
    split at hstep
    · cases hstep
      trivial
    · cases hstep
      split <;> trivial
  | bracketing =>
    cases hstep
    exact fun _ _ => rfl
  | listing caller =>
    simp only [TrackedSession.callStep] at hstep
    split at hstep
    · cases hstep
      trivial
    · rename_i incarnation hlatest
      cases hstep
      rcases caller with _ | before
      · trivial
      · exact ⟨hordered, .inl hlatest⟩
  | checking caller incarnation =>
    simp only [TrackedSession.callStep] at hstep
    split at hstep <;> cases hstep <;> rcases caller with _ | before
    · trivial
    · exact hordered
    · trivial
    · exact hordered
  | scanning caller incarnation =>
    simp only [TrackedSession.callStep] at hstep
    split at hstep <;> cases hstep
    · rcases caller with _ | before
      · trivial
      · exact hordered
    · trivial
  | storing caller incarnation len =>
    cases hstep
    rcases caller with _ | before
    · trivial
    · exact hordered
  | found caller incarnation len =>
    rcases caller with _ | before
    · cases hstep
    · cases hstep
      split
      · rename_i hsame
        obtain ⟨hwritten, hlen⟩ := hright
        refine ⟨hwritten, hsame.symm, hlen ?_⟩
        rcases hordered.2 with hlatest | hbefore
        · exact hlatest
        · exact hsame.trans hbefore
      · trivial
  | confirming before len =>
    simp only [TrackedSession.callStep] at hstep
    split at hstep <;> cases hstep <;> trivial
  | done => cases hstep

/-- What a call's step reports: what the runtime says, or a length from the journal. -/
theorem callStep_log {call call' : Call} (hstep : st.callStep bare call = some (st', call')) :
    st'.observations = st.observations ∨ ∃ o, st'.observations = st.observations ++ [o] ∧
      ((∃ s, st.runtime? = some s.rt ∧ st.body = .spawned s ∧ o = s.rt.observation ∧
          (call = .looking true ∨ ∃ before len, call = .confirming before len)) ∨
        ∃ before len, call = .confirming before len ∧ st.runtime? = none ∧ o = ⟨false, len, before⟩) := by
  cases call with
  | looking observes =>
    simp only [TrackedSession.callStep] at hstep
    split at hstep
    · rename_i rt hrt
      obtain ⟨s, -, hbody, rfl⟩ := TrackedSession.runtime?_eq_some hrt
      cases hstep
      split
      · rename_i hobserves
        exact .inr ⟨_, rfl, .inl ⟨s, hrt, hbody, rfl, .inl (by rw [hobserves])⟩⟩
      · exact .inl rfl
    · cases hstep
      exact .inl rfl
  | bracketing | storing _ _ _ =>
    cases hstep
    exact .inl rfl
  | listing _ | checking _ _ | scanning _ _ =>
    simp only [TrackedSession.callStep] at hstep
    split at hstep <;> cases hstep <;> exact .inl rfl
  | found caller incarnation len =>
    rcases caller with _ | before <;> cases hstep
    exact .inl rfl
  | confirming before len =>
    simp only [TrackedSession.callStep] at hstep
    split at hstep
    · rename_i rt hrt
      obtain ⟨s, -, hbody, rfl⟩ := TrackedSession.runtime?_eq_some hrt
      cases hstep
      exact .inr ⟨_, rfl, .inl ⟨s, hrt, hbody, rfl, .inr ⟨before, len, rfl⟩⟩⟩
    · rename_i hrt
      cases hstep
      exact .inr ⟨_, rfl, .inr ⟨before, len, rfl, hrt, rfl⟩⟩
  | done => cases hstep

/-! ### One step -/

theorem running_false_iff {rt : SessionRuntime} :
    rt.observation.running = false ↔ rt.isCompleted = true ∧ rt.outputClosed = true := by
  simp only [observation, Bool.or_eq_false_iff, Bool.not_eq_false']

/-- An observation of a runtime. -/
theorem observation_right {N : ℕ} {base : Dir} {s : LiveSession} (h : Lives bare N base s)
    (hcounted : s.rt.isCompleted = true → s.rt.outputClosed = true → s.rt.Counted bare) :
    s.rt.observation.incarnation = some N ∧
      (s.rt.observation.running = false →
        s.rt.Over bare ∧ s.rt.observation.offset = (stream bare s.rt.records).length) ∧
      (s.rt.Over bare → s.rt.observation.running = false) := by
  refine ⟨congrArg some h.incarnation, fun hend => ?_, fun hover => ?_⟩
  · obtain ⟨hcompleted, hclosed⟩ := running_false_iff.mp hend
    have hc := hcounted hcompleted hclosed
    exact ⟨⟨hclosed, hcompleted, hc⟩, hc⟩
  · exact running_false_iff.mpr ⟨hover.completed, hover.closed⟩

/-- **What is reported is right**, of a runtime and of a journal. -/
theorem reported_right (h : FinalInv bare st) {call call' : Call} (hmem : call ∈ st.calls)
    (hends : call.EndsRight bare st) (hstep : st.callStep bare call = some (st', call')) :
    st'.observations = st.observations ∨ ∃ o s, st'.observations = st.observations ++ [o] ∧
      st.body.session? = some s ∧ o.incarnation = st.body.latest ∧
      (o.running = false → s.rt.Over bare ∧ o.offset = (stream bare s.rt.records).length) ∧
      (s.rt.Over bare → o.running = false) := by
  rcases callStep_log hstep with hsame | ⟨o, ho, ⟨s, hrt, hbody, rfl, hasks⟩ | ⟨before, len, rfl, hrt, rfl⟩⟩
  · exact .inl hsame
  · refine .inr ⟨_, s, ho, by rw [hbody]; rfl, ?_⟩
    have hlives := h.len.body
    rw [hbody] at hlives ⊢
    obtain ⟨N, base, hlives, -⟩ := hlives
    have hcounted : s.rt.isCompleted = true → s.rt.outputClosed = true → s.rt.Counted bare := by
      rcases hasks with rfl | ⟨before, len, rfl⟩
      · exact hends s.rt hrt
      · exact hends.1 s.rt hrt
    obtain ⟨hincarnation, hright⟩ := observation_right hlives hcounted
    exact ⟨hincarnation.trans hlives.latest.symm, hright⟩
  · -- the journal of an evicted session
    obtain ⟨hwritten, hbefore, hlen⟩ := h.calls _ hmem
    obtain ⟨s, hs, hdisk⟩ := Body.session?_of_written hwritten
    obtain ⟨hover, hflushed⟩ := (h.present s hs).evicted (hends.2 hrt)
    obtain ⟨N, base, hlives⟩ := Body.lives h.len.body hs
    refine .inr ⟨_, s, ho, hs, hbefore, fun _ => ⟨hover, ?_⟩, fun _ => rfl⟩
    show len = (stream bare s.rt.records).length
    rw [hlen, hdisk, hlives.replayable_flushed hflushed]

theorem PresentInv.keeps (h : PresentInv bare st s) (hk : KeepsEnd bare s.rt t.rt)
    (hresidence : st'.residence = st.residence) (hresume : st'.resume = st.resume)
    (hlog : st'.observations = st.observations) (hlatest : st'.body.latest = st.body.latest) :
    PresentInv bare st' t := by
  refine ⟨fun hr => ?_, fun he => ?_, fun o ho => ?_⟩
  · obtain ⟨hclosed, hend⟩ := h.resume (hresume ▸ hr)
    exact ⟨(hk.closed hclosed).1, hend.imp hk.degraded (hk.flushed hclosed)⟩
  · obtain ⟨hover, hflushed⟩ := h.evicted (hresidence.symm.trans he)
    exact ⟨hover.keeps hk, hk.flushed hover.closed hflushed⟩
  · rw [hlog] at ho
    obtain ⟨hincarnation, hend⟩ := h.observed o ho
    refine ⟨hincarnation.trans hlatest.symm, fun hr => ?_⟩
    obtain ⟨hover, hoffset⟩ := hend hr
    exact ⟨hover.keeps hk, by rw [(hk.closed hover.closed).2.1]; exact hoffset⟩

/-- The session is what it was. -/
theorem PresentInv.congr (h : PresentInv bare st s) (hresidence : st'.residence = .evicted → st.residence = .evicted)
    (hresume : st'.resume ≠ .pending → st.resume ≠ .pending) (hlog : st'.observations = st.observations)
    (hbody : st'.body = st.body) : PresentInv bare st' s := by
  refine ⟨fun hr => h.resume (hresume hr), fun he => h.evicted (hresidence he), fun o ho => ?_⟩
  rw [hlog] at ho
  rw [hbody]
  exact h.observed o ho

/-- **What is known of the runtime** after a step. -/
theorem present_step {action : TrackedSession.Action} (h : FinalInv bare st) (hends : EndsRight bare st action)
    (hstep : st.step bare R action = some st') :
    (st'.body.session? = none → st'.residence = .starting ∧ st'.resume = .pending ∧ st'.observations = []) ∧
      ∀ t, st'.body.session? = some t → PresentInv bare st' t := by
  obtain ⟨-, -, hlatest⟩ := body_step hstep h.len.body
  have hs := TrackedSession.step_cases hstep
  cases action with
  | openJournal maxPartBytes =>
    obtain ⟨d, es, j, hbody, -, rfl⟩ := hs
    exact ⟨fun _ => h.early (by rw [hbody]; rfl), fun t ht => (Option.some_ne_none t ht.symm).elim⟩
  | spawn rows cols pid geometry started =>
    obtain ⟨N, maxPartBytes, d, s, hbody, -, rfl⟩ := hs
    obtain ⟨hresidence, hresume, hlog⟩ := h.early (by rw [hbody]; rfl)
    refine ⟨fun hnone => (Option.some_ne_none s hnone).elim, fun t _ => ⟨fun hr => absurd hresume hr, fun he => ?_, fun o ho => ?_⟩⟩
    · rw [hresidence] at he
      cases he
    · rw [hlog] at ho
      cases ho
  | session action =>
    obtain ⟨s, t, hbody, hfinal, ht, rfl⟩ := hs
    have hinv := h.len.body
    rw [hbody] at hinv
    obtain ⟨N, base, hlives, hstream, hend⟩ := hinv
    refine ⟨fun hnone => (Option.some_ne_none t hnone).elim, fun t' ht' => ?_⟩
    cases ht'
    exact (h.present s (by rw [hbody]; rfl)).keeps (keepsEnd_step hlives hstream hend hfinal ht) rfl rfl rfl
      (hlatest (by rw [hbody]; exact fun _ h => by cases h))
  | publish =>
    obtain ⟨s, -, hbody, rfl⟩ := hs
    refine ⟨fun hnone => ?_, fun t ht => (h.present t ht).congr (fun h => by cases h) id rfl rfl⟩
    rw [hbody] at hnone
    cases hnone
  | resumeCheck =>
    obtain ⟨s, resume, -, hbody, hclosed, hwhy, rfl⟩ := hs
    have hinv := h.len.body
    rw [hbody] at hinv
    obtain ⟨N, base, hlives, -, -⟩ := hinv
    refine ⟨fun hnone => ?_, fun t ht => ?_⟩
    · rw [hbody] at hnone
      cases hnone
    · have hpresent := h.present t ht
      rw [hbody] at ht
      cases ht
      refine ⟨fun hr => ⟨hclosed, ?_⟩, hpresent.evicted, hpresent.observed⟩
      rcases hwhy with hpending | hdegraded | hdurable
      · exact absurd hpending hr
      · exact .inl hdegraded
      · exact .inr (flushed_of_durable hlives hdurable)
  | resumeScanned =>
    obtain ⟨hcandidate, rfl⟩ := hs
    refine ⟨fun hnone => ?_, fun t ht => (h.present t ht).congr id (fun _ => by rw [hcandidate]; exact fun h => by cases h) rfl rfl⟩
    rw [(h.early hnone).2.1] at hcandidate
    cases hcandidate
  | evict =>
    obtain ⟨s, hlisted, hbody, hcompleted, hscanned, rfl⟩ := hs
    have hrt : st.runtime? = some s.rt := by rw [TrackedSession.runtime?, hlisted, hbody]
    obtain ⟨hclosed, hwhole⟩ := hends s.rt hrt
    refine ⟨fun hnone => ?_, fun t ht => ?_⟩
    · rw [hbody] at hnone
      cases hnone
    · have hpresent := h.present t ht
      have hinv := h.len.body
      rw [hbody] at ht hinv
      cases ht
      obtain ⟨N, base, hlives, -, -⟩ := hinv
      refine ⟨hpresent.resume, fun _ => ?_, hpresent.observed⟩
      rcases hwhole with hok | ⟨hcounted, hflushed⟩
      · -- the resume hint was looked for once the last record was durable
        have hresume : st.resume ≠ .pending := by
          rcases hscanned with hopen | hscanned
          · rw [hclosed] at hopen
            cases hopen
          · rw [hscanned]
            exact fun h => by cases h
        obtain ⟨-, hdegraded | hflushed⟩ := hpresent.resume hresume
        · rw [hok] at hdegraded
          cases hdegraded
        · exact ⟨⟨hclosed, hcompleted, hlives.synced.total hok⟩, hflushed⟩
      · exact ⟨⟨hclosed, hcompleted, hcounted⟩, hflushed⟩
  | drop =>
    obtain ⟨s, l, -, hbody, -, hl, rfl⟩ := hs
    have hinv := h.len.body
    rw [hbody] at hinv
    obtain ⟨N, base, hlives, -, -⟩ := hinv
    obtain ⟨hcore, hpublished⟩ := close_frame hl
    obtain ⟨-, hcarries⟩ := lives_journal hlives hl hcore hpublished
    refine ⟨fun hnone => (Option.some_ne_none _ hnone).elim, fun t ht => ?_⟩
    cases ht
    exact (h.present s (by rw [hbody]; rfl)).keeps (keepsEnd_journal hcarries hcore) rfl rfl rfl
      (hlatest (by rw [hbody]; exact fun _ h => by cases h))
  | journal action =>
    obtain ⟨s, l, hbody, hleft, hl, rfl⟩ := hs
    have hinv := h.len.body
    rw [hbody] at hinv
    obtain ⟨N, base, hlives, -⟩ := hinv
    have hsame := leftover_step hleft hl
    obtain ⟨-, hcarries⟩ := lives_journal hlives hl hsame.core hsame.published
    refine ⟨fun hnone => (Option.some_ne_none _ hnone).elim, fun t ht => ?_⟩
    cases ht
    exact (h.present s (by rw [hbody]; rfl)).keeps (keepsEnd_journal hcarries hsame.core) rfl rfl rfl
      (hlatest (by rw [hbody]; exact fun _ h => by cases h))
  | call observes | uncache =>
    cases hs
    exact ⟨h.early, fun t ht => (h.present t ht).congr id id rfl rfl⟩
  | advance i =>
    obtain ⟨call, st₁, call', hcall, hcs, rfl⟩ := hs
    have hframe := TrackedSession.callStep_frame hcs
    have hsession : st₁.body.session? = st.body.session? := by rw [hframe.body]
    rcases reported_right h (List.mem_of_getElem? hcall) (hends call hcall) hcs with hsame |
        ⟨o, s, ho, hs, hincarnation, hend, -⟩
    · refine ⟨fun hnone => ?_, fun t ht => ?_⟩
      · obtain ⟨hresidence, hresume, hlog⟩ := h.early (hsession.symm.trans hnone)
        exact ⟨hframe.residence.trans hresidence, hframe.resume.trans hresume, hsame.trans hlog⟩
      · exact (h.present t (hsession.symm.trans ht)).congr hframe.residence.symm.trans
          (fun hr => by rw [← hframe.resume]; exact hr) hsame hframe.body
    · refine ⟨fun hnone => ?_, fun t ht => ?_⟩
      · rw [show st₁.body.session? = none from hnone] at hsession
        rw [hs] at hsession
        cases hsession
      · have ht' : st.body.session? = some t := hsession.symm.trans ht
        have hpresent := h.present t ht'
        rw [hs] at ht'
        cases ht'
        refine ⟨fun hr => hpresent.resume (by rw [← hframe.resume]; exact hr),
          fun he => hpresent.evicted (hframe.residence.symm.trans he), fun o' ho' => ?_⟩
        have ho'' : o' ∈ st₁.observations := ho'
        show o'.incarnation = st₁.body.latest ∧ _
        rw [hframe.body]
        rw [ho] at ho''
        rcases List.mem_append.mp ho'' with hold | hnew
        · exact hpresent.observed o' hold
        · rw [List.mem_singleton.mp hnew]
          exact ⟨hincarnation, hend⟩

theorem EndsRight.scansWritten {action : TrackedSession.Action} (h : EndsRight bare st action) :
    ScansWritten bare st action := by
  cases action with
  | advance i =>
    intro hscanning
    obtain ⟨call, hcall, hscan⟩ := (Option.any_eq_true _ _).mp hscanning
    have hends := h call hcall
    unfold Call.isScanning at hscan
    split at hscan
    · exact hends
    · cases hscan
  | openJournal _ | spawn _ _ _ _ _ | session _ | publish | resumeCheck | resumeScanned | evict | drop | journal _
  | call _ | uncache => trivial

theorem ordered_step {action : TrackedSession.Action} (h : FinalInv bare st) (hstep : st.step bare R action = some st') :
    ∀ call ∈ st'.calls, call.Ordered bare st'.body := by
  have hmoves := moves_step hstep h.len.body
  by_cases hadvance : ∃ i, action = .advance i
  · obtain ⟨i, rfl⟩ := hadvance
    obtain ⟨call, st₁, call', hcall, hcs, rfl⟩ := TrackedSession.step_cases hstep
    have hframe := TrackedSession.callStep_frame hcs
    have hmem := List.mem_of_getElem? hcall
    intro c hc
    show c.Ordered bare st₁.body
    rw [hframe.body]
    rcases List.mem_or_eq_of_mem_set hc with hc | rfl
    · rw [hframe.calls] at hc
      exact h.calls c hc
    · exact callStep_ordered (h.len.calls call hmem) (h.calls call hmem) hcs
  · intro c hc
    obtain ⟨-, hold | ⟨observes, hnew⟩⟩ := frame_step hstep fun i heq => hadvance ⟨i, heq⟩
    · rw [hold] at hc
      exact (h.calls c hc).moves hmoves
    · rw [hnew] at hc
      rcases List.mem_append.mp hc with hc | hc
      · exact (h.calls c hc).moves hmoves
      · rw [List.mem_singleton.mp hc]
        trivial

/-- An action that is no step of a call reports nothing. -/
theorem log_step {action : TrackedSession.Action} (hstep : st.step bare R action = some st')
    (hother : ∀ i, action ≠ .advance i) : st'.observations = st.observations := by
  have hs := TrackedSession.step_cases hstep
  cases action with
  | openJournal maxPartBytes =>
    obtain ⟨d, es, j, -, -, rfl⟩ := hs
    rfl
  | spawn rows cols pid geometry started =>
    obtain ⟨N, maxPartBytes, d, s, -, -, rfl⟩ := hs
    rfl
  | session action =>
    obtain ⟨s, t, -, -, -, rfl⟩ := hs
    rfl
  | publish =>
    obtain ⟨s, -, -, rfl⟩ := hs
    rfl
  | resumeCheck =>
    obtain ⟨s, resume, -, -, -, -, rfl⟩ := hs
    rfl
  | resumeScanned =>
    obtain ⟨-, rfl⟩ := hs
    rfl
  | evict =>
    obtain ⟨s, -, -, -, -, rfl⟩ := hs
    rfl
  | drop =>
    obtain ⟨s, l, -, -, -, -, rfl⟩ := hs
    rfl
  | journal action =>
    obtain ⟨s, l, -, -, -, rfl⟩ := hs
    rfl
  | call observes | uncache =>
    cases hs
    rfl
  | advance i => exact absurd rfl (hother i)

/-- An end that was reported is reported again. -/
theorem final_step {action : TrackedSession.Action} (h : FinalInv bare st) (hends : EndsRight bare st action)
    (hstep : st.step bare R action = some st') :
    st'.observations.Pairwise fun a b => a.running = false → b.running = false ∧ b.offset = a.offset := by
  by_cases hadvance : ∃ i, action = .advance i
  · obtain ⟨i, rfl⟩ := hadvance
    obtain ⟨call, st₁, call', hcall, hcs, rfl⟩ := TrackedSession.step_cases hstep
    show st₁.observations.Pairwise _
    rcases reported_right h (List.mem_of_getElem? hcall) (hends call hcall) hcs with hsame |
        ⟨o, s, ho, hs, -, hend, hover⟩
    · rw [hsame]
      exact h.final
    · rw [ho]
      refine List.pairwise_append.mpr ⟨h.final, List.pairwise_singleton _ _, fun a ha b hb hrunning => ?_⟩
      rw [List.mem_singleton.mp hb]
      obtain ⟨haover, haoffset⟩ := ((h.present s hs).observed a ha).2 hrunning
      have hfalse := hover haover
      exact ⟨hfalse, (hend hfalse).2.trans haoffset.symm⟩
  · rw [log_step hstep fun i heq => hadvance ⟨i, heq⟩]
    exact h.final

/-- **One step.** -/
theorem finalInv_step {action : TrackedSession.Action} (h : FinalInv bare st) (hends : EndsRight bare st action)
    (hstep : st.step bare R action = some st') : FinalInv bare st' := by
  obtain ⟨hearly, hpresent⟩ := present_step h hends hstep
  exact ⟨lenInv_step h.len hends.scansWritten hstep, hearly, hpresent, final_step h hends hstep, ordered_step h hstep⟩

theorem finalInv_start (bare : Bool) (d : Dir) : FinalInv bare (TrackedSession.start d) :=
  ⟨lenInv_start bare d, fun _ => ⟨rfl, rfl, rfl⟩, fun s hs => (Option.some_ne_none s hs.symm).elim, .nil, nofun⟩

end Invariant

/-! ### The end of the stream -/

/-- The first observed end of an incarnation stays; and it is the length of the
stream that the session has published, which is what the journal replays when all of
it is written, as it is once the session was evicted. -/
structure Final (bare : Bool) (st : TrackedSession) : Prop where
  stays : st.observations.Pairwise fun a b =>
    a.incarnation = b.incarnation → a.running = false → b.running = false ∧ b.offset = a.offset
  whole : ∀ a ∈ st.observations, a.running = false → ∃ s, st.body.session? = some s ∧
    a.offset = (stream bare s.rt.records).length ∧
    (s.rt.Flushed bare ∨ st.residence = .evicted → filteredStreamLen bare st.body.disk = .ok a.offset)

theorem FinalInv.result {bare : Bool} {st : TrackedSession} (h : FinalInv bare st) : Final bare st := by
  have hstays : st.observations.Pairwise fun a b =>
      a.incarnation = b.incarnation → a.running = false → b.running = false ∧ b.offset = a.offset :=
    h.final.imp fun hend _ hrunning => hend hrunning
  refine ⟨hstays, fun a ha hrunning => ?_⟩
  rcases hs : st.body.session? with _ | s
  · rw [(h.early hs).2.2] at ha
    cases ha
  have hpresent := h.present s hs
  obtain ⟨-, hoffset⟩ := (hpresent.observed a ha).2 hrunning
  refine ⟨s, rfl, hoffset, fun hwhole => ?_⟩
  have hflushed : s.rt.Flushed bare := hwhole.elim id fun hevicted => (hpresent.evicted hevicted).2
  obtain ⟨N, base, hlives⟩ := Body.lives h.len.body hs
  have hdisk : st.body.disk = s.rt.journal.disk := by
    rcases hb : st.body with d | ⟨N', m, d⟩ | s' | s' <;> rw [hb] at hs <;> cases hs <;> rfl
  rw [hdisk, hlives.filteredStreamLen_eq, hlives.replayable_flushed hflushed, hoffset]

/-- **The end of a stream is final**, in a run that reports no end which is none. -/
theorem end_of_stream_final {bare : Bool} {R : LineReader} {d : Dir} {as : List TrackedSession.Action}
    {st : TrackedSession} (hrun : Runs.run (TrackedSession.step bare R) (.start d) as = some st)
    (hends : Runs.Meets (TrackedSession.step bare R) (EndsRight bare) (.start d) as) : Final bare st :=
  (Runs.run_invariant_of_meets (fun h hend hstep => finalInv_step h hend hstep) hrun hends (finalInv_start bare d)).result

/-- A session that has ended is observed before it is evicted and after. -/
def followedRun : List TrackedSession.Action :=
  endedRun.dropLast ++ asks true 0 1 ++ [.evict] ++ asks true 1 8

set_option maxRecDepth 20000 in
theorem end_of_stream_final_followed : ∃ st,
    Runs.run (TrackedSession.step false exactReader) (.start .empty) followedRun = some st ∧
    st.residence = .evicted ∧ st.observations = [⟨false, 2, some 1⟩, ⟨false, 2, some 1⟩] ∧ Final false st := by
  have hrun : (Runs.run (TrackedSession.step false exactReader) (.start .empty) followedRun).any
      (fun st => decide (st.residence = .evicted ∧
        st.observations = [⟨false, 2, some 1⟩, ⟨false, 2, some 1⟩])) = true := by
    decide +kernel
  have hends : Runs.Meets (TrackedSession.step false exactReader) (EndsRight false) (.start .empty) followedRun := by
    decide +kernel
  obtain ⟨st, hst, hp⟩ := (Option.any_eq_true _ _).mp hrun
  obtain ⟨hresidence, hlog⟩ := of_decide_eq_true hp
  exact ⟨st, hst, hresidence, hlog, end_of_stream_final hst hends⟩

/-- A session is observed while it is started, and again when it is in the live
map. -/
def observedEarlyRun : List TrackedSession.Action :=
  [.openJournal 4096, .spawn 24 80 [55] .quiet .quiet] ++ asks true 0 8 ++ [.publish] ++ asks true 1 1

theorem observed_end_reopens : ∃ st,
    Runs.run (TrackedSession.step false exactReader) (.start .empty) observedEarlyRun = some st ∧
    st.observations = [⟨false, 0, some 1⟩, ⟨true, 0, some 1⟩] := by
  have hrun : (Runs.run (TrackedSession.step false exactReader) (.start .empty) observedEarlyRun).any
      (fun st => decide (st.observations = [⟨false, 0, some 1⟩, ⟨true, 0, some 1⟩])) = true := by
    decide +kernel
  obtain ⟨st, hst, hp⟩ := (Option.any_eq_true _ _).mp hrun
  exact ⟨st, hst, of_decide_eq_true hp⟩

end Session
end OpenRelay
