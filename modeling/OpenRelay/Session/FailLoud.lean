/-
# Failing loudly

A session must not run unrecorded: when a record finds that the journal has
failed, `journal_event` sets a flag, and the reader stops the session at the flag.
The appender announces its failure once, and who polls the announcement
first learns of it. The record path polls, and sets the flag; but so do
`refresh_status` and the sweep for ended sessions, which do not set it, and the
records of `spawn_session` come before there is a flag to set.

In a run in which no such poll finds an announced failure the core is never
degraded without the flag, and once the appender has failed the next chunk that is
read stops the session (`fail_loud`). Otherwise the session goes on, reads and
broadcasts, and nothing of it is journaled (`refresh_hides_failure`,
`spawn_hides_failure`).

Key theorem: `announced_step`.
-/
import OpenRelay.Session.LiveStream

namespace OpenRelay
namespace Session

open Journal Pty

/-! ### Announced failures -/

/-- A failure of the appender is known to the core, or on its way. -/
def Announced (s : ShadowJournal) : Prop :=
  s.appender.dead.isSome = true → s.core.isDegraded = true ∨ ∃ reason, JournalAck.failed reason ∈ s.acks

section Announced

variable {s t : ShadowJournal}

/-- The appender lives, or its failure was announced just now. -/
theorem Announced.of_same (h : Announced s) (hsame : SameCore s t)
    (hdead : t.appender.dead = s.appender.dead ∨ ∃ reason, JournalAck.failed reason ∈ t.acks) : Announced t := by
  intro hd
  rcases hdead with hdead | hnew
  · rw [hdead] at hd
    rw [hsame.core]
    exact (h hd).imp_right fun ⟨reason, hmem⟩ => ⟨reason, hsame.acks.subset hmem⟩
  · exact .inr hnew

/-- The core goes on: it polls, or leaves the acknowledgements. -/
theorem Announced.of_core (h : Announced s) (hdead : t.appender.dead = s.appender.dead)
    (hkeeps : s.core.isDegraded = true → t.core.isDegraded = true)
    (hseen : ∀ reason, JournalAck.failed reason ∈ s.acks →
      t.core.isDegraded = true ∨ JournalAck.failed reason ∈ t.acks) : Announced t := by
  intro hd
  rw [hdead] at hd
  rcases h hd with hdeg | ⟨reason, hmem⟩
  · exact .inl (hkeeps hdeg)
  · exact (hseen reason hmem).imp_right fun hmem' => ⟨reason, hmem'⟩

theorem dead_fail (s : ShadowJournal) (reason : FailReason) : JournalAck.failed reason ∈ (s.fail reason).acks :=
  List.mem_append_right _ (List.mem_singleton.mpr rfl)

theorem dead_sealTail (s : ShadowJournal) : s.sealTail.appender.dead = s.appender.dead ∧ s.sealTail.acks = s.acks := by
  unfold ShadowJournal.sealTail
  split <;> exact ⟨rfl, rfl⟩

theorem dead_receive (s : ShadowJournal) (msg : AppenderMsg) :
    (s.receive msg).appender.dead = s.appender.dead ∨
      ∃ reason, JournalAck.failed reason ∈ (s.receive msg).acks := by
  rcases hdead : s.appender.dead with _ | reason
  · cases msg with
    | sync =>
      simp only [ShadowJournal.receive, hdead]
      exact .inl hdead
    | record event =>
      simp only [ShadowJournal.receive, hdead]
      split
      · exact .inr ⟨_, dead_fail _ _⟩
      · exact .inl hdead
  · cases msg <;> simp only [ShadowJournal.receive, hdead] <;> exact .inl hdead

theorem dead_finish (s : ShadowJournal) (task : Task) (result : Except JournalError RollingSegmentWriter) :
    (s.finish task result).appender.dead = s.appender.dead ∨
      ∃ reason, JournalAck.failed reason ∈ (s.finish task result).acks := by
  cases task <;> cases result
  case finalSync.ok => exact .inl (dead_sealTail s.noteSynced).1
  case finalSync.error =>
    refine .inr ⟨.sync, ?_⟩
    show _ ∈ (((s.setPc .receiving).fail .sync).sealTail).acks
    rw [(dead_sealTail _).2]
    exact dead_fail _ _
  case append.error => exact .inr ⟨_, dead_fail _ _⟩
  case sync.error => exact .inr ⟨_, dead_fail _ _⟩
  case sealTail.error => exact .inr ⟨_, dead_fail _ _⟩
  all_goals exact .inl rfl

/-- A record polls. -/
theorem record_polls (s : ShadowJournal) (kind : RecordKind) (payload : Bytes) (elapsed : ℕ)
    (h : s.pollAcks.core.isDegraded = true) : (s.record kind payload elapsed).1.core.isDegraded = true := by
  rw [ShadowJournal.record, if_pos h]
  exact h

theorem isDegraded_retry {event : OrderedEvent} {r : ShadowJournal.Submission} (h : s.retry event = some (t, r)) :
    (s.core.isDegraded = true → t.core.isDegraded = true) ∧ t.acks = s.acks := by
  unfold ShadowJournal.retry at h
  split at h
  · cases h
    exact ⟨fun _ => isDegraded_degrade _ _, rfl⟩
  · split at h
    · cases h
      exact ⟨id, rfl⟩
    · cases h

/-- **Every step of the journal.** -/
theorem announced_step {action : Journal.Action} (h : Announced s) (hstep : Journal.step s action = some t) :
    Announced t := by
  cases action with
  | record kind payload elapsed =>
    simp only [Journal.step, Runs.guarded] at hstep
    obtain ⟨-, rfl⟩ := hstep
    exact h.of_core (by rw [(record_frame s kind payload elapsed).1])
      (fun hd => record_polls s kind payload elapsed (isDegraded_notes hd _))
      fun reason hmem => .inl (record_polls s kind payload elapsed (isDegraded_failed hmem))
  | retry =>
    simp only [Journal.step] at hstep
    split at hstep
    · obtain ⟨⟨t', r⟩, hretry, rfl⟩ := Option.map_eq_some_iff.mp hstep
      obtain ⟨hkeeps, hacks⟩ := isDegraded_retry hretry
      refine h.of_core ?_ hkeeps fun reason hmem => .inr (by rw [hacks]; exact hmem)
      unfold ShadowJournal.retry at hretry
      split at hretry
      · cases hretry
        rfl
      · split at hretry
        · cases hretry
          rfl
        · cases hretry
    · cases hstep
  | stall =>
    simp only [Journal.step, Option.map_eq_some_iff] at hstep
    obtain ⟨event, -, rfl⟩ := hstep
    exact h.of_core rfl (fun _ => isDegraded_degrade _ _) fun _ hmem => .inr hmem
  | pollAcks =>
    simp only [Journal.step, Runs.guarded] at hstep
    obtain ⟨-, rfl⟩ := hstep
    exact h.of_core rfl (fun hd => isDegraded_notes hd _) fun _ hmem => .inl (isDegraded_failed hmem)
  | close =>
    simp only [Journal.step, Runs.guarded] at hstep
    obtain ⟨-, rfl⟩ := hstep
    exact h.of_core rfl id fun _ hmem => .inr hmem
  | requestSync =>
    simp only [Journal.step, Runs.guarded] at hstep
    obtain ⟨-, rfl⟩ := hstep
    refine h.of_same (SessionRuntime.requestSync_sameCore s) (.inl ?_)
    unfold ShadowJournal.requestSync
    split <;> rfl
  | receive =>
    simp only [Journal.step] at hstep
    split at hstep
    · cases hstep
      have hsame := sameCore_receive { s with queue := ‹_› } ‹_›
      have hdead := dead_receive { s with queue := ‹_› } ‹_›
      exact h.of_same ⟨hsame.core, hsame.published, hsame.closed, hsame.waiting, hsame.acks⟩ hdead
    · cases hstep
  | timeout =>
    simp only [Journal.step] at hstep
    split at hstep
    · simp only [Runs.guarded] at hstep
      obtain ⟨-, rfl⟩ := hstep
      exact h.of_same (sameCore_start _ _ _) (.inl rfl)
    · cases hstep
  | disconnect =>
    simp only [Journal.step] at hstep
    split at hstep
    · simp only [Runs.guarded] at hstep
      obtain ⟨-, rfl⟩ := hstep
      unfold ShadowJournal.leaveLoop
      split
      · exact h.of_same (sameCore_start _ _ _) (.inl rfl)
      · exact h.of_same (sameCore_sealTail _) (.inl (dead_sealTail s).1)
    · cases hstep
  | effect =>
    simp only [Journal.step] at hstep
    split at hstep
    · cases hstep
      exact h.of_same ⟨rfl, rfl, rfl, rfl, List.prefix_rfl⟩ (.inl rfl)
    · cases hstep
  | fault n =>
    simp only [Journal.step] at hstep
    split at hstep
    · cases hstep
      have hsame := sameCore_finish { s with disk := applyEffects (Effect.cut n ‹_›) s.disk } ‹_› (.error .io)
      have hdead := dead_finish { s with disk := applyEffects (Effect.cut n ‹_›) s.disk } ‹_› (.error .io)
      exact h.of_same ⟨hsame.core, hsame.published, hsame.closed, hsame.waiting, hsame.acks⟩ hdead
    · cases hstep
  | finish =>
    simp only [Journal.step] at hstep
    split at hstep
    · cases hstep
      exact h.of_same (sameCore_finish _ _ _) (dead_finish _ _ _)
    · cases hstep

end Announced

theorem announced_run {R : LineReader} {l l' : Live} {as : List Live.Action}
    (hrun : Runs.run (Live.step R) l as = some l') (h : Announced l.journal) : Announced l'.journal := by
  refine Runs.run_invariant (I := fun l : Live => Announced l.journal) (fun {l a l'} hl hstep => ?_) hrun h
  cases a with
  | journal action =>
    obtain ⟨s, hs, rfl⟩ := Option.map_eq_some_iff.mp hstep
    exact announced_step hl hs
  | startSweep m =>
    cases hstep
    exact hl
  | sweepEffect i | sweepFault i n =>
    simp only [Live.step] at hstep
    split at hstep
    · cases hstep
      exact hl
    · cases hstep

/-! ### The flag -/

namespace LiveSession

open SessionRuntime

/-- The action polls the acknowledgements outside of a record. -/
def polls (s : LiveSession) : Action → Bool
  | .refresh _ _ | .terminate _ _ _ => true
  | .prune => s.rt.isCompleted && s.rt.outputClosed
  | _ => false

/-- No failure is announced that such a poll would be the first to find. -/
def FindsNoFailure (s : LiveSession) (action : Action) : Prop :=
  s.polls action = true → ∀ reason, JournalAck.failed reason ∈ s.rt.journal.journal.acks → s.rt.isDegraded = true

/-- The next chunk that is read stops the session, and is not broadcast. -/
def StopsAt (bare : Bool) (R : LineReader) (s : LiveSession) : Prop :=
  ∀ chunk engine modes output policy checkpoint t,
    s.step bare R (.read chunk engine modes output policy checkpoint) = some t →
    t.rt.journalFailed = true ∧ t.rt.requestedFinalStatus = some .failed ∧ t.rt.childKilled = true ∧
      t.reader = .closing journalStopDetail ∧ t.chunks = s.chunks

/-- What a session that fails loudly keeps. -/
structure LoudInv (s : LiveSession) : Prop where
  idle : Idle s.rt.journal.journal
  announced : Announced s.rt.journal.journal
  loud : s.rt.isDegraded = true → s.rt.journalFailed = true

variable {bare : Bool} {R : LineReader} {s t : LiveSession}

theorem isDegraded_of_notes {core : SequencerCore} : ∀ {acks : List JournalAck},
    (acks.foldl SequencerCore.note core).isDegraded = true →
    core.isDegraded = true ∨ ∃ reason, JournalAck.failed reason ∈ acks := by
  intro acks
  induction acks generalizing core with
  | nil => exact .inl
  | cons ack acks ih =>
    intro h
    rcases ih h with hack | ⟨reason, hmem⟩
    · cases ack with
      | journaled seq | durable seq => exact .inl hack
      | failed reason => exact .inr ⟨reason, List.mem_cons_self⟩
    · exact .inr ⟨reason, List.mem_cons_of_mem _ hmem⟩

/-- A poll that finds no failure leaves the core as healthy as it was. -/
theorem pollAcks_quiet {rt : SessionRuntime}
    (h : ∀ reason, JournalAck.failed reason ∈ rt.journal.journal.acks → rt.isDegraded = true)
    (hd : rt.pollAcks.isDegraded = true) : rt.isDegraded = true :=
  (isDegraded_of_notes hd).elim id fun ⟨reason, hmem⟩ => h reason hmem

/-- What goes on by records alone keeps the core from degrading unflagged. -/
theorem loud_of_evolves {rt rt' : SessionRuntime} (h : Evolves R rt rt')
    (hloud : rt.isDegraded = true → rt.journalFailed = true) (hd : rt'.isDegraded = true) :
    rt'.journalFailed = true :=
  (h.loud hd).elim (fun hd' => h.flagged (hloud hd')) id

/-- **One step of a session.** -/
theorem loudInv_step {action : Action} (h : LoudInv s) (hquiet : s.FindsNoFailure action)
    (hstep : s.step bare R action = some t) : LoudInv t := by
  have hadv := step_advances hstep h.idle
  obtain ⟨as, has⟩ := hadv.run
  refine ⟨hadv.idle, announced_run has h.announced, fun hd => ?_⟩
  have hs := step_cases hstep
  have hpoll : s.polls action = true → s.rt.pollAcks.isDegraded = true → s.rt.pollAcks.journalFailed = true :=
    fun hp hd' => h.loud (pollAcks_quiet (hquiet hp) hd')
  cases action with
  | background action =>
    obtain ⟨l, hl, rfl⟩ := hs
    exact loud_of_evolves (background_advances hl h.idle).1 h.loud hd
  | read chunk engine modes output policy checkpoint =>
    obtain ⟨-, rt', hrt, rfl⟩ := hs
    exact loud_of_evolves (readLocked_evolves hrt h.idle) h.loud hd
  | send =>
    obtain ⟨chunk, -, rfl⟩ := hs
    exact h.loud hd
  | hangup detail =>
    obtain ⟨-, rfl⟩ := hs
    exact h.loud hd
  | close engine closed checkpoint completion =>
    obtain ⟨detail, rt', -, hrt, rfl⟩ := hs
    exact loud_of_evolves (close_evolves hrt h.idle) h.loud hd
  | closeAgain engine closed checkpoint completion detail idle =>
    obtain ⟨-, rfl⟩ := hs
    exact h.loud hd
  | refresh turn child =>
    obtain ⟨rt', completed, hrt, rfl⟩ := hs
    exact loud_of_evolves (refreshStatus_evolves hrt h.idle) (hpoll rfl) hd
  | terminate turn child requested =>
    obtain ⟨rt', hrt, rfl⟩ := hs
    exact loud_of_evolves (terminate_evolves hrt h.idle) (hpoll rfl) hd
  | markCompleted turn status exitCode =>
    obtain ⟨rt', hrt, rfl⟩ := hs
    exact loud_of_evolves (markCompleted_evolves hrt h.idle) h.loud hd
  | resize turn rows cols resized =>
    obtain ⟨rt', hrt, rfl⟩ := hs
    exact loud_of_evolves (resizePty_evolves hrt h.idle) h.loud hd
  | prune =>
    cases hs
    show s.rt.prune.journalFailed = true
    have hd' : s.rt.prune.isDegraded = true := hd
    unfold prune at hd' ⊢
    split at hd'
    · rename_i hended
      have hp : s.polls .prune = true := by rw [polls, hended.1, hended.2]; rfl
      have hflag : s.rt.journalFailed = true := by
        refine hpoll hp ?_
        dsimp only at hd'
        split at hd'
        · exact hd'
        · exact (congrArg SequencerCore.isDegraded (requestSync_sameCore _).core).symm.trans hd'
      rw [if_pos hended]
      dsimp only
      split <;> exact hflag
    · rename_i hended
      rw [if_neg hended]
      exact h.loud hd'

/-- Once the appender has failed, or the flag is set, the next read stops the
session. -/
theorem stopsAt_of_failed (h : LoudInv s)
    (hfailed : s.rt.journal.journal.appender.dead.isSome = true ∨ s.rt.journalFailed = true) : StopsAt bare R s := by
  intro chunk engine modes output policy checkpoint t hstep
  obtain ⟨⟨hreader, -⟩, rt', hrt, rfl⟩ := step_cases hstep
  obtain ⟨rt₁, rt₂, rt₃, rt₄, hsteps, hrt'⟩ := readLocked_cases hrt h.idle
  -- the record of the chunk polls, so it finds the failure
  have hflag₁ : rt₁.journalFailed = true := by
    rcases hfailed with hdead | hf
    · have hev := hsteps.output.evolves
      refine loud_of_evolves hev h.loud ?_
      rcases h.announced hdead with hdeg | ⟨reason, hmem⟩
      · exact hev.keeps hdeg
      · exact hsteps.output.polled reason hmem
    · exact hsteps.output.evolves.flagged hf
  have hflag₄ := hsteps.rest.flagged hflag₁
  rw [if_pos hflag₄] at hrt'
  have hflag : rt'.journalFailed = true := by rw [hrt']; exact hflag₄
  refine ⟨hflag, by rw [hrt'], by rw [hrt'], ?_, ?_⟩
  · exact if_pos hflag
  · show s.broadcast ++ (afterRead rt' _).chunk?.toList = s.broadcast ++ s.reader.chunk?.toList
    rw [afterRead, if_pos hflag, hreader]
    rfl

theorem loudInv_spawn {N maxPartBytes rows cols : ℕ} {disk : Dir} {pid : Bytes} {geometry started : Turn}
    (h : spawn R (Live.opened N maxPartBytes disk) rows cols pid geometry started = some s)
    (hok : s.rt.isDegraded = false) : LoudInv s := by
  obtain ⟨-, ⟨as, has⟩, hidle, -⟩ := spawn_spec h ⟨rfl, rfl⟩
  refine ⟨hidle, announced_run has nofun, fun hd => ?_⟩
  rw [hok] at hd
  cases hd

end LiveSession

open LiveSession in
/-- **Failing loudly.** A session whose first records found no failure, in a run in
which no poll outside of a record is the first to find one: the core is never
degraded without the flag, and once the appender has failed, or the flag is set,
the next chunk that is read stops the session. -/
theorem fail_loud {bare : Bool} {R : LineReader} {N maxPartBytes rows cols : ℕ} {disk : Dir} {pid : Bytes}
    {geometry started : Turn} {s₀ s : LiveSession} {as : List LiveSession.Action}
    (hspawn : spawn R (Live.opened N maxPartBytes disk) rows cols pid geometry started = some s₀)
    (hok : s₀.rt.isDegraded = false) (hrun : Runs.run (step bare R) s₀ as = some s)
    (hquiet : Runs.Meets (step bare R) FindsNoFailure s₀ as) :
    (s.rt.isDegraded = true → s.rt.journalFailed = true) ∧
    (s.rt.journal.journal.appender.dead.isSome = true ∨ s.rt.journalFailed = true → StopsAt bare R s) := by
  have h := Runs.run_invariant_of_meets (fun hi hc hstep => loudInv_step hi hc hstep) hrun hquiet
    (loudInv_spawn hspawn hok)
  exact ⟨h.loud, stopsAt_of_failed h⟩

/-- The appender takes up a record and fails at its first effect. -/
def failure : List Live.Action := [.journal .receive, .journal (.fault 0)]

/-- A chunk is read. -/
def readHello : LiveSession.Action :=
  .read [104, 105] ⟨24, 80, (0, 2), false, false, false, [], []⟩ ⟨false, false, false, false, false⟩
    .quiet .quiet .quiet

theorem fail_loud_fault : ∃ s₀ s,
    LiveSession.spawn exactReader (Live.opened 1 4096 (freshDir 1)) 24 80 [55] .quiet .quiet = some s₀ ∧
    Runs.run (LiveSession.step false exactReader) s₀ (failure.map .background) = some s ∧
    s.rt.journal.journal.appender.dead.isSome = true ∧ LiveSession.StopsAt false exactReader s := by
  have hrun : (runFresh .quiet (failure.map .background)).any
      (fun s => s.rt.journal.journal.appender.dead.isSome) = true := by
    decide +kernel
  obtain ⟨s, hs, hdead⟩ := (Option.any_eq_true _ _).mp hrun
  obtain ⟨s₀, hs₀, hs'⟩ := Option.bind_eq_some_iff.mp hs
  have hok : s₀.rt.isDegraded = false := by
    cases hs₀
    rfl
  refine ⟨s₀, s, hs₀, hs', hdead, (fail_loud hs₀ hok hs' (Runs.meets_of_forall fun a ha s => ?_)).2 (.inl hdead)⟩
  obtain ⟨action, -, rfl⟩ := List.mem_map.mp ha
  intro hpolls
  cases hpolls

/-- A failure that is found by a refresh, or by the second record of `spawn`, is
not flagged: the session reads on and broadcasts, and the journal has none of it. -/
theorem failure_hidden :
    (∃ s, runFresh .quiet (failure.map .background ++ [.refresh .quiet .running, readHello, .send]) = some s ∧
      s.rt.isDegraded = true ∧ s.rt.journalFailed = false ∧ s.reader = .reading ∧
      s.broadcast = [⟨0, [104, 105]⟩] ∧ outputs s.rt.records = []) ∧
    ∃ s, runFresh { Turn.quiet with before := failure } [readHello, .send] = some s ∧
      s.rt.isDegraded = true ∧ s.rt.journalFailed = false ∧ s.reader = .reading ∧
      s.broadcast = [⟨0, [104, 105]⟩] ∧ outputs s.rt.records = [] := by
  have hfound : ∀ {o : Option LiveSession}, o.any (fun s => decide (s.rt.isDegraded = true ∧
      s.rt.journalFailed = false ∧ s.reader = .reading ∧ s.broadcast = [⟨0, [104, 105]⟩] ∧
      outputs s.rt.records = [])) = true → ∃ s, o = some s ∧ s.rt.isDegraded = true ∧
      s.rt.journalFailed = false ∧ s.reader = .reading ∧ s.broadcast = [⟨0, [104, 105]⟩] ∧
      outputs s.rt.records = [] := by
    intro o h
    obtain ⟨s, hs, hp⟩ := (Option.any_eq_true _ _).mp h
    exact ⟨s, hs, of_decide_eq_true hp⟩
  refine ⟨hfound ?_, hfound ?_⟩ <;> decide +kernel

end Session
end OpenRelay
