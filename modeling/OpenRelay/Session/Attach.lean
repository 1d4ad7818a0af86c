/-
# A session with a client attached

The pump of `OpenRelay.Pump` follows a session that counts, sends and persists a
stream on its own schedule. Here that session is the live one: `Attached.step`
interleaves `LiveSession.step` with the pump, and the pump sees of a step what it
does to the stream (`echo`). Such a run is a run of the pump with its session
(`attached_run`), and the pump never holds up the session (`followed`).

A client that resumes gives the offset up to which it has the stream. What it is
sent first is read from the journal on disk, which may be behind
(`attach_subscribe_init` in `session/store/attach.rs`). The pump starts where that
reading ends: if this is not before the client's offset, the client gets the
stream exactly, and otherwise bytes it has (`resume_exact`). An offset behind the
end of the stream is never rejected.

Key theorem: `coupled_run`.
-/
import OpenRelay.Session.JournalReplay

namespace OpenRelay
namespace Session

open Journal Pty Streams

/-- What can be replayed of a session directory. -/
def replayable (bare : Bool) (d : Dir) : Bytes :=
  match (listIncarnations d).getLast? with
  | none => []
  | some incarnation =>
    match readIncarnation d incarnation fun _ => replayBatchBytes with
    | .error _ => []
    | .ok rs => stream bare rs

/-- A session and a pump that follows it. -/
structure Attached where
  live : LiveSession
  /-- The pump, and what it sees of the session. -/
  sys : Pump.Sys

namespace Attached

/-- What may happen next. -/
inductive Action where
  | session (action : LiveSession.Action)
  | pump (act : Pump.Act)
  /-- A resuming client's first bytes are read from the journal. -/
  | resumeInit (sharedModes : Bool) (credit : Option Pump.CreditPolicy)

/-- What a step of the session does to the stream. -/
def echo (bare : Bool) (s t : LiveSession) : LiveSession.Action → List Pump.Act
  | .read chunk _ _ _ _ _ =>
    let filtered := (s.scanner.scan bare chunk).2.filtered
    if filtered = [] then []
    else if t.rt.journalFailed then [.read filtered, .journalStop]
    else [.read filtered]
  | .send => [.send]
  | .close _ _ _ _ => [.closeOutput]
  | _ => []

/-- Actions of the pump's session that are the live session's here. -/
def isEcho : Pump.Act → Bool
  | .read _ | .send | .journalStop | .closeOutput | .persist _ | .resumeInit _ _ _ => true
  | _ => false

def start (live : LiveSession) (modes : Pump.ModeSnapshot) (incarnation : ℕ) : Attached :=
  ⟨live, Pump.Sys.start modes (some incarnation)⟩

section Steps

variable (bare : Bool)

/-- The stream follows the session, and so does what a window may read of it. -/
def follow (sys : Pump.Sys) (live : LiveSession) (acts : List Pump.Act) : Option Pump.Sys :=
  (Runs.run Pump.step sys acts).bind fun sys =>
    Pump.step sys (.persist (max sys.session.persisted (replayable bare live.rt.journal.disk).length))

/-- A step of the session, which the pump follows, or one of the pump. -/
def step (R : LineReader) (s : Attached) : Action → Option Attached
  | .session action => do
    let live ← s.live.step bare R action
    let sys ← follow bare s.sys live (echo bare s.live live action)
    return ⟨live, sys⟩
  | .pump act => if isEcho act then none else (Pump.step s.sys act).map fun sys => ⟨s.live, sys⟩
  | .resumeInit sharedModes credit =>
    match s.sys.pc with
    | .subscribed offset =>
      match filteredStreamFrom bare s.live.rt.journal.disk offset with
      | .ok (data, endOffset) => some ⟨s.live, s.sys.attach data endOffset sharedModes credit⟩
      | .error _ => none
    | _ => none

end Steps

end Attached

/-! ### What can be replayed -/

/-- **The live journal's stream.** -/
theorem replayable_live {N : ℕ} {base : Dir} {bare : Bool} {pending : Bytes} {rt : SessionRuntime}
    (h : LiveInv N base rt.journal) (hbase : ∀ seg ∈ base.listSegments, seg.incarnation ≤ N)
    (hs : Synced bare pending rt) :
    replayable bare rt.journal.disk <+: stream bare rt.records ∧
      ∀ offset, filteredStreamFrom bare rt.journal.disk offset =
        .ok ((replayable bare rt.journal.disk).drop offset, (replayable bare rt.journal.disk).length) := by
  obtain ⟨groups, current, torn, hholds, hpre⟩ := holds_live h
  have hlatest := latest_live h hbase
  have hlt : (stream bare (groups.flatten ++ current)).length < 2 ^ 64 :=
    ((stream_mono hpre).length_le.trans hs.counted).trans_lt hs.bound
  have hread : readIncarnation rt.journal.disk N (fun _ => replayBatchBytes) = .ok (groups.flatten ++ current) := by
    obtain ⟨st, hst, hreads⟩ := hholds.reads_open
    rw [readIncarnation, hst]
    exact SegmentStream.drain_eq hreads (Nat.lt_succ_of_le (Holds.length_le hholds))
  have hreplay : replayable bare rt.journal.disk = stream bare (groups.flatten ++ current) := by
    rw [replayable, hlatest]
    simp only [hread]
  rw [hreplay]
  exact ⟨stream_mono hpre, filteredStreamFrom_eq hlatest hholds (hs.anchored.of_prefix hpre) hlt⟩

/-! ### The published stream -/

section Published

open SessionRuntime

variable {bare : Bool} {R : LineReader} {s t : LiveSession}

/-- A step that is no read publishes nothing of the stream. -/
theorem stream_step {action : LiveSession.Action} (h : StreamInv bare s) (hread : action.isRead = false)
    (hstep : s.step bare R action = some t) : stream bare t.rt.records = stream bare s.rt.records := by
  have hadv := LiveSession.step_advances hstep h.idle
  by_cases hbad : s.rt.isDegraded = true
  · rw [hadv.silent hbad]
  · rw [Bool.not_eq_true] at hbad
    refine ((stream_mono hadv.published).eq_of_length_le ?_).symm
    calc (stream bare t.rt.records).length ≤ t.rt.filteredTotalBytes := (streamInv_step h hstep).synced.counted
      _ = s.rt.filteredTotalBytes := step_total hread hstep h.idle
      _ = (stream bare s.rt.records).length := h.synced.total hbad

/-- A read publishes what the scanner made of the chunk, if anything. -/
theorem stream_read {chunk : Bytes} {engine : EngineView} {modes : Pump.ModeSnapshot} {output policy checkpoint : Turn}
    (h : StreamInv bare s) (hstep : s.step bare R (.read chunk engine modes output policy checkpoint) = some t) :
    t.rt.filteredTotalBytes = s.rt.filteredTotalBytes + (s.scanner.scan bare chunk).2.filtered.length ∧
      (s.rt.isDegraded = false →
        stream bare t.rt.records <+: stream bare s.rt.records ++ (s.scanner.scan bare chunk).2.filtered) := by
  have hinv := streamInv_step h hstep
  obtain ⟨⟨-, -, -, hlt⟩, rt', hrt, rfl⟩ := LiveSession.step_cases hstep
  obtain ⟨rt₁, rt₂, rt₃, rt₄, hsteps, hrt'⟩ := LiveSession.readLocked_cases hrt h.idle
  obtain ⟨-, htotal₄, -⟩ := h.synced.read hlt hsteps
  have hfields : rt'.records = rt₄.records ∧ rt'.filteredTotalBytes = rt₄.filteredTotalBytes := by
    rw [hrt']
    split <;> exact ⟨rfl, rfl⟩
  obtain ⟨hrec, htotal⟩ := hfields
  refine ⟨htotal.trans htotal₄, fun hok => ?_⟩
  show stream bare rt'.records <+: _
  rcases hsteps.output.outcome with ⟨hrec₁, hbad⟩ | ⟨r, hk, hp, hrec₁⟩
  · -- the chunk was not published, and nothing after it
    rw [hrec, hsteps.rest.silent hbad, hrec₁]
    exact List.prefix_append _ _
  · have hstream₁ : stream bare rt₁.records = stream bare s.rt.records ++ (s.scanner.scan bare chunk).2.filtered := by
      rw [hrec₁, ← hp]
      exact (stream_snoc (h.synced.pending hok) hk).1
    have hpre := @stream_mono bare _ _ hsteps.rest.published
    rw [hstream₁, ← hrec] at hpre
    refine (hpre.eq_of_length_le ?_) ▸ List.prefix_rfl
    calc (stream bare rt'.records).length ≤ rt'.filteredTotalBytes := hinv.synced.counted
      _ = s.rt.filteredTotalBytes + (s.scanner.scan bare chunk).2.filtered.length := htotal.trans htotal₄
      _ = _ := by rw [List.length_append, h.synced.total hok]

end Published

/-! ### The pump's session is the live one -/

/-- **The pump's view of the session.** The stream is what has been counted; the
published records give it, up to a failure of the journal. -/
structure Viewed (bare : Bool) (N : ℕ) (base : Dir) (s : Attached) : Prop where
  inv : StreamInv bare s.live
  journal : LiveInv N base s.live.rt.journal
  pump : Pump.Inv s.sys
  length : s.sys.session.stream.length = s.live.rt.filteredTotalBytes
  published : stream bare s.live.rt.records <+: s.sys.session.stream
  flight : s.sys.session.inFlight = s.live.reader.chunk?
  opened : s.live.reader = .reading ∨ s.live.reader.chunk?.isSome = true → s.sys.session.outputClosed = false

/-- The windows may read what is on disk. -/
structure Coupled (bare : Bool) (N : ℕ) (base : Dir) (s : Attached) : Prop extends Viewed bare N base s where
  readable : (replayable bare s.live.rt.journal.disk).length ≤ s.sys.session.persisted

section Coupling

open Attached

variable {bare : Bool} {R : LineReader} {N : ℕ} {base : Dir} {s t : Attached} {live : LiveSession}

/-- Up to a failure of the journal the published stream is the whole one. -/
theorem Viewed.whole (h : Viewed bare N base s) (hok : s.live.rt.isDegraded = false) :
    stream bare s.live.rt.records = s.sys.session.stream :=
  h.published.eq_of_length (by rw [h.length, h.inv.synced.total hok])

theorem Viewed.replayable (h : Viewed bare N base s) (hbase : ∀ seg ∈ base.listSegments, seg.incarnation ≤ N) :
    replayable bare s.live.rt.journal.disk <+: s.sys.session.stream :=
  (replayable_live h.journal hbase h.inv.synced).1.trans h.published

/-- What is on disk is noted. -/
theorem Viewed.persist (h : Viewed bare N base s) (hbase : ∀ seg ∈ base.listSegments, seg.incarnation ≤ N) :
    ∃ sys, Pump.step s.sys (.persist (max s.sys.session.persisted
      (Session.replayable bare s.live.rt.journal.disk).length)) = some sys ∧ Coupled bare N base ⟨s.live, sys⟩ := by
  have hle : max s.sys.session.persisted (Session.replayable bare s.live.rt.journal.disk).length ≤
      s.sys.session.stream.length := max_le h.pump.persisted (h.replayable hbase).length_le
  have hstep : Pump.step s.sys (.persist (max s.sys.session.persisted
      (Session.replayable bare s.live.rt.journal.disk).length)) = some { s.sys with session := { s.sys.session with
        persisted := max s.sys.session.persisted (Session.replayable bare s.live.rt.journal.disk).length } } := by
    rw [Pump.step, Pump.sessionStep, if_pos ⟨le_max_left _ _, hle⟩]
    rfl
  exact ⟨_, hstep, ⟨h.inv, h.journal, Pump.inv_step h.pump hstep, h.length, h.published, h.flight, h.opened⟩,
    le_max_right _ _⟩

/-- **The pump follows a step of the session.** -/
theorem viewed_session (h : Viewed bare N base s) (hbase : ∀ seg ∈ base.listSegments, seg.incarnation ≤ N)
    {action : LiveSession.Action} (hstep : s.live.step bare R action = some live) :
    ∃ sys, Runs.run Pump.step s.sys (echo bare s.live live action) = some sys ∧ Viewed bare N base ⟨live, sys⟩ := by
  have hadv := LiveSession.step_advances hstep h.inv.idle
  have hinv := streamInv_step h.inv hstep
  obtain ⟨cs, hcs⟩ := hadv.run
  have hjournal : LiveInv N base live.rt.journal :=
    Runs.run_invariant (fun h hstep => liveInv_step hbase h hstep) hcs h.journal
  -- a step that moves neither the stream nor the chunk on its way
  have hquiet : ∀ {sys : Pump.Sys}, action.isRead = false → Pump.Inv sys →
      sys.session.stream = s.sys.session.stream → sys.session.inFlight = live.reader.chunk? →
      (live.reader = .reading ∨ live.reader.chunk?.isSome = true → sys.session.outputClosed = false) →
      Viewed bare N base ⟨live, sys⟩ := by
    intro sys hread hpump hsame hflight hopened
    refine ⟨hinv, hjournal, hpump, ?_, ?_, hflight, hopened⟩
    · exact (congrArg List.length hsame).trans (h.length.trans (step_total hread hstep h.inv.idle).symm)
    · show stream bare live.rt.records <+: sys.session.stream
      rw [stream_step h.inv hread hstep, hsame]
      exact h.published
  have hsame : action.isRead = false → live.reader = s.live.reader → Viewed bare N base ⟨live, s.sys⟩ :=
    fun hread hreader => hquiet hread h.pump rfl (by rw [hreader]; exact h.flight) (by rw [hreader]; exact h.opened)
  have hs := LiveSession.step_cases hstep
  cases action with
  | read chunk engine modes output policy checkpoint =>
    obtain ⟨htotal, hpub⟩ := stream_read h.inv hstep
    obtain ⟨⟨hreader, -⟩, rt', -, rfl⟩ := hs
    have hopen := h.opened (.inl hreader)
    have hflight : s.sys.session.inFlight = none := by rw [h.flight, hreader]; rfl
    have hpublished : stream bare rt'.records <+:
        s.sys.session.stream ++ (s.live.scanner.scan bare chunk).2.filtered := by
      by_cases hbad : s.live.rt.isDegraded = true
      · rw [show rt'.records = s.live.rt.records from hadv.silent hbad]
        exact h.published.trans (List.prefix_append _ _)
      · rw [Bool.not_eq_true] at hbad
        rw [← h.whole hbad]
        exact hpub hbad
    generalize hf : (s.live.scanner.scan bare chunk).2.filtered = filtered at *
    have hlength : (s.sys.session.stream ++ filtered).length = rt'.filteredTotalBytes := by
      rw [List.length_append, h.length]
      exact htotal.symm
    by_cases hnil : filtered = []
    · refine ⟨s.sys, by rw [echo, hf, if_pos hnil]; rfl, hinv, hjournal, h.pump, ?_, ?_, ?_, fun _ => hopen⟩
      · rwa [hnil, List.append_nil] at hlength
      · rwa [hnil, List.append_nil] at hpublished
      · show s.sys.session.inFlight = (LiveSession.afterRead rt' filtered).chunk?
        rw [hflight, LiveSession.afterRead, if_pos hnil]
        split <;> rfl
    · have hread : Pump.step s.sys (.read filtered) = some { s.sys with session := { s.sys.session with
          stream := s.sys.session.stream ++ filtered
          inFlight := some ⟨s.sys.session.stream.length, filtered⟩ } } := by
        rw [Pump.step, Pump.sessionStep, if_neg (by simp [hopen, hflight, hnil])]
        rfl
      have hpump := Pump.inv_step h.pump hread
      by_cases hfail : rt'.journalFailed = true
      · -- the reader gives up before it sends the chunk
        have hstop : Runs.run Pump.step s.sys [.read filtered, .journalStop] = some { s.sys with session := {
            s.sys.session with
              stream := s.sys.session.stream ++ filtered, inFlight := none, outputClosed := true } } := by
          simp only [Runs.run, hread]
          rfl
        have hafter : LiveSession.afterRead rt' filtered = .closing journalStopDetail := if_pos hfail
        refine ⟨_, by rw [echo, hf, if_neg hnil, if_pos hfail]; exact hstop, hinv, hjournal,
          Runs.run_invariant Pump.inv_step hstop h.pump, hlength, hpublished, ?_, fun hreading => ?_⟩
        · show none = (LiveSession.afterRead rt' filtered).chunk?
          rw [hafter]
          rfl
        · rcases hreading with hreading | hsending
          · cases hafter.symm.trans hreading
          · rw [show (LiveSession.afterRead rt' filtered).chunk? = none from by rw [hafter]; rfl] at hsending
            cases hsending
      · have hafter : LiveSession.afterRead rt' filtered = .sending ⟨s.sys.session.stream.length, filtered⟩ := by
          rw [LiveSession.afterRead, if_neg hfail, if_neg hnil, ← hlength, List.length_append, Nat.add_sub_cancel]
        refine ⟨_, by rw [echo, hf, if_neg hnil, if_neg hfail, Runs.run, hread]; rfl, hinv, hjournal, hpump, hlength,
          hpublished, ?_, fun _ => hopen⟩
        show some _ = (LiveSession.afterRead rt' filtered).chunk?
        rw [hafter]
        rfl
  | send =>
    obtain ⟨chunk, hreader, rfl⟩ := hs
    have hflight : s.sys.session.inFlight = some chunk := by rw [h.flight, hreader]; rfl
    have hsend : Pump.step s.sys .send = some { s.sys with
        session := { s.sys.session with inFlight := none }
        rx := if s.sys.attached then { s.sys.rx with queue := s.sys.rx.queue ++ [chunk] } else s.sys.rx } := by
      rw [Pump.step, Pump.sessionStep, hflight]
      rfl
    refine ⟨_, by rw [echo, Runs.run, hsend]; rfl, hquiet rfl (Pump.inv_step h.pump hsend) rfl rfl fun _ => ?_⟩
    exact h.opened (.inr (by rw [hreader]; rfl))
  | close engine closed checkpoint completion =>
    obtain ⟨detail, rt', hreader, -, rfl⟩ := hs
    have hflight : s.sys.session.inFlight = none := by rw [h.flight, hreader]; rfl
    have hclose : Pump.step s.sys .closeOutput = some { s.sys with session := { s.sys.session with
        outputClosed := true } } := by
      rw [Pump.step, Pump.sessionStep, hflight]
      rfl
    refine ⟨_, by rw [echo, Runs.run, hclose]; rfl, hquiet rfl (Pump.inv_step h.pump hclose) rfl hflight fun hr => ?_⟩
    rcases hr with hr | hr <;> cases hr
  | hangup detail =>
    obtain ⟨hreader, rfl⟩ := hs
    refine ⟨_, rfl, hquiet rfl h.pump rfl (by rw [h.flight, hreader]; rfl) fun hr => ?_⟩
    rcases hr with hr | hr <;> cases hr
  | background action =>
    obtain ⟨l, -, rfl⟩ := hs
    exact ⟨_, rfl, hsame rfl rfl⟩
  | closeAgain engine closed checkpoint completion detail idle =>
    obtain ⟨-, rfl⟩ := hs
    exact ⟨_, rfl, hsame rfl rfl⟩
  | refresh turn child =>
    obtain ⟨rt', completed, -, rfl⟩ := hs
    exact ⟨_, rfl, hsame rfl rfl⟩
  | terminate _ _ _ | markCompleted _ _ _ | resize _ _ _ _ =>
    obtain ⟨rt', -, rfl⟩ := hs
    exact ⟨_, rfl, hsame rfl rfl⟩
  | prune =>
    cases hs
    exact ⟨_, rfl, hsame rfl rfl⟩

/-- The pump, and the session's actions that are its own, leave the stream. -/
theorem sameStream_of_step {s t : Pump.Sys} {act : Pump.Act} (hact : isEcho act = false)
    (h : Pump.step s act = some t) : t.session.stream = s.session.stream ∧ t.session.inFlight = s.session.inFlight ∧
      t.session.outputClosed = s.session.outputClosed ∧ t.session.persisted = s.session.persisted := by
  rcases Pump.step_cases h with h | h | h
  · cases act <;> simp only [Pump.sessionStep, reduceCtorEq] at h
    case read | send | journalStop | closeOutput | persist => cases hact
    case exit | setModes =>
      cases h
      exact ⟨rfl, rfl, rfl, rfl⟩
    case report =>
      split at h
      · cases h
      · split at h
        all_goals cases h
        all_goals exact ⟨rfl, rfl, rfl, rfl⟩
    case overflow | evict | closeChannel =>
      split at h
      all_goals cases h
      exact ⟨rfl, rfl, rfl, rfl⟩
  · cases act <;> simp only [Pump.subscribeStep, reduceCtorEq] at h
    case subscribe | resume =>
      split at h
      all_goals cases h
      exact ⟨rfl, rfl, rfl, rfl⟩
    case resumeInit => cases hact
  · rw [(Pump.next_keeps h).1]
    exact ⟨rfl, rfl, rfl, rfl⟩

/-- **What a resuming client is sent first** is what is on disk behind its offset. -/
theorem resumeInit_eq (h : Coupled bare N base s) (hbase : ∀ seg ∈ base.listSegments, seg.incarnation ≤ N)
    {offset : ℕ} (hpc : s.sys.pc = .subscribed offset) (sharedModes : Bool) (credit : Option Pump.CreditPolicy) :
    s.step bare R (.resumeInit sharedModes credit) = some ⟨s.live, s.sys.attach
      (slice s.sys.session.stream offset (replayable bare s.live.rt.journal.disk).length)
      (replayable bare s.live.rt.journal.disk).length sharedModes credit⟩ := by
  have hfrom := (replayable_live h.journal hbase h.inv.synced).2 offset
  have hslice : slice s.sys.session.stream offset (replayable bare s.live.rt.journal.disk).length =
      (replayable bare s.live.rt.journal.disk).drop offset := by
    rw [slice_mono (h.replayable hbase) le_rfl, slice, List.take_of_length_le (by rw [List.length_drop])]
  rw [hslice]
  simp only [Attached.step, hpc, hfrom]

/-- **One step** of the session and the pump. -/
theorem coupled_step (h : Coupled bare N base s) (hbase : ∀ seg ∈ base.listSegments, seg.incarnation ≤ N)
    {action : Attached.Action} (hstep : s.step bare R action = some t) :
    Coupled bare N base t ∧ ∃ acts, Runs.run Pump.step s.sys acts = some t.sys := by
  cases action with
  | session action =>
    simp only [Attached.step, follow, Option.pure_def, Option.bind_eq_bind, Option.bind_eq_some_iff] at hstep
    obtain ⟨live, hlive, sys, ⟨sys₁, hrun, hpersist⟩, heq⟩ := hstep
    cases heq
    obtain ⟨sys₁', hrun', hviewed⟩ := viewed_session h.toViewed hbase hlive
    cases hrun.symm.trans hrun'
    obtain ⟨sys', hpersist', hcoupled⟩ := hviewed.persist hbase
    cases hpersist.symm.trans hpersist'
    refine ⟨hcoupled, echo bare s.live live action ++ [.persist (max sys₁.session.persisted
      (replayable bare live.rt.journal.disk).length)], ?_⟩
    rw [Runs.run_append, hrun]
    simp only [Option.bind_some, Runs.run, hpersist]
  | pump act =>
    simp only [Attached.step, Option.ite_none_left_eq_some, Option.map_eq_some_iff, Bool.not_eq_true] at hstep
    obtain ⟨hact, sys, hsys, rfl⟩ := hstep
    obtain ⟨hstream, hflight, hclosed, hpersisted⟩ := sameStream_of_step hact hsys
    refine ⟨⟨⟨h.inv, h.journal, Pump.inv_step h.pump hsys, ?_, ?_, ?_, ?_⟩, ?_⟩, [act], ?_⟩
    · rw [hstream]
      exact h.length
    · rw [hstream]
      exact h.published
    · rw [hflight]
      exact h.flight
    · rw [hclosed]
      exact h.opened
    · rw [hpersisted]
      exact h.readable
    · rw [Runs.run, hsys]
      rfl
  | resumeInit sharedModes credit =>
    obtain ⟨offset, hpc⟩ : ∃ offset, s.sys.pc = .subscribed offset := by
      simp only [Attached.step] at hstep
      split at hstep
      · exact ⟨_, ‹_›⟩
      · cases hstep
    have heq := (resumeInit_eq (R := R) h hbase hpc sharedModes credit).symm.trans hstep
    have hresume : Pump.step s.sys (.resumeInit (replayable bare s.live.rt.journal.disk).length sharedModes credit) =
        some t.sys := by
      cases heq
      simp only [Pump.step, Pump.sessionStep, Pump.subscribeStep, hpc, if_pos h.readable, Option.none_or]
      rfl
    refine ⟨?_, [_], by rw [Runs.run, hresume]; rfl⟩
    have hpump := Pump.inv_step h.pump hresume
    cases heq
    exact ⟨⟨h.inv, h.journal, hpump, h.length, h.published, h.flight, h.opened⟩, h.readable⟩

/-- **The pump never holds up the session.** -/
theorem followed (h : Coupled bare N base s) (hbase : ∀ seg ∈ base.listSegments, seg.incarnation ≤ N)
    {action : LiveSession.Action} (hstep : s.live.step bare R action = some live) :
    ∃ sys, s.step bare R (.session action) = some ⟨live, sys⟩ := by
  obtain ⟨sys₁, hrun, hviewed⟩ := viewed_session h.toViewed hbase hstep
  obtain ⟨sys, hpersist, -⟩ := hviewed.persist hbase
  refine ⟨sys, ?_⟩
  simp only [Attached.step, hstep, follow, hrun, Option.pure_def, Option.bind_eq_bind, Option.bind_some, hpersist]

theorem coupled_run (h : Coupled bare N base s) (hbase : ∀ seg ∈ base.listSegments, seg.incarnation ≤ N)
    {as : List Attached.Action} (hrun : Runs.run (Attached.step bare R) s as = some t) : Coupled bare N base t :=
  Runs.run_invariant (fun h hstep => (coupled_step h hbase hstep).1) hrun h

/-- **A run of the two is a run of the pump with its session.** -/
theorem attached_run (hbase : ∀ seg ∈ base.listSegments, seg.incarnation ≤ N) :
    ∀ {as : List Attached.Action} {s : Attached}, Coupled bare N base s →
      Runs.run (Attached.step bare R) s as = some t → ∃ acts, Runs.run Pump.step s.sys acts = some t.sys
  | [], s, _, hrun => by
    cases hrun
    exact ⟨[], rfl⟩
  | action :: as, s, h, hrun => by
    obtain ⟨m, hm, hrest⟩ := Runs.run_cons hrun
    obtain ⟨hcoupled, acts, hacts⟩ := coupled_step h hbase hm
    obtain ⟨more, hmore⟩ := attached_run hbase hcoupled hrest
    refine ⟨acts ++ more, ?_⟩
    rw [Runs.run_append, hacts]
    exact hmore

end Coupling

theorem coupled_start {R : LineReader} {bare : Bool} {d₀ : Dir} {es : List Effect} {j : OpenedJournal}
    (hopen : (openJournal R).run d₀ = (es, .ok j)) {maxPartBytes rows cols : ℕ} {pid : Bytes} {geometry started : Turn}
    {s₀ : LiveSession}
    (hspawn : LiveSession.spawn R (Live.opened j.incarnation maxPartBytes (applyEffects es d₀)) rows cols pid
      geometry started = some s₀) (modes : Pump.ModeSnapshot) :
    Coupled bare j.incarnation (applyEffects es d₀) (Attached.start s₀ modes j.incarnation) ∧
      ∀ seg ∈ (applyEffects es d₀).listSegments, seg.incarnation ≤ j.incarnation := by
  have hinv : StreamInv bare s₀ := streamInv_spawn hspawn
  have hnone : Runs.run (LiveSession.step bare R) s₀ [] = some s₀ := Runs.run_nil _
  obtain ⟨hjournal, hbase⟩ := liveInv_session hopen hspawn hnone (Runs.run_nil _)
  obtain ⟨heq, -⟩ := LiveSession.spawn_spec hspawn ⟨rfl, rfl⟩
  have htotal : s₀.rt.filteredTotalBytes = 0 := by rw [heq]; rfl
  have hreader : s₀.reader = .reading := by rw [heq]
  have hnil : stream bare s₀.rt.records = [] := List.eq_nil_of_length_eq_zero
    (Nat.le_zero.mp (hinv.synced.counted.trans_eq htotal))
  have hviewed : Viewed bare j.incarnation (applyEffects es d₀) (Attached.start s₀ modes j.incarnation) := by
    refine ⟨hinv, hjournal, Pump.inv_start _ _, htotal.symm, ?_, ?_, fun _ => rfl⟩
    · show stream bare s₀.rt.records <+: []
      rw [hnil]
    · show none = s₀.reader.chunk?
      rw [hreader]
      rfl
  exact ⟨⟨hviewed, (hviewed.replayable hbase).length_le⟩, hbase⟩

/-! ### Resuming -/

section Resume

variable (bare : Bool) (R : LineReader)

/-- A resume at an offset of the stream gives the client the rest of it, without
a byte twice or missing; an offset behind the stream's end is rejected. -/
def ResumeExact (s : Attached) (offset : ℕ) : Prop :=
  if offset ≤ s.sys.session.stream.length then
    ∀ sharedModes credit t, s.step bare R (.resumeInit sharedModes credit) = some t →
      ∃ init, t.sys.init = some init ∧ offset ≤ init.endOffset ∧
        init.data = slice t.sys.session.stream offset init.endOffset ∧
        ∀ as u, Runs.run (Attached.step bare R) t as = some u →
          u.sys.session.stream.take offset ++ init.data ++ ((Pump.chunks u.sys.events).map Prod.snd).flatten =
            u.sys.session.stream.take u.sys.pump.currentOffset
  else ∀ sharedModes credit, s.step bare R (.resumeInit sharedModes credit) = none

variable {bare R} {N : ℕ} {base : Dir} {s t : Attached}

/-- An attached pump goes on from its start. -/
theorem attached_keeps {init : Pump.AttachInit} (h : Coupled bare N base s)
    (hbase : ∀ seg ∈ base.listSegments, seg.incarnation ≤ N) (hinit : s.sys.init = some init)
    {as : List Attached.Action} (hrun : Runs.run (Attached.step bare R) s as = some t) :
    Pump.Inv t.sys ∧ t.sys.init = some init ∧ s.sys.session.stream <+: t.sys.session.stream := by
  obtain ⟨acts, hacts⟩ := attached_run hbase h hrun
  refine Runs.run_invariant (I := fun sys : Pump.Sys => Pump.Inv sys ∧ sys.init = some init ∧
    s.sys.session.stream <+: sys.session.stream) ?_ hacts ⟨h.pump, hinit, List.prefix_rfl⟩
  rintro u act v ⟨hinv, hu, hpre⟩ hstep
  obtain ⟨hgrown, hv⟩ := Pump.attached_step hinv hu hstep
  exact ⟨Pump.inv_step hinv hstep, hv, hpre.trans hgrown⟩

/-- What the client had, what it is sent first and the chunks after it, put
together. -/
theorem joined {S S' : Bytes} {offset e cursor : ℕ} {cs : List (ℕ × Bytes)} (hpre : S <+: S') (ho : offset ≤ e)
    (he : e ≤ S.length) (h : Pump.Gapless S' e cursor cs) :
    S'.take offset ++ slice S offset e ++ (cs.map Prod.snd).flatten = S'.take cursor := by
  calc S'.take offset ++ slice S offset e ++ (cs.map Prod.snd).flatten
      = slice S' 0 offset ++ slice S' offset e ++ slice S' e cursor := by
        rw [h.data, slice_mono hpre he, slice_zero]
    _ = slice S' 0 cursor := by
        rw [slice_append (Nat.zero_le _) ho, slice_append (Nat.zero_le _) h.le]
    _ = S'.take cursor := slice_zero _ _

/-- **When a resume is exact.** In every run of a session and a client that has
passed the incarnation's fence: if and only if what can be replayed from disk
reaches to the client's offset. -/
theorem resume_exact {d₀ : Dir} {es : List Effect} {j : OpenedJournal}
    (hopen : (openJournal R).run d₀ = (es, .ok j)) {maxPartBytes rows cols : ℕ} {pid : Bytes} {geometry started : Turn}
    {s₀ : LiveSession}
    (hspawn : LiveSession.spawn R (Live.opened j.incarnation maxPartBytes (applyEffects es d₀)) rows cols pid
      geometry started = some s₀) {modes : Pump.ModeSnapshot} {as : List Attached.Action}
    (hrun : Runs.run (Attached.step bare R) (Attached.start s₀ modes j.incarnation) as = some s)
    {offset : ℕ} (hpc : s.sys.pc = .subscribed offset) :
    ResumeExact bare R s offset ↔ offset ≤ (replayable bare s.live.rt.journal.disk).length := by
  obtain ⟨hstart, hbase⟩ : Coupled bare _ _ _ ∧ _ := coupled_start hopen hspawn modes
  have h := coupled_run hstart hbase hrun
  have hstep := fun sharedModes credit => resumeInit_eq (R := R) h hbase hpc sharedModes credit
  have hreplay := h.replayable hbase
  unfold ResumeExact
  constructor
  · intro hexact
    split at hexact
    · obtain ⟨init, hinit, hle, -⟩ := hexact false none _ (hstep false none)
      cases hinit
      exact hle
    · cases (hexact false none).symm.trans (hstep false none)
  · intro hle
    rw [if_pos (hle.trans hreplay.length_le)]
    intro sharedModes credit t ht
    have hcoupled := (coupled_step h hbase ht).1
    cases (hstep sharedModes credit).symm.trans ht
    refine ⟨_, rfl, hle, rfl, fun more u hu => ?_⟩
    obtain ⟨hinv, hinit, hpre⟩ := attached_keeps hcoupled hbase rfl hu
    exact joined hpre hle hreplay.length_le (hinv.emitted _ hinit)

end Resume

/-- A client comes to a session on an empty directory and resumes. -/
def resumeRun (as : List LiveSession.Action) (offset : ℕ) : Option Attached :=
  (LiveSession.spawn exactReader (Live.opened 1 4096 (applyEffects [.createPart ⟨1, 1⟩, .syncDir] Dir.empty)) 24 80
    [55] .quiet .quiet).bind fun s₀ => Runs.run (Attached.step false exactReader)
      (Attached.start s₀ Pump.plainModes 1) (as.map .session ++ [.pump (.resume offset (some 1))])

theorem resume_exact_written : ∃ s, resumeRun writtenRun 1 = some s ∧ ResumeExact false exactReader s 1 := by
  have hrun : (resumeRun writtenRun 1).any (fun s => decide (s.sys.pc = .subscribed 1 ∧
      1 ≤ (replayable false s.live.rt.journal.disk).length)) = true := by
    decide +kernel
  obtain ⟨s, hs, hp⟩ := (Option.any_eq_true _ _).mp hrun
  obtain ⟨hpc, hle⟩ := of_decide_eq_true hp
  obtain ⟨s₀, hs₀, hs'⟩ := Option.bind_eq_some_iff.mp hs
  exact ⟨s, hs, (resume_exact open_empty hs₀ hs' hpc).mpr hle⟩

/-- The step that reads the journal is taken, and what the client gets is `p`. -/
theorem resumed_of_run {as : List LiveSession.Action} {offset : ℕ} {p : Pump.AttachInit → Bool}
    (h : (resumeRun as offset).any (fun s => decide (s.live.broadcast = [⟨0, [104, 105]⟩] ∧
      s.sys.session.stream = [104, 105]) && (s.step false exactReader (.resumeInit false none)).any
        fun t => t.sys.init.any p) = true) :
    ∃ s, resumeRun as offset = some s ∧ s.live.broadcast = [⟨0, [104, 105]⟩] ∧ s.sys.session.stream = [104, 105] ∧
      ∃ t, s.step false exactReader (.resumeInit false none) = some t ∧ ∃ init, t.sys.init = some init ∧
        p init = true := by
  obtain ⟨s, hs, hp⟩ := (Option.any_eq_true _ _).mp h
  rw [Bool.and_eq_true] at hp
  obtain ⟨hbroadcast, hstream⟩ := of_decide_eq_true hp.1
  obtain ⟨t, ht, hany⟩ := (Option.any_eq_true _ _).mp hp.2
  obtain ⟨init, hinit, hpi⟩ := (Option.any_eq_true _ _).mp hany
  exact ⟨s, hs, hbroadcast, hstream, t, ht, init, hinit, hpi⟩

/-- A client has the two bytes that were broadcast, and nothing of them is on disk
yet: it is started at offset 0 again. And an offset the stream has never had is
taken. -/
theorem resumed_behind :
    (∃ s, resumeRun helloRun 2 = some s ∧ s.live.broadcast = [⟨0, [104, 105]⟩] ∧
      ¬ ResumeExact false exactReader s 2) ∧
    ∃ s, resumeRun helloRun 9 = some s ∧ s.live.broadcast = [⟨0, [104, 105]⟩] ∧
      ¬ ResumeExact false exactReader s 9 := by
  constructor
  · have hrun := @resumed_of_run helloRun 2 (fun init => decide (init.endOffset = 0)) (by decide +kernel)
    obtain ⟨s, hs, hbroadcast, hstream, t, ht, init, hinit, hend⟩ := hrun
    refine ⟨s, hs, hbroadcast, fun hexact => ?_⟩
    unfold ResumeExact at hexact
    rw [if_pos (by rw [hstream]; decide)] at hexact
    obtain ⟨init', hinit', hle, -⟩ := hexact false none t ht
    cases hinit.symm.trans hinit'
    rw [of_decide_eq_true hend] at hle
    cases hle
  · have hrun := @resumed_of_run helloRun 9 (fun _ => true) (by decide +kernel)
    obtain ⟨s, hs, hbroadcast, hstream, t, ht, -⟩ := hrun
    refine ⟨s, hs, hbroadcast, fun hexact => ?_⟩
    unfold ResumeExact at hexact
    rw [if_neg (by rw [hstream]; decide)] at hexact
    cases (hexact false none).symm.trans ht

end Session
end OpenRelay
