/-
# The length of a session's stream, live and persisted

A session that is in the live map answers from its runtime; any other answers from
its journal, and the length of the journal's stream is cached under the session's
id with the incarnation it was read for (`persisted_filtered_len` in
`session/store/attach.rs`, `stream_observation` in `session/store/query.rs`).
`TrackedSession.step` interleaves a start (the row, the journal, the runtime, the
live map), the session, its eviction and what is left of its appender with the
steps of any number of calls. A scan reads the directory at one moment.

The cache takes a journal that is read for the journal of a session that is over.
But a session is not in the live map either while it is started, nor when it was
evicted before its output ended; a length that is cached then stays
(`persisted_len_stale`). In a run that only scans what is completely written the
cache is right (`persisted_len_fresh`).

Key theorems: `complete_onward`, `lenInv_step`.
-/
import OpenRelay.Session.Attach
import OpenRelay.Session.EndOfLife
import OpenRelay.Session.Written

namespace OpenRelay
namespace Session

open Journal Pty

/-- The length of the persisted stream. -/
def filteredStreamLen (bare : Bool) (d : Dir) : Except JournalError ℕ :=
  (filteredStreamFrom bare d (2 ^ 64 - 1)).map Prod.snd

/-- What there is of a session. -/
inductive Body where
  /-- The row is inserted; the directory has what it had. -/
  | inserted (disk : Dir)
  /-- The journal has been opened. -/
  | opened (incarnation maxPartBytes : ℕ) (disk : Dir)
  | spawned (session : LiveSession)
  /-- The runtime is gone; its appender goes on. -/
  | dropped (session : LiveSession)

/-- Where the store has the session. -/
inductive Residence where
  | starting
  | listed
  | evicted
  deriving DecidableEq, Repr

/-- Has the resume hint been looked for (`resume_scanned`)? -/
inductive ResumeScan where
  | pending
  | candidate
  | scanned
  deriving DecidableEq, Repr

/-- What `stream_observation` returns, without the exit code and the input flag. -/
structure Observation where
  running : Bool
  offset : ℕ
  incarnation : Option ℕ
  deriving DecidableEq, Repr

/-- Who asks for a persisted length: a listing, or an observation that has listed
the latest incarnation before. -/
inductive Caller where
  | list
  | observe (before : Option ℕ)
  deriving DecidableEq, Repr

/-- Where a call is. -/
inductive Call where
  | looking (observes : Bool)
  | bracketing
  | listing (caller : Caller)
  | checking (caller : Caller) (incarnation : ℕ)
  | scanning (caller : Caller) (incarnation : ℕ)
  | storing (caller : Caller) (incarnation len : ℕ)
  /-- `persisted_filtered_len` has returned this. -/
  | found (caller : Caller) (incarnation len : ℕ)
  | confirming (before : Option ℕ) (len : ℕ)
  | done
  deriving DecidableEq, Repr

/-- A session, whatever is left of it, and the calls that ask for its length. -/
structure TrackedSession where
  body : Body
  residence : Residence
  resume : ResumeScan
  /-- The entry of this session's id. -/
  cache : Option (ℕ × ℕ)
  calls : List Call
  /-- What `stream_observation` has returned so far. -/
  observations : List Observation

/-- The directory of the session's journal. -/
def Body.disk : Body → Dir
  | .inserted d | .opened _ _ d => d
  | .spawned s | .dropped s => s.rt.journal.disk

def Body.latest (b : Body) : Option ℕ := (listIncarnations b.disk).getLast?

namespace SessionRuntime

variable (rt : SessionRuntime)

/-- What an observation reads under the runtime's lock. -/
def observation : Observation where
  running := !rt.isCompleted || !rt.outputClosed
  offset := rt.filteredTotalBytes
  incarnation := some rt.journal.journal.core.incarnation

/-- Every byte of the stream is in the journal. -/
def Flushed (bare : Bool) : Prop :=
  stream bare (rt.records.take rt.journal.journal.appender.lastWritten) = stream bare rt.records

/-- The journal is completely written: its appender has ended, or the output has and
all of it is in the journal. -/
def Complete (bare : Bool) : Prop := Ended rt.journal.journal ∨ rt.outputClosed = true ∧ rt.Flushed bare

instance (bare : Bool) : Decidable (rt.Flushed bare) :=
  inferInstanceAs (Decidable (stream bare (rt.records.take rt.journal.journal.appender.lastWritten) = _))

theorem working_ne_receiving (task : Task) (todo : List Effect) (result : Except JournalError RollingSegmentWriter) :
    Pc.working task todo result ≠ .receiving := by
  simp

theorem stopped_ne_receiving : Pc.stopped ≠ .receiving := by
  simp

/-- Whether the appender is between two messages. -/
def decidableReceiving (pc : Pc) : Decidable (pc = .receiving) :=
  match pc with
  | .receiving => .isTrue rfl
  | .working task todo result => .isFalse (working_ne_receiving task todo result)
  | .stopped => .isFalse stopped_ne_receiving

instance (s : ShadowJournal) : Decidable (Ended s) :=
  have := decidableReceiving s.appender.pc
  inferInstanceAs (Decidable (_ ∨ _ ∧ _))

instance (bare : Bool) : Decidable (rt.Complete bare) := inferInstanceAs (Decidable (_ ∨ _ ∧ _))

end SessionRuntime

/-- There is a runtime, or was one, and its journal is completely written. -/
def Body.Written (bare : Bool) : Body → Prop
  | .inserted _ | .opened _ _ _ => False
  | .spawned s | .dropped s => s.rt.Complete bare

instance (bare : Bool) : ∀ b : Body, Decidable (b.Written bare)
  | .inserted _ | .opened _ _ _ => .isFalse id
  | .spawned s | .dropped s => inferInstanceAs (Decidable (s.rt.Complete bare))

namespace TrackedSession

/-- What may happen next. -/
inductive Action where
  | openJournal (maxPartBytes : ℕ)
  | spawn (rows cols : ℕ) (pid : Bytes) (geometry started : Turn)
  | session (action : LiveSession.Action)
  /-- The runtime is published in the live map. -/
  | publish
  /-- The sweep looks at the acknowledgements of an ended session. -/
  | resumeCheck
  /-- It has scanned the journal for a resume hint. -/
  | resumeScanned
  | evict
  | drop
  /-- The appender of a dropped runtime, and retention. -/
  | journal (action : Live.Action)
  | call (observes : Bool)
  /-- The next step of a call. -/
  | advance (i : ℕ)
  /-- The cache is full and cleared for another session. -/
  | uncache

/-- A row is inserted for a session directory. -/
def start (d : Dir) : TrackedSession := ⟨.inserted d, .starting, .pending, none, [], []⟩

variable (bare : Bool) (R : LineReader) (st : TrackedSession)

/-- The runtime of a session in the live map. -/
def runtime? : Option SessionRuntime :=
  match st.residence, st.body with
  | .listed, .spawned s => some s.rt
  | _, _ => none

def cached (incarnation : ℕ) : Option ℕ :=
  (st.cache.filter fun entry => entry.1 = incarnation).map Prod.snd

def log (o : Observation) : TrackedSession := { st with observations := st.observations ++ [o] }

/-- `persisted_filtered_len`, by itself. -/
def persistedFilteredLen : Option ℕ :=
  match st.body.latest with
  | none => none
  | some incarnation =>
    match st.cached incarnation with
    | some len => some len
    | none => (filteredStreamLen bare st.body.disk).toOption

def callStep : Call → Option (TrackedSession × Call)
  | .looking observes =>
    match st.runtime? with
    | some rt => some (if observes then st.log rt.observation else st, .done)
    | none => some (st, if observes then .bracketing else .listing .list)
  | .bracketing => some (st, .listing (.observe st.body.latest))
  | .listing caller =>
    match st.body.latest with
    | none => some (st, .done)
    | some incarnation => some (st, .checking caller incarnation)
  | .checking caller incarnation =>
    match st.cached incarnation with
    | some len => some (st, .found caller incarnation len)
    | none => some (st, .scanning caller incarnation)
  | .scanning caller incarnation =>
    match filteredStreamLen bare st.body.disk with
    | .ok len => some (st, .storing caller incarnation len)
    | .error _ => some (st, .done)
  | .storing caller incarnation len =>
    some ({ st with cache := some (incarnation, len) }, .found caller incarnation len)
  | .found .list _ _ => none
  | .found (.observe before) _ len => some (st, if st.body.latest = before then .confirming before len else .done)
  | .confirming before len =>
    match st.runtime? with
    | some rt => some (st.log rt.observation, .done)
    | none => some (st.log ⟨false, len, before⟩, .done)
  | .done => none

/-- The store and the status only mark a session completed with a final status. -/
def isFinal : LiveSession.Action → Bool
  | .markCompleted _ status _ => (SessionRuntime.completionCode status).isSome
  | _ => true

/-- What may still happen to a session that is not held any more. -/
def isLeftover : Live.Action → Bool
  | .journal .disconnect => true
  | action => isBackground action

def step : Action → Option TrackedSession
  | .openJournal maxPartBytes =>
    match st.body with
    | .inserted d =>
      match (openJournal R).run d with
      | (es, .ok j) => some { st with body := .opened j.incarnation maxPartBytes (applyEffects es d) }
      | (_, .error _) => none
    | _ => none
  | .spawn rows cols pid geometry started =>
    match st.body with
    | .opened N maxPartBytes d =>
      (LiveSession.spawn R (Live.opened N maxPartBytes d) rows cols pid geometry started).map fun s =>
        { st with body := .spawned s }
    | _ => none
  | .session action =>
    match st.body with
    | .spawned s => if isFinal action then (s.step bare R action).map fun s => { st with body := .spawned s } else none
    | _ => none
  | .publish =>
    match st.residence, st.body with
    | .starting, .spawned _ => some { st with residence := .listed }
    | _, _ => none
  | .resumeCheck =>
    match st.runtime? with
    | some rt =>
      if rt.isCompleted ∧ rt.outputClosed ∧ st.resume = .pending then
        if rt.isDegraded then some { st with resume := .scanned }
        else if rt.journal.journal.core.isFullyDurable then some { st with resume := .candidate }
        else some st
      else none
    | none => none
  | .resumeScanned => if st.resume = .candidate then some { st with resume := .scanned } else none
  | .evict =>
    match st.runtime? with
    | some rt =>
      if rt.isCompleted ∧ (rt.outputClosed = false ∨ st.resume = .scanned) then
        some { st with residence := .evicted }
      else none
    | none => none
  | .drop =>
    match st.residence, st.body with
    | .evicted, .spawned s =>
      if s.rt.outputClosed then
        (s.rt.journal.step R (.journal .close)).map fun l =>
          { st with body := .dropped { s with rt := { s.rt with journal := l } } }
      else none
    | _, _ => none
  | .journal action =>
    match st.body with
    | .dropped s =>
      if isLeftover action then
        (s.rt.journal.step R action).map fun l => { st with body := .dropped { s with rt := { s.rt with journal := l } } }
      else none
    | _ => none
  | .call observes => some { st with calls := st.calls ++ [.looking observes] }
  | .advance i =>
    match st.calls[i]? with
    | some call => (st.callStep bare call).map fun (st, call) => { st with calls := st.calls.set i call }
    | none => none
  | .uncache => some { st with cache := none }

/-- What a step comes to, action by action. -/
def Stepped (st' : TrackedSession) : Action → Prop
  | .openJournal maxPartBytes => ∃ d es j, st.body = .inserted d ∧ (openJournal R).run d = (es, .ok j) ∧
      st' = { st with body := .opened j.incarnation maxPartBytes (applyEffects es d) }
  | .spawn rows cols pid geometry started => ∃ N maxPartBytes d s, st.body = .opened N maxPartBytes d ∧
      LiveSession.spawn R (Live.opened N maxPartBytes d) rows cols pid geometry started = some s ∧
      st' = { st with body := .spawned s }
  | .session action => ∃ s t, st.body = .spawned s ∧ isFinal action = true ∧ s.step bare R action = some t ∧
      st' = { st with body := .spawned t }
  | .publish => ∃ s, st.residence = .starting ∧ st.body = .spawned s ∧ st' = { st with residence := .listed }
  | .resumeCheck => ∃ s resume, st.residence = .listed ∧ st.body = .spawned s ∧ s.rt.outputClosed = true ∧
      (resume = .pending ∨ s.rt.isDegraded = true ∨ s.rt.journal.journal.core.isFullyDurable = true) ∧
      st' = { st with resume := resume }
  | .resumeScanned => st.resume = .candidate ∧ st' = { st with resume := .scanned }
  | .evict => ∃ s, st.residence = .listed ∧ st.body = .spawned s ∧ s.rt.isCompleted = true ∧
      (s.rt.outputClosed = false ∨ st.resume = .scanned) ∧ st' = { st with residence := .evicted }
  | .drop => ∃ s l, st.residence = .evicted ∧ st.body = .spawned s ∧ s.rt.outputClosed = true ∧
      s.rt.journal.step R (.journal .close) = some l ∧
      st' = { st with body := .dropped { s with rt := { s.rt with journal := l } } }
  | .journal action => ∃ s l, st.body = .dropped s ∧ isLeftover action = true ∧ s.rt.journal.step R action = some l ∧
      st' = { st with body := .dropped { s with rt := { s.rt with journal := l } } }
  | .call observes => st' = { st with calls := st.calls ++ [.looking observes] }
  | .advance i => ∃ call st₁ call', st.calls[i]? = some call ∧ st.callStep bare call = some (st₁, call') ∧
      st' = { st₁ with calls := st₁.calls.set i call' }
  | .uncache => st' = { st with cache := none }

variable {bare R st} {st' : TrackedSession}

theorem runtime?_eq_some {rt : SessionRuntime} (h : st.runtime? = some rt) :
    ∃ s, st.residence = .listed ∧ st.body = .spawned s ∧ rt = s.rt := by
  unfold runtime? at h
  split at h
  · rename_i s hresidence hbody
    cases h
    exact ⟨s, hresidence, hbody, rfl⟩
  · cases h

theorem step_cases {action : Action} (h : st.step bare R action = some st') : Stepped bare R st st' action := by
  cases action with
  | openJournal maxPartBytes =>
    simp only [step] at h
    split at h
    · rename_i d hbody
      split at h
      · rename_i es j hopen
        cases h
        exact ⟨d, es, j, hbody, hopen, rfl⟩
      · cases h
    · cases h
  | spawn rows cols pid geometry started =>
    simp only [step] at h
    split at h
    · rename_i N maxPartBytes d hbody
      obtain ⟨s, hs, rfl⟩ := Option.map_eq_some_iff.mp h
      exact ⟨N, maxPartBytes, d, s, hbody, hs, rfl⟩
    · cases h
  | session action =>
    simp only [step] at h
    split at h
    · rename_i s hbody
      rw [Option.ite_none_right_eq_some] at h
      obtain ⟨t, ht, rfl⟩ := Option.map_eq_some_iff.mp h.2
      exact ⟨s, t, hbody, h.1, ht, rfl⟩
    · cases h
  | publish =>
    simp only [step] at h
    split at h
    · rename_i s hresidence hbody
      cases h
      exact ⟨s, hresidence, hbody, rfl⟩
    · cases h
  | resumeCheck =>
    simp only [step] at h
    split at h
    · rename_i rt hrt
      obtain ⟨s, hresidence, hbody, rfl⟩ := runtime?_eq_some hrt
      rw [Option.ite_none_right_eq_some] at h
      obtain ⟨⟨-, hclosed, hpending⟩, h⟩ := h
      by_cases hdegraded : s.rt.isDegraded = true
      · rw [if_pos hdegraded] at h
        cases h
        exact ⟨s, .scanned, hresidence, hbody, hclosed, .inr (.inl hdegraded), rfl⟩
      rw [if_neg hdegraded] at h
      by_cases hdurable : s.rt.journal.journal.core.isFullyDurable = true
      · rw [if_pos hdurable] at h
        cases h
        exact ⟨s, .candidate, hresidence, hbody, hclosed, .inr (.inr hdurable), rfl⟩
      · rw [if_neg hdurable] at h
        cases h
        exact ⟨s, st.resume, hresidence, hbody, hclosed, .inl hpending, rfl⟩
    · cases h
  | resumeScanned =>
    simp only [step, Runs.guarded] at h
    exact ⟨h.1, h.2.symm⟩
  | evict =>
    simp only [step] at h
    split at h
    · rename_i rt hrt
      obtain ⟨s, hresidence, hbody, rfl⟩ := runtime?_eq_some hrt
      simp only [Runs.guarded] at h
      obtain ⟨⟨hcompleted, hscanned⟩, rfl⟩ := h
      exact ⟨s, hresidence, hbody, hcompleted, hscanned, rfl⟩
    · cases h
  | drop =>
    simp only [step] at h
    split at h
    · rename_i s hresidence hbody
      rw [Option.ite_none_right_eq_some] at h
      obtain ⟨l, hl, rfl⟩ := Option.map_eq_some_iff.mp h.2
      exact ⟨s, l, hresidence, hbody, h.1, hl, rfl⟩
    · cases h
  | journal action =>
    simp only [step] at h
    split at h
    · rename_i s hbody
      rw [Option.ite_none_right_eq_some] at h
      obtain ⟨l, hl, rfl⟩ := Option.map_eq_some_iff.mp h.2
      exact ⟨s, l, hbody, h.1, hl, rfl⟩
    · cases h
  | call observes | uncache =>
    cases h
    rfl
  | advance i =>
    simp only [step] at h
    split at h
    · rename_i call hcall
      obtain ⟨⟨st₁, call'⟩, hcs, rfl⟩ := Option.map_eq_some_iff.mp h
      exact ⟨call, st₁, call', hcall, hcs, rfl⟩
    · cases h

/-- What a call's step leaves. -/
structure CallFrame (st st' : TrackedSession) : Prop where
  body : st'.body = st.body
  residence : st'.residence = st.residence
  resume : st'.resume = st.resume
  calls : st'.calls = st.calls

theorem callStep_frame {call call' : Call} (h : st.callStep bare call = some (st', call')) : CallFrame st st' := by
  have hlog : ∀ o, CallFrame st (st.log o) := fun _ => ⟨rfl, rfl, rfl, rfl⟩
  have hsame : CallFrame st st := ⟨rfl, rfl, rfl, rfl⟩
  cases call with
  | looking observes =>
    simp only [callStep] at h
    split at h
    · cases h
      split
      · exact hlog _
      · exact hsame
    · cases h
      exact hsame
  | bracketing =>
    cases h
    exact hsame
  | listing _ | checking _ _ | scanning _ _ =>
    simp only [callStep] at h
    split at h <;> cases h <;> exact hsame
  | storing _ _ _ =>
    cases h
    exact ⟨rfl, rfl, rfl, rfl⟩
  | found caller _ _ =>
    cases caller <;> cases h
    exact hsame
  | confirming before len =>
    simp only [callStep] at h
    split at h <;> cases h <;> exact hlog _
  | done => cases h

end TrackedSession

def Call.isScanning : Call → Bool
  | .scanning _ _ => true
  | _ => false

/-- A scan reads a journal that is completely written. -/
def ScansWritten (bare : Bool) (st : TrackedSession) : TrackedSession.Action → Prop
  | .advance i => (st.calls[i]?.any Call.isScanning) = true → st.body.Written bare
  | _ => True

instance (bare : Bool) (st : TrackedSession) : ∀ action, Decidable (ScansWritten bare st action)
  | .advance i => inferInstanceAs (Decidable ((st.calls[i]?.any Call.isScanning) = true → st.body.Written bare))
  | .openJournal _ | .spawn _ _ _ _ _ | .session _ | .publish | .resumeCheck | .resumeScanned | .evict | .drop
  | .journal _ | .call _ | .uncache => .isTrue trivial

/-! ### A journal that is completely written -/

/-- The journal of a runtime, live or dropped. -/
structure Lives (bare : Bool) (N : ℕ) (base : Dir) (s : LiveSession) : Prop where
  older : ∀ seg ∈ base.listSegments, seg.incarnation ≤ N
  live : LiveInv N base s.rt.journal
  incarnation : s.rt.journal.journal.core.incarnation = N
  synced : Synced bare s.scanner.pending s.rt

/-- How a runtime goes on. A stream that is closed stays as it is. -/
structure Carries (bare : Bool) (N : ℕ) (rt rt' : SessionRuntime) : Prop where
  onward : Onward N rt.journal rt'.journal
  closed : rt.outputClosed = true → rt'.outputClosed = true ∧ stream bare rt'.records = stream bare rt.records

section Complete

variable {bare : Bool} {N : ℕ} {base : Dir} {s t : LiveSession}

theorem Lives.latest (h : Lives bare N base s) : (listIncarnations s.rt.journal.disk).getLast? = some N :=
  latest_live h.live h.older

theorem replayable_holds {d : Dir} {groups : List (List Record)} {current : List Record} {torn : Bytes}
    (hlatest : (listIncarnations d).getLast? = some N) (h : Holds d N groups current torn) :
    replayable bare d = stream bare (groups.flatten ++ current) := by
  have hread : readIncarnation d N (fun _ => replayBatchBytes) = .ok (groups.flatten ++ current) := by
    obtain ⟨st, hst, hreads⟩ := h.reads_open
    rw [readIncarnation, hst]
    exact SegmentStream.drain_eq hreads (Nat.lt_succ_of_le (Holds.length_le h))
  rw [replayable, hlatest]
  simp only [hread]

theorem Lives.filteredStreamLen_eq (h : Lives bare N base s) :
    filteredStreamLen bare s.rt.journal.disk = .ok (replayable bare s.rt.journal.disk).length := by
  rw [filteredStreamLen, (replayable_live h.live h.older h.synced).2]
  rfl

/-- What the journal replays lies between what is finished and what is published. -/
theorem Lives.replayable_flushed (h : Lives bare N base s) (hf : s.rt.Flushed bare) :
    replayable bare s.rt.journal.disk = stream bare s.rt.records := by
  obtain ⟨groups, current, torn, hholds, hwritten, hpublished⟩ := holds_written h.live
  rw [replayable_holds h.latest hholds]
  have hle := @stream_mono bare _ _ hwritten
  rw [SessionRuntime.Flushed, SessionRuntime.records] at hf
  rw [hf] at hle
  exact (stream_mono hpublished).eq_of_length_le hle.length_le

theorem flushed_onward (hon : Onward N s.rt.journal t.rt.journal)
    (hstream : stream bare t.rt.records = stream bare s.rt.records) (hf : s.rt.Flushed bare) : t.rt.Flushed bare := by
  have hrecords : s.rt.records <+: t.rt.records := hon.published.map OrderedEvent.record
  have hwritten : s.rt.records.take s.rt.journal.journal.appender.lastWritten <+:
      t.rt.records.take t.rt.journal.journal.appender.lastWritten := by
    refine List.prefix_take_iff.mpr ⟨(List.take_prefix _ _).trans hrecords, ?_⟩
    rw [List.length_take]
    exact (Nat.min_le_left _ _).trans hon.written
  have hge := (@stream_mono bare _ _ hwritten).length_le
  rw [hf, ← hstream] at hge
  exact (stream_mono (List.take_prefix _ _)).eq_of_length_le hge

/-- **A journal that is completely written stays so**, and replays the same. -/
theorem complete_onward (hs : Lives bare N base s) (ht : Lives bare N base t) (h : Carries bare N s.rt t.rt)
    (hc : s.rt.Complete bare) :
    t.rt.Complete bare ∧ replayable bare t.rt.journal.disk = replayable bare s.rt.journal.disk := by
  rcases hc with hended | ⟨hclosed, hflushed⟩
  · obtain ⟨hended', hagree⟩ := h.onward.ended hended
    obtain ⟨groups, current, torn, hholds, -⟩ := holds_live hs.live
    refine ⟨.inl hended', ?_⟩
    rw [replayable_holds ht.latest (holds_agree hholds hagree), replayable_holds hs.latest hholds]
  · obtain ⟨hclosed', hstream⟩ := h.closed hclosed
    have hflushed' := flushed_onward h.onward hstream hflushed
    refine ⟨.inr ⟨hclosed', hflushed'⟩, ?_⟩
    rw [ht.replayable_flushed hflushed', hs.replayable_flushed hflushed, hstream]

end Complete

/-! ### The steps of a session -/

section Steps

open SessionRuntime

variable {bare : Bool} {R : LineReader} {N : ℕ} {base : Dir} {s t : LiveSession}

/-- Once its output is closed a session reads no more, and the output stays closed. -/
theorem closed_step {action : LiveSession.Action} (h : EndInv s) (hstep : s.step bare R action = some t)
    (hclosed : s.rt.outputClosed = true) : t.rt.outputClosed = true ∧ action.isRead = false := by
  have hstopped : s.reader = .stopped := by
    by_contra hne
    rw [h.reader hne] at hclosed
    cases hclosed
  have hs := LiveSession.step_cases hstep
  cases action with
  | background action =>
    obtain ⟨l, -, rfl⟩ := hs
    exact ⟨hclosed, rfl⟩
  | read chunk engine modes output policy checkpoint =>
    obtain ⟨⟨hreader, -⟩, -⟩ := hs
    rw [hstopped] at hreader
    cases hreader
  | send =>
    obtain ⟨chunk, -, rfl⟩ := hs
    exact ⟨hclosed, rfl⟩
  | hangup detail =>
    obtain ⟨-, rfl⟩ := hs
    exact ⟨hclosed, rfl⟩
  | close engine closed checkpoint completion =>
    obtain ⟨detail, rt', hreader, -⟩ := hs
    rw [hstopped] at hreader
    cases hreader
  | closeAgain engine closed checkpoint completion detail idle =>
    obtain ⟨-, rfl⟩ := hs
    exact ⟨hclosed, rfl⟩
  | refresh turn child =>
    obtain ⟨rt', completed, hrt, rfl⟩ := hs
    exact ⟨(refreshStatus_closed h.idle hrt).trans hclosed, rfl⟩
  | terminate turn child requested =>
    obtain ⟨rt', hrt, rfl⟩ := hs
    obtain ⟨rt₁, completed, h₁, rfl⟩ := terminate_cases hrt
    refine ⟨Eq.trans ?_ ((refreshStatus_closed h.idle h₁).trans hclosed), rfl⟩
    dsimp only
    split <;> rfl
  | markCompleted turn status exitCode =>
    obtain ⟨rt', hrt, rfl⟩ := hs
    exact ⟨(markCompleted_closed h.idle hrt).trans hclosed, rfl⟩
  | resize turn rows cols resized =>
    obtain ⟨rt', hrt, rfl⟩ := hs
    refine ⟨?_, rfl⟩
    rcases resizePty_spec hrt h.idle with rfl | hr
    · exact hclosed
    · show rt'.outputClosed = true
      rw [hr.rest]
      exact hclosed
  | prune =>
    cases hs
    refine ⟨?_, rfl⟩
    show s.rt.prune.outputClosed = true
    unfold SessionRuntime.prune
    split
    · dsimp only
      split <;> exact hclosed
    · exact hclosed

/-- **A step of a session**, as it concerns the length of its stream. -/
theorem lives_step {action : LiveSession.Action} (h : Lives bare N base s) (hs : StreamInv bare s) (he : EndInv s)
    (hstep : s.step bare R action = some t) : Lives bare N base t ∧ Carries bare N s.rt t.rt := by
  obtain ⟨as, has⟩ := (LiveSession.step_advances hstep hs.idle).run
  obtain ⟨hlive, hon⟩ := onward_run h.older h.live has
  refine ⟨⟨h.older, hlive, hon.incarnation.trans h.incarnation, (streamInv_step hs hstep).synced⟩, hon, fun hclosed => ?_⟩
  obtain ⟨hclosed', hread⟩ := closed_step he hstep hclosed
  exact ⟨hclosed', stream_step hs hread hstep⟩

/-! ### What is left of it -/

theorem sameCore_leaveLoop (s : ShadowJournal) : SameCore s s.leaveLoop := by
  unfold ShadowJournal.leaveLoop
  split
  · exact sameCore_start s _ _
  · exact sameCore_sealTail s

/-- The appender without its runtime publishes nothing. -/
theorem leftover_step {l l' : Live} {action : Live.Action} (ha : TrackedSession.isLeftover action = true)
    (h : l.step R action = some l') : SameCore l.journal l'.journal := by
  by_cases hback : isBackground action = true
  · exact background_step hback h
  unfold TrackedSession.isLeftover at ha
  split at ha
  · obtain ⟨j, hj, rfl⟩ := Option.map_eq_some_iff.mp h
    simp only [Journal.step] at hj
    split at hj
    · simp only [Runs.guarded] at hj
      obtain ⟨-, rfl⟩ := hj
      exact sameCore_leaveLoop _
    · cases hj
  · exact absurd ha hback

theorem close_frame {l l' : Live} (h : l.step R (.journal .close) = some l') :
    l'.journal.core = l.journal.core ∧ l'.journal.published = l.journal.published := by
  obtain ⟨j, hj, rfl⟩ := Option.map_eq_some_iff.mp h
  simp only [Journal.step, Runs.guarded] at hj
  obtain ⟨-, rfl⟩ := hj
  exact ⟨rfl, rfl⟩

/-- The journal goes on without the runtime. -/
theorem lives_journal {action : Live.Action} {l : Live} (h : Lives bare N base s)
    (hstep : s.rt.journal.step R action = some l) (hcore : l.journal.core = s.rt.journal.journal.core)
    (hpublished : l.journal.published = s.rt.journal.journal.published) :
    Lives bare N base { s with rt := { s.rt with journal := l } } ∧
      Carries bare N s.rt { s.rt with journal := l } := by
  have hrecords : ({ s.rt with journal := l } : SessionRuntime).records = s.rt.records := by
    rw [records, hpublished, records]
  have hdegraded : ({ s.rt with journal := l } : SessionRuntime).isDegraded = s.rt.isDegraded := by
    rw [isDegraded, hcore, isDegraded]
  refine ⟨⟨h.older, liveInv_step h.older h.live hstep, ?_, ?_⟩, onward_step h.live hstep, fun hclosed => ?_⟩
  · show l.journal.core.incarnation = N
    rw [hcore, h.incarnation]
  · exact h.synced.congr hrecords rfl hdegraded.symm.trans
  · exact ⟨hclosed, by rw [hrecords]⟩

end Steps

/-! ### The invariant -/

/-- What holds of a session, whatever has become of it. -/
def BodyInv (bare : Bool) : Body → Prop
  | .inserted _ => True
  | .opened N maxPartBytes d => (∀ seg ∈ d.listSegments, seg.incarnation ≤ N) ∧ LiveInv N d (Live.opened N maxPartBytes d)
  | .spawned s => ∃ N base, Lives bare N base s ∧ StreamInv bare s ∧ EndInv s
  | .dropped s => ∃ N base, Lives bare N base s ∧ s.rt.outputClosed = true

/-- What is completely written stays so, and replays the same. -/
def Settles (bare : Bool) (b b' : Body) : Prop :=
  b.Written bare → b'.Written bare ∧ b'.latest = b.latest ∧ replayable bare b'.disk = replayable bare b.disk

/-- A length that was found for an incarnation is right. -/
def Right (bare : Bool) (b : Body) (incarnation len : ℕ) : Prop :=
  b.Written bare ∧ (b.latest = some incarnation → len = (replayable bare b.disk).length)

/-- The length that a call holds is right. -/
def Call.Right (bare : Bool) (b : Body) : Call → Prop
  | .storing _ incarnation len | .found _ incarnation len => Session.Right bare b incarnation len
  | _ => True

/-- What holds of the cached length and of the lengths on their way. -/
structure LenInv (bare : Bool) (st : TrackedSession) : Prop where
  body : BodyInv bare st.body
  cached : ∀ incarnation len, st.cache = some (incarnation, len) → Right bare st.body incarnation len
  calls : ∀ call ∈ st.calls, call.Right bare st.body

section Invariant

variable {bare : Bool} {R : LineReader} {b b' : Body} {st st' : TrackedSession}

theorem Settles.refl (bare : Bool) (b : Body) : Settles bare b b := fun h => ⟨h, rfl, rfl⟩

theorem Right.settles {incarnation len : ℕ} (h : Right bare b incarnation len) (hs : Settles bare b b') :
    Right bare b' incarnation len := by
  obtain ⟨hwritten, hlatest, hreplay⟩ := hs h.1
  refine ⟨hwritten, fun hl => ?_⟩
  rw [hreplay]
  exact h.2 (hlatest.symm.trans hl)

theorem Call.Right.settles {call : Call} (h : call.Right bare b) (hs : Settles bare b b') : call.Right bare b' := by
  cases call with
  | storing _ _ _ | found _ _ _ => exact Session.Right.settles h hs
  | looking _ | bracketing | listing _ | checking _ _ | scanning _ _ | confirming _ _ | done => trivial

/-- A step of the session, or of what is left of it, settles what is written. -/
theorem settles_of_carries {N : ℕ} {base : Dir} {s t : LiveSession} (hs : Lives bare N base s)
    (ht : Lives bare N base t) (h : Carries bare N s.rt t.rt) : Settles bare (.spawned s) (.spawned t) := by
  intro hwritten
  obtain ⟨hwritten', hreplay⟩ := complete_onward hs ht h hwritten
  exact ⟨hwritten', ht.latest.trans hs.latest.symm, hreplay⟩

/-- **What a step does to the body.** -/
theorem body_step {action : TrackedSession.Action} (hstep : st.step bare R action = some st') (h : BodyInv bare st.body) :
    BodyInv bare st'.body ∧ Settles bare st.body st'.body ∧
      ((∀ d, st.body ≠ .inserted d) → st'.body.latest = st.body.latest) := by
  have hs := TrackedSession.step_cases hstep
  have hsame : Settles bare st.body st.body ∧ ((∀ d, st.body ≠ .inserted d) → st.body.latest = st.body.latest) :=
    ⟨.refl _ _, fun _ => rfl⟩
  cases action with
  | openJournal maxPartBytes =>
    obtain ⟨d, es, j, hbody, hopen, rfl⟩ := hs
    refine ⟨⟨le_of_open hopen, liveInv_of_open hopen maxPartBytes⟩, ?_, fun hnot => absurd hbody (hnot d)⟩
    rw [hbody]
    exact False.elim
  | spawn rows cols pid geometry started =>
    obtain ⟨N, maxPartBytes, d, s, hbody, hspawn, rfl⟩ := hs
    rw [hbody] at h ⊢
    obtain ⟨holder, hlive⟩ := h
    obtain ⟨-, ⟨as, has⟩, -⟩ := LiveSession.spawn_spec hspawn ⟨rfl, rfl⟩
    obtain ⟨hlive', hon⟩ := onward_run holder hlive has
    have hstream := @streamInv_spawn bare _ _ _ _ _ _ _ _ _ _ hspawn
    have hlives : Lives bare N d s := ⟨holder, hlive', hon.incarnation, hstream.synced⟩
    exact ⟨⟨N, d, hlives, hstream, (endInv_spawn hspawn).1⟩, False.elim,
      fun _ => hlives.latest.trans (latest_live hlive holder).symm⟩
  | session action =>
    obtain ⟨s, t, hbody, -, ht, rfl⟩ := hs
    rw [hbody] at h ⊢
    obtain ⟨N, base, hlives, hstream, hend⟩ := h
    obtain ⟨hlives', hcarries⟩ := lives_step hlives hstream hend ht
    exact ⟨⟨N, base, hlives', streamInv_step hstream ht, endInv_step hend ht⟩,
      settles_of_carries hlives hlives' hcarries, fun _ => hlives'.latest.trans hlives.latest.symm⟩
  | publish =>
    obtain ⟨s, -, -, rfl⟩ := hs
    exact ⟨h, hsame⟩
  | resumeCheck =>
    obtain ⟨s, resume, -, -, -, -, rfl⟩ := hs
    exact ⟨h, hsame⟩
  | resumeScanned =>
    obtain ⟨-, rfl⟩ := hs
    exact ⟨h, hsame⟩
  | evict =>
    obtain ⟨s, -, -, -, -, rfl⟩ := hs
    exact ⟨h, hsame⟩
  | drop =>
    obtain ⟨s, l, -, hbody, hclosed, hl, rfl⟩ := hs
    rw [hbody] at h ⊢
    obtain ⟨N, base, hlives, -, -⟩ := h
    obtain ⟨hcore, hpublished⟩ := close_frame hl
    obtain ⟨hlives', hcarries⟩ := lives_journal hlives hl hcore hpublished
    exact ⟨⟨N, base, hlives', hclosed⟩, settles_of_carries hlives hlives' hcarries,
      fun _ => hlives'.latest.trans hlives.latest.symm⟩
  | journal action =>
    obtain ⟨s, l, hbody, hleft, hl, rfl⟩ := hs
    rw [hbody] at h ⊢
    obtain ⟨N, base, hlives, hclosed⟩ := h
    have hsame := leftover_step hleft hl
    obtain ⟨hlives', hcarries⟩ := lives_journal hlives hl hsame.core hsame.published
    exact ⟨⟨N, base, hlives', hclosed⟩, settles_of_carries hlives hlives' hcarries,
      fun _ => hlives'.latest.trans hlives.latest.symm⟩
  | call observes | uncache =>
    cases hs
    exact ⟨h, hsame⟩
  | advance i =>
    obtain ⟨call, st₁, call', -, hcs, rfl⟩ := hs
    have hbody := (TrackedSession.callStep_frame hcs).body
    show BodyInv bare st₁.body ∧ Settles bare st.body st₁.body ∧ (_ → st₁.body.latest = _)
    rw [hbody]
    exact ⟨h, hsame⟩

theorem BodyInv.filteredStreamLen_eq (h : BodyInv bare b) (hw : b.Written bare) :
    filteredStreamLen bare b.disk = .ok (replayable bare b.disk).length := by
  cases b with
  | inserted d => exact hw.elim
  | opened N maxPartBytes d => exact hw.elim
  | spawned s =>
    obtain ⟨N, base, hlives, -⟩ := h
    exact hlives.filteredStreamLen_eq
  | dropped s =>
    obtain ⟨N, base, hlives, -⟩ := h
    exact hlives.filteredStreamLen_eq

theorem cached_eq_some {incarnation len : ℕ} (h : st.cached incarnation = some len) :
    st.cache = some (incarnation, len) := by
  obtain ⟨⟨i, n⟩, hentry, hn⟩ := Option.map_eq_some_iff.mp h
  obtain ⟨hcache, hi⟩ := Option.filter_eq_some_iff.mp hentry
  rw [hcache, ← hn, ← of_decide_eq_true hi]

/-- **A call's step** holds and caches what is right, if it scans what is written. -/
theorem callStep_right (h : LenInv bare st) {call call' : Call} (hcall : call.Right bare st.body)
    (hscan : call.isScanning = true → st.body.Written bare)
    (hstep : st.callStep bare call = some (st', call')) :
    call'.Right bare st.body ∧
      (st'.cache = st.cache ∨ ∃ incarnation len, st'.cache = some (incarnation, len) ∧
        Right bare st.body incarnation len) := by
  cases call with
  | looking observes =>
    simp only [TrackedSession.callStep] at hstep
    split at hstep
    · cases hstep
      refine ⟨trivial, ?_⟩
      split <;> exact .inl rfl
    · cases hstep
      refine ⟨?_, .inl rfl⟩
      split <;> trivial
  | bracketing =>
    cases hstep
    exact ⟨trivial, .inl rfl⟩
  | listing caller =>
    simp only [TrackedSession.callStep] at hstep
    split at hstep <;> cases hstep <;> exact ⟨trivial, .inl rfl⟩
  | checking caller incarnation =>
    simp only [TrackedSession.callStep] at hstep
    split at hstep
    · rename_i len hhit
      cases hstep
      exact ⟨h.cached incarnation len (cached_eq_some hhit), .inl rfl⟩
    · cases hstep
      exact ⟨trivial, .inl rfl⟩
  | scanning caller incarnation =>
    simp only [TrackedSession.callStep] at hstep
    split at hstep
    · rename_i len hlen
      cases hstep
      have hwritten := hscan rfl
      rw [h.body.filteredStreamLen_eq hwritten] at hlen
      exact ⟨⟨hwritten, fun _ => (Except.ok.inj hlen).symm⟩, .inl rfl⟩
    · cases hstep
      exact ⟨trivial, .inl rfl⟩
  | storing caller incarnation len =>
    cases hstep
    exact ⟨hcall, .inr ⟨incarnation, len, rfl, hcall⟩⟩
  | found caller incarnation len =>
    rcases caller with _ | before
    · cases hstep
    · cases hstep
      refine ⟨?_, .inl rfl⟩
      split <;> trivial
  | confirming before len =>
    simp only [TrackedSession.callStep] at hstep
    split at hstep <;> cases hstep <;> exact ⟨trivial, .inl rfl⟩
  | done => cases hstep

/-- What an action other than a call's step does to the cache and to the calls. -/
theorem frame_step {action : TrackedSession.Action} (hstep : st.step bare R action = some st')
    (hother : ∀ i, action ≠ .advance i) :
    (st'.cache = st.cache ∨ st'.cache = none) ∧
      (st'.calls = st.calls ∨ ∃ observes, st'.calls = st.calls ++ [.looking observes]) := by
  have hs := TrackedSession.step_cases hstep
  cases action with
  | openJournal maxPartBytes =>
    obtain ⟨d, es, j, -, -, rfl⟩ := hs
    exact ⟨.inl rfl, .inl rfl⟩
  | spawn rows cols pid geometry started =>
    obtain ⟨N, maxPartBytes, d, s, -, -, rfl⟩ := hs
    exact ⟨.inl rfl, .inl rfl⟩
  | session action =>
    obtain ⟨s, t, -, -, -, rfl⟩ := hs
    exact ⟨.inl rfl, .inl rfl⟩
  | publish =>
    obtain ⟨s, -, -, rfl⟩ := hs
    exact ⟨.inl rfl, .inl rfl⟩
  | resumeCheck =>
    obtain ⟨s, resume, -, -, -, -, rfl⟩ := hs
    exact ⟨.inl rfl, .inl rfl⟩
  | resumeScanned =>
    obtain ⟨-, rfl⟩ := hs
    exact ⟨.inl rfl, .inl rfl⟩
  | evict =>
    obtain ⟨s, -, -, -, -, rfl⟩ := hs
    exact ⟨.inl rfl, .inl rfl⟩
  | drop =>
    obtain ⟨s, l, -, -, -, -, rfl⟩ := hs
    exact ⟨.inl rfl, .inl rfl⟩
  | journal action =>
    obtain ⟨s, l, -, -, -, rfl⟩ := hs
    exact ⟨.inl rfl, .inl rfl⟩
  | call observes =>
    cases hs
    exact ⟨.inl rfl, .inr ⟨observes, rfl⟩⟩
  | advance i => exact absurd rfl (hother i)
  | uncache =>
    cases hs
    exact ⟨.inr rfl, .inl rfl⟩

/-- **One step.** -/
theorem lenInv_step {action : TrackedSession.Action} (h : LenInv bare st) (hscan : ScansWritten bare st action)
    (hstep : st.step bare R action = some st') : LenInv bare st' := by
  obtain ⟨hbody, hsettles, -⟩ := body_step hstep h.body
  by_cases hadvance : ∃ i, action = .advance i
  · obtain ⟨i, rfl⟩ := hadvance
    obtain ⟨call, st₁, call', hcall, hcs, rfl⟩ := TrackedSession.step_cases hstep
    obtain ⟨hright, hcache⟩ := callStep_right h (h.calls call (List.mem_of_getElem? hcall))
      (fun hscanning => hscan (by rw [hcall]; exact hscanning)) hcs
    have hframe := TrackedSession.callStep_frame hcs
    refine ⟨hbody, fun incarnation len hentry => ?_, fun c hc => ?_⟩
    · have hentry' : st₁.cache = some (incarnation, len) := hentry
      show Right bare st₁.body incarnation len
      rw [hframe.body]
      rcases hcache with hold | ⟨incarnation', len', hnew, hr⟩
      · exact h.cached incarnation len (hold.symm.trans hentry')
      · rw [hnew] at hentry'
        cases hentry'
        exact hr
    · show c.Right bare st₁.body
      rw [hframe.body]
      rcases List.mem_or_eq_of_mem_set hc with hc | rfl
      · rw [hframe.calls] at hc
        exact h.calls c hc
      · exact hright
  · obtain ⟨hcache, hcalls⟩ := frame_step hstep fun i heq => hadvance ⟨i, heq⟩
    refine ⟨hbody, fun incarnation len hentry => ?_, fun c hc => ?_⟩
    · rcases hcache with hold | hnone
      · exact (h.cached incarnation len (hold.symm.trans hentry)).settles hsettles
      · rw [hnone] at hentry
        cases hentry
    · rcases hcalls with hold | ⟨observes, hnew⟩
      · rw [hold] at hc
        exact (h.calls c hc).settles hsettles
      · rw [hnew] at hc
        rcases List.mem_append.mp hc with hc | hc
        · exact (h.calls c hc).settles hsettles
        · rw [List.mem_singleton.mp hc]
          trivial

theorem lenInv_start (bare : Bool) (d : Dir) : LenInv bare (TrackedSession.start d) := ⟨trivial, nofun, nofun⟩

end Invariant

/-! ### The cache -/

/-- Once the journal is completely written, a persisted length is that of the stream
which the journal replays, and so is every length that a call has returned. -/
structure Fresh (bare : Bool) (st : TrackedSession) : Prop where
  lookup : st.body.Written bare →
    st.persistedFilteredLen bare = some (replayable bare st.body.disk).length
  returned : ∀ caller incarnation len, .found caller incarnation len ∈ st.calls → st.body.latest = some incarnation →
    len = (replayable bare st.body.disk).length

theorem BodyInv.latest_isSome {bare : Bool} {b : Body} (h : BodyInv bare b) (hw : b.Written bare) :
    ∃ N, b.latest = some N := by
  cases b with
  | inserted d => exact hw.elim
  | opened N maxPartBytes d => exact hw.elim
  | spawned s =>
    obtain ⟨N, base, hlives, -⟩ := h
    exact ⟨N, hlives.latest⟩
  | dropped s =>
    obtain ⟨N, base, hlives, -⟩ := h
    exact ⟨N, hlives.latest⟩

theorem LenInv.fresh {bare : Bool} {st : TrackedSession} (h : LenInv bare st) : Fresh bare st := by
  refine ⟨fun hwritten => ?_, fun caller incarnation len hmem hlatest => ?_⟩
  · obtain ⟨N, hlatest⟩ := h.body.latest_isSome hwritten
    rw [TrackedSession.persistedFilteredLen, hlatest]
    rcases hhit : st.cached N with _ | len
    · simp only [hhit, h.body.filteredStreamLen_eq hwritten]
      rfl
    · simp only [hhit]
      rw [(h.cached N len (cached_eq_some hhit)).2 hlatest]
  · exact (h.calls _ hmem).2 hlatest

/-- **The persisted length is not stale**, in a run whose scans all read a journal
that is completely written. -/
theorem persisted_len_fresh {bare : Bool} {R : LineReader} {d : Dir} {as : List TrackedSession.Action}
    {st : TrackedSession} (hrun : Runs.run (TrackedSession.step bare R) (.start d) as = some st)
    (hscans : Runs.Meets (TrackedSession.step bare R) (ScansWritten bare) (.start d) as) : Fresh bare st :=
  (Runs.run_invariant_of_meets (fun h hscan hstep => lenInv_step h hscan hstep) hrun hscans (lenInv_start bare d)).fresh

/-- The appender writes `n` records. -/
def writes (n : ℕ) : List TrackedSession.Action :=
  (List.replicate n [.receive, .effect, .effect, .finish]).flatten.map fun action => .session (.background (.journal action))

/-- A call that takes so many steps. -/
def asks (observes : Bool) (i n : ℕ) : List TrackedSession.Action := .call observes :: List.replicate n (.advance i)

def twoBytes : LiveSession.Action := .read [104, 105] noView ⟨false, false, false, false, false⟩ .quiet .quiet .quiet

/-- A session outputs two bytes and ends, its journal is written and synced, and
it is evicted. -/
def endedRun : List TrackedSession.Action :=
  [.openJournal 4096, .spawn 24 80 [55] .quiet .quiet, .publish, .session twoBytes, .session .send,
    .session (.hangup []), .session (.close noView .quiet .quiet .quiet), .session (.refresh .quiet (.exited 0))] ++
  writes 7 ++
  [.session (.background (.journal .receive)), .session (.background (.journal .effect)),
    .session (.background (.journal .finish)), .session .prune, .resumeCheck, .resumeScanned, .evict]

set_option maxRecDepth 20000 in
theorem persisted_len_fresh_ended : ∃ st,
    Runs.run (TrackedSession.step false exactReader) (.start .empty) (endedRun ++ asks true 0 8) = some st ∧
    st.residence = .evicted ∧ st.cache = some (1, 2) ∧ st.body.Written false ∧ Fresh false st := by
  have hrun : (Runs.run (TrackedSession.step false exactReader) (.start .empty) (endedRun ++ asks true 0 8)).any
      (fun st => decide (st.residence = .evicted ∧ st.cache = some (1, 2) ∧ st.body.Written false)) = true := by
    decide +kernel
  have hscans : Runs.Meets (TrackedSession.step false exactReader) (ScansWritten false) (.start .empty)
      (endedRun ++ asks true 0 8) := by
    decide +kernel
  obtain ⟨st, hst, hp⟩ := (Option.any_eq_true _ _).mp hrun
  obtain ⟨hresidence, hcache, hwritten⟩ := of_decide_eq_true hp
  exact ⟨st, hst, hresidence, hcache, hwritten, persisted_len_fresh hst hscans⟩

/-- A listing asks for the length while the session is started. The session outputs
two bytes, exits and is evicted; its journal is written, and the length stays what it
was. -/
def listedEarlyRun : List TrackedSession.Action :=
  [.openJournal 4096] ++ asks false 0 5 ++
  [.spawn 24 80 [55] .quiet .quiet, .publish, .session twoBytes, .session (.refresh .quiet (.exited 0)), .evict,
    .session .send, .session (.hangup []), .session (.close noView .quiet .quiet .quiet)] ++
  writes 7

set_option maxRecDepth 20000 in
theorem persisted_len_stale : ∃ st,
    Runs.run (TrackedSession.step false exactReader) (.start .empty) listedEarlyRun = some st ∧
    st.residence = .evicted ∧ st.body.Written false ∧ (replayable false st.body.disk).length = 2 ∧
    st.persistedFilteredLen false = some 0 := by
  have hrun : (Runs.run (TrackedSession.step false exactReader) (.start .empty) listedEarlyRun).any
      (fun st => decide (st.residence = .evicted ∧ st.body.Written false ∧
        (replayable false st.body.disk).length = 2 ∧ st.persistedFilteredLen false = some 0)) = true := by
    decide +kernel
  obtain ⟨st, hst, hp⟩ := (Option.any_eq_true _ _).mp hrun
  exact ⟨st, hst, of_decide_eq_true hp⟩

end Session
end OpenRelay
