/-
# A session's end in the journal

The end of the output stream and the exit of the child come in either order and
from different threads. The close-out journals `OutputClosed`; `mark_completed`
journals the completion behind it, or parks it until then. In every run there is
at most one of each, in this order, and no output behind the close
(`endInv_step`).

The completion record has the outcome of the first `mark_completed`. A further one
does not journal again, but it does take another outcome: then the record and the
runtime disagree (`outcome_overwritten`). In a run in which no outcome is replaced
by another the record is right (`end_of_life`); up to one exit code, which stands
for "none" in a record.

Key theorem: `recordedOutcome_step`.
-/
import OpenRelay.Session.LiveStream

namespace OpenRelay
namespace Session

open Journal Pty

/-! ### The records of an end -/

/-- The fact a record states, if it is one of a session's life. -/
def lifecycleFact (r : Record) : Option (LifecycleCode × Option ExitCode) :=
  if r.kind = .lifecycle then decodeLifecyclePayload r.payload else none

def isOutputClosed (r : Record) : Bool := (lifecycleFact r).map Prod.fst == some .outputClosed

/-- A record that says how the session has ended. -/
def isCompletion (r : Record) : Bool :=
  match (lifecycleFact r).map Prod.fst with
  | some .stopped | some .killed | some .failed => true
  | _ => false

/-- Neither the close of the stream nor the completion. -/
def isNeutral (r : Record) : Bool := !isOutputClosed r && !isCompletion r

theorem lifecycleFact_encode {r : Record} {code : LifecycleCode} {exitCode : Option ExitCode} {detail : Bytes}
    (hk : r.kind = .lifecycle) (hp : r.payload = encodeLifecyclePayload code exitCode detail) :
    lifecycleFact r = some (code, if exitCode = some noExitCode then none else exitCode) := by
  rw [lifecycleFact, if_pos hk, hp, decodeLifecyclePayload_encode]

theorem isNeutral_of_kind {r : Record} (hk : r.kind ≠ .lifecycle) : isNeutral r = true := by
  have hfact : lifecycleFact r = none := if_neg hk
  simp [isNeutral, isOutputClosed, isCompletion, hfact]

theorem isNeutral_start {r : Record} (h : LiveSession.IsStart r) : isNeutral r = true := by
  rcases h with hk | ⟨hk, detail, hp⟩
  · exact isNeutral_of_kind (by rw [hk]; decide)
  · simp [isNeutral, isOutputClosed, isCompletion, lifecycleFact_encode hk hp]

theorem not_closed_of_neutral {r : Record} (h : isNeutral r = true) : isOutputClosed r = false := by
  simp only [isNeutral, Bool.and_eq_true, Bool.not_eq_true'] at h
  exact h.1

theorem not_completion_of_neutral {r : Record} (h : isNeutral r = true) : isCompletion r = false := by
  simp only [isNeutral, Bool.and_eq_true, Bool.not_eq_true'] at h
  exact h.2

theorem isCompletion_of_fact {r : Record} {code : LifecycleCode} {exitCode : Option ExitCode} {status : SessionStatus}
    (h : lifecycleFact r = some (code, exitCode)) (hcode : SessionRuntime.completionCode status = some code) :
    isCompletion r = true ∧ isOutputClosed r = false ∧ r.kind ≠ .output := by
  have hk : r.kind ≠ .output := by
    intro hk
    rw [lifecycleFact, if_neg (by rw [hk]; decide)] at h
    cases h
  rw [isCompletion, isOutputClosed, h]
  cases status <;> cases hcode <;> exact ⟨rfl, rfl, hk⟩

/-! ### Their order -/

/-- The close of the stream and the completion come at most once each, in this
order, and no output comes behind the close. -/
structure EndOrder (rs : List Record) : Prop where
  closedOnce : (rs.filter isOutputClosed).length ≤ 1
  completedOnce : (rs.filter isCompletion).length ≤ 1
  order : ∀ pre r post, rs = pre ++ r :: post → isCompletion r = true → ∃ c ∈ pre, isOutputClosed c = true
  quiet : ∀ pre r post, rs = pre ++ r :: post → isOutputClosed r = true → ∀ o ∈ post, o.kind ≠ .output

namespace EndOrder

variable {rs : List Record} {r : Record}

theorem snoc (h : EndOrder rs) (hclosed : isOutputClosed r = true → ∀ c ∈ rs, isOutputClosed c = false)
    (hcompleted : isCompletion r = true → (∀ c ∈ rs, isCompletion c = false) ∧ ∃ c ∈ rs, isOutputClosed c = true)
    (houtput : r.kind = .output → ∀ c ∈ rs, isOutputClosed c = false) : EndOrder (rs ++ [r]) := by
  have honce : ∀ {p : Record → Bool}, (rs.filter p).length ≤ 1 → (p r = true → ∀ c ∈ rs, p c = false) →
      ((rs ++ [r]).filter p).length ≤ 1 := by
    intro p hle hnone
    rw [List.filter_append, List.length_append]
    by_cases hr : p r = true
    · have hnil : rs.filter p = [] := List.filter_eq_nil_iff.mpr fun c hc => by rw [hnone hr c hc]; decide
      rw [hnil, List.filter_cons_of_pos hr]
      rfl
    · rw [List.filter_cons_of_neg hr]
      exact hle
  refine ⟨honce h.closedOnce hclosed, honce h.completedOnce fun hr => (hcompleted hr).1,
    fun pre r' post heq hr' => ?_, fun pre r' post heq hr' => ?_⟩
  · rcases Streams.snoc_cases heq with ⟨rfl, rfl, -⟩ | ⟨post', hrs, -⟩
    · exact (hcompleted hr').2
    · exact h.order pre r' post' hrs hr'
  · rcases Streams.snoc_cases heq with ⟨-, -, rfl⟩ | ⟨post', hrs, rfl⟩
    · nofun
    · intro o ho hkind
      rcases List.mem_append.mp ho with ho | ho
      · exact h.quiet pre r' post' hrs hr' o ho hkind
      · rw [List.mem_singleton.mp ho] at hkind
        have hfalse := houtput hkind r' (by rw [hrs]; exact List.mem_append_right _ List.mem_cons_self)
        rw [hr'] at hfalse
        cases hfalse

end EndOrder

/-! ### The invariant -/

/-- What the runtime's flags say about the records. -/
structure LifeInv (rt : SessionRuntime) : Prop where
  order : EndOrder rt.records
  notClosed : rt.outputClosed = false → ∀ r ∈ rt.records, isNeutral r = true
  closed : rt.outputClosed = true → rt.isDegraded = true ∨ ∃ c ∈ rt.records, isOutputClosed c = true
  notEnded : rt.ended = false → rt.pendingJournalCompletion = none ∧ rt.exitCode = none ∧
    ∀ r ∈ rt.records, isCompletion r = false
  parked : ∀ code exitCode detail, rt.pendingJournalCompletion = some (code, exitCode, detail) →
    rt.ended = true ∧ (∃ status, SessionRuntime.completionCode status = some code) ∧
      ∀ r ∈ rt.records, isCompletion r = false

namespace LifeInv

open SessionRuntime

variable {R : LineReader} {rt rt' : SessionRuntime} {kind : RecordKind} {payload : Bytes}

/-- The flags and the records are not concerned. -/
theorem congr (h : LifeInv rt) (hrec : rt'.records = rt.records) (hdeg : rt.isDegraded = true → rt'.isDegraded = true)
    (hclosed : rt'.outputClosed = rt.outputClosed) (hended : rt'.ended = rt.ended)
    (hpending : rt'.pendingJournalCompletion = rt.pendingJournalCompletion) (hexit : rt'.exitCode = rt.exitCode) :
    LifeInv rt' := by
  refine ⟨by rw [hrec]; exact h.order, fun hc => ?_, fun hc => ?_, fun he => ?_, fun code exitCode detail hp => ?_⟩
  · rw [hrec]
    exact h.notClosed (hclosed.symm.trans hc)
  · rw [hrec]
    exact (h.closed (hclosed.symm.trans hc)).imp_left hdeg
  · rw [hrec, hpending, hexit]
    exact h.notEnded (hended.symm.trans he)
  · rw [hrec, hended]
    exact h.parked code exitCode detail (hpending.symm.trans hp)

/-- A record that is no fact of the session's life, and no output once the stream
is closed. -/
theorem recorded (h : LifeInv rt) (hr : Recorded R rt rt' kind payload) (hk : kind ≠ .lifecycle)
    (houtput : kind = .output → rt.outputClosed = false) : LifeInv rt' := by
  have hkeeps := hr.evolves.keeps
  have hrest := hr.rest
  have hclosed : rt'.outputClosed = rt.outputClosed := by rw [hrest]
  have hended : rt'.ended = rt.ended := by rw [hrest]
  have hpending : rt'.pendingJournalCompletion = rt.pendingJournalCompletion := by rw [hrest]
  have hexit : rt'.exitCode = rt.exitCode := by rw [hrest]
  rcases hr.outcome with ⟨hrec, -⟩ | ⟨r, hrk, -, hrec⟩
  · exact h.congr hrec hkeeps hclosed hended hpending hexit
  have hneutral : isNeutral r = true := isNeutral_of_kind (by rw [hrk]; exact hk)
  have hnone : (∀ c ∈ rt.records, isCompletion c = false) → ∀ c ∈ rt'.records, isCompletion c = false := by
    intro hall c hc
    rw [hrec] at hc
    rcases List.mem_append.mp hc with hc | hc
    · exact hall c hc
    · rw [List.mem_singleton.mp hc]
      exact not_completion_of_neutral hneutral
  refine ⟨?_, fun hc => ?_, fun hc => ?_, fun he => ?_, fun code exitCode detail hp => ?_⟩
  · rw [hrec]
    refine h.order.snoc (fun hc => ?_) (fun hc => ?_) fun ho c hc => ?_
    · rw [not_closed_of_neutral hneutral] at hc
      cases hc
    · rw [not_completion_of_neutral hneutral] at hc
      cases hc
    · exact not_closed_of_neutral (h.notClosed (houtput (hrk.symm.trans ho)) c hc)
  · rw [hrec]
    intro c hc'
    rcases List.mem_append.mp hc' with hc' | hc'
    · exact h.notClosed (hclosed.symm.trans hc) c hc'
    · rw [List.mem_singleton.mp hc']
      exact hneutral
  · rw [hrec]
    refine (h.closed (hclosed.symm.trans hc)).imp hkeeps ?_
    rintro ⟨c, hc', hcc⟩
    exact ⟨c, List.mem_append_left _ hc', hcc⟩
  · obtain ⟨h1, h2, h3⟩ := h.notEnded (hended.symm.trans he)
    exact ⟨hpending.trans h1, hexit.trans h2, hnone h3⟩
  · obtain ⟨h1, h2, h3⟩ := h.parked code exitCode detail (hpending.symm.trans hp)
    exact ⟨hended.trans h1, h2, hnone h3⟩

theorem pollAcks (h : LifeInv rt) : LifeInv rt.pollAcks :=
  h.congr rfl (fun hd => isDegraded_notes hd _) rfl rfl rfl rfl

theorem requestSync (h : LifeInv rt) : LifeInv rt.requestSync := by
  have hsame := requestSync_sameCore rt.journal.journal
  refine h.congr ?_ (fun hd => ?_) rfl rfl rfl rfl
  · rw [records, SessionRuntime.requestSync, hsame.published, records]
  · rw [isDegraded, SessionRuntime.requestSync, hsame.core]
    exact hd

/-- **The completion is recorded** behind the close. -/
theorem terminalEnd (h : LifeInv rt) {turn : Turn} {code : LifecycleCode} {exitCode : Option ExitCode}
    {detail : Bytes} {status : SessionStatus} (hidle : Idle rt.journal.journal)
    (hend : rt.journalTerminalEnd R turn code exitCode detail = some rt') (hclosed : rt.outputClosed = true)
    (hended : rt.ended = true) (hnone : rt.pendingJournalCompletion = none)
    (hfirst : ∀ r ∈ rt.records, isCompletion r = false)
    (hcode : completionCode status = some code) : LifeInv rt' := by
  obtain ⟨rt₁, hr, rfl, -, -⟩ := journalTerminalEnd_spec hend hidle
  refine LifeInv.requestSync ?_
  have hkeeps := hr.evolves.keeps
  have hrest := hr.rest
  have hclosed' : rt₁.outputClosed = rt.outputClosed := by rw [hrest]
  have hended' : rt₁.ended = rt.ended := by rw [hrest]
  have hpending : rt₁.pendingJournalCompletion = rt.pendingJournalCompletion := by rw [hrest]
  rcases hr.outcome with ⟨hrec, -⟩ | ⟨r, hrk, hrp, hrec⟩
  · exact h.congr hrec hkeeps hclosed' hended' hpending (by rw [hrest])
  have hwas := healthy_of_published hr hrec
  obtain ⟨hcompletion, hnot, hkind⟩ := isCompletion_of_fact (lifecycleFact_encode hrk hrp) hcode
  obtain ⟨c, hc, hcc⟩ := (h.closed hclosed).resolve_left (by rw [hwas]; decide)
  refine ⟨?_, fun hopen => ?_, fun _ => ?_, fun he => ?_, fun code exitCode detail hp => ?_⟩
  · rw [hrec]
    refine h.order.snoc (fun hc' => ?_) (fun _ => ⟨hfirst, c, hc, hcc⟩) fun ho => absurd ho hkind
    rw [hnot] at hc'
    cases hc'
  · rw [hclosed', hclosed] at hopen
    cases hopen
  · rw [hrec]
    exact .inr ⟨c, List.mem_append_left _ hc, hcc⟩
  · rw [hended', hended] at he
    cases he
  · rw [hpending, hnone] at hp
    cases hp

/-- The outcome is noted. -/
theorem noteCompleted (h : LifeInv rt) (status : SessionStatus) (exitCode : Option ExitCode) :
    LifeInv (rt.noteCompleted status exitCode) :=
  ⟨h.order, h.notClosed, h.closed, nofun, fun code exitCode detail hp => ⟨rfl, (h.parked code exitCode detail hp).2⟩⟩

theorem markCompleted (h : LifeInv rt) {turn : Turn} {status : SessionStatus} {exitCode : Option ExitCode}
    (hidle : Idle rt.journal.journal) (hm : rt.markCompleted R turn status exitCode = some rt') : LifeInv rt' := by
  have hnote := h.noteCompleted status exitCode
  rcases markCompleted_cases hm with ⟨-, rfl⟩ | ⟨code, hended, hcode, ⟨hclosed, hend⟩ | ⟨hopen, rfl⟩⟩
  · exact hnote
  · exact hnote.terminalEnd hidle hend hclosed rfl (h.notEnded hended).1 (h.notEnded hended).2.2 hcode
  · refine ⟨h.order, h.notClosed, h.closed, nofun, fun code' exitCode' detail' hp => ?_⟩
    cases hp
    exact ⟨rfl, ⟨status, hcode⟩, (h.notEnded hended).2.2⟩

theorem refreshStatus (h : LifeInv rt) {turn : Turn} {child : TryWait} {completed : Bool}
    (hidle : Idle rt.journal.journal) (hf : rt.refreshStatus R turn child = some (rt', completed)) : LifeInv rt' := by
  rcases refreshStatus_cases hf with ⟨-, -, rfl⟩ | ⟨-, -, status, exitCode, hm, -⟩ | ⟨-, -, rfl⟩
  · exact h.pollAcks
  · exact h.pollAcks.markCompleted ⟨hidle.closed, hidle.waiting⟩ hm
  · split
    · exact h.pollAcks
    · exact h.pollAcks.congr rfl id rfl rfl rfl rfl

/-- **The stream is closed.** -/
theorem close (h : LifeInv rt) {closed checkpoint completion : Turn} {engine : EngineView} {detail : Bytes}
    {idle : Bool} (hidle : Idle rt.journal.journal)
    (hc : rt.closeOutputStreamAtBoundary R closed checkpoint completion engine detail idle = some rt') :
    LifeInv rt' := by
  rcases close_cases hc hidle with ⟨-, rfl⟩ | ⟨hopen, rt₁, rt₂, rt₃, hr₁, hr₂, rfl, hend⟩
  · exact h
  -- the close
  have hrest₁ := hr₁.rest
  have hclosed₁ : rt₁.outputClosed = true := by rw [hrest₁]
  have hended₁ : rt₁.ended = rt.ended := by rw [hrest₁]
  have hpending₁ : rt₁.pendingJournalCompletion = rt.pendingJournalCompletion := by rw [hrest₁]
  have hexit₁ : rt₁.exitCode = rt.exitCode := by rw [hrest₁]
  have h₁ : LifeInv rt₁ := by
    rcases hr₁.outcome with ⟨hrec, hdeg⟩ | ⟨r, hrk, hrp, hrec⟩
    · have hrec' : rt₁.records = rt.records := hrec
      refine ⟨by rw [hrec']; exact h.order, fun hc => ?_, fun _ => .inl hdeg, fun he => ?_, fun code exitCode d hp => ?_⟩
      · rw [hclosed₁] at hc
        cases hc
      · rw [hrec', hpending₁, hexit₁]
        exact h.notEnded (hended₁.symm.trans he)
      · rw [hrec', hended₁]
        exact h.parked code exitCode d (hpending₁.symm.trans hp)
    · have hrec' : rt₁.records = rt.records ++ [r] := hrec
      have hfact := lifecycleFact_encode hrk hrp
      have hisclosed : isOutputClosed r = true := by simp [isOutputClosed, hfact]
      have hnot : isCompletion r = false := by simp [isCompletion, hfact]
      have hneutral := h.notClosed hopen
      have hnone : ∀ c ∈ rt₁.records, isCompletion c = false := by
        intro c hc
        rw [hrec'] at hc
        rcases List.mem_append.mp hc with hc | hc
        · exact not_completion_of_neutral (hneutral c hc)
        · rw [List.mem_singleton.mp hc]
          exact hnot
      refine ⟨?_, fun hc => ?_, fun _ => .inr ⟨r, ?_, hisclosed⟩, fun he => ?_, fun code exitCode d hp => ?_⟩
      · rw [hrec']
        refine h.order.snoc (fun _ c hc => not_closed_of_neutral (hneutral c hc)) (fun hc => ?_) fun ho => ?_
        · rw [hnot] at hc
          cases hc
        · rw [hrk] at ho
          cases ho
      · rw [hclosed₁] at hc
        cases hc
      · rw [hrec']
        exact List.mem_append_right _ (List.mem_singleton.mpr rfl)
      · obtain ⟨h1, h2, -⟩ := h.notEnded (hended₁.symm.trans he)
        exact ⟨hpending₁.trans h1, hexit₁.trans h2, hnone⟩
      · obtain ⟨h1, h2, -⟩ := h.parked code exitCode d (hpending₁.symm.trans hp)
        exact ⟨hended₁.trans h1, h2, hnone⟩
  -- the checkpoint, and a parked completion
  have h₂ : LifeInv rt₂ := h₁.recorded hr₂ (by decide) nofun
  have hclosed₂ : rt₂.outputClosed = true := by rw [hr₂.rest]; exact hclosed₁
  have h₃ : LifeInv { rt₂ with lastJournalCheckpointAt := rt₂.filteredTotalBytes } :=
    h₂.congr rfl id rfl rfl rfl rfl
  rcases hend with ⟨-, rfl⟩ | ⟨code, exitCode, completionDetail, hp, hterm⟩
  · exact h₃
  · obtain ⟨hended, ⟨status, hcode⟩, hnone⟩ := h₃.parked code exitCode completionDetail hp
    have h₄ : LifeInv { rt₂ with
        lastJournalCheckpointAt := rt₂.filteredTotalBytes, pendingJournalCompletion := none } :=
      ⟨h₃.order, h₃.notClosed, h₃.closed, fun he => absurd (hended.symm.trans he) (by decide), nofun⟩
    exact terminalEnd h₄ hr₂.evolves.idle hterm hclosed₂ hended rfl hnone hcode

theorem resizePty (h : LifeInv rt) {turn : Turn} {rows cols : ℕ} {resized : Bool} (hidle : Idle rt.journal.journal)
    (hz : rt.resizePty R turn rows cols resized = some rt') : LifeInv rt' := by
  rcases resizePty_spec hz hidle with rfl | hr
  · exact h
  · have hsize : LifeInv { rt with ptySize := some (rows, cols) } := h.congr rfl id rfl rfl rfl rfl
    exact hsize.recorded hr (by decide) nofun

theorem prune (h : LifeInv rt) : LifeInv rt.prune := by
  unfold SessionRuntime.prune
  split
  · dsimp only
    split
    · exact h.pollAcks
    · exact h.pollAcks.requestSync
  · exact h

/-- **A read**, while the stream is open. -/
theorem read (h : LifeInv rt) {chunk filtered : Bytes} {meaningfulLen : ℕ} {idle : Bool} {engine : EngineView}
    {modes : Pump.ModeSnapshot} {output policy checkpoint : Turn} (hidle : Idle rt.journal.journal)
    (hopen : rt.outputClosed = false)
    (hrt : LiveSession.readLocked R rt chunk filtered meaningfulLen idle engine modes output policy checkpoint =
      some rt') : LifeInv rt' ∧ rt'.outputClosed = false := by
  obtain ⟨rt₁, rt₂, rt₃, rt₄, hs, rfl⟩ := LiveSession.readLocked_cases hrt hidle
  have h₁ : LifeInv rt₁ ∧ rt₁.outputClosed = false :=
    ⟨h.recorded hs.output (by decide) fun _ => hopen, by rw [hs.output.rest]; exact hopen⟩
  have h₂ : LifeInv rt₂ ∧ rt₂.outputClosed = false := by
    rw [hs.push]
    unfold pushOutput
    split
    · exact h₁
    · exact ⟨h₁.1.congr rfl id rfl rfl rfl rfl, h₁.2⟩
  have h₃ : LifeInv rt₃ ∧ rt₃.outputClosed = false := by
    rcases hs.modes with heq | ⟨m, hm, heq⟩
    · rw [heq]
      exact h₂
    · rw [heq]
      exact ⟨(h₂.1.recorded hm (by decide) nofun).congr rfl id rfl rfl rfl rfl, by rw [hm.rest]; exact h₂.2⟩
  have h₄ : LifeInv rt₄ ∧ rt₄.outputClosed = false := by
    rcases hs.checkpoint with heq | ⟨m, hm, heq⟩
    · rw [heq]
      exact h₃
    · rw [heq]
      exact ⟨(h₃.1.recorded hm (by decide) nofun).congr rfl id rfl rfl rfl rfl, by rw [hm.rest]; exact h₃.2⟩
  split
  · exact ⟨h₄.1.congr rfl id rfl rfl rfl rfl, h₄.2⟩
  · exact h₄

end LifeInv

/-! ### The outcome in the record -/

/-- A parked or recorded completion is what the runtime says now. -/
structure RecordedOutcome (rt : SessionRuntime) : Prop where
  parked : ∀ code exitCode detail, rt.pendingJournalCompletion = some (code, exitCode, detail) →
    SessionRuntime.completionCode rt.status = some code ∧ rt.exitCode = exitCode ∧ exitCode ≠ some noExitCode
  recorded : ∀ r ∈ rt.records, isCompletion r = true →
    ∃ code, lifecycleFact r = some (code, rt.exitCode) ∧ SessionRuntime.completionCode rt.status = some code

/-- The session's completion is parked or recorded. -/
def SessionRuntime.endNoted (rt : SessionRuntime) : Bool :=
  rt.pendingJournalCompletion.isSome || rt.records.any isCompletion

/-- No outcome replaces another one that was noted, and no new one has the exit
code that stands for none. -/
def KeepsOutcome (s : LiveSession) : LiveSession.Action → Prop
  | .markCompleted _ status exitCode =>
    (s.rt.endNoted = true → status = s.rt.status ∧ (exitCode = none ∨ exitCode = s.rt.exitCode)) ∧
      (s.rt.ended = false → SessionRuntime.completionCode status ≠ none → exitCode ≠ some noExitCode)
  | .refresh _ (.exited code) | .terminate _ (.exited code) _ =>
    s.rt.isCompleted = false → s.rt.ended = false → code ≠ noExitCode
  | _ => True

namespace RecordedOutcome

open SessionRuntime

variable {R : LineReader} {rt rt' : SessionRuntime} {kind : RecordKind} {payload : Bytes}

/-- Nothing is noted. -/
theorem of_unnoted (h : rt.endNoted = false) : RecordedOutcome rt := by
  rw [endNoted, Bool.or_eq_false_iff] at h
  refine ⟨fun code exitCode detail hp => ?_, fun r hr hc => ?_⟩
  · rw [hp] at h
    cases h.1
  · rw [List.any_eq_false] at h
    exact absurd hc (h.2 r hr)

/-- What is noted has completed. -/
theorem unnoted_of_running (h : RecordedOutcome rt) (hrun : rt.isCompleted = false) : rt.endNoted = false := by
  have hcode : completionCode rt.status = none := by
    rw [isCompleted] at hrun
    rcases hs : rt.status <;> rw [hs] at hrun <;> first | rfl | cases hrun
  by_contra hnoted
  rw [Bool.not_eq_false, endNoted, Bool.or_eq_true, List.any_eq_true] at hnoted
  rcases hnoted with hp | ⟨r, hr, hc⟩
  · obtain ⟨⟨code, exitCode, detail⟩, hp⟩ := Option.isSome_iff_exists.mp hp
    rw [(h.parked code exitCode detail hp).1] at hcode
    cases hcode
  · obtain ⟨code, -, hcode'⟩ := h.recorded r hr hc
    rw [hcode'] at hcode
    cases hcode

theorem congr (h : RecordedOutcome rt) (hrec : rt'.records = rt.records) (hstatus : rt'.status = rt.status)
    (hpending : rt'.pendingJournalCompletion = rt.pendingJournalCompletion) (hexit : rt'.exitCode = rt.exitCode) :
    RecordedOutcome rt' := by
  refine ⟨fun code exitCode detail hp => ?_, fun r hr hc => ?_⟩
  · rw [hstatus, hexit]
    exact h.parked code exitCode detail (hpending.symm.trans hp)
  · rw [hstatus, hexit]
    exact h.recorded r (hrec ▸ hr) hc

/-- A record of something else. -/
theorem neutral (h : RecordedOutcome rt) (hr : Recorded R rt rt' kind payload)
    (hk : kind ≠ .lifecycle ∨ ∃ detail, payload = encodeLifecyclePayload .outputClosed none detail) :
    RecordedOutcome rt' := by
  have hrest := hr.rest
  have hstatus : rt'.status = rt.status := by rw [hrest]
  have hpending : rt'.pendingJournalCompletion = rt.pendingJournalCompletion := by rw [hrest]
  have hexit : rt'.exitCode = rt.exitCode := by rw [hrest]
  rcases hr.outcome with ⟨hrec, -⟩ | ⟨r, hrk, hrp, hrec⟩
  · exact h.congr hrec hstatus hpending hexit
  have hnot : isCompletion r = false := by
    by_cases hlife : r.kind = .lifecycle
    · obtain ⟨detail, hd⟩ := hk.resolve_left fun hk' => hk' (hrk.symm.trans hlife)
      simp [isCompletion, lifecycleFact_encode hlife (hrp.trans hd)]
    · exact not_completion_of_neutral (isNeutral_of_kind hlife)
  refine ⟨fun code exitCode detail hp => ?_, fun c hc hcc => ?_⟩
  · rw [hstatus, hexit]
    exact h.parked code exitCode detail (hpending.symm.trans hp)
  · rw [hrec] at hc
    rw [hstatus, hexit]
    rcases List.mem_append.mp hc with hc | hc
    · exact h.recorded c hc hcc
    · rw [List.mem_singleton.mp hc, hnot] at hcc
      cases hcc

theorem pollAcks (h : RecordedOutcome rt) : RecordedOutcome rt.pollAcks := h.congr rfl rfl rfl rfl

theorem requestSync (h : RecordedOutcome rt) : RecordedOutcome rt.requestSync := by
  have hsame := requestSync_sameCore rt.journal.journal
  refine h.congr ?_ rfl rfl rfl
  rw [records, SessionRuntime.requestSync, hsame.published, records]

/-- **The completion is recorded** as the runtime has it. -/
theorem terminalEnd (h : RecordedOutcome rt) {turn : Turn} {code : LifecycleCode} {exitCode : Option ExitCode}
    {detail : Bytes} (hidle : Idle rt.journal.journal)
    (hend : rt.journalTerminalEnd R turn code exitCode detail = some rt')
    (hcode : completionCode rt.status = some code) (hexit : rt.exitCode = exitCode)
    (hne : exitCode ≠ some noExitCode) : RecordedOutcome rt' := by
  obtain ⟨rt₁, hr, rfl, -, -⟩ := journalTerminalEnd_spec hend hidle
  refine RecordedOutcome.requestSync ?_
  have hrest := hr.rest
  have hstatus : rt₁.status = rt.status := by rw [hrest]
  have hpending : rt₁.pendingJournalCompletion = rt.pendingJournalCompletion := by rw [hrest]
  have hexit' : rt₁.exitCode = rt.exitCode := by rw [hrest]
  rcases hr.outcome with ⟨hrec, -⟩ | ⟨r, hrk, hrp, hrec⟩
  · exact h.congr hrec hstatus hpending hexit'
  have hfact := lifecycleFact_encode hrk hrp
  rw [if_neg hne] at hfact
  refine ⟨fun code' exitCode' detail' hp => ?_, fun c hc hcc => ?_⟩
  · rw [hstatus, hexit']
    exact h.parked code' exitCode' detail' (hpending.symm.trans hp)
  · rw [hrec] at hc
    rw [hstatus, hexit']
    rcases List.mem_append.mp hc with hc | hc
    · exact h.recorded c hc hcc
    · rw [List.mem_singleton.mp hc, hexit]
      exact ⟨code, hfact, hcode⟩

/-- **`mark_completed`**, when it keeps the outcome. -/
theorem markCompleted (h : RecordedOutcome rt) (hlife : LifeInv rt) {turn : Turn} {status : SessionStatus}
    {exitCode : Option ExitCode} (hidle : Idle rt.journal.journal)
    (hm : rt.markCompleted R turn status exitCode = some rt')
    (hkeep : rt.endNoted = true → status = rt.status ∧ (exitCode = none ∨ exitCode = rt.exitCode))
    (hne : rt.ended = false → completionCode status ≠ none → exitCode ≠ some noExitCode) : RecordedOutcome rt' := by
  have hnote : RecordedOutcome (rt.noteCompleted status exitCode) := by
    rcases hnoted : rt.endNoted with _ | _
    · exact of_unnoted hnoted
    · obtain ⟨hstatus, hexit⟩ := hkeep hnoted
      refine h.congr rfl hstatus rfl ?_
      show exitCode.or rt.exitCode = rt.exitCode
      rcases hexit with rfl | rfl
      · rfl
      · exact Option.or_self
  rcases markCompleted_cases hm with ⟨-, rfl⟩ | ⟨code, hended, hcode, hrest⟩
  · exact hnote
  have hexit : (rt.noteCompleted status exitCode).exitCode = exitCode := by
    show exitCode.or rt.exitCode = exitCode
    rw [(hlife.notEnded hended).2.1, Option.or_none]
  have hne' := hne hended (by rw [hcode]; nofun)
  rcases hrest with ⟨-, hend⟩ | ⟨-, rfl⟩
  · exact hnote.terminalEnd hidle hend hcode hexit hne'
  · refine ⟨fun code' exitCode' detail' hp => ?_, hnote.recorded⟩
    cases hp
    exact ⟨hcode, hexit, hne'⟩

theorem refreshStatus (h : RecordedOutcome rt) (hlife : LifeInv rt) {turn : Turn} {child : TryWait}
    {completed : Bool} (hidle : Idle rt.journal.journal)
    (hf : rt.refreshStatus R turn child = some (rt', completed))
    (hne : ∀ code, child = .exited code → rt.isCompleted = false → rt.ended = false → code ≠ noExitCode) :
    RecordedOutcome rt' ∧ (completed = false → rt'.endNoted = false) := by
  rcases refreshStatus_cases hf with ⟨-, hc, rfl⟩ | ⟨hrun, hc, status, exitCode, hm, hexit⟩ | ⟨hrun, -, rfl⟩
  · exact ⟨h.pollAcks, fun hc' => absurd (hc.symm.trans hc') (by decide)⟩
  · refine ⟨h.pollAcks.markCompleted hlife.pollAcks ⟨hidle.closed, hidle.waiting⟩ hm (fun hnoted => ?_)
      fun hended _ hexit' => ?_, fun hc' => absurd (hc.symm.trans hc') (by decide)⟩
    · rw [h.pollAcks.unnoted_of_running hrun] at hnoted
      cases hnoted
    · exact hne _ (hexit _ hexit') hrun hended rfl
  · have hun := h.pollAcks.unnoted_of_running hrun
    have hun' : ∀ status, SessionRuntime.endNoted { rt.pollAcks with status := status } = false := fun _ => hun
    split
    · exact ⟨h.pollAcks, fun _ => hun⟩
    · exact ⟨of_unnoted (hun' _), fun _ => hun' _⟩

theorem close (h : RecordedOutcome rt) {closed checkpoint completion : Turn} {engine : EngineView} {detail : Bytes}
    {idle : Bool} (hidle : Idle rt.journal.journal)
    (hc : rt.closeOutputStreamAtBoundary R closed checkpoint completion engine detail idle = some rt') :
    RecordedOutcome rt' := by
  rcases close_cases hc hidle with ⟨-, rfl⟩ | ⟨-, rt₁, rt₂, rt₃, hr₁, hr₂, rfl, hend⟩
  · exact h
  have hopen : RecordedOutcome { rt with outputClosed := true } := h.congr rfl rfl rfl rfl
  have h₁ := hopen.neutral hr₁ (.inr ⟨detail, rfl⟩)
  have h₂ := h₁.neutral hr₂ (.inl (by decide))
  have h₃ : RecordedOutcome { rt₂ with lastJournalCheckpointAt := rt₂.filteredTotalBytes } := h₂.congr rfl rfl rfl rfl
  rcases hend with ⟨-, rfl⟩ | ⟨code, exitCode, completionDetail, hp, hterm⟩
  · exact h₃
  · obtain ⟨hcode, hexit, hne⟩ := h₃.parked code exitCode completionDetail hp
    have h₄ : RecordedOutcome { rt₂ with
        lastJournalCheckpointAt := rt₂.filteredTotalBytes, pendingJournalCompletion := none } := ⟨nofun, h₃.recorded⟩
    exact terminalEnd h₄ hr₂.evolves.idle hterm hcode hexit hne

theorem resizePty (h : RecordedOutcome rt) {turn : Turn} {rows cols : ℕ} {resized : Bool}
    (hidle : Idle rt.journal.journal) (hz : rt.resizePty R turn rows cols resized = some rt') :
    RecordedOutcome rt' := by
  rcases resizePty_spec hz hidle with rfl | hr
  · exact h
  · have hsize : RecordedOutcome { rt with ptySize := some (rows, cols) } := h.congr rfl rfl rfl rfl
    exact hsize.neutral hr (.inl (by decide))

theorem prune (h : RecordedOutcome rt) : RecordedOutcome rt.prune := by
  unfold SessionRuntime.prune
  split
  · dsimp only
    split
    · exact h.pollAcks
    · exact h.pollAcks.requestSync
  · exact h

theorem read (h : RecordedOutcome rt) {chunk filtered : Bytes} {meaningfulLen : ℕ} {idle : Bool}
    {engine : EngineView} {modes : Pump.ModeSnapshot} {output policy checkpoint : Turn}
    (hidle : Idle rt.journal.journal)
    (hrt : LiveSession.readLocked R rt chunk filtered meaningfulLen idle engine modes output policy checkpoint =
      some rt') : RecordedOutcome rt' := by
  obtain ⟨rt₁, rt₂, rt₃, rt₄, hs, rfl⟩ := LiveSession.readLocked_cases hrt hidle
  have h₁ := h.neutral hs.output (.inl (by decide))
  have h₂ : RecordedOutcome rt₂ := by
    rw [hs.push]
    unfold pushOutput
    split
    · exact h₁
    · exact h₁.congr rfl rfl rfl rfl
  have h₃ : RecordedOutcome rt₃ := by
    rcases hs.modes with heq | ⟨m, hm, heq⟩
    · rw [heq]
      exact h₂
    · rw [heq]
      exact (h₂.neutral hm (.inl (by decide))).congr rfl rfl rfl rfl
  have h₄ : RecordedOutcome rt₄ := by
    rcases hs.checkpoint with heq | ⟨m, hm, heq⟩
    · rw [heq]
      exact h₃
    · rw [heq]
      exact (h₃.neutral hm (.inl (by decide))).congr rfl rfl rfl rfl
  split
  · exact h₄.congr rfl rfl rfl rfl
  · exact h₄

end RecordedOutcome

/-! ### Whole runs -/

/-- What the session keeps of its life. -/
structure EndInv (s : LiveSession) : Prop where
  idle : Idle s.rt.journal.journal
  life : LifeInv s.rt
  reader : s.reader ≠ .stopped → s.rt.outputClosed = false

section Steps

open SessionRuntime LiveSession

variable {bare : Bool} {R : LineReader} {s t : LiveSession}

theorem terminalEnd_closed {rt rt' : SessionRuntime} {turn : Turn} {code : LifecycleCode}
    {exitCode : Option ExitCode} {detail : Bytes} (hidle : Idle rt.journal.journal)
    (h : rt.journalTerminalEnd R turn code exitCode detail = some rt') : rt'.outputClosed = rt.outputClosed := by
  obtain ⟨rt₁, hr, rfl, -, -⟩ := journalTerminalEnd_spec h hidle
  show rt₁.outputClosed = rt.outputClosed
  rw [hr.rest]

theorem markCompleted_closed {rt rt' : SessionRuntime} {turn : Turn} {status : SessionStatus}
    {exitCode : Option ExitCode} (hidle : Idle rt.journal.journal)
    (h : rt.markCompleted R turn status exitCode = some rt') : rt'.outputClosed = rt.outputClosed := by
  rcases markCompleted_cases h with ⟨-, rfl⟩ | ⟨code, -, -, ⟨-, hend⟩ | ⟨-, rfl⟩⟩
  · rfl
  · exact @terminalEnd_closed R (rt.noteCompleted status exitCode) _ _ _ _ _ hidle hend
  · rfl

theorem refreshStatus_closed {rt rt' : SessionRuntime} {turn : Turn} {child : TryWait} {completed : Bool}
    (hidle : Idle rt.journal.journal) (h : rt.refreshStatus R turn child = some (rt', completed)) :
    rt'.outputClosed = rt.outputClosed := by
  rcases refreshStatus_cases h with ⟨-, -, rfl⟩ | ⟨-, -, status, exitCode, hm, -⟩ | ⟨-, -, rfl⟩
  · rfl
  · exact @markCompleted_closed R rt.pollAcks _ _ _ _ ⟨hidle.closed, hidle.waiting⟩ hm
  · split <;> rfl

/-- **One step**, whatever the outcomes are. -/
theorem endInv_step {action : LiveSession.Action} (h : EndInv s) (hstep : s.step bare R action = some t) : EndInv t := by
  have hidle := (step_advances hstep h.idle).idle
  have hs := step_cases hstep
  cases action with
  | background action =>
    obtain ⟨l, hl, rfl⟩ := hs
    obtain ⟨hev, hrec⟩ := background_advances hl h.idle
    exact ⟨hidle, h.life.congr hrec hev.keeps rfl rfl rfl rfl, h.reader⟩
  | read chunk engine modes output policy checkpoint =>
    obtain ⟨⟨hreader, -⟩, rt', hrt, rfl⟩ := hs
    obtain ⟨hlife, hopen⟩ := h.life.read h.idle (h.reader (by rw [hreader]; nofun)) hrt
    exact ⟨hidle, hlife, fun _ => hopen⟩
  | send =>
    obtain ⟨chunk, hreader, rfl⟩ := hs
    exact ⟨hidle, h.life, fun _ => h.reader (by rw [hreader]; nofun)⟩
  | hangup detail =>
    obtain ⟨hreader, rfl⟩ := hs
    exact ⟨hidle, h.life, fun _ => h.reader (by rw [hreader]; nofun)⟩
  | close engine closed checkpoint completion =>
    obtain ⟨detail, rt', -, hrt, rfl⟩ := hs
    exact ⟨hidle, h.life.close h.idle hrt, fun hne => absurd rfl hne⟩
  | closeAgain engine closed checkpoint completion detail idle =>
    obtain ⟨-, rfl⟩ := hs
    exact h
  | refresh turn child =>
    obtain ⟨rt', completed, hrt, rfl⟩ := hs
    exact ⟨hidle, h.life.refreshStatus h.idle hrt, fun hne => (refreshStatus_closed h.idle hrt).trans (h.reader hne)⟩
  | terminate turn child requested =>
    obtain ⟨rt', hrt, rfl⟩ := hs
    obtain ⟨rt₁, completed, h₁, rfl⟩ := terminate_cases hrt
    have hlife := h.life.refreshStatus h.idle h₁
    have hclosed := refreshStatus_closed h.idle h₁
    refine ⟨hidle, ?_, fun hne => ?_⟩
    · dsimp only
      split
      · exact hlife
      · exact hlife.congr rfl id rfl rfl rfl rfl
    · refine Eq.trans ?_ (hclosed.trans (h.reader hne))
      dsimp only
      split <;> rfl
  | markCompleted turn status exitCode =>
    obtain ⟨rt', hrt, rfl⟩ := hs
    exact ⟨hidle, h.life.markCompleted h.idle hrt, fun hne => (markCompleted_closed h.idle hrt).trans (h.reader hne)⟩
  | resize turn rows cols resized =>
    obtain ⟨rt', hrt, rfl⟩ := hs
    refine ⟨hidle, h.life.resizePty h.idle hrt, fun hne => ?_⟩
    rcases resizePty_spec hrt h.idle with rfl | hr
    · exact h.reader hne
    · show rt'.outputClosed = false
      rw [hr.rest]
      exact h.reader hne
  | prune =>
    cases hs
    refine ⟨hidle, h.life.prune, fun hne => ?_⟩
    show s.rt.prune.outputClosed = false
    unfold SessionRuntime.prune
    split
    · dsimp only
      split <;> exact h.reader hne
    · exact h.reader hne

/-- **One step that keeps the outcome.** -/
theorem recordedOutcome_step {action : LiveSession.Action} (h : EndInv s) (ho : RecordedOutcome s.rt)
    (hkeep : KeepsOutcome s action) (hstep : s.step bare R action = some t) : RecordedOutcome t.rt := by
  have hs := step_cases hstep
  cases action with
  | background action =>
    obtain ⟨l, hl, rfl⟩ := hs
    obtain ⟨-, hrec⟩ := background_advances hl h.idle
    exact ho.congr hrec rfl rfl rfl
  | read chunk engine modes output policy checkpoint =>
    obtain ⟨-, rt', hrt, rfl⟩ := hs
    exact ho.read h.idle hrt
  | send =>
    obtain ⟨chunk, -, rfl⟩ := hs
    exact ho
  | hangup detail =>
    obtain ⟨-, rfl⟩ := hs
    exact ho
  | close engine closed checkpoint completion =>
    obtain ⟨detail, rt', -, hrt, rfl⟩ := hs
    exact ho.close h.idle hrt
  | closeAgain engine closed checkpoint completion detail idle =>
    obtain ⟨-, rfl⟩ := hs
    exact ho
  | refresh turn child =>
    obtain ⟨rt', completed, hrt, rfl⟩ := hs
    refine (ho.refreshStatus h.life h.idle hrt fun code hchild => ?_).1
    subst hchild
    exact hkeep
  | terminate turn child requested =>
    obtain ⟨rt', hrt, rfl⟩ := hs
    obtain ⟨rt₁, completed, h₁, rfl⟩ := terminate_cases hrt
    obtain ⟨hout, hun⟩ := ho.refreshStatus h.life h.idle h₁ fun code hchild => by subst hchild; exact hkeep
    dsimp only
    rcases completed with _ | _
    · exact .of_unnoted (hun rfl)
    · exact hout
  | markCompleted turn status exitCode =>
    obtain ⟨rt', hrt, rfl⟩ := hs
    exact ho.markCompleted h.life h.idle hrt hkeep.1 hkeep.2
  | resize turn rows cols resized =>
    obtain ⟨rt', hrt, rfl⟩ := hs
    exact ho.resizePty h.idle hrt
  | prune =>
    cases hs
    exact ho.prune

theorem endInv_spawn {N maxPartBytes rows cols : ℕ} {disk : Dir} {pid : Bytes} {geometry started : Turn}
    (h : spawn R (Live.opened N maxPartBytes disk) rows cols pid geometry started = some s) :
    EndInv s ∧ RecordedOutcome s.rt := by
  obtain ⟨heq, -, hidle, new, hnew, hall⟩ := spawn_spec h ⟨rfl, rfl⟩
  have hrec : s.rt.records = new := hnew
  have hneutral : ∀ r ∈ s.rt.records, isNeutral r = true := by
    rw [hrec]
    exact fun r hr => isNeutral_start (hall r hr)
  have hfields : s.rt.outputClosed = false ∧ s.rt.pendingJournalCompletion = none ∧ s.rt.exitCode = none := by
    rw [heq]
    exact ⟨rfl, rfl, rfl⟩
  obtain ⟨hopen, hpending, hexit⟩ := hfields
  have hnone : ∀ r ∈ s.rt.records, isCompletion r = false := fun r hr => not_completion_of_neutral (hneutral r hr)
  have hclosed : ∀ r ∈ s.rt.records, isOutputClosed r = false := fun r hr => not_closed_of_neutral (hneutral r hr)
  have hmid : ∀ pre (r : Record) post, s.rt.records = pre ++ r :: post → r ∈ s.rt.records := fun pre r post hsplit => by
    rw [hsplit]
    exact List.mem_append_right _ List.mem_cons_self
  have hfilter : ∀ {p : Record → Bool}, (∀ r ∈ s.rt.records, p r = false) → (s.rt.records.filter p).length ≤ 1 := by
    intro p hp
    rw [List.filter_eq_nil_iff.mpr fun r hr => by rw [hp r hr]; decide]
    exact Nat.zero_le _
  refine ⟨⟨hidle, ⟨⟨hfilter hclosed, hfilter hnone, fun pre r post hsplit hr => ?_, fun pre r post hsplit hr => ?_⟩,
    fun _ => hneutral, fun hc => ?_, fun _ => ⟨hpending, hexit, hnone⟩, fun code exitCode detail hp => ?_⟩,
    fun _ => hopen⟩, fun code exitCode detail hp => ?_, fun r hr hc => ?_⟩
  · rw [hnone r (hmid pre r post hsplit)] at hr
    cases hr
  · rw [hclosed r (hmid pre r post hsplit)] at hr
    cases hr
  · rw [hopen] at hc
    cases hc
  · rw [hpending] at hp
    cases hp
  · rw [hpending] at hp
    cases hp
  · rw [hnone r hr] at hc
    cases hc

end Steps

instance (s : LiveSession) : ∀ action, Decidable (KeepsOutcome s action)
  | .markCompleted _ status exitCode => inferInstanceAs (Decidable
      ((s.rt.endNoted = true → status = s.rt.status ∧ (exitCode = none ∨ exitCode = s.rt.exitCode)) ∧
        (s.rt.ended = false → SessionRuntime.completionCode status ≠ none → exitCode ≠ some noExitCode)))
  | .refresh _ (.exited code) | .terminate _ (.exited code) _ => inferInstanceAs (Decidable
      (s.rt.isCompleted = false → s.rt.ended = false → code ≠ noExitCode))
  | .refresh _ .running | .refresh _ .error | .terminate _ .running _ | .terminate _ .error _ | .background _
  | .read _ _ _ _ _ _ | .send | .hangup _ | .close _ _ _ _ | .closeAgain _ _ _ _ _ _ | .resize _ _ _ _
  | .prune => .isTrue trivial

open LiveSession in
/-- **A session's end in the journal.** In every run the close and the completion
are recorded at most once each and in this order, and no output behind the close.
If no outcome is replaced by another one, the completion record has the runtime's
status and exit code. -/
theorem end_of_life {bare : Bool} {R : LineReader} {N maxPartBytes rows cols : ℕ} {disk : Dir} {pid : Bytes}
    {geometry started : Turn} {s₀ s : LiveSession} {as : List LiveSession.Action}
    (hspawn : spawn R (Live.opened N maxPartBytes disk) rows cols pid geometry started = some s₀)
    (hrun : Runs.run (step bare R) s₀ as = some s) :
    EndOrder s.rt.records ∧ (Runs.Meets (step bare R) KeepsOutcome s₀ as →
      ∀ r ∈ s.rt.records, isCompletion r = true →
        ∃ code, lifecycleFact r = some (code, s.rt.exitCode) ∧
          SessionRuntime.completionCode s.rt.status = some code) := by
  obtain ⟨hend, hout⟩ := endInv_spawn hspawn
  refine ⟨(Runs.run_invariant (fun h hstep => endInv_step h hstep) hrun hend).life.order, fun hkeeps => ?_⟩
  refine (Runs.run_invariant_of_meets (I := fun s => EndInv s ∧ RecordedOutcome s.rt) ?_ hrun hkeeps ⟨hend, hout⟩).2.recorded
  exact fun h hkeep hstep => ⟨endInv_step h.1 hstep, recordedOutcome_step h.1 h.2 hkeep hstep⟩

def noView : EngineView := ⟨24, 80, (0, 0), false, false, false, [], []⟩

/-- The output ends, and the child exits. -/
def endRun : List LiveSession.Action :=
  [.hangup [], .close noView .quiet .quiet .quiet, .refresh .quiet (.exited 0)]

theorem end_of_life_exit : ∃ s₀ s,
    LiveSession.spawn exactReader (Live.opened 1 4096 (freshDir 1)) 24 80 [55] .quiet .quiet = some s₀ ∧
    Runs.run (LiveSession.step false exactReader) s₀ endRun = some s ∧ s.rt.status = .stopped ∧
    s.rt.records.any isCompletion = true ∧ EndOrder s.rt.records ∧
    ∀ r ∈ s.rt.records, isCompletion r = true → ∃ code, lifecycleFact r = some (code, s.rt.exitCode) ∧
      SessionRuntime.completionCode s.rt.status = some code := by
  have hrun : (runFresh .quiet endRun).any
      (fun s => decide (s.rt.status = .stopped ∧ s.rt.records.any isCompletion = true)) = true := by
    decide +kernel
  obtain ⟨s, hs, hp⟩ := (Option.any_eq_true _ _).mp hrun
  obtain ⟨s₀, hs₀, hs'⟩ := Option.bind_eq_some_iff.mp hs
  obtain ⟨hstatus, hany⟩ := of_decide_eq_true hp
  have hkeeps : Runs.Meets (LiveSession.step false exactReader) KeepsOutcome s₀ endRun := by
    cases hs₀
    decide +kernel
  obtain ⟨horder, hout⟩ := end_of_life hs₀ hs'
  exact ⟨s₀, s, hs₀, hs', hstatus, hany, horder, hout hkeeps⟩

/-- A second outcome replaces the first one, which is in the journal. -/
theorem outcome_overwritten : ∃ s,
    runFresh .quiet (endRun ++ [.markCompleted .quiet .failed none]) = some s ∧ s.rt.isDegraded = false ∧
      s.rt.status = .failed ∧ ∃ r ∈ s.rt.records, lifecycleFact r = some (.stopped, some 0) := by
  have hrun : (runFresh .quiet (endRun ++ [.markCompleted .quiet .failed none])).any
      (fun s => decide (s.rt.isDegraded = false ∧ s.rt.status = .failed) &&
        s.rt.records.any fun r => lifecycleFact r == some (.stopped, some 0)) = true := by
    decide +kernel
  obtain ⟨s, hs, hp⟩ := (Option.any_eq_true _ _).mp hrun
  rw [Bool.and_eq_true] at hp
  obtain ⟨hok, hstatus⟩ := of_decide_eq_true hp.1
  obtain ⟨r, hr, hfact⟩ := List.any_eq_true.mp hp.2
  exact ⟨s, hs, hok, hstatus, r, hr, beq_iff_eq.mp hfact⟩

end Session
end OpenRelay
