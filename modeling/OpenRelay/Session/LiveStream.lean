/-
# The live stream and its replay

The reader counts the filtered stream as it scans; a replay derives the same
stream from the journaled records with a scanner of its own. While the journal is
not degraded the two agree (`Synced`): the counter is the length of the derived
stream, the scanner holds what a replay's scanner would hold, and so every chunk
that is broadcast is the derived stream at its offset, and every anchored
checkpoint has the offset of its place (`live_stream_agrees`).

Once the core is degraded nothing more is published, so what the journal has keeps
its anchors (`Synced.anchored`).

Key theorem: `streamInv_step`.
-/
import OpenRelay.Session.Runtime

namespace OpenRelay
namespace Session

open Journal Pty Streams
open Pump (ModeSnapshot SequencedChunk)

/-! ### Records at the end of the stream -/

section Snoc

variable {bare : Bool} {rs : List Record} {r : Record}

theorem scanChunks_single (s : PtyScanner) (c : Bytes) :
    (scanChunks bare s [c]).1 = (s.scan bare c).1 ∧ (scanChunks bare s [c]).2.filtered = (s.scan bare c).2.filtered := by
  simp [scanChunks, ScanOut.append, ScanOut.empty]

/-- An output record adds what a scanner makes of it that holds what is held. -/
theorem stream_snoc {s : PtyScanner} (hs : s.pending = held bare rs) (hr : r.kind = .output) :
    stream bare (rs ++ [r]) = stream bare rs ++ (s.scan bare r.payload).2.filtered ∧
      held bare (rs ++ [r]) = (s.scan bare r.payload).1.pending := by
  have hout : outputs [r] = [r.payload] := by rw [outputs_cons, if_pos hr]; rfl
  have hheld : (scanChunks bare .new (outputs rs)).1.pending = s.pending := hs.symm
  obtain ⟨hscan, hpend⟩ := scan_of_pending bare hheld r.payload
  obtain ⟨h1, h2⟩ := @scanChunks_single bare (scanChunks bare .new (outputs rs)).1 r.payload
  rw [stream, held, outputs_append, hout, scanChunks_append]
  refine ⟨?_, ?_⟩
  · rw [ScanOut.append, h2, hscan]
    rfl
  · rw [h1, hpend]

theorem stream_snoc_other (hr : r.kind ≠ .output) :
    stream bare (rs ++ [r]) = stream bare rs ∧ held bare (rs ++ [r]) = held bare rs := by
  have hout : outputs [r] = [] := by rw [outputs_cons, if_neg hr]; rfl
  rw [stream, held, outputs_append, hout, List.append_nil]
  exact ⟨rfl, rfl⟩

/-- The anchors stay right if the record is no anchor, or a right one. -/
theorem Anchored.snoc (h : Anchored bare rs) (hr : r.kind = .checkpointRef → ∀ offset,
    filteredOffsetOf r.payload = some offset → 0 < offset → offset = (stream bare rs).length ∧ held bare rs = []) :
    Anchored bare (rs ++ [r]) := by
  intro pre r' post heq hkind offset hoff hpos
  rcases snoc_cases heq with ⟨rfl, rfl, -⟩ | ⟨post', rfl, -⟩
  · exact hr hkind offset hoff hpos
  · exact h pre r' post' rfl hkind offset hoff hpos

end Snoc

/-! ### The counters and the scanner -/

/-- The anchors among the published records are right; and while the core is
healthy the scanner and the counter are where a replay of the records would be. -/
structure Synced (bare : Bool) (pending : Bytes) (rt : SessionRuntime) : Prop where
  anchored : Anchored bare rt.records
  bound : rt.filteredTotalBytes < 2 ^ 64
  counted : (stream bare rt.records).length ≤ rt.filteredTotalBytes
  pending : rt.isDegraded = false → pending = held bare rt.records
  total : rt.isDegraded = false → rt.filteredTotalBytes = (stream bare rt.records).length

section Synced

open SessionRuntime

variable {bare : Bool} {pending : Bytes} {R : LineReader} {rt rt' : SessionRuntime} {kind : RecordKind} {payload : Bytes}

theorem healthy_of_evolves (h : Advances R rt rt') (hok : rt'.isDegraded = false) : rt.isDegraded = false := by
  by_contra hbad
  rw [Bool.not_eq_false] at hbad
  rw [h.keeps hbad] at hok
  cases hok

/-- Neither the records nor the counter are concerned. -/
theorem Synced.congr (h : Synced bare pending rt) (hrec : rt'.records = rt.records)
    (htotal : rt'.filteredTotalBytes = rt.filteredTotalBytes)
    (hok : rt'.isDegraded = false → rt.isDegraded = false) : Synced bare pending rt' := by
  refine ⟨?_, ?_, ?_, fun h' => ?_, fun h' => ?_⟩
  · rw [hrec]; exact h.anchored
  · rw [htotal]; exact h.bound
  · rw [hrec, htotal]; exact h.counted
  · rw [hrec]; exact h.pending (hok h')
  · rw [hrec, htotal]; exact h.total (hok h')

/-- Only a healthy core publishes. -/
theorem healthy_of_published (hr : Recorded R rt rt' kind payload) {r : Record} (h : rt'.records = rt.records ++ [r]) :
    rt.isDegraded = false := by
  by_contra hbad
  rw [Bool.not_eq_false] at hbad
  have hlen := congrArg List.length ((hr.evolves.silent hbad).symm.trans h)
  rw [List.length_append, List.length_singleton] at hlen
  omega

/-- A record that is no output and, if it is a checkpoint, a right one. -/
theorem Synced.recorded (h : Synced bare pending rt) (hr : Recorded R rt rt' kind payload) (hk : kind ≠ .output)
    (hanchor : kind = .checkpointRef → rt.isDegraded = false → ∀ offset, filteredOffsetOf payload = some offset →
      0 < offset → offset = (stream bare rt.records).length ∧ held bare rt.records = []) :
    Synced bare pending rt' := by
  have htotal : rt'.filteredTotalBytes = rt.filteredTotalBytes := by rw [hr.rest]
  have hok := healthy_of_evolves hr.evolves.toAdvances
  rcases hr.outcome with ⟨hrec, -⟩ | ⟨r, hrk, hrp, hrec⟩
  · exact h.congr hrec htotal hok
  have hwas := healthy_of_published hr hrec
  obtain ⟨hstream, hheld⟩ := @stream_snoc_other bare rt.records r (by rw [hrk]; exact hk)
  refine ⟨?_, by rw [htotal]; exact h.bound, by rw [hrec, hstream, htotal]; exact h.counted, fun _ => ?_, fun _ => ?_⟩
  · rw [hrec]
    refine h.anchored.snoc fun hcheck => ?_
    rw [hrp]
    exact hanchor (hrk.symm.trans hcheck) hwas
  · rw [hrec, hheld]
    exact h.pending hwas
  · rw [hrec, hstream, htotal]
    exact h.total hwas

/-- The runtime's own checkpoints are right. -/
theorem Synced.checkpoint (h : Synced bare pending rt) (engine : EngineView) {idle : Bool}
    (hidle : idle = true → pending = []) (hr : Recorded R rt rt' .checkpointRef
      (encodeCheckpoint (rt.checkpoint engine idle))) : Synced bare pending rt' := by
  refine h.recorded hr (by decide) fun _ hwas offset hoff hpos => ?_
  have hlt : (rt.checkpoint engine idle).filteredOffset < 2 ^ 64 := by
    unfold SessionRuntime.checkpoint
    dsimp only
    split
    · exact h.bound
    · decide
  rw [filteredOffset_encode hlt, Option.some.injEq] at hoff
  rcases hi : idle with _ | _
  · rw [hi] at hoff
    rw [← hoff] at hpos
    cases hpos
  · rw [hi] at hoff
    refine ⟨?_, ?_⟩
    · rw [← hoff]
      exact h.total hwas
    · rw [← h.pending hwas]
      exact hidle hi

theorem Synced.terminalEnd (h : Synced bare pending rt) {turn : Turn} {code : LifecycleCode}
    {exitCode : Option ExitCode} {detail : Bytes} (hidle : Idle rt.journal.journal)
    (hend : rt.journalTerminalEnd R turn code exitCode detail = some rt') : Synced bare pending rt' := by
  obtain ⟨rt₁, hr, rfl, -, hrec⟩ := journalTerminalEnd_spec hend hidle
  have h₁ := h.recorded hr (by decide) nofun
  refine h₁.congr hrec rfl ?_
  exact healthy_of_evolves (@requestSync_spec R rt₁ hr.evolves.idle).1.toAdvances

theorem Synced.markCompleted (h : Synced bare pending rt) {turn : Turn} {status : SessionStatus}
    {exitCode : Option ExitCode} (hidle : Idle rt.journal.journal)
    (hm : rt.markCompleted R turn status exitCode = some rt') : Synced bare pending rt' := by
  have hnote : Synced bare pending (rt.noteCompleted status exitCode) := h.congr rfl rfl id
  rcases markCompleted_cases hm with ⟨-, rfl⟩ | ⟨code, -, -, ⟨-, hend⟩ | ⟨-, rfl⟩⟩
  · exact hnote
  · exact hnote.terminalEnd hidle hend
  · exact h.congr rfl rfl id

theorem Synced.pollAcks (h : Synced bare pending rt) : Synced bare pending rt.pollAcks := by
  refine h.congr rfl rfl fun hok => ?_
  by_contra hbad
  rw [Bool.not_eq_false] at hbad
  exact Bool.false_ne_true (hok.symm.trans (isDegraded_notes hbad _))

theorem Synced.refreshStatus (h : Synced bare pending rt) {turn : Turn} {child : TryWait} {completed : Bool}
    (hidle : Idle rt.journal.journal) (hf : rt.refreshStatus R turn child = some (rt', completed)) :
    Synced bare pending rt' := by
  have hpoll := h.pollAcks
  rcases refreshStatus_cases hf with ⟨-, -, rfl⟩ | ⟨-, -, status, exitCode, hm, -⟩ | ⟨-, -, rfl⟩
  · exact hpoll
  · exact hpoll.markCompleted ⟨hidle.closed, hidle.waiting⟩ hm
  · split
    · exact hpoll
    · exact hpoll.congr rfl rfl id

theorem Synced.close (h : Synced bare pending rt) {closed checkpoint completion : Turn} {engine : EngineView}
    {detail : Bytes} {idle : Bool} (hpend : idle = true → pending = []) (hidle : Idle rt.journal.journal)
    (hc : rt.closeOutputStreamAtBoundary R closed checkpoint completion engine detail idle = some rt') :
    Synced bare pending rt' := by
  rcases close_cases hc hidle with ⟨-, rfl⟩ | ⟨-, rt₁, rt₂, rt₃, hr₁, hr₂, rfl, hend⟩
  · exact h
  · have hopen : Synced bare pending { rt with outputClosed := true } := h.congr rfl rfl id
    have h₁ := hopen.recorded hr₁ (by decide) nofun
    have h₂ := h₁.checkpoint engine hpend hr₂
    have h₃ : Synced bare pending { rt₂ with lastJournalCheckpointAt := rt₂.filteredTotalBytes } :=
      h₂.congr rfl rfl id
    rcases hend with ⟨-, rfl⟩ | ⟨code, exitCode, completionDetail, -, hterm⟩
    · exact h₃
    · refine Synced.terminalEnd ?_ ?_ hterm
      · exact h₃.congr rfl rfl id
      · exact hr₂.evolves.idle

theorem Synced.resizePty (h : Synced bare pending rt) {turn : Turn} {rows cols : ℕ} {resized : Bool}
    (hidle : Idle rt.journal.journal) (hz : rt.resizePty R turn rows cols resized = some rt') :
    Synced bare pending rt' := by
  rcases resizePty_spec hz hidle with rfl | hr
  · exact h
  · have hsize : Synced bare pending { rt with ptySize := some (rows, cols) } := h.congr rfl rfl id
    exact hsize.recorded hr (by decide) nofun

theorem Synced.requestSync (h : Synced bare pending rt) : Synced bare pending rt.requestSync := by
  have hsame := requestSync_sameCore rt.journal.journal
  refine h.congr ?_ rfl fun hok => ?_
  · rw [records, SessionRuntime.requestSync, hsame.published, records]
  · rw [isDegraded, SessionRuntime.requestSync, hsame.core] at hok
    exact hok

theorem Synced.prune (h : Synced bare pending rt) : Synced bare pending rt.prune := by
  unfold SessionRuntime.prune
  split
  · dsimp only
    split
    · exact h.pollAcks
    · exact h.pollAcks.requestSync
  · exact h

/-- **The chunk of a read.** The scanner has gone over what is journaled. -/
theorem Synced.output {s : PtyScanner} (h : Synced bare s.pending rt) {chunk : Bytes}
    (hlt : rt.filteredTotalBytes + (s.scan bare chunk).2.filtered.length < 2 ^ 64)
    (hr : Recorded R rt rt' .output chunk) (n : ℕ) :
    Synced bare (s.scan bare chunk).1.pending (rt'.pushOutput (s.scan bare chunk).2.filtered n) ∧
      (rt'.isDegraded = false →
        stream bare rt'.records = stream bare rt.records ++ (s.scan bare chunk).2.filtered) := by
  have hsame : rt'.filteredTotalBytes = rt.filteredTotalBytes := by rw [hr.rest]
  have htotal := @pushOutput_filtered rt' (s.scan bare chunk).2.filtered n (by rw [hsame]; exact hlt)
  rw [hsame] at htotal
  have hjournal := (@pushOutput_journal rt' (s.scan bare chunk).2.filtered n).1
  have hrec : (rt'.pushOutput (s.scan bare chunk).2.filtered n).records = rt'.records := by
    rw [records, hjournal, records]
  have hdeg : (rt'.pushOutput (s.scan bare chunk).2.filtered n).isDegraded = rt'.isDegraded := by
    rw [isDegraded, hjournal, isDegraded]
  rcases hr.outcome with ⟨hrec', hbad⟩ | ⟨r, hk, hp, hrec'⟩
  · refine ⟨⟨?_, by rw [htotal]; exact hlt, ?_, fun hok => ?_, fun hok => ?_⟩, fun hok => ?_⟩
    · rw [hrec, hrec']
      exact h.anchored
    · rw [hrec, hrec', htotal]
      exact h.counted.trans (Nat.le_add_right _ _)
    · rw [hdeg, hbad] at hok
      cases hok
    · rw [hdeg, hbad] at hok
      cases hok
    · rw [hbad] at hok
      cases hok
  · have hwas := healthy_of_published hr hrec'
    obtain ⟨hstream, hheld⟩ : stream bare rt'.records = stream bare rt.records ++ (s.scan bare chunk).2.filtered ∧
        held bare rt'.records = (s.scan bare chunk).1.pending := by
      rw [hrec', ← hp]
      exact stream_snoc (h.pending hwas) hk
    have hlen : (stream bare rt'.records).length = rt.filteredTotalBytes + (s.scan bare chunk).2.filtered.length := by
      rw [hstream, List.length_append, h.total hwas]
    refine ⟨⟨?_, by rw [htotal]; exact hlt, by rw [hrec, hlen, htotal], fun _ => ?_, fun _ => ?_⟩, fun _ => hstream⟩
    · rw [hrec, hrec']
      refine h.anchored.snoc fun hcheck => ?_
      rw [hk] at hcheck
      cases hcheck
    · rw [hrec, hheld]
    · rw [hrec, hlen, htotal]

/-- **A read.** -/
theorem Synced.read {s : PtyScanner} (h : Synced bare s.pending rt) {chunk : Bytes} {engine : EngineView}
    {modes : ModeSnapshot} {rt₁ rt₂ rt₃ rt₄ : SessionRuntime}
    (hlt : rt.filteredTotalBytes + (s.scan bare chunk).2.filtered.length < 2 ^ 64)
    (hs : LiveSession.ReadSteps R rt rt₁ rt₂ rt₃ rt₄ chunk (s.scan bare chunk).2.filtered
      (s.scan bare chunk).2.meaningfulBytes (s.scan bare chunk).1.isIdle engine modes) :
    Synced bare (s.scan bare chunk).1.pending rt₄ ∧
      rt₄.filteredTotalBytes = rt.filteredTotalBytes + (s.scan bare chunk).2.filtered.length ∧
      (rt₄.isDegraded = false →
        stream bare rt₄.records = stream bare rt.records ++ (s.scan bare chunk).2.filtered) := by
  have hsame : rt₁.filteredTotalBytes = rt.filteredTotalBytes := by rw [hs.output.rest]
  obtain ⟨h₂, hstream⟩ := h.output hlt hs.output (s.scan bare chunk).2.meaningfulBytes
  rw [← hs.push] at h₂
  have htotal₂ : rt₂.filteredTotalBytes = rt.filteredTotalBytes + (s.scan bare chunk).2.filtered.length := by
    rw [hs.push, pushOutput_filtered _ _ (by rw [hsame]; exact hlt), hsame]
  obtain ⟨h₃, htotal₃⟩ : Synced bare (s.scan bare chunk).1.pending rt₃ ∧
      rt₃.filteredTotalBytes = rt₂.filteredTotalBytes := by
    rcases hs.modes with heq | ⟨m, hm, heq⟩
    · rw [heq]
      exact ⟨h₂, rfl⟩
    · rw [heq]
      exact ⟨(h₂.recorded hm (by decide) nofun).congr rfl rfl id, by rw [hm.rest]⟩
  obtain ⟨h₄, htotal₄⟩ : Synced bare (s.scan bare chunk).1.pending rt₄ ∧
      rt₄.filteredTotalBytes = rt₃.filteredTotalBytes := by
    rcases hs.checkpoint with heq | ⟨m, hm, heq⟩
    · rw [heq]
      exact ⟨h₃, rfl⟩
    · rw [heq]
      exact ⟨(h₃.checkpoint engine List.isEmpty_iff.mp hm).congr rfl rfl id, by rw [hm.rest]⟩
  refine ⟨h₄, by rw [htotal₄, htotal₃, htotal₂], fun hok => ?_⟩
  -- the modes and the checkpoint add nothing to the stream: its length has not changed
  have hok₁ := healthy_of_evolves hs.rest.toAdvances hok
  have hpre := @stream_mono bare _ _ hs.rest.published
  rw [hstream hok₁] at hpre
  refine (hpre.eq_of_length ?_).symm
  rw [← h₄.total hok, htotal₄, htotal₃, htotal₂, List.length_append,
    h.total (healthy_of_evolves hs.output.evolves.toAdvances hok₁)]

/-! ### The counter outside of reads -/

theorem terminalEnd_total {turn : Turn} {code : LifecycleCode} {exitCode : Option ExitCode} {detail : Bytes}
    (hidle : Idle rt.journal.journal) (h : rt.journalTerminalEnd R turn code exitCode detail = some rt') :
    rt'.filteredTotalBytes = rt.filteredTotalBytes := by
  obtain ⟨rt₁, hr, rfl, -, -⟩ := journalTerminalEnd_spec h hidle
  show rt₁.filteredTotalBytes = rt.filteredTotalBytes
  rw [hr.rest]

theorem markCompleted_total {turn : Turn} {status : SessionStatus} {exitCode : Option ExitCode}
    (hidle : Idle rt.journal.journal) (h : rt.markCompleted R turn status exitCode = some rt') :
    rt'.filteredTotalBytes = rt.filteredTotalBytes := by
  rcases markCompleted_cases h with ⟨-, rfl⟩ | ⟨code, -, -, ⟨-, hend⟩ | ⟨-, rfl⟩⟩
  · rfl
  · exact @terminalEnd_total R (rt.noteCompleted status exitCode) _ _ _ _ _ hidle hend
  · rfl

theorem refreshStatus_total {turn : Turn} {child : TryWait} {completed : Bool} (hidle : Idle rt.journal.journal)
    (h : rt.refreshStatus R turn child = some (rt', completed)) :
    rt'.filteredTotalBytes = rt.filteredTotalBytes := by
  rcases refreshStatus_cases h with ⟨-, -, rfl⟩ | ⟨-, -, status, exitCode, hm, -⟩ | ⟨-, -, rfl⟩
  · rfl
  · exact @markCompleted_total R rt.pollAcks _ _ _ _ ⟨hidle.closed, hidle.waiting⟩ hm
  · split <;> rfl

theorem close_total {closed checkpoint completion : Turn} {engine : EngineView} {detail : Bytes} {idle : Bool}
    (hidle : Idle rt.journal.journal)
    (h : rt.closeOutputStreamAtBoundary R closed checkpoint completion engine detail idle = some rt') :
    rt'.filteredTotalBytes = rt.filteredTotalBytes := by
  rcases close_cases h hidle with ⟨-, rfl⟩ | ⟨-, rt₁, rt₂, rt₃, hr₁, hr₂, rfl, hend⟩
  · rfl
  have h₂ : rt₂.filteredTotalBytes = rt.filteredTotalBytes := by rw [hr₂.rest, hr₁.rest]
  rcases hend with ⟨-, rfl⟩ | ⟨code, exitCode, completionDetail, -, hterm⟩
  · exact h₂
  · refine (terminalEnd_total ?_ hterm).trans h₂
    exact hr₂.evolves.idle

end Synced

/-- The reader takes a chunk. -/
def LiveSession.Action.isRead : LiveSession.Action → Bool
  | .read _ _ _ _ _ _ => true
  | _ => false

/-- Only a read moves the counter. -/
theorem step_total {bare : Bool} {R : LineReader} {s t : LiveSession} {action : LiveSession.Action}
    (hread : action.isRead = false)
    (h : s.step bare R action = some t) (hidle : Idle s.rt.journal.journal) :
    t.rt.filteredTotalBytes = s.rt.filteredTotalBytes := by
  have hs := LiveSession.step_cases h
  cases action with
  | background action =>
    obtain ⟨l, -, rfl⟩ := hs
    rfl
  | read chunk engine modes output policy checkpoint =>
    cases hread
  | send =>
    obtain ⟨chunk, -, rfl⟩ := hs
    rfl
  | hangup detail =>
    obtain ⟨-, rfl⟩ := hs
    rfl
  | close engine closed checkpoint completion =>
    obtain ⟨detail, rt', -, hrt, rfl⟩ := hs
    exact close_total hidle hrt
  | closeAgain engine closed checkpoint completion detail idle =>
    obtain ⟨-, rfl⟩ := hs
    rfl
  | refresh turn child =>
    obtain ⟨rt', completed, hrt, rfl⟩ := hs
    exact refreshStatus_total hidle hrt
  | terminate turn child requested =>
    obtain ⟨rt', hrt, rfl⟩ := hs
    obtain ⟨rt₁, completed, h₁, rfl⟩ := SessionRuntime.terminate_cases hrt
    refine Eq.trans ?_ (refreshStatus_total hidle h₁)
    split <;> rfl
  | markCompleted turn status exitCode =>
    obtain ⟨rt', hrt, rfl⟩ := hs
    exact markCompleted_total hidle hrt
  | resize turn rows cols resized =>
    obtain ⟨rt', hrt, rfl⟩ := hs
    rcases SessionRuntime.resizePty_spec hrt hidle with rfl | hr
    · rfl
    · show rt'.filteredTotalBytes = s.rt.filteredTotalBytes
      rw [hr.rest]
  | prune =>
    cases hs
    show s.rt.prune.filteredTotalBytes = s.rt.filteredTotalBytes
    unfold SessionRuntime.prune
    split
    · dsimp only
      split <;> rfl
    · rfl

/-! ### What is broadcast -/

/-- The chunks are a stream cut into pieces, each with its offset. -/
structure Broadcasts (S : Bytes) (chunks : List SequencedChunk) : Prop where
  whole : chunks.flatMap SequencedChunk.bytes = S
  offsets : ∀ pre c post, chunks = pre ++ c :: post → c.offset = (pre.flatMap SequencedChunk.bytes).length

theorem Broadcasts.snoc {S : Bytes} {chunks : List SequencedChunk} (h : Broadcasts S chunks) (bytes : Bytes) :
    Broadcasts (S ++ bytes) (chunks ++ [⟨S.length, bytes⟩]) := by
  refine ⟨by simp [h.whole], fun pre c post heq => ?_⟩
  rcases snoc_cases heq with ⟨rfl, rfl, -⟩ | ⟨post', rfl, -⟩
  · rw [h.whole]
  · exact h.offsets pre c post' rfl

/-- A chunk is the stream at its offset. -/
theorem Broadcasts.piece {S : Bytes} {chunks : List SequencedChunk} (h : Broadcasts S chunks) {c : SequencedChunk}
    (hc : c ∈ chunks) : Piece S c.offset c.bytes := by
  obtain ⟨pre, post, rfl⟩ := List.append_of_mem hc
  have hoff := h.offsets pre c post rfl
  have hwhole := h.whole
  rw [List.flatMap_append, List.flatMap_cons] at hwhole
  refine ⟨?_, ?_⟩
  · rw [← hwhole, hoff]
    simp
  · rw [← hwhole, hoff, List.drop_left]
    exact List.prefix_append _ _

/-- The chunk on its way. -/
def Reader.chunk? : Reader → Option SequencedChunk
  | .sending chunk => some chunk
  | _ => none

/-- The chunks that were given an offset. -/
def LiveSession.chunks (s : LiveSession) : List SequencedChunk := s.broadcast ++ s.reader.chunk?.toList

/-- **The invariant of the live stream.** -/
structure StreamInv (bare : Bool) (s : LiveSession) : Prop where
  idle : Idle s.rt.journal.journal
  synced : Synced bare s.scanner.pending s.rt
  sound : s.rt.journalFailed = true → s.rt.isDegraded = true
  broadcasts : s.rt.isDegraded = false → Broadcasts (stream bare s.rt.records) s.chunks

section Steps

open SessionRuntime

variable {bare : Bool} {R : LineReader} {s t : LiveSession}

/-- A step that is no read leaves the stream, and the chunks that have offsets. -/
theorem broadcasts_step (h : StreamInv bare s) {action : LiveSession.Action}
    (hread : action.isRead = false)
    (hstep : s.step bare R action = some t) (hsynced : Synced bare t.scanner.pending t.rt)
    (hchunks : t.chunks = s.chunks) (hok : t.rt.isDegraded = false) :
    Broadcasts (stream bare t.rt.records) t.chunks := by
  have hadv := LiveSession.step_advances hstep h.idle
  have hwas := healthy_of_evolves hadv hok
  have hsame : stream bare s.rt.records = stream bare t.rt.records := by
    refine (stream_mono hadv.published).eq_of_length ?_
    rw [← h.synced.total hwas, ← hsynced.total hok, step_total hread hstep h.idle]
  rw [hchunks, ← hsame]
  exact h.broadcasts hwas

/-- **One step of the session.** -/
theorem streamInv_step {action : LiveSession.Action} (h : StreamInv bare s)
    (hstep : s.step bare R action = some t) : StreamInv bare t := by
  have hadv := LiveSession.step_advances hstep h.idle
  have hsound : t.rt.journalFailed = true → t.rt.isDegraded = true := fun hf =>
    (hadv.sound hf).elim (fun hf' => hadv.keeps (h.sound hf')) id
  have hs := LiveSession.step_cases hstep
  cases action with
  | read chunk engine modes output policy checkpoint =>
    obtain ⟨⟨hreader, -, -, hlt⟩, rt', hrt, rfl⟩ := hs
    obtain ⟨rt₁, rt₂, rt₃, rt₄, hsteps, hrt'⟩ := LiveSession.readLocked_cases hrt h.idle
    obtain ⟨hsynced₄, htotal₄, hstream₄⟩ := h.synced.read hlt hsteps
    have hfields : rt'.records = rt₄.records ∧ rt'.filteredTotalBytes = rt₄.filteredTotalBytes ∧
        rt'.isDegraded = rt₄.isDegraded := by
      rw [hrt']
      split <;> exact ⟨rfl, rfl, rfl⟩
    obtain ⟨hrec, htotal, hdeg⟩ := hfields
    refine ⟨hadv.idle, hsynced₄.congr hrec htotal fun hok => hdeg.symm.trans hok, hsound, fun hok => ?_⟩
    have hok' : rt'.isDegraded = false := hok
    have hwas := healthy_of_evolves hadv hok
    have hflag : rt'.journalFailed = false := by
      by_contra hf
      rw [Bool.not_eq_false] at hf
      exact Bool.false_ne_true (hok'.symm.trans (hsound hf))
    have hbefore := h.broadcasts hwas
    have hchunks : s.chunks = s.broadcast := by
      rw [LiveSession.chunks, hreader]
      exact List.append_nil _
    rw [hchunks] at hbefore
    show Broadcasts (stream bare rt'.records) (s.broadcast ++ (LiveSession.afterRead rt' _).chunk?.toList)
    rw [hrec, hstream₄ (hdeg.symm.trans hok'), LiveSession.afterRead, if_neg (by rw [hflag]; decide)]
    split
    · rename_i hnil
      rw [hnil, List.append_nil]
      simpa [Reader.chunk?] using hbefore
    · have hoffset : rt'.filteredTotalBytes - (s.scanner.scan bare chunk).2.filtered.length =
          (stream bare s.rt.records).length := by
        rw [htotal, htotal₄, Nat.add_sub_cancel, h.synced.total hwas]
      rw [hoffset]
      exact hbefore.snoc _
  | background action =>
    have hsynced : Synced bare t.scanner.pending t.rt := by
      obtain ⟨l, hl, rfl⟩ := hs
      obtain ⟨hev, hrec⟩ := LiveSession.background_advances hl h.idle
      exact h.synced.congr hrec rfl (healthy_of_evolves hev.toAdvances)
    refine ⟨hadv.idle, hsynced, hsound, broadcasts_step h rfl hstep hsynced ?_⟩
    obtain ⟨l, -, rfl⟩ := hs
    rfl
  | send =>
    have hsynced : Synced bare t.scanner.pending t.rt := by
      obtain ⟨chunk, -, rfl⟩ := hs
      exact h.synced
    refine ⟨hadv.idle, hsynced, hsound, broadcasts_step h rfl hstep hsynced ?_⟩
    obtain ⟨chunk, hsending, rfl⟩ := hs
    simp [LiveSession.chunks, Reader.chunk?, hsending]
  | hangup detail =>
    have hsynced : Synced bare t.scanner.pending t.rt := by
      obtain ⟨-, rfl⟩ := hs
      exact h.synced
    refine ⟨hadv.idle, hsynced, hsound, broadcasts_step h rfl hstep hsynced ?_⟩
    obtain ⟨hreader, rfl⟩ := hs
    simp [LiveSession.chunks, Reader.chunk?, hreader]
  | close engine closed checkpoint completion =>
    have hsynced : Synced bare t.scanner.pending t.rt := by
      obtain ⟨detail, rt', -, hrt, rfl⟩ := hs
      exact h.synced.close List.isEmpty_iff.mp h.idle hrt
    refine ⟨hadv.idle, hsynced, hsound, broadcasts_step h rfl hstep hsynced ?_⟩
    obtain ⟨detail, rt', hreader, -, rfl⟩ := hs
    simp [LiveSession.chunks, Reader.chunk?, hreader]
  | closeAgain engine closed checkpoint completion detail idle =>
    obtain ⟨-, rfl⟩ := hs
    exact h
  | refresh turn child =>
    have hsynced : Synced bare t.scanner.pending t.rt := by
      obtain ⟨rt', completed, hrt, rfl⟩ := hs
      exact h.synced.refreshStatus h.idle hrt
    refine ⟨hadv.idle, hsynced, hsound, broadcasts_step h rfl hstep hsynced ?_⟩
    obtain ⟨rt', completed, -, rfl⟩ := hs
    rfl
  | terminate turn child requested =>
    have hsynced : Synced bare t.scanner.pending t.rt := by
      obtain ⟨rt', hrt, rfl⟩ := hs
      obtain ⟨rt₁, completed, h₁, rfl⟩ := terminate_cases hrt
      have hf := h.synced.refreshStatus h.idle h₁
      dsimp only
      split
      · exact hf
      · exact hf.congr rfl rfl id
    refine ⟨hadv.idle, hsynced, hsound, broadcasts_step h rfl hstep hsynced ?_⟩
    obtain ⟨rt', -, rfl⟩ := hs
    rfl
  | markCompleted turn status exitCode =>
    have hsynced : Synced bare t.scanner.pending t.rt := by
      obtain ⟨rt', hrt, rfl⟩ := hs
      exact h.synced.markCompleted h.idle hrt
    refine ⟨hadv.idle, hsynced, hsound, broadcasts_step h rfl hstep hsynced ?_⟩
    obtain ⟨rt', -, rfl⟩ := hs
    rfl
  | resize turn rows cols resized =>
    have hsynced : Synced bare t.scanner.pending t.rt := by
      obtain ⟨rt', hrt, rfl⟩ := hs
      exact h.synced.resizePty h.idle hrt
    refine ⟨hadv.idle, hsynced, hsound, broadcasts_step h rfl hstep hsynced ?_⟩
    obtain ⟨rt', -, rfl⟩ := hs
    rfl
  | prune =>
    have hsynced : Synced bare t.scanner.pending t.rt := by
      cases hs
      exact h.synced.prune
    refine ⟨hadv.idle, hsynced, hsound, broadcasts_step h rfl hstep hsynced ?_⟩
    cases hs
    rfl

theorem outputs_of_starts : ∀ {rs : List Record}, (∀ r ∈ rs, LiveSession.IsStart r) →
    outputs rs = [] ∧ ∀ r ∈ rs, r.kind ≠ .checkpointRef
  | [], _ => ⟨rfl, nofun⟩
  | r :: rs, h => by
    obtain ⟨ih, ihk⟩ := outputs_of_starts fun r' hr' => h r' (List.mem_cons_of_mem r hr')
    have hkind : r.kind ≠ .output ∧ r.kind ≠ .checkpointRef := by
      rcases h r List.mem_cons_self with hk | ⟨hk, -⟩ <;> rw [hk] <;> decide
    refine ⟨by rw [outputs_cons, if_neg hkind.1, ih], fun r' hr' => ?_⟩
    rcases List.mem_cons.mp hr' with rfl | hr'
    · exact hkind.2
    · exact ihk r' hr'

theorem streamInv_spawn {N maxPartBytes rows cols : ℕ} {disk : Dir} {pid : Bytes} {geometry started : Turn}
    (h : LiveSession.spawn R (Live.opened N maxPartBytes disk) rows cols pid geometry started = some s) :
    StreamInv bare s := by
  obtain ⟨heq, -, hidle, new, hnew, hall⟩ := LiveSession.spawn_spec h ⟨rfl, rfl⟩
  have hrec : s.rt.records = new := hnew
  obtain ⟨hout, hkinds⟩ := outputs_of_starts hall
  have hstream : stream bare s.rt.records = [] := by
    rw [hrec, stream, hout]
    rfl
  have hheld : held bare s.rt.records = [] := by
    rw [hrec, held, hout]
    rfl
  have hpending : s.scanner.pending = [] := by rw [heq]; rfl
  have htotal : s.rt.filteredTotalBytes = 0 := by rw [heq]; rfl
  refine ⟨hidle, ⟨?_, by rw [htotal]; decide, by rw [hstream]; exact Nat.zero_le _,
    fun _ => by rw [hpending, hheld], fun _ => by rw [htotal, hstream]; rfl⟩,
    fun hf => ?_, fun _ => ?_⟩
  · intro pre r post hsplit hk
    refine absurd hk (hkinds r ?_)
    rw [← hrec, hsplit]
    exact List.mem_append_right _ List.mem_cons_self
  · rw [heq] at hf
    cases hf
  · have hchunks : s.chunks = [] := by rw [heq]; rfl
    rw [hstream, hchunks]
    exact ⟨rfl, by simp⟩

/-- The invariant holds of every session. -/
theorem streamInv_run {N maxPartBytes rows cols : ℕ} {disk : Dir} {pid : Bytes} {geometry started : Turn}
    (hspawn : LiveSession.spawn R (Live.opened N maxPartBytes disk) rows cols pid geometry started = some s)
    {as : List LiveSession.Action} (hrun : Runs.run (LiveSession.step bare R) s as = some t) : StreamInv bare t :=
  Runs.run_invariant (fun h hstep => streamInv_step h hstep) hrun (streamInv_spawn hspawn)

end Steps

/-- **Live and replayed streams agree.** While the journal is not degraded, the
runtime's counter is the length of the stream that a fresh scanner makes of the
published records; a chunk ends where the stream ends when it gets its offset,
and is, however much later it is looked at, the stream at that offset; and the
anchored checkpoints have the offsets of their places. -/
theorem live_stream_agrees {bare : Bool} {R : LineReader} {N maxPartBytes rows cols : ℕ} {disk : Dir} {pid : Bytes}
    {geometry started : Turn} {s₀ s : LiveSession} {as : List LiveSession.Action}
    (hspawn : LiveSession.spawn R (Live.opened N maxPartBytes disk) rows cols pid geometry started = some s₀)
    (hrun : Runs.run (LiveSession.step bare R) s₀ as = some s) (hok : s.rt.isDegraded = false) :
    s.rt.filteredTotalBytes = (stream bare s.rt.records).length ∧
    (∀ c, s.reader = .sending c → c.offset + c.bytes.length = (stream bare s.rt.records).length) ∧
    (∀ c ∈ s.chunks, c.bytes = slice (stream bare s.rt.records) c.offset (c.offset + c.bytes.length)) ∧
    Broadcasts (stream bare s.rt.records) s.chunks ∧ Anchored bare s.rt.records := by
  have h := streamInv_run hspawn hrun
  have hb := h.broadcasts hok
  refine ⟨h.synced.total hok, fun c hc => ?_, fun c hc => ?_, hb, h.synced.anchored⟩
  · have hchunks : s.chunks = s.broadcast ++ c :: [] := by
      rw [LiveSession.chunks, hc]
      rfl
    have hwhole := hb.whole
    rw [hchunks, List.flatMap_append] at hwhole
    rw [hb.offsets _ _ _ hchunks, ← hwhole]
    simp
  · obtain ⟨-, hpre⟩ := hb.piece hc
    rw [slice, Nat.add_sub_cancel_left]
    exact List.prefix_iff_eq_take.mp hpre

/-- A new session, and what it does. -/
def runFresh (started : Turn) (as : List LiveSession.Action) : Option LiveSession :=
  (LiveSession.spawn exactReader (Live.opened 1 4096 (freshDir 1)) 24 80 [55] .quiet started).bind fun s₀ =>
    Runs.run (LiveSession.step false exactReader) s₀ as

/-- A read, and the chunk is sent. -/
def helloRun : List LiveSession.Action :=
  [.read [104, 105] ⟨24, 80, (0, 2), false, false, false, [], []⟩ ⟨false, false, false, false, false⟩
    .quiet .quiet .quiet, .send]

/-- Two reads with an escape sequence between them, of which the first holds the first byte, and the end of the
output with its checkpoint. -/
def splitRun : List LiveSession.Action :=
  let engine : EngineView := ⟨24, 80, (0, 2), false, false, false, [], []⟩
  [.read [104, 27] engine ⟨false, false, false, false, false⟩ .quiet .quiet .quiet, .send,
    .read [91, 49, 109, 105] engine ⟨false, false, false, false, false⟩ .quiet .quiet .quiet, .send, .hangup [],
    .close engine .quiet .quiet .quiet]

theorem live_stream_agrees_split : ∃ s₀ s,
    LiveSession.spawn exactReader (Live.opened 1 40 (freshDir 1)) 24 80 [55] .quiet .quiet = some s₀ ∧
    Runs.run (LiveSession.step false exactReader) s₀ splitRun = some s ∧ s.rt.isDegraded = false ∧
    s.broadcast = [⟨0, [104]⟩, ⟨1, [27, 91, 49, 109, 105]⟩] ∧
    s.rt.filteredTotalBytes = (stream false s.rt.records).length ∧
    Broadcasts (stream false s.rt.records) s.chunks ∧ Anchored false s.rt.records := by
  refine ⟨_, _, rfl, rfl, rfl, rfl, ?_⟩
  have h := @live_stream_agrees false exactReader 1 40 24 80 (freshDir 1) [55] .quiet .quiet _ _ splitRun rfl rfl rfl
  exact ⟨h.1, h.2.2.2.1, h.2.2.2.2⟩

end Session
end OpenRelay
