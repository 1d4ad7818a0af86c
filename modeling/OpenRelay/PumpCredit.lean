/-
# The credit gate

A client that acknowledges what it applied is not sent more than the gate's
budget ahead of it. Its reports land in a cell the pump reads at the head of
`next`'s loop and nowhere else (`session/store/pump.rs`), while a frame leaves
from two places: a replayed window at the head, and the coalescing loop, which
runs after the head let it pass. Between the two the cursor stands still and
the cell only rises, so what passed the gate is still within it when it is
emitted.

A closed gate is waited for: `next` has no step then but its time-out, and
nothing another step does reaches the pump.

Key theorems: `creditInv_step`, `applied_mono`, `applied_le_acknowledged`,
`waiting_run`.
-/
import OpenRelay.PumpDrain

namespace OpenRelay
namespace Pump

open Streams Runs

/-- The cursors the serve loop read from the client. -/
def Act.reported : Act → List ℕ
  | .report cursor => [cursor]
  | _ => []

/-- The highest cursor acknowledged: attaching acknowledges the attach offset. -/
def acknowledged (endOffset : ℕ) (reports : List ℕ) : ℕ := reports.foldr max endOffset

theorem le_acknowledged (endOffset : ℕ) (reports : List ℕ) :
    endOffset ≤ acknowledged endOffset reports := by
  induction reports with
  | nil => exact le_rfl
  | cons r reports ih => exact ih.trans (le_max_right _ _)

theorem acknowledged_append_singleton (endOffset : ℕ) (reports : List ℕ) (cursor : ℕ) :
    acknowledged endOffset (reports ++ [cursor]) = max (acknowledged endOffset reports) cursor := by
  induction reports with
  | nil => exact max_comm _ _
  | cons r reports ih =>
    show max r (acknowledged endOffset (reports ++ [cursor])) = _
    rw [ih, ← max_assoc]
    rfl

/-! ### The gate -/

/-- The gate looks at the policy and the cursor. -/
theorem gateOpen_congr {p q : AttachPump} (hcredit : q.credit = p.credit)
    (hcursor : q.currentOffset = p.currentOffset) (applied : ℕ) : q.gateOpen applied = p.gateOpen applied := by
  unfold AttachPump.gateOpen
  rw [hcredit, hcursor]

theorem gateOpen_iff {p : AttachPump} {applied : ℕ} : p.gateOpen applied = true ↔
    ∀ policy ∈ p.credit, p.currentOffset ≤ applied + policy.budgetBytes := by
  unfold AttachPump.gateOpen
  rcases p.credit with _ | policy
  · simp
  · simp only [decide_eq_true_eq, Option.mem_def, Option.some.injEq, forall_eq']
    omega

/-- A further acknowledgement does not close the gate. -/
theorem gateOpen_mono {p : AttachPump} {applied applied' : ℕ} (hle : applied ≤ applied')
    (h : p.gateOpen applied = true) : p.gateOpen applied' = true := by
  rw [gateOpen_iff] at h ⊢
  exact fun policy hpolicy => (h policy hpolicy).trans (Nat.add_le_add_right hle _)

/-- The gate let `next` pass: it stands at the head with the gate open, or has
gone on to the coalescing loop. -/
def Sys.passed (s : Sys) : Prop := s.atHead = true ∨ ∃ data, s.pc = .coalescing data

theorem Sys.passed_of_atResync {s : Sys} (h : s.atResync = true) : s.passed := by
  simp only [Sys.atResync, Bool.and_eq_true] at h
  exact .inl h.1

theorem Sys.passed_of_atSelect {s : Sys} (h : s.atSelect = true) : s.passed := by
  simp only [Sys.atSelect, Bool.and_eq_true] at h
  exact Sys.passed_of_atResync h.1.1

@[simp] theorem observeModes_credit (p : AttachPump) (modes : ModeSnapshot) :
    (p.observeModes modes).credit = p.credit := by
  unfold AttachPump.observeModes; split <;> rfl

@[simp] theorem forwardChunk_credit (p : AttachPump) (c : SequencedChunk) :
    (p.forwardChunk c).1.credit = p.credit := by
  unfold AttachPump.forwardChunk
  simp only
  split
  · rfl
  · split <;> rfl

@[simp] theorem forwardChunk_currentOffset (p : AttachPump) (c : SequencedChunk) :
    (p.forwardChunk c).1.currentOffset = p.currentOffset := by
  unfold AttachPump.forwardChunk
  simp only
  split
  · rfl
  · split <;> rfl

@[simp] theorem coalesce_credit (p : AttachPump) (data : Bytes) (r : Recv) :
    (p.coalesce data r).1.credit = p.credit := by
  unfold AttachPump.coalesce
  rcases r with c | n | _ | _
  · simp only
    split <;> rfl
  all_goals rfl

@[simp] theorem coalesce_currentOffset (p : AttachPump) (data : Bytes) (r : Recv) :
    (p.coalesce data r).1.currentOffset = p.currentOffset := by
  unfold AttachPump.coalesce
  rcases r with c | n | _ | _
  · simp only
    split <;> rfl
  all_goals rfl

/-! ### What one step does to cursor, chunks and credit -/

/-- No chunk leaves, and the cursor stands; the coalescing loop is entered past
the gate only. -/
structure Stands (s t : Sys) : Prop where
  credit : t.pump.credit = s.pump.credit
  cursor : t.pump.currentOffset = s.pump.currentOffset
  chunks : chunks t.events = chunks s.events
  coalescing : ∀ data, t.pc = .coalescing data → s.passed

/-- A chunk leaves at the cursor, past the gate. -/
structure Sends (s t : Sys) (data : Bytes) : Prop where
  passed : s.passed
  credit : t.pump.credit = s.pump.credit
  cursor : t.pump.currentOffset = s.pump.currentOffset + data.length
  chunks : chunks t.events = chunks s.events ++ [(s.pump.currentOffset, data)]
  coalescing : ∀ data, t.pc ≠ .coalescing data

theorem stands_finish {s : Sys} {p : AttachPump} {e : AttachEvent} (hcredit : p.credit = s.pump.credit)
    (hcursor : p.currentOffset = s.pump.currentOffset) (he : chunks [e] = []) :
    Stands s ({ s with pump := p }.finish e) where
  credit := hcredit
  cursor := hcursor
  chunks := by
    show chunks (s.events ++ [e]) = _
    rw [chunks_append_singleton, he, List.append_nil]
  coalescing := fun _ h => nomatch h

theorem stands_afterForward {s : Sys} (hpassed : s.passed) {r : Receiver} {p : AttachPump}
    (hcredit : p.credit = s.pump.credit) (hcursor : p.currentOffset = s.pump.currentOffset)
    (c : SequencedChunk) : Stands s ({ s with rx := r }.afterForward (p.forwardChunk c)) := by
  have hcredit' := (forwardChunk_credit p c).trans hcredit
  have hcursor' := (forwardChunk_currentOffset p c).trans hcursor
  rcases hf : p.forwardChunk c with ⟨p', d | d⟩ <;> rw [hf] at hcredit' hcursor'
  · exact ⟨hcredit', hcursor', rfl, fun _ h => nomatch h⟩
  · exact ⟨hcredit', hcursor', rfl, fun _ _ => hpassed⟩

theorem sends_afterCoalesce {s : Sys} (hpassed : s.passed) {r : Receiver} {p : AttachPump}
    (hcredit : p.credit = s.pump.credit) (hcursor : p.currentOffset = s.pump.currentOffset) (data : Bytes) :
    Stands s ({ s with rx := r }.afterCoalesce p data) ∨
      Sends s ({ s with rx := r }.afterCoalesce p data) data := by
  have hcredit' : (p.forwarded s.session.modes data).credit = s.pump.credit := by
    rw [AttachPump.forwarded, observeModes_credit]
    exact hcredit
  have hcursor' : (p.forwarded s.session.modes data).currentOffset = s.pump.currentOffset + data.length := by
    rw [AttachPump.forwarded, observeModes_currentOffset]
    exact congrArg (· + data.length) hcursor
  unfold Sys.afterCoalesce
  simp only
  by_cases hnil : data = []
  · rw [if_pos hnil]
    refine .inl ⟨hcredit', ?_, rfl, fun _ h => by cases h⟩
    rw [hnil] at hcursor' ⊢
    exact hcursor'
  · rw [if_neg hnil]
    refine .inr ⟨hpassed, hcredit', hcursor', ?_, fun _ h => by cases h⟩
    show chunks (s.events ++ [.chunk p.currentOffset data]) = _
    rw [chunks_append_singleton, hcursor]
    rfl

/-- A step of `next` sends one chunk or none. -/
theorem next_stands {s t : Sys} {a : Act} (hi : Inv s) (h : Next s a t) :
    Stands s t ∨ ∃ data, Sends s t data := by
  have hpc : ∀ {pc : Pc}, (∀ data, pc ≠ .coalescing data) → Stands s { s with pc := pc } :=
    fun hne => ⟨rfl, rfl, rfl, fun data h => absurd h (hne data)⟩
  cases h with
  | stall | windowErr | statusErr | recvClosed | tailClosed =>
    exact .inl (stands_finish (p := s.pump) rfl rfl rfl)
  | @popPending e rest hhead hq =>
    -- what is queued is never a chunk
    have hnone : chunks [e] = [] := by
      have := hi.pending
      rw [hq, show e :: rest = [e] ++ rest from rfl] at this
      simp only [chunks, List.filterMap_append, List.append_eq_nil_iff] at this
      exact this.1
    refine .inl ⟨rfl, rfl, ?_, fun _ _ => .inl hhead⟩
    show chunks (s.events ++ [e]) = _
    rw [chunks_append_singleton, hnone, List.append_nil]
  | windowEmpty | tick | statusRunning | cancel => exact .inl (hpc fun _ h => by cases h)
  | @window seen hat hre hseen hd =>
    refine .inr ⟨s.windowData seen, Sys.passed_of_atResync hat, ?_, ?_, ?_, fun data h => ?_⟩
    · exact observeModes_credit _ _
    · exact observeModes_currentOffset _ _
    · exact chunks_append_singleton _ _
    · have htop : s.pc = .coalescing data := h
      rw [Sys.atResync_pc hat] at htop
      cases htop
  | tailWait | tailOver | statusDone => exact .inl ⟨rfl, rfl, rfl, fun _ h => by cases h⟩
  | tailDone => exact .inl (stands_finish (p := s.pump.resyncOver) rfl rfl rfl)
  | takeHeld hat =>
    exact .inl (stands_afterForward (Sys.passed_of_atResync hat) (r := s.rx) (p := { s.pump with held := none })
      rfl rfl _)
  | tickDraining hat => exact .inl ⟨rfl, rfl, rfl, fun _ _ => Sys.passed_of_atSelect hat⟩
  | recv hat => exact .inl (stands_afterForward (Sys.passed_of_atSelect hat) rfl rfl _)
  | recvLagged hat => exact .inl ⟨rfl, rfl, rfl, fun _ _ => Sys.passed_of_atSelect hat⟩
  | @coalesce data hpc =>
    exact .inl ⟨coalesce_credit _ _ _, coalesce_currentOffset _ _ _, rfl, fun _ _ => .inr ⟨data, hpc⟩⟩
  | @coalesceLast data hpc =>
    rcases sends_afterCoalesce (.inr ⟨data, hpc⟩) (coalesce_credit s.pump data s.rx.tryRecv.1)
      (coalesce_currentOffset _ _ _) (s.pump.coalesce data s.rx.tryRecv.1).2.1 with h | h
    · exact .inl h
    · exact .inr ⟨_, h⟩
  | @coalesceFull data hpc =>
    rcases sends_afterCoalesce (.inr ⟨data, hpc⟩) (r := s.rx) (p := s.pump) rfl rfl data with h | h
    · exact .inl h
    · exact .inr ⟨_, h⟩

/-! ### Runs -/

/-- What every reachable state satisfies. -/
structure CreditInv (s : Sys) : Prop where
  inv : Inv s
  fresh : s.init = none → s.session.applied = 0
  attached : ∀ i ∈ s.init, i.endOffset ≤ s.session.applied
  /-- The coalescing loop's frame starts within the budget. -/
  frame : ∀ data, s.pc = .coalescing data → s.pump.gateOpen s.session.applied = true
  /-- So did the frame that was sent last. -/
  last : ∀ policy ∈ s.pump.credit, ∀ c ∈ (chunks s.events).getLast?,
    c.1 ≤ s.session.applied + policy.budgetBytes

theorem creditInv_start (modes : ModeSnapshot) (incarnation : Option ℕ) :
    CreditInv (Sys.start modes incarnation) where
  inv := inv_start modes incarnation
  fresh := fun _ => rfl
  attached := by simp [Sys.start]
  frame := by simp [Sys.start]
  last := by simp [Sys.start, AttachPump.new]

/-- What passed the gate is within the budget, also in the coalescing loop. -/
theorem CreditInv.within {s : Sys} (hc : CreditInv s) (h : s.passed) :
    s.pump.gateOpen s.session.applied = true := by
  rcases h with h | ⟨data, h⟩
  · simp only [Sys.atHead, Bool.and_eq_true] at h
    exact h.2
  · exact hc.frame data h

/-- A step of the session moves the cell by a report that finds the runtime. -/
theorem session_applied {s t : Sys} {a : Act} (h : sessionStep s a = some t) :
    t.init = s.init ∧ (t.session.applied = s.session.applied ∨
      ∃ cursor, a = .report cursor ∧ t.session.applied = max s.session.applied cursor) := by
  cases a <;> simp only [sessionStep, reduceCtorEq] at h
  case exit | setModes =>
    cases h
    exact ⟨rfl, .inl rfl⟩
  case report cursor =>
    split at h
    · cases h
    · split at h
      · cases h
        exact ⟨rfl, .inr ⟨cursor, rfl, rfl⟩⟩
      · cases h
        exact ⟨rfl, .inl rfl⟩
  all_goals
    split at h
    all_goals cases h
    exact ⟨rfl, .inl rfl⟩

/-- Subscribing sets the cell to the attach offset, and sends no chunk. -/
theorem subscribe_applied {s t : Sys} {a : Act} (hi : Inv s) (h : subscribeStep s a = some t) :
    s.init = none ∧ t.events = s.events ∧ (∀ data, t.pc ≠ .coalescing data) ∧
      ((t.init = none ∧ t.session.applied = s.session.applied) ∨
        ∃ i, t.init = some i ∧ t.session.applied = i.endOffset ∧ t.pump.currentOffset = i.endOffset) := by
  cases a <;> simp only [subscribeStep, reduceCtorEq] at h
  case subscribe snapshot sharedModes credit =>
    split at h
    · rename_i hpc
      cases h
      exact ⟨hi.fresh.mpr (.inl hpc), rfl, (fun _ h => by cases h), .inr ⟨_, rfl, rfl, rfl⟩⟩
    · cases h
  case resume offset incarnation =>
    split at h
    · rename_i hpc
      cases h
      have hnone := hi.fresh.mpr (.inl hpc.1)
      exact ⟨hnone, rfl, (fun _ h => by cases h), .inl ⟨hnone, rfl⟩⟩
    · cases h
  case resumeInit seen sharedModes credit =>
    split at h
    · rename_i offset hpc
      split at h
      · cases h
        exact ⟨hi.fresh.mpr (.inr ⟨offset, hpc⟩), rfl, (fun _ h => by cases h), .inr ⟨_, rfl, rfl, rfl⟩⟩
      · cases h
    · cases h

/-- The applied cursor never moves backwards. -/
theorem applied_mono {s t : Sys} {a : Act} (hc : CreditInv s) (h : step s a = some t) :
    s.session.applied ≤ t.session.applied := by
  rcases step_cases h with h | h | h
  · rcases (session_applied h).2 with happlied | ⟨cursor, -, happlied⟩ <;> rw [happlied]
    exact le_max_left _ _
  · rw [hc.fresh (subscribe_applied hc.inv h).1]
    exact Nat.zero_le _
  · rw [(next_keeps h).1]

theorem creditInv_step {s t : Sys} {a : Act} (hc : CreditInv s) (h : step s a = some t) : CreditInv t := by
  have hinv := inv_step hc.inv h
  have hle := applied_mono hc h
  rcases step_cases h with h | h | h
  · obtain ⟨hinit, happlied⟩ := session_applied h
    have hframe := sessionStep_frame h
    refine ⟨hinv, fun hnone => ?_, ?_, ?_, ?_⟩
    · rw [hinit] at hnone
      rcases happlied with happlied | ⟨cursor, rfl, -⟩
      · rw [happlied, hc.fresh hnone]
      · simp [sessionStep, hnone] at h
    · rw [hinit]
      exact fun i hi => (hc.attached i hi).trans hle
    · rw [hframe.pc, hframe.pump]
      exact fun data hdata => gateOpen_mono hle (hc.frame data hdata)
    · rw [hframe.events, hframe.pump]
      exact fun policy hpolicy c hlast => (hc.last policy hpolicy c hlast).trans (Nat.add_le_add_right hle _)
  · obtain ⟨hnone, hevents, hpc, hinit⟩ := subscribe_applied hc.inv h
    have hempty : chunks t.events = [] := by
      rw [hevents, hc.inv.quiet hnone]
      rfl
    refine ⟨hinv, fun hnone' => ?_, fun i hi => ?_, fun data hdata => absurd hdata (hpc data), ?_⟩
    · rcases hinit with ⟨-, happlied⟩ | ⟨i, hi, -⟩
      · rw [happlied, hc.fresh hnone]
      · rw [hi] at hnone'
        cases hnone'
    · rcases hinit with ⟨hnone', -⟩ | ⟨j, hj, happlied, -⟩
      · rw [hnone'] at hi
        cases hi
      · rw [hj] at hi
        cases hi
        exact happlied.ge
    · rw [hempty]
      simp
  · obtain ⟨hsession, hinit⟩ := next_keeps h
    rcases next_stands hc.inv h with hs | ⟨data, hs⟩
    · refine ⟨hinv, by rw [hinit, hsession]; exact hc.fresh, by rw [hinit, hsession]; exact hc.attached, ?_, ?_⟩
      · intro data hdata
        rw [gateOpen_congr hs.credit hs.cursor, hsession]
        exact hc.within (hs.coalescing data hdata)
      · rw [hs.credit, hs.chunks, hsession]
        exact hc.last
    · refine ⟨hinv, by rw [hinit, hsession]; exact hc.fresh, by rw [hinit, hsession]; exact hc.attached,
        fun data hdata => absurd hdata (hs.coalescing data), ?_⟩
      intro policy hpolicy c hlast
      rw [hs.credit] at hpolicy
      rw [hs.chunks, List.getLast?_concat, Option.mem_def, Option.some.injEq] at hlast
      rw [hsession, ← hlast]
      exact gateOpen_iff.mp (hc.within hs.passed) policy hpolicy

theorem creditInv_run {modes : ModeSnapshot} {incarnation : Option ℕ} {acts : List Act} {s : Sys}
    (h : run step (Sys.start modes incarnation) acts = some s) : CreditInv s :=
  run_invariant creditInv_step h (creditInv_start modes incarnation)

/-- The cell holds no more than was acknowledged. -/
def AckedBy (reports : List ℕ) (s : Sys) : Prop :=
  ∀ i ∈ s.init, s.session.applied ≤ acknowledged i.endOffset reports

theorem ackedBy_step {reports : List ℕ} {s t : Sys} {a : Act} (hi : Inv s) (hs : AckedBy reports s)
    (h : step s a = some t) : AckedBy (reports ++ a.reported) t := by
  have hmono : ∀ endOffset, acknowledged endOffset reports ≤ acknowledged endOffset (reports ++ a.reported) := by
    intro endOffset
    cases a with
    | report cursor => exact (le_max_left _ _).trans_eq (acknowledged_append_singleton _ _ _).symm
    | _ => simp [Act.reported]
  intro i hinit
  rcases step_cases h with h | h | h
  · obtain ⟨hsame, happlied⟩ := session_applied h
    rw [hsame] at hinit
    rcases happlied with happlied | ⟨cursor, rfl, happlied⟩ <;> rw [happlied]
    · exact (hs i hinit).trans (hmono _)
    · rw [Act.reported, acknowledged_append_singleton]
      have := hs i hinit
      omega
  · rcases (subscribe_applied hi h).2.2.2 with ⟨hnone, -⟩ | ⟨j, hj, happlied, -⟩
    · rw [hnone] at hinit
      cases hinit
    · rw [hj] at hinit
      cases hinit
      rw [happlied]
      exact le_acknowledged _ _
  · obtain ⟨hsession, hsame⟩ := next_keeps h
    rw [hsame] at hinit
    rw [hsession]
    exact (hs i hinit).trans (hmono _)

theorem applied_le_acknowledged {modes : ModeSnapshot} {incarnation : Option ℕ} {acts : List Act} {s : Sys}
    (h : run step (Sys.start modes incarnation) acts = some s) : AckedBy (acts.flatMap Act.reported) s := by
  have hrun : ∀ {acts : List Act} {reports : List ℕ} {s t : Sys}, Inv s → AckedBy reports s →
      run step s acts = some t → AckedBy (reports ++ acts.flatMap Act.reported) t := by
    intro acts
    induction acts with
    | nil =>
      intro reports s t _ hs h
      cases h
      simpa using hs
    | cons a acts ih =>
      intro reports s t hi hs h
      obtain ⟨m, hm, ht⟩ := run_cons h
      have := ih (inv_step hi hm) (ackedBy_step hi hs hm) ht
      rwa [List.append_assoc] at this
  exact @hrun acts [] _ _ (inv_start modes incarnation) (by simp [AckedBy, Sys.start]) h

/-- The cursor is what was sent past the attach offset. -/
theorem Gapless.length {stream : Bytes} {a b : ℕ} {cs : List (ℕ × Bytes)} (h : Gapless stream a b cs)
    (hb : b ≤ stream.length) : b = a + (cs.map Prod.snd).flatten.length := by
  have hle := h.le
  rw [h.data, slice_length_of_le hb]
  omega

/-- The frame that was sent last. -/
def lastFrame (events : List AttachEvent) : Bytes := (chunks events).getLast?.elim [] Prod.snd

/-- What is not acknowledged is the budget and one frame at most. -/
theorem CreditInv.unacknowledged {s : Sys} (hc : CreditInv s) {policy : CreditPolicy}
    (hpolicy : policy ∈ s.pump.credit) {init : AttachInit} (hinit : init ∈ s.init) :
    s.pump.currentOffset ≤ s.session.applied + policy.budgetBytes + (lastFrame s.events).length := by
  have hg := hc.inv.emitted init hinit
  have hattached := hc.attached init hinit
  unfold lastFrame
  rcases hlast : (chunks s.events).getLast? with _ | c
  · -- nothing was sent: the cursor is still the attach offset
    have hlen := hg.length hc.inv.cursor
    rw [List.getLast?_eq_none_iff.mp hlast] at hlen
    simp only [List.map_nil, List.flatten_nil, List.length_nil] at hlen
    omega
  · have hstart := hc.last policy hpolicy c hlast
    have hend := hg.last c hlast
    simp only [Option.elim_some]
    omega

/-! ### Waiting for credit -/

/-- What a wait for credit leaves: the pump as it was, unless the wait timed out
still at the head of the loop, with nothing sent and nothing taken. -/
structure Waited (s t : Sys) : Prop where
  pump : t.pump = s.pump
  head : (t.pc = .top ∧ t.events = s.events) ∨ (t.pc = .ended ∧ t.events = s.events ++ [.closed])

/-- Where a step of `next` is taken: at a closed gate, past the gate, or at one
of the awaits behind it. -/
theorem next_at {s t : Sys} {a : Act} (h : Next s a t) :
    (s.pc = .top ∧ a = .stall ∧ t = s.finish .closed) ∨ s.passed ∨ s.pc = .tail ∨ s.pc = .status := by
  cases h with
  | stall hpc => exact .inl ⟨hpc, rfl, rfl⟩
  | popPending hhead => exact .inr (.inl (.inl hhead))
  | windowEmpty hat | window hat | windowErr hat | takeHeld hat =>
    exact .inr (.inl (Sys.passed_of_atResync hat))
  | tickDraining hat | tick hat | recv hat | recvLagged hat | recvClosed hat =>
    exact .inr (.inl (Sys.passed_of_atSelect hat))
  | tailWait hpc | tailClosed hpc | tailDone hpc | tailOver hpc => exact .inr (.inr (.inl hpc))
  | statusDone hpc | statusRunning hpc | statusErr hpc => exact .inr (.inr (.inr hpc))
  | coalesce hpc | coalesceLast hpc | coalesceFull hpc => exact .inr (.inl (.inr ⟨_, hpc⟩))
  | cancel hpc => exact .inr (.inr hpc)

/-- A closed gate leaves `next` nothing but its time-out. -/
theorem gated_next {s t : Sys} {a : Act} (hpc : s.pc = .top) (hgate : s.pump.gateOpen s.session.applied = false)
    (h : Next s a t) : a = .stall ∧ t = s.finish .closed := by
  rcases next_at h with ⟨-, h⟩ | (h | ⟨data, h⟩) | h | h
  · exact h
  · simp [Sys.atHead, hgate] at h
  all_goals
    rw [hpc] at h
    cases h

theorem subscribe_detached {s t : Sys} {a : Act} (hi : Inv s) (hpc : s.pc.Streaming)
    (h : subscribeStep s a = some t) : False :=
  hi.init_ne_none hpc (subscribe_applied hi h).1

theorem ended_step {s t : Sys} {a : Act} (hi : Inv s) (hpc : s.pc = .ended) (h : step s a = some t) :
    t.pump = s.pump ∧ t.pc = .ended ∧ t.events = s.events := by
  rcases step_cases h with h | h | h
  · have hframe := sessionStep_frame h
    exact ⟨hframe.pump, hframe.pc.trans hpc, hframe.events⟩
  · exact (subscribe_detached hi (hpc ▸ streaming_ended) h).elim
  · exfalso
    rcases next_at h with ⟨h, -⟩ | (h | ⟨data, h⟩) | h | h
    · rw [hpc] at h
      cases h
    · have := Sys.atHead_pc h
      rw [hpc] at this
      cases this
    all_goals
      rw [hpc] at h
      cases h

theorem waited_step {s m t : Sys} {a : Act} (hi : Inv m) (hs : Waited s m)
    (hgate : m.pump.gateOpen m.session.applied = false) (h : step m a = some t) : Waited s t := by
  rcases hs.head with ⟨hpc, hevents⟩ | ⟨hpc, hevents⟩
  · rcases step_cases h with h | h | h
    · have hframe := sessionStep_frame h
      exact ⟨hframe.pump.trans hs.pump, .inl ⟨hframe.pc.trans hpc, hframe.events.trans hevents⟩⟩
    · exact (subscribe_detached hi (hpc ▸ streaming_top) h).elim
    · obtain ⟨-, rfl⟩ := gated_next hpc hgate h
      exact ⟨hs.pump, .inr ⟨rfl, congrArg (· ++ _) hevents⟩⟩
  · obtain ⟨hpump, hpc', hevents'⟩ := ended_step hi hpc h
    exact ⟨hpump.trans hs.pump, .inr ⟨hpc', hevents'.trans hevents⟩⟩

theorem applied_mono_run {s t : Sys} (hc : CreditInv s) {acts : List Act} (h : run step s acts = some t) :
    s.session.applied ≤ t.session.applied :=
  (run_invariant (I := fun m => CreditInv m ∧ s.session.applied ≤ m.session.applied)
    (fun hm hstep => ⟨creditInv_step hm.1 hstep, hm.2.trans (applied_mono hm.1 hstep)⟩) h ⟨hc, le_rfl⟩).2

/-- As long as the gate is closed, whatever the session, the ring and the client
do, and however often the wait is cancelled, the pump stays as it was. -/
theorem waiting_run {s t : Sys} (hc : CreditInv s) (hpc : s.pc = .top) {acts : List Act}
    (h : run step s acts = some t) (hgate : s.pump.gateOpen t.session.applied = false) : Waited s t := by
  have hrun : ∀ {acts : List Act} {m t : Sys}, CreditInv m → Waited s m → run step m acts = some t →
      s.pump.gateOpen t.session.applied = false → Waited s t := by
    intro acts
    induction acts with
    | nil =>
      intro m t _ hs h _
      cases h
      exact hs
    | cons a acts ih =>
      intro m t hm hs h hgate
      obtain ⟨n, hn, ht⟩ := run_cons h
      -- the cell only rises, so the gate was closed all along
      have hclosed : m.pump.gateOpen m.session.applied = false := by
        rw [hs.pump]
        exact eq_false_of_ne_true fun hopen =>
          absurd (gateOpen_mono (applied_mono_run hm h) hopen) (by rw [hgate]; decide)
      exact ih (creditInv_step hm hn) (waited_step hm.inv hs hclosed hn) ht hgate
  exact hrun hc ⟨rfl, .inl ⟨hpc, rfl⟩⟩ h hgate

end Pump
end OpenRelay
