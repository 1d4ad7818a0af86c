/-
# The published program status

The reader thread's scanner owns the terminal signals; the runtime keeps a second
copy, which is what summaries and notifications look at. The copy is renewed after
a chunk whose signals report a change (`session/runtime.rs`,
`publish_terminal_signals`), and at the end of the output its transient states are
dropped.

A report that repeats a record changes nothing that is shown, yet it moves the
record behind the others (`session/program_status.rs`). It reports no change, so
the copy keeps the old order; when a later removal leaves records of one priority,
the two then show different ones (`published_behind`). As long as no chunk only
moves records, the copies are equal (`published_status`).

Key theorems: `apply_quiet`, `readerInv_step`.
-/
import OpenRelay.Lib.Runs
import OpenRelay.Lib.Utf8
import OpenRelay.Pty.Lexer
import OpenRelay.Pty.ProgramStatus
import OpenRelay.Session.Upload

namespace OpenRelay
namespace Session

open Pty Runs Chunks

/-! ### The runtime's copy -/

def maxSessionTitleLen : ℕ := 256

/-- The window title, else the icon's. -/
def terminalTitle (signals : TerminalSignals) : Option Bytes := signals.windowTitle.or signals.iconTitle

/-- What of a session's runtime the terminal signals reach. -/
structure SignalsView where
  title : Option (List Char)
  titleUserSet : Bool
  foregroundColor : Option (List Char)
  backgroundColor : Option (List Char)
  terminalSignals : TerminalSignals
  notifiedOutputEpoch : Option ℕ
  outputClosed : Bool
  deriving DecidableEq, Repr

namespace SignalsView

/-- A title the user chose stays. -/
def applyTerminalTitle (rt : SignalsView) (payload : Bytes) : SignalsView × Bool :=
  if rt.titleUserSet then (rt, false)
  else
    let trimmed := trim (Utf8.decode payload)
    let title := trimmed.take maxSessionTitleLen
    if trimmed.isEmpty ∨ rt.title = some title then (rt, false)
    else ({ rt with title := some title }, true)

/-- The colours that a program has asked for; and whether they are others. -/
def applyTerminalColors (rt : SignalsView) (signals : TerminalSignals) : SignalsView × Bool :=
  let foreground := signals.foreground.map Utf8.decode
  let background := signals.background.map Utf8.decode
  ({ rt with foregroundColor := foreground, backgroundColor := background },
    decide (rt.foregroundColor ≠ foreground) || decide (rt.backgroundColor ≠ background))

/-- The flag says whether a summary is due. -/
def publishTerminalSignals (rt : SignalsView) (signals : TerminalSignals) : SignalsView × Bool :=
  let (titled, adopted) := (terminalTitle signals).elim (rt, false) rt.applyTerminalTitle
  let (colored, colorsChanged) := titled.applyTerminalColors signals
  let shown := colored.terminalSignals.programStatuses
  ({ colored with
      notifiedOutputEpoch :=
        if shown.current ≠ signals.programStatuses.current then none else colored.notifiedOutputEpoch
      terminalSignals := signals },
    adopted || colorsChanged || decide (shown ≠ signals.programStatuses))

/-- What the end of the output does to the signals. -/
def closeOutputStream (rt : SignalsView) : SignalsView :=
  if rt.outputClosed then rt
  else { rt with
    outputClosed := true
    terminalSignals := { rt.terminalSignals with
      programStatuses := rt.terminalSignals.programStatuses.dropTransient.1 } }

end SignalsView

/-! ### The reader -/

/-- The reader thread's scanner and the runtime. -/
structure SignalReader where
  scanner : PtyScanner
  rt : SignalsView
  deriving DecidableEq, Repr

/-- What the reader does. -/
inductive ReaderAction where
  | chunk (data : Bytes)
  | closeOutput
  deriving DecidableEq, Repr

namespace SignalReader

/-- A session as it is spawned. -/
def start (title : Option (List Char)) (titleUserSet : Bool) : SignalReader where
  scanner := .new
  rt := {
    title := title, titleUserSet := titleUserSet, foregroundColor := none, backgroundColor := none
    terminalSignals := .default, notifiedOutputEpoch := none, outputClosed := false }

/-- The reader's work on a chunk, or its end. -/
def step (bare : Bool) (s : SignalReader) : ReaderAction → Option SignalReader
  | .chunk data =>
    if s.rt.outputClosed then none
    else
      let scanner := (s.scanner.scan bare data).1
      -- `take_changed_signals`
      if scanner.signalsDirty then
        some ⟨{ scanner with signalsDirty := false }, (s.rt.publishTerminalSignals scanner.signals).1⟩
      else some ⟨scanner, s.rt⟩
  | .closeOutput => some { s with rt := s.rt.closeOutputStream }

/-- The scanner's own table after the same input. -/
def own (s : SignalReader) : ProgramStatuses :=
  if s.rt.outputClosed then s.scanner.signals.programStatuses.dropTransient.1
  else s.scanner.signals.programStatuses

end SignalReader

/-! ### What a chunk does to the signals -/

/-- The changes of a chunk's sequences, in order. -/
def signalOps (bare : Bool) (s : PtyScanner) (data : Bytes) : List SignalOp :=
  (drain (lexer bare) (s.pending ++ data)).1.flatMap Step.signals

/-- What is kept of the signals behind further ones. -/
def signalsAfter (s : TerminalSignals) (ops : List SignalOp) : TerminalSignals :=
  ops.foldl (fun s op => (op.apply s).1) s

/-- One of them reports a change. -/
def flagged : TerminalSignals → List SignalOp → Bool
  | _, [] => false
  | s, op :: ops => (op.apply s).2 || flagged (op.apply s).1 ops

theorem foldl_signal : ∀ (ops : List SignalOp) (s : PtyScanner),
    ops.foldl PtyScanner.signal s = { s with
      signals := signalsAfter s.signals ops
      signalsDirty := s.signalsDirty || flagged s.signals ops }
  | [], s => by simp [signalsAfter, flagged]
  | op :: ops, s => by
    rw [List.foldl_cons, foldl_signal ops]
    simp only [PtyScanner.signal, signalsAfter, List.foldl_cons, flagged, Bool.or_assoc]

theorem steps_signals (steps : List Step) (s : PtyScanner) :
    s.steps steps = (steps.flatMap Step.signals).foldl PtyScanner.signal s := by
  unfold PtyScanner.steps
  induction steps generalizing s with
  | nil => rfl
  | cons step steps ih =>
    rw [List.foldl_cons, List.flatMap_cons, List.foldl_append, ih]
    rfl

/-- The signals after a scan, and whether it makes the scanner publish them. -/
theorem scan_signals (bare : Bool) (s : PtyScanner) (data : Bytes) :
    (s.scan bare data).1.signals = signalsAfter s.signals (signalOps bare s data) ∧
    (s.scan bare data).1.signalsDirty = (s.signalsDirty || flagged s.signals (signalOps bare s data)) := by
  rw [scan_eq, steps_signals, foldl_signal]
  unfold finishScan signalOps
  split <;> exact ⟨rfl, rfl⟩

/-! ### What a report leaves unannounced -/

/-- The report repeats a record that is not the newest. -/
def repeats (s : ProgramStatuses) (payload : Bytes) : Bool :=
  match parseStatus payload with
  | some (id, some record) =>
    decide ((s.records.find? fun r => decide (r.id = id)) = some record) && decide (s.records.getLast? ≠ some record)
  | _ => false

/-- A report that says the same as before of its program, and so only makes its record the last. -/
def movesRecord (s : TerminalSignals) : SignalOp → Bool
  | .osc ps payload => decide (ps = ascii "7501") && repeats s.programStatuses payload
  | _ => false

/-- No report of the chunk repeats a record that is not the newest. -/
def unrepeated : TerminalSignals → List SignalOp → Bool
  | _, [] => true
  | s, op :: ops => !movesRecord s op && unrepeated (op.apply s).1 ops

/-- The chunk reports a change, or moves no record. -/
def AnnouncedOps (s : TerminalSignals) (ops : List SignalOp) : Prop :=
  flagged s ops = true ∨ unrepeated s ops = true

instance (s : TerminalSignals) (ops : List SignalOp) : Decidable (AnnouncedOps s ops) :=
  inferInstanceAs (Decidable (_ ∨ _))

/-! ### The order of the two tables -/

/-- The records came about by reports and clears. -/
def Reachable (s : ProgramStatuses) : Prop := ∃ done, Ordered done s.records

theorem reachable_default : Reachable TerminalSignals.default.programStatuses :=
  ⟨[], List.nil_sublist _, Nat.zero_le _⟩

theorem reachable_report {s : ProgramStatuses} (h : Reachable s) (body : Bytes) : Reachable (s.report body).1 := by
  obtain ⟨done, h⟩ := h
  refine ⟨done ++ [.report body], ?_⟩
  have hstep := Ordered.apply (t := ⟨s, none⟩) h 0 (.report body)
  rwa [show (s.report body).1 = ((⟨s, none⟩ : StatusTable).report 0 body).1.statuses from
    congrArg Prod.fst (StatusTable.report_statuses 0 ⟨s, none⟩ body).symm]

theorem reachable_removeWhere {s : ProgramStatuses} (h : Reachable s) (p : ProgramStatus → Bool) :
    Reachable (s.removeWhere p).1 := by
  obtain ⟨done, hsublist, hbounded⟩ := h
  exact ⟨done, List.filter_sublist.trans hsublist, (List.length_filter_le _ _).trans hbounded⟩

/-- Only a report of the protocol reaches the statuses. -/
theorem recordOsc_statuses (s : TerminalSignals) {ps : Bytes} (h : ps ≠ ascii "7501") (payload : Bytes) :
    (s.recordOsc ps payload).1.programStatuses = s.programStatuses := by
  have hkeeps : ∀ {p : Prop} [Decidable p] {a b : TerminalSignals × Bool}, a.1.programStatuses = s.programStatuses →
      b.1.programStatuses = s.programStatuses → (if p then a else b).1.programStatuses = s.programStatuses :=
    fun ha hb => by split <;> assumption
  unfold TerminalSignals.recordOsc
  rw [if_neg h]
  exact hkeeps rfl (hkeeps rfl (hkeeps rfl (hkeeps rfl (hkeeps rfl (hkeeps rfl (hkeeps rfl rfl))))))

theorem recordOsc_report (s : TerminalSignals) (payload : Bytes) :
    ((s.recordOsc (ascii "7501") payload).1.programStatuses, (s.recordOsc (ascii "7501") payload).2) =
      s.programStatuses.report payload := by
  unfold TerminalSignals.recordOsc
  rw [if_pos rfl]

theorem reachable_apply {s : TerminalSignals} (h : Reachable s.programStatuses) (op : SignalOp) :
    Reachable (op.apply s).1.programStatuses := by
  cases op with
  | cursorStyle params => exact h
  | clearStatuses => exact reachable_removeWhere h _
  | dropTransient => exact reachable_removeWhere h _
  | osc ps payload =>
    by_cases hps : ps = ascii "7501"
    · subst hps
      have hreport : (s.recordOsc (ascii "7501") payload).1.programStatuses = (s.programStatuses.report payload).1 :=
        congrArg Prod.fst (recordOsc_report s payload)
      show Reachable (s.recordOsc (ascii "7501") payload).1.programStatuses
      rw [hreport]
      exact reachable_report h payload
    · show Reachable (s.recordOsc ps payload).1.programStatuses
      rw [recordOsc_statuses s hps]
      exact h

theorem removeWhere_quiet {s : ProgramStatuses} {p : ProgramStatus → Bool} (h : (s.removeWhere p).2 = false) :
    (s.removeWhere p).1 = s := by
  have hlength : (s.records.filter fun r => !p r).length = s.records.length := by
    simpa [ProgramStatuses.removeWhere] using h
  have hsame := List.filter_eq_self.mpr (List.length_filter_eq_length_iff.mp hlength)
  exact congrArg ProgramStatuses.mk hsame

/-- A report that changes nothing, of the newest record, moves none. -/
theorem report_quiet {s : ProgramStatuses} (hs : Reachable s) {payload : Bytes} (hquiet : (s.report payload).2 = false)
    (hnewest : repeats s payload = false) : (s.report payload).1 = s := by
  rcases hparse : parseStatus payload with _ | ⟨id, _ | record⟩
  · unfold ProgramStatuses.report
    rw [hparse]
  · unfold ProgramStatuses.report at hquiet ⊢
    rw [hparse] at hquiet ⊢
    exact removeWhere_quiet hquiet
  · obtain ⟨done, hordered⟩ := hs
    have hprevious : (s.records.find? fun r => decide (r.id = id)) = some record := by
      unfold ProgramStatuses.report at hquiet
      rw [hparse] at hquiet
      exact (by simpa using hquiet : _ ∧ _).1
    have hlast : s.records.getLast? = some record := by
      unfold repeats at hnewest
      rw [hparse] at hnewest
      simpa [hprevious] using hnewest
    obtain ⟨older, holder⟩ := List.getLast?_eq_some_iff.mp hlast
    have hid := parseStatus_id hparse
    have hdistinct : (older ++ [record]).Pairwise fun a b => a.id ≠ b.id := holder ▸ hordered.distinct
    have hothers : older.filter (fun x => decide (x.id ≠ id)) = older := by
      refine List.filter_eq_self.mpr fun x hx => decide_eq_true fun hxid => ?_
      exact (List.pairwise_append.mp hdistinct).2.2 x hx record List.mem_cons_self (hxid.trans hid.symm)
    have hknown : ∃ x ∈ s.records, x.id = id := ⟨record, by rw [holder]; exact List.mem_append_right _ List.mem_cons_self, hid⟩
    have hrecords := records_report 0 ⟨s, none⟩ hparse hordered.distinct hordered.bounded
    have hafter := congrArg Prod.fst (StatusTable.report_statuses 0 ⟨s, none⟩ payload)
    have hsame : (s.report payload).1.records = s.records := by
      calc (s.report payload).1.records = ((⟨s, none⟩ : StatusTable).report 0 payload).1.records := by rw [← hafter]; rfl
        _ = (s.records.filter fun x => decide (x.id ≠ id)) ++ [record] := by
          rw [hrecords]; exact congrArg (· ++ [record]) (if_pos hknown)
        _ = s.records := by
          rw [holder, List.filter_append, hothers, List.filter_cons_of_neg (by simpa using hid), List.filter_nil,
            List.append_nil]
    exact congrArg ProgramStatuses.mk hsame

/-- **No change unannounced.** Unless it repeats a record that is not the newest, an
operation that reports no change leaves the statuses as they are. -/
theorem apply_quiet {s : TerminalSignals} (hs : Reachable s.programStatuses) {op : SignalOp}
    (hquiet : (op.apply s).2 = false) (hnewest : movesRecord s op = false) :
    (op.apply s).1.programStatuses = s.programStatuses := by
  cases op with
  | cursorStyle params => rfl
  | clearStatuses => exact removeWhere_quiet hquiet
  | dropTransient => exact removeWhere_quiet hquiet
  | osc ps payload =>
    by_cases hps : ps = ascii "7501"
    · subst hps
      have hreport := recordOsc_report s payload
      have hquiet : (s.programStatuses.report payload).2 = false := (congrArg Prod.snd hreport).symm.trans hquiet
      have hnewest : repeats s.programStatuses payload = false := by
        simpa [movesRecord] using hnewest
      exact (congrArg Prod.fst hreport).trans (report_quiet hs hquiet hnewest)
    · exact recordOsc_statuses s hps payload

theorem reachable_signalsAfter : ∀ (ops : List SignalOp) {s : TerminalSignals}, Reachable s.programStatuses →
    Reachable (signalsAfter s ops).programStatuses
  | [], _, h => h
  | op :: ops, _, h => reachable_signalsAfter ops (reachable_apply h op)

theorem signalsAfter_quiet : ∀ (ops : List SignalOp) {s : TerminalSignals}, Reachable s.programStatuses →
    flagged s ops = false → unrepeated s ops = true →
    (signalsAfter s ops).programStatuses = s.programStatuses
  | [], _, _, _, _ => rfl
  | op :: ops, s, hs, hquiet, hnewest => by
    obtain ⟨hquiet, hrest⟩ : (op.apply s).2 = false ∧ flagged (op.apply s).1 ops = false := by
      simpa [flagged] using hquiet
    obtain ⟨hnewest, hlater⟩ : movesRecord s op = false ∧ unrepeated (op.apply s).1 ops = true := by
      simpa [unrepeated] using hnewest
    exact (signalsAfter_quiet ops (reachable_apply hs op) hrest hlater).trans (apply_quiet hs hquiet hnewest)

/-! ### Runs -/

/-- No chunk only moves records. -/
def AnnouncedChunk (bare : Bool) (s : SignalReader) : ReaderAction → Prop
  | .chunk data => AnnouncedOps s.scanner.signals (signalOps bare s.scanner data)
  | .closeOutput => True

instance (bare : Bool) (s : SignalReader) : ∀ a, Decidable (AnnouncedChunk bare s a)
  | .chunk data => inferInstanceAs (Decidable (AnnouncedOps s.scanner.signals (signalOps bare s.scanner data)))
  | .closeOutput => .isTrue trivial

/-- The copy is the scanner's table, and every change has been published. -/
structure ReaderInv (s : SignalReader) : Prop where
  reachable : Reachable s.scanner.signals.programStatuses
  clean : s.scanner.signalsDirty = false
  same : s.rt.terminalSignals.programStatuses = s.own

theorem readerInv_start (title : Option (List Char)) (titleUserSet : Bool) :
    ReaderInv (.start title titleUserSet) := ⟨reachable_default, rfl, rfl⟩

theorem publish_signals (rt : SignalsView) (signals : TerminalSignals) :
    (rt.publishTerminalSignals signals).1.terminalSignals = signals := rfl

theorem applyTerminalTitle_outputClosed (rt : SignalsView) (payload : Bytes) :
    (rt.applyTerminalTitle payload).1.outputClosed = rt.outputClosed := by
  unfold SignalsView.applyTerminalTitle
  dsimp only
  split_ifs <;> rfl

theorem publish_outputClosed (rt : SignalsView) (signals : TerminalSignals) :
    (rt.publishTerminalSignals signals).1.outputClosed = rt.outputClosed := by
  show (((terminalTitle signals).elim (rt, false) rt.applyTerminalTitle).1).outputClosed = rt.outputClosed
  cases terminalTitle signals with
  | none => rfl
  | some payload => exact applyTerminalTitle_outputClosed rt payload

theorem readerInv_step {bare : Bool} {s t : SignalReader} {a : ReaderAction} (h : ReaderInv s)
    (hannounced : AnnouncedChunk bare s a) (ht : s.step bare a = some t) : ReaderInv t := by
  cases a with
  | closeOutput =>
    injection ht with ht
    subst ht
    refine ⟨h.reachable, h.clean, ?_⟩
    show s.rt.closeOutputStream.terminalSignals.programStatuses = _
    by_cases hclosed : s.rt.outputClosed = true
    · rw [show s.rt.closeOutputStream = s.rt from if_pos hclosed]
      exact h.same
    · have hclose : s.rt.closeOutputStream.terminalSignals.programStatuses =
          s.rt.terminalSignals.programStatuses.dropTransient.1 := by
        unfold SignalsView.closeOutputStream
        rw [if_neg hclosed]
      have hended : s.rt.closeOutputStream.outputClosed = true := by
        unfold SignalsView.closeOutputStream
        rw [if_neg hclosed]
      rw [hclose, h.same]
      unfold SignalReader.own
      rw [if_neg hclosed, if_pos hended]
  | chunk data =>
    unfold SignalReader.step at ht
    dsimp only at ht
    split_ifs at ht with hclosed hdirty
    · have hsignals := (scan_signals bare s.scanner data).1
      injection ht with ht
      subst ht
      refine ⟨?_, rfl, ?_⟩
      · show Reachable (s.scanner.scan bare data).1.signals.programStatuses
        rw [hsignals]
        exact reachable_signalsAfter _ h.reachable
      · unfold SignalReader.own
        rw [publish_signals, if_neg (by rw [publish_outputClosed]; exact hclosed)]
    · obtain ⟨hsignals, hflag⟩ := scan_signals bare s.scanner data
      have hquiet : flagged s.scanner.signals (signalOps bare s.scanner data) = false := by
        rw [Bool.not_eq_true, hflag, Bool.or_eq_false_iff] at hdirty
        exact hdirty.2
      have hnewest : unrepeated s.scanner.signals (signalOps bare s.scanner data) = true :=
        hannounced.resolve_left (by rw [hquiet]; exact Bool.false_ne_true)
      have hkept : (s.scanner.scan bare data).1.signals.programStatuses = s.scanner.signals.programStatuses := by
        rw [hsignals]
        exact signalsAfter_quiet _ h.reachable hquiet hnewest
      injection ht with ht
      subst ht
      refine ⟨?_, Bool.not_eq_true _ ▸ hdirty, ?_⟩
      · rw [hkept]
        exact h.reachable
      · have hsame := h.same
        unfold SignalReader.own at hsame ⊢
        rw [if_neg hclosed] at hsame ⊢
        exact hsame.trans hkept.symm

/-- **The published status.** In a run in which no chunk only moves records, the copy
of the runtime is the scanner's own table, at the end of the output without its
transient states in both, and shows the same record. -/
theorem published_status (bare : Bool) (title : Option (List Char)) (titleUserSet : Bool) (actions : List ReaderAction)
    {s : SignalReader} (hrun : run (SignalReader.step bare) (.start title titleUserSet) actions = some s)
    (hannounced : Meets (SignalReader.step bare) (AnnouncedChunk bare) (.start title titleUserSet) actions) :
    s.rt.terminalSignals.programStatuses = s.own ∧ s.rt.terminalSignals.programStatuses.current = s.own.current := by
  have hinv := run_invariant_of_meets (fun h hC hstep => readerInv_step h hC hstep) hrun hannounced
    (readerInv_start title titleUserSet)
  exact ⟨hinv.same, congrArg ProgramStatuses.current hinv.same⟩

/-- A report as it stands in the output. -/
def statusReport (body : String) : Bytes := [esc] ++ ascii "]7501;" ++ ascii body ++ [bel]

/-- Two programs are done and one waits. -/
def reports : Bytes :=
  statusReport "state=done:id=a" ++ statusReport "state=done:id=b" ++ statusReport "state=blocked:id=c"

theorem published_status_done : ∃ s, run (SignalReader.step false) (.start none false)
      [.chunk reports, .chunk (statusReport "state=done:id=c"), .closeOutput] = some s ∧
    s.rt.terminalSignals.programStatuses = s.own ∧
    s.rt.terminalSignals.programStatuses.current = s.own.current := by
  have hruns : (run (SignalReader.step false) (.start none false)
      [.chunk reports, .chunk (statusReport "state=done:id=c"), .closeOutput]).isSome = true := by decide +kernel
  obtain ⟨s, hs⟩ := Option.isSome_iff_exists.mp hruns
  exact ⟨s, hs, published_status false none false _ hs (by decide +kernel)⟩

/-- **The copy keeps an old order.** The first program reports once more that it is
done; at the end of the output the scanner's table shows it, the copy the second. -/
theorem published_behind : ∃ s, run (SignalReader.step false) (.start none false)
      [.chunk reports, .chunk (statusReport "state=done:id=a"), .closeOutput] = some s ∧
    s.rt.terminalSignals.programStatuses ≠ s.own ∧
    s.rt.terminalSignals.programStatuses.current.map ProgramStatus.id = some (some (ascii "b")) ∧
    s.own.current.map ProgramStatus.id = some (some (ascii "a")) := by
  have hruns : (run (SignalReader.step false) (.start none false)
      [.chunk reports, .chunk (statusReport "state=done:id=a"), .closeOutput]).any (fun s =>
        decide (s.rt.terminalSignals.programStatuses ≠ s.own ∧
          s.rt.terminalSignals.programStatuses.current.map ProgramStatus.id = some (some (ascii "b")) ∧
          s.own.current.map ProgramStatus.id = some (some (ascii "a")))) = true := by decide +kernel
  obtain ⟨s, hs, hbehind⟩ := (Option.any_eq_true _ _).mp hruns
  exact ⟨s, hs, of_decide_eq_true hbehind⟩

end Session
end OpenRelay
