/-
# Restored signals

A client that attaches is sent the sequences that bring a fresh terminal to the titles, the
progress and the cursor style that the session retains (`session/pty.rs`, `restore_bytes`).
The colours and the program status stay behind.

What the scanner retains it has read as the body of a sequence: there is no terminator in it,
and it is no question (`nextStep_heard`, `Restorable.apply`). So the sequences read back, one
after another, as what they were made from (`drain_spell`), and a fresh scanner that reads
them ends with the same signals (`restore_exact`); and so it does after whatever follows.
-/
import OpenRelay.Pty.Sanitise

namespace OpenRelay
namespace Pty

open Chunks

/-! ### The code -/

/-- A command of the operating system is added. -/
def pushOsc (out ps payload : Bytes) : Bytes := out ++ (esc :: 93 :: ps ++ 59 :: payload ++ [bel])

/-- Sequences that reproduce the retained notifications on a freshly attached terminal. -/
def TerminalSignals.restoreBytes (s : TerminalSignals) : Bytes :=
  let bytes : Bytes :=
    match s.iconTitle, s.windowTitle with
    | some icon, some window =>
      if icon = window then pushOsc [] (ascii "0") icon else pushOsc (pushOsc [] (ascii "1") icon) (ascii "2") window
    | some icon, none => pushOsc [] (ascii "1") icon
    | none, some window => pushOsc [] (ascii "2") window
    | none, none => []
  let bytes :=
    match s.progress with
    | some progress => pushOsc bytes (ascii "9") progress
    | none => bytes
  match s.cursorStyle with
  | some style => bytes ++ (esc :: 91 :: style ++ ascii " q")
  | none => bytes

/-! ### What the scanner retains -/

/-- What the scanner can do to the signals. -/
def Heard : SignalOp → Prop
  | .osc ps payload => IsBody payload ∧ (isPassthroughOsc ps payload = true → payload.head? ≠ some 63)
  | .cursorStyle params => (∀ b ∈ params, isParam b = true) ∧ params.head? ≠ some 62
  | _ => True

theorem isPassthroughOsc_iff {ps payload : Bytes} : isPassthroughOsc ps payload = true ↔
    (ps = ascii "0" ∨ ps = ascii "1" ∨ ps = ascii "2") ∨ ps = ascii "9" ∧ ascii "4;" <+: payload := by
  simp [isPassthroughOsc]

theorem oscStep_heard {payload : Bytes} (hbody : IsBody payload) (len : ℕ) (ps : Bytes) (semi : Bool) (terminator : Bytes) :
    ∀ op ∈ (oscStep len ps semi payload terminator).signals, Heard op := by
  have hprompt : ∀ op ∈ (if ps = ascii "133" ∧ (splitOn 59 payload).head? = some (ascii "A") then
      [SignalOp.dropTransient] else []), Heard op := by
    intro op hop
    split at hop
    · rw [List.mem_singleton.mp hop]
      trivial
    · cases hop
  unfold oscStep
  by_cases hstatus : ps = ascii "7501"
  · have hno : ¬ isPassthroughOsc ps payload = true := by
      rw [isPassthroughOsc_iff, hstatus]
      rintro ((h | h | h) | ⟨h, -⟩) <;> exact absurd h (by decide)
    rw [if_pos hstatus]
    split_ifs
    · exact nofun
    · intro op hop
      rw [List.mem_singleton.mp hop]
      exact ⟨hbody, fun h => absurd h hno⟩
    · exact nofun
  · rw [if_neg hstatus]
    simp only
    generalize (if ps = ascii "133" ∧ (splitOn 59 payload).head? = some (ascii "A") then
      [SignalOp.dropTransient] else []) = prompt at hprompt
    by_cases hanswer : payload.head? = some 63
    · rw [if_pos hanswer]
      exact hprompt
    · have hop : ∀ op ∈ prompt ++ [.osc ps payload], Heard op := by
        intro op hop
        rcases List.mem_append.mp hop with hop | hop
        · exact hprompt op hop
        · rw [List.mem_singleton.mp hop]
          exact ⟨hbody, fun _ => hanswer⟩
      rw [if_neg hanswer]
      split_ifs
      · exact hop
      · exact hprompt
      · exact hop

theorem osc_heard {data : Bytes} {introLen : ℕ} {escaped : Bool} {step : Step} (h : osc data introLen escaped = some step) :
    ∀ op ∈ step.signals, Heard op := by
  unfold osc at h
  simp only at h
  split at h
  · split at h
    · cases h
    · cases h
      exact nofun
  · split at h
    · cases h
    · cases h
      exact nofun
    · rename_i payload len hfound
      cases h
      exact oscStep_heard (findTerminator_parts hfound).1 _ _ _ _

/-- The number of `CSI > n q` is no cursor style. -/
theorem classifyCsi_style {params : Bytes} :
    classifyCsi params (ascii " ") 113 = .emit ↔ params.head? ≠ some 62 := by
  rcases params with _ | ⟨b, params⟩
  · exact iff_of_true (by decide) nofun
  · by_cases hb : b = 62
    · subst hb
      exact iff_of_false (by simp [classifyCsi]) (by simp)
    · have hmark : ¬ (if 60 ≤ b ∧ b ≤ 63 then b else 0) = 62 := by
        split_ifs
        · exact hb
        · decide
      exact iff_of_true (by simp [classifyCsi, hmark]) (by simpa using hb)

theorem csi_heard {data : Bytes} {step : Step} (h : csi data = some step) : ∀ op ∈ step.signals, Heard op := by
  unfold csi at h
  simp only at h
  split at h
  · cases h
  · split at h
    · cases h
      exact nofun
    · split at h
      · rename_i hemit
        cases h
        intro op hop
        dsimp only at hop
        split at hop
        · rename_i hstyle
          rw [hstyle.1, hstyle.2] at hemit
          rw [List.mem_singleton.mp hop]
          exact ⟨fun b hb => takeWhile_all hb, classifyCsi_style.mp hemit⟩
        · cases hop
      · cases h
        exact nofun
      · cases h
        exact nofun

theorem escape_heard {data : Bytes} {step : Step} (h : escape data = some step) : ∀ op ∈ step.signals, Heard op := by
  unfold escape at h
  split at h
  · cases h
  · split_ifs at h
    · exact csi_heard h
    · exact osc_heard h
    · obtain ⟨n, -, rfl⟩ := Option.map_eq_some_iff.mp h
      exact nofun
    · cases h
      intro op hop
      rw [List.mem_singleton.mp hop]
      trivial
    · cases h
      exact nofun

theorem bareCsi_signals (data : Bytes) : (bareCsi data).signals = [] := by
  unfold bareCsi
  simp only
  generalize (if decide (data[1]? = some 63) = true then 2 else 1) = mark
  split
  · rfl
  · split
    · rfl
    · split_ifs <;> rfl

/-- **What a step does to the signals** comes of a complete sequence. -/
theorem nextStep_heard {bare : Bool} {data : Bytes} {step : Step} (h : nextStep bare data = some step) :
    ∀ op ∈ step.signals, Heard op := by
  unfold nextStep at h
  split at h
  · cases h
  · split at h
    · simp only [sequence, List.head?_cons] at h
      split_ifs at h
      · exact escape_heard h
      · cases h
        rw [bareCsi_signals]
        exact nofun
      · exact osc_heard h
    · cases h
      exact nofun

/-- A payload that a sequence can be made of. -/
structure Payload (p : Bytes) : Prop where
  body : IsBody p
  answer : p.head? ≠ some 63
  short : p.length ≤ maxRetainedSignalPayloadBytes

/-- What can be retained. -/
structure Restorable (s : TerminalSignals) : Prop where
  iconTitle : ∀ p ∈ s.iconTitle, Payload p
  windowTitle : ∀ p ∈ s.windowTitle, Payload p
  progress : ∀ p ∈ s.progress, Payload p ∧ ascii "4;" <+: p ∧ (splitOn 59 (p.drop 2)).head? ≠ some (ascii "0")
  cursorStyle : ∀ p ∈ s.cursorStyle, p ≠ [] ∧ p ≠ ascii "0" ∧ (∀ b ∈ p, isParam b = true) ∧ p.head? ≠ some 62

theorem restorable_default : Restorable .default := ⟨nofun, nofun, nofun, nofun⟩

theorem Restorable.recordOsc {s : TerminalSignals} {ps payload : Bytes} (h : Restorable s) (hbody : IsBody payload)
    (hanswer : isPassthroughOsc ps payload = true → payload.head? ≠ some 63) :
    Restorable (s.recordOsc ps payload).1 := by
  have hpayload : payload.length ≤ maxRetainedSignalPayloadBytes → isPassthroughOsc ps payload = true → Payload payload :=
    fun hshort hpass => ⟨hbody, hanswer hpass, hshort⟩
  unfold TerminalSignals.recordOsc
  by_cases hstatus : ps = ascii "7501"
  · rw [if_pos hstatus]
    exact ⟨h.iconTitle, h.windowTitle, h.progress, h.cursorStyle⟩
  by_cases hlong : maxRetainedSignalPayloadBytes < payload.length
  · rw [if_neg hstatus, if_pos hlong]
    exact h
  have hshort : payload.length ≤ maxRetainedSignalPayloadBytes := by omega
  rw [if_neg hstatus, if_neg hlong]
  simp only
  split
  · rename_i hzero
    have hp := hpayload hshort (isPassthroughOsc_iff.mpr (.inl (.inl hzero)))
    refine ⟨?_, ?_, h.progress, h.cursorStyle⟩
    · rintro p ⟨rfl⟩
      exact hp
    · rintro p ⟨rfl⟩
      exact hp
  split
  · rename_i hone
    refine ⟨?_, h.windowTitle, h.progress, h.cursorStyle⟩
    rintro p ⟨rfl⟩
    exact hpayload hshort (isPassthroughOsc_iff.mpr (.inl (.inr (.inl hone))))
  split
  · rename_i htwo
    refine ⟨h.iconTitle, ?_, h.progress, h.cursorStyle⟩
    rintro p ⟨rfl⟩
    exact hpayload hshort (isPassthroughOsc_iff.mpr (.inl (.inr (.inr htwo))))
  split
  · exact ⟨h.iconTitle, h.windowTitle, h.progress, h.cursorStyle⟩
  split
  · exact ⟨h.iconTitle, h.windowTitle, h.progress, h.cursorStyle⟩
  split
  · rename_i hnine
    refine ⟨h.iconTitle, h.windowTitle, fun p hp => ?_, h.cursorStyle⟩
    simp only at hp
    split_ifs at hp with hremoved
    · cases hp
    · cases hp
      exact ⟨hpayload hshort (isPassthroughOsc_iff.mpr (.inr hnine)), hnine.2, hremoved⟩
  · exact h

theorem Restorable.apply {s : TerminalSignals} {op : SignalOp} (h : Restorable s) (hop : Heard op) :
    Restorable (op.apply s).1 := by
  cases op with
  | cursorStyle params =>
    refine ⟨h.iconTitle, h.windowTitle, h.progress, fun p hp => ?_⟩
    simp only [SignalOp.apply, TerminalSignals.setCursorStyle] at hp
    split_ifs at hp with hreset
    · cases hp
    · cases hp
      rw [not_or] at hreset
      exact ⟨hreset.1, hreset.2, hop.1, hop.2⟩
  | osc ps payload => exact h.recordOsc hop.1 hop.2
  | clearStatuses => exact ⟨h.iconTitle, h.windowTitle, h.progress, h.cursorStyle⟩
  | dropTransient => exact ⟨h.iconTitle, h.windowTitle, h.progress, h.cursorStyle⟩

theorem Restorable.step {s : PtyScanner} {step : Step} (h : Restorable s.signals) (hstep : ∀ op ∈ step.signals, Heard op) :
    Restorable (s.step step).signals := by
  unfold PtyScanner.step
  generalize step.signals = ops at hstep
  induction ops generalizing s with
  | nil => exact h
  | cons op ops ih =>
    rw [List.foldl_cons]
    exact ih (h.apply (hstep op List.mem_cons_self)) fun op' hop' => hstep op' (List.mem_cons_of_mem _ hop')

theorem Restorable.steps {s : PtyScanner} {steps : List Step} (h : Restorable s.signals)
    (hsteps : ∀ step ∈ steps, ∀ op ∈ step.signals, Heard op) : Restorable (s.steps steps).signals := by
  unfold PtyScanner.steps
  induction steps generalizing s with
  | nil => exact h
  | cons step steps ih =>
    rw [List.foldl_cons]
    exact ih (h.step (hsteps step List.mem_cons_self)) fun step' hstep' => hsteps step' (List.mem_cons_of_mem _ hstep')

theorem finishScan_signals (s : PtyScanner) (out : ScanOut) (rest : Bytes) : (finishScan s out rest).1.signals = s.signals := by
  unfold finishScan
  split_ifs <;> rfl

/-- **What is retained after any chunks can be restored.** -/
theorem Restorable.scanChunks {bare : Bool} : ∀ (chunks : List Bytes) {s : PtyScanner}, Restorable s.signals →
    Restorable (scanChunks bare s chunks).1.signals
  | [], _, h => h
  | c :: cs, s, h => by
    refine Restorable.scanChunks cs ?_
    rw [scan_eq, finishScan_signals]
    refine Restorable.steps h fun step hstep => ?_
    obtain ⟨t, n, hnext⟩ := mem_drain _ hstep
    obtain ⟨step', hstep', heq⟩ := Option.map_eq_some_iff.mp hnext
    cases heq
    exact nextStep_heard hstep'

/-! ### What is restored -/

/-- The sequence of an operation. -/
def spell : SignalOp → Bytes
  | .osc ps payload => spellOsc ps payload [bel]
  | .cursorStyle params => esc :: 91 :: (params ++ (ascii " " ++ [113]))
  | _ => []

/-- The sequence reads as the operation. -/
def Replays : SignalOp → Prop
  | .osc ps payload => OscParts ps payload [bel]
  | .cursorStyle params => CsiParts params (ascii " ") 113 ∧ params.head? ≠ some 62
  | _ => False

/-- What the scan makes of a restored sequence. -/
def replay (op : SignalOp) : Step where
  len := (spell op).length
  filtered := spell op
  signalBytes := match op with | .osc _ _ => (spell op).length | _ => 0
  signals := [op]

section Replay

variable {bare : Bool}

theorem oscStep_replay {ps payload : Bytes} (h : OscParts ps payload [bel]) :
    oscStep (spellOsc ps payload [bel]).length ps true payload [bel] = replay (.osc ps payload) := by
  have hpasses := h.passes
  have hlisted : ¬ ((!true) = true ∨ (!isPassthroughOsc ps payload) = true) := by simp [hpasses.listed]
  have hprompt : ¬ (ps = ascii "133" ∧ (splitOn 59 payload).head? = some (ascii "A")) := by
    rintro ⟨hps, -⟩
    have hlisted := isPassthroughOsc_iff.mp hpasses.listed
    rw [hps] at hlisted
    rcases hlisted with (h | h | h) | ⟨h, -⟩ <;> exact absurd h (by decide)
  unfold oscStep
  rw [if_neg hpasses.status]
  simp only
  rw [if_neg hpasses.answer, if_neg hpasses.colour, if_neg hlisted, if_neg hprompt]
  rfl

/-- **The sequence of an operation reads as it, whatever follows.** -/
theorem nextStep_spell {op : SignalOp} (h : Replays op) (t : Bytes) : nextStep bare (spell op ++ t) = some (replay op) := by
  cases op with
  | osc ps payload =>
    have hread := OscParts.osc_read h t
    rw [oscStep_replay h] at hread
    exact (nextStep_esc _).trans hread
  | cursorStyle params =>
    obtain ⟨hparts, hstyle⟩ := h
    have htext : spell (.cursorStyle params) ++ t = esc :: 91 :: (params ++ (ascii " " ++ 113 :: t)) := by simp [spell]
    have hread := hparts.csi_read (classifyCsi_style.mpr hstyle) t
    rw [if_pos ⟨rfl, rfl⟩] at hread
    rw [htext, nextStep_esc]
    exact hread
  | clearStatuses => exact h.elim
  | dropTransient => exact h.elim

/-- **The sequences read as the operations**, and nothing is left. -/
theorem drain_spell : ∀ {ops : List SignalOp}, (∀ op ∈ ops, Replays op) →
    drain (lexer bare) (ops.flatMap spell) = (ops.map replay, [])
  | [], _ => drain_nil
  | op :: ops, h => by
    have hnext : (lexer bare).next (spell op ++ ops.flatMap spell) = some (replay op, (replay op).len) := by
      rw [lexer_next, nextStep_spell (h op List.mem_cons_self)]
      rfl
    rw [List.flatMap_cons, drain_some hnext]
    have hlen : (replay op).len = (spell op).length := rfl
    rw [hlen, List.drop_left, drain_spell fun op' hop' => h op' (List.mem_cons_of_mem _ hop')]
    rfl

theorem steps_replay (s : PtyScanner) (ops : List SignalOp) :
    (s.steps (ops.map replay)).signals = ops.foldl (fun signals op => (op.apply signals).1) s.signals := by
  unfold PtyScanner.steps
  induction ops generalizing s with
  | nil => rfl
  | cons op ops ih =>
    rw [List.map_cons, List.foldl_cons, List.foldl_cons, ih]
    rfl

theorem outs_replay (out : ScanOut) (ops : List SignalOp) : (out.steps (ops.map replay)).filtered = out.filtered ++ ops.flatMap spell ∧
    (out.steps (ops.map replay)).queries = out.queries ∧ (out.steps (ops.map replay)).responses = out.responses := by
  unfold ScanOut.steps
  induction ops generalizing out with
  | nil => simp
  | cons op ops ih =>
    obtain ⟨hfiltered, hqueries, hresponses⟩ := ih (out.step (replay op))
    rw [List.map_cons, List.foldl_cons]
    refine ⟨?_, ?_, ?_⟩
    · rw [hfiltered]
      simp [ScanOut.step, replay]
    · rw [hqueries]
      simp [ScanOut.step, replay]
    · rw [hresponses]
      simp [ScanOut.step, replay]

end Replay

namespace TerminalSignals

variable (s : TerminalSignals)

/-- The titles: one command if they are the same. -/
def titleOps : List SignalOp :=
  match s.iconTitle, s.windowTitle with
  | some icon, some window =>
    if icon = window then [.osc (ascii "0") icon] else [.osc (ascii "1") icon, .osc (ascii "2") window]
  | some icon, none => [.osc (ascii "1") icon]
  | none, some window => [.osc (ascii "2") window]
  | none, none => []

/-- What the restored sequences say. -/
def restoreOps : List SignalOp :=
  s.titleOps ++ (s.progress.map (.osc (ascii "9"))).toList ++ (s.cursorStyle.map .cursorStyle).toList

/-- Only what follows a session onto another terminal. -/
def retained : TerminalSignals := { s with foreground := none, background := none, programStatuses := ⟨[]⟩ }

theorem pushOsc_eq (out ps payload : Bytes) : pushOsc out ps payload = out ++ spell (.osc ps payload) := rfl

theorem restoreBytes_eq : s.restoreBytes = s.restoreOps.flatMap spell := by
  unfold restoreBytes restoreOps
  rw [List.flatMap_append, List.flatMap_append]
  simp only
  have htitle : (match s.iconTitle, s.windowTitle with
      | some icon, some window =>
        if icon = window then pushOsc [] (ascii "0") icon else pushOsc (pushOsc [] (ascii "1") icon) (ascii "2") window
      | some icon, none => pushOsc [] (ascii "1") icon
      | none, some window => pushOsc [] (ascii "2") window
      | none, none => []) = s.titleOps.flatMap spell := by
    unfold titleOps
    rcases s.iconTitle with _ | icon <;> rcases s.windowTitle with _ | window
    · rfl
    · simp [pushOsc_eq]
    · simp [pushOsc_eq]
    · dsimp only
      split_ifs <;> simp [pushOsc_eq]
  rw [htitle]
  rcases s.progress with _ | progress <;> rcases s.cursorStyle with _ | style
  · simp
  · simp [spell, ascii]
  · simp [pushOsc_eq]
  · simp [pushOsc_eq, spell, ascii]

end TerminalSignals

section Restored

variable {s : TerminalSignals}

theorem replays_title {ps p : Bytes} (h : Payload p) (hps : ps = ascii "0" ∨ ps = ascii "1" ∨ ps = ascii "2") :
    Replays (.osc ps p) := by
  have hpasses : Passes ps p := by
    refine ⟨?_, h.answer, ?_, isPassthroughOsc_iff.mpr (.inl hps)⟩
    all_goals rcases hps with rfl | rfl | rfl <;> simp [ascii]
  have hdigits : (∀ b ∈ ps, isDigit b = true) ∧ ps.length = 1 := by
    rcases hps with rfl | rfl | rfl <;> simp [ascii, isDigit]
  exact ⟨hdigits.1, by omega, by omega, h.body, .inl rfl, hpasses⟩

theorem replays_progress {p : Bytes} (h : Payload p) (hp : ascii "4;" <+: p) : Replays (.osc (ascii "9") p) :=
  ⟨by simp [ascii, isDigit], by simp [ascii], by simp [ascii], h.body, .inl rfl,
    ⟨by simp [ascii], h.answer, by simp [ascii], isPassthroughOsc_iff.mpr (.inr ⟨rfl, hp⟩)⟩⟩

theorem Restorable.replays_titles (h : Restorable s) : ∀ op ∈ s.titleOps, Replays op := by
  intro op hop
  unfold TerminalSignals.titleOps at hop
  split at hop
  · rename_i icon window hicon hwindow
    split_ifs at hop
    · rw [List.mem_singleton.mp hop]
      exact replays_title (h.iconTitle icon hicon) (.inl rfl)
    · rcases List.mem_pair.mp hop with rfl | rfl
      · exact replays_title (h.iconTitle icon hicon) (.inr (.inl rfl))
      · exact replays_title (h.windowTitle window hwindow) (.inr (.inr rfl))
  · rename_i icon hicon hwindow
    rw [List.mem_singleton.mp hop]
    exact replays_title (h.iconTitle icon hicon) (.inr (.inl rfl))
  · rename_i window hicon hwindow
    rw [List.mem_singleton.mp hop]
    exact replays_title (h.windowTitle window hwindow) (.inr (.inr rfl))
  · cases hop

theorem Restorable.replays (h : Restorable s) : ∀ op ∈ s.restoreOps, Replays op := by
  intro op hop
  rcases List.mem_append.mp hop with hop | hop
  · rcases List.mem_append.mp hop with hop | hop
    · exact h.replays_titles op hop
    · obtain ⟨p, hp, rfl⟩ := Option.map_eq_some_iff.mp (Option.mem_toList.mp hop)
      obtain ⟨hpayload, hprogress, -⟩ := h.progress p hp
      exact replays_progress hpayload hprogress
  · obtain ⟨p, hp, rfl⟩ := Option.map_eq_some_iff.mp (Option.mem_toList.mp hop)
    obtain ⟨-, -, hparams, hstyle⟩ := h.cursorStyle p hp
    exact ⟨⟨hparams, by simp [ascii, isIntermediate], by decide⟩, hstyle⟩

/-! The operations, one by one. -/

theorem apply_titles (h : Restorable s) : s.titleOps.foldl (fun t op => (op.apply t).1) .default =
    { TerminalSignals.default with iconTitle := s.iconTitle, windowTitle := s.windowTitle } := by
  unfold TerminalSignals.titleOps
  rcases hicon : s.iconTitle with _ | icon <;> rcases hwindow : s.windowTitle with _ | window
  · rfl
  · have hshort := (h.windowTitle window hwindow).short
    simp [SignalOp.apply, TerminalSignals.recordOsc, ascii, TerminalSignals.default, Nat.not_lt.mpr hshort]
  · have hshort := (h.iconTitle icon hicon).short
    simp [SignalOp.apply, TerminalSignals.recordOsc, ascii, TerminalSignals.default, Nat.not_lt.mpr hshort]
  · have hshort := (h.iconTitle icon hicon).short
    have hshort' := (h.windowTitle window hwindow).short
    dsimp only
    split_ifs with hsame
    · subst hsame
      simp [SignalOp.apply, TerminalSignals.recordOsc, ascii, TerminalSignals.default, Nat.not_lt.mpr hshort]
    · simp [SignalOp.apply, TerminalSignals.recordOsc, ascii, TerminalSignals.default, Nat.not_lt.mpr hshort,
        Nat.not_lt.mpr hshort']

theorem apply_progress {p : Bytes} (hp : Payload p) (hprogress : ascii "4;" <+: p)
    (hshown : (splitOn 59 (p.drop 2)).head? ≠ some (ascii "0")) (t : TerminalSignals) :
    ((SignalOp.osc (ascii "9") p).apply t).1 = { t with progress := some p } := by
  have hshort := Nat.not_lt.mpr hp.short
  have hnine : ascii "9" ≠ ascii "7501" ∧ ascii "9" ≠ ascii "0" ∧ ascii "9" ≠ ascii "1" ∧ ascii "9" ≠ ascii "2" ∧
      ascii "9" ≠ ascii "10" ∧ ascii "9" ≠ ascii "11" := by decide
  obtain ⟨h0, h1, h2, h3, h4, h5⟩ := hnine
  simp only [SignalOp.apply, TerminalSignals.recordOsc]
  rw [if_neg h0, if_neg hshort, if_neg h1, if_neg h2, if_neg h3, if_neg h4, if_neg h5, if_pos ⟨trivial, hprogress⟩]
  simp only [if_neg hshown]

/-- **The operations bring a fresh terminal to what is retained.** -/
theorem apply_restoreOps (h : Restorable s) :
    s.restoreOps.foldl (fun t op => (op.apply t).1) .default = s.retained := by
  unfold TerminalSignals.restoreOps
  rw [List.foldl_append, List.foldl_append, apply_titles h]
  have hprogress : ∀ t : TerminalSignals, t.progress = none →
      (s.progress.map (SignalOp.osc (ascii "9"))).toList.foldl (fun t op => (op.apply t).1) t =
        { t with progress := s.progress } := by
    intro t ht
    rcases hp : s.progress with _ | p
    · cases t
      cases ht
      rfl
    · obtain ⟨hpayload, hfour, hshown⟩ := h.progress p hp
      exact apply_progress hpayload hfour hshown t
  have hstyle : ∀ t : TerminalSignals, t.cursorStyle = none →
      (s.cursorStyle.map SignalOp.cursorStyle).toList.foldl (fun t op => (op.apply t).1) t =
        { t with cursorStyle := s.cursorStyle } := by
    intro t ht
    rcases hp : s.cursorStyle with _ | p
    · cases t
      cases ht
      rfl
    · obtain ⟨hne, hzero, -, -⟩ := h.cursorStyle p hp
      have hset : ¬ (p = [] ∨ p = ascii "0") := by simp [hne, hzero]
      simp [SignalOp.apply, TerminalSignals.setCursorStyle, if_neg hset]
  rw [hprogress _ rfl, hstyle _ rfl]
  rfl

end Restored

/-! ### A client that attaches late -/

/-- A fresh scanner that reads the restored sequences ends with what is retained; it passes all
of them on, asks and answers nothing, and waits for nothing. -/
structure Restored (bare : Bool) (s : TerminalSignals) : Prop where
  signals : (PtyScanner.new.scan bare s.restoreBytes).1.signals = s.retained
  filtered : (PtyScanner.new.scan bare s.restoreBytes).2.filtered = s.restoreBytes
  queries : (PtyScanner.new.scan bare s.restoreBytes).2.queries = []
  responses : (PtyScanner.new.scan bare s.restoreBytes).2.responses = []
  pending : (PtyScanner.new.scan bare s.restoreBytes).1.pending = []

theorem Restorable.restored {s : TerminalSignals} (h : Restorable s) (bare : Bool) : Restored bare s := by
  have hscan : PtyScanner.new.scan bare s.restoreBytes =
      ({ PtyScanner.new.steps (s.restoreOps.map replay) with pending := [] }, ScanOut.empty.steps (s.restoreOps.map replay)) := by
    have hdrain : drain (lexer bare) (PtyScanner.new.pending ++ s.restoreBytes) = (s.restoreOps.map replay, []) := by
      rw [s.restoreBytes_eq]
      exact drain_spell h.replays
    have hnothing : (drain (lexer bare) (PtyScanner.new.pending ++ s.restoreBytes)).2.length < maxPendingEscapeBytes := by
      rw [hdrain]
      exact (by decide : 0 < maxPendingEscapeBytes)
    rw [scan_eq_of_lt _ _ hnothing, hdrain]
  obtain ⟨hfiltered, hqueries, hresponses⟩ := outs_replay .empty s.restoreOps
  refine ⟨?_, ?_, ?_, ?_, ?_⟩ <;> rw [hscan]
  · exact (steps_replay .new s.restoreOps).trans (apply_restoreOps h)
  · rw [hfiltered, s.restoreBytes_eq]
    rfl
  · exact hqueries
  · exact hresponses

/-- Two scanners that retain the same of what follows a session. -/
def SameRetained (s t : TerminalSignals) : Prop := s.retained = t.retained

theorem retained_ite {p : Prop} [Decidable p] {a b a' b' : TerminalSignals × Bool} (h : a.1.retained = a'.1.retained)
    (h' : b.1.retained = b'.1.retained) : (if p then a else b).1.retained = (if p then a' else b').1.retained := by
  split <;> assumption

/-- What is retained of a signal's outcome follows from what was retained. -/
theorem retained_apply (s : TerminalSignals) (op : SignalOp) :
    (op.apply s).1.retained = (op.apply s.retained).1.retained := by
  cases op with
  | cursorStyle params => rfl
  | clearStatuses => rfl
  | dropTransient => rfl
  | osc ps payload =>
    show (s.recordOsc ps payload).1.retained = (s.retained.recordOsc ps payload).1.retained
    unfold TerminalSignals.recordOsc
    -- one for each kind of command
    exact retained_ite rfl (retained_ite rfl (retained_ite rfl (retained_ite rfl (retained_ite rfl
      (retained_ite rfl (retained_ite rfl (retained_ite rfl rfl)))))))

theorem SameRetained.apply {s t : TerminalSignals} (h : SameRetained s t) (op : SignalOp) :
    SameRetained (op.apply s).1 (op.apply t).1 := by
  have hsame : s.retained = t.retained := h
  rw [SameRetained, retained_apply s, retained_apply t, hsame]

theorem SameRetained.steps {a b : PtyScanner} (h : SameRetained a.signals b.signals) (steps : List Step) :
    SameRetained (a.steps steps).signals (b.steps steps).signals := by
  have hstep : ∀ (ops : List SignalOp) {a b : PtyScanner}, SameRetained a.signals b.signals →
      SameRetained (ops.foldl PtyScanner.signal a).signals (ops.foldl PtyScanner.signal b).signals := by
    intro ops
    induction ops with
    | nil => exact id
    | cons op ops ih => exact fun h => ih (h.apply op)
  unfold PtyScanner.steps
  induction steps generalizing a b with
  | nil => exact h
  | cons step steps ih => exact ih (hstep step.signals h)

/-- What is kept for the next chunk. -/
theorem scan_pending {bare : Bool} (s : PtyScanner) (data : Bytes) : (s.scan bare data).1.pending =
    if maxPendingEscapeBytes ≤ (drain (lexer bare) (s.pending ++ data)).2.length then []
    else (drain (lexer bare) (s.pending ++ data)).2 := by
  rw [scan_eq, PtyScanner.steps_pending]
  unfold finishScan
  split_ifs <;> rfl

theorem SameRetained.scanChunks {bare : Bool} : ∀ (chunks : List Bytes) {a b : PtyScanner}, a.pending = b.pending →
    SameRetained a.signals b.signals →
      SameRetained (scanChunks bare a chunks).1.signals (scanChunks bare b chunks).1.signals
  | [], _, _, _, h => h
  | c :: cs, a, b, hpending, h => by
    have hsame : SameRetained (a.scan bare c).1.signals (b.scan bare c).1.signals := by
      rw [scan_eq, scan_eq, finishScan_signals, finishScan_signals, hpending]
      exact SameRetained.steps (a := { a with pending := [] }) (b := { b with pending := [] }) h _
    refine SameRetained.scanChunks cs ?_ hsame
    rw [scan_pending, scan_pending, hpending]

theorem scanChunks_append {bare : Bool} : ∀ (before after : List Bytes) (s : PtyScanner),
    (scanChunks bare s (before ++ after)).1 = (scanChunks bare (scanChunks bare s before).1 after).1
  | [], _, _ => rfl
  | _ :: cs, after, _ => scanChunks_append cs after _

/-- **The restored signals are the retained ones**, whatever bytes a session's scanner has read, and on
whatever platform the fresh scanner reads them; so a terminal that is attached late retains the same
after whatever follows as one that has read all of it. -/
theorem restore_exact (bare bare' : Bool) (chunks : List Bytes) :
    Restored bare' (scanChunks bare .new chunks).1.signals ∧
      ∀ more, SameRetained
        (scanChunks bare { (scanChunks bare .new chunks).1 with
          signals := (PtyScanner.new.scan bare' (scanChunks bare .new chunks).1.signals.restoreBytes).1.signals } more).1.signals
        (scanChunks bare .new (chunks ++ more)).1.signals := by
  have hrestored : Restored bare' (scanChunks bare .new chunks).1.signals :=
    (Restorable.scanChunks chunks restorable_default).restored bare'
  refine ⟨hrestored, fun more => ?_⟩
  rw [scanChunks_append]
  refine SameRetained.scanChunks more rfl ?_
  rw [hrestored.signals]
  rfl

end Pty
end OpenRelay
