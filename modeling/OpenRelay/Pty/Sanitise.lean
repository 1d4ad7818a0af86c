/-
# What the filtered stream holds

The scanner removes probes and reports so that a client's terminal never sees
them. A sequence it passes on reads back as itself, whatever follows
(`Reading.piece`). An introducer it passes on alone does not: the sequence that
made it malformed may be removed after it, and then the text behind that sequence
stands right after the introducer. So a second scan of the filtered stream leaves
it as it is exactly when no such introducer is joined to a text that makes it a
sequence to remove or to wait for (`rescan_iff`).

Key theorems: `nextStep_reading`, `unchanged_of_noJoin`, `noJoin_of_passed`.
-/
import OpenRelay.Pty.Lexer

namespace OpenRelay
namespace Pty

open Chunks

/-! ### Bytes -/

theorem isParam_iff {b : UInt8} : isParam b = true ↔ 48 ≤ b.toNat ∧ b.toNat ≤ 63 := by
  simp [isParam, UInt8.le_iff_toNat_le]

theorem isIntermediate_iff {b : UInt8} : isIntermediate b = true ↔ 32 ≤ b.toNat ∧ b.toNat ≤ 47 := by
  simp [isIntermediate, UInt8.le_iff_toNat_le]

theorem isFinal_iff {b : UInt8} : isFinal b = true ↔ 64 ≤ b.toNat ∧ b.toNat ≤ 126 := by
  simp [isFinal, UInt8.le_iff_toNat_le]

theorem isDigit_iff {b : UInt8} : isDigit b = true ↔ 48 ≤ b.toNat ∧ b.toNat ≤ 57 := by
  simp [isDigit, UInt8.le_iff_toNat_le]

theorem ne_esc_of_le {b : UInt8} (h : 32 ≤ b.toNat) : b ≠ esc := by
  rintro rfl
  revert h
  decide

theorem not_isDigit_semicolon : isDigit 59 = false := by decide

/-- A run of bytes and the byte that ends it. -/
theorem span_run {p : UInt8 → Bool} {run : Bytes} {b : UInt8} (hrun : ∀ x ∈ run, p x = true) (hb : p b = false)
    (rest : Bytes) :
    (run ++ b :: rest).takeWhile p = run ∧ (run ++ b :: rest).dropWhile p = b :: rest := by
  rw [List.takeWhile_append_of_pos hrun, List.dropWhile_append_of_pos hrun, List.takeWhile_cons_of_neg (by simp [hb]),
    List.dropWhile_cons_of_neg (by simp [hb]), List.append_nil]
  exact ⟨rfl, rfl⟩

theorem takeWhile_all {p : UInt8 → Bool} {s : Bytes} {b : UInt8} (h : b ∈ s.takeWhile p) : p b = true :=
  List.all_eq_true.mp List.all_takeWhile b h

/-! ### Control sequences -/

/-- The parts of a complete control sequence. -/
structure CsiParts (params inter : Bytes) (finalByte : UInt8) : Prop where
  params : ∀ b ∈ params, isParam b = true
  inter : ∀ b ∈ inter, isIntermediate b = true
  final : isFinal finalByte = true

namespace CsiParts

variable {params inter : Bytes} {finalByte : UInt8}

/-- There is no escape in it. -/
theorem ne_esc (h : CsiParts params inter finalByte) : ∀ b ∈ params ++ (inter ++ [finalByte]), b ≠ esc := by
  intro b hb
  apply ne_esc_of_le
  rcases List.mem_append.mp hb with hb | hb
  · have := isParam_iff.mp (h.params b hb)
    omega
  rcases List.mem_append.mp hb with hb | hb
  · exact (isIntermediate_iff.mp (h.inter b hb)).1
  · rw [List.mem_singleton.mp hb]
    have := isFinal_iff.mp h.final
    omega

/-- The spans that `csi` reads. -/
theorem spans (h : CsiParts params inter finalByte) (t : Bytes) :
    (params ++ (inter ++ finalByte :: t)).takeWhile isParam = params ∧
    (params ++ (inter ++ finalByte :: t)).dropWhile isParam = inter ++ finalByte :: t ∧
    (inter ++ finalByte :: t).takeWhile isIntermediate = inter ∧
    (inter ++ finalByte :: t).dropWhile isIntermediate = finalByte :: t := by
  have hfinal := isFinal_iff.mp h.final
  have hf : isIntermediate finalByte = false := by
    rw [← Bool.not_eq_true, isIntermediate_iff]
    omega
  have hp : isParam finalByte = false := by
    rw [← Bool.not_eq_true, isParam_iff]
    omega
  obtain ⟨h3, h4⟩ := span_run h.inter hf t
  rcases inter with _ | ⟨x, inter⟩
  · obtain ⟨h1, h2⟩ := span_run h.params hp t
    exact ⟨h1, h2, h3, h4⟩
  · have hx : isParam x = false := by
      have := isIntermediate_iff.mp (h.inter x List.mem_cons_self)
      rw [← Bool.not_eq_true, isParam_iff]
      omega
    obtain ⟨h1, h2⟩ := span_run h.params hx (inter ++ finalByte :: t)
    exact ⟨h1, h2, h3, h4⟩

/-- A sequence that is passed on, with anything after it. -/
theorem csi_read (h : CsiParts params inter finalByte) (hemit : classifyCsi params inter finalByte = .emit) (t : Bytes) :
    csi (esc :: 91 :: (params ++ (inter ++ finalByte :: t))) =
      some { Step.emit (esc :: 91 :: (params ++ (inter ++ [finalByte]))) with
        signals := if finalByte = 113 ∧ inter = ascii " " then [.cursorStyle params] else [] } := by
  obtain ⟨h1, h2, h3, h4⟩ := h.spans t
  have htake : (esc :: 91 :: (params ++ (inter ++ finalByte :: t))).take (2 + params.length + inter.length + 1) =
      esc :: 91 :: (params ++ (inter ++ [finalByte])) := by
    have : esc :: 91 :: (params ++ (inter ++ finalByte :: t)) =
        (esc :: 91 :: (params ++ (inter ++ [finalByte]))) ++ t := by simp
    rw [this, List.take_left' (by simp; omega)]
  unfold csi
  simp only [List.drop_succ_cons, List.drop_zero, h1, h2, h3, h4, h.final, hemit, htake]
  rfl

theorem csi_emit (h : CsiParts params inter finalByte) (hemit : classifyCsi params inter finalByte = .emit) (t : Bytes) :
    ∃ signals, csi (esc :: 91 :: (params ++ (inter ++ finalByte :: t))) =
      some { Step.emit (esc :: 91 :: (params ++ (inter ++ [finalByte]))) with signals := signals } :=
  ⟨_, h.csi_read hemit t⟩

end CsiParts

/-- What a control sequence comes to: its introducer alone, nothing, or itself. -/
theorem csi_cases {rest : Bytes} {step : Step} (h : csi (esc :: 91 :: rest) = some step) :
    step = .emit [esc, 91] ∨ step.filtered = [] ∨
      ∃ params inter finalByte t, rest = params ++ (inter ++ finalByte :: t) ∧ CsiParts params inter finalByte ∧
        classifyCsi params inter finalByte = .emit := by
  rcases hr : (rest.dropWhile isParam).dropWhile isIntermediate with _ | ⟨finalByte, t⟩
  · simp [csi, hr] at h
  by_cases hf : isFinal finalByte = true
  · have hrest : rest = rest.takeWhile isParam ++
        ((rest.dropWhile isParam).takeWhile isIntermediate ++ finalByte :: t) := by
      rw [← hr, List.takeWhile_append_dropWhile, List.takeWhile_append_dropWhile]
    have hparts : CsiParts (rest.takeWhile isParam) ((rest.dropWhile isParam).takeWhile isIntermediate) finalByte :=
      ⟨fun _ => takeWhile_all, fun _ => takeWhile_all, hf⟩
    rcases hc : classifyCsi (rest.takeWhile isParam) ((rest.dropWhile isParam).takeWhile isIntermediate) finalByte
      with _ | _ | query
    · exact .inr (.inr ⟨_, _, _, _, hrest, hparts, hc⟩)
    · simp only [csi, List.drop_succ_cons, List.drop_zero, hr, hf, hc] at h
      cases h
      exact .inr (.inl rfl)
    · simp only [csi, List.drop_succ_cons, List.drop_zero, hr, hf, hc] at h
      cases h
      exact .inr (.inl rfl)
  · simp [csi, hr, hf] at h
    exact .inl h.symm

/-! ### Operating system commands -/

/-- The body of a string: neither a bell nor an escape. -/
def IsBody (body : Bytes) : Prop := ∀ b ∈ body, b ≠ bel ∧ b ≠ esc

/-- What ends a command: a bell, or an escape with a backslash. -/
def IsTerminator (term : Bytes) : Prop := term = [bel] ∨ term = [esc, 92]

theorem findTerminator_spelt {body term : Bytes} (hbody : IsBody body) (hterm : IsTerminator term) (t : Bytes) :
    findTerminator true (body ++ (term ++ t)) = .found body.length term.length := by
  induction body with
  | nil =>
    rcases hterm with rfl | rfl
    · exact findTerminator_bel _
    · exact findTerminator_esc _ _
  | cons b body ih =>
    obtain ⟨hbel, hesc⟩ := hbody b List.mem_cons_self
    rw [List.cons_append, findTerminator_plain hbel hesc, ih fun x hx => hbody x (List.mem_cons_of_mem _ hx)]
    rfl

/-- The parts of a string that ends. -/
theorem findTerminator_parts {escaped : Bool} : ∀ {s : Bytes} {payload len : ℕ},
    findTerminator escaped s = .found payload len →
    IsBody (s.take payload) ∧ IsTerminator ((s.drop payload).take len) ∧
      s = s.take payload ++ ((s.drop payload).take len ++ s.drop (payload + len)) ∧
      (s.take payload).length = payload ∧ ((s.drop payload).take len).length = len := by
  intro s
  induction s with
  | nil => nofun
  | cons b s ih =>
    intro payload len h
    have hnil : IsBody [] := fun x hx => absurd hx List.not_mem_nil
    rcases string_cases (b :: s) with h0 | ⟨s', h0⟩ | h0 | ⟨c, s', h0⟩ | ⟨b', s', h0, hbel, hesc⟩
    · cases h0
    · rw [h0, findTerminator_bel] at h
      cases h
      rw [h0]
      exact ⟨hnil, .inl rfl, rfl, rfl, rfl⟩
    · rw [h0, findTerminator_esc_nil] at h
      cases h
    · rw [h0, findTerminator_esc] at h
      split at h
      · rename_i hc
        cases h
        rw [h0, hc.2]
        exact ⟨hnil, .inr rfl, rfl, rfl, rfl⟩
      · cases h
    · cases h0
      rw [findTerminator_plain hbel hesc] at h
      rcases hs : findTerminator escaped s with _ | _ | ⟨p, l⟩
      · rw [hs] at h
        cases h
      · rw [hs] at h
        cases h
      · rw [hs] at h
        cases h
        obtain ⟨h1, h2, h3, h4, h5⟩ := ih hs
        refine ⟨?_, h2, ?_, ?_, h5⟩
        · intro x hx
          rcases List.mem_cons.mp hx with rfl | hx
          · exact ⟨hbel, hesc⟩
          · exact h1 x hx
        · rw [List.take_succ_cons, List.drop_succ_cons, List.cons_append, Nat.add_right_comm, List.drop_succ_cons, ← h3]
        · rw [List.take_succ_cons, List.length_cons, h4]

/-- The commands that are passed on. -/
structure Passes (ps payload : Bytes) : Prop where
  status : ps ≠ ascii "7501"
  answer : payload.head? ≠ some 63
  colour : ¬ (ps = ascii "10" ∨ ps = ascii "11")
  listed : isPassthroughOsc ps payload = true

/-- The text of a command that is passed on. -/
def spellOsc (ps payload terminator : Bytes) : Bytes := esc :: 93 :: ps ++ 59 :: payload ++ terminator

theorem oscStep_of_passes {ps payload : Bytes} (h : Passes ps payload) (len : ℕ) (terminator : Bytes) :
    (oscStep len ps true payload terminator).filtered = spellOsc ps payload terminator ∧
    (oscStep len ps true payload terminator).queries = [] ∧ (oscStep len ps true payload terminator).responses = [] := by
  have hlisted : ¬ ((!true) = true ∨ (!isPassthroughOsc ps payload) = true) := by simp [h.listed]
  unfold oscStep
  rw [if_neg h.status]
  simp only
  rw [if_neg h.answer, if_neg h.colour, if_neg hlisted]
  exact ⟨rfl, rfl, rfl⟩

theorem passes_of_oscStep {len : ℕ} {ps payload terminator : Bytes} {semi : Bool}
    (h : (oscStep len ps semi payload terminator).filtered ≠ []) : semi = true ∧ Passes ps payload := by
  unfold oscStep at h
  by_cases hstatus : ps = ascii "7501"
  · rw [if_pos hstatus] at h
    repeat' split at h
    all_goals exact absurd rfl h
  rw [if_neg hstatus] at h
  simp only at h
  by_cases hanswer : payload.head? = some 63
  · rw [if_pos hanswer] at h
    exact absurd rfl h
  rw [if_neg hanswer] at h
  by_cases hcolour : ps = ascii "10" ∨ ps = ascii "11"
  · rw [if_pos hcolour] at h
    exact absurd rfl h
  rw [if_neg hcolour] at h
  split at h
  · exact absurd rfl h
  · rename_i hlisted
    rw [not_or, Bool.not_eq_true, Bool.not_eq_true, Bool.not_eq_false', Bool.not_eq_false'] at hlisted
    exact ⟨hlisted.1, hstatus, hanswer, hcolour, hlisted.2⟩

/-- The parts of a complete command that is passed on. -/
structure OscParts (ps body term : Bytes) : Prop where
  digits : ∀ b ∈ ps, isDigit b = true
  pos : ps.length ≠ 0
  le : ps.length ≤ 5
  isBody : IsBody body
  isTerm : IsTerminator term
  passes : Passes ps body

namespace OscParts

variable {ps body term : Bytes}

/-- A command that ends, with anything after it. -/
theorem osc_read (h : OscParts ps body term) (t : Bytes) :
    osc (spellOsc ps body term ++ t) 2 true = some (oscStep (spellOsc ps body term).length ps true body term) := by
  have htext : spellOsc ps body term ++ t = esc :: 93 :: (ps ++ 59 :: (body ++ (term ++ t))) := by simp [spellOsc]
  obtain ⟨h1, h2⟩ := span_run h.digits not_isDigit_semicolon (body ++ (term ++ t))
  have hps : ¬ (ps.length = 0 ∨ 5 < ps.length) := by
    have := h.pos
    have := h.le
    omega
  have hsemi : afterSemi (59 :: (body ++ (term ++ t))) = body ++ (term ++ t) := rfl
  have hlen : (esc :: 93 :: (ps ++ 59 :: (body ++ (term ++ t)))).length - (body ++ (term ++ t)).length + body.length +
      term.length = (spellOsc ps body term).length := by
    simp only [spellOsc, List.length_cons, List.length_append]
    omega
  rw [htext, ← hlen]
  unfold osc
  simp only [List.drop_succ_cons, List.drop_zero, h1, h2, if_neg hps, hsemi, findTerminator_spelt h.isBody h.isTerm,
    List.take_left, List.drop_left]
  rfl

theorem osc_emit (h : OscParts ps body term) (t : Bytes) :
    ∃ step, osc (spellOsc ps body term ++ t) 2 true = some step ∧ step.len = (spellOsc ps body term).length ∧
      step.filtered = spellOsc ps body term ∧ step.queries = [] ∧ step.responses = [] := by
  obtain ⟨h3, h4, h5⟩ := oscStep_of_passes h.passes (spellOsc ps body term).length term
  exact ⟨_, h.osc_read t, oscStep_len _ _ _ _ _, h3, h4, h5⟩

end OscParts

/-- What a command comes to: its introducer alone, nothing, or its text with the
escape. -/
theorem osc_cases {intro rest : Bytes} {escaped : Bool} {step : Step}
    (h : osc (intro ++ rest) intro.length escaped = some step) :
    step = .emit intro ∨ step.filtered = [] ∨
      ∃ ps body term t, rest = ps ++ 59 :: (body ++ (term ++ t)) ∧ OscParts ps body term ∧
        step.len = intro.length + ps.length + 1 + body.length + term.length ∧
        step.filtered = spellOsc ps body term ∧ step.queries = [] ∧ step.responses = [] := by
  unfold osc at h
  simp only [List.drop_left, List.take_left] at h
  split at h
  · split at h
    · cases h
    · cases h
      exact .inl rfl
  rename_i hps
  rcases hf : findTerminator escaped (afterSemi (rest.dropWhile isDigit)) with _ | _ | ⟨payload, len⟩
  · rw [hf] at h
    cases h
  · rw [hf] at h
    cases h
    exact .inl rfl
  rw [hf] at h
  simp only at h
  by_cases hempty : step.filtered = []
  · exact .inr (.inl hempty)
  cases h
  obtain ⟨hsemi, hpasses⟩ := passes_of_oscStep hempty
  obtain ⟨h1, h2, h3, h4, h5⟩ := findTerminator_parts hf
  -- a semicolon stands before the payload
  obtain ⟨more, hmore⟩ : ∃ more, rest.dropWhile isDigit = 59 :: more := by
    rcases hd : rest.dropWhile isDigit with _ | ⟨b, more⟩
    · rw [hd] at hsemi
      cases hsemi
    · rw [hd] at hsemi
      have hb : b = 59 := by simpa [hasSemi] using hsemi
      exact ⟨more, by rw [hb]⟩
  have hafter : afterSemi (rest.dropWhile isDigit) = more := by rw [hmore]; rfl
  rw [hafter] at h1 h2 h3 h4 h5 hpasses
  have hrest : rest = rest.takeWhile isDigit ++ 59 :: more := by
    rw [← hmore, List.takeWhile_append_dropWhile]
  obtain ⟨h6, h7, h8⟩ := oscStep_of_passes hpasses
    ((intro ++ rest).length - more.length + payload + len) ((more.drop payload).take len)
  rw [hafter, hsemi]
  refine .inr (.inr ⟨rest.takeWhile isDigit, more.take payload, (more.drop payload).take len, more.drop (payload + len),
    by rw [← h3]; exact hrest, ⟨fun _ => takeWhile_all, ?_, ?_, h1, h2, hpasses⟩, ?_, h6, h7, h8⟩)
  · omega
  · omega
  · have hlen := congrArg List.length hrest
    rw [List.length_append, List.length_cons] at hlen
    rw [oscStep_len, h4, h5, List.length_append, hlen]
    omega

/-! ### What a step passes on -/

/-- An introducer that stands alone. -/
def Open (bare : Bool) (u : Bytes) : Prop :=
  u = [esc, 91] ∨ u = [esc, 93] ∨ bare = true ∧ (u = [91] ∨ u = [93])

instance (bare : Bool) (u : Bytes) : Decidable (Open bare u) :=
  inferInstanceAs (Decidable (u = [esc, 91] ∨ u = [esc, 93] ∨ bare = true ∧ (u = [91] ∨ u = [93])))

/-- The introducers of the sequences that are more than two bytes long. -/
def isLong (c : UInt8) : Bool := c == 91 || c == 93 || c == 80 || c == 95 || c == 94 || c == 88

/-- What the step at the front of a text comes to. -/
inductive Reading (bare : Bool) : Bytes → Step → Prop where
  | plain {b : UInt8} (rest : Bytes) : introduces bare b = false → Reading bare (b :: rest) (.emit [b])
  | removed (data : Bytes) {step : Step} : step.filtered = [] → Reading bare data step
  | pair {c : UInt8} (rest : Bytes) {signals : List SignalOp} : isLong c = false →
      Reading bare (esc :: c :: rest) { Step.emit [esc, c] with signals := signals }
  | control {params inter : Bytes} {finalByte : UInt8} (rest : Bytes) {signals : List SignalOp} :
      CsiParts params inter finalByte → classifyCsi params inter finalByte = .emit →
      Reading bare (esc :: 91 :: (params ++ (inter ++ finalByte :: rest)))
        { Step.emit (esc :: 91 :: (params ++ (inter ++ [finalByte]))) with signals := signals }
  | command {introducer ps body term : Bytes} (rest : Bytes) {step : Step} :
      introducer = [esc, 93] ∨ bare = true ∧ introducer = [93] → OscParts ps body term →
      step.len = introducer.length + ps.length + 1 + body.length + term.length →
      step.filtered = spellOsc ps body term → step.queries = [] → step.responses = [] →
      Reading bare (introducer ++ (ps ++ 59 :: (body ++ (term ++ rest)))) step
  | opened {u : Bytes} (rest : Bytes) : Open bare u → Reading bare (u ++ rest) (.emit u)

section Reading

variable {bare : Bool} {data : Bytes} {step : Step}

theorem csi_reading {rest : Bytes} (h : csi (esc :: 91 :: rest) = some step) :
    Reading bare (esc :: 91 :: rest) step := by
  rcases csi_cases h with rfl | hempty | ⟨params, inter, finalByte, t, rfl, hparts, hemit⟩
  · exact Reading.opened rest (.inl rfl)
  · exact .removed _ hempty
  · obtain ⟨signals, hs⟩ := hparts.csi_emit hemit t
    rw [hs] at h
    cases h
    exact .control t hparts hemit

theorem osc_reading {introducer rest : Bytes} {escaped : Bool}
    (hintro : introducer = [esc, 93] ∨ bare = true ∧ introducer = [93])
    (h : osc (introducer ++ rest) introducer.length escaped = some step) : Reading bare (introducer ++ rest) step := by
  rcases osc_cases h with rfl | hempty | ⟨ps, body, term, t, rfl, hparts, hlen, hfiltered, hq, hr⟩
  · refine .opened rest ?_
    rcases hintro with rfl | ⟨hbare, rfl⟩
    · exact .inr (.inl rfl)
    · exact .inr (.inr ⟨hbare, .inr rfl⟩)
  · exact .removed _ hempty
  · exact .command t hintro hparts hlen hfiltered hq hr

theorem escape_reading {c : UInt8} {rest : Bytes} (h : escape (esc :: c :: rest) = some step) :
    Reading bare (esc :: c :: rest) step := by
  simp only [escape, List.getElem?_cons_succ, List.getElem?_cons_zero] at h
  by_cases hcsi : c = 91
  · rw [if_pos hcsi, hcsi] at h
    rw [hcsi]
    exact csi_reading h
  rw [if_neg hcsi] at h
  by_cases hosc : c = 93
  · rw [if_pos hosc, hosc] at h
    have h' : osc ([esc, 93] ++ rest) [esc, 93].length true = some step := h
    rw [hosc]
    exact osc_reading (.inl rfl) h'
  rw [if_neg hosc] at h
  by_cases hstring : c = 80 ∨ c = 95 ∨ c = 94 ∨ c = 88
  · rw [if_pos hstring] at h
    obtain ⟨n, -, rfl⟩ := Option.map_eq_some_iff.mp h
    exact .removed _ rfl
  rw [if_neg hstring] at h
  have hlong : isLong c = false := by
    simp only [not_or] at hstring
    simp [isLong, hcsi, hosc, hstring]
  split at h
  · cases h
    exact .pair rest hlong
  · cases h
    show Reading bare _ { Step.emit [esc, c] with signals := [] }
    exact .pair rest hlong

theorem bareCsi_filtered (data : Bytes) : bareCsi data = .emit (data.take 1) ∨ (bareCsi data).filtered = [] := by
  unfold bareCsi
  simp only
  obtain ⟨mark, hmark⟩ : ∃ mark, mark = (if decide (data[1]? = some 63) = true then 2 else 1) := ⟨_, rfl⟩
  rw [← hmark]
  split
  · exact .inl rfl
  split
  · exact .inl rfl
  · repeat' split
    all_goals first | exact .inl rfl | exact .inr rfl

/-- **The step at the front of a text.** -/
theorem nextStep_reading (h : nextStep bare data = some step) : Reading bare data step := by
  rcases data with _ | ⟨b, rest⟩
  · cases h
  simp only [nextStep] at h
  by_cases hb : introduces bare b = true
  · rw [if_pos hb] at h
    simp only [sequence, List.head?_cons] at h
    by_cases hesc : b = esc
    · rw [if_pos hesc, hesc] at h
      rw [hesc]
      rcases rest with _ | ⟨c, rest⟩
      · cases h
      · exact escape_reading h
    rw [if_neg hesc] at h
    have hbare : bare = true ∧ (b = 91 ∨ b = 93) := by simpa [introduces, hesc] using hb
    by_cases hcsi : b = 91
    · rw [if_pos hcsi] at h
      cases h
      rcases bareCsi_filtered (b :: rest) with hemit | hempty
      · rw [hemit, hcsi]
        exact Reading.opened (u := [91]) rest (.inr (.inr ⟨hbare.1, .inl rfl⟩))
      · exact .removed _ hempty
    · rw [if_neg hcsi] at h
      obtain rfl := hbare.2.resolve_left hcsi
      have h' : osc ([93] ++ rest) [93].length false = some step := h
      exact osc_reading (.inr ⟨hbare.1, rfl⟩) h'
  · rw [if_neg hb] at h
    cases h
    exact .plain rest (by simpa using hb)

/-- The step passes on the bytes it takes, and answers nothing. -/
structure Verbatim (data : Bytes) (step : Step) : Prop where
  filtered : step.filtered = data.take step.len
  queries : step.queries = []
  responses : step.responses = []

/-- The text reads back as itself, whatever follows. -/
def Rereads (bare : Bool) (u : Bytes) : Prop :=
  ∀ t, ∃ step, nextStep bare (u ++ t) = some step ∧ step.len = u.length ∧ Verbatim (u ++ t) step

theorem verbatim_emit {u t : Bytes} {step : Step} (hlen : step.len = u.length) (hf : step.filtered = u)
    (hq : step.queries = []) (hr : step.responses = []) : Verbatim (u ++ t) step :=
  ⟨by rw [hf, hlen, List.take_left], hq, hr⟩

theorem nextStep_esc (rest : Bytes) : nextStep bare (esc :: rest) = escape (esc :: rest) := by
  have : introduces bare esc = true := rfl
  rw [nextStep, if_pos this, sequence]
  simp

theorem rereads_plain {b : UInt8} (hb : introduces bare b = false) : Rereads bare [b] := by
  intro t
  have hnext : nextStep bare ([b] ++ t) = some (.emit [b]) := by
    rw [List.singleton_append, nextStep, if_neg (by simp [hb])]
  exact ⟨_, hnext, rfl, verbatim_emit rfl rfl rfl rfl⟩

theorem rereads_pair {c : UInt8} (hc : isLong c = false) : Rereads bare [esc, c] := by
  intro t
  simp only [isLong, Bool.or_eq_false_iff, beq_eq_false_iff_ne] at hc
  obtain ⟨⟨⟨⟨⟨h1, h2⟩, h3⟩, h4⟩, h5⟩, h6⟩ := hc
  have hstring : ¬ (c = 80 ∨ c = 95 ∨ c = 94 ∨ c = 88) := by simp [h3, h4, h5, h6]
  have hnext : ∃ signals, nextStep bare ([esc, c] ++ t) = some { Step.emit [esc, c] with signals := signals } := by
    show ∃ signals, nextStep bare (esc :: c :: t) = _
    rw [nextStep_esc]
    simp only [escape, List.getElem?_cons_succ, List.getElem?_cons_zero, if_neg h1, if_neg h2, if_neg hstring]
    split
    · exact ⟨_, rfl⟩
    · exact ⟨[], rfl⟩
  obtain ⟨signals, hs⟩ := hnext
  exact ⟨_, hs, rfl, verbatim_emit rfl rfl rfl rfl⟩

theorem rereads_control {params inter : Bytes} {finalByte : UInt8} (h : CsiParts params inter finalByte)
    (hemit : classifyCsi params inter finalByte = .emit) :
    Rereads bare (esc :: 91 :: (params ++ (inter ++ [finalByte]))) := by
  intro t
  obtain ⟨signals, hs⟩ := h.csi_emit hemit t
  have hnext : nextStep bare (esc :: 91 :: (params ++ (inter ++ [finalByte])) ++ t) =
      some { Step.emit (esc :: 91 :: (params ++ (inter ++ [finalByte]))) with signals := signals } := by
    rw [← hs, List.cons_append, nextStep_esc]
    simp [escape]
  exact ⟨_, hnext, rfl, verbatim_emit rfl rfl rfl rfl⟩

theorem rereads_command {ps body term : Bytes} (h : OscParts ps body term) : Rereads bare (spellOsc ps body term) := by
  intro t
  obtain ⟨step, hs, hlen, hf, hq, hr⟩ := h.osc_emit t
  have hnext : nextStep bare (spellOsc ps body term ++ t) = some step := by
    rw [← hs]
    exact nextStep_esc _
  exact ⟨step, hnext, hlen, verbatim_emit hlen hf hq hr⟩

/-- The form of what a step passes on: a byte that is no escape, or an escape and
what it introduces. -/
def Shape (u : Bytes) : Prop :=
  (∃ b, u = [b] ∧ b ≠ esc) ∨ ∃ c v, u = esc :: c :: v ∧ (c = 92 → v = [])

/-- A piece of a filtered stream. -/
structure Piece (bare : Bool) (u : Bytes) : Prop where
  shape : Shape u
  reads : Rereads bare u ∨ Open bare u

theorem Open.shape {u : Bytes} (h : Open bare u) : Shape u := by
  rcases h with rfl | rfl | ⟨-, rfl | rfl⟩
  · exact .inr ⟨91, [], rfl, fun _ => rfl⟩
  · exact .inr ⟨93, [], rfl, fun _ => rfl⟩
  · exact .inl ⟨91, rfl, by decide⟩
  · exact .inl ⟨93, rfl, by decide⟩

/-- **What a step passes on** is nothing, or a piece. -/
theorem Reading.piece (h : Reading bare data step) : step.filtered = [] ∨ Piece bare step.filtered := by
  cases h with
  | @plain b rest hb =>
    refine .inr ⟨.inl ⟨b, rfl, ?_⟩, .inl (rereads_plain hb)⟩
    rintro rfl
    cases hb
  | removed _ hempty => exact .inl hempty
  | @pair c rest signals hc => exact .inr ⟨.inr ⟨c, [], rfl, fun _ => rfl⟩, .inl (rereads_pair hc)⟩
  | control rest hparts hemit =>
    exact .inr ⟨.inr ⟨91, _, rfl, fun h => absurd h (by decide)⟩, .inl (rereads_control hparts hemit)⟩
  | command rest _ hparts _ hf _ _ =>
    rw [hf]
    exact .inr ⟨.inr ⟨93, _, rfl, fun h => absurd h (by decide)⟩, .inl (rereads_command hparts)⟩
  | opened rest hu => exact .inr ⟨hu.shape, .inr hu⟩

/-- A step that passes on something answers nothing. -/
theorem Reading.quiet (h : Reading bare data step) (hf : step.filtered ≠ []) :
    step.queries = [] ∧ step.responses = [] := by
  cases h with
  | removed _ hempty => exact absurd hempty hf
  | command _ _ _ _ _ hq hr => exact ⟨hq, hr⟩
  | plain => exact ⟨rfl, rfl⟩
  | pair => exact ⟨rfl, rfl⟩
  | control => exact ⟨rfl, rfl⟩
  | opened => exact ⟨rfl, rfl⟩

/-- Behind an escape, what is passed on is what was taken. -/
theorem Reading.filtered_eq (h : Reading false data step) : step.filtered = [] ∨ step.filtered = data.take step.len := by
  cases h with
  | plain => exact .inr rfl
  | removed _ hempty => exact .inl hempty
  | pair => exact .inr rfl
  | @control params inter finalByte rest signals hparts hemit =>
    have : esc :: 91 :: (params ++ (inter ++ finalByte :: rest)) =
        (esc :: 91 :: (params ++ (inter ++ [finalByte]))) ++ rest := by simp
    rw [this]
    exact .inr (List.take_left' rfl).symm
  | @command introducer ps body term rest step hintro hparts hlen hf hq hr =>
    obtain rfl : introducer = [esc, 93] := by simpa using hintro
    have : [esc, 93] ++ (ps ++ 59 :: (body ++ (term ++ rest))) = spellOsc ps body term ++ rest := by simp [spellOsc]
    rw [this, hf]
    refine .inr (List.take_left' ?_).symm
    rw [hlen]
    simp only [spellOsc, List.length_cons, List.length_append, List.length_nil]
    omega
  | opened rest hu => exact .inr (List.take_left' rfl).symm

end Reading

/-! ### Pieces side by side -/

section Align

variable {bare : Bool}

/-- A text without an escape is made of whole pieces. -/
theorem split_plain : ∀ {w : Bytes} {us : List Bytes} {rest : Bytes}, (∀ u ∈ us, Shape u) → (∀ b ∈ w, b ≠ esc) →
    us.flatten = w ++ rest →
    ∃ us1 us2, us = us1 ++ us2 ∧ us1.flatten = w ∧ us2.flatten = rest ∧ ∀ v ∈ us1, esc ∉ v
  | [], us, rest, _, _, h => ⟨[], us, rfl, rfl, h, fun _ hv => absurd hv List.not_mem_nil⟩
  | b :: w, [], _, _, _, h => by cases h
  | b :: w, u :: us, rest, hus, hw, h => by
    rcases hus u List.mem_cons_self with ⟨b', rfl, hb'⟩ | ⟨c, v, rfl, -⟩
    · rw [List.flatten_cons, List.singleton_append, List.cons_append, List.cons.injEq] at h
      obtain ⟨rfl, h⟩ := h
      obtain ⟨us1, us2, rfl, h1, h2, h3⟩ := split_plain (fun x hx => hus x (List.mem_cons_of_mem _ hx))
        (fun x hx => hw x (List.mem_cons_of_mem _ hx)) h
      refine ⟨[b'] :: us1, us2, rfl, by rw [List.flatten_cons, h1]; rfl, h2, ?_⟩
      intro v hv
      rcases List.mem_cons.mp hv with rfl | hv
      · simpa using hb'.symm
      · exact h3 v hv
    · rw [List.flatten_cons, List.cons_append, List.cons_append, List.cons_append, List.cons.injEq] at h
      exact absurd h.1.symm (hw b List.mem_cons_self)

/-- So is the end of a string. -/
theorem split_terminator {us : List Bytes} {term rest : Bytes} (hus : ∀ u ∈ us, Shape u) (hterm : IsTerminator term)
    (h : us.flatten = term ++ rest) :
    ∃ us2, us = term :: us2 ∧ us2.flatten = rest := by
  rcases us with _ | ⟨u, us⟩
  · rcases hterm with rfl | rfl <;> cases h
  rcases hterm with rfl | rfl
  · rcases hus u List.mem_cons_self with ⟨b', rfl, -⟩ | ⟨c, v, rfl, -⟩
    · rw [List.flatten_cons, List.singleton_append, List.singleton_append, List.cons.injEq] at h
      obtain ⟨rfl, h⟩ := h
      exact ⟨us, rfl, h⟩
    · rw [List.flatten_cons, List.cons_append, List.singleton_append, List.cons.injEq] at h
      exact absurd h.1 esc_ne_bel
  · rcases hus u List.mem_cons_self with ⟨b', rfl, hb'⟩ | ⟨c, v, rfl, hv⟩
    · rw [List.flatten_cons, List.singleton_append, List.cons_append, List.cons.injEq] at h
      exact absurd h.1 hb'
    · simp only [List.flatten_cons, List.cons_append, List.nil_append, List.cons.injEq, true_and] at h
      obtain ⟨rfl, h⟩ := h
      rw [hv rfl] at h ⊢
      exact ⟨us, rfl, h⟩

/-- What an introducer that stands alone introduces. -/
theorem Open.introduces {u : Bytes} (h : Open bare u) (t : Bytes) : ∃ b v, u ++ t = b :: v ∧ introduces bare b = true := by
  rcases h with rfl | rfl | ⟨rfl, rfl | rfl⟩ <;> exact ⟨_, _, rfl, rfl⟩

theorem Open.eq_of_esc {u t : Bytes} {c : UInt8} {rest : Bytes} (h : Open bare u) (heq : u ++ t = esc :: c :: rest) :
    u = [esc, c] ∧ t = rest ∧ (c = 91 ∨ c = 93) := by
  rcases h with rfl | rfl | ⟨-, rfl | rfl⟩
  · simp only [List.cons_append, List.nil_append, List.cons.injEq, true_and] at heq
    exact ⟨by rw [heq.1], heq.2, .inl heq.1.symm⟩
  · simp only [List.cons_append, List.nil_append, List.cons.injEq, true_and] at heq
    exact ⟨by rw [heq.1], heq.2, .inr heq.1.symm⟩
  · rw [List.singleton_append, List.cons.injEq] at heq
    exact absurd heq.1 (by decide)
  · rw [List.singleton_append, List.cons.injEq] at heq
    exact absurd heq.1 (by decide)

theorem Open.eq_of_open {u u' t rest : Bytes} (h : Open bare u) (h' : Open bare u') (heq : u ++ t = u' ++ rest) :
    t = rest := by
  by_cases hlen : u.length = u'.length
  · exact (List.append_inj heq hlen).2
  · rcases h with rfl | rfl | ⟨-, rfl | rfl⟩ <;> rcases h' with rfl | rfl | ⟨-, rfl | rfl⟩ <;>
      first
      | exact absurd rfl hlen
      | exact absurd (List.cons.inj heq).1 (by decide)

/-- **A step at an introducer that stands alone** ends where a piece ends, and
takes no other one that starts with an escape. -/
theorem Open.align {u : Bytes} {post : List Bytes} {step : Step} (hu : Open bare u) (hpost : ∀ v ∈ post, Shape v)
    (hread : Reading bare (u ++ post.flatten) step) (hlen : 0 < step.len)
    (hf : step.filtered = (u ++ post.flatten).take step.len) :
    ∃ us1 us2, post = us1 ++ us2 ∧ (u ++ post.flatten).drop step.len = us2.flatten ∧
      ∀ v ∈ us1, esc ∉ v ∨ v = [esc, 92] := by
  obtain ⟨b, v, hbv, hb⟩ := hu.introduces post.flatten
  have hne : step.filtered ≠ [] := by
    rw [hf, hbv, Ne, List.take_eq_nil_iff, not_or]
    exact ⟨by omega, List.cons_ne_nil _ _⟩
  generalize hd : u ++ post.flatten = data at hread hf hbv ⊢
  cases hread with
  | plain rest hb' =>
    obtain ⟨rfl, -⟩ := List.cons.inj hbv
    rw [hb] at hb'
    cases hb'
  | removed _ hempty => exact absurd hempty hne
  | pair rest hc =>
    obtain ⟨-, -, rfl | rfl⟩ := hu.eq_of_esc hd <;> cases hc
  | @control params inter finalByte rest signals hparts hemit =>
    obtain ⟨-, hrest, -⟩ := hu.eq_of_esc hd
    have hsplit : post.flatten = (params ++ (inter ++ [finalByte])) ++ rest := by rw [hrest]; simp
    obtain ⟨us1, us2, h1, -, h2, h3⟩ := split_plain hpost hparts.ne_esc hsplit
    refine ⟨us1, us2, h1, ?_, fun v hv => .inl (h3 v hv)⟩
    have : esc :: 91 :: (params ++ (inter ++ finalByte :: rest)) =
        (esc :: 91 :: (params ++ (inter ++ [finalByte]))) ++ rest := by simp
    rw [this, h2]
    exact List.drop_left' rfl
  | @command introducer ps body term rest step hintro hparts hl hfiltered hq hr =>
    rcases hintro with rfl | ⟨-, rfl⟩
    · obtain ⟨-, hrest, -⟩ := hu.eq_of_esc hd
      have hsplit : post.flatten = (ps ++ 59 :: body) ++ (term ++ rest) := by rw [hrest]; simp
      have hplain : ∀ b ∈ ps ++ 59 :: body, b ≠ esc := by
        intro b hb
        rcases List.mem_append.mp hb with hb | hb
        · have := isDigit_iff.mp (hparts.digits b hb)
          exact ne_esc_of_le (by omega)
        rcases List.mem_cons.mp hb with rfl | hb
        · decide
        · exact (hparts.isBody b hb).2
      obtain ⟨us1, us2, h1, -, h2, h3⟩ := split_plain hpost hplain hsplit
      obtain ⟨us3, h4, h5⟩ := split_terminator (fun x hx => hpost x (by rw [h1]; exact List.mem_append_right _ hx))
        hparts.isTerm h2
      refine ⟨us1 ++ [term], us3, by rw [h1, h4]; simp, ?_, ?_⟩
      · have htext : [esc, 93] ++ (ps ++ 59 :: (body ++ (term ++ rest))) = spellOsc ps body term ++ rest := by
          simp [spellOsc]
        rw [htext, h5]
        refine List.drop_left' ?_
        rw [hl]
        simp only [spellOsc, List.length_cons, List.length_append, List.length_nil]
        omega
      · intro v hv
        rcases List.mem_append.mp hv with hv | hv
        · exact .inl (h3 v hv)
        · rw [List.mem_singleton.mp hv]
          rcases hparts.isTerm with rfl | rfl
          · exact .inl (by decide)
          · exact .inr rfl
    · -- the escape that the bare form lacks
      rw [hfiltered, spellOsc] at hf
      obtain ⟨n, hn⟩ : ∃ n, step.len = n + 1 := ⟨step.len - 1, by omega⟩
      rw [hn, List.singleton_append, List.take_succ_cons] at hf
      exact absurd (List.cons.inj hf).1 (by decide)
  | opened rest hu' =>
    refine ⟨[], post, rfl, ?_, fun v hv => absurd hv List.not_mem_nil⟩
    rw [hu.eq_of_open hu' hd]
    exact List.drop_left' rfl

end Align

/-! ### A second scan -/

/-- The scanner takes the sequence at the front of a text as it is, or releases
it. -/
def Kept (bare : Bool) (data : Bytes) : Prop :=
  match nextStep bare data with
  | some step => step.filtered = data.take step.len
  | none => maxPendingEscapeBytes ≤ data.length

instance (bare : Bool) (data : Bytes) : Decidable (Kept bare data) :=
  match h : nextStep bare data with
  | some step => decidable_of_iff (step.filtered = data.take step.len) (by rw [Kept, h])
  | none => decidable_of_iff (maxPendingEscapeBytes ≤ data.length) (by rw [Kept, h])

/-- No introducer that stands alone is joined to a text that makes it a sequence
to remove or to wait for. -/
def NoJoin (bare : Bool) : List Bytes → Prop
  | [] => True
  | u :: post => (Open bare u → Kept bare (u ++ post.flatten)) ∧ NoJoin bare post

instance decidableNoJoin (bare : Bool) : ∀ us, Decidable (NoJoin bare us)
  | [] => inferInstanceAs (Decidable True)
  | u :: post =>
    have := decidableNoJoin bare post
    inferInstanceAs (Decidable ((Open bare u → Kept bare (u ++ post.flatten)) ∧ NoJoin bare post))

theorem NoJoin.of_append {bare : Bool} {us2 : List Bytes} : ∀ {us1 : List Bytes}, NoJoin bare (us1 ++ us2) →
    NoJoin bare us2
  | [], h => h
  | _ :: _, h => NoJoin.of_append h.2

theorem NoJoin.append {bare : Bool} {us2 : List Bytes} (h2 : NoJoin bare us2) :
    ∀ {us1 : List Bytes}, (∀ v ∈ us1, ¬ Open bare v) → NoJoin bare (us1 ++ us2)
  | [], _ => h2
  | v :: _, h1 => ⟨fun ho => absurd ho (h1 v List.mem_cons_self), h2.append fun w hw => h1 w (List.mem_cons_of_mem _ hw)⟩

/-- A scan of the text gives the text, and answers nothing. -/
def Rescans (bare : Bool) (data : Bytes) : Prop :=
  (PtyScanner.new.scan bare data).2.filtered = data ∧ (PtyScanner.new.scan bare data).2.queries = [] ∧
    (PtyScanner.new.scan bare data).2.responses = []

instance (bare : Bool) (data : Bytes) : Decidable (Rescans bare data) :=
  inferInstanceAs (Decidable ((PtyScanner.new.scan bare data).2.filtered = data ∧
    (PtyScanner.new.scan bare data).2.queries = [] ∧ (PtyScanner.new.scan bare data).2.responses = []))

section Rescan

variable {bare : Bool}

theorem ScanOut.empty_steps_cons (step : Step) (steps : List Step) :
    ScanOut.empty.steps (step :: steps) = (ScanOut.empty.step step).append (ScanOut.empty.steps steps) :=
  ScanOut.empty_steps_append [step] steps

/-- The steps of a text pass on all of it but a rest that is released. -/
structure Unchanged (bare : Bool) (data : Bytes) : Prop where
  filtered : (ScanOut.empty.steps (drain (lexer bare) data).1).filtered ++ (drain (lexer bare) data).2 = data
  queries : (ScanOut.empty.steps (drain (lexer bare) data).1).queries = []
  responses : (ScanOut.empty.steps (drain (lexer bare) data).1).responses = []
  rest : (drain (lexer bare) data).2 = [] ∨ maxPendingEscapeBytes ≤ (drain (lexer bare) data).2.length

theorem Unchanged.nil : Unchanged bare [] :=
  ⟨by rw [drain_nil]; rfl, by rw [drain_nil]; rfl, by rw [drain_nil]; rfl, .inl (by rw [drain_nil])⟩

theorem lexer_next_some {data : Bytes} {step : Step} (h : nextStep bare data = some step) :
    (lexer bare).next data = some (step, step.len) := by rw [lexer_next, h]; rfl

theorem lexer_next_none {data : Bytes} (h : nextStep bare data = none) : (lexer bare).next data = none := by
  rw [lexer_next, h]; rfl

theorem nextStep_len {data : Bytes} {step : Step} (h : nextStep bare data = some step) : 0 < step.len :=
  (lexer bare).pos (lexer_next_some h)

theorem Unchanged.cons {data : Bytes} {step : Step} (h : nextStep bare data = some step) (hv : Verbatim data step)
    (hmore : Unchanged bare (data.drop step.len)) : Unchanged bare data := by
  obtain ⟨h1, h2, h3, h4⟩ := hmore
  have hdrain := drain_some (lexer_next_some h)
  refine ⟨?_, ?_, ?_, ?_⟩
  · rw [hdrain, ScanOut.empty_steps_cons]
    show (step.filtered ++ _) ++ _ = data
    rw [List.append_assoc, h1, hv.filtered, List.take_append_drop]
  · rw [hdrain, ScanOut.empty_steps_cons]
    show step.queries ++ _ = []
    rw [hv.queries, h2]
    rfl
  · rw [hdrain, ScanOut.empty_steps_cons]
    show step.responses ++ _ = []
    rw [hv.responses, h3]
    rfl
  · rw [hdrain]
    exact h4

/-- The output of a fresh scanner. -/
theorem new_scan_eq (data : Bytes) : (PtyScanner.new.scan bare data).2 =
    if maxPendingEscapeBytes ≤ (drain (lexer bare) data).2.length then
      (ScanOut.empty.steps (drain (lexer bare) data).1).text (drain (lexer bare) data).2
    else ScanOut.empty.steps (drain (lexer bare) data).1 := by
  rw [scan_eq, finishScan]
  show (if maxPendingEscapeBytes ≤ (drain (lexer bare) data).2.length then _ else _ : PtyScanner × ScanOut).2 = _
  split <;> rfl

theorem Unchanged.rescans {data : Bytes} (h : Unchanged bare data) : Rescans bare data := by
  unfold Rescans
  rw [new_scan_eq]
  split
  · exact ⟨h.filtered, h.queries, h.responses⟩
  · rename_i hlt
    refine ⟨?_, h.queries, h.responses⟩
    have hall := h.filtered
    rwa [h.rest.resolve_right hlt, List.append_nil] at hall

/-- **Pieces that are not joined stay as they are.** -/
theorem unchanged_of_noJoin (us : List Bytes) (hus : ∀ u ∈ us, Piece bare u) (hjoin : NoJoin bare us) :
    Unchanged bare us.flatten := by
  induction hlen : us.length using Nat.strongRecOn generalizing us with
  | ind len ih =>
    rcases us with _ | ⟨u, post⟩
    · exact .nil
    have hpost : ∀ v ∈ post, Piece bare v := fun v hv => hus v (List.mem_cons_of_mem _ hv)
    rw [List.length_cons] at hlen
    rw [List.flatten_cons]
    rcases (hus u List.mem_cons_self).reads with hr | ho
    · obtain ⟨step, hs, hl, hv⟩ := hr post.flatten
      refine .cons hs hv ?_
      rw [hl, List.drop_left]
      exact ih post.length (by omega) post hpost hjoin.2 rfl
    · have hkept := hjoin.1 ho
      unfold Kept at hkept
      rcases hs : nextStep bare (u ++ post.flatten) with _ | step
      · rw [hs] at hkept
        have hdrain := drain_none (lexer_next_none hs)
        exact ⟨by rw [hdrain]; rfl, by rw [hdrain]; rfl, by rw [hdrain]; rfl, .inr (by rw [hdrain]; exact hkept)⟩
      · rw [hs] at hkept
        have hread := nextStep_reading hs
        have hpos := nextStep_len hs
        obtain ⟨us1, us2, rfl, h2, -⟩ := ho.align (fun v hv => (hpost v hv).shape) hread hpos hkept
        have hne : step.filtered ≠ [] := by
          obtain ⟨b, v, hbv, -⟩ := ho.introduces (us1 ++ us2).flatten
          rw [hkept, hbv, Ne, List.take_eq_nil_iff, not_or]
          exact ⟨by omega, List.cons_ne_nil _ _⟩
        obtain ⟨hq, hr⟩ := hread.quiet hne
        refine .cons hs ⟨hkept, hq, hr⟩ ?_
        rw [h2]
        rw [List.length_append] at hlen
        exact ih us2.length (by omega) us2 (fun v hv => hpost v (List.mem_append_right _ hv)) hjoin.2.of_append rfl

/-! ### What a second scan loses -/

/-- How many bytes a scan of the text gives. -/
def passed (data : Bytes) : ℕ :=
  (ScanOut.empty.steps (drain (lexer false) data).1).filtered.length +
    if maxPendingEscapeBytes ≤ (drain (lexer false) data).2.length then (drain (lexer false) data).2.length else 0

theorem passed_eq (data : Bytes) : passed data = (PtyScanner.new.scan false data).2.filtered.length := by
  rw [new_scan_eq, passed]
  split
  · exact (List.length_append).symm
  · rfl

theorem passed_some {data : Bytes} {step : Step} (h : nextStep false data = some step) :
    passed data = step.filtered.length + passed (data.drop step.len) := by
  rw [passed, drain_some (lexer_next_some h), ScanOut.empty_steps_cons, passed, ← Nat.add_assoc]
  simp only
  congr 1
  exact List.length_append

theorem passed_none {data : Bytes} (h : nextStep false data = none) :
    passed data = if maxPendingEscapeBytes ≤ data.length then data.length else 0 := by
  rw [passed, drain_none (lexer_next_none h)]
  exact Nat.zero_add _

theorem nextStep_filtered_le {data : Bytes} {step : Step} (h : nextStep false data = some step) :
    step.filtered.length ≤ step.len ∧ step.len ≤ data.length := by
  refine ⟨?_, (lexer false).le (lexer_next_some h)⟩
  rcases (nextStep_reading h).filtered_eq with hf | hf
  · rw [hf]
    exact Nat.zero_le _
  · rw [hf, List.length_take]
    omega

/-- A scan never gives more than there is. -/
theorem passed_le (data : Bytes) : passed data ≤ data.length := by
  induction hlen : data.length using Nat.strongRecOn generalizing data with
  | ind len ih =>
    rcases h : nextStep false data with _ | step
    · rw [passed_none h]
      split <;> omega
    · obtain ⟨h1, h2⟩ := nextStep_filtered_le h
      have h3 := nextStep_len h
      have hdrop : (data.drop step.len).length = data.length - step.len := List.length_drop
      have h4 := ih (data.drop step.len).length (by omega) (data.drop step.len) rfl
      rw [passed_some h]
      omega

/-- If nothing is lost, nothing is lost at the first step and nothing after it. -/
theorem passed_some_all {data : Bytes} {step : Step} (h : nextStep false data = some step)
    (hall : passed data = data.length) :
    step.filtered = data.take step.len ∧ passed (data.drop step.len) = (data.drop step.len).length := by
  obtain ⟨h1, h2⟩ := nextStep_filtered_le h
  have hdrop : (data.drop step.len).length = data.length - step.len := List.length_drop
  have hle := passed_le (data.drop step.len)
  have hpos := nextStep_len h
  rw [passed_some h] at hall
  refine ⟨?_, by omega⟩
  rcases (nextStep_reading h).filtered_eq with hf | hf
  · rw [hf, List.length_nil] at hall
    omega
  · exact hf

/-- An escape stands in the text, and a byte after it. -/
def HasEscape (s : Bytes) : Prop := ∃ x c y, s = x ++ esc :: c :: y

theorem HasEscape.of_cons {b : UInt8} {s : Bytes} (h : HasEscape (b :: s)) (hb : b ≠ esc) : HasEscape s := by
  obtain ⟨x, c, y, h⟩ := h
  rcases x with _ | ⟨x0, x⟩
  · exact absurd (List.cons.inj h).1 hb
  · exact ⟨x, c, y, (List.cons.inj h).2⟩

theorem HasEscape.of_append {s : Bytes} : ∀ {w : Bytes}, HasEscape (w ++ s) → (∀ b ∈ w, b ≠ esc) → HasEscape s
  | [], h, _ => h
  | _ :: _, h, hw =>
    HasEscape.of_append (h.of_cons (hw _ List.mem_cons_self)) fun b hb => hw b (List.mem_cons_of_mem _ hb)

theorem not_hasEscape_of_missing : ∀ {s : Bytes}, findTerminator true s = .missing → ¬ HasEscape s := by
  intro s
  induction s with
  | nil =>
    rintro - ⟨x, c, y, h⟩
    cases x <;> cases h
  | cons b s ih =>
    intro h hesc
    rcases string_cases (b :: s) with h0 | ⟨s', h0⟩ | h0 | ⟨c, s', h0⟩ | ⟨b', s', h0, hbel, hne⟩
    · cases h0
    · rw [h0, findTerminator_bel] at h
      cases h
    · rw [h0] at hesc
      obtain ⟨x, c, y, h1⟩ := hesc
      have := congrArg List.length h1
      simp only [List.length_append, List.length_cons, List.length_nil] at this
      omega
    · rw [h0, findTerminator_esc] at h
      split at h <;> cases h
    · cases h0
      rw [findTerminator_plain hbel hne] at h
      refine ih ?_ (hesc.of_cons hne)
      rcases hs : findTerminator true s with _ | _ | ⟨_, _⟩ <;> rw [hs] at h <;> first | rfl | cases h

/-- A sequence that is cut off holds no other one. -/
theorem not_hasEscape_of_none {u t : Bytes} (hu : Open false u) (h : nextStep false (u ++ t) = none) : ¬ HasEscape t := by
  intro hesc
  have hpast : ∀ {p : UInt8 → Bool} (s : Bytes), (∀ b, p b = true → b ≠ esc) → HasEscape s →
      HasEscape (s.dropWhile p) := by
    intro p s hp hs
    rw [← List.takeWhile_append_dropWhile (p := p) (l := s)] at hs
    exact hs.of_append fun b hb => hp b (takeWhile_all hb)
  have hnil : ¬ HasEscape [] := by
    rintro ⟨x, c, y, h⟩
    cases x <;> cases h
  rcases hu with rfl | rfl | ⟨hbare, -⟩
  · have hcsi : csi (esc :: 91 :: t) = none := by
      rw [List.cons_append, nextStep_esc] at h
      simpa [escape] using h
    have hparams := hpast t (p := isParam) (fun b hb => ne_esc_of_le (by have := isParam_iff.mp hb; omega)) hesc
    have hinter := hpast _ (p := isIntermediate) (fun b hb => ne_esc_of_le (isIntermediate_iff.mp hb).1) hparams
    rcases hr : (t.dropWhile isParam).dropWhile isIntermediate with _ | ⟨finalByte, more⟩
    · rw [hr] at hinter
      exact hnil hinter
    · simp only [csi, List.drop_succ_cons, List.drop_zero, hr] at hcsi
      repeat' split at hcsi
      all_goals cases hcsi
  · have hosc : osc (esc :: 93 :: t) 2 true = none := by
      rw [List.cons_append, nextStep_esc] at h
      simpa [escape] using h
    have hdigits := hpast t (p := isDigit) (fun b hb => ne_esc_of_le (by have := isDigit_iff.mp hb; omega)) hesc
    simp only [osc, List.drop_succ_cons, List.drop_zero] at hosc
    split at hosc
    · split at hosc
      · rename_i hr
        rw [hr] at hdigits
        exact hnil hdigits
      · cases hosc
    · have hsemi : HasEscape (afterSemi (t.dropWhile isDigit)) := by
        unfold afterSemi
        split
        · rename_i hs
          rcases hr : t.dropWhile isDigit with _ | ⟨b, more⟩
          · rw [hr] at hdigits
            exact absurd hdigits hnil
          · rw [hr] at hdigits hs
            have hb : b = 59 := by simpa [hasSemi] using hs
            exact hdigits.of_cons (by rw [hb]; decide)
        · exact hdigits
      rcases hf : findTerminator true (afterSemi (t.dropWhile isDigit)) with _ | _ | ⟨_, _⟩
      · exact not_hasEscape_of_missing hf hsemi
      · rw [hf] at hosc
        cases hosc
      · rw [hf] at hosc
        cases hosc
  · cases hbare

theorem Open.esc_mem {u : Bytes} (h : Open false u) : esc ∈ u ∧ u ≠ [esc, 92] := by
  rcases h with rfl | rfl | ⟨hbare, -⟩
  · decide
  · decide
  · cases hbare

/-- **Pieces that stay as they are are not joined**, without the escape-less
forms. -/
theorem noJoin_of_passed (us : List Bytes) (hus : ∀ u ∈ us, Piece false u)
    (hall : passed us.flatten = us.flatten.length) : NoJoin false us := by
  induction hlen : us.length using Nat.strongRecOn generalizing us with
  | ind len ih =>
    rcases us with _ | ⟨u, post⟩
    · trivial
    have hpost : ∀ v ∈ post, Piece false v := fun v hv => hus v (List.mem_cons_of_mem _ hv)
    rw [List.length_cons] at hlen
    rw [List.flatten_cons] at hall
    by_cases ho : Open false u
    · rcases hs : nextStep false (u ++ post.flatten) with _ | step
      · have hkept : maxPendingEscapeBytes ≤ (u ++ post.flatten).length := by
          by_contra hlt
          rw [passed_none hs, if_neg hlt] at hall
          obtain ⟨b, v, hbv, -⟩ := ho.introduces post.flatten
          rw [hbv] at hall
          cases hall
        have hclosed : ∀ v ∈ post, ¬ Open false v := by
          intro v hv hov
          obtain ⟨x, y, rfl⟩ := List.append_of_mem hv
          refine not_hasEscape_of_none ho hs ?_
          obtain ⟨c, z, hc⟩ : ∃ c z, v = esc :: c :: z := by
            rcases hov with rfl | rfl | ⟨hbare, -⟩
            · exact ⟨_, _, rfl⟩
            · exact ⟨_, _, rfl⟩
            · cases hbare
          exact ⟨x.flatten, c, z ++ y.flatten, by rw [hc]; simp⟩
        refine ⟨fun _ => by rw [Kept, hs]; exact hkept, ?_⟩
        have hnil : NoJoin false ([] : List Bytes) := trivial
        rw [← List.append_nil post]
        exact hnil.append hclosed
      · obtain ⟨hf, hmore⟩ := passed_some_all hs hall
        obtain ⟨us1, us2, rfl, h2, h3⟩ :=
          ho.align (fun v hv => (hpost v hv).shape) (nextStep_reading hs) (nextStep_len hs) hf
        rw [h2] at hmore
        rw [List.length_append] at hlen
        have hjoin := ih us2.length (by omega) us2 (fun v hv => hpost v (List.mem_append_right _ hv)) hmore rfl
        refine ⟨fun _ => by rw [Kept, hs]; exact hf, hjoin.append fun v hv hov => ?_⟩
        rcases h3 v hv with h | h
        · exact h hov.esc_mem.1
        · exact hov.esc_mem.2 h
    · obtain ⟨step, hs, hl, -⟩ := ((hus u List.mem_cons_self).reads.resolve_right ho) post.flatten
      have hmore := (passed_some_all hs hall).2
      rw [hl, List.drop_left] at hmore
      exact ⟨fun h => absurd h ho, ih post.length (by omega) post hpost hmore rfl⟩

end Rescan

/-! ### The filtered stream of a run -/

/-- What the chunks of a run pass on, piece by piece. -/
def pieces (bare : Bool) (chunks : List Bytes) : List Bytes :=
  ((feed (lexer bare) [] chunks).1.map Step.filtered).filter (· ≠ [])

/-- The filtered stream of the chunks stays as it is in a second scan. -/
def Sanitised (bare : Bool) (chunks : List Bytes) : Prop :=
  Rescans bare (scanChunks bare .new chunks).2.filtered

theorem flatten_filter_ne_nil : ∀ ls : List Bytes, (ls.filter (· ≠ [])).flatten = ls.flatten
  | [] => rfl
  | l :: ls => by
    by_cases hl : l = []
    · rw [List.filter_cons_of_neg (by simpa using hl), flatten_filter_ne_nil ls, hl]
      rfl
    · rw [List.filter_cons_of_pos (by simpa using hl), List.flatten_cons, List.flatten_cons, flatten_filter_ne_nil ls]

theorem filtered_steps : ∀ steps : List Step,
    (ScanOut.empty.steps steps).filtered = (steps.map Step.filtered).flatten
  | [] => rfl
  | step :: steps => by
    rw [ScanOut.empty_steps_cons, List.map_cons, List.flatten_cons, ← filtered_steps steps]
    rfl

theorem filtered_eq_pieces {bare : Bool} {chunks : List Bytes} (h : Unreleased bare [] chunks) :
    (scanChunks bare .new chunks).2.filtered = (pieces bare chunks).flatten := by
  have hrun := scanChunks_eq chunks .new h
  rw [hrun, pieces, flatten_filter_ne_nil]
  exact filtered_steps _

theorem piece_of_mem {bare : Bool} {chunks : List Bytes} {u : Bytes} (h : u ∈ pieces bare chunks) : Piece bare u := by
  obtain ⟨hu, hne⟩ := List.mem_filter.mp h
  obtain ⟨step, hstep, rfl⟩ := List.mem_map.mp hu
  obtain ⟨t, n, hn⟩ := mem_feed chunks hstep
  obtain ⟨step', hs, heq⟩ := Option.map_eq_some_iff.mp hn
  cases heq
  exact (nextStep_reading hs).piece.resolve_left (by simpa using hne)

/-- **What a second scan finds.** Of a run that releases nothing at the cap, the
filtered stream stays as it is in a second scan, which reports no probe and no
reply, if no introducer that the scanner passed on alone is joined to a text that
makes it a sequence to remove or to wait for; and, without the escape-less forms,
only then. -/
theorem rescan_iff (bare : Bool) (chunks : List Bytes) (h : Unreleased bare [] chunks) :
    (NoJoin bare (pieces bare chunks) → Sanitised bare chunks) ∧
      (bare = false → (Sanitised bare chunks ↔ NoJoin bare (pieces bare chunks))) := by
  have henough : NoJoin bare (pieces bare chunks) → Sanitised bare chunks := by
    intro hjoin
    rw [Sanitised, filtered_eq_pieces h]
    exact (unchanged_of_noJoin _ (fun _ => piece_of_mem) hjoin).rescans
  refine ⟨henough, ?_⟩
  rintro rfl
  refine ⟨fun hs => ?_, henough⟩
  rw [Sanitised, filtered_eq_pieces h] at hs
  refine noJoin_of_passed _ (fun _ => piece_of_mem) ?_
  rw [passed_eq, hs.1]

/-- An introducer before a line feed stays alone, though a probe is removed after
it. -/
theorem rescan_iff_linefeed :
    Unreleased false [] [[27, 91, 10, 27], [91, 99, 120]] ∧
      NoJoin false (pieces false [[27, 91, 10, 27], [91, 99, 120]]) ∧
      Sanitised false [[27, 91, 10, 27], [91, 99, 120]] := by
  have h : Unreleased false [] [[27, 91, 10, 27], [91, 99, 120]] := by
    unfold Unreleased
    decide +kernel
  have hjoin : NoJoin false (pieces false [[27, 91, 10, 27], [91, 99, 120]]) := by decide +kernel
  exact ⟨h, hjoin, (rescan_iff false _ h).1 hjoin⟩

/-- The introducer of a malformed sequence, a removed probe, and the rest of
another probe: the filtered stream is that probe. -/
theorem removed_sequence_joins :
    (scanChunks false .new [[27, 91, 27, 91, 99, 54, 110]]).2.filtered = [27, 91, 54, 110] ∧
      (PtyScanner.new.scan false [27, 91, 54, 110]).2.queries = [.cursorPositionReport] ∧
      ¬ Sanitised false [[27, 91, 27, 91, 99, 54, 110]] := by
  unfold Sanitised
  decide +kernel

end Pty
end OpenRelay
