/-
# What becomes of the scanner's input

On builds without the escape-less forms every byte that enters the scanner is
passed on, or belongs to a sequence that is removed as a whole, or is the end that
is kept for the next chunk (`scanner_conserves`). What is removed is a complete
control sequence, command or string (`Strippable`): nothing that is cut off and
nothing that is malformed. This holds for any bytes in any chunks, also where a
sequence that never ends is released at the cap.

Every turn of the scan takes a byte, so it ends (`scanSlice_turns`).

Key theorems: `nextStep_strippable`, `scan_conserves`.
-/
import OpenRelay.Pty.Sanitise

namespace OpenRelay
namespace Pty

open Chunks

/-! ### Sequences that are removed -/

/-- The body of a string that may hold other sequences: no terminator stands in it. -/
structure StringBody (body : Bytes) : Prop where
  bel : bel ∉ body
  terminator : ¬ [esc, 92] <:+: body

/-- The semicolon between the number of a command and its text. Without one the
text starts with neither a digit nor a semicolon. -/
def Separates (sep text : Bytes) : Prop :=
  sep = [59] ∨ sep = [] ∧ ∀ b, text.head? = some b → b ≠ 59 ∧ isDigit b = false

/-- The complete sequences that are removed. -/
inductive Strippable : Bytes → Prop where
  | control {params inter : Bytes} {finalByte : UInt8} (hparts : CsiParts params inter finalByte)
      (haction : classifyCsi params inter finalByte ≠ .emit) :
      Strippable (esc :: 91 :: (params ++ (inter ++ [finalByte])))
  | command {ps sep body term : Bytes} (hdigits : ∀ b ∈ ps, isDigit b = true) (hpos : ps.length ≠ 0) (hle : ps.length ≤ 5)
      (hsep : Separates sep (body ++ term)) (hbody : IsBody body) (hterm : IsTerminator term)
      (haction : ¬ (sep = [59] ∧ Passes ps body)) :
      Strippable (esc :: 93 :: (ps ++ (sep ++ (body ++ term))))
  | string {kind : UInt8} {body term : Bytes} (hkind : kind = 80 ∨ kind = 95 ∨ kind = 94 ∨ kind = 88)
      (hbody : StringBody body) (hterm : IsTerminator term) :
      Strippable (esc :: kind :: (body ++ term))

theorem csi_strippable {rest : Bytes} {step : Step} (h : csi (esc :: 91 :: rest) = some step)
    (hempty : step.filtered = []) : Strippable ((esc :: 91 :: rest).take step.len) := by
  rcases hr : (rest.dropWhile isParam).dropWhile isIntermediate with _ | ⟨finalByte, t⟩
  · simp [csi, hr] at h
  by_cases hf : isFinal finalByte = true
  · obtain ⟨params, hparams⟩ : ∃ params, params = rest.takeWhile isParam := ⟨_, rfl⟩
    obtain ⟨inter, hinter⟩ : ∃ inter, inter = (rest.dropWhile isParam).takeWhile isIntermediate := ⟨_, rfl⟩
    have hrest : rest = params ++ (inter ++ finalByte :: t) := by
      rw [hparams, hinter, ← hr, List.takeWhile_append_dropWhile, List.takeWhile_append_dropWhile]
    have hparts : CsiParts params inter finalByte := by
      rw [hparams, hinter]
      exact ⟨fun _ => takeWhile_all, fun _ => takeWhile_all, hf⟩
    have hspelt : esc :: 91 :: rest = (esc :: 91 :: (params ++ (inter ++ [finalByte]))) ++ t := by
      rw [hrest]
      simp
    have htake : (esc :: 91 :: rest).take (2 + params.length + inter.length + 1) =
        esc :: 91 :: (params ++ (inter ++ [finalByte])) := by
      rw [hspelt]
      refine List.take_left' ?_
      simp only [List.length_cons, List.length_append, List.length_nil]
      omega
    have hclassify : ∀ action, classifyCsi params inter finalByte = action → action ≠ .emit →
        step.len = 2 + params.length + inter.length + 1 → Strippable ((esc :: 91 :: rest).take step.len) := by
      intro action haction hne hlen
      rw [hlen, htake]
      exact .control hparts (haction ▸ hne)
    simp only [csi, List.drop_succ_cons, List.drop_zero, hr, hf, ← hparams, ← hinter] at h
    rcases hc : classifyCsi params inter finalByte with _ | _ | query
    · rw [hc] at h
      cases h
      exact absurd hempty (List.cons_ne_nil _ _)
    · rw [hc] at h
      cases h
      exact hclassify _ hc (fun h => by cases h) rfl
    · rw [hc] at h
      cases h
      exact hclassify _ hc (fun h => by cases h) rfl
  · simp [csi, hr, hf] at h
    rw [← h] at hempty
    cases hempty

theorem osc_strippable {rest : Bytes} {step : Step} (h : osc (esc :: 93 :: rest) 2 true = some step)
    (hempty : step.filtered = []) : Strippable ((esc :: 93 :: rest).take step.len) := by
  obtain ⟨ps, hps⟩ : ∃ ps, ps = rest.takeWhile isDigit := ⟨_, rfl⟩
  obtain ⟨after, hafter⟩ : ∃ after, after = rest.dropWhile isDigit := ⟨_, rfl⟩
  have hrest : rest = ps ++ after := by
    rw [hps, hafter, List.takeWhile_append_dropWhile]
  have hdigits : ∀ b ∈ ps, isDigit b = true := by
    rw [hps]
    exact fun _ => takeWhile_all
  have hfirst : ∀ b, after.head? = some b → isDigit b = false := by
    intro b hb
    have := List.head?_dropWhile_not isDigit rest
    rw [← hafter, hb] at this
    simpa using this
  unfold osc at h
  simp only [List.drop_succ_cons, List.drop_zero, List.take_succ_cons, List.take_zero, ← hps, ← hafter] at h
  split at h
  · split at h
    · cases h
    · cases h
      cases hempty
  rename_i hlen
  obtain ⟨text, htextEq⟩ : ∃ text, text = afterSemi after := ⟨_, rfl⟩
  obtain ⟨sep, hsepEq⟩ : ∃ sep : Bytes, sep = if hasSemi after then [59] else [] := ⟨_, rfl⟩
  have hsplit : after = sep ++ text := by
    rw [hsepEq, htextEq]
    rcases after with _ | ⟨b, more⟩
    · rfl
    · by_cases hb : b = 59
      · rw [hb]; rfl
      · have hno : hasSemi (b :: more) = false := by simpa [hasSemi] using hb
        rw [afterSemi, hno]
        rfl
  rw [← htextEq] at h
  rcases hf : findTerminator true text with _ | _ | ⟨payload, len⟩
  · rw [hf] at h
    cases h
  · rw [hf] at h
    cases h
    cases hempty
  rw [hf] at h
  obtain ⟨hbody, hterm, htext, hpayload, htermLen⟩ := findTerminator_parts hf
  have h : some (oscStep ((esc :: 93 :: rest).length - text.length + payload + len) ps (hasSemi after)
      (text.take payload) ((text.drop payload).take len)) = some step := h
  generalize text.take payload = body at hbody htext hpayload h
  generalize (text.drop payload).take len = term at hterm htext htermLen h
  generalize text.drop (payload + len) = t at htext
  have hall : esc :: 93 :: rest = (esc :: 93 :: (ps ++ (sep ++ (body ++ term)))) ++ t := by
    rw [hrest, hsplit, htext]
    simp
  have hstep : step.len = (esc :: 93 :: (ps ++ (sep ++ (body ++ term)))).length := by
    have hlenStep : step.len = (esc :: 93 :: rest).length - text.length + payload + len := by
      rw [← Option.some.inj h, oscStep_len]
    rw [hlenStep, hall, htext, ← hpayload, ← htermLen]
    simp only [List.length_cons, List.length_append]
    omega
  rw [hall, hstep, List.take_left]
  refine .command hdigits (fun h0 => hlen (.inl h0)) (Nat.le_of_not_lt fun h5 => hlen (.inr h5)) ?_ hbody hterm ?_
  · by_cases hsemi : hasSemi after = true
    · rw [if_pos hsemi] at hsepEq
      exact .inl hsepEq
    · rw [if_neg hsemi] at hsepEq
      refine .inr ⟨hsepEq, fun b hb => ?_⟩
      have hhead : after.head? = some b := by
        rw [hsplit, hsepEq, htext, List.nil_append, ← List.append_assoc, List.head?_append, hb]
        rfl
      refine ⟨fun h59 => hsemi ?_, hfirst b hhead⟩
      rw [hasSemi, hhead, h59]
      rfl
  · rintro ⟨hsep, hpasses⟩
    have hsemi : hasSemi after = true := by
      by_contra hno
      rw [if_neg hno] at hsepEq
      rw [hsepEq] at hsep
      cases hsep
    rw [hsemi] at h
    rw [← Option.some.inj h, (oscStep_of_passes hpasses _ _).1] at hempty
    cases hempty

/-- The parts of a string that ends. -/
theorem stringLen_parts : ∀ {s : Bytes} {n : ℕ}, stringLen s = some n →
    ∃ body term t, s = body ++ (term ++ t) ∧ n = body.length + term.length ∧ StringBody body ∧ IsTerminator term := by
  intro s
  induction s with
  | nil => nofun
  | cons b s ih =>
    intro n h
    have hnil : StringBody [] := ⟨List.not_mem_nil, fun h => nomatch List.eq_nil_of_infix_nil h⟩
    -- a byte that neither ends the string nor begins its end
    have hmore : ∀ {m : ℕ}, b ≠ bel → (b = esc → s.head? ≠ some 92) → (stringLen s).map (· + 1) = some m →
        ∃ body term t, b :: s = body ++ (term ++ t) ∧ m = body.length + term.length ∧ StringBody body ∧
          IsTerminator term := by
      intro m hbel hesc hm
      obtain ⟨n', hn', rfl⟩ := Option.map_eq_some_iff.mp hm
      obtain ⟨body, term, t, rfl, rfl, hbody, hterm⟩ := ih hn'
      refine ⟨b :: body, term, t, rfl, ?_, ⟨?_, fun hinfix => ?_⟩, hterm⟩
      · rw [List.length_cons]
        omega
      · rw [List.mem_cons]
        rintro (rfl | hmem)
        · exact hbel rfl
        · exact hbody.bel hmem
      · rcases List.infix_cons_iff.mp hinfix with hfront | hrest
        · obtain ⟨rest, hrest⟩ := hfront
          injection hrest with hb hrest
          refine hesc hb.symm ?_
          rw [← hrest]
          rfl
        · exact hbody.terminator hrest
    rcases string_cases (b :: s) with h0 | ⟨s', h0⟩ | h0 | ⟨c, s', h0⟩ | ⟨b', s', h0, hbel, hesc⟩
    · cases h0
    · rw [h0, stringLen_bel] at h
      cases h
      exact ⟨[], [bel], s', h0, rfl, hnil, .inl rfl⟩
    · rw [h0, stringLen_esc_nil] at h
      cases h
    · cases h0
      rw [stringLen_esc] at h
      by_cases hc : c = 92
      · rw [if_pos hc] at h
        cases h
        exact ⟨[], [esc, 92], s', by rw [hc]; rfl, rfl, hnil, .inr rfl⟩
      · rw [if_neg hc] at h
        exact hmore (by decide) (fun _ hhead => hc (Option.some.inj hhead)) h
    · cases h0
      rw [stringLen_plain hbel hesc] at h
      exact hmore hbel (fun hb => absurd hb hesc) h

theorem stringSequence_strippable {kind : UInt8} {rest : Bytes} {step : Step}
    (hkind : kind = 80 ∨ kind = 95 ∨ kind = 94 ∨ kind = 88) (h : stringSequence (esc :: kind :: rest) = some step) :
    Strippable ((esc :: kind :: rest).take step.len) := by
  obtain ⟨n, hn, rfl⟩ := Option.map_eq_some_iff.mp h
  obtain ⟨body, term, t, hrest, hlen, hbody, hterm⟩ := stringLen_parts hn
  have hrest : rest = body ++ (term ++ t) := hrest
  have htake : (esc :: kind :: rest).take (2 + n) = esc :: kind :: (body ++ term) := by
    have hspelt : esc :: kind :: rest = (esc :: kind :: (body ++ term)) ++ t := by
      rw [hrest]
      simp
    rw [hspelt]
    refine List.take_left' ?_
    simp only [List.length_cons, List.length_append]
    omega
  show Strippable ((esc :: kind :: rest).take (2 + n))
  rw [htake]
  exact .string hkind hbody hterm

/-- **What is removed** is a complete sequence that is to be removed. -/
theorem nextStep_strippable {data : Bytes} {step : Step} (h : nextStep false data = some step)
    (hempty : step.filtered = []) : Strippable (data.take step.len) := by
  rcases data with _ | ⟨b, rest⟩
  · cases h
  rw [nextStep] at h
  by_cases hb : introduces false b = true
  · rw [if_pos hb] at h
    obtain rfl : b = esc := by simpa [introduces] using hb
    have h : escape (esc :: rest) = some step := by simpa [sequence] using h
    rcases rest with _ | ⟨c, rest⟩
    · cases h
    unfold escape at h
    simp only [List.getElem?_cons_succ, List.getElem?_cons_zero] at h
    split_ifs at h with hcsi hosc hstring hreset
    · subst hcsi
      exact csi_strippable h hempty
    · subst hosc
      exact osc_strippable h hempty
    · exact stringSequence_strippable hstring h
    · cases h
      cases hempty
    · cases h
      cases hempty
  · rw [if_neg hb] at h
    cases h
    cases hempty

/-! ### Every byte has its place -/

/-- A stretch of the input: passed on, or removed. -/
inductive Part where
  | passed (bytes : Bytes)
  | removed (bytes : Bytes)
  deriving DecidableEq, Repr

def Part.bytes : Part → Bytes
  | .passed bytes => bytes
  | .removed bytes => bytes

/-- What is seen of it. -/
def Part.shown : Part → Bytes
  | .passed bytes => bytes
  | .removed _ => []

/-- The input is the parts in order, and then what is kept; the output is what is
seen of the parts, in the same order. -/
structure Conserves (input : Bytes) (parts : List Part) (output kept : Bytes) : Prop where
  input : input = parts.flatMap Part.bytes ++ kept
  output : output = parts.flatMap Part.shown
  removed : ∀ bytes, Part.removed bytes ∈ parts → Strippable bytes

namespace Conserves

variable {input output kept : Bytes} {parts : List Part}

theorem nil (kept : Bytes) : Conserves kept [] [] kept := ⟨rfl, rfl, nofun⟩

/-- One step in front. -/
theorem cons {data : Bytes} {step : Step} (hstep : nextStep false data = some step)
    (h : Conserves (data.drop step.len) parts output kept) :
    ∃ part : Part, Conserves data (part :: parts) (step.filtered ++ output) kept := by
  have hsplit := List.take_append_drop step.len data
  rcases (nextStep_reading hstep).filtered_eq with hempty | hpassed
  · refine ⟨.removed (data.take step.len), ?_, ?_, fun bytes hmem => ?_⟩
    · rw [List.flatMap_cons, List.append_assoc, ← h.input]
      exact hsplit.symm
    · rw [hempty, h.output]
      rfl
    · rcases List.mem_cons.mp hmem with heq | hmem
      · cases heq
        exact nextStep_strippable hstep hempty
      · exact h.removed bytes hmem
  · refine ⟨.passed (data.take step.len), ?_, ?_, fun bytes hmem => ?_⟩
    · rw [List.flatMap_cons, List.append_assoc, ← h.input]
      exact hsplit.symm
    · rw [hpassed, h.output]
      rfl
    · rcases List.mem_cons.mp hmem with heq | hmem
      · cases heq
      · exact h.removed bytes hmem

/-- What was kept is passed on after all. -/
theorem release (h : Conserves input parts output kept) : Conserves input (parts ++ [.passed kept]) (output ++ kept) [] := by
  refine ⟨?_, ?_, fun bytes hmem => ?_⟩
  · rw [List.flatMap_append, List.flatMap_singleton, List.append_nil]
    exact h.input
  · rw [List.flatMap_append, List.flatMap_singleton, h.output]
    rfl
  · rcases List.mem_append.mp hmem with hmem | hmem
    · exact h.removed bytes hmem
    · cases List.mem_singleton.mp hmem

/-- More input, after what was kept. -/
theorem append {more output' kept' : Bytes} {parts' : List Part} (h : Conserves input parts output kept)
    (h' : Conserves (kept ++ more) parts' output' kept') :
    Conserves (input ++ more) (parts ++ parts') (output ++ output') kept' := by
  refine ⟨?_, ?_, fun bytes hmem => ?_⟩
  · calc input ++ more = parts.flatMap Part.bytes ++ (kept ++ more) := by rw [h.input, List.append_assoc]
      _ = (parts ++ parts').flatMap Part.bytes ++ kept' := by
        rw [h'.input, List.flatMap_append, List.append_assoc]
  · rw [h.output, h'.output, List.flatMap_append]
  · rcases List.mem_append.mp hmem with hmem | hmem
    · exact h.removed bytes hmem
    · exact h'.removed bytes hmem

end Conserves

theorem drain_conserves (data : Bytes) :
    ∃ parts, Conserves data parts (ScanOut.empty.steps (drain (lexer false) data).1).filtered
      (drain (lexer false) data).2 := by
  induction hlen : data.length using Nat.strongRecOn generalizing data with
  | ind len ih =>
    rcases hnext : nextStep false data with _ | step
    · rw [drain_none (lexer_next_none hnext)]
      exact ⟨[], .nil data⟩
    · have hpos := nextStep_len hnext
      have hshorter : (data.drop step.len).length < len := by
        have hne : data ≠ [] := by
          rintro rfl
          cases hnext
        have := List.length_pos_of_ne_nil hne
        rw [List.length_drop]
        omega
      obtain ⟨parts, hparts⟩ := ih _ hshorter (data.drop step.len) rfl
      obtain ⟨part, hpart⟩ := hparts.cons hnext
      refine ⟨part :: parts, ?_⟩
      rw [drain_some (lexer_next_some hnext), filtered_steps, List.map_cons, List.flatten_cons, ← filtered_steps]
      exact hpart

/-- **One chunk.** -/
theorem scan_conserves (s : PtyScanner) (data : Bytes) :
    (∃ parts, Conserves (s.pending ++ data) parts (s.scan false data).2.filtered (s.scan false data).1.pending) ∧
      (s.scan false data).1.pending.length < maxPendingEscapeBytes := by
  obtain ⟨parts, hparts⟩ := drain_conserves (s.pending ++ data)
  rw [scan_eq]
  unfold finishScan
  split_ifs with hcap
  · rw [PtyScanner.steps_pending]
    exact ⟨⟨_, hparts.release⟩, Nat.succ_pos _⟩
  · exact ⟨⟨parts, hparts⟩, Nat.lt_of_not_le hcap⟩

theorem scanChunks_conserves : ∀ (chunks : List Bytes) (s : PtyScanner), s.pending.length < maxPendingEscapeBytes →
    (∃ parts, Conserves (s.pending ++ chunks.flatten) parts (scanChunks false s chunks).2.filtered
      (scanChunks false s chunks).1.pending) ∧
      (scanChunks false s chunks).1.pending.length < maxPendingEscapeBytes
  | [], s, h => by
    refine ⟨⟨[], ?_⟩, h⟩
    rw [List.flatten_nil, List.append_nil]
    exact .nil s.pending
  | c :: cs, s, _ => by
    obtain ⟨⟨parts, hparts⟩, hfirst⟩ := scan_conserves s c
    obtain ⟨⟨more, hmore⟩, hlast⟩ := scanChunks_conserves cs (s.scan false c).1 hfirst
    refine ⟨⟨parts ++ more, ?_⟩, hlast⟩
    rw [List.flatten_cons, ← List.append_assoc]
    exact hparts.append hmore

/-! ### Turns -/

/-- What a turn of the scan leaves, if it is not the last. -/
def turn (bare : Bool) (data : Bytes) : Option Bytes :=
  let rest := data.dropWhile fun b => !introduces bare b
  if rest = [] then none else (sequence rest).map fun step => rest.drop step.len

theorem turn_shorter {bare : Bool} {data left : Bytes} (h : turn bare data = some left) : left.length < data.length := by
  unfold turn at h
  simp only at h
  split at h
  · cases h
  · obtain ⟨step, hstep, rfl⟩ := Option.map_eq_some_iff.mp h
    obtain ⟨hpos, hle⟩ := sequence_len hstep
    have hrest : (data.dropWhile fun b => !introduces bare b).length ≤ data.length :=
      (List.dropWhile_sublist _).length_le
    rw [List.length_drop]
    omega

/-- The scan takes another turn exactly where one is left. -/
theorem scanSlice_turn (bare : Bool) (turns : ℕ) (data : Bytes) (s : PtyScanner) (out : ScanOut) :
    ∃ s' out', scanSlice bare (turns + 1) data (s, out) =
      (turn bare data).elim (s', out') fun left => scanSlice bare turns left (s', out') := by
  unfold turn
  rw [scanSlice]
  simp only
  split
  · exact ⟨_, _, rfl⟩
  · rcases sequence (data.dropWhile fun b => !introduces bare b) with _ | step
    · simp only [Option.map_none, Option.elim_none]
      split
      · exact ⟨_, _, rfl⟩
      · exact ⟨_, _, rfl⟩
    · exact ⟨_, _, rfl⟩

/-- As many turns as there are bytes, and one more, are enough. -/
theorem scanSlice_turns (bare : Bool) {turns : ℕ} {data : Bytes} (h : data.length < turns) {s : PtyScanner}
    (hs : s.pending = []) (out : ScanOut) :
    scanSlice bare turns data (s, out) = scanSlice bare (data.length + 1) data (s, out) := by
  rw [scanSlice_eq turns data s out h hs, scanSlice_eq _ data s out (Nat.lt_succ_self _) hs]

/-- **Nothing is lost.** Of the bytes of any chunks each is passed on, in its order,
or is part of a complete sequence that is removed as a whole, or of the end that is
kept; what is kept is shorter than the cap. A turn of the scan that another follows
leaves less than it found, and the turns the scan is given are enough. -/
theorem scanner_conserves (chunks : List Bytes) :
    (∃ parts, Conserves chunks.flatten parts (scanChunks false .new chunks).2.filtered
      (scanChunks false .new chunks).1.pending) ∧
    (scanChunks false .new chunks).1.pending.length < maxPendingEscapeBytes ∧
    (∀ data left : Bytes, turn false data = some left → left.length < data.length) ∧
    (∀ (turns : ℕ) (data : Bytes) (s : PtyScanner) (out : ScanOut), ∃ s' out',
      scanSlice false (turns + 1) data (s, out) =
        (turn false data).elim (s', out') fun left => scanSlice false turns left (s', out')) ∧
    ∀ (turns : ℕ) (data : Bytes) (s : PtyScanner) (out : ScanOut), data.length < turns → s.pending = [] →
      scanSlice false turns data (s, out) = scanSlice false (data.length + 1) data (s, out) := by
  obtain ⟨hparts, hkept⟩ := scanChunks_conserves chunks .new (by decide)
  exact ⟨hparts, hkept, fun _ _ h => turn_shorter h, scanSlice_turn false,
    fun _ _ _ out h hs => scanSlice_turns false h hs out⟩

/-- A title passes, a string that is cut off is kept. -/
example : (scanChunks false .new [[27, 93, 48, 59, 97, 7], [98, 27, 80, 99]]).2.filtered = [27, 93, 48, 59, 97, 7, 98] ∧
    (scanChunks false .new [[27, 93, 48, 59, 97, 7], [98, 27, 80, 99]]).1.pending = [27, 80, 99] := by
  decide +kernel

end Pty
end OpenRelay
