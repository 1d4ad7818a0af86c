/-
# The scanner as a reader of sequences

A scan reads its text step by step: a plain byte, or a sequence that starts at an
introducer (`lexer`). What the steps come to is collected in order
(`scanSlice_eq`). Without the escape-less forms of ConPTY, what the scanner
recognises does not depend on what follows (`lexer_stable`); so as long as no cut
off sequence reaches the cap, the chunks of a text may be cut anywhere
(`scan_chunks`).
-/
import OpenRelay.Lib.Chunks
import OpenRelay.Pty.Scan

namespace OpenRelay
namespace Pty

open Chunks

/-! ### Recognisers and what follows -/

theorem span_append {p : UInt8 → Bool} : ∀ {s : Bytes}, s.dropWhile p ≠ [] → ∀ t : Bytes,
    (s ++ t).takeWhile p = s.takeWhile p ∧ (s ++ t).dropWhile p = s.dropWhile p ++ t
  | [], h, _ => absurd rfl h
  | b :: s, h, t => by
    by_cases hb : p b = true
    · rw [List.dropWhile_cons_of_pos hb] at h
      obtain ⟨h1, h2⟩ := span_append h t
      rw [List.cons_append, List.takeWhile_cons_of_pos hb, List.dropWhile_cons_of_pos hb,
        List.takeWhile_cons_of_pos hb, List.dropWhile_cons_of_pos hb, h1, h2]
      exact ⟨rfl, rfl⟩
    · rw [List.cons_append, List.takeWhile_cons_of_neg hb, List.dropWhile_cons_of_neg hb,
        List.takeWhile_cons_of_neg hb, List.dropWhile_cons_of_neg hb]
      exact ⟨rfl, rfl⟩

theorem length_span (p : UInt8 → Bool) (s : Bytes) :
    (s.takeWhile p).length + (s.dropWhile p).length = s.length := by
  rw [← List.length_append, List.takeWhile_append_dropWhile]

/-- A recogniser's step takes bytes that are there, and does not depend on what
follows. -/
structure Settled (f : Bytes → Option Step) (data : Bytes) (step : Step) : Prop where
  pos : 0 < step.len
  le : step.len ≤ data.length
  stable : ∀ t, f (data ++ t) = some step

theorem Step.emit_len (bytes : Bytes) : (Step.emit bytes).len = bytes.length := rfl

theorem csi_settled {data : Bytes} {step : Step} (h2 : 2 ≤ data.length) (h : csi data = some step) :
    Settled csi data step := by
  unfold csi at h
  simp only at h
  rcases hrest : ((data.drop 2).dropWhile isParam).dropWhile isIntermediate with _ | ⟨finalByte, more⟩
  · rw [hrest] at h
    cases h
  have hne : (data.drop 2).dropWhile isParam ≠ [] := by
    intro h0
    rw [h0] at hrest
    cases hrest
  have hlen1 := length_span isParam (data.drop 2)
  have hlen2 := length_span isIntermediate ((data.drop 2).dropWhile isParam)
  rw [hrest, List.length_cons] at hlen2
  rw [List.length_drop] at hlen1
  -- the same bytes are read with anything after them
  have hsame : ∀ t, csi (data ++ t) = csi data := by
    intro t
    have hdrop : (data ++ t).drop 2 = data.drop 2 ++ t := List.drop_append_of_le_length h2
    obtain ⟨hp1, hp2⟩ := span_append hne t
    obtain ⟨hi1, hi2⟩ := span_append (p := isIntermediate) (by rw [hrest]; exact List.cons_ne_nil _ _) t
    unfold csi
    simp only [hdrop, hp1, hp2, hi1, hi2, hrest, List.cons_append]
    rw [List.take_append_of_le_length h2, List.take_append_of_le_length (by omega)]
  have hstable : ∀ t, csi (data ++ t) = some step := by
    intro t
    rw [hsame, ← h]
    rfl
  rw [hrest] at h
  simp only at h
  split at h
  · cases h
    exact ⟨by rw [Step.emit_len, List.length_take]; omega, by rw [Step.emit_len, List.length_take]; omega, hstable⟩
  · split at h
    · cases h
      refine ⟨?_, ?_, hstable⟩ <;> simp only [Step.emit, List.length_take] <;> omega
    · cases h
      refine ⟨?_, ?_, hstable⟩ <;> simp only [Step.strip] <;> omega
    · cases h
      refine ⟨?_, ?_, hstable⟩ <;> simp only [Step.strip] <;> omega

theorem esc_ne_bel : ¬ esc = bel := by decide

section Terminator

variable {escaped : Bool} {b : UInt8}

theorem findTerminator_bel (s : Bytes) : findTerminator escaped (bel :: s) = .found 0 1 := by
  simp only [findTerminator, if_true]

theorem findTerminator_esc (c : UInt8) (s : Bytes) :
    findTerminator escaped (esc :: c :: s) = if escaped ∧ c = 92 then .found 0 2 else .embedded := by
  simp only [findTerminator, esc_ne_bel, if_true, if_false]

theorem findTerminator_esc_nil : findTerminator escaped [esc] = .missing := by
  simp only [findTerminator, esc_ne_bel, if_true, if_false]

theorem findTerminator_plain (hbel : b ≠ bel) (hesc : b ≠ esc) (s : Bytes) :
    findTerminator escaped (b :: s) = match findTerminator escaped s with
      | .found payload len => .found (payload + 1) len
      | .missing => .missing
      | .embedded => .embedded := by
  conv_lhs => unfold findTerminator
  refine (if_neg hbel).trans ((if_neg hesc).trans ?_)
  rcases findTerminator escaped s with _ | _ | ⟨_, _⟩ <;> rfl

end Terminator

/-- The cases of a string: its terminator, a cut off or another escape, or a byte
of the body. -/
theorem string_cases (s : Bytes) : s = [] ∨ (∃ t, s = bel :: t) ∨ s = [esc] ∨ (∃ c t, s = esc :: c :: t) ∨
    ∃ b t, s = b :: t ∧ b ≠ bel ∧ b ≠ esc := by
  rcases s with _ | ⟨b, t⟩
  · exact .inl rfl
  by_cases hbel : b = bel
  · exact .inr (.inl ⟨t, by rw [hbel]⟩)
  by_cases hesc : b = esc
  · rcases t with _ | ⟨c, t⟩
    · exact .inr (.inr (.inl (by rw [hesc])))
    · exact .inr (.inr (.inr (.inl ⟨c, t, by rw [hesc]⟩)))
  · exact .inr (.inr (.inr (.inr ⟨b, t, rfl, hbel, hesc⟩)))

theorem findTerminator_append (escaped : Bool) (t : Bytes) : ∀ s : Bytes, findTerminator escaped s ≠ .missing →
    findTerminator escaped (s ++ t) = findTerminator escaped s := by
  intro s
  induction s with
  | nil => exact fun h => absurd rfl h
  | cons b s ih =>
    intro h
    rcases string_cases (b :: s) with h0 | ⟨s', h0⟩ | h0 | ⟨c, s', h0⟩ | ⟨b', s', h0, hbel, hesc⟩
    · cases h0
    · rw [h0, List.cons_append, findTerminator_bel, findTerminator_bel]
    · rw [h0, findTerminator_esc_nil] at h
      exact absurd rfl h
    · rw [h0, List.cons_append, List.cons_append, findTerminator_esc, findTerminator_esc]
    · cases h0
      rw [findTerminator_plain hbel hesc] at h
      rw [List.cons_append, findTerminator_plain hbel hesc, findTerminator_plain hbel hesc, ih]
      intro hs
      rw [hs] at h
      exact absurd rfl h

theorem findTerminator_le {escaped : Bool} : ∀ {s : Bytes} {payload len : ℕ},
    findTerminator escaped s = .found payload len → 0 < len ∧ payload + len ≤ s.length := by
  intro s
  induction s with
  | nil => nofun
  | cons b s ih =>
    intro payload len h
    rcases string_cases (b :: s) with h0 | ⟨s', h0⟩ | h0 | ⟨c, s', h0⟩ | ⟨b', s', h0, hbel, hesc⟩
    · cases h0
    · rw [h0, findTerminator_bel] at h
      cases h
      exact ⟨by omega, by simp⟩
    · rw [h0, findTerminator_esc_nil] at h
      cases h
    · rw [h0, findTerminator_esc] at h
      split at h
      · cases h
        exact ⟨by omega, by rw [h0]; simp⟩
      · cases h
    · cases h0
      rw [findTerminator_plain hbel hesc] at h
      rcases hs : findTerminator escaped s with _ | _ | ⟨p, l⟩
      · rw [hs] at h
        cases h
      · rw [hs] at h
        cases h
      · rw [hs] at h
        cases h
        obtain ⟨h1, h2⟩ := ih hs
        exact ⟨h1, by rw [List.length_cons]; omega⟩

@[simp] theorem oscStep_len (len : ℕ) (ps : Bytes) (semi : Bool) (payload terminator : Bytes) :
    (oscStep len ps semi payload terminator).len = len := by
  unfold oscStep
  simp only [Step.strip]
  repeat' split
  all_goals rfl

theorem hasSemi_append {s : Bytes} (h : s ≠ []) (t : Bytes) : hasSemi (s ++ t) = hasSemi s := by
  obtain ⟨b, more, rfl⟩ := List.exists_cons_of_ne_nil h
  rfl

theorem afterSemi_append {s : Bytes} (h : s ≠ []) (t : Bytes) : afterSemi (s ++ t) = afterSemi s ++ t := by
  rw [afterSemi, afterSemi, hasSemi_append h]
  obtain ⟨b, more, rfl⟩ := List.exists_cons_of_ne_nil h
  by_cases hs : hasSemi (b :: more) = true
  · rw [if_pos hs, if_pos hs]
    rfl
  · rw [if_neg hs, if_neg hs]

theorem length_afterSemi (s : Bytes) : (afterSemi s).length ≤ s.length := by
  unfold afterSemi
  split
  · simp
  · exact le_rfl

/-- Where an OSC string goes on after its command: what its terminator makes of it. -/
def oscEnd (intro : Bytes) (start : ℕ) (ps : Bytes) (semi : Bool) (text : Bytes) : Terminator → Option Step
  | .missing => none
  | .embedded => some (.emit intro)
  | .found payload len =>
    some (oscStep (start + payload + len) ps semi (text.take payload) ((text.drop payload).take len))

theorem osc_settled {data : Bytes} {introLen : ℕ} {escaped : Bool} {step : Step} (hpos : 0 < introLen)
    (hintro : introLen ≤ data.length) (h : osc data introLen escaped = some step) :
    Settled (fun data => osc data introLen escaped) data step := by
  have hne : (data.drop introLen).dropWhile isDigit ≠ [] := by
    intro h0
    simp only [osc, h0] at h
    split at h
    · cases h
    · simp [afterSemi, hasSemi, findTerminator] at h
  have hlen := length_span isDigit (data.drop introLen)
  have hsemi := length_afterSemi ((data.drop introLen).dropWhile isDigit)
  rw [List.length_drop] at hlen
  -- what is read of the text with anything after it
  have hsame : ∀ t, osc (data ++ t) introLen escaped =
      if ((data.drop introLen).takeWhile isDigit).length = 0 ∨ 5 < ((data.drop introLen).takeWhile isDigit).length then
        some (.emit (data.take introLen))
      else oscEnd (data.take introLen) (data.length - (afterSemi ((data.drop introLen).dropWhile isDigit)).length)
        ((data.drop introLen).takeWhile isDigit) (hasSemi ((data.drop introLen).dropWhile isDigit))
        (afterSemi ((data.drop introLen).dropWhile isDigit) ++ t)
        (findTerminator escaped (afterSemi ((data.drop introLen).dropWhile isDigit) ++ t)) := by
    intro t
    obtain ⟨hp1, hp2⟩ := span_append hne t
    have hne' : ¬ (data.drop introLen).dropWhile isDigit ++ t = [] := by simp [hne]
    unfold osc
    simp only [List.drop_append_of_le_length hintro, List.take_append_of_le_length hintro, hp1, hp2,
      afterSemi_append hne, hasSemi_append hne, List.length_append, Nat.add_sub_add_right, hne', if_false]
    all_goals rfl
  have hself := hsame []
  rw [List.append_nil, List.append_nil, h] at hself
  have hlenTake : (data.take introLen).length = introLen := by rw [List.length_take]; omega
  by_cases hps : ((data.drop introLen).takeWhile isDigit).length = 0 ∨
      5 < ((data.drop introLen).takeWhile isDigit).length
  · rw [if_pos hps] at hself
    cases hself
    exact ⟨by rw [Step.emit_len]; omega, by rw [Step.emit_len]; omega, fun t => by rw [hsame, if_pos hps]⟩
  rw [if_neg hps] at hself
  rcases hf : findTerminator escaped (afterSemi ((data.drop introLen).dropWhile isDigit)) with _ | _ | ⟨payload, len⟩
  · rw [hf] at hself
    cases hself
  · rw [hf] at hself
    cases hself
    refine ⟨by rw [Step.emit_len]; omega, by rw [Step.emit_len]; omega, fun t => ?_⟩
    rw [hsame, if_neg hps, findTerminator_append escaped t _ (fun h => by rw [hf] at h; cases h), hf]
    rfl
  · obtain ⟨hl1, hl2⟩ := findTerminator_le hf
    rw [hf] at hself
    cases hself
    refine ⟨by rw [oscStep_len]; omega, by rw [oscStep_len]; omega, fun t => ?_⟩
    rw [hsame, if_neg hps, findTerminator_append escaped t _ (fun h => by rw [hf] at h; cases h), hf]
    dsimp only [oscEnd]
    rw [List.take_append_of_le_length (by omega), List.drop_append_of_le_length (by omega),
      List.take_append_of_le_length (by rw [List.length_drop]; omega)]

section StringLen

theorem stringLen_bel (s : Bytes) : stringLen (bel :: s) = some 1 := by
  simp only [stringLen, if_true]

theorem stringLen_esc_nil : stringLen [esc] = none := by
  simp only [stringLen, esc_ne_bel, if_true, if_false]

theorem stringLen_esc (c : UInt8) (s : Bytes) :
    stringLen (esc :: c :: s) = if c = 92 then some 2 else (stringLen (c :: s)).map (· + 1) := by
  conv_lhs => unfold stringLen
  simp only [esc_ne_bel, if_true, if_false]

theorem stringLen_plain {b : UInt8} (hbel : b ≠ bel) (hesc : b ≠ esc) (s : Bytes) :
    stringLen (b :: s) = (stringLen s).map (· + 1) := by
  conv_lhs => unfold stringLen
  rw [if_neg hbel, if_neg hesc]

end StringLen

theorem stringLen_some : ∀ {s : Bytes} {n : ℕ}, stringLen s = some n →
    n ≤ s.length ∧ ∀ t, stringLen (s ++ t) = some n := by
  intro s
  induction s with
  | nil => nofun
  | cons b s ih =>
    intro n h
    -- one byte further on
    have hmore : ∀ {m : ℕ}, (stringLen s).map (· + 1) = some m →
        m ≤ (b :: s).length ∧ ∀ t, (stringLen (s ++ t)).map (· + 1) = some m := by
      intro m hm
      obtain ⟨m', hm', rfl⟩ := Option.map_eq_some_iff.mp hm
      obtain ⟨h1, h2⟩ := ih hm'
      refine ⟨by rw [List.length_cons]; omega, fun t => ?_⟩
      rw [h2 t]
      rfl
    rcases string_cases (b :: s) with h0 | ⟨s', h0⟩ | h0 | ⟨c, s', h0⟩ | ⟨b', s', h0, hbel, hesc⟩
    · cases h0
    · rw [h0, stringLen_bel] at h
      cases h
      exact ⟨by simp, fun t => by rw [h0]; exact stringLen_bel _⟩
    · rw [h0, stringLen_esc_nil] at h
      cases h
    · cases h0
      rw [stringLen_esc] at h
      by_cases hc : c = 92
      · rw [if_pos hc] at h
        cases h
        refine ⟨by simp, fun t => ?_⟩
        rw [List.cons_append, List.cons_append, stringLen_esc, if_pos hc]
      · rw [if_neg hc] at h
        obtain ⟨h1, h2⟩ := hmore h
        refine ⟨h1, fun t => ?_⟩
        rw [List.cons_append, List.cons_append, stringLen_esc, if_neg hc]
        exact h2 t
    · cases h0
      rw [stringLen_plain hbel hesc] at h
      obtain ⟨h1, h2⟩ := hmore h
      refine ⟨h1, fun t => ?_⟩
      rw [List.cons_append, stringLen_plain hbel hesc]
      exact h2 t

theorem stringSequence_settled {data : Bytes} {step : Step} (h2 : 2 ≤ data.length)
    (h : stringSequence data = some step) : Settled stringSequence data step := by
  obtain ⟨n, hn, rfl⟩ := Option.map_eq_some_iff.mp h
  obtain ⟨h1, hstable⟩ := stringLen_some hn
  rw [List.length_drop] at h1
  refine ⟨by simp only [Step.strip]; omega, by simp only [Step.strip]; omega, fun t => ?_⟩
  rw [stringSequence, List.drop_append_of_le_length h2, hstable]
  rfl

/-- **A sequence and what follows it.** -/
theorem escape_settled {data : Bytes} {step : Step} (h : escape data = some step) : Settled escape data step := by
  rcases hi : data[1]? with _ | introducer
  · simp [escape, hi] at h
  have h2 : 2 ≤ data.length := (List.getElem?_eq_some_iff.mp hi).1
  have hi' : ∀ t, (data ++ t)[1]? = some introducer := by
    intro t
    rw [List.getElem?_append_left (by omega), hi]
  have htake : ∀ t, (data ++ t).take 2 = data.take 2 := fun t => List.take_append_of_le_length h2
  have hlen : (data.take 2).length = 2 := by rw [List.length_take]; omega
  simp only [escape, hi] at h
  have hunfold : ∀ t, escape (data ++ t) =
      if introducer = 91 then csi (data ++ t)
      else if introducer = 93 then osc (data ++ t) 2 true
      else if introducer = 80 ∨ introducer = 95 ∨ introducer = 94 ∨ introducer = 88 then stringSequence (data ++ t)
      else if introducer = 99 then some { Step.emit (data.take 2) with signals := [.clearStatuses] }
      else some (.emit (data.take 2)) := by
    intro t
    simp only [escape, hi', htake]
  split at h
  · rename_i hc
    obtain ⟨h1, h3, h4⟩ := csi_settled h2 h
    exact ⟨h1, h3, fun t => by rw [hunfold, if_pos hc, h4]⟩
  · rename_i hc
    split at h
    · rename_i ho
      obtain ⟨h1, h3, h4⟩ := osc_settled (by decide) h2 h
      exact ⟨h1, h3, fun t => by rw [hunfold, if_neg hc, if_pos ho, h4]⟩
    · rename_i ho
      split at h
      · rename_i hs
        obtain ⟨h1, h3, h4⟩ := stringSequence_settled h2 h
        exact ⟨h1, h3, fun t => by rw [hunfold, if_neg hc, if_neg ho, if_pos hs, h4]⟩
      · rename_i hs
        split at h
        · rename_i hr
          cases h
          refine ⟨?_, ?_, fun t => by rw [hunfold, if_neg hc, if_neg ho, if_neg hs, if_pos hr]⟩
          all_goals simp only [Step.emit, hlen]; omega
        · rename_i hr
          cases h
          refine ⟨?_, ?_, fun t => by rw [hunfold, if_neg hc, if_neg ho, if_neg hs, if_neg hr]⟩
          all_goals simp only [Step.emit, hlen]; omega

/-! ### The reader -/

theorem bareCsi_len {data : Bytes} (h : data ≠ []) :
    0 < (bareCsi data).len ∧ (bareCsi data).len ≤ data.length := by
  have hpos := List.length_pos_iff.mpr h
  have hlit : 0 < (Step.emit (data.take 1)).len ∧ (Step.emit (data.take 1)).len ≤ data.length := by
    rw [Step.emit_len, List.length_take]
    omega
  unfold bareCsi
  simp only
  obtain ⟨mark, hmark⟩ : ∃ mark, mark = (if decide (data[1]? = some 63) = true then 2 else 1) := ⟨_, rfl⟩
  have hle : mark ≤ data.length := by
    rw [hmark]
    split
    · rename_i hq
      exact (List.getElem?_eq_some_iff.mp (of_decide_eq_true hq)).1
    · exact hpos
  rw [← hmark]
  have hlen := length_span isDigit (data.drop mark)
  rw [List.length_drop] at hlen
  split
  · exact hlit
  rcases hafter : (data.drop mark).dropWhile isDigit with _ | ⟨b, more⟩
  · exact hlit
  · rw [hafter, List.length_cons] at hlen
    simp only
    by_cases hn : b = 110
    · rw [if_pos hn]
      split
      · simp only [Step.strip]
        omega
      · exact hlit
    rw [if_neg hn]
    by_cases hs : b ≠ 59
    · rw [if_pos hs]
      exact hlit
    rw [if_neg hs]
    split
    · exact hlit
    · rename_i hR
      rw [not_or, not_not] at hR
      have hmore := length_span isDigit more
      have hlast : 0 < (more.dropWhile isDigit).length := by
        rw [List.length_pos_iff]
        intro h0
        rw [h0] at hR
        cases hR.2
      simp only [Step.strip]
      omega

theorem sequence_len {data : Bytes} {step : Step} (h : sequence data = some step) :
    0 < step.len ∧ step.len ≤ data.length := by
  rcases data with _ | ⟨b, rest⟩
  · cases h
  · simp only [sequence, List.head?_cons] at h
    split at h
    · exact ⟨(escape_settled h).pos, (escape_settled h).le⟩
    · split at h
      · cases h
        exact bareCsi_len (List.cons_ne_nil _ _)
      · have hs := osc_settled (by decide) (by rw [List.length_cons]; omega) h
        exact ⟨hs.pos, hs.le⟩

/-- The step at the front of a text: a plain byte, or a sequence. -/
def nextStep (bare : Bool) : Bytes → Option Step
  | [] => none
  | b :: rest => if introduces bare b then sequence (b :: rest) else some (.emit [b])

/-- The scanner reads steps. -/
def lexer (bare : Bool) : Reader UInt8 Step where
  next data := (nextStep bare data).map fun step => (step, step.len)
  pos {s step n} h := by
    obtain ⟨step, hs, heq⟩ := Option.map_eq_some_iff.mp h
    cases heq
    rcases s with _ | ⟨b, rest⟩
    · cases hs
    · simp only [nextStep] at hs
      split at hs
      · exact (sequence_len hs).1
      · cases hs
        exact Nat.one_pos
  le {s step n} h := by
    obtain ⟨step, hs, heq⟩ := Option.map_eq_some_iff.mp h
    cases heq
    rcases s with _ | ⟨b, rest⟩
    · cases hs
    · simp only [nextStep] at hs
      split at hs
      · exact (sequence_len hs).2
      · cases hs
        simp [Step.emit]

theorem lexer_next (bare : Bool) (data : Bytes) :
    (lexer bare).next data = (nextStep bare data).map fun step => (step, step.len) := rfl

/-- **What is recognised does not depend on what follows**, without the
escape-less forms. -/
theorem lexer_stable : (lexer false).Stable := by
  intro s step n h t
  obtain ⟨step, hs, heq⟩ := Option.map_eq_some_iff.mp h
  cases heq
  rcases s with _ | ⟨b, rest⟩
  · cases hs
  · rw [lexer_next, List.cons_append]
    simp only [nextStep] at hs ⊢
    split at hs
    · rename_i hb
      have hesc : b = esc := by simpa [introduces] using hb
      simp only [sequence, List.head?_cons, hesc, if_true] at hs
      have hstable := (escape_settled hs).stable t
      rw [if_pos hb, sequence, List.head?_cons]
      simp only [hesc, if_true]
      rw [List.cons_append] at hstable
      rw [hstable]
      rfl
    · rename_i hb
      cases hs
      rw [if_neg hb]
      rfl

/-! ### The scan, step by step -/

theorem PtyScanner.signal_pending (s : PtyScanner) (p : Bytes) (op : SignalOp) :
    ({ s with pending := p } : PtyScanner).signal op = { s.signal op with pending := p } := rfl

theorem PtyScanner.step_pending (s : PtyScanner) (p : Bytes) (step : Step) :
    ({ s with pending := p } : PtyScanner).step step = { s.step step with pending := p } := by
  unfold PtyScanner.step
  induction step.signals generalizing s with
  | nil => rfl
  | cons op ops ih => rw [List.foldl_cons, List.foldl_cons, signal_pending, ih]

/-- What steps come to, one after another. -/
def PtyScanner.steps (s : PtyScanner) (steps : List Step) : PtyScanner := steps.foldl PtyScanner.step s

def ScanOut.steps (out : ScanOut) (steps : List Step) : ScanOut := steps.foldl ScanOut.step out

theorem PtyScanner.steps_pending (s : PtyScanner) (p : Bytes) (steps : List Step) :
    ({ s with pending := p } : PtyScanner).steps steps = { s.steps steps with pending := p } := by
  unfold PtyScanner.steps
  induction steps generalizing s with
  | nil => rfl
  | cons step steps ih => rw [List.foldl_cons, List.foldl_cons, step_pending, ih]

theorem PtyScanner.steps_append (s : PtyScanner) (steps more : List Step) :
    s.steps (steps ++ more) = (s.steps steps).steps more := List.foldl_append

theorem ScanOut.steps_append (out : ScanOut) (steps more : List Step) :
    out.steps (steps ++ more) = (out.steps steps).steps more := List.foldl_append

/-- The end of a scan: what is cut off is kept, or released at the cap. -/
def finishScan (s : PtyScanner) (out : ScanOut) (rest : Bytes) : PtyScanner × ScanOut :=
  if maxPendingEscapeBytes ≤ rest.length then (s, out.text rest) else ({ s with pending := rest }, out)

section Slice

variable {bare : Bool}

/-- The steps of plain text: its bytes. -/
theorem drain_plain : ∀ {plain : Bytes}, (∀ b ∈ plain, introduces bare b = false) → ∀ rest : Bytes,
    drain (lexer bare) (plain ++ rest) =
      (plain.map (fun b => Step.emit [b]) ++ (drain (lexer bare) rest).1, (drain (lexer bare) rest).2)
  | [], _, _ => rfl
  | b :: plain, h, rest => by
    have hb : (lexer bare).next (b :: plain ++ rest) = some (Step.emit [b], 1) := by
      rw [lexer_next, List.cons_append, nextStep, if_neg (by rw [h b List.mem_cons_self]; exact Bool.false_ne_true)]
      rfl
    rw [drain_some hb, List.cons_append, List.drop_succ_cons, List.drop_zero,
      drain_plain (fun b' h' => h b' (List.mem_cons_of_mem _ h'))]
    rfl

theorem ScanOut.steps_plain (out : ScanOut) (plain : Bytes) :
    out.steps (plain.map fun b => Step.emit [b]) = out.text plain := by
  unfold ScanOut.steps
  induction plain generalizing out with
  | nil => simp [ScanOut.text]
  | cons b plain ih =>
    rw [List.map_cons, List.foldl_cons, ih]
    simp [ScanOut.text, ScanOut.step, Step.emit]

theorem PtyScanner.steps_plain (s : PtyScanner) (plain : Bytes) :
    s.steps (plain.map fun b => Step.emit [b]) = s := by
  unfold PtyScanner.steps
  induction plain generalizing s with
  | nil => rfl
  | cons b plain ih =>
    rw [List.map_cons, List.foldl_cons]
    exact ih s

/-- **The scan of a text.** Its steps in order, and then its end. -/
theorem scanSlice_eq : ∀ (turns : ℕ) (data : Bytes) (s : PtyScanner) (out : ScanOut), data.length < turns →
    s.pending = [] →
    scanSlice bare turns data (s, out) =
      finishScan (s.steps (drain (lexer bare) data).1) (out.steps (drain (lexer bare) data).1)
        (drain (lexer bare) data).2
  | 0, _, _, _, h, _ => absurd h (Nat.not_lt_zero _)
  | turns + 1, data, s, out, hlen, hpend => by
    have hplain : ∀ b ∈ data.takeWhile (fun b => !introduces bare b), introduces bare b = false := by
      intro b hb
      simpa using List.all_eq_true.mp List.all_takeWhile b hb
    have hspan := List.takeWhile_append_dropWhile (p := fun b => !introduces bare b) (l := data)
    have hdrain := drain_plain hplain (data.dropWhile fun b => !introduces bare b)
    rw [hspan] at hdrain
    rw [scanSlice, hdrain]
    simp only
    rcases hrest : data.dropWhile (fun b => !introduces bare b) with _ | ⟨b, rest⟩
    · simp only [if_true, drain_nil, List.append_nil]
      rw [PtyScanner.steps_plain, ScanOut.steps_plain, finishScan, if_neg (by decide)]
      cases s
      simp only at hpend
      rw [hpend]
    · have hb : introduces bare b = true := by
        have hne : data.dropWhile (fun b => !introduces bare b) ≠ [] := by rw [hrest]; exact List.cons_ne_nil _ _
        have := List.head_dropWhile_not (fun b => !introduces bare b) hne
        simp only [hrest, List.head_cons] at this
        simpa using this
      have hnext : (lexer bare).next (b :: rest) = (sequence (b :: rest)).map fun step => (step, step.len) := by
        rw [lexer_next, nextStep, if_pos hb]
      have hsteps : ∀ steps, s.steps (List.map (fun b => Step.emit [b]) (data.takeWhile fun b => !introduces bare b) ++
          steps) = s.steps steps := by
        intro steps
        rw [PtyScanner.steps_append, PtyScanner.steps_plain]
      have houts : ∀ steps, out.steps (List.map (fun b => Step.emit [b]) (data.takeWhile fun b => !introduces bare b) ++
          steps) = (out.text (data.takeWhile fun b => !introduces bare b)).steps steps := by
        intro steps
        rw [ScanOut.steps_append, ScanOut.steps_plain]
      simp only [List.cons_ne_nil, if_false, hsteps, houts]
      rcases hseq : sequence (b :: rest) with _ | step
      · rw [hseq] at hnext
        rw [drain_none hnext]
        rfl
      · rw [hseq] at hnext
        have hpos := (sequence_len hseq).1
        have hle : (b :: rest).length ≤ data.length := by
          rw [← hrest]
          exact (List.dropWhile_sublist _).length_le
        have hpend' : (s.step step).pending = [] := by
          have := PtyScanner.step_pending s [] step
          cases s
          simp only at hpend
          subst hpend
          exact congrArg PtyScanner.pending this
        rw [drain_some hnext]
        refine scanSlice_eq turns _ _ _ ?_ hpend'
        rw [List.length_drop]
        have : 0 < (b :: rest).length := Nat.succ_pos _
        omega

/-- The scan of one chunk. -/
theorem scan_eq (s : PtyScanner) (data : Bytes) :
    s.scan bare data =
      finishScan ({ s with pending := [] }.steps (drain (lexer bare) (s.pending ++ data)).1)
        (ScanOut.empty.steps (drain (lexer bare) (s.pending ++ data)).1) (drain (lexer bare) (s.pending ++ data)).2 :=
  scanSlice_eq _ _ _ _ (Nat.lt_succ_self _) rfl

end Slice

/-! ### Chunks -/

/-- What the scanner sees as the beginning of a sequence at the end of a text. -/
def candidate (text : Bytes) : Bytes := (drain (lexer false) text).2

/-- No cut off sequence of the text reaches the cap, wherever the text is cut. -/
def NoCap (text : Bytes) : Prop := ∀ p, p <+: text → (candidate p).length < maxPendingEscapeBytes

/-- What two scans come to, one after another. -/
def ScanOut.append (a b : ScanOut) : ScanOut where
  filtered := a.filtered ++ b.filtered
  queries := a.queries ++ b.queries
  responses := a.responses ++ b.responses
  signalBytes := a.signalBytes + b.signalBytes

/-- Scan chunks one after another. -/
def scanChunks (bare : Bool) : PtyScanner → List Bytes → PtyScanner × ScanOut
  | s, [] => (s, .empty)
  | s, c :: cs =>
    let first := s.scan bare c
    let more := scanChunks bare first.1 cs
    (more.1, first.2.append more.2)

@[simp] theorem ScanOut.append_empty (a : ScanOut) : a.append .empty = a := by
  simp [ScanOut.append, ScanOut.empty]

@[simp] theorem ScanOut.empty_append (a : ScanOut) : ScanOut.empty.append a = a := by
  simp [ScanOut.append, ScanOut.empty]

theorem ScanOut.append_step (a b : ScanOut) (step : Step) : (a.append b).step step = a.append (b.step step) := by
  simp [ScanOut.append, ScanOut.step, Nat.add_assoc]

theorem ScanOut.append_steps (a b : ScanOut) (steps : List Step) :
    (a.append b).steps steps = a.append (b.steps steps) := by
  unfold ScanOut.steps
  induction steps generalizing b with
  | nil => rfl
  | cons step steps ih => rw [List.foldl_cons, List.foldl_cons, append_step, ih]

/-- The steps of two texts. -/
theorem ScanOut.empty_steps_append (steps more : List Step) :
    ScanOut.empty.steps (steps ++ more) = (ScanOut.empty.steps steps).append (ScanOut.empty.steps more) := by
  rw [steps_append, ← append_steps, append_empty]

/-- A scan that stays below the cap. -/
theorem scan_eq_of_lt {bare : Bool} (s : PtyScanner) (data : Bytes)
    (h : (drain (lexer bare) (s.pending ++ data)).2.length < maxPendingEscapeBytes) :
    s.scan bare data =
      ({ s.steps (drain (lexer bare) (s.pending ++ data)).1 with pending := (drain (lexer bare) (s.pending ++ data)).2 },
        ScanOut.empty.steps (drain (lexer bare) (s.pending ++ data)).1) := by
  rw [scan_eq, finishScan, if_neg (Nat.not_le.mpr h), PtyScanner.steps_pending]

/-- No chunk makes the scanner release what it keeps. -/
def Unreleased (bare : Bool) (held : Bytes) (chunks : List Bytes) : Prop :=
  ∀ cs ∈ chunks.inits, (feed (lexer bare) held cs).2.length < maxPendingEscapeBytes

theorem Unreleased.tail {bare : Bool} {held c : Bytes} {cs : List Bytes} (h : Unreleased bare held (c :: cs)) :
    Unreleased bare (drain (lexer bare) (held ++ c)).2 cs := by
  intro ds hds
  have := h (c :: ds) ((List.mem_inits _ _).mpr ((List.prefix_append_right_inj [c]).mpr ((List.mem_inits _ _).mp hds)))
  simpa only [feed] using this

/-- The state and the output after chunks: the steps of a reader that is fed with
them. -/
theorem scanChunks_eq {bare : Bool} : ∀ (chunks : List Bytes) (s : PtyScanner), Unreleased bare s.pending chunks →
    scanChunks bare s chunks =
      ({ s.steps (feed (lexer bare) s.pending chunks).1 with pending := (feed (lexer bare) s.pending chunks).2 },
        ScanOut.empty.steps (feed (lexer bare) s.pending chunks).1)
  | [], _, _ => rfl
  | c :: cs, s, h => by
    have hc : (drain (lexer bare) (s.pending ++ c)).2.length < maxPendingEscapeBytes :=
      h.tail [] ((List.mem_inits _ _).mpr (List.nil_prefix))
    rw [scanChunks, scan_eq_of_lt s c hc]
    simp only
    rw [scanChunks_eq cs _ h.tail, feed]
    simp only
    rw [ScanOut.empty_steps_append, PtyScanner.steps_append, PtyScanner.steps_pending]

/-- **Chunks may be cut anywhere.** As long as no cut off sequence of the text
reaches the cap, the chunks of a text come to what the whole text comes to: the
filtered bytes, the queries and the replies in their order, the signals and what
is kept for the next chunk. -/
theorem scan_chunks (chunks : List Bytes) (h : NoCap chunks.flatten) :
    scanChunks false .new chunks = PtyScanner.new.scan false chunks.flatten := by
  have hfeed : ∀ cs, feed (lexer false) PtyScanner.new.pending cs = drain (lexer false) cs.flatten :=
    fun cs => feed_nil_eq_drain lexer_stable cs
  have hcap : Unreleased false PtyScanner.new.pending chunks := by
    intro cs hcs
    rw [hfeed]
    exact h _ (List.IsPrefix.flatten ((List.mem_inits _ _).mp hcs))
  rw [scanChunks_eq chunks .new hcap, hfeed]
  exact (scan_eq_of_lt .new _ (h _ (List.prefix_refl _))).symm

/-- A probe in three chunks, with text around it. -/
theorem scan_chunks_probe :
    NoCap [97, 27, 91, 54, 110, 98] ∧
      scanChunks false .new [[97, 27], [], [91, 54], [110, 98]] = PtyScanner.new.scan false [97, 27, 91, 54, 110, 98] := by
  have h : NoCap [97, 27, 91, 54, 110, 98] := by
    intro p hp
    rw [← List.mem_inits] at hp
    revert p
    decide +kernel
  exact ⟨h, scan_chunks [[97, 27], [], [91, 54], [110, 98]] h⟩

end Pty
end OpenRelay
