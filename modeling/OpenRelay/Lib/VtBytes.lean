/-
# A terminal's stream of bytes

A terminal decodes the bytes it is sent and reads the characters. What bytes do
whatever follows them (`TakesBytes`) is what their text does (`Takes.bytes`); bytes
that are no text of their own can stand in a stream where the decoder is put right
again, as in an operating system command, whose last byte is an ASCII one
(`takesBytes_osc`). The text of a command has no control character that ends it or breaks
it off; one from U+0080 on is two bytes, and the decoder makes it of no others
(`Decoder.After.mem_step`).

Key theorems: `TakesBytes.trans`, `TakesBytes.feed`, `takesBytes_style`.
-/
import Mathlib.Data.List.Chain
import OpenRelay.Lib.Utf8
import OpenRelay.Lib.Vt

namespace Utf8

/-! ### Between characters -/

theorem decode_ascii {b : UInt8} (h : b.toNat ≤ 0x7F) (bs : List UInt8) :
    decode (b :: bs) = Char.ofNat b.toNat :: decode bs := by
  rw [decode, decodeFrom, step_fresh, first_ascii h]
  rfl

theorem decode_asciis : ∀ (bs : List UInt8), (∀ b ∈ bs, b.toNat ≤ 0x7F) → ∀ rest,
    decode (bs ++ rest) = (bs.map fun b => Char.ofNat b.toNat) ++ decode rest
  | [], _, _ => rfl
  | b :: bs, h, rest => by
    rw [List.cons_append, decode_ascii (h b List.mem_cons_self),
      decode_asciis bs (fun b hb => h b (List.mem_cons_of_mem _ hb)) rest, List.map_cons, List.cons_append]

theorem decode_encode_append (cs : List Char) (bs : List UInt8) : decode (encode cs ++ bs) = cs ++ decode bs := by
  induction cs with
  | nil => rfl
  | cons c cs ih =>
    rw [encode, List.flatMap_cons, List.append_assoc, decode, decodeFrom_char]
    exact congrArg (c :: ·) ih

/-- The decoder is in a character that is not a control character. -/
def Decoder.Owing (d : Decoder) : Prop :=
  d.owed = 0 ∨ (0x80 ≤ d.lower ∧ d.upper ≤ 0xBF ∧ (1 ≤ d.codePoint ∨ 2 ≤ d.owed ∧ 0x90 ≤ d.lower))

theorem owing_fresh : fresh.Owing := .inl rfl

theorem first_owing (b : ℕ) : (first b).2.Owing := by
  unfold first
  split
  · exact owing_fresh
  split
  · exact .inr ⟨Nat.le_refl _, Nat.le_refl _, .inl (by show 1 ≤ b % 32; omega)⟩
  split
  · refine .inr ⟨by dsimp only; split <;> omega, by dsimp only; split <;> omega, ?_⟩
    by_cases hb : b = 0xE0
    · exact .inr ⟨Nat.le_refl _, by dsimp only; split <;> omega⟩
    · exact .inl (by show 1 ≤ b % 16; omega)
  split
  · refine .inr ⟨by dsimp only; split <;> omega, by dsimp only; split <;> omega, ?_⟩
    by_cases hb : b = 0xF0
    · exact .inr ⟨by show 2 ≤ 3; omega, by dsimp only; split <;> omega⟩
    · exact .inl (by show 1 ≤ b % 8; omega)
  · exact owing_fresh

theorem Decoder.Owing.step {d : Decoder} (h : d.Owing) (b : ℕ) : (step d b).2.Owing := by
  unfold Utf8.step
  split
  · exact first_owing b
  split
  · exact first_owing b
  split
  · exact owing_fresh
  · next hzero hin hone =>
    rcases h with h | ⟨hlower, hupper, hcode⟩
    · exact absurd h hzero
    refine .inr ⟨Nat.le_refl _, Nat.le_refl _, .inl ?_⟩
    show 1 ≤ 64 * d.codePoint + b % 64
    omega

/-- The two bytes of a control character from U+0080 on. -/
def controlPair (a b : UInt8) : Bool := a.toNat = 0xC2 && 0x80 ≤ b.toNat && b.toNat ≤ 0x9F

/-- The decoder after this byte: what it is in becomes a control character only if the byte has begun one. -/
structure Decoder.After (last : ℕ) (d : Decoder) : Prop where
  owing : d.Owing
  control : d.owed = 1 → d.codePoint = 2 → last = 0xC2

theorem after_fresh (last : ℕ) : fresh.After last := ⟨owing_fresh, fun h => absurd h (by decide)⟩

theorem first_after (b : ℕ) : (first b).2.After b := by
  refine ⟨first_owing b, ?_⟩
  unfold first
  split
  · exact (after_fresh b).control
  split
  · intro _ hcode
    have hcode : b % 32 = 2 := hcode
    omega
  split
  · exact fun howed => absurd (show 2 = 1 from howed) (by decide)
  split
  · exact fun howed => absurd (show 3 = 1 from howed) (by decide)
  · exact (after_fresh b).control

theorem Decoder.After.step {last : ℕ} {d : Decoder} (h : d.After last) (b : ℕ) : (step d b).2.After b := by
  refine ⟨h.owing.step b, ?_⟩
  unfold Utf8.step
  split
  · exact (first_after b).control
  split
  · exact (first_after b).control
  split
  · exact (after_fresh b).control
  · next hzero hin hone =>
    intro _ hcode
    have hcode : 64 * d.codePoint + b % 64 = 2 := hcode
    rcases h.owing with howing | ⟨hlower, hupper, hlong⟩
    · exact absurd howing hzero
    -- what owes more than a byte is not a long form
    omega

/-- **The control characters of a text** are among its bytes, or two of them. -/
theorem Decoder.After.mem_step {last : ℕ} {d : Decoder} (h : d.After last) {b : ℕ} {c : Char}
    (hc : c ∈ (Utf8.step d b).1) :
    (b ≤ 0x7F ∧ c = Char.ofNat b) ∨ c = replacement ∨
      (∃ n, 0x20 ≤ n ∧ (n < 0x80 ∨ 0x9F < n) ∧ c = Char.ofNat n) ∨ (last = 0xC2 ∧ 0x80 ≤ b ∧ b ≤ 0x9F) := by
  have hfirst {c : Char} (hc : c ∈ (first b).1) : (b ≤ 0x7F ∧ c = Char.ofNat b) ∨ c = replacement := by
    unfold first at hc
    split at hc
    · next hascii => exact .inl ⟨hascii, List.mem_singleton.mp hc⟩
    split at hc
    · exact absurd hc List.not_mem_nil
    split at hc
    · exact absurd hc List.not_mem_nil
    split at hc
    · exact absurd hc List.not_mem_nil
    · exact .inr (List.mem_singleton.mp hc)
  unfold Utf8.step at hc
  split at hc
  · exact (hfirst hc).imp_right .inl
  split at hc
  · rcases List.mem_cons.mp hc with rfl | hc
    · exact .inr (.inl rfl)
    · exact (hfirst hc).imp_right .inl
  split at hc
  · next hzero hin hone =>
    rcases h.owing with howing | ⟨hlower, hupper, hcode⟩
    · exact absurd howing hzero
    by_cases hcontrol : 0x80 ≤ 64 * d.codePoint + b % 64 ∧ 64 * d.codePoint + b % 64 ≤ 0x9F
    · have hbegun := h.control hone (by omega)
      exact .inr (.inr (.inr ⟨hbegun, by omega, by omega⟩))
    · exact .inr (.inr (.inl ⟨_, by omega, by omega, List.mem_singleton.mp hc⟩))
  · exact absurd hc List.not_mem_nil

/-- An ASCII byte ends the character before it. -/
theorem step_ascii {d : Decoder} (h : d.Owing) {b : ℕ} (hb : b ≤ 0x7F) :
    step d b = ([Char.ofNat b], fresh) ∨ step d b = ([replacement, Char.ofNat b], fresh) := by
  unfold step
  split
  · exact .inl (first_ascii hb)
  · next hzero =>
    rcases h with h | ⟨hlower, _⟩
    · exact absurd h hzero
    rw [if_pos (.inl (by omega)), first_ascii hb]
    exact .inr rfl

end Utf8

namespace Vt

/-- The bytes as the terminal reads them. -/
def feedBytes (m : Model) (s : Screen) (bs : List UInt8) : Option Screen := feed m s (Utf8.decode bs)

/-- The bytes take the screen from one state to the other, whatever bytes follow. -/
def TakesBytes (m : Model) (s : Screen) (bs : List UInt8) (t : Screen) : Prop :=
  ∃ ts, (∀ rest, lex .ground (Utf8.decode (bs ++ rest)) = ts ++ lex .ground (Utf8.decode rest)) ∧
    Runs.run (step m) s ts = some t

variable {m : Model}

theorem TakesBytes.nil (m : Model) (s : Screen) : TakesBytes m s [] s := ⟨[], fun _ => rfl, rfl⟩

theorem TakesBytes.trans {s t u : Screen} {bs cs : List UInt8} (h : TakesBytes m s bs t) (h' : TakesBytes m t cs u) :
    TakesBytes m s (bs ++ cs) u := by
  obtain ⟨ts, hlex, ht⟩ := h
  obtain ⟨us, hlex', hu⟩ := h'
  refine ⟨ts ++ us, fun rest => ?_, ?_⟩
  · rw [List.append_assoc, hlex, hlex', List.append_assoc]
  · rw [Runs.run_append, ht, Option.bind_some, hu]

theorem TakesBytes.feed {s t : Screen} {bs : List UInt8} (h : TakesBytes m s bs t) : feedBytes m s bs = some t := by
  obtain ⟨ts, hlex, ht⟩ := h
  have hall : lex .ground (Utf8.decode (bs ++ [])) = ts := (hlex []).trans (List.append_nil ts)
  rw [List.append_nil] at hall
  rw [feedBytes, Vt.feed, hall, ht]

/-- A text's bytes. -/
theorem Takes.bytes {s t : Screen} {cs : List Char} (h : Takes m s cs t) : TakesBytes m s (Utf8.encode cs) t := by
  obtain ⟨ts, hspells, ht⟩ := h
  exact ⟨ts, fun rest => by rw [Utf8.decode_encode_append, hspells], ht⟩

/-! ### An operating system command -/

/-- The bytes can stand in a command's text: none ends it or breaks it off, and no two are a
control character that might. -/
structure InCommand (bs : List UInt8) : Prop where
  bytes : ∀ b ∈ bs, b.toNat ≠ 7 ∧ b.toNat ≠ 0x18 ∧ b.toNat ≠ 0x1a ∧ b.toNat ≠ 0x1b
  pairs : bs.IsChain fun a b => Utf8.controlPair a b = false

theorem toNat_ofNat_eq (n : ℕ) : (Char.ofNat n).toNat = n ∨ (Char.ofNat n).toNat = 0 := by
  by_cases h : n.isValidChar
  · exact .inl (by rw [Char.ofNat, dif_pos h]; rfl)
  · exact .inr (by rw [Char.ofNat, dif_neg h]; rfl)

/-- The character is text of a command. -/
def goesOn (c : Char) : Prop :=
  c.toNat ≠ 7 ∧ c.toNat ≠ 0x18 ∧ c.toNat ≠ 0x1a ∧ c.toNat ≠ 0x1b ∧ (c.toNat < 0x80 ∨ 0x9F < c.toNat)

theorem next_osc {c : Char} (h : goesOn c) (text : List Char) :
    next (.osc text) c = (.osc (text ++ [c]), none) := by
  obtain ⟨hbel, hcan, hsub, hesc, hcontrol⟩ := h
  have hne (d : Char) (hd : c.toNat ≠ d.toNat) : c ≠ d := fun heq => hd (congrArg Char.toNat heq)
  have hcancel : isCancel c = false := by
    simp only [isCancel, hcan, hsub, decide_false, Bool.false_or, Bool.and_eq_false_iff, decide_eq_false_iff_not]
    omega
  rw [next, if_neg (hne bel hbel), if_neg (hne esc hesc), if_neg (by simp [hcancel])]

theorem lex_osc : ∀ (cs : List Char) (text rest : List Char), (∀ c ∈ cs, goesOn c) →
    lex (.osc text) (cs ++ rest) = lex (.osc (text ++ cs)) rest
  | [], text, rest, _ => by rw [List.append_nil, List.nil_append]
  | c :: cs, text, rest, h => by
    obtain ⟨hc, hcs⟩ := List.forall_mem_cons.mp h
    rw [List.cons_append, lex, next_osc hc, lex_osc cs _ rest hcs, List.append_assoc]
    rfl

theorem goesOn_replacement : goesOn Utf8.replacement := by
  unfold goesOn
  decide

/-- The characters that a byte completes. -/
theorem step_goesOn {last b : UInt8} {d : Utf8.Decoder} (h : d.After last.toNat)
    (hb : b.toNat ≠ 7 ∧ b.toNat ≠ 0x18 ∧ b.toNat ≠ 0x1a ∧ b.toNat ≠ 0x1b)
    (hpair : Utf8.controlPair last b = false) : ∀ c ∈ (Utf8.step d b.toNat).1, goesOn c := by
  intro c hc
  rcases h.mem_step hc with ⟨hascii, rfl⟩ | rfl | ⟨n, hlow, hcontrol, rfl⟩ | ⟨hbegun, hlow, hhigh⟩
  · have htwo := toNat_ofNat_eq b.toNat
    unfold goesOn
    omega
  · exact goesOn_replacement
  · have htwo := toNat_ofNat_eq n
    unfold goesOn
    omega
  · simp [Utf8.controlPair, hbegun, hlow, hhigh] at hpair

/-- How a command ends. -/
def Terminator (bs : List UInt8) : Prop := bs = [7] ∨ bs = [0x1b, 0x5c]

theorem lex_terminator {d : Utf8.Decoder} (h : d.Owing) (text : List Char) {bs : List UInt8} (hbs : Terminator bs) :
    ∃ text', ∀ rest, lex (.osc text) (Utf8.decodeFrom d (bs ++ rest)) =
      .osc text' :: lex .ground (Utf8.decode rest) := by
  have hreplacement (text rest : List Char) :
      lex (.osc text) (Utf8.replacement :: rest) = lex (.osc (text ++ [Utf8.replacement])) rest :=
    lex_osc [Utf8.replacement] text rest fun c hc => by
      rw [List.mem_singleton.mp hc]
      exact goesOn_replacement
  rcases hbs with rfl | rfl
  · rcases Utf8.step_ascii h (b := 7) (by decide) with hstep | hstep
    · refine ⟨text, fun rest => ?_⟩
      rw [List.singleton_append, Utf8.decodeFrom_step rest hstep]
      rfl
    · refine ⟨text ++ [Utf8.replacement], fun rest => ?_⟩
      rw [List.singleton_append, Utf8.decodeFrom_step rest hstep, List.cons_append, hreplacement]
      rfl
  · have hlast (rest : List UInt8) : Utf8.decodeFrom Utf8.fresh (0x5c :: rest) = '\\' :: Utf8.decode rest :=
      Utf8.decode_ascii (b := 0x5c) (by decide) rest
    rcases Utf8.step_ascii h (b := 0x1b) (by decide) with hstep | hstep
    · refine ⟨text, fun rest => ?_⟩
      rw [List.cons_append, List.singleton_append, Utf8.decodeFrom_step _ hstep, List.singleton_append, hlast]
      rfl
    · refine ⟨text ++ [Utf8.replacement], fun rest => ?_⟩
      rw [List.cons_append, List.singleton_append, Utf8.decodeFrom_step _ hstep, List.cons_append, hreplacement,
        List.singleton_append, hlast]
      rfl

theorem lex_command {bs : List UInt8} (hbs : Terminator bs) : ∀ (body : List UInt8) (last : UInt8)
    (d : Utf8.Decoder) (text : List Char), d.After last.toNat →
      (∀ b ∈ body, b.toNat ≠ 7 ∧ b.toNat ≠ 0x18 ∧ b.toNat ≠ 0x1a ∧ b.toNat ≠ 0x1b) →
        (last :: body).IsChain (fun a b => Utf8.controlPair a b = false) →
          ∃ text', ∀ rest, lex (.osc text) (Utf8.decodeFrom d (body ++ bs ++ rest)) =
            .osc text' :: lex .ground (Utf8.decode rest)
  | [], _, d, text, hd, _, _ => lex_terminator hd.owing text hbs
  | b :: body, last, d, text, hd, h, hpairs => by
    obtain ⟨hb, hbody⟩ := List.forall_mem_cons.mp h
    obtain ⟨hpair, hpairs⟩ := List.isChain_cons_cons.mp hpairs
    obtain ⟨text', hlex⟩ := lex_command hbs body b _ (text ++ (Utf8.step d b.toNat).1) (hd.step b.toNat) hbody hpairs
    refine ⟨text', fun rest => ?_⟩
    rw [List.cons_append, List.cons_append, Utf8.decodeFrom, lex_osc _ _ _ (step_goesOn hd hb hpair), hlex]

/-- **A command** does nothing to the screen, whatever else its text has. -/
theorem takesBytes_osc (s : Screen) {body bs : List UInt8} (hbody : InCommand body) (hbs : Terminator bs) :
    TakesBytes m s (0x1b :: 0x5d :: (body ++ bs)) s := by
  have hpairs : (0x5d :: body).IsChain fun a b => Utf8.controlPair a b = false :=
    hbody.pairs.cons fun _ _ => rfl
  obtain ⟨text, hlex⟩ := lex_command hbs body 0x5d Utf8.fresh [] (Utf8.after_fresh _) hbody.bytes hpairs
  refine ⟨[.osc text], fun rest => ?_, rfl⟩
  rw [List.cons_append, List.cons_append, Utf8.decode_ascii (by decide), Utf8.decode_ascii (by decide)]
  exact hlex rest

/-- **The shape of the cursor** is not on the screen. -/
theorem takesBytes_style (s : Screen) {digits : List UInt8} (h : ∀ b ∈ digits, 0x30 ≤ b.toNat ∧ b.toNat ≤ 0x39) :
    TakesBytes m s (0x1b :: 0x5b :: (digits ++ [0x20, 0x71])) s := by
  have hdigits : ∀ c ∈ digits.map fun b => Char.ofNat b.toNat, c.isDigit = true := by
    intro c hc
    obtain ⟨b, hb, rfl⟩ := List.mem_map.mp hc
    obtain ⟨hl, hu⟩ := h b hb
    have hall : ∀ n : Fin 58, 0x30 ≤ n.val → (Char.ofNat n.val).isDigit = true := by decide
    exact hall ⟨b.toNat, by omega⟩ hl
  refine ⟨[.spaced [Nat.ofDigitChars 10 (digits.map fun b => Char.ofNat b.toNat) 0] 'q'], fun rest => ?_, rfl⟩
  have hascii : ∀ b ∈ (0x1b :: 0x5b :: (digits ++ [0x20, 0x71]) : List UInt8), b.toNat ≤ 0x7F := by
    intro b hb
    simp only [List.mem_cons, List.mem_append, List.not_mem_nil, or_false] at hb
    rcases hb with rfl | rfl | hb | rfl | rfl
    · decide
    · decide
    · exact Nat.le_trans (h b hb).2 (by decide)
    · decide
    · decide
  rw [Utf8.decode_asciis _ hascii, List.map_cons, List.map_cons, List.map_append]
  have hstart (cs : List Char) : lex .ground (esc :: '[' :: cs) = lex (.csi false [] 0) cs := rfl
  show lex .ground (esc :: '[' :: (_ ++ [' ', 'q'] ++ Utf8.decode rest)) = _
  rw [hstart, List.append_assoc, lex_digits false [] _ 0 _ hdigits]
  rfl

end Vt
