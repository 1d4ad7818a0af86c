/-
# UTF-8, decoded with replacement

The decoder that a text reader runs: it takes the bytes one by one, keeps what
it owes to the character it is in, and puts a replacement character where the
bytes are not UTF-8 (the byte that broke a character is read again). A text's
own bytes are read as that text (`decode_encode`).

Key theorem: `decodeFrom_char`.
-/
import Mathlib.Data.Nat.Notation

namespace Utf8

/-- The bytes of a text. -/
def encode (cs : List Char) : List UInt8 := cs.flatMap String.utf8EncodeChar

/-- What the decoder knows of the character it is in. -/
structure Decoder where
  codePoint : ℕ
  /-- How many bytes the character still lacks. -/
  owed : ℕ
  /-- The bounds of the next byte. -/
  lower : ℕ
  upper : ℕ
  deriving DecidableEq, Repr

/-- Between two characters. -/
def fresh : Decoder := ⟨0, 0, 0x80, 0xBF⟩

def replacement : Char := Char.ofNat 0xFFFD

/-- The first byte of a character. The bounds keep out long forms, surrogates and
what is above the last code point. -/
def first (b : ℕ) : List Char × Decoder :=
  if b ≤ 0x7F then ([Char.ofNat b], fresh)
  else if 0xC2 ≤ b ∧ b ≤ 0xDF then ([], ⟨b % 32, 1, 0x80, 0xBF⟩)
  else if 0xE0 ≤ b ∧ b ≤ 0xEF then
    ([], ⟨b % 16, 2, if b = 0xE0 then 0xA0 else 0x80, if b = 0xED then 0x9F else 0xBF⟩)
  else if 0xF0 ≤ b ∧ b ≤ 0xF4 then
    ([], ⟨b % 8, 3, if b = 0xF0 then 0x90 else 0x80, if b = 0xF4 then 0x8F else 0xBF⟩)
  else ([replacement], fresh)

/-- One byte: the characters that are complete with it. -/
def step (d : Decoder) (b : ℕ) : List Char × Decoder :=
  if d.owed = 0 then first b
  else if b < d.lower ∨ d.upper < b then (replacement :: (first b).1, (first b).2)
  else if d.owed = 1 then ([Char.ofNat (64 * d.codePoint + b % 64)], fresh)
  else ([], ⟨64 * d.codePoint + b % 64, d.owed - 1, 0x80, 0xBF⟩)

/-- All bytes, and at their end a replacement for a character that is not complete. -/
def decodeFrom : Decoder → List UInt8 → List Char
  | d, [] => if d.owed = 0 then [] else [replacement]
  | d, b :: bs => (step d b.toNat).1 ++ decodeFrom (step d b.toNat).2 bs

/-- The characters of bytes, with a replacement for what is none. -/
def decode (bs : List UInt8) : List Char := decodeFrom fresh bs

/-- The byte goes on as UTF-8 does. -/
def accepts (d : Decoder) (b : ℕ) : Bool :=
  if d.owed = 0 then decide (b ≤ 0x7F ∨ 0xC2 ≤ b ∧ b ≤ 0xF4) else decide (d.lower ≤ b ∧ b ≤ d.upper)

/-- Whether bytes go on with characters alone, and end with a whole one. -/
def validFrom : Decoder → List UInt8 → Bool
  | d, [] => decide (d.owed = 0)
  | d, b :: bs => accepts d b.toNat && validFrom (step d b.toNat).2 bs

/-- The bytes are a text's. -/
def valid (bs : List UInt8) : Bool := validFrom fresh bs

/-! ### A character's own bytes -/

theorem decodeFrom_step {d d' : Decoder} {b : UInt8} {cs : List Char} (bs : List UInt8)
    (h : step d b.toNat = (cs, d')) : decodeFrom d (b :: bs) = cs ++ decodeFrom d' bs := by
  rw [decodeFrom, h]

theorem step_fresh (b : ℕ) : step fresh b = first b := rfl

/-- A byte within the bounds that is not the character's last. -/
theorem step_more {cp n lower upper b : ℕ} (hl : lower ≤ b) (hu : b ≤ upper) :
    step ⟨cp, n + 2, lower, upper⟩ b = ([], ⟨64 * cp + b % 64, n + 1, 0x80, 0xBF⟩) := by
  have hout : ¬(b < lower ∨ upper < b) := by omega
  simp [step, hout]

/-- The character's last byte. -/
theorem step_last {cp lower upper b : ℕ} (hl : lower ≤ b) (hu : b ≤ upper) :
    step ⟨cp, 1, lower, upper⟩ b = ([Char.ofNat (64 * cp + b % 64)], fresh) := by
  have hout : ¬(b < lower ∨ upper < b) := by omega
  simp [step, hout]

theorem first_ascii {b : ℕ} (h : b ≤ 0x7F) : first b = ([Char.ofNat b], fresh) := by
  rw [first, if_pos h]

theorem first_two {b : ℕ} (hl : 0xC2 ≤ b) (hu : b ≤ 0xDF) : first b = ([], ⟨b % 32, 1, 0x80, 0xBF⟩) := by
  rw [first, if_neg (by omega), if_pos ⟨hl, hu⟩]

theorem first_three {b : ℕ} (hl : 0xE0 ≤ b) (hu : b ≤ 0xEF) : first b =
    ([], ⟨b % 16, 2, if b = 0xE0 then 0xA0 else 0x80, if b = 0xED then 0x9F else 0xBF⟩) := by
  rw [first, if_neg (by omega), if_neg (by omega), if_pos ⟨hl, hu⟩]

theorem first_four {b : ℕ} (hl : 0xF0 ≤ b) (hu : b ≤ 0xF4) : first b =
    ([], ⟨b % 8, 3, if b = 0xF0 then 0x90 else 0x80, if b = 0xF4 then 0x8F else 0xBF⟩) := by
  rw [first, if_neg (by omega), if_neg (by omega), if_neg (by omega), if_pos ⟨hl, hu⟩]

theorem toNat_byte {n : ℕ} (h : n < 256) : (UInt8.ofNat n).toNat = n := by
  rw [UInt8.toNat_ofNat', Nat.mod_eq_of_lt h]

theorem decodeFrom_two {v : ℕ} (bs : List UInt8) (hl : 0x80 ≤ v) (hu : v ≤ 0x7FF) :
    decodeFrom fresh (UInt8.ofNat (v / 64 % 32 + 0xC0) :: UInt8.ofNat (v % 64 + 0x80) :: bs) =
      Char.ofNat v :: decodeFrom fresh bs := by
  have hb1 := toNat_byte (show v / 64 % 32 + 0xC0 < 256 by omega)
  have hb2 := toNat_byte (show v % 64 + 0x80 < 256 by omega)
  have h1 : step fresh (v / 64 % 32 + 0xC0) = ([], ⟨v / 64, 1, 0x80, 0xBF⟩) := by
    have hcp : (v / 64 % 32 + 0xC0) % 32 = v / 64 := by omega
    rw [step_fresh, first_two (by omega) (by omega), hcp]
  have h2 : step ⟨v / 64, 1, 0x80, 0xBF⟩ (v % 64 + 0x80) = ([Char.ofNat v], fresh) := by
    have hcp : 64 * (v / 64) + (v % 64 + 0x80) % 64 = v := by omega
    rw [step_last (by omega) (by omega), hcp]
  rw [← hb1] at h1
  rw [← hb2] at h2
  rw [decodeFrom_step _ h1, decodeFrom_step bs h2, List.nil_append, List.singleton_append]

theorem decodeFrom_three {v : ℕ} (bs : List UInt8) (hl : 0x800 ≤ v) (hu : v ≤ 0xFFFF)
    (hscalar : v < 0xD800 ∨ 0xDFFF < v) :
    decodeFrom fresh (UInt8.ofNat (v / 4096 % 16 + 0xE0) :: UInt8.ofNat (v / 64 % 64 + 0x80) ::
      UInt8.ofNat (v % 64 + 0x80) :: bs) = Char.ofNat v :: decodeFrom fresh bs := by
  have hb1 := toNat_byte (show v / 4096 % 16 + 0xE0 < 256 by omega)
  have hb2 := toNat_byte (show v / 64 % 64 + 0x80 < 256 by omega)
  have hb3 := toNat_byte (show v % 64 + 0x80 < 256 by omega)
  have h1 : ∃ lower upper, step fresh (v / 4096 % 16 + 0xE0) = ([], ⟨v / 4096, 2, lower, upper⟩) ∧
      lower ≤ v / 64 % 64 + 0x80 ∧ v / 64 % 64 + 0x80 ≤ upper := by
    have hcp : (v / 4096 % 16 + 0xE0) % 16 = v / 4096 := by omega
    refine ⟨_, _, by rw [step_fresh, first_three (by omega) (by omega), hcp], ?_, ?_⟩
    -- a long form would be below, a surrogate above
    · split <;> omega
    · split <;> omega
  obtain ⟨lower, upper, h1, hlower, hupper⟩ := h1
  have h2 : step ⟨v / 4096, 2, lower, upper⟩ (v / 64 % 64 + 0x80) = ([], ⟨v / 64, 1, 0x80, 0xBF⟩) := by
    have hcp : 64 * (v / 4096) + (v / 64 % 64 + 0x80) % 64 = v / 64 := by omega
    rw [step_more hlower hupper, hcp]
  have h3 : step ⟨v / 64, 1, 0x80, 0xBF⟩ (v % 64 + 0x80) = ([Char.ofNat v], fresh) := by
    have hcp : 64 * (v / 64) + (v % 64 + 0x80) % 64 = v := by omega
    rw [step_last (by omega) (by omega), hcp]
  rw [← hb1] at h1
  rw [← hb2] at h2
  rw [← hb3] at h3
  rw [decodeFrom_step _ h1, decodeFrom_step _ h2, decodeFrom_step bs h3, List.nil_append,
    List.nil_append, List.singleton_append]

theorem decodeFrom_four {v : ℕ} (bs : List UInt8) (hl : 0x10000 ≤ v) (hu : v < 0x110000) :
    decodeFrom fresh (UInt8.ofNat (v / 262144 % 8 + 0xF0) :: UInt8.ofNat (v / 4096 % 64 + 0x80) ::
      UInt8.ofNat (v / 64 % 64 + 0x80) :: UInt8.ofNat (v % 64 + 0x80) :: bs) =
      Char.ofNat v :: decodeFrom fresh bs := by
  have hb1 := toNat_byte (show v / 262144 % 8 + 0xF0 < 256 by omega)
  have hb2 := toNat_byte (show v / 4096 % 64 + 0x80 < 256 by omega)
  have hb3 := toNat_byte (show v / 64 % 64 + 0x80 < 256 by omega)
  have hb4 := toNat_byte (show v % 64 + 0x80 < 256 by omega)
  have h1 : ∃ lower upper, step fresh (v / 262144 % 8 + 0xF0) = ([], ⟨v / 262144, 3, lower, upper⟩) ∧
      lower ≤ v / 4096 % 64 + 0x80 ∧ v / 4096 % 64 + 0x80 ≤ upper := by
    have hcp : (v / 262144 % 8 + 0xF0) % 8 = v / 262144 := by omega
    refine ⟨_, _, by rw [step_fresh, first_four (by omega) (by omega), hcp], ?_, ?_⟩
    -- a long form would be below, a number that is no code point above
    · split <;> omega
    · split <;> omega
  obtain ⟨lower, upper, h1, hlower, hupper⟩ := h1
  have h2 : step ⟨v / 262144, 3, lower, upper⟩ (v / 4096 % 64 + 0x80) =
      ([], ⟨v / 4096, 2, 0x80, 0xBF⟩) := by
    have hcp : 64 * (v / 262144) + (v / 4096 % 64 + 0x80) % 64 = v / 4096 := by omega
    rw [step_more hlower hupper, hcp]
  have h3 : step ⟨v / 4096, 2, 0x80, 0xBF⟩ (v / 64 % 64 + 0x80) = ([], ⟨v / 64, 1, 0x80, 0xBF⟩) := by
    have hcp : 64 * (v / 4096) + (v / 64 % 64 + 0x80) % 64 = v / 64 := by omega
    rw [step_more (by omega) (by omega), hcp]
  have h4 : step ⟨v / 64, 1, 0x80, 0xBF⟩ (v % 64 + 0x80) = ([Char.ofNat v], fresh) := by
    have hcp : 64 * (v / 64) + (v % 64 + 0x80) % 64 = v := by omega
    rw [step_last (by omega) (by omega), hcp]
  rw [← hb1] at h1
  rw [← hb2] at h2
  rw [← hb3] at h3
  rw [← hb4] at h4
  rw [decodeFrom_step _ h1, decodeFrom_step _ h2, decodeFrom_step _ h3, decodeFrom_step bs h4,
    List.nil_append, List.nil_append, List.nil_append, List.singleton_append]

/-- **A character's bytes are read as that character.** -/
theorem decodeFrom_char (c : Char) (bs : List UInt8) :
    decodeFrom fresh (String.utf8EncodeChar c ++ bs) = c :: decodeFrom fresh bs := by
  have hvalid : c.toNat < 0xD800 ∨ 0xDFFF < c.toNat ∧ c.toNat < 0x110000 := c.valid
  have hc : Char.ofNat c.toNat = c := Char.ofNat_toNat c
  have hv : c.val.toNat = c.toNat := rfl
  unfold String.utf8EncodeChar
  rw [hv]
  generalize c.toNat = v at hvalid hc
  rw [← hc]
  show decodeFrom fresh ((if _ then _ else _) ++ bs) = _
  split
  next h1 =>
    have hb := toNat_byte (show v < 256 by omega)
    have hfirst : step fresh (UInt8.ofNat v).toNat = ([Char.ofNat v], fresh) := by
      rw [hb, step_fresh, first_ascii h1]
    exact decodeFrom_step bs hfirst
  next h1 =>
    split
    next h2 => exact decodeFrom_two bs (by omega) h2
    next h2 =>
      split
      next h3 => exact decodeFrom_three bs (by omega) h3 (by omega)
      next h3 => exact decodeFrom_four bs (by omega) (by omega)

/-- **A text's bytes are read as that text.** -/
theorem decode_encode (cs : List Char) : decode (encode cs) = cs := by
  unfold decode encode
  induction cs with
  | nil => rfl
  | cons c cs ih => rw [List.flatMap_cons, decodeFrom_char, ih]

end Utf8
