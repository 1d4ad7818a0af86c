/-
# Key specs

`oly send` takes keys by their names, by the character that goes with a modifier, or as
bytes in hexadecimal (`client/send.rs`, `parse_key_spec`). The bytes are read in pairs, by
their positions in the text.

A text whose bytes are cut by the pairs within a character brings the program down, and a
pair may be a sign and a digit. Otherwise a hexadecimal spec is read if and only if it is
one, as the bytes it denotes (`key_spec_exact_iff`).

Key theorems: `hexLoop_eq`, `readPairs_spec`.
-/
import OpenRelay.Basic
import OpenRelay.Lib.ByteIndex
import OpenRelay.Lib.Trim
import OpenRelay.Lib.Utf8

namespace OpenRelay
namespace Client
namespace KeySpec

open Texts (trim slice byteLen takeBytes)

/-! ### The code -/

/-- `char::is_whitespace`. -/
def isWhitespace (c : Char) : Bool :=
  let n := c.toNat
  (9 ≤ n && n ≤ 13) || n == 0x20 || n == 0x85 || n == 0xA0 || n == 0x1680 || (0x2000 ≤ n && n ≤ 0x200A) ||
    n == 0x2028 || n == 0x2029 || n == 0x202F || n == 0x205F || n == 0x3000

/-- A slice that doesn't begin or end between characters. -/
inductive Panic where
  | charBoundary
  deriving DecidableEq, Repr

/-- Why a key is not understood. -/
inductive KeyError where
  | empty
  | modifierOnly
  | unsupported (spec : List Char)
  deriving DecidableEq, Repr

def KeyError.message : KeyError → List Char
  | .empty => "empty key spec is not allowed".toList
  | .modifierOnly =>
    "modifier-only key is not allowed; use forms like key:ctrl+c, key:alt+x, key:shift+tab".toList
  | .unsupported spec =>
    "unsupported key `".toList ++ spec ++
      ("`; use named keys (enter, tab, esc, backspace, up/down/left/right, home/end, pgup/pgdn, del/ins, f1-f12), " ++
        "ctrl+<char>, alt+<char|key>, shift+tab, or hex:<bytes>").toList

def namedKeys : List (List String × String) :=
  [(["enter", "return", "cr"], "\r"), (["lf", "linefeed"], "\n"), (["tab"], "\t"), (["backspace", "bs"], "\x08"),
    (["esc", "escape"], "\x1b"), (["up"], "\x1b[A"), (["down"], "\x1b[B"), (["right"], "\x1b[C"),
    (["left"], "\x1b[D"), (["home"], "\x1b[H"), (["end"], "\x1b[F"), (["delete", "del"], "\x1b[3~"),
    (["insert", "ins"], "\x1b[2~"), (["pageup", "pgup"], "\x1b[5~"), (["pagedown", "pgdn"], "\x1b[6~"),
    (["f1"], "\x1bOP"), (["f2"], "\x1bOQ"), (["f3"], "\x1bOR"), (["f4"], "\x1bOS"), (["f5"], "\x1b[15~"),
    (["f6"], "\x1b[17~"), (["f7"], "\x1b[18~"), (["f8"], "\x1b[19~"), (["f9"], "\x1b[20~"), (["f10"], "\x1b[21~"),
    (["f11"], "\x1b[23~"), (["f12"], "\x1b[24~")]

def namedKeySequence (normalized : List Char) : Option (List Char) :=
  (namedKeys.find? fun key => key.1.any fun name => name.toList = normalized).map fun key => key.2.toList

def stripPrefix (start text : List Char) : Option (List Char) :=
  if start.isPrefixOf text then some (text.drop start.length) else none

/-- The character that goes with the control key. -/
def parseCtrlKey (normalized : List Char) : Option Char :=
  match (stripPrefix "ctrl+".toList normalized).or (stripPrefix "ctrl-".toList normalized) with
  | some [ch] => if ch.toNat < 128 then some (Char.ofNat (ch.toLower.toNat % 32)) else none
  | _ => none

/-- `char::to_digit(16)`. -/
def hexDigit (c : Char) : Option ℕ :=
  if '0' ≤ c ∧ c ≤ '9' then some (c.toNat - 48)
  else if 'a' ≤ c ∧ c ≤ 'f' then some (c.toNat - 87)
  else if 'A' ≤ c ∧ c ≤ 'F' then some (c.toNat - 55)
  else none

/-- The number of the digits behind `n`, if it is one of a byte. -/
def byteOfDigits : ℕ → List Char → Option UInt8
  | n, [] => some (UInt8.ofNat n)
  | n, c :: cs =>
    match hexDigit c with
    | none => none
    | some d => if 255 < 16 * n + d then none else byteOfDigits (16 * n + d) cs

/-- `u8::from_str_radix(src, 16)`: a sign may stand before the digits. -/
def fromStrRadix (src : List Char) : Option UInt8 :=
  match src with
  | [] => none
  | ['+'] => none
  | ['-'] => none
  | '+' :: digits => byteOfDigits 0 digits
  | digits => byteOfDigits 0 digits

/-- The loop of `parse_hex_bytes`. -/
def hexLoop (payload : List Char) : ℕ → ℕ → Bytes → Except Panic (Option Bytes)
  | 0, _, bytes => .ok (some bytes)
  | turns + 1, idx, bytes =>
    if idx < byteLen payload then
      match slice payload idx (idx + 2) with
      | none => .error .charBoundary
      | some pair =>
        match fromStrRadix pair with
        | none => .ok none
        | some byte => hexLoop payload turns (idx + 2) (bytes ++ [byte])
    else .ok (some bytes)

/-- The bytes behind `hex:`, if there is an even number of hexadecimal digits, and at least two. -/
def parseHexBytes (normalized : List Char) : Except Panic (Option Bytes) :=
  match stripPrefix "hex:".toList normalized with
  | none => .ok none
  | some payload =>
    if byteLen payload = 0 ∨ byteLen payload % 2 ≠ 0 then .ok none
    else hexLoop payload (byteLen payload + 1) 0 []

/-- A key with the meta modifier: its sequence behind an escape. -/
def parseAltKey (normalized : List Char) : Option (List Char) :=
  match (((stripPrefix "alt+".toList normalized).or (stripPrefix "alt-".toList normalized)).or
      (stripPrefix "meta+".toList normalized)).or (stripPrefix "meta-".toList normalized) with
  | none => none
  | some payload =>
    match namedKeySequence payload with
    | some sequence => some ('\x1b' :: sequence)
    | none =>
      match parseCtrlKey payload with
      | some controlChar => some ['\x1b', controlChar]
      | none =>
        match payload with
        | [ch] => some ['\x1b', ch]
        | _ => none

/-- White space at the ends and upper case do not matter. -/
def normalize (spec : List Char) : List Char := (trim isWhitespace spec).map Char.toLower

/-- What is sent for a key: one with a name, then bytes, then one with a modifier, in this order. -/
def parseKeySpec (spec : List Char) : Except Panic (Except KeyError Bytes) :=
  let normalized := normalize spec
  if normalized.isEmpty then .ok (.error .empty)
  else match namedKeySequence normalized with
    | some sequence => .ok (.ok (Utf8.encode sequence))
    | none =>
      match parseHexBytes normalized with
      | .error panic => .error panic
      | .ok (some hex) => .ok (.ok hex)
      | .ok none =>
        match parseCtrlKey normalized with
        | some controlChar => .ok (.ok [UInt8.ofNat controlChar.toNat])
        | none =>
          match parseAltKey normalized with
          | some alt => .ok (.ok (Utf8.encode alt))
          | none =>
            if normalized = "shift+tab".toList ∨ normalized = "shift-tab".toList then
              .ok (.ok (Utf8.encode "\x1b[Z".toList))
            else if ["shift", "alt", "meta", "ctrl"].any fun name => name.toList = normalized then
              .ok (.error .modifierOnly)
            else .ok (.error (.unsupported spec))

/-! ### What a hexadecimal spec should be -/

/-- Digits, two for each byte. -/
structure HexText (payload : List Char) : Prop where
  nonempty : payload ≠ []
  even : payload.length % 2 = 0
  digits : ∀ c ∈ payload, (hexDigit c).isSome

/-- The bytes of the digits. -/
def denoted : List Char → Bytes
  | c :: d :: payload => UInt8.ofNat (16 * (hexDigit c).getD 0 + (hexDigit d).getD 0) :: denoted payload
  | _ => []

/-- The spec is read without a panic; and if it is a hexadecimal one, then it is read if and only if it is
digits, as the bytes they denote. -/
def Exact (spec : List Char) : Prop :=
  ∃ result, parseKeySpec spec = .ok result ∧ ∀ payload, normalize spec = "hex:".toList ++ payload →
    ((∃ bytes, result = .ok bytes) ↔ HexText payload) ∧ (HexText payload → result = .ok (denoted payload))

/-- Read off in pairs of a digit, or a plus sign, and a digit, the text comes to a character that a pair would
cut, or to its end with a sign among them. -/
def stumbles : Bool → List Char → Bool
  | signed, [] => signed
  | _, [c] => 2 < c.utf8Size
  | signed, c :: d :: rest =>
    if c.utf8Size = 2 then false
    else if 2 < c.utf8Size ∨ d.utf8Size ≠ 1 then true
    else if (c = '+' ∨ (hexDigit c).isSome) ∧ (hexDigit d).isSome then stumbles (signed || c = '+') rest
    else false

/-- The spec is a hexadecimal one of an even number of bytes that is read up to a character that is cut, or
to its end with a sign. -/
def Stumbles (spec : List Char) : Prop :=
  ∃ payload, normalize spec = "hex:".toList ++ payload ∧ byteLen payload % 2 = 0 ∧ stumbles false payload = true

/-! ### Digits -/

section Digits

variable {c d : Char}

theorem hexDigit_some {n : ℕ} (h : hexDigit c = some n) : n < 16 ∧ c.toNat < 128 := by
  simp only [hexDigit, Char.le_def, UInt32.le_iff_toNat_le] at h
  have h0 : '0'.val.toNat = 48 := rfl
  have h9 : '9'.val.toNat = 57 := rfl
  have ha : 'a'.val.toNat = 97 := rfl
  have hf : 'f'.val.toNat = 102 := rfl
  have hA : 'A'.val.toNat = 65 := rfl
  have hF : 'F'.val.toNat = 70 := rfl
  have hc : c.toNat = c.val.toNat := rfl
  split_ifs at h <;> cases h <;> omega

theorem utf8Size_of_lt (h : c.toNat < 128) : c.utf8Size = 1 := by
  rw [Char.utf8Size_eq_one_iff, UInt32.le_iff_toNat_le]
  exact Nat.le_of_lt_succ h

theorem utf8Size_of_digit (h : (hexDigit c).isSome) : c.utf8Size = 1 := by
  obtain ⟨n, hn⟩ := Option.isSome_iff_exists.mp h
  exact utf8Size_of_lt (hexDigit_some hn).2

/-- A character of more bytes is no number. -/
theorem fromStrRadix_wide (h : c.utf8Size ≠ 1) : fromStrRadix [c] = none := by
  have hdigit : hexDigit c = none := by
    by_contra hsome
    exact h (utf8Size_of_digit (Option.isSome_iff_ne_none.mpr hsome))
  unfold fromStrRadix
  split
  all_goals simp_all [byteOfDigits]

/-- The number of a pair. -/
theorem fromStrRadix_pair (c d : Char) :
    fromStrRadix [c, d] =
      if (c = '+' ∨ (hexDigit c).isSome) ∧ (hexDigit d).isSome then
        some (UInt8.ofNat (16 * (hexDigit c).getD 0 + (hexDigit d).getD 0))
      else none := by
  by_cases hplus : c = '+'
  · subst hplus
    have hsign : hexDigit '+' = none := by decide
    have hread : fromStrRadix ['+', d] = byteOfDigits 0 [d] := rfl
    rw [hread, byteOfDigits, hsign]
    rcases hd : hexDigit d with _ | y
    · simp
    · have hy := (hexDigit_some hd).1
      have hlt : ¬ 255 < 16 * 0 + y := by omega
      simp only [byteOfDigits, if_neg hlt]
      rw [if_pos ⟨.inl trivial, rfl⟩]
      rfl
  · have hread : fromStrRadix [c, d] = byteOfDigits 0 [c, d] := by simp [fromStrRadix, hplus]
    rw [hread, byteOfDigits]
    rcases hc : hexDigit c with _ | x
    · simp [hplus]
    have hx := (hexDigit_some hc).1
    simp only [show ¬ 255 < 16 * 0 + x by omega, if_false, byteOfDigits]
    rcases hd : hexDigit d with _ | y
    · simp
    · have hy := (hexDigit_some hd).1
      simp [show ¬ 255 < 16 * x + y by omega]

end Digits

/-! ### The loop -/

/-- The pairs of a text, read as the loop does. -/
def readPairs : List Char → Except Panic (Option Bytes)
  | [] => .ok (some [])
  | [c] => if c.utf8Size = 2 then .ok none else .error .charBoundary
  | c :: d :: rest =>
    if c.utf8Size = 2 then .ok none
    else if c.utf8Size ≠ 1 ∨ d.utf8Size ≠ 1 then .error .charBoundary
    else match fromStrRadix [c, d] with
      | none => .ok none
      | some byte => (readPairs rest).map (Option.map (byte :: ·))

theorem hexLoop_eq : ∀ (turns : ℕ) (done rest : List Char) (bytes : Bytes), byteLen rest < turns →
    hexLoop (done ++ rest) turns (byteLen done) bytes = (readPairs rest).map (Option.map (bytes ++ ·))
  | 0, _, _, _, hturns => by omega
  | turns + 1, done, [], bytes, _ => by
    rw [hexLoop, if_neg (by simp), readPairs]
    simp [Except.map]
  | turns + 1, done, [c], bytes, _ => by
    have hpos := c.utf8Size_pos
    rw [hexLoop, if_pos (by simp; omega), Texts.slice_append, Texts.takeBytes_cons _ (by omega), readPairs]
    by_cases htwo : c.utf8Size = 2
    · simp [htwo, fromStrRadix_wide (c := c) (by omega), Except.map]
    · rw [if_neg htwo]
      split_ifs with hle
      · have hone : 2 - c.utf8Size = 1 := by omega
        simp [hone, takeBytes, Except.map]
      · rfl
  | turns + 1, done, c :: d :: rest, bytes, hturns => by
    have hpos := c.utf8Size_pos
    have hpos' := d.utf8Size_pos
    rw [hexLoop, if_pos (by simp; omega), Texts.slice_append, Texts.takeBytes_cons _ (by omega), readPairs]
    by_cases htwo : c.utf8Size = 2
    · simp [htwo, fromStrRadix_wide (c := c) (by omega), Except.map]
    rw [if_neg htwo]
    by_cases hcut : c.utf8Size ≠ 1 ∨ d.utf8Size ≠ 1
    · rw [if_pos hcut]
      split_ifs with hle
      · have hone : 2 - c.utf8Size = 1 := by omega
        rw [hone, Texts.takeBytes_cons _ Nat.one_pos, if_neg (by omega)]
        rfl
      · rfl
    · have hone : c.utf8Size = 1 ∧ d.utf8Size = 1 := by omega
      have hrest : byteLen rest < turns := by simp at hturns; omega
      have ih := fun bytes => hexLoop_eq turns (done ++ [c, d]) rest bytes hrest
      have hlen : byteLen (done ++ [c, d]) = byteLen done + 2 := by simp [hone]
      rw [hlen, List.append_assoc] at ih
      rw [if_neg hcut, hone.1, if_pos (by decide), Texts.takeBytes_cons _ (by decide), hone.2]
      simp only [Nat.reduceLeDiff, Nat.reduceSub, if_true, Texts.takeBytes_zero, Option.map_some]
      rcases fromStrRadix [c, d] with _ | byte
      · rfl
      · simp only [List.cons_append, List.nil_append] at ih
        simp only [ih]
        rcases readPairs rest with panic | _ | more
        · rfl
        · rfl
        · simp [Except.map]

/-- **What reading in pairs comes to.** -/
theorem readPairs_spec : ∀ (rest : List Char) (signed : Bool), byteLen rest % 2 = 0 →
    if stumbles signed rest = true then
      readPairs rest = .error .charBoundary ∨
        (∃ bytes, readPairs rest = .ok (some bytes)) ∧ (signed = true ∨ '+' ∈ rest)
    else
      readPairs rest = .ok (some (denoted rest)) ∧ rest.length % 2 = 0 ∧ (∀ c ∈ rest, (hexDigit c).isSome) ∧ signed = false ∨
        readPairs rest = .ok none ∧ ¬ ∀ c ∈ rest, (hexDigit c).isSome
  | [], signed, _ => by
    rw [stumbles]
    cases signed with
    | true => exact .inr ⟨⟨_, rfl⟩, .inl rfl⟩
    | false => exact .inl ⟨rfl, rfl, nofun, rfl⟩
  | [c], signed, heven => by
    have hpos := c.utf8Size_pos
    simp only [Texts.byteLen_cons, Texts.byteLen_nil, Nat.add_zero] at heven
    simp only [stumbles, decide_eq_true_eq, readPairs]
    by_cases htwo : c.utf8Size = 2
    · rw [if_neg (by omega), if_pos htwo]
      refine .inr ⟨rfl, fun hall => ?_⟩
      have := utf8Size_of_digit (hall c List.mem_cons_self)
      omega
    · rw [if_pos (by omega), if_neg htwo]
      exact .inl rfl
  | c :: d :: rest, signed, heven => by
    have hpos := c.utf8Size_pos
    rw [stumbles, readPairs]
    by_cases htwo : c.utf8Size = 2
    · rw [if_pos htwo, if_pos htwo, if_neg Bool.false_ne_true]
      refine .inr ⟨rfl, fun hall => ?_⟩
      have := utf8Size_of_digit (hall c List.mem_cons_self)
      omega
    rw [if_neg htwo, if_neg htwo]
    have hwide : c.utf8Size ≠ 1 ∨ d.utf8Size ≠ 1 ↔ 2 < c.utf8Size ∨ d.utf8Size ≠ 1 := by omega
    by_cases hcut : 2 < c.utf8Size ∨ d.utf8Size ≠ 1
    · rw [if_pos hcut, if_pos rfl, if_pos (hwide.mpr hcut)]
      exact .inl rfl
    rw [if_neg hcut, if_neg (mt hwide.mp hcut), fromStrRadix_pair]
    by_cases hpair : (c = '+' ∨ (hexDigit c).isSome) ∧ (hexDigit d).isSome
    · rw [if_pos hpair, if_pos hpair]
      simp only [Texts.byteLen_cons] at heven
      have ih := readPairs_spec rest (signed || c = '+') (by omega)
      split_ifs at ih ⊢ with hstumbles
      · rcases ih with herror | ⟨⟨bytes, hread⟩, hsign⟩
        · exact .inl (by rw [herror]; rfl)
        · refine .inr ⟨⟨_, by rw [hread]; rfl⟩, ?_⟩
          rcases hsign with hsign | hsign
          · rw [Bool.or_eq_true, decide_eq_true_eq] at hsign
            exact hsign.imp_right fun h => by simp [h]
          · exact .inr (List.mem_cons_of_mem _ (List.mem_cons_of_mem _ hsign))
      · rcases ih with ⟨hread, hlength, hdigits, hsign⟩ | ⟨hread, hdigits⟩
        · rw [Bool.or_eq_false_iff, decide_eq_false_iff_not] at hsign
          refine .inl ⟨by rw [hread]; rfl, by simpa [Nat.add_assoc] using hlength, ?_, hsign.1⟩
          rw [List.forall_mem_cons, List.forall_mem_cons]
          exact ⟨hpair.1.resolve_left hsign.2, hpair.2, hdigits⟩
        · refine .inr ⟨by rw [hread]; rfl, fun hall => hdigits fun c' hc' => hall c' ?_⟩
          exact List.mem_cons_of_mem _ (List.mem_cons_of_mem _ hc')
    · rw [if_neg hpair, if_neg hpair, if_neg Bool.false_ne_true]
      refine .inr ⟨rfl, fun hall => hpair ⟨.inr (hall c List.mem_cons_self), ?_⟩⟩
      exact hall d (List.mem_cons_of_mem _ List.mem_cons_self)

/-! ### The spec -/

section Spec

variable {spec payload : List Char}

theorem stripPrefix_append (start text : List Char) : stripPrefix start (start ++ text) = some text := by
  rw [stripPrefix, if_pos (by simp), List.drop_left]

theorem eq_of_stripPrefix {start text rest : List Char} (h : stripPrefix start text = some rest) :
    text = start ++ rest := by
  unfold stripPrefix at h
  split_ifs at h with hstart
  cases h
  obtain ⟨rest, rfl⟩ := List.isPrefixOf_iff_prefix.mp hstart
  rw [List.drop_left]

/-- No key's name begins as a hexadecimal spec does. -/
theorem namedKeySequence_hex (payload : List Char) : namedKeySequence ("hex:".toList ++ payload) = none := by
  have hnames : ∀ key ∈ namedKeys, ∀ name ∈ key.1, name.toList.take 4 ≠ "hex:".toList := by simp [namedKeys]
  rw [namedKeySequence, Option.map_eq_none_iff, List.find?_eq_none]
  intro key hkey hname
  obtain ⟨name, hmem, heq⟩ := List.any_eq_true.mp hname
  refine hnames key hkey name hmem ?_
  rw [of_decide_eq_true heq]
  exact List.take_left' (by simp)

/-- Nor does a combination. -/
theorem parseCtrlKey_hex (payload : List Char) : parseCtrlKey ("hex:".toList ++ payload) = none := by
  simp [parseCtrlKey, stripPrefix]

theorem parseAltKey_hex (payload : List Char) : parseAltKey ("hex:".toList ++ payload) = none := by
  simp [parseAltKey, stripPrefix]

theorem parseHexBytes_hex (payload : List Char) : parseHexBytes ("hex:".toList ++ payload) =
    if byteLen payload = 0 ∨ byteLen payload % 2 ≠ 0 then .ok none else readPairs payload := by
  have hloop := hexLoop_eq (byteLen payload + 1) [] payload [] (Nat.lt_succ_self _)
  simp only [List.nil_append, Texts.byteLen_nil] at hloop
  rw [parseHexBytes, stripPrefix_append]
  simp only [hloop]
  split_ifs
  · rfl
  · rcases readPairs payload with panic | _ | bytes <;> rfl

/-- **A hexadecimal spec** is what its bytes are, or it is refused. -/
theorem parseKeySpec_hex (h : normalize spec = "hex:".toList ++ payload) :
    parseKeySpec spec = match parseHexBytes (normalize spec) with
      | .error panic => .error panic
      | .ok (some bytes) => .ok (.ok bytes)
      | .ok none => .ok (.error (.unsupported spec)) := by
  have hshift : ¬ ("hex:".toList ++ payload = "shift+tab".toList ∨ "hex:".toList ++ payload = "shift-tab".toList) := by simp
  have hmodifier : (["shift", "alt", "meta", "ctrl"].any fun name => name.toList = "hex:".toList ++ payload) = false := by
    simp
  rw [parseKeySpec]
  simp only [h]
  rw [if_neg (by simp), namedKeySequence_hex]
  rcases parseHexBytes ("hex:".toList ++ payload) with panic | _ | bytes
  · rfl
  · simp only [parseCtrlKey_hex, parseAltKey_hex]
    rw [if_neg hshift, hmodifier, if_neg Bool.false_ne_true]
  · rfl

/-- Any other spec is read without a slice. -/
theorem parseKeySpec_other (h : stripPrefix "hex:".toList (normalize spec) = none) :
    ∃ result, parseKeySpec spec = .ok result := by
  have hhex : parseHexBytes (normalize spec) = .ok none := by rw [parseHexBytes, h]
  rw [parseKeySpec]
  simp only [hhex]
  split_ifs
  · exact ⟨_, rfl⟩
  all_goals
    rcases namedKeySequence (normalize spec) with _ | sequence
    · rcases parseCtrlKey (normalize spec) with _ | controlChar
      · rcases parseAltKey (normalize spec) with _ | alt <;> exact ⟨_, rfl⟩
      · exact ⟨_, rfl⟩
    · exact ⟨_, rfl⟩

/-- Digits are a byte each. -/
theorem byteLen_digits (h : ∀ c ∈ payload, (hexDigit c).isSome) : byteLen payload = payload.length := by
  induction payload with
  | nil => rfl
  | cons c payload ih =>
    rw [List.forall_mem_cons] at h
    rw [Texts.byteLen_cons, ih h.2, utf8Size_of_digit h.1, List.length_cons, Nat.add_comm]

theorem readPairs_digits : ∀ {payload : List Char}, payload.length % 2 = 0 → (∀ c ∈ payload, (hexDigit c).isSome) →
    readPairs payload = .ok (some (denoted payload))
  | [], _, _ => rfl
  | [_], hlength, _ => by simp at hlength
  | c :: d :: payload, hlength, h => by
    rw [List.forall_mem_cons, List.forall_mem_cons] at h
    obtain ⟨hc, hd, h⟩ := h
    have hc1 := utf8Size_of_digit hc
    have hd1 := utf8Size_of_digit hd
    have ih := @readPairs_digits payload (by simpa [Nat.add_assoc] using hlength) h
    rw [readPairs, if_neg (by omega), if_neg (by omega), fromStrRadix_pair, if_pos ⟨.inr hc, hd⟩]
    simp only [ih]
    rfl

/-- **Digits are read as the bytes they denote.** -/
theorem parseKeySpec_hexText (hspec : normalize spec = "hex:".toList ++ payload) (h : HexText payload) :
    parseKeySpec spec = .ok (.ok (denoted payload)) := by
  have hlen := byteLen_digits h.digits
  have heven := h.even
  have hne : byteLen payload ≠ 0 := mt Texts.byteLen_eq_zero.mp h.nonempty
  rw [parseKeySpec_hex hspec, hspec, parseHexBytes_hex, if_neg (by omega), readPairs_digits h.even h.digits]

end Spec

/-! ### Bytes as digits -/

/-- A digit of a byte's hexadecimal form. -/
def digitChar (n : ℕ) : Char := if n < 10 then Char.ofNat (48 + n) else Char.ofNat (87 + n)

def hexEncode (bytes : Bytes) : List Char := bytes.flatMap fun b => [digitChar (b.toNat / 16), digitChar (b.toNat % 16)]

theorem digitChar_spec : ∀ n < 16, hexDigit (digitChar n) = some n ∧ (digitChar n).toLower = digitChar n ∧
    isWhitespace (digitChar n) = false := by
  decide

theorem hexDigit_digitChar {n : ℕ} (h : n < 16) : hexDigit (digitChar n) = some n := (digitChar_spec n h).1

/-- The letters of a byte. -/
theorem mem_hexEncode {bytes : Bytes} {c : Char} (h : c ∈ hexEncode bytes) : ∃ n < 16, c = digitChar n := by
  obtain ⟨b, -, hc⟩ := List.mem_flatMap.mp h
  have hb := b.toNat_lt
  rcases List.mem_pair.mp hc with rfl | rfl
  · exact ⟨_, by omega, rfl⟩
  · exact ⟨_, by omega, rfl⟩

theorem denoted_hexEncode : ∀ bytes : Bytes, denoted (hexEncode bytes) = bytes
  | [] => rfl
  | b :: bytes => by
    have hb := b.toNat_lt
    have hvalue : 16 * (b.toNat / 16) + b.toNat % 16 = b.toNat := by omega
    have ih := denoted_hexEncode bytes
    rw [hexEncode] at ih ⊢
    rw [List.flatMap_cons, List.cons_append, List.cons_append, List.nil_append, denoted, ih,
      hexDigit_digitChar (by omega), hexDigit_digitChar (by omega), Option.getD_some, Option.getD_some, hvalue,
      UInt8.ofNat_toNat]

theorem hexText_hexEncode (b : UInt8) (bytes : Bytes) : HexText (hexEncode (b :: bytes)) where
  nonempty := by simp [hexEncode]
  even := by
    induction bytes generalizing b with
    | nil => simp [hexEncode]
    | cons b' bytes ih =>
      have hlen : (hexEncode (b :: b' :: bytes)).length = (hexEncode (b' :: bytes)).length + 2 := by simp [hexEncode]
      have := ih b'
      omega
  digits := by
    intro c hc
    obtain ⟨n, hn, rfl⟩ := mem_hexEncode hc
    rw [hexDigit_digitChar hn]
    rfl

/-- A spec of digits is as it is when it is trimmed and in lower case. -/
theorem normalize_hexEncode (bytes : Bytes) :
    normalize ("hex:".toList ++ hexEncode bytes) = "hex:".toList ++ hexEncode bytes := by
  have hmark : ∀ c ∈ "hex:".toList, isWhitespace c = false ∧ c.toLower = c := by
    simp only [String.reduceToList, List.forall_mem_cons]
    exact ⟨⟨rfl, rfl⟩, ⟨rfl, rfl⟩, ⟨rfl, rfl⟩, ⟨rfl, rfl⟩, nofun⟩
  have hplain : ∀ c ∈ "hex:".toList ++ hexEncode bytes, isWhitespace c = false ∧ c.toLower = c := by
    intro c hc
    rcases List.mem_append.mp hc with hc | hc
    · exact hmark c hc
    · obtain ⟨n, hn, rfl⟩ := mem_hexEncode hc
      exact ⟨(digitChar_spec n hn).2.2, (digitChar_spec n hn).2.1⟩
  have htrim : trim isWhitespace ("hex:".toList ++ hexEncode bytes) = "hex:".toList ++ hexEncode bytes := by
    have := @Texts.trim_of_between _ isWhitespace [] ("hex:".toList ++ hexEncode bytes) [] nofun nofun
      (fun c hc => (hplain c (List.mem_of_mem_head? hc)).1) fun c hc => (hplain c (List.mem_of_getLast? hc)).1
    simpa using this
  rw [normalize, htrim]
  exact (List.map_congr_left fun c hc => (hplain c hc).2).trans (List.map_id _)

/-! ### The result -/

/-- **When a key spec is exact.** It is read without a panic, and as its digits if it is a hexadecimal one, if
and only if its bytes aren't read in pairs up to a character that is cut, or to their end with a sign. And
every string of bytes can be spelled. -/
theorem key_spec_exact_iff (spec : List Char) (b : UInt8) (bytes : Bytes) : (Exact spec ↔ ¬ Stumbles spec) ∧
    parseKeySpec ("hex:".toList ++ hexEncode (b :: bytes)) = .ok (.ok (b :: bytes)) := by
  refine ⟨⟨?_, fun h => ?_⟩, ?_⟩
  · rintro ⟨result, hresult, hexact⟩ ⟨payload, hspec, heven, hstumbles⟩
    have hne : byteLen payload ≠ 0 := by
      intro hnil
      rw [Texts.byteLen_eq_zero.mp hnil] at hstumbles
      exact Bool.false_ne_true hstumbles
    have hpairs := readPairs_spec payload false heven
    rw [if_pos hstumbles] at hpairs
    rw [parseKeySpec_hex hspec, hspec, parseHexBytes_hex, if_neg (by omega)] at hresult
    rcases hpairs with herror | ⟨⟨bytes, hread⟩, hsign⟩
    · rw [herror] at hresult
      cases hresult
    · rw [hread] at hresult
      cases hresult
      -- a sign is no digit
      have hdigit := ((hexact payload hspec).1.mp ⟨bytes, rfl⟩).digits '+' (hsign.resolve_left Bool.false_ne_true)
      exact absurd hdigit (by decide)
  · rcases hstrip : stripPrefix "hex:".toList (normalize spec) with _ | payload
    · obtain ⟨result, hresult⟩ := parseKeySpec_other hstrip
      refine ⟨result, hresult, fun payload hspec => ?_⟩
      rw [hspec, stripPrefix_append] at hstrip
      cases hstrip
    have hspec := eq_of_stripPrefix hstrip
    have honly : ∀ payload', normalize spec = "hex:".toList ++ payload' → payload' = payload := fun payload' h' =>
      (List.append_cancel_left (hspec.symm.trans h')).symm
    have hparse := parseKeySpec_hex hspec
    rw [hspec, parseHexBytes_hex] at hparse
    by_cases hodd : byteLen payload = 0 ∨ byteLen payload % 2 ≠ 0
    · rw [if_pos hodd] at hparse
      refine ⟨_, hparse, fun payload' h' => ?_⟩
      have hnone : ¬ HexText payload := by
        intro hhex
        have hlen := byteLen_digits hhex.digits
        have heven := hhex.even
        have := mt Texts.byteLen_eq_zero.mp hhex.nonempty
        omega
      rw [honly payload' h']
      exact ⟨iff_of_false (by rintro ⟨bytes, hbytes⟩; cases hbytes) hnone, fun hhex => absurd hhex hnone⟩
    rw [if_neg hodd] at hparse
    have hpairs := readPairs_spec payload false (by omega)
    have hclear : ¬ stumbles false payload = true := fun hstumbles => h ⟨payload, hspec, by omega, hstumbles⟩
    rw [if_neg hclear] at hpairs
    rcases hpairs with ⟨hread, hlength, hdigits, -⟩ | ⟨hread, hdigits⟩
    · have hhex : HexText payload := ⟨fun hnil => hodd (.inl (Texts.byteLen_eq_zero.mpr hnil)), hlength, hdigits⟩
      refine ⟨_, parseKeySpec_hexText hspec hhex, fun payload' h' => ?_⟩
      rw [honly payload' h']
      exact ⟨iff_of_true ⟨_, rfl⟩ hhex, fun _ => rfl⟩
    · rw [hread] at hparse
      refine ⟨_, hparse, fun payload' h' => ?_⟩
      have hnone : ¬ HexText payload := fun hhex => hdigits hhex.digits
      rw [honly payload' h']
      exact ⟨iff_of_false (by rintro ⟨bytes, hbytes⟩; cases hbytes) hnone, fun hhex => absurd hhex hnone⟩
  · have hread := parseKeySpec_hexText (normalize_hexEncode (b :: bytes)) (hexText_hexEncode b bytes)
    rw [denoted_hexEncode] at hread
    exact hread

/-- A letter of two bytes that begins at an odd one is cut; and a sign with a digit is read as the digit. -/
theorem key_spec_stumbles :
    parseKeySpec "hex:a\u00e9b".toList = .error .charBoundary ∧ parseKeySpec "hex:+f".toList = .ok (.ok [15]) ∧
      ¬ HexText "+f".toList ∧ ¬ Exact "hex:a\u00e9b".toList ∧ ¬ Exact "hex:+f".toList := by
  have hpanic : parseKeySpec "hex:a\u00e9b".toList = .error .charBoundary := by decide +kernel
  have hsign : parseKeySpec "hex:+f".toList = .ok (.ok [15]) := by decide +kernel
  have hnone : ¬ HexText "+f".toList := fun h => absurd (h.digits '+' (by decide)) (by decide)
  refine ⟨hpanic, hsign, hnone, ?_, ?_⟩
  · rintro ⟨result, hresult, -⟩
    rw [hpanic] at hresult
    cases hresult
  · rintro ⟨result, hresult, hexact⟩
    rw [hsign] at hresult
    cases hresult
    have hspec : normalize "hex:+f".toList = "hex:".toList ++ "+f".toList := by decide +kernel
    exact hnone ((hexact _ hspec).1.mp ⟨_, rfl⟩)

end KeySpec
end Client
end OpenRelay
