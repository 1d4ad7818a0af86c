/-
# A reader of manifest lines

`exactReader` reads exactly the lines that `append_manifest_line` writes, after
any white space: it takes the numbers of a line and accepts the line that has
them if it is written the same. On such lines it does what the JSON reader does,
and it has the properties the code relies on; concrete journals are read with
it.
-/
import Mathlib.Data.List.TakeWhile
import OpenRelay.Journal.Manifest

namespace OpenRelay
namespace Journal

def isDigit (b : UInt8) : Bool := decide (48 ≤ b.toNat ∧ b.toNat ≤ 57)

/-- The numbers in a text, its runs of digits; `run` is the one being read. -/
def numbers : Option ℕ → Bytes → List ℕ
  | run, [] => run.toList
  | run, b :: bs =>
    if isDigit b then numbers (some (10 * run.getD 0 + (b.toNat - 48))) bs
    else run.toList ++ numbers none bs

/-- The line with the numbers of a text; the last but one of a sealed part's
line is the one in the name `crc32`. -/
def decode (body : Bytes) : Option ManifestLine :=
  match numbers none body with
  | [incarnation, part, firstSeq, lastSeq, bytes, _, crc32] =>
    some (.sealed ⟨incarnation, part, firstSeq, lastSeq, bytes, crc32⟩)
  | [retired] => some (.retired ⟨retired⟩)
  | _ => none

def parseExact (bytes : Bytes) : Option (Option ManifestLine) :=
  if bytes.dropWhile isJsonSpace = [] then some none
  else match decode (bytes.dropWhile isJsonSpace) with
    | some line => if line.toJson = bytes.dropWhile isJsonSpace then some (some line) else none
    | none => none

theorem numbers_digits (rest : Bytes) : ∀ (cs : List Char) (n : ℕ), (∀ c ∈ cs, c.isDigit = true) →
    numbers (some n) (ascii cs ++ rest) = numbers (some (Nat.ofDigitChars 10 cs n)) rest
  | [], n, _ => by simp [ascii]
  | c :: cs, n, h => by
    have hc := h c List.mem_cons_self
    simp only [Char.isDigit, Bool.and_eq_true, decide_eq_true_eq] at hc
    have h1 : 48 ≤ c.toNat := hc.1
    have h2 : c.toNat ≤ 57 := hc.2
    have h3 : (UInt8.ofNat c.toNat).toNat = c.toNat := by
      rw [UInt8.toNat_ofNat']; omega
    have hd : isDigit (UInt8.ofNat c.toNat) = true := by
      rw [isDigit, h3]
      exact decide_eq_true ⟨h1, h2⟩
    have hstep : numbers (some n) (ascii (c :: cs) ++ rest) =
        numbers (some (10 * n + (c.toNat - 48))) (ascii cs ++ rest) := by
      change numbers (some n) (UInt8.ofNat c.toNat :: (ascii cs ++ rest)) = _
      rw [numbers, if_pos hd, h3]
      rfl
    rw [hstep, numbers_digits rest cs _ (fun c' h' => h c' (List.mem_cons_of_mem _ h')),
      Nat.ofDigitChars_cons]
    rfl

/-- A number is read back from its digits. -/
theorem numbers_decimal (n : ℕ) (rest : Bytes) :
    numbers none (decimal n ++ rest) = numbers (some n) rest := by
  have hzero : numbers none (decimal n ++ rest) = numbers (some 0) (decimal n ++ rest) := by
    have hne : decimal n ≠ [] := by simp [decimal, ascii]
    obtain ⟨b, bs, hb⟩ := List.exists_cons_of_ne_nil hne
    have hd : isDigit b = true := decide_eq_true (decimal_digit (by rw [hb]; exact List.mem_cons_self))
    rw [hb, List.cons_append, numbers, numbers, if_pos hd, if_pos hd]
    rfl
  rw [hzero, decimal, numbers_digits rest _ 0 fun c hc => Nat.isDigit_of_mem_toDigits (by decide) (by decide) hc,
    Nat.ofDigitChars_ten_toDigits]

/-- The bytes between two numbers end the first one. -/
theorem numbers_key (rest : Bytes) : ∀ {key : Bytes} (run : Option ℕ), key ≠ [] →
    (∀ b ∈ key, isDigit b = false) → numbers run (key ++ rest) = run.toList ++ numbers none rest
  | [], _, hne, _ => absurd rfl hne
  | b :: key, run, _, h => by
    have hb : isDigit b = false := h b List.mem_cons_self
    have hrest : numbers none (key ++ rest) = numbers none rest := by
      by_cases hk : key = []
      · rw [hk, List.nil_append]
      · exact numbers_key rest none hk fun b' h' => h b' (List.mem_cons_of_mem _ h')
    rw [List.cons_append, numbers, hb, if_neg (by decide), hrest]

theorem decode_toJson (line : ManifestLine) : decode line.toJson = some line := by
  have hkey : ∀ (cs : List Char) (run : Option ℕ) (rest : Bytes), ascii cs ≠ [] →
      (∀ b ∈ ascii cs, isDigit b = false) →
      numbers run (ascii cs ++ rest) = run.toList ++ numbers none rest :=
    fun cs run rest => numbers_key rest run
  cases line with
  | sealed e =>
    have hcrc : ∀ (n : ℕ) (rest : Bytes),
        numbers (some n) (ascii ",\"crc32\":".toList ++ rest) = n :: 32 :: numbers none rest :=
      fun _ _ => rfl
    have h : numbers none (ManifestLine.sealed e).toJson =
        [e.incarnation, e.part, e.firstSeq, e.lastSeq, e.bytes, 32, e.crc32] := by
      simp only [ManifestLine.toJson, ManifestLine.jsonBody, List.append_assoc]
      rw [hkey _ _ _ (by decide +kernel) (by decide +kernel), numbers_decimal,
        hkey _ _ _ (by decide +kernel) (by decide +kernel), numbers_decimal,
        hkey _ _ _ (by decide +kernel) (by decide +kernel), numbers_decimal,
        hkey _ _ _ (by decide +kernel) (by decide +kernel), numbers_decimal,
        hkey _ _ _ (by decide +kernel) (by decide +kernel), numbers_decimal, hcrc, numbers_decimal]
      rfl
    rw [decode, h]
  | retired t =>
    have h : numbers none (ManifestLine.retired t).toJson = [t.retired] := by
      simp only [ManifestLine.toJson, ManifestLine.jsonBody, List.append_assoc]
      rw [hkey _ _ _ (by decide +kernel) (by decide +kernel), numbers_decimal]
      rfl
    rw [decode, h]

/-! ### What the code relies on -/

theorem spaces_dropWhile {ws : Bytes} (h : Spaces ws) (bytes : Bytes) :
    (ws ++ bytes).dropWhile isJsonSpace = bytes.dropWhile isJsonSpace := by
  rw [List.dropWhile_append, List.dropWhile_eq_nil_iff.mpr h]
  rfl

/-- What starts with a brace is not skipped. -/
theorem dropWhile_brace (t : Bytes) : (123 :: t).dropWhile isJsonSpace = 123 :: t := rfl

theorem toJson_dropWhile (ws : Bytes) (line : ManifestLine) (h : Spaces ws) :
    (ws ++ line.toJson).dropWhile isJsonSpace = line.toJson := by
  obtain ⟨t, ht⟩ := toJson_eq_cons line
  rw [spaces_dropWhile h, ht, dropWhile_brace]

theorem parseExact_toJson (ws : Bytes) (line : ManifestLine) (h : Spaces ws) :
    parseExact (ws ++ line.toJson) = some (some line) := by
  have hne : line.toJson ≠ [] := by
    obtain ⟨t, ht⟩ := toJson_eq_cons line
    rw [ht]
    exact List.cons_ne_nil _ _
  rw [parseExact, toJson_dropWhile ws line h, if_neg hne, decode_toJson]
  simp only [if_true]

theorem parseExact_spaces {ws : Bytes} (h : Spaces ws) : parseExact ws = some none := by
  rw [parseExact, if_pos (List.dropWhile_eq_nil_iff.mpr h)]

/-- What is read and is not blank is a written line. -/
theorem parseExact_ne_none {bytes : Bytes} (h : parseExact bytes ≠ none)
    (hne : bytes.dropWhile isJsonSpace ≠ []) :
    ∃ line : ManifestLine, line.toJson = bytes.dropWhile isJsonSpace := by
  rw [parseExact, if_neg hne] at h
  rcases hd : decode (bytes.dropWhile isJsonSpace) with _ | line
  · rw [hd] at h
    exact absurd rfl h
  · rw [hd] at h
    by_cases heq : line.toJson = bytes.dropWhile isJsonSpace
    · exact ⟨line, heq⟩
    · simp only [if_neg heq] at h
      exact absurd rfl h

theorem parseExact_torn {ws torn : Bytes} {line : ManifestLine} {pieces : List Bytes} (hws : Spaces ws)
    (hpre : torn <+: line.toJson) (hne : torn ≠ []) (hlt : torn ≠ line.toJson)
    (hpieces : ∀ piece ∈ pieces, ∃ l : ManifestLine, piece <+: l.toJson) :
    parseExact (ws ++ (torn ++ pieces.flatten)) = none := by
  obtain ⟨t, ht⟩ := toJson_eq_cons line
  obtain ⟨b, torn', rfl⟩ := List.exists_cons_of_ne_nil hne
  have hb : b = 123 := by
    rw [ht] at hpre
    exact (List.cons_prefix_cons.mp hpre).1
  have hdrop : (ws ++ (b :: torn' ++ pieces.flatten)).dropWhile isJsonSpace = b :: torn' ++ pieces.flatten := by
    rw [spaces_dropWhile hws, hb, List.cons_append, dropWhile_brace]
  have hbody : b :: torn' <+: line.jsonBody := by
    rw [ManifestLine.toJson] at hpre hlt
    exact (List.prefix_concat_iff.mp hpre).resolve_left hlt
  by_contra h
  obtain ⟨line', hl⟩ := parseExact_ne_none h (by rw [hdrop]; exact List.cons_ne_nil _ _)
  rw [hdrop] at hl
  by_cases hnil : pieces.flatten = []
  · -- a torn object has lost its closing brace
    refine brace_not_mem_jsonBody line (hbody.subset ?_)
    rw [hnil, List.append_nil] at hl
    rw [← hl, ManifestLine.toJson]
    exact List.mem_append_right _ (by decide)
  · -- a line has only one opening brace
    obtain ⟨piece, hmem, hpne⟩ : ∃ piece ∈ pieces, piece ≠ [] := by
      by_contra hc
      push Not at hc
      exact hnil (List.flatten_eq_nil_iff.mpr hc)
    obtain ⟨l, hlpre⟩ := hpieces piece hmem
    obtain ⟨u, hu⟩ := toJson_eq_cons l
    obtain ⟨c, piece', rfl⟩ := List.exists_cons_of_ne_nil hpne
    rw [hu, List.cons_prefix_cons] at hlpre
    obtain ⟨t', ht', hnot⟩ := toJson_head line'
    rw [hl, List.cons_append, List.cons.injEq] at ht'
    refine hnot ?_
    rw [← ht'.2, ← hlpre.1]
    exact List.mem_append_right _ (List.mem_flatten.mpr ⟨c :: piece', hmem, List.mem_cons_self⟩)

theorem parseExact_trailing {bytes t : Bytes} (hne : ¬ Spaces bytes) (h : parseExact bytes ≠ none) :
    parseExact (bytes ++ 123 :: t) = none := by
  -- the closing brace of the first object would stand inside the line
  have hdne : bytes.dropWhile isJsonSpace ≠ [] := fun h0 => hne (List.dropWhile_eq_nil_iff.mp h0)
  obtain ⟨line, hl⟩ := parseExact_ne_none h hdne
  have hdrop : (bytes ++ 123 :: t).dropWhile isJsonSpace = line.toJson ++ 123 :: t := by
    rw [List.dropWhile_append, if_neg (by simpa using hdne), hl]
  by_contra h'
  obtain ⟨line', hl'⟩ := parseExact_ne_none h' (by rw [hdrop]; simp)
  rw [hdrop, ManifestLine.toJson, ManifestLine.toJson] at hl'
  have hlast : (123 :: t).getLast? = some 125 := by
    have := congrArg List.getLast? hl'
    simpa [ascii] using this.symm
  obtain ⟨init, hinit⟩ : ∃ init, 123 :: t = init ++ [125] := ⟨(123 :: t).dropLast, by
    rw [List.dropLast_append_getLast?]
    exact hlast⟩
  have hbody : line'.jsonBody = line.jsonBody ++ ascii ['\x7d'] ++ init := by
    rw [hinit, ← List.append_assoc] at hl'
    exact List.append_cancel_right hl'
  refine brace_not_mem_jsonBody line' ?_
  rw [hbody]
  exact List.mem_append_left _ (List.mem_append_right _ (by decide))

/-- The reader of exactly the lines that are written. -/
def exactReader : LineReader where
  parse := parseExact
  parse_toJson := parseExact_toJson
  parse_spaces := parseExact_spaces
  parse_torn := parseExact_torn
  parse_trailing := parseExact_trailing

end Journal
end OpenRelay
