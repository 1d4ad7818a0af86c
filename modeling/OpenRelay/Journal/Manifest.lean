/-
# The manifest of sealed parts

`manifest.log` has one JSON line for each sealed segment part and for each
retired incarnation (`session/journal/manifest.rs`). It is only ever appended
to; a line the reader does not accept fails the whole read.

The JSON reader is a library's: `LineReader` says what the code relies on. It
reads back what was written, also after white space; it passes over white
space; it rejects an object that was cut off, and anything written onto a line
that already holds something.

Key theorems: `read_append_lines`, `read_append_torn`, `read_append_merged`.
-/
import OpenRelay.Basic
import OpenRelay.Lib.Lines

namespace OpenRelay
namespace Journal

open Lines

/-- One sealed segment part, checksummed when it was sealed. -/
structure SegmentManifestEntry where
  incarnation : ℕ
  part : ℕ
  firstSeq : ℕ
  lastSeq : ℕ
  bytes : ℕ
  crc32 : ℕ
  deriving DecidableEq, Repr

/-- A retention tombstone. -/
structure RetiredIncarnation where
  retired : ℕ
  deriving DecidableEq, Repr

/-- A line of the manifest. -/
inductive ManifestLine where
  | sealed (entry : SegmentManifestEntry)
  | retired (tombstone : RetiredIncarnation)
  deriving DecidableEq, Repr

/-! ### Writing -/

def ascii (cs : List Char) : Bytes := cs.map fun c => UInt8.ofNat c.toNat

def decimal (n : ℕ) : Bytes := ascii (Nat.toDigits 10 n)

def newline : UInt8 := 10

/-- The object without its closing brace. -/
def ManifestLine.jsonBody : ManifestLine → Bytes
  | .sealed e =>
    ascii "\x7b\"incarnation\":".toList ++ decimal e.incarnation ++
    ascii ",\"part\":".toList ++ decimal e.part ++
    ascii ",\"first_seq\":".toList ++ decimal e.firstSeq ++
    ascii ",\"last_seq\":".toList ++ decimal e.lastSeq ++
    ascii ",\"bytes\":".toList ++ decimal e.bytes ++
    ascii ",\"crc32\":".toList ++ decimal e.crc32
  | .retired t => ascii "\x7b\"retired\":".toList ++ decimal t.retired

/-- The line as `serde_json` writes it. -/
def ManifestLine.toJson (line : ManifestLine) : Bytes := line.jsonBody ++ ascii ['\x7d']

/-- The line as `append_manifest_line` writes it. -/
def ManifestLine.render (line : ManifestLine) : Bytes := line.toJson ++ [newline]

theorem decimal_digit {n : ℕ} {b : UInt8} (h : b ∈ decimal n) : 48 ≤ b.toNat ∧ b.toNat ≤ 57 := by
  simp only [decimal, ascii, List.mem_map] at h
  obtain ⟨c, hc, rfl⟩ := h
  have hd := Nat.isDigit_of_mem_toDigits (by decide) (by decide) hc
  simp only [Char.isDigit, Bool.and_eq_true, decide_eq_true_eq] at hd
  have h1 : 48 ≤ c.toNat := hd.1
  have h2 : c.toNat ≤ 57 := hd.2
  have h3 : (UInt8.ofNat c.toNat).toNat = c.toNat := by
    rw [UInt8.toNat_ofNat']; omega
  omega

/-- The bytes around the numbers: braces, quotes and field names. -/
def keyBytes : Bytes :=
  ascii "\x7b\"incarnation\":,\"part\":,\"first_seq\":,\"last_seq\":,\"bytes\":,\"crc32\":\"retired\":".toList

theorem mem_jsonBody {line : ManifestLine} {b : UInt8} (h : b ∈ line.jsonBody) :
    48 ≤ b.toNat ∧ b.toNat ≤ 57 ∨ b ∈ keyBytes := by
  cases line with
  | sealed e =>
    simp only [ManifestLine.jsonBody, List.mem_append] at h
    rcases h with ((((((((((h | h) | h) | h) | h) | h) | h) | h) | h) | h) | h) | h
    all_goals first | with_reducible exact .inl (decimal_digit h) | exact .inr (by revert b; decide +kernel)
  | retired t =>
    simp only [ManifestLine.jsonBody, List.mem_append] at h
    rcases h with h | h
    · exact .inr (by revert b; decide +kernel)
    · exact .inl (decimal_digit h)

/-- The closing brace is the only one. -/
theorem brace_not_mem_jsonBody (line : ManifestLine) : (125 : UInt8) ∉ line.jsonBody := by
  intro h
  rcases mem_jsonBody h with h | h <;> revert h <;> decide

theorem newline_not_mem_toJson (line : ManifestLine) : newline ∉ line.toJson := by
  simp only [ManifestLine.toJson, List.mem_append, not_or]
  refine ⟨fun h => ?_, by decide⟩
  rcases mem_jsonBody h with h | h <;> revert h <;> decide

/-- An object starts with its brace, and has no other one. -/
theorem toJson_head (line : ManifestLine) : ∃ t, line.toJson = 123 :: t ∧ (123 : UInt8) ∉ t := by
  have hdigit : ∀ n, (123 : UInt8) ∉ decimal n := by
    intro n h
    have := decimal_digit h
    revert this
    decide
  cases line with
  | sealed e =>
    refine ⟨ascii "\"incarnation\":".toList ++ decimal e.incarnation ++
      ascii ",\"part\":".toList ++ decimal e.part ++
      ascii ",\"first_seq\":".toList ++ decimal e.firstSeq ++
      ascii ",\"last_seq\":".toList ++ decimal e.lastSeq ++
      ascii ",\"bytes\":".toList ++ decimal e.bytes ++
      ascii ",\"crc32\":".toList ++ decimal e.crc32 ++ ascii ['\x7d'], rfl, ?_⟩
    simp only [List.mem_append, not_or]
    refine ⟨⟨⟨⟨⟨⟨⟨⟨⟨⟨⟨⟨?_, ?_⟩, ?_⟩, ?_⟩, ?_⟩, ?_⟩, ?_⟩, ?_⟩, ?_⟩, ?_⟩, ?_⟩, ?_⟩, ?_⟩
    all_goals first | with_reducible exact hdigit _ | decide +kernel
  | retired t =>
    refine ⟨ascii "\"retired\":".toList ++ decimal t.retired ++ ascii ['\x7d'], rfl, ?_⟩
    simp only [List.mem_append, not_or]
    refine ⟨⟨by decide +kernel, hdigit _⟩, by decide +kernel⟩
/-! ### Reading -/

/-- White space inside a line, to the JSON reader. -/
def isJsonSpace (b : UInt8) : Bool := b = 32 || b = 9 || b = 13

/-- Nothing but white space. -/
def Spaces (bytes : Bytes) : Prop := ∀ b ∈ bytes, isJsonSpace b = true

/-- What one line of `manifest.log` reads as: nothing if it is blank, and no
result if it is malformed. -/
structure LineReader where
  parse : Bytes → Option (Option ManifestLine)
  /-- It reads back what was written, also after white space. -/
  parse_toJson : ∀ (ws : Bytes) (line : ManifestLine), Spaces ws →
    parse (ws ++ line.toJson) = some (some line)
  parse_spaces : ∀ {ws : Bytes}, Spaces ws → parse ws = some none
  /-- An object that was cut off is malformed, also when more objects, or
  beginnings of them, follow on its line. -/
  parse_torn : ∀ {ws torn : Bytes} {line : ManifestLine} {pieces : List Bytes}, Spaces ws →
    torn <+: line.toJson → torn ≠ [] → torn ≠ line.toJson →
    (∀ piece ∈ pieces, ∃ l : ManifestLine, piece <+: l.toJson) →
    parse (ws ++ (torn ++ pieces.flatten)) = none
  /-- So is a line that goes on with an object after something else. -/
  parse_trailing : ∀ {bytes t : Bytes}, ¬ Spaces bytes → parse bytes ≠ none →
    parse (bytes ++ 123 :: t) = none

section Reading

variable (R : LineReader)

/-- `read_manifest_lines` on the text of the manifest. -/
def readManifestText (text : Bytes) : Option (List ManifestLine) := readLines newline R.parse text

/-- The text ends at a line boundary. -/
def AtBoundary (text : Bytes) : Prop := Spaces (rest newline text)

/-- Lines one after another. -/
def renderAll (lines : List ManifestLine) : Bytes := renderLines newline ManifestLine.toJson lines

variable {R}

theorem toJson_eq_cons (line : ManifestLine) : ∃ t, line.toJson = 123 :: t := by
  obtain ⟨t, ht, -⟩ := toJson_head line
  exact ⟨t, ht⟩

theorem readManifestText_eq_some {text : Bytes} {lines : List ManifestLine} :
    readManifestText R text = some lines ↔
      ∃ ls l, readComplete newline R.parse text = some ls ∧ R.parse (rest newline text) = some l ∧
        lines = ls ++ l.toList :=
  readLines_eq_some

theorem parse_rest_of_boundary {text : Bytes} (hb : AtBoundary text) :
    R.parse (rest newline text) = some none := R.parse_spaces hb

/-- Lines appended at a boundary: the complete lines read back. -/
theorem readComplete_append {text : Bytes} {lines : List ManifestLine} (hb : AtBoundary text)
    (h : readManifestText R text = some lines) (new : List ManifestLine) :
    readComplete newline R.parse (text ++ renderAll new) = some (lines ++ new) := by
  obtain ⟨ls, l, h1, h2, rfl⟩ := readManifestText_eq_some.mp h
  rw [parse_rest_of_boundary hb] at h2
  cases h2
  rw [Option.toList_none, List.append_nil]
  refine readComplete_append_lines newline_not_mem_toJson (fun line => ?_) h1 fun line => ?_
  · exact R.parse_toJson [] line (by simp [Spaces])
  · exact R.parse_toJson _ line hb

theorem atBoundary_append {text : Bytes} (hb : AtBoundary text) (new : List ManifestLine) :
    AtBoundary (text ++ renderAll new) := by
  rw [AtBoundary, renderAll, rest_append_lines newline_not_mem_toJson]
  split
  · exact hb
  · simp [Spaces]

/-- Lines appended at a boundary read back as separate lines. -/
theorem read_append_lines {text : Bytes} {lines : List ManifestLine} (hb : AtBoundary text)
    (h : readManifestText R text = some lines) (new : List ManifestLine) :
    readManifestText R (text ++ renderAll new) = some (lines ++ new) := by
  refine readManifestText_eq_some.mpr ⟨lines ++ new, none, readComplete_append hb h new, ?_, by simp⟩
  exact parse_rest_of_boundary (atBoundary_append hb new)

theorem atBoundary_nil : AtBoundary [] := by
  simp [AtBoundary, Spaces, rest, splitLines]

/-- What was written as lines reads back as these lines. -/
theorem read_renderAll (lines : List ManifestLine) :
    readManifestText R (renderAll lines) = some lines := by
  have hnil : readManifestText R [] = some [] :=
    readManifestText_eq_some.mpr ⟨[], none, rfl, parse_rest_of_boundary atBoundary_nil, rfl⟩
  simpa using read_append_lines atBoundary_nil hnil lines

theorem newline_not_mem_torn {torn : Bytes} {line : ManifestLine} (h : torn <+: line.toJson) :
    newline ∉ torn := fun hn => newline_not_mem_toJson line (h.subset hn)

/-- A line that was cut off makes the manifest unreadable. -/
theorem read_append_torn {text torn : Bytes} (hb : AtBoundary text) {line : ManifestLine}
    (hpre : torn <+: line.toJson) (hne : torn ≠ []) (hcut : torn ≠ line.toJson) :
    readManifestText R (text ++ torn) = none := by
  have hparse : R.parse (rest newline text ++ (torn ++ ([] : List Bytes).flatten)) = none :=
    R.parse_torn hb hpre hne hcut nofun
  rw [List.flatten_nil, List.append_nil] at hparse
  rw [readManifestText, readLines_eq, rest_append_rest (newline_not_mem_torn hpre), hparse]
  rcases readComplete newline R.parse (text ++ torn) with _ | ls <;> rfl

/-- A line that lost only its newline is read. -/
theorem read_append_unended {text : Bytes} {lines : List ManifestLine} (hb : AtBoundary text)
    (h : readManifestText R text = some lines) (line : ManifestLine) :
    readManifestText R (text ++ line.toJson) = some (lines ++ [line]) := by
  have hc := readComplete_append hb h []
  rw [renderAll, renderLines_nil, List.append_nil, List.append_nil] at hc
  refine readManifestText_eq_some.mpr ⟨lines, some line, ?_, ?_, rfl⟩
  · rw [readComplete_append_rest (newline_not_mem_toJson line), hc]
  · rw [rest_append_rest (newline_not_mem_toJson line), R.parse_toJson _ line hb]

theorem not_atBoundary_append {text torn : Bytes} {line : ManifestLine} (hpre : torn <+: line.toJson)
    (hne : torn ≠ []) : ¬ AtBoundary (text ++ torn) := by
  intro hb
  rw [AtBoundary, rest_append_rest (newline_not_mem_torn hpre)] at hb
  obtain ⟨t, ht⟩ := toJson_eq_cons line
  rcases torn with _ | ⟨b, torn⟩
  · exact hne rfl
  · rw [ht, List.cons_prefix_cons] at hpre
    have := hb b (by simp)
    rw [hpre.1] at this
    exact absurd this (by decide)

/-- An object written onto something that is not a line boundary makes the
manifest unreadable, whatever follows. -/
theorem read_append_merged {text : Bytes} (hb : ¬ AtBoundary text)
    (h : readManifestText R text ≠ none) (t : Bytes) : readManifestText R (text ++ 123 :: t) = none := by
  obtain ⟨lines, hl⟩ := Option.ne_none_iff_exists'.mp h
  obtain ⟨ls, l, -, h2, -⟩ := readManifestText_eq_some.mp hl
  have hparse : ∀ u, R.parse (rest newline text ++ 123 :: u) = none :=
    fun u => R.parse_trailing hb (by rw [h2]; simp)
  have hne : (123 : UInt8) ≠ newline := by decide
  rcases ht : (splitLines newline t).1 with _ | ⟨l', ls'⟩
  · have hsplit : splitLines newline (123 :: t) = ([], 123 :: (splitLines newline t).2) := by
      simp only [splitLines, hne, if_false, ht]
    rw [readManifestText, readLines_eq, rest, splitLines_append, hsplit]
    simp only
    rw [show (splitLines newline text).2 = rest newline text from rfl, hparse]
    rcases readComplete newline R.parse (text ++ 123 :: t) with _ | ls <;> rfl
  · have hsplit : splitLines newline (123 :: t) = ((123 :: l') :: ls', (splitLines newline t).2) := by
      simp only [splitLines, hne, if_false, ht]
    refine readLines_none_of_complete ?_
    rw [readComplete, splitLines_append, hsplit]
    simp only [List.mapM_append, List.mapM_cons]
    rw [show (splitLines newline text).2 = rest newline text from rfl, hparse]
    rcases (splitLines newline text).1.mapM R.parse with _ | ls <;> rfl

theorem renderAll_cons_head (line : ManifestLine) (lines : List ManifestLine) :
    ∃ t, renderAll (line :: lines) = 123 :: t := by
  obtain ⟨t, ht⟩ := toJson_eq_cons line
  exact ⟨t ++ [newline] ++ renderAll lines, by rw [renderAll, renderLines_cons, ht]; rfl⟩

/-- What reads after new lines and a beginning of one more were appended: the
lines before, the new ones, and the last one if it lost no more than its
newline. -/
theorem read_append_unfinished {text torn : Bytes} {lines lines' new : List ManifestLine} {line : ManifestLine}
    (h : readManifestText R text = some lines) (htorn : torn <+: line.render)
    (h' : readManifestText R (text ++ renderAll new ++ torn) = some lines') :
    torn = [] ∧ lines' = lines ++ new ∨ torn ≠ [] ∧ lines' = lines ++ new ++ [line] := by
  by_cases hb : AtBoundary text
  · have hnew := read_append_lines hb h new
    have hb' := atBoundary_append hb new
    by_cases h0 : torn = []
    · rw [h0, List.append_nil, hnew] at h'
      cases h'
      exact .inl ⟨h0, rfl⟩
    · refine .inr ⟨h0, ?_⟩
      rcases List.prefix_concat_iff.mp htorn with rfl | hpre
      · have hline : text ++ renderAll new ++ (line.toJson ++ [newline]) = text ++ renderAll new ++ renderAll [line] := by
          simp [renderAll, renderLines_cons]
        rw [hline, read_append_lines hb' hnew] at h'
        cases h'
        rfl
      · by_cases hcut : torn = line.toJson
        · rw [hcut, read_append_unended hb' hnew] at h'
          cases h'
          rfl
        · rw [read_append_torn hb' hpre h0 hcut] at h'
          cases h'
  · -- nothing can have been appended, it would have spoilt the manifest
    have hmerged : ∀ t, readManifestText R (text ++ 123 :: t) = none :=
      read_append_merged hb (by rw [h]; exact Option.some_ne_none _)
    rcases new with _ | ⟨line', new⟩
    · rw [renderAll, renderLines_nil, List.append_nil] at h'
      rcases torn with _ | ⟨b, torn⟩
      · rw [List.append_nil, h] at h'
        cases h'
        exact .inl ⟨rfl, by simp⟩
      · obtain ⟨t, ht⟩ := toJson_eq_cons line
        rw [ManifestLine.render, ht, List.cons_append, List.cons_prefix_cons] at htorn
        rw [htorn.1, hmerged] at h'
        cases h'
    · obtain ⟨t, ht⟩ := renderAll_cons_head line' new
      rw [ht, List.append_assoc, List.cons_append, hmerged] at h'
      cases h'

/-! ### Text that grows by pieces of lines -/

/-- A beginning of a line. -/
def IsPiece (P : ManifestLine → Prop) (bytes : Bytes) : Prop := ∃ line, P line ∧ bytes <+: line.render

variable {P : ManifestLine → Prop}

/-- A piece is a whole line, or a beginning of an object. -/
theorem isPiece_cases {bytes : Bytes} (h : IsPiece P bytes) :
    ∃ line, P line ∧ (bytes = line.render ∨ bytes <+: line.toJson) := by
  obtain ⟨line, hP, hpre⟩ := h
  exact ⟨line, hP, List.prefix_concat_iff.mp hpre⟩

/-- Pieces start with a brace, if there is anything in them. -/
theorem pieces_head : ∀ {pieces : List Bytes}, (∀ p ∈ pieces, IsPiece P p) → pieces.flatten ≠ [] →
    ∃ t, pieces.flatten = 123 :: t
  | [], _, hne => absurd rfl hne
  | p :: pieces, h, hne => by
    rcases p with _ | ⟨b, p⟩
    · rw [List.flatten_cons, List.nil_append] at hne ⊢
      exact pieces_head (fun p hp => h p (List.mem_cons_of_mem _ hp)) hne
    · obtain ⟨line, -, hpre⟩ := h (b :: p) List.mem_cons_self
      obtain ⟨t, ht⟩ := toJson_eq_cons line
      rw [ManifestLine.render, ht, List.cons_append, List.cons_prefix_cons] at hpre
      exact ⟨p ++ pieces.flatten, by rw [List.flatten_cons, hpre.1, List.cons_append]⟩

/-- Pieces up to the first whole line. -/
theorem pieces_split : ∀ {pieces : List Bytes}, (∀ p ∈ pieces, IsPiece P p) →
    ∃ before : List Bytes, (∀ p ∈ before, ∃ l : ManifestLine, p <+: l.toJson) ∧
      (pieces.flatten = before.flatten ∨
        ∃ (line : ManifestLine) (after : Bytes), pieces.flatten = before.flatten ++ (line.toJson ++ [newline]) ++ after)
  | [], _ => ⟨[], nofun, .inl rfl⟩
  | p :: pieces, h => by
    obtain ⟨line, -, rfl | hpre⟩ := isPiece_cases (h p List.mem_cons_self)
    · exact ⟨[], nofun, .inr ⟨line, pieces.flatten, rfl⟩⟩
    · obtain ⟨before, hbefore, hsplit⟩ := pieces_split fun q hq => h q (List.mem_cons_of_mem _ hq)
      refine ⟨p :: before, fun q hq => ?_, ?_⟩
      · rcases List.mem_cons.mp hq with rfl | hq
        · exact ⟨line, hpre⟩
        · exact hbefore q hq
      · rcases hsplit with heq | ⟨line', after, heq⟩
        · exact .inl (by rw [List.flatten_cons, List.flatten_cons, heq])
        · exact .inr ⟨line', after, by simp only [List.flatten_cons, heq, List.append_assoc]⟩

/-- A line that was cut off stays malformed, whatever pieces follow. -/
theorem read_torn_pieces {text torn : Bytes} (hb : AtBoundary text) {line : ManifestLine}
    (hpre : torn <+: line.toJson) (hne : torn ≠ []) (hcut : torn ≠ line.toJson) {pieces : List Bytes}
    (hpieces : ∀ p ∈ pieces, IsPiece P p) : readManifestText R (text ++ (torn ++ pieces.flatten)) = none := by
  obtain ⟨before, hbefore, hsplit⟩ := pieces_split hpieces
  have hnl : ∀ qs : List Bytes, (∀ p ∈ qs, ∃ l : ManifestLine, p <+: l.toJson) → newline ∉ torn ++ qs.flatten := by
    intro qs hqs hmem
    rcases List.mem_append.mp hmem with hmem | hmem
    · exact newline_not_mem_torn hpre hmem
    · obtain ⟨p, hp, hmem⟩ := List.mem_flatten.mp hmem
      obtain ⟨l, hl⟩ := hqs p hp
      exact newline_not_mem_torn hl hmem
  rcases hsplit with heq | ⟨line', after, heq⟩
  · rw [heq, readManifestText, readLines_eq, rest_append_rest (hnl before hbefore),
      R.parse_torn hb hpre hne hcut hbefore]
    rcases readComplete newline R.parse (text ++ (torn ++ before.flatten)) with _ | ls <;> rfl
  · -- the line is complete, and rejected
    have hbefore' : ∀ p ∈ before ++ [line'.toJson], ∃ l : ManifestLine, p <+: l.toJson := by
      intro p hp
      rcases List.mem_append.mp hp with hp | hp
      · exact hbefore p hp
      · exact ⟨line', by rw [List.mem_singleton.mp hp]⟩
    have hnl' := hnl _ hbefore'
    have htorn := R.parse_torn hb hpre hne hcut hbefore'
    have hline : text ++ (torn ++ pieces.flatten) =
        text ++ ((torn ++ (before ++ [line'.toJson]).flatten) ++ [newline]) ++ after := by
      rw [heq]
      simp
    refine readLines_none_of_complete ?_
    rw [hline]
    refine readComplete_append_none ?_ after
    rw [readComplete_append_line hnl', htorn]
    rcases readComplete newline R.parse text with _ | ls <;> rfl

/-- **Pieces that read.** A manifest to which pieces were appended, and that
reads, has got whole lines; the last one may lack its newline. -/
theorem read_append_pieces : ∀ {pieces : List Bytes} {text : Bytes} {lines lines' : List ManifestLine},
    readManifestText R text = some lines → (∀ p ∈ pieces, IsPiece P p) →
    readManifestText R (text ++ pieces.flatten) = some lines' →
    ∃ new, lines' = lines ++ new ∧ (∀ line ∈ new, P line) ∧
      (AtBoundary (text ++ pieces.flatten) → AtBoundary text ∧ pieces.flatten = renderAll new)
  | [], text, lines, lines', h, _, h' => by
    rw [List.flatten_nil, List.append_nil, h] at h'
    cases h'
    refine ⟨[], by simp, nofun, fun hb => ?_⟩
    rw [List.flatten_nil, List.append_nil] at hb
    exact ⟨hb, rfl⟩
  | p :: pieces, text, lines, lines', h, hp, h' => by
    have hrest : ∀ q ∈ pieces, IsPiece P q := fun q hq => hp q (List.mem_cons_of_mem _ hq)
    by_cases h0 : p = []
    · subst h0
      rw [List.flatten_cons, List.nil_append] at h' ⊢
      exact read_append_pieces h hrest h'
    by_cases hb : AtBoundary text
    · obtain ⟨line, hP, rfl | hpre⟩ := isPiece_cases (hp p List.mem_cons_self)
      · -- a whole line: go on after it
        have hline : line.render = renderAll [line] := by simp [renderAll, renderLines_cons, ManifestLine.render]
        have hread := read_append_lines hb h [line]
        rw [List.flatten_cons, ← List.append_assoc] at h' ⊢
        rw [hline] at h' ⊢
        obtain ⟨new, rfl, hnew, hbound⟩ := read_append_pieces hread hrest h'
        refine ⟨line :: new, by simp, fun l hl => ?_, fun hb' => ⟨hb, ?_⟩⟩
        · rcases List.mem_cons.mp hl with rfl | hl
          · exact hP
          · exact hnew l hl
        · rw [(hbound hb').2, renderAll, renderAll, renderAll, ← renderLines_append]
          rfl
      · rw [List.flatten_cons] at h' ⊢
        by_cases hcut : p = line.toJson
        · subst hcut
          by_cases hnil : pieces.flatten = []
          · rw [hnil, List.append_nil] at h' ⊢
            rw [read_append_unended hb h] at h'
            cases h'
            refine ⟨[line], rfl, fun l hl => by rw [List.mem_singleton.mp hl]; exact hP, fun hb' => ?_⟩
            exact absurd hb' (not_atBoundary_append (List.prefix_refl _) h0)
          · -- something was written onto the line
            obtain ⟨t, ht⟩ := pieces_head hrest hnil
            have hmerged := read_append_merged (not_atBoundary_append (List.prefix_refl _) h0)
              (by rw [read_append_unended hb h]; exact Option.some_ne_none _) t
            rw [ht, ← List.append_assoc, hmerged] at h'
            cases h'
        · rw [read_torn_pieces hb hpre h0 hcut hrest] at h'
          cases h'
    · obtain ⟨t, ht⟩ := pieces_head hp (by rw [List.flatten_cons]; simp [h0])
      rw [ht, read_append_merged hb (by rw [h]; exact Option.some_ne_none _)] at h'
      cases h'

/-- A beginning of pieces is pieces. -/
theorem pieces_prefix : ∀ {pieces : List Bytes} {bytes : Bytes}, (∀ p ∈ pieces, IsPiece P p) →
    bytes <+: pieces.flatten → ∃ pieces' : List Bytes, (∀ p ∈ pieces', IsPiece P p) ∧ bytes = pieces'.flatten
  | [], bytes, _, h => ⟨[], nofun, List.prefix_nil.mp h⟩
  | p :: pieces, bytes, hp, h => by
    rw [List.flatten_cons] at h
    rcases prefix_append_cases h with hpre | ⟨u, rfl, hu⟩
    · obtain ⟨line, hP, hline⟩ := hp p List.mem_cons_self
      refine ⟨[bytes], fun q hq => ?_, by simp⟩
      rw [List.mem_singleton.mp hq]
      exact ⟨line, hP, hpre.trans hline⟩
    · obtain ⟨pieces', hpieces', rfl⟩ := pieces_prefix (fun q hq => hp q (List.mem_cons_of_mem _ hq)) hu
      refine ⟨p :: pieces', fun q hq => ?_, rfl⟩
      rcases List.mem_cons.mp hq with rfl | hq
      · exact hp q List.mem_cons_self
      · exact hpieces' q hq

/-! ### Text that was cut off -/

/-- Of a text, and whole lines after it, a beginning that ends at a line
boundary is left. -/
def WholeLines (text₀ text : Bytes) : Prop :=
  AtBoundary text ∧ text <+: text₀ ∨ AtBoundary text₀ ∧ ∃ new, text = text₀ ++ renderAll new

/-- Lines cut off at a boundary are read. -/
theorem read_of_prefix {text₀ text : Bytes} {lines₀ : List ManifestLine}
    (h₀ : readManifestText R text₀ = some lines₀) (hb : AtBoundary text) (hpre : text <+: text₀) :
    ∃ lines, readManifestText R text = some lines ∧ lines <+: lines₀ := by
  obtain ⟨ls, l, h1, -, rfl⟩ := readManifestText_eq_some.mp h₀
  obtain ⟨t, rfl⟩ := hpre
  obtain ⟨ls', h2, hls⟩ := readComplete_append_some h1
  refine ⟨ls', readManifestText_eq_some.mpr ⟨ls', none, h2, parse_rest_of_boundary hb, by simp⟩, ?_⟩
  exact hls.trans (List.prefix_append _ _)

section Cut

variable {text₀ text : Bytes} {lines₀ : List ManifestLine} {pieces : List Bytes}

/-- What is left of a text and pieces after it reads, at a line boundary, if
whole lines are left. -/
theorem wholeLines_iff (h₀ : readManifestText R text₀ = some lines₀) (hp : ∀ p ∈ pieces, IsPiece P p)
    (hpre : text <+: text₀ ++ pieces.flatten) :
    WholeLines text₀ text ↔ AtBoundary text ∧ ∃ lines, readManifestText R text = some lines := by
  constructor
  · rintro (⟨hb, hcut⟩ | ⟨hb, new, rfl⟩)
    · obtain ⟨lines, hread, -⟩ := read_of_prefix h₀ hb hcut
      exact ⟨hb, lines, hread⟩
    · exact ⟨atBoundary_append hb new, _, read_append_lines hb h₀ new⟩
  · rintro ⟨hb, lines, hread⟩
    rcases prefix_append_cases hpre with hcut | ⟨u, rfl, hu⟩
    · exact .inl ⟨hb, hcut⟩
    · obtain ⟨pieces', hp', rfl⟩ := pieces_prefix hp hu
      obtain ⟨new, -, -, hnew⟩ := read_append_pieces h₀ hp' hread
      exact .inr ⟨(hnew hb).1, new, by rw [(hnew hb).2]⟩

/-- Every line it reads as was there, or is one of the pieces'. -/
theorem mem_of_read (h₀ : readManifestText R text₀ = some lines₀) (hp : ∀ p ∈ pieces, IsPiece P p)
    (hpre : text <+: text₀ ++ pieces.flatten) (hb : AtBoundary text) {lines : List ManifestLine}
    (hread : readManifestText R text = some lines) : ∀ line ∈ lines, line ∈ lines₀ ∨ P line := by
  intro line hline
  rcases prefix_append_cases hpre with hcut | ⟨u, rfl, hu⟩
  · obtain ⟨lines', hread', hsub⟩ := read_of_prefix h₀ hb hcut
    rw [hread] at hread'
    cases hread'
    exact .inl (hsub.subset hline)
  · obtain ⟨pieces', hp', rfl⟩ := pieces_prefix hp hu
    obtain ⟨new, rfl, hnew, -⟩ := read_append_pieces h₀ hp' hread
    exact (List.mem_append.mp hline).imp_right (hnew line)

end Cut

end Reading

end Journal
end OpenRelay
