/-
# Rows without their styles

A log that is asked for without colours takes the engine's styled rows and strips their
SGR sequences byte by byte (`strip_sgr` in `session/logs/screen_history.rs`): up to the
next `m`, wherever that is. What is left of a row is its characters
(`stripSgr_styledRow`), and trimmed they are the text that the engine gives of the row
itself (`row_text` in `terminal/mod.rs`), if nothing combines in it. A row is any list of
cells here; the engine keeps tabs in cells, but no escape and no NUL.

Key theorem: `plain_row`.
-/
import OpenRelay.Client.KeySpec
import OpenRelay.Session.ScreenReplay
import OpenRelay.Terminal.StyledRow

namespace OpenRelay
namespace Terminal

open Client.KeySpec (isWhitespace)
open Session (stripSgr)

/-! ### The code -/

/-- The loop of `row_text`, which stops at the first cell that is not written. -/
def rowTextFrom : List Char → List Cell → List Char
  | text, [] => text
  | text, cell :: row =>
    if cell.isSpacer then rowTextFrom text row
    else if cell.c = Char.ofNat 0 then text
    else rowTextFrom (text ++ [cell.c]) row

/-- `row_text`: the row's characters, without white space at the end. -/
def rowText (row : List Cell) : List Char := (rowTextFrom [] row).rdropWhile isWhitespace

/-! ### Stripping -/

/-- The characters that a row is written with. -/
def plainText (cells : List Cell) : List Char := cells.flatMap fun cell => cell.c :: cell.zerowidth

/-- An ASCII byte of a character is the character. -/
theorem toNat_of_mem_utf8EncodeChar {c : Char} {b : UInt8} (h : b ∈ String.utf8EncodeChar c) (hb : b.toNat < 0x80) :
    c.toNat = b.toNat := by
  have hsize : c.toNat < 0x110000 := by
    rcases c.valid with hlow | ⟨_, hhigh⟩
    · exact Nat.lt_trans hlow (by decide)
    · exact hhigh
  have hv : c.val.toNat = c.toNat := rfl
  unfold String.utf8EncodeChar at h
  rw [hv] at h
  dsimp only at h
  split at h
  · rw [List.mem_singleton.mp h, Utf8.toNat_byte (by omega)]
  all_goals
    exfalso
    split at h
    · simp only [List.mem_cons, List.not_mem_nil, or_false] at h
      rcases h with rfl | rfl <;> rw [Utf8.toNat_byte (by omega)] at hb <;> omega
    · split at h
      · simp only [List.mem_cons, List.not_mem_nil, or_false] at h
        rcases h with rfl | rfl | rfl <;> rw [Utf8.toNat_byte (by omega)] at hb <;> omega
      · simp only [List.mem_cons, List.not_mem_nil, or_false] at h
        rcases h with rfl | rfl | rfl | rfl <;> rw [Utf8.toNat_byte (by omega)] at hb <;> omega

theorem not_mem_encode {cs : List Char} {b : UInt8} (hb : b.toNat < 0x80) (h : ∀ c ∈ cs, c.toNat ≠ b.toNat) :
    b ∉ Utf8.encode cs := by
  intro hmem
  obtain ⟨c, hc, hin⟩ := List.mem_flatMap.mp hmem
  exact h c hc (toNat_of_mem_utf8EncodeChar hin hb)

theorem stripSgr_cons {b : UInt8} (h : b ≠ 27) (bytes : Bytes) : stripSgr (b :: bytes) = b :: stripSgr bytes := by
  cases bytes with
  | nil => rw [stripSgr, stripSgr]
  | cons c bytes => rw [stripSgr, if_neg fun hesc => h hesc.1]

theorem stripSgr_text {bytes : Bytes} (h : 27 ∉ bytes) (rest : Bytes) :
    stripSgr (bytes ++ rest) = bytes ++ stripSgr rest := by
  induction bytes with
  | nil => rfl
  | cons b bytes ih =>
    rw [List.mem_cons, not_or] at h
    rw [List.cons_append, stripSgr_cons (Ne.symm h.1), ih h.2, List.cons_append]

theorem stripSgr_sequence (params : Bytes) (h : 109 ∉ params) (rest : Bytes) :
    stripSgr (27 :: 91 :: (params ++ 109 :: rest)) = stripSgr rest := by
  have hdrop : (params ++ 109 :: rest).dropWhile (fun x => x != 109) = 109 :: rest := by
    rw [List.dropWhile_append_of_pos fun b hb => by simpa using fun heq : b = 109 => h (heq ▸ hb)]
    rw [List.dropWhile_cons_of_neg (by simp)]
  rw [stripSgr, if_pos ⟨rfl, rfl⟩, hdrop]
  rfl

theorem mem_numbers {c : Char} : ∀ {ns : List ℕ}, c ∈ Vt.numbers ns → c.isDigit = true ∨ c = ';'
  | [], h => absurd h List.not_mem_nil
  | [n], h => .inl (Nat.isDigit_of_mem_toDigits (by decide) (by decide) h)
  | n :: k :: ns, h => by
    rw [Vt.numbers, List.mem_append, List.mem_cons] at h
    rcases h with h | rfl | h
    · exact .inl (Nat.isDigit_of_mem_toDigits (by decide) (by decide) h)
    · exact .inr rfl
    · exact mem_numbers h

theorem stripSgr_sgrText (r : Rendition) (rest : Bytes) :
    stripSgr (Utf8.encode (sgrText r) ++ rest) = stripSgr rest := by
  obtain ⟨_, ns, _, htext, _⟩ := writes_sgrCodes r
  have hbytes : Utf8.encode (sgrText r) ++ rest = 27 :: 91 :: (Utf8.encode (Vt.numbers ns) ++ 109 :: rest) := by
    rw [sgrText, String.toList_append, String.toList_append, htext, encode_append, encode_append, List.append_assoc,
      List.append_assoc]
    rfl
  rw [hbytes, stripSgr_sequence]
  refine not_mem_encode (by decide) fun c hc hm => ?_
  rcases mem_numbers hc with hdigit | rfl
  · have hbounds : 48 ≤ c.toNat ∧ c.toNat ≤ 57 := by
      simpa [Char.isDigit, UInt32.le_iff_toNat_le] using hdigit
    have hm : c.toNat = 109 := hm
    omega
  · exact absurd hm (by decide)

theorem stripSgr_resetText (r : Rendition) (rest : Bytes) :
    stripSgr (Utf8.encode (resetText r) ++ rest) = stripSgr rest := by
  rw [resetText]
  split
  · rfl
  · exact stripSgr_sequence [48] (by decide) rest

/-- The cells have no escape character. -/
def NoEscape (cells : List Cell) : Prop := ∀ cell ∈ cells, ∀ c ∈ cell.c :: cell.zerowidth, c.toNat ≠ 27

theorem stripSgr_styledText : ∀ (r : Rendition) {cells : List Cell}, NoEscape cells → ∀ rest,
    stripSgr (Utf8.encode (styledText r cells) ++ rest) = Utf8.encode (plainText cells) ++ stripSgr rest
  | _, [], _, _ => rfl
  | r, cell :: cells, h, rest => by
    obtain ⟨hcell, hcells⟩ := List.forall_mem_cons.mp h
    have hpen (bytes : Bytes) :
        stripSgr (Utf8.encode (if r = cell.rendition then [] else sgrText cell.rendition) ++ bytes) =
          stripSgr bytes := by
      split
      · rfl
      · exact stripSgr_sgrText cell.rendition bytes
    have hplain : plainText (cell :: cells) = (cell.c :: cell.zerowidth) ++ plainText cells := rfl
    have htext : 27 ∉ Utf8.encode (cell.c :: cell.zerowidth) := not_mem_encode (by decide) hcell
    rw [styledText, Cell.text, encode_append, encode_append, List.append_assoc, List.append_assoc, hpen,
      stripSgr_text htext, stripSgr_styledText cell.rendition hcells, hplain, encode_append, List.append_assoc]

/-- **A stripped row** is the row's characters up to its last cell that is not blank. -/
theorem stripSgr_styledRow {row : List Cell} (h : NoEscape (content row)) :
    stripSgr (styledRow row) = Utf8.encode (plainText (content row)) := by
  have hreset := stripSgr_resetText (lastRendition .default (content row)) []
  rw [List.append_nil] at hreset
  rw [styledRow_eq, rowStream, encode_append, stripSgr_styledText _ h, hreset, stripSgr, List.append_nil]

/-! ### The engine's own text -/

theorem rowTextFrom_eq {row : List Cell} (h : ∀ cell ∈ glyphs row, cell.c ≠ Char.ofNat 0) (text : List Char) :
    rowTextFrom text row = text ++ (glyphs row).map fun cell => cell.c := by
  induction row generalizing text with
  | nil => rw [rowTextFrom, glyphs, List.filter_nil, List.map_nil, List.append_nil]
  | cons cell row ih =>
    rw [rowTextFrom, glyphs_cons]
    rw [glyphs_cons] at h
    rcases hspacer : cell.isSpacer with _ | _
    · rw [hspacer, if_neg Bool.false_ne_true] at h
      obtain ⟨hcell, hrow⟩ := List.forall_mem_cons.mp h
      rw [if_neg Bool.false_ne_true, if_neg Bool.false_ne_true, if_neg hcell, ih hrow, List.map_cons,
        List.append_assoc]
      rfl
    · rw [hspacer, if_pos rfl] at h
      rw [if_pos rfl, if_pos rfl, ih h]

theorem rdropWhile_append_of_pos {α : Type*} {p : α → Bool} (l : List α) {more : List α}
    (h : ∀ a ∈ more, p a = true) : (l ++ more).rdropWhile p = l.rdropWhile p := by
  rw [List.rdropWhile, List.reverse_append, List.dropWhile_append_of_pos (by simpa using h), List.rdropWhile]

theorem space_of_blank {cell : Cell} (h : cell.isBlank = true) : cell.c = ' ' := by
  simp only [Cell.isBlank, Bool.and_eq_true, decide_eq_true_eq] at h
  exact h.1.1

/-- Blanks at the end of a row are white space. -/
theorem rowText_eq {row : List Cell} (h : ∀ cell ∈ content row, cell.c ≠ Char.ofNat 0) :
    rowText row = ((content row).map fun cell => cell.c).rdropWhile isWhitespace := by
  have hsplit : glyphs row = content row ++ (glyphs row).rtakeWhile Cell.isBlank :=
    (List.rdropWhile_append_rtakeWhile (p := Cell.isBlank) (l := glyphs row)).symm
  have hblanks : ∀ cell ∈ (glyphs row).rtakeWhile Cell.isBlank, cell.c = ' ' := fun cell hcell =>
    space_of_blank (List.mem_rtakeWhile_imp hcell)
  have hwritten : ∀ cell ∈ glyphs row, cell.c ≠ Char.ofNat 0 := by
    intro cell hcell
    rw [hsplit] at hcell
    rcases List.mem_append.mp hcell with hcell | hcell
    · exact h cell hcell
    · rw [hblanks cell hcell]
      decide
  have hchars : (glyphs row).map (fun cell => cell.c) = (content row).map (fun cell => cell.c) ++
      ((glyphs row).rtakeWhile Cell.isBlank).map fun cell => cell.c := by
    rw [← List.map_append, ← hsplit]
  rw [rowText, rowTextFrom_eq hwritten, List.nil_append, hchars, rdropWhile_append_of_pos]
  intro c hc
  obtain ⟨cell, hcell, rfl⟩ := List.mem_map.mp hc
  rw [hblanks cell hcell]
  decide

/-- **A row without its styles** is its characters; where nothing combines they are, trimmed, the engine's own text. -/
theorem plain_row {row : List Cell} (h : NoEscape (content row)) :
    Utf8.decode (stripSgr (styledRow row)) = plainText (content row) ∧
      ((∀ cell ∈ content row, cell.zerowidth = [] ∧ cell.c ≠ Char.ofNat 0) →
        rowText row = (Utf8.decode (stripSgr (styledRow row))).rdropWhile isWhitespace) := by
  have hplain : Utf8.decode (stripSgr (styledRow row)) = plainText (content row) := by
    rw [stripSgr_styledRow h, Utf8.decode_encode]
  refine ⟨hplain, fun hcells => ?_⟩
  have hchars : plainText (content row) = (content row).map fun cell => cell.c := by
    rw [plainText, List.map_eq_flatMap]
    refine List.flatMap_congr fun cell hcell => ?_
    rw [(hcells cell hcell).1]
  rw [hplain, hchars, rowText_eq fun cell hcell => (hcells cell hcell).2]

/-- A tab in red, a letter, and two blanks. -/
def sampleTabs : List Cell :=
  [⟨'\t', [], .named .red, .named .background, .empty⟩, ⟨'x', [], .named .foreground, .named .background, .empty⟩,
    ⟨' ', [], .named .foreground, .named .background, .empty⟩, ⟨' ', [], .named .red, .named .background, .empty⟩]

theorem plain_row_tabs : Utf8.decode (stripSgr (styledRow sampleTabs)) = ['\t', 'x'] ∧ rowText sampleTabs =
    (Utf8.decode (stripSgr (styledRow sampleTabs))).rdropWhile isWhitespace := by
  have hcontent : content sampleTabs = sampleTabs.take 2 := rfl
  have hescape : NoEscape (content sampleTabs) := by
    rw [hcontent]
    simp [NoEscape, sampleTabs]
  obtain ⟨hplain, htext⟩ := plain_row hescape
  refine ⟨hplain, htext ?_⟩
  rw [hcontent]
  simp [sampleTabs]

end Terminal
end OpenRelay
