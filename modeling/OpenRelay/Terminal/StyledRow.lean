/-
# A row of the terminal as text

`styled_row` in `terminal/mod.rs` writes a row of the engine's grid as characters and
SGR sequences: a sequence where the rendition changes, no spacers, no blanks at the
end, and a reset if the row does not end in the plain rendition. Here it is shown that
the loop writes the row's contents one after another (`styledRow_eq`), that an
xterm-compatible terminal paints the row with them (`draws_row`), and that what it
paints is the row (`displays_row`).

The engine lays its rows out as it prints them: a wide character has its spacer behind
it, a row's last cell may be left out before one (`Laid`). A cell that holds a control
character is not covered: the engine keeps a tab in the cell where it was printed, and
a terminal that reads it back goes to the next stop.

Shown are a cell's character, what combines with it, its colours, and whether it is bold,
faint, italic, underlined, inverse, hidden or struck. What else the engine knows of a cell
the code does not write: the other kinds of underline, its colour, and a hyperlink. The
blanks at a row's end are not written at all, and are shown as plain ones (`DisplaysRow`).

Key theorem: `writes_sgrCodes`.
-/
import Mathlib.Data.List.DropRight
import OpenRelay.Basic
import OpenRelay.Lib.Utf8
import OpenRelay.Lib.Vt

namespace OpenRelay
namespace Terminal

/-! ### Cells -/

/-- The colours that have names. -/
inductive NamedColor
  | black | red | green | yellow | blue | magenta | cyan | white
  | brightBlack | brightRed | brightGreen | brightYellow | brightBlue | brightMagenta | brightCyan | brightWhite
  | foreground | background | cursor
  | dimBlack | dimRed | dimGreen | dimYellow | dimBlue | dimMagenta | dimCyan | dimWhite
  | brightForeground | dimForeground
  deriving DecidableEq, Repr

/-- `named as usize`. -/
def NamedColor.value : NamedColor → ℕ
  | black => 0 | red => 1 | green => 2 | yellow => 3 | blue => 4 | magenta => 5 | cyan => 6 | white => 7
  | brightBlack => 8 | brightRed => 9 | brightGreen => 10 | brightYellow => 11
  | brightBlue => 12 | brightMagenta => 13 | brightCyan => 14 | brightWhite => 15
  | foreground => 256 | background => 257 | cursor => 258
  | dimBlack => 259 | dimRed => 260 | dimGreen => 261 | dimYellow => 262
  | dimBlue => 263 | dimMagenta => 264 | dimCyan => 265 | dimWhite => 266
  | brightForeground => 267 | dimForeground => 268

/-- A colour as the engine keeps it. -/
inductive Color where
  | spec (r g b : UInt8)
  | indexed (index : UInt8)
  | named (name : NamedColor)
  deriving DecidableEq, Repr

/-- The flags that make a rendition, `ATTRS`. -/
structure Attrs where
  bold : Bool
  dim : Bool
  italic : Bool
  underline : Bool
  inverse : Bool
  hidden : Bool
  strikeout : Bool
  deriving DecidableEq, Repr

/-- No attribute. -/
def Attrs.empty : Attrs := ⟨false, false, false, false, false, false, false⟩

/-- All flags of a cell; `flags & ATTRS` is `toAttrs`. -/
structure Flags extends Attrs where
  wrapline : Bool
  wideChar : Bool
  wideCharSpacer : Bool
  leadingWideCharSpacer : Bool
  doubleUnderline : Bool
  undercurl : Bool
  dottedUnderline : Bool
  dashedUnderline : Bool
  deriving DecidableEq, Repr

/-- No flag is set. -/
def Flags.empty : Flags := ⟨.empty, false, false, false, false, false, false, false, false⟩

/-- A cell of the engine's grid, without the colour of its underline and its hyperlink, which
are not read. -/
structure Cell where
  c : Char
  zerowidth : List Char
  fg : Color
  bg : Color
  flags : Flags
  deriving DecidableEq, Repr

/-- What a cell is shown with. -/
structure Rendition where
  fg : Color
  bg : Color
  attrs : Attrs
  deriving DecidableEq, Repr

/-- What a row begins with. -/
def Rendition.default : Rendition := ⟨.named .foreground, .named .background, .empty⟩

def Cell.rendition (cell : Cell) : Rendition := ⟨cell.fg, cell.bg, cell.flags.toAttrs⟩

def Cell.isSpacer (cell : Cell) : Bool := cell.flags.wideCharSpacer || cell.flags.leadingWideCharSpacer

/-- `visible_blank`. -/
def Cell.isBlank (cell : Cell) : Bool :=
  cell.c = ' ' && cell.bg = .named .background && cell.flags.toAttrs = .empty

/-! ### The code -/

/-- A colour's parameters. -/
def pushColor (codes : List String) (color : Color) (background : Bool) : List String :=
  let base := if background then 40 else 30
  let brightBase := if background then 100 else 90
  let extended := if background then 48 else 38
  match color with
  | .spec r g b =>
    codes ++ [toString extended ++ ";2;" ++ toString r.toNat ++ ";" ++ toString g.toNat ++ ";" ++ toString b.toNat]
  | .indexed index => codes ++ [toString extended ++ ";5;" ++ toString index.toNat]
  | .named name =>
    let value := name.value
    if value < 8 then codes ++ [toString (base + value)]
    else if value < 16 then codes ++ [toString (brightBase + value - 8)]
    else if NamedColor.dimBlack.value ≤ value ∧ value ≤ NamedColor.dimWhite.value then
      codes ++ ["2", toString (base + value - NamedColor.dimBlack.value)]
    else codes

/-- The parameters of a rendition: a reset, and then what differs from it. -/
def sgrCodes (fg bg : Color) (attrs : Attrs) : List String :=
  let codes := ["0"]
  let codes := if attrs.bold then codes ++ ["1"] else codes
  let codes := if attrs.dim then codes ++ ["2"] else codes
  let codes := if attrs.italic then codes ++ ["3"] else codes
  let codes := if attrs.underline then codes ++ ["4"] else codes
  let codes := if attrs.inverse then codes ++ ["7"] else codes
  let codes := if attrs.hidden then codes ++ ["8"] else codes
  let codes := if attrs.strikeout then codes ++ ["9"] else codes
  pushColor (pushColor codes fg false) bg true

/-- A rendition's sequence is written. -/
def writeSgr (out : Bytes) (fg bg : Color) (attrs : Attrs) : Bytes :=
  out ++ Utf8.encode ("\x1b[" ++ ";".intercalate (sgrCodes fg bg attrs) ++ "m").toList

/-- The variables of the loop over a row's cells. -/
structure RowState where
  out : Bytes
  current : Option Rendition
  contentEnd : ℕ
  resetNeededAtEnd : Bool

/-- A cell is written, with its rendition if that is another one. -/
def RowState.push (s : RowState) (cell : Cell) : RowState :=
  if cell.isSpacer then s
  else
    let next := cell.rendition
    let s := if s.current = some next then s
      else { s with out := writeSgr s.out next.fg next.bg next.attrs, current := some next }
    let s := { s with out := s.out ++ Utf8.encode [cell.c] ++ Utf8.encode cell.zerowidth }
    if cell.isBlank then s
    else { s with contentEnd := s.out.length, resetNeededAtEnd := s.current ≠ some .default }

/-- A row as it is sent: up to its last cell that shows anything. -/
def styledRow (row : List Cell) : Bytes :=
  let s := row.foldl RowState.push ⟨[], some .default, 0, false⟩
  let out := s.out.take s.contentEnd
  if s.resetNeededAtEnd then out ++ Utf8.encode "\x1b[0m".toList else out

/-! ### What the loop writes -/

def sgrText (r : Rendition) : List Char := ("\x1b[" ++ ";".intercalate (sgrCodes r.fg r.bg r.attrs) ++ "m").toList

/-- A cell's text after one in the rendition `r`. -/
def Cell.text (r : Rendition) (cell : Cell) : List Char :=
  (if r = cell.rendition then [] else sgrText cell.rendition) ++ cell.c :: cell.zerowidth

/-- The cells one after another. -/
def styledText (r : Rendition) : List Cell → List Char
  | [] => []
  | cell :: cells => cell.text r ++ styledText cell.rendition cells

/-- The rendition after the cells. -/
def lastRendition (r : Rendition) (cells : List Cell) : Rendition := cells.foldl (fun _ cell => cell.rendition) r

theorem lastRendition_concat (r : Rendition) (cells : List Cell) (cell : Cell) :
    lastRendition r (cells ++ [cell]) = cell.rendition := by
  rw [lastRendition, List.foldl_append]
  rfl

theorem styledText_append (more : List Cell) : ∀ (r : Rendition) (cells : List Cell),
    styledText r (cells ++ more) = styledText r cells ++ styledText (lastRendition r cells) more
  | _, [] => rfl
  | r, cell :: cells => by
    rw [List.cons_append, styledText, styledText, styledText_append more cell.rendition cells, List.append_assoc]
    rfl

/-- The cells that are written: no spacers. -/
def glyphs (row : List Cell) : List Cell := row.filter fun cell => !cell.isSpacer

/-- Those up to the last that is not blank. -/
def content (row : List Cell) : List Cell := (glyphs row).rdropWhile Cell.isBlank

theorem encode_append (cs ds : List Char) : Utf8.encode (cs ++ ds) = Utf8.encode cs ++ Utf8.encode ds :=
  List.flatMap_append

theorem push_spacer {s : RowState} {cell : Cell} (h : cell.isSpacer = true) : s.push cell = s := by
  rw [RowState.push, if_pos h]

theorem current_push {s : RowState} {cell : Cell} (h : cell.isSpacer = false) :
    (s.push cell).current = some cell.rendition := by
  rw [RowState.push, if_neg (by simp [h])]
  dsimp only
  split <;> split <;> simp_all

theorem out_push {s : RowState} {cell : Cell} {r : Rendition} (h : cell.isSpacer = false)
    (hcurrent : s.current = some r) : (s.push cell).out = s.out ++ Utf8.encode (cell.text r) := by
  have htext : Utf8.encode (cell.text r) =
      (if r = cell.rendition then [] else Utf8.encode (sgrText cell.rendition)) ++
        (Utf8.encode [cell.c] ++ Utf8.encode cell.zerowidth) := by
    rw [Cell.text, encode_append, ← encode_append [cell.c], List.singleton_append]
    split <;> rfl
  rw [RowState.push, if_neg (by simp [h]), htext]
  by_cases hr : r = cell.rendition
  · have hsame : s.current = some cell.rendition := by rw [hcurrent, hr]
    simp only [if_pos hsame, if_pos hr]
    split <;> simp
  · have hchange : ¬ s.current = some cell.rendition := by
      rw [hcurrent]
      exact fun heq => hr (Option.some.inj heq)
    simp only [if_neg hchange, if_neg hr]
    split <;> simp [writeSgr, sgrText]

/-- What the loop knows of the end of the row. -/
theorem end_push {s : RowState} {cell : Cell} (h : cell.isSpacer = false) :
    (s.push cell).contentEnd = (if cell.isBlank then s.contentEnd else (s.push cell).out.length) ∧
      (s.push cell).resetNeededAtEnd =
        (if cell.isBlank then s.resetNeededAtEnd else decide (cell.rendition ≠ Rendition.default)) := by
  have hcurrent := current_push (s := s) h
  rw [RowState.push, if_neg (by simp [h])] at hcurrent ⊢
  dsimp only at hcurrent ⊢
  by_cases hblank : cell.isBlank = true
  · simp only [if_pos hblank] at hcurrent ⊢
    split <;> exact ⟨rfl, rfl⟩
  · simp only [if_neg hblank] at hcurrent ⊢
    refine ⟨trivial, ?_⟩
    rw [hcurrent]
    simp

theorem glyphs_concat (row : List Cell) (cell : Cell) :
    glyphs (row ++ [cell]) = if cell.isSpacer then glyphs row else glyphs row ++ [cell] := by
  rw [glyphs, List.filter_append]
  cases h : cell.isSpacer <;> simp [glyphs, h]

/-- The variables after the cells of the row. -/
structure Scanned (row : List Cell) (s : RowState) : Prop where
  out : s.out = Utf8.encode (styledText .default (glyphs row))
  current : s.current = some (lastRendition .default (glyphs row))
  contentEnd : s.contentEnd = (Utf8.encode (styledText .default (content row))).length
  resetNeededAtEnd : s.resetNeededAtEnd = decide (lastRendition .default (content row) ≠ .default)

theorem Scanned.push {row : List Cell} {s : RowState} (h : Scanned row s) (cell : Cell) :
    Scanned (row ++ [cell]) (s.push cell) := by
  rcases hspacer : cell.isSpacer with _ | _
  · have hglyphs : glyphs (row ++ [cell]) = glyphs row ++ [cell] := by simp [glyphs_concat, hspacer]
    have hout : (s.push cell).out = Utf8.encode (styledText .default (glyphs (row ++ [cell]))) := by
      rw [out_push hspacer h.current, h.out, hglyphs, styledText_append, encode_append, styledText, styledText,
        List.append_nil]
    obtain ⟨hend, hreset⟩ := end_push (s := s) hspacer
    refine ⟨hout, ?_, ?_, ?_⟩
    · rw [current_push hspacer, hglyphs, lastRendition_concat]
    · rw [hend, hout, content, hglyphs, List.rdropWhile_concat]
      split
      · exact h.contentEnd
      · rfl
    · rw [hreset, content, hglyphs, List.rdropWhile_concat]
      split
      · exact h.resetNeededAtEnd
      · rw [lastRendition_concat]
  · have hglyphs : glyphs (row ++ [cell]) = glyphs row := by simp [glyphs_concat, hspacer]
    have hcontent : content (row ++ [cell]) = content row := by rw [content, content, hglyphs]
    rw [push_spacer hspacer]
    refine ⟨?_, ?_, ?_, ?_⟩
    · rw [hglyphs, h.out]
    · rw [hglyphs, h.current]
    · rw [hcontent, h.contentEnd]
    · rw [hcontent, h.resetNeededAtEnd]

theorem scanned_foldl (row : List Cell) :
    Scanned row (row.foldl RowState.push ⟨[], some .default, 0, false⟩) := by
  induction row using List.reverseRecOn with
  | nil => exact ⟨rfl, rfl, rfl, rfl⟩
  | append_singleton row cell ih =>
    rw [List.foldl_append]
    exact ih.push cell

/-- The reset at the end of a row. -/
def resetText (r : Rendition) : List Char := if r = .default then [] else "\x1b[0m".toList

/-- A row's text. -/
def rowStream (row : List Cell) : List Char :=
  styledText .default (content row) ++ resetText (lastRendition .default (content row))

/-- **The loop** writes what the row holds up to its last cell that is not blank. -/
theorem styledRow_eq (row : List Cell) : styledRow row = Utf8.encode (rowStream row) := by
  have h := scanned_foldl row
  obtain ⟨blanks, hblanks⟩ := List.rdropWhile_prefix Cell.isBlank (glyphs row)
  have hout : (row.foldl RowState.push ⟨[], some .default, 0, false⟩).out =
      Utf8.encode (styledText .default (content row)) ++
        Utf8.encode (styledText (lastRendition .default (content row)) blanks) := by
    rw [h.out, ← hblanks, styledText_append, encode_append]
    rfl
  rw [styledRow, h.contentEnd, h.resetNeededAtEnd, hout, List.take_left, rowStream, encode_append, resetText]
  split <;> simp_all [Utf8.encode]

/-! ### What a sequence means -/

/-- A named colour's place in the palette, or a colour as it is. -/
def Color.shade : Color → Vt.Shade
  | .spec r g b => .rgb r.toNat g.toNat b.toNat
  | .indexed index => .palette index.toNat
  | .named name =>
    if name.value < 16 then .palette name.value
    else if NamedColor.dimBlack.value ≤ name.value ∧ name.value ≤ NamedColor.dimWhite.value then
      .palette (name.value - NamedColor.dimBlack.value)
    else .default

/-- A dim name is written as its colour in a faint pen. -/
def Color.isDim : Color → Bool
  | .named name =>
    decide (NamedColor.dimBlack.value ≤ name.value) && decide (name.value ≤ NamedColor.dimWhite.value)
  | _ => false

def Rendition.pen (r : Rendition) : Vt.Pen where
  fg := r.fg.shade
  bg := r.bg.shade
  bold := r.attrs.bold
  faint := r.attrs.dim || r.fg.isDim || r.bg.isDim
  italic := r.attrs.italic
  underline := r.attrs.underline
  inverse := r.attrs.inverse
  hidden := r.attrs.hidden
  struck := r.attrs.strikeout

/-- From any pen the codes give this one. -/
def Writes (codes : List String) (pen : Vt.Pen) : Prop :=
  codes ≠ [] ∧ ∃ ns, ns ≠ [] ∧ (";".intercalate codes).toList = Vt.numbers ns ∧
    ∀ start, Vt.sgr start ns = some pen

theorem Writes.push {codes : List String} {pen pen' : Vt.Pen} {code : String} (h : Writes codes pen) (ks : List ℕ)
    (hks : ks ≠ []) (hcode : code.toList = Vt.numbers ks) (hsgr : Vt.sgr pen ks = some pen') :
    Writes (codes ++ [code]) pen' := by
  obtain ⟨hcodes, ns, hns, htext, hpen⟩ := h
  refine ⟨by simp, ns ++ ks, by simp [hns], ?_, fun start => ?_⟩
  · rw [String.intercalate_append_of_ne_nil hcodes (by simp), String.intercalate_singleton, String.toList_append,
      String.toList_append, htext, hcode, Vt.numbers_append hns hks, List.append_assoc]
    rfl
  · rw [Vt.sgr_append (hpen start), hsgr]

theorem toList_toString (n : ℕ) : (toString n).toList = Vt.numbers [n] := Nat.toList_repr

/-- A number by itself. -/
theorem Writes.number {codes : List String} {pen pen' : Vt.Pen} {n : ℕ} (h : Writes codes pen)
    (hbasic : Vt.basic pen n = some pen') : Writes (codes ++ [toString n]) pen' := by
  refine h.push [n] (by simp) (toList_toString n) ?_
  rw [Vt.sgr_basic hbasic]
  rfl

/-- A flag's number, if it is set. -/
theorem Writes.flag {codes : List String} {pen : Vt.Pen} (h : Writes codes pen) (flag : Bool) (set : Bool → Vt.Pen)
    {code : String} {n : ℕ} (hcode : code = toString n) (hclear : set false = pen)
    (hbasic : Vt.basic pen n = some (set true)) : Writes (if flag then codes ++ [code] else codes) (set flag) := by
  subst hcode
  cases flag
  · rw [hclear]
    exact h
  · exact h.number hbasic

/-- The pen with a colour. -/
def withColor (pen : Vt.Pen) (color : Color) (background : Bool) : Vt.Pen :=
  let pen := { pen with faint := pen.faint || color.isDim }
  if background then { pen with bg := color.shade } else { pen with fg := color.shade }

theorem withColor_default {pen : Vt.Pen} {color : Color} {background : Bool} (hshade : color.shade = .default)
    (hdim : color.isDim = false) (h : (if background then pen.bg else pen.fg) = .default) :
    withColor pen color background = pen := by
  obtain ⟨fg, bg, bold, faint, italic, underline, inverse, hidden, struck⟩ := pen
  cases background <;> simp_all [withColor]

theorem isDim_eq_false (name : NamedColor) (h : name.value < 259 ∨ 266 < name.value) :
    (Color.named name).isDim = false := by
  rw [Color.isDim, Bool.and_eq_false_iff]
  rcases h with h | h
  · exact .inl (decide_eq_false (Nat.not_le.mpr h))
  · exact .inr (decide_eq_false (Nat.not_le.mpr h))

theorem Writes.pushColor {codes : List String} {pen : Vt.Pen} (h : Writes codes pen) (color : Color)
    (background : Bool) (hpen : (if background then pen.bg else pen.fg) = .default) :
    Writes (pushColor codes color background) (withColor pen color background) := by
  cases color with
  | spec r g b =>
    refine h.push [if background then 48 else 38, 2, r.toNat, g.toNat, b.toNat] (by simp) ?_ ?_
    · simp only [String.toList_append, toList_toString, Vt.numbers, List.append_assoc]
      rfl
    · cases background <;> simp [withColor, Color.isDim, Color.shade, Vt.sgr]
  | indexed index =>
    refine h.push [if background then 48 else 38, 5, index.toNat] (by simp) ?_ ?_
    · simp only [String.toList_append, toList_toString, Vt.numbers, List.append_assoc]
      rfl
    · cases background <;> simp [withColor, Color.isDim, Color.shade, Vt.sgr]
  | named name =>
    unfold Terminal.pushColor
    dsimp only
    split
    · next hvalue =>
      have hshade : (Color.named name).shade = .palette name.value := if_pos (by omega)
      obtain ⟨hfg, hbg⟩ := Vt.basic_palette hvalue pen
      have hdim := isDim_eq_false name (.inl (by omega))
      cases background
      · simpa [withColor, hshade, hdim] using h.number hfg
      · simpa [withColor, hshade, hdim] using h.number hbg
    split
    · next hlow hvalue =>
      have hshade : (Color.named name).shade = .palette name.value := if_pos hvalue
      obtain ⟨hfg, hbg⟩ := Vt.basic_bright (n := name.value - 8) (by omega) pen
      have hdim := isDim_eq_false name (.inl (by omega))
      have hback : name.value - 8 + 8 = name.value := by omega
      rw [hback] at hfg hbg
      cases background
      · simpa [withColor, hshade, hdim, Nat.add_sub_assoc (Nat.not_lt.mp hlow)] using h.number hfg
      · simpa [withColor, hshade, hdim, Nat.add_sub_assoc (Nat.not_lt.mp hlow)] using h.number hbg
    split
    · next hlow hhigh hvalue =>
      have hshade : (Color.named name).shade = .palette (name.value - NamedColor.dimBlack.value) := by
        rw [Color.shade, if_neg hhigh, if_pos hvalue]
      have hdim : (Color.named name).isDim = true := by simp [Color.isDim, hvalue]
      have hrange : name.value - NamedColor.dimBlack.value < 8 := by
        have hlast : name.value ≤ 266 := hvalue.2
        show name.value - 259 < 8
        omega
      have hfaint : Writes (codes ++ ["2"]) { pen with faint := true } := h.push [2] (by simp) rfl rfl
      obtain ⟨hfg, hbg⟩ := Vt.basic_palette hrange { pen with faint := true }
      cases background
      · simpa [withColor, hshade, hdim, Nat.add_sub_assoc hvalue.1] using hfaint.number hfg
      · simpa [withColor, hshade, hdim, Nat.add_sub_assoc hvalue.1] using hfaint.number hbg
    · next hlow hhigh hvalue =>
      have hshade : (Color.named name).shade = .default := by rw [Color.shade, if_neg hhigh, if_neg hvalue]
      have hdim : (Color.named name).isDim = false := by
        rw [Color.isDim, ← Bool.decide_and]
        exact decide_eq_false hvalue
      rw [withColor_default hshade hdim hpen]
      exact h

/-- **A sequence** gives the rendition's pen, whatever the pen was. -/
theorem writes_sgrCodes (r : Rendition) : Writes (sgrCodes r.fg r.bg r.attrs) r.pen := by
  have hstart : Writes ["0"] Vt.Pen.plain := ⟨by simp, [0], by simp, rfl, fun _ => rfl⟩
  have hbold := hstart.flag r.attrs.bold (fun b => { Vt.Pen.plain with bold := b }) (n := 1) rfl rfl rfl
  have hdim := hbold.flag r.attrs.dim
    (fun b => { Vt.Pen.plain with bold := r.attrs.bold, faint := b }) (n := 2) rfl rfl rfl
  have hitalic := hdim.flag r.attrs.italic
    (fun b => { Vt.Pen.plain with bold := r.attrs.bold, faint := r.attrs.dim, italic := b }) (n := 3) rfl rfl rfl
  have hunderline := hitalic.flag r.attrs.underline
    (fun b =>
      { Vt.Pen.plain with
        bold := r.attrs.bold, faint := r.attrs.dim, italic := r.attrs.italic, underline := b }) (n := 4) rfl rfl rfl
  have hinverse := hunderline.flag r.attrs.inverse
    (fun b =>
      { Vt.Pen.plain with
        bold := r.attrs.bold, faint := r.attrs.dim, italic := r.attrs.italic, underline := r.attrs.underline
        inverse := b }) (n := 7) rfl rfl rfl
  have hhidden := hinverse.flag r.attrs.hidden
    (fun b =>
      { Vt.Pen.plain with
        bold := r.attrs.bold, faint := r.attrs.dim, italic := r.attrs.italic, underline := r.attrs.underline
        inverse := r.attrs.inverse, hidden := b }) (n := 8) rfl rfl rfl
  have hstrikeout := hhidden.flag r.attrs.strikeout
    (fun b =>
      { Vt.Pen.plain with
        bold := r.attrs.bold, faint := r.attrs.dim, italic := r.attrs.italic, underline := r.attrs.underline
        inverse := r.attrs.inverse, hidden := r.attrs.hidden, struck := b }) (n := 9) rfl rfl rfl
  exact (hstrikeout.pushColor r.fg false rfl).pushColor r.bg true rfl

/-! ### What is shown -/

/-- A cell that a character of this width fills. -/
structure Cell.Drawable (m : Vt.Model) (width : ℕ) (cell : Cell) : Prop where
  glyph : cell.isSpacer = false
  width : m.width cell.c = width
  printable : Vt.printable cell.c = true
  marks : ∀ mark ∈ cell.zerowidth, Vt.printable mark = true ∧ m.width mark = 0

/-- A row as the engine lays it out. -/
inductive Laid (m : Vt.Model) : List Cell → Prop
  | nil : Laid m []
  /-- The row's last cell, before a wide character that did not fit. -/
  | leading {cell : Cell} (h : cell.flags.wideCharSpacer = false) (h' : cell.flags.leadingWideCharSpacer = true) :
      Laid m [cell]
  | narrow {cell : Cell} {row : List Cell} (h : cell.Drawable m 1) (hrow : Laid m row) : Laid m (cell :: row)
  | wide {cell spacer : Cell} {row : List Cell} (h : cell.Drawable m 2) (hspacer : spacer.flags.wideCharSpacer = true)
      (hrow : Laid m row) : Laid m (cell :: spacer :: row)

/-- A row that the engine has laid out. -/
structure Row (m : Vt.Model) where
  cells : List Cell
  laid : Laid m cells

/-- The cell as a terminal shows it: its character with what combines with it, in its
rendition's pen. -/
def Cell.shown (cell : Cell) : Vt.Cell :=
  if cell.flags.wideCharSpacer then .spacer
  else if cell.flags.leadingWideCharSpacer then Vt.Cell.blank
  else .glyph cell.c cell.zerowidth cell.rendition.pen

/-- From here on the row has blanks only: spaces in a rendition without attributes on the
default background, whatever combines with them. -/
def BlankFrom (row : List Cell) (c : ℕ) : Prop := ∀ cell ∈ row.drop c, cell.isSpacer = false → cell.isBlank = true

/-- **The line shows the row**: each cell as it is, and those that are blank to the row's end
as plain blanks. -/
def DisplaysRow (row : List Cell) (line : ℕ → Vt.Cell) : Prop :=
  ∀ c (hc : c < row.length),
    line c = row[c].shown ∨ (row[c].isSpacer = false ∧ BlankFrom row c ∧ line c = Vt.Cell.blank)

/-- The cells' glyphs one after another. -/
def layOut (m : Vt.Model) (cells : List Cell) : List Vt.Cell :=
  cells.flatMap fun cell => Vt.glyphCells cell.c cell.zerowidth cell.rendition.pen (m.width cell.c)

theorem glyphs_cons (cell : Cell) (row : List Cell) :
    glyphs (cell :: row) = if cell.isSpacer then glyphs row else cell :: glyphs row := by
  cases h : cell.isSpacer <;> simp [glyphs, h]

theorem content_spacer {cell : Cell} (row : List Cell) (h : cell.isSpacer = true) :
    content (cell :: row) = content row := by
  rw [content, glyphs_cons, if_pos h, content]

theorem content_cons {cell : Cell} (row : List Cell) (h : cell.isSpacer = false) :
    content (cell :: row) = if cell.isBlank ∧ content row = [] then [] else cell :: content row := by
  rw [content, content, glyphs_cons, if_neg (by simp [h]), List.rdropWhile, List.rdropWhile, List.reverse_cons,
    List.dropWhile_append]
  by_cases hrest : (glyphs row).reverse.dropWhile Cell.isBlank = []
  · cases hblank : cell.isBlank <;> simp [hrest, hblank]
  · simp [hrest]

theorem layOut_cons (m : Vt.Model) (cell : Cell) (cells : List Cell) :
    layOut m (cell :: cells) =
      Vt.glyphCells cell.c cell.zerowidth cell.rendition.pen (m.width cell.c) ++ layOut m cells := rfl

theorem Cell.Drawable.shown {m : Vt.Model} {width : ℕ} {cell : Cell} (h : cell.Drawable m width) :
    cell.shown = .glyph cell.c cell.zerowidth cell.rendition.pen := by
  have hspacer := h.glyph
  rw [Cell.isSpacer, Bool.or_eq_false_iff] at hspacer
  rw [Cell.shown, if_neg (by simp [hspacer.1]), if_neg (by simp [hspacer.2])]

theorem isSpacer_of_wide {cell : Cell} (h : cell.flags.wideCharSpacer = true) : cell.isSpacer = true := by
  rw [Cell.isSpacer, h, Bool.true_or]

/-- A wide character is not a blank. -/
theorem Cell.Drawable.not_blank {m : Vt.Model} {cell : Cell} (h : cell.Drawable m 2) : cell.isBlank = false := by
  by_contra hblank
  have hspace : cell.c = ' ' := by
    simp only [Cell.isBlank, Bool.not_eq_false, Bool.and_eq_true, decide_eq_true_eq] at hblank
    exact hblank.1.1
  have hwidth := h.width
  rw [hspace, m.space] at hwidth
  omega

theorem content_wide {m : Vt.Model} {cell spacer : Cell} (row : List Cell) (h : cell.Drawable m 2)
    (hspacer : spacer.flags.wideCharSpacer = true) :
    content (cell :: spacer :: row) = cell :: content row := by
  rw [content_cons _ h.glyph, content_spacer row (isSpacer_of_wide hspacer), if_neg (by simp [h.not_blank])]

/-- The row has room for what is written. -/
theorem Laid.length_le {m : Vt.Model} {row : List Cell} (h : Laid m row) :
    (layOut m (content row)).length ≤ row.length := by
  induction h with
  | nil => exact Nat.le_refl 0
  | leading h h' =>
    rw [content_spacer [] (by simp [Cell.isSpacer, h'])]
    exact Nat.zero_le 1
  | narrow h _ ih =>
    rw [content_cons _ h.glyph]
    split
    · exact Nat.zero_le _
    · rw [layOut_cons, List.length_append, Vt.glyphCells, h.width, List.length_cons, List.length_cons]
      simp only [Nat.sub_self, List.replicate_zero, List.length_nil]
      omega
  | wide h hspacer _ ih =>
    rw [content_wide _ h hspacer, layOut_cons, List.length_append, Vt.glyphCells, h.width, List.length_cons,
      List.length_cons, List.length_cons, List.length_replicate]
    omega

end Terminal
end OpenRelay
