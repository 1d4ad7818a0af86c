/-
# A terminal's screen

What an xterm-compatible terminal makes of a stream: printed glyphs, SGR renditions,
cursor positions, erasing, margins, the scrollback, and the alternate screen. The
characters of a stream are read one by one (`lex`); what a text `Spells` is the
tokens it is read as, wherever it stands. A token that is not one of these has no
meaning here (`step` gives none), so that a stream with a result has nothing else in it.
Where terminals differ, the `Model` says what this one does.

A row is painted from the left: `run_glyph` says what a glyph does to its cells and to
the cursor, with everything else as it was, and `Reaches.trans` puts one after another.

Key theorems: `feed_spells`, `spells_csi`.
-/
import Mathlib.Data.List.GetD
import OpenRelay.Lib.Runs

namespace Vt

/-! ### The screen -/

/-- A colour, as it is chosen. -/
inductive Shade where
  | default
  | palette (index : ℕ)
  | rgb (r g b : ℕ)
  deriving DecidableEq, Repr

/-- What a glyph is printed with. -/
structure Pen where
  fg : Shade
  bg : Shade
  bold : Bool
  faint : Bool
  italic : Bool
  underline : Bool
  inverse : Bool
  hidden : Bool
  struck : Bool
  deriving DecidableEq, Repr

def Pen.plain : Pen := ⟨.default, .default, false, false, false, false, false, false, false⟩

/-- What a cell shows. -/
inductive Cell where
  /-- A character with what combines with it. -/
  | glyph (c : Char) (marks : List Char) (pen : Pen)
  /-- The second cell of a wide character. -/
  | spacer
  deriving DecidableEq, Repr

/-- What erasing leaves: the background stays. -/
def Cell.erased (pen : Pen) : Cell := .glyph ' ' [] { Pen.plain with bg := pen.bg }

def Cell.blank : Cell := .glyph ' ' [] Pen.plain

/-- What differs between terminals. -/
structure Model where
  /-- How many cells a character takes. -/
  width : Char → ℕ
  space : width ' ' = 1
  /-- Erasing to the end of a line that is full takes its last cell. -/
  erasesFull : Bool
  /-- Erasing the screen moves it to the scrollback first. -/
  savesErased : Bool
  /-- The scrollback can be cleared while the alternate screen shows. -/
  clearsHidden : Bool

/-- The main screen, while the alternate one shows. -/
structure Saved where
  cells : ℕ → ℕ → Cell
  row : ℕ
  col : ℕ
  pen : Pen

/-- A terminal's screen, with its history and, on the alternate screen, what the main one looked like. -/
structure Screen where
  rows : ℕ
  cols : ℕ
  cells : ℕ → ℕ → Cell
  row : ℕ
  col : ℕ
  /-- The last column is printed; the next glyph goes to the next line. -/
  full : Bool
  pen : Pen
  visible : Bool
  /-- The margins, and whether positions are counted from the upper one. -/
  top : ℕ
  bottom : ℕ
  origin : Bool
  /-- The scrollback, oldest first. -/
  history : List (ℕ → Cell)
  main : Option Saved

namespace Screen

/-- A cell's new value. -/
def put (s : Screen) (r c : ℕ) (cell : Cell) : Screen :=
  { s with cells := fun r' c' => if r' = r ∧ c' = c then cell else s.cells r' c' }

/-- The rows between the margins move up; the main screen's first row goes to the scrollback. -/
def scroll (s : Screen) : Screen :=
  { s with
    cells := fun r c =>
      if s.top ≤ r ∧ r < s.bottom then s.cells (r + 1) c else if r = s.bottom then Cell.erased s.pen else s.cells r c
    history := if s.top = 0 ∧ s.main.isNone then s.history ++ [s.cells 0] else s.history }

/-- To the next line; at the region's bottom the region scrolls. -/
def lineFeed (s : Screen) : Screen :=
  if s.row = s.bottom then s.scroll else if s.row + 1 < s.rows then { s with row := s.row + 1 } else s

def wrap (s : Screen) : Screen := lineFeed { s with col := 0, full := false }

/-- Past a glyph of this width. -/
def advance (s : Screen) (width : ℕ) : Screen :=
  if s.col + width < s.cols then { s with col := s.col + width } else { s with col := s.cols - 1, full := true }

/-- A glyph of one or two cells at the cursor. -/
def glyph (s : Screen) (c : Char) (width : ℕ) : Screen :=
  let t := s.put s.row s.col (.glyph c [] s.pen)
  (if width = 2 then t.put s.row (s.col + 1) .spacer else t).advance width

/-- A combining character goes to the glyph before the cursor. -/
def combine (s : Screen) (mark : Char) : Screen :=
  let before := if s.full then s.col else s.col - 1
  let base := if s.cells s.row before = .spacer then before - 1 else before
  match s.cells s.row base with
  | .glyph c marks pen => s.put s.row base (.glyph c (marks ++ [mark]) pen)
  | .spacer => s

def print (m : Model) (s : Screen) (c : Char) : Screen :=
  if m.width c = 0 then s.combine c
  else
    let s := if s.full then s.wrap else s
    (if s.cols < s.col + m.width c then s.wrap else s).glyph c (m.width c)

/-- The cursor at a place counted from one. -/
def goTo (s : Screen) (row col : ℕ) : Screen :=
  { s with
    row := if s.origin then min (s.top + (row - 1)) s.bottom else min (row - 1) (s.rows - 1)
    col := min (col - 1) (s.cols - 1)
    full := false }

/-- Nothing is shown any more; some terminals keep what was. -/
def eraseScreen (m : Model) (s : Screen) : Screen :=
  { s with
    cells := fun _ _ => Cell.erased s.pen
    history :=
      if m.savesErased ∧ s.main.isNone then s.history ++ (List.range s.rows).map s.cells else s.history }

/-- Nothing that has scrolled off is kept. -/
def clearHistory (m : Model) (s : Screen) : Screen :=
  if s.main.isNone ∨ m.clearsHidden then { s with history := [] } else s

/-- From the cursor to the end of its line. -/
def eraseLine (m : Model) (s : Screen) : Screen :=
  if s.full ∧ m.erasesFull = false then s
  else { s with
    cells := fun r c => if r = s.row ∧ s.col ≤ c then Cell.erased s.pen else s.cells r c, full := false }

def toAlternate (s : Screen) : Screen :=
  match s.main with
  | some _ => s
  | none => { s with main := some ⟨s.cells, s.row, s.col, s.pen⟩, cells := fun _ _ => Cell.erased s.pen }

def toMain (s : Screen) : Screen :=
  match s.main with
  | some saved =>
    { s with main := none, cells := saved.cells, row := saved.row, col := saved.col, pen := saved.pen, full := false }
  | none => s

/-- No margins inside the screen, and positions counted from its first row. -/
def wholeMargins (s : Screen) : Screen := { s with top := 0, bottom := s.rows - 1 }

end Screen

/-! ### Renditions -/

/-- A parameter that stands for itself. -/
def basic (pen : Pen) (n : ℕ) : Option Pen :=
  if n = 0 then some Pen.plain
  else if n = 1 then some { pen with bold := true }
  else if n = 2 then some { pen with faint := true }
  else if n = 3 then some { pen with italic := true }
  else if n = 4 then some { pen with underline := true }
  else if n = 7 then some { pen with inverse := true }
  else if n = 8 then some { pen with hidden := true }
  else if n = 9 then some { pen with struck := true }
  else if 30 ≤ n ∧ n ≤ 37 then some { pen with fg := .palette (n - 30) }
  else if 40 ≤ n ∧ n ≤ 47 then some { pen with bg := .palette (n - 40) }
  else if 90 ≤ n ∧ n ≤ 97 then some { pen with fg := .palette (n - 90 + 8) }
  else if 100 ≤ n ∧ n ≤ 107 then some { pen with bg := .palette (n - 100 + 8) }
  else none

/-- The parameters of an SGR sequence, one after another. -/
def sgr (pen : Pen) : List ℕ → Option Pen
  | [] => some pen
  | 38 :: 5 :: index :: ps => sgr { pen with fg := .palette index } ps
  | 48 :: 5 :: index :: ps => sgr { pen with bg := .palette index } ps
  | 38 :: 2 :: r :: g :: b :: ps => sgr { pen with fg := .rgb r g b } ps
  | 48 :: 2 :: r :: g :: b :: ps => sgr { pen with bg := .rgb r g b } ps
  | n :: ps => (basic pen n).bind fun pen => sgr pen ps

/-! ### Tokens -/

/-- What characters come to: a glyph, a control character or a sequence. -/
inductive Token where
  | print (c : Char)
  | control (c : Char)
  | escape (c : Char)
  | csi (question : Bool) (params : List ℕ) (final : Char)
  /-- A control sequence with a space before its last character. -/
  | spaced (params : List ℕ) (final : Char)
  | osc (text : List Char)
  deriving DecidableEq, Repr

/-- Where the reader is in a sequence. -/
inductive Mode where
  | ground
  | escape
  | csi (question : Bool) (params : List ℕ) (value : ℕ)
  | spaced (params : List ℕ)
  | osc (text : List Char)
  | oscEscape (text : List Char)
  deriving DecidableEq, Repr

def esc : Char := Char.ofNat 0x1b

def bel : Char := Char.ofNat 7

/-- It breaks off or ends a sequence: CAN, SUB, and, for terminals that read them as such, the
control characters from U+0080 on. -/
def isCancel (c : Char) : Bool := c.toNat = 0x18 || c.toNat = 0x1a || 0x80 ≤ c.toNat && c.toNat ≤ 0x9f

/-- Neither a control character nor deleted. -/
def printable (c : Char) : Bool := 0x20 ≤ c.toNat && c.toNat < 0x7f || 0xa0 ≤ c.toNat

/-- What the next character makes of what has come of a sequence. -/
def next : Mode → Char → Mode × Option Token
  | .ground, c =>
    if c = esc then (.escape, none)
    else if printable c then (.ground, some (.print c))
    else (.ground, some (.control c))
  | .escape, c =>
    if c = '[' then (.csi false [] 0, none)
    else if c = ']' then (.osc [], none)
    else (.ground, some (.escape c))
  | .csi question params value, c =>
    if c.isDigit then (.csi question params (10 * value + (c.toNat - '0'.toNat)), none)
    else if c = ';' then (.csi question (params ++ [value]) 0, none)
    else if c = '?' then (.csi true params value, none)
    else if c = ' ' then (.spaced (params ++ [value]), none)
    else (.ground, some (.csi question (params ++ [value]) c))
  | .spaced params, c => (.ground, some (.spaced params c))
  | .osc text, c =>
    if c = bel then (.ground, some (.osc text))
    else if c = esc then (.oscEscape text, none)
    else if isCancel c then (.ground, some (.control c))
    else (.osc (text ++ [c]), none)
  | .oscEscape text, c => if c = '\\' then (.ground, some (.osc text)) else (.ground, some (.escape c))

/-- The sequences and glyphs of a text. -/
def lex : Mode → List Char → List Token
  | _, [] => []
  | mode, c :: cs => (next mode c).2.toList ++ lex (next mode c).1 cs

/-- What a terminal does for a token, where it does anything that is modelled. -/
def step (m : Model) (s : Screen) : Token → Option Screen
  | .print c => some (s.print m c)
  | .control c =>
    if c = '\r' then some { s with col := 0, full := false }
    else if c = '\n' then some s.lineFeed
    else none
  | .escape _ => none
  | .csi false ps 'm' => (sgr s.pen ps).map fun pen => { s with pen := pen }
  | .csi false [row, col] 'H' => some (s.goTo row col)
  | .csi false [0] 'H' => some (s.goTo 1 1)
  | .csi false [2] 'J' => some (s.eraseScreen m)
  | .csi false [3] 'J' => some (s.clearHistory m)
  | .csi false [0] 'K' => some (s.eraseLine m)
  -- a change of the margins or of the origin takes the cursor home
  | .csi false [0] 'r' => some (s.wholeMargins.goTo 1 1)
  | .csi true [6] 'l' => some ({ s with origin := false }.goTo 1 1)
  | .csi true [25] 'h' => some { s with visible := true }
  | .csi true [25] 'l' => some { s with visible := false }
  | .csi true [1049] 'h' => some s.toAlternate
  | .csi true [1049] 'l' => some s.toMain
  | .csi true [2026] 'h' => some s
  | .csi true [2026] 'l' => some s
  | .csi _ _ _ => none
  -- the shape of the cursor, the title and what else is not on the screen
  | .spaced _ 'q' => some s
  | .spaced _ _ => none
  | .osc _ => some s

/-- The screen after a text. -/
def feed (m : Model) (s : Screen) (cs : List Char) : Option Screen := Runs.run (step m) s (lex .ground cs)

/-! ### Spelling -/

/-- The text is read as these tokens, whatever follows. -/
def Spells (cs : List Char) (ts : List Token) : Prop :=
  ∀ rest, lex .ground (cs ++ rest) = ts ++ lex .ground rest

theorem feed_spells {m : Model} {s : Screen} {cs : List Char} {ts : List Token} (h : Spells cs ts) :
    feed m s cs = Runs.run (step m) s ts := by
  have hlex := h []
  rw [List.append_nil, lex, List.append_nil] at hlex
  rw [feed, hlex]

theorem spells_nil : Spells [] [] := fun _ => rfl

theorem Spells.append {cs ds : List Char} {ts us : List Token} (h : Spells cs ts) (h' : Spells ds us) :
    Spells (cs ++ ds) (ts ++ us) := by
  intro rest
  rw [List.append_assoc, h, h', List.append_assoc]

/-- Numbers in decimal, with semicolons between them. -/
def numbers : List ℕ → List Char
  | [] => []
  | [n] => Nat.toDigits 10 n
  | n :: k :: ns => Nat.toDigits 10 n ++ ';' :: numbers (k :: ns)

theorem lex_digits (question : Bool) (params : List ℕ) : ∀ (cs : List Char) (value : ℕ) (rest : List Char),
    (∀ c ∈ cs, c.isDigit = true) →
      lex (.csi question params value) (cs ++ rest) =
        lex (.csi question params (Nat.ofDigitChars 10 cs value)) rest
  | [], value, _, _ => by rw [Nat.ofDigitChars_nil, List.nil_append]
  | c :: cs, value, rest, h => by
    rw [List.cons_append, lex, next, if_pos (h c List.mem_cons_self), Nat.ofDigitChars_cons]
    exact lex_digits question params cs _ rest fun d hd => h d (List.mem_cons_of_mem c hd)

/-- The character ends a sequence. -/
def isFinal (c : Char) : Bool := !c.isDigit && c != ';' && c != '?' && c != ' '

theorem numbers_cons (n : ℕ) {ns : List ℕ} (hns : ns ≠ []) :
    numbers (n :: ns) = Nat.toDigits 10 n ++ ';' :: numbers ns := by
  obtain ⟨k, ks, rfl⟩ := List.exists_cons_of_ne_nil hns
  rfl

theorem numbers_append {ns ks : List ℕ} (hns : ns ≠ []) (hks : ks ≠ []) :
    numbers (ns ++ ks) = numbers ns ++ ';' :: numbers ks := by
  induction ns with
  | nil => exact absurd rfl hns
  | cons n ns ih =>
    rcases List.eq_nil_or_concat ns with rfl | ⟨_, _, hne⟩
    · rw [List.singleton_append, numbers_cons n hks]
      rfl
    · have hns : ns ≠ [] := by simp [hne]
      rw [List.cons_append, numbers_cons n (by simp [hns]), ih hns, numbers_cons n hns, List.append_assoc]
      rfl

/-! ### Renditions, one part after another -/

theorem sgr_basic {pen pen' : Pen} {n : ℕ} (h : basic pen n = some pen') (ps : List ℕ) :
    sgr pen (n :: ps) = sgr pen' ps := by
  have hfg : n ≠ 38 := by
    rintro rfl
    exact absurd h (by simp [basic])
  have hbg : n ≠ 48 := by
    rintro rfl
    exact absurd h (by simp [basic])
  rw [sgr, h, Option.bind_some] <;> simp [hfg, hbg]

theorem basic_palette {n : ℕ} (h : n < 8) (pen : Pen) :
    basic pen (30 + n) = some { pen with fg := .palette n } ∧
      basic pen (40 + n) = some { pen with bg := .palette n } := by
  grind [basic]

theorem basic_bright {n : ℕ} (h : n < 8) (pen : Pen) :
    basic pen (90 + n) = some { pen with fg := .palette (n + 8) } ∧
      basic pen (100 + n) = some { pen with bg := .palette (n + 8) } := by
  grind [basic]

/-- **Parameters that are complete** are read without those after them. -/
theorem sgr_append {pen pen' : Pen} {ns : List ℕ} (h : sgr pen ns = some pen') (ks : List ℕ) :
    sgr pen (ns ++ ks) = sgr pen' ks := by
  fun_induction sgr pen ns with
  | case1 =>
    cases h
    rfl
  | case2 _ _ _ ih => exact ih h
  | case3 _ _ _ ih => exact ih h
  | case4 _ _ _ _ _ ih => exact ih h
  | case5 _ _ _ _ _ ih => exact ih h
  | case6 pen n ps _ _ _ _ ih =>
    obtain ⟨next, hnext, hrest⟩ := Option.bind_eq_some_iff.mp h
    rw [List.cons_append, sgr_basic hnext, ih next hrest]

/-! ### Painting a row -/

/-- The cursor is at this column of the row, or past its last one. -/
structure Screen.At (s : Screen) (r k : ℕ) : Prop where
  row : s.row = r
  inside : k < s.cols → s.col = k ∧ s.full = false
  past : k = s.cols → s.col = s.cols - 1 ∧ s.full = true

/-- What is not a cell, the cursor or the pen has not changed. -/
structure Screen.Same (s t : Screen) : Prop where
  rows : t.rows = s.rows
  cols : t.cols = s.cols
  visible : t.visible = s.visible
  top : t.top = s.top
  bottom : t.bottom = s.bottom
  origin : t.origin = s.origin
  history : t.history = s.history
  main : t.main = s.main

theorem Screen.Same.refl (s : Screen) : Screen.Same s s := ⟨rfl, rfl, rfl, rfl, rfl, rfl, rfl, rfl⟩

theorem Screen.Same.trans {s t u : Screen} (h : Screen.Same s t) (h' : Screen.Same t u) : Screen.Same s u :=
  ⟨h'.rows.trans h.rows, h'.cols.trans h.cols, h'.visible.trans h.visible, h'.top.trans h.top,
    h'.bottom.trans h.bottom, h'.origin.trans h.origin, h'.history.trans h.history, h'.main.trans h.main⟩

/-- The row has these cells from column `k` on, and everything else is as it was. -/
def Painted (s t : Screen) (r k : ℕ) (cells : List Cell) : Prop :=
  ∀ r' c, t.cells r' c =
    if r' = r ∧ k ≤ c ∧ c - k < cells.length then cells.getD (c - k) Cell.blank else s.cells r' c

theorem Painted.nil (s : Screen) (r k : ℕ) : Painted s s r k [] := fun r' c => by
  rw [if_neg (by simp)]

theorem Painted.append {s t u : Screen} {r k : ℕ} {cells more : List Cell} (h : Painted s t r k cells)
    (h' : Painted t u r (k + cells.length) more) : Painted s u r k (cells ++ more) := by
  intro r' c
  rw [h' r' c, h r' c, List.length_append]
  by_cases hrow : r' = r
  · rcases Nat.lt_or_ge c (k + cells.length) with hc | hc
    · rw [if_neg (by omega)]
      by_cases hk : k ≤ c
      · rw [if_pos ⟨hrow, hk, by omega⟩, if_pos ⟨hrow, hk, by omega⟩, List.getD_append _ _ _ _ (by omega)]
      · rw [if_neg (fun hin => hk hin.2.1), if_neg (fun hin => hk hin.2.1)]
    · by_cases hm : c - (k + cells.length) < more.length
      · rw [if_pos ⟨hrow, hc, hm⟩, if_pos ⟨hrow, by omega, by omega⟩, List.getD_append_right _ _ _ _ (by omega),
          Nat.sub_sub]
      · rw [if_neg (fun hin => hm hin.2.2), if_neg (by omega), if_neg (by omega)]
  · rw [if_neg (fun hin => hrow hin.1), if_neg (fun hin => hrow hin.1), if_neg (fun hin => hrow hin.1)]

/-- The cells of a glyph. -/
def glyphCells (c : Char) (marks : List Char) (pen : Pen) (width : ℕ) : List Cell :=
  .glyph c marks pen :: List.replicate (width - 1) .spacer

/-- A screen after some of a text that is painted on a row. -/
structure Reaches (s t : Screen) (r k k' : ℕ) (cells : List Cell) : Prop where
  painted : Painted s t r k cells
  at_ : t.At r k'
  same : Screen.Same s t

theorem Reaches.trans {s t u : Screen} {r k k' : ℕ} {cells more : List Cell}
    (h : Reaches s t r k (k + cells.length) cells) (h' : Reaches t u r (k + cells.length) k' more) :
    Reaches s u r k k' (cells ++ more) :=
  ⟨h.painted.append h'.painted, h'.at_, h.same.trans h'.same⟩

theorem Screen.put_cells (s : Screen) (r c : ℕ) (cell : Cell) (r' c' : ℕ) :
    (s.put r c cell).cells r' c' = if r' = r ∧ c' = c then cell else s.cells r' c' := rfl

/-- The glyph at `k` with one more mark. -/
theorem Painted.mark {s t : Screen} {r k width : ℕ} {c mark : Char} {marks : List Char} {pen : Pen}
    (h : Painted s t r k (glyphCells c marks pen width)) :
    Painted s (t.put r k (.glyph c (marks ++ [mark]) pen)) r k (glyphCells c (marks ++ [mark]) pen width) := by
  intro r' c'
  rw [Screen.put_cells, h r' c']
  have hlen : (glyphCells c marks pen width).length = (glyphCells c (marks ++ [mark]) pen width).length := rfl
  by_cases hc : r' = r ∧ c' = k
  · obtain ⟨rfl, rfl⟩ := hc
    simp [glyphCells]
  · rw [if_neg hc, hlen]
    by_cases hin : r' = r ∧ k ≤ c' ∧ c' - k < (glyphCells c (marks ++ [mark]) pen width).length
    · rw [if_pos hin, if_pos hin]
      obtain ⟨n, hn⟩ : ∃ n, c' - k = n + 1 := ⟨c' - k - 1, by omega⟩
      rw [hn]
      rfl
    · rw [if_neg hin, if_neg hin]

/-- The text takes the screen from one state to the other, whatever follows it. -/
def Takes (m : Model) (s : Screen) (cs : List Char) (t : Screen) : Prop :=
  ∃ ts, Spells cs ts ∧ Runs.run (step m) s ts = some t

variable {m : Model}

theorem Takes.nil (m : Model) (s : Screen) : Takes m s [] s := ⟨[], spells_nil, rfl⟩

theorem Takes.trans {s t u : Screen} {cs ds : List Char} (h : Takes m s cs t) (h' : Takes m t ds u) :
    Takes m s (cs ++ ds) u := by
  obtain ⟨ts, hspells, ht⟩ := h
  obtain ⟨us, hspells', hu⟩ := h'
  refine ⟨ts ++ us, hspells.append hspells', ?_⟩
  rw [Runs.run_append, ht, Option.bind_some, hu]

theorem Takes.feed {s t : Screen} {cs : List Char} (h : Takes m s cs t) : feed m s cs = some t := by
  obtain ⟨ts, hspells, ht⟩ := h
  rw [feed_spells hspells, ht]

/-- A text has one effect. -/
theorem Takes.unique {s t u : Screen} {cs : List Char} (h : Takes m s cs t) (h' : Takes m s cs u) : t = u :=
  Option.some.inj (h.feed.symm.trans h'.feed)

theorem eraseLine_same (m : Model) (s : Screen) : Screen.Same s (s.eraseLine m) := by
  unfold Screen.eraseLine
  split <;> exact ⟨rfl, rfl, rfl, rfl, rfl, rfl, rfl, rfl⟩

/-! ### Painting, one part after another -/

/-- From where the cursor is the text paints these cells, and it takes the pen from one to the other. -/
def Draws (m : Model) (pen : Pen) (cs : List Char) (cells : List Cell) (pen' : Pen) : Prop :=
  ∀ (s : Screen) (r k : ℕ), s.At r k → s.pen = pen → k + cells.length ≤ s.cols →
    ∃ t, Takes m s cs t ∧ t.pen = pen' ∧ Reaches s t r k (k + cells.length) cells

theorem Draws.nil (m : Model) (pen : Pen) : Draws m pen [] [] pen := fun s r k hat hpen _ =>
  ⟨s, Takes.nil m s, hpen, Painted.nil s r k, hat, .refl s⟩

theorem Draws.append {pen pen' pen'' : Pen} {cs ds : List Char} {cells more : List Cell}
    (h : Draws m pen cs cells pen') (h' : Draws m pen' ds more pen'') :
    Draws m pen (cs ++ ds) (cells ++ more) pen'' := by
  intro s r k hat hpen hfit
  rw [List.length_append, ← Nat.add_assoc] at hfit
  obtain ⟨t, ht, hpen', hreach⟩ := h s r k hat hpen (by omega)
  have hcols := hreach.same.cols
  obtain ⟨u, hu, hpen'', hreach'⟩ := h' t r _ hreach.at_ hpen' (by omega)
  refine ⟨u, ht.trans hu, hpen'', ?_⟩
  rw [List.length_append, ← Nat.add_assoc]
  exact hreach.trans hreach'

/-- The row has these cells and blanks after them; the other rows are as they were. -/
structure Drawn (s t : Screen) (r : ℕ) (cells : List Cell) : Prop where
  row : ∀ c < s.cols, t.cells r c = cells.getD c Cell.blank
  others : ∀ r', r' ≠ r → t.cells r' = s.cells r'
  same : Screen.Same s t

theorem Reaches.others {s t : Screen} {r k k' : ℕ} {cells : List Cell} (h : Reaches s t r k k' cells) {r' : ℕ}
    (hr : r' ≠ r) : t.cells r' = s.cells r' := by
  funext c
  rw [h.painted, if_neg fun hin => hr hin.1]

/-- **What is left of an older row** is erased, if the terminal does not take the last cell of
a full one. -/
theorem Reaches.erased {s t : Screen} {r : ℕ} {cells : List Cell} (h : Reaches s t r 0 cells.length cells)
    (hpen : t.pen = Pen.plain) (hlen : cells.length ≤ s.cols)
    (hfull : m.erasesFull = true → cells.length < s.cols) : Drawn s (t.eraseLine m) r cells := by
  have hcell (c : ℕ) : t.cells r c = if c < cells.length then cells.getD c Cell.blank else s.cells r c := by
    rw [h.painted, Nat.sub_zero]
    simp
  have hcols := h.same.cols
  refine ⟨fun c hc => ?_, fun r' hr => ?_, h.same.trans (eraseLine_same m t)⟩
  · rcases Nat.lt_or_ge cells.length s.cols with hin | hout
    · obtain ⟨hcol, hnot⟩ := h.at_.inside (by omega)
      rw [Screen.eraseLine, if_neg (by simp [hnot])]
      show (if r = t.row ∧ t.col ≤ c then Cell.erased t.pen else t.cells r c) = _
      rw [h.at_.row, hcol, hpen, hcell]
      by_cases hk : cells.length ≤ c
      · rw [if_pos ⟨rfl, hk⟩, List.getD_eq_default _ _ hk]
        rfl
      · rw [if_neg fun hin => hk hin.2, if_pos (by omega)]
    · obtain ⟨_, hnow⟩ := h.at_.past (by omega)
      have hkeeps : m.erasesFull = false := by
        rcases hm : m.erasesFull
        · rfl
        · exact absurd (hfull hm) (by omega)
      rw [Screen.eraseLine, if_pos ⟨hnow, hkeeps⟩, hcell, if_pos (by omega)]
  · rw [← h.others hr]
    unfold Screen.eraseLine
    split
    · rfl
    · funext c
      show (if r' = t.row ∧ t.col ≤ c then Cell.erased t.pen else t.cells r' c) = _
      rw [if_neg fun hin => hr (hin.1.trans h.at_.row)]

end Vt
