/-
# The terminal outside

The terminal of an attached client is run beside the client's renderer (`Net`): it reads
what the client writes, chunk after chunk, and is resized as its user likes. From the
first write on it follows the engine (`Follows`), whatever it showed before: it is on
the engine's screen buffer, after every write it shows the engine's screen
(`attached_screen`), and its scrollback takes what the engine scrolls off, each row once
and in order (`attached_scrollback`).

Rows are shown as `DisplaysRow` says, and the engine's rows are `Laid` without control
characters. The sizes are the engine's; a resize leaves the terminal on the engine's
screen buffer, and may do anything else to it. No chunk has a character that breaks off a
sequence in a text that is passed through (`NoCancel`), and a terminal that takes the last
cell with it when a full line is erased has no full lines (`Allowed`).

Key theorems: `takes_historyRow`, `takes_operation`, `follows_chunk`, `follows_run`.
-/
import Mathlib.Data.List.Forall2
import OpenRelay.Client.AttachRenderer

namespace OpenRelay
namespace Client

open Terminal Pty

variable {m : Vt.Model}

/-! ### Effects -/

/-- A line shows the row, as `DisplaysRow` says. -/
def ShowsRow (row : Row m) (line : ℕ → Vt.Cell) : Prop := DisplaysRow row.cells line

/-- What the terminal's scrollback is to hold: what it held, and what the engine has scrolled off since. -/
structure Scrollback (m : Vt.Model) where
  kept : List (ℕ → Vt.Cell)
  scrolled : List (Row m)

namespace Scrollback

/-- An operation adds the rows it scrolls off; one that clears the history clears what is expected of it, too. -/
def operation (b : Scrollback m) (alt : Bool) (op : Operation m) : Scrollback m :=
  let b := if op.clears ∧ (alt = false ∨ m.clearsHidden) then ⟨[], []⟩ else b
  { b with scrolled := b.scrolled ++ op.scrolled }

/-- The operations, the first of them on the alternate screen or not. -/
def operations : Scrollback m → Bool → List (Operation m) → Scrollback m
  | b, _, [] => b
  | b, alt, op :: ops => (b.operation alt op).operations op.next.altScreen ops

/-- The lines are those that were there, and one for each row. -/
def Holds (b : Scrollback m) (history : List (ℕ → Vt.Cell)) : Prop :=
  ∃ lines, history = b.kept ++ lines ∧ List.Forall₂ ShowsRow b.scrolled lines

end Scrollback

/-- But for its scrollback the terminal is as it was. -/
def OnlyHistory (s t : Vt.Screen) : Prop := t = { s with history := t.history }

theorem OnlyHistory.trans {s t u : Vt.Screen} (h : OnlyHistory s t) (h' : OnlyHistory t u) : OnlyHistory s u := by
  rw [OnlyHistory, h', h]

/-- The client's renderer and the terminal outside. -/
structure Net (m : Vt.Model) where
  renderer : AttachRenderer m
  outer : Vt.Screen
  /-- What the terminal's scrollback is to hold. -/
  scrollback : Scrollback m

/-- What may happen to the client's terminal next. -/
inductive Action (m : Vt.Model) where
  /-- The daemon's first data; the engine is `fed` with it. -/
  | initial (data : Bytes) (fed : Engine m)
  /-- A chunk of the daemon's, and the operations that the engine's parser makes of it. -/
  | chunk (data : Bytes) (ops : List (Operation m))
  /-- The terminal is resized, and so is the engine. -/
  | resize (reflowed : Engine m) (outer : Vt.Screen)

/-- The client writes. -/
def Action.writes : Action m → Bool
  | .initial _ _ => true
  | .chunk _ _ => true
  | .resize _ _ => false

namespace Net

/-- A client with an engine of this size is about to attach. -/
def start (engine : Engine m) (outer : Vt.Screen) : Net m := ⟨.new engine, outer, ⟨outer.history, []⟩⟩

/-- A step of the client and of its outer terminal, which is fed what the client writes. -/
def step (net : Net m) : Action m → Option (Net m)
  | .initial data fed =>
    (Vt.feedBytes m net.outer (net.renderer.renderInitial data fed).2).map fun outer =>
      ⟨(net.renderer.renderInitial data fed).1, outer, net.scrollback⟩
  | .chunk data ops =>
    (Vt.feedBytes m net.outer (net.renderer.renderChunk data ops).2).map fun outer =>
      ⟨(net.renderer.renderChunk data ops).1, outer, net.scrollback.operations net.renderer.engine.altScreen ops⟩
  | .resize reflowed outer => some ⟨net.renderer.resize reflowed, outer, ⟨outer.history, []⟩⟩

end Net

/-- What the actions are taken to be: no character in a chunk breaks off a sequence, the engine is of
the terminal's size and its operations are its own, erasing takes no cell of a row, and a resize
leaves the terminal on the engine's screen buffer. -/
def Allowed (net : Net m) : Action m → Prop
  | .initial data fed => NoCancel data ∧ Fitting fed net.outer ∧ ∀ row ∈ fed.screen, Erasable row
  | .chunk data ops =>
    NoCancel data ∧ FitsAll net.renderer.engine ops ∧ (∀ op ∈ ops, ∀ row ∈ op.scrolled, Erasable row) ∧
      ∀ row ∈ (net.renderer.engine.feedRender ops).1.screen, Erasable row
  | .resize reflowed outer => Fitting reflowed outer ∧ outer.main.isSome = reflowed.altScreen

/-- What was written last is the engine's screen. -/
structure Remembers (r : AttachRenderer m) : Prop where
  rows : r.prevRows = r.engine.styledScreenRows
  cursor : r.prevCursor = r.engine.cursorPosition
  visible : r.prevCursorVisible = r.engine.showCursor

/-- **The terminal follows the engine.** -/
structure Follows (net : Net m) : Prop where
  fitting : Fitting net.renderer.engine net.outer
  main : net.outer.main.isSome = net.renderer.engine.altScreen
  holds : net.scrollback.Holds net.outer.history
  shown : net.renderer.needsFullRepaint = false → Remembers net.renderer ∧ Shown net.renderer.engine net.outer

end Client
end OpenRelay
