/-
# The client of a credited stream

`run_attach` follows the stream with a cursor: each chunk must start where the
one before it ended (`client/cursor.rs`). After every batch of frames it wrote
to the terminal it acknowledges the cursor if that moved by a stride since the
last credit (`client/attach.rs`).

Pump and client run side by side, with the credits on the wire between them
delivered in any order. A client that applied everything and whose credits have
arrived is within a stride of the pump's cursor, which the budget covers
(`AttachLink.settled_open`). Arriving is not enough, though: a report finds the
cell through the session's runtime, and once the session is evicted it is
dropped, while the pump goes on from what is persisted. Such a client is left
at a closed gate (`credits_dropped`).

Key theorems: `linkInv_step`, `credit_gate`.
-/
import OpenRelay.Ipc.AttachFrame
import OpenRelay.PumpCredit

namespace OpenRelay
namespace Client

open Pump Runs Streams
open Ipc (text)
open Journal (decimal)

/-! ### The cursor -/

/-- The next stream offset the client expects. -/
structure StreamCursor where
  expected : ℕ
  deriving DecidableEq, Repr

/-- Why a stream is not applied. -/
inductive CursorError where
  | mismatch (expected offset : ℕ)
  | unaccounted (finalOffset expected : ℕ)
  deriving DecidableEq, Repr

/-- The text of the error. -/
def CursorError.display : CursorError → Bytes
  | mismatch expected offset =>
    text "attach stream cursor mismatch: expected offset " ++ decimal expected ++ text ", chunk starts at " ++
      decimal offset ++ text " (" ++ (if offset < expected then text "duplicate/overlap" else text "gap") ++
      text "); aborting instead of rendering a corrupt screen"
  | unaccounted finalOffset expected =>
    text "attach stream ended at offset " ++ decimal finalOffset ++ text " but " ++
      decimal (max finalOffset expected - min finalOffset expected) ++
      text " bytes are unaccounted for (applied up to " ++ decimal expected ++ text ")"

namespace StreamCursor

def new (snapshotEnd : ℕ) : StreamCursor := ⟨snapshotEnd⟩

/-- The offset up to which the client has the stream. -/
def current (c : StreamCursor) : ℕ := c.expected

/-- A chunk continues exactly at the cursor. -/
def accept (c : StreamCursor) (offset len : ℕ) : Except CursorError StreamCursor :=
  if offset ≠ c.expected then .error (.mismatch c.expected offset)
  else .ok ⟨offset + len⟩

/-- A final offset of 0 is one the sender did not know. -/
def finish (c : StreamCursor) (finalOffset : ℕ) : Except CursorError Unit :=
  if finalOffset ≠ 0 ∧ finalOffset ≠ c.expected then .error (.unaccounted finalOffset c.expected)
  else .ok ()

end StreamCursor

/-! ### The loop -/

def ackStrideBytes : ℕ := 1024 * 1024

def maxBatchedFrameBytes : ℕ := 1024 * 1024

/-- What ends the loop besides the session's end. -/
inductive StreamError where
  | cursor (e : CursorError)
  | closed
  deriving DecidableEq, Repr

def StreamError.display : StreamError → Bytes
  | cursor e => text "protocol error: " ++ e.display
  | closed => Ipc.ReadError.display .closed

/-- The state of the attach loop. -/
structure RunAttach where
  streamCursor : StreamCursor
  lastAcked : ℕ
  running : Bool
  streamError : Option StreamError
  deriving DecidableEq, Repr

namespace RunAttach

/-- What the init frame starts. -/
def new (init : AttachInit) : RunAttach where
  streamCursor := .new init.endOffset
  lastAcked := 0
  running := init.running
  streamError := none

/-- One frame: its bytes go to the batch. -/
def frame (c : RunAttach) (batch : Bytes) : AttachEvent → RunAttach × Bytes
  | .chunk offset data =>
    match c.streamCursor.accept offset data.length with
    | .ok cursor => ({ c with streamCursor := cursor }, batch ++ data)
    | .error e => ({ c with running := false, streamError := some (.cursor e) }, batch)
  | .modes _ => (c, batch)
  | .done _ finalOffset =>
    match c.streamCursor.finish finalOffset with
    | .ok () => ({ c with running := false }, batch)
    | .error e => ({ c with running := false, streamError := some (.cursor e) }, batch)
  | .closed => ({ c with running := false, streamError := some .closed }, batch)

/-- The frames that are queued, until the batch is full or the stream over, and
the frames left in the queue. -/
def drain (c : RunAttach) (batch : Bytes) : List AttachEvent → RunAttach × Bytes × List AttachEvent
  | [] => (c, batch, [])
  | e :: rest =>
    let (c', batch') := c.frame batch e
    if !c'.running || decide (maxBatchedFrameBytes ≤ batch'.length) then (c', batch', rest)
    else drain c' batch' rest

/-- The credit `maybe_send_ack` sends, if one is due. -/
def maybeSendAck (c : RunAttach) : RunAttach × List ℕ :=
  if c.lastAcked + ackStrideBytes ≤ c.streamCursor.current then
    ({ c with lastAcked := c.streamCursor.current }, [c.streamCursor.current])
  else (c, [])

/-- One turn of the loop on the frames that are queued: the credits it sends,
and the frames left. -/
def turn (c : RunAttach) (queued : List AttachEvent) : RunAttach × List ℕ × List AttachEvent :=
  let r := c.drain [] queued
  if r.2.1.isEmpty then (r.1, [], r.2.2)
  else (r.1.maybeSendAck.1, r.1.maybeSendAck.2, r.2.2)

end RunAttach

/-! ### Pump and client -/

/-- The session with its pump, the client, how many of the pump's events the
client has taken, and the credits on the wire. -/
structure AttachLink where
  sys : Sys
  client : Option RunAttach
  taken : ℕ
  credits : List ℕ
  deriving DecidableEq, Repr

/-- What may happen next at either end, or between them. -/
inductive Move where
  /-- Any step of the session, the ring and the pump, and any report. -/
  | pump (a : Act)
  /-- The client reads the init frame. -/
  | init
  /-- The client's loop turns, with `queued` frames in its queue. -/
  | turn (queued : ℕ)
  /-- One of the credits on the wire reaches the serve loop. -/
  | deliver (i : ℕ)
  deriving DecidableEq, Repr

namespace AttachLink

/-- A pump that has not begun, and no client yet. -/
def start (modes : ModeSnapshot) (incarnation : Option ℕ) : AttachLink where
  sys := Sys.start modes incarnation
  client := none
  taken := 0
  credits := []

def step (s : AttachLink) : Move → Option AttachLink
  | .pump a => (Pump.step s.sys a).map fun sys => { s with sys := sys }
  | .init =>
    match s.client, s.sys.init with
    | none, some init => some { s with client := some (.new init) }
    | _, _ => none
  | .turn queued =>
    match s.client with
    | none => none
    | some c =>
      if c.running && decide (0 < queued ∧ s.taken + queued ≤ s.sys.events.length) then
        let (c', credits, rest) := c.turn ((s.sys.events.drop s.taken).take queued)
        some { s with client := some c', taken := s.taken + queued - rest.length, credits := s.credits ++ credits }
      else none
  | .deliver i =>
    match s.credits[i]? with
    | none => none
    | some cursor =>
      (Pump.step s.sys (.report cursor)).map fun sys => { s with sys := sys, credits := s.credits.eraseIdx i }

end AttachLink

/-- A credit that raises the cell finds the session's runtime. -/
def Lands (s : AttachLink) : Move → Prop
  | .deliver i => ∀ cursor ∈ s.credits[i]?, s.sys.session.live = true ∨ cursor ≤ s.sys.session.applied
  | _ => True

instance (s : AttachLink) (m : Move) : Decidable (Lands s m) := by
  unfold Lands
  split <;> infer_instance

/-! ### What a turn of the client does -/

/-- How many bytes the chunks carry. -/
def carried (events : List AttachEvent) : ℕ := ((chunks events).map Prod.snd).flatten.length

theorem carried_append (es es' : List AttachEvent) : carried (es ++ es') = carried es + carried es' := by
  simp [carried, chunks, List.filterMap_append]

/-- Each chunk starts where the client's cursor will be. -/
def Continues : ℕ → List (ℕ × Bytes) → Prop
  | _, [] => True
  | cursor, c :: cs => c.1 = cursor ∧ Continues (cursor + c.2.length) cs

theorem continues_of_chain : ∀ {cs : List (ℕ × Bytes)} {a : ℕ}, (∀ c ∈ cs.head?, c.1 = a) →
    (cs.IsChain fun x y => y.1 = x.1 + x.2.length) → Continues a cs
  | [], _, _, _ => trivial
  | c :: cs, a, hfirst, hchain => by
    have hc : c.1 = a := hfirst c rfl
    refine ⟨hc, continues_of_chain (fun d hd => ?_) hchain.tail⟩
    rw [List.isChain_cons] at hchain
    rw [hchain.1 d hd, hc]

theorem Continues.append : ∀ {pre post : List (ℕ × Bytes)} {a : ℕ}, Continues a (pre ++ post) →
    Continues a pre ∧ Continues (a + (pre.map Prod.snd).flatten.length) post
  | [], _, _, h => ⟨trivial, h⟩
  | c :: pre, post, a, h => by
    obtain ⟨hpre, hpost⟩ := Continues.append h.2
    refine ⟨⟨h.1, hpre⟩, ?_⟩
    rw [List.map_cons, List.flatten_cons, List.length_append, ← Nat.add_assoc]
    exact hpost

namespace RunAttach

/-- A frame at the cursor is applied. -/
theorem frame_spec {c : RunAttach} {batch : Bytes} {e : AttachEvent}
    (h : Continues c.streamCursor.expected (chunks [e])) :
    (c.frame batch e).1.streamCursor.expected = c.streamCursor.expected + carried [e] ∧
    (c.frame batch e).1.lastAcked = c.lastAcked ∧
    (c.frame batch e).2.length = batch.length + carried [e] := by
  rcases e with ⟨offset, data⟩ | modes | ⟨exitCode, finalOffset⟩ | _
  · have hoffset : offset = c.streamCursor.expected := h.1
    have hcarried : carried [.chunk offset data] = data.length := by simp [carried, chunks]
    have haccept : c.streamCursor.accept offset data.length = .ok ⟨offset + data.length⟩ := by
      rw [StreamCursor.accept, if_neg (not_not.mpr hoffset)]
    have hframe : c.frame batch (.chunk offset data) =
        ({ c with streamCursor := ⟨offset + data.length⟩ }, batch ++ data) := by
      simp only [frame, haccept]
    rw [hframe, hcarried]
    exact ⟨congrArg (· + data.length) hoffset, rfl, List.length_append⟩
  · exact ⟨rfl, rfl, rfl⟩
  · simp only [frame]
    split <;> exact ⟨rfl, rfl, rfl⟩
  · exact ⟨rfl, rfl, rfl⟩

/-- What is taken from the queue is applied, and is the batch. -/
theorem drain_spec : ∀ {queued : List AttachEvent} {c : RunAttach} {batch : Bytes},
    Continues c.streamCursor.expected (chunks queued) →
    ∃ taken, queued = taken ++ (c.drain batch queued).2.2 ∧
      (c.drain batch queued).1.streamCursor.expected = c.streamCursor.expected + carried taken ∧
      (c.drain batch queued).1.lastAcked = c.lastAcked ∧
      (c.drain batch queued).2.1.length = batch.length + carried taken
  | [], c, batch, _ => ⟨[], rfl, rfl, rfl, rfl⟩
  | e :: rest, c, batch, h => by
    rw [show e :: rest = [e] ++ rest from rfl, show chunks ([e] ++ rest) = chunks [e] ++ chunks rest from
      List.filterMap_append] at h
    obtain ⟨hframe, hrest⟩ := h.append
    obtain ⟨hcursor, hacked, hbatch⟩ := @frame_spec c batch e hframe
    unfold drain
    rcases hf : c.frame batch e with ⟨c', batch'⟩
    rw [hf] at hcursor hacked hbatch
    simp only at hcursor hacked hbatch ⊢
    split
    · exact ⟨[e], rfl, hcursor, hacked, hbatch⟩
    · have hrest' : Continues c'.streamCursor.expected (chunks rest) := by
        rw [hcursor]
        exact hrest
      obtain ⟨taken, hsplit, hcursor', hacked', hbatch'⟩ := @drain_spec rest c' batch' hrest'
      refine ⟨e :: taken, congrArg (e :: ·) hsplit, ?_, hacked'.trans hacked, ?_⟩
      · rw [hcursor', hcursor, show e :: taken = [e] ++ taken from rfl, carried_append, Nat.add_assoc]
      · rw [hbatch', hbatch, show e :: taken = [e] ++ taken from rfl, carried_append, Nat.add_assoc]

/-- No credit is due. -/
def WithinStride (c : RunAttach) : Prop := c.streamCursor.expected < c.lastAcked + ackStrideBytes

/-- After `maybe_send_ack` no credit is due. -/
theorem maybeSendAck_spec (c : RunAttach) :
    c.maybeSendAck.1.streamCursor = c.streamCursor ∧
    (c.maybeSendAck.1.lastAcked = c.lastAcked ∨ c.maybeSendAck.1.lastAcked ∈ c.maybeSendAck.2) ∧
    c.maybeSendAck.1.WithinStride := by
  have hstride : 0 < ackStrideBytes := by decide
  unfold maybeSendAck WithinStride StreamCursor.current
  by_cases hdue : c.lastAcked + ackStrideBytes ≤ c.streamCursor.expected
  · rw [if_pos hdue]
    exact ⟨rfl, .inr (List.mem_singleton.mpr rfl), Nat.lt_add_of_pos_right hstride⟩
  · rw [if_neg hdue]
    exact ⟨rfl, .inl rfl, Nat.lt_of_not_le hdue⟩

theorem turn_empty {queued : List AttachEvent} {c : RunAttach} (h : (c.drain [] queued).2.1.isEmpty = true) :
    c.turn queued = ((c.drain [] queued).1, [], (c.drain [] queued).2.2) := if_pos h

theorem turn_full {queued : List AttachEvent} {c : RunAttach} (h : ¬ (c.drain [] queued).2.1.isEmpty = true) :
    c.turn queued = ((c.drain [] queued).1.maybeSendAck.1, (c.drain [] queued).1.maybeSendAck.2,
      (c.drain [] queued).2.2) := if_neg h

/-- After a turn no credit is due, unless nothing was applied. -/
theorem turn_spec {queued : List AttachEvent} {c : RunAttach}
    (h : Continues c.streamCursor.expected (chunks queued)) :
    ∃ taken, queued = taken ++ (c.turn queued).2.2 ∧
      (c.turn queued).1.streamCursor.expected = c.streamCursor.expected + carried taken ∧
      ((c.turn queued).1.lastAcked = c.lastAcked ∨ (c.turn queued).1.lastAcked ∈ (c.turn queued).2.1) ∧
      (carried taken = 0 ∧ (c.turn queued).1.lastAcked = c.lastAcked ∨ (c.turn queued).1.WithinStride) := by
  obtain ⟨taken, hsplit, hcursor, hacked, hbatch⟩ := @drain_spec queued c [] h
  rw [List.length_nil, Nat.zero_add] at hbatch
  have hspec := (c.drain [] queued).1.maybeSendAck_spec
  refine ⟨taken, ?_⟩
  by_cases hnone : (c.drain [] queued).2.1.isEmpty = true
  · rw [turn_empty hnone]
    rw [List.isEmpty_iff.mp hnone, List.length_nil] at hbatch
    exact ⟨hsplit, hcursor, .inl hacked, .inl ⟨hbatch.symm, hacked⟩⟩
  · rw [turn_full hnone]
    rcases hsent : (c.drain [] queued).1.maybeSendAck with ⟨c', credits⟩
    rw [hsent] at hspec
    obtain ⟨hsame, hcredit, hdue⟩ := hspec
    refine ⟨hsplit, (congrArg _ hsame).trans hcursor, ?_, .inr hdue⟩
    rcases hcredit with hcredit | hcredit
    · exact .inl (hcredit.trans hacked)
    · exact .inr hcredit

end RunAttach

/-! ### Runs of pump and client -/

/-- The events are only added to. -/
theorem events_next {s t : Sys} {a : Act} (h : Next s a t) : s.events <+: t.events := by
  have hforward : ∀ (s : Sys) (r : AttachPump × Option Bytes), (s.afterForward r).events = s.events := by
    intro s r
    rcases r with ⟨p, _ | data⟩ <;> rfl
  have hcoalesce : ∀ (s : Sys) (p : AttachPump) (data : Bytes), s.events <+: (s.afterCoalesce p data).events := by
    intro s p data
    rw [Sys.afterCoalesce]
    split
    · exact List.prefix_rfl
    · exact List.prefix_append _ _
  cases h with
  | takeHeld | recv => rw [hforward]
  | coalesceLast => exact hcoalesce { s with rx := s.rx.tryRecv.2 } _ _
  | coalesceFull => exact hcoalesce _ _ _
  | stall | popPending | window | windowErr | tailClosed | tailDone | statusErr | recvClosed =>
    exact List.prefix_append _ _
  | _ => exact List.prefix_rfl

theorem events_step {s t : Sys} {a : Act} (hi : Inv s) (h : Pump.step s a = some t) : s.events <+: t.events := by
  rcases step_cases h with h | h | h
  · rw [(sessionStep_frame h).events]
  · rw [(subscribe_applied hi h).2.1]
  · exact events_next h

/-- What every reachable state satisfies. -/
structure LinkInv (s : AttachLink) : Prop where
  credit : CreditInv s.sys
  taken : s.taken ≤ s.sys.events.length
  waiting : s.client = none → s.taken = 0
  attached : ∀ c ∈ s.client, ∃ init, s.sys.init = some init ∧
    c.streamCursor.expected = init.endOffset + carried (s.sys.events.take s.taken) ∧
    (c.streamCursor.expected = init.endOffset ∨ c.WithinStride)

/-- The last credit is on the wire or in the cell. -/
def Landed (s : AttachLink) : Prop :=
  ∀ c ∈ s.client, c.lastAcked ∈ s.credits ∨ c.lastAcked ≤ s.sys.session.applied

theorem linkInv_start (modes : ModeSnapshot) (incarnation : Option ℕ) :
    LinkInv (AttachLink.start modes incarnation) where
  credit := creditInv_start modes incarnation
  taken := Nat.le_refl 0
  waiting := fun _ => rfl
  attached := fun _ h => nomatch h

/-- A step of the session or the pump leaves what the client has taken. -/
theorem LinkInv.sys {s : AttachLink} (hl : LinkInv s) {a : Act} {sys : Sys}
    (h : Pump.step s.sys a = some sys) (credits : List ℕ) : LinkInv { s with sys := sys, credits := credits } where
  credit := creditInv_step hl.credit h
  taken := hl.taken.trans (events_step hl.credit.inv h).length_le
  waiting := hl.waiting
  attached := by
    intro c hc
    obtain ⟨init, hinit, hcursor, hdue⟩ := hl.attached c hc
    refine ⟨init, (attached_step hl.credit.inv hinit h).2, ?_, hdue⟩
    obtain ⟨es, hes⟩ := events_step hl.credit.inv h
    rw [hcursor]
    show _ = init.endOffset + carried (sys.events.take s.taken)
    rw [← hes, List.take_append_of_le_length hl.taken]

/-- The frames behind those the client has taken continue at its cursor. -/
theorem LinkInv.continues {s : AttachLink} (hl : LinkInv s) {c : RunAttach} (hc : c ∈ s.client) (queued : ℕ) :
    Continues c.streamCursor.expected (chunks ((s.sys.events.drop s.taken).take queued)) := by
  obtain ⟨init, hinit, hcursor, -⟩ := hl.attached c hc
  have hg := hl.credit.inv.emitted init hinit
  have hall := continues_of_chain hg.first hg.chain
  have happend : ∀ es es' : List AttachEvent, chunks (es ++ es') = chunks es ++ chunks es' := fun _ _ =>
    List.filterMap_append
  rw [← List.take_append_drop s.taken s.sys.events, happend] at hall
  have hrest := hall.append.2
  rw [← List.take_append_drop queued (s.sys.events.drop s.taken), happend] at hrest
  rw [hcursor]
  exact hrest.append.1

theorem linkInv_step {s t : AttachLink} {m : Move} (hl : LinkInv s) (h : s.step m = some t) : LinkInv t := by
  cases m with
  | pump a =>
    obtain ⟨sys, hsys, rfl⟩ := Option.map_eq_some_iff.mp h
    exact hl.sys hsys s.credits
  | init =>
    simp only [AttachLink.step] at h
    split at h
    · rename_i init hnone hinit
      cases h
      refine ⟨hl.credit, hl.taken, fun hnone => (nomatch hnone), fun c hc => ⟨init, hinit, ?_, .inl ?_⟩⟩
      all_goals
        cases hc
      · show init.endOffset = init.endOffset + carried (s.sys.events.take s.taken)
        rw [hl.waiting hnone]
        rfl
      · rfl
    · cases h
  | turn queued =>
    simp only [AttachLink.step] at h
    split at h
    · cases h
    · rename_i c hclient
      split at h
      · rename_i hqueued
        simp only [Bool.and_eq_true, decide_eq_true_eq] at hqueued
        cases h
        obtain ⟨taken, hsplit, hcursor, -, hdue⟩ := RunAttach.turn_spec (hl.continues hclient queued)
        obtain ⟨init, hinit, hbefore, hdueBefore⟩ := hl.attached c hclient
        have hlen : taken.length + (c.turn ((s.sys.events.drop s.taken).take queued)).2.2.length = queued := by
          have := congrArg List.length hsplit
          rw [List.length_take, List.length_drop, List.length_append] at this
          omega
        rw [show s.taken + queued - (c.turn ((s.sys.events.drop s.taken).take queued)).2.2.length =
          s.taken + taken.length by omega]
        -- what is taken are the next frames
        have htaken : (s.sys.events.drop s.taken).take taken.length = taken := by
          have := congrArg (List.take taken.length) hsplit
          rwa [List.take_take, min_eq_left (by omega), List.take_left] at this
        have hmore : carried (s.sys.events.take (s.taken + taken.length)) =
            carried (s.sys.events.take s.taken) + carried taken := by
          rw [List.take_add, htaken, carried_append]
        refine ⟨hl.credit, ?_, fun hnone => (nomatch hnone), fun c' hc' => ?_⟩
        · show s.taken + taken.length ≤ s.sys.events.length
          omega
        cases hc'
        refine ⟨init, hinit, ?_, ?_⟩
        · rw [hcursor, hbefore, Nat.add_assoc]
          exact congrArg _ hmore.symm
        · rcases hdue with ⟨hnothing, hacked⟩ | hdue
          · rw [RunAttach.WithinStride, hcursor, hnothing, hacked]
            exact hdueBefore
          · exact .inr hdue
      · cases h
  | deliver i =>
    simp only [AttachLink.step] at h
    split at h
    · cases h
    · obtain ⟨sys, hsys, rfl⟩ := Option.map_eq_some_iff.mp h
      exact hl.sys hsys _

/-- A report that finds the runtime is in the cell. -/
theorem report_lands {s t : Sys} {cursor : ℕ} (hinit : s.init ≠ none)
    (hlands : s.session.live = true ∨ cursor ≤ s.session.applied) (h : Pump.step s (.report cursor) = some t) :
    cursor ≤ t.session.applied := by
  have hsome : s.init.isNone = false := by
    rcases hs : s.init with _ | init
    · exact absurd hs hinit
    · rfl
  simp only [Pump.step, sessionStep, hsome, Bool.false_eq_true, if_false] at h
  by_cases hlive : s.session.live = true
  · rw [if_pos hlive] at h
    cases h
    exact le_max_right _ _
  · rw [if_neg hlive] at h
    cases h
    exact hlands.resolve_left hlive

theorem landed_step {s t : AttachLink} {m : Move} (hl : LinkInv s) (hs : Landed s) (hlands : Lands s m)
    (h : s.step m = some t) : Landed t := by
  cases m with
  | pump a =>
    obtain ⟨sys, hsys, rfl⟩ := Option.map_eq_some_iff.mp h
    intro c hc
    exact (hs c hc).imp_right fun happlied => happlied.trans (applied_mono hl.credit hsys)
  | init =>
    simp only [AttachLink.step] at h
    split at h
    · cases h
      intro c hc
      cases hc
      exact .inr (Nat.zero_le _)
    · cases h
  | turn queued =>
    simp only [AttachLink.step] at h
    split at h
    · cases h
    · rename_i c hclient
      split at h
      · cases h
        obtain ⟨-, -, -, hacked, -⟩ := RunAttach.turn_spec (hl.continues hclient queued)
        intro c' hc'
        cases hc'
        rcases hacked with hacked | hacked
        · rw [hacked]
          exact (hs c hclient).imp_left (List.mem_append_left _)
        · exact .inl (List.mem_append_right _ hacked)
      · cases h
  | deliver i =>
    simp only [AttachLink.step] at h
    split at h
    · cases h
    · rename_i cursor hcursor
      obtain ⟨sys, hsys, rfl⟩ := Option.map_eq_some_iff.mp h
      intro c hc
      obtain ⟨init, hinit, -⟩ := hl.attached c hc
      have happlied : cursor ≤ sys.session.applied :=
        report_lands (by rw [hinit]; simp) (hlands cursor hcursor) hsys
      rcases hs c hc with hmem | hle
      · -- the last credit is the one delivered, or stays on the wire
        obtain ⟨j, hj⟩ := List.mem_iff_getElem?.mp hmem
        by_cases hij : j = i
        · rw [hij, hcursor] at hj
          cases hj
          exact .inr happlied
        · exact .inl (List.mem_eraseIdx_iff_getElem?.mpr ⟨j, hij, hj⟩)
      · exact .inr (hle.trans (applied_mono hl.credit hsys))

/-- The client applied everything that was emitted, and its credits have
arrived. -/
def AttachLink.Settled (s : AttachLink) : Prop :=
  s.client.isSome = true ∧ s.taken = s.sys.events.length ∧ s.credits = []

/-- A settled client is less than a stride behind. -/
theorem settled_open {s : AttachLink} (hl : LinkInv s) (hlanded : Landed s) (hs : s.Settled)
    (hbudget : ∀ policy ∈ s.sys.pump.credit, ackStrideBytes ≤ policy.budgetBytes + 1) :
    s.sys.pump.gateOpen s.sys.session.applied = true := by
  obtain ⟨hsome, htaken, hcredits⟩ := hs
  obtain ⟨c, hc⟩ := Option.isSome_iff_exists.mp hsome
  obtain ⟨init, hinit, hcursor, hdue⟩ := hl.attached c hc
  have hend : s.sys.pump.currentOffset = c.streamCursor.expected := by
    rw [hcursor, htaken, List.take_length]
    exact (hl.credit.inv.emitted init hinit).length hl.credit.inv.cursor
  have happlied : c.lastAcked ≤ s.sys.session.applied := by
    rcases hlanded c hc with hmem | hle
    · rw [hcredits] at hmem
      cases hmem
    · exact hle
  have hattached := hl.credit.attached init hinit
  refine gateOpen_iff.mpr fun policy hpolicy => ?_
  have := hbudget policy hpolicy
  rcases hdue with hdue | hdue
  · omega
  · rw [RunAttach.WithinStride] at hdue
    omega

/-- What the gate guarantees in a state a run of the pump reaches. -/
structure CreditGate (acts : List Act) (s : Sys) : Prop where
  /-- A chunk starts within the budget of what the client applied. -/
  emits : ∀ a t offset data, Pump.step s a = some t → t.events = s.events ++ [.chunk offset data] →
    offset = s.pump.currentOffset ∧ ∀ policy ∈ s.pump.credit, offset ≤ s.session.applied + policy.budgetBytes
  /-- That is no more than it acknowledged. -/
  acknowledged : ∀ init ∈ s.init,
    s.session.applied ≤ acknowledged init.endOffset (acts.flatMap Act.reported)
  unacknowledged : ∀ policy ∈ s.pump.credit, ∀ init ∈ s.init,
    s.pump.currentOffset ≤ s.session.applied + policy.budgetBytes + (lastFrame s.events).length
  monotone : ∀ a t, Pump.step s a = some t → s.session.applied ≤ t.session.applied
  waiting : s.pc = .top → ∀ more t, run Pump.step s more = some t →
    s.pump.gateOpen t.session.applied = false → Waited s t

theorem creditGate_run {modes : ModeSnapshot} {incarnation : Option ℕ} {acts : List Act} {s : Sys}
    (h : run Pump.step (Sys.start modes incarnation) acts = some s) : CreditGate acts s where
  emits := by
    intro a t offset data ht hevents
    have hc := creditInv_run h
    have hchunks : chunks t.events = chunks s.events ++ [(offset, data)] := by
      rw [hevents, chunks_append_singleton]
      rfl
    have hstands : chunks t.events ≠ chunks s.events := by
      rw [hchunks]
      simp
    rcases step_cases ht with ht | ht | ht
    · rw [(sessionStep_frame ht).events] at hstands
      exact absurd rfl hstands
    · rw [(subscribe_applied hc.inv ht).2.1] at hstands
      exact absurd rfl hstands
    · rcases next_stands hc.inv ht with hs | ⟨sent, hs⟩
      · exact absurd hs.chunks hstands
      · have hsame := hs.chunks.symm.trans hchunks
        have hoffset : s.pump.currentOffset = offset := by
          simpa using congrArg Prod.fst (List.append_inj_right' hsame rfl |> List.cons.inj).1
        rw [← hoffset]
        exact ⟨rfl, gateOpen_iff.mp (hc.within hs.passed)⟩
  acknowledged := applied_le_acknowledged h
  unacknowledged := fun policy hpolicy init hinit => (creditInv_run h).unacknowledged hpolicy hinit
  monotone := fun a t ht => applied_mono (creditInv_run h) ht
  waiting := fun hpc more t hrun hgate => waiting_run (creditInv_run h) hpc hrun hgate

/-- **The credit gate.** In every run of the pump, whatever reports reach it in
whatever order, a chunk starts within the budget of what was acknowledged, what
is not acknowledged is the budget and one frame at most, the applied cursor does
not move backwards, and waiting leaves the pump as it was. In every run of pump
and client whose credits find the runtime, a client that applied everything and
whose credits have arrived is not gated. -/
theorem credit_gate (modes : ModeSnapshot) (incarnation : Option ℕ) :
    (∀ acts s, run Pump.step (Sys.start modes incarnation) acts = some s → CreditGate acts s) ∧
    ∀ moves s, run AttachLink.step (.start modes incarnation) moves = some s →
      Meets AttachLink.step Lands (.start modes incarnation) moves → s.Settled →
      (∀ policy ∈ s.sys.pump.credit, ackStrideBytes ≤ policy.budgetBytes + 1) →
      s.sys.pump.gateOpen s.sys.session.applied = true := by
  refine ⟨fun acts s h => creditGate_run h, fun moves s h hlands hs hbudget => ?_⟩
  obtain ⟨hl, hlanded⟩ := run_invariant_of_meets (I := fun s => LinkInv s ∧ Landed s)
    (fun hi hlands hstep => ⟨linkInv_step hi.1 hstep, landed_step hi.1 hi.2 hlands hstep⟩) h hlands
    ⟨linkInv_start modes incarnation, fun _ h => nomatch h⟩
  exact settled_open hl hlanded hs hbudget

/-- `CreditPolicy::production`. -/
def productionPolicy : CreditPolicy := ⟨4 * 1024 * 1024⟩

/-- A chunk is sent, applied and reported twice. -/
def appliedMoves : List Move :=
  [.pump (.subscribe [] true (some productionPolicy)), .init, .pump (.read [1]), .pump .send, .pump .recv,
    .pump .tryRecv, .turn 1, .pump (.report 1), .pump (.report 1)]

theorem credit_gate_applied :
    ∃ s, run AttachLink.step (.start plainModes (some 1)) appliedMoves = some s ∧
      chunks s.sys.events = [(0, [1])] ∧ s.sys.pump.gateOpen s.sys.session.applied = true := by
  refine ⟨?s, ?reached, ?chunks, ?gate⟩
  case reached => rfl
  case chunks => rfl
  case gate =>
    refine (credit_gate plainModes (some 1)).2 appliedMoves _ rfl (by decide) ⟨rfl, rfl, rfl⟩ fun policy h => ?_
    cases h
    decide

/-! ### Credits that are dropped

A session writes nine frames' worth and exits, and is evicted before its client
reads them. Every frame is applied and acknowledged at once. -/

section Dropped

variable (d : Bytes)

/-- `n` reads, one after another from `offset` on. -/
def queuedReads : ℕ → ℕ → List SequencedChunk
  | 0, _ => []
  | n + 1, offset => ⟨offset, d⟩ :: queuedReads n (offset + d.length)

/-- The same read over and over. -/
def readBytes : ℕ → Bytes
  | 0 => []
  | n + 1 => d ++ readBytes n

variable {d}

theorem readBytes_length (n : ℕ) : (readBytes d n).length = n * d.length := by
  induction n with
  | zero => simp [readBytes]
  | succ n ih => rw [readBytes, List.length_append, ih]; ring

theorem run_pump : ∀ {acts : List Act} {s : AttachLink} {sys : Sys}, run Pump.step s.sys acts = some sys →
    run AttachLink.step s (acts.map .pump) = some { s with sys := sys }
  | [], s, sys, h => by
    cases h
    rfl
  | a :: acts, s, sys, h => by
    obtain ⟨m, hm, ht⟩ := run_cons h
    have hstep : AttachLink.step s (.pump a) = some { s with sys := m } := by
      rw [AttachLink.step, hm]
      rfl
    rw [List.map_cons, run_cons_of_step hstep]
    exact @run_pump acts { s with sys := m } sys ht

/-- The session reads and sends. -/
theorem reads_run (hd : d ≠ []) : ∀ (n : ℕ) {s : Sys}, s.session.inFlight = none →
    s.session.outputClosed = false → s.attached = true →
    run Pump.step s (List.replicate n [Act.read d, .send]).flatten = some { s with
      session := { s.session with stream := s.session.stream ++ readBytes d n }
      rx := { s.rx with queue := s.rx.queue ++ queuedReads d n s.session.stream.length } }
  | 0, s, _, _, _ => by
    simp only [List.replicate_zero, List.flatten_nil, run_nil, readBytes, queuedReads, List.append_nil]
  | n + 1, s, hflight, hopen, hattached => by
    have hread : Pump.step s (.read d) = some { s with session := { s.session with
        stream := s.session.stream ++ d
        inFlight := some ⟨s.session.stream.length, d⟩ } } := by
      simp [Pump.step, sessionStep, hopen, hflight, hd]
    have hsend : Pump.step { s with session := { s.session with
        stream := s.session.stream ++ d
        inFlight := some ⟨s.session.stream.length, d⟩ } } .send = some { s with
        session := { s.session with stream := s.session.stream ++ d, inFlight := none }
        rx := { s.rx with queue := s.rx.queue ++ [⟨s.session.stream.length, d⟩] } } := by
      have hat : ∀ session, Sys.attached { s with session := session } = true := fun _ => hattached
      simp only [Pump.step, sessionStep, hat, if_true]
      rfl
    rw [List.replicate_succ, List.flatten_cons, List.cons_append, List.cons_append, List.nil_append,
      run_cons_of_step hread, run_cons_of_step hsend, reads_run hd n]
    · simp only [readBytes, queuedReads, List.append_assoc, List.length_append, List.cons_append, List.nil_append,
        hflight]
    · rfl
    · exact hopen
    · exact hattached

/-- The pump coalesces what is queued into a full frame. -/
theorem coalesce_run (hd : 0 < d.length) (m : ℕ) : ∀ (j : ℕ) {s : Sys} {data : Bytes},
    s.pc = .coalescing data → s.rx.lagged = 0 → s.pump.sharedModes = false →
    s.rx.queue = queuedReads d (j + m) (s.pump.currentOffset + data.length) → data ≠ [] →
    data.length + j * d.length = maxCoalescedChunkBytes →
    run Pump.step s (List.replicate (j + 1) .tryRecv) = some { s with
      rx := { s.rx with queue := queuedReads d m (s.pump.currentOffset + maxCoalescedChunkBytes) }
      pump := { s.pump with currentOffset := s.pump.currentOffset + maxCoalescedChunkBytes }
      pc := .top
      events := s.events ++ [.chunk s.pump.currentOffset (data ++ readBytes d j)] }
  | 0, s, data, hpc, hlag, hmodes, hqueue, hne, hlen => by
    have hfull : ¬ data.length < maxCoalescedChunkBytes := by omega
    have hstep : Pump.step s .tryRecv = some (s.afterCoalesce s.pump data) := by
      simp only [Pump.step, sessionStep, subscribeStep, nextStep, Option.none_or, hpc, if_neg hfull]
    rw [Nat.zero_add, List.replicate_one, run_cons_of_step hstep, run_nil]
    have hlen' : data.length = maxCoalescedChunkBytes := by omega
    simp only [Sys.afterCoalesce, if_neg hne, AttachPump.forwarded, AttachPump.observeModes, hmodes, Sys.emit,
      Bool.false_and, Bool.false_eq_true, if_false, hlen', readBytes, List.append_nil]
    rw [Nat.zero_add, hlen'] at hqueue
    rw [← hqueue]
  | j + 1, s, data, hpc, hlag, hmodes, hqueue, hne, hlen => by
    have hless : data.length < maxCoalescedChunkBytes := by
      rw [Nat.add_mul, Nat.one_mul] at hlen
      omega
    have hrecv : s.rx.tryRecv = (.ok ⟨s.pump.currentOffset + data.length, d⟩, { s.rx with
        queue := queuedReads d (j + m) (s.pump.currentOffset + data.length + d.length) }) := by
      rw [Nat.add_right_comm] at hqueue
      rw [Receiver.tryRecv, if_neg (by rw [hlag]; exact lt_irrefl 0), hqueue]
      rfl
    have hstep : Pump.step s .tryRecv = some { s with
        rx := { s.rx with queue := queuedReads d (j + m) (s.pump.currentOffset + data.length + d.length) }
        pc := .coalescing (data ++ d) } := by
      simp only [Pump.step, sessionStep, subscribeStep, nextStep, Option.none_or, hpc, if_pos hless, hrecv,
        AttachPump.coalesce, lt_irrefl, if_false, Nat.sub_self, List.drop_zero]
    rw [List.replicate_succ, run_cons_of_step hstep, @coalesce_run hd m j _ (data ++ d)]
    · simp only [readBytes, List.append_assoc]
    · rfl
    · exact hlag
    · exact hmodes
    · rw [List.length_append, Nat.add_assoc]
    · exact List.append_ne_nil_of_left_ne_nil hne _
    · rw [List.length_append]
      rw [Nat.add_mul, Nat.one_mul] at hlen
      omega

/-- A full frame is sent. -/
theorem frame_run (hd : d.length = 64 * 1024) {s : Sys} (hat : s.atSelect = true) (hlag : s.rx.lagged = 0)
    (hmodes : s.pump.sharedModes = false) {m : ℕ} (hqueue : s.rx.queue = queuedReads d (8 + m) s.pump.currentOffset) :
    run Pump.step s (.recv :: List.replicate 8 .tryRecv) = some { s with
      rx := { s.rx with queue := queuedReads d m (s.pump.currentOffset + maxCoalescedChunkBytes) }
      pump := { s.pump with currentOffset := s.pump.currentOffset + maxCoalescedChunkBytes }
      events := s.events ++ [.chunk s.pump.currentOffset (readBytes d 8)] } := by
  have hrecv : s.rx.tryRecv = (.ok ⟨s.pump.currentOffset, d⟩, { s.rx with
      queue := queuedReads d (7 + m) (s.pump.currentOffset + d.length) }) := by
    rw [show 8 + m = 7 + m + 1 by omega] at hqueue
    rw [Receiver.tryRecv, if_neg (by rw [hlag]; exact lt_irrefl 0), hqueue]
    rfl
  have hstep : Pump.step s .recv = some { s with
      rx := { s.rx with queue := queuedReads d (7 + m) (s.pump.currentOffset + d.length) }
      pc := .coalescing d } := by
    simp only [Pump.step, sessionStep, subscribeStep, nextStep, Option.none_or, if_pos hat, hrecv,
      AttachPump.forwardChunk, lt_irrefl, false_and, if_false, Nat.sub_self, List.drop_zero, Sys.afterForward]
  have hpos : 0 < d.length := by omega
  rw [run_cons_of_step hstep, coalesce_run hpos m 7 rfl]
  · simp only [readBytes, Sys.atSelect_pc hat]
  · exact hlag
  · exact hmodes
  · rfl
  · exact List.ne_nil_of_length_pos hpos
  · rw [hd]
    rfl

variable (d)

/-- After `r` of the nine frames. -/
def evictedAt (r : ℕ) : AttachLink where
  sys := {
    session := {
      stream := readBytes d 72, inFlight := none, persisted := 0, modes := plainModes, running := false
      outputClosed := true, exitCode := some 0, live := false, incarnation := some 1, applied := 0 }
    rx := { queue := queuedReads d (8 * (9 - r)) (r * maxCoalescedChunkBytes), lagged := 0, closed := false }
    pump := .new false plainModes (r * maxCoalescedChunkBytes) (some productionPolicy)
    pc := .top
    init := some { data := [], endOffset := 0, running := true, modes := plainModes, incarnation := 1 }
    events := (List.range r).map fun k => .chunk (k * maxCoalescedChunkBytes) (readBytes d 8) }
  client := some {
    streamCursor := ⟨r * maxCoalescedChunkBytes⟩, lastAcked := r / 2 * ackStrideBytes, running := true
    streamError := none }
  taken := r
  credits := []

/-- The pump sends a frame, the client applies it, and a credit that is due is
delivered. -/
def frameRound (r : ℕ) : List Move :=
  ((.recv :: List.replicate 8 .tryRecv).map .pump) ++ .turn 1 :: (if (r + 1) % 2 = 0 then [.deliver 0] else [])

variable {d}

/-- A chunk at the cursor is applied, and acknowledged if a credit is due. -/
theorem turn_chunk {c : RunAttach} {data : Bytes} (hne : data ≠ []) :
    c.turn [.chunk c.streamCursor.expected data] =
      (({ c with streamCursor := ⟨c.streamCursor.expected + data.length⟩ } : RunAttach).maybeSendAck.1,
        ({ c with streamCursor := ⟨c.streamCursor.expected + data.length⟩ } : RunAttach).maybeSendAck.2, []) := by
  have haccept : c.streamCursor.accept c.streamCursor.expected data.length =
      .ok ⟨c.streamCursor.expected + data.length⟩ := by
    rw [StreamCursor.accept, if_neg (not_not.mpr rfl)]
  have hdrain : c.drain [] [.chunk c.streamCursor.expected data] =
      ({ c with streamCursor := ⟨c.streamCursor.expected + data.length⟩ }, data, []) := by
    simp only [RunAttach.drain, RunAttach.frame, haccept, List.nil_append]
    split <;> rfl
  rw [RunAttach.turn_full (by rw [hdrain]; simpa using hne), hdrain]

theorem turn_step {s : AttachLink} {c c' : RunAttach} {queued : ℕ} {credits : List ℕ} (hc : s.client = some c)
    (hrunning : c.running = true) (hqueued : 0 < queued ∧ s.taken + queued ≤ s.sys.events.length)
    (hturn : c.turn ((s.sys.events.drop s.taken).take queued) = (c', credits, [])) :
    s.step (.turn queued) = some { s with
      client := some c', taken := s.taken + queued, credits := s.credits ++ credits } := by
  simp only [AttachLink.step, hc, hrunning, hqueued, hturn, Bool.true_and, decide_true, if_true, and_self,
    List.length_nil, Nat.sub_zero]

theorem round_run (hd : d.length = 64 * 1024) {r : ℕ} (hr : r < 9) :
    run AttachLink.step (evictedAt d r) (frameRound r) = some (evictedAt d (r + 1)) := by
  have hmax : maxCoalescedChunkBytes = 524288 := rfl
  have hstride : ackStrideBytes = 1048576 := rfl
  have hdata : (readBytes d 8).length = maxCoalescedChunkBytes := by
    rw [readBytes_length, hd]
    rfl
  have hframe : run Pump.step (evictedAt d r).sys (.recv :: List.replicate 8 .tryRecv) =
      some (evictedAt d (r + 1)).sys := by
    rw [@frame_run d hd (evictedAt d r).sys _ rfl rfl (8 * (9 - (r + 1)))]
    · simp only [evictedAt, AttachPump.new, List.range_succ, List.map_append, List.map_cons, List.map_nil,
        Nat.add_mul, Nat.one_mul]
    · show queuedReads d (8 * (9 - r)) _ = _
      rw [show 8 * (9 - r) = 8 + 8 * (9 - (r + 1)) by omega]
      rfl
    · -- the cursor is within the budget of the attach offset
      simp only [evictedAt, AttachPump.new, Sys.atSelect, Sys.atResync, Sys.atHead, AttachPump.gateOpen,
        productionPolicy, hmax]
      simp
      omega
  have hqueued : ((evictedAt d (r + 1)).sys.events.drop r).take 1 =
      [.chunk (r * maxCoalescedChunkBytes) (readBytes d 8)] := by
    show (List.take 1 (List.drop r (List.map _ (List.range (r + 1))))) = _
    rw [List.range_succ, List.map_append, List.drop_left' (by simp)]
    rfl
  have hturn : AttachLink.step { evictedAt d r with sys := (evictedAt d (r + 1)).sys } (.turn 1) =
      some { evictedAt d (r + 1) with
        credits := if (r + 1) % 2 = 0 then [(r + 1) * maxCoalescedChunkBytes] else [] } := by
    have hne : readBytes d 8 ≠ [] := List.ne_nil_of_length_pos (by rw [hdata]; decide)
    have hclient := @turn_chunk ⟨⟨r * maxCoalescedChunkBytes⟩, r / 2 * ackStrideBytes, true, none⟩ _ hne
    rw [turn_step rfl rfl ⟨Nat.one_pos, by simp [evictedAt]⟩ ((congrArg _ hqueued).trans hclient)]
    rw [hdata, RunAttach.maybeSendAck]
    simp only [StreamCursor.current, evictedAt, ← Nat.succ_mul, hmax, hstride]
    by_cases heven : (r + 1) % 2 = 0
    · -- two frames make a stride
      rw [if_pos (by omega), if_pos heven]
      simp only [List.nil_append, Option.some.injEq, AttachLink.mk.injEq, RunAttach.mk.injEq, true_and, and_true]
      omega
    · rw [if_neg (by omega), if_neg heven]
      simp only [List.nil_append, Option.some.injEq, AttachLink.mk.injEq, RunAttach.mk.injEq, true_and, and_true]
      omega
  rw [frameRound, run_append, run_pump hframe, Option.bind_some, run_cons_of_step hturn]
  by_cases heven : (r + 1) % 2 = 0
  · rw [if_pos heven, if_pos heven]
    rfl
  · rw [if_neg heven, if_neg heven]
    rfl

theorem rounds_run (hd : d.length = 64 * 1024) : ∀ {r : ℕ}, r ≤ 9 →
    run AttachLink.step (evictedAt d 0) ((List.range r).flatMap frameRound) = some (evictedAt d r)
  | 0, _ => rfl
  | r + 1, hr => by
    rw [List.range_succ, List.flatMap_append, run_append, rounds_run hd (by omega), Option.bind_some,
      List.flatMap_singleton]
    exact round_run hd hr

variable (d)

/-- The client attaches, the session writes, exits and is evicted. -/
def evictedMoves : List Move :=
  .pump (.subscribe [] false (some productionPolicy)) :: .init ::
    ((List.replicate 72 [Act.read d, .send]).flatten.map .pump ++
      [.pump (.exit (some 0)), .pump .closeOutput, .pump .evict])

variable {d}

theorem evicted_run (hd : d ≠ []) :
    run AttachLink.step (.start plainModes (some 1)) (evictedMoves d) = some (evictedAt d 0) := by
  have hreads := reads_run hd 72 (s := (Sys.start plainModes (some 1)).attach [] 0 false (some productionPolicy))
    rfl rfl rfl
  rw [evictedMoves, run_cons_of_step rfl, run_cons_of_step rfl, run_append, run_pump hreads, Option.bind_some]
  rfl

end Dropped

/-- What a read of the pseudo-terminal returns at most. -/
def fullRead : Bytes := List.replicate (64 * 1024) 97

/-- The client applied and acknowledged every byte, and stands at a closed
gate: the session was evicted before. -/
theorem credits_dropped :
    ¬ ∀ moves s, run AttachLink.step (.start plainModes (some 1)) moves = some s →
      s.sys.pump.credit = some productionPolicy → s.Settled →
      s.sys.pump.gateOpen s.sys.session.applied = true := by
  intro h
  have hd : fullRead.length = 64 * 1024 := List.length_replicate
  have hne : fullRead ≠ [] := List.ne_nil_of_length_pos (by rw [hd]; decide)
  have hrun : run AttachLink.step (.start plainModes (some 1))
      (evictedMoves fullRead ++ (List.range 9).flatMap frameRound) = some (evictedAt fullRead 9) := by
    rw [run_append, evicted_run hne, Option.bind_some, rounds_run hd le_rfl]
  have hopen := h _ _ hrun rfl ⟨rfl, by simp [evictedAt], rfl⟩
  rw [gateOpen_iff] at hopen
  exact absurd (hopen productionPolicy rfl) (by decide)

end Client
end OpenRelay
