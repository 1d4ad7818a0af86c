/-
# A relayed attach stream

A client attaches to a session of another node through the node's daemon, which
opens an attach stream to itself and forwards it (`relay_streaming_rpc` in
`daemon/rpc_nodes.rs`). One loop waits for the client's messages and for the
stream at once: a message that comes first cancels the read of a frame, and the
bytes the read has taken are gone with it.

`step` interleaves the owning daemon's writes, the arrival of their bytes in any
fragments, the reads, and the client's messages. In a run in which no message
finds a read that has begun, and the stream has only what the reader takes, every
frame is forwarded (`relay_intact`).

Key theorem: `inv_step`.
-/
import OpenRelay.Ipc.Line

namespace OpenRelay
namespace Ipc

open Chunks Runs

/-- What the owning daemon writes: the first response as a line, the others as
frames. -/
inductive Sent where
  | line (response : RpcResponse)
  | frame (f : AttachFrame)
  deriving DecidableEq, Repr

/-- The response that the relay forwards for a frame. -/
def AttachFrame.response : AttachFrame → RpcResponse
  | output offset data => .attachStreamChunk offset data
  | control response => response

namespace Sent

/-- What is said, as a line or as a frame. -/
def response : Sent → RpcResponse
  | line response => response
  | frame f => f.response

/-- The bytes, if it can be written. -/
def write : Sent → Option Bytes
  | line response => some (encodeFrame response)
  | frame f => f.write

/-- What is on the wire of it. -/
def bytes (w : Sent) : Bytes := w.write.getD []

end Sent

def RpcResponse.isInit : RpcResponse → Bool
  | attachStreamInit _ _ _ _ => true
  | _ => false

/-- The response that says what went wrong. -/
def RpcResponse.isError : RpcResponse → Bool
  | error _ => true
  | _ => false

/-- The relay's last response. -/
def RpcResponse.isDone : RpcResponse → Bool
  | attachStreamDone _ _ => true
  | error _ => true
  | _ => false

/-- The owning daemon writes nothing after this. An error among the frames is a
notice. -/
def Sent.endsStream : Sent → Bool
  | line response => !response.isInit
  | frame (.control (.attachStreamDone _ _)) => true
  | frame _ => false

/-- What the owning daemon may write next: an init or an error, then frames. -/
def canWrite : List Sent → Sent → Bool
  | [], .line response => response.isInit || response.isError
  | [], .frame _ => false
  | _ :: _, .line _ => false
  | w :: ws, .frame _ => !(w :: ws).any Sent.endsStream

/-- Offsets are 64-bit, and a notice is no giant. -/
def Sent.inRange : Sent → Bool
  | frame (.output offset _) => decide (offset < 2 ^ 64)
  | frame (.control response) => decide (response.toVec.length < 2 ^ 32)
  | line _ => true

/-- The relay between the owner of a session and a client, with the bytes between. -/
structure Relay where
  /-- The client's messages are still taken. -/
  msgsOpen : Bool
  /-- The init has been read: frames follow. -/
  streamBinary : Bool
  /-- What the read has taken of the next line or frame. -/
  held : Bytes
  /-- What has come and is not read. -/
  avail : Bytes
  /-- What was written and has not come. -/
  transit : Bytes
  /-- The owning daemon has closed the stream. -/
  ownerClosed : Bool
  written : List Sent
  /-- Each with whether it is the last one. -/
  forwarded : List (RpcResponse × Bool)
  /-- Why the stream was interrupted; the primary is told. -/
  interrupted : Option ReadError
  ended : Bool
  deriving DecidableEq, Repr

namespace Relay

/-- Nothing has been written, and the init is waited for. -/
def start : Relay where
  msgsOpen := true
  streamBinary := false
  held := []
  avail := []
  transit := []
  ownerClosed := false
  written := []
  forwarded := []
  interrupted := none
  ended := false

/-- What may happen next. -/
inductive Action where
  | write (w : Sent)
  | closeOwner
  /-- So many bytes come. -/
  | arrive (n : ℕ)
  /-- The read goes on. -/
  | poll
  /-- A message of the client, and whether it could be passed on. -/
  | message (detach wrote : Bool)
  /-- The primary is gone. -/
  | messagesClosed
  deriving DecidableEq, Repr

/-- The relay has read a response, or the read has failed. -/
def forward (s : Relay) : Except ReadError RpcResponse → Relay
  | .ok response => { s with
      streamBinary := s.streamBinary || response.isInit
      forwarded := s.forwarded ++ [(response, response.isDone)]
      ended := response.isDone }
  | .error e => { s with interrupted := some e, ended := true }

section Steps

variable (fromSlice : Bytes → Except Bytes RpcResponse) (fromStr : Bytes → Except Bytes (ℕ × RpcResponse))

/-- The next read: a line, or a frame. -/
def read (binary : Bool) (s : Bytes) : Option (Except ReadError RpcResponse × ℕ) :=
  if binary then (readAttachFrame fromSlice s).map fun r => (r.1.map AttachFrame.response, r.2)
  else readResponse fromStr s

/-- What the end of the stream comes to in the middle of a line or a frame. -/
def readEof (binary : Bool) (s : Bytes) : Except ReadError RpcResponse :=
  if binary then .error (readAtEof s) else readResponseAtEof fromStr s

def step (s : Relay) : Action → Option Relay
  | .write w =>
    if s.ownerClosed || !canWrite s.written w || !w.inRange || w.write.isNone then none
    else some { s with written := s.written ++ [w], transit := s.transit ++ w.bytes }
  | .closeOwner => some { s with ownerClosed := true }
  | .arrive n =>
    if n ≤ s.transit.length then
      some { s with avail := s.avail ++ s.transit.take n, transit := s.transit.drop n }
    else none
  | .poll =>
    if s.ended then none
    else
      match read fromSlice fromStr s.streamBinary (s.held ++ s.avail) with
      | some (item, n) => some ({ s with held := [], avail := (s.held ++ s.avail).drop n }.forward item)
      | none =>
        if s.ownerClosed && s.transit.isEmpty then
          some (s.forward (readEof fromStr s.streamBinary (s.held ++ s.avail)))
        else some { s with held := s.held ++ s.avail, avail := [] }
  | .message detach wrote =>
    if s.ended || !s.msgsOpen then none
    -- the read is dropped, with what it holds
    else if wrote then some { s with held := [], msgsOpen := !detach }
    else some { s with held := [], ended := true }
  | .messagesClosed =>
    if s.ended || !s.msgsOpen then none
    else some { s with held := [], msgsOpen := false }

end Steps

end Relay

/-! ### Frames that survive -/

/-- What the relay forwards for what was written. -/
def expected (written : List Sent) : List (RpcResponse × Bool) :=
  written.map fun w => (w.response, w.response.isDone)

/-- No message of the client finds a read that has begun, and each can be passed on;
and what is written is what the reader takes: a line and chunks within their caps,
and no notice of an error. -/
def KeepsFrames (s : Relay) : Relay.Action → Prop
  | .message _ wrote => s.held = [] ∧ wrote = true
  | .messagesClosed => s.held = []
  | .write (.line response) => (encodeFrame response).length ≤ maxIpcLineBytes
  | .write (.frame (.output _ data)) => data.length ≤ 1024 * 1024
  | .write (.frame (.control response)) => response.isError = false
  | .closeOwner | .arrive _ | .poll => True

/-- **Every frame is forwarded**, in order; none is lost, cut off or misread. -/
structure Intact (fromSlice : Bytes → Except Bytes RpcResponse) (fromStr : Bytes → Except Bytes (ℕ × RpcResponse))
    (s : Relay) : Prop where
  sofar : s.forwarded <+: expected s.written
  /-- The relay ends with the frame that ends the stream, or behind all of them. -/
  whole : s.ended = true → s.forwarded = expected s.written
  /-- An interruption is only reported where the stream was closed without an end. -/
  sound : s.interrupted.isSome = true → s.ownerClosed = true ∧ ∀ w ∈ s.written, w.endsStream = false
  /-- When all that was written has come, the next read forwards the next frame. -/
  goesOn : s.ended = false → s.transit = [] → s.forwarded ≠ expected s.written →
    ∃ t, s.step fromSlice fromStr .poll = some t ∧ ∃ r, t.forwarded = s.forwarded ++ [r] ∧ t.forwarded <+: expected s.written

/-! ### What is read of what was written -/

section Reading

variable {fromSlice : Bytes → Except Bytes RpcResponse} {fromStr : Bytes → Except Bytes (ℕ × RpcResponse)}

/-- `serde_json` reads what it wrote. -/
def Sent.Decodes (fromSlice : Bytes → Except Bytes RpcResponse) (fromStr : Bytes → Except Bytes (ℕ × RpcResponse)) :
    Sent → Prop
  | line response => fromStr (encodeFrame response) = .ok (protocolVersion, response)
  | frame (.control response) => fromSlice response.toVec = .ok response
  | frame (.output _ _) => True

def Sent.isFrame : Sent → Bool
  | line _ => false
  | frame _ => true

/-- The reader takes this, and does not take it for an end where it is none. -/
structure Sent.Readable (fromSlice : Bytes → Except Bytes RpcResponse)
    (fromStr : Bytes → Except Bytes (ℕ × RpcResponse)) (w : Sent) : Prop where
  next : ∀ rest, Relay.read fromSlice fromStr w.isFrame (w.bytes ++ rest) = some (.ok w.response, w.bytes.length)
  done : w.response.isDone = true → w.endsStream = true

theorem readable_line {response : RpcResponse} (hlen : (encodeFrame response).length ≤ maxIpcLineBytes)
    (hinit : response.isInit || response.isError)
    (hserde : (Sent.line response).Decodes fromSlice fromStr) : (Sent.line response).Readable fromSlice fromStr := by
  refine ⟨fun rest => ?_, fun hdone => ?_⟩
  · exact next_encodeFrame fromStr hlen hserde rest
  · show (!response.isInit) = true
    cases response with
    | attachStreamInit => cases hdone
    | _ => rfl

theorem readable_frame {f : AttachFrame} (h : f.Readable fromSlice) (herror : f.response.isError = false) :
    (Sent.frame f).Readable fromSlice fromStr := by
  obtain ⟨bytes, hwrite, hnext⟩ := next_write h
  have hbytes : (Sent.frame f).bytes = bytes := by
    show f.write.getD [] = bytes
    rw [hwrite]
    rfl
  refine ⟨fun rest => ?_, fun hdone => ?_⟩
  · have hread := hnext rest
    rw [attachReader_next] at hread
    rw [hbytes, Relay.read, if_pos (show (Sent.frame f).isFrame = true from rfl), hread]
    rfl
  · cases f with
    | output => cases hdone
    | control response =>
      cases response with
      | attachStreamDone => rfl
      | error => cases herror
      | _ => cases hdone

/-- What a read takes does not depend on what follows. -/
theorem read_some {binary : Bool} {s : Bytes} {item : Except ReadError RpcResponse} {n : ℕ}
    (h : Relay.read fromSlice fromStr binary s = some (item, n)) :
    n ≤ s.length ∧ ∀ t, Relay.read fromSlice fromStr binary (s ++ t) = some (item, n) := by
  unfold Relay.read at h ⊢
  split at h
  · rename_i hbinary
    obtain ⟨⟨r, n'⟩, hr, heq⟩ := Option.map_eq_some_iff.mp h
    cases heq
    obtain ⟨-, hle, hmore⟩ := readAttachFrame_some fromSlice hr
    exact ⟨hle, fun t => by rw [if_pos hbinary, hmore t]; rfl⟩
  · rename_i hbinary
    obtain ⟨-, hle, hmore⟩ := readResponse_some fromStr h
    exact ⟨hle, fun t => by rw [if_neg hbinary]; exact hmore t⟩

theorem read_nil (binary : Bool) : Relay.read fromSlice fromStr binary [] = none := by
  cases binary <;> rfl

end Reading

/-! ### What the owning daemon writes -/

/-- A line, then frames, and nothing behind an end. -/
structure WellFormed (ws : List Sent) : Prop where
  kind : ∀ pre w post, ws = pre ++ w :: post → w.isFrame = !pre.isEmpty
  first : ∀ response, ws.head? = some (.line response) → (response.isInit || response.isError) = true
  quiet : ∀ pre w post, ws = pre ++ w :: post → w.endsStream = true → post = []

theorem not_any_of_canWrite {ws : List Sent} {w : Sent} (h : canWrite ws w = true) : ws.any Sent.endsStream = false := by
  cases ws with
  | nil => rfl
  | cons w' ws =>
    cases w with
    | line => cases h
    | frame => simpa [canWrite] using h

theorem WellFormed.snoc {ws : List Sent} {w : Sent} (h : WellFormed ws) (hw : canWrite ws w = true) :
    WellFormed (ws ++ [w]) := by
  have hnone := not_any_of_canWrite hw
  refine ⟨fun pre w' post heq => ?_, fun response hfirst => ?_, fun pre w' post heq hends => ?_⟩
  · rcases Streams.snoc_cases heq with ⟨rfl, rfl, -⟩ | ⟨post', hws, -⟩
    · cases pre with
      | nil =>
        cases w' with
        | line => rfl
        | frame => cases hw
      | cons w'' pre =>
        cases w' with
        | line => cases hw
        | frame => rfl
    · exact h.kind pre w' post' hws
  · cases ws with
    | nil =>
      cases hfirst
      exact hw
    | cons w' ws => exact h.first response hfirst
  · rcases Streams.snoc_cases heq with ⟨-, -, rfl⟩ | ⟨post', hws, -⟩
    · rfl
    · rw [List.any_eq_false] at hnone
      exact absurd hends (hnone w' (by rw [hws]; exact List.mem_append_right _ List.mem_cons_self))

/-! ### The invariant -/

/-- What has been forwarded, and what is still on its way. -/
structure Progress (s : Relay) (sent rest : List Sent) : Prop where
  split : s.written = sent ++ rest
  forwarded : s.forwarded = expected sent
  finished : s.ended = true → rest = []
  unread : s.ended = false → s.held ++ s.avail ++ s.transit = rest.flatMap Sent.bytes
  binary : s.ended = false → s.streamBinary = !sent.isEmpty
  open_ : s.ended = false → ∀ w ∈ sent, w.endsStream = false

/-- What holds of the relay all along. -/
structure Inv (fromSlice : Bytes → Except Bytes RpcResponse) (fromStr : Bytes → Except Bytes (ℕ × RpcResponse))
    (s : Relay) : Prop where
  wellFormed : WellFormed s.written
  readable : ∀ w ∈ s.written, w.Readable fromSlice fromStr
  progress : ∃ sent rest, Progress s sent rest
  waits : s.ended = false → Relay.read fromSlice fromStr s.streamBinary s.held = none
  stopped : s.ended = true → s.ownerClosed = true ∨ s.written.any Sent.endsStream = true
  sound : s.interrupted.isSome = true → s.ownerClosed = true ∧ ∀ w ∈ s.written, w.endsStream = false

section Steps

open Relay

variable {fromSlice : Bytes → Except Bytes RpcResponse} {fromStr : Bytes → Except Bytes (ℕ × RpcResponse)} {s t : Relay}

theorem inv_start : Inv fromSlice fromStr Relay.start where
  wellFormed := ⟨fun pre w post h => by simp [Relay.start] at h, nofun, fun pre w post h => by simp [Relay.start] at h⟩
  readable := nofun
  progress := ⟨[], [], rfl, rfl, fun _ => rfl, fun _ => rfl, fun _ => rfl, fun _ => nofun⟩
  waits := fun _ => read_nil _
  stopped := nofun
  sound := nofun

/-- **What the next read finds.** -/
theorem Inv.read_eq (h : Inv fromSlice fromStr s) {sent rest : List Sent} (hp : Progress s sent rest)
    (hopen : s.ended = false) {w : Sent} (hrest : rest.head? = some w) :
    Relay.read fromSlice fromStr s.streamBinary (s.held ++ s.avail ++ s.transit) =
      some (.ok w.response, w.bytes.length) := by
  obtain ⟨more, rfl⟩ : ∃ more, rest = w :: more := by
    cases rest with
    | nil => cases hrest
    | cons w' more =>
      cases hrest
      exact ⟨more, rfl⟩
  have hkind := h.wellFormed.kind sent w more hp.split
  have hmem : w ∈ s.written := by
    rw [hp.split]
    exact List.mem_append_right _ List.mem_cons_self
  rw [hp.binary hopen, ← hkind, hp.unread hopen, List.flatMap_cons]
  exact (h.readable w hmem).next _

/-- The read has come to a response. -/
theorem Inv.forwarded (h : Inv fromSlice fromStr s) {sent rest : List Sent} (hp : Progress s sent rest)
    (hopen : s.ended = false) {item : Except ReadError RpcResponse} {n : ℕ}
    (hread : Relay.read fromSlice fromStr s.streamBinary (s.held ++ s.avail) = some (item, n)) :
    ∃ w more, rest = w :: more ∧
      Progress ({ s with held := [], avail := (s.held ++ s.avail).drop n }.forward item) (sent ++ [w]) more ∧
      Inv fromSlice fromStr ({ s with held := [], avail := (s.held ++ s.avail).drop n }.forward item) := by
  obtain ⟨hle, hmore⟩ := read_some hread
  obtain ⟨w, more, rfl⟩ : ∃ w more, rest = w :: more := by
    cases rest with
    | nil =>
      -- there is nothing to read
      have hnil := hp.unread hopen
      rw [List.flatMap_nil, List.append_eq_nil_iff] at hnil
      rw [hnil.1, read_nil] at hread
      cases hread
    | cons w more => exact ⟨w, more, rfl⟩
  have heq := (hmore s.transit).symm.trans (h.read_eq hp hopen rfl)
  obtain ⟨rfl, rfl⟩ : item = .ok w.response ∧ n = w.bytes.length := by
    simpa only [Option.some.injEq, Prod.mk.injEq] using heq
  have hmem : w ∈ s.written := by
    rw [hp.split]
    exact List.mem_append_right _ List.mem_cons_self
  have hunread : (s.held ++ s.avail).drop w.bytes.length ++ s.transit = more.flatMap Sent.bytes := by
    have hall := hp.unread hopen
    rw [List.flatMap_cons] at hall
    rw [← List.drop_append_of_le_length hle, hall, List.drop_left]
  have hsplit : s.written = (sent ++ [w]) ++ more := by rw [hp.split, List.append_assoc]; rfl
  -- where the relay goes on, the stream does
  have hends : w.response.isDone = false → w.endsStream = false ∧
      (s.streamBinary || w.response.isInit) = !(sent ++ [w]).isEmpty := by
    intro hdone
    have hkind := h.wellFormed.kind sent w more hp.split
    have hnil : (sent ++ [w]).isEmpty = false := by simp
    rw [hnil, hp.binary hopen, ← hkind]
    cases w with
    | frame f =>
      refine ⟨?_, rfl⟩
      cases f with
      | output => rfl
      | control response =>
        cases response with
        | attachStreamDone => cases hdone
        | _ => rfl
    | line response =>
      have hfirst : (response.isInit || response.isError) = true := by
        cases sent with
        | nil => exact h.wellFormed.first response (by rw [hp.split]; rfl)
        | cons => cases hkind
      cases response with
      | attachStreamInit => exact ⟨rfl, rfl⟩
      | error => cases hdone
      | _ => cases hfirst
  have hprogress : Progress ({ s with held := [], avail := (s.held ++ s.avail).drop w.bytes.length }.forward
      (.ok w.response)) (sent ++ [w]) more := by
    refine ⟨hsplit, ?_, fun hdone => ?_, fun _ => hunread, fun hdone => (hends hdone).2, fun hdone w' hw' => ?_⟩
    · show s.forwarded ++ _ = expected (sent ++ [w])
      rw [hp.forwarded, expected, expected, List.map_append]
      rfl
    · exact h.wellFormed.quiet sent w more hp.split ((h.readable w hmem).done hdone)
    · rcases List.mem_append.mp hw' with hw' | hw'
      · exact hp.open_ hopen w' hw'
      · rw [List.mem_singleton.mp hw']
        exact (hends hdone).1
  refine ⟨w, more, rfl, hprogress, h.wellFormed, h.readable, ⟨_, _, hprogress⟩, fun _ => read_nil _, fun hdone => ?_,
    h.sound⟩
  exact .inr (List.any_eq_true.mpr ⟨w, hmem, (h.readable w hmem).done hdone⟩)

/-- **One step** of a run that keeps its frames. -/
theorem inv_step {action : Relay.Action} (h : Inv fromSlice fromStr s) (hkeep : KeepsFrames s action)
    (hdecodes : ∀ w ∈ t.written, w.Decodes fromSlice fromStr) (hstep : s.step fromSlice fromStr action = some t) :
    Inv fromSlice fromStr t := by
  obtain ⟨sent, rest, hp⟩ := h.progress
  -- a message that finds no read begun
  have hmessage : ∀ {msgsOpen : Bool}, s.held = [] →
      Inv fromSlice fromStr { s with held := [], msgsOpen := msgsOpen } := by
    intro msgsOpen hheld
    refine ⟨h.wellFormed, h.readable, ⟨sent, rest, hp.split, hp.forwarded, hp.finished, fun hopen => ?_, hp.binary, hp.open_⟩,
      fun _ => read_nil _, h.stopped, h.sound⟩
    have hunread := hp.unread hopen
    rwa [hheld] at hunread
  cases action with
  | write w =>
    simp only [step, Option.ite_none_left_eq_some, Option.some.injEq] at hstep
    obtain ⟨hguard, rfl⟩ := hstep
    simp only [Bool.or_eq_true, Bool.not_eq_true', not_or, Bool.not_eq_true, Bool.not_eq_false] at hguard
    obtain ⟨⟨⟨hclosed, hcan⟩, hrange⟩, hwrite⟩ := hguard
    have hnone := not_any_of_canWrite hcan
    have hopen : s.ended = false := by
      by_contra hended
      rcases h.stopped (Bool.not_eq_false _ ▸ hended) with hc | hany
      · rw [hc] at hclosed
        cases hclosed
      · rw [hany] at hnone
        cases hnone
    have hnew : w.Readable fromSlice fromStr := by
      have hdecode := hdecodes w (List.mem_append_right _ List.mem_cons_self)
      cases w with
      | line response =>
        refine readable_line hkeep ?_ hdecode
        rcases hwritten : s.written with _ | ⟨w', ws⟩ <;> rw [hwritten] at hcan
        · exact hcan
        · cases hcan
      | frame f =>
        cases f with
        | output offset data => exact readable_frame ⟨of_decide_eq_true hrange, hkeep⟩ rfl
        | control response =>
          have hlt : response.toVec.length < 2 ^ 32 := of_decide_eq_true hrange
          refine readable_frame ⟨?_, hdecode⟩ hkeep
          by_contra hlong
          simp only [Sent.write, AttachFrame.write, writeAttachControlFrame, Nat.mod_eq_of_lt hlt,
            if_pos (Nat.lt_of_not_le hlong), Option.isNone_none, Bool.true_eq_false] at hwrite
    refine ⟨h.wellFormed.snoc hcan, fun w' hw' => ?_, ⟨sent, rest ++ [w], ?_, hp.forwarded, fun hended => ?_, fun _ => ?_,
      hp.binary, hp.open_⟩, h.waits, fun hended => ?_, fun hi => ?_⟩
    · rcases List.mem_append.mp hw' with hw' | hw'
      · exact h.readable w' hw'
      · rw [List.mem_singleton.mp hw']
        exact hnew
    · show s.written ++ [w] = _
      rw [hp.split, List.append_assoc]
    · cases hopen.symm.trans hended
    · show s.held ++ s.avail ++ (s.transit ++ w.bytes) = _
      rw [← List.append_assoc, hp.unread hopen, List.flatMap_append, List.flatMap_cons, List.flatMap_nil, List.append_nil]
    · cases hopen.symm.trans hended
    · cases hclosed.symm.trans (h.sound hi).1
  | closeOwner =>
    cases hstep
    exact ⟨h.wellFormed, h.readable, ⟨sent, rest, hp.split, hp.forwarded, hp.finished, hp.unread, hp.binary, hp.open_⟩,
      h.waits, fun _ => .inl rfl, fun hi => ⟨rfl, (h.sound hi).2⟩⟩
  | arrive n =>
    simp only [step, Runs.guarded] at hstep
    obtain ⟨hn, rfl⟩ := hstep
    refine ⟨h.wellFormed, h.readable, ⟨sent, rest, hp.split, hp.forwarded, hp.finished, fun hopen => ?_, hp.binary, hp.open_⟩,
      h.waits, h.stopped, h.sound⟩
    show s.held ++ (s.avail ++ s.transit.take n) ++ s.transit.drop n = _
    rw [← hp.unread hopen, ← List.append_assoc, List.append_assoc, List.take_append_drop]
  | poll =>
    simp only [step, Option.ite_none_left_eq_some, Bool.not_eq_true] at hstep
    obtain ⟨hopen, hstep⟩ := hstep
    split at hstep
    · rename_i item n hread
      cases hstep
      obtain ⟨w, more, -, -, hinv⟩ := h.forwarded hp hopen hread
      exact hinv
    · rename_i hread
      split at hstep
      · -- the stream has ended, and everything was read
        rename_i hend
        rw [Bool.and_eq_true, List.isEmpty_iff] at hend
        have hunread := hp.unread hopen
        have hrest : rest = [] := by
          rcases hw : rest.head? with _ | w
          · exact List.head?_eq_none_iff.mp hw
          · have hnext := h.read_eq hp hopen hw
            rw [hend.2, List.append_nil, hread] at hnext
            cases hnext
        rw [hrest, List.flatMap_nil, hend.2, List.append_nil] at hunread
        have heof : readEof fromStr s.streamBinary (s.held ++ s.avail) = .error .closed := by
          rw [hunread]
          cases s.streamBinary <;> rfl
        rw [heof] at hstep
        cases hstep
        have hall : ∀ w ∈ s.written, w.endsStream = false := by
          rw [hp.split, hrest, List.append_nil]
          exact hp.open_ hopen
        exact ⟨h.wellFormed, h.readable, ⟨sent, rest, hp.split, hp.forwarded, fun _ => hrest, fun h => (by cases h), fun h => (by cases h),
          fun h => by cases h⟩, fun h => (by cases h),
          fun _ => .inl hend.1, fun _ => ⟨hend.1, hall⟩⟩
      · cases hstep
        refine ⟨h.wellFormed, h.readable, ⟨sent, rest, hp.split, hp.forwarded, hp.finished, fun _ => ?_, hp.binary, hp.open_⟩,
          fun _ => hread, h.stopped, h.sound⟩
        show s.held ++ s.avail ++ [] ++ s.transit = _
        rw [List.append_nil, hp.unread hopen]
  | message detach wrote =>
    obtain ⟨hheld, rfl⟩ := hkeep
    simp only [step, Option.ite_none_left_eq_some, if_true, Option.some.injEq] at hstep
    obtain ⟨-, rfl⟩ := hstep
    exact hmessage hheld
  | messagesClosed =>
    simp only [step, Option.ite_none_left_eq_some, Option.some.injEq] at hstep
    obtain ⟨-, rfl⟩ := hstep
    exact hmessage hkeep

/-- The frames are intact where the invariant holds. -/
theorem Inv.intact (h : Inv fromSlice fromStr s) : Intact fromSlice fromStr s := by
  obtain ⟨sent, rest, hp⟩ := h.progress
  have hexpected : expected s.written = s.forwarded ++ expected rest := by
    rw [hp.split, hp.forwarded, expected, List.map_append]
    rfl
  refine ⟨⟨_, hexpected.symm⟩, fun hended => ?_, h.sound, fun hopen htransit hne => ?_⟩
  · rw [hexpected, hp.finished hended]
    exact (List.append_nil _).symm
  · obtain ⟨w, hw⟩ : ∃ w, rest.head? = some w := by
      rcases hw : rest.head? with _ | w
      · rw [List.head?_eq_none_iff.mp hw] at hexpected
        exact absurd (by rw [hexpected]; exact (List.append_nil _).symm) hne
      · exact ⟨w, rfl⟩
    have hread := h.read_eq hp hopen hw
    rw [htransit, List.append_nil] at hread
    obtain ⟨w', more, rfl, hprogress, -⟩ := h.forwarded hp hopen hread
    cases hw
    refine ⟨{ s with held := [], avail := (s.held ++ s.avail).drop w.bytes.length }.forward (.ok w.response), ?_,
      (w.response, w.response.isDone), rfl, ?_⟩
    · simp only [step, hopen, hread]
      rfl
    · rw [hprogress.forwarded]
      refine ⟨expected more, ?_⟩
      rw [hp.split, expected, expected, expected, ← List.map_append, List.append_assoc]
      rfl

theorem written_step {action : Relay.Action} (hstep : s.step fromSlice fromStr action = some t) :
    s.written <+: t.written := by
  cases action with
  | write w =>
    simp only [step, Option.ite_none_left_eq_some, Option.some.injEq] at hstep
    obtain ⟨-, rfl⟩ := hstep
    exact List.prefix_append _ _
  | closeOwner =>
    cases hstep
    exact List.prefix_rfl
  | arrive n =>
    simp only [step, Runs.guarded] at hstep
    obtain ⟨-, rfl⟩ := hstep
    exact List.prefix_rfl
  | poll =>
    simp only [step, Option.ite_none_left_eq_some] at hstep
    obtain ⟨-, hstep⟩ := hstep
    have hforward : ∀ (u : Relay) item, (u.forward item).written = u.written := fun u item => by
      rcases item with e | r <;> rfl
    split at hstep
    · cases hstep
      rw [hforward]
    · split at hstep
      · cases hstep
        rw [hforward]
      · cases hstep
        exact List.prefix_rfl
  | message detach wrote =>
    simp only [step, Option.ite_none_left_eq_some] at hstep
    obtain ⟨-, hstep⟩ := hstep
    split at hstep <;> cases hstep <;> exact List.prefix_rfl
  | messagesClosed =>
    simp only [step, Option.ite_none_left_eq_some, Option.some.injEq] at hstep
    obtain ⟨-, rfl⟩ := hstep
    exact List.prefix_rfl

end Steps

/-- **A relayed attach forwards every frame intact**, in every run in which no
message of the client finds a read that has begun, and what the owning daemon
writes is what the reader takes. -/
theorem relay_intact {fromSlice : Bytes → Except Bytes RpcResponse} {fromStr : Bytes → Except Bytes (ℕ × RpcResponse)}
    {s : Relay} {as : List Relay.Action} (hrun : run (Relay.step fromSlice fromStr) Relay.start as = some s)
    (hdecodes : ∀ w ∈ s.written, w.Decodes fromSlice fromStr)
    (hkeep : Meets (Relay.step fromSlice fromStr) KeepsFrames Relay.start as) : Intact fromSlice fromStr s := by
  have hinv : (∀ w ∈ s.written, w.Decodes fromSlice fromStr) → Inv fromSlice fromStr s := by
    refine run_invariant_of_meets (I := fun s : Relay => (∀ w ∈ s.written, w.Decodes fromSlice fromStr) →
      Inv fromSlice fromStr s) ?_ hrun hkeep fun _ => inv_start
    intro u action v hu hk hstep hdec
    exact inv_step (hu fun w hw => hdec w ((written_step hstep).subset hw)) hk hdec hstep
  exact (hinv hdecodes).intact

instance (s : Relay) : ∀ action, Decidable (KeepsFrames s action)
  | .message _ wrote => inferInstanceAs (Decidable (s.held = [] ∧ wrote = true))
  | .messagesClosed => inferInstanceAs (Decidable (s.held = []))
  | .write (.line response) => inferInstanceAs (Decidable ((encodeFrame response).length ≤ maxIpcLineBytes))
  | .write (.frame (.output _ data)) => inferInstanceAs (Decidable (data.length ≤ 1024 * 1024))
  | .write (.frame (.control response)) => inferInstanceAs (Decidable (response.isError = false))
  | .closeOwner | .arrive _ | .poll => .isTrue trivial

/-- An init, a chunk and the end. -/
def shortSession : List Sent :=
  [.line (.attachStreamInit ⟨[], 0, true, Pump.plainModes, 1⟩ [] 1 (text "controller")), .frame (.output 0 [104, 105]),
    .frame (.control (.attachStreamDone (some 0) 2))]

/-- `serde_json` on the responses of that session. -/
def sessionFromStr (line : Bytes) : Except Bytes (ℕ × RpcResponse) :=
  match shortSession.find? fun w => decide (line = encodeFrame w.response) with
  | some w => .ok (protocolVersion, w.response)
  | none => .error (text "expected value")

def sessionFromSlice (payload : Bytes) : Except Bytes RpcResponse :=
  match shortSession.find? fun w => decide (payload = w.response.toVec) with
  | some w => .ok w.response
  | none => .error (text "expected value")

def initLength : ℕ := (encodeFrame (.attachStreamInit ⟨[], 0, true, Pump.plainModes, 1⟩ [] 1 (text "controller"))).length

/-- A message comes between two frames. -/
def betweenRun : List Relay.Action :=
  shortSession.map .write ++ [.arrive (initLength + 15), .poll, .poll, .message false true, .arrive 1, .poll]

/-- A message comes after three bytes of a frame. -/
def withinRun : List Relay.Action :=
  shortSession.map .write ++ [.arrive (initLength + 3), .poll, .poll, .message false true, .arrive 12, .poll]

theorem relay_intact_between : ∃ s,
    run (Relay.step sessionFromSlice sessionFromStr) Relay.start betweenRun = some s ∧ s.forwarded.length = 2 ∧
      Intact sessionFromSlice sessionFromStr s := by
  have hrun : (run (Relay.step sessionFromSlice sessionFromStr) Relay.start betweenRun).any (fun s =>
      decide (s.forwarded.length = 2 ∧ s.written = shortSession)) = true := by
    decide +kernel
  obtain ⟨s, hs, hp⟩ := (Option.any_eq_true _ _).mp hrun
  obtain ⟨hlen, hwritten⟩ := of_decide_eq_true hp
  have hdecodes : ∀ w ∈ s.written, w.Decodes sessionFromSlice sessionFromStr := by
    rw [hwritten]
    intro w hw
    simp only [shortSession, List.mem_cons, List.not_mem_nil, or_false] at hw
    rcases hw with rfl | rfl | rfl
    · show sessionFromStr (encodeFrame _) = .ok (protocolVersion, _)
      decide +kernel
    · trivial
    · show sessionFromSlice (RpcResponse.toVec _) = .ok _
      decide +kernel
  exact ⟨s, hs, hlen, relay_intact hs hdecodes (by decide +kernel)⟩

/-- **A frame is lost.** The message cancels the read of the chunk's header; the rest
is misread, and the client is told that the stream was interrupted. -/
theorem relay_misreads : ∃ s,
    run (Relay.step sessionFromSlice sessionFromStr) Relay.start withinRun = some s ∧ s.forwarded.length = 1 ∧
      s.ended = true ∧ s.interrupted = some (.unknownTag 0) ∧ ¬ Intact sessionFromSlice sessionFromStr s := by
  have hrun : (run (Relay.step sessionFromSlice sessionFromStr) Relay.start withinRun).any (fun s =>
      decide (s.forwarded.length = 1 ∧ s.ended = true ∧ s.interrupted = some (.unknownTag 0) ∧
        s.written = shortSession)) = true := by
    decide +kernel
  obtain ⟨s, hs, hp⟩ := (Option.any_eq_true _ _).mp hrun
  obtain ⟨hlen, hended, hinterrupted, hwritten⟩ := of_decide_eq_true hp
  refine ⟨s, hs, hlen, hended, hinterrupted, fun hintact => ?_⟩
  have hwhole := congrArg List.length (hintact.whole hended)
  rw [hlen, hwritten] at hwhole
  cases hwhole

end Ipc
end OpenRelay
