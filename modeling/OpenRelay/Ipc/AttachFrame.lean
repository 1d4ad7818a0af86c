/-
# Frames of an attach stream

After the first response the daemon sends an attach stream in binary frames: a
length, a tag and a payload (`ipc.rs`). The writer of an output frame takes any
length; the reader has caps, and the cap of an output frame is below the window
that a lagging client is resynced with. Hence a sequence of events is read back,
in whatever fragments its bytes come, if and only if each chunk is within the
reader's cap (`read_back_iff`).

Key theorems: `readAttachFrame_stable`, `next_write`.
-/
import OpenRelay.Ipc.Response

namespace OpenRelay
namespace Ipc

open Chunks LittleEndian
open Journal (decimal)
open Pump (AttachEvent)

def attachFrameOutput : UInt8 := 1

def attachFrameControl : UInt8 := 2

/-- The reader's cap of an output frame. -/
def maxAttachOutputFrameBytes : ℕ := 1024 * 1024 + 8

def maxAttachControlFrameBytes : ℕ := 64 * 1024

def attachFrameHeaderBytes : ℕ := 5

/-- One frame from the daemon to its client. -/
inductive AttachFrame where
  | output (offset : ℕ) (data : Bytes)
  | control (response : RpcResponse)
  deriving DecidableEq, Repr

/-- Why a line or a frame is not read. -/
inductive ReadError where
  | closed
  | truncated
  | unknownTag (tag : UInt8)
  | tooLarge (payloadLen cap : ℕ)
  | tooShort
  | lineTooLong (max : ℕ)
  | mismatch (version daemon : ℕ)
  /-- What `serde_json` says. -/
  | serde (detail : Bytes)
  deriving DecidableEq, Repr

/-- The text of the error. -/
def ReadError.display : ReadError → Bytes
  | closed => text "protocol error: daemon closed the connection"
  | truncated => text "protocol error: attach frame truncated by peer"
  | unknownTag tag => text "protocol error: unknown attach frame tag " ++ decimal tag.toNat
  | tooLarge payloadLen cap => text "protocol error: attach frame too large: " ++ decimal payloadLen ++
      text " bytes (cap " ++ decimal cap ++ text ")"
  | tooShort => text "protocol error: attach output frame too short"
  | lineTooLong max => text "I/O error: IPC message exceeds " ++ decimal max ++ text " byte limit"
  | mismatch version daemon => text "protocol error: protocol mismatch: client=" ++ decimal version ++
      text ", daemon=" ++ decimal daemon
  | serde detail => text "serialization error: " ++ detail

/-! ### Writing -/

def frameBytes (tag : UInt8) (payload : Bytes) : Bytes := leBytes 4 payload.length ++ tag :: payload

def writeAttachOutputFrame (offset : ℕ) (data : Bytes) : Bytes :=
  frameBytes attachFrameOutput (leBytes 8 offset ++ data)

/-- A control frame is only written within its cap. -/
def writeAttachControlFrame (response : RpcResponse) : Option Bytes :=
  if maxAttachControlFrameBytes < response.toVec.length % 2 ^ 32 then none
  else some (frameBytes attachFrameControl response.toVec)

/-- A frame as it is written. A response may be too long for it. -/
def AttachFrame.write : AttachFrame → Option Bytes
  | output offset data => some (writeAttachOutputFrame offset data)
  | control response => writeAttachControlFrame response

/-- The frames until one cannot be written. -/
def writeFrames : List AttachFrame → Bytes
  | [] => []
  | f :: fs =>
    match f.write with
    | none => []
    | some bytes => bytes ++ writeFrames fs

/-- What the handler of a subscription sends for the pump's events. `Done` and
`Closed` end the stream. -/
def serve : List AttachEvent → List AttachFrame
  | [] => []
  | .chunk offset data :: es => .output offset data :: serve es
  | .modes modes :: es => .control (.attachModeChanged modes) :: serve es
  | .done exitCode finalOffset :: _ => [.control (.attachStreamDone exitCode finalOffset)]
  | .closed :: _ => []

/-! ### Reading -/

/-- The reader's cap for a tag it knows. -/
def frameCap (tag : UInt8) : Option ℕ :=
  if tag = attachFrameOutput then some maxAttachOutputFrameBytes
  else if tag = attachFrameControl then some maxAttachControlFrameBytes
  else none

section Reading

variable (fromSlice : Bytes → Except Bytes RpcResponse)

def decodePayload (tag : UInt8) (payload : Bytes) : Except ReadError AttachFrame :=
  if tag = attachFrameOutput then
    if payload.length < 8 then .error .tooShort
    else .ok (.output (leNat (payload.take 8)) (payload.drop 8))
  else
    match fromSlice payload with
    | .ok response => .ok (.control response)
    | .error detail => .error (.serde detail)

/-- What `read_attach_frame` comes to on a stream that begins with `s`, and how
many bytes it has taken; none while it waits for more. -/
def readAttachFrame (s : Bytes) : Option (Except ReadError AttachFrame × ℕ) :=
  if s.length < attachFrameHeaderBytes then none
  else
    let payloadLen := leNat (s.take 4)
    let tag := (s.drop 4).headD 0
    match frameCap tag with
    | none => some (.error (.unknownTag tag), attachFrameHeaderBytes)
    | some cap =>
      if cap < payloadLen then some (.error (.tooLarge payloadLen cap), attachFrameHeaderBytes)
      else if s.length < attachFrameHeaderBytes + payloadLen then none
      else some (decodePayload fromSlice tag ((s.drop attachFrameHeaderBytes).take payloadLen),
        attachFrameHeaderBytes + payloadLen)

/-- What it comes to at the end of the stream. -/
def readAtEof (s : Bytes) : ReadError := if s.length < attachFrameHeaderBytes then .closed else .truncated

/-- Behind a whole header. -/
theorem readAttachFrame_header (n : ℕ) (tag : UInt8) (body : Bytes) :
    readAttachFrame fromSlice (leBytes 4 n ++ tag :: body) =
      match frameCap tag with
      | none => some (.error (.unknownTag tag), attachFrameHeaderBytes)
      | some cap =>
        if cap < n % 2 ^ 32 then some (.error (.tooLarge (n % 2 ^ 32) cap), attachFrameHeaderBytes)
        else if body.length < n % 2 ^ 32 then none
        else some (decodePayload fromSlice tag (body.take (n % 2 ^ 32)), attachFrameHeaderBytes + n % 2 ^ 32) := by
  have hlen : (leBytes 4 n ++ tag :: body).length = attachFrameHeaderBytes + body.length := by
    rw [List.length_append, leBytes_length, List.length_cons]
    show 4 + (body.length + 1) = 5 + body.length
    omega
  have htake : (leBytes 4 n ++ tag :: body).take 4 = leBytes 4 n := List.take_left' (leBytes_length 4 n)
  have hdrop : (leBytes 4 n ++ tag :: body).drop 4 = tag :: body := List.drop_left' (leBytes_length 4 n)
  have hbody : (leBytes 4 n ++ tag :: body).drop attachFrameHeaderBytes = body := by
    show (leBytes 4 n ++ tag :: body).drop (4 + 1) = body
    rw [← List.drop_drop, hdrop]
    rfl
  have hn : leNat (leBytes 4 n) = n % 2 ^ 32 := leNat_leBytes_mod 4 n
  unfold readAttachFrame
  rw [if_neg (by rw [hlen]; omega), htake, hdrop, hbody, hn, hlen]
  simp only [List.headD_cons, Nat.add_lt_add_iff_left]

/-- Every stream that is long enough begins with a header. -/
theorem header_of_length {s : Bytes} (h : ¬ s.length < attachFrameHeaderBytes) :
    ∃ n tag body, s = leBytes 4 n ++ tag :: body := by
  have h4 : (s.take 4).length = 4 := List.length_take_of_le (by unfold attachFrameHeaderBytes at h; omega)
  have hdrop : (s.drop 4).length = s.length - 4 := List.length_drop
  obtain ⟨tag, body, hbody⟩ : ∃ tag body, s.drop 4 = tag :: body := by
    refine List.exists_cons_of_length_pos ?_
    unfold attachFrameHeaderBytes at h
    omega
  refine ⟨leNat (s.take 4), tag, body, ?_⟩
  have hle : leBytes 4 (leNat (s.take 4)) = s.take 4 := by
    have hle := leBytes_leNat (s.take 4)
    rwa [h4] at hle
  calc s = s.take 4 ++ s.drop 4 := (List.take_append_drop 4 s).symm
    _ = leBytes 4 (leNat (s.take 4)) ++ tag :: body := by rw [hbody, hle]

/-- What a read takes. -/
theorem readAttachFrame_some {s : Bytes} {item : Except ReadError AttachFrame} {n : ℕ}
    (h : readAttachFrame fromSlice s = some (item, n)) : 0 < n ∧ n ≤ s.length ∧
      ∀ t, readAttachFrame fromSlice (s ++ t) = some (item, n) := by
  by_cases hlen : s.length < attachFrameHeaderBytes
  · rw [readAttachFrame, if_pos hlen] at h
    cases h
  obtain ⟨m, tag, body, rfl⟩ := header_of_length hlen
  have hs : (leBytes 4 m ++ tag :: body).length = attachFrameHeaderBytes + body.length := by
    rw [List.length_append, leBytes_length, List.length_cons]
    show 4 + (body.length + 1) = 5 + body.length
    omega
  have hmore : ∀ t, leBytes 4 m ++ tag :: body ++ t = leBytes 4 m ++ tag :: (body ++ t) := by
    intro t
    rw [List.append_assoc, List.cons_append]
  rw [readAttachFrame_header] at h
  rw [hs]
  simp only [hmore, readAttachFrame_header]
  rcases hcap : frameCap tag with _ | cap
  · rw [hcap] at h
    cases h
    exact ⟨by decide, Nat.le_add_right _ _, fun _ => rfl⟩
  · rw [hcap] at h
    dsimp only at h ⊢
    by_cases hlarge : cap < m % 2 ^ 32
    · rw [if_pos hlarge] at h
      cases h
      exact ⟨by decide, Nat.le_add_right _ _, fun _ => if_pos hlarge⟩
    · rw [if_neg hlarge] at h
      split at h
      · cases h
      · rename_i hbody
        cases h
        refine ⟨Nat.add_pos_left (by decide) _, by omega, fun t => ?_⟩
        rw [if_neg hlarge, if_neg (by rw [List.length_append]; omega), List.take_append_of_le_length (by omega)]

/-- The reader of a stream of frames. -/
def attachReader : Chunks.Reader UInt8 (Except ReadError AttachFrame) where
  next := readAttachFrame fromSlice
  pos := fun h => (readAttachFrame_some fromSlice h).1
  le := fun h => (readAttachFrame_some fromSlice h).2.1

@[simp] theorem attachReader_next : (attachReader fromSlice).next = readAttachFrame fromSlice := rfl

theorem attachReader_stable : (attachReader fromSlice).Stable := fun h => (readAttachFrame_some fromSlice h).2.2

end Reading

/-- The items before the first error, and that error. -/
def untilError {ε α : Type*} : List (Except ε α) → List α × Option ε
  | [] => ([], none)
  | .error e :: _ => ([], some e)
  | .ok a :: more => (a :: (untilError more).1, (untilError more).2)

/-- What a client reads of a stream that comes in fragments. -/
def received (fromSlice : Bytes → Except Bytes RpcResponse) (fragments : List Bytes) :
    List AttachFrame × Option ReadError :=
  untilError (feed (attachReader fromSlice) [] fragments).1

/-! ### What is read of what was written -/

section ReadBack

variable {fromSlice : Bytes → Except Bytes RpcResponse}

theorem frameBytes_length (tag : UInt8) (payload : Bytes) :
    (frameBytes tag payload).length = attachFrameHeaderBytes + payload.length := by
  rw [frameBytes, List.length_append, leBytes_length, List.length_cons]
  show 4 + (payload.length + 1) = 5 + payload.length
  omega

/-- A frame within its cap is read. -/
theorem readAttachFrame_frame {tag : UInt8} {cap : ℕ} {payload : Bytes} (hcap : frameCap tag = some cap)
    (hle : payload.length ≤ cap) (hlt : payload.length < 2 ^ 32) (rest : Bytes) :
    readAttachFrame fromSlice (frameBytes tag payload ++ rest) =
      some (decodePayload fromSlice tag payload, (frameBytes tag payload).length) := by
  have hmore : frameBytes tag payload ++ rest = leBytes 4 payload.length ++ tag :: (payload ++ rest) := by
    rw [frameBytes, List.append_assoc, List.cons_append]
  rw [hmore, readAttachFrame_header, hcap, Nat.mod_eq_of_lt hlt, frameBytes_length]
  dsimp only
  rw [if_neg (by omega), if_neg (by rw [List.length_append]; omega), List.take_left]

theorem decodePayload_output {offset : ℕ} (data : Bytes) (ho : offset < 2 ^ 64) :
    decodePayload fromSlice attachFrameOutput (leBytes 8 offset ++ data) = .ok (.output offset data) := by
  have hlen : ¬ (leBytes 8 offset ++ data).length < 8 := by
    rw [List.length_append, leBytes_length]
    omega
  rw [decodePayload, if_pos rfl, if_neg hlen, List.take_left' (leBytes_length 8 offset),
    List.drop_left' (leBytes_length 8 offset), leNat_leBytes ho]

theorem decodePayload_control {response : RpcResponse} (h : fromSlice response.toVec = .ok response) :
    decodePayload fromSlice attachFrameControl response.toVec = .ok (.control response) := by
  rw [decodePayload, if_neg (by decide), h]

/-- The reader takes this frame as it was written. -/
def AttachFrame.Readable (fromSlice : Bytes → Except Bytes RpcResponse) : AttachFrame → Prop
  | output offset data => offset < 2 ^ 64 ∧ data.length ≤ 1024 * 1024
  | control response => response.toVec.length ≤ maxAttachControlFrameBytes ∧ fromSlice response.toVec = .ok response

/-- **A frame is read back**, whatever follows it. -/
theorem next_write {f : AttachFrame} (h : f.Readable fromSlice) :
    ∃ bytes, f.write = some bytes ∧ ∀ rest,
      (attachReader fromSlice).next (bytes ++ rest) = some (.ok f, bytes.length) := by
  cases f with
  | output offset data =>
    obtain ⟨ho, hd⟩ := h
    have hlen : (leBytes 8 offset ++ data).length ≤ maxAttachOutputFrameBytes := by
      rw [List.length_append, leBytes_length]
      unfold maxAttachOutputFrameBytes
      omega
    refine ⟨_, rfl, fun rest => ?_⟩
    rw [attachReader_next, writeAttachOutputFrame, readAttachFrame_frame rfl hlen (hlen.trans_lt (by decide)),
      decodePayload_output data ho]
  | control response =>
    obtain ⟨hlen, hserde⟩ := h
    have hlt : response.toVec.length < 2 ^ 32 := hlen.trans_lt (by decide)
    have hwrite : writeAttachControlFrame response = some (frameBytes attachFrameControl response.toVec) := by
      rw [writeAttachControlFrame, Nat.mod_eq_of_lt hlt, if_neg (by omega)]
    refine ⟨_, hwrite, fun rest => ?_⟩
    rw [attachReader_next, readAttachFrame_frame rfl hlen hlt, decodePayload_control hserde]

/-- Only an output frame within the cap is read as it was written. -/
theorem length_le_of_read {offset offset' n : ℕ} {data rest : Bytes}
    (h : readAttachFrame fromSlice (writeAttachOutputFrame offset data ++ rest) =
      some (.ok (.output offset' data), n)) : data.length ≤ 1024 * 1024 := by
  have hmore : writeAttachOutputFrame offset data ++ rest = leBytes 4 (leBytes 8 offset ++ data).length ++
      attachFrameOutput :: (leBytes 8 offset ++ data ++ rest) := by
    rw [writeAttachOutputFrame, frameBytes, List.append_assoc, List.cons_append]
  rw [hmore, readAttachFrame_header, show frameCap attachFrameOutput = some maxAttachOutputFrameBytes from rfl] at h
  generalize hm : (leBytes 8 offset ++ data).length % 2 ^ 32 = m at h
  dsimp only at h
  split at h
  · cases h
  · rename_i hcap
    split at h
    · cases h
    · rename_i hbody
      -- what is read is as long as the length says
      rw [decodePayload, if_pos rfl] at h
      split at h
      · cases h
      · rename_i hshort
        simp only [Option.some.injEq, Prod.mk.injEq, Except.ok.injEq, AttachFrame.output.injEq] at h
        have hdata := congrArg List.length h.1.2
        rw [List.length_drop, List.length_take] at hdata
        unfold maxAttachOutputFrameBytes at hcap
        omega

/-- The frames of a stream are read back if and only if each output frame is
within the reader's cap. -/
theorem untilError_drain : ∀ {fs : List AttachFrame},
    (∀ offset data, .output offset data ∈ fs → offset < 2 ^ 64) →
    (∀ response, .control response ∈ fs → AttachFrame.Readable fromSlice (.control response)) →
    (untilError (drain (attachReader fromSlice) (writeFrames fs)).1 = (fs, none) ↔
      ∀ offset data, .output offset data ∈ fs → data.length ≤ 1024 * 1024)
  | [], _, _ => by
    rw [writeFrames, drain_nil]
    exact ⟨fun _ => nofun, fun _ => rfl⟩
  | f :: fs, ho, hc => by
    have ih := @untilError_drain fs (fun offset data h => ho offset data (List.mem_cons_of_mem f h))
      fun response h => hc response (List.mem_cons_of_mem f h)
    -- a frame that is read leaves the question to the others
    have hread : f.Readable fromSlice →
        (untilError (drain (attachReader fromSlice) (writeFrames (f :: fs))).1 = (f :: fs, none) ↔
          ∀ offset data, .output offset data ∈ fs → data.length ≤ 1024 * 1024) := by
      intro hf
      obtain ⟨bytes, hwrite, hnext⟩ := next_write hf
      have hdrain := drain_some (hnext (writeFrames fs))
      rw [List.drop_left] at hdrain
      rw [writeFrames, hwrite]
      dsimp only
      rw [hdrain, ← ih, untilError]
      simp only [Prod.ext_iff, List.cons.injEq, true_and]
    cases f with
    | control response =>
      rw [hread (hc response List.mem_cons_self)]
      refine forall_congr' fun offset => forall_congr' fun data => ?_
      rw [List.mem_cons, or_iff_right nofun]
    | output offset data =>
      by_cases hd : data.length ≤ 1024 * 1024
      · rw [hread ⟨ho offset data List.mem_cons_self, hd⟩]
        refine ⟨fun h offset' data' hmem => ?_, fun h offset' data' hmem => h offset' data' (List.mem_cons_of_mem _ hmem)⟩
        rcases List.mem_cons.mp hmem with heq | hmem
        · cases heq
          exact hd
        · exact h offset' data' hmem
      · refine ⟨fun h => absurd ?_ hd, fun h => absurd (h offset data List.mem_cons_self) hd⟩
        have hwrite : writeFrames (.output offset data :: fs) = writeAttachOutputFrame offset data ++ writeFrames fs := rfl
        rw [hwrite] at h
        rcases hn : (attachReader fromSlice).next (writeAttachOutputFrame offset data ++ writeFrames fs) with
          _ | ⟨item | f', n⟩
        · rw [drain_none hn] at h
          cases h
        · rw [drain_some hn] at h
          cases h
        · rw [drain_some hn, untilError] at h
          obtain ⟨rfl, -⟩ := List.cons.inj (Prod.ext_iff.mp h).1
          rw [attachReader_next] at hn
          exact length_le_of_read hn

/-- A client reads what is written, in whatever fragments it comes. -/
theorem received_eq {fragments : List Bytes} {fs : List AttachFrame} (h : fragments.flatten = writeFrames fs) :
    received fromSlice fragments = untilError (drain (attachReader fromSlice) (writeFrames fs)).1 := by
  rw [received, feed_nil_eq_drain (attachReader_stable fromSlice), h]

/-! ### The pump's events -/

/-- An event of the pump: its offsets are 64-bit, its exit code is 32-bit. -/
def Fits : AttachEvent → Prop
  | .chunk offset _ => offset < 2 ^ 64
  | .done exitCode finalOffset => (∀ code ∈ exitCode, -2 ^ 31 ≤ code ∧ code < 2 ^ 31) ∧ finalOffset < 2 ^ 64
  | .modes _ | .closed => True

theorem modeChanged_length_le (modes : Pump.ModeSnapshot) :
    (RpcResponse.attachModeChanged modes).toVec.length ≤ maxAttachControlFrameBytes := by
  have h := fun b => jsonBool_length_le b
  have hb := h modes.bracketedPasteMode
  have ha := h modes.appCursorKeys
  have hm := h modes.mouseReport
  have hs := h modes.sgrMouse
  have hf := h modes.focusEvents
  rw [RpcResponse.toVec, jsonObject_length, modeFields]
  simp only [List.map_cons, List.map_nil, List.sum_cons, List.sum_nil]
  have hnames : "attach_mode_changed".length + "bracketed_paste_mode".length + "app_cursor_keys".length +
      "mouse_report".length + "sgr_mouse".length + "focus_events".length ≤ 100 := by decide +kernel
  unfold maxAttachControlFrameBytes
  omega

theorem streamDone_length_le {exitCode : Option ℤ} {finalOffset : ℕ} (h : Fits (.done exitCode finalOffset)) :
    (RpcResponse.attachStreamDone exitCode finalOffset).toVec.length ≤ maxAttachControlFrameBytes := by
  have hfinal : (decimal finalOffset).length ≤ 20 := decimal_length_le (by decide) (h.2.trans (by decide))
  have hcode : (jsonOption Session.signedDecimal exitCode).length ≤ 11 := by
    rcases exitCode with _ | code
    · decide
    · obtain ⟨hlo, hhi⟩ := h.1 code rfl
      exact signedDecimal_length_le (by decide) (by omega)
  rw [RpcResponse.toVec, jsonObject_length]
  simp only [List.map_cons, List.map_nil, List.sum_cons, List.sum_nil]
  have hnames : "attach_stream_done".length + "exit_code".length + "final_offset".length ≤ 100 := by decide +kernel
  unfold maxAttachControlFrameBytes
  omega

/-- What the handler sends has the offsets of the events, and notices within
their cap. -/
theorem serve_fits : ∀ {events : List AttachEvent}, (∀ e ∈ events, Fits e) →
    (∀ offset data, .output offset data ∈ serve events → offset < 2 ^ 64) ∧
      ∀ response, .control response ∈ serve events → response.toVec.length ≤ maxAttachControlFrameBytes
  | [], _ => ⟨nofun, nofun⟩
  | e :: es, h => by
    have hfit := h e List.mem_cons_self
    have ih := @serve_fits es fun e' he' => h e' (List.mem_cons_of_mem e he')
    cases e with
    | chunk offset data =>
      refine ⟨fun offset' data' hmem => ?_, fun response hmem => ?_⟩
      · rcases List.mem_cons.mp hmem with heq | hmem
        · cases heq
          exact hfit
        · exact ih.1 offset' data' hmem
      · rcases List.mem_cons.mp hmem with heq | hmem
        · cases heq
        · exact ih.2 response hmem
    | modes modes =>
      refine ⟨fun offset' data' hmem => ?_, fun response hmem => ?_⟩
      · rcases List.mem_cons.mp hmem with heq | hmem
        · cases heq
        · exact ih.1 offset' data' hmem
      · rcases List.mem_cons.mp hmem with heq | hmem
        · cases heq
          exact modeChanged_length_le modes
        · exact ih.2 response hmem
    | done exitCode finalOffset =>
      refine ⟨fun offset' data' hmem => ?_, fun response hmem => ?_⟩
      · cases List.mem_singleton.mp hmem
      · cases List.mem_singleton.mp hmem
        exact streamDone_length_le hfit
    | closed => exact ⟨nofun, nofun⟩

/-- **When a client reads what it is sent.** For every sequence of events, and
fragments of any sizes: if and only if each chunk is at most 1 MiB. -/
theorem read_back_iff {events : List AttachEvent} (hfit : ∀ e ∈ events, Fits e)
    (hserde : ∀ response, .control response ∈ serve events → fromSlice response.toVec = .ok response)
    {fragments : List Bytes} (hfragments : fragments.flatten = writeFrames (serve events)) :
    received fromSlice fragments = (serve events, none) ↔
      ∀ offset data, .output offset data ∈ serve events → data.length ≤ 1024 * 1024 := by
  obtain ⟨ho, hc⟩ := serve_fits hfit
  rw [received_eq hfragments]
  exact untilError_drain ho fun response hmem => ⟨hc response hmem, hserde response hmem⟩

/-- A chunk, new modes and the end. -/
def shortStream : List AttachEvent :=
  [.chunk 3 [104, 105], .modes ⟨true, false, false, false, false⟩, .done (some (-1)) 5]

/-- `serde_json` on the notices of that stream. -/
def shortFromSlice (payload : Bytes) : Except Bytes RpcResponse :=
  if payload = (RpcResponse.attachModeChanged ⟨true, false, false, false, false⟩).toVec then
    .ok (.attachModeChanged ⟨true, false, false, false, false⟩)
  else if payload = (RpcResponse.attachStreamDone (some (-1)) 5).toVec then .ok (.attachStreamDone (some (-1)) 5)
  else .error (text "expected value")

/-- Its bytes in two fragments, cut within the second frame's head. -/
theorem read_back_iff_short :
    received shortFromSlice [(writeFrames (serve shortStream)).take 17, (writeFrames (serve shortStream)).drop 17] =
      (serve shortStream, none) := by
  have hfragments : [(writeFrames (serve shortStream)).take 17,
      (writeFrames (serve shortStream)).drop 17].flatten = writeFrames (serve shortStream) := by
    rw [List.flatten_cons, List.flatten_cons, List.flatten_nil, List.append_nil, List.take_append_drop]
  refine (read_back_iff (fun e he => ?_) (fun response hmem => ?_) hfragments).mpr fun offset data hmem => ?_
  · simp only [shortStream, List.mem_cons, List.not_mem_nil, or_false] at he
    rcases he with rfl | rfl | rfl
    · show 3 < 2 ^ 64
      decide
    · trivial
    · refine ⟨fun code hcode => ?_, by decide⟩
      cases hcode
      decide
  · simp only [shortStream, serve, List.mem_cons, List.not_mem_nil, or_false, reduceCtorEq, false_or,
      AttachFrame.control.injEq] at hmem
    rcases hmem with rfl | rfl <;> decide +kernel
  · simp only [shortStream, serve, List.mem_cons, List.not_mem_nil, or_false, reduceCtorEq,
      AttachFrame.output.injEq] at hmem
    rw [hmem.2]
    decide

/-! ### A lagging client -/

section Lagging

variable (chunk stream : Bytes) (queue : List Pump.SequencedChunk) (n : ℕ)

/-- A client is attached to an empty stream and has received nothing: of the chunks that came
since the ring has these, and has dropped `n`. -/
def laggedState : Pump.Sys :=
  let s := (Pump.Sys.start Pump.plainModes (some 1)).attach [] 0 true none
  { s with
    session := { s.session with stream := stream }
    rx := { s.rx with queue := queue, lagged := n } }

/-- All of the stream is on disk. -/
def notedState : Pump.Sys :=
  { laggedState stream queue n with
    session := { (laggedState stream queue n).session with persisted := stream.length } }

/-- The pump knows that it lags. -/
def resyncingState : Pump.Sys :=
  { notedState stream queue n with
    rx := { (notedState stream queue n).rx with lagged := 0 }, pump := (notedState stream queue n).pump.beginResync }

/-- A window with all of the stream is sent. -/
def replayedState : Pump.Sys :=
  { resyncingState stream queue n with
    pump := ((resyncingState stream queue n).pump.resyncWindow (resyncingState stream queue n).session.modes
      stream).1 }.emit (.chunk 0 stream)

/-- A chunk for which the ring has a place. -/
def fillTurn : List Pump.Act := [.read chunk, .send]

/-- A chunk for which the ring drops its oldest. -/
def lagTurn : List Pump.Act := [.read chunk, .send, .overflow]

variable {chunk stream queue n}

theorem step_read (hne : chunk ≠ []) :
    Pump.step (laggedState stream queue n) (.read chunk) = some { laggedState stream queue n with
      session := { (laggedState stream queue n).session with
        stream := stream ++ chunk
        inFlight := some ⟨stream.length, chunk⟩ } } := by
  rw [Pump.step, Pump.sessionStep, if_neg (by simp [laggedState, Pump.Sys.attach, Pump.Sys.start, hne])]
  rfl

theorem run_fillTurn (hne : chunk ≠ []) :
    Runs.run Pump.step (laggedState stream queue n) (fillTurn chunk) =
      some (laggedState (stream ++ chunk) (queue ++ [⟨stream.length, chunk⟩]) n) := by
  simp only [fillTurn, Runs.run, step_read hne]
  rfl

theorem run_lagTurn {first : Pump.SequencedChunk} (hne : chunk ≠ []) :
    Runs.run Pump.step (laggedState stream (first :: queue) n) (lagTurn chunk) =
      some (laggedState (stream ++ chunk) (queue ++ [⟨stream.length, chunk⟩]) (n + 1)) := by
  simp only [lagTurn, Runs.run, step_read hne]
  rfl

/-- The ring fills. -/
theorem run_fillTurns (hne : chunk ≠ []) : ∀ (k : ℕ) (stream : Bytes) (queue : List Pump.SequencedChunk),
    ∃ queue' : List Pump.SequencedChunk, queue'.length = queue.length + k ∧
      Runs.run Pump.step (laggedState stream queue n) (List.replicate k (fillTurn chunk)).flatten =
        some (laggedState (stream ++ (List.replicate k chunk).flatten) queue' n)
  | 0, stream, queue => by
    refine ⟨queue, rfl, ?_⟩
    rw [List.replicate_zero, List.replicate_zero, List.flatten_nil, List.flatten_nil, List.append_nil]
    rfl
  | k + 1, stream, queue => by
    obtain ⟨queue', hlen, hrun⟩ := run_fillTurns hne k (stream ++ chunk) (queue ++ [⟨stream.length, chunk⟩])
    refine ⟨queue', by rw [hlen, List.length_append, List.length_singleton, Nat.add_assoc, Nat.add_comm 1], ?_⟩
    rw [List.replicate_succ, List.flatten_cons, Runs.run_append, run_fillTurn hne, Option.bind_some, hrun,
      List.replicate_succ, List.flatten_cons, List.append_assoc]

/-- A full ring drops as many chunks as come. -/
theorem run_lagTurns (hne : chunk ≠ []) : ∀ (k : ℕ) (stream : Bytes) (queue : List Pump.SequencedChunk) (n : ℕ),
    0 < queue.length → ∃ queue' : List Pump.SequencedChunk, queue'.length = queue.length ∧
      Runs.run Pump.step (laggedState stream queue n) (List.replicate k (lagTurn chunk)).flatten =
        some (laggedState (stream ++ (List.replicate k chunk).flatten) queue' (n + k))
  | 0, stream, queue, n, _ => by
    refine ⟨queue, rfl, ?_⟩
    rw [List.replicate_zero, List.replicate_zero, List.flatten_nil, List.flatten_nil, List.append_nil]
    rfl
  | k + 1, stream, queue, n, hpos => by
    obtain ⟨first, queue, rfl⟩ := List.exists_cons_of_length_pos hpos
    obtain ⟨queue', hlen, hrun⟩ := run_lagTurns hne k (stream ++ chunk) (queue ++ [⟨stream.length, chunk⟩]) (n + 1)
      (by rw [List.length_append]; exact Nat.succ_pos _)
    refine ⟨queue', hlen.trans List.length_append, ?_⟩
    rw [List.replicate_succ, List.flatten_cons, Runs.run_append, run_lagTurn hne, Option.bind_some, hrun,
      List.replicate_succ, List.flatten_cons, List.append_assoc, Nat.add_assoc, Nat.add_comm 1]

/-- A client that lags by no more than a window gets it as one chunk. -/
theorem run_resync (hlag : 0 < n) (hne : stream ≠ []) (hle : stream.length ≤ Pump.resyncWindowBytes) :
    Runs.run Pump.step (laggedState stream queue n) [.persist stream.length, .recv, .window stream.length] =
      some (replayedState stream queue n) := by
  have hpersist : Pump.step (laggedState stream queue n) (.persist stream.length) = some (notedState stream queue n) := by
    rw [Pump.step, Pump.sessionStep, if_pos ⟨Nat.zero_le _, le_rfl⟩]
    rfl
  have hrecv : Pump.step (notedState stream queue n) .recv = some (resyncingState stream queue n) := by
    obtain ⟨m, rfl⟩ : ∃ m, n = m + 1 := ⟨n - 1, by omega⟩
    rfl
  have hwindow : Pump.step (resyncingState stream queue n) (.window stream.length) =
      some (replayedState stream queue n) := by
    have hat : ((resyncingState stream queue n).atResync && (resyncingState stream queue n).pump.resync &&
        decide (stream.length ≤ (resyncingState stream queue n).session.persisted)) = true := by
      rw [Bool.and_eq_true]
      exact ⟨rfl, decide_eq_true le_rfl⟩
    have hdata : (resyncingState stream queue n).windowData stream.length = stream := by
      show Streams.slice stream 0 (min stream.length (0 + Pump.resyncWindowBytes)) = stream
      rw [Nat.zero_add, Nat.min_eq_left hle, Streams.slice_zero, List.take_length]
    simp only [Pump.step, Pump.sessionStep, Pump.subscribeStep, Pump.nextStep, hat, hdata, if_true, if_neg hne,
      Option.none_or]
    rfl
  simp only [Runs.run, hpersist, hrecv, hwindow, Option.bind_some]

end Lagging

/-- A read of the terminal. -/
def pageRead : Bytes := List.replicate 4096 0

/-- 273 of them: 17 more than the ring has places for. -/
def lagged : Bytes := (List.replicate 256 pageRead).flatten ++ (List.replicate 17 pageRead).flatten

theorem lagged_length : lagged.length = 1118208 := by
  rw [lagged, List.length_append, List.length_flatten, List.length_flatten, List.map_replicate, List.map_replicate,
    pageRead, List.length_replicate, List.sum_replicate_nat, List.sum_replicate_nat]

/-- The ring's 256 places are taken and 17 chunks are dropped before the client receives any; all is on disk. -/
def lagRun : List Pump.Act :=
  .subscribe [] true none :: ((List.replicate 256 (fillTurn pageRead)).flatten ++
    ((List.replicate 17 (lagTurn pageRead)).flatten ++ [.persist lagged.length, .recv, .window lagged.length]))

/-- **A lagging client is cut off.** The window it is resynced with is more than the
reader takes, in whatever fragments it comes. -/
theorem resync_window_rejected :
    ∃ s, Runs.run Pump.step (Pump.Sys.start Pump.plainModes (some 1)) lagRun = some s ∧
      s.events = [.chunk 0 lagged] ∧
      ∀ (fromSlice : Bytes → Except Bytes RpcResponse) (fragments : List Bytes),
        fragments.flatten = writeFrames (serve s.events) → received fromSlice fragments ≠ (serve s.events, none) := by
  have hne : lagged ≠ [] := List.ne_nil_of_length_pos (by rw [lagged_length]; decide)
  have hread : pageRead ≠ [] := by
    rw [pageRead, Ne, List.replicate_eq_nil_iff]
    decide
  have hstart : Pump.step (Pump.Sys.start Pump.plainModes (some 1)) (.subscribe [] true none) =
      some (laggedState [] [] 0) := rfl
  obtain ⟨full, hfull, hfill⟩ := run_fillTurns (n := 0) hread 256 [] []
  obtain ⟨queue, -, hlag⟩ := run_lagTurns hread 17 ([] ++ (List.replicate 256 pageRead).flatten) full 0
    (by rw [hfull]; decide)
  have hrun : Runs.run Pump.step (Pump.Sys.start Pump.plainModes (some 1)) lagRun =
      some (replayedState lagged queue 17) := by
    rw [List.nil_append, ← lagged] at hlag
    rw [List.nil_append] at hfill
    rw [lagRun, Runs.run, hstart, Option.bind_some, Runs.run_append, hfill, Option.bind_some, Runs.run_append, hlag,
      Option.bind_some]
    exact run_resync (by decide) hne (by rw [lagged_length]; decide)
  have hevents : (replayedState lagged queue 17).events = [.chunk 0 lagged] := rfl
  refine ⟨_, hrun, hevents, fun fromSlice fragments hfragments hread => ?_⟩
  rw [received_eq hfragments, hevents] at hread
  have hiff := @untilError_drain fromSlice [.output 0 lagged] (fun offset data hmem => by
    cases List.mem_singleton.mp hmem
    decide) (fun response hmem => by cases List.mem_singleton.mp hmem)
  have hle := hiff.mp hread 0 _ List.mem_cons_self
  rw [lagged_length] at hle
  exact absurd hle (by decide)

end ReadBack

end Ipc
end OpenRelay
