/-
# Frames of the attach WebSocket

The daemon encodes what it tells a browser in binary frames (`http/ws.rs`), and
the web client decodes them (`ws-frames.ts`). Both are written by hand, byte
offset by byte offset. They agree on every message but three kinds: the end of a
session without an exit code, whose final offset the decoder does not find; an
error text that begins with a byte order mark, which the text decoder drops; and
numbers of 64 bits that a double does not hold (`round_trip_iff`).

Key theorems: `parse_init`, `parse_sessionEnded_none`, `carried_iff`.
-/
import OpenRelay.Basic
import OpenRelay.Lib.BigEndian
import OpenRelay.Lib.Utf8

namespace OpenRelay
namespace Ws

open BigEndian

def wsFrameInit : UInt8 := 1
def wsFrameData : UInt8 := 2
def wsFrameModeChanged : UInt8 := 3
def wsFrameResized : UInt8 := 4
def wsFrameSessionEnded : UInt8 := 5
def wsFrameError : UInt8 := 6
def wsFramePong : UInt8 := 7

def wsFlagAppCursorKeys : UInt8 := (1 : UInt8) <<< 0
def wsFlagBracketedPasteMode : UInt8 := (1 : UInt8) <<< 1
def wsFlagMouseReport : UInt8 := (1 : UInt8) <<< 2
def wsFlagSgrMouse : UInt8 := (1 : UInt8) <<< 3
def wsFlagFocusEvents : UInt8 := (1 : UInt8) <<< 4

/-- The child's modes that decide what a terminal sends it. -/
structure WsModes where
  appCursorKeys : Bool
  bracketedPasteMode : Bool
  mouseReport : Bool
  sgrMouse : Bool
  focusEvents : Bool
  deriving DecidableEq, Repr

/-- What the daemon sends. -/
inductive ServerMessage where
  | init (data : Bytes) (endOffset incarnation : UInt64) (running : Bool) (modes : WsModes)
      (attachmentId : UInt64)
  | data (offset : UInt64) (data : Bytes)
  | modeChanged (modes : WsModes)
  | resized (rows cols : UInt16)
  | sessionEnded (exitCode : Option Int32) (finalOffset : UInt64)
  | error (message : String)
  | pong
  deriving DecidableEq

/-! ### The encoder -/

def modeFlags (modes : WsModes) : UInt8 :=
  (if modes.appCursorKeys then wsFlagAppCursorKeys else 0) |||
  (if modes.bracketedPasteMode then wsFlagBracketedPasteMode else 0) |||
  (if modes.mouseReport then wsFlagMouseReport else 0) |||
  (if modes.sgrMouse then wsFlagSgrMouse else 0) |||
  (if modes.focusEvents then wsFlagFocusEvents else 0)

/-- The presence of an exit code, and the code if there is one. -/
def encodeExitCode : Option Int32 → Bytes
  | some code => 1 :: beBytes 4 code.toBitVec.toNat
  | none => [0]

/-- A message's bytes, numbers with the high byte first. -/
def encodeServerMessage : ServerMessage → Bytes
  | .init data endOffset incarnation running modes attachmentId =>
    [wsFrameInit, modeFlags modes] ++ beBytes 8 endOffset.toNat ++ beBytes 8 incarnation.toNat ++
      [if running then 1 else 0] ++ beBytes 8 attachmentId.toNat ++ data
  | .data offset data => [wsFrameData] ++ beBytes 8 offset.toNat ++ data
  | .modeChanged modes => [wsFrameModeChanged, modeFlags modes]
  | .resized rows cols => [wsFrameResized] ++ beBytes 2 rows.toNat ++ beBytes 2 cols.toNat
  | .sessionEnded exitCode finalOffset =>
    [wsFrameSessionEnded] ++ encodeExitCode exitCode ++ beBytes 8 finalOffset.toNat
  | .error message => [wsFrameError] ++ Utf8.encode message.toList
  | .pong => [wsFramePong]

/-! ### The decoder -/

/-- A frame as the client has it. The numbers are doubles that hold integers. -/
inductive ServerFrame where
  | init (modes : WsModes) (endOffset incarnation : ℕ) (running : Bool) (attachmentId : ℕ) (data : Bytes)
  | data (offset : ℕ) (data : Bytes)
  | modeChanged (modes : WsModes)
  | resized (rows cols : ℕ)
  | sessionEnded (exitCode : Option ℤ) (finalOffset : ℕ)
  | error (message : String)
  | pong
  deriving DecidableEq

/-- What the decoder throws. -/
inductive FrameError where
  | truncatedInit (length : ℕ)
  | truncatedData (length : ℕ)
  | truncatedModeChanged
  | truncatedResized (length : ℕ)
  | truncatedSessionEnded
  | unknownTag (tag : UInt8)
  deriving DecidableEq, Repr

def FrameError.message : FrameError → String
  | truncatedInit length => "truncated init frame: " ++ toString length ++ " bytes"
  | truncatedData length => "truncated data frame: " ++ toString length ++ " bytes"
  | truncatedModeChanged => "truncated mode-changed frame"
  | truncatedResized length => "truncated resized frame: " ++ toString length ++ " bytes"
  | truncatedSessionEnded => "truncated session-ended frame"
  | unknownTag tag => "unknown server frame tag " ++ toString tag.toNat

def wsInitHeaderLen : ℕ := 27
def wsDataHeaderLen : ℕ := 9
def wsEndedLen : ℕ := 14

/-- `w` bytes of the view as a number. The frame's length is checked before each read. -/
def getUint (w : ℕ) (bytes : Bytes) (byteOffset : ℕ) : ℕ := beNat ((bytes.drop byteOffset).take w)

/-- The same four bytes as a signed number. -/
def getInt32 (bytes : Bytes) (byteOffset : ℕ) : ℤ := (BitVec.ofNat 32 (getUint 4 bytes byteOffset)).toInt

/-- `Number` of an integer: the nearest double, of two the one with an even significand. A
double has 53 bits. -/
def toNumber (n : ℕ) : ℕ :=
  let unit := 2 ^ (n.log2 - 52)
  if unit < 2 * (n % unit) ∨ unit = 2 * (n % unit) ∧ n / unit % 2 = 1 then (n / unit + 1) * unit
  else n / unit * unit

def byteOrderMark : Char := Char.ofNat 0xFEFF

/-- A `TextDecoder` with its defaults: UTF-8 with replacement, without a leading mark. -/
def textDecode (bytes : Bytes) : String :=
  match Utf8.decode bytes with
  | [] => String.ofList []
  | c :: cs => if c = byteOrderMark then String.ofList cs else String.ofList (c :: cs)

def parseFlags (flags : UInt8) : WsModes where
  appCursorKeys := flags &&& wsFlagAppCursorKeys != 0
  bracketedPasteMode := flags &&& wsFlagBracketedPasteMode != 0
  mouseReport := flags &&& wsFlagMouseReport != 0
  sgrMouse := flags &&& wsFlagSgrMouse != 0
  focusEvents := flags &&& wsFlagFocusEvents != 0

/-- `none` is the `null` of an empty payload. -/
def parseServerFrame (bytes : Bytes) : Except FrameError (Option ServerFrame) :=
  match bytes with
  | [] => .ok none
  | tag :: _ =>
    if tag = wsFrameInit then
      if bytes.length < wsInitHeaderLen then .error (.truncatedInit bytes.length)
      else .ok (some (.init (parseFlags (bytes.getD 1 0)) (toNumber (getUint 8 bytes 2))
        (toNumber (getUint 8 bytes 10)) (bytes.getD 18 0 == 1) (toNumber (getUint 8 bytes 19))
        (bytes.drop wsInitHeaderLen)))
    else if tag = wsFrameData then
      if bytes.length < wsDataHeaderLen then .error (.truncatedData bytes.length)
      else .ok (some (.data (toNumber (getUint 8 bytes 1)) (bytes.drop wsDataHeaderLen)))
    else if tag = wsFrameModeChanged then
      if bytes.length < 2 then .error .truncatedModeChanged
      else .ok (some (.modeChanged (parseFlags (bytes.getD 1 0))))
    else if tag = wsFrameResized then
      if bytes.length < 5 then .error (.truncatedResized bytes.length)
      else .ok (some (.resized (getUint 2 bytes 1) (getUint 2 bytes 3)))
    else if tag = wsFrameSessionEnded then
      if bytes.length < 2 then .error .truncatedSessionEnded
      else
        let hasExitCode := bytes.getD 1 0 == 1
        .ok (some (.sessionEnded
          (if hasExitCode ∧ 6 ≤ bytes.length then some (getInt32 bytes 2) else none)
          -- the offset of a full frame, also where the exit code is left out
          (if wsEndedLen ≤ bytes.length then toNumber (getUint 8 bytes 6) else 0)))
    else if tag = wsFrameError then .ok (some (.error (textDecode (bytes.drop 1))))
    else if tag = wsFramePong then .ok (some .pong)
    else .error (.unknownTag tag)

/-! ### What the client should have -/

/-- The frame that carries exactly the fields of a message. -/
def ServerMessage.frame : ServerMessage → ServerFrame
  | .init bytes endOffset incarnation running modes attachmentId =>
    .init modes endOffset.toNat incarnation.toNat running attachmentId.toNat bytes
  | .data offset bytes => .data offset.toNat bytes
  | .modeChanged modes => .modeChanged modes
  | .resized rows cols => .resized rows.toNat cols.toNat
  | .sessionEnded exitCode finalOffset => .sessionEnded (exitCode.map Int32.toInt) finalOffset.toNat
  | .error message => .error message
  | .pong => .pong

/-- The stream offset that a message carries. -/
def ServerMessage.streamOffset : ServerMessage → ℕ
  | .init _ endOffset _ _ _ _ => endOffset.toNat
  | .data offset _ => offset.toNat
  | .sessionEnded _ finalOffset => finalOffset.toNat
  | _ => 0

/-- The client's frame carries exactly the message's fields. -/
def Carried (m : ServerMessage) : Prop :=
  parseServerFrame (encodeServerMessage m) = .ok (some m.frame)

/-- No bit is set below the first 53, so a double holds the number. -/
def Exact (n : ℕ) : Prop := n % 2 ^ (n.log2 - 52) = 0

instance (n : ℕ) : Decidable (Exact n) := inferInstanceAs (Decidable (_ = _))

/-- The messages that are read as they are: an end without an exit code is at offset 0, an
error text does not begin with a byte order mark, and a double holds the counters. -/
def Readable : ServerMessage → Prop
  | .init _ _ incarnation _ _ attachmentId => Exact incarnation.toNat ∧ Exact attachmentId.toNat
  | .sessionEnded none finalOffset => finalOffset = 0
  | .error message => message.toList.head? ≠ some byteOrderMark
  | _ => True

/-! ### Numbers -/

theorem toNumber_eq_iff (n : ℕ) : toNumber n = n ↔ Exact n := by
  unfold toNumber Exact
  have hunit : 0 < 2 ^ (n.log2 - 52) := Nat.two_pow_pos _
  generalize 2 ^ (n.log2 - 52) = unit at hunit
  have hdiv := Nat.div_add_mod n unit
  have hlt := Nat.mod_lt n hunit
  rw [Nat.mul_comm] at hdiv
  simp only []
  split
  next hup =>
    have hsucc : (n / unit + 1) * unit = n / unit * unit + unit := Nat.succ_mul _ _
    omega
  next => omega

/-- A double holds every number of 53 bits. -/
theorem exact_of_lt {n : ℕ} (h : n < 2 ^ 53) : Exact n := by
  unfold Exact
  rcases Nat.eq_zero_or_pos n with h0 | hpos
  · rw [h0, Nat.zero_mod]
  · have hlog : n.log2 < 53 := (Nat.log2_lt (by omega)).mpr h
    have hzero : n.log2 - 52 = 0 := by omega
    rw [hzero, pow_zero, Nat.mod_one]

theorem toNumber_of_lt {n : ℕ} (h : n < 2 ^ 53) : toNumber n = n :=
  (toNumber_eq_iff n).mpr (exact_of_lt h)

/-! ### Reading the fields -/

/-- A number is read where it was written. -/
theorem getUint_eq {w n k : ℕ} {bytes before rest : Bytes} (hbytes : bytes = before ++ (beBytes w n ++ rest))
    (hk : before.length = k) (h : n < 256 ^ w) : getUint w bytes k = n := by
  unfold getUint
  rw [hbytes, List.drop_left' hk, List.take_left' (beBytes_length w n), beNat_beBytes h]

theorem parseFlags_modeFlags (modes : WsModes) : parseFlags (modeFlags modes) = modes := by
  obtain ⟨a, b, c, d, e⟩ := modes
  cases a <;> cases b <;> cases c <;> cases d <;> cases e <;> decide

/-! ### One message of each kind -/

theorem parse_of_init {wire rest : Bytes} (hwire : wire = wsFrameInit :: rest)
    (hlong : ¬wire.length < wsInitHeaderLen) :
    parseServerFrame wire = .ok (some (.init (parseFlags (wire.getD 1 0)) (toNumber (getUint 8 wire 2))
      (toNumber (getUint 8 wire 10)) (wire.getD 18 0 == 1) (toNumber (getUint 8 wire 19))
      (wire.drop wsInitHeaderLen))) := by
  subst hwire
  exact if_neg hlong

theorem parse_of_data {wire rest : Bytes} (hwire : wire = wsFrameData :: rest)
    (hlong : ¬wire.length < wsDataHeaderLen) :
    parseServerFrame wire =
      .ok (some (.data (toNumber (getUint 8 wire 1)) (wire.drop wsDataHeaderLen))) := by
  subst hwire
  exact if_neg hlong

theorem parse_of_sessionEnded {wire rest : Bytes} (hwire : wire = wsFrameSessionEnded :: rest)
    (hlong : ¬wire.length < 2) :
    parseServerFrame wire = .ok (some (.sessionEnded
      (if (wire.getD 1 0 == 1) = true ∧ 6 ≤ wire.length then some (getInt32 wire 2) else none)
      (if wsEndedLen ≤ wire.length then toNumber (getUint 8 wire 6) else 0))) := by
  subst hwire
  exact if_neg hlong

theorem parse_init (bytes : Bytes) (endOffset incarnation : UInt64) (running : Bool) (modes : WsModes)
    (attachmentId : UInt64) :
    parseServerFrame (encodeServerMessage (.init bytes endOffset incarnation running modes attachmentId)) =
      .ok (some (.init modes (toNumber endOffset.toNat) (toNumber incarnation.toNat) running
        (toNumber attachmentId.toNat) bytes)) := by
  generalize hw : encodeServerMessage (.init bytes endOffset incarnation running modes attachmentId) = wire
  have hlong : ¬wire.length < wsInitHeaderLen := by
    rw [← hw]
    simp [encodeServerMessage, wsInitHeaderLen]
    omega
  have hflags : parseFlags (wire.getD 1 0) = modes := by
    rw [← hw]
    exact parseFlags_modeFlags modes
  have hend : getUint 8 wire 2 = endOffset.toNat := by
    have hwire : wire = [wsFrameInit, modeFlags modes] ++ (beBytes 8 endOffset.toNat ++
        (beBytes 8 incarnation.toNat ++ [if running then 1 else 0] ++ beBytes 8 attachmentId.toNat ++
          bytes)) := by
      simp [← hw, encodeServerMessage]
    exact getUint_eq hwire rfl endOffset.toNat_lt
  have hinc : getUint 8 wire 10 = incarnation.toNat := by
    have hwire : wire = ([wsFrameInit, modeFlags modes] ++ beBytes 8 endOffset.toNat) ++
        (beBytes 8 incarnation.toNat ++ ([if running then 1 else 0] ++ beBytes 8 attachmentId.toNat ++
          bytes)) := by
      simp [← hw, encodeServerMessage]
    exact getUint_eq hwire (by simp) incarnation.toNat_lt
  have hrun : (wire.getD 18 0 == 1) = running := by
    have hwire : wire = ([wsFrameInit, modeFlags modes] ++ beBytes 8 endOffset.toNat ++
        beBytes 8 incarnation.toNat) ++ ((if running then 1 else 0) ::
          (beBytes 8 attachmentId.toNat ++ bytes)) := by
      simp [← hw, encodeServerMessage]
    have hget : wire.getD 18 0 = if running then 1 else 0 := by
      rw [hwire, List.getD_eq_getElem?_getD, List.getElem?_append_right (by simp)]
      simp
    rw [hget]
    cases running <;> rfl
  have hatt : getUint 8 wire 19 = attachmentId.toNat := by
    have hwire : wire = ([wsFrameInit, modeFlags modes] ++ beBytes 8 endOffset.toNat ++
        beBytes 8 incarnation.toNat ++ [if running then 1 else 0]) ++
          (beBytes 8 attachmentId.toNat ++ bytes) := by
      simp [← hw, encodeServerMessage]
    exact getUint_eq hwire (by simp) attachmentId.toNat_lt
  have hdata : wire.drop wsInitHeaderLen = bytes := by
    rw [← hw]
    exact List.drop_left' (by simp [wsInitHeaderLen])
  calc parseServerFrame wire
      = .ok (some (.init (parseFlags (wire.getD 1 0)) (toNumber (getUint 8 wire 2))
          (toNumber (getUint 8 wire 10)) (wire.getD 18 0 == 1) (toNumber (getUint 8 wire 19))
          (wire.drop wsInitHeaderLen))) := parse_of_init hw.symm hlong
    _ = _ := by rw [hflags, hend, hinc, hrun, hatt, hdata]

theorem parse_data (offset : UInt64) (bytes : Bytes) :
    parseServerFrame (encodeServerMessage (.data offset bytes)) =
      .ok (some (.data (toNumber offset.toNat) bytes)) := by
  generalize hw : encodeServerMessage (.data offset bytes) = wire
  have hwire : wire = [wsFrameData] ++ (beBytes 8 offset.toNat ++ bytes) := by
    simp [← hw, encodeServerMessage]
  have hlong : ¬wire.length < wsDataHeaderLen := by
    simp [hwire, wsDataHeaderLen]
  have hoffset : getUint 8 wire 1 = offset.toNat := getUint_eq hwire rfl offset.toNat_lt
  have hdata : wire.drop wsDataHeaderLen = bytes := by
    rw [← hw]
    exact List.drop_left' (by simp [wsDataHeaderLen])
  rw [parse_of_data hwire hlong, hoffset, hdata]

theorem parse_modeChanged (modes : WsModes) :
    parseServerFrame (encodeServerMessage (.modeChanged modes)) = .ok (some (.modeChanged modes)) := by
  show Except.ok (some (ServerFrame.modeChanged (parseFlags (modeFlags modes)))) = _
  rw [parseFlags_modeFlags]

theorem parse_resized (rows cols : UInt16) :
    parseServerFrame (encodeServerMessage (.resized rows cols)) =
      .ok (some (.resized rows.toNat cols.toNat)) := by
  generalize hw : encodeServerMessage (.resized rows cols) = wire
  have hrows : getUint 2 wire 1 = rows.toNat := by
    have hwire : wire = [wsFrameResized] ++ (beBytes 2 rows.toNat ++ beBytes 2 cols.toNat) := by
      simp [← hw, encodeServerMessage]
    exact getUint_eq hwire rfl rows.toNat_lt
  have hcols : getUint 2 wire 3 = cols.toNat := by
    have hwire : wire = ([wsFrameResized] ++ beBytes 2 rows.toNat) ++ (beBytes 2 cols.toNat ++ []) := by
      simp [← hw, encodeServerMessage]
    exact getUint_eq hwire (by simp) cols.toNat_lt
  have hparse : parseServerFrame wire = .ok (some (.resized (getUint 2 wire 1) (getUint 2 wire 3))) := by
    rw [← hw]
    rfl
  rw [hparse, hrows, hcols]

theorem getInt32_eq {bytes before rest : Bytes} {k : ℕ} {code : Int32}
    (hbytes : bytes = before ++ (beBytes 4 code.toBitVec.toNat ++ rest)) (hk : before.length = k) :
    getInt32 bytes k = code.toInt := by
  unfold getInt32
  rw [getUint_eq hbytes hk code.toBitVec.isLt, BitVec.ofNat_toNat, BitVec.setWidth_eq]
  rfl

/-- The end of a session that has an exit code is a frame of full length. -/
theorem parse_sessionEnded_some (code : Int32) (finalOffset : UInt64) :
    parseServerFrame (encodeServerMessage (.sessionEnded (some code) finalOffset)) =
      .ok (some (.sessionEnded (some code.toInt) (toNumber finalOffset.toNat))) := by
  generalize hw : encodeServerMessage (.sessionEnded (some code) finalOffset) = wire
  have hwire : wire = [wsFrameSessionEnded, 1] ++ (beBytes 4 code.toBitVec.toNat ++
      beBytes 8 finalOffset.toNat) := by
    simp [← hw, encodeServerMessage, encodeExitCode]
  have hlen : wire.length = wsEndedLen := by
    simp [hwire, wsEndedLen]
  have hcode : getInt32 wire 2 = code.toInt := getInt32_eq hwire rfl
  have hoffset : getUint 8 wire 6 = finalOffset.toNat := by
    have hwire' : wire = ([wsFrameSessionEnded, 1] ++ beBytes 4 code.toBitVec.toNat) ++
        (beBytes 8 finalOffset.toNat ++ []) := by
      rw [hwire, List.append_nil, List.append_assoc]
    exact getUint_eq hwire' (by simp) finalOffset.toNat_lt
  have hflag : (wire.getD 1 0 == 1) = true := by
    rw [hwire]
    rfl
  have hshort : ¬wire.length < 2 := by rw [hlen]; decide
  have hsix : 6 ≤ wire.length := by rw [hlen]; decide
  rw [parse_of_sessionEnded hwire hshort, if_pos ⟨hflag, hsix⟩, if_pos hlen.ge, hcode, hoffset]

/-- Without an exit code the four bytes of the code are left out as well, and the frame is too
short for the decoder to look for the offset. -/
theorem parse_sessionEnded_none (finalOffset : UInt64) :
    parseServerFrame (encodeServerMessage (.sessionEnded none finalOffset)) =
      .ok (some (.sessionEnded none 0)) := by
  generalize hw : encodeServerMessage (.sessionEnded none finalOffset) = wire
  have hwire : wire = wsFrameSessionEnded :: 0 :: beBytes 8 finalOffset.toNat := by
    rw [← hw]
    rfl
  have hlen : wire.length = 10 := by simp [hwire]
  have hflag : ¬((wire.getD 1 0 == 1) = true ∧ 6 ≤ wire.length) := by
    rw [hwire]
    exact fun h => absurd h.1 Bool.false_ne_true
  have hshort : ¬wire.length < 2 := by rw [hlen]; decide
  have hended : ¬wsEndedLen ≤ wire.length := by rw [hlen]; decide
  rw [parse_of_sessionEnded hwire hshort, if_neg hflag, if_neg hended]

theorem parse_error (message : String) :
    parseServerFrame (encodeServerMessage (.error message)) =
      .ok (some (.error (textDecode (Utf8.encode message.toList)))) := rfl

/-- The text decoder keeps a text but for a mark at its head. -/
theorem textDecode_encode_iff (message : String) :
    textDecode (Utf8.encode message.toList) = message ↔ message.toList.head? ≠ some byteOrderMark := by
  unfold textDecode
  rw [Utf8.decode_encode]
  have hmessage : message = String.ofList message.toList := String.ofList_toList.symm
  generalize message.toList = cs at hmessage
  subst hmessage
  cases cs with
  | nil => simp
  | cons c cs =>
    simp only [List.head?_cons, ne_eq, Option.some.injEq]
    split
    next hc =>
      have hshorter : String.ofList cs ≠ String.ofList (c :: cs) := by
        intro h
        have hlen := congrArg String.toList h
        rw [String.toList_ofList, String.toList_ofList] at hlen
        exact List.cons_ne_self c cs hlen.symm
      exact iff_of_false hshorter (not_not_intro hc)
    next hc => exact iff_of_true rfl hc

/-- **When a message is carried.** -/
theorem carried_iff {m : ServerMessage} (h : m.streamOffset < 2 ^ 53) : Carried m ↔ Readable m := by
  unfold Carried
  cases m with
  | init bytes endOffset incarnation running modes attachmentId =>
    have hend : toNumber endOffset.toNat = endOffset.toNat := toNumber_of_lt h
    rw [parse_init, hend]
    simp [ServerMessage.frame, Readable, toNumber_eq_iff]
  | data offset bytes =>
    have hoffset : toNumber offset.toNat = offset.toNat := toNumber_of_lt h
    rw [parse_data, hoffset]
    simp [ServerMessage.frame, Readable]
  | modeChanged modes =>
    rw [parse_modeChanged]
    simp [ServerMessage.frame, Readable]
  | resized rows cols =>
    rw [parse_resized]
    simp [ServerMessage.frame, Readable]
  | sessionEnded exitCode finalOffset =>
    have hoffset : toNumber finalOffset.toNat = finalOffset.toNat := toNumber_of_lt h
    cases exitCode with
    | some code =>
      rw [parse_sessionEnded_some, hoffset]
      simp [ServerMessage.frame, Readable]
    | none =>
      rw [parse_sessionEnded_none]
      simp [ServerMessage.frame, Readable, ← UInt64.toNat_inj, eq_comm]
  | error message =>
    rw [parse_error]
    simp [ServerMessage.frame, Readable, textDecode_encode_iff]
  | pong => exact iff_of_true rfl trivial

theorem toInt_injective : Function.Injective (Option.map Int32.toInt) :=
  Option.map_injective fun _ _ => Int32.toInt_inj.mp

/-- No two messages have the same fields. -/
theorem frame_injective {m m' : ServerMessage} (h : m.frame = m'.frame) : m = m' := by
  unfold ServerMessage.frame at h
  cases m <;> cases m' <;> injection h
  case init.init hmodes hend hinc hrun hatt hdata =>
    rw [UInt64.toNat_inj.mp hend, UInt64.toNat_inj.mp hinc, UInt64.toNat_inj.mp hatt, hmodes, hrun, hdata]
  case data.data hoffset hdata => rw [UInt64.toNat_inj.mp hoffset, hdata]
  case modeChanged.modeChanged hmodes => rw [hmodes]
  case resized.resized hrows hcols => rw [UInt16.toNat_inj.mp hrows, UInt16.toNat_inj.mp hcols]
  case sessionEnded.sessionEnded hcode hoffset =>
    rw [toInt_injective hcode, UInt64.toNat_inj.mp hoffset]
  case error.error hmessage => rw [hmessage]
  case pong.pong => rfl

/-- **The round trip of the frames.** Two messages are carried, and told apart if they are
distinct, if and only if both are readable. -/
theorem round_trip_iff {m m' : ServerMessage} (h : m.streamOffset < 2 ^ 53) (h' : m'.streamOffset < 2 ^ 53) :
    (Carried m ∧ Carried m' ∧ (m ≠ m' →
      parseServerFrame (encodeServerMessage m) ≠ parseServerFrame (encodeServerMessage m'))) ↔
    Readable m ∧ Readable m' := by
  rw [← carried_iff h, ← carried_iff h']
  constructor
  · rintro ⟨hm, hm', -⟩
    exact ⟨hm, hm'⟩
  · rintro ⟨hm, hm'⟩
    refine ⟨hm, hm', fun hne heq => hne ?_⟩
    have hframe : Except.ok (some m.frame) = (Except.ok (some m'.frame) : Except FrameError _) :=
      calc Except.ok (some m.frame) = parseServerFrame (encodeServerMessage m) := hm.symm
        _ = parseServerFrame (encodeServerMessage m') := heq
        _ = Except.ok (some m'.frame) := hm'
    injection hframe with hframe
    exact frame_injective (Option.some.inj hframe)

/-- A session that failed after 4096 bytes with code -1, and one that ended without a code
before it wrote anything. -/
theorem round_trip_ends :
    let failed := ServerMessage.sessionEnded (some (-1)) 4096
    let silent := ServerMessage.sessionEnded none 0
    Carried failed ∧ Carried silent ∧
      parseServerFrame (encodeServerMessage failed) ≠ parseServerFrame (encodeServerMessage silent) := by
  have hends := @round_trip_iff (.sessionEnded (some (-1)) 4096) (.sessionEnded none 0)
    (by decide) (by decide)
  obtain ⟨hfailed, hsilent, hne⟩ := hends.mpr ⟨trivial, rfl⟩
  exact ⟨hfailed, hsilent, hne (by decide)⟩

/-- A session that ended without a code after 4096 bytes: the client reads offset 0, as it does
for one that wrote nothing. -/
theorem end_offset_lost : ¬∀ m m' : ServerMessage, m.streamOffset < 2 ^ 53 → m'.streamOffset < 2 ^ 53 →
    (Carried m ∧ Carried m' ∧ (m ≠ m' →
      parseServerFrame (encodeServerMessage m) ≠ parseServerFrame (encodeServerMessage m'))) := by
  intro h
  have hlost := (h (.sessionEnded none 4096) (.sessionEnded none 0) (by decide) (by decide)).2.2 (by decide)
  exact hlost (by decide +kernel)

end Ws
end OpenRelay
