/-
# The pseudo-terminal scanner

The scanner walks the output of a session's child once, chunk by chunk
(`session/scan.rs`). It copies plain text, passes on the sequences a client's
terminal should see, removes terminal protocol traffic and answers the probes
among it, and keeps the beginning of a sequence that the chunk cuts off for the
next chunk. A beginning that grows past a cap is released as it is.

Each recogniser looks at the text from its introducer on and says what the
sequence comes to (`Step`), or that it is cut off. On Windows the escape-less
forms of ConPTY are recognised too (`bare`).
-/
import Mathlib.Algebra.Group.Nat.Defs
import OpenRelay.Pty.Signals

namespace OpenRelay
namespace Pty

def esc : UInt8 := 0x1b

def bel : UInt8 := 0x07

def maxPendingEscapeBytes : ℕ := 4096

/-- Probes that need a reply. -/
inductive TerminalQuery where
  | cursorPositionReport
  | deviceStatusReport
  | foregroundColor
  | backgroundColor
  deriving DecidableEq, Repr

/-- What a recognised sequence comes to. -/
structure Step where
  /-- The bytes it takes of the input. -/
  len : ℕ
  filtered : Bytes := []
  queries : List TerminalQuery := []
  responses : List Bytes := []
  /-- How many of the filtered bytes are no screen activity. -/
  signalBytes : ℕ := 0
  signals : List SignalOp := []
  deriving DecidableEq, Repr

/-- The sequence is removed. -/
def Step.strip (len : ℕ) : Step := { len := len }

/-- The sequence is passed on as it is. -/
def Step.emit (bytes : Bytes) : Step := { len := bytes.length, filtered := bytes }

/-! ### Control sequences -/

/-- A byte of a sequence's parameters. -/
def isParam (b : UInt8) : Bool := 0x30 ≤ b && b ≤ 0x3f

/-- A byte between the parameters and the last byte. -/
def isIntermediate (b : UInt8) : Bool := 0x20 ≤ b && b ≤ 0x2f

/-- A byte that ends a sequence. -/
def isFinal (b : UInt8) : Bool := 0x40 ≤ b && b ≤ 0x7e

/-- What is done with a sequence that is recognised. -/
inductive CsiAction where
  | emit
  | strip
  | stripAndAnswer (query : TerminalQuery)
  deriving DecidableEq, Repr

/-- Two numbers and a semicolon between them. -/
def isTwoNumericParams (digits : Bytes) : Bool :=
  match splitOn 59 digits with
  | [first, second] => !first.isEmpty && !second.isEmpty && first.all isDigit && second.all isDigit
  | _ => false

/-- The number before the first semicolon, if it fits 32 bits. -/
def leadingNumber (digits : Bytes) : Option ℕ :=
  match splitOn 59 digits with
  | [] => none
  | first :: _ =>
    if first.isEmpty || !first.all isDigit then none
    else if number first < 2 ^ 32 then some (number first) else none

/-- Decide what to do with one parsed control sequence. -/
def classifyCsi (params intermediates : Bytes) (finalByte : UInt8) : CsiAction :=
  let mark : UInt8 :=
    match params.head? with
    | some b => if 0x3c ≤ b && b ≤ 0x3f then b else 0
    | none => 0
  let digits := if mark = 0 then params else params.drop 1
  -- R: cursor position report
  if finalByte = 82 ∧ (mark = 0 ∨ mark = 63) ∧ isTwoNumericParams digits then .strip
  -- n: device status
  else if finalByte = 110 ∧ mark = 63 then .strip
  else if finalByte = 110 ∧ mark = 0 ∧ digits ≠ [] ∧ digits.all isDigit then
    if digits = ascii "6" then .stripAndAnswer .cursorPositionReport
    else if digits = ascii "5" then .stripAndAnswer .deviceStatusReport
    else .strip
  -- c: device attributes
  else if finalByte = 99 then .strip
  -- p: private mode report
  else if finalByte = 112 ∧ mark = 63 ∧ intermediates = ascii "$" then .strip
  -- q: terminal version
  else if finalByte = 113 ∧ mark = 62 then .strip
  -- u: keyboard protocol
  else if finalByte = 117 ∧ mark = 63 then .strip
  -- t: window size in pixels
  else if finalByte = 116 ∧ mark = 0 ∧
      (leadingNumber digits).any (fun n => decide (14 ≤ n ∧ n ≤ 19)) then .strip
  else .emit

/-- `CSI params intermediates final`, from its introducer on. -/
def csi (data : Bytes) : Option Step :=
  let params := (data.drop 2).takeWhile isParam
  let afterParams := (data.drop 2).dropWhile isParam
  let intermediates := afterParams.takeWhile isIntermediate
  match afterParams.dropWhile isIntermediate with
  | [] => none
  | finalByte :: _ =>
    if !isFinal finalByte then some (.emit (data.take 2))
    else
      let len := 2 + params.length + intermediates.length + 1
      match classifyCsi params intermediates finalByte with
      | .emit => some { Step.emit (data.take len) with
          signals := if finalByte = 113 ∧ intermediates = ascii " " then [.cursorStyle params] else [] }
      | .strip => some (.strip len)
      | .stripAndAnswer query => some { Step.strip len with queries := [query] }

/-! ### Operating system commands -/

/-- Where a string ends. -/
inductive Terminator where
  /-- The text ends first. -/
  | missing
  /-- Another escape stands in it. -/
  | embedded
  /-- After `payload` bytes, with a terminator of `len` bytes. -/
  | found (payload len : ℕ)
  deriving DecidableEq, Repr

/-- Where a command's text ends. Another escape in it ends the search. -/
def findTerminator (escaped : Bool) : Bytes → Terminator
  | [] => .missing
  | b :: rest =>
    if b = bel then .found 0 1
    else if b = esc then
      match rest with
      | [] => .missing
      | c :: _ => if escaped ∧ c = 92 then .found 0 2 else .embedded
    else
      match findTerminator escaped rest with
      | .found payload len => .found (payload + 1) len
      | .missing => .missing
      | .embedded => .embedded

/-- Titles and progress. -/
def isPassthroughOsc (ps payload : Bytes) : Bool :=
  decide (ps = ascii "0" ∨ ps = ascii "1" ∨ ps = ascii "2") || (decide (ps = ascii "9") && decide (ascii "4;" <+: payload))

def queryReply : Bytes := ascii "?:states=idle,working,done,blocked,error:kinds=permission,question,auth"

/-- A complete command: `semi` says whether a semicolon follows its number. -/
def oscStep (len : ℕ) (ps : Bytes) (semi : Bool) (payload terminator : Bytes) : Step :=
  if ps = ascii "7501" then
    if semi ∧ len ≤ maxPendingEscapeBytes then
      if payload = ascii "?" then
        { Step.strip len with responses := [esc :: ascii "]7501;" ++ queryReply ++ terminator] }
      else { Step.strip len with signals := [.osc ps payload] }
    else .strip len
  else
    let prompt : List SignalOp :=
      if ps = ascii "133" ∧ (splitOn 59 payload).head? = some (ascii "A") then [.dropTransient] else []
    if payload.head? = some 63 then
      { Step.strip len with
        queries := if ps = ascii "10" then [.foregroundColor]
          else if ps = ascii "11" then [.backgroundColor] else []
        signals := prompt }
    else if ps = ascii "10" ∨ ps = ascii "11" then
      { Step.strip len with signals := prompt ++ [.osc ps payload] }
    else if !semi ∨ !isPassthroughOsc ps payload then { Step.strip len with signals := prompt }
    else
      let bytes := esc :: 93 :: ps ++ 59 :: payload ++ terminator
      { len := len, filtered := bytes, signalBytes := bytes.length, signals := prompt ++ [.osc ps payload] }

/-- A semicolon separates the number from the payload. -/
def hasSemi (afterPs : Bytes) : Bool := decide (afterPs.head? = some 59)

/-- What is behind the semicolon. -/
def afterSemi (afterPs : Bytes) : Bytes := if hasSemi afterPs then afterPs.drop 1 else afterPs

/-- `OSC ps ; payload terminator`, after an introducer of `introLen` bytes. -/
def osc (data : Bytes) (introLen : ℕ) (escaped : Bool) : Option Step :=
  let ps := (data.drop introLen).takeWhile isDigit
  let afterPs := (data.drop introLen).dropWhile isDigit
  if ps.length = 0 ∨ 5 < ps.length then
    if afterPs = [] then none else some (.emit (data.take introLen))
  else
    let text := afterSemi afterPs
    match findTerminator escaped text with
    | .missing => none
    | .embedded => some (.emit (data.take introLen))
    | .found payload len =>
      some (oscStep (data.length - text.length + payload + len) ps (hasSemi afterPs)
        (text.take payload) ((text.drop payload).take len))

/-! ### Other sequences -/

/-- The length of a string body with its terminator. -/
def stringLen : Bytes → Option ℕ
  | [] => none
  | b :: rest =>
    if b = bel then some 1
    else if b = esc then
      match rest with
      | [] => none
      | c :: _ => if c = 92 then some 2 else (stringLen rest).map (· + 1)
    else (stringLen rest).map (· + 1)

/-- `DCS`, `APC`, `PM` and `SOS` are removed up to their terminator. -/
def stringSequence (data : Bytes) : Option Step := (stringLen (data.drop 2)).map fun n => .strip (2 + n)

/-- A sequence that starts with an escape. -/
def escape (data : Bytes) : Option Step :=
  match data[1]? with
  | none => none
  | some introducer =>
    if introducer = 91 then csi data
    else if introducer = 93 then osc data 2 true
    else if introducer = 80 ∨ introducer = 95 ∨ introducer = 94 ∨ introducer = 88 then stringSequence data
    else if introducer = 99 then some { Step.emit (data.take 2) with signals := [.clearStatuses] }
    else some (.emit (data.take 2))

/-- The cursor report `[row;colR` and the probes `[5n`, `[6n` without their escape;
anything else is a literal bracket. -/
def bareCsi (data : Bytes) : Step :=
  let literal := Step.emit (data.take 1)
  let questioned := decide (data[1]? = some 63)
  let text := data.drop (if questioned then 2 else 1)
  let digits := text.takeWhile isDigit
  let after := text.dropWhile isDigit
  let before := (if questioned then 2 else 1) + digits.length
  if digits = [] then literal
  else match after with
    | [] => literal
    | b :: more =>
      if b = 110 then if digits = ascii "5" ∨ digits = ascii "6" then .strip (before + 1) else literal
      else if b ≠ 59 then literal
      else
        let second := more.takeWhile isDigit
        if second = [] ∨ (more.dropWhile isDigit).head? ≠ some 82 then literal
        else .strip (before + 1 + second.length + 1)

/-- A command whose escape has been eaten. -/
def bareOsc (data : Bytes) : Option Step := osc data 1 false

/-! ### The scan -/

/-- The byte may introduce a sequence. -/
def introduces (bare : Bool) (b : UInt8) : Bool := b == esc || (bare && (b == 91 || b == 93))

/-- The sequence at an introducer. -/
def sequence (data : Bytes) : Option Step :=
  match data.head? with
  | none => none
  | some b => if b = esc then escape data else if b = 91 then some (bareCsi data) else bareOsc data

/-- What a scan gives out. -/
structure ScanOut where
  filtered : Bytes
  queries : List TerminalQuery
  responses : List Bytes
  signalBytes : ℕ
  deriving DecidableEq, Repr

/-- Nothing. -/
def ScanOut.empty : ScanOut := ⟨[], [], [], 0⟩

def ScanOut.meaningfulBytes (out : ScanOut) : ℕ := out.filtered.length - out.signalBytes

/-- What the scanner keeps between two reads. -/
structure PtyScanner where
  pending : Bytes
  signals : TerminalSignals
  signalsDirty : Bool
  deriving DecidableEq, Repr

namespace PtyScanner

def new : PtyScanner := ⟨[], .default, false⟩

/-- No sequence is unfinished. -/
def isIdle (s : PtyScanner) : Bool := s.pending.isEmpty

/-- Apply one change to the signals. -/
def signal (s : PtyScanner) (op : SignalOp) : PtyScanner :=
  { s with signals := (op.apply s.signals).1, signalsDirty := s.signalsDirty || (op.apply s.signals).2 }

end PtyScanner

def ScanOut.text (out : ScanOut) (bytes : Bytes) : ScanOut := { out with filtered := out.filtered ++ bytes }

/-- What a sequence comes to is added. -/
def ScanOut.step (out : ScanOut) (step : Step) : ScanOut where
  filtered := out.filtered ++ step.filtered
  queries := out.queries ++ step.queries
  responses := out.responses ++ step.responses
  signalBytes := out.signalBytes + step.signalBytes

def PtyScanner.step (s : PtyScanner) (step : Step) : PtyScanner := step.signals.foldl PtyScanner.signal s

/-- Scan a text: copy up to the next introducer, then take a sequence. Every turn
takes a byte. -/
def scanSlice (bare : Bool) : ℕ → Bytes → PtyScanner × ScanOut → PtyScanner × ScanOut
  | 0, _, acc => acc
  | turns + 1, data, (s, out) =>
    let plain := data.takeWhile fun b => !introduces bare b
    let rest := data.dropWhile fun b => !introduces bare b
    if rest = [] then (s, out.text plain)
    else match sequence rest with
      | some step => scanSlice bare turns (rest.drop step.len) (s.step step, (out.text plain).step step)
      | none =>
        -- no real sequence is that long
        if maxPendingEscapeBytes ≤ rest.length then (s, (out.text plain).text rest)
        else ({ s with pending := rest }, out.text plain)

/-- Scan one chunk, after what was kept of the chunks before. -/
def PtyScanner.scan (bare : Bool) (s : PtyScanner) (data : Bytes) : PtyScanner × ScanOut :=
  scanSlice bare ((s.pending ++ data).length + 1) (s.pending ++ data) ({ s with pending := [] }, .empty)

end Pty
end OpenRelay
