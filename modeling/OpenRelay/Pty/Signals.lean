/-
# Terminal signals

The one-way notifications a session has most recently emitted: titles, progress,
cursor style, colours (`session/pty.rs`) and the reports of the program status
protocol (`session/program_status.rs`). The scanner feeds them with the sequences
it recognises; they never act back on the filtered stream.

The wall-clock epoch of the selected report is left out.
-/
import OpenRelay.Basic

namespace OpenRelay
namespace Pty

/-- The bytes of an ASCII text. -/
def ascii (s : String) : Bytes := s.toList.map fun c => UInt8.ofNat c.toNat

def isDigit (b : UInt8) : Bool := 48 ≤ b && b ≤ 57

def isLower (b : UInt8) : Bool := 97 ≤ b && b ≤ 122

def isAlphanumeric (b : UInt8) : Bool := isDigit b || isLower b || (65 ≤ b && b ≤ 90)

/-- White space of ASCII. -/
def isWhitespace (b : UInt8) : Bool := b == 32 || b == 9 || b == 10 || b == 12 || b == 13

/-- The parts of a text between separators; there is always one. -/
def splitOn (sep : UInt8) : Bytes → List Bytes
  | [] => [[]]
  | b :: bs =>
    if b = sep then [] :: splitOn sep bs
    else match splitOn sep bs with
      | [] => [[b]]
      | part :: parts => (b :: part) :: parts

/-- The text before and after the first separator. -/
def splitOnce (sep : UInt8) (text : Bytes) : Option (Bytes × Bytes) :=
  match text.dropWhile (· ≠ sep) with
  | [] => none
  | _ :: after => some (text.takeWhile (· ≠ sep), after)

/-- Without white space at the ends. -/
def trim (text : Bytes) : Bytes :=
  ((text.dropWhile isWhitespace).reverse.dropWhile isWhitespace).reverse

/-- The number of a text of digits. -/
def number (digits : Bytes) : ℕ := digits.foldl (fun n b => 10 * n + (b.toNat - 48)) 0

/-! ### Base64 -/

def base64Digit (b : UInt8) : Option ℕ :=
  if 65 ≤ b ∧ b ≤ 90 then some (b.toNat - 65)
  else if isLower b then some (b.toNat - 71)
  else if isDigit b then some (b.toNat + 4)
  else if b = 43 then some 62
  else if b = 47 then some 63
  else none

/-- Groups of four digits; the bits that are left over must be zero. -/
def decodeDigits : List ℕ → Option Bytes
  | [] => some []
  | [_] => none
  | [a, b] => if b % 16 = 0 then some [UInt8.ofNat (4 * a + b / 16)] else none
  | [a, b, c] =>
    if c % 4 = 0 then some [UInt8.ofNat (4 * a + b / 16), UInt8.ofNat (16 * (b % 16) + c / 4)] else none
  | a :: b :: c :: d :: more => do
    let rest ← decodeDigits more
    some (UInt8.ofNat (4 * a + b / 16) :: UInt8.ofNat (16 * (b % 16) + c / 4) ::
      UInt8.ofNat (64 * (c % 4) + d) :: rest)

/-- `STANDARD_NO_PAD`. -/
def decodeNoPad (text : Bytes) : Option Bytes := (text.mapM base64Digit).bind decodeDigits

/-- `STANDARD`: padded to groups of four. -/
def decodePadded (text : Bytes) : Option Bytes :=
  let digits := (text.reverse.dropWhile (· == 61)).reverse
  if text.length % 4 = 0 ∧ text.length < digits.length + 4 then decodeNoPad digits else none

def utf8 (bytes : Bytes) : Option String := String.fromUTF8? ⟨bytes.toArray⟩

/-! ### Program status -/

/-- What a program may report of itself. -/
inductive ProgramState where
  | idle
  | working
  | done
  | blocked
  | error
  deriving DecidableEq, Repr

/-- What a program may be blocked for. -/
inductive BlockedKind where
  | permission
  | question
  | auth
  deriving DecidableEq, Repr

/-- A program's report, as it is kept. -/
structure ProgramStatus where
  state : ProgramState
  id : Option Bytes
  kind : Option BlockedKind
  progress : Option ℕ
  app : Option Bytes
  title : Option String
  msg : Option String
  deriving DecidableEq, Repr

/-- A name: letters, digits and a few signs. -/
def isName (value : Bytes) : Bool :=
  !value.isEmpty && value.all fun b => isAlphanumeric b || (ascii "_.+-").contains b

def isControl (c : Char) : Bool := c.toNat < 32 || (127 ≤ c.toNat && c.toNat < 160)

/-- Invisible formatting and direction overrides. -/
def isInvisible (c : Char) : Bool :=
  let n := c.toNat
  n == 0x061c || (0x200b ≤ n && n ≤ 0x200f) || (0x202a ≤ n && n ≤ 0x202e) ||
    (0x2060 ≤ n && n ≤ 0x206f) || n == 0xfeff

/-- A label of a report: invalid, absent, or plain text. -/
def statusText (value : Bytes) (max : ℕ) : Option (Option String) :=
  if value.isEmpty then some none
  else do
    let bytes ← if value.getLast? = some 61 then decodePadded value else decodeNoPad value
    if max < bytes.length then none
    else do
      let text ← utf8 bytes
      if text.toList.any isControl then none
      else some (some (String.ofList (text.toList.filter fun c => !isInvisible c)))

/-- The last value of each key. -/
structure StatusFields where
  state : Option Bytes
  id : Option Bytes
  kind : Option Bytes
  progress : Option Bytes
  app : Option Bytes
  title : Option String
  msg : Option String

/-- Nothing has been read of a report. -/
def StatusFields.empty : StatusFields := ⟨none, none, none, none, none, none, none⟩

/-- A value that makes the whole report invalid, also if a later pair replaces
it. -/
def spoils (key value : Bytes) : Bool :=
  if key = ascii "id" then
    128 < value.length || 8 < (splitOn 47 value).length ||
      (splitOn 47 value).any fun segment => 32 < segment.length || !isName segment
  else if key = ascii "app" then 32 < value.length
  else if key = ascii "title" then 256 < value.length
  else if key = ascii "msg" then 2732 < value.length
  else false

def isValueByte (b : UInt8) : Bool := isAlphanumeric b || (ascii "_.,+/=-").contains b

/-- A pair is taken in: the field of its key has its value. A title or message that is no text fails the report. -/
def assign (fields : StatusFields) (key value : Bytes) : Option StatusFields :=
  if key = ascii "state" then some { fields with state := some value }
  else if key = ascii "id" then some { fields with id := some value }
  else if key = ascii "app" then some { fields with app := some value }
  else if key = ascii "title" then do
    let title ← statusText value 192
    some { fields with title := title }
  else if key = ascii "msg" then do
    let msg ← statusText value 2048
    some { fields with msg := msg }
  else if key = ascii "kind" then some { fields with kind := some value }
  else if key = ascii "progress" then some { fields with progress := some value }
  else some fields

/-- One `key=value` pair of a report; none if it makes the report invalid. -/
def readPair (fields : StatusFields) (pair : Bytes) : Option StatusFields :=
  match splitOnce 61 pair with
  | none => some fields
  | some (key, value) =>
    if 16 < (trim key).length then none
    else if (trim key).isEmpty || !(trim key).all isLower then some fields
    else if spoils (trim key) (trim value) then none
    else if !(trim value).all isValueByte then some fields
    else assign fields (trim key) (trim value)

def readPairs : StatusFields → List Bytes → Option StatusFields
  | fields, [] => some fields
  | fields, pair :: pairs => do
    let fields' ← readPair fields pair
    readPairs fields' pairs

/-- The state of a report; `clear` removes records instead. -/
inductive Reported where
  | state (state : ProgramState)
  | clear
  deriving DecidableEq, Repr

/-- What a state's name says. -/
def reportedState (value : Bytes) : Option Reported :=
  if value = ascii "idle" then some (.state .idle)
  else if value = ascii "working" then some (.state .working)
  else if value = ascii "done" then some (.state .done)
  else if value = ascii "blocked" then some (.state .blocked)
  else if value = ascii "error" then some (.state .error)
  else if value = ascii "clear" then some .clear
  else none

def blockedKind (value : Option Bytes) : Option BlockedKind :=
  if value = some (ascii "permission") then some .permission
  else if value = some (ascii "question") then some .question
  else if value = some (ascii "auth") then some .auth
  else none

def statusProgress (state : ProgramState) (value : Option Bytes) : Option ℕ :=
  (((value.filter fun v => !v.isEmpty && v.all isDigit).map number).filter (· ≤ 100)).filter
    fun _ => decide (state = .working ∨ state = .blocked)

/-- `parse`: the record of a report, or the records it clears. -/
def parseStatus (body : Bytes) : Option (Option Bytes × Option ProgramStatus) :=
  if 4088 < body.length then none
  else do
    let _ ← utf8 body
    let fields ← readPairs .empty (splitOn 58 body)
    let value ← fields.state
    match reportedState value with
    | none => none
    | some .clear => some (fields.id, none)
    | some (.state state) => some (fields.id, some {
        state := state, id := fields.id
        kind := if state = .blocked then blockedKind fields.kind else none
        progress := statusProgress state fields.progress
        app := fields.app.filter isName
        title := fields.title, msg := fields.msg })

def maxRecords : ℕ := 256

/-- The records, the least recently updated first. -/
structure ProgramStatuses where
  records : List ProgramStatus
  deriving DecidableEq, Repr

namespace ProgramStatuses

/-- The state that is shown goes first. -/
def priority : ProgramState → ℕ
  | .blocked => 5
  | .error => 4
  | .working => 3
  | .done => 2
  | .idle => 1

/-- The newest record of the highest priority. -/
def selected (records : List ProgramStatus) : Option ProgramStatus :=
  records.foldl (fun best r =>
    match best with
    | none => some r
    | some b => if priority b.state ≤ priority r.state then some r else some b) none

/-- The path above the last separator. -/
def parentPath (path : Bytes) : Option Bytes :=
  match path.reverse.dropWhile (· ≠ 47) with
  | [] => none
  | _ :: above => some above.reverse

/-- The app of the nearest ancestor that has one. -/
def ancestorApp (records : List ProgramStatus) : ℕ → Option Bytes → Option Bytes
  | 0, _ => none
  | _ + 1, none => none
  | turns + 1, some path =>
    match (records.find? fun r => decide (r.id = parentPath path)).bind ProgramStatus.app with
    | some app => some app
    | none => ancestorApp records turns (parentPath path)

/-- The record that is shown, with the application of the program above it if it names none. -/
def current (s : ProgramStatuses) : Option ProgramStatus :=
  (selected s.records).map fun r =>
    match r.app with
    | some _ => r
    | none => { r with app := ancestorApp s.records ((r.id.getD []).length + 1) r.id }

/-- The records that `p` holds of are removed; and whether there were any. -/
def removeWhere (s : ProgramStatuses) (p : ProgramStatus → Bool) : ProgramStatuses × Bool :=
  let kept := s.records.filter fun r => !p r
  (⟨kept⟩, decide (kept.length ≠ s.records.length))

def clear (s : ProgramStatuses) : ProgramStatuses × Bool := s.removeWhere fun _ => true

/-- Working and blocked records expire, done and error ones do not. -/
def dropTransient (s : ProgramStatuses) : ProgramStatuses × Bool :=
  s.removeWhere fun r => decide (r.state = .working ∨ r.state = .blocked)

/-- The record is the one named, or below it. -/
def underPath (id : Bytes) (r : ProgramStatus) : Bool :=
  match r.id with
  | none => false
  | some other => decide (other = id) || (decide (id <+: other) && decide (other[id.length]? = some 47))

/-- A report is taken in, or with a clear what is under its path removed. -/
def report (s : ProgramStatuses) (body : Bytes) : ProgramStatuses × Bool :=
  match parseStatus body with
  | none => (s, false)
  | some (id, none) =>
    s.removeWhere fun r =>
      match id with
      | none => true
      | some id => underPath id r
  | some (id, some record) =>
    let previous := s.records.find? fun r => decide (r.id = id)
    let others := s.records.eraseP fun r => decide (r.id = id)
    let kept := if others.length = maxRecords then others.drop 1 else others
    let s' : ProgramStatuses := ⟨kept ++ [record]⟩
    (s', decide (previous ≠ some record) || decide (s'.current ≠ s.current))

end ProgramStatuses

/-! ### Terminal signals -/

def maxRetainedSignalPayloadBytes : ℕ := 1024

/-- What is kept of the signals, for a client that comes later. -/
structure TerminalSignals where
  iconTitle : Option Bytes
  windowTitle : Option Bytes
  progress : Option Bytes
  cursorStyle : Option Bytes
  foreground : Option Bytes
  background : Option Bytes
  programStatuses : ProgramStatuses
  deriving DecidableEq, Repr

namespace TerminalSignals

def default : TerminalSignals := ⟨none, none, none, none, none, none, ⟨[]⟩⟩

/-- Record a retained command; the flag says whether anything changed. -/
def recordOsc (s : TerminalSignals) (ps payload : Bytes) : TerminalSignals × Bool :=
  if ps = ascii "7501" then
    let (statuses, changed) := s.programStatuses.report payload
    ({ s with programStatuses := statuses }, changed)
  else if maxRetainedSignalPayloadBytes < payload.length then (s, false)
  else if ps = ascii "0" then
    ({ s with iconTitle := some payload, windowTitle := some payload },
      decide (s.iconTitle ≠ some payload ∨ s.windowTitle ≠ some payload))
  else if ps = ascii "1" then ({ s with iconTitle := some payload }, decide (s.iconTitle ≠ some payload))
  else if ps = ascii "2" then ({ s with windowTitle := some payload }, decide (s.windowTitle ≠ some payload))
  else if ps = ascii "10" then
    let next := if payload = [] then none else some payload
    ({ s with foreground := next }, decide (s.foreground ≠ next))
  else if ps = ascii "11" then
    let next := if payload = [] then none else some payload
    ({ s with background := next }, decide (s.background ≠ next))
  else if ps = ascii "9" ∧ ascii "4;" <+: payload then
    let next := if (splitOn 59 (payload.drop 2)).head? = some (ascii "0") then none else some payload
    ({ s with progress := next }, decide (s.progress ≠ next))
  else (s, false)

def setCursorStyle (s : TerminalSignals) (params : Option Bytes) : TerminalSignals × Bool :=
  ({ s with cursorStyle := params }, decide (s.cursorStyle ≠ params))

end TerminalSignals

/-- What the scanner does to the signals. -/
inductive SignalOp where
  | cursorStyle (params : Bytes)
  | osc (ps payload : Bytes)
  | clearStatuses
  | dropTransient
  deriving DecidableEq, Repr

/-- A signal is taken in; and whether it changed anything. -/
def SignalOp.apply (s : TerminalSignals) : SignalOp → TerminalSignals × Bool
  | .cursorStyle params =>
    -- an empty or zero parameter restores the default
    s.setCursorStyle (if params = [] ∨ params = ascii "0" then none else some params)
  | .osc ps payload => s.recordOsc ps payload
  | .clearStatuses =>
    let (statuses, changed) := s.programStatuses.clear
    ({ s with programStatuses := statuses }, changed)
  | .dropTransient =>
    let (statuses, changed) := s.programStatuses.dropTransient
    ({ s with programStatuses := statuses }, changed)

/-- The program's plan: the record is selected, and a shell prompt ends it. -/
example :
    ((ProgramStatuses.mk []).report (ascii "state=blocked:kind=permission:progress=42")).1.records.length = 1 := by
  decide +kernel

end Pty
end OpenRelay
