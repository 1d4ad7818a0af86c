/-
# Screens from the recording

A screen history is computed by replaying an incarnation: the records' output goes
through a scanner to a terminal engine, their resizes too, and after every output
the screen is captured if it differs from the last capture (`logs/screen_history.rs`).
A replay keeps the newest captures only, or as many rows of scrollback, up to its
capacity.

What a replay has seen does not depend on its capacity (`Watched`): the replay is what
the capacity leaves of it (`Watched.replay`), it fails less the smaller the capacity is,
and any capacity shows as many captures and rows as it has room for (`answer_eq`).

Key theorems: `record_replay`, `feed_replay`, `updateLoop_iff`.
-/
import OpenRelay.Lib.BoundedQueue
import OpenRelay.Session.Resizes

namespace OpenRelay
namespace Session

open Journal Pty BoundedQueue

/-! ### The code -/

/-- A place in the stream of an incarnation. -/
structure StreamPosition where
  incarnation : ℕ
  offset : ℕ
  deriving DecidableEq, Repr

/-- The screen at a place. -/
structure ScreenSnapshot where
  position : StreamPosition
  rows : ℕ
  cols : ℕ
  rowsBytes : List Bytes
  deriving DecidableEq, Repr

/-- What a request is answered with. -/
structure ScreenHistory where
  snapshots : List ScreenSnapshot
  endPosition : StreamPosition
  textWidth : ℕ
  deriving DecidableEq, Repr

/-- The terminal engine, and what the allocator takes for what is kept. -/
structure Terminal (E : Type) where
  new (rows cols scrollback : ℕ) : E
  feed : E → Bytes → E
  resize : E → ℕ → ℕ → E
  /-- The rows and the columns. -/
  size : E → ℕ × ℕ
  screenDigest : E → Bytes
  styledScreenRows : E → List Bytes
  /-- The newest rows of the scrollback, at most as many. -/
  styledHistoryRows : E → ℕ → List Bytes
  frameBytes : ScreenSnapshot → ℕ
  scannerBytes : PtyScanner → ℕ

/-- Why a request is not answered. -/
inductive HistoryError where
  | journal (e : JournalError)
  | invalidInput (text : String)
  | other (text : String)
  deriving DecidableEq, Repr

def maxCaptures : ℕ := 1024
def maxTailRows : ℕ := 65535
def cacheBytes : ℕ := 64 * 1024 * 1024
def historyBatchBytes : ℕ := 256 * 1024
def defaultRows : ℕ := 24
def defaultCols : ℕ := 80

/-- A replay of an incarnation on an engine, with the screens it has captured. -/
structure ScreenReplay (E : Type) where
  stream : SegmentStream
  scanner : PtyScanner
  engine : E
  position : StreamPosition
  captures : List ScreenSnapshot
  lastHash : Option Bytes
  retainedBytes : ℕ
  capacity : ℕ
  tail : Bool
  inputBytes : ℕ
  peakCols : ℕ
  peakRows : ℕ
  deriving DecidableEq

/-- A product of 64 bits, which does not wrap. -/
def satMul (a b : ℕ) : ℕ := min (a * b) (2 ^ 64 - 1)

/-- An OSC introducer is among the bytes. -/
def hasOsc : Bytes → Bool
  | 27 :: 93 :: _ => true
  | _ :: rest => hasOsc rest
  | [] => false

/-- Without the styles of a row. -/
def stripSgr : Bytes → Bytes
  | [] => []
  | [b] => [b]
  | b :: c :: rest =>
    if b = 27 ∧ c = 91 then stripSgr (rest.dropWhile fun x => x != 109).tail
    else b :: stripSgr (c :: rest)
termination_by bytes => bytes.length
decreasing_by
  · have := (List.dropWhile_suffix (l := rest) fun x => x != 109).length_le
    simp only [List.length_tail, List.length_cons]
    omega
  · simp

def ScreenSnapshot.plain (frame : ScreenSnapshot) : ScreenSnapshot :=
  { frame with rowsBytes := frame.rowsBytes.map stripSgr }

namespace ScreenReplay

variable {E : Type} (T : Terminal E) (bare : Bool)

def onStream (r : ScreenReplay E) (stream : SegmentStream) : ScreenReplay E := { r with stream := stream }

/-- `Replay::new`, once the stream is open. -/
def start (incarnation capacity : ℕ) (tail : Bool) (stream : SegmentStream) : ScreenReplay E where
  stream := stream
  scanner := .new
  engine := T.new defaultRows defaultCols (if tail then capacity else 0)
  position := ⟨incarnation, 0⟩
  captures := []
  lastHash := none
  retainedBytes := 0
  capacity := capacity
  tail := tail
  inputBytes := 0
  peakCols := defaultCols
  peakRows := defaultRows

def new (d : Dir) (incarnation capacity : ℕ) (tail : Bool) : Except HistoryError (ScreenReplay E) :=
  match SegmentStream.open d incarnation with
  | .error e => .error (.journal e)
  | .ok stream => .ok (start T incarnation capacity tail stream)

def capture (r : ScreenReplay E) : ScreenReplay E :=
  let hash := T.screenDigest r.engine
  if r.lastHash = some hash then r
  else
    let frame : ScreenSnapshot := ⟨r.position, (T.size r.engine).1, (T.size r.engine).2, T.styledScreenRows r.engine⟩
    let kept := trim T.frameBytes r.capacity (r.captures ++ [frame]) (r.retainedBytes + T.frameBytes frame)
    { r with lastHash := some hash, captures := kept.1, retainedBytes := kept.2 }

/-- A resize record. -/
def resize (r : ScreenReplay E) (rows cols : ℕ) : Except HistoryError (ScreenReplay E) :=
  if r.tail = true ∧ 8000000 < (rows * 2 + r.capacity) * cols then
    .error (.other "tail viewport/history exceeds eight million cells; request fewer lines")
  else if 1000000 < rows * cols then .error (.other "recorded viewport exceeds one million cells")
  else .ok { r with
    peakRows := max r.peakRows (max rows 1)
    peakCols := max r.peakCols (max cols 1)
    engine := T.resize r.engine (max rows 1) (max cols 1) }

/-- Feed what the scanner leaves of an output. -/
def feed (r : ScreenReplay E) (payload : Bytes) : ScreenReplay E :=
  let scanned := r.scanner.scan bare payload
  let extra := if hasOsc payload then payload.length else payload.countP fun b => 128 ≤ b
  { r with
    scanner := scanned.1
    inputBytes := satAdd r.inputBytes extra
    engine := T.feed r.engine scanned.2.filtered
    position := { r.position with offset := r.position.offset + scanned.2.filtered.length } }

/-- An output record. -/
def output (r : ScreenReplay E) (payload : Bytes) : Except HistoryError (ScreenReplay E) :=
  if (r.scanner.scan bare payload).2.filtered = [] then .ok { r with scanner := (r.scanner.scan bare payload).1 }
  else
    let fed := r.feed T bare payload
    let taken := if fed.tail then fed else fed.capture T
    if cacheBytes < taken.retainedBytes then .error (.other "frame history exceeds 64 MiB; request fewer frames")
    else .ok taken

def record (r : ScreenReplay E) (rec : Record) : Except HistoryError (ScreenReplay E) :=
  match rec.kind with
  | .resize =>
    match decodeResizePayload rec.payload with
    | some (rows, cols) => r.resize T rows cols
    | none => .ok r
  | .output => r.output T bare rec.payload
  | _ => .ok r

/-- The loop of `update`. Every batch but the last has a record. -/
def updateLoop (d : Dir) : ℕ → ScreenReplay E → Except HistoryError (ScreenReplay E)
  | 0, r => .ok r
  | turns + 1, r =>
    match r.stream.pull d historyBatchBytes with
    | (.error e, _) => .error (.journal e)
    | (.ok [], stream) => .ok (r.onStream stream)
    | (.ok (rec :: batch), stream) =>
      match (rec :: batch).foldlM (record T bare) (r.onStream stream) with
      | .error e => .error e
      | .ok r' => updateLoop d turns r'

/-- The replay goes on with what has been written since. -/
def update (r : ScreenReplay E) (d : Dir) : Except HistoryError (ScreenReplay E) :=
  match r.stream.refresh d r.position.incarnation with
  | .error e => .error (.journal e)
  | .ok stream => updateLoop T bare d ((d.files r.position.incarnation).flatten.length + 1) (r.onStream stream)

def memoryBytes (r : ScreenReplay E) : ℕ :=
  satAdd (satAdd (satAdd r.retainedBytes ((r.peakRows * 2 + if r.tail then r.capacity else 0) * r.peakCols * 256))
    (T.scannerBytes r.scanner)) (satMul r.inputBytes 32)

/-- The screens behind an offset, the last ones if there are too many. -/
def result (r : ScreenReplay E) (fromOffset count : ℕ) (keepColor : Bool) : ScreenHistory :=
  let snapshots := ((r.captures.reverse.filter fun s => fromOffset < s.position.offset).take count).reverse
  ⟨if keepColor then snapshots else snapshots.map ScreenSnapshot.plain, r.position, (T.size r.engine).2⟩

end ScreenReplay

/-- What `collect_impl` is asked for, but for the directory. -/
structure Request where
  fromOffset : ℕ
  count : ℕ
  keepColor : Bool
  currentScreen : Bool
  tail : Bool
  deriving DecidableEq, Repr

namespace Request

def collect (fromOffset count : ℕ) (keepColor : Bool) : Request := ⟨fromOffset, count, keepColor, false, false⟩

/-- The screen as it is. -/
def current (keepColor : Bool) : Request := ⟨0, 1, keepColor, true, false⟩

/-- The screen, and the rows before it. -/
def tailOf (count : ℕ) (keepColor : Bool) : Request := ⟨0, count, keepColor, false, true⟩

end Request

/-- What is made of a replay for a request. -/
def ScreenReplay.answer {E : Type} (T : Terminal E) (r : ScreenReplay E) (req : Request) : ScreenHistory :=
  let result := r.result T req.fromOffset req.count req.keepColor
  if req.currentScreen = true ∨ req.tail = true then
    let rows := (if req.tail then T.styledHistoryRows r.engine req.count else []) ++ T.styledScreenRows r.engine
    { result with snapshots := [⟨r.position, (T.size r.engine).1, (T.size r.engine).2,
      if req.keepColor then rows else rows.map stripSgr⟩] }
  else result

/-! ### What an engine is assumed to do -/

/-- What an engine is given. -/
inductive Input where
  | feed (bytes : Bytes)
  | resize (rows cols : ℕ)
  deriving DecidableEq, Repr

namespace Terminal

variable {E : Type} (T : Terminal E)

def apply (e : E) : Input → E
  | .feed bytes => T.feed e bytes
  | .resize rows cols => T.resize e rows cols

/-- A new engine after these inputs. -/
def after (scrollback : ℕ) (inputs : List Input) : E := inputs.foldl T.apply (T.new defaultRows defaultCols scrollback)

theorem after_snoc (scrollback : ℕ) (inputs : List Input) (input : Input) :
    T.after scrollback (inputs ++ [input]) = T.apply (T.after scrollback inputs) input := by
  rw [after, List.foldl_append]
  rfl

/-- The screen and the last `k` rows of the scrollback. -/
def view (k : ℕ) (e : E) : (ℕ × ℕ) × List Bytes × List Bytes :=
  (T.size e, T.styledScreenRows e, T.styledHistoryRows e k)

/-- The screen and the last `k` rows of the scrollback do not depend on a limit of at
least `k`. -/
def LimitFree : Prop := ∀ (inputs : List Input) {k a b : ℕ}, k ≤ a → k ≤ b →
  T.view k (T.after a inputs) = T.view k (T.after b inputs)

end Terminal

/-! ### What a replay has seen -/

/-- What a replay has seen of its records, with every capture. -/
structure Watched where
  scanner : PtyScanner
  offset : ℕ
  inputs : List Input
  frames : List ScreenSnapshot
  lastHash : Option Bytes
  inputBytes : ℕ
  peakCols : ℕ
  peakRows : ℕ

/-- What a replay is of, and what it keeps. -/
structure Scope where
  incarnation : ℕ
  tail : Bool

/-- What an engine keeps of what scrolls off. -/
def Scope.scrollback (k : Scope) (capacity : ℕ) : ℕ := if k.tail then capacity else 0

namespace Watched

variable {E : Type} (T : Terminal E) (bare : Bool) (k : Scope)

/-- Nothing has been replayed. -/
def none : Watched := ⟨.new, 0, [], [], .none, 0, defaultCols, defaultRows⟩

/-- A capture. It is made with no scrollback. -/
def capture (s : Watched) : Watched :=
  let engine := T.after 0 s.inputs
  if s.lastHash = some (T.screenDigest engine) then s
  else { s with
    lastHash := some (T.screenDigest engine)
    frames := s.frames ++ [⟨⟨k.incarnation, s.offset⟩, (T.size engine).1, (T.size engine).2, T.styledScreenRows engine⟩] }

/-- A size is recorded. -/
def resize (s : Watched) (rows cols : ℕ) : Watched := { s with
  peakRows := max s.peakRows (max rows 1)
  peakCols := max s.peakCols (max cols 1)
  inputs := s.inputs ++ [.resize (max rows 1) (max cols 1)] }

/-- Output is recorded. -/
def feed (s : Watched) (payload : Bytes) : Watched :=
  let scanned := s.scanner.scan bare payload
  { s with
    scanner := scanned.1
    inputBytes := satAdd s.inputBytes (if hasOsc payload then payload.length else payload.countP fun b => 128 ≤ b)
    inputs := s.inputs ++ [.feed scanned.2.filtered]
    offset := s.offset + scanned.2.filtered.length }

/-- Output comes, and what it shows is captured unless a tail is asked for. -/
def output (s : Watched) (payload : Bytes) : Watched :=
  if (s.scanner.scan bare payload).2.filtered = [] then { s with scanner := (s.scanner.scan bare payload).1 }
  else if k.tail then s.feed bare payload else (s.feed bare payload).capture T k

def record (s : Watched) (rec : Record) : Watched :=
  match rec.kind with
  | .resize => ((decodeResizePayload rec.payload).map fun size => s.resize size.1 size.2).getD s
  | .output => s.output T bare k rec.payload
  | _ => s

/-- What the captures that are kept weigh. -/
def weight (s : Watched) (capacity : ℕ) : ℕ := ((newest capacity s.frames).map T.frameBytes).sum

/-- A replay with this capacity goes on. -/
def Admits (capacity : ℕ) (s : Watched) (rec : Record) : Prop :=
  match rec.kind with
  | .resize => ∀ rows cols, decodeResizePayload rec.payload = some (rows, cols) →
      ¬ (k.tail = true ∧ 8000000 < (rows * 2 + capacity) * cols) ∧ ¬ 1000000 < rows * cols
  | .output => (s.scanner.scan bare rec.payload).2.filtered ≠ [] →
      (s.output T bare k rec.payload).weight T capacity ≤ cacheBytes
  | _ => True

/-- The cache has room for the replay behind each of the records. -/
def AdmitsAll (capacity : ℕ) : Watched → List Record → Prop
  | _, [] => True
  | s, rec :: recs => s.Admits T bare k capacity rec ∧ AdmitsAll capacity (s.record T bare k rec) recs

/-- The replay with this capacity. -/
def replay (capacity : ℕ) (stream : SegmentStream) (s : Watched) : ScreenReplay E where
  stream := stream
  scanner := s.scanner
  engine := T.after (k.scrollback capacity) s.inputs
  position := ⟨k.incarnation, s.offset⟩
  captures := newest capacity s.frames
  lastHash := s.lastHash
  retainedBytes := s.weight T capacity
  capacity := capacity
  tail := k.tail
  inputBytes := s.inputBytes
  peakCols := s.peakCols
  peakRows := s.peakRows

end Watched

section Watched

variable {E : Type} {T : Terminal E} {bare : Bool} {k : Scope} {capacity : ℕ} {stream : SegmentStream}

theorem start_eq : ScreenReplay.start T k.incarnation capacity k.tail stream = Watched.none.replay T k capacity stream := by
  unfold Watched.replay Watched.none ScreenReplay.start Watched.weight
  rw [newest_nil]
  rfl

theorem capture_replay (htail : k.tail = false) (s : Watched) :
    (s.replay T k capacity stream).capture T = (s.capture T k).replay T k capacity stream := by
  have hengine : T.after (k.scrollback capacity) s.inputs = T.after 0 s.inputs := by
    simp [Scope.scrollback, htail]
  unfold ScreenReplay.capture Watched.capture
  simp only [Watched.replay, hengine]
  by_cases hsame : s.lastHash = some (T.screenDigest (T.after 0 s.inputs))
  · rw [if_pos hsame, if_pos hsame, hengine]
  · rw [if_neg hsame, if_neg hsame]
    have htrim := fun frame => trim_eq T.frameBytes capacity (newest capacity s.frames ++ [frame])
    simp only [newest_push, List.map_append, List.sum_append, List.map_singleton, List.sum_singleton] at htrim
    simp only [Watched.weight, htrim, hengine]

theorem resize_replay {s : Watched} {rows cols : ℕ} {r : ScreenReplay E} :
    (s.replay T k capacity stream).resize T rows cols = .ok r ↔
      (¬ (k.tail = true ∧ 8000000 < (rows * 2 + capacity) * cols) ∧ ¬ 1000000 < rows * cols) ∧
        r = (s.resize rows cols).replay T k capacity stream := by
  unfold ScreenReplay.resize
  have hresized : (s.resize rows cols).replay T k capacity stream = { s.replay T k capacity stream with
      peakRows := max s.peakRows (max rows 1)
      peakCols := max s.peakCols (max cols 1)
      engine := T.resize (T.after (k.scrollback capacity) s.inputs) (max rows 1) (max cols 1) } := by
    unfold Watched.resize Watched.replay
    simp only [Terminal.after_snoc]
    rfl
  rw [hresized]
  split_ifs with hwide hlarge
  · exact ⟨nofun, fun h => absurd hwide h.1.1⟩
  · exact ⟨nofun, fun h => absurd hlarge h.1.2⟩
  · exact ⟨fun h => ⟨⟨hwide, hlarge⟩, (Except.ok.inj h).symm⟩, fun h => congrArg _ h.2.symm⟩

theorem feed_replay (s : Watched) (payload : Bytes) :
    (s.replay T k capacity stream).feed T bare payload = (s.feed bare payload).replay T k capacity stream := by
  unfold ScreenReplay.feed Watched.feed Watched.replay
  simp only [Terminal.after_snoc]
  rfl

theorem output_replay {s : Watched} {payload : Bytes} {r : ScreenReplay E} :
    (s.replay T k capacity stream).output T bare payload = .ok r ↔
      ((s.scanner.scan bare payload).2.filtered ≠ [] → (s.output T bare k payload).weight T capacity ≤ cacheBytes) ∧
        r = (s.output T bare k payload).replay T k capacity stream := by
  unfold ScreenReplay.output Watched.output
  rw [feed_replay]
  show (if (s.scanner.scan bare payload).2.filtered = [] then _ else _) = _ ↔ _
  by_cases hnil : (s.scanner.scan bare payload).2.filtered = []
  · rw [if_pos hnil, if_pos hnil]
    exact ⟨fun h => ⟨fun hne => absurd hnil hne, (Except.ok.inj h).symm⟩, fun h => congrArg _ h.2.symm⟩
  rw [if_neg hnil, if_neg hnil]
  have htaken : (if k.tail = true then (s.feed bare payload).replay T k capacity stream
        else ((s.feed bare payload).replay T k capacity stream).capture T) =
      (if k.tail = true then s.feed bare payload else (s.feed bare payload).capture T k).replay T k capacity stream := by
    by_cases htail : k.tail = true
    · rw [if_pos htail, if_pos htail]
    · rw [if_neg htail, if_neg htail, capture_replay (by simpa using htail)]
  generalize (if k.tail = true then s.feed bare payload else (s.feed bare payload).capture T k) = taken at htaken
  have htail : ((s.feed bare payload).replay T k capacity stream).tail = k.tail := rfl
  simp only [htail, htaken]
  show (if cacheBytes < taken.weight T capacity then _ else _) = _ ↔ _
  by_cases hlarge : cacheBytes < taken.weight T capacity
  · rw [if_pos hlarge]
    exact ⟨nofun, fun h => absurd hlarge (Nat.not_lt_of_le (h.1 hnil))⟩
  · rw [if_neg hlarge]
    exact ⟨fun h => ⟨fun _ => Nat.le_of_not_lt hlarge, (Except.ok.inj h).symm⟩, fun h => congrArg _ h.2.symm⟩

/-- **One record.** -/
theorem record_replay {s : Watched} {rec : Record} {r : ScreenReplay E} :
    (s.replay T k capacity stream).record T bare rec = .ok r ↔
      s.Admits T bare k capacity rec ∧ r = (s.record T bare k rec).replay T k capacity stream := by
  unfold ScreenReplay.record Watched.record Watched.Admits
  have hsame : (Except.ok (s.replay T k capacity stream) : Except HistoryError (ScreenReplay E)) = .ok r ↔
      True ∧ r = s.replay T k capacity stream :=
    ⟨fun h => ⟨trivial, (Except.ok.inj h).symm⟩, fun h => congrArg _ h.2.symm⟩
  rcases rec.kind
  case output => exact output_replay
  case resize =>
    simp only
    rcases decodeResizePayload rec.payload with _ | ⟨rows, cols⟩
    · simpa using hsame
    · simp only [Option.map_some, Option.getD_some, resize_replay, Option.some.injEq, Prod.mk.injEq]
      constructor
      · rintro ⟨h, rfl⟩
        exact ⟨by rintro _ _ ⟨rfl, rfl⟩; exact h, rfl⟩
      · exact fun h => ⟨h.1 rows cols ⟨rfl, rfl⟩, h.2⟩
  all_goals exact hsame

/-- **Records.** -/
theorem records_replay {r : ScreenReplay E} : ∀ {recs : List Record} {s : Watched},
    recs.foldlM (ScreenReplay.record T bare) (s.replay T k capacity stream) = .ok r ↔
      s.AdmitsAll T bare k capacity recs ∧ r = (recs.foldl (Watched.record T bare k) s).replay T k capacity stream
  | [], s => by
    simp only [List.foldlM_nil, List.foldl_nil, Watched.AdmitsAll, true_and]
    exact ⟨fun h => (Except.ok.inj h).symm, fun h => congrArg _ h.symm⟩
  | rec :: recs, s => by
    have hone := @record_replay E T bare k capacity stream s rec
    rw [List.foldlM_cons, List.foldl_cons, Watched.AdmitsAll]
    rcases h : (s.replay T k capacity stream).record T bare rec with e | r'
    · rw [h] at hone
      constructor
      · nofun
      · exact fun hall => nomatch hone.mpr ⟨hall.1.1, rfl⟩
    · rw [h] at hone
      obtain ⟨hadmits, rfl⟩ := hone.mp rfl
      show recs.foldlM _ _ = _ ↔ _
      rw [records_replay, and_iff_right hadmits]

/-- A smaller capacity goes on where a larger one does. -/
theorem Watched.Admits.mono {small : ℕ} (hle : small ≤ capacity) {s : Watched} {rec : Record}
    (h : s.Admits T bare k capacity rec) : s.Admits T bare k small rec := by
  unfold Watched.Admits at h ⊢
  generalize rec.kind = kind at h ⊢
  cases kind
  case output => exact fun hne => (sum_newest_le hle _).trans (h hne)
  case resize =>
    intro rows cols hsize
    obtain ⟨hwide, hlarge⟩ := h rows cols hsize
    refine ⟨fun hover => hwide ⟨hover.1, hover.2.trans_le ?_⟩, hlarge⟩
    exact Nat.mul_le_mul_right _ (Nat.add_le_add_left hle _)
  all_goals trivial

theorem Watched.AdmitsAll.mono {small : ℕ} (hle : small ≤ capacity) : ∀ {recs : List Record} {s : Watched},
    s.AdmitsAll T bare k capacity recs → s.AdmitsAll T bare k small recs
  | [], _, _ => trivial
  | _ :: _, _, h => ⟨h.1.mono hle, AdmitsAll.mono hle h.2⟩

theorem Watched.admitsAll_append {more : List Record} : ∀ {recs : List Record} {s : Watched},
    s.AdmitsAll T bare k capacity (recs ++ more) ↔
      s.AdmitsAll T bare k capacity recs ∧ (recs.foldl (Watched.record T bare k) s).AdmitsAll T bare k capacity more
  | [], _ => by
    simp only [List.nil_append, List.foldl_nil, AdmitsAll, true_and]
  | rec :: recs, s => by
    rw [List.cons_append, List.foldl_cons, AdmitsAll, AdmitsAll, admitsAll_append, and_assoc]

/-- **The loop.** It comes to an end if the reading does and every record is admitted. -/
theorem updateLoop_iff {d : Dir} {r : ScreenReplay E} : ∀ {turns : ℕ} {s : Watched} {stream : SegmentStream},
    (s.replay T k capacity stream).updateLoop T bare d turns = .ok r ↔
      (stream.readToEnd d turns fun _ => historyBatchBytes).error = .none ∧
      s.AdmitsAll T bare k capacity (stream.readToEnd d turns fun _ => historyBatchBytes).records ∧
      r = ((stream.readToEnd d turns fun _ => historyBatchBytes).records.foldl (Watched.record T bare k) s).replay T k capacity
        (stream.readToEnd d turns fun _ => historyBatchBytes).stream
  | 0, s, stream => by
    simp only [ScreenReplay.updateLoop, SegmentStream.readToEnd, Watched.AdmitsAll, List.foldl_nil, true_and]
    exact ⟨fun h => (Except.ok.inj h).symm, fun h => congrArg _ h.symm⟩
  | turns + 1, s, stream => by
    have hstream : (s.replay T k capacity stream).stream = stream := rfl
    unfold ScreenReplay.updateLoop SegmentStream.readToEnd
    rw [hstream]
    rcases stream.pull d historyBatchBytes with ⟨e | _ | ⟨rec, batch⟩, stream'⟩
    · exact ⟨nofun, fun h => nomatch h.1⟩
    · simp only [Watched.AdmitsAll, List.foldl_nil, true_and]
      exact ⟨fun h => (Except.ok.inj h).symm, fun h => congrArg _ h.symm⟩
    · simp only [Watched.admitsAll_append, List.foldl_append]
      have hbatch := @records_replay E T bare k capacity stream'
      have honStream : (s.replay T k capacity stream).onStream stream' = s.replay T k capacity stream' := rfl
      rw [honStream]
      rcases h : (rec :: batch).foldlM (ScreenReplay.record T bare) (s.replay T k capacity stream') with e | r'
      · constructor
        · nofun
        · rintro ⟨-, ⟨hadmits, -⟩, -⟩
          rw [hbatch.mpr ⟨hadmits, rfl⟩] at h
          cases h
      · obtain ⟨hadmits, rfl⟩ := hbatch.mp h
        simp only
        rw [updateLoop_iff, and_iff_right hadmits]

/-! ### The captures are in order -/

/-- The captures were made one behind the other. -/
structure Watched.Ordered (s : Watched) : Prop where
  frames : s.frames.Pairwise fun a b => a.position.offset < b.position.offset
  past : ∀ frame ∈ s.frames, frame.position.offset ≤ s.offset

theorem Watched.Ordered.record {s : Watched} (h : s.Ordered) (rec : Record) : (s.record T bare k rec).Ordered := by
  unfold Watched.record
  rcases rec.kind
  case output =>
    simp only
    unfold Watched.output
    split_ifs with hnil htail
    · exact ⟨h.frames, h.past⟩
    · exact ⟨h.frames, fun frame hframe => (h.past frame hframe).trans (Nat.le_add_right _ _)⟩
    · have hpos := List.length_pos_of_ne_nil hnil
      unfold Watched.capture
      dsimp only
      split_ifs
      · exact ⟨h.frames, fun frame hframe => (h.past frame hframe).trans (Nat.le_add_right _ _)⟩
      · have hlt : ∀ frame ∈ s.frames, frame.position.offset < (s.feed bare rec.payload).offset := by
          intro frame hframe
          have := h.past frame hframe
          simp only [Watched.feed]
          omega
        constructor
        · refine List.pairwise_append.mpr ⟨h.frames, List.pairwise_singleton _ _, fun a ha b hb => ?_⟩
          rw [List.mem_singleton.mp hb]
          exact hlt a ha
        · intro frame hframe
          rcases List.mem_append.mp hframe with hframe | hframe
          · exact (hlt frame hframe).le
          · rw [List.mem_singleton.mp hframe]
  case resize =>
    simp only
    rcases decodeResizePayload rec.payload with _ | ⟨rows, cols⟩
    · exact h
    · exact ⟨h.frames, h.past⟩
  all_goals exact h

theorem Watched.Ordered.records : ∀ {recs : List Record} {s : Watched}, s.Ordered →
    (recs.foldl (Watched.record T bare k) s).Ordered
  | [], _, h => h
  | rec :: _, _, h => (h.record rec).records

theorem ordered_none : Watched.none.Ordered := ⟨List.Pairwise.nil, nofun⟩

/-! ### What a replay answers -/

/-- **Any capacity.** With room for what is asked for, the capacity does not matter. -/
theorem answer_eq (hT : T.LimitFree) {s : Watched} (h : s.Ordered) {req : Request} (hreq : req.tail = k.tail)
    {large small : ℕ} (hlarge : req.count ≤ large) (hsmall : req.count ≤ small) (stream stream' : SegmentStream) :
    (s.replay T k large stream).answer T req = (s.replay T k small stream').answer T req := by
  have hview : T.view (k.scrollback req.count) (T.after (k.scrollback large) s.inputs) =
      T.view (k.scrollback req.count) (T.after (k.scrollback small) s.inputs) := by
    unfold Scope.scrollback
    split_ifs
    · exact hT s.inputs hlarge hsmall
    · rfl
  obtain ⟨hsize, hscreen, hrows⟩ : T.size _ = T.size _ ∧ T.styledScreenRows _ = T.styledScreenRows _ ∧
      T.styledHistoryRows _ _ = T.styledHistoryRows _ _ := by simpa [Terminal.view] using hview
  have hsorted : s.frames.Pairwise fun a b => decide (req.fromOffset < a.position.offset) = true →
      decide (req.fromOffset < b.position.offset) = true := by
    refine h.frames.imp fun hlt ha => ?_
    rw [decide_eq_true_eq] at ha ⊢
    omega
  have hresult : (s.replay T k large stream).result T req.fromOffset req.count req.keepColor =
      (s.replay T k small stream').result T req.fromOffset req.count req.keepColor := by
    unfold ScreenReplay.result Watched.replay
    simp only [hsize, take_filter_newest hlarge hsorted, take_filter_newest hsmall hsorted]
  unfold ScreenReplay.answer
  rw [hresult]
  by_cases hcurrent : req.currentScreen = true ∨ req.tail = true
  · rw [if_pos hcurrent, if_pos hcurrent]
    have hhistory : (if req.tail then T.styledHistoryRows (T.after (k.scrollback large) s.inputs) req.count else []) =
        if req.tail then T.styledHistoryRows (T.after (k.scrollback small) s.inputs) req.count else [] := by
      by_cases htail : req.tail = true
      · rw [if_pos htail, if_pos htail]
        have : k.scrollback req.count = req.count := by
          rw [Scope.scrollback, if_pos (hreq ▸ htail)]
        rwa [this] at hrows
      · rw [if_neg htail, if_neg htail]
    simp only [Watched.replay, hsize, hscreen, hhistory]
  · rw [if_neg hcurrent, if_neg hcurrent]

end Watched

end Session
end OpenRelay
