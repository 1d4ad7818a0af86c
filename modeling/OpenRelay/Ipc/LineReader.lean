/-
# Lines, buffer by buffer

A line is taken off the buffers that the socket fills (`ipc.rs`, `read_line_bounded`). In each buffer the
newline is looked for and the length is tested; the bytes are kept as they are, and are decoded once the
line is there, since a buffer may end within a character.

What the calls return is what the stream's lines are, one after another, up to the first one that is too
long or no text. So the buffers don't matter, and nothing of the next line is taken
(`lines_fragmentation_independent`). The relay's reading of a stream is this one (`readLineBounded_stream`).

Key theorem: `readLoop_spec`.
-/
import OpenRelay.Ipc.Line
import OpenRelay.Lib.Utf8Error

namespace OpenRelay
namespace Ipc
namespace LineReader

open Journal (newline)
open Lines (splitInclusive splitInclusive_eq firstLine firstLine_append_of_not_mem firstLine_line firstLine_ne_nil)

/-! ### The code -/

/-- What a reader has left: the buffer that is filled, and what the next ones will be. An empty one
would be the end of the stream. -/
structure BufReader where
  buffers : List Bytes
  filled : ∀ b ∈ buffers, b ≠ []

namespace BufReader

/-- The bytes that are left. -/
def bytes (r : BufReader) : Bytes := r.buffers.flatten

def fillBuf (r : BufReader) : Bytes := r.buffers.headD []

/-- So much of the buffer is taken; when nothing is left of it the next one is filled. -/
def consume : BufReader → ℕ → BufReader
  | ⟨[], h⟩, _ => ⟨[], h⟩
  | ⟨b :: bs, h⟩, n =>
    if hn : b.drop n = [] then ⟨bs, fun b' hb' => h b' (List.mem_cons_of_mem _ hb')⟩
    else ⟨b.drop n :: bs, by
      rintro b' (_ | ⟨_, hb'⟩)
      · exact hn
      · exact h b' (List.mem_cons_of_mem _ hb')⟩

end BufReader

/-- Why a line is not read. -/
inductive LineError where
  | tooLong
  /-- `Utf8Error`: how many bytes are text, and how many are none, unless the line ends within a character. -/
  | utf8 (validUpTo : ℕ) (errorLen : Option ℕ)
  deriving DecidableEq, Repr

/-- The loop of `read_line_bounded`. It turns once for each buffer. -/
def readLoop : ℕ → BufReader → Bytes → Except LineError Bytes × BufReader
  | 0, r, raw => (.ok raw, r)
  | turns + 1, r, raw =>
    let available := r.fillBuf
    if available = [] then (.ok raw, r)
    else
      let newlinePos := available.findIdx? (· == newline)
      let used := match newlinePos with
        | some pos => pos + 1
        | none => available.length
      if maxIpcLineBytes < raw.length + used then (.error .tooLong, r)
      else if newlinePos.isSome then (.ok (raw ++ available.take used), r.consume used)
      else readLoop turns (r.consume used) (raw ++ available.take used)

/-- The line is added to the text `buf`. -/
def readLineBounded (r : BufReader) (buf : List Char) : Except LineError (ℕ × List Char) × BufReader :=
  match readLoop (r.buffers.length + 1) r [] with
  | (.error e, r') => (.error e, r')
  | (.ok raw, r') =>
    if raw.length = 0 then (.ok (0, buf), r')
    else match Utf8.fromUtf8 raw with
      | some (validUpTo, errorLen) => (.error (.utf8 validUpTo errorLen), r')
      | none => (.ok (raw.length, buf ++ Utf8.decode raw), r')

/-- Call it until there is no line, or an error. Every line has a byte. -/
def readLines : ℕ → BufReader → List (List Char) × Option LineError
  | 0, _ => ([], none)
  | turns + 1, r =>
    match readLineBounded r [] with
    | (.error e, _) => ([], some e)
    | (.ok (total, line), r') =>
      if total = 0 then ([], none) else (line :: (readLines turns r').1, (readLines turns r').2)

def readAll (r : BufReader) : List (List Char) × Option LineError := readLines (r.bytes.length + 1) r

/-! ### The lines of a stream -/

/-- A line as it should be read. The newline counts. -/
def lineOf (line : Bytes) : Except LineError (List Char) :=
  if maxIpcLineBytes < line.length then .error .tooLong
  else match Utf8.fromUtf8 line with
    | some (validUpTo, errorLen) => .error (.utf8 validUpTo errorLen)
    | none => .ok (Utf8.decode line)

/-- The lines before the first one that can't be read, and its error. -/
def linesOf : List Bytes → List (List Char) × Option LineError
  | [] => ([], none)
  | line :: lines =>
    match lineOf line with
    | .error e => ([], some e)
    | .ok text => (text :: (linesOf lines).1, (linesOf lines).2)

/-! ### A reader's buffers -/

namespace BufReader

theorem bytes_consume (r : BufReader) {n : ℕ} (hn : n ≤ r.fillBuf.length) : (r.consume n).bytes = r.bytes.drop n := by
  obtain ⟨_ | ⟨b, bs⟩, h⟩ := r
  · simp [consume, bytes]
  · have hdrop : (b ++ bs.flatten).drop n = b.drop n ++ bs.flatten := List.drop_append_of_le_length hn
    simp only [consume, bytes, List.flatten_cons, hdrop]
    split_ifs with hempty
    · simp [hempty]
    · simp

/-- A buffer is taken whole. -/
theorem buffers_consume (r : BufReader) : (r.consume r.fillBuf.length).buffers = r.buffers.tail := by
  obtain ⟨_ | ⟨b, bs⟩, h⟩ := r
  · rfl
  · simp [consume, fillBuf]

theorem bytes_eq (r : BufReader) : r.bytes = r.fillBuf ++ r.buffers.tail.flatten := by
  obtain ⟨_ | ⟨b, bs⟩, h⟩ := r <;> rfl

theorem fillBuf_eq_nil {r : BufReader} : r.fillBuf = [] ↔ r.bytes = [] := by
  obtain ⟨_ | ⟨b, bs⟩, h⟩ := r
  · exact iff_of_true rfl rfl
  · have hb : b ≠ [] := h b List.mem_cons_self
    exact iff_of_false hb (by simp [bytes, hb])

end BufReader

/-- Where the first newline of a buffer is. -/
theorem newline_at {available : Bytes} {pos : ℕ} (h : available.findIdx? (· == newline) = some pos) :
    pos < available.length ∧ newline ∉ available.take pos ∧
      available = available.take pos ++ newline :: available.drop (pos + 1) := by
  obtain ⟨hlt, hat, hbefore⟩ := List.findIdx?_eq_some_iff_getElem.mp h
  refine ⟨hlt, fun hmem => ?_, ?_⟩
  · obtain ⟨i, hi, hget⟩ := List.getElem_of_mem hmem
    rw [List.length_take] at hi
    rw [List.getElem_take] at hget
    simpa [hget] using hbefore i (by omega)
  · have hnewline : available[pos] = newline := by simpa using hat
    rw [← hnewline, ← List.drop_eq_getElem_cons hlt, List.take_append_drop]

/-- **The loop** reads the first line that is left, behind the bytes that it has already. -/
theorem readLoop_spec : ∀ (turns : ℕ) (r : BufReader) (raw : Bytes), r.buffers.length < turns →
    raw.length ≤ maxIpcLineBytes →
    maxIpcLineBytes < (raw ++ firstLine newline r.bytes).length ∧ (readLoop turns r raw).1 = .error .tooLong ∨
    (raw ++ firstLine newline r.bytes).length ≤ maxIpcLineBytes ∧
      ∃ r', readLoop turns r raw = (.ok (raw ++ firstLine newline r.bytes), r') ∧
        r'.bytes = r.bytes.drop (firstLine newline r.bytes).length
  | 0, _, _, hturns, _ => by omega
  | turns + 1, r, raw, hturns, hraw => by
    rw [readLoop]
    dsimp only
    by_cases hempty : r.fillBuf = []
    · have hbytes := BufReader.fillBuf_eq_nil.mp hempty
      rw [if_pos hempty, hbytes]
      exact .inr ⟨by simpa [firstLine] using hraw, r, by simp [firstLine], by simp [firstLine, hbytes]⟩
    rw [if_neg hempty]
    have hsplit := r.bytes_eq
    rcases hpos : r.fillBuf.findIdx? (· == newline) with _ | pos
    · -- the line goes on in the next buffer
      have hnone : newline ∉ r.fillBuf := fun hmem => by
        simpa using List.findIdx?_eq_none_iff.mp hpos newline hmem
      have hnext : (r.consume r.fillBuf.length).bytes = r.buffers.tail.flatten := by
        rw [r.bytes_consume le_rfl, hsplit, List.drop_left]
      have hline : firstLine newline r.bytes = r.fillBuf ++ firstLine newline (r.consume r.fillBuf.length).bytes := by
        rw [hnext, hsplit, firstLine_append_of_not_mem hnone]
      have hshort : (r.consume r.fillBuf.length).buffers.length < turns := by
        have hne : r.buffers ≠ [] := fun hnil => hempty (by simp [BufReader.fillBuf, hnil])
        have hpos' := List.length_pos_iff.mpr hne
        rw [r.buffers_consume, List.length_tail]
        omega
      simp only [Option.isSome_none, Bool.false_eq_true, if_false, List.take_length]
      split_ifs with hlong
      · refine .inl ⟨?_, rfl⟩
        rw [hline]
        simp only [List.length_append]
        omega
      · have ih := readLoop_spec turns (r.consume r.fillBuf.length) (raw ++ r.fillBuf) hshort
          (by rw [List.length_append]; omega)
        rw [List.append_assoc, ← hline] at ih
        refine ih.imp_right ?_
        rintro ⟨hle, r', hread, hrest⟩
        refine ⟨hle, r', hread, ?_⟩
        rw [hrest, hnext, hline, hsplit, List.length_append, ← List.drop_drop, List.drop_left, hnext]
    · -- it ends in this one
      obtain ⟨hlt, hbefore, hat⟩ := newline_at hpos
      have htake : r.fillBuf.take (pos + 1) = r.fillBuf.take pos ++ [newline] := by
        have hlen : (r.fillBuf.take pos ++ [newline]).length = pos + 1 := by simp; omega
        rw [List.append_cons] at hat
        conv_lhs => rw [hat, List.take_left' hlen]
      have hline : firstLine newline r.bytes = r.fillBuf.take (pos + 1) := by
        rw [hsplit, hat, List.append_assoc, List.cons_append, firstLine_line hbefore, ← hat, htake]
      have hlength : (r.fillBuf.take (pos + 1)).length = pos + 1 := by rw [List.length_take]; omega
      simp only [Option.isSome_some, if_true]
      rw [hline, List.length_append, hlength]
      split_ifs with hlong
      · exact .inl ⟨hlong, rfl⟩
      · exact .inr ⟨by omega, _, rfl, r.bytes_consume hlt⟩

/-! ### The calls -/

/-- **A call** reads the first line that is left, if it can be read, and takes nothing behind it. -/
theorem readLineBounded_spec (r : BufReader) (buf : List Char) (hne : r.bytes ≠ []) :
    match lineOf (firstLine newline r.bytes) with
    | .error e => (readLineBounded r buf).1 = .error e
    | .ok text => ∃ r', readLineBounded r buf = (.ok ((firstLine newline r.bytes).length, buf ++ text), r') ∧
        r'.bytes = r.bytes.drop (firstLine newline r.bytes).length := by
  have hspec := readLoop_spec (r.buffers.length + 1) r [] (Nat.lt_succ_self _) (Nat.zero_le _)
  rw [List.nil_append] at hspec
  have hline : (firstLine newline r.bytes).length ≠ 0 := by simpa using firstLine_ne_nil hne
  rw [lineOf]
  rcases hspec with ⟨hlong, herror⟩ | ⟨hle, r', hread, hrest⟩
  · rw [if_pos hlong, readLineBounded]
    rcases hloop : readLoop (r.buffers.length + 1) r [] with ⟨e | raw, r'⟩
    · rw [hloop] at herror
      cases herror
      rfl
    · rw [hloop] at herror
      cases herror
  · rw [if_neg (Nat.not_lt.mpr hle), readLineBounded, hread]
    simp only [if_neg hline]
    rcases Utf8.fromUtf8 (firstLine newline r.bytes) with _ | ⟨validUpTo, errorLen⟩
    · exact ⟨r', rfl, hrest⟩
    · rfl

theorem readLineBounded_end (r : BufReader) (buf : List Char) (hnil : r.bytes = []) :
    readLineBounded r buf = (.ok (0, buf), r) := by
  have hempty := BufReader.fillBuf_eq_nil.mpr hnil
  simp [readLineBounded, readLoop, hempty]

/-- The calls read the stream's lines. -/
theorem readLines_eq : ∀ (turns : ℕ) (r : BufReader), r.bytes.length < turns →
    readLines turns r = linesOf (splitInclusive newline r.bytes)
  | 0, _, hturns => by omega
  | turns + 1, r, hturns => by
    rw [readLines]
    by_cases hnil : r.bytes = []
    · simp [readLineBounded_end r [] hnil, hnil, splitInclusive, linesOf]
    have hspec := readLineBounded_spec r [] hnil
    have hpos : 0 < (firstLine newline r.bytes).length := List.length_pos_iff.mpr (firstLine_ne_nil hnil)
    rw [splitInclusive_eq hnil, linesOf]
    rcases hline : lineOf (firstLine newline r.bytes) with e | text
    · rw [hline] at hspec
      rcases hcall : readLineBounded r [] with ⟨e' | ⟨total, line⟩, r'⟩
      · rw [hcall] at hspec
        cases hspec
        rfl
      · rw [hcall] at hspec
        cases hspec
    · rw [hline] at hspec
      obtain ⟨r', hcall, hrest⟩ := hspec
      have hsome : 0 < r.bytes.length := List.length_pos_iff.mpr hnil
      have hshort : r'.bytes.length < turns := by rw [hrest, List.length_drop]; omega
      simp only [hcall, if_neg hpos.ne', readLines_eq turns r' hshort, hrest, List.nil_append]

/-- **Lines don't depend on the buffers.** Whatever buffers a stream comes in, the calls return its
lines, up to the first one that is too long or no text, and that error. A call takes its line, all of it
and nothing of the next one. -/
theorem lines_fragmentation_independent (r : BufReader) :
    readAll r = linesOf (splitInclusive newline r.bytes) ∧
    ∀ buf, match splitInclusive newline r.bytes with
      | [] => readLineBounded r buf = (.ok (0, buf), r)
      | line :: lines => match lineOf line with
        | .error e => (readLineBounded r buf).1 = .error e
        | .ok text => ∃ r', readLineBounded r buf = (.ok (line.length, buf ++ text), r') ∧
            r'.bytes = r.bytes.drop line.length ∧ splitInclusive newline r'.bytes = lines := by
  refine ⟨readLines_eq _ r (Nat.lt_succ_self _), fun buf => ?_⟩
  by_cases hnil : r.bytes = []
  · rw [hnil]
    exact readLineBounded_end r buf hnil
  have hspec := readLineBounded_spec r buf hnil
  rw [splitInclusive_eq hnil]
  simp only
  rcases hline : lineOf (firstLine newline r.bytes) with e | text
  · rw [hline] at hspec
    exact hspec
  · rw [hline] at hspec
    obtain ⟨r', hcall, hrest⟩ := hspec
    exact ⟨r', hcall, hrest, by rw [hrest]⟩

/-- The relay's reading of a stream is this one: the line that `Ipc.readLineBounded` finds in what has
come is the one that is read off the buffers, whatever comes behind it. -/
theorem readLineBounded_stream {s t : Bytes} {r : BufReader} (hr : r.bytes = s ++ t)
    {item : Except ReadError Bytes} {n : ℕ} (h : Ipc.readLineBounded s = some (item, n)) :
    (∀ line, item = .ok line → firstLine newline r.bytes = line ∧ n = line.length ∧ line.length ≤ maxIpcLineBytes) ∧
      ∀ e, item = .error e → lineOf (firstLine newline r.bytes) = .error .tooLong := by
  have hbefore : newline ∉ s.takeWhile (· != newline) := fun hmem => by simpa using List.mem_takeWhile_imp hmem
  have hsplit : s.takeWhile (· != newline) ++ s.dropWhile (· != newline) = s := List.takeWhile_append_dropWhile
  -- the first line is longer than what is before the newline
  have hline : firstLine newline r.bytes = s.takeWhile (· != newline) ++ firstLine newline (s.dropWhile (· != newline) ++ t) := by
    rw [hr, ← firstLine_append_of_not_mem hbefore, ← List.append_assoc, hsplit]
  unfold Ipc.readLineBounded at h
  dsimp only at h
  rcases hdrop : s.dropWhile (· != newline) with _ | ⟨b, rest⟩
  · rw [hdrop, List.append_nil] at hsplit
    rw [hsplit, if_neg (fun hshort => Nat.lt_irrefl _ hshort.2)] at h
    split_ifs at h with hlong
    cases h
    rw [hsplit] at hline
    refine ⟨fun _ h => (by cases h), fun _ _ => ?_⟩
    rw [lineOf, hline, List.length_append, if_pos (by omega)]
  · have hb : b = newline := by
      have := List.head?_dropWhile_not (· != newline) s
      simpa [hdrop] using this
    subst hb
    have hlength := congrArg List.length hsplit
    rw [hdrop, List.length_append, List.length_cons] at hlength
    rw [hdrop, List.cons_append, firstLine, if_pos rfl] at hline
    have htake : s.take ((s.takeWhile (· != newline)).length + 1) = s.takeWhile (· != newline) ++ [newline] := by
      rw [hdrop, List.append_cons] at hsplit
      refine (congrArg (List.take _) hsplit).symm.trans (List.take_left' ?_)
      rw [List.length_append, List.length_singleton]
    split_ifs at h with hshort hlong
    · cases h
      rw [htake]
      refine ⟨fun line hitem => ?_, fun _ h => by cases h⟩
      cases hitem
      refine ⟨hline, by simp, ?_⟩
      rw [List.length_append, List.length_singleton]
      omega
    · cases h
      refine ⟨fun _ h => (by cases h), fun _ _ => ?_⟩
      rw [lineOf, hline, List.length_append, List.length_singleton, if_pos (by omega)]

end LineReader
end Ipc
end OpenRelay
