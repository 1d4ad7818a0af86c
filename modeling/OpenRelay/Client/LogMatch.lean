/-
# A line of the stream is waited for

`oly logs --wait match` reads a session's stream page by page and looks for a line that
matches a pattern (`client/logs.rs`, `match_lines`). What is left of a line at the end of a
page is carried to the next one; it is looked at too, up to the last whole character, since
a prompt ends no line. A line that grows too long is an error.

Whatever the pages are, every complete line is looked at as it is, and what is looked at
before is a beginning of a line, decoded as it will be (`matchLines_spec`).

Key theorem: `decode_completeUtf8Prefix`.
-/
import OpenRelay.Basic
import OpenRelay.Lib.Lines
import OpenRelay.Lib.Utf8Error

namespace OpenRelay
namespace Client
namespace LogMatch

open Lines (splitLines rest splitInclusive)
open Utf8 (decode run fresh)

/-! ### The code -/

def newline : UInt8 := 10

def MATCH_LINE_BYTES : ℕ := 1024 * 1024

/-- The loop of `complete_utf8_prefix`: every error has a byte, so it turns at most once for each. -/
def completeUtf8Loop (bytes : Bytes) : ℕ → ℕ → Bytes
  | 0, _ => bytes
  | turns + 1, start =>
    match Utf8.fromUtf8 (bytes.drop start) with
    | none => bytes
    | some (validUpTo, some errorLen) => completeUtf8Loop bytes turns (start + validUpTo + errorLen)
    | some (validUpTo, none) => bytes.take (start + validUpTo)

/-- What of the bytes ends with a whole character. -/
def completeUtf8Prefix (bytes : Bytes) : Bytes := completeUtf8Loop bytes (bytes.length + 1) 0

/-- What comes of looking at a page: what is left of a line is carried. -/
inductive Matched where
  | matched
  | tooLong
  | carry (line : Bytes)
  deriving DecidableEq, Repr

/-- The loop of `match_lines`. The pattern is a test of the text. -/
def matchParts (isMatch : List Char → Bool) : Bytes → List Bytes → Matched
  | line, [] => .carry line
  | line, part :: parts =>
    let complete : Bool := part.getLast? = some newline
    let payload := if complete then part.dropLast else part
    if MATCH_LINE_BYTES < line.length + payload.length then .tooLong
    else
      let line := line ++ payload
      let observed := if complete then line else completeUtf8Prefix line
      if isMatch (decode observed) then .matched
      else matchParts isMatch (if complete then [] else line) parts

/-- The lines that end in the data, and what is left for the next ones. -/
def matchLines (isMatch : List Char → Bool) (line data : Bytes) : Matched :=
  matchParts isMatch line (splitInclusive newline data)

/-! ### What is looked at -/

/-- A text that the stream shows: a complete line, or what there is so far of the line that is produced,
up to a whole character. It is the beginning of what the line will be, whatever comes. -/
inductive Shown (T : Bytes) : List Char → Prop
  | line {l : Bytes} (h : l ∈ (splitLines newline T).1) : Shown T (decode l)
  | beginning {P p : Bytes} (hP : P <+: T) (hp : p <+: rest newline P)
      (hmore : ∀ more, decode p <+: decode (rest newline P ++ more)) : Shown T (decode p)

/-- The complete lines aren't too long, and none of them matches. -/
def NoneMatches (isMatch : List Char → Bool) (P : Bytes) : Prop :=
  ∀ l ∈ (splitLines newline P).1, l.length ≤ MATCH_LINE_BYTES ∧ isMatch (decode l) = false

/-- What has been looked at: the complete lines, and the beginning of the next one is carried. -/
structure Searched (isMatch : List Char → Bool) (P line : Bytes) : Prop where
  carried : line = rest newline P
  short : line.length ≤ MATCH_LINE_BYTES
  noneMatches : NoneMatches isMatch P

/-- A line is too long, and none before matches. -/
def TooLong (isMatch : List Char → Bool) (T : Bytes) : Prop :=
  ∃ P, P <+: T ∧ MATCH_LINE_BYTES < (rest newline P).length ∧ NoneMatches isMatch P

theorem Shown.mono {T T' : Bytes} {text : List Char} (h : Shown T text) (hT : T <+: T') : Shown T' text := by
  cases h with
  | line h => exact .line (Lines.mem_lines_of_prefix hT h)
  | beginning hP hp hmore => exact .beginning (hP.trans hT) hp hmore

theorem TooLong.mono {isMatch : List Char → Bool} {T T' : Bytes} (h : TooLong isMatch T) (hT : T <+: T') :
    TooLong isMatch T' := by
  obtain ⟨P, hP, hrest, hnone⟩ := h
  exact ⟨P, hP.trans hT, hrest, hnone⟩

theorem searched_nil (isMatch : List Char → Bool) : Searched isMatch [] [] :=
  ⟨rfl, Nat.zero_le _, nofun⟩

/-! ### The last whole character -/

theorem completeUtf8Loop_spec (bytes : Bytes) : ∀ turns start : ℕ, start ≤ bytes.length →
    bytes.length - start < turns → ∃ k, start ≤ k ∧ completeUtf8Loop bytes turns start = bytes.take k ∧
      decode ((bytes.take k).drop start) = (run fresh (bytes.drop start)).1
  | 0, _, _, hturns => by omega
  | turns + 1, start, hstart, hturns => by
    have hspec := Utf8.fromUtf8_spec (bytes.drop start)
    rw [completeUtf8Loop]
    rcases hcheck : Utf8.fromUtf8 (bytes.drop start) with _ | ⟨valid, _ | len⟩
    · rw [hcheck] at hspec
      refine ⟨bytes.length, hstart, by simp, ?_⟩
      have howed : (run fresh (bytes.drop start)).2.owed = 0 := hspec
      rw [List.take_length, decode, Utf8.decodeFrom_eq_run, if_pos howed, List.append_nil]
    · rw [hcheck] at hspec
      obtain ⟨hwhole, hrest⟩ := hspec
      refine ⟨start + valid, Nat.le_add_right _ _, rfl, ?_⟩
      have htake : (bytes.take (start + valid)).drop start = (bytes.drop start).take valid := by
        rw [List.drop_take, Nat.add_sub_cancel_left]
      calc decode ((bytes.take (start + valid)).drop start) = (run fresh ((bytes.drop start).take valid)).1 := by
            rw [htake, decode, Utf8.decodeFrom_eq_run, hwhole]
            simp [fresh]
        _ = (run fresh ((bytes.drop start).take valid ++ (bytes.drop start).drop valid)).1 := by
            rw [Utf8.run_append, hwhole, hrest, List.append_nil]
        _ = (run fresh (bytes.drop start)).1 := by rw [List.take_append_drop]
    · rw [hcheck] at hspec
      obtain ⟨hpos, hinside, hwhole, hreplaced, hanew⟩ := hspec
      rw [List.length_drop] at hinside
      obtain ⟨k, hk, hloop, hdecode⟩ :=
        completeUtf8Loop_spec bytes turns (start + valid + len) (by omega) (by omega)
      refine ⟨k, by omega, hloop, ?_⟩
      have hdrop : (bytes.drop start).drop (valid + len) = bytes.drop (start + valid + len) := by
        rw [List.drop_drop, Nat.add_assoc]
      have hq : (bytes.take k).drop (start + valid + len) <+: (bytes.drop start).drop (valid + len) := by
        rw [hdrop]
        exact (List.take_prefix k bytes).drop _
      -- whole characters, the bytes that are none, and what the later turns leave
      have hparts : (bytes.take k).drop start = (bytes.drop start).take valid ++
          (((bytes.drop start).drop valid).take len ++ (bytes.take k).drop (start + valid + len)) := by
        have hlength : k - start = valid + (len + (k - (start + valid + len))) := by omega
        rw [List.drop_take, List.drop_take, hlength, List.take_add, List.take_add, List.drop_drop, List.drop_drop]
      calc decode ((bytes.take k).drop start)
          = (run fresh ((bytes.drop start).take valid)).1 ++
              decode (((bytes.drop start).drop valid).take len ++ (bytes.take k).drop (start + valid + len)) := by
            rw [hparts, decode, Utf8.decodeFrom_append, hwhole]
            rfl
        _ = (run fresh ((bytes.drop start).take valid)).1 ++ (run fresh ((bytes.drop start).drop valid)).1 := by
            rw [hreplaced _ hq, hdecode, hanew, hdrop]
        _ = (run fresh ((bytes.drop start).take valid ++ (bytes.drop start).drop valid)).1 := by
            rw [Utf8.run_append, hwhole]
        _ = (run fresh (bytes.drop start)).1 := by rw [List.take_append_drop]

/-- **What is looked at of an incomplete line are its whole characters.** -/
theorem decode_completeUtf8Prefix (bytes : Bytes) :
    completeUtf8Prefix bytes <+: bytes ∧ decode (completeUtf8Prefix bytes) = (run fresh bytes).1 := by
  obtain ⟨k, -, hloop, hdecode⟩ := completeUtf8Loop_spec bytes (bytes.length + 1) 0 (Nat.zero_le _) (by omega)
  rw [completeUtf8Prefix, hloop]
  exact ⟨List.take_prefix k bytes, hdecode⟩

/-! ### A page -/

section Parts

variable {isMatch : List Char → Bool} {P line : Bytes}

/-- A line is completed. -/
theorem Searched.complete {l : Bytes} (h : Searched isMatch P line) (hl : newline ∉ l)
    (hshort : (line ++ l).length ≤ MATCH_LINE_BYTES) (hmatch : isMatch (decode (line ++ l)) = false) :
    Searched isMatch (P ++ (l ++ [newline])) [] := by
  refine ⟨?_, Nat.zero_le _, ?_⟩
  · rw [rest, Lines.splitLines_append_line hl]
  · unfold NoneMatches
    rw [Lines.splitLines_append_line hl]
    intro l' hl'
    rcases List.mem_append.mp hl' with hl' | hl'
    · exact h.noneMatches l' hl'
    · rw [List.mem_singleton.mp hl', ← rest, ← h.carried]
      exact ⟨hshort, hmatch⟩

/-- A line goes on. -/
theorem noneMatches_append {l : Bytes} (h : NoneMatches isMatch P) (hl : newline ∉ l) : NoneMatches isMatch (P ++ l) := by
  unfold NoneMatches
  rw [Lines.splitLines_append_rest hl]
  exact h

theorem Searched.longer {l : Bytes} (h : Searched isMatch P line) (hl : newline ∉ l)
    (hshort : (line ++ l).length ≤ MATCH_LINE_BYTES) : Searched isMatch (P ++ l) (line ++ l) := by
  refine ⟨?_, hshort, noneMatches_append h.noneMatches hl⟩
  rw [rest, Lines.splitLines_append_rest hl, h.carried]
  rfl

theorem Searched.tooLong {l : Bytes} (h : Searched isMatch P line) (hl : newline ∉ l)
    (hlong : MATCH_LINE_BYTES < line.length + l.length) (more : Bytes) : TooLong isMatch (P ++ l ++ more) := by
  refine ⟨P ++ l, List.prefix_append _ _, ?_, noneMatches_append h.noneMatches hl⟩
  rw [rest, Lines.splitLines_append_rest hl, List.length_append, ← rest, ← h.carried]
  exact hlong

theorem Searched.shown_line {l : Bytes} (h : Searched isMatch P line) (hl : newline ∉ l) (more : Bytes) :
    Shown (P ++ (l ++ [newline]) ++ more) (decode (line ++ l)) := by
  refine .line (Lines.mem_lines_of_prefix (List.prefix_append _ _) ?_)
  rw [Lines.splitLines_append_line hl, h.carried]
  exact List.mem_append_right _ (List.mem_singleton.mpr rfl)

theorem Searched.shown_beginning {l : Bytes} (h : Searched isMatch P line) (hl : newline ∉ l) (more : Bytes) :
    Shown (P ++ l ++ more) (decode (completeUtf8Prefix (line ++ l))) := by
  obtain ⟨hbegins, hdecode⟩ := decode_completeUtf8Prefix (line ++ l)
  have hrest : rest newline (P ++ l) = line ++ l := by
    rw [rest, Lines.splitLines_append_rest hl, h.carried]
    rfl
  refine .beginning (P := P ++ l) (List.prefix_append _ _) (by rwa [hrest]) fun more => ?_
  rw [hrest, hdecode]
  exact Utf8.run_prefix _ more

/-- What holds after a page. -/
def Matched.Right (isMatch : List Char → Bool) (T : Bytes) : Matched → Prop
  | .matched => ∃ text, Shown T text ∧ isMatch text = true
  | .tooLong => TooLong isMatch T
  | .carry line => Searched isMatch T line

theorem matchParts_spec : ∀ (parts : List Bytes) (P line : Bytes),
    (∀ p ∈ parts, newline ∉ p ∨ ∃ l, newline ∉ l ∧ p = l ++ [newline]) → Searched isMatch P line →
      (matchParts isMatch line parts).Right isMatch (P ++ parts.flatten)
  | [], P, line, _, h => by
    rw [matchParts, List.flatten_nil, List.append_nil]
    exact h
  | part :: parts, P, line, hparts, h => by
    have hmore : ∀ p ∈ parts, newline ∉ p ∨ ∃ l, newline ∉ l ∧ p = l ++ [newline] :=
      fun p hp => hparts p (List.mem_cons_of_mem _ hp)
    rw [List.flatten_cons, ← List.append_assoc]
    rcases hparts part List.mem_cons_self with hpart | ⟨l, hl, rfl⟩
    · have hlast : part.getLast? ≠ some newline := fun hlast => hpart (List.mem_of_getLast? hlast)
      simp only [matchParts, hlast, decide_false, Bool.false_eq_true, if_false]
      split_ifs with hlong hmatch
      · exact h.tooLong hpart hlong _
      · exact ⟨_, h.shown_beginning hpart _, hmatch⟩
      · exact matchParts_spec parts _ _ hmore (h.longer hpart (by simpa using hlong))
    · have hlast : (l ++ [newline]).getLast? = some newline := by simp
      simp only [matchParts, hlast, decide_true, if_true, List.dropLast_concat]
      split_ifs with hlong hmatch
      · have htoo := h.tooLong hl hlong ([newline] ++ parts.flatten)
        rw [← List.append_assoc] at htoo ⊢
        exact htoo
      · exact ⟨_, h.shown_line hl _, hmatch⟩
      · exact matchParts_spec parts _ _ hmore (h.complete hl (by simpa using hlong) (by simpa using hmatch))

/-- **Whatever the page, its lines are looked at as the stream has them.** -/
theorem matchLines_spec (h : Searched isMatch P line) (data : Bytes) :
    (matchLines isMatch line data).Right isMatch (P ++ data) := by
  have hspec := matchParts_spec (splitInclusive newline data) P line (fun p hp => Lines.splitInclusive_piece hp) h
  rwa [Lines.splitInclusive_flatten] at hspec

end Parts

end LogMatch
end Client
end OpenRelay
