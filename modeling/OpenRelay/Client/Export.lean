/-
# A stream is exported

`oly export` reads a session's stream page by page up to the end that it saw first, and
writes it out as it is, or as base64 within a JSON object (`client/logs.rs`,
`run_export`). The base64 is written as pages come, up to the last whole group of three
bytes; what is left of a group is carried to the next page, and goes out at the end.

The daemon's pages may be of any length, also empty while the journal lags, and the
stream grows meanwhile or the session is restarted. An export that succeeds has written
exactly the beginning of the stream (`export_exact`).

Key theorems: `Written.write`, `exportInv_step`.
-/
import OpenRelay.Client.StreamPages
import OpenRelay.Ipc.Base64

namespace OpenRelay
namespace Client
namespace Export

open Ipc (text jsonString base64 base64_append decodePadded_base64)
open Pages

/-! ### The code -/

/-- Where an export is. -/
inductive Phase where
  /-- The first cursor is asked for. -/
  | asking
  /-- `read_page`: the cursor before. -/
  | revalidating
  | window (limit : ℕ) (w : Window)
  /-- The cursor after. -/
  | confirming (data : Bytes)
  /-- The page was empty. -/
  | stalled
  | returned (ok : Bool)
  deriving DecidableEq, Repr

/-- An export under way: what it was asked for, what it has seen first, and what it has written. -/
structure Exporter where
  json : Bool
  id : Bytes
  incarnation : ℕ
  /-- The end of the stream as it was seen first. -/
  upTo : ℕ
  offset : ℕ
  carry : Bytes
  stdout : Bytes
  phase : Phase
  deriving DecidableEq, Repr

namespace Exporter

/-- The session's first cursor is asked for. -/
def start (json : Bool) (id : Bytes) : Exporter := ⟨json, id, 0, 0, 0, [], [], .asking⟩

variable (c : Exporter)

def header : Bytes := text "\x7b\"v\":1,\"session\":" ++ jsonString c.id ++ text ",\"bytes\":\""

def trailer : Bytes := text "\",\"size\":" ++ text (toString c.upTo) ++ text "\x7d\n"

/-- The export fails. -/
def error : Exporter := { c with phase := .returned false }

/-- `while position.offset < end`, and what comes after the loop. -/
def turn : Exporter :=
  if c.offset < c.upTo then { c with phase := .revalidating }
  else { c with stdout := if c.json then c.stdout ++ (base64 c.carry ++ c.trailer) else c.stdout, phase := .returned true }

/-- Before the loop. -/
def enter (o : Observed) : Exporter :=
  match o.incarnation with
  | none => c.error
  | some incarnation =>
    turn { c with
      incarnation := incarnation, upTo := o.offset, offset := 0, carry := []
      stdout := if c.json then c.stdout ++ c.header else c.stdout }

/-- `read_page` up to its request. -/
def request (before : Observed) : Exporter :=
  if before.incarnation ≠ some c.incarnation then c.error
  else if before.offset < c.offset then c.error
  else
    let limit := min (min (c.upTo - c.offset) (1024 * 1024)) (before.offset - c.offset)
    { c with phase := if limit = 0 then .confirming [] else .window limit .called }

/-- What comes of the request. -/
def answer (limit : ℕ) : Window → Exporter
  | .answered data _ _ _ incarnation =>
    if incarnation ≠ some c.incarnation then c.error else { c with phase := .confirming data }
  | .refused => c.error
  | w => { c with phase := .window limit w }

/-- A page is written. -/
def write (data : Bytes) : Exporter :=
  if c.json then
    let carry := c.carry ++ data
    let complete := carry.length / 3 * 3
    turn { c with
      offset := c.offset + data.length, carry := carry.drop complete, stdout := c.stdout ++ base64 (carry.take complete) }
  else turn { c with offset := c.offset + data.length, stdout := c.stdout ++ data }

/-- The cursor behind a page: of the same incarnation, or the export fails. An empty page is waited for. -/
def confirm (after : Observed) (data : Bytes) : Exporter :=
  if after.incarnation ≠ some c.incarnation then c.error
  else if data = [] then { c with phase := .stalled }
  else c.write data

/-- `expired`: no page has come for longer than is waited. -/
def wait (expired : Bool) : Exporter := if expired then c.error else c.turn

end Exporter

/-- The daemon's side and the export. -/
structure World where
  recorded : Recorded
  client : Exporter

/-- What may happen next. -/
inductive Action where
  /-- The session goes on. -/
  | session (e : Event)
  /-- A cursor is answered, or the handler of a window makes or reads what it has to. -/
  | found (f : Found)
  | waited (expired : Bool)
  /-- A request, or writing to standard output, fails. -/
  | fail

/-- A step of either side, where it can be taken. -/
def World.step (w : World) : Action → Option World
  | .session e => some { w with recorded := w.recorded.next e }
  | .found f =>
    match w.client.phase, f with
    | .asking, .observation o =>
      if w.recorded.reports o then some { w with client := w.client.enter o } else none
    | .revalidating, .observation o =>
      if w.recorded.reports o then some { w with client := w.client.request o } else none
    | .window limit window, f =>
      (windowStep w.recorded w.client.offset limit window f).map fun window => { w with client := w.client.answer limit window }
    | .confirming data, .observation o =>
      if w.recorded.reports o then some { w with client := w.client.confirm o data } else none
    | _, _ => none
  | .waited expired =>
    match w.client.phase with
    | .stalled => some { w with client := w.client.wait expired }
    | _ => none
  | .fail =>
    match w.client.phase with
    | .returned _ => none
    | _ => some { w with client := w.client.error }

/-- Before the first request. -/
def World.start (recorded : Recorded) (json : Bool) (id : Bytes) : World := ⟨recorded, .start json id⟩

/-- The stream that is exported, as far as it is recorded. -/
def World.stream (w : World) : Bytes := w.recorded.streams w.client.incarnation

/-- What an export has written that succeeded. -/
def Exported (S : Bytes) (c : Exporter) : Prop :=
  c.upTo ≤ S.length ∧
    if c.json then ∃ bytes, c.stdout = c.header ++ (bytes ++ c.trailer) ∧ Pty.decodePadded bytes = some (S.take c.upTo)
    else c.stdout = S.take c.upTo

/-- What holds of the exporter all along: what it carries is less than a character, and what it has returned is
right. -/
structure Exact (w : World) : Prop where
  carry : w.client.carry.length ≤ 2
  exported : w.client.phase = .returned true → Exported w.stream w.client

/-! ### The invariant -/

/-- What is written up to the offset: in JSON whole groups, and the rest is carried. -/
structure Written (S : Bytes) (c : Exporter) : Prop where
  inside : c.offset ≤ S.length
  upTo : c.offset ≤ c.upTo
  carry : c.carry.length ≤ 2
  raw : c.json = false → c.stdout = S.take c.offset
  json : c.json = true → ∃ whole, whole.length % 3 = 0 ∧ whole ++ c.carry = S.take c.offset ∧
    c.stdout = c.header ++ base64 whole

theorem Written.mono {S S' : Bytes} {c : Exporter} (h : Written S c) (hS : S <+: S') : Written S' c := by
  obtain ⟨T, rfl⟩ := hS
  have htake : (S ++ T).take c.offset = S.take c.offset := List.take_append_of_le_length h.inside
  refine ⟨?_, h.upTo, h.carry, ?_, ?_⟩
  · exact h.inside.trans (by simp)
  · rw [htake]
    exact h.raw
  · rw [htake]
    exact h.json

theorem Exported.mono {S S' : Bytes} {c : Exporter} (h : Exported S c) (hS : S <+: S') : Exported S' c := by
  obtain ⟨T, rfl⟩ := hS
  have htake : (S ++ T).take c.upTo = S.take c.upTo := List.take_append_of_le_length h.1
  refine ⟨h.1.trans (by simp), ?_⟩
  rw [htake]
  exact h.2

/-- What holds of an export by where it is. -/
def Right (r : Recorded) (c : Exporter) : Prop :=
  match c.phase with
  | .asking => c.stdout = [] ∧ c.carry = []
  | .revalidating | .stalled => Written (r.streams c.incarnation) c
  | .window limit w => Written (r.streams c.incarnation) c ∧ w.Right r c.offset limit ∧ 0 < limit ∧
    limit ≤ 1024 * 1024 ∧ c.offset + limit ≤ c.upTo
  | .confirming data => Written (r.streams c.incarnation) c ∧ PieceOf data (r.streams c.incarnation) c.offset ∧
    c.offset + data.length ≤ c.upTo
  | .returned ok => c.carry.length ≤ 2 ∧ (ok = true → Exported (r.streams c.incarnation) c)

section Steps

variable {r r' : Recorded} {c : Exporter}

theorem Right.carry (h : Right r c) : c.carry.length ≤ 2 := by
  unfold Right at h
  split at h
  · simp [h.2]
  · exact h.carry
  · exact h.carry
  · exact h.1.carry
  · exact h.1.carry
  · exact h.1

theorem Right.grows (h : Right r c) (hr : Grows r r') : Right r' c := by
  have hS := hr.streams c.incarnation
  unfold Right at h ⊢
  split at h
  · exact h
  · exact h.mono hS
  · exact h.mono hS
  · obtain ⟨hwritten, hwindow, hlimit⟩ := h
    exact ⟨hwritten.mono hS, hwindow.grows hr, hlimit⟩
  · obtain ⟨hwritten, hpiece, hlength⟩ := h
    exact ⟨hwritten.mono hS, hpiece.mono hS, hlength⟩
  · exact ⟨h.1, fun hok => (h.2 hok).mono hS⟩

theorem right_error (h : c.carry.length ≤ 2) : Right r c.error := ⟨h, nofun⟩

/-- **The loop goes on, or ends with all that was to be exported.** -/
theorem Written.turn (h : Written (r.streams c.incarnation) c) : Right r c.turn := by
  unfold Exporter.turn
  split_ifs with hmore hjson
  · exact ⟨h.inside, h.upTo, h.carry, h.raw, h.json⟩
  · have hend : c.upTo = c.offset := by
      have := h.upTo
      omega
    obtain ⟨whole, hthird, hwhole, hstdout⟩ := h.json hjson
    refine ⟨h.carry, fun _ => ⟨hend ▸ h.inside, ?_⟩⟩
    dsimp only
    rw [if_pos hjson]
    refine ⟨base64 (whole ++ c.carry), ?_, ?_⟩
    · calc c.stdout ++ (base64 c.carry ++ c.trailer) = c.header ++ (base64 whole ++ base64 c.carry ++ c.trailer) := by
            simp [hstdout]
        _ = c.header ++ (base64 (whole ++ c.carry) ++ c.trailer) := by rw [base64_append hthird]
    · rw [decodePadded_base64, hwhole, hend]
  · have hend : c.upTo = c.offset := by
      have := h.upTo
      omega
    refine ⟨h.carry, fun _ => ⟨hend ▸ h.inside, ?_⟩⟩
    dsimp only
    rw [if_neg hjson, hend]
    exact h.raw (by simpa using hjson)

theorem take_piece {data S : Bytes} {offset : ℕ} (h : PieceOf data S offset) (hin : offset ≤ S.length) :
    S.take offset ++ data = S.take (offset + data.length) ∧ offset + data.length ≤ S.length := by
  have hlength := h.length_le
  rw [List.length_drop] at hlength
  refine ⟨?_, by omega⟩
  rw [List.take_add, ← List.prefix_iff_eq_take.mp h]

/-- **A page is written**: whole groups of what is carried and of the page, and the rest is carried. -/
theorem Written.write {data : Bytes} (h : Written (r.streams c.incarnation) c)
    (hpiece : PieceOf data (r.streams c.incarnation) c.offset) (hlength : c.offset + data.length ≤ c.upTo) :
    Right r (c.write data) := by
  obtain ⟨htake, hinside⟩ := take_piece hpiece h.inside
  unfold Exporter.write
  split_ifs with hjson
  · obtain ⟨whole, hthird, hwhole, hstdout⟩ := h.json hjson
    refine Written.turn ⟨hinside, hlength, ?_, fun hraw => ?_, fun _ => ?_⟩
    · simp only [List.length_drop]
      omega
    · rw [hjson] at hraw
      cases hraw
    · have hcomplete : (c.carry ++ data).length / 3 * 3 ≤ (c.carry ++ data).length := by omega
      refine ⟨whole ++ (c.carry ++ data).take ((c.carry ++ data).length / 3 * 3), ?_, ?_, ?_⟩
      · rw [List.length_append, List.length_take, Nat.min_eq_left hcomplete]
        omega
      · dsimp only
        rw [List.append_assoc, List.take_append_drop, ← List.append_assoc, hwhole, htake]
      · dsimp only
        rw [base64_append hthird, hstdout, List.append_assoc]
        rfl
  · have hraw : c.json = false := by simpa using hjson
    refine Written.turn ⟨hinside, hlength, h.carry, fun _ => ?_, fun htrue => absurd htrue hjson⟩
    dsimp only
    rw [h.raw hraw, htake]

/-! What comes after each answer. -/

theorem right_enter {o : Observed} (hstdout : c.stdout = []) (hcarry : c.carry = []) : Right r (c.enter o) := by
  unfold Exporter.enter
  split
  · exact right_error (by simp [hcarry])
  · refine Written.turn ⟨Nat.zero_le _, Nat.zero_le _, Nat.zero_le _, fun hraw => ?_, fun hjson => ⟨[], rfl, rfl, ?_⟩⟩
    · have hraw : c.json = false := hraw
      simp [hraw, hstdout]
    · have hjson : c.json = true := hjson
      simp [hjson, hstdout, Exporter.header, base64]

theorem Written.request {before : Observed} (h : Written (r.streams c.incarnation) c) : Right r (c.request before) := by
  unfold Exporter.request
  split_ifs with hincarnation hbehind
  · exact right_error h.carry
  · exact right_error h.carry
  · have hupTo := h.upTo
    dsimp only
    generalize hlimit : min (min (c.upTo - c.offset) (1024 * 1024)) (before.offset - c.offset) = limit
    split_ifs with hzero
    · exact ⟨⟨h.inside, h.upTo, h.carry, h.raw, h.json⟩, List.nil_prefix, h.upTo⟩
    · refine ⟨⟨h.inside, h.upTo, h.carry, h.raw, h.json⟩, trivial, Nat.pos_of_ne_zero hzero, ?_, ?_⟩
      · omega
      · dsimp only
        omega

theorem Written.answer {limit : ℕ} {w : Window} (h : Written (r.streams c.incarnation) c) (hw : w.Right r c.offset limit)
    (hpos : 0 < limit) (hlimit : limit ≤ 1024 * 1024) (hupTo : c.offset + limit ≤ c.upTo) :
    Right r (c.answer limit w) := by
  unfold Exporter.answer
  split
  · split_ifs with hincarnation
    · exact right_error h.carry
    · obtain ⟨hlength, -, hpiece⟩ := hw
      refine ⟨⟨h.inside, h.upTo, h.carry, h.raw, h.json⟩, ?_, ?_⟩
      · exact hpiece c.incarnation (by simpa using hincarnation)
      · unfold windowBytes at hlength
        dsimp only
        omega
  · exact right_error h.carry
  · exact ⟨⟨h.inside, h.upTo, h.carry, h.raw, h.json⟩, hw, hpos, hlimit, hupTo⟩

theorem Written.confirm {after : Observed} {data : Bytes} (h : Written (r.streams c.incarnation) c)
    (hpiece : PieceOf data (r.streams c.incarnation) c.offset) (hlength : c.offset + data.length ≤ c.upTo) :
    Right r (c.confirm after data) := by
  unfold Exporter.confirm
  split_ifs with hincarnation hempty
  · exact right_error h.carry
  · exact ⟨h.inside, h.upTo, h.carry, h.raw, h.json⟩
  · exact h.write hpiece hlength

theorem Written.wait (h : Written (r.streams c.incarnation) c) (expired : Bool) : Right r (c.wait expired) := by
  unfold Exporter.wait
  split_ifs
  · exact right_error h.carry
  · exact h.turn

end Steps

/-- **One step keeps what holds of an export.** -/
theorem exportInv_step {w w' : World} {a : Action} (h : Right w.recorded w.client) (hstep : w.step a = some w') :
    Right w'.recorded w'.client := by
  cases a with
  | session e =>
    cases hstep
    exact h.grows (w.recorded.grows_next e)
  | found f =>
    have hright := h
    unfold Right at hright
    unfold World.step at hstep
    dsimp only at hstep
    split at hstep
    · rename_i o hphase
      rw [hphase] at hright
      split_ifs at hstep
      cases hstep
      exact right_enter hright.1 hright.2
    · rename_i o hphase
      rw [hphase] at hright
      split_ifs at hstep
      cases hstep
      exact Written.request hright
    · rename_i limit window hphase
      rw [hphase] at hright
      obtain ⟨hwritten, hwindow, hpos, hlimit, hupTo⟩ := hright
      obtain ⟨window', hwindow', rfl⟩ := Option.map_eq_some_iff.mp hstep
      exact hwritten.answer (windowStep_right hwindow hwindow') hpos hlimit hupTo
    · rename_i data o hphase
      rw [hphase] at hright
      obtain ⟨hwritten, hpiece, hlength⟩ := hright
      split_ifs at hstep
      cases hstep
      exact hwritten.confirm hpiece hlength
    · cases hstep
  | waited expired =>
    have hright := h
    unfold Right at hright
    unfold World.step at hstep
    dsimp only at hstep
    split at hstep
    · rename_i hphase
      rw [hphase] at hright
      cases hstep
      exact Written.wait hright expired
    · cases hstep
  | fail =>
    unfold World.step at hstep
    dsimp only at hstep
    split at hstep <;> cases hstep
    exact right_error h.carry

/-- **An export that succeeds is exact**, whatever pages the daemon gives and however the session
goes on meanwhile; and no more than two bytes are ever carried. -/
theorem export_exact (recorded : Recorded) (json : Bool) (id : Bytes) (as : List Action) {w : World}
    (hrun : Runs.run World.step (.start recorded json id) as = some w) : Exact w := by
  have hstart : Right recorded (.start json id) := ⟨rfl, rfl⟩
  have h : Right w.recorded w.client :=
    Runs.run_invariant (I := fun w => Right w.recorded w.client) (fun h hstep => exportInv_step h hstep) hrun hstart
  refine ⟨h.carry, fun hphase => ?_⟩
  unfold Right at h
  rw [hphase] at h
  exact h.2 rfl


/-- Five bytes are recorded. -/
def fiveBytes : Recorded := ⟨1, Function.update (fun _ => []) 1 [104, 101, 108, 108, 111]⟩

/-- The daemon tells of five bytes in the first incarnation. -/
def seen : Action := .found (.observation ⟨true, none, 5, some 1⟩)

/-- One page. -/
def pageOf (n : ℕ) : List Action := [seen, seen, .found (.persisted n), seen, seen]

/-- Two bytes come, then none, then the rest, while the session goes on. -/
def inThree : List Action :=
  seen :: pageOf 2 ++ pageOf 0 ++ [.waited false, .session (.output [33])] ++ pageOf 3

theorem export_exact_inThree : ∃ w, Runs.run World.step (.start fiveBytes true (text "s")) inThree = some w ∧
    w.client.phase = .returned true ∧
    w.client.stdout = text "\x7b\"v\":1,\"session\":\"s\",\"bytes\":\"aGVsbG8=\",\"size\":5\x7d\n" ∧ Exact w := by
  have hrun : (Runs.run World.step (.start fiveBytes true (text "s")) inThree).any (fun w =>
      decide (w.client.phase = .returned true ∧
        w.client.stdout = text "\x7b\"v\":1,\"session\":\"s\",\"bytes\":\"aGVsbG8=\",\"size\":5\x7d\n")) = true := by
    decide +kernel
  obtain ⟨w, hw, hend⟩ := (Option.any_eq_true _ _).mp hrun
  obtain ⟨hphase, hstdout⟩ := of_decide_eq_true hend
  exact ⟨w, hw, hphase, hstdout, export_exact fiveBytes true (text "s") inThree hw⟩

end Export
end Client
end OpenRelay
