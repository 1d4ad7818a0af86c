/-
# Lines

Requests, and the first response of an attach stream, are JSON texts that end
with a newline (`ipc.rs`). The reader takes a line of at most 10 MiB. JSON escapes
a newline, so a text that is written as a line is read as that line
(`next_encodeFrame`).

Key theorem: `newline_not_mem_toVec`.
-/
import OpenRelay.Ipc.AttachFrame

namespace OpenRelay
namespace Ipc

open Journal (decimal newline)

def protocolVersion : ℕ := 15

/-- Maximum size of a line. -/
def maxIpcLineBytes : ℕ := 10 * 1024 * 1024

/-- The envelope of a response. -/
def envelope (payload : RpcResponse) : Bytes :=
  text "\x7b\"version\":" ++ decimal protocolVersion ++ text ",\"payload\":" ++ payload.toVec ++ text "\x7d"

def encodeFrame (payload : RpcResponse) : Bytes := envelope payload ++ [newline]

/-! ### No newline inside -/

theorem toNat_of_lt {n : ℕ} (h : n < 256) : (UInt8.ofNat n).toNat = n := by
  rw [UInt8.toNat_ofNat', Nat.mod_eq_of_lt h]

theorem hexDigit_ne {n : ℕ} (h : n < 16) : hexDigit n ≠ newline := by
  intro heq
  have hnat := congrArg UInt8.toNat heq
  rw [hexDigit, toNat_of_lt (by split <;> omega)] at hnat
  change _ = 10 at hnat
  split at hnat <;> omega

theorem newline_not_mem_escapeByte (b : UInt8) : newline ∉ escapeByte b := by
  unfold escapeByte
  split_ifs with h34 h92 h8 h9 h10
  case pos | pos | pos | pos | pos | pos | pos => decide
  case pos h12 h13 hctrl =>
    have hb : b.toNat < 32 := hctrl
    rw [List.mem_append, not_or]
    refine ⟨by decide, fun hmem => ?_⟩
    simp only [List.mem_cons, List.not_mem_nil, or_false] at hmem
    rcases hmem with heq | heq
    · exact hexDigit_ne (by omega) heq.symm
    · exact hexDigit_ne (by omega) heq.symm
  case neg => exact fun hmem => h10 (List.mem_singleton.mp hmem).symm

theorem newline_not_mem_jsonString (s : Bytes) : newline ∉ jsonString s := by
  simp only [jsonString, List.mem_append, not_or]
  refine ⟨⟨by decide, fun hmem => ?_⟩, by decide⟩
  obtain ⟨b, -, hb⟩ := List.mem_flatMap.mp hmem
  exact newline_not_mem_escapeByte b hb

theorem newline_not_mem_decimal (n : ℕ) : newline ∉ decimal n := by
  intro hmem
  have h := (Journal.decimal_digit hmem).1
  exact absurd h (by decide)

theorem newline_not_mem_signedDecimal (n : ℤ) : newline ∉ Session.signedDecimal n := by
  unfold Session.signedDecimal
  split
  · rw [List.mem_append, not_or]
    exact ⟨by decide, newline_not_mem_decimal _⟩
  · exact newline_not_mem_decimal _

theorem newline_not_mem_jsonBool (b : Bool) : newline ∉ jsonBool b := by
  cases b <;> decide

theorem newline_not_mem_jsonObject {tag : String} {fields : List (String × Bytes)} (htag : newline ∉ text tag)
    (hfields : ∀ field ∈ fields, newline ∉ text field.1 ∧ newline ∉ field.2) : newline ∉ jsonObject tag fields := by
  simp only [jsonObject, List.mem_append, not_or]
  refine ⟨⟨⟨⟨by decide, htag⟩, by decide⟩, fun hmem => ?_⟩, by decide⟩
  obtain ⟨field, hfield, hmem⟩ := List.mem_flatMap.mp hmem
  obtain ⟨hname, hvalue⟩ := hfields field hfield
  simp only [List.mem_append] at hmem
  rcases hmem with ((hmem | hmem) | hmem) | hmem
  · exact absurd hmem (by decide)
  · exact hname hmem
  · exact absurd hmem (by decide)
  · exact hvalue hmem

theorem plain_field {name : String} {value : Bytes} (hname : newline ∉ text name) (hvalue : newline ∉ value) :
    newline ∉ text (name, value).1 ∧ newline ∉ (name, value).2 := ⟨hname, hvalue⟩

theorem newline_not_mem_modeFields (modes : Pump.ModeSnapshot) :
    ∀ field ∈ modeFields modes, newline ∉ text field.1 ∧ newline ∉ field.2 := by
  intro field hmem
  simp only [modeFields, List.mem_cons, List.not_mem_nil, or_false] at hmem
  rcases hmem with rfl | rfl | rfl | rfl | rfl <;> exact plain_field (by decide) (newline_not_mem_jsonBool _)

/-- **A response is one line.** -/
theorem newline_not_mem_toVec (r : RpcResponse) : newline ∉ r.toVec := by
  cases r with
  | error message =>
    refine newline_not_mem_jsonObject (by decide) fun field hmem => ?_
    simp only [List.mem_cons, List.not_mem_nil, or_false] at hmem
    subst hmem
    exact plain_field (by decide) (newline_not_mem_jsonString _)
  | attachStreamInit init scrollback attachmentId role =>
    refine newline_not_mem_jsonObject (by decide) fun field hmem => ?_
    rw [List.mem_append, List.mem_append] at hmem
    rcases hmem with (hmem | hmem) | hmem
    · simp only [List.mem_cons, List.not_mem_nil, or_false] at hmem
      rcases hmem with rfl | rfl | rfl
      · exact plain_field (by decide) (newline_not_mem_jsonString _)
      · exact plain_field (by decide) (newline_not_mem_decimal _)
      · exact plain_field (by decide) (newline_not_mem_jsonBool _)
    · exact newline_not_mem_modeFields init.modes field hmem
    · simp only [List.mem_cons, List.not_mem_nil, or_false] at hmem
      rcases hmem with rfl | rfl | rfl | rfl
      · exact plain_field (by decide) (newline_not_mem_jsonString _)
      · exact plain_field (by decide) (newline_not_mem_decimal _)
      · exact plain_field (by decide) (newline_not_mem_decimal _)
      · exact plain_field (by decide) (newline_not_mem_jsonString _)
  | attachStreamChunk offset data =>
    refine newline_not_mem_jsonObject (by decide) fun field hmem => ?_
    simp only [List.mem_cons, List.not_mem_nil, or_false] at hmem
    rcases hmem with rfl | rfl
    · exact plain_field (by decide) (newline_not_mem_decimal _)
    · exact plain_field (by decide) (newline_not_mem_jsonString _)
  | attachModeChanged modes => exact newline_not_mem_jsonObject (by decide) (newline_not_mem_modeFields modes)
  | attachResized rows cols =>
    refine newline_not_mem_jsonObject (by decide) fun field hmem => ?_
    simp only [List.mem_cons, List.not_mem_nil, or_false] at hmem
    rcases hmem with rfl | rfl <;> exact plain_field (by decide) (newline_not_mem_decimal _)
  | attachStreamDone exitCode finalOffset =>
    refine newline_not_mem_jsonObject (by decide) fun field hmem => ?_
    simp only [List.mem_cons, List.not_mem_nil, or_false] at hmem
    rcases hmem with rfl | rfl
    · refine plain_field (by decide) ?_
      rcases exitCode with _ | code
      · decide
      · exact newline_not_mem_signedDecimal code
    · exact plain_field (by decide) (newline_not_mem_decimal _)

theorem newline_not_mem_envelope (r : RpcResponse) : newline ∉ envelope r := by
  simp only [envelope, List.mem_append, not_or]
  exact ⟨⟨⟨⟨by decide, newline_not_mem_decimal _⟩, by decide⟩, newline_not_mem_toVec r⟩, by decide⟩

/-! ### Reading a line -/

/-- What `read_line_bounded` comes to on a stream that begins with `s`, and how many
bytes it has taken; none while it waits for more. -/
def readLineBounded (s : Bytes) : Option (Except ReadError Bytes × ℕ) :=
  let line := s.takeWhile fun b => b != newline
  if line.length < maxIpcLineBytes ∧ line.length < s.length then
    some (.ok (s.take (line.length + 1)), line.length + 1)
  else if maxIpcLineBytes < s.length then some (.error (.lineTooLong maxIpcLineBytes), maxIpcLineBytes + 1)
  else none

/-- A line's length is settled by what has come, if it is long enough. -/
theorem takeWhile_append_of_lt {s : Bytes} (h : (s.takeWhile fun b => b != newline).length < s.length) (t : Bytes) :
    (s ++ t).takeWhile (fun b => b != newline) = s.takeWhile fun b => b != newline := by
  rw [List.takeWhile_append, if_neg h.ne]

theorem readLineBounded_some {s : Bytes} {line : Except ReadError Bytes} {n : ℕ} (h : readLineBounded s = some (line, n)) :
    0 < n ∧ n ≤ s.length ∧ ∀ t, readLineBounded (s ++ t) = some (line, n) := by
  unfold readLineBounded at h ⊢
  dsimp only at h ⊢
  by_cases hend : (s.takeWhile fun b => b != newline).length < s.length
  · -- the newline has come
    simp only [takeWhile_append_of_lt hend]
    split at h
    · rename_i hshort
      cases h
      refine ⟨Nat.succ_pos _, hshort.2, fun t => ?_⟩
      rw [if_pos ⟨hshort.1, hshort.2.trans_le (by simp)⟩, List.take_append_of_le_length hshort.2]
    · rename_i hlong
      split at h
      · rename_i hmax
        cases h
        refine ⟨Nat.succ_pos _, hmax, fun t => ?_⟩
        rw [if_neg (fun hshort => hlong ⟨hshort.1, hend⟩), if_pos (hmax.trans_le (by simp))]
      · cases h
  · rw [if_neg (fun hshort => hend hshort.2)] at h
    split at h
    · rename_i hmax
      cases h
      have hall : s.takeWhile (fun b => b != newline) = s :=
        (List.takeWhile_prefix _).eq_of_length_le (by omega)
      refine ⟨Nat.succ_pos _, hmax, fun t => ?_⟩
      have hle : s.length ≤ ((s ++ t).takeWhile fun b => b != newline).length := by
        rw [List.takeWhile_append, if_pos (by rw [hall]), List.length_append]
        exact Nat.le_add_right _ _
      rw [if_neg (fun hshort => by omega), if_pos (hmax.trans_le (by simp))]
    · cases h

section Lines

variable (fromStr : Bytes → Except Bytes (ℕ × RpcResponse))

/-- A line is an envelope of the right version. `fromStr` stands for the check of its
UTF-8 and for `serde_json::from_str`. -/
def parseLine (line : Bytes) : Except ReadError RpcResponse :=
  match fromStr line with
  | .error detail => .error (.serde detail)
  | .ok (version, payload) =>
    if version = protocolVersion then .ok payload else .error (.mismatch protocolVersion version)

/-- What `read_response_from_reader` comes to. -/
def readResponse (s : Bytes) : Option (Except ReadError RpcResponse × ℕ) :=
  (readLineBounded s).map fun r => (r.1.bind (parseLine fromStr), r.2)

/-- What it comes to at the end of the stream. -/
def readResponseAtEof (s : Bytes) : Except ReadError RpcResponse :=
  if s = [] then .error .closed else parseLine fromStr s

theorem readResponse_some {s : Bytes} {item : Except ReadError RpcResponse} {n : ℕ}
    (h : readResponse fromStr s = some (item, n)) :
    0 < n ∧ n ≤ s.length ∧ ∀ t, readResponse fromStr (s ++ t) = some (item, n) := by
  obtain ⟨⟨line, n'⟩, hline, heq⟩ := Option.map_eq_some_iff.mp h
  cases heq
  obtain ⟨hpos, hle, hmore⟩ := readLineBounded_some hline
  exact ⟨hpos, hle, fun t => by rw [readResponse, hmore t]; rfl⟩

/-- **A line is read back**, whatever follows it. -/
theorem next_encodeFrame {payload : RpcResponse} (hlen : (encodeFrame payload).length ≤ maxIpcLineBytes)
    (hserde : fromStr (encodeFrame payload) = .ok (protocolVersion, payload)) (rest : Bytes) :
    readResponse fromStr (encodeFrame payload ++ rest) = some (.ok payload, (encodeFrame payload).length) := by
  have hsize : (encodeFrame payload).length = (envelope payload).length + 1 := by
    rw [encodeFrame, List.length_append, List.length_singleton]
  have htake : (encodeFrame payload ++ rest).takeWhile (fun b => b != newline) = envelope payload := by
    have hall : ∀ b ∈ envelope payload, (b != newline) = true := by
      intro b hb
      rw [bne_iff_ne]
      rintro rfl
      exact newline_not_mem_envelope payload hb
    rw [encodeFrame, List.append_assoc, List.takeWhile_append_of_pos hall]
    simp
  have hline : readLineBounded (encodeFrame payload ++ rest) = some (.ok (encodeFrame payload), (encodeFrame payload).length) := by
    unfold readLineBounded
    simp only [htake]
    rw [if_pos ⟨by omega, by rw [List.length_append]; omega⟩, ← hsize, List.take_left]
  rw [readResponse, hline, Option.map_some]
  show some (parseLine fromStr (encodeFrame payload), _) = _
  rw [parseLine, hserde]
  simp only [if_true]

end Lines

end Ipc
end OpenRelay
