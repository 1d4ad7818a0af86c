/-
# Responses of the daemon

The responses of an attach stream (`protocol.rs`) and their JSON, as `serde_json`
writes it: an object with its `type` first and the other fields in their order,
byte strings in base64.

Key theorem: `decimal_length_le`.
-/
import OpenRelay.Session.Runtime

namespace OpenRelay
namespace Ipc

open Journal (decimal)
open Pump (ModeSnapshot AttachInit)
open Session (signedDecimal)

/-! ### JSON -/

def text (s : String) : Bytes := Journal.ascii s.toList

@[simp] theorem text_length (s : String) : (text s).length = s.length := by
  rw [text, Journal.ascii, List.length_map, String.length_toList]

def hexDigit (n : ℕ) : UInt8 := UInt8.ofNat (if n < 10 then 48 + n else 87 + n)

/-- A byte of a string, escaped where JSON asks for it. -/
def escapeByte (b : UInt8) : Bytes :=
  if b = 34 then text "\\\""
  else if b = 92 then text "\\\\"
  else if b = 8 then text "\\b"
  else if b = 9 then text "\\t"
  else if b = 10 then text "\\n"
  else if b = 12 then text "\\f"
  else if b = 13 then text "\\r"
  else if b < 32 then text "\\u00" ++ [hexDigit (b.toNat / 16), hexDigit (b.toNat % 16)]
  else [b]

def jsonString (s : Bytes) : Bytes := text "\"" ++ s.flatMap escapeByte ++ text "\""

def jsonBool : Bool → Bytes
  | true => text "true"
  | false => text "false"

def jsonOption {α : Type*} (json : α → Bytes) : Option α → Bytes
  | some a => json a
  | none => text "null"

def base64Digit (n : ℕ) : UInt8 :=
  UInt8.ofNat (if n < 26 then 65 + n else if n < 52 then 71 + n else if n < 62 then n - 4
    else if n = 62 then 43 else 47)

/-- The standard alphabet, padded. -/
def base64 : Bytes → Bytes
  | a :: b :: c :: rest =>
    let n := (a.toNat * 256 + b.toNat) * 256 + c.toNat
    base64Digit (n / 262144) :: base64Digit (n / 4096 % 64) :: base64Digit (n / 64 % 64) ::
      base64Digit (n % 64) :: base64 rest
  | [a, b] =>
    let n := (a.toNat * 256 + b.toNat) * 4
    [base64Digit (n / 4096), base64Digit (n / 64 % 64), base64Digit (n % 64), 61]
  | [a] => [base64Digit (a.toNat / 4), base64Digit (a.toNat % 4 * 16), 61, 61]
  | [] => []

def jsonBytes (data : Bytes) : Bytes := jsonString (base64 data)

/-- An object of a tagged enumeration. -/
def jsonObject (tag : String) (fields : List (String × Bytes)) : Bytes :=
  text "\x7b\"type\":\"" ++ text tag ++ text "\"" ++
    fields.flatMap (fun field => text ",\"" ++ text field.1 ++ text "\":" ++ field.2) ++ text "\x7d"

/-! ### The responses -/

/-- The responses of an attach stream. -/
inductive RpcResponse where
  | error (message : Bytes)
  | attachStreamInit (init : AttachInit) (scrollback : Bytes) (attachmentId : ℕ) (role : Bytes)
  | attachStreamChunk (offset : ℕ) (data : Bytes)
  | attachModeChanged (modes : ModeSnapshot)
  | attachResized (rows cols : ℕ)
  | attachStreamDone (exitCode : Option ℤ) (finalOffset : ℕ)
  deriving DecidableEq, Repr

def modeFields (modes : ModeSnapshot) : List (String × Bytes) :=
  [("bracketed_paste_mode", jsonBool modes.bracketedPasteMode), ("app_cursor_keys", jsonBool modes.appCursorKeys),
    ("mouse_report", jsonBool modes.mouseReport), ("sgr_mouse", jsonBool modes.sgrMouse),
    ("focus_events", jsonBool modes.focusEvents)]

/-- `serde_json::to_vec`. -/
def RpcResponse.toVec : RpcResponse → Bytes
  | .error message => jsonObject "error" [("message", jsonString message)]
  | .attachStreamInit init scrollback attachmentId role =>
    jsonObject "attach_stream_init" ([("data", jsonBytes init.data), ("end_offset", decimal init.endOffset),
      ("running", jsonBool init.running)] ++ modeFields init.modes ++ [("scrollback", jsonBytes scrollback),
      ("incarnation", decimal init.incarnation), ("attachment_id", decimal attachmentId), ("role", jsonString role)])
  | .attachStreamChunk offset data =>
    jsonObject "attach_stream_chunk" [("offset", decimal offset), ("data", jsonBytes data)]
  | .attachModeChanged modes => jsonObject "attach_mode_changed" (modeFields modes)
  | .attachResized rows cols => jsonObject "attach_resized" [("rows", decimal rows), ("cols", decimal cols)]
  | .attachStreamDone exitCode finalOffset =>
    jsonObject "attach_stream_done" [("exit_code", jsonOption signedDecimal exitCode),
      ("final_offset", decimal finalOffset)]

example : base64 (text "Many") = text "TWFueQ==" := by decide

/-! ### The length of a notice -/

theorem decimal_length_le {n k : ℕ} (hk : 0 < k) (h : n < 10 ^ k) : (decimal n).length ≤ k := by
  rw [decimal, Journal.ascii, List.length_map]
  exact (Nat.length_toDigits_le_iff (by decide) hk).mpr h

theorem signedDecimal_length_le {n : ℤ} {k : ℕ} (hk : 0 < k) (h : n.natAbs < 10 ^ k) :
    (signedDecimal n).length ≤ k + 1 := by
  have hlen := decimal_length_le hk h
  unfold signedDecimal
  split
  · rw [List.length_append]
    simp only [Journal.ascii, List.map_cons, List.map_nil, List.length_cons, List.length_nil]
    omega
  · omega

theorem jsonBool_length_le (b : Bool) : (jsonBool b).length ≤ 5 := by
  cases b <;> decide

theorem jsonObject_length (tag : String) (fields : List (String × Bytes)) :
    (jsonObject tag fields).length = tag.length + 11 +
      (fields.map fun field => field.1.length + 4 + field.2.length).sum := by
  have hfields : (fields.flatMap fun field => text ",\"" ++ text field.1 ++ text "\":" ++ field.2).length =
      (fields.map fun field => field.1.length + 4 + field.2.length).sum := by
    rw [List.length_flatMap]
    congr 1
    refine List.map_congr_left fun field _ => ?_
    simp only [List.length_append, text_length]
    show 2 + field.1.length + 2 + field.2.length = _
    omega
  simp only [jsonObject, List.length_append, hfields, text_length]
  show 9 + tag.length + 1 + _ + 1 = _
  omega

end Ipc
end OpenRelay
