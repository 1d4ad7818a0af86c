/-
# Payloads, read back

The payloads of the records that are not output have codecs of their own: a
checkpoint's fields of fixed width and its program behind its length
(`session/journal/checkpoint.rs`), a lifecycle fact with its exit code, and a policy
as a line `key=value` (`session/journal/codec.rs`). Each decoder gives back what was
encoded, and a checkpoint that was cut off anywhere is rejected. The one value that
is not given back is the exit code that stands for none (`lowest_exit_code_is_none`).

Key theorems: `decodeCheckpoint_encode`, `decodeCheckpoint_prefix`, `codec_laws`.
-/
import OpenRelay.Lib.Fields
import OpenRelay.Session.Runtime

namespace OpenRelay
namespace Session

open Journal Pty LittleEndian Fields

/-! ### Checkpoints -/

/-- The fields of a checkpoint fit their widths. -/
structure CheckpointFits (c : Checkpoint) : Prop where
  rows : c.rows < 2 ^ 16
  cols : c.cols < 2 ^ 16
  cursorRow : c.cursor.1 < 2 ^ 16
  cursorCol : c.cursor.2 < 2 ^ 16
  filteredOffset : c.filteredOffset < 2 ^ 64
  program : c.program.length < 2 ^ 32

/-- Records of the first version have no filtered offset. -/
def takeFilteredOffset (version : ℕ) (rest : Bytes) : Option (ℕ × Bytes) :=
  if 2 ≤ version then (splitOff 8 rest).map fun (offset, rest) => (leNat offset, rest) else some (0, rest)

/-- `decode_checkpoint` -/
def decodeCheckpoint (payload : Bytes) : Option Checkpoint :=
  (splitOff 4 payload).bind fun (magic, rest) =>
  if magic ≠ checkpointMagic then none
  else (splitOff 2 rest).bind fun (version, rest) =>
  if ¬ (1 ≤ leNat version ∧ leNat version ≤ checkpointVersion) then none
  else (splitOff 2 rest).bind fun (rows, rest) =>
  (splitOff 2 rest).bind fun (cols, rest) =>
  (splitOff 2 rest).bind fun (cursorRow, rest) =>
  (splitOff 2 rest).bind fun (cursorCol, rest) =>
  (splitOff 1 rest).bind fun (flags, rest) =>
  (takeFilteredOffset (leNat version) rest).bind fun (filteredOffset, rest) =>
  (splitOff 4 rest).bind fun (programLen, rest) =>
  (splitOff (leNat programLen) rest).bind fun (program, rest) =>
  if rest ≠ [] then none
  else some {
    rows := leNat rows, cols := leNat cols, cursor := (leNat cursorRow, leNat cursorCol)
    altScreen := (leNat flags).testBit 0
    appCursorKeys := (leNat flags).testBit 1
    bracketedPaste := (leNat flags).testBit 2
    filteredOffset := filteredOffset, program := program }

theorem flags_lt (c : Checkpoint) : c.flags < 256 := by
  unfold Checkpoint.flags
  have := c.altScreen.toNat_lt
  have := c.appCursorKeys.toNat_lt
  have := c.bracketedPaste.toNat_lt
  omega

theorem flags_testBit (c : Checkpoint) :
    c.flags.testBit 0 = c.altScreen ∧ c.flags.testBit 1 = c.appCursorKeys ∧ c.flags.testBit 2 = c.bracketedPaste := by
  unfold Checkpoint.flags
  cases c.altScreen <;> cases c.appCursorKeys <;> cases c.bracketedPaste <;> decide

theorem takeFilteredOffset_encode {n : ℕ} (h : n < 2 ^ 64) (rest : Bytes) :
    takeFilteredOffset checkpointVersion (leBytes 8 n ++ rest) = some (n, rest) := by
  unfold takeFilteredOffset
  rw [if_pos (by decide), splitOff_append (leBytes_length 8 n)]
  show some (leNat (leBytes 8 n), rest) = some (n, rest)
  rw [leNat_leBytes (by simpa using h)]

/-- **A checkpoint is read back.** -/
theorem decodeCheckpoint_encode {c : Checkpoint} (h : CheckpointFits c) : decodeCheckpoint (encodeCheckpoint c) = some c := by
  have hversion : leNat (leBytes 2 checkpointVersion) = checkpointVersion := by decide
  have hrows : leNat (leBytes 2 c.rows) = c.rows := leNat_leBytes (by simpa using h.rows)
  have hcols : leNat (leBytes 2 c.cols) = c.cols := leNat_leBytes (by simpa using h.cols)
  have hrow : leNat (leBytes 2 c.cursor.1) = c.cursor.1 := leNat_leBytes (by simpa using h.cursorRow)
  have hcol : leNat (leBytes 2 c.cursor.2) = c.cursor.2 := leNat_leBytes (by simpa using h.cursorCol)
  have hflags : leNat (leBytes 1 c.flags) = c.flags := leNat_leBytes (by simpa using flags_lt c)
  have hlen : leNat (leBytes 4 c.program.length) = c.program.length := leNat_leBytes (by simpa using h.program)
  have hprogram : splitOff c.program.length c.program = some (c.program, []) := by
    have := splitOff_append (α := UInt8) (n := c.program.length) rfl []
    rwa [List.append_nil] at this
  obtain ⟨halt, happ, hpaste⟩ := flags_testBit c
  unfold decodeCheckpoint encodeCheckpoint
  rw [splitOff_append (show checkpointMagic.length = 4 from rfl), Option.bind_some]
  dsimp only
  rw [if_neg (fun hne => hne rfl), splitOff_append (leBytes_length 2 _), Option.bind_some]
  dsimp only
  rw [hversion, if_neg (by decide)]
  simp only [splitOff_append (leBytes_length _ _), Option.bind_some, takeFilteredOffset_encode h.filteredOffset, hrows,
    hcols, hrow, hcol, hflags, hlen, hprogram, halt, happ, hpaste, ne_eq, not_true_eq_false, if_false]

theorem bind_takeFilteredOffset_prefix {β : Type*} {f : ℕ × Bytes → Option β} {n : ℕ} (hn : n < 2 ^ 64) {p b : Bytes}
    (hp : p <+: leBytes 8 n ++ b) (hne : p ≠ leBytes 8 n ++ b) (hrest : ∀ q, q <+: b → q ≠ b → f (n, q) = none) :
    (takeFilteredOffset checkpointVersion p).bind f = none := by
  unfold takeFilteredOffset
  rw [if_pos (by decide), Option.bind_map]
  refine bind_splitOff_prefix (leBytes_length 8 n) hp hne fun q hq hqne => ?_
  show f (leNat (leBytes 8 n), q) = none
  rw [leNat_leBytes (by simpa using hn)]
  exact hrest q hq hqne

/-- **A checkpoint that was cut off** is rejected, wherever the cut is. -/
theorem decodeCheckpoint_prefix {c : Checkpoint} (h : CheckpointFits c) {p : Bytes} (hp : p <+: encodeCheckpoint c)
    (hne : p ≠ encodeCheckpoint c) : decodeCheckpoint p = none := by
  have hversion : leNat (leBytes 2 checkpointVersion) = checkpointVersion := by decide
  have hlen : leNat (leBytes 4 c.program.length) = c.program.length := leNat_leBytes (by simpa using h.program)
  unfold decodeCheckpoint
  unfold encodeCheckpoint at hp hne
  refine bind_splitOff_prefix (a := checkpointMagic) rfl hp hne fun p hp hne => ?_
  dsimp only
  rw [if_neg (fun hne => hne rfl)]
  refine bind_splitOff_prefix (leBytes_length 2 _) hp hne fun p hp hne => ?_
  dsimp only
  rw [hversion, if_neg (by decide)]
  refine bind_splitOff_prefix (leBytes_length 2 _) hp hne fun p hp hne => ?_
  refine bind_splitOff_prefix (leBytes_length 2 _) hp hne fun p hp hne => ?_
  refine bind_splitOff_prefix (leBytes_length 2 _) hp hne fun p hp hne => ?_
  refine bind_splitOff_prefix (leBytes_length 2 _) hp hne fun p hp hne => ?_
  refine bind_splitOff_prefix (leBytes_length 1 _) hp hne fun p hp hne => ?_
  refine bind_takeFilteredOffset_prefix h.filteredOffset hp hne fun p hp hne => ?_
  refine bind_splitOff_prefix (leBytes_length 4 _) hp hne fun p hp hne => ?_
  dsimp only
  rw [hlen]
  -- the program is cut off
  have hshort : p.length < c.program.length := by
    refine lt_of_le_of_ne hp.length_le fun heq => hne (hp.eq_of_length heq)
  rw [show splitOff c.program.length p = none from if_pos hshort]
  rfl

/-! ### Lifecycle facts -/

/-- The bytes of a text. -/
def utf8Bytes (text : String) : Bytes := text.toByteArray.data.toList

theorem utf8_utf8Bytes (text : String) : utf8 (utf8Bytes text) = some text := by
  unfold utf8 utf8Bytes String.fromUTF8?
  rw [dif_pos text.isValidUTF8]
  rfl

/-- `decode_lifecycle_payload`, with the detail. -/
def decodeLifecycle (payload : Bytes) : Option (LifecycleCode × Option ExitCode × String) :=
  (decodeLifecyclePayload payload).bind fun (code, exitCode) =>
    (utf8 (payload.drop 5)).map fun detail => (code, exitCode, detail)

theorem decodeLifecycle_encode (code : LifecycleCode) (exitCode : Option ExitCode) (detail : String) :
    decodeLifecycle (encodeLifecyclePayload code exitCode (utf8Bytes detail)) =
      some (code, if exitCode = some noExitCode then none else exitCode, detail) := by
  have hdrop : (encodeLifecyclePayload code exitCode (utf8Bytes detail)).drop 5 = utf8Bytes detail := by
    unfold encodeLifecyclePayload
    rw [List.drop_succ_cons, List.drop_left' (leBytes_length 4 _)]
  unfold decodeLifecycle
  rw [decodeLifecyclePayload_encode, Option.bind_some, hdrop, utf8_utf8Bytes]
  rfl

/-! ### Policies -/

/-- What `record_policy` takes. -/
def acceptsPolicy (key value : String) : Bool :=
  !(key.toList.isEmpty || key.toList.any (fun c => c == '=' || c == '\n') || value.toList.contains '\n')

/-- The text before and after the first of these characters. -/
def splitAtChar (sep : Char) (text : List Char) : Option (List Char × List Char) :=
  match text.dropWhile (· ≠ sep) with
  | [] => none
  | _ :: after => some (text.takeWhile (· ≠ sep), after)

/-- `parse_policy` -/
def parsePolicy (payload : Bytes) : Option (String × String) :=
  (utf8 payload).bind fun text => (splitAtChar '=' text.toList).bind fun (key, value) =>
    if key.isEmpty || value.contains '\n' then none else some (String.ofList key, String.ofList value)

theorem splitAtChar_append {sep : Char} {key : List Char} (h : sep ∉ key) (value : List Char) :
    splitAtChar sep (key ++ sep :: value) = some (key, value) := by
  have hkey : ∀ c ∈ key, decide (c ≠ sep) = true := fun c hc => decide_eq_true fun heq => h (heq ▸ hc)
  unfold splitAtChar
  rw [List.dropWhile_append_of_pos hkey, List.dropWhile_cons_of_neg (by simp), List.takeWhile_append_of_pos hkey,
    List.takeWhile_cons_of_neg (by simp), List.append_nil]

theorem policyPayload_utf8 (key value : String) :
    policyPayload (utf8Bytes key) (utf8Bytes value) = utf8Bytes (key ++ "=" ++ value) := by
  unfold policyPayload utf8Bytes
  rw [String.toByteArray_append, String.toByteArray_append]
  simp only [ByteArray.data_append, Array.toList_append]
  rfl

/-- **A policy is read back.** -/
theorem parsePolicy_policyPayload {key value : String} (h : acceptsPolicy key value = true) :
    parsePolicy (policyPayload (utf8Bytes key) (utf8Bytes value)) = some (key, value) := by
  simp only [acceptsPolicy, Bool.not_eq_true', Bool.or_eq_false_iff] at h
  obtain ⟨⟨hempty, hkey⟩, hvalue⟩ := h
  have hsep : '=' ∉ key.toList := by
    intro hmem
    have := List.any_eq_false.mp hkey _ hmem
    simp at this
  have htext : (key ++ "=" ++ value).toList = key.toList ++ '=' :: value.toList := by
    rw [String.toList_append, String.toList_append, List.append_assoc]
    rfl
  unfold parsePolicy
  rw [policyPayload_utf8, utf8_utf8Bytes, Option.bind_some, htext, splitAtChar_append hsep, Option.bind_some]
  dsimp only
  rw [hempty, hvalue, if_neg (by decide), String.ofList_toList, String.ofList_toList]

/-! ### All of them -/

/-- **The codecs are inverse.** -/
structure CodecLaws : Prop where
  checkpoint : ∀ c : Checkpoint, CheckpointFits c → decodeCheckpoint (encodeCheckpoint c) = some c
  /-- Every exit code but the lowest, which stands for none. -/
  lifecycle : ∀ (code : LifecycleCode) (exitCode : Option ExitCode) (detail : String), exitCode ≠ some noExitCode →
    decodeLifecycle (encodeLifecyclePayload code exitCode (utf8Bytes detail)) = some (code, exitCode, detail)
  policy : ∀ key value : String, acceptsPolicy key value = true →
    parsePolicy (policyPayload (utf8Bytes key) (utf8Bytes value)) = some (key, value)
  truncated : ∀ (c : Checkpoint) (p : Bytes), CheckpointFits c → p <+: encodeCheckpoint c → p ≠ encodeCheckpoint c →
    decodeCheckpoint p = none
  /-- The offset of an anchor is the one the decoder gives back. -/
  anchored : ∀ (c : Checkpoint) (r : Record) (part turns : ℕ) (before after : Bytes), CheckpointFits c → r.Fits →
    r.kind = .checkpointRef → r.payload = encodeCheckpoint c →
    ((anchorsLoop part (before ++ (r.encode ++ after)) (turns + 1) before.length r.seq).1.head?.map
      CheckpointAnchor.filteredOffset) = (decodeCheckpoint r.payload).map Checkpoint.filteredOffset

/-- **The laws of the codecs.** -/
theorem codec_laws : CodecLaws where
  checkpoint c h := decodeCheckpoint_encode h
  lifecycle code exitCode detail hnot := by
    rw [decodeLifecycle_encode, if_neg hnot]
  policy key value h := parsePolicy_policyPayload h
  truncated c p h hp hne := decodeCheckpoint_prefix h hp hne
  anchored c r part turns before after h hr hkind hpayload := by
    rw [anchorsLoop_cons hr rfl, hpayload, decodeCheckpoint_encode h, anchorOf, if_pos hkind, hpayload,
      filteredOffset_encode h.filteredOffset]
    rfl

/-- **The lowest exit code** comes back as none. -/
theorem lowest_exit_code_is_none :
    decodeLifecycle (encodeLifecyclePayload .stopped (some noExitCode) (utf8Bytes "killed")) =
      some (.stopped, none, "killed") ∧
    decodeLifecycle (encodeLifecyclePayload .stopped (some noExitCode) (utf8Bytes "killed")) ≠
      some (.stopped, some noExitCode, "killed") := by
  rw [decodeLifecycle_encode]
  exact ⟨rfl, fun h => by cases h⟩

end Session
end OpenRelay
