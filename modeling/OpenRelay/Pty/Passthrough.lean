/-
# Signals that are passed through

A client that repaints from its engine's screen forwards what the screen does not hold:
the titles and the progress of a chunk (`extract_passthrough_osc_sequences` in
`session/scan.rs`), and behind them the last shape that it gave the cursor
(`last_cursor_style_params`). The commands are whole pieces of the chunk, in its order
(`extracted`), none that stands in it is left out (`extract_command`), and what is
forwarded of them is they themselves (`extract_idempotent`). A terminal that reads the
signals is where it was, on the screen and in its parser (`takesBytes_signals`). A
character that breaks off a sequence can stand in the text of a command; a chunk with
one is not covered there (`NoCancel`).

Key theorem: `lastStyle_signals`.
-/
import Mathlib.Data.List.TakeWhile
import OpenRelay.Lib.VtBytes
import OpenRelay.Pty.Scan

namespace OpenRelay
namespace Pty

/-! ### The code -/

/-- A command after its `ESC ]`: its number, its text, its terminator, and what follows. -/
def oscAt (after : Bytes) : Option (Bytes × Bytes × Bytes × Bytes) :=
  let ps := after.takeWhile isDigit
  match after.dropWhile isDigit with
  | 59 :: rest =>
    if ps = [] then none
    else
      let payload := rest.takeWhile fun b => b != 7 && b != 27
      match rest.dropWhile fun b => b != 7 && b != 27 with
      | 7 :: tail => some (ps, payload, [7], tail)
      | 27 :: 92 :: tail => some (ps, payload, [27, 92], tail)
      | _ => none
  | _ => none

/-- A whole command: a number, a text, and how it ends. -/
structure Whole (ps payload terminator : Bytes) : Prop where
  number : ps ≠ []
  digits : ∀ b ∈ ps, isDigit b = true
  text : ∀ b ∈ payload, (b != 7 && b != 27) = true
  terminator : Vt.Terminator terminator

theorem oscAt_some {after ps payload terminator tail : Bytes} (h : oscAt after = some (ps, payload, terminator, tail)) :
    after = ps ++ 59 :: (payload ++ (terminator ++ tail)) ∧ Whole ps payload terminator := by
  unfold oscAt at h
  dsimp only at h
  split at h
  · next rest hrest =>
    split at h
    · exact absurd h (by simp)
    · next hps =>
      have hall := List.takeWhile_append_dropWhile (p := isDigit) (l := after)
      have hin_mem {b : UInt8} (hb : b ∈ rest.takeWhile fun b => b != 7 && b != 27) : (b != 7 && b != 27) = true :=
        List.mem_takeWhile_imp (p := fun b : UInt8 => b != 7 && b != 27) hb
      have hin := List.takeWhile_append_dropWhile (p := fun b : UInt8 => b != 7 && b != 27) (l := rest)
      split at h
      · next t ht =>
        simp only [Option.some.injEq, Prod.mk.injEq] at h
        obtain ⟨rfl, rfl, rfl, rfl⟩ := h
        rw [hrest] at hall
        rw [ht] at hin
        refine ⟨?_, hps, fun b hb => List.mem_takeWhile_imp hb, fun b hb => hin_mem hb, .inl rfl⟩
        rw [List.singleton_append, hin, hall]
      · next t ht =>
        simp only [Option.some.injEq, Prod.mk.injEq] at h
        obtain ⟨rfl, rfl, rfl, rfl⟩ := h
        rw [hrest] at hall
        rw [ht] at hin
        refine ⟨?_, hps, fun b hb => List.mem_takeWhile_imp hb, fun b hb => hin_mem hb, .inr rfl⟩
        rw [List.cons_append, List.singleton_append, hin, hall]
      · exact absurd h (by simp)
  · exact absurd h (by simp)

theorem oscAt_length {after ps payload terminator tail : Bytes}
    (h : oscAt after = some (ps, payload, terminator, tail)) : tail.length < after.length := by
  rw [(oscAt_some h).1]
  simp only [List.length_append, List.length_cons]
  omega

/-- The commands of a chunk that are passed through; what is no whole command is skipped. -/
def extractPassthroughOscSequences : Bytes → Bytes
  | [] => []
  | 27 :: 93 :: after =>
    match _h : oscAt after with
    | some (ps, payload, terminator, tail) =>
      (if isPassthroughOsc ps payload then 27 :: 93 :: (ps ++ 59 :: (payload ++ terminator)) else []) ++
        extractPassthroughOscSequences tail
    | none => extractPassthroughOscSequences (93 :: after)
  | _ :: rest => extractPassthroughOscSequences rest
termination_by data => data.length
decreasing_by
  · have := oscAt_length _h
    simp only [List.length_cons]
    omega
  · simp only [List.length_cons]
    omega
  · simp only [List.length_cons]
    omega

theorem dropWhile_length {p : UInt8 → Bool} {l tail : Bytes} {b c : UInt8} (h : l.dropWhile p = b :: c :: tail) :
    tail.length < l.length := by
  have hle := (List.dropWhile_suffix (l := l) p).length_le
  rw [h] at hle
  simp only [List.length_cons] at hle
  omega

/-- The parameters of the last cursor style, `found` if there is none. -/
def lastCursorStyleFrom : Option Bytes → Bytes → Option Bytes
  | found, [] => found
  | found, 27 :: 91 :: after =>
    match _h : after.dropWhile isDigit with
    | 32 :: 113 :: tail => lastCursorStyleFrom (some (after.takeWhile isDigit)) tail
    | _ => lastCursorStyleFrom found after
  | found, _ :: rest => lastCursorStyleFrom found rest
termination_by _ data => data.length
decreasing_by
  · have := dropWhile_length _h
    simp only [List.length_cons]
    omega
  · simp only [List.length_cons]
    omega
  · simp only [List.length_cons]
    omega

/-- `last_cursor_style_params`. -/
def lastCursorStyleParams (data : Bytes) : Option Bytes := lastCursorStyleFrom none data

/-- `passthrough_signals`: the commands, and the last cursor style behind them. -/
def passthroughSignals (data : Bytes) : Bytes :=
  let signals := extractPassthroughOscSequences data
  match lastCursorStyleParams data with
  | some params => signals ++ ascii "\x1b[" ++ params ++ ascii " q"
  | none => signals

/-! ### Whole commands -/

/-- A command's bytes. -/
def oscBytes (ps payload terminator : Bytes) : Bytes := 27 :: 93 :: (ps ++ 59 :: (payload ++ terminator))

/-- A whole command that is passed through. -/
def IsCommand (command : Bytes) : Prop :=
  ∃ ps payload terminator, Whole ps payload terminator ∧ isPassthroughOsc ps payload = true ∧
    command = oscBytes ps payload terminator

/-- The pieces stand in the data, each behind the one before it. -/
def Stand : List Bytes → Bytes → Prop
  | [], _ => True
  | piece :: pieces, data => ∃ before after, data = before ++ (piece ++ after) ∧ Stand pieces after

/-- What is passed through of a chunk, command by command. -/
inductive Extracted : Bytes → List Bytes → Prop
  | nil : Extracted [] []
  | skip {data : Bytes} {commands : List Bytes} (b : UInt8) (h : Extracted data commands) :
      Extracted (b :: data) commands
  | pass {command data : Bytes} {commands : List Bytes} (hcommand : IsCommand command) (h : Extracted data commands) :
      Extracted (command ++ data) (command :: commands)

theorem Extracted.skips {data : Bytes} {commands : List Bytes} (h : Extracted data commands) :
    ∀ skipped : Bytes, Extracted (skipped ++ data) commands
  | [] => h
  | b :: skipped => (h.skips skipped).skip b

theorem Extracted.isCommand {data : Bytes} {commands : List Bytes} (h : Extracted data commands) :
    ∀ command ∈ commands, IsCommand command := by
  induction h with
  | nil => exact fun _ h => absurd h List.not_mem_nil
  | skip _ _ ih => exact ih
  | pass hcommand _ ih => exact List.forall_mem_cons.mpr ⟨hcommand, ih⟩

theorem Stand.skip {data : Bytes} : ∀ {pieces : List Bytes}, Stand pieces data → ∀ b, Stand pieces (b :: data)
  | [], _, _ => trivial
  | _ :: _, h, b => by
    obtain ⟨before, after, rfl, hafter⟩ := h
    exact ⟨b :: before, after, rfl, hafter⟩

theorem Extracted.stand {data : Bytes} {commands : List Bytes} (h : Extracted data commands) : Stand commands data := by
  induction h with
  | nil => trivial
  | skip b _ ih => exact ih.skip b
  | @pass _ data _ _ _ ih => exact ⟨[], data, rfl, ih⟩

theorem oscBytes_append (ps payload terminator tail : Bytes) :
    oscBytes ps payload terminator ++ tail = 27 :: 93 :: (ps ++ 59 :: (payload ++ (terminator ++ tail))) := by
  simp [oscBytes]

/-- **What is passed through** is commands of the chunk, one after another. -/
theorem extracted (data : Bytes) :
    ∃ commands, Extracted data commands ∧ extractPassthroughOscSequences data = commands.flatten := by
  fun_induction extractPassthroughOscSequences data with
  | case1 => exact ⟨[], .nil, rfl⟩
  | case2 after ps payload terminator tail h ih =>
    obtain ⟨commands, hextracted, hflat⟩ := ih
    obtain ⟨hafter, hwhole⟩ := oscAt_some h
    rw [hafter, ← oscBytes_append, hflat]
    split
    · next hpass => exact ⟨_, .pass ⟨ps, payload, terminator, hwhole, hpass, rfl⟩ hextracted, rfl⟩
    · exact ⟨commands, hextracted.skips _, rfl⟩
  | case3 after _ ih =>
    obtain ⟨commands, hextracted, hflat⟩ := ih
    exact ⟨commands, hextracted.skip 27, hflat⟩
  | case4 b rest _ ih =>
    obtain ⟨commands, hextracted, hflat⟩ := ih
    exact ⟨commands, hextracted.skip b, hflat⟩

/-! ### No command is left out -/

theorem oscAt_whole {ps payload terminator : Bytes} (h : Whole ps payload terminator) (tail : Bytes) :
    oscAt (ps ++ 59 :: (payload ++ (terminator ++ tail))) = some (ps, payload, terminator, tail) := by
  have htake : (ps ++ 59 :: (payload ++ (terminator ++ tail))).takeWhile isDigit = ps := by
    rw [List.takeWhile_append_of_pos h.digits, List.takeWhile_cons_of_neg (by decide), List.append_nil]
  have hdrop : (ps ++ 59 :: (payload ++ (terminator ++ tail))).dropWhile isDigit =
      59 :: (payload ++ (terminator ++ tail)) := by
    rw [List.dropWhile_append_of_pos h.digits, List.dropWhile_cons_of_neg (by decide)]
  have htext : (payload ++ (terminator ++ tail)).takeWhile (fun b => b != 7 && b != 27) = payload ∧
      (payload ++ (terminator ++ tail)).dropWhile (fun b => b != 7 && b != 27) = terminator ++ tail := by
    rw [List.takeWhile_append_of_pos h.text, List.dropWhile_append_of_pos h.text]
    rcases h.terminator with rfl | rfl
    · simp
    · simp
  unfold oscAt
  rw [htake, hdrop]
  show (if ps = [] then none else _) = _
  rw [if_neg h.number, htext.1, htext.2]
  rcases h.terminator with rfl | rfl <;> rfl

/-- No escape is in the text of a command. -/
theorem Whole.no_escape {ps payload terminator : Bytes} (h : Whole ps payload terminator) :
    27 ∉ ps ++ 59 :: payload := by
  intro hmem
  rcases List.mem_append.mp hmem with hmem | hmem
  · exact absurd (h.digits 27 hmem) (by decide)
  · rcases List.mem_cons.mp hmem with hmem | hmem
    · exact absurd hmem (by decide)
    · exact absurd (h.text 27 hmem) (by decide)

/-- What is no whole command is none before another either: an escape that does not end it breaks it off. -/
theorem oscAt_none {after : Bytes} (h : oscAt after = none) (rest : Bytes) :
    oscAt (after ++ 27 :: 93 :: rest) = none := by
  rcases hosc : oscAt (after ++ 27 :: 93 :: rest) with _ | ⟨ps, payload, terminator, tail⟩
  · rfl
  exfalso
  obtain ⟨hafter, hwhole⟩ := oscAt_some hosc
  have hsplit : after ++ 27 :: 93 :: rest = (ps ++ 59 :: payload) ++ (terminator ++ tail) := by
    rw [hafter, List.append_assoc, List.cons_append]
  rcases List.append_eq_append_iff.mp hsplit with ⟨more, htext, hmore⟩ | ⟨more, hleft, hmore⟩
  · -- the escape would be in the text, or be the terminator's
    rcases more with _ | ⟨b, more⟩
    · rcases hwhole.terminator with rfl | rfl
      · exact absurd (List.cons.inj hmore).1 (by decide)
      · exact absurd (List.cons.inj (List.cons.inj hmore).2).1 (by decide)
    · obtain ⟨rfl, -⟩ := List.cons.inj hmore
      exact hwhole.no_escape (by rw [htext]; exact List.mem_append_right _ List.mem_cons_self)
  · have hwithin : ∃ tail', more = terminator ++ tail' := by
      rcases hwhole.terminator with rfl | rfl
      · rcases more with _ | ⟨b, more⟩
        · exact absurd (List.cons.inj hmore).1 (by decide)
        · obtain ⟨rfl, -⟩ := List.cons.inj hmore
          exact ⟨more, rfl⟩
      · rcases more with _ | ⟨b, _ | ⟨c, more⟩⟩
        · exact absurd (List.cons.inj (List.cons.inj hmore).2).1 (by decide)
        · exact absurd (List.cons.inj (List.cons.inj hmore).2).1 (by decide)
        · obtain ⟨rfl, hlast⟩ := List.cons.inj hmore
          obtain ⟨rfl, -⟩ := List.cons.inj hlast
          exact ⟨more, rfl⟩
    obtain ⟨tail', rfl⟩ := hwithin
    rw [hleft, List.append_assoc, List.cons_append, oscAt_whole hwhole] at h
    exact absurd h (by simp)

theorem extract_first {command : Bytes} (h : IsCommand command) (after : Bytes) :
    extractPassthroughOscSequences (command ++ after) = command ++ extractPassthroughOscSequences after := by
  obtain ⟨ps, payload, terminator, hwhole, hpass, rfl⟩ := h
  rw [oscBytes_append, extractPassthroughOscSequences]
  split
  · next ps' payload' terminator' tail hosc =>
    rw [oscAt_whole hwhole] at hosc
    simp only [Option.some.injEq, Prod.mk.injEq] at hosc
    obtain ⟨rfl, rfl, rfl, rfl⟩ := hosc
    rw [if_pos hpass]
    rfl
  · next hosc =>
    rw [oscAt_whole hwhole] at hosc
    exact absurd hosc (by simp)

/-- **A whole command** of the chunk is passed through, behind those before it and before those after it. -/
theorem extract_command {command : Bytes} (h : IsCommand command) (before after : Bytes) :
    extractPassthroughOscSequences (before ++ (command ++ after)) =
      extractPassthroughOscSequences before ++ (command ++ extractPassthroughOscSequences after) := by
  obtain ⟨rest, hrest⟩ : ∃ rest, command ++ after = 27 :: 93 :: rest := by
    obtain ⟨ps, payload, terminator, -, -, rfl⟩ := h
    exact ⟨_, oscBytes_append ps payload terminator after⟩
  fun_induction extractPassthroughOscSequences before with
  | case1 => exact extract_first h after
  | case2 start ps payload terminator tail hosc ih =>
    obtain ⟨hstart, hwhole⟩ := oscAt_some hosc
    have hlonger : oscAt (start ++ (command ++ after)) =
        some (ps, payload, terminator, tail ++ (command ++ after)) := by
      rw [hstart, List.append_assoc, List.cons_append, List.append_assoc, List.append_assoc]
      exact oscAt_whole hwhole _
    rw [List.cons_append, List.cons_append, extractPassthroughOscSequences]
    split
    · next ps' payload' terminator' tail' hosc' =>
      rw [hlonger] at hosc'
      simp only [Option.some.injEq, Prod.mk.injEq] at hosc'
      obtain ⟨rfl, rfl, rfl, rfl⟩ := hosc'
      rw [ih, List.append_assoc]
    · next hosc' =>
      rw [hlonger] at hosc'
      exact absurd hosc' (by simp)
  | case3 start hosc ih =>
    have hlonger : oscAt (start ++ (command ++ after)) = none := by
      rw [hrest]
      exact oscAt_none hosc rest
    rw [List.cons_append, List.cons_append, extractPassthroughOscSequences]
    split
    · next hosc' =>
      rw [hlonger] at hosc'
      exact absurd hosc' (by simp)
    · exact ih
  | case4 b start hnot ih =>
    rw [List.cons_append, extractPassthroughOscSequences, ih]
    intro tail hb hstart
    rcases start with _ | ⟨c, start⟩
    · rw [List.nil_append, hrest] at hstart
      exact absurd (List.cons.inj hstart).1 (by decide)
    · obtain ⟨rfl, -⟩ := List.cons.inj hstart
      exact hnot start hb rfl

/-- **What is passed through** is passed through again. -/
theorem extract_idempotent (data : Bytes) :
    extractPassthroughOscSequences (extractPassthroughOscSequences data) = extractPassthroughOscSequences data := by
  obtain ⟨commands, hextracted, hflat⟩ := extracted data
  have hall := hextracted.isCommand
  rw [hflat]
  clear hextracted hflat
  induction commands with
  | nil => exact extractPassthroughOscSequences.eq_1
  | cons command commands ih =>
    obtain ⟨hcommand, hcommands⟩ := List.forall_mem_cons.mp hall
    rw [List.flatten_cons, extract_first hcommand, ih hcommands]

/-! ### The shape of the cursor -/

/-- A sequence that gives the cursor a shape. -/
def styleBytes (params : Bytes) : Bytes := 27 :: 91 :: (params ++ [32, 113])

/-- A whole such sequence. -/
def IsStyle (style : Bytes) : Prop := ∃ params, (∀ b ∈ params, isDigit b = true) ∧ style = styleBytes params

/-- No shape is given. -/
def NoStyle (data : Bytes) : Prop := ∀ style, IsStyle style → ¬ style <:+: data

/-- The data's last shape, or nothing where none is given. -/
def LastStyle (style data : Bytes) : Prop :=
  (style = [] ∧ NoStyle data) ∨ (IsStyle style ∧ ∃ before after, data = before ++ (style ++ after) ∧ NoStyle after)

theorem styleBytes_append (params tail : Bytes) :
    styleBytes params ++ tail = 27 :: 91 :: (params ++ 32 :: 113 :: tail) := by
  simp [styleBytes]

theorem noStyle_nil : NoStyle [] := by
  rintro style ⟨params, -, rfl⟩ hin
  exact absurd (List.infix_nil.mp hin) (by simp [styleBytes])

/-- One byte more gives no shape, if none begins with it. -/
theorem NoStyle.cons {data : Bytes} (h : NoStyle data) {b : UInt8}
    (hb : ∀ style, IsStyle style → ¬ style <+: b :: data) : NoStyle (b :: data) := by
  intro style hstyle hin
  rcases List.infix_cons_iff.mp hin with hprefix | hin
  · exact hb style hstyle hprefix
  · exact h style hstyle hin

/-- A sequence at the start is one that the scan finds. -/
theorem prefix_style {style data : Bytes} (h : IsStyle style) (hstart : style <+: data) :
    ∃ after tail, data = 27 :: 91 :: after ∧ after.dropWhile isDigit = 32 :: 113 :: tail := by
  obtain ⟨params, hdigits, rfl⟩ := h
  obtain ⟨tail, rfl⟩ := hstart
  refine ⟨_, tail, styleBytes_append params tail, ?_⟩
  rw [List.dropWhile_append_of_pos hdigits, List.dropWhile_cons_of_neg (by decide)]

/-- What the scan has found when it is through. -/
theorem lastCursorStyleFrom_spec (found : Option Bytes) (data : Bytes) :
    (lastCursorStyleFrom found data = found ∧ NoStyle data) ∨
      ∃ before params after, (∀ b ∈ params, isDigit b = true) ∧ data = before ++ (styleBytes params ++ after) ∧
        lastCursorStyleFrom found data = some params ∧ NoStyle after := by
  fun_induction lastCursorStyleFrom found data with
  | case1 found => exact .inl ⟨rfl, noStyle_nil⟩
  | case2 found after tail hdrop ih =>
    have hdata : 27 :: 91 :: after = styleBytes (after.takeWhile isDigit) ++ tail := by
      rw [styleBytes_append, ← hdrop, List.takeWhile_append_dropWhile]
    right
    rcases ih with ⟨hfound, hnone⟩ | ⟨before, params, rest, hdigits, htail, hfound, hnone⟩
    · exact ⟨[], _, tail, fun b hb => List.mem_takeWhile_imp hb, hdata, hfound, hnone⟩
    · refine ⟨styleBytes (after.takeWhile isDigit) ++ before, params, rest, hdigits, ?_, hfound, hnone⟩
      rw [hdata, htail, List.append_assoc]
  | case3 found after hnot ih =>
    rcases ih with ⟨hfound, hnone⟩ | ⟨before, params, rest, hdigits, hafter, hfound, hnone⟩
    · refine .inl ⟨hfound, (hnone.cons fun style hstyle hprefix => ?_).cons fun style hstyle hprefix => ?_⟩
      · obtain ⟨_, _, hdata, -⟩ := prefix_style hstyle hprefix
        exact absurd (List.cons.inj hdata).1 (by decide)
      · obtain ⟨after', tail, hdata, hdrop⟩ := prefix_style hstyle hprefix
        obtain rfl := (List.cons.inj (List.cons.inj hdata).2).2
        exact hnot tail hdrop
    · exact .inr ⟨27 :: 91 :: before, params, rest, hdigits, by rw [hafter]; rfl, hfound, hnone⟩
  | case4 found b rest hnot ih =>
    rcases ih with ⟨hfound, hnone⟩ | ⟨before, params, after, hdigits, hrest, hfound, hnone⟩
    · refine .inl ⟨hfound, hnone.cons fun style hstyle hprefix => ?_⟩
      obtain ⟨after, tail, hdata, -⟩ := prefix_style hstyle hprefix
      obtain ⟨hb, hrest⟩ := List.cons.inj hdata
      exact hnot after hb hrest
    · exact .inr ⟨b :: before, params, after, hdigits, by rw [hrest]; rfl, hfound, hnone⟩

/-- **The signals** are the chunk's commands, and behind them its last shape of the cursor. -/
theorem lastStyle_signals (data : Bytes) : ∃ style, LastStyle style data ∧
    passthroughSignals data = extractPassthroughOscSequences data ++ style := by
  have hspec := lastCursorStyleFrom_spec none data
  unfold passthroughSignals lastCursorStyleParams
  rcases hspec with ⟨hfound, hnone⟩ | ⟨before, params, after, hdigits, hdata, hfound, hnone⟩
  · refine ⟨[], .inl ⟨rfl, hnone⟩, ?_⟩
    rw [hfound]
    exact (List.append_nil _).symm
  · refine ⟨styleBytes params, .inr ⟨⟨params, hdigits, rfl⟩, before, after, hdata, hnone⟩, ?_⟩
    rw [hfound]
    show _ ++ ascii "\x1b[" ++ params ++ ascii " q" = _
    rw [List.append_assoc, List.append_assoc]
    rfl

/-! ### What a terminal makes of it -/

/-- No character breaks off a sequence: none is CAN or SUB, and no two bytes are a control
character from U+0080 on. -/
structure NoCancel (data : Bytes) : Prop where
  bytes : ∀ b ∈ data, b.toNat ≠ 0x18 ∧ b.toNat ≠ 0x1a
  pairs : data.IsChain fun a b => Utf8.controlPair a b = false

theorem NoCancel.of_infix {data piece : Bytes} (h : NoCancel data) (hin : piece <:+: data) : NoCancel piece :=
  ⟨fun b hb => h.bytes b (hin.subset hb), h.pairs.infix hin⟩

variable {m : Vt.Model}

theorem takesBytes_command {command : Bytes} (h : IsCommand command) (hcancel : NoCancel command) (s : Vt.Screen) :
    Vt.TakesBytes m s command s := by
  obtain ⟨ps, payload, terminator, hwhole, -, rfl⟩ := h
  have hbytes : oscBytes ps payload terminator = 27 :: 93 :: ((ps ++ 59 :: payload) ++ terminator) := by
    simp [oscBytes]
  rw [hbytes] at hcancel ⊢
  have hin : ps ++ 59 :: payload <:+: 27 :: 93 :: (ps ++ 59 :: payload ++ terminator) := ⟨[27, 93], terminator, by simp⟩
  have htext := hcancel.of_infix hin
  refine Vt.takesBytes_osc s ⟨fun b hb => ?_, htext.pairs⟩ hwhole.terminator
  obtain ⟨hcan, hsub⟩ := htext.bytes b hb
  refine ⟨fun hbel => ?_, hcan, hsub, fun hesc => ?_⟩
  · obtain rfl : b = 7 := UInt8.toNat_inj.mp hbel
    rcases List.mem_append.mp hb with hb | hb
    · exact absurd (hwhole.digits 7 hb) (by decide)
    · exact absurd (hwhole.text 7 ((List.mem_cons.mp hb).resolve_left (by decide))) (by decide)
  · obtain rfl : b = 27 := UInt8.toNat_inj.mp hesc
    exact hwhole.no_escape hb

theorem Extracted.takesBytes {data : Bytes} {commands : List Bytes} (h : Extracted data commands)
    (hcancel : NoCancel data) (s : Vt.Screen) : Vt.TakesBytes m s commands.flatten s := by
  induction h with
  | nil => exact Vt.TakesBytes.nil m s
  | skip b _ ih => exact ih (hcancel.of_infix (List.suffix_cons b _).isInfix)
  | @pass command data _ hcommand _ ih =>
    rw [List.flatten_cons]
    exact (takesBytes_command hcommand (hcancel.of_infix (List.prefix_append command data).isInfix) s).trans
      (ih (hcancel.of_infix (List.suffix_append command data).isInfix))

/-- **What is passed through** changes nothing on the screen, and leaves the terminal between sequences. -/
theorem takesBytes_signals {data : Bytes} (h : NoCancel data) (s : Vt.Screen) :
    Vt.TakesBytes m s (passthroughSignals data) s := by
  obtain ⟨commands, hextracted, hflat⟩ := extracted data
  obtain ⟨style, hstyle, hsignals⟩ := lastStyle_signals data
  have hosc := hextracted.takesBytes (m := m) h s
  rw [hsignals, hflat]
  rcases hstyle with ⟨rfl, -⟩ | ⟨⟨params, hdigits, rfl⟩, -⟩
  · rw [List.append_nil]
    exact hosc
  · refine hosc.trans (Vt.takesBytes_style s fun b hb => ?_)
    have hdigit := hdigits b hb
    simp only [isDigit, Bool.and_eq_true, decide_eq_true_eq, UInt8.le_iff_toNat_le] at hdigit
    exact hdigit

end Pty
end OpenRelay
