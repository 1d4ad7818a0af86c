/-
# The rendered tail

The last step of a log view takes the rows of the screen to bytes
(`session/logs/render.rs`): the rows between the first and the last that are not blank,
the last `tail` of these, without the blank ones they start with. What the output ends
with is left out where it is a blank row and then two rows or more that the output
already has before it.

The output has every row of the tail that is not blank (`finishRender_tail`): the search
for a repeated end looks only at rows before the blank one, and these are kept.

Key theorems: `contentBounds_cases`, `trimRepeatedTrailingSuffix_spec`.
-/
import OpenRelay.Pty.Signals
import Mathlib.Data.List.DropRight

namespace OpenRelay
namespace Session
namespace Rendered

/-! ### The code -/

/-- A CSI sequence's final byte. -/
def isFinal (b : UInt8) : Bool := decide (0x40 ≤ b ∧ b ≤ 0x7e)

theorem csiRest_le (bs : Bytes) : ((bs.tail.dropWhile fun b => !isFinal b).tail).length ≤ bs.length := by
  have h := (@List.dropWhile_suffix _ bs.tail fun b => !isFinal b).length_le
  simp only [List.length_tail] at h ⊢
  omega

/-- Where the content of a styled row ends; `index` bytes are read, and `last` is the end so far. -/
def styledEnd (row : Bytes) (index last : ℕ) : ℕ :=
  match row with
  | [] => last
  | b :: bs =>
    if b = 0x1b ∧ bs.head? = some 0x5b then
      -- a CSI sequence is styling up to its final byte
      let rest := (bs.tail.dropWhile fun b => !isFinal b).tail
      styledEnd rest (index + ((b :: bs).length - rest.length)) last
    else styledEnd bs (index + 1) (if Pty.isWhitespace b then last else index + 1)
termination_by row.length
decreasing_by
  · have := csiRest_le bs
    simp only [List.length_cons]
    omega
  · simp

/-- The last index with `p`. -/
def rposition {α : Type} (p : α → Bool) (l : List α) : Option ℕ := (l.reverse.findIdx? p).map fun i => l.length - 1 - i

/-- Where `trim_row_end` cuts a row. -/
def contentEnd (keepColor : Bool) (row : Bytes) : ℕ :=
  if keepColor then styledEnd row 0 0 else (rposition (fun b => !Pty.isWhitespace b) row).elim 0 (· + 1)

def trimRowEnd (row : Bytes) (keepColor : Bool) : Bytes := row.take (contentEnd keepColor row)

def rowIsBlank (row : Bytes) : Bool := (trimRowEnd row true).isEmpty

/-- The first row that shows anything, and the last one. -/
def contentBounds (rows : List Bytes) : Option (ℕ × ℕ) :=
  match rows.findIdx? fun row => !rowIsBlank row with
  | none => none
  | some first => some (first, (rposition (fun row => !rowIsBlank row) rows).getD first)

/-- `rows[a..b]`; none where the code panics. -/
def rowsIn (rows : List Bytes) (a b : ℕ) : Option (List Bytes) :=
  if a ≤ b ∧ b ≤ rows.length then some ((rows.drop a).take (b - a)) else none

/-- Whether one of the candidates starts the suffix. -/
def candidateLoop (rows suffix : List Bytes) (split : ℕ) : List ℕ → Option Bool
  | [] => some false
  | candidateStart :: candidates =>
    let candidateEnd := candidateStart + suffix.length
    if split < candidateEnd then some false
    else do
      let candidate ← rowsIn rows candidateStart candidateEnd
      if candidate = suffix then return true else candidateLoop rows suffix split candidates

/-- Looks for a place behind which there are only rows that have been shown before, from the end on. -/
def splitLoop (rows : List Bytes) (firstContent lastContent : ℕ) : List ℕ → Option ℕ
  | [] => some lastContent
  | index :: indices => do
    -- the search goes from the end
    let split := lastContent - (index - (firstContent + 1))
    let row ← rows[split]?
    let suffixStart := split + 1
    if rowIsBlank row = false ∨ lastContent < suffixStart then splitLoop rows firstContent lastContent indices
    else
      let suffix ← rowsIn rows suffixStart (lastContent + 1)
      if suffix.length < 2 then splitLoop rows firstContent lastContent indices
      else
        let repeated ← candidateLoop rows suffix split (List.range' firstContent (split - firstContent))
        if repeated then return split - 1 else splitLoop rows firstContent lastContent indices

/-- The last row that is kept. -/
def trimRepeatedTrailingSuffix (rows : List Bytes) (firstContent lastContent : ℕ) : Option ℕ :=
  splitLoop rows firstContent lastContent (List.range' (firstContent + 1) (lastContent - firstContent))

/-- Ends what is styled. -/
def colorReset (keepColor : Bool) : Bytes := if keepColor then Pty.ascii "\x1b[0m\x1b[39m\x1b[49m\x1b[?25h" else []

/-- What is written of one row. -/
def outputLine (keepColor : Bool) (row : Bytes) : Bytes :=
  trimRowEnd row keepColor ++ (if keepColor then Pty.ascii "\x1b[0m" else []) ++ Pty.ascii "\n"

/-- The rows as they are printed: from the first one that shows anything on, and without a suffix that was shown
before. -/
def formatRowsForOutput (rows : List Bytes) (keepColor : Bool) : Option Bytes :=
  if rows.isEmpty then some (colorReset keepColor)
  else do
    let (firstContent, lastContent) := (contentBounds rows).getD (0, 0)
    let lastContent ← trimRepeatedTrailingSuffix rows firstContent lastContent
    let kept ← rowsIn rows firstContent (lastContent + 1)
    return kept.flatMap (outputLine keepColor) ++ colorReset keepColor

/-- None where the code panics. -/
def finishRender (contentRows : List Bytes) (tail : ℕ) (keepColor : Bool) : Option Bytes := do
  let rows ← match contentBounds contentRows with
    | some (first, last) => do
      let visibleRows ← rowsIn contentRows first (last + 1)
      rowsIn visibleRows (visibleRows.length - tail) visibleRows.length
    | none => some []
  formatRowsForOutput rows keepColor

/-! ### The tail -/

/-- The rows between the first and the last that are not blank. -/
def content (rows : List Bytes) : List Bytes := (rows.dropWhile rowIsBlank).rdropWhile rowIsBlank

/-- The last `tail` of these, without the blank ones they start with. -/
def lastContent (rows : List Bytes) (tail : ℕ) : List Bytes :=
  ((content rows).drop ((content rows).length - tail)).dropWhile rowIsBlank

/-! ### Where a row ends -/

theorem styledEnd_le (row : Bytes) (index last : ℕ) (h : last ≤ index) :
    styledEnd row index last ≤ index + row.length := by
  fun_induction styledEnd row index last with
  | case1 => simpa using h
  | case2 index last b bs hcsi rest ih =>
    have hrest : rest.length ≤ bs.length := csiRest_le bs
    have := ih (by omega)
    simp only [List.length_cons] at this ⊢
    omega
  | case3 index last b bs hcsi ih =>
    have hnext : (if Pty.isWhitespace b then last else index + 1) ≤ index + 1 := by
      split_ifs <;> omega
    have := ih hnext
    simp only [List.length_cons]
    split at this <;> simp_all <;> omega

theorem rposition_lt {α : Type} {p : α → Bool} {l : List α} {i : ℕ} (h : rposition p l = some i) : i < l.length := by
  obtain ⟨j, hj, rfl⟩ := Option.map_eq_some_iff.mp h
  have := (List.findIdx?_eq_some_iff_findIdx_eq.mp hj).1
  rw [List.length_reverse] at this
  omega

theorem contentEnd_le (keepColor : Bool) (row : Bytes) : contentEnd keepColor row ≤ row.length := by
  unfold contentEnd
  split_ifs
  · simpa using styledEnd_le row 0 0 le_rfl
  · rcases hlast : rposition (fun b => !Pty.isWhitespace b) row with _ | i
    · exact Nat.zero_le _
    · exact rposition_lt hlast

/-! ### The bounds of the content -/

/-- Rows that begin and end with one that is not blank. -/
structure Framed (rows : List Bytes) : Prop where
  first : ∃ row ∈ rows.head?, rowIsBlank row = false
  last : ∃ row ∈ rows.getLast?, rowIsBlank row = false

theorem Framed.ne_nil {rows : List Bytes} (h : Framed rows) : rows ≠ [] := by
  rintro rfl
  obtain ⟨row, hrow, -⟩ := h.first
  cases hrow

theorem findIdx?_blank {rows : List Bytes} (h : ∀ row ∈ rows, rowIsBlank row = true) :
    rows.findIdx? (fun row => !rowIsBlank row) = none :=
  List.findIdx?_eq_none_iff.mpr fun row hrow => by simp [h row hrow]

theorem findIdx?_first {rows : List Bytes} (h : ∃ row ∈ rows.head?, rowIsBlank row = false) :
    rows.findIdx? (fun row => !rowIsBlank row) = some 0 := by
  obtain ⟨row, hrow, hblank⟩ := h
  rcases rows with _ | ⟨r, rows⟩
  · cases hrow
  · cases hrow
    simp [List.findIdx?_cons, hblank]

/-- Blank rows around the content do not count. -/
theorem contentBounds_framed {before mid after : List Bytes} (hbefore : ∀ row ∈ before, rowIsBlank row = true)
    (hafter : ∀ row ∈ after, rowIsBlank row = true) (h : Framed mid) :
    contentBounds (before ++ mid ++ after) = some (before.length, before.length + mid.length - 1) := by
  have hpos : 0 < mid.length := List.length_pos_iff.mpr h.ne_nil
  have hfirst : (before ++ mid ++ after).findIdx? (fun row => !rowIsBlank row) = some before.length := by
    rw [List.append_assoc, List.findIdx?_append, findIdx?_blank hbefore, List.findIdx?_append, findIdx?_first h.first]
    simp
  have hlast : (before ++ mid ++ after).reverse.findIdx? (fun row => !rowIsBlank row) = some after.length := by
    rw [List.reverse_append, List.reverse_append, List.findIdx?_append,
      findIdx?_blank fun row hrow => hafter row (List.mem_reverse.mp hrow), List.findIdx?_append,
      findIdx?_first (by simpa using h.last)]
    simp
  unfold contentBounds rposition
  rw [hfirst, hlast]
  simp only [List.length_append, Option.map_some, Option.getD_some, Option.some.injEq, Prod.mk.injEq, true_and]
  omega

theorem head_dropWhile {rows : List Bytes} (h : rows.dropWhile rowIsBlank ≠ []) :
    ∃ row ∈ (rows.dropWhile rowIsBlank).head?, rowIsBlank row = false := by
  refine ⟨(rows.dropWhile rowIsBlank).head h, List.head?_eq_some_head h, ?_⟩
  exact List.head_dropWhile_not rowIsBlank h

/-- Rows are blank ones around their content. -/
theorem content_cases (rows : List Bytes) :
    (content rows = [] ∧ ∀ row ∈ rows, rowIsBlank row = true) ∨
    Framed (content rows) ∧ ∃ before after, rows = before ++ content rows ++ after ∧
      (∀ row ∈ before, rowIsBlank row = true) ∧ ∀ row ∈ after, rowIsBlank row = true := by
  have hsplit : rows.takeWhile rowIsBlank ++ (content rows ++ (rows.dropWhile rowIsBlank).rtakeWhile rowIsBlank) = rows := by
    rw [content, List.rdropWhile_append_rtakeWhile, List.takeWhile_append_dropWhile]
  have hbefore : ∀ row ∈ rows.takeWhile rowIsBlank, rowIsBlank row = true := fun row hrow =>
    List.mem_takeWhile_imp hrow
  have hafter : ∀ row ∈ (rows.dropWhile rowIsBlank).rtakeWhile rowIsBlank, rowIsBlank row = true := fun row hrow =>
    List.mem_rtakeWhile_imp hrow
  by_cases hnil : content rows = []
  · refine .inl ⟨hnil, fun row hrow => ?_⟩
    rw [hnil, List.nil_append] at hsplit
    rw [← hsplit] at hrow
    exact (List.mem_append.mp hrow).elim (hbefore row) (hafter row)
  · have hrest : rows.dropWhile rowIsBlank ≠ [] := fun h => hnil (by rw [content, h, List.rdropWhile_nil])
    obtain ⟨more, hmore⟩ : content rows <+: rows.dropWhile rowIsBlank := List.rdropWhile_prefix _ _
    obtain ⟨row, hrow, hblank⟩ := head_dropWhile hrest
    refine .inr ⟨⟨⟨row, ?_, hblank⟩, (content rows).getLast hnil, List.getLast?_eq_some_getLast hnil, ?_⟩, _, _,
      hsplit.symm.trans (List.append_assoc _ _ _).symm, hbefore, hafter⟩
    · rw [← hmore, List.head?_append_of_ne_nil _ hnil] at hrow
      exact hrow
    · exact eq_false_of_ne_true (List.rdropWhile_last_not rowIsBlank _ hnil)

theorem rowsIn_append (before mid after : List Bytes) :
    rowsIn (before ++ mid ++ after) before.length (before.length + mid.length) = some mid := by
  unfold rowsIn
  rw [if_pos (by simp only [List.length_append]; omega), List.append_assoc, List.drop_left]
  simp

theorem rowsIn_eq_some {rows part : List Bytes} {a b : ℕ} (h : rowsIn rows a b = some part) :
    a ≤ b ∧ b ≤ rows.length ∧ part = (rows.drop a).take (b - a) := by
  unfold rowsIn at h
  split_ifs at h with hab
  exact ⟨hab.1, hab.2, (Option.some.inj h).symm⟩

/-! ### The repeated end -/

theorem candidateLoop_spec {rows suffix : List Bytes} {split : ℕ} (hsplit : split ≤ rows.length) :
    ∀ {candidates : List ℕ}, ∃ repeated, candidateLoop rows suffix split candidates = some repeated ∧
      (repeated = true → ∃ candidateStart ∈ candidates, candidateStart + suffix.length ≤ split ∧
        rowsIn rows candidateStart (candidateStart + suffix.length) = some suffix)
  | [] => ⟨false, rfl, nofun⟩
  | candidateStart :: candidates => by
    unfold candidateLoop
    dsimp only
    by_cases hend : split < candidateStart + suffix.length
    · rw [if_pos hend]
      exact ⟨false, rfl, nofun⟩
    · have hin : rowsIn rows candidateStart (candidateStart + suffix.length) =
          some ((rows.drop candidateStart).take (candidateStart + suffix.length - candidateStart)) :=
        if_pos ⟨by omega, by omega⟩
      rw [if_neg hend, hin, Option.bind_eq_bind, Option.bind_some]
      by_cases heq : (rows.drop candidateStart).take (candidateStart + suffix.length - candidateStart) = suffix
      · rw [if_pos heq]
        exact ⟨true, rfl, fun _ => ⟨candidateStart, List.mem_cons_self, by omega, hin.trans (congrArg some heq)⟩⟩
      · rw [if_neg heq]
        obtain ⟨repeated, hloop, hfound⟩ := @candidateLoop_spec rows suffix split hsplit candidates
        exact ⟨repeated, hloop, fun h => (hfound h).imp fun _ ⟨hmem, hrest⟩ => ⟨List.mem_cons_of_mem _ hmem, hrest⟩⟩

/-- What the search for a repeated end may return: the end as it was, or the row before a blank
one behind which two rows or more stand that stand before it too. -/
def Shortens (rows : List Bytes) (firstContent lastContent kept : ℕ) : Prop :=
  kept = lastContent ∨
    firstContent ≤ kept ∧ kept < lastContent ∧ (∃ row, rows[kept + 1]? = some row ∧ rowIsBlank row = true) ∧
      ∃ suffix, rowsIn rows (kept + 2) (lastContent + 1) = some suffix ∧ 2 ≤ suffix.length ∧
        ∃ candidateStart, firstContent ≤ candidateStart ∧ candidateStart + suffix.length ≤ kept + 1 ∧
          rowsIn rows candidateStart (candidateStart + suffix.length) = some suffix

theorem splitLoop_spec {rows : List Bytes} {firstContent lastContent : ℕ} (hlast : lastContent < rows.length) :
    ∀ {indices : List ℕ}, (∀ index ∈ indices, firstContent + 1 ≤ index ∧ index ≤ lastContent) →
      ∃ kept, splitLoop rows firstContent lastContent indices = some kept ∧ Shortens rows firstContent lastContent kept
  | [], _ => ⟨lastContent, rfl, .inl rfl⟩
  | index :: indices, hindices => by
    obtain ⟨hlow, hhigh⟩ := hindices index List.mem_cons_self
    obtain ⟨kept, hloop, hkept⟩ := @splitLoop_spec rows firstContent lastContent hlast indices fun i hi =>
      hindices i (List.mem_cons_of_mem _ hi)
    unfold splitLoop
    dsimp only
    generalize hsplit : lastContent - (index - (firstContent + 1)) = split
    have hrange : firstContent + 1 ≤ split ∧ split ≤ lastContent := by omega
    rw [List.getElem?_eq_getElem (show split < rows.length by omega), Option.bind_eq_bind, Option.bind_some]
    by_cases hskip : rowIsBlank rows[split] = false ∨ lastContent < split + 1
    · rw [if_pos hskip]
      exact ⟨kept, hloop, hkept⟩
    · have hin : rowsIn rows (split + 1) (lastContent + 1) =
          some ((rows.drop (split + 1)).take (lastContent + 1 - (split + 1))) := if_pos ⟨by omega, by omega⟩
      rw [if_neg hskip, hin, Option.bind_eq_bind, Option.bind_some]
      generalize (rows.drop (split + 1)).take (lastContent + 1 - (split + 1)) = suffix at hin ⊢
      by_cases hshort : suffix.length < 2
      · rw [if_pos hshort]
        exact ⟨kept, hloop, hkept⟩
      · obtain ⟨repeated, hcandidates, hfound⟩ := @candidateLoop_spec rows suffix split (by omega)
          (List.range' firstContent (split - firstContent))
        rw [if_neg hshort, hcandidates, Option.bind_eq_bind, Option.bind_some]
        cases repeated with
        | false => exact ⟨kept, hloop, hkept⟩
        | true =>
          obtain ⟨candidateStart, hmem, hend, hpart⟩ := hfound rfl
          have hfirst := (List.mem_range'_1.mp hmem).1
          have hblank : rowIsBlank rows[split] = true := eq_true_of_ne_false fun h => hskip (.inl h)
          refine ⟨split - 1, rfl, .inr ⟨by omega, by omega, ⟨rows[split], ?_, hblank⟩, suffix, ?_, by omega,
            candidateStart, hfirst, by omega, hpart⟩⟩
          · rw [show split - 1 + 1 = split by omega]
            exact List.getElem?_eq_getElem _
          · rw [show split - 1 + 2 = split + 1 by omega]
            exact hin

theorem trimRepeatedTrailingSuffix_spec {rows : List Bytes} {firstContent lastContent : ℕ}
    (hlast : lastContent < rows.length) :
    ∃ kept, trimRepeatedTrailingSuffix rows firstContent lastContent = some kept ∧
      Shortens rows firstContent lastContent kept :=
  splitLoop_spec hlast fun index hindex => by
    have := List.mem_range'_1.mp hindex
    omega

/-! ### The output -/

/-- All of the rows, or all but a blank one and then two or more that those kept have. -/
def Keeps (rows kept : List Bytes) : Prop :=
  kept = rows ∨ ∃ blank suffix, rows = kept ++ blank :: suffix ∧ rowIsBlank blank = true ∧ 2 ≤ suffix.length ∧
    suffix <:+: kept

theorem Keeps.length_le {rows kept : List Bytes} (h : Keeps rows kept) : kept.length ≤ rows.length := by
  rcases h with rfl | ⟨blank, suffix, rfl, -⟩
  · exact le_rfl
  · simp

/-- Every row with content is among those kept. -/
theorem Keeps.mem {rows kept : List Bytes} (h : Keeps rows kept) {row : Bytes} (hrow : row ∈ rows)
    (hcontent : rowIsBlank row = false) : row ∈ kept := by
  rcases h with rfl | ⟨blank, suffix, rfl, hblank, -, hinfix⟩
  · exact hrow
  · rcases List.mem_append.mp hrow with hkept | hrest
    · exact hkept
    · rcases List.mem_cons.mp hrest with rfl | hsuffix
      · rw [hblank] at hcontent
        cases hcontent
      · exact hinfix.subset hsuffix

/-- The end that the search found, in terms of the rows. -/
theorem Shortens.keeps {before mid : List Bytes} {kept : ℕ} (hmid : mid ≠ [])
    (h : Shortens (before ++ mid) before.length (before.length + mid.length - 1) kept) :
    rowsIn (before ++ mid) before.length (kept + 1) = some (mid.take (kept + 1 - before.length)) ∧
      Keeps mid (mid.take (kept + 1 - before.length)) := by
  have hpos : 0 < mid.length := List.length_pos_iff.mpr hmid
  have hin : ∀ n, before.length ≤ n → n ≤ before.length + mid.length →
      rowsIn (before ++ mid) before.length n = some (mid.take (n - before.length)) := fun n hlow hhigh => by
    rw [rowsIn, if_pos ⟨hlow, by rw [List.length_append]; exact hhigh⟩, List.drop_left]
  have hpart : ∀ {a b part}, before.length ≤ a → rowsIn (before ++ mid) a b = some part →
      part = (mid.drop (a - before.length)).take (b - a) := fun {a b part} ha hrows => by
    obtain ⟨-, -, rfl⟩ := rowsIn_eq_some hrows
    obtain ⟨n, rfl⟩ := Nat.exists_eq_add_of_le ha
    rw [← List.drop_drop, List.drop_left, Nat.add_sub_cancel_left]
  rcases h with rfl | ⟨hfirst, hlast, ⟨blank, hat, hblank⟩, suffix, hsuffix, htwo, c, hc, hend, hcandidate⟩
  · refine ⟨hin _ (by omega) (by omega), .inl (List.take_of_length_le (by omega))⟩
  · refine ⟨hin _ (by omega) (by omega), .inr ⟨blank, suffix, ?_, hblank, htwo, ?_⟩⟩
    · have hat' : mid[kept + 1 - before.length]? = some blank := by
        rw [List.getElem?_append_right (by omega)] at hat
        exact hat
      have hdrop : suffix = mid.drop (kept + 1 - before.length + 1) := by
        rw [hpart (by omega) hsuffix, show kept + 2 - before.length = kept + 1 - before.length + 1 by omega]
        exact List.take_of_length_le (by rw [List.length_drop]; omega)
      obtain ⟨hlt, hget⟩ := List.getElem?_eq_some_iff.mp hat'
      rw [hdrop, ← hget, List.cons_getElem_drop_succ, List.take_append_drop]
    · have hin' : suffix <+: (mid.take (kept + 1 - before.length)).drop (c - before.length) := by
        rw [hpart hc hcandidate, List.drop_take, Nat.add_sub_cancel_left]
        refine List.take_prefix_take_left ?_
        omega
      exact hin'.isInfix.trans (List.drop_suffix _ _).isInfix

theorem formatRowsForOutput_framed {before mid : List Bytes} (hbefore : ∀ row ∈ before, rowIsBlank row = true)
    (hmid : Framed mid) (keepColor : Bool) :
    ∃ kept, formatRowsForOutput (before ++ mid) keepColor =
      some (kept.flatMap (outputLine keepColor) ++ colorReset keepColor) ∧ Keeps mid kept := by
  have hpos : 0 < mid.length := List.length_pos_iff.mpr hmid.ne_nil
  have hbounds := @contentBounds_framed before mid [] hbefore nofun hmid
  rw [List.append_nil] at hbounds
  obtain ⟨kept, htrim, hshortens⟩ := @trimRepeatedTrailingSuffix_spec (before ++ mid) before.length
    (before.length + mid.length - 1) (by rw [List.length_append]; omega)
  obtain ⟨hrows, hkeeps⟩ := hshortens.keeps hmid.ne_nil
  refine ⟨mid.take (kept + 1 - before.length), ?_, hkeeps⟩
  unfold formatRowsForOutput
  rw [if_neg (by simp [hmid.ne_nil]), hbounds, Option.getD_some]
  dsimp only
  rw [htrim, Option.bind_eq_bind, Option.bind_some, hrows]
  rfl

/-- **The rendered tail loses no content.** What is written is the last rows of the content, one
line each, all of them or all but a blank one and then two or more that are written before it. So
every row of them with content is written, and no more than `tail` rows are; no index is out of
range, of the rows or of a row's bytes. -/
theorem finishRender_tail (rows : List Bytes) (tail : ℕ) (keepColor : Bool) :
    ∃ kept, finishRender rows tail keepColor =
        some (kept.flatMap (outputLine keepColor) ++ colorReset keepColor) ∧
      kept.length ≤ tail ∧
      (kept = lastContent rows tail ∨
        ∃ blank suffix, lastContent rows tail = kept ++ blank :: suffix ∧ rowIsBlank blank = true ∧
          2 ≤ suffix.length ∧ suffix <:+: kept) ∧
      (∀ row ∈ lastContent rows tail, rowIsBlank row = false → row ∈ kept) ∧
      ∀ row, contentEnd true row ≤ row.length ∧ contentEnd keepColor row ≤ row.length := by
  have hends : ∀ row, contentEnd true row ≤ row.length ∧ contentEnd keepColor row ≤ row.length := fun row =>
    ⟨contentEnd_le true row, contentEnd_le keepColor row⟩
  rcases content_cases rows with ⟨hnil, hblank⟩ | ⟨hframed, before, after, hrows, hbefore, hafter⟩
  · -- no content
    have hlast : lastContent rows tail = [] := by
      rw [lastContent, hnil, List.drop_nil, List.dropWhile_nil]
    have hbounds : contentBounds rows = none := by
      rw [contentBounds, findIdx?_blank hblank]
    refine ⟨[], ?_, Nat.zero_le _, .inl hlast.symm, fun row hrow => ?_, hends⟩
    · unfold finishRender
      rw [hbounds]
      rfl
    · rw [hlast] at hrow
      cases hrow
  · have hpos : 0 < (content rows).length := List.length_pos_iff.mpr hframed.ne_nil
    generalize hcut : (content rows).drop ((content rows).length - tail) = visible
    have hlen : visible.length ≤ tail := by
      rw [← hcut, List.length_drop]
      omega
    have hbounds : contentBounds rows = some (before.length, before.length + (content rows).length - 1) := by
      conv_lhs => rw [hrows]
      exact contentBounds_framed hbefore hafter hframed
    have hvisible : rowsIn rows before.length (before.length + (content rows).length - 1 + 1) = some (content rows) := by
      have hin := rowsIn_append before (content rows) after
      rw [← hrows] at hin
      rw [Nat.sub_add_cancel (by omega)]
      exact hin
    have hskip : rowsIn (content rows) ((content rows).length - tail) (content rows).length = some visible := by
      rw [rowsIn, if_pos ⟨by omega, le_rfl⟩, hcut, ← hcut, List.take_of_length_le (by rw [List.length_drop])]
    have hrender : finishRender rows tail keepColor = formatRowsForOutput visible keepColor := by
      unfold finishRender
      rw [hbounds]
      simp only [hvisible, hskip, Option.bind_eq_bind, Option.bind_some]
    have hlast : lastContent rows tail = visible.dropWhile rowIsBlank := by
      rw [lastContent, hcut]
    rw [hrender, hlast]
    by_cases hnil : visible = []
    · rw [hnil]
      exact ⟨[], rfl, Nat.zero_le _, .inl rfl, nofun, hends⟩
    · -- the last row is that of the content
      obtain ⟨row, hrow, hcontent⟩ : ∃ row ∈ visible.getLast?, rowIsBlank row = false := by
        obtain ⟨row, hrow, hcontent⟩ := hframed.last
        refine ⟨row, ?_, hcontent⟩
        rw [← hcut, List.getLast?_drop, if_neg]
        · exact hrow
        · have := List.length_pos_iff.mpr hnil
          rw [← hcut, List.length_drop] at this
          omega
      have hsplit : visible.takeWhile rowIsBlank ++ visible.dropWhile rowIsBlank = visible :=
        List.takeWhile_append_dropWhile
      have hbefore' : ∀ row ∈ visible.takeWhile rowIsBlank, rowIsBlank row = true := fun row hrow =>
        List.mem_takeWhile_imp hrow
      have hrest : visible.dropWhile rowIsBlank ≠ [] := by
        intro hempty
        rw [hempty, List.append_nil] at hsplit
        rw [← hsplit] at hrow
        rw [hbefore' row (List.mem_of_getLast? hrow)] at hcontent
        cases hcontent
      have hframed' : Framed (visible.dropWhile rowIsBlank) := by
        refine ⟨head_dropWhile hrest, row, ?_, hcontent⟩
        rw [← hsplit, List.getLast?_append_of_ne_nil _ hrest] at hrow
        exact hrow
      obtain ⟨kept, hformat, hkeeps⟩ := formatRowsForOutput_framed hbefore' hframed' keepColor
      rw [hsplit] at hformat
      refine ⟨kept, hformat, ?_, hkeeps, fun row => hkeeps.mem, hends⟩
      have hdrop := (List.dropWhile_suffix rowIsBlank : visible.dropWhile rowIsBlank <:+ visible).length_le
      exact (hkeeps.length_le.trans hdrop).trans hlen

end Rendered
end Session
end OpenRelay
