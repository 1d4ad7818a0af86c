/-
# Text that grows line by line

A text is its complete lines, each ended by a separator, and what follows the
last separator. Appending one line to a text completes what follows its last
separator (`splitLines_append_line`); appending something without a separator
only extends it (`splitLines_append_rest`).

`readLines` reads a text line by line with a partial reader that may also skip
a line. Lines appended to a text read back as they are if the reader passes over
the rest they are written onto (`readComplete_append_lines`); a complete line
that was rejected once stays rejected (`readComplete_append_none`).
-/
import Mathlib.Data.List.ReduceOption
import Mathlib.Data.List.Basic
import Mathlib.Tactic.SplitIfs

namespace Lines

variable {α β : Type*}

/-- The lines of a list of values, each ended by a separator. -/
def renderLines (sep : α) (render : β → List α) (vs : List β) : List α :=
  vs.flatMap fun v => render v ++ [sep]

section Render

variable {sep : α} {render : β → List α}

@[simp] theorem renderLines_nil : renderLines sep render [] = [] := rfl

theorem renderLines_cons (v : β) (vs : List β) :
    renderLines sep render (v :: vs) = (render v ++ [sep]) ++ renderLines sep render vs := rfl

theorem renderLines_append (vs vs' : List β) :
    renderLines sep render (vs ++ vs') = renderLines sep render vs ++ renderLines sep render vs' := by
  simp [renderLines]

end Render

/-- A beginning of two texts ends in the first, or goes on into the second. -/
theorem prefix_append_cases {s t u : List α} (h : u <+: s ++ t) : u <+: s ∨ ∃ v, u = s ++ v ∧ v <+: t := by
  rcases List.prefix_or_prefix_of_prefix h (List.prefix_append s t) with hs | ⟨v, rfl⟩
  · exact .inl hs
  · exact .inr ⟨v, rfl, (List.prefix_append_right_inj s).mp h⟩

variable [DecidableEq α]

/-- The complete lines of a text, and what follows the last separator. -/
def splitLines (sep : α) : List α → List (List α) × List α
  | [] => ([], [])
  | a :: as =>
    let more := splitLines sep as
    if a = sep then ([] :: more.1, more.2)
    else match more.1 with
      | [] => ([], a :: more.2)
      | l :: ls => ((a :: l) :: ls, more.2)

/-- What follows the last separator. -/
def rest (sep : α) (text : List α) : List α := (splitLines sep text).2

theorem splitLines_append (sep : α) (t : List α) : ∀ s : List α,
    splitLines sep (s ++ t) = match (splitLines sep t).1 with
      | [] => ((splitLines sep s).1, (splitLines sep s).2 ++ (splitLines sep t).2)
      | l :: ls => ((splitLines sep s).1 ++ ((splitLines sep s).2 ++ l) :: ls, (splitLines sep t).2)
  | [] => by
    rcases h : splitLines sep t with ⟨_ | ⟨l, ls⟩, r⟩ <;> simp [splitLines, h]
  | a :: s => by
    have ih := splitLines_append sep t s
    simp only [List.cons_append, splitLines]
    rw [ih]
    by_cases ha : a = sep
    · simp only [ha, if_true]
      rcases (splitLines sep t).1 with _ | ⟨l, ls⟩ <;> rfl
    · simp only [ha, if_false]
      rcases (splitLines sep t).1 with _ | ⟨l, ls⟩ <;>
        rcases (splitLines sep s).1 with _ | ⟨l', ls'⟩ <;> rfl

/-- A text without a separator is all rest. -/
theorem splitLines_of_not_mem {sep : α} : ∀ {s : List α}, sep ∉ s → splitLines sep s = ([], s)
  | [], _ => rfl
  | a :: s, h => by
    have ha : a ≠ sep := fun h' => h (by simp [h'])
    have hs : sep ∉ s := fun h' => h (by simp [h'])
    simp only [splitLines, ha, if_false, splitLines_of_not_mem hs]

theorem splitLines_append_rest {sep : α} {p : List α} (hp : sep ∉ p) (s : List α) :
    splitLines sep (s ++ p) = ((splitLines sep s).1, (splitLines sep s).2 ++ p) := by
  rw [splitLines_append, splitLines_of_not_mem hp]

theorem splitLines_line {sep : α} {l : List α} (hl : sep ∉ l) :
    splitLines sep (l ++ [sep]) = ([l], []) := by
  rw [splitLines_append]
  simp [splitLines, splitLines_of_not_mem hl]

theorem splitLines_append_line {sep : α} {l : List α} (hl : sep ∉ l) (s : List α) :
    splitLines sep (s ++ (l ++ [sep])) =
      ((splitLines sep s).1 ++ [(splitLines sep s).2 ++ l], []) := by
  rw [splitLines_append, splitLines_line hl]

/-- The complete lines of a text are complete in every text it begins. -/
theorem mem_lines_of_prefix {sep : α} {s t l : List α} (h : s <+: t) (hl : l ∈ (splitLines sep s).1) :
    l ∈ (splitLines sep t).1 := by
  obtain ⟨u, rfl⟩ := h
  rw [splitLines_append]
  split
  · exact hl
  · exact List.mem_append_left _ hl

/-! ### Pieces that keep their separator -/

/-- The lines of a text with their separators, and what follows the last one if there is something. -/
def splitInclusive (sep : α) : List α → List (List α)
  | [] => []
  | a :: as =>
    if a = sep then [a] :: splitInclusive sep as
    else match splitInclusive sep as with
      | [] => [[a]]
      | p :: ps => (a :: p) :: ps

theorem splitInclusive_flatten (sep : α) : ∀ s : List α, (splitInclusive sep s).flatten = s
  | [] => rfl
  | a :: s => by
    have ih := splitInclusive_flatten sep s
    rw [splitInclusive]
    split_ifs
    · simp [ih]
    · split <;> simp_all

/-- A piece ends with the first separator in it. -/
theorem splitInclusive_piece {sep : α} : ∀ {s p : List α}, p ∈ splitInclusive sep s →
    sep ∉ p ∨ ∃ l, sep ∉ l ∧ p = l ++ [sep]
  | [], _, h => nomatch h
  | a :: s, p, h => by
    rw [splitInclusive] at h
    split_ifs at h with ha
    · rcases List.mem_cons.mp h with rfl | h
      · exact .inr ⟨[], by simp, by simp [ha]⟩
      · exact splitInclusive_piece h
    · have hcons : ∀ p', sep ∉ p' ∨ (∃ l, sep ∉ l ∧ p' = l ++ [sep]) →
          sep ∉ a :: p' ∨ ∃ l, sep ∉ l ∧ a :: p' = l ++ [sep] := by
        rintro p' (hp' | ⟨l, hl, rfl⟩)
        · exact .inl (by simp [hp', Ne.symm ha])
        · exact .inr ⟨a :: l, by simp [hl, Ne.symm ha], rfl⟩
      split at h
      · rw [List.mem_singleton] at h
        subst h
        exact .inl (by simp [Ne.symm ha])
      · rename_i q qs hq
        rcases List.mem_cons.mp h with rfl | h
        · exact hcons q (splitInclusive_piece (hq ▸ List.mem_cons_self))
        · exact splitInclusive_piece (hq ▸ List.mem_cons_of_mem _ h)

/-- The first line of a text with its separator, or all of it. -/
def firstLine (sep : α) : List α → List α
  | [] => []
  | a :: as => if a = sep then [a] else a :: firstLine sep as

theorem firstLine_append_of_not_mem {sep : α} {s : List α} (hs : sep ∉ s) (t : List α) :
    firstLine sep (s ++ t) = s ++ firstLine sep t := by
  induction s with
  | nil => rfl
  | cons a s ih =>
    rw [List.mem_cons, not_or] at hs
    rw [List.cons_append, firstLine, if_neg (Ne.symm hs.1), ih hs.2, List.cons_append]

theorem firstLine_line {sep : α} {l : List α} (hl : sep ∉ l) (t : List α) :
    firstLine sep (l ++ sep :: t) = l ++ [sep] := by
  rw [firstLine_append_of_not_mem hl, firstLine, if_pos rfl]

theorem firstLine_ne_nil {sep : α} {s : List α} (hs : s ≠ []) : firstLine sep s ≠ [] := by
  cases s with
  | nil => exact absurd rfl hs
  | cons a s => rw [firstLine]; split_ifs <;> simp

/-- The lines of a text are the first one, and those of what is behind it. -/
theorem splitInclusive_eq {sep : α} {s : List α} (hs : s ≠ []) :
    splitInclusive sep s = firstLine sep s :: splitInclusive sep (s.drop (firstLine sep s).length) := by
  induction s with
  | nil => exact absurd rfl hs
  | cons a s ih =>
    rw [splitInclusive, firstLine]
    split_ifs with ha
    · simp
    · cases s with
      | nil => rfl
      | cons b s => simp [ih]

/-! ### Reading -/

/-- Read a text: every line, and what follows the last separator, must be
accepted; a line may be accepted without a value. -/
def readLines (sep : α) (parse : List α → Option (Option β)) (text : List α) : Option (List β) :=
  (((splitLines sep text).1 ++ [(splitLines sep text).2]).mapM parse).map List.reduceOption

section Read

variable {sep : α} {parse : List α → Option (Option β)}

/-- Reading the complete lines. -/
def readComplete (sep : α) (parse : List α → Option (Option β)) (text : List α) : Option (List β) :=
  ((splitLines sep text).1.mapM parse).map List.reduceOption

theorem readLines_eq (text : List α) : readLines sep parse text =
    (readComplete sep parse text).bind fun ls => (parse (rest sep text)).map fun l =>
      ls ++ l.toList := by
  unfold readLines readComplete rest
  rw [List.mapM_append]
  rcases (splitLines sep text).1.mapM parse with _ | ls
  · rfl
  · rcases h : parse (splitLines sep text).2 with _ | _ | l <;>
      simp [List.mapM_cons, List.reduceOption, h]

/-- A text that reads: its lines and its rest are accepted. -/
theorem readLines_eq_some {text : List α} {ls : List β} :
    readLines sep parse text = some ls ↔
      ∃ ls' l, readComplete sep parse text = some ls' ∧ parse (rest sep text) = some l ∧
        ls = ls' ++ l.toList := by
  rw [readLines_eq]
  simp only [Option.bind_eq_some_iff, Option.map_eq_some_iff]
  constructor
  · rintro ⟨ls', h1, l, h2, rfl⟩
    exact ⟨ls', l, h1, h2, rfl⟩
  · rintro ⟨ls', l, h1, h2, rfl⟩
    exact ⟨ls', h1, l, h2, rfl⟩

theorem rest_append_line {l : List α} (hl : sep ∉ l) (s : List α) :
    rest sep (s ++ (l ++ [sep])) = [] := by
  rw [rest, splitLines_append_line hl]

theorem rest_append_rest {p : List α} (hp : sep ∉ p) (s : List α) :
    rest sep (s ++ p) = rest sep s ++ p := by
  rw [rest, splitLines_append_rest hp]; rfl

theorem readComplete_append_rest {p : List α} (hp : sep ∉ p) (s : List α) :
    readComplete sep parse (s ++ p) = readComplete sep parse s := by
  rw [readComplete, splitLines_append_rest hp]; rfl

theorem readComplete_append_line {l : List α} (hl : sep ∉ l) (s : List α) :
    readComplete sep parse (s ++ (l ++ [sep])) =
      (readComplete sep parse s).bind fun ls => (parse (rest sep s ++ l)).map fun v =>
        ls ++ v.toList := by
  unfold readComplete rest
  rw [splitLines_append_line hl, List.mapM_append]
  rcases (splitLines sep s).1.mapM parse with _ | ls
  · rfl
  · rcases h : parse ((splitLines sep s).2 ++ l) with _ | _ | v <;>
      simp [List.mapM_cons, List.reduceOption, h]

/-- The complete lines of a text are the first ones of every text it begins. -/
theorem readComplete_append_some {s t : List α} {ls : List β}
    (h : readComplete sep parse (s ++ t) = some ls) :
    ∃ ls', readComplete sep parse s = some ls' ∧ ls' <+: ls := by
  unfold readComplete at h ⊢
  rw [splitLines_append] at h
  rcases ht : (splitLines sep t).1 with _ | ⟨l, more⟩
  · rw [ht] at h
    exact ⟨ls, h, List.prefix_refl ls⟩
  · simp only [ht, List.mapM_append] at h
    rcases hs : (splitLines sep s).1.mapM parse with _ | vs
    · simp [hs] at h
    · rcases hmore : (((splitLines sep s).2 ++ l) :: more).mapM parse with _ | vs'
      · simp [hs, hmore] at h
      · simp only [hs, hmore] at h
        refine ⟨vs.reduceOption, rfl, vs'.reduceOption, ?_⟩
        exact List.filterMap_append.symm.trans (Option.some.inj h)

/-- A rejected line stays rejected, whatever is appended. -/
theorem readComplete_append_none {s : List α} (h : readComplete sep parse s = none) (t : List α) :
    readComplete sep parse (s ++ t) = none := by
  rcases hst : readComplete sep parse (s ++ t) with _ | ls
  · rfl
  · obtain ⟨ls', hs, -⟩ := readComplete_append_some hst
    rw [h] at hs
    cases hs

theorem readLines_none_of_complete {s : List α} (h : readComplete sep parse s = none) :
    readLines sep parse s = none := by
  rw [readLines_eq, h]; rfl

variable {render : β → List α}

/-- Lines appended to a text whose rest the reader takes for a blank beginning
of the next line read back. -/
theorem readComplete_append_lines (hsep : ∀ v, sep ∉ render v)
    (hparse : ∀ v, parse (render v) = some (some v)) :
    ∀ {vs : List β} {s : List α} {ls : List β}, readComplete sep parse s = some ls →
      (∀ v, parse (rest sep s ++ render v) = some (some v)) →
      readComplete sep parse (s ++ renderLines sep render vs) = some (ls ++ vs)
  | [], s, ls, hs, _ => by simpa using hs
  | v :: vs, s, ls, hs, hrest => by
    have h1 : readComplete sep parse (s ++ (render v ++ [sep])) = some (ls ++ [v]) := by
      rw [readComplete_append_line (hsep v), hs, hrest v]; rfl
    have h2 : readComplete sep parse (s ++ (render v ++ [sep]) ++ renderLines sep render vs) =
        some (ls ++ [v] ++ vs) := readComplete_append_lines hsep hparse h1 fun v' => by
      rw [rest_append_line (hsep v)]; exact hparse v'
    rw [renderLines_cons, ← List.append_assoc, h2, List.append_assoc]
    rfl

theorem rest_append_lines (hsep : ∀ v, sep ∉ render v) :
    ∀ (vs : List β) (s : List α),
      rest sep (s ++ renderLines sep render vs) = if vs = [] then rest sep s else []
  | [], s => by simp
  | v :: vs, s => by
    rw [renderLines_cons, ← List.append_assoc, rest_append_lines hsep vs, rest_append_line (hsep v)]
    simp

end Read

end Lines
