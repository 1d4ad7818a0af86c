/-
# LIKE patterns

A pattern is a text with two wildcards: `%` for any text, `_` for one letter. The other letters stand for
themselves, upper or lower (`like`). Between two `%`, a text without wildcards looks for itself
(`like_around`); one with wildcards finds itself, and also the text with other letters in their place
(`around_self`, `like_map`).
-/
import Mathlib.Data.List.Basic
import Mathlib.Data.List.Infix
import Mathlib.Data.Nat.Notation
import Mathlib.Tactic.SplitIfs

namespace Sql

/-- A text, character by character. -/
abbrev Text := List Char

/-- `LOWER`, of ASCII letters only. -/
def lower (t : Text) : Text := t.map Char.toLower

/-- `text LIKE pattern`. -/
def like : Text → Text → Bool
  | [], t => t.isEmpty
  | c :: pattern, t =>
    if c = '%' then t.tails.any fun u => like pattern u
    else
      match t with
      | [] => false
      | d :: u => (c == '_' || c.toLower == d.toLower) && like pattern u

/-- A character that a pattern does not take for itself. -/
def isWildcard (c : Char) : Bool := c == '%' || c == '_'

theorem isWildcard_iff {c : Char} : isWildcard c = true ↔ c = '%' ∨ c = '_' := by simp [isWildcard]

/-- The pattern that looks for a text. -/
def around (v : Text) : Text := '%' :: (v ++ ['%'])

/-! ### Letters -/

theorem upper_toLower : ∀ n < 26, (Char.ofNat (n + 65)).toLower.toNat = n + 97 := by decide

theorem toLower_cases (c : Char) : c.toLower = c ∨ (65 ≤ c.toNat ∧ c.toNat ≤ 90 ∧ c.toLower.toNat = c.toNat + 32) := by
  by_cases h : 65 ≤ c.toNat ∧ c.toNat ≤ 90
  · right
    have hupper := upper_toLower (c.toNat - 65) (by omega)
    rw [Nat.sub_add_cancel h.1, Char.ofNat_toNat] at hupper
    exact ⟨h.1, h.2, by omega⟩
  · left
    unfold Char.toLower
    refine dif_neg fun hval => h ⟨?_, ?_⟩
    · exact UInt32.le_iff_toNat_le.mp hval.1
    · exact UInt32.le_iff_toNat_le.mp hval.2

theorem toLower_toLower (c : Char) : c.toLower.toLower = c.toLower := by
  obtain h | ⟨hlow, hhigh, hlower⟩ := toLower_cases c.toLower
  · exact h
  · obtain h | ⟨hlow', hhigh', hlower'⟩ := toLower_cases c
    · rw [h, h]
    · omega

/-- A letter below the upper ones is no other letter's lower one. -/
theorem eq_of_toLower {c d : Char} (hd : d.toNat < 97) (h : c.toLower = d) : c = d := by
  obtain hsame | ⟨hlow, hhigh, hlower⟩ := toLower_cases c
  · exact hsame.symm.trans h
  · rw [h] at hlower
    omega

theorem lower_lower (t : Text) : lower (lower t) = lower t := by
  unfold lower
  rw [List.map_map]
  exact List.map_congr_left fun c _ => toLower_toLower c

@[simp] theorem lower_append (s t : Text) : lower (s ++ t) = lower s ++ lower t := List.map_append

@[simp] theorem length_lower (t : Text) : (lower t).length = t.length := List.length_map _

/-! ### Patterns -/

theorem like_step (c : Char) (pattern t : Text) :
    like (c :: pattern) t =
      if c = '%' then t.tails.any fun u => like pattern u
      else
        match t with
        | [] => false
        | d :: u => (c == '_' || c.toLower == d.toLower) && like pattern u := rfl

theorem like_cons {c : Char} (hc : isWildcard c = false) (pattern t : Text) :
    like (c :: pattern) t = true ↔ ∃ d u, t = d :: u ∧ c.toLower = d.toLower ∧ like pattern u = true := by
  obtain ⟨hpercent, hline⟩ : c ≠ '%' ∧ c ≠ '_' := by simpa [isWildcard] using hc
  rw [like_step, if_neg hpercent]
  cases t with
  | nil => exact iff_of_false Bool.false_ne_true (by rintro ⟨d, u, h, -⟩; cases h)
  | cons d u => simp [hline]

theorem like_percent (pattern t : Text) : like ('%' :: pattern) t = true ↔ ∃ s u, t = s ++ u ∧ like pattern u = true := by
  rw [like_step, if_pos rfl, List.any_eq_true]
  constructor
  · rintro ⟨u, hu, hlike⟩
    obtain ⟨s, rfl⟩ := (List.mem_tails u t).mp hu
    exact ⟨s, u, rfl, hlike⟩
  · rintro ⟨s, u, rfl, hlike⟩
    exact ⟨u, (List.mem_tails u _).mpr (List.suffix_append s u), hlike⟩

theorem like_line (pattern t : Text) : like ('_' :: pattern) t = true ↔ ∃ d u, t = d :: u ∧ like pattern u = true := by
  rw [like_step, if_neg (by decide)]
  cases t with
  | nil => exact iff_of_false Bool.false_ne_true (by rintro ⟨d, u, h, -⟩; cases h)
  | cons d u => simp

theorem like_nil (t : Text) : like [] t = true ↔ t = [] := List.isEmpty_iff

/-- Letters without wildcards stand for themselves. -/
theorem like_append : ∀ {v : Text} {pattern t : Text}, (∀ c ∈ v, isWildcard c = false) →
    (like (v ++ pattern) t = true ↔ ∃ s u, t = s ++ u ∧ lower v = lower s ∧ like pattern u = true)
  | [], pattern, t, _ => by
    constructor
    · exact fun h => ⟨[], t, rfl, rfl, h⟩
    · rintro ⟨s, u, rfl, hs, hlike⟩
      cases s with
      | nil => exact hlike
      | cons d s => cases hs
  | c :: v, pattern, t, hv => by
    have hrest : ∀ c ∈ v, isWildcard c = false := fun d hd => hv d (List.mem_cons_of_mem c hd)
    rw [List.cons_append, like_cons (hv c List.mem_cons_self)]
    constructor
    · rintro ⟨d, u, rfl, hd, hlike⟩
      obtain ⟨s, u, rfl, hs, hlike⟩ := (like_append hrest).mp hlike
      exact ⟨d :: s, u, rfl, congrArg₂ List.cons hd hs, hlike⟩
    · rintro ⟨s, u, rfl, hs, hlike⟩
      cases s with
      | nil => cases hs
      | cons d s =>
        obtain ⟨hd, hs⟩ := List.cons.inj hs
        exact ⟨d, s ++ u, rfl, hd, (like_append hrest).mpr ⟨s, u, rfl, hs, hlike⟩⟩

/-- **Without wildcards** the pattern looks for the text, upper or lower. -/
theorem like_around {v : Text} (hv : ∀ c ∈ v, isWildcard c = false) (t : Text) :
    like (around v) t = true ↔ lower v <:+: lower t := by
  unfold around
  rw [like_percent]
  constructor
  · rintro ⟨s, u, rfl, hlike⟩
    obtain ⟨m, r, rfl, hm, -⟩ := (like_append hv).mp hlike
    rw [lower_append, lower_append, hm]
    exact ⟨lower s, lower r, List.append_assoc _ _ _⟩
  · rintro ⟨s, r, hsplit⟩
    have htake : t = t.take s.length ++ (t.drop s.length) := (List.take_append_drop _ t).symm
    refine ⟨t.take s.length, t.drop s.length, htake, (like_append hv).mpr
      ⟨(t.drop s.length).take v.length, (t.drop s.length).drop v.length, (List.take_append_drop _ _).symm, ?_, ?_⟩⟩
    · have hmap : lower ((t.drop s.length).take v.length) = ((lower t).drop s.length).take v.length := by
        unfold lower
        rw [List.map_take, List.map_drop]
      rw [hmap, ← hsplit, List.append_assoc, List.drop_left, ← length_lower v, List.take_left]
    · exact (like_percent [] _).mpr ⟨_, [], (List.append_nil _).symm, rfl⟩

/-- A text is like itself, with what follows. -/
theorem like_self {pattern u : Text} (h : like pattern u = true) : ∀ v : Text, like (v ++ pattern) (v ++ u) = true
  | [] => h
  | c :: v => by
    by_cases hpercent : c = '%'
    · subst hpercent
      exact (like_percent _ _).mpr ⟨['%'], v ++ u, rfl, like_self h v⟩
    by_cases hline : c = '_'
    · subst hline
      exact (like_line _ _).mpr ⟨'_', v ++ u, rfl, like_self h v⟩
    exact (like_cons (by simp [isWildcard, hpercent, hline]) _ _).mpr ⟨c, v ++ u, rfl, rfl, like_self h v⟩

/-- A text with other letters where wildcards stood is like what it was like. -/
theorem like_map {f : Char → Char} (hf : ∀ c, isWildcard c = false → f c = c) : ∀ {pattern t : Text},
    like pattern t = true → like pattern (t.map f) = true
  | [], t, h => by
    obtain rfl := (like_nil t).mp h
    rfl
  | c :: pattern, t, h => by
    by_cases hpercent : c = '%'
    · subst hpercent
      obtain ⟨s, u, rfl, hlike⟩ := (like_percent pattern t).mp h
      exact (like_percent pattern _).mpr ⟨s.map f, u.map f, List.map_append, like_map hf hlike⟩
    by_cases hline : c = '_'
    · subst hline
      obtain ⟨d, u, rfl, hlike⟩ := (like_line pattern t).mp h
      exact (like_line pattern _).mpr ⟨f d, u.map f, rfl, like_map hf hlike⟩
    have hc : isWildcard c = false := by simp [isWildcard, hpercent, hline]
    obtain ⟨d, u, rfl, hd, hlike⟩ := (like_cons hc pattern t).mp h
    have hletter : isWildcard d = false := by
      by_contra hwild
      obtain rfl | rfl := isWildcard_iff.mp (eq_true_of_ne_false hwild)
      · exact hpercent (eq_of_toLower (by decide) hd)
      · exact hline (eq_of_toLower (by decide) hd)
    exact (like_cons hc pattern _).mpr ⟨f d, u.map f, rfl, by rw [hf d hletter]; exact hd, like_map hf hlike⟩

theorem around_self (v s u : Text) : like (around v) (s ++ v ++ u) = true :=
  have hrest : like ['%'] u = true := (like_percent [] u).mpr ⟨u, [], (List.append_nil u).symm, rfl⟩
  (like_percent _ _).mpr ⟨s, v ++ u, List.append_assoc _ _ _, like_self hrest v⟩

end Sql
