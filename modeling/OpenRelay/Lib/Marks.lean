/-
# A stream with marks

Marks stand at offsets of a stream, in the order they are made in. One is reached when its offset and those of
the marks before it are (`dueAt`). The stream with its marks is told symbol by symbol, each mark when it
is reached (`merged`).

Whoever tells a stretch of the stream at once, and the marks reached by its end behind it, tells the same if no
mark is due inside the stretch (`merged_stretch`), and only then (`reached_of_stretch`).

Key theorem: `lt_reached_iff`.
-/
import OpenRelay.Lib.Slice

namespace Marks

open Streams

variable {α β γ : Type*} (offset : β → ℕ) (shown : β → γ)

/-- How many marks are reached at a position. -/
def reached (marks : List β) (p : ℕ) : ℕ := (marks.takeWhile fun m => decide (offset m ≤ p)).length

/-- Where a mark is reached: the greatest offset up to it. -/
def dueAt (marks : List β) (i : ℕ) : ℕ := ((marks.take (i + 1)).map offset).foldr max 0

/-- The stream and its marks up to a position. -/
def merged (s : List α) (marks : List β) : ℕ → List (α ⊕ γ)
  | 0 => (slice marks 0 (reached offset marks 0)).map fun m => .inr (shown m)
  | p + 1 =>
    merged s marks p ++ s[p]?.toList.map .inl ++
      (slice marks (reached offset marks p) (reached offset marks (p + 1))).map fun m => .inr (shown m)

section Reached

variable {offset} {marks : List β} {p q i : ℕ}

theorem reached_le_length : reached offset marks p ≤ marks.length := (List.takeWhile_prefix _).length_le

theorem reached_cons_of_le {m : β} (hm : offset m ≤ p) : reached offset (m :: marks) p = reached offset marks p + 1 := by
  unfold reached
  rw [List.takeWhile_cons_of_pos (by simpa using hm), List.length_cons]

theorem reached_cons_of_lt {m : β} (hm : p < offset m) : reached offset (m :: marks) p = 0 := by
  unfold reached
  rw [List.takeWhile_cons_of_neg (by simpa using hm), List.length_nil]

theorem lt_reached_iff : ∀ {marks : List β} {i : ℕ}, i < marks.length →
    (i < reached offset marks p ↔ dueAt offset marks i ≤ p)
  | [], i, h => absurd h (Nat.not_lt_zero i)
  | m :: marks, i, h => by
    unfold dueAt
    rw [List.take_succ_cons, List.map_cons, List.foldr_cons, Nat.max_le]
    by_cases hm : offset m ≤ p
    · rw [reached_cons_of_le hm]
      cases i with
      | zero => exact iff_of_true (Nat.zero_lt_succ _) ⟨hm, Nat.zero_le p⟩
      | succ i =>
        rw [Nat.succ_lt_succ_iff, lt_reached_iff (Nat.lt_of_succ_lt_succ h)]
        exact ⟨fun hdue => ⟨hm, hdue⟩, fun hdue => hdue.2⟩
    · rw [reached_cons_of_lt (Nat.lt_of_not_le hm)]
      exact iff_of_false (Nat.not_lt_zero i) (fun hdue => hm hdue.1)

theorem reached_mono (h : p ≤ q) : reached offset marks p ≤ reached offset marks q := by
  by_contra hlt
  have hbound : reached offset marks q < marks.length := Nat.lt_of_lt_of_le (Nat.lt_of_not_le hlt) reached_le_length
  have hdue := (lt_reached_iff hbound).mp (Nat.lt_of_not_le hlt)
  exact Nat.lt_irrefl _ ((lt_reached_iff hbound).mpr (hdue.trans h))

/-- The marks that are reached behind the first `n`. -/
theorem takeWhile_drop : ∀ {marks : List β} {n : ℕ}, n ≤ reached offset marks p →
    (marks.drop n).takeWhile (fun m => decide (offset m ≤ p)) = slice marks n (reached offset marks p)
  | marks, 0, _ => by
    rw [slice_zero, List.drop_zero]
    exact List.prefix_iff_eq_take.mp (List.takeWhile_prefix _)
  | [], n + 1, h => absurd h (Nat.not_succ_le_zero n)
  | m :: marks, n + 1, h => by
    by_cases hm : offset m ≤ p
    · rw [reached_cons_of_le hm] at h ⊢
      have ih := takeWhile_drop (Nat.le_of_succ_le_succ h)
      unfold slice at *
      rw [List.drop_succ_cons, ih, Nat.succ_sub_succ]
    · rw [reached_cons_of_lt (Nat.lt_of_not_le hm)] at h
      exact absurd h (Nat.not_succ_le_zero n)

end Reached

/-! ### Stretches -/

section Stretch

variable {offset shown} {s : List α} {marks : List β} {p q : ℕ}

theorem slice_succ (hpq : p ≤ q) : slice s p (q + 1) = slice s p q ++ s[q]?.toList := by
  have hone : slice s q (q + 1) = s[q]?.toList := by
    unfold slice
    rw [Nat.add_sub_cancel_left, List.take_one, List.head?_drop]
  rw [← hone, slice_append hpq (Nat.le_succ q)]

/-- A stretch without a mark inside. -/
theorem merged_stretch (hpq : p ≤ q) (hnone : p < q → reached offset marks (q - 1) = reached offset marks p) :
    merged offset shown s marks q =
      merged offset shown s marks p ++ (slice s p q).map .inl ++
        (slice marks (reached offset marks p) (reached offset marks q)).map fun m => .inr (shown m) := by
  induction q with
  | zero =>
    obtain rfl := Nat.le_zero.mp hpq
    rw [slice_self, slice_self, List.map_nil, List.map_nil, List.append_nil, List.append_nil]
  | succ q ih =>
    obtain hlt | rfl := Nat.lt_or_eq_of_le hpq
    · have hle : p ≤ q := Nat.le_of_lt_succ hlt
      have hsame : reached offset marks q = reached offset marks p := hnone hlt
      have hbefore := ih hle fun h => by
        have hlow := @reached_mono _ offset marks _ _ (Nat.le_sub_one_of_lt h)
        have hhigh := @reached_mono _ offset marks _ _ (Nat.sub_le q 1)
        omega
      rw [hsame, slice_self, List.map_nil, List.append_nil] at hbefore
      rw [merged, hbefore, hsame, slice_succ hle, List.map_append]
      simp only [List.append_assoc]
    · rw [slice_self, slice_self, List.map_nil, List.map_nil, List.append_nil, List.append_nil]

/-- The marks behind the last symbol. -/
def lastMarks (l : List (α ⊕ γ)) : ℕ := (l.reverse.takeWhile Sum.isRight).length

theorem lastMarks_append (l : List (α ⊕ γ)) (a : α) (ms : List β) :
    lastMarks (l ++ [.inl a] ++ ms.map fun m => .inr (shown m)) = ms.length := by
  have hall : ∀ x ∈ (ms.map fun m => (Sum.inr (shown m) : α ⊕ γ)).reverse, x.isRight = true := by
    intro x hx
    obtain ⟨m, -, rfl⟩ := List.mem_map.mp (List.mem_reverse.mp hx)
    rfl
  unfold lastMarks
  rw [List.reverse_append, List.takeWhile_append_of_pos hall, List.reverse_append, List.reverse_singleton,
    List.singleton_append, List.takeWhile_cons_of_neg Bool.false_ne_true, List.append_nil, List.length_reverse, List.length_map]

/-- **A stretch told at once** as it is told symbol by symbol has no mark inside. -/
theorem reached_of_stretch (hpq : p < q) (hq : q ≤ s.length)
    (h : merged offset shown s marks q =
      merged offset shown s marks p ++ (slice s p q).map .inl ++
        (slice marks (reached offset marks p) (reached offset marks q)).map fun m => .inr (shown m)) :
    reached offset marks (q - 1) = reached offset marks p := by
  obtain ⟨q, rfl⟩ : ∃ k, q = k + 1 := ⟨q - 1, by omega⟩
  have hle : p ≤ q := Nat.le_of_lt_succ hpq
  have hlast : s[q]?.toList = [s[q]] := by rw [List.getElem?_eq_getElem hq, Option.toList_some]
  rw [merged, slice_succ hle, hlast, List.map_append, ← List.append_assoc _ (List.map _ _) (List.map _ [_])] at h
  have hlengths := congrArg lastMarks h
  rw [List.map_singleton, lastMarks_append, lastMarks_append, slice_length_of_le reached_le_length,
    slice_length_of_le reached_le_length] at hlengths
  have hlow := @reached_mono _ offset marks _ _ hle
  have hhigh := @reached_mono _ offset marks _ _ (Nat.le_add_right q 1)
  rw [Nat.add_sub_cancel]
  omega

end Stretch

end Marks
