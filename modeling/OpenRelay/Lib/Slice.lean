/-
# Slices of an append-only stream

A stream is a list that only ever grows at its end. A slice `s[a..b]` is what
it holds between two offsets; a piece that starts at an offset is a prefix of
what follows it there (`Piece`). Pieces compose (`Piece.append`), can be
trimmed from the left (`Piece.drop`) and stay pieces when the stream grows
(`Piece.mono`); a slice grows by the piece that starts where it ends
(`slice_append_piece`).
-/
import Mathlib.Data.List.Basic
import Mathlib.Data.List.Infix

namespace Streams

variable {α : Type*}

/-- What the stream holds between the offsets `a` and `b`. -/
def slice (s : List α) (a b : ℕ) : List α := (s.drop a).take (b - a)

/-- `d` is what the stream holds from offset `a` on, for as long as `d` is. -/
structure Piece (s : List α) (a : ℕ) (d : List α) : Prop where
  bound : a + d.length ≤ s.length
  pre : d <+: s.drop a

@[simp] theorem slice_self (s : List α) (a : ℕ) : slice s a a = [] := by simp [slice]

theorem slice_length (s : List α) (a b : ℕ) : (slice s a b).length = min (b - a) (s.length - a) := by
  simp [slice]

theorem slice_length_of_le {s : List α} {a b : ℕ} (hb : b ≤ s.length) :
    (slice s a b).length = b - a := by
  rw [slice_length]; omega

theorem slice_zero (s : List α) (b : ℕ) : slice s 0 b = s.take b := by simp [slice]

theorem slice_append {s : List α} {a b c : ℕ} (hab : a ≤ b) (hbc : b ≤ c) :
    slice s a b ++ slice s b c = slice s a c := by
  unfold slice
  have hb : b = a + (b - a) := by omega
  have hc : c - a = (b - a) + (c - b) := by omega
  conv_lhs => rw [hb]
  rw [hc, List.take_add, ← List.drop_drop]
  congr 2 <;> omega

/-- A stream that grows keeps the slices it had. -/
theorem slice_mono {s t : List α} (h : s <+: t) {a b : ℕ} (hb : b ≤ s.length) :
    slice t a b = slice s a b := by
  obtain ⟨u, rfl⟩ := h
  rcases Nat.le_total a s.length with ha | ha
  · unfold slice
    rw [List.drop_append_of_le_length ha, List.take_append_of_le_length (by simp; omega)]
  · simp [slice, show b - a = 0 by omega]

theorem piece_nil {s : List α} {a : ℕ} (h : a ≤ s.length) : Piece s a [] :=
  ⟨by simpa using h, List.nil_prefix⟩

/-- A slice is a piece. -/
theorem piece_slice {s : List α} {a b : ℕ} (hab : a ≤ b) (hb : b ≤ s.length) :
    Piece s a (slice s a b) :=
  ⟨by rw [slice_length_of_le hb]; omega, List.take_prefix _ _⟩

/-- A place in a list that grew by one: it is the last one, or among the others. -/
theorem snoc_cases {s pre post : List α} {a b : α} (h : s ++ [a] = pre ++ b :: post) :
    (pre = s ∧ b = a ∧ post = []) ∨ ∃ post', s = pre ++ b :: post' ∧ post = post' ++ [a] := by
  rcases List.eq_nil_or_concat post with rfl | ⟨post', last, rfl⟩
  · obtain ⟨rfl, hlast⟩ := List.append_inj' h rfl
    cases hlast
    exact .inl ⟨rfl, rfl, rfl⟩
  · have h' : s ++ [a] = (pre ++ b :: post') ++ [last] := by simpa using h
    obtain ⟨rfl, hlast⟩ := List.append_inj' h' rfl
    cases hlast
    exact .inr ⟨post', rfl, by simp⟩

/-- The last `d.length` elements of a grown stream are a piece of it. -/
theorem piece_append_right (s d : List α) : Piece (s ++ d) s.length d :=
  ⟨by simp, by simp⟩

theorem Piece.mono {s t : List α} (h : s <+: t) {a : ℕ} {d : List α} (hd : Piece s a d) :
    Piece t a d := by
  obtain ⟨u, rfl⟩ := h
  have hb := hd.bound
  refine ⟨by simp; omega, hd.pre.trans ?_⟩
  rw [List.drop_append_of_le_length (by omega)]
  exact List.prefix_append _ _

/-- The piece without its first `k` elements starts `k` later. -/
theorem Piece.drop {s : List α} {a : ℕ} {d : List α} (hd : Piece s a d) {k : ℕ}
    (hk : k ≤ d.length) : Piece s (a + k) (d.drop k) := by
  have hb := hd.bound
  refine ⟨by simp; omega, ?_⟩
  obtain ⟨u, hu⟩ := hd.pre
  rw [← List.drop_drop, ← hu, List.drop_append_of_le_length hk]
  exact List.prefix_append _ _

/-- A piece and the piece that starts where it ends are one piece. -/
theorem Piece.append {s : List α} {a : ℕ} {d e : List α} (hd : Piece s a d)
    (he : Piece s (a + d.length) e) : Piece s a (d ++ e) := by
  have hb := he.bound
  refine ⟨by simp; omega, ?_⟩
  obtain ⟨u, hu⟩ := hd.pre
  have hs : s.drop (a + d.length) = u := by
    rw [← List.drop_drop, ← hu, List.drop_left]
  rw [← hu]
  exact (List.prefix_append_right_inj d).mpr (hs ▸ he.pre)

/-- A slice followed by the piece that starts at its end is the longer slice. -/
theorem slice_append_piece {s : List α} {a b : ℕ} {d : List α} (hab : a ≤ b) (hd : Piece s b d) :
    slice s a b ++ d = slice s a (b + d.length) := by
  rw [← slice_append hab (Nat.le_add_right b d.length)]
  congr 1
  obtain ⟨u, hu⟩ := hd.pre
  unfold slice
  rw [← hu, Nat.add_sub_cancel_left, List.take_left]

end Streams
