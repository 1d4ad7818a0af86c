/-
# Texts by the byte

A text is sliced at byte positions, which is possible only between characters
(`slice`). Behind whole characters a slice is taken from the rest (`slice_append`).

Key theorem: `takeBytes_cons`.
-/
import Mathlib.Data.Nat.Notation

namespace Texts

/-- How many bytes the text has. -/
def byteLen : List Char → ℕ
  | [] => 0
  | c :: cs => c.utf8Size + byteLen cs

/-- What is behind the first `n` bytes, unless they end within a character. -/
def dropBytes : List Char → ℕ → Option (List Char)
  | [], n => if n = 0 then some [] else none
  | c :: cs, n =>
    if n = 0 then some (c :: cs)
    else if c.utf8Size ≤ n then dropBytes cs (n - c.utf8Size)
    else none

/-- The first `n` bytes, unless they end within a character. -/
def takeBytes : List Char → ℕ → Option (List Char)
  | [], n => if n = 0 then some [] else none
  | c :: cs, n =>
    if n = 0 then some []
    else if c.utf8Size ≤ n then (takeBytes cs (n - c.utf8Size)).map (c :: ·)
    else none

/-- The characters from byte `a` to byte `b`. -/
def slice (text : List Char) (a b : ℕ) : Option (List Char) := (dropBytes text a).bind (takeBytes · (b - a))

@[simp] theorem byteLen_nil : byteLen [] = 0 := rfl

@[simp] theorem byteLen_cons (c : Char) (cs : List Char) : byteLen (c :: cs) = c.utf8Size + byteLen cs := rfl

@[simp] theorem byteLen_append (cs ds : List Char) : byteLen (cs ++ ds) = byteLen cs + byteLen ds := by
  induction cs with
  | nil => simp
  | cons c cs ih => simp [ih, Nat.add_assoc]

@[simp] theorem dropBytes_zero (cs : List Char) : dropBytes cs 0 = some cs := by
  cases cs <;> simp [dropBytes]

@[simp] theorem takeBytes_zero (cs : List Char) : takeBytes cs 0 = some [] := by
  cases cs <;> simp [takeBytes]

theorem takeBytes_cons {c : Char} {n : ℕ} (cs : List Char) (hpos : 0 < n) :
    takeBytes (c :: cs) n = if c.utf8Size ≤ n then (takeBytes cs (n - c.utf8Size)).map (c :: ·) else none := by
  rw [takeBytes, if_neg (Nat.ne_of_gt hpos)]

theorem dropBytes_append (cs ds : List Char) : dropBytes (cs ++ ds) (byteLen cs) = some ds := by
  induction cs with
  | nil => simp
  | cons c cs ih =>
    have hpos := c.utf8Size_pos
    rw [List.cons_append, dropBytes, byteLen_cons, if_neg (by omega), if_pos (Nat.le_add_right _ _),
      Nat.add_sub_cancel_left, ih]

/-- Behind whole characters a slice is one of the rest. -/
theorem slice_append (cs ds : List Char) (n : ℕ) : slice (cs ++ ds) (byteLen cs) (byteLen cs + n) = takeBytes ds n := by
  rw [slice, dropBytes_append, Option.bind_some, Nat.add_sub_cancel_left]

theorem byteLen_eq_zero {cs : List Char} : byteLen cs = 0 ↔ cs = [] := by
  cases cs with
  | nil => exact iff_of_true rfl rfl
  | cons c cs =>
    have hpos := c.utf8Size_pos
    exact iff_of_false (by rw [byteLen_cons]; omega) (List.cons_ne_nil _ _)

end Texts
