/-
# Big-endian numbers

A number below `256 ^ w` and its `w` bytes, most significant first: the bytes
of `LittleEndian` the other way round.

Key theorems: `beNat_beBytes`, `beBytes_injOn`.
-/
import OpenRelay.Lib.LittleEndian

namespace BigEndian

open LittleEndian

/-- The `w` low bytes of `n`, most significant first. -/
def beBytes (w n : ℕ) : List UInt8 := (leBytes w n).reverse

/-- The number whose bytes these are, most significant first. -/
def beNat (bs : List UInt8) : ℕ := leNat bs.reverse

@[simp] theorem beBytes_length (w n : ℕ) : (beBytes w n).length = w := by
  rw [beBytes, List.length_reverse, leBytes_length]

/-- A number that fits is read back. -/
theorem beNat_beBytes {w n : ℕ} (h : n < 256 ^ w) : beNat (beBytes w n) = n := by
  rw [beNat, beBytes, List.reverse_reverse, leNat_leBytes h]

/-- Numbers that fit have bytes of their own. -/
theorem beBytes_injOn {w n m : ℕ} (hn : n < 256 ^ w) (hm : m < 256 ^ w)
    (h : beBytes w n = beBytes w m) : n = m := by
  rw [← beNat_beBytes hn, h, beNat_beBytes hm]

end BigEndian
