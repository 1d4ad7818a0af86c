/-
# Base64, there and back

What the daemon and its clients encode, a decoder of padded base64 reads again
(`decodePadded_base64`). Whole groups of three bytes are encoded by themselves
(`base64_append`), so a text can be written group by group with what is left of a group
at the end.
-/
import OpenRelay.Ipc.Response

namespace OpenRelay
namespace Ipc

open Pty (decodeDigits decodeNoPad decodePadded)

/-- **Whole groups are encoded by themselves.** -/
theorem base64_append : ∀ {xs : Bytes}, xs.length % 3 = 0 → ∀ ys, base64 (xs ++ ys) = base64 xs ++ base64 ys
  | [], _, ys => rfl
  | [a], h, _ => by cases h
  | [a, b], h, _ => by cases h
  | a :: b :: c :: xs, h, ys => by
    have hxs : xs.length % 3 = 0 := by
      simp only [List.length_cons] at h
      omega
    simp only [List.cons_append, base64, base64_append hxs]

/-- The digits of a text. -/
def sextets : Bytes → List ℕ
  | a :: b :: c :: rest =>
    let n := (a.toNat * 256 + b.toNat) * 256 + c.toNat
    n / 262144 :: n / 4096 % 64 :: n / 64 % 64 :: n % 64 :: sextets rest
  | [a, b] =>
    let n := (a.toNat * 256 + b.toNat) * 4
    [n / 4096, n / 64 % 64, n % 64]
  | [a] => [a.toNat / 4, a.toNat % 4 * 16]
  | [] => []

theorem sextets_lt : ∀ {bs : Bytes}, ∀ n ∈ sextets bs, n < 64
  | [], n, h => by cases h
  | [a], n, h => by
    have ha := a.toNat_lt
    simp only [sextets, List.mem_cons, List.not_mem_nil, or_false] at h
    omega
  | [a, b], n, h => by
    have ha := a.toNat_lt
    have hb := b.toNat_lt
    simp only [sextets, List.mem_cons, List.not_mem_nil, or_false] at h
    omega
  | a :: b :: c :: rest, n, h => by
    have ha := a.toNat_lt
    have hb := b.toNat_lt
    have hc := c.toNat_lt
    simp only [sextets, List.mem_cons] at h
    rcases h with h | h | h | h | h
    · omega
    · omega
    · omega
    · omega
    · exact sextets_lt n h

/-- How many signs of padding follow. -/
def padding (bs : Bytes) : ℕ := (3 - bs.length % 3) % 3

theorem base64_eq : ∀ bs : Bytes, base64 bs = (sextets bs).map base64Digit ++ List.replicate (padding bs) 61
  | [] => rfl
  | [a] => rfl
  | [a, b] => rfl
  | a :: b :: c :: rest => by
    have hpadding : padding (a :: b :: c :: rest) = padding rest := by
      simp only [padding, List.length_cons]
      omega
    rw [base64, sextets, base64_eq rest, hpadding]
    rfl

theorem base64Digit_base64Digit {n : ℕ} (h : n < 64) : Pty.base64Digit (base64Digit n) = some n := by
  have hall : ∀ m : Fin 64, Pty.base64Digit (base64Digit m) = some m.val := by decide
  exact hall ⟨n, h⟩

theorem base64Digit_ne_pad {n : ℕ} (h : n < 64) : base64Digit n ≠ 61 := by
  intro heq
  have hdigit := base64Digit_base64Digit h
  rw [heq] at hdigit
  cases hdigit

theorem mapM_base64Digit : ∀ {ds : List ℕ}, (∀ n ∈ ds, n < 64) → (ds.map base64Digit).mapM Pty.base64Digit = some ds
  | [], _ => rfl
  | d :: ds, h => by
    rw [List.map_cons, List.mapM_cons, base64Digit_base64Digit (h d List.mem_cons_self),
      mapM_base64Digit fun n hn => h n (List.mem_cons_of_mem d hn)]
    rfl

/-- Three bytes and their four digits. -/
theorem group_eq (a b c : UInt8) :
    let n := (a.toNat * 256 + b.toNat) * 256 + c.toNat
    4 * (n / 262144) + n / 4096 % 64 / 16 = a.toNat ∧ 16 * (n / 4096 % 64 % 16) + n / 64 % 64 / 4 = b.toNat ∧
      64 * (n / 64 % 64 % 4) + n % 64 = c.toNat := by
  have ha := a.toNat_lt
  have hb := b.toNat_lt
  have hc := c.toNat_lt
  dsimp only
  generalize a.toNat = x at *
  generalize b.toNat = y at *
  generalize c.toNat = z at *
  omega

theorem decodeDigits_sextets : ∀ bs : Bytes, decodeDigits (sextets bs) = some bs
  | [] => rfl
  | [a] => by
    have ha := a.toNat_lt
    have hbits : 4 * (a.toNat / 4) + a.toNat % 4 * 16 / 16 = a.toNat := by omega
    simp only [sextets, decodeDigits]
    rw [if_pos (by omega), hbits, UInt8.ofNat_toNat]
  | [a, b] => by
    have ha := a.toNat_lt
    have hb := b.toNat_lt
    have hfirst : 4 * ((a.toNat * 256 + b.toNat) * 4 / 4096) + (a.toNat * 256 + b.toNat) * 4 / 64 % 64 / 16 = a.toNat := by
      omega
    have hlast : 16 * ((a.toNat * 256 + b.toNat) * 4 / 64 % 64 % 16) + (a.toNat * 256 + b.toNat) * 4 % 64 / 4 = b.toNat := by
      omega
    simp only [sextets, decodeDigits]
    rw [if_pos (by omega), hfirst, hlast, UInt8.ofNat_toNat, UInt8.ofNat_toNat]
  | a :: b :: c :: rest => by
    obtain ⟨ha, hb, hc⟩ := group_eq a b c
    simp only [sextets, decodeDigits]
    rw [decodeDigits_sextets rest, ha, hb, hc]
    simp

theorem length_sextets : ∀ bs : Bytes, (sextets bs).length + padding bs = 4 * ((bs.length + 2) / 3)
  | [] => rfl
  | [a] => by simp [sextets, padding]
  | [a, b] => by simp [sextets, padding]
  | a :: b :: c :: rest => by
    have hrest := length_sextets rest
    simp only [sextets, padding, List.length_cons] at hrest ⊢
    omega

/-- The padding is all that is stripped. -/
theorem unpadded (bs : Bytes) :
    ((base64 bs).reverse.dropWhile (· == 61)).reverse = (sextets bs).map base64Digit := by
  have hdigits : ∀ d ∈ ((sextets bs).map base64Digit).reverse.head?, d ≠ 61 := by
    intro d hd
    obtain ⟨n, hn, rfl⟩ := List.mem_map.mp (List.mem_reverse.mp (List.mem_of_mem_head? hd))
    exact base64Digit_ne_pad (sextets_lt n hn)
  rw [base64_eq, List.reverse_append, List.reverse_replicate, List.dropWhile_append_of_pos (by simp)]
  rcases hhead : ((sextets bs).map base64Digit).reverse with _ | ⟨d, ds⟩
  · rw [List.reverse_eq_nil_iff.mp hhead]
    rfl
  · have hd : d ≠ 61 := hdigits d (by rw [hhead]; rfl)
    rw [List.dropWhile_cons_of_neg (by simpa using hd), ← hhead, List.reverse_reverse]

/-- **What was encoded is decoded.** -/
theorem decodePadded_base64 (bs : Bytes) : decodePadded (base64 bs) = some bs := by
  have hlt := @sextets_lt bs
  have hlength := length_sextets bs
  have hpadding : padding bs < 4 := by
    unfold padding
    omega
  have htext : (base64 bs).length = (sextets bs).length + padding bs := by
    rw [base64_eq, List.length_append, List.length_map, List.length_replicate]
  unfold decodePadded
  dsimp only
  rw [unpadded bs, List.length_map, if_pos (by omega), decodeNoPad, mapM_base64Digit hlt, Option.bind_some,
    decodeDigits_sextets]

end Ipc
end OpenRelay
