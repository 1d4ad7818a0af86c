/-
# The window of the last lines

The tail of a text is found from its end: the loop counts the ends of lines until there are enough, twice as many as
are asked for and some more, and the window begins behind that one; or at the beginning of the text
(`session/logs/index.rs`). Where the window begins is said by what is behind it, so a suffix of the text that has
the window has it at the same place (`tailWindow_suffix`); and the window has the lines that are asked for
(`tailWindow_lines`).
-/
import OpenRelay.Basic
import Mathlib.Data.List.Basic
import Mathlib.Tactic.SplitIfs

namespace OpenRelay
namespace Session

def lineFeed : UInt8 := 10

/-- The end of some bytes, and where it starts. -/
structure TailBytes where
  bytes : Bytes
  startOffset : ℕ
  deriving DecidableEq, Repr

/-- The bytes come from the end on; `before` is what stands before the byte. -/
def tailLoop (linesNeeded : ℕ) : ℕ → Bytes → ℕ
  | _, [] => 0
  | linesFound, byte :: before =>
    if byte = lineFeed then
      if linesNeeded ≤ linesFound + 1 then before.length + 1 else tailLoop linesNeeded (linesFound + 1) before
    else tailLoop linesNeeded linesFound before

/-- No text in memory has so many lines that the sums would saturate. -/
def tailLinesNeeded (bytes : Bytes) (tail : ℕ) : ℕ :=
  max (tail * 2) 100 + if bytes.getLast? = some lineFeed then 1 else 0

/-- The last lines of some bytes. -/
def tailWindowBytes (bytes : Bytes) (tail : ℕ) : TailBytes :=
  if bytes = [] then ⟨[], 0⟩
  else
    let position := tailLoop (tailLinesNeeded bytes tail) 0 bytes.reverse
    ⟨bytes.drop position, position⟩

/-- Where the window begins. -/
def tailStart (bytes : Bytes) (tail : ℕ) : ℕ := (tailWindowBytes bytes tail).startOffset

section Loop

variable {needed : ℕ}

theorem tailLoop_step (found : ℕ) (byte : UInt8) (before : Bytes) :
    tailLoop needed found (byte :: before) =
      if byte = lineFeed then if needed ≤ found + 1 then before.length + 1 else tailLoop needed (found + 1) before
      else tailLoop needed found before := rfl

theorem tailLoop_le : ∀ (bytes : Bytes) (found : ℕ), tailLoop needed found bytes ≤ bytes.length
  | [], _ => Nat.le_refl _
  | byte :: before, found => by
    rw [tailLoop_step, List.length_cons]
    split_ifs
    · exact Nat.le_refl _
    · exact Nat.le_succ_of_le (tailLoop_le before (found + 1))
    · exact Nat.le_succ_of_le (tailLoop_le before found)

/-- A place that is found stays where it is with more bytes in front. -/
theorem tailLoop_append (front : Bytes) : ∀ (bytes : Bytes) (found : ℕ), 0 < tailLoop needed found bytes →
    tailLoop needed found (bytes ++ front) = tailLoop needed found bytes + front.length
  | [], _, h => absurd h (Nat.lt_irrefl 0)
  | byte :: before, found, h => by
    rw [tailLoop_step] at h ⊢
    rw [List.cons_append, tailLoop_step]
    split_ifs at h ⊢
    · rw [List.length_append]
      omega
    · exact tailLoop_append front before (found + 1) h
    · exact tailLoop_append front before found h

/-- The lines behind the place that is found. -/
theorem tailLoop_count : ∀ (bytes : Bytes) {found : ℕ}, found < needed → 0 < tailLoop needed found bytes →
    (bytes.take (bytes.length - tailLoop needed found bytes)).count lineFeed + found + 1 = needed
  | [], _, _, h => absurd h (Nat.lt_irrefl 0)
  | byte :: before, found, hfound, h => by
    rw [tailLoop_step] at h ⊢
    split_ifs at h ⊢ with hline henough
    · rw [List.length_cons, Nat.sub_self, List.take_zero, List.count_nil]
      omega
    · have hcount := tailLoop_count before (by omega) h
      rw [List.length_cons, Nat.succ_sub (tailLoop_le before _), List.take_succ_cons, hline, List.count_cons_self]
      omega
    · have hcount := tailLoop_count before hfound h
      rw [List.length_cons, Nat.succ_sub (tailLoop_le before _), List.take_succ_cons, List.count_cons_of_ne hline]
      exact hcount

end Loop

section Window

variable {S : Bytes} {start tail : ℕ}

theorem tailWindow_bytes (bytes : Bytes) (tail : ℕ) :
    (tailWindowBytes bytes tail).bytes = bytes.drop (tailStart bytes tail) := by
  unfold tailStart tailWindowBytes
  split_ifs with hnil
  · rw [hnil]
    rfl
  · rfl

theorem tailStart_nil (tail : ℕ) : tailStart [] tail = 0 := rfl

theorem tailStart_cons {bytes : Bytes} (h : bytes ≠ []) (tail : ℕ) :
    tailStart bytes tail = tailLoop (tailLinesNeeded bytes tail) 0 bytes.reverse := by
  unfold tailStart tailWindowBytes
  rw [if_neg h]

theorem tailStart_le (bytes : Bytes) (tail : ℕ) : tailStart bytes tail ≤ bytes.length := by
  by_cases hnil : bytes = []
  · rw [hnil, tailStart_nil]
    exact Nat.zero_le _
  · rw [tailStart_cons hnil, ← List.length_reverse]
    exact tailLoop_le _ 0

/-- **The window in a suffix** is the one in the whole text. -/
theorem tailWindow_suffix (hstart : start ≤ S.length) (h : 0 < tailStart (S.drop start) tail) :
    tailStart S tail = start + tailStart (S.drop start) tail := by
  have hne : S.drop start ≠ [] := fun hnil => by
    rw [hnil, tailStart_nil] at h
    exact Nat.lt_irrefl 0 h
  have hwhole : S ≠ [] := fun hnil => hne (by rw [hnil, List.drop_nil])
  have hsplit : S.reverse = (S.drop start).reverse ++ (S.take start).reverse := by
    rw [← List.reverse_append, List.take_append_drop]
  have hneeded : tailLinesNeeded S tail = tailLinesNeeded (S.drop start) tail := by
    unfold tailLinesNeeded
    rw [List.getLast?_drop, if_neg (fun hle => hne (List.drop_eq_nil_of_le hle))]
  rw [tailStart_cons hne] at h ⊢
  rw [tailStart_cons hwhole, hsplit, hneeded, tailLoop_append _ _ _ h, List.length_reverse, List.length_take,
    Nat.min_eq_left hstart, Nat.add_comm]

/-- **The window has the lines**, if it isn't the whole text. -/
theorem tailWindow_lines (h : 0 < tailStart S tail) : tail ≤ (S.drop (tailStart S tail)).count lineFeed := by
  have hne : S ≠ [] := fun hnil => by
    rw [hnil, tailStart_nil] at h
    exact Nat.lt_irrefl 0 h
  have hneeded : max (tail * 2) 100 ≤ tailLinesNeeded S tail := Nat.le_add_right _ _
  rw [tailStart_cons hne] at h ⊢
  have hcount := tailLoop_count S.reverse (by omega) h
  have hle := @tailLoop_le (tailLinesNeeded S tail) S.reverse 0
  rw [List.length_reverse] at hcount hle
  rw [List.take_reverse, List.count_reverse, Nat.sub_sub_self hle] at hcount
  omega

end Window

end Session
end OpenRelay
