/-
# How far a word has begun

The longest end of a text that begins a word: where a scanner for the word is after
the text. It depends on the text before only through where the scanner was
(`overlap_concat`), and it is the whole word where the text ends with it
(`overlap_eq_self`).

Key theorem: `overlap_longest`.
-/
import Mathlib.Data.List.Infix

namespace Overlap

variable {α : Type*} [DecidableEq α]

/-- The longest end of the text that begins the word. -/
def overlap (word : List α) : List α → List α
  | [] => []
  | c :: text => if c :: text <+: word then c :: text else overlap word text

theorem overlap_ends (word : List α) : ∀ text : List α, overlap word text <:+ text
  | [] => List.suffix_rfl
  | c :: text => by
    unfold overlap
    split_ifs
    · exact List.suffix_rfl
    · exact (overlap_ends word text).trans (List.suffix_cons c text)

theorem overlap_begins (word : List α) : ∀ text : List α, overlap word text <+: word
  | [] => List.nil_prefix
  | c :: text => by
    unfold overlap
    split_ifs with h
    · exact h
    · exact overlap_begins word text

/-- No other end that begins the word is longer. -/
theorem overlap_longest {word s : List α} : ∀ {text : List α}, s <:+ text → s <+: word → s <:+ overlap word text
  | [], hs, _ => hs
  | c :: text, hs, hw => by
    unfold overlap
    split_ifs with h
    · exact hs
    · rcases List.suffix_cons_iff.mp hs with rfl | hs
      · exact absurd hw h
      · exact overlap_longest hs hw

theorem overlap_self {word text : List α} (h : text <+: word) : overlap word text = text :=
  ((overlap_ends word text).eq_of_length_le (overlap_longest List.suffix_rfl h).length_le)

/-- The next place depends on the text through the place before only. -/
theorem overlap_concat (word text : List α) (c : α) :
    overlap word (text ++ [c]) = overlap word (overlap word text ++ [c]) := by
  have hends : overlap word text ++ [c] <:+ text ++ [c] :=
    (List.suffix_append_inj_of_length_eq rfl).mpr ⟨overlap_ends word text, rfl⟩
  have hle : overlap word (overlap word text ++ [c]) <:+ overlap word (text ++ [c]) :=
    overlap_longest ((overlap_ends word _).trans hends) (overlap_begins word _)
  have hge : overlap word (text ++ [c]) <:+ overlap word (overlap word text ++ [c]) := by
    rcases List.suffix_concat_iff.mp (overlap_ends word (text ++ [c])) with hnil | ⟨s, hs, hsuffix⟩
    · rw [hnil]
      exact List.nil_suffix
    · have hbegins : s ++ [c] <+: word := hs ▸ overlap_begins word (text ++ [c])
      rw [hs]
      refine overlap_longest ?_ hbegins
      exact (List.suffix_append_inj_of_length_eq rfl).mpr
        ⟨overlap_longest hsuffix ((List.prefix_append s [c]).trans hbegins), rfl⟩
  exact hge.eq_of_length_le hle.length_le

/-- The scanner has the whole word where the text ends with it. -/
theorem overlap_eq_self {word text : List α} : overlap word text = word ↔ word <:+ text := by
  constructor
  · intro h
    rw [← h]
    exact overlap_ends word text
  · intro h
    exact ((overlap_begins word text).eq_of_length_le (overlap_longest h List.prefix_rfl).length_le)

end Overlap
