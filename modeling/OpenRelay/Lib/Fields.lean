/-
# Fields one after another

A reader takes fields of known length off the front of a list. A field is read back
from in front of anything (`splitOff_append`); what is cut off somewhere is cut off
within the field, or behind it (`splitOff_prefix`).

A field of any length is written behind its length. If lengths are written with one
width, each in its own way, then fields in a row can be told apart: the list of them
is given by what they come to (`framedAll_injective`).

Key theorem: `framed_append_inj`.
-/
import Mathlib.Data.List.Basic

namespace Fields

variable {α : Type*} {n : ℕ} {a b p : List α}

/-- The first `n`, if there are that many, and the rest. -/
def splitOff (n : ℕ) (bytes : List α) : Option (List α × List α) :=
  if bytes.length < n then none else some (bytes.take n, bytes.drop n)

theorem splitOff_append (ha : a.length = n) (b : List α) : splitOff n (a ++ b) = some (a, b) := by
  unfold splitOff
  rw [if_neg (by rw [List.length_append]; omega), List.take_left' ha, List.drop_left' ha]

/-- A beginning of a field and the rest: without the whole field, or with it and a
beginning of the rest. -/
theorem splitOff_prefix (ha : a.length = n) (hp : p <+: a ++ b) :
    splitOff n p = none ∨ ∃ q, q <+: b ∧ p = a ++ q ∧ splitOff n p = some (a, q) := by
  by_cases hlen : p.length < n
  · exact .inl (if_pos hlen)
  · obtain ⟨q, rfl⟩ : a <+: p := List.prefix_of_prefix_length_le (List.prefix_append a b) hp (by omega)
    exact .inr ⟨q, (List.prefix_append_right_inj a).mp hp, rfl, splitOff_append ha q⟩

/-- What fails on every strict beginning of the rest fails behind a field too. -/
theorem bind_splitOff_prefix {β : Type*} {f : List α × List α → Option β} (ha : a.length = n) (hp : p <+: a ++ b)
    (hne : p ≠ a ++ b) (hrest : ∀ q, q <+: b → q ≠ b → f (a, q) = none) : (splitOff n p).bind f = none := by
  rcases splitOff_prefix ha hp with hnone | ⟨q, hq, rfl, hsome⟩
  · rw [hnone]
    rfl
  · rw [hsome]
    exact hrest q hq fun h => hne (congrArg _ h)

/-! ### Framed fields -/

/-- A field behind its length. -/
def framed (size : ℕ → List α) (field : List α) : List α := size field.length ++ field

/-- Fields one behind another, each with its length in front. -/
def framedAll (size : ℕ → List α) (fields : List (List α)) : List α := fields.flatMap (framed size)

section Framed

variable {size : ℕ → List α} {w bound : ℕ}

/-- The lengths below the bound are written with one width, each in its own way. -/
structure Sizes (size : ℕ → List α) (w bound : ℕ) : Prop where
  width : ∀ n, (size n).length = w
  injective : ∀ {n m}, n < bound → m < bound → size n = size m → n = m

/-- A framed field in front of anything is given by what it comes to. -/
theorem framed_append_inj (hsize : Sizes size w bound) {x y : List α} (ha : a.length < bound) (hb : b.length < bound)
    (h : framed size a ++ x = framed size b ++ y) : a = b ∧ x = y := by
  unfold framed at h
  rw [List.append_assoc, List.append_assoc] at h
  obtain ⟨hlen, hrest⟩ := List.append_inj h ((hsize.width _).trans (hsize.width _).symm)
  exact List.append_inj hrest (hsize.injective ha hb hlen)

/-- **Fields in a row** are given by what they come to, if there are equally many. -/
theorem framedAll_injective (hsize : Sizes size w bound) : ∀ {xs ys : List (List α)}, xs.length = ys.length →
    (∀ x ∈ xs, x.length < bound) → (∀ y ∈ ys, y.length < bound) → framedAll size xs = framedAll size ys → xs = ys
  | [], [], _, _, _, _ => rfl
  | [], _ :: _, hlen, _, _, _ => by cases hlen
  | _ :: _, [], hlen, _, _, _ => by cases hlen
  | x :: xs, y :: ys, hlen, hxs, hys, h => by
    unfold framedAll at h
    rw [List.flatMap_cons, List.flatMap_cons] at h
    obtain ⟨hxy, hrest⟩ := framed_append_inj hsize (hxs x List.mem_cons_self) (hys y List.mem_cons_self) h
    rw [hxy, framedAll_injective hsize (Nat.succ.inj hlen) (fun x' h' => hxs x' (List.mem_cons_of_mem _ h'))
      (fun y' h' => hys y' (List.mem_cons_of_mem _ h')) hrest]

end Framed

end Fields
