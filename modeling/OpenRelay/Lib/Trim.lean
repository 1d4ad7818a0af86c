/-
# Blanks around a text

A text without the blanks that it begins and ends with; what a blank is is a test of the
letters. The text is the trimmed one between blanks (`trim_between`), and no other one
that begins and ends with a letter that is none (`trim_of_between`).
-/
import Mathlib.Data.List.TakeWhile

namespace Texts

variable {α : Type*} {p : α → Bool}

/-- What `p` holds of is taken off both ends. -/
def trim (p : α → Bool) (text : List α) : List α := ((text.dropWhile p).reverse.dropWhile p).reverse

@[simp] theorem trim_nil : trim p [] = [] := rfl

theorem trim_between (p : α → Bool) (text : List α) :
    ∃ l r, text = l ++ trim p text ++ r ∧ (∀ a ∈ l, p a = true) ∧ ∀ a ∈ r, p a = true := by
  refine ⟨text.takeWhile p, ((text.dropWhile p).reverse.takeWhile p).reverse, ?_, fun a ha => List.mem_takeWhile_imp ha,
    fun a ha => List.mem_takeWhile_imp (List.mem_reverse.mp ha)⟩
  have hback : trim p text ++ ((text.dropWhile p).reverse.takeWhile p).reverse = text.dropWhile p := by
    rw [trim, ← List.reverse_append, List.takeWhile_append_dropWhile, List.reverse_reverse]
  rw [List.append_assoc, hback, List.takeWhile_append_dropWhile]

/-- A text of blanks. -/
theorem trim_of_blank {text : List α} (h : ∀ a ∈ text, p a = true) : trim p text = [] := by
  rw [trim, List.dropWhile_eq_nil_iff.mpr h]
  rfl

/-- Blanks, a text that neither begins nor ends with one, and blanks. -/
theorem trim_of_between {l core r : List α} (hl : ∀ a ∈ l, p a = true) (hr : ∀ a ∈ r, p a = true)
    (hhead : ∀ a ∈ core.head?, p a = false) (hlast : ∀ a ∈ core.getLast?, p a = false) :
    trim p (l ++ core ++ r) = core := by
  have hkept : ∀ {text : List α}, (∀ a ∈ text.head?, p a = false) → text.dropWhile p = text := by
    rintro (_ | ⟨a, text⟩) h
    · rfl
    · rw [List.dropWhile_cons, if_neg (by simp [h a rfl])]
  rcases List.eq_nil_or_concat core with rfl | ⟨before, last, rfl⟩
  · rw [List.append_nil]
    exact trim_of_blank fun a ha => (List.mem_append.mp ha).elim (hl a) (hr a)
  · have hfront : (l ++ before.concat last ++ r).dropWhile p = before.concat last ++ r := by
      rw [List.append_assoc, List.dropWhile_append_of_pos hl]
      refine hkept fun a ha => hhead a ?_
      cases before with
      | nil => simpa using ha
      | cons b before => simpa using ha
    rw [trim, hfront, List.reverse_append, List.dropWhile_append_of_pos (by simpa using hr), hkept, List.reverse_reverse]
    simpa using hlast

end Texts
