/-
# Queues shared by many conversations

Messages of many conversations share one queue, each under its tag. The part of
one tag (`of`) is what that conversation sees of the queue: a message under another
tag does not show in it, and one under its own is at the same end of it.

Key theorems: `of_append`, `of_cons_self`, `of_cons_ne`.
-/
import Mathlib.Data.List.Basic

namespace Tagged

variable {ι α : Type*} [DecidableEq ι]

/-- The messages under one tag, in order. -/
def of (i : ι) (queue : List (ι × α)) : List α := (queue.filter fun m => m.1 = i).map Prod.snd

@[simp] theorem of_nil (i : ι) : of i ([] : List (ι × α)) = [] := rfl

@[simp] theorem of_append (i : ι) (l l' : List (ι × α)) : of i (l ++ l') = of i l ++ of i l' := by
  simp [of]

@[simp] theorem of_cons_self (i : ι) (a : α) (l : List (ι × α)) : of i ((i, a) :: l) = a :: of i l := by
  simp [of]

theorem of_cons_ne {i j : ι} (h : j ≠ i) (a : α) (l : List (ι × α)) : of i ((j, a) :: l) = of i l := by
  simp [of, h]

end Tagged
